/-!
# Runs of code points

Character properties are given as runs of code points at equal distances: many
alphabets put their upper-case letters side by side, others alternate them with
the lower-case ones.
-/

namespace Stylesheet.Text

/-- The code points `first`, `first + step` and so on, up to `last`. -/
structure CodeRun where
  first : Nat
  last : Nat
  step : Nat

/-- Whether a character is in the run. -/
def CodeRun.contains (run : CodeRun) (c : Char) : Bool :=
  run.first ≤ c.toNat && c.toNat ≤ run.last
    && (c.toNat - run.first) % run.step == 0

end Stylesheet.Text
