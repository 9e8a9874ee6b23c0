import Mathlib.Data.List.Basic
import Stylesheet.Scope

/-!
# Frames and names

What opening a frame and binding a name do to every look-up, and to the frames
that are left when the innermost one is closed.
-/

namespace Stylesheet.Scope

variable {α : Type}

@[simp] theorem lookup?_empty (name : String) :
    (empty : Scope α).lookup? name = none := rfl

@[simp] theorem lookup?_push (name : String) (s : Scope α) :
    s.push.lookup? name = s.lookup? name := rfl

theorem lookup?_define (name other : String) (value : α) (s : Scope α) :
    (s.define name value).lookup? other =
      if other = name then some value else s.lookup? other := by
  obtain ⟨inner, global⟩ := s
  by_cases h : other = name
  · subst h
    cases inner <;> simp [lookup?, frames, define]
  · have hbeq : (other == name) = false := beq_false_of_ne h
    cases inner <;>
      simp [lookup?, frames, define, List.lookup_cons, List.findSome?_cons,
        hbeq, h]

@[simp] theorem pop?_push (s : Scope α) : s.push.pop? = some s := rfl

/-- A name is bound inside the innermost frame, so the others are as before. -/
theorem pop?_define {s outer : Scope α} (h : s.pop? = some outer)
    (name : String) (value : α) :
    (s.define name value).pop? = some outer := by
  obtain ⟨inner, global⟩ := s
  cases inner with
  | nil => cases h
  | cons frame outer => exact h

end Stylesheet.Scope
