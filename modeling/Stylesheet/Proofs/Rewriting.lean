import Stylesheet.Proofs.Arena

/-!
# Rewriting the parts of an arena in place

Evaluation goes through the parts of an arena from left to right.  Each part
takes up a run of numbers; rewriting it may change nodes of that run and add
nodes behind all others.  If the runs do not overlap, then after all rewrites
each part is what its own rewrite made of it.
-/

namespace Stylesheet

/-- A way to rewrite parts of an arena: the run of numbers of a part, the tree
it is before, and the tree it is afterwards if the next new number is the given
one. -/
structure Rewriting (α : Type) where
  first : α → Nat
  last : α → Nat
  before : α → Tree
  after : Nat → α → Tree
  added : α → Nat
  write : Arena → α → Arena
  first_le_last : ∀ x, first x ≤ last x
  mem_ids_before : ∀ {x : α} {id : Int},
    id ∈ (before x).ids ↔ (first x : Int) ≤ id ∧ id ≤ last x
  rootId_after : ∀ fresh x, (after fresh x).rootId = (last x : Int)
  mem_ids_after : ∀ {fresh : Nat} {x : α} {id : Int}, id ∈ (after fresh x).ids →
    ((first x : Int) ≤ id ∧ id ≤ last x) ∨ (fresh : Int) ≤ id
  size_write : ∀ a x, (write a x).size = a.size + added x
  root_write : ∀ a x, (write a x).root = a.root
  node?_write : ∀ {a : Arena} {x : α} {id : Int}, id < a.size →
    (id < first x ∨ (last x : Int) < id) → (write a x).node? id = a.node? id
  holds_write : ∀ {a : Arena} {x : α}, a.Holds (before x) →
    (write a x).Holds (after a.size x)

namespace Rewriting

variable {α : Type} (p : Rewriting α)

/-- The parts stand one behind the other. -/
def Ordered (xs : List α) : Prop :=
  xs.Pairwise fun x y => p.last x < p.first y

/-- The trees of the parts after all of them are rewritten. -/
def afterAll (fresh : Nat) : List α → List Tree
  | [] => []
  | x :: xs => p.after fresh x :: afterAll (fresh + p.added x) xs

def addedAll : List α → Nat
  | [] => 0
  | x :: xs => p.added x + addedAll xs

theorem size_writeAll (xs : List α) (a : Arena) :
    (xs.foldl p.write a).size = a.size + p.addedAll xs := by
  induction xs generalizing a with
  | nil => rfl
  | cons x xs ih =>
      rw [List.foldl_cons, ih, p.size_write, addedAll, Nat.add_assoc]

theorem root_writeAll (xs : List α) (a : Arena) :
    (xs.foldl p.write a).root = a.root := by
  induction xs generalizing a with
  | nil => rfl
  | cons x xs ih => rw [List.foldl_cons, ih, p.root_write]

/-- Rewriting leaves the nodes of all other parts as they are. -/
theorem node?_writeAll
    {xs : List α} {a : Arena} {id : Int} (hlt : id < a.size)
    (hout : ∀ x ∈ xs, id < p.first x ∨ (p.last x : Int) < id) :
    (xs.foldl p.write a).node? id = a.node? id := by
  induction xs generalizing a with
  | nil => rfl
  | cons x xs ih =>
      rw [List.forall_mem_cons] at hout
      have hlt' : id < (p.write a x).size := by
        rw [p.size_write]
        omega
      rw [List.foldl_cons, ih hlt' hout.2, p.node?_write hlt hout.1]

/-- What does not depend on new numbers is the same for the rewritten parts as
for the parts. -/
theorem map_afterAll
    {β : Type} {f : Tree → β} {g : α → β} {xs : List α}
    (h : ∀ x ∈ xs, ∀ fresh, f (p.after fresh x) = g x) (fresh : Nat) :
    (p.afterAll fresh xs).map f = xs.map g := by
  induction xs generalizing fresh with
  | nil => rfl
  | cons x xs ih =>
      rw [List.forall_mem_cons] at h
      rw [afterAll, List.map_cons, List.map_cons, h.1, ih h.2]

theorem flatMap_afterAll
    {β : Type} {f : Tree → List β} {g : α → List β} {xs : List α}
    (h : ∀ x ∈ xs, ∀ fresh, f (p.after fresh x) = g x) (fresh : Nat) :
    (p.afterAll fresh xs).flatMap f = xs.flatMap g := by
  rw [List.flatMap_def, List.flatMap_def, p.map_afterAll h]

theorem filterMap_afterAll
    {β : Type} {f : Tree → Option β} {g : α → Option β} {xs : List α}
    (h : ∀ x ∈ xs, ∀ fresh, f (p.after fresh x) = g x) (fresh : Nat) :
    (p.afterAll fresh xs).filterMap f = xs.filterMap g := by
  have hmap := congrArg (List.filterMap fun y => y) (p.map_afterAll h fresh)
  rwa [List.filterMap_map, List.filterMap_map] at hmap

theorem rootId_afterAll (xs : List α) (fresh : Nat) :
    (p.afterAll fresh xs).map Tree.rootId = xs.map fun x =>
      (p.last x : NodeId) :=
  p.map_afterAll (fun x _ fresh => p.rootId_after fresh x) fresh

theorem exists_of_mem_afterAll
    {xs : List α} {fresh : Nat} {t : Tree} (ht : t ∈ p.afterAll fresh xs) :
    ∃ x ∈ xs, ∃ fresh', fresh ≤ fresh' ∧ t = p.after fresh' x := by
  induction xs generalizing fresh with
  | nil => cases ht
  | cons x xs ih =>
      rw [afterAll, List.mem_cons] at ht
      rcases ht with rfl | ht
      · exact ⟨x, List.mem_cons_self, fresh, Nat.le_refl _, rfl⟩
      · obtain ⟨y, hy, fresh', hle, rfl⟩ := ih ht
        exact ⟨y, List.mem_cons_of_mem _ hy, fresh', by omega, rfl⟩

theorem exists_mem_afterAll
    {xs : List α} {x : α} (hx : x ∈ xs) (fresh : Nat) :
    ∃ fresh', p.after fresh' x ∈ p.afterAll fresh xs := by
  induction xs generalizing fresh with
  | nil => cases hx
  | cons y xs ih =>
      rw [List.mem_cons] at hx
      rcases hx with rfl | hx
      · exact ⟨fresh, List.mem_cons_self⟩
      · obtain ⟨fresh', hmem⟩ := ih hx (fresh + p.added y)
        exact ⟨fresh', List.mem_cons_of_mem _ hmem⟩

theorem noted_afterAll
    {notes : NodeId → Option Diagnostic} {xs : List α}
    (h : ∀ x ∈ xs, ∀ fresh, (p.after fresh x).noted notes = p.after fresh x)
    (fresh : Nat) :
    (p.afterAll fresh xs).map (Tree.noted notes) = p.afterAll fresh xs := by
  refine (List.map_congr_left fun t ht => ?_).trans (List.map_id _)
  obtain ⟨x, hx, fresh', -, rfl⟩ := p.exists_of_mem_afterAll ht
  exact h x hx fresh'

theorem holds_afterAll
    {xs : List α} {a : Arena} (h : ∀ x ∈ xs, a.Holds (p.before x))
    (hordered : p.Ordered xs) :
    ∀ t ∈ p.afterAll a.size xs, (xs.foldl p.write a).Holds t := by
  induction xs generalizing a with
  | nil => simp [afterAll]
  | cons x xs ih =>
      rw [List.forall_mem_cons] at h
      obtain ⟨hbefore, hordered⟩ := List.pairwise_cons.mp hordered
      -- The parts behind `x` are still as they were when their turn comes.
      have hrest : ∀ y ∈ xs, (p.write a x).Holds (p.before y) := by
        intro y hy
        refine (h.2 y hy).congr fun id hid =>
          p.node?_write ((h.2 y hy).lt_size hid) (.inr ?_)
        have hlt := hbefore y hy
        have hle := (p.mem_ids_before.mp hid).1
        omega
      have hmore := ih hrest hordered
      rw [p.size_write] at hmore
      rw [afterAll, List.forall_mem_cons, List.foldl_cons]
      -- And what became of `x` is not touched by what happens to them.
      refine ⟨(p.holds_write h.1).congr fun id hid => ?_, hmore⟩
      refine p.node?_writeAll ((p.holds_write h.1).lt_size hid) fun y hy => ?_
      have hlt := hbefore y hy
      have hle := p.first_le_last y
      have hsize : (p.last y : Int) < a.size :=
        (h.2 y hy).lt_size
          (p.mem_ids_before.mpr ⟨Int.ofNat_le.mpr hle, Int.le_refl _⟩)
      rcases p.mem_ids_after hid with hid | hid <;> omega

end Rewriting
end Stylesheet
