/-!
# Scopes

A chain of frames that bind names to values: the global frame, which is always
there, and the frames opened inside it.  A name is looked up in the innermost
frame that binds it.
-/

namespace Stylesheet

/-- The bindings of one frame, the latest first. -/
abbrev Frame (α : Type) := List (String × α)

/-- The frames that are open: `inner` with the innermost first, and around them
the global one. -/
structure Scope (α : Type) where
  inner : List (Frame α)
  global : Frame α

namespace Scope

variable {α : Type}

/-- Only the global frame, with nothing in it. -/
def empty : Scope α := ⟨[], []⟩

/-- The frames, innermost first. -/
def frames (s : Scope α) : List (Frame α) :=
  s.inner ++ [s.global]

/-- The number of frames, the global one included. -/
def depth (s : Scope α) : Nat :=
  s.inner.length + 1

/-- Opens a frame. -/
def push (s : Scope α) : Scope α :=
  ⟨[] :: s.inner, s.global⟩

/-- Closes the innermost frame; the global one cannot be closed. -/
def pop? (s : Scope α) : Option (Scope α) :=
  match s.inner with
  | [] => none
  | _ :: outer => some ⟨outer, s.global⟩

/-- Binds a name in the innermost frame. -/
def define (name : String) (value : α) (s : Scope α) : Scope α :=
  match s.inner with
  | [] => ⟨[], (name, value) :: s.global⟩
  | frame :: outer => ⟨((name, value) :: frame) :: outer, s.global⟩

/-- The value of a name in the innermost frame that binds it. -/
def lookup? (name : String) (s : Scope α) : Option α :=
  s.frames.findSome? (List.lookup name)

end Scope
end Stylesheet
