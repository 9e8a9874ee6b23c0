import Stylesheet.Scope.Program

/-!
# Histories of a scope

What the steps of a program do to a scope, as a list of single events.  A block
closes its frame also behind a failure, and closes another one, or none, if its
steps closed its own.  The history of a step tells the scope that the step
leaves, and what it answers to the look-ups in it.
-/

namespace Stylesheet.Scope

variable {α : Type}

/-! ## Histories -/

/-- What can happen to a scope. -/
inductive Event (α : Type) where
  | opened
  | closed
  /-- The global frame was to be closed. -/
  | refused
  | bound (name : String) (value : α)
  | asked (name : String) (found : Option α)

namespace Event

/-- The scope behind an event. -/
def apply : Event α → Scope α → Scope α
  | opened, s => s.push
  | closed, s => s.pop?.getD s
  | bound name value, s => s.define name value
  | refused, s | asked _ _, s => s

/-- The event can take place in the scope. -/
def Fits : Event α → Scope α → Prop
  | closed, s => s.inner ≠ []
  | refused, s => s.inner = []
  | asked name found, s => found = s.lookup? name
  | opened, _ | bound _ _, _ => True

/-- The answer to a look-up. -/
def found? : Event α → Option (Option α)
  | asked _ found => some found
  | _ => none

end Event

/-- The scope behind a history that begins in `s`. -/
def replay (events : List (Event α)) (s : Scope α) : Scope α :=
  events.foldl (fun s event => event.apply s) s

/-- Each event of the history can take place in the scope that the events before
it leave. -/
def FitAll : List (Event α) → Scope α → Prop
  | [], _ => True
  | event :: events, s => event.Fits s ∧ FitAll events (event.apply s)

/-- What happens when the innermost frame is to be closed. -/
def closing (s : Scope α) : Event α :=
  if s.inner = [] then .refused else .closed

mutual

/-- What happens in the course of a step. -/
def Step.events : Step α → Scope α → List (Event α)
  | .push, _ => [.opened]
  | .pop, s => [closing s]
  | .define name value, _ => [.bound name value]
  | .lookup name, s => [.asked name (s.lookup? name)]
  | .depth, _ => []
  | .scoped steps, s =>
      .opened :: (blockEvents steps s.push
        ++ [closing (runBlock steps s.push).2])
  | .fail _, _ => []

/-- What happens in the steps of a block, up to the first failure. -/
def blockEvents : List (Step α) → Scope α → List (Event α)
  | [], _ => []
  | step :: steps, s =>
      step.events s ++
        match (step.run s).1 with
        | .error _ => []
        | .ok _ => blockEvents steps (step.run s).2

end

/-- The history of a program.  A step that fails does not keep the next one from
being run. -/
def history : List (Step α) → Scope α → List (Event α)
  | [], _ => []
  | step :: steps, s => step.events s ++ history steps (step.run s).2

/-- The scope behind the steps of a program. -/
def afterProgram (steps : List (Step α)) (s : Scope α) : Scope α :=
  steps.foldl (fun s step => (step.run s).2) s

mutual

/-- The answers to the look-ups in what a step answers, in order. -/
def Answer.looked : Answer α → List (Option α)
  | .found value => [value]
  | .block answers => lookedIn answers
  | .done | .depth _ | .failed _ => []

def lookedIn : List (Answer α × Nat) → List (Option α)
  | [] => []
  | (answer, _) :: answers => answer.looked ++ lookedIn answers

end

/-! ## What a step does is told by its history -/

@[simp] theorem replay_append (first second : List (Event α)) (s : Scope α) :
    replay (first ++ second) s = replay second (replay first s) :=
  List.foldl_append

@[simp] theorem fitAll_append {first second : List (Event α)} {s : Scope α} :
    FitAll (first ++ second) s ↔
      FitAll first s ∧ FitAll second (replay first s) := by
  induction first generalizing s with
  | nil => exact (and_iff_right trivial).symm
  | cons event events ih =>
      rw [List.cons_append, FitAll, FitAll, ih, and_assoc]
      rfl

@[simp] theorem closing_global (global : Frame α) :
    closing ⟨[], global⟩ = .refused := rfl

@[simp] theorem closing_inner (frame : Frame α) (outer : List (Frame α))
    (global : Frame α) :
    closing ⟨frame :: outer, global⟩ = .closed := rfl

@[simp] theorem apply_closed (frame : Frame α) (outer : List (Frame α))
    (global : Frame α) :
    Event.closed.apply ⟨frame :: outer, global⟩ = ⟨outer, global⟩ := rfl

theorem fits_closing (s : Scope α) : (closing s).Fits s := by
  unfold closing
  split <;> assumption

section Blocks

variable {step : Step α} {steps : List (Step α)} {s : Scope α}

theorem runBlock_cons_of_error {message : String}
    (h : (step.run s).1 = .error message) :
    runBlock (step :: steps) s = (.error message, (step.run s).2) := by
  rw [runBlock, h]

theorem runBlock_cons_of_ok {answer : Answer α}
    (h : (step.run s).1 = .ok answer) :
    runBlock (step :: steps) s =
      ((runBlock steps (step.run s).2).1.map
        ((answer, (step.run s).2.depth) :: ·),
        (runBlock steps (step.run s).2).2) := by
  rw [runBlock, h]

theorem blockEvents_cons_of_error {message : String}
    (h : (step.run s).1 = .error message) :
    blockEvents (step :: steps) s = step.events s := by
  rw [blockEvents, h, List.append_nil]

theorem blockEvents_cons_of_ok {answer : Answer α}
    (h : (step.run s).1 = .ok answer) :
    blockEvents (step :: steps) s = step.events s
      ++ blockEvents steps (step.run s).2 := by
  rw [blockEvents, h]

end Blocks

/-- The events tell how a run that begins in `s` ends: the scope it leaves, that
it fails if the global frame was to be closed, and otherwise the answers to its
look-ups. -/
structure Tells {β : Type} (looked : β → List (Option α)) (s : Scope α)
    (events : List (Event α)) (outcome : Except String β × Scope α) : Prop where
  fits : FitAll events s
  scope_eq : outcome.2 = replay events s
  failed : .refused ∈ events → outcome.1 = .error globalPopMessage
  looked_eq : ∀ answer, outcome.1 = .ok answer →
    looked answer = events.filterMap Event.found?

theorem tells_event
    {s : Scope α} {event : Event α} {answer : Answer α} (hfits : event.Fits s)
    (hlooked : answer.looked = [event].filterMap Event.found?)
    (hevent : event ≠ .refused) :
    Tells Answer.looked s [event] (.ok answer, event.apply s) := by
  refine ⟨⟨hfits, trivial⟩, rfl, fun hmem =>
    absurd (List.mem_singleton.mp hmem).symm hevent, ?_⟩
  intro answer' hanswer
  obtain rfl : answer = answer' := Except.ok.inj hanswer
  exact hlooked

theorem tells_pop (s : Scope α) :
    Tells Answer.looked s [closing s] (Step.run .pop s) := by
  obtain ⟨inner, global⟩ := s
  cases inner with
  | nil => exact ⟨⟨rfl, trivial⟩, rfl, fun _ => rfl, nofun⟩
  | cons frame outer =>
      exact tells_event (List.cons_ne_nil frame outer) rfl (by simp)

/-- A block closes its frame behind its steps, however they ended. -/
theorem Tells.leave
    {s : Scope α} {events : List (Event α)}
    {inside : Except String (List (Answer α × Nat)) × Scope α}
    (h : Tells lookedIn s.push events inside) :
    Tells Answer.looked s (.opened :: (events ++ [closing inside.2]))
      (Scope.leave inside.1 inside.2) := by
  obtain ⟨result, inner, global⟩ := inside
  have hscope : ⟨inner, global⟩ = replay events s.push := h.scope_eq
  have hreplay : replay (.opened :: (events ++ [closing ⟨inner, global⟩])) s =
      (closing ⟨inner, global⟩).apply ⟨inner, global⟩ := by
    change replay (events ++ [closing ⟨inner, global⟩]) s.push = _
    rw [replay_append, ← hscope]
    rfl
  constructor
  · refine ⟨trivial, fitAll_append.mpr ⟨h.fits, ?_, trivial⟩⟩
    rw [Event.apply, ← hscope]
    exact fits_closing _
  · rw [hreplay]
    cases inner <;> rfl
  · intro hmem
    cases inner with
    | nil => rfl
    | cons frame outer =>
        have hresult : result = .error globalPopMessage :=
          h.failed (by simpa using hmem)
        rw [hresult]
        rfl
  · intro answer hanswer
    cases inner with
    | nil => cases hanswer
    | cons frame outer =>
        cases result with
        | error message => cases hanswer
        | ok answers =>
            obtain rfl : Answer.block answers = answer := Except.ok.inj hanswer
            rw [Answer.looked, h.looked_eq answers rfl, List.filterMap_cons,
              List.filterMap_append]
            simp [Event.found?]

theorem Tells.cons
    {step : Step α} {steps : List (Step α)} {s : Scope α}
    (hfirst : Tells Answer.looked s (step.events s) (step.run s))
    (hmore : Tells lookedIn (step.run s).2 (blockEvents steps (step.run s).2)
      (runBlock steps (step.run s).2)) :
    Tells lookedIn s (blockEvents (step :: steps) s)
      (runBlock (step :: steps) s) := by
  cases hresult : (step.run s).1 with
  | error message =>
      rw [blockEvents_cons_of_error hresult, runBlock_cons_of_error hresult]
      refine ⟨hfirst.fits, hfirst.scope_eq, fun hmem => ?_, nofun⟩
      exact congrArg Except.error
        (Except.error.inj (hresult.symm.trans (hfirst.failed hmem)))
  | ok answer =>
      rw [blockEvents_cons_of_ok hresult, runBlock_cons_of_ok hresult]
      have hnot : .refused ∉ step.events s := by
        intro hmem
        rw [hfirst.failed hmem] at hresult
        cases hresult
      constructor
      · rw [fitAll_append, ← hfirst.scope_eq]
        exact ⟨hfirst.fits, hmore.fits⟩
      · rw [replay_append, ← hfirst.scope_eq]
        exact hmore.scope_eq
      · intro hmem
        have hinside := (List.mem_append.mp hmem).resolve_left hnot
        rw [hmore.failed hinside]
        rfl
      · intro answers hanswers
        cases hrest : (runBlock steps (step.run s).2).1 with
        | error message =>
            rw [hrest] at hanswers
            cases hanswers
        | ok more =>
            rw [hrest] at hanswers
            obtain rfl : (answer, (step.run s).2.depth) :: more = answers :=
              Except.ok.inj hanswers
            rw [lookedIn, hfirst.looked_eq answer hresult,
              hmore.looked_eq more hrest, List.filterMap_append]

mutual

theorem Step.tells (step : Step α) (s : Scope α) :
    Tells Answer.looked s (step.events s) (step.run s) :=
  match step with
  | .push => tells_event trivial rfl (by simp)
  | .pop => tells_pop s
  | .define _ _ => tells_event trivial rfl (by simp)
  | .lookup _ => tells_event rfl rfl (by simp)
  | .depth =>
      ⟨trivial, rfl, by simp [Step.events], fun _ h => Except.ok.inj h ▸ rfl⟩
  | .scoped steps => (tells_block steps s.push).leave
  | .fail _ => ⟨trivial, rfl, by simp [Step.events], nofun⟩

theorem tells_block (steps : List (Step α)) (s : Scope α) :
    Tells lookedIn s (blockEvents steps s) (runBlock steps s) :=
  match steps with
  | [] =>
      ⟨trivial, rfl, by simp [blockEvents], fun _ h => Except.ok.inj h ▸ rfl⟩
  | step :: steps => (step.tells s).cons (tells_block steps _)

end

/-- The history of a program tells the scope that it leaves, and each of its
events can take place. -/
theorem fitAll_history (steps : List (Step α)) (s : Scope α) :
    FitAll (history steps s) s ∧
      afterProgram steps s = replay (history steps s) s := by
  induction steps generalizing s with
  | nil => exact ⟨trivial, rfl⟩
  | cons step steps ih =>
      obtain ⟨hfits, hscope⟩ := ih (step.run s).2
      have hstep := step.tells s
      rw [history, fitAll_append, replay_append, ← hstep.scope_eq]
      exact ⟨⟨hstep.fits, hfits⟩, hscope⟩

end Stylesheet.Scope
