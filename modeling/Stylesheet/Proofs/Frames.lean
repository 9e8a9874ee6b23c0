import Stylesheet.Proofs.Histories
import Stylesheet.Proofs.Scope

/-!
# The frames of a scope in time

A frame is known by what happened since it was opened.  It is open as long as no
more frames were closed than opened since then.  Said in these terms, a look-up
finds the latest value of a name in the innermost open frame that binds it,
wherever it stands in a program and however the blocks before it ended.
-/

namespace Stylesheet.Scope

variable {α : Type}

/-! ## Frames that are opened and closed -/

/-- The number of frames that are open where the events begin and are closed in
their course. -/
def closes : List (Event α) → Nat
  | [] => 0
  | .opened :: events => closes events - 1
  | .closed :: events => closes events + 1
  | .refused :: events | .bound _ _ :: events | .asked _ _ :: events =>
      closes events

/-- The number of frames that are opened in the course of the events and open
where they end. -/
def opens : List (Event α) → Nat
  | [] => 0
  | .opened :: events => opens events + if closes events = 0 then 1 else 0
  | .closed :: events | .refused :: events | .bound _ _ :: events
  | .asked _ _ :: events =>
      opens events

theorem closes_append (first second : List (Event α)) :
    closes (first ++ second) =
      closes first + (closes second - opens first) := by
  induction first with
  | nil => simp [closes, opens]
  | cons event events ih =>
      rw [List.cons_append]
      cases event with
      | opened =>
          rw [closes, closes, opens, ih]
          split <;> omega
      | closed =>
          rw [closes, closes, opens, ih]
          omega
      | _ => simpa only [closes, opens] using ih

theorem opens_append (first second : List (Event α)) :
    opens (first ++ second) = opens second + (opens first - closes second) := by
  induction first with
  | nil => simp [opens]
  | cons event events ih =>
      rw [List.cons_append]
      cases event with
      | opened =>
          rw [opens, opens, ih, closes_append]
          split <;> split <;> omega
      | _ => simpa only [opens] using ih

theorem closes_le_of_append (first second : List (Event α)) :
    closes first ≤ closes (first ++ second) := by
  rw [closes_append]
  exact Nat.le_add_right _ _

/-- The scope without its innermost frames, so many as given. -/
def drop (count : Nat) (s : Scope α) : Scope α :=
  ⟨s.inner.drop count, s.global⟩

@[simp] theorem drop_zero (s : Scope α) : s.drop 0 = s := rfl

theorem drop_succ_define
    {count : Nat} {s : Scope α} (h : count < s.inner.length) (name : String)
    (value : α) :
    (s.define name value).drop (count + 1) = s.drop (count + 1) := by
  obtain ⟨inner, global⟩ := s
  cases inner with
  | nil => cases h
  | cons frame outer => rfl

@[simp] theorem length_inner_define (name : String) (value : α) (s : Scope α) :
    (s.define name value).inner.length = s.inner.length := by
  obtain ⟨inner, global⟩ := s
  cases inner <;> rfl

theorem closes_le_of_fitAll {events : List (Event α)} {s : Scope α}
    (h : FitAll events s) :
    closes events ≤ s.inner.length := by
  induction events generalizing s with
  | nil => exact Nat.zero_le _
  | cons event events ih =>
      obtain ⟨hfits, hrest⟩ := h
      have hle := ih hrest
      cases event with
      | opened =>
          rw [closes]
          exact Nat.sub_le_of_le_add hle
      | closed =>
          obtain ⟨inner, global⟩ := s
          cases inner with
          | nil => exact absurd rfl hfits
          | cons frame outer => exact Nat.succ_le_succ hle
      | bound name value => simpa [closes, Event.apply] using hle
      | _ => exact hle

/-- The frames behind a history are those that it opened and those that it did
not close. -/
theorem length_inner_replay
    {events : List (Event α)} {s : Scope α}
    (h : closes events ≤ s.inner.length) :
    (replay events s).inner.length =
      opens events + (s.inner.length - closes events) := by
  induction events generalizing s with
  | nil => simp [replay, opens, closes]
  | cons event events ih =>
      change (replay events (event.apply s)).inner.length = _
      cases event with
      | opened =>
          rw [closes] at h
          have hle : closes events ≤ s.push.inner.length :=
            Nat.le_add_of_sub_le h
          rw [Event.apply, ih hle, opens, closes, push, List.length_cons]
          split <;> omega
      | closed =>
          obtain ⟨inner, global⟩ := s
          cases inner with
          | nil => cases h
          | cons frame outer =>
              rw [closes] at h
              rw [apply_closed, ih (Nat.le_of_succ_le_succ h), opens, closes,
                List.length_cons, Nat.add_sub_add_right]
      | bound name value =>
          rw [Event.apply, ih (by simpa [closes] using h), length_inner_define,
            opens, closes]
      | _ => exact ih h

/-! ## Look-ups -/

/-- The value of the latest binding of a name whose frame is still open where
the events end. -/
def latest? (name : String) : List (Event α) → Option α
  | [] => none
  | .bound other value :: events =>
      (latest? name events).or
        (if name = other ∧ closes events = 0 then some value else none)
  | .opened :: events | .closed :: events | .refused :: events
  | .asked _ _ :: events =>
      latest? name events

/-- A look-up finds the latest binding in a frame that is still open, and
otherwise what it finds in those frames that were there before and were not
closed. -/
theorem lookup?_replay
    {events : List (Event α)} {s : Scope α} (h : closes events ≤ s.inner.length)
    (name : String) :
    (replay events s).lookup? name =
      (latest? name events).or ((s.drop (closes events)).lookup? name) := by
  induction events generalizing s with
  | nil => rfl
  | cons event events ih =>
      change (replay events (event.apply s)).lookup? name = _
      cases event with
      | opened =>
          rw [closes] at h
          have hle : closes events ≤ s.push.inner.length :=
            Nat.le_add_of_sub_le h
          rw [Event.apply, ih hle, latest?, closes]
          cases closes events with
          | zero => rfl
          | succ count => rfl
      | closed =>
          obtain ⟨inner, global⟩ := s
          cases inner with
          | nil => cases h
          | cons frame outer => exact ih (Nat.le_of_succ_le_succ h)
      | bound other value =>
          rw [closes] at h
          rw [Event.apply, ih (by simpa using h), latest?, closes,
            Option.or_assoc]
          congr 1
          cases hcloses : closes events with
          | zero =>
              rw [drop_zero, drop_zero, lookup?_define]
              by_cases hname : name = other <;> simp [hname]
          | succ count => rw [drop_succ_define (by omega)]; simp
      | _ => exact ih h

theorem lookup?_replay_empty {events : List (Event α)} (h : closes events = 0)
    (name : String) :
    (replay events empty).lookup? name = latest? name events := by
  rw [lookup?_replay (Nat.le_of_eq h), h, drop_zero, lookup?_empty,
    Option.or_none]

/-- The events hold a binding of the name, with `later` behind it, whose frame
is still open. -/
def BoundBefore (events : List (Event α)) (name : String) (value : α)
    (later : List (Event α)) : Prop :=
  (∃ earlier, events = earlier ++ .bound name value :: later) ∧ closes later = 0

section BoundBefore

variable {events later rest : List (Event α)} {event : Event α} {name : String}
  {value other : α}

theorem boundBefore_cons :
    BoundBefore (event :: events) name value later ↔
      (event = .bound name value ∧ events = later ∧ closes later = 0) ∨
        BoundBefore events name value later := by
  constructor
  · rintro ⟨⟨earlier, heq⟩, hopen⟩
    rcases List.cons_eq_append_iff.mp heq with ⟨-, hhead⟩ | ⟨front, -, hfront⟩
    · obtain ⟨rfl, rfl⟩ := List.cons.inj hhead
      exact .inl ⟨rfl, rfl, hopen⟩
    · exact .inr ⟨⟨front, hfront⟩, hopen⟩
  · rintro (⟨rfl, rfl, hopen⟩ | ⟨⟨earlier, rfl⟩, hopen⟩)
    · exact ⟨⟨[], rfl⟩, hopen⟩
    · exact ⟨⟨event :: earlier, rfl⟩, hopen⟩

theorem BoundBefore.length_lt (h : BoundBefore events name value later) :
    later.length < events.length := by
  obtain ⟨⟨earlier, rfl⟩, -⟩ := h
  rw [List.length_append, List.length_cons]
  omega

/-- Two bindings with equally many events behind them are one. -/
theorem BoundBefore.eq_of_length_eq
    (h : BoundBefore events name value later)
    (h' : BoundBefore events name other rest)
    (hlength : later.length = rest.length) : value = other := by
  obtain ⟨⟨earlier, rfl⟩, -⟩ := h
  obtain ⟨⟨earlier', heq⟩, -⟩ := h'
  have htails := (List.append_inj' heq (by simpa using hlength)).2
  exact (Event.bound.inj (List.cons.inj htails).1).2

/-- Of the bindings of the name whose frames are still open, none is later. -/
def Latest (events : List (Event α)) (name : String) (value : α)
    (later : List (Event α)) : Prop :=
  BoundBefore events name value later ∧
    ∀ other rest, BoundBefore events name other rest →
      later.length ≤ rest.length

theorem latest?_spec (name : String) (events : List (Event α)) :
    (latest? name events = none ∧
      ∀ value later, ¬ BoundBefore events name value later) ∨
      ∃ value later, latest? name events = some value ∧
        Latest events name value later := by
  induction events with
  | nil => exact .inl ⟨rfl, fun _ _ h => absurd h.length_lt (Nat.not_lt_zero _)⟩
  | cons event events ih =>
      by_cases hevent : ∃ value, event = .bound name value ∧ closes events = 0
      · obtain ⟨value, rfl, hopen⟩ := hevent
        right
        rcases ih with ⟨hnone, hnot⟩ | ⟨found, later, hfound, hlatest⟩
        · refine ⟨value, events, by simp [latest?, hnone, hopen], ?_, ?_⟩
          · exact boundBefore_cons.mpr (.inl ⟨rfl, rfl, hopen⟩)
          · intro other rest hother
            rcases boundBefore_cons.mp hother with ⟨-, rfl, -⟩ | hbefore
            · exact Nat.le_refl _
            · exact absurd hbefore (hnot other rest)
        · refine ⟨found, later, by simp [latest?, hfound], ?_, ?_⟩
          · exact boundBefore_cons.mpr (.inr hlatest.1)
          intro other rest hother
          rcases boundBefore_cons.mp hother with ⟨-, rfl, -⟩ | hbefore
          · exact Nat.le_of_lt hlatest.1.length_lt
          · exact hlatest.2 other rest hbefore
      · have hsame : ∀ value later,
            BoundBefore (event :: events) name value later ↔
            BoundBefore events name value later := by
          intro value later
          rw [boundBefore_cons, or_iff_right]
          rintro ⟨rfl, rfl, hopen⟩
          exact hevent ⟨value, rfl, hopen⟩
        have hlatest : latest? name (event :: events) =
            latest? name events := by
          cases event with
          | bound other value =>
              rw [latest?, if_neg, Option.or_none]
              rintro ⟨rfl, hopen⟩
              exact hevent ⟨value, rfl, hopen⟩
          | _ => rfl
        simpa only [Latest, hsame, hlatest] using ih

theorem latest?_eq_none_iff :
    latest? name events = none ↔
      ∀ value later, ¬ BoundBefore events name value later := by
  rcases latest?_spec name events with
    ⟨hnone, hnot⟩ | ⟨value, later, hsome, hlatest⟩
  · exact iff_of_true hnone hnot
  · refine iff_of_false (by simp [hsome]) fun hnot => hnot value later hlatest.1

theorem latest?_eq_some_iff :
    latest? name events = some value ↔
      ∃ later, Latest events name value later := by
  rcases latest?_spec name events with
    ⟨hnone, hnot⟩ | ⟨found, later, hsome, hlatest⟩
  · refine iff_of_false (by simp [hnone]) ?_
    rintro ⟨later, hlatest⟩
    exact hnot value later hlatest.1
  · rw [hsome]
    constructor
    · intro heq
      exact ⟨later, Option.some.inj heq ▸ hlatest⟩
    · rintro ⟨rest, hrest⟩
      have hlength :=
        Nat.le_antisymm (hlatest.2 _ _ hrest.1) (hrest.2 _ _ hlatest.1)
      exact congrArg some (hlatest.1.eq_of_length_eq hrest.1 hlength)

end BoundBefore

/-! ## Frames that are still open -/

/-- The events end in the frame that they begin in. -/
def Level (events : List (Event α)) : Prop :=
  closes events = 0 ∧ opens events = 0

/-- A frame that is still open at the end of the history, by the events since it
was opened.  The global frame has seen the whole history. -/
def OpenFrame (events inside : List (Event α)) : Prop :=
  (inside = events ∨ ∃ earlier, events = earlier ++ .opened :: inside) ∧
    closes inside = 0

/-- In the frame with the events `inside` the name was bound, with `later`
behind that. -/
def BoundIn (inside : List (Event α)) (name : String) (value : α)
    (later : List (Event α)) : Prop :=
  ∃ earlier, inside = earlier ++ .bound name value :: later ∧ Level earlier

/-- The name was last bound to the value in the innermost open frame that binds
it. -/
def Visible (events : List (Event α)) (name : String) (value : α) : Prop :=
  ∃ inside later, OpenFrame events inside ∧ BoundIn inside name value later ∧
    (∀ other rest, BoundIn inside name other rest →
      later.length ≤ rest.length) ∧
    ∀ inner, OpenFrame events inner → inner.length < inside.length →
      ∀ other rest, ¬ BoundIn inner name other rest

section OpenFrame

variable {events inside inner later rest : List (Event α)} {name : String}
  {value other : α}

theorem OpenFrame.suffix (h : OpenFrame events inside) : inside <:+ events := by
  rcases h.1 with rfl | ⟨earlier, rfl⟩
  · exact List.suffix_rfl
  · exact ⟨earlier ++ [.opened], by simp⟩

theorem OpenFrame.boundBefore
    (h : OpenFrame events inside) (hbound : BoundIn inside name value later) :
    BoundBefore events name value later := by
  obtain ⟨earlier, rfl, hlevel⟩ := hbound
  obtain ⟨front, rfl⟩ := h.suffix
  refine ⟨⟨front ++ earlier, by simp⟩, ?_⟩
  have hopen := h.2
  rw [closes_append, hlevel.1, hlevel.2] at hopen
  simpa [closes] using hopen

/-- Either no frame that was opened is still open, or the events end in one that
was opened in their course. -/
theorem opens_eq_zero_or_exists (events : List (Event α)) :
    opens events = 0 ∨
      ∃ earlier inside, events = earlier ++ .opened :: inside ∧
        Level inside := by
  induction events with
  | nil => exact .inl rfl
  | cons event events ih =>
      rcases ih with hnone | ⟨earlier, inside, rfl, hlevel⟩
      · cases event with
        | opened =>
            by_cases hcloses : closes events = 0
            · exact .inr ⟨[], events, rfl, hcloses, hnone⟩
            · exact .inl (by simp [opens, hnone, hcloses])
        | _ => exact .inl hnone
      · exact .inr ⟨event :: earlier, inside, rfl, hlevel⟩

/-- A binding belongs to the frame that is innermost where it is made. -/
theorem BoundBefore.exists_openFrame
    (h : BoundBefore events name value later) (hevents : closes events = 0) :
    ∃ inside, OpenFrame events inside ∧ BoundIn inside name value later := by
  obtain ⟨⟨earlier, rfl⟩, hopen⟩ := h
  have hcloses : closes earlier = 0 :=
    Nat.le_zero.mp (hevents ▸ closes_le_of_append earlier _)
  rcases opens_eq_zero_or_exists earlier with
    hlevel | ⟨front, inside, rfl, hlevel⟩
  · exact ⟨_, ⟨.inl rfl, hevents⟩, earlier, rfl, hcloses, hlevel⟩
  · refine ⟨inside ++ .bound name value :: later, ⟨.inr ⟨front, by simp⟩, ?_⟩,
      inside, rfl, hlevel⟩
    rw [closes_append, hlevel.1, closes, hopen, Nat.zero_sub]

/-- Of two open frames, the one that was opened later was opened inside the
other. -/
theorem OpenFrame.exists_opened
    (hinner : OpenFrame events inner) (hinside : OpenFrame events inside)
    (hlength : inner.length < inside.length) :
    ∃ front, inside = front ++ .opened :: inner := by
  rcases hinner.1 with rfl | ⟨earlier, rfl⟩
  · exact absurd hinside.suffix.length_le (Nat.not_le_of_lt hlength)
  · have hsuffix : .opened :: inner <:+ earlier ++ .opened :: inner :=
      List.suffix_append _ _
    obtain ⟨front, hfront⟩ :=
      List.suffix_of_suffix_length_le hsuffix hinside.suffix hlength
    exact ⟨front, hfront.symm⟩

/-- Where a frame is the innermost one, the frames that were opened inside it
are closed. -/
theorem closes_ne_zero_of_level
    {earlier front : List (Event α)} {event : Event α} (hlevel : Level earlier)
    (heq : earlier ++ event :: later = front ++ .opened :: inner)
    (hlength : later.length < inner.length) : closes inner ≠ 0 := by
  rcases List.append_eq_append_iff.mp heq with ⟨gap, -, hgap⟩ | ⟨gap, rfl, hgap⟩
  · have hlengths := congrArg List.length hgap
    simp only [List.length_cons, List.length_append] at hlengths
    omega
  · rcases List.cons_eq_append_iff.mp hgap with ⟨-, hhead⟩ | ⟨between, rfl, rfl⟩
    · rw [(List.cons.inj hhead).2] at hlength
      exact absurd hlength (Nat.lt_irrefl _)
    · have hopens := hlevel.2
      rw [opens_append, opens] at hopens
      have hbetween : closes between ≠ 0 := by
        intro hzero
        rw [if_pos hzero] at hopens
        omega
      have hle := closes_le_of_append between (event :: later)
      omega

/-- The latest binding in a frame that is still open is the latest in the
innermost open frame that binds the name. -/
theorem visible_iff (hevents : closes events = 0) :
    Visible events name value ↔ ∃ later, Latest events name value later := by
  constructor
  · rintro ⟨inside, later, hinside, hbound, hlast, hinnermost⟩
    refine ⟨later, hinside.boundBefore hbound, fun other rest hother => ?_⟩
    obtain ⟨frame, hframe, hrest⟩ := hother.exists_openFrame hevents
    by_contra hlt
    rw [Nat.not_le] at hlt
    rcases Nat.lt_trichotomy frame.length inside.length with
      hinner | hsame | houter
    · exact hinnermost frame hframe hinner other rest hrest
    · have heq :=
        List.suffix_of_suffix_length_le hframe.suffix hinside.suffix
          (Nat.le_of_eq hsame)
      rw [heq.eq_of_length hsame] at hrest
      exact absurd (hlast other rest hrest) (Nat.not_le_of_lt hlt)
    · obtain ⟨front, hfront⟩ := hinside.exists_opened hframe houter
      obtain ⟨earlier, hearlier, hlevel⟩ := hrest
      obtain ⟨before, rfl, -⟩ := hbound
      refine closes_ne_zero_of_level hlevel (hearlier.symm.trans hfront) ?_
        hinside.2
      rw [List.length_append, List.length_cons]
      omega
  · rintro ⟨later, hbefore, hlatest⟩
    obtain ⟨inside, hinside, hbound⟩ := hbefore.exists_openFrame hevents
    refine ⟨inside, later, hinside, hbound, ?_, ?_⟩
    · intro other rest hother
      exact hlatest other rest (hinside.boundBefore hother)
    · intro inner hinner hlength other rest hother
      obtain ⟨front, hfront⟩ := hinner.exists_opened hinside hlength
      obtain ⟨earlier, hearlier, hlevel⟩ := hbound
      have hle := hlatest other rest (hinner.boundBefore hother)
      obtain ⟨before, rfl, -⟩ := hother
      refine closes_ne_zero_of_level hlevel (hearlier.symm.trans hfront) ?_
        hinner.2
      rw [List.length_append, List.length_cons]
      omega

/-- What a look-up finds behind a history. -/
theorem lookup?_replay_eq_some_iff (hevents : closes events = 0) :
    (replay events empty).lookup? name = some value ↔
      Visible events name value := by
  rw [lookup?_replay_empty hevents, latest?_eq_some_iff, visible_iff hevents]

/-- A look-up finds nothing exactly if no open frame binds the name. -/
theorem lookup?_replay_eq_none_iff (hevents : closes events = 0) :
    (replay events empty).lookup? name = none ↔
      ∀ inside, OpenFrame events inside →
        ∀ value later, ¬ BoundIn inside name value later := by
  rw [lookup?_replay_empty hevents, latest?_eq_none_iff]
  constructor
  · intro hnot inside hinside value later hbound
    exact hnot value later (hinside.boundBefore hbound)
  · intro hnot value later hbefore
    obtain ⟨inside, hinside, hbound⟩ := hbefore.exists_openFrame hevents
    exact hnot inside hinside value later hbound

end OpenFrame

/-! ## Blocks -/

/-- A step that opens and closes frames only by blocks. -/
inductive Step.Lexical : Step α → Prop
  | define (name : String) (value : α) : Lexical (.define name value)
  | lookup (name : String) : Lexical (.lookup name)
  | depth : Lexical .depth
  | block {steps : List (Step α)} (h : ∀ step ∈ steps, Lexical step) : Lexical
      (.scoped steps)
  | fail (message : String) : Lexical (.fail message)

section Lexical

variable {outer : List (Frame α)} {global : Frame α}

/-- The steps change no more than the innermost frame. -/
theorem exists_frame_of_runBlock
    {steps : List (Step α)}
    (h : ∀ step ∈ steps, ∀ frame, ∃ after,
      (step.run ⟨frame :: outer, global⟩).2 = ⟨after :: outer, global⟩)
    (frame : Frame α) :
    ∃ after, (runBlock steps ⟨frame :: outer, global⟩).2 =
      ⟨after :: outer, global⟩ := by
  induction steps generalizing frame with
  | nil => exact ⟨frame, rfl⟩
  | cons step steps ih =>
      rw [List.forall_mem_cons] at h
      obtain ⟨after, hafter⟩ := h.1 frame
      cases hresult : (step.run ⟨frame :: outer, global⟩).1 with
      | error message =>
          exact ⟨after, by rw [runBlock_cons_of_error hresult, hafter]⟩
      | ok answer =>
          rw [runBlock_cons_of_ok hresult, hafter]
          exact ih h.2 after

theorem run_scoped_of_runBlock
    {steps : List (Step α)} {s : Scope α} {after : Frame α}
    (h : (runBlock steps s.push).2 = ⟨after :: s.inner, s.global⟩) :
    ((Step.scoped steps).run s).2 = s := by
  rw [Step.run, h]
  rfl

theorem Step.Lexical.exists_frame
    {step : Step α} (h : step.Lexical) (outer : List (Frame α))
    (global frame : Frame α) :
    ∃ after, (step.run ⟨frame :: outer, global⟩).2 =
      ⟨after :: outer, global⟩ := by
  induction h generalizing outer frame with
  | define name value => exact ⟨_, rfl⟩
  | lookup name => exact ⟨frame, rfl⟩
  | depth => exact ⟨frame, rfl⟩
  | fail message => exact ⟨frame, rfl⟩
  | block _ ih =>
      have hblock :=
        exists_frame_of_runBlock fun step hstep =>
          ih step hstep (frame :: outer)
      obtain ⟨after, hafter⟩ := hblock []
      exact ⟨frame, run_scoped_of_runBlock (s := ⟨frame :: outer, global⟩)
        hafter⟩

/-- A block leaves the scope as it was, whatever its steps answer. -/
theorem run_scoped_of_lexical
    {steps : List (Step α)} (h : ∀ step ∈ steps, step.Lexical) (s : Scope α) :
    ((Step.scoped steps).run s).2 = s := by
  obtain ⟨after, hafter⟩ :=
    exists_frame_of_runBlock
      (fun step hstep => (h step hstep).exists_frame s.inner s.global) []
  exact run_scoped_of_runBlock hafter

end Lexical

/-! ## Programs -/

/-- What holds of an event that happens on a new scope behind others: the scope
has the frames that are still open and the global one, which is never closed,
and a look-up finds what was last bound in the innermost open frame that binds
the name. -/
structure Lawful (past : List (Event α)) (event : Event α) : Prop where
  depth_eq : (replay (past ++ [event]) empty).depth =
    opens (past ++ [event]) + 1
  closed : event = .closed → 1 < (replay past empty).depth
  refused : event = .refused →
    (replay past empty).depth = 1 ∧
      replay (past ++ [event]) empty = replay past empty
  found : ∀ name found, event = .asked name found →
    (∀ value, found = some value ↔ Visible past name value) ∧
      (found = none ↔
        ∀ inside, OpenFrame past inside →
          ∀ value later, ¬ BoundIn inside name value later)

theorem closes_eq_zero_of_fitAll {events : List (Event α)}
    (h : FitAll events empty) :
    closes events = 0 :=
  Nat.le_zero.mp (closes_le_of_fitAll h)

theorem depth_replay_empty {events : List (Event α)} (h : FitAll events empty) :
    (replay events empty).depth = opens events + 1 := by
  have hcloses := closes_eq_zero_of_fitAll h
  rw [depth, length_inner_replay (hcloses ▸ Nat.zero_le _), hcloses]
  rfl

theorem lawful_of_fitAll
    {past rest : List (Event α)} {event : Event α}
    (h : FitAll (past ++ event :: rest) empty) :
    Lawful past event := by
  obtain ⟨hpast, hevent, -⟩ := fitAll_append.mp h
  have hcloses := closes_eq_zero_of_fitAll hpast
  constructor
  · exact depth_replay_empty (fitAll_append.mpr ⟨hpast, hevent, trivial⟩)
  · rintro rfl
    exact Nat.succ_lt_succ (List.length_pos_of_ne_nil hevent)
  · rintro rfl
    refine ⟨?_, replay_append past _ empty⟩
    rw [depth, show (replay past empty).inner = [] from hevent]
    rfl
  · rintro name found rfl
    rw [show found = (replay past empty).lookup? name from hevent]
    exact ⟨fun value => lookup?_replay_eq_some_iff hcloses,
      lookup?_replay_eq_none_iff hcloses⟩

/-- What a step of a program answers. -/
def Step.answer (step : Step α) (s : Scope α) : Answer α :=
  match (step.run s).1 with
  | .ok answer => answer
  | .error message => .failed message

theorem runProgram_append (first second : List (Step α)) (s : Scope α) :
    runProgram (first ++ second) s =
      runProgram first s ++ runProgram second (afterProgram first s) := by
  induction first generalizing s with
  | nil => rfl
  | cons step steps ih =>
      rw [List.cons_append, runProgram, runProgram, ih]
      rfl

theorem length_runProgram (steps : List (Step α)) (s : Scope α) :
    (runProgram steps s).length = steps.length := by
  induction steps generalizing s with
  | nil => rfl
  | cons step steps ih =>
      rw [runProgram, List.length_cons, List.length_cons, ih]

/-- On a new scope every program is carried out in a lexical environment.  Its
history tells what its steps answer, and that a step fails in which the global
frame was to be closed.  Blocks that open and close frames only by blocks inside
them leave the scope as it was, even if they fail. -/
theorem program_lexical (program : List (Step α)) :
    (∀ past event rest, history program empty = past ++ event :: rest →
      Lawful past event) ∧
      (∀ steps step more, program = steps ++ step :: more →
        afterProgram steps empty = replay (history steps empty) empty ∧
          Tells Answer.looked (afterProgram steps empty)
            (step.events (afterProgram steps empty))
            (step.run (afterProgram steps empty)) ∧
          (runProgram program empty)[steps.length]? =
            some (step.answer (afterProgram steps empty),
              opens (history (steps ++ [step]) empty) + 1)) ∧
      ∀ (steps : List (Step α)) (s : Scope α), (∀ step ∈ steps, step.Lexical) →
        ((Step.scoped steps).run s).2 = s := by
  refine ⟨?_, ?_, fun steps s h => run_scoped_of_lexical h s⟩
  · intro past event rest hhistory
    apply lawful_of_fitAll
    rw [← hhistory]
    exact (fitAll_history program empty).1
  · rintro steps step more rfl
    refine ⟨(fitAll_history steps empty).2, step.tells _, ?_⟩
    obtain ⟨hfits, hscope⟩ := fitAll_history (steps ++ [step]) empty
    rw [← depth_replay_empty hfits, ← hscope, runProgram_append,
      ← length_runProgram steps empty,
      List.getElem?_append_right (Nat.le_refl _), Nat.sub_self, runProgram,
      afterProgram, afterProgram, List.foldl_append]
    rfl

-- The block closes its own frame and the one around it, so that its end would
-- close the global one.
example :
    (runProgram [.push, .define "A" 1, .scoped [.pop, .pop], .lookup "A"]
      (empty : Scope Nat)).map
      Prod.snd = [2, 2, 1, 1] := rfl

end Stylesheet.Scope
