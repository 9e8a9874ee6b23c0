import Mathlib.Data.List.Infix
import Stylesheet.Proofs.Forms

/-!
# Going on behind a broken statement

Reading never gives up at a fault.  Whatever stands between two items of a body,
as long as it holds no brace, no semicolon and no word of a conditional, reading
has come to an end with it at the next semicolon.  It may have begun an item
there, given it up and begun another one; but it has never looked beyond the
semicolon, and so the items in front of and behind the broken part are read as
if it were not there.
-/

namespace Stylesheet

open Reading Grammar

/-! ## Broken statements -/

/-- The signs and words that open or close a body, end a statement or the
source, or belong to a conditional. -/
def boundaries : List TokenKind :=
  [.lbrace, .rbrace, .semicolon, .ifWord, .elseWord, .eof]

/-- Tokens that say nothing about where a statement or a body begins or ends. -/
def Loose (ts : List Token) : Prop :=
  ∀ t ∈ ts, t.kind ∉ boundaries

theorem Loose.of_suffix {ts us : List Token} (h : Loose ts) (hus : us <:+ ts) :
    Loose us :=
  fun t ht => h t (hus.subset ht)

/-- What is in front does not depend on what is behind a semicolon. -/
theorem current_append (ts : List Token) (semicolon : Token)
    (more : List Token) :
    current (ts ++ semicolon :: more) = current (ts ++ [semicolon]) := by
  cases ts <;> rfl

theorem Loose.current_ne_else
    {ts : List Token} (h : Loose ts) {semicolon : Token}
    (hsemicolon : semicolon.kind = .semicolon) (more : List Token) :
    (current (ts ++ semicolon :: more)).kind ≠ .elseWord := by
  cases ts with
  | nil => simp [current, hsemicolon]
  | cons t ts =>
      intro helse
      have hnot := h t List.mem_cons_self
      rw [List.cons_append, current] at helse
      simp [helse, boundaries] at hnot

theorem items_cons_of_loose {t : Token} (ht : t.kind ∉ boundaries)
    (rest : List Token) :
    items (t :: rest) =
      let first := simpleItem t rest
      let more := items first.rest
      ⟨first.value.toList ++ more.value, first.faults ++ more.faults,
        more.rest⟩ := by
  have hword : t.kind ≠ .ifWord :=
    fun hkind => by simp [hkind, boundaries] at ht
  have hend : ¬(t.kind = .rbrace ∨ t.kind = .eof) := by
    rintro (hkind | hkind)
    · simp [hkind, boundaries] at ht
    · simp [hkind, boundaries] at ht
  rw [items_cons, if_neg hend, if_neg hword]

/-! ## Readers that stay in front of a semicolon -/

/-- The reader looks at nothing but the token in front, which it passes or
leaves in place. -/
def LooksAt {α : Type} (t : Token) (read : List Token → Reading α) : Prop :=
  ∃ value faults, (∀ fault ∈ faults, fault.found = t) ∧
    ((∀ rest, read (t :: rest) = ⟨value, faults, rest⟩) ∨
      ∀ rest, read (t :: rest) = ⟨value, faults, t :: rest⟩)

theorem looksAt_number
    (make : Int64 → Literal) {t : Token}
    (h : ∀ rest, atom (t :: rest) = number make t rest) : LooksAt t atom := by
  by_cases hfits : decimal (t.text.toList.takeWhile Char.isDigit) < numberLimit
  · exact ⟨_, [], List.forall_mem_nil _, .inl fun rest =>
      (h rest).trans (if_pos hfits)⟩
  · exact ⟨_, [.invalidNumber t], List.forall_mem_singleton.mpr rfl,
      .inl fun rest => (h rest).trans (if_neg hfits)⟩

theorem looksAt_atom (t : Token) : LooksAt t atom := by
  have hplain : ∀ value, (∀ rest, atom (t :: rest) = ⟨value, [], rest⟩) →
      LooksAt t atom :=
    fun value hatom => ⟨value, [], List.forall_mem_nil _, .inl hatom⟩
  cases hkind : t.kind with
  | pixelSize =>
      exact looksAt_number .pixel fun rest => by
        simp only [atom, current, hkind, List.tail_cons]
  | percentage =>
      exact looksAt_number .percentage fun rest => by
        simp only [atom, current, hkind, List.tail_cons]
  | scalar =>
      exact looksAt_number .scalar fun rest => by
        simp only [atom, current, hkind, List.tail_cons]
  | color | trueWord | falseWord | ident | capitalIdent =>
      exact hplain _ fun rest => by
        simp only [atom, current, hkind, List.tail_cons]; rfl
  | semicolon | rbracket | rbrace =>
      refine ⟨noOperand t, [.strayInExpr t], List.forall_mem_singleton.mpr rfl,
        .inr fun rest => ?_⟩
      simp only [atom, current, hkind]
  | _ =>
      refine ⟨noOperand t, [.strayInExpr t], List.forall_mem_singleton.mpr rfl,
        .inl fun rest => ?_⟩
      simp only [atom, current, hkind, List.tail_cons]

section Stays

variable {α β : Type}

/-- From the tokens with the semicolon behind them, the reader takes none but
some of the first tokens.  What it gives does not depend on what is behind the
semicolon, and its faults are at the tokens or at the semicolon. -/
def Stays (semicolon : Token) (ts : List Token)
    (read : List Token → Reading α) : Prop :=
  ∃ value faults rest, rest <:+ ts ∧
    (∀ fault ∈ faults, fault.found ∈ ts ++ [semicolon]) ∧
    ∀ more, read (ts ++ semicolon :: more) =
      ⟨value, faults, rest ++ semicolon :: more⟩

variable {semicolon : Token} {ts : List Token}

theorem mem_append_of_suffix {us : List Token} (h : us <:+ ts) {t : Token}
    (ht : t ∈ us ++ [semicolon]) : t ∈ ts ++ [semicolon] :=
  List.mem_append.mpr ((List.mem_append.mp ht).imp_left (h.subset ·))

theorem found_mem_of_suffix {us : List Token} (h : us <:+ ts)
    {faults : List SyntaxFault}
    (hfaults : ∀ fault ∈ faults, fault.found ∈ us ++ [semicolon]) :
    ∀ fault ∈ faults, fault.found ∈ ts ++ [semicolon] :=
  fun fault hfault => mem_append_of_suffix h (hfaults fault hfault)

/-- A reader that takes nothing and finds nothing wrong. -/
theorem stays_pure {read : List Token → Reading α} (value : α)
    (h : ∀ more, read (ts ++ semicolon :: more) =
      ⟨value, [], ts ++ semicolon :: more⟩) :
    Stays semicolon ts read :=
  ⟨value, [], ts, List.suffix_refl ts, List.forall_mem_nil _, h⟩

/-- A reader that takes a token and then reads as another one. -/
theorem Stays.cons {t : Token} {read read' : List Token → Reading α}
    (h : Stays semicolon ts read')
    (hread : ∀ more, read (t :: ts ++ semicolon :: more) =
      read' (ts ++ semicolon :: more)) :
    Stays semicolon (t :: ts) read := by
  obtain ⟨value, faults, rest, hrest, hfaults, heq⟩ := h
  have hsuffix : ts <:+ t :: ts := List.suffix_cons t ts
  refine ⟨value, faults, rest, hrest.trans hsuffix,
    found_mem_of_suffix hsuffix hfaults, ?_⟩
  intro more
  rw [hread, heq]

/-- One reader after another, the second one depending on the value of the
first. -/
def andThen (read : List Token → Reading α) (next : α → List Token → Reading β)
    (ts : List Token) : Reading β :=
  let first := read ts
  let more := next first.value first.rest
  ⟨more.value, first.faults ++ more.faults, more.rest⟩

theorem Stays.andThen {read : List Token → Reading α}
    {next : α → List Token → Reading β} (h : Stays semicolon ts read)
    (hnext : ∀ value us, us <:+ ts → Stays semicolon us (next value)) :
    Stays semicolon ts (andThen read next) := by
  obtain ⟨first, faults, us, hus, hfaults, hread⟩ := h
  obtain ⟨value, more, rest, hrest, hmore, hthen⟩ := hnext first us hus
  refine ⟨value, faults ++ more, rest, hrest.trans hus,
    List.forall_mem_append.mpr ⟨hfaults, found_mem_of_suffix hus hmore⟩, ?_⟩
  intro behind
  simp only [Stylesheet.andThen, hread, hthen]

variable (hsemicolon : semicolon.kind = .semicolon)

include hsemicolon

theorem stays_expect {kind : TokenKind} (hkind : kind ≠ .semicolon)
    (ts : List Token) :
    Stays semicolon ts (expect kind) := by
  cases ts with
  | nil =>
      refine ⟨(), [.expected kind semicolon], [], List.suffix_refl _,
        by simp [SyntaxFault.found], fun more => ?_⟩
      have hne : semicolon.kind ≠ kind :=
        fun heq => hkind (heq.symm.trans hsemicolon)
      simp [expect, current, hne]
  | cons t ts =>
      by_cases ht : t.kind = kind
      · refine ⟨(), [], ts, List.suffix_cons t ts, List.forall_mem_nil _,
          fun more => ?_⟩
        simp [expect, current, ht]
      · refine ⟨(), [.expected kind t], t :: ts, List.suffix_refl _,
          by simp [SyntaxFault.found], fun more => ?_⟩
        simp [expect, current, ht]

theorem stays_atom (ts : List Token) : Stays semicolon ts atom := by
  cases ts with
  | nil =>
      refine ⟨noOperand semicolon, [.strayInExpr semicolon], [],
        List.suffix_refl _, by simp [SyntaxFault.found], fun more => ?_⟩
      simp [atom, current, hsemicolon]
  | cons t ts =>
      obtain ⟨value, faults, hfaults, hread⟩ := looksAt_atom t
      have hfound : ∀ fault ∈ faults, fault.found ∈ t :: ts ++ [semicolon] := by
        intro fault hfault
        rw [hfaults fault hfault]
        exact List.mem_cons_self
      rcases hread with hpassed | hkept
      · exact ⟨value, faults, ts, List.suffix_cons t ts, hfound, fun more =>
          hpassed _⟩
      · exact ⟨value, faults, t :: ts, List.suffix_refl _, hfound, fun more =>
          hkept _⟩

theorem stays_moreFactors (left : Expr) (ts : List Token) :
    Stays semicolon ts (moreFactors left) := by
  cases ts with
  | nil =>
      refine stays_pure left fun more => moreFactors_of_ne_star left ?_
      simp [current, hsemicolon]
  | cons t ts =>
      by_cases hstar : t.kind = .star
      · -- The factors behind the next one are read from a shorter list.
        have hmore : Stays semicolon ts (Stylesheet.andThen atom fun right =>
            moreFactors (.operation t.pos .multiply left right)) :=
          (stays_atom hsemicolon ts).andThen fun right us hus =>
            have := hus.length_le
            stays_moreFactors _ us
        refine hmore.cons fun more => ?_
        rw [List.cons_append, moreFactors, if_pos hstar]
        rfl
      · exact stays_pure left fun more => moreFactors_of_ne_star left hstar
termination_by ts.length

theorem stays_term (ts : List Token) : Stays semicolon ts term :=
  (stays_atom hsemicolon ts).andThen fun value us _ =>
    stays_moreFactors hsemicolon value us

theorem stays_moreTerms (left : Expr) (ts : List Token) :
    Stays semicolon ts (moreTerms left) := by
  cases ts with
  | nil =>
      refine stays_pure left fun more => ?_
      have hsign : termSign? semicolon.kind = none := by rw [hsemicolon]; rfl
      rw [List.nil_append, moreTerms, hsign]
  | cons t ts =>
      cases hsign : termSign? t.kind with
      | none =>
          refine stays_pure left fun more => ?_
          rw [List.cons_append, moreTerms, hsign]
      | some op =>
          have hmore : Stays semicolon ts (Stylesheet.andThen term fun right =>
              moreTerms (.operation t.pos op left right)) :=
            (stays_term hsemicolon ts).andThen fun right us hus =>
              have := hus.length_le
              stays_moreTerms _ us
          refine hmore.cons fun more => ?_
          rw [List.cons_append, moreTerms, hsign]
          rfl
termination_by ts.length

theorem stays_expr (ts : List Token) : Stays semicolon ts expr :=
  (stays_term hsemicolon ts).andThen fun value us _ =>
    stays_moreTerms hsemicolon value us

end Stays

/-! ## Items that are begun and given up -/

section Resumes

variable {α β : Type}

/-- From the tokens with the semicolon behind them, the reader takes some of the
first tokens, or all of them and the semicolon.  What it gives does not depend
on what is behind the semicolon, and its faults are at the given places. -/
def Resumes (semicolon : Token) (ts places : List Token)
    (read : List Token → Reading α) : Prop :=
  ∃ value faults, (∀ fault ∈ faults, fault.found ∈ places) ∧
    ((∀ more, read (ts ++ semicolon :: more) = ⟨value, faults, more⟩) ∨
      ∃ rest, rest <:+ ts ∧
        ∀ more, read (ts ++ semicolon :: more) =
          ⟨value, faults, rest ++ semicolon :: more⟩)

variable {semicolon : Token}

/-- A reader that gives something else, but takes the same tokens. -/
theorem Resumes.map
    {ts places places' : List Token} {read : List Token → Reading α}
    {read' : List Token → Reading β} (f : α → β)
    (h : Resumes semicolon ts places read) (hplaces : places ⊆ places')
    (hread : ∀ more, let r := read (ts ++ semicolon :: more)
      read' (ts ++ semicolon :: more) = ⟨f r.value, r.faults, r.rest⟩) :
    Resumes semicolon ts places' read' := by
  obtain ⟨value, faults, hfaults, hcases⟩ := h
  refine ⟨f value, faults, fun fault hfault =>
    hplaces (hfaults fault hfault), ?_⟩
  rcases hcases with hpassed | ⟨rest, hrest, hkept⟩
  · exact .inl fun more => by rw [hread more, hpassed]
  · exact .inr ⟨rest, hrest, fun more => by rw [hread more, hkept]⟩

variable (hsemicolon : semicolon.kind = .semicolon)

include hsemicolon

/-- A declaration or an assignment is over at the semicolon, or at a token that
does not fit. -/
theorem resumes_binding {sign : TokenKind} (hsign : sign ≠ .semicolon)
    (ts : List Token) :
    Resumes semicolon ts (ts ++ [semicolon]) (binding sign) := by
  have hfront : Stays semicolon ts (andThen (expect sign) fun _ => expr) :=
    (stays_expect hsemicolon hsign ts).andThen fun _ us _ =>
      stays_expr hsemicolon us
  obtain ⟨value, faults, rest, hrest, hfaults, hread⟩ := hfront
  have hbinding : ∀ more, binding sign (ts ++ semicolon :: more) =
      ⟨value, faults ++ (expect .semicolon (rest ++ semicolon :: more)).faults,
        (expect .semicolon (rest ++ semicolon :: more)).rest⟩ := by
    intro more
    have hparts := hread more
    simp only [andThen, Reading.mk.injEq] at hparts
    obtain ⟨hvalue, hnoted, hleft⟩ := hparts
    simp only [binding, hvalue, hnoted, hleft]
  cases rest with
  | nil =>
      refine ⟨value, faults, hfaults, .inl fun more => ?_⟩
      simp [hbinding, expect_of_kind hsemicolon]
  | cons t rest =>
      by_cases ht : t.kind = .semicolon
      · refine ⟨value, faults, hfaults, .inr ⟨rest, ?_, fun more => ?_⟩⟩
        · exact (List.suffix_cons t rest).trans hrest
        · simp [hbinding, expect_of_kind ht]
      · refine ⟨value, faults ++ [.expected .semicolon t], ?_,
          .inr ⟨t :: rest, hrest, fun more => ?_⟩⟩
        · refine List.forall_mem_append.mpr
            ⟨hfaults, List.forall_mem_singleton.mpr ?_⟩
          exact List.mem_append_left _ (hrest.subset List.mem_cons_self)
        · simp [hbinding, expect, current, ht]

/-- Behind a token that begins no item, tokens are passed up to the
semicolon. -/
theorem skip_append {ts : List Token} (hts : Loose ts) (more : List Token) :
    skip (ts ++ semicolon :: more) = more := by
  induction ts with
  | nil => simp [skip, hsemicolon]
  | cons t ts ih =>
      have ht := hts t List.mem_cons_self
      rw [List.cons_append, skip, ih (hts.of_suffix (List.suffix_cons t ts))]
      split
      all_goals simp_all [boundaries]

theorem resumes_simpleItem {t : Token} (ht : t.kind ∉ boundaries)
    {ts : List Token} (hts : Loose ts) :
    Resumes semicolon ts (t :: ts ++ [semicolon]) (simpleItem t) := by
  have hplaces : ts ++ [semicolon] ⊆ t :: ts ++ [semicolon] :=
    List.subset_cons_self _ _
  have hahead := current_append ts semicolon
  by_cases hassign : (t.kind = .ident ∨ t.kind = .capitalIdent) ∧
      (current (ts ++ [semicolon])).kind = .assign
  · have hbinding :=
      resumes_binding hsemicolon (show TokenKind.assign ≠ _ by decide) ts
    refine hbinding.map
      (fun value => some (.assignment t.pos t.text value)) hplaces
      fun more => ?_
    simp only [simpleItem, hahead, if_pos hassign]
  · by_cases hcolon : t.kind = .ident ∨
        (t.kind = .capitalIdent ∧ (current (ts ++ [semicolon])).kind = .colon)
    · have hbinding :=
        resumes_binding hsemicolon (show TokenKind.colon ≠ _ by decide) ts
      refine hbinding.map
        (fun value => some (.declaration t.pos t.text value)) hplaces
        fun more => ?_
      simp only [simpleItem, hahead, if_neg hassign, if_pos hcolon]
    · refine ⟨none, [.strayInBody t],
        List.forall_mem_singleton.mpr List.mem_cons_self, .inl fun more => ?_⟩
      have hresume : resume t (ts ++ semicolon :: more) = more := by
        rw [resume, skip_append hsemicolon hts]
        split <;> simp_all [boundaries]
      simp only [simpleItem, hahead, if_neg hassign, if_neg hcolon, hresume]

/-- Items are read from the tokens up to the semicolon, whatever is behind it,
and reading goes on right there. -/
theorem exists_items_append {ts : List Token} (hts : Loose ts) :
    ∃ its faults, (∀ fault ∈ faults, fault.found ∈ ts ++ [semicolon]) ∧
      ∀ more, items (ts ++ semicolon :: more) =
        ⟨its ++ (items more).value, faults ++ (items more).faults,
          (items more).rest⟩ := by
  induction hlength : ts.length using
    Nat.strong_induction_on generalizing ts with
  | _ n ih =>
      cases ts with
      | nil =>
          refine ⟨[], [.strayInBody semicolon],
            List.forall_mem_singleton.mpr List.mem_cons_self, fun more => ?_⟩
          simp [items_cons, hsemicolon, simpleItem, resume]
      | cons t ts =>
          have ht := hts t List.mem_cons_self
          have hrest := hts.of_suffix (List.suffix_cons t ts)
          obtain ⟨value, faults, hfaults, hpassed | ⟨us, hus, hkept⟩⟩ :=
            resumes_simpleItem hsemicolon ht hrest
          · refine ⟨value.toList, faults, hfaults, fun more => ?_⟩
            simp only [List.cons_append, items_cons_of_loose ht, hpassed]
          · -- The item was given up inside the tokens, and the next one begins in
            -- a shorter list.
            have hshorter : us.length < n := by
              rw [← hlength]
              exact Nat.lt_succ_of_le hus.length_le
            obtain ⟨its, more, hmore, hread⟩ :=
              ih _ hshorter (hrest.of_suffix hus) rfl
            refine ⟨value.toList ++ its, faults ++ more, ?_, fun behind => ?_⟩
            · refine List.forall_mem_append.mpr ⟨hfaults, ?_⟩
              exact found_mem_of_suffix
                (hus.trans (List.suffix_cons t ts)) hmore
            · simp only [List.cons_append, items_cons_of_loose ht, hkept, hread,
                List.append_assoc]

/-- What a broken statement yields by itself is what it yields between other
items. -/
theorem items_append {ts : List Token} (hts : Loose ts) :
    (items (ts ++ [semicolon])).rest = [] ∧
      (∀ fault ∈ (items (ts ++ [semicolon])).faults, fault.found ∈ ts
        ++ [semicolon]) ∧
      ∀ more, items (ts ++ semicolon :: more) =
        ⟨(items (ts ++ [semicolon])).value ++ (items more).value,
          (items (ts ++ [semicolon])).faults ++ (items more).faults,
          (items more).rest⟩ := by
  obtain ⟨its, faults, hfaults, hread⟩ := exists_items_append hsemicolon hts
  have halone := hread []
  rw [items_nil, List.append_nil, List.append_nil] at halone
  rw [halone]
  exact ⟨rfl, hfaults, hread⟩

end Resumes

/-! ## Well-formed items around it -/

theorem Grammar.BodyItem.reads {ts : List Token} {item : Item}
    (h : BodyItem ts item) :
    ReadsItem ts item := by
  cases h with
  | declaration h => exact h.readsDeclaration
  | assignment h => exact h.readsAssignment
  | conditional h => exact h.reads.item

/-- Well-formed items are read before whatever is behind them, unless the last
one goes on there. -/
theorem Grammar.Body.read_append
    {ts : List Token} {its : List Item} (h : Body ts its) {rest : List Token}
    (hrest : (current rest).kind ≠ .elseWord) :
    (current (ts ++ rest)).kind ≠ .elseWord ∧
      items (ts ++ rest) =
        ⟨its ++ (items rest).value, (items rest).faults,
          (items rest).rest⟩ := by
  induction its generalizing ts with
  | nil =>
      cases h
      exact ⟨hrest, rfl⟩
  | cons item its ih =>
      cases h with
      | @cons ts us _ _ hitem hitems =>
          obtain ⟨hhead, hmore⟩ := ih hitems
          obtain ⟨hfirst, hread⟩ := hitem.reads
          rw [List.append_assoc]
          refine ⟨hfirst _, ?_⟩
          rw [hread _ hhead, hmore, List.cons_append]

theorem items_closing {closing : Token} (h : closing.kind = .rbrace)
    (rest : List Token) :
    items (closing :: rest) = ⟨[], [], closing :: rest⟩ := by
  simp [items_cons, h]

/-- Tokens that are the same but for their places are well-formed alike. -/
theorem Grammar.Body.exists_unplaced
    {ts ts' : List Token} {its : List Item} (h : Body ts its)
    (hsame : ts'.map Token.unplaced = ts.map Token.unplaced) :
    ∃ its', Body ts' its' ∧
      movedItems unplaced its' = movedItems unplaced its := by
  let closing : Token := .bare .rbrace "\x7d"
  have hclosing : (current [closing]).kind ≠ .elseWord := by decide
  have hread := (h.read_append hclosing).2
  rw [items_closing rfl, List.append_nil] at hread
  have hmoved : (items (ts' ++ [closing])).moved unplaced
      (movedItems unplaced) =
      (items (ts ++ [closing])).moved unplaced (movedItems unplaced) := by
    rw [← items_moved rfl, ← items_moved rfl, List.map_append, List.map_append]
    exact congrArg (fun us => items (us ++ _)) hsame
  rw [hread] at hmoved
  simp only [Reading.moved, Reading.mk.injEq, List.map_nil,
    List.map_eq_nil_iff] at hmoved
  obtain ⟨hvalue, hfaults, hleft⟩ := hmoved
  obtain ⟨us, hus, hbody⟩ := items_sound _ hfaults
  have hlength := congrArg List.length hleft
  rw [List.length_map, List.length_map] at hlength
  obtain ⟨rfl, -⟩ := List.append_inj' hus hlength.symm
  exact ⟨_, hbody, hvalue⟩

/-! ## Bodies -/

/-- The tokens with braces around them. -/
def InBraces (ts bs : List Token) : Prop :=
  ∃ opening closing, opening.kind = .lbrace ∧ closing.kind = .rbrace ∧
    bs = opening :: ts ++ [closing]

/-- The tokens of a guard with brackets around them. -/
def InBrackets (guard : Expr) (gs : List Token) : Prop :=
  ∃ opening es closing, opening.kind = .lbracket ∧ Expression es guard ∧
    closing.kind = .rbracket ∧ gs = opening :: es ++ [closing]

/-- In braces, the tokens are read as the given items with the given faults, and
reading goes on behind the closing brace.  So it is with the body of a rule, and
with either branch of a conditional. -/
structure ReadAsBody (ts : List Token) (its : List Item)
    (faults : List SyntaxFault) : Prop where
  block : ∀ bs rest, InBraces ts bs → block (bs ++ rest) = ⟨its, faults, rest⟩
  rule : ∀ bs rest, InBraces ts bs →
    ∀ t us selectors, Selectors (t :: us) selectors →
    rule t (us ++ (bs ++ rest)) = ⟨.rule t.pos selectors its, faults, rest⟩
  ifThen : ∀ bs rest, InBraces ts bs → ∀ guard gs, InBrackets guard gs →
    (current rest).kind ≠ .elseWord →
    conditional (gs ++ (bs ++ rest)) = ⟨⟨guard, its, none⟩, faults, rest⟩
  ifElse : ∀ bs rest, InBraces ts bs → ∀ guard gs, InBrackets guard gs →
    ∀ other os otherwise, other.kind = .elseWord → Block os otherwise →
    conditional (gs ++ (bs ++ other :: (os ++ rest))) =
      ⟨⟨guard, its, some (other.pos, otherwise)⟩, faults, rest⟩
  elseBody : ∀ bs rest, InBraces ts bs → ∀ guard gs, InBrackets guard gs →
    ∀ other os first, other.kind = .elseWord → Block os first →
    conditional (gs ++ (os ++ other :: (bs ++ rest))) =
      ⟨⟨guard, first, some (other.pos, its)⟩, faults, rest⟩

theorem InBrackets.read {guard : Expr} {gs : List Token}
    (h : InBrackets guard gs) (rest : List Token) :
    bracketed (gs ++ rest) = ⟨guard, [], rest⟩ := by
  obtain ⟨opening, es, closing, hopening, hguard, hclosing, rfl⟩ := h
  have hread := hguard.read_bracketed hopening hclosing rest
  simpa using hread

theorem readAsBody_of_items
    {ts : List Token} {its : List Item} {faults : List SyntaxFault}
    (h : ∀ closing rest, closing.kind = .rbrace →
      items (ts ++ closing :: rest) = ⟨its, faults, closing :: rest⟩) :
    ReadAsBody ts its faults := by
  have hblock : ∀ bs rest, InBraces ts bs →
      block (bs ++ rest) = ⟨its, faults, rest⟩ := by
    rintro bs rest ⟨opening, closing, hopening, hclosing, rfl⟩
    have hitems := h closing rest hclosing
    simp [Reading.block, blockOf, expect_of_kind hopening, hitems,
      expect_of_kind hclosing]
  refine ⟨hblock, ?_, ?_, ?_, ?_⟩
  · intro bs rest hbs t us selectors hselectors
    obtain ⟨t', us', more, heq, rfl, -, hmore⟩ := hselectors.read
    obtain ⟨rfl, rfl⟩ := List.cons.inj heq
    have hbody := hblock bs rest hbs
    obtain ⟨opening, closing, hopening, hclosing, rfl⟩ := hbs
    have hheads := (hmore opening (ts ++ [closing] ++ rest) hopening).2
    have hfront : opening :: ts ++ [closing] ++ rest =
        opening :: (ts ++ [closing] ++ rest) := by
      simp
    rw [hfront] at hbody ⊢
    simp only [Reading.rule, hheads, hbody, List.nil_append]
  · intro bs rest hbs guard gs hguard hrest
    simp [conditional_eq, hguard.read, hblock bs rest hbs, hrest]
  · intro bs rest hbs guard gs hguard other os otherwise hother hotherwise
    have helse := hotherwise.reads rest
    simp [conditional_eq, hguard.read, hblock bs _ hbs, current, hother, helse]
  · intro bs rest hbs guard gs hguard other os first hother hfirst
    have hthen := hfirst.reads (other :: (bs ++ rest))
    simp [conditional_eq, hguard.read, hthen, current, hother,
      hblock bs rest hbs]

/-- A fault stays in its statement.  Between well-formed items of a body, loose
tokens and a semicolon are read as they are by themselves, up to the semicolon
and no further, and every fault is at one of them.  The items around them come
out as if they were not there. -/
theorem fault_stays_in_statement
    {as bs as' bs' g : List Token} {semicolon : Token}
    {before behind : List Item} (hbefore : Body as before)
    (hbehind : Body bs behind)
    (has : as'.map Token.unplaced = as.map Token.unplaced)
    (hbs : bs'.map Token.unplaced = bs.map Token.unplaced) (hg : Loose g)
    (hsemicolon : semicolon.kind = .semicolon) :
    let broken := items (g ++ [semicolon])
    (∀ more, items (g ++ semicolon :: more) =
      ⟨broken.value ++ (items more).value,
      broken.faults ++ (items more).faults, (items more).rest⟩) ∧
    (∀ fault ∈ broken.faults,
      ∃ t ∈ g ++ [semicolon], fault.diagnostic.pos = t.pos) ∧
    ReadAsBody (as ++ bs) (before ++ behind) [] ∧
    ∃ before' behind',
      movedItems unplaced before' = movedItems unplaced before ∧
      movedItems unplaced behind' = movedItems unplaced behind ∧
      ReadAsBody (as' ++ (g ++ semicolon :: bs'))
        (before' ++ broken.value ++ behind') broken.faults := by
  intro broken
  obtain ⟨-, hfaults, hbroken⟩ := items_append hsemicolon hg
  obtain ⟨before', hbefore', hsameBefore⟩ := hbefore.exists_unplaced has
  obtain ⟨behind', hbehind', hsameBehind⟩ := hbehind.exists_unplaced hbs
  have hclosing : ∀ closing rest, closing.kind = .rbrace →
      (current (closing :: rest)).kind ≠ .elseWord := by
    intro closing rest hkind
    simp [current, hkind]
  refine ⟨hbroken, fun fault hfault => ⟨fault.found, hfaults fault hfault, rfl⟩,
    readAsBody_of_items ?_, before', behind', hsameBefore, hsameBehind,
    readAsBody_of_items ?_⟩
  · intro closing rest hkind
    obtain ⟨hhead, hlast⟩ := hbehind.read_append (hclosing closing rest hkind)
    rw [List.append_assoc, (hbefore.read_append hhead).2, hlast,
      items_closing hkind, List.append_nil]
  · intro closing rest hkind
    have hhead := hg.current_ne_else hsemicolon (bs' ++ closing :: rest)
    have hlast := (hbehind'.read_append (hclosing closing rest hkind)).2
    have hshape : as' ++ (g ++ semicolon :: bs') ++ closing :: rest =
        as' ++ (g ++ semicolon :: (bs' ++ closing :: rest)) := by simp
    rw [hshape, (hbefore'.read_append hhead).2, hbroken, hlast,
      items_closing hkind]
    simp [broken]

/-- Tokens from which items are read to the end and without a fault are
well-formed. -/
theorem body_of_items {ts : List Token} (hfaults : (items ts).faults = [])
    (hrest : (items ts).rest = []) : Body ts (items ts).value := by
  obtain ⟨us, hus, hbody⟩ := items_sound ts hfaults
  rw [hrest, List.append_nil] at hus
  exact hus ▸ hbody

/-- The tokens of a text, without the end. -/
def wordsOf (text : String) : List Token :=
  (Scan.scan text.toList).dropLast

/-- Between a declaration and a conditional, three items are begun and given up,
each at the token where the next one begins, before the bracket is met and the
rest is passed over. -/
theorem fault_stays_in_statement_between_two :
    (items (wordsOf "color: x y := 9 z: ] , ;")).faults.map
      SyntaxFault.message =
      ["expected ;, got IDENT 'y'", "expected ;, got IDENT 'z'",
        "unexpected ] in expression", "expected ;, got ]",
        "unexpected ] in rule body"] ∧
    ∃ before behind, before.length = 1 ∧ behind.length = 1 ∧
      ReadAsBody (wordsOf "width: 1px;" ++ wordsOf "if [A] \x7b x := 2px; \x7d")
        (before ++ behind) [] ∧
      ∃ before' behind',
        movedItems unplaced before' = movedItems unplaced before ∧
        movedItems unplaced behind' = movedItems unplaced behind ∧
        ReadAsBody (wordsOf "width: 1px;"
          ++ (wordsOf "color: x y := 9 z: ] ," ++
            .bare .semicolon ";" :: wordsOf "\n if [A]\n\x7b x := 2px; \x7d"))
          (before'
            ++ (items (wordsOf "color: x y := 9 z: ] ,"
              ++ [.bare .semicolon ";"])).value
            ++ behind')
          (items (wordsOf "color: x y := 9 z: ] ,"
            ++ [.bare .semicolon ";"])).faults := by
  refine ⟨by decide +kernel, (items (wordsOf "width: 1px;")).value,
    (items (wordsOf "if [A] \x7b x := 2px; \x7d")).value, by decide +kernel,
    by decide +kernel, ?_⟩
  exact (fault_stays_in_statement
    (body_of_items (by decide +kernel) (by decide +kernel))
    (body_of_items (by decide +kernel) (by decide +kernel))
    rfl (by decide +kernel) (by unfold Loose; decide +kernel) rfl).2.2

end Stylesheet
