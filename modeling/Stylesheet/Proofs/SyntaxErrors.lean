import Stylesheet.Proofs.SourceOrder

/-!
# Where syntax errors stand

Reading goes along the tokens of a source and never turns back.  It notes its
faults at the token in front, so syntax errors come in the order of the source.
There is one way to pass the end token: an operand is missing at the end of the
source.  Whatever is noted behind that has no token to stand at, and something
always is.
-/

namespace Stylesheet

open Reading

/-- The fault of a source that breaks off where an operand is expected. -/
def SyntaxFault.isBrokenOff : SyntaxFault → Bool
  | .strayInExpr t => t.kind = .eof
  | _ => false

/-! ## The way of a reading -/

namespace Reading

/-- From the first list of tokens reading comes to the second one, and notes the
given faults on the way.  A fault is noted at the token in front; the end token
is passed only with a fault. -/
inductive Trail : List Token → List SyntaxFault → List Token → Prop
  | stop (ts : List Token) : Trail ts [] ts
  | note {fault : SyntaxFault} {ts rest : List Token}
      {faults : List SyntaxFault} (hfound : fault.found = current ts)
      (hend : fault.isBrokenOff = true → ts = [])
      (h : Trail ts faults rest) : Trail ts (fault :: faults) rest
  | pass {t : Token} {ts rest : List Token} {faults : List SyntaxFault}
      (hkind : t.kind ≠ .eof) (h : Trail ts faults rest) : Trail (t :: ts)
      faults rest
  | overrun {t : Token} {ts rest : List Token} {faults : List SyntaxFault}
      (hkind : t.kind = .eof) (h : Trail ts faults rest) :
      Trail (t :: ts) (.strayInExpr t :: faults) rest

/-- The reading went along the given tokens. -/
def Along {α : Type} (ts : List Token) (r : Reading α) : Prop :=
  Trail ts r.faults r.rest

theorem Trail.append
    {ts mid rest : List Token} {faults more : List SyntaxFault}
    (h : Trail ts faults mid) (hmore : Trail mid more rest) :
    Trail ts (faults ++ more) rest := by
  induction h with
  | stop => exact hmore
  | note hfound hend _ ih => exact .note hfound hend (ih hmore)
  | pass hkind _ ih => exact .pass hkind (ih hmore)
  | overrun hkind _ ih => exact .overrun hkind (ih hmore)

theorem Along.pass
    {α β : Type} {t : Token} {ts : List Token} {r : Reading α} {value : β}
    (h : Along ts r) (ht : t.kind ≠ .eof) :
    Along (t :: ts) ⟨value, r.faults, r.rest⟩ :=
  Trail.pass ht h

/-- A fault at the token in front, which is then passed. -/
theorem Trail.note_pass
    {t : Token} {ts rest : List Token} {faults : List SyntaxFault}
    {fault : SyntaxFault} (hkind : t.kind ≠ .eof) (hfound : fault.found = t)
    (h : Trail ts faults rest) :
    Trail (t :: ts) (fault :: faults) rest := by
  refine .note hfound (fun hend => ?_) (.pass hkind h)
  cases fault with
  | strayInExpr s =>
      obtain rfl : s = t := hfound
      exact absurd (of_decide_eq_true hend) hkind
  | _ => cases hend

theorem current_ne_eof {ts : List Token} (h : (current ts).kind ≠ .eof) :
    ∃ rest, ts = current ts :: rest := by
  cases ts with
  | nil => exact absurd rfl h
  | cons t rest => exact ⟨rest, rfl⟩

theorem trail_tail {ts : List Token} (h : (current ts).kind ≠ .eof) :
    Trail ts [] ts.tail := by
  obtain ⟨rest, hts⟩ := current_ne_eof h
  rw [hts]
  exact .pass h (.stop _)

theorem trail_note_tail
    {ts : List Token} {fault : SyntaxFault} (h : (current ts).kind ≠ .eof)
    (hfound : fault.found = current ts) : Trail ts [fault] ts.tail := by
  obtain ⟨rest, hts⟩ := current_ne_eof h
  rw [hts] at hfound ⊢
  exact .note_pass h hfound (.stop _)

theorem along_expect {kind : TokenKind} (hkind : kind ≠ .eof)
    (ts : List Token) :
    Along ts (expect kind ts) := by
  unfold expect Along
  split
  · next hcurrent => exact trail_tail (hcurrent ▸ hkind)
  · exact .note rfl nofun (.stop _)

theorem trail_skip (ts : List Token) : Trail ts [] (skip ts) := by
  induction ts with
  | nil => exact .stop _
  | cons t rest ih =>
      unfold skip
      split
      · next hkind => exact .pass (by rw [hkind]; decide) (.stop _)
      · exact .stop _
      · exact .stop _
      · exact .stop _
      · next heof => exact .pass heof ih

theorem trail_resume (t : Token) (rest : List Token) :
    Trail rest [] (resume t rest) := by
  unfold resume
  split
  · exact .stop _
  · exact .stop _
  · exact trail_skip rest

/-! ### Expressions -/

theorem along_number
    {ts : List Token} (make : Int64 → Literal) (h : (current ts).kind ≠ .eof) :
    Along ts (number make (current ts) ts.tail) := by
  unfold number Along
  dsimp only
  split
  · exact trail_tail h
  · exact trail_note_tail h rfl

/-- Without a token that begins an operand, the token in front is a fault.  It
is the only place where the end token is passed. -/
theorem along_stray (ts : List Token) :
    Along ts (⟨noOperand (current ts), [.strayInExpr (current ts)], ts.tail⟩ :
      Reading Expr) := by
  by_cases heof : (current ts).kind = .eof
  · cases ts with
    | nil => exact .note rfl (fun _ => rfl) (.stop _)
    | cons t rest => exact .overrun heof (.stop _)
  · exact trail_note_tail heof rfl

theorem along_atom (ts : List Token) : Along ts (atom ts) := by
  have hpass : ∀ {kind : TokenKind}, (current ts).kind = kind → kind ≠ .eof →
      (current ts).kind ≠ .eof := fun heq hne => heq ▸ hne
  have hstop : (current ts).kind ≠ .eof →
      Trail ts [.strayInExpr (current ts)] ts :=
    fun hne =>
      .note rfl (fun hend => absurd (of_decide_eq_true hend) hne) (.stop _)
  unfold atom
  dsimp only
  split
  case h_1 hkind => exact along_number _ (hpass hkind (by decide))
  case h_2 hkind => exact along_number _ (hpass hkind (by decide))
  case h_3 hkind => exact along_number _ (hpass hkind (by decide))
  case h_4 hkind => exact trail_tail (hpass hkind (by decide))
  case h_5 hkind => exact trail_tail (hpass hkind (by decide))
  case h_6 hkind => exact trail_tail (hpass hkind (by decide))
  case h_7 hkind => exact trail_tail (hpass hkind (by decide))
  case h_8 hkind => exact trail_tail (hpass hkind (by decide))
  case h_9 hkind => exact hstop (hpass hkind (by decide))
  case h_10 hkind => exact hstop (hpass hkind (by decide))
  case h_11 hkind => exact hstop (hpass hkind (by decide))
  case h_12 => exact along_stray ts

theorem along_moreFactors (left : Expr) (ts : List Token) :
    Along ts (moreFactors left ts) := by
  fun_induction moreFactors left ts with
  | case1 => exact .stop _
  | case2 left t rest hstar right hright more ih =>
      exact Trail.pass (by rw [hstar]; decide) ((along_atom rest).append ih)
  | case3 => exact .stop _

theorem along_term (ts : List Token) : Along ts (term ts) :=
  (along_atom ts).append (along_moreFactors _ _)

theorem ne_eof_of_termSign? {kind : TokenKind} {op : Operator}
    (h : termSign? kind = some op) :
    kind ≠ .eof := by
  rintro rfl
  cases h

theorem along_moreTerms (left : Expr) (ts : List Token) :
    Along ts (moreTerms left ts) := by
  fun_induction moreTerms left ts with
  | case1 => exact .stop _
  | case2 left t rest op hop right hright more ih =>
      exact Trail.pass (ne_eof_of_termSign? hop) ((along_term rest).append ih)
  | case3 => exact .stop _

theorem along_expr (ts : List Token) : Along ts (expr ts) :=
  (along_term ts).append (along_moreTerms _ _)

/-! ### Bodies -/

theorem along_binding {sign : TokenKind} (hsign : sign ≠ .eof)
    (ts : List Token) :
    Along ts (binding sign ts) :=
  ((along_expect hsign ts).append (along_expr _)).append
    (along_expect (by decide) _)

theorem along_bracketed (ts : List Token) : Along ts (bracketed ts) :=
  ((along_expect (by decide) ts).append (along_expr _)).append
    (along_expect (by decide) _)

theorem along_simpleItem
    {t : Token} (ht : t.kind ≠ .eof) (rest : List Token) :
    Along (t :: rest) (simpleItem t rest) := by
  unfold simpleItem
  dsimp only
  split
  · exact (along_binding (by decide) rest).pass ht
  · split
    · exact (along_binding (by decide) rest).pass ht
    · exact .note_pass ht rfl (trail_resume t rest)

section Inner

variable {inner : List Token → Reading (List Item)}
  (hinner : ∀ ts, Along ts (inner ts))

include hinner

theorem along_blockOf (ts : List Token) : Along ts (blockOf inner ts) :=
  ((along_expect (by decide) ts).append (hinner _)).append
    (along_expect (by decide) _)

theorem along_conditionalOf (ts : List Token) :
    Along ts (conditionalOf inner ts) := by
  have hbody := (along_bracketed ts).append (along_blockOf hinner _)
  unfold conditionalOf
  dsimp only
  split
  · next helse =>
      have hword := trail_tail (by rw [helse]; decide)
      exact hbody.append (hword.append (along_blockOf hinner _))
  · exact hbody

end Inner

theorem along_itemsWithin (n : Nat) (ts : List Token) :
    Along ts (itemsWithin n ts) := by
  induction n generalizing ts with
  | zero => cases ts <;> exact .stop _
  | succ n ih =>
      cases ts with
      | nil => exact .stop _
      | cons t rest =>
          unfold itemsWithin
          dsimp only
          split
          · exact .stop _
          · next hend =>
              have ht : t.kind ≠ .eof := fun heof => hend (.inr heof)
              split
              · have hfirst : Along rest (conditionalOf (itemsWithin n) rest) :=
                  along_conditionalOf ih rest
                exact Trail.pass ht (hfirst.append (ih _))
              · exact (along_simpleItem ht rest).append (ih _)

theorem along_items (ts : List Token) : Along ts (items ts) :=
  along_itemsWithin ts.length ts

theorem along_block (ts : List Token) : Along ts (block ts) :=
  along_blockOf along_items ts

theorem along_conditional (ts : List Token) : Along ts (conditional ts) :=
  along_conditionalOf along_items ts

/-! ### Statements -/

theorem along_selector (ts : List Token) : Along ts (selector ts) := by
  unfold selector
  dsimp only
  split
  case h_1 hkind => exact trail_tail (by rw [hkind]; decide)
  case h_2 hkind => exact trail_tail (by rw [hkind]; decide)
  case h_3 hkind => exact trail_tail (by rw [hkind]; decide)
  case h_4 => exact .note rfl nofun (.stop _)

theorem along_moreSelectors (ts : List Token) :
    Along ts (moreSelectors ts) := by
  fun_induction moreSelectors ts with
  | case1 => exact .stop _
  | case2 t rest hcomma first hfirst more ih =>
      exact Trail.pass (by rw [hcomma]; decide)
        ((along_selector rest).append ih)
  | case3 => exact .stop _

theorem along_rule (t : Token) (rest : List Token) : Along rest (rule t rest) :=
  (along_moreSelectors rest).append (along_block _)

theorem along_statement
    {t : Token} (ht : t.kind ≠ .eof) (rest : List Token) :
    Along (t :: rest) (statement t rest) := by
  unfold statement
  dsimp only
  split
  · exact (along_binding (by decide) rest).pass ht
  · split
    · exact (along_conditional rest).pass ht
    · split
      · exact (along_rule t rest).pass ht
      · exact .note_pass ht rfl (trail_resume t rest)

theorem along_statements (ts : List Token) : Along ts (statements ts) := by
  fun_induction statements ts with
  | case1 => exact .stop _
  | case2 => exact .stop _
  | case3 t rest hend first hfirst more ih =>
      exact (along_statement hend rest).append ih

/-! ## Faults along a trail -/

/-- Behind all tokens, faults are noted nowhere. -/
theorem Trail.of_nil
    {faults : List SyntaxFault} {rest : List Token} (h : Trail [] faults rest) :
    rest = [] ∧ ∀ fault ∈ faults, fault.found = .nowhere := by
  generalize hts : ([] : List Token) = ts at h
  induction h with
  | stop =>
      subst hts
      exact ⟨rfl, List.forall_mem_nil _⟩
  | note hfound _ _ ih =>
      subst hts
      exact ⟨(ih rfl).1, List.forall_mem_cons.mpr ⟨hfound, (ih rfl).2⟩⟩
  | pass => cases hts
  | overrun => cases hts

/-- The tokens at which faults are noted come in the order of the list, and
faults that are noted nowhere come last. -/
theorem Trail.split
    {ts rest : List Token} {faults : List SyntaxFault}
    (h : Trail ts faults rest)
    (hts : (ts.map Token.pos).Pairwise Position.Before) :
    ∃ placed lost, faults = placed ++ lost ∧
      (∀ fault ∈ placed, fault.found ∈ ts) ∧
      placed.Pairwise
        (fun f g => f.found.pos = g.found.pos ∨
          f.found.pos.Before g.found.pos) ∧
      (∀ fault ∈ lost, fault.found = .nowhere) ∧ (lost ≠ [] → rest = []) := by
  induction h with
  | stop ts =>
      exact ⟨[], [], rfl, List.forall_mem_nil _, .nil,
        List.forall_mem_nil _, nofun⟩
  | @note fault ts rest faults hfound hend h ih =>
      cases ts with
      | nil =>
          obtain ⟨hrest, hnowhere⟩ := h.of_nil
          exact ⟨[], fault :: faults, rfl, List.forall_mem_nil _, .nil,
            List.forall_mem_cons.mpr ⟨hfound, hnowhere⟩, fun _ => hrest⟩
      | cons t ts =>
          obtain ⟨placed, lost, rfl, hmem, hordered, hlost, hrest⟩ := ih hts
          obtain rfl : fault.found = t := hfound
          have hfirst := (List.pairwise_cons.mp hts).1
          refine ⟨fault :: placed, lost, rfl, ?_,
            List.pairwise_cons.mpr ⟨fun g hg => ?_, hordered⟩, hlost, hrest⟩
          · exact List.forall_mem_cons.mpr ⟨List.mem_cons_self, hmem⟩
          · rcases List.mem_cons.mp (hmem g hg) with heq | hlater
            · exact .inl (congrArg Token.pos heq.symm)
            · exact .inr (hfirst _ (List.mem_map_of_mem hlater))
  | @pass t ts rest faults hkind h ih =>
      obtain ⟨placed, lost, rfl, hmem, hordered, hlost, hrest⟩ :=
        ih (List.pairwise_cons.mp hts).2
      exact ⟨placed, lost, rfl, fun f hf => List.mem_cons_of_mem _ (hmem f hf),
        hordered, hlost, hrest⟩
  | @overrun t ts rest faults hkind h ih =>
      obtain ⟨hfirst, hlater⟩ := List.pairwise_cons.mp hts
      obtain ⟨placed, lost, rfl, hmem, hordered, hlost, hrest⟩ := ih hlater
      refine ⟨.strayInExpr t :: placed, lost, rfl, ?_,
        List.pairwise_cons.mpr ⟨fun g hg => ?_, hordered⟩, hlost, hrest⟩
      · exact List.forall_mem_cons.mpr
          ⟨List.mem_cons_self, fun f hf => List.mem_cons_of_mem _ (hmem f hf)⟩
      · exact .inr (hfirst _ (List.mem_map_of_mem (hmem g hg)))

/-- The end token stands last and nowhere else. -/
def Ended (ts : List Token) : Prop :=
  ∀ t rest, t :: rest <:+ ts → (t.kind = .eof ↔ rest = [])

theorem ended_append_singleton
    {body : List Token} {last : Token} (hbody : ∀ t ∈ body, t.kind ≠ .eof)
    (hlast : last.kind = .eof) : Ended (body ++ [last]) := by
  rintro t rest ⟨front, hsplit⟩
  constructor
  · intro heof
    by_contra hne
    -- With a token behind it, `t` is one of those in front of the last.
    obtain ⟨init, final, rfl⟩ := (List.eq_nil_or_concat' rest).resolve_left hne
    rw [← List.cons_append, ← List.append_assoc] at hsplit
    have hinit : front ++ t :: init = body := (List.append_inj' hsplit rfl).1
    exact hbody t (by simp [← hinit]) heof
  · rintro rfl
    have hsame : [t] = [last] := (List.append_inj' hsplit rfl).2
    rw [(List.cons.inj hsame).1, hlast]

theorem Ended.of_suffix {ts us : List Token} (h : Ended ts)
    (hsuffix : us <:+ ts) : Ended us :=
  fun t rest hrest => h t rest (hrest.trans hsuffix)

theorem Ended.tail {t : Token} {ts : List Token} (h : Ended (t :: ts)) :
    Ended ts :=
  h.of_suffix (List.suffix_cons t ts)

theorem Ended.ne_nil {t : Token} {ts : List Token} (h : Ended (t :: ts))
    (ht : t.kind ≠ .eof) :
    ts ≠ [] :=
  fun hnil => ht ((h t ts List.suffix_rfl).mpr hnil)

theorem Trail.suffix
    {ts rest : List Token} {faults : List SyntaxFault}
    (h : Trail ts faults rest) :
    rest <:+ ts := by
  induction h with
  | stop => exact List.suffix_rfl
  | note _ _ _ ih => exact ih
  | pass _ _ ih => exact ih.trans (List.suffix_cons _ _)
  | overrun _ _ ih => exact ih.trans (List.suffix_cons _ _)

/-- Reading passes the end token exactly if an operand is missing there. -/
theorem Trail.rest_eq_nil_iff
    {ts rest : List Token} {faults : List SyntaxFault}
    (h : Trail ts faults rest) (hts : Ended ts) (hne : ts ≠ []) :
    rest = [] ↔ ∃ fault ∈ faults, fault.isBrokenOff = true := by
  induction h with
  | stop ts => simp [hne]
  | note _ hend _ ih =>
      rw [List.exists_mem_cons_iff, ih hts hne]
      exact (or_iff_right fun hbroken => hne (hend hbroken)).symm
  | pass hkind _ ih => exact ih hts.tail (hts.ne_nil hkind)
  | @overrun t ts rest faults hkind h ih =>
      obtain rfl : ts = [] := (hts t ts List.suffix_rfl).mp hkind
      rw [List.exists_mem_cons_iff]
      exact iff_of_true h.of_nil.1 (.inl (decide_eq_true hkind))

/-! ## What is noted behind the end token -/

/-- If no token is left, a fault was noted behind all of them. -/
def NotesEnd {α : Type} (r : Reading α) : Prop :=
  r.rest = [] → ∃ fault ∈ r.faults, fault.found = .nowhere

theorem notesEnd_expect
    {kind : TokenKind} (hkind : kind ≠ .eof) {ts : List Token}
    (hts : Ended ts) :
    NotesEnd (expect kind ts) := by
  intro hrest
  cases ts with
  | nil =>
      have hexpect : expect kind [] = ⟨(), [.expected kind .nowhere], []⟩ :=
        if_neg fun heof => hkind heof.symm
      rw [hexpect]
      exact ⟨_, List.mem_singleton_self _, rfl⟩
  | cons t ts =>
      obtain ⟨fault, hfault, hbroken⟩ :=
        ((along_expect hkind _).rest_eq_nil_iff hts (List.cons_ne_nil _ _)).mp
          hrest
      unfold expect at hfault
      split at hfault
      · cases hfault
      · rw [List.mem_singleton.mp hfault] at hbroken
        cases hbroken

theorem NotesEnd.append
    {α β : Type} {last : Reading β} (h : NotesEnd last) (value : α)
    (faults : List SyntaxFault) :
    NotesEnd ⟨value, faults ++ last.faults, last.rest⟩ := by
  intro hnil
  obtain ⟨fault, hfault, hnowhere⟩ := h hnil
  exact ⟨fault, List.mem_append_right _ hfault, hnowhere⟩

theorem NotesEnd.map
    {α β : Type} {r : Reading α} (h : NotesEnd r) (value : β) :
    NotesEnd ⟨value, r.faults, r.rest⟩ :=
  h

theorem notesEnd_binding {sign : TokenKind} (hsign : sign ≠ .eof)
    {ts : List Token} (h : Ended ts) :
    NotesEnd (binding sign ts) := by
  have hvalue :=
    h.of_suffix ((along_expect hsign ts).append (along_expr _)).suffix
  have hsemicolon : TokenKind.semicolon ≠ .eof := by decide
  exact (notesEnd_expect hsemicolon hvalue).append _ _

theorem notesEnd_block {ts : List Token} (h : Ended ts) :
    NotesEnd (block ts) := by
  have hlbrace : TokenKind.lbrace ≠ .eof := by decide
  have hrbrace : TokenKind.rbrace ≠ .eof := by decide
  have hbody :=
    h.of_suffix ((along_expect hlbrace ts).append (along_items _)).suffix
  exact (notesEnd_expect hrbrace hbody).append _ _

theorem notesEnd_conditional {ts : List Token} (h : Ended ts) :
    NotesEnd (conditional ts) := by
  have hbody := h.of_suffix (along_bracketed ts).suffix
  have hother := hbody.of_suffix
    ((List.tail_suffix _).trans (along_block (bracketed ts).rest).suffix)
  rw [conditional_eq]
  dsimp only
  split
  · exact (notesEnd_block hother).append _ _
  · exact (notesEnd_block hbody).append _ _

theorem notesEnd_rule (t : Token) {rest : List Token} (h : Ended rest) :
    NotesEnd (rule t rest) := by
  have hbody := h.of_suffix (along_moreSelectors rest).suffix
  exact (notesEnd_block hbody).append _ _

theorem notesEnd_statement
    {t : Token} {rest : List Token} (ht : t.kind ≠ .eof)
    (h : Ended (t :: rest)) :
    NotesEnd (statement t rest) := by
  have hstray : Trail (t :: rest) [.strayAtTop t] (resume t rest) :=
    .note_pass ht rfl (trail_resume t rest)
  unfold statement
  dsimp only
  split
  · exact (notesEnd_binding (by decide) h.tail).map _
  · split
    · exact (notesEnd_conditional h.tail).map _
    · split
      · exact (notesEnd_rule t h.tail).map _
      · -- What is passed behind a stray token ends in front of the end token.
        intro hnil
        obtain ⟨fault, hfault, hbroken⟩ :=
          (hstray.rest_eq_nil_iff h (List.cons_ne_nil _ _)).mp hnil
        rw [List.mem_singleton.mp hfault] at hbroken
        cases hbroken

theorem notesEnd_statements
    {ts : List Token} (h : Ended ts) (hne : ts ≠ []) :
    NotesEnd (statements ts) := by
  fun_induction statements ts with
  | case1 => exact absurd rfl hne
  | case2 t rest heof => exact fun hnil => absurd hnil (List.cons_ne_nil t rest)
  | case3 t rest hend first hfirst more ih =>
      intro hnil
      by_cases hrest : first.rest = []
      · obtain ⟨fault, hfault, hnowhere⟩ := notesEnd_statement hend h hrest
        exact ⟨fault, List.mem_append_left _ hfault, hnowhere⟩
      · obtain ⟨fault, hfault, hnowhere⟩ :=
          ih (h.of_suffix (along_statement hend rest).suffix) hrest hnil
        exact ⟨fault, List.mem_append_right _ hfault, hnowhere⟩

end Reading

/-! ## Syntax errors of a source -/

theorem Scan.one_le_of_mem_scan
    {source : List Char} {t : Token} (ht : t ∈ scan source) :
    1 ≤ t.pos.line ∧ 1 ≤ t.pos.column := by
  obtain ⟨placed, hplaced, htiles⟩ :=
    @Cursor.exists_tiles source [] List.not_mem_nil
  have hscan : placed.map Placed.token = scan source := hplaced
  rw [← hscan] at ht
  obtain ⟨a, ha, rfl⟩ := List.mem_map.mp ht
  rw [htiles.pos_eq a ha, Position.atOffset]
  dsimp only
  omega

theorem Scan.scan_ended (source : List Char) : Ended (scan source) := by
  obtain ⟨body, last, hscan, hbody, hlast⟩ := (Cursor.start source).tokens_eq
  rw [scan, hscan]
  exact ended_append_singleton hbody hlast

theorem Scan.scan_ne_nil (source : List Char) : scan source ≠ [] := by
  obtain ⟨body, last, hscan, -⟩ := (Cursor.start source).tokens_eq
  rw [scan, hscan]
  exact List.append_ne_nil_of_right_ne_nil _ (List.cons_ne_nil _ _)

/-- The reports stand at tokens of the source, and each one where the one before
it stands or behind it. -/
structure Diagnostics.FollowSource (source : List Char)
    (ds : Diagnostics) : Prop where
  at_token : ∀ d ∈ ds, ∃ t ∈ Scan.scan source, d.pos = t.pos
  in_source : ∀ d ∈ ds, 1 ≤ d.pos.line ∧ 1 ≤ d.pos.column
  in_order : ds.Pairwise fun d e => d.pos = e.pos ∨ d.pos.Before e.pos

/-- Faults that are found at tokens, in the order of the source, are reported
so. -/
theorem followSource_of_found
    {source : List Char} {faults : List SyntaxFault}
    (hmem : ∀ fault ∈ faults, fault.found ∈ Scan.scan source)
    (hordered : faults.Pairwise fun f g =>
      f.found.pos = g.found.pos ∨ f.found.pos.Before g.found.pos) :
    Diagnostics.FollowSource source (faults.map SyntaxFault.diagnostic) := by
  refine ⟨?_, ?_, List.pairwise_map.mpr hordered⟩
  · rw [List.forall_mem_map]
    exact fun fault hfault => ⟨fault.found, hmem fault hfault, rfl⟩
  · rw [List.forall_mem_map]
    exact fun fault hfault => Scan.one_le_of_mem_scan (hmem fault hfault)

/-- Syntax errors stand at tokens and come in the order of the source, unless
the source breaks off in an expression; then the errors behind the missing
operand stand nowhere. -/
theorem syntax_errors_follow_source_iff (source : List Char) :
    (Diagnostics.FollowSource source (parse source).diagnostics ↔
        ∀ fault ∈ (parse source).faults, fault.isBrokenOff = false) ∧
      ∃ placed lost, (parse source).diagnostics = placed ++ lost ∧
        Diagnostics.FollowSource source placed ∧
        ∀ d ∈ lost, d.pos = ⟨0, 0⟩ := by
  have htrail := along_statements (Scan.scan source)
  have hbroken :=
    htrail.rest_eq_nil_iff (Scan.scan_ended source) (Scan.scan_ne_nil source)
  obtain ⟨placed, lost, hfaults, hmem, hordered, hlost, hrest⟩ :=
    htrail.split (Scan.Cursor.tokens_in_order .start source).1
  have hread : (parse source).faults = placed ++ lost := hfaults
  have hreports : (parse source).diagnostics =
      placed.map SyntaxFault.diagnostic ++ lost.map SyntaxFault.diagnostic := by
    rw [Parsed.diagnostics, hread, List.map_append]
  have hplaced := followSource_of_found hmem hordered
  refine ⟨⟨fun hfollow fault hfault => ?_, fun hwhole => ?_⟩, _, _, hreports,
    hplaced, ?_⟩
  · by_contra hne
    have hnil := hbroken.mpr ⟨fault, hfault, Bool.not_eq_false _ ▸ hne⟩
    obtain ⟨other, hother, hnowhere⟩ :=
      notesEnd_statements (Scan.scan_ended source)
        (Scan.scan_ne_nil source) hnil
    have hline :=
      (hfollow.in_source other.diagnostic (List.mem_map_of_mem hother)).1
    have hpos : other.diagnostic.pos = Token.nowhere.pos :=
      congrArg Token.pos hnowhere
    rw [hpos] at hline
    revert hline
    decide
  · have hnone : lost = [] := by
      by_contra hne
      obtain ⟨fault, hfault, hoff⟩ := hbroken.mp (hrest hne)
      rw [hwhole fault hfault] at hoff
      cases hoff
    rw [hreports, hnone, List.map_nil, List.append_nil]
    exact hplaced
  · rw [List.forall_mem_map]
    exact fun fault hfault => congrArg Token.pos (hlost fault hfault)

/-- A name alone: its sign and its expression are missed at the end token, and
its semicolon is missed nowhere. -/
theorem syntax_errors_of_lone_name :
    (parse "X".toList).diagnostics =
      [.error .syntaxError ⟨1, 2⟩ "expected :=, got EOF",
        .error .syntaxError ⟨1, 2⟩ "unexpected EOF in expression",
        .error .syntaxError ⟨0, 0⟩ "expected ;, got EOF"] ∧
      ¬ Diagnostics.FollowSource "X".toList (parse "X".toList).diagnostics := by
  have hreports : (parse "X".toList).diagnostics =
      [.error .syntaxError ⟨1, 2⟩ "expected :=, got EOF",
        .error .syntaxError ⟨1, 2⟩ "unexpected EOF in expression",
        .error .syntaxError ⟨0, 0⟩ "expected ;, got EOF"] := by decide +kernel
  refine ⟨hreports, fun hfollow => ?_⟩
  rw [hreports] at hfollow
  have hline :=
    (hfollow.in_source (.error .syntaxError ⟨0, 0⟩ "expected ;, got EOF")
      (by simp)).1
  revert hline
  decide

end Stylesheet
