import Stylesheet.Proofs.Entries
import Stylesheet.Proofs.Formatting

/-!
# Layout that is put into a source

Blanks and complete comments can be put in front of any token of a source, and
the source has the same tokens and compiles to the same, but for the places.
There is one exception.  A comment that is not closed reaches up to the end of
its source, and what is put there is read as a part of it.  Then the sign that
closes the comment may come early, and what is behind it need not be layout.
-/

namespace Stylesheet

namespace Scan

/-! ## Lexemes and what they are told from -/

theorem takeWhile_of_append
    {p : Char → Bool} {cs rest : List Char}
    (h : (cs ++ rest).takeWhile p <+: cs) :
    cs.takeWhile p = (cs ++ rest).takeWhile p := by
  rw [List.takeWhile_append] at h ⊢
  split
  · next hlength =>
      rw [if_pos hlength] at h
      have hnil : rest.takeWhile p = [] := by
        have hle := h.length_le
        rw [List.length_append] at hle
        exact List.eq_nil_of_length_eq_zero (by omega)
      rw [hnil, List.append_nil]
      apply List.IsPrefix.eq_of_length _ hlength
      exact List.takeWhile_prefix p
  · rfl

theorem dropWhile_of_append
    {p : Char → Bool} {cs rest : List Char}
    (h : (cs ++ rest).takeWhile p <+: cs) :
    (cs ++ rest).dropWhile p = cs.dropWhile p ++ rest := by
  have hsplit : (cs ++ rest).takeWhile p ++ (cs ++ rest).dropWhile p =
      cs.takeWhile p ++ (cs.dropWhile p ++ rest) := by
    rw [List.takeWhile_append_dropWhile, ← List.append_assoc,
      List.takeWhile_append_dropWhile]
  rw [takeWhile_of_append h] at hsplit
  exact List.append_cancel_left hsplit

theorem hashLexeme_of_append
    {cs rest : List Char} (h : (hashLexeme (cs ++ rest)).2 <+: cs) :
    hashLexeme cs = hashLexeme (cs ++ rest) := by
  have hname : (cs ++ rest).takeWhile isNameChar <+: cs := by
    unfold hashLexeme at h
    grind
  simp only [hashLexeme, takeWhile_of_append hname]

theorem numberLexeme_of_append
    {cs rest : List Char} (h : (numberLexeme (cs ++ rest)).2 <+: cs) :
    numberLexeme cs = numberLexeme (cs ++ rest) := by
  have hdigits : (cs ++ rest).takeWhile Char.isDigit <+: cs := by
    refine List.IsPrefix.trans ?_ h
    unfold numberLexeme
    simp only
    split
    · exact List.prefix_append _ _
    · exact List.prefix_append _ _
    · exact List.prefix_rfl
  have hcs : cs.takeWhile Char.isDigit ++ cs.dropWhile Char.isDigit = cs :=
    List.takeWhile_append_dropWhile
  simp only [numberLexeme, ← takeWhile_of_append hdigits,
    dropWhile_of_append hdigits] at h ⊢
  generalize cs.takeWhile Char.isDigit = digits at *
  generalize cs.dropWhile Char.isDigit = unit at *
  subst hcs
  -- A unit is told from two characters, so it is cut off only where it is the
  -- end of the number.
  rcases unit with _ | ⟨c, _ | ⟨d, unit⟩⟩
  · rw [List.nil_append, List.append_nil] at h
    rw [List.nil_append]
    split at h
    · exact absurd h.length_le (by simp)
    · exact absurd h.length_le (by simp)
    · rfl
  · rw [List.cons_append, List.nil_append] at h ⊢
    split at h <;> simp_all
  · grind

/-- What is left out behind a lexeme does not change the lexeme. -/
theorem lexeme_of_append
    {c : Char} {cs rest : List Char} (h : (lexeme c (cs ++ rest)).2 <+: cs) :
    lexeme c cs = lexeme c (cs ++ rest) := by
  revert h
  unfold lexeme
  split
  all_goals intro h
  all_goals try rfl
  · cases cs with
    | nil =>
        split at h
        · simp at h
        · rfl
    | cons d cs =>
        rw [List.cons_append]
        grind
  · have hname : (cs ++ rest).takeWhile isNameChar <+: cs := by grind
    simp only [takeWhile_of_append hname]
  · exact hashLexeme_of_append h
  · split
    · next halpha =>
        rw [if_pos halpha] at h
        rw [takeWhile_of_append h]
    · next halpha =>
        rw [if_neg halpha] at h
        split
        · next hdigit =>
            rw [if_pos hdigit] at h
            exact numberLexeme_of_append h
        · rfl

/-! ## The text before a token -/

/-- The tokens are read from the text, and those of what follows come behind
them, if it does not begin with something that could make the last of them
longer. -/
structure Reads (text : List Char) (us : List Token) : Prop where
  words_append : ∀ rest, Ends rest → words (text ++ rest) = us ++ words rest
  endsInComment_append : ∀ rest, Ends rest →
    endsInComment false (text ++ rest) = endsInComment false rest

theorem reads_nil : Reads [] [] :=
  ⟨fun _ _ => rfl, fun _ _ => rfl⟩

theorem words_cons
    {c : Char} {cs : List Char} (hcs : layout (c :: cs) = [])
    (hnul : c ≠ '\x00') :
    words (c :: cs) =
      .bare (lexeme c cs).1 (String.ofList (c :: (lexeme c cs).2)) ::
      words (cs.drop (lexeme c cs).2.length) := by
  have htokens := Cursor.tokens_cons .nil hcs hnul .start
  rw [List.nil_append] at htokens
  rw [words, scan, Cursor.start, htokens, List.map_cons]
  exact congrArg₂ List.cons rfl (map_unplaced_tokens _ _ _)

theorem words_eq_of_tokens
    {p : Position} {cs : List Char} {ts : List Token}
    (h : Cursor.tokens ⟨p, cs⟩ = ts) :
    words cs = ts.map Token.unplaced := by
  rw [← h]
  exact map_unplaced_tokens cs _ _

/-- A lexeme goes on being read as it is when something else follows the text
behind it. -/
theorem Reads.cons
    {gap text rest : List Char} {us : List Token} {c : Char} {kind : TokenKind}
    {tail : List Char} (h : Reads text us) (hgap : Layout gap)
    (hcs : layout (c :: (tail ++ (text ++ rest))) = []) (hnul : c ≠ '\x00')
    (hlexeme : lexeme c (tail ++ (text ++ rest)) = (kind, tail)) :
    Reads (gap ++ c :: (tail ++ text))
      (.bare kind (String.ofList (c :: tail)) :: us) := by
  have hshort : lexeme c (tail ++ text) = (kind, tail) := by
    rw [← List.append_assoc] at hlexeme
    rw [lexeme_of_append, hlexeme]
    rw [hlexeme]
    exact List.prefix_append _ _
  have hother : ∀ {other}, Ends other →
      layout (c :: (tail ++ text ++ other)) = [] ∧
      lexeme c (tail ++ text ++ other) = (kind, tail) := by
    intro other hends
    refine ⟨?_, by rw [lexeme_append_of_ends hends, hshort]⟩
    rw [← List.append_assoc, layout_eq_nil_iff] at hcs
    refine layout_eq_nil_iff.mpr ⟨hcs.1, ?_⟩
    rintro ⟨hslash, hhead⟩
    cases htext : tail ++ text with
    | nil =>
        rw [htext] at hhead
        exact (hends '*' hhead).2.2.2 rfl
    | cons d more =>
        rw [htext] at hhead hcs
        exact hcs.2 ⟨hslash, hhead⟩
  refine ⟨fun other hends => ?_, fun other hends => ?_⟩
  · obtain ⟨hlayout, hread⟩ := hother hends
    rw [List.append_assoc, words_layout hgap, List.cons_append,
      words_cons hlayout hnul, hread, List.append_assoc, List.drop_left,
      h.words_append other hends, List.cons_append]
  · obtain ⟨hlayout, hread⟩ := hother hends
    rw [List.append_assoc, hgap.gap.endsInComment, List.cons_append,
      endsInComment_drop_lexeme hlayout hnul, hread, List.append_assoc,
      List.drop_left, h.endsInComment_append other hends]

/-- In front of a token there is layout, and in front of that the text that the
tokens before are read from. -/
theorem Cursor.exists_split
    {cs : List Char} {p : Position} {us vs : List Token} {t : Token}
    (h : tokens ⟨p, cs⟩ = us ++ t :: vs) :
    ∃ text gap rest, cs = text ++ (gap ++ rest) ∧
      t.pos = p.after (text ++ gap) ∧
      Reads text (us.map Token.unplaced) ∧
      tokens ⟨p.after text, gap ++ rest⟩ = t :: vs ∧
      (Gap gap ∧ layout rest = [] ∨ t.kind = .eof ∧ OpenGap gap ∧
        AtEnd rest) := by
  induction cs using tokens_induction generalizing p us with
  | hend cs hnone =>
      obtain ⟨rest, hcs, hend⟩ := atEnd_of_tokens hnone
      rw [hnone p] at h
      obtain ⟨rfl, rfl, rfl⟩ : us = [] ∧ t = ⟨.eof, "", p.after (layout cs)⟩ ∧
          vs = [] := by
        cases us with
        | nil => simpa [eq_comm] using h
        | cons u us => simp at h
      refine ⟨[], layout cs, rest, hcs, rfl, reads_nil, ?_, ?_⟩
      · rw [← hcs]
        exact hnone p
      · refine (gap_or_openGap_layout cs).imp
          (fun hgap => ⟨hgap, hend.layout_eq_nil⟩) ?_
        exact fun hopen => ⟨rfl, hopen, hend⟩
  | hcons gap c cs hgap hcs hnul ih =>
      have htokens := tokens_cons hgap hcs hnul p
      rw [h] at htokens
      cases us with
      | nil =>
          obtain ⟨rfl, -⟩ := List.cons.inj htokens
          exact ⟨[], gap, c :: cs, rfl, rfl, reads_nil, h, .inl ⟨hgap.gap, hcs⟩⟩
      | cons u us =>
          obtain ⟨rfl, hrest⟩ := List.cons.inj htokens
          obtain ⟨text, gap', rest, hsplit, hpos, hreads, hbehind, hlayout⟩ :=
            ih hrest.symm
          have htail := List.prefix_iff_eq_append.mp (lexeme_isPrefix c cs)
          rw [hsplit] at htail
          have hplace : p.after (gap ++ c :: ((lexeme c cs).2 ++ text)) =
              ((p.after gap).after (c :: (lexeme c cs).2)).after text := by
            rw [← Position.after_append, ← Position.after_append]
            simp
          refine ⟨gap ++ c :: ((lexeme c cs).2 ++ text), gap', rest, ?_, ?_, ?_,
            ?_, hlayout⟩
          · simp only [List.append_assoc, List.cons_append, htail]
          · rw [hpos, Position.after_append _ _ gap', Position.after_append,
              hplace]
          · rw [← htail] at hcs
            refine hreads.cons hgap hcs hnul ?_
            rw [htail]
          · rw [hplace]
            exact hbehind

/-! ## Text behind an open comment -/

/-- Whether a text is layout up to its end, when it begins inside a comment or
not.  A comment that is open at the end is layout too. -/
def isLayout : Bool → List Char → Bool
  | _, [] => true
  | true, '*' :: '/' :: cs => isLayout false cs
  | true, _ :: cs => isLayout true cs
  | false, '/' :: '*' :: cs => isLayout true cs
  | false, c :: cs => isBlank c && isLayout false cs

theorem isLayout_true_cons
    {c : Char} {cs : List Char} (h : ¬ (c = '*' ∧ cs.head? = some '/')) :
    isLayout true (c :: cs) = isLayout true cs := by
  rw [isLayout]
  rintro tail rfl rfl
  exact h ⟨rfl, rfl⟩

theorem isLayout_false_cons
    {c : Char} {cs : List Char} (h : ¬ (c = '/' ∧ cs.head? = some '*')) :
    isLayout false (c :: cs) = (isBlank c && isLayout false cs) := by
  rw [isLayout]
  rintro tail rfl rfl
  exact h ⟨rfl, rfl⟩

/-- The layout at the front of a text that begins inside a comment or not. -/
def layoutFrom : Bool → List Char → List Char
  | true, cs => commentTail cs ++ layout (cs.drop (commentTail cs).length)
  | false, cs => layout cs

theorem layoutFrom_true_cons
    {c : Char} {cs : List Char} (h : ¬ (c = '*' ∧ cs.head? = some '/'))
    (hnul : c ≠ '\x00') :
    layoutFrom true (c :: cs) = c :: layoutFrom true cs := by
  simp only [layoutFrom, commentTail_cons h hnul, List.length_cons,
    List.drop_succ_cons, List.cons_append]

theorem AtEnd.layoutFrom_eq_nil {rest : List Char} (h : AtEnd rest)
    (inside : Bool) :
    layoutFrom inside rest = [] := by
  have hlayout := h.layout_eq_nil
  cases inside with
  | false => exact hlayout
  | true =>
      have htail : commentTail rest = [] := by
        cases rest with
        | nil => rfl
        | cons c rest =>
            rw [h c rfl]
            rfl
      rw [layoutFrom, htail]
      exact hlayout

theorem AtEnd.head?_append
    {rest : List Char} (h : AtEnd rest) {cs : List Char} {c : Char}
    (hc : c ≠ '\x00') (hhead : (cs ++ rest).head? = some c) :
    cs.head? = some c := by
  cases cs with
  | nil => exact absurd (h c hhead) hc
  | cons d cs => exact hhead

/-- A text without NUL bytes is layout up to its end exactly if reading passes
over all of it. -/
theorem layoutFrom_eq_iff
    {inside : Bool} {cs rest : List Char} (hnul : '\x00' ∉ cs)
    (hrest : AtEnd rest) :
    layoutFrom inside (cs ++ rest) = cs ↔ isLayout inside cs = true := by
  fun_induction isLayout inside cs with
  | case1 inside => exact iff_of_true (hrest.layoutFrom_eq_nil inside) rfl
  | case2 cs ih =>
      simp only [List.mem_cons, not_or] at hnul
      rw [← ih hnul.2.2]
      simp [layoutFrom, commentTail]
  | case3 c cs hopen ih =>
      rw [List.mem_cons, not_or] at hnul
      have hsign : ¬ (c = '*' ∧ (cs ++ rest).head? = some '/') := by
        rintro ⟨hstar, hhead⟩
        obtain ⟨tail, htail⟩ :=
          List.head?_eq_some_iff.mp (hrest.head?_append (by decide) hhead)
        exact hopen tail hstar htail
      rw [List.cons_append, layoutFrom_true_cons hsign (Ne.symm hnul.1),
        List.cons.injEq, and_iff_right rfl, ih hnul.2]
  | case4 cs ih =>
      simp only [List.mem_cons, not_or] at hnul
      rw [← ih hnul.2.2]
      simp [layoutFrom, layout]
  | case5 c cs hopen ih =>
      rw [List.mem_cons, not_or] at hnul
      by_cases hblank : isBlank c = true
      · rw [List.cons_append, layoutFrom, layout_blank hblank, List.cons.injEq,
          and_iff_right rfl, hblank, Bool.true_and]
        exact ih hnul.2
      · have hcomment : ¬ (c = '/' ∧ (cs ++ rest).head? = some '*') := by
          rintro ⟨hslash, hhead⟩
          obtain ⟨tail, htail⟩ :=
            List.head?_eq_some_iff.mp (hrest.head?_append (by decide) hhead)
          exact hopen tail hslash htail
        have hnone : layout (c :: (cs ++ rest)) = [] :=
          layout_eq_nil_iff.mpr ⟨by simpa using hblank, hcomment⟩
        simp [layoutFrom, hnone, hblank]

/-- Nothing but the end is read from a text exactly if the text is layout. -/
theorem words_eq_nowhere_iff
    {cs rest : List Char} (hnul : '\x00' ∉ cs) (hrest : AtEnd rest) :
    words (cs ++ rest) = [.nowhere] ↔ isLayout false cs = true := by
  rw [← layoutFrom_eq_iff hnul hrest]
  rcases Cursor.tokens_cases (cs ++ rest) with
    hnone | ⟨gap, c, more, hcs, hgap, hmore, hc⟩
  · refine iff_of_true ?_ ?_
    · rw [words, scan, Cursor.start, hnone]
      rfl
    · obtain ⟨rest', hcs, hend⟩ := Cursor.atEnd_of_tokens hnone
      have hgap : '\x00' ∉ layout (cs ++ rest) :=
        (gap_or_openGap_layout _).elim Gap.nul_notMem OpenGap.nul_notMem
      have hlength := length_takeWhile_ne_nul hgap hend
      rw [← hcs, length_takeWhile_ne_nul hnul hrest] at hlength
      exact (List.append_inj_left hcs hlength).symm
  · refine iff_of_false ?_ ?_
    · rw [hcs, words_layout hgap, words_cons hmore hc]
      intro h
      exact Cursor.lexeme_kind_ne_eof hmore hc
        (congrArg Token.kind (List.cons.inj h).1)
    · rw [hcs, layoutFrom, hgap.append, hmore, List.append_nil]
      rintro rfl
      rw [List.append_cancel_left hcs] at hrest
      exact hc (hrest c rfl)

/-- The text ends inside a comment that holds `body` so far. -/
def LeavesOpen (text body : List Char) : Prop :=
  ∃ front, text = front ++ ['/', '*'] ++ body ∧
    endsInComment false front = false ∧
    CommentBody body

theorem endsInComment_append_open
    {inside : Bool} {front : List Char} (h : endsInComment inside front = false)
    (body : List Char) :
    endsInComment inside (front ++ ['/', '*'] ++ body) =
      endsInComment true body := by
  fun_induction endsInComment inside front with
  | case1 inside =>
      subst h
      rfl
  | case2 cs ih => exact ih h
  | case3 cs ih => exact ih h
  | case4 inside c cs hopen hclosed ih =>
      rw [← ih h, List.append_assoc, List.append_assoc, List.cons_append]
      cases inside with
      | false =>
          refine endsInComment_false_cons ?_
          rintro ⟨rfl, hhead⟩
          cases cs with
          | nil => cases hhead
          | cons d cs =>
              obtain rfl : d = '*' := Option.some.inj hhead
              exact hopen cs rfl rfl rfl
      | true =>
          refine endsInComment_true_cons ?_
          rintro ⟨rfl, hhead⟩
          cases cs with
          | nil => cases h
          | cons d cs =>
              obtain rfl : d = '/' := Option.some.inj hhead
              exact hclosed cs rfl rfl rfl

theorem LeavesOpen.endsInComment {text body : List Char}
    (h : LeavesOpen text body) :
    endsInComment false text = true := by
  obtain ⟨front, rfl, hfront, hbody⟩ := h
  rw [endsInComment_append_open hfront, hbody.endsInComment_open]

/-- No comment that is left open begins inside another. -/
theorem LeavesOpen.length_le
    {front body front' body' : List Char}
    (h : front ++ ['/', '*'] ++ body = front' ++ ['/', '*'] ++ body')
    (hfront : Scan.endsInComment false front = false) (hbody : CommentBody body)
    (hfront' : Scan.endsInComment false front' = false) :
    front'.length ≤ front.length := by
  by_contra hlt
  rw [List.append_assoc, List.append_assoc] at h
  rcases List.append_eq_append_iff.mp h with ⟨more, rfl, hmore⟩ | ⟨more, rfl, -⟩
  · rcases more with _ | ⟨c, _ | ⟨d, more⟩⟩
    · simp at hlt
    · simp at hmore
    · simp only [List.cons_append, List.nil_append, List.cons.injEq] at hmore
      obtain ⟨rfl, rfl, rfl⟩ := hmore
      have hinner : CommentBody more :=
        ⟨fun hinside =>
          hbody.1 (hinside.trans (List.prefix_append _ _).isInfix),
          fun hmem => hbody.2 (List.mem_append_left _ hmem)⟩
      have hinside := endsInComment_append_open hfront more
      rw [hinner.endsInComment_open] at hinside
      rw [List.append_assoc] at hinside
      exact Bool.false_ne_true (hfront'.symm.trans hinside)
  · simp at hlt

theorem LeavesOpen.unique
    {text body body' : List Char} (h : LeavesOpen text body)
    (h' : LeavesOpen text body') :
    body = body' := by
  obtain ⟨front, rfl, hfront, hbody⟩ := h
  obtain ⟨front', heq, hfront', hbody'⟩ := h'
  have hlength := Nat.le_antisymm (length_le heq.symm hfront' hbody' hfront)
    (length_le heq hfront hbody hfront')
  rw [List.append_assoc, List.append_assoc] at heq
  exact List.append_cancel_left (List.append_inj_right heq hlength)

theorem CommentBody.isLayout_open {body : List Char} (h : CommentBody body) :
    isLayout true body = true := by
  have hpassed := h.pass isLayout_true_cons [] (by decide)
  rwa [List.append_nil] at hpassed

theorem Gap.isLayout_append {gap : List Char} (h : Gap gap) (cs : List Char) :
    isLayout false (gap ++ cs) = isLayout false cs := by
  refine h.pass (fun hblank hopen => ?_) (fun cs hbody => ?_) cs
  · rw [isLayout_false_cons hopen, hblank, Bool.true_and]
  · exact hbody.pass isLayout_true_cons ('*' :: '/' :: cs) (by simp)

/-! ## Layout in front of a token -/

/-- No token goes on into layout. -/
theorem Layout.ends {gap : List Char} (h : Layout gap) (hne : gap ≠ [])
    (rest : List Char) :
    Ends (gap ++ rest) := by
  cases h with
  | nil => exact absurd rfl hne
  | blank hc hgap => exact ends_of_isBlank hc _
  | comment hbody hgap => exact ends_cons.mpr (by decide)

theorem Layout.ends_append
    {gap rest : List Char} (h : Layout gap) (hrest : Ends rest) :
    Ends (gap ++ rest) := by
  by_cases hne : gap = []
  · rwa [hne]
  · exact h.ends hne rest

theorem Gap.ends_self {gap : List Char} (h : Gap gap) : Ends gap := by
  have hnil : Ends [] := by simp [Ends]
  simpa using h.layout.ends_append hnil

theorem OpenGap.ends {cs : List Char} (h : OpenGap cs) (rest : List Char) :
    Ends (cs ++ rest) := by
  obtain ⟨gap, body, rfl, hgap, -⟩ := h
  rw [List.append_assoc, List.append_assoc]
  exact hgap.layout.ends_append (ends_cons.mpr (by decide))

section Split

variable {text front rest gap : List Char} {us : List Token}

/-- Layout in front of a token that is not behind an open comment changes
nothing. -/
theorem Reads.words_insert
    (h : Reads text us) (hfront : Gap front) (hgap : Gap gap)
    (hwords : words (text ++ (front ++ rest)) = us ++ words (front ++ rest)) :
    words (text ++ front ++ gap ++ rest) = words (text ++ (front ++ rest)) := by
  by_cases hne : gap = []
  · simp [hne]
  · have hends : Ends (front ++ (gap ++ rest)) :=
      hfront.layout.ends_append (hgap.layout.ends hne rest)
    rw [List.append_assoc, List.append_assoc, h.words_append _ hends, hwords,
      words_layout hfront.layout, words_layout hfront.layout,
      words_layout hgap.layout]

theorem Reads.leavesOpen
    (h : Reads text us) {body : List Char} (hfront : Gap front)
    (hbody : CommentBody body) :
    LeavesOpen (text ++ (front ++ ['/', '*'] ++ body)) body := by
  refine ⟨text ++ front, by simp, ?_, hbody⟩
  have hclosed := hfront.endsInComment []
  rw [List.append_nil] at hclosed
  rw [h.endsInComment_append _ hfront.ends_self, hclosed]
  rfl

theorem Reads.not_leavesOpen
    (h : Reads text us) (hfront : Gap front) (body : List Char) :
    ¬ LeavesOpen (text ++ front) body := by
  intro hopen
  have hinside := hopen.endsInComment
  have hclosed := hfront.endsInComment []
  rw [List.append_nil] at hclosed
  rw [h.endsInComment_append _ hfront.ends_self, hclosed] at hinside
  cases hinside

/-- Behind an open comment nothing changes exactly if the comment is followed by
layout only. -/
theorem Reads.words_insert_open
    (h : Reads text us) {body : List Char} (hfront : Gap front)
    (hbody : CommentBody body) (hgap : Gap gap) (hrest : AtEnd rest) :
    words (text ++ (front ++ ['/', '*'] ++ body) ++ gap ++ rest) =
        words (text ++ (front ++ ['/', '*'] ++ body ++ rest)) ↔
      isLayout true (body ++ gap) = true := by
  have hopen : OpenGap (front ++ ['/', '*'] ++ body) :=
    ⟨front, body, rfl, hfront, hbody⟩
  have hlayout : ∀ more : List Char,
      isLayout false (front ++ ['/', '*'] ++ body ++ more) =
      isLayout true (body ++ more) := by
    intro more
    rw [List.append_assoc, List.append_assoc, hfront.isLayout_append]
    rfl
  have hsource : words (front ++ ['/', '*'] ++ body ++ rest) = [.nowhere] := by
    rw [words_eq_nowhere_iff hopen.nul_notMem hrest,
      ← List.append_nil (_ ++ body), hlayout, List.append_nil]
    exact hbody.isLayout_open
  have hnul : '\x00' ∉ front ++ ['/', '*'] ++ body ++ gap := by
    rw [List.mem_append, not_or]
    exact ⟨hopen.nul_notMem, hgap.nul_notMem⟩
  rw [List.append_assoc, List.append_assoc, h.words_append _ (hopen.ends _),
    h.words_append _ (hopen.ends _), List.append_right_inj, hsource,
    ← List.append_assoc, words_eq_nowhere_iff hnul hrest, hlayout]

end Split

end Scan

/-! ## Sources -/

open Scan

/-- The source with something put in at an offset. -/
def insertAt (source : List Char) (n : Nat) (added : List Char) : List Char :=
  source.take n ++ added ++ source.drop n

theorem Position.eq_of_after_eq
    {p : Position} {front back front' back' : List Char}
    (h : front ++ back = front' ++ back')
    (hpos : p.after front = p.after front') :
    front = front' := by
  have hnone : ∀ {cs more : List Char}, p.after cs = p.after (cs ++ more) →
      more = [] := by
    intro cs more heq
    cases more with
    | nil => rfl
    | cons c more =>
        rw [after_append] at heq
        exact absurd heq (before_after_cons _ c more).ne
  rcases List.append_eq_append_iff.mp h with ⟨more, rfl, -⟩ | ⟨more, rfl, -⟩
  · rw [hnone hpos, List.append_nil]
  · rw [hnone hpos.symm, List.append_nil]

/-- The words are unchanged exactly if no comment that is left open at the
offset is closed early by what is put in. -/
theorem words_insertAt_eq_iff
    {source gap : List Char} {n : Nat} {t : Token} (ht : t ∈ scan source)
    (hpos : t.pos = .atOffset source n) (hgap : Gap gap) :
    words (insertAt source n gap) = words source ↔
      (t.kind = .eof → ∀ body, LeavesOpen (source.take n) body →
        isLayout true (body ++ gap) = true) := by
  obtain ⟨us, vs, hscan⟩ := List.append_of_mem ht
  obtain ⟨text, front, rest, hsource, hstart, hreads, hbehind, hfront⟩ :=
    Cursor.exists_split (p := .start) hscan
  have htake : source.take n = text ++ front := by
    have hplaces : Position.start.after (source.take n) = .atOffset source n :=
      Position.start_after _
    have hsplit : source.take n ++ source.drop n = text ++ front ++ rest := by
      rw [List.take_append_drop, List.append_assoc, ← hsource]
    exact Position.eq_of_after_eq hsplit
      (hplaces.trans (hpos.symm.trans hstart))
  have hdrop : source.drop n = rest := by
    have hsplit := List.take_append_drop n source
    rw [htake, List.append_assoc] at hsplit
    exact List.append_cancel_left
      (List.append_cancel_left (hsplit.trans hsource))
  have hall : words (text ++ (front ++ rest)) = us.map Token.unplaced
      ++ words (front ++ rest) := by
    rw [words_eq_of_tokens hbehind, ← hsource, words, hscan, List.map_append]
  rw [insertAt, htake, hdrop]
  rcases hfront with ⟨hfront, -⟩ | ⟨heof, hopen, hend⟩
  · refine iff_of_true ?_ fun _ body hbody =>
      absurd hbody (hreads.not_leavesOpen hfront body)
    rw [hsource, hreads.words_insert hfront hgap hall]
  · obtain ⟨front, body, rfl, hfront, hbody⟩ := hopen
    have hleft := hreads.leavesOpen hfront hbody
    rw [hsource, hreads.words_insert_open hfront hbody hgap hend]
    constructor
    · intro hlayout _ other hother
      rwa [← hleft.unique hother]
    · intro h
      exact h heof body hleft

/-- Sources with the same words compile to the same, but for the places. -/
theorem compile_of_words_eq
    {source source' : List Char} (h : words source' = words source) :
    (compile source').css = (compile source).css ∧
      (compile source').diagnostics.map Diagnostic.report =
        (compile source).diagnostics.map Diagnostic.report := by
  have hparse : (parse source').moved (fun _ => Token.nowhere.pos) =
      (parse source).moved fun _ => Token.nowhere.pos := by
    rw [parse_unplaced, parse_unplaced, h]
  obtain ⟨hcss, hdiagnostics⟩ := compile_of_parse_moved hparse
  refine ⟨hcss, ?_⟩
  have hreports := congrArg (List.map Diagnostic.report) hdiagnostics
  rwa [List.map_map, List.map_map] at hreports

/-- Blanks and complete comments in front of a token leave the tokens as they
are, and what the source compiles to, but for the places.  The only exception is
a comment that is left open in front of the end: there it depends on whether the
comment, read on through what is put in, is followed by anything else. -/
theorem insert_layout_unchanged_iff
    {source gap : List Char} {n : Nat} {t : Token} (ht : t ∈ scan source)
    (hpos : t.pos = .atOffset source n) (hgap : Gap gap) :
    words (insertAt source n gap) = words source ∧
        (compile (insertAt source n gap)).css = (compile source).css ∧
        (compile (insertAt source n gap)).diagnostics.map Diagnostic.report =
          (compile source).diagnostics.map Diagnostic.report ↔
      (t.kind = .eof → ∀ body, LeavesOpen (source.take n) body →
        isLayout true (body ++ gap) = true) := by
  rw [← words_insertAt_eq_iff ht hpos hgap]
  exact ⟨And.left, fun h => ⟨h, compile_of_words_eq h⟩⟩

/-- A comment in front of a slash that begins no comment, and one behind a
comment that is left open. -/
theorem insert_layout_unchanged_slash_and_open_comment :
    let slash := "A := 2*/ B;".toList
    let opened := "A := 2; /* B".toList
    let gap := "/*/*/ \n".toList
    (words (insertAt slash 7 gap) = words slash ∧
        (compile (insertAt slash 7 gap)).css = (compile slash).css ∧
        (compile (insertAt slash 7 gap)).diagnostics.map Diagnostic.report =
          (compile slash).diagnostics.map Diagnostic.report) ∧
      words (insertAt opened 12 " /* */".toList) = words opened := by
  intro slash opened gap
  have hbody : CommentBody ['/'] := ⟨by decide, by decide⟩
  have hgap : Gap gap :=
    .comment hbody (.blank (by decide) (.blank (by decide) .nil))
  have hspace : CommentBody [' '] := ⟨by decide, by decide⟩
  have hspaced : Gap " /* */".toList :=
    .blank (by decide) (.comment hspace .nil)
  have hslash : (⟨.illegal, "/", ⟨1, 8⟩⟩ : Token) ∈ scan slash := by
    decide +kernel
  have hend : (⟨.eof, "", ⟨1, 13⟩⟩ : Token) ∈ scan opened := by decide +kernel
  refine ⟨(insert_layout_unchanged_iff hslash (by decide +kernel) hgap).mpr
    nofun, ?_⟩
  refine ((insert_layout_unchanged_iff hend (by decide +kernel) hspaced).mpr
    ?_).1
  intro _ body hbody
  have hopen : LeavesOpen (opened.take 12) [' ', 'B'] :=
    ⟨"A := 2; ".toList, by decide +kernel, by decide +kernel, by decide,
      by decide⟩
  rw [hbody.unique hopen]
  decide +kernel

/-- A complete comment behind a comment that is left open and ends with a star:
the star and the slash of the new comment close the old one. -/
theorem words_behind_open_comment :
    let source := "/**".toList
    let gap := "/**/".toList
    (⟨.eof, "", .atOffset source 3⟩ : Token) ∈ scan source ∧ Gap gap ∧
      words source = [.bare .eof ""] ∧
      words (insertAt source 3 gap) =
        [.bare .star "*", .bare .star "*", .bare .illegal "/",
          .bare .eof ""] := by
  intro source gap
  have hbody : CommentBody [] := ⟨by decide, by decide⟩
  refine ⟨?_, .comment hbody .nil, ?_, ?_⟩ <;> decide +kernel

end Stylesheet
