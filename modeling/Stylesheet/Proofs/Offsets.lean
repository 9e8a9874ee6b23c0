import Mathlib.Data.List.Induction
import Stylesheet.Proofs.Lexing

/-!
# Tokens in their source

The tokens of a source lie in it one behind the other.  The text of a token is
the part of the source that it takes up, and between two tokens there are only
blanks and complete comments.  The place of a token is counted from the start of
the source, lines by the newlines before the token and columns by the bytes
behind the last of those.
-/

namespace Stylesheet

/-! ## Places by offset -/

/-- The place of the byte at an offset: the newlines before it are counted, and
the bytes behind the last of them. -/
def Position.atOffset (source : List Char) (offset : Nat) : Position :=
  let before := source.take offset
  ⟨1 + before.count '\n', 1 + (before.reverse.takeWhile (· ≠ '\n')).length⟩

theorem Position.after_append (p : Position) (cs ds : List Char) :
    p.after (cs ++ ds) = (p.after cs).after ds :=
  List.foldl_append

/-- Going through a source byte by byte counts its lines and columns. -/
theorem Position.start_after (cs : List Char) :
    start.after cs =
      ⟨1 + cs.count '\n', 1 + (cs.reverse.takeWhile (· ≠ '\n')).length⟩ := by
  induction cs using List.reverseRecOn with
  | nil => rfl
  | append_singleton cs c ih =>
      rw [after_append, ih]
      by_cases hc : c = '\n'
      · simp [after, next, hc]
        omega
      · simp [after, next, hc]
        omega

theorem Position.atOffset_append (cs ds : List Char) :
    atOffset (cs ++ ds) cs.length = start.after cs := by
  rw [atOffset, List.take_left, start_after]

namespace Scan

/-! ## What stands between tokens -/

/-- What may stand between the signs of a comment: it holds no closing sign and
no NUL byte. -/
def CommentBody (body : List Char) : Prop :=
  ¬ ['*', '/'] <:+: body ∧ '\x00' ∉ body

/-- Runs of blanks and complete comments. -/
inductive Gap : List Char → Prop
  | nil : Gap []
  | blank {c : Char} {gap : List Char} (hc : c ∈ [' ', '\t', '\n', '\r'])
      (hgap : Gap gap) :
      Gap (c :: gap)
  | comment {body gap : List Char} (hbody : CommentBody body) (hgap : Gap gap) :
      Gap (['/', '*'] ++ body ++ ['*', '/'] ++ gap)

/-- Runs of blanks and comments the last of which has no closing sign. -/
def OpenGap (cs : List Char) : Prop :=
  ∃ gap body, cs = gap ++ ['/', '*'] ++ body ∧ Gap gap ∧ CommentBody body

theorem CommentBody.cons
    {c : Char} {body : List Char} (h : CommentBody body)
    (hsign : ¬ (c = '*' ∧ body.head? = some '/')) (hnul : c ≠ '\x00') :
    CommentBody (c :: body) := by
  constructor
  · intro hinfix
    rcases List.infix_cons_iff.mp hinfix with hfront | hinfix
    · obtain ⟨rfl, tail, rfl⟩ := List.cons_prefix_cons.mp hfront
      exact hsign ⟨rfl, rfl⟩
    · exact h.1 hinfix
  · rw [List.mem_cons, not_or]
    exact ⟨hnul.symm, h.2⟩

/-- A comment goes up to the first closing sign, or up to the end of the
source. -/
theorem commentTail_spec (cs : List Char) :
    ∃ body rest, CommentBody body ∧
      (cs = body ++ ['*', '/'] ++ rest ∧ commentTail cs = body ++ ['*', '/'] ∨
        cs = body ++ rest ∧ commentTail cs = body ∧ AtEnd rest) := by
  have hnil : CommentBody [] := by
    constructor
    · intro hinfix
      cases List.infix_nil.mp hinfix
    · exact List.not_mem_nil
  fun_induction commentTail cs with
  | case1 => exact ⟨[], [], hnil, .inr ⟨rfl, rfl, by simp [AtEnd]⟩⟩
  | case2 rest => exact ⟨[], rest, hnil, .inl ⟨rfl, rfl⟩⟩
  | case3 rest hopen => exact ⟨[], _, hnil, .inr ⟨rfl, rfl, by simp [AtEnd]⟩⟩
  | case4 c cs hopen hnul ih =>
      obtain ⟨body, rest, hbody, hcases⟩ := ih
      have hsign : ¬ (c = '*' ∧ body.head? = some '/') := by
        rintro ⟨rfl, hhead⟩
        obtain ⟨tail, rfl⟩ := List.head?_eq_some_iff.mp hhead
        rcases hcases with ⟨hcs, -⟩ | ⟨hcs, -⟩
        · exact hopen _ rfl hcs
        · exact hopen _ rfl hcs
      refine ⟨c :: body, rest, hbody.cons hsign hnul, ?_⟩
      rcases hcases with ⟨hcs, htail⟩ | ⟨hcs, htail, hend⟩
      · exact .inl ⟨congrArg (c :: ·) hcs, congrArg (c :: ·) htail⟩
      · exact .inr ⟨congrArg (c :: ·) hcs, congrArg (c :: ·) htail, hend⟩

theorem Closed.exists_body {tail : List Char} (h : Closed tail) :
    ∃ body, CommentBody body ∧ tail = body ++ ['*', '/'] := by
  obtain ⟨body, rest, hbody, ⟨-, htail⟩ | ⟨hcs, htail, hend⟩⟩ :=
    commentTail_spec (tail ++ ['a'])
  · exact ⟨body, hbody, (h ['a']).symm.trans htail⟩
  · -- Behind a comment that is not closed nothing is left to read, but here a
    -- letter is.
    obtain rfl : tail = body := (h ['a']).symm.trans htail
    rw [← List.append_cancel_left hcs] at hend
    exact absurd (hend 'a' rfl) (by decide)

theorem Layout.gap {gap : List Char} (h : Layout gap) : Gap gap := by
  induction h with
  | nil => exact .nil
  | blank hc _ ih => exact .blank (isBlank_iff.mp hc) ih
  | comment hbody _ ih =>
      obtain ⟨body, hinner, rfl⟩ := hbody.exists_body
      simpa using Gap.comment hinner ih

theorem Gap.append_openGap {gap cs : List Char} (hgap : Gap gap)
    (hcs : OpenGap cs) :
    OpenGap (gap ++ cs) := by
  obtain ⟨gap', body, rfl, hgap', hbody⟩ := hcs
  refine ⟨gap ++ gap', body, by simp, ?_, hbody⟩
  induction hgap with
  | nil => exact hgap'
  | blank hc _ ih => exact .blank hc ih
  | comment hinner _ ih => simpa using Gap.comment hinner ih

theorem gap_or_openGap_layout (cs : List Char) :
    Gap (layout cs) ∨ OpenGap (layout cs) := by
  fun_induction layout cs with
  | case1 => exact .inl .nil
  | case2 cs tail ih =>
      obtain ⟨body, rest, hbody, ⟨hcs, htail⟩ | ⟨hcs, htail, hend⟩⟩ :=
        commentTail_spec cs
      · have hcomment : Gap (['/', '*'] ++ body ++ ['*', '/']) := by
          simpa using Gap.comment hbody .nil
        have hlayout : '/' :: '*' :: (tail ++ layout (cs.drop tail.length)) =
            ['/', '*'] ++ body ++ ['*', '/']
              ++ layout (cs.drop tail.length) := by
          simp [tail, htail]
        rw [hlayout]
        refine ih.imp (fun hgap => .comment hbody hgap) (fun hopen => ?_)
        exact hcomment.append_openGap hopen
      · obtain rfl : tail = body := htail
        rw [hcs, List.drop_left, hend.layout_eq_nil, List.append_nil]
        exact .inr ⟨[], tail, rfl, .nil, hbody⟩
  | case3 c cs hopen hblank ih =>
      have hc := isBlank_iff.mp hblank
      refine ih.imp (fun hgap => .blank hc hgap) (fun hopen => ?_)
      exact (Gap.blank hc .nil).append_openGap hopen
  | case4 => exact .inl .nil

theorem Gap.nul_notMem {gap : List Char} (h : Gap gap) : '\x00' ∉ gap := by
  induction h with
  | nil => exact List.not_mem_nil
  | blank hc _ ih =>
      rw [List.mem_cons, not_or]
      refine ⟨?_, ih⟩
      rintro rfl
      revert hc
      decide
  | comment hbody _ ih => simp [hbody.2, ih]

theorem OpenGap.nul_notMem {cs : List Char} (h : OpenGap cs) : '\x00' ∉ cs := by
  obtain ⟨gap, body, rfl, hgap, hbody⟩ := h
  simp [hgap.nul_notMem, hbody.2]

/-- Behind its first character a lexeme holds only characters of names and the
last signs of lexemes. -/
theorem Lexeme.notMem_tail
    {kind : TokenKind} {c d : Char} {tail : List Char}
    (h : Lexeme kind (c :: tail)) (hname : isNameChar d = false)
    (hsign : d ≠ '=' ∧ d ≠ '%') : d ∉ tail := by
  have hnone : ∀ {cs : List Char}, (∀ c ∈ cs, isNameChar c = true) →
      d ∉ cs := by
    intro cs hcs hmem
    rw [hcs d hmem] at hname
    cases hname
  have hdigits : ∀ {cs : List Char}, (∀ c ∈ cs, c.isDigit = true) → d ∉ cs :=
    fun hcs => hnone fun c hc => isNameChar_of_isDigit c (hcs c hc)
  cases h with
  | sign h => exact List.not_mem_nil
  | assign => simpa using hsign.1
  | word hc htail =>
      exact hnone fun d hd => isNameChar_of_isWordChar _ d (htail d hd)
  | classIdent hne hchars => exact hnone hchars
  | color hlength hhex =>
      exact hnone fun d hd => isNameChar_of_isHexDigit d (hhex d hd)
  | idIdent hne hchars hcolor => exact hnone hchars
  | scalar hall => exact hdigits (List.forall_mem_cons.mp hall).2
  | percentage hall =>
      rw [List.mem_append, not_or]
      exact ⟨hdigits (List.forall_mem_cons.mp hall).2, by simpa using hsign.2⟩
  | pixelSize hall =>
      rw [List.mem_append, not_or]
      exact ⟨hdigits (List.forall_mem_cons.mp hall).2,
        hnone (List.forall_mem_cons.mpr
          ⟨rfl, List.forall_mem_singleton.mpr rfl⟩)⟩
  | illegal h hblank hnul => exact List.not_mem_nil

/-- No lexeme holds a NUL byte. -/
theorem Lexeme.nul_notMem {kind : TokenKind} {text : List Char}
    (h : Lexeme kind text) :
    '\x00' ∉ text := by
  cases text with
  | nil => exact List.not_mem_nil
  | cons c tail =>
      rw [List.mem_cons, not_or]
      exact ⟨h.begins.2.1.symm, h.notMem_tail rfl (by decide)⟩

/-! ## Tokens and the parts of the source that they take up -/

/-- A token and the part of the source that it takes up, from the offset `first`
up to `last`. -/
structure Placed where
  token : Token
  first : Nat
  last : Nat

/-- What stands in front of each token, from the offset `n` or from the end of
the token before. -/
def gapsFrom (source : List Char) (n : Nat) :
    List Placed → List (List Char × Token)
  | [] => []
  | a :: placed =>
      (source.extract n a.first, a.token) :: gapsFrom source a.last placed

/-- The end token at an offset. -/
def eofAt (source : List Char) (offset : Nat) : Placed :=
  ⟨⟨.eof, "", .atOffset source offset⟩, offset, offset⟩

/-- From the offset `n` on the source consists of the given tokens, each at its
place, with only layout between them, and they end where the source does: behind
its last byte, or in front of its first NUL byte. -/
structure Tiles (source : List Char) (n : Nat)
    (placed : List Placed) : Prop where
  ordered : placed.Pairwise fun a b => a.last ≤ b.first
  inside : ∀ a ∈ placed, n ≤ a.first ∧ a.first ≤ a.last ∧ a.last ≤ source.length
  text_eq : ∀ a ∈ placed, a.token.text.toList = source.extract a.first a.last
  pos_eq : ∀ a ∈ placed, a.token.pos = .atOffset source a.first
  gaps : ∀ g ∈ gapsFrom source n placed, Gap g.1 ∨ g.2.kind = .eof ∧ OpenGap g.1
  ends : ∃ body, placed = body
    ++ [eofAt source (source.takeWhile (· ≠ '\x00')).length] ∧
    ∀ a ∈ body, a.token.kind ≠ .eof ∧ a.first < a.last

theorem Tiles.cons
    {source : List Char} {n : Nat} {a : Placed} {placed : List Placed}
    (h : Tiles source a.last placed) (hfirst : n ≤ a.first)
    (hlt : a.first < a.last) (hlast : a.last ≤ source.length)
    (hkind : a.token.kind ≠ .eof)
    (htext : a.token.text.toList = source.extract a.first a.last)
    (hpos : a.token.pos = .atOffset source a.first)
    (hgap : Gap (source.extract n a.first)) :
    Tiles source n (a :: placed) := by
  constructor
  · rw [List.pairwise_cons]
    exact ⟨fun b hb => (h.inside b hb).1, h.ordered⟩
  · rw [List.forall_mem_cons]
    refine ⟨⟨hfirst, Nat.le_of_lt hlt, hlast⟩, fun b hb => ?_⟩
    obtain ⟨hle, hrest⟩ := h.inside b hb
    exact ⟨by omega, hrest⟩
  · rw [List.forall_mem_cons]
    exact ⟨htext, h.text_eq⟩
  · rw [List.forall_mem_cons]
    exact ⟨hpos, h.pos_eq⟩
  · rw [gapsFrom, List.forall_mem_cons]
    exact ⟨.inl hgap, h.gaps⟩
  · obtain ⟨body, hplaced, hbody⟩ := h.ends
    refine ⟨a :: body, by rw [hplaced, List.cons_append], ?_⟩
    rw [List.forall_mem_cons]
    exact ⟨⟨hkind, hlt⟩, hbody⟩

theorem length_takeWhile_ne_nul
    {cs rest : List Char} (hcs : '\x00' ∉ cs) (hrest : AtEnd rest) :
    ((cs ++ rest).takeWhile (· ≠ '\x00')).length = cs.length := by
  have hall : ∀ c ∈ cs, decide (c ≠ '\x00') = true := by
    intro c hc
    rw [decide_eq_true_eq]
    rintro rfl
    exact hcs hc
  have hhead : ∀ c ∈ rest.head?, decide (c ≠ '\x00') = false := by
    intro c hc
    rw [hrest c hc]
    rfl
  rw [takeWhile_append_of_head hhead, List.takeWhile_eq_self_iff.mpr hall]

/-- Without any token left, the end token stands behind the layout. -/
theorem tiles_end
    {read gap rest : List Char} (hread : '\x00' ∉ read)
    (hgap : Gap gap ∨ OpenGap gap) (hrest : AtEnd rest) :
    Tiles (read ++ (gap ++ rest)) read.length
      [eofAt (read ++ (gap ++ rest)) (read.length + gap.length)] := by
  have hnul : '\x00' ∉ read ++ gap := by
    rw [List.mem_append, not_or]
    exact ⟨hread, hgap.elim Gap.nul_notMem OpenGap.nul_notMem⟩
  constructor
  · exact List.pairwise_singleton _ _
  · rw [List.forall_mem_singleton]
    simp [eofAt]
  · rw [List.forall_mem_singleton]
    simp [eofAt]
  · rw [List.forall_mem_singleton]
    rfl
  · rw [gapsFrom, gapsFrom, List.forall_mem_singleton]
    simpa [eofAt] using hgap
  · refine ⟨[], ?_, List.forall_mem_nil _⟩
    rw [← List.append_assoc, length_takeWhile_ne_nul hnul hrest,
      List.length_append]
    rfl

theorem extract_append (front part rest : List Char) :
    (front ++ (part ++ rest)).extract front.length (front ++ part).length =
      part := by
  simp

/-- A token in front of tokens that cover the rest of the source. -/
theorem Tiles.lexeme
    {read gap text rest : List Char} {kind : TokenKind} {placed : List Placed}
    (h : Tiles (read ++ (gap ++ (text ++ rest))) (read ++ gap ++ text).length
      placed)
    (hgap : Gap gap) (htext : Lexeme kind text) (hne : text ≠ []) :
    Tiles (read ++ (gap ++ (text ++ rest))) read.length
      (⟨⟨kind, String.ofList text, Position.start.after (read ++ gap)⟩,
        (read ++ gap).length, (read ++ gap ++ text).length⟩ :: placed) := by
  have hpos := List.length_pos_iff.mpr hne
  refine h.cons ?_ ?_ ?_ htext.kind_ne_eof ?_ ?_ ?_
  · simp
  · simpa using hpos
  · simp
  · rw [String.toList_ofList, ← List.append_assoc, extract_append]
  · rw [← List.append_assoc, Position.atOffset_append]
  · rwa [extract_append]

namespace Cursor

/-- A source without tokens is layout up to its end. -/
theorem atEnd_of_tokens
    {cs : List Char}
    (h : ∀ p, tokens ⟨p, cs⟩ = [⟨.eof, "", p.after (layout cs)⟩]) :
    ∃ rest, cs = layout cs ++ rest ∧ AtEnd rest := by
  obtain ⟨gap, rest, hcs, hgap, hlayout⟩ := layout_cases cs
  refine ⟨rest, by rw [hgap]; exact hcs, ?_⟩
  rcases hlayout with ⟨hgap', hrest⟩ | hend
  · intro c hc
    by_contra hnul
    obtain ⟨rest, rfl⟩ := List.head?_eq_some_iff.mp hc
    have htokens := h .start
    rw [hcs, tokens_cons hgap' hrest hnul, List.cons.injEq,
      Token.mk.injEq] at htokens
    exact lexeme_kind_ne_eof hrest hnul htokens.1.1
  · exact hend

/-- The tokens that are read from the rest of a source cover that rest. -/
theorem exists_tiles
    (cs : List Char) {read : List Char} (hread : '\x00' ∉ read) :
    ∃ placed, placed.map Placed.token = tokens ⟨Position.start.after read, cs⟩ ∧
      Tiles (read ++ cs) read.length placed := by
  induction cs using tokens_induction generalizing read with
  | hend cs hend =>
      obtain ⟨rest, hcs, hrest⟩ := atEnd_of_tokens hend
      have htiles := tiles_end hread (gap_or_openGap_layout cs) hrest
      have hpos : Position.atOffset (read ++ (layout cs ++ rest))
          (read.length + (layout cs).length) =
            (Position.start.after read).after (layout cs) := by
        rw [← Position.after_append, ← List.length_append, ← List.append_assoc,
          Position.atOffset_append]
      rw [← hcs] at htiles hpos
      refine ⟨_, ?_, htiles⟩
      rw [hend, ← hpos]
      rfl
  | hcons gap c cs hgap hcs hnul ih =>
      have hlexeme := lexeme_sound (layout_eq_nil_iff.mp hcs).1 hnul cs
      have hsplit : c :: (lexeme c cs).2 ++ cs.drop (lexeme c cs).2.length =
          c :: cs :=
        congrArg (c :: ·) (List.prefix_iff_eq_append.mp (lexeme_isPrefix c cs))
      have hread' : '\x00' ∉ read ++ gap ++ c :: (lexeme c cs).2 := by
        simp only [List.mem_append, not_or]
        exact ⟨⟨hread, hgap.gap.nul_notMem⟩, hlexeme.nul_notMem⟩
      obtain ⟨placed, hplaced, htiles⟩ := ih hread'
      rw [List.append_assoc, List.append_assoc] at htiles
      have hcons := htiles.lexeme hgap.gap hlexeme (List.cons_ne_nil _ _)
      rw [hsplit] at hcons
      refine ⟨_, ?_, hcons⟩
      rw [tokens_cons hgap hcs hnul, List.map_cons, hplaced]
      simp only [Position.after_append]

end Cursor

/-- The tokens of a source lie in it one behind the other, each with its text
and at its place, and nothing but layout is left out between them. -/
theorem scan_covers_source (source : List Char) :
    ∃ placed, placed.map Placed.token = scan source ∧ Tiles source 0 placed :=
  @Cursor.exists_tiles source [] List.not_mem_nil

/-- Tokens of several bytes, behind a blank, behind a comment and behind
nothing at all. -/
theorem scan_covers_source_long_tokens :
    ∃ placed, Tiles "ab :=/*x*/12px;".toList 0 placed ∧
      placed.map (fun a => (a.token.text, a.token.pos.column)) =
        [("ab", 1), (":=", 4), ("12px", 11), (";", 15), ("", 16)] := by
  have hscan : (scan "ab :=/*x*/12px;".toList).map
      (fun t => (t.text, t.pos.column)) =
        [("ab", 1), (":=", 4), ("12px", 11), (";", 15), ("", 16)] := by
    decide +kernel
  obtain ⟨placed, htokens, htiles⟩ :=
    scan_covers_source "ab :=/*x*/12px;".toList
  rw [← htokens, List.map_map] at hscan
  exact ⟨placed, htiles, hscan⟩

end Scan
end Stylesheet
