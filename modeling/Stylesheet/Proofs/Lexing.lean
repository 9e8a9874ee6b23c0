import Mathlib.Data.List.TakeWhile
import Stylesheet.Token.Scan

/-!
# Lexemes and layout

What the tokens of a source are, byte by byte.  Every token is a lexeme of its
class, the bytes between two tokens are blanks and closed comments, and reading
a token looks at most two bytes beyond it.  So a lexeme is read as one token
wherever it stands, unless what follows could make it longer, and what is added
behind a blank leaves the tokens before the blank as they are.
-/

namespace Stylesheet

/-! ## Tokens without their places -/

/-- The token at another place. -/
def Token.moved (g : Position → Position) (t : Token) : Token :=
  { t with pos := g t.pos }

/-- The token at no place. -/
def Token.unplaced (t : Token) : Token :=
  t.moved fun _ => Token.nowhere.pos

/-- The token of the given class and text at no place. -/
def Token.bare (kind : TokenKind) (text : String) : Token :=
  ⟨kind, text, Token.nowhere.pos⟩

namespace Scan

/-! ## Classes of characters -/

theorem isDigit_iff {c : Char} :
    c.isDigit = true ↔ 48 ≤ c.toNat ∧ c.toNat ≤ 57 :=
  Char.isDigit_iff_toNat

theorem isUpper_iff {c : Char} :
    c.isUpper = true ↔ 65 ≤ c.toNat ∧ c.toNat ≤ 90 :=
  decide_eq_true_iff.trans
    (and_congr UInt32.le_iff_toNat_le UInt32.le_iff_toNat_le)

theorem isLower_iff {c : Char} :
    c.isLower = true ↔ 97 ≤ c.toNat ∧ c.toNat ≤ 122 := by
  have hlower : c.isLower = (decide (97 ≤ c.val) && decide (c.val ≤ 122)) := rfl
  rw [hlower, Bool.and_eq_true, decide_eq_true_iff, decide_eq_true_iff]
  exact and_congr UInt32.le_iff_toNat_le UInt32.le_iff_toNat_le

theorem isAlpha_iff {c : Char} :
    c.isAlpha = true ↔ c.isUpper = true ∨ c.isLower = true :=
  Bool.or_eq_true_iff

theorem isHexDigit_iff {c : Char} :
    isHexDigit c = true ↔
      (48 ≤ c.toNat ∧ c.toNat ≤ 57) ∨ (97 ≤ c.toNat ∧ c.toNat ≤ 102) ∨
      (65 ≤ c.toNat ∧ c.toNat ≤ 70) := by
  simp only [isHexDigit, Bool.or_eq_true, Bool.and_eq_true, decide_eq_true_eq,
    isDigit_iff, Char.le_def, UInt32.le_iff_toNat_le, or_assoc]
  rfl

theorem isAlpha_eq_false_of_isDigit {c : Char} (h : c.isDigit = true) :
    c.isAlpha = false := by
  rw [← Bool.not_eq_true, isAlpha_iff, isUpper_iff, isLower_iff]
  rw [isDigit_iff] at h
  omega

theorem isNameChar_of_isDigit (c : Char) (h : c.isDigit = true) :
    isNameChar c = true := by
  simp [isNameChar, h]

theorem isNameChar_of_isHexDigit (c : Char) (h : isHexDigit c = true) :
    isNameChar c = true := by
  simp only [isNameChar, isAlpha_iff, Bool.or_eq_true, isDigit_iff, isUpper_iff,
    isLower_iff]
  rw [isHexDigit_iff] at h
  omega

theorem isNameChar_of_isWordChar (dash : Bool) (c : Char)
    (h : isWordChar dash c = true) :
    isNameChar c = true := by
  simp only [isWordChar, isNameChar, Bool.or_eq_true, Bool.and_eq_true] at h ⊢
  rcases h with (h | h) | ⟨-, h⟩
  · exact .inl (.inl h)
  · exact .inr h
  · exact .inl (.inr h)

/-! ## Lexemes -/

/-- The signs that are lexemes on their own. -/
def signs : List (Char × TokenKind) :=
  [(':', .colon), ('+', .plus), ('-', .minus), ('*', .star), ('\x7b', .lbrace),
    ('\x7d', .rbrace), ('[', .lbracket), (']', .rbracket), (';', .semicolon),
    (',', .comma)]

/-- The characters that tell what a lexeme is by standing in front of it. -/
def marks : List Char :=
  '.' :: '#' :: signs.map Prod.fst

/-- The texts of each class of tokens. -/
inductive Lexeme : TokenKind → List Char → Prop
  | sign {c : Char} {kind : TokenKind} (h : (c, kind) ∈ signs) : Lexeme kind [c]
  | assign : Lexeme .assign [':', '=']
  | word {c : Char} {tail : List Char} (hc : c.isAlpha = true)
      (htail : ∀ d ∈ tail, isWordChar c.isLower d = true) :
      Lexeme (.ofWord (c :: tail)) (c :: tail)
  | classIdent {name : List Char} (hne : name ≠ [])
      (hname : ∀ d ∈ name, isNameChar d = true) :
      Lexeme .classIdent ('.' :: name)
  | color {name : List Char} (hlength : name.length = 6)
      (hname : ∀ d ∈ name, isHexDigit d = true) : Lexeme .color ('#' :: name)
  | idIdent {name : List Char} (hne : name ≠ [])
      (hname : ∀ d ∈ name, isNameChar d = true)
      (hcolor : ¬ (name.length = 6 ∧ ∀ d ∈ name, isHexDigit d = true)) :
      Lexeme .idIdent ('#' :: name)
  | scalar {c : Char} {digits : List Char}
      (hdigits : ∀ d ∈ c :: digits, d.isDigit = true) :
      Lexeme .scalar (c :: digits)
  | percentage {c : Char} {digits : List Char}
      (hdigits : ∀ d ∈ c :: digits, d.isDigit = true) :
      Lexeme .percentage (c :: (digits ++ ['%']))
  | pixelSize {c : Char} {digits : List Char}
      (hdigits : ∀ d ∈ c :: digits, d.isDigit = true) :
      Lexeme .pixelSize (c :: (digits ++ ['p', 'x']))
  | illegal {c : Char} (h : lexeme c [] = (.illegal, []))
      (hblank : isBlank c = false) (hnul : c ≠ '\x00') : Lexeme .illegal [c]

theorem lexeme_default
    {c : Char} (h : c ∉ marks)
    (cs : List Char) :
    lexeme c cs =
      if c.isAlpha then
        (.ofWord (c :: cs.takeWhile (isWordChar c.isLower)),
          cs.takeWhile (isWordChar c.isLower))
      else if c.isDigit then numberLexeme cs
      else (.illegal, []) := by
  simp only [marks, signs, List.map_cons, List.map_nil, List.mem_cons,
    List.not_mem_nil, or_false, not_or] at h
  unfold lexeme
  split
  all_goals first | rfl | simp_all

theorem numberLexeme_sound
    {c : Char} (hc : c.isDigit = true) (cs : List Char) :
    Lexeme (numberLexeme cs).1 (c :: (numberLexeme cs).2) := by
  have hdigits : ∀ d ∈ c :: cs.takeWhile Char.isDigit, d.isDigit = true :=
    List.forall_mem_cons.mpr ⟨hc, fun d hd => List.mem_takeWhile_imp hd⟩
  unfold numberLexeme
  simp only
  split
  · exact .pixelSize hdigits
  · exact .percentage hdigits
  · exact .scalar hdigits

theorem hashLexeme_sound (cs : List Char) :
    Lexeme (hashLexeme cs).1 ('#' :: (hashLexeme cs).2) := by
  have hname : ∀ d ∈ cs.takeWhile isNameChar, isNameChar d = true :=
    fun d hd => List.mem_takeWhile_imp hd
  unfold hashLexeme
  simp only
  split
  · exact .illegal rfl rfl (by decide)
  · next hne =>
      split
      · next hcolor =>
          rw [Bool.and_eq_true, decide_eq_true_eq, List.all_eq_true] at hcolor
          exact .color hcolor.1 hcolor.2
      · next hcolor =>
          rw [Bool.and_eq_true, decide_eq_true_eq, List.all_eq_true] at hcolor
          exact .idIdent hne hname hcolor

/-- What is taken as a lexeme is a text of its class. -/
theorem lexeme_sound
    {c : Char} (hblank : isBlank c = false) (hnul : c ≠ '\x00')
    (cs : List Char) :
    Lexeme (lexeme c cs).1 (c :: (lexeme c cs).2) := by
  by_cases hsign : c ∈ marks
  · simp only [marks, signs, List.map_cons, List.map_nil, List.mem_cons,
      List.not_mem_nil, or_false] at hsign
    rcases hsign with rfl | rfl | rfl | hsign
    · unfold lexeme
      simp only
      split
      · exact .illegal rfl rfl (by decide)
      · next hne => exact .classIdent hne fun d hd => List.mem_takeWhile_imp hd
    · exact hashLexeme_sound cs
    · unfold lexeme
      simp only
      split
      · exact .assign
      · exact .sign (by decide)
    · rcases hsign with rfl | rfl | rfl | rfl | rfl | rfl | rfl | rfl | rfl
      all_goals exact .sign (by simp [lexeme, signs])
  · rw [lexeme_default hsign]
    split
    · next halpha => exact .word halpha fun d hd => List.mem_takeWhile_imp hd
    · next halpha =>
        split
        · next hdigit => exact numberLexeme_sound hdigit cs
        · next hdigit =>
            refine .illegal ?_ hblank hnul
            rw [lexeme_default hsign, if_neg halpha, if_neg hdigit]

/-! ## What may follow a lexeme -/

/-- Nothing in front that could make a lexeme before it longer. -/
def Ends (cs : List Char) : Prop :=
  ∀ c ∈ cs.head?, isNameChar c = false ∧ c ≠ '%' ∧ c ≠ '=' ∧ c ≠ '*'

theorem ends_cons {c : Char} {cs : List Char} :
    Ends (c :: cs) ↔ isNameChar c = false ∧ c ≠ '%' ∧ c ≠ '=' ∧ c ≠ '*' := by
  simp [Ends]

-- Only the first character is looked at; the instance for all characters would
-- try each of them.
instance : (cs : List Char) → Decidable (Ends cs)
  | [] => isTrue nofun
  | _ :: _ => decidable_of_iff' _ ends_cons

theorem isBlank_iff {c : Char} :
    isBlank c = true ↔ c ∈ [' ', '\t', '\n', '\r'] := by
  simp [isBlank, or_assoc]

theorem ends_of_isBlank {c : Char} (h : isBlank c = true) (cs : List Char) :
    Ends (c :: cs) := by
  have hblank := isBlank_iff.mp h
  simp only [List.mem_cons, List.not_mem_nil, or_false] at hblank
  rcases hblank with rfl | rfl | rfl | rfl <;> exact ends_cons.mpr (by decide)

theorem Ends.head_false
    {cs : List Char} (h : Ends cs) {p : Char → Bool}
    (hp : ∀ c, p c = true → isNameChar c = true) :
    ∀ c ∈ cs.head?, p c = false := by
  intro c hc
  by_contra htrue
  have hname := hp c (by simpa using htrue)
  rw [(h c hc).1] at hname
  cases hname

theorem takeWhile_append_of_head
    {p : Char → Bool} {rest : List Char} (h : ∀ c ∈ rest.head?, p c = false)
    (cs : List Char) :
    (cs ++ rest).takeWhile p = cs.takeWhile p := by
  have hnil : rest.takeWhile p = [] := by
    cases rest with
    | nil => rfl
    | cons c rest => simp [h c rfl]
  rw [List.takeWhile_append, hnil, List.append_nil]
  split
  · next hlength =>
      have hfront : cs.takeWhile p <+: cs := List.takeWhile_prefix p
      exact (hfront.eq_of_length hlength).symm
  · rfl

theorem dropWhile_append_of_head
    {p : Char → Bool} {rest : List Char} (h : ∀ c ∈ rest.head?, p c = false)
    (cs : List Char) :
    (cs ++ rest).dropWhile p = cs.dropWhile p ++ rest := by
  have hsplit : (cs ++ rest).takeWhile p ++ (cs ++ rest).dropWhile p =
      cs.takeWhile p ++ (cs.dropWhile p ++ rest) := by
    rw [List.takeWhile_append_dropWhile, ← List.append_assoc,
      List.takeWhile_append_dropWhile]
  rw [takeWhile_append_of_head h] at hsplit
  exact List.append_cancel_left hsplit

theorem numberLexeme_append_of_ends
    {rest : List Char} (h : Ends rest) (cs : List Char) :
    numberLexeme (cs ++ rest) = numberLexeme cs := by
  have hdigit := h.head_false isNameChar_of_isDigit
  simp only [numberLexeme, takeWhile_append_of_head hdigit,
    dropWhile_append_of_head hdigit]
  generalize cs.dropWhile Char.isDigit = unit
  rcases unit with _ | ⟨c, _ | ⟨d, unit⟩⟩
  · cases rest with
    | nil => rfl
    | cons c rest =>
        obtain ⟨hname, hpercent, -⟩ := h c rfl
        have hp : c ≠ 'p' := by
          rintro rfl
          cases hname
        simp [hp, hpercent]
  · cases rest with
    | nil => rfl
    | cons d rest =>
        have hx : d ≠ 'x' := by
          rintro rfl
          cases (h 'x' rfl).1
        by_cases hpercent : c = '%'
        · simp [hpercent]
        · simp [hx, hpercent]
  · rw [List.cons_append, List.cons_append]
    grind

theorem hashLexeme_append_of_ends
    {rest : List Char} (h : Ends rest) (cs : List Char) :
    hashLexeme (cs ++ rest) = hashLexeme cs := by
  simp only [hashLexeme, takeWhile_append_of_head fun c hc => (h c hc).1]

theorem lexeme_append_of_ends
    {rest : List Char} (h : Ends rest) (c : Char) (cs : List Char) :
    lexeme c (cs ++ rest) = lexeme c cs := by
  unfold lexeme
  split
  all_goals try rfl
  · cases cs with
    | nil =>
        cases rest with
        | nil => rfl
        | cons d rest => simp [(h d rfl).2.2.1]
    | cons d cs =>
        rw [List.cons_append]
        grind
  · simp only [takeWhile_append_of_head fun c hc => (h c hc).1]
  · exact hashLexeme_append_of_ends h cs
  · have hword := h.head_false (isNameChar_of_isWordChar c.isLower)
    simp only [takeWhile_append_of_head hword, numberLexeme_append_of_ends h]

theorem lexeme_isPrefix (c : Char) (cs : List Char) :
    (lexeme c cs).2 <+: cs := by
  unfold lexeme
  split
  all_goals try exact List.nil_prefix
  · split
    · exact ⟨_, rfl⟩
    · exact List.nil_prefix
  · simp only
    split
    · exact List.nil_prefix
    · exact List.takeWhile_prefix _
  · unfold hashLexeme
    simp only
    split
    · exact List.nil_prefix
    · split
      · exact List.takeWhile_prefix _
      · exact List.takeWhile_prefix _
  · split
    · exact List.takeWhile_prefix _
    · split
      · unfold numberLexeme
        simp only
        split
        · next tail heq =>
            refine ⟨tail, ?_⟩
            rw [List.append_assoc, List.cons_append, List.cons_append,
              List.nil_append, ← heq]
            exact List.takeWhile_append_dropWhile
        · next tail heq =>
            refine ⟨tail, ?_⟩
            rw [List.append_assoc, List.cons_append, List.nil_append, ← heq]
            exact List.takeWhile_append_dropWhile
        · exact List.takeWhile_prefix _
      · exact List.nil_prefix

theorem notMem_marks
    {p : Char → Bool} (hp : marks.all (fun d => !p d) = true) {c : Char}
    (h : p c = true) :
    c ∉ marks := by
  intro hmark
  have hc := List.all_eq_true.mp hp c hmark
  rw [h] at hc
  cases hc

/-- The digits of a number are told from its unit. -/
theorem span_isDigit
    {digits : List Char} (unit : List Char)
    (hdigits : ∀ d ∈ digits, d.isDigit = true)
    (hunit : ∀ c ∈ unit.head?, c.isDigit = false) :
    (digits ++ unit).takeWhile Char.isDigit = digits ∧
      (digits ++ unit).dropWhile Char.isDigit = unit := by
  rw [takeWhile_append_of_head hunit, dropWhile_append_of_head hunit,
    List.takeWhile_eq_self_iff.mpr hdigits,
    List.dropWhile_eq_nil_iff.mpr hdigits]
  exact ⟨rfl, rfl⟩

theorem lexeme_digit
    {c : Char} (h : c.isDigit = true) (cs : List Char) :
    lexeme c cs = numberLexeme cs := by
  rw [lexeme_default (notMem_marks (p := Char.isDigit) (by decide) h),
    if_neg (by simp [isAlpha_eq_false_of_isDigit h]), if_pos h]

/-- A sign other than the colon is a lexeme whatever follows. -/
theorem lexeme_sign
    {c : Char} {kind : TokenKind} (h : (c, kind) ∈ signs) (hcolon : c ≠ ':')
    (cs : List Char) :
    lexeme c cs = (kind, []) := by
  simp only [signs, List.mem_cons, List.not_mem_nil, or_false,
    Prod.mk.injEq] at h
  rcases h with h | h | h | h | h | h | h | h | h | h
  · exact absurd h.1 hcolon
  all_goals rw [h.1, h.2]; rfl

/-- A text of a class is taken as a lexeme of the class. -/
theorem Lexeme.read
    {kind : TokenKind} {c : Char} {tail : List Char}
    (h : Lexeme kind (c :: tail)) :
    lexeme c tail = (kind, tail) := by
  cases h with
  | sign h =>
      simp only [signs, List.mem_cons, List.not_mem_nil, or_false,
        Prod.mk.injEq] at h
      rcases h with h | h | h | h | h | h | h | h | h | h <;>
        rw [h.1, h.2] <;> rfl
  | assign => rfl
  | word hc htail =>
      rw [lexeme_default (notMem_marks (p := Char.isAlpha) (by decide) hc),
        if_pos hc, List.takeWhile_eq_self_iff.mpr htail]
  | classIdent hne hname =>
      simp only [lexeme, List.takeWhile_eq_self_iff.mpr hname, if_neg hne]
  | color hlength hname =>
      have hname' : ∀ d ∈ tail, isNameChar d = true := fun d hd =>
        isNameChar_of_isHexDigit d (hname d hd)
      have hne : tail ≠ [] := by
        rintro rfl
        cases hlength
      simp only [lexeme, hashLexeme, List.takeWhile_eq_self_iff.mpr hname',
        if_neg hne]
      rw [if_pos]
      rw [Bool.and_eq_true, decide_eq_true_eq, List.all_eq_true]
      exact ⟨hlength, hname⟩
  | idIdent hne hname hcolor =>
      simp only [lexeme, hashLexeme, List.takeWhile_eq_self_iff.mpr hname,
        if_neg hne]
      rw [if_neg]
      rw [Bool.and_eq_true, decide_eq_true_eq, List.all_eq_true]
      exact hcolor
  | scalar hdigits =>
      rw [List.forall_mem_cons] at hdigits
      have hspan := span_isDigit [] hdigits.2 (by simp)
      rw [List.append_nil] at hspan
      rw [lexeme_digit hdigits.1, numberLexeme, hspan.1, hspan.2]
  | percentage hdigits =>
      rw [List.forall_mem_cons] at hdigits
      have hspan := span_isDigit ['%'] hdigits.2 (by simp)
      rw [lexeme_digit hdigits.1, numberLexeme, hspan.1, hspan.2]
      rfl
  | pixelSize hdigits =>
      rw [List.forall_mem_cons] at hdigits
      have hspan := span_isDigit ['p', 'x'] hdigits.2 (by simp)
      rw [lexeme_digit hdigits.1, numberLexeme, hspan.1, hspan.2]
      rfl
  | illegal h hblank hnul => exact h

theorem ofWord_mem (word : List Char) :
    TokenKind.ofWord word ∈
      [.ifWord, .elseWord, .trueWord, .falseWord, .capitalIdent, .ident] := by
  unfold TokenKind.ofWord
  repeat' split
  all_goals decide

theorem Lexeme.kind_ne_eof
    {kind : TokenKind} {text : List Char} (h : Lexeme kind text) :
    kind ≠ .eof := by
  cases h with
  | @sign c kind h =>
      have hall : ∀ s ∈ signs, s.2 ≠ .eof := by decide
      exact hall _ h
  | @word c tail hc htail =>
      intro heof
      have hmem := ofWord_mem (c :: tail)
      rw [heof] at hmem
      revert hmem
      decide
  | _ => decide

theorem of_48_le_toNat
    {c : Char} (h : 48 ≤ c.toNat) :
    isBlank c = false ∧ c ≠ '\x00' ∧ c ≠ '/' := by
  refine ⟨?_, ?_, ?_⟩
  · simp only [isBlank, Bool.or_eq_false_iff, decide_eq_false_iff_not]
    refine ⟨⟨⟨?_, ?_⟩, ?_⟩, ?_⟩ <;> rintro rfl <;> revert h <;> decide
  · rintro rfl
    revert h
    decide
  · rintro rfl
    revert h
    decide

/-- No lexeme begins as layout does. -/
theorem Lexeme.begins
    {kind : TokenKind} {c : Char} {tail : List Char}
    (h : Lexeme kind (c :: tail)) :
    isBlank c = false ∧ c ≠ '\x00' ∧ (c = '/' → tail = []) := by
  have hletter : 48 ≤ c.toNat →
      isBlank c = false ∧ c ≠ '\x00' ∧ (c = '/' → tail = []) :=
    fun hle => ⟨(of_48_le_toNat hle).1, (of_48_le_toNat hle).2.1,
      fun hslash => absurd hslash (of_48_le_toNat hle).2.2⟩
  have hdigit : c.isDigit = true →
      isBlank c = false ∧ c ≠ '\x00' ∧ (c = '/' → tail = []) :=
    fun hc => hletter (isDigit_iff.mp hc).1
  cases h with
  | sign h =>
      have hall : ∀ s ∈ signs, isBlank s.1 = false ∧ s.1 ≠ '\x00' := by decide
      exact ⟨(hall _ h).1, (hall _ h).2, fun _ => rfl⟩
  | word hc htail =>
      rw [isAlpha_iff, isUpper_iff, isLower_iff] at hc
      exact hletter (by omega)
  | scalar hdigits => exact hdigit (hdigits c List.mem_cons_self)
  | percentage hdigits => exact hdigit (hdigits c List.mem_cons_self)
  | pixelSize hdigits => exact hdigit (hdigits c List.mem_cons_self)
  | illegal h hblank hnul => exact ⟨hblank, hnul, fun _ => rfl⟩
  | _ => exact ⟨rfl, by decide, fun hslash => absurd hslash (by decide)⟩

/-! ## Layout -/

/-- Here a source ends: nothing follows, or a NUL byte. -/
def AtEnd (cs : List Char) : Prop :=
  ∀ c ∈ cs.head?, c = '\x00'

/-- What a comment holds after its opening sign, up to its closing sign. -/
def Closed (body : List Char) : Prop :=
  ∀ rest, commentTail (body ++ rest) = body

/-- Runs of blanks and closed comments. -/
inductive Layout : List Char → Prop
  | nil : Layout []
  | blank {c : Char} {gap : List Char} (hc : isBlank c = true)
      (hgap : Layout gap) :
      Layout (c :: gap)
  | comment {body gap : List Char} (hbody : Closed body) (hgap : Layout gap) :
      Layout ('/' :: '*' :: (body ++ gap))

theorem closed_sign : Closed ['*', '/'] := by
  intro rest
  simp [commentTail]

theorem commentTail_cons
    {c : Char} {cs : List Char} (h : ¬ (c = '*' ∧ cs.head? = some '/'))
    (hnul : c ≠ '\x00') :
    commentTail (c :: cs) = c :: commentTail cs := by
  rw [commentTail]
  · rw [if_neg hnul]
  · rintro tail rfl rfl
    exact h ⟨rfl, rfl⟩

theorem Closed.cons
    {c : Char} {body : List Char} (h : ¬ (c = '*' ∧ body.head? = some '/'))
    (hnul : c ≠ '\x00') (hbody : Closed body) : Closed (c :: body) := by
  have hne : body ≠ [] := by
    rintro rfl
    have hopen := hbody ['a']
    simp [commentTail] at hopen
  intro rest
  rw [List.cons_append, commentTail_cons ?_ hnul, hbody rest]
  rwa [List.head?_append, List.head?_eq_some_head hne, Option.some_or,
    ← List.head?_eq_some_head hne]

/-- A comment is closed, or it runs up to the end of the source. -/
theorem commentTail_cases (cs : List Char) :
    ∃ body rest, cs = body ++ rest ∧ commentTail cs = body ∧
      (Closed body ∨ AtEnd rest) := by
  fun_induction commentTail cs with
  | case1 => exact ⟨[], [], rfl, rfl, .inr (by simp [AtEnd])⟩
  | case2 rest => exact ⟨['*', '/'], rest, rfl, rfl, .inl closed_sign⟩
  | case3 cs hopen => exact ⟨[], _, rfl, rfl, .inr (by simp [AtEnd])⟩
  | case4 c cs hopen hnul ih =>
      obtain ⟨body, rest, rfl, hbody, hcases⟩ := ih
      refine ⟨c :: body, rest, rfl, by rw [hbody], hcases.imp ?_ id⟩
      intro hclosed
      refine hclosed.cons ?_ hnul
      rintro ⟨rfl, hhead⟩
      obtain ⟨tail, rfl⟩ := List.head?_eq_some_iff.mp hhead
      exact hopen _ rfl rfl

theorem layout_eq_nil_iff
    {c : Char} {cs : List Char} :
    layout (c :: cs) = [] ↔
      isBlank c = false ∧ ¬ (c = '/' ∧ cs.head? = some '*') := by
  by_cases hcomment : c = '/' ∧ cs.head? = some '*'
  · obtain ⟨rfl, hhead⟩ := hcomment
    obtain ⟨rest, rfl⟩ := List.head?_eq_some_iff.mp hhead
    simp [layout]
  · rw [layout]
    · by_cases hblank : isBlank c = true
      · simp [hblank]
      · simp [hblank, hcomment]
    · rintro rest rfl rfl
      exact hcomment ⟨rfl, rfl⟩

theorem layout_blank
    {c : Char} (hc : isBlank c = true) (cs : List Char) :
    layout (c :: cs) = c :: layout cs := by
  rw [layout]
  · rw [if_pos hc]
  · rintro rest rfl -
    cases hc

/-- Layout is passed as a whole. -/
theorem Layout.append {gap : List Char} (h : Layout gap) (rest : List Char) :
    layout (gap ++ rest) = gap ++ layout rest := by
  induction h with
  | nil => rfl
  | blank hc _ ih =>
      rw [List.cons_append, layout_blank hc, ih, List.cons_append]
  | @comment body gap hbody _ ih =>
      have htail : commentTail (body ++ (gap ++ rest)) = body := hbody _
      rw [List.cons_append, List.cons_append, List.append_assoc, layout]
      simp only [htail, List.drop_left, ih, List.cons_append, List.append_assoc]

theorem AtEnd.layout_eq_nil {cs : List Char} (h : AtEnd cs) :
    layout cs = [] := by
  cases cs with
  | nil => rw [layout]
  | cons c cs =>
      obtain rfl := h c rfl
      exact layout_eq_nil_iff.mpr ⟨rfl, fun hopen => by cases hopen.1⟩

/-- The layout in front is a run of blanks and comments behind which a token
begins, or it reaches up to the end of the source. -/
theorem layout_cases (cs : List Char) :
    ∃ gap rest, cs = gap ++ rest ∧ layout cs = gap ∧
      (Layout gap ∧ layout rest = [] ∨ AtEnd rest) := by
  fun_induction layout cs with
  | case1 => exact ⟨[], [], rfl, rfl, .inr (by simp [AtEnd])⟩
  | case2 cs body ih =>
      obtain ⟨body', rest, hcs, hbody, hclosed⟩ := commentTail_cases cs
      obtain rfl : body = body' := hbody
      rw [hcs, List.drop_left] at ih ⊢
      obtain ⟨gap, rest', rfl, hgap, hlayout⟩ := ih
      refine ⟨'/' :: '*' :: (body ++ gap), rest', by simp, by rw [hgap], ?_⟩
      rcases hclosed with hclosed | hend
      · exact hlayout.imp (fun h => ⟨.comment hclosed h.1, h.2⟩) id
      · rw [hend.layout_eq_nil] at hgap
        subst hgap
        exact .inr hend
  | case3 c cs hopen hblank ih =>
      obtain ⟨gap, rest, rfl, hgap, hlayout⟩ := ih
      exact ⟨c :: gap, rest, rfl, by rw [hgap],
        hlayout.imp (fun h => ⟨.blank hblank h.1, h.2⟩) id⟩
  | case4 c cs hopen hblank =>
      refine ⟨[], c :: cs, rfl, rfl,
        .inl ⟨.nil, layout_eq_nil_iff.mpr ⟨by simpa using hblank, ?_⟩⟩⟩
      rintro ⟨rfl, hhead⟩
      obtain ⟨tail, htail⟩ := List.head?_eq_some_iff.mp hhead
      exact hopen tail rfl htail

/-! ## Sources that end with a blank -/

def EndsBlank (cs : List Char) : Prop :=
  ∃ xs c, cs = xs ++ [c] ∧ isBlank c = true

/-- The blank begins no token, so it stands behind one. -/
theorem EndsBlank.behind
    {gap cs : List Char} {c : Char} (h : EndsBlank (gap ++ c :: cs))
    (hcs : layout (c :: cs) = []) :
    EndsBlank cs := by
  obtain ⟨xs, d, heq, hd⟩ := h
  rcases List.eq_nil_or_concat cs with rfl | ⟨ys, e, rfl⟩
  · obtain ⟨-, hlast⟩ := List.append_inj' heq rfl
    rw [← List.singleton_inj.mp hlast, (layout_eq_nil_iff.mp hcs).1] at hd
    cases hd
  · rw [List.concat_eq_append, ← List.cons_append, ← List.append_assoc] at heq
    obtain ⟨-, hlast⟩ := List.append_inj' heq rfl
    exact ⟨ys, d, by rw [List.concat_eq_append, hlast], hd⟩

theorem EndsBlank.drop_lexeme {c : Char} {cs : List Char} (h : EndsBlank cs) :
    EndsBlank (cs.drop (lexeme c cs).2.length) := by
  obtain ⟨xs, d, rfl, hd⟩ := h
  refine ⟨xs.drop (lexeme c xs).2.length, d, ?_, hd⟩
  rw [lexeme_append_of_ends (ends_of_isBlank hd []),
    List.drop_append_of_le_length (lexeme_isPrefix c xs).length_le]

/-! ## Reading one token -/

namespace Cursor

theorem next_of_layout
    {gap cs : List Char} {c : Char} (hgap : Layout gap)
    (hcs : layout (c :: cs) = []) (hnul : c ≠ '\x00') (p : Position) :
    next ⟨p, gap ++ c :: cs⟩ =
      (⟨(lexeme c cs).1, String.ofList (c :: (lexeme c cs).2), p.after gap⟩,
        ⟨(p.after gap).after (c :: (lexeme c cs).2),
          cs.drop (lexeme c cs).2.length⟩) := by
  simp only [next, hgap.append, hcs, List.append_nil, List.drop_left, readHere,
    if_neg hnul]

/-- Either the source ends behind the layout, or a lexeme follows there. -/
theorem next_cases (cs : List Char) :
    (∀ p, (next ⟨p, cs⟩).1 = ⟨.eof, "", p.after (layout cs)⟩) ∨
      ∃ gap c rest, cs = gap ++ c :: rest ∧ Layout gap ∧
        layout (c :: rest) = [] ∧
        c ≠ '\x00' := by
  obtain ⟨gap, rest, rfl, hgap, hlayout⟩ := layout_cases cs
  simp only [next, hgap, List.drop_left]
  cases rest with
  | nil => exact .inl fun p => rfl
  | cons c rest =>
      by_cases hnul : c = '\x00'
      · exact .inl fun p => by simp [readHere, hnul]
      · obtain ⟨hgap', hrest⟩ :=
          hlayout.resolve_right fun hend => hnul (hend c rfl)
        exact .inr ⟨gap, c, rest, rfl, hgap', hrest, hnul⟩

theorem lexeme_kind_ne_eof
    {c : Char} {cs : List Char} (hcs : layout (c :: cs) = [])
    (hnul : c ≠ '\x00') :
    (lexeme c cs).1 ≠ .eof :=
  (lexeme_sound (layout_eq_nil_iff.mp hcs).1 hnul cs).kind_ne_eof

theorem tokens_cons
    {gap cs : List Char} {c : Char} (hgap : Layout gap)
    (hcs : layout (c :: cs) = []) (hnul : c ≠ '\x00') (p : Position) :
    tokens ⟨p, gap ++ c :: cs⟩ =
      ⟨(lexeme c cs).1, String.ofList (c :: (lexeme c cs).2), p.after gap⟩ ::
        tokens ⟨(p.after gap).after (c :: (lexeme c cs).2),
          cs.drop (lexeme c cs).2.length⟩ := by
  rw [tokens, next_of_layout hgap hcs hnul,
    if_neg (lexeme_kind_ne_eof hcs hnul)]

theorem tokens_of_next_eq
    {cur cur' : Cursor} (h : cur.next = cur'.next) :
    cur.tokens = cur'.tokens := by
  rw [tokens, h, ← tokens]

/-- Reading begins behind the layout. -/
theorem tokens_layout
    {gap : List Char} (hgap : Layout gap) (p : Position) (cs : List Char) :
    tokens ⟨p, gap ++ cs⟩ = tokens ⟨p.after gap, cs⟩ := by
  apply tokens_of_next_eq
  simp only [next, hgap.append, List.length_append, Position.after,
    List.foldl_append]
  rw [← List.drop_drop, List.drop_left]

/-- Either nothing is left to read but the end, or the first token is a lexeme
behind layout. -/
theorem tokens_cases (cs : List Char) :
    (∀ p, tokens ⟨p, cs⟩ = [⟨.eof, "", p.after (layout cs)⟩]) ∨
      ∃ gap c rest, cs = gap ++ c :: rest ∧ Layout gap ∧
        layout (c :: rest) = [] ∧
        c ≠ '\x00' := by
  refine (next_cases cs).imp (fun hnext p => ?_) id
  rw [tokens, hnext, if_pos rfl]

/-- To prove something of every source, prove it of a source without tokens, and
of a source with a token if it holds of what is behind the token. -/
theorem tokens_induction
    {P : List Char → Prop}
    (hend : ∀ cs, (∀ p, tokens ⟨p, cs⟩ = [⟨.eof, "", p.after (layout cs)⟩]) →
      P cs)
    (hcons : ∀ gap c cs, Layout gap → layout (c :: cs) = [] → c ≠ '\x00' →
      P (cs.drop (lexeme c cs).2.length) → P (gap ++ c :: cs))
    (cs : List Char) : P cs := by
  induction hlength : cs.length using Nat.strongRecOn generalizing cs with
  | ind n ih =>
      rcases tokens_cases cs with hnone | ⟨gap, c, rest, rfl, hgap, hrest, hnul⟩
      · exact hend cs hnone
      · refine hcons gap c rest hgap hrest hnul (ih _ ?_ _ rfl)
        rw [← hlength, List.length_drop, List.length_append, List.length_cons]
        omega

theorem tokens_cons_of_ends
    {gap cs rest : List Char} {c : Char} (hgap : Layout gap)
    (hcs : layout (c :: (cs ++ rest)) = []) (hnul : c ≠ '\x00')
    (hrest : Ends rest) (p : Position) :
    tokens ⟨p, gap ++ c :: (cs ++ rest)⟩ =
      ⟨(lexeme c cs).1, String.ofList (c :: (lexeme c cs).2), p.after gap⟩ ::
        tokens ⟨(p.after gap).after (c :: (lexeme c cs).2),
          cs.drop (lexeme c cs).2.length ++ rest⟩ := by
  rw [tokens_cons hgap hcs hnul, lexeme_append_of_ends hrest,
    List.drop_append_of_le_length (lexeme_isPrefix c cs).length_le]

/-- What is added behind a blank does not change the token in front of it. -/
theorem tokens_cons_of_endsBlank
    {gap cs : List Char} {c : Char} (hgap : Layout gap)
    (hcs : layout (c :: cs) = []) (hnul : c ≠ '\x00') (hblank : EndsBlank cs)
    (p : Position) (added : List Char) :
    tokens ⟨p, gap ++ c :: (cs ++ added)⟩ =
      ⟨(lexeme c cs).1, String.ofList (c :: (lexeme c cs).2), p.after gap⟩ ::
        tokens ⟨(p.after gap).after (c :: (lexeme c cs).2),
          cs.drop (lexeme c cs).2.length ++ added⟩ := by
  obtain ⟨xs, d, rfl, hd⟩ := hblank
  have hlayout : layout (c :: (xs ++ [d] ++ added)) = [] := by
    rw [layout_eq_nil_iff] at hcs ⊢
    cases xs with
    | nil => exact hcs
    | cons x xs => exact hcs
  have hlexeme : lexeme c (xs ++ [d] ++ added) = lexeme c (xs ++ [d]) := by
    rw [List.append_assoc, List.singleton_append,
      lexeme_append_of_ends (ends_of_isBlank hd added),
      lexeme_append_of_ends (ends_of_isBlank hd [])]
  rw [tokens_cons hgap hlayout hnul, hlexeme,
    List.drop_append_of_le_length (lexeme_isPrefix c (xs ++ [d])).length_le]

/-- What is added behind a blank does not change the tokens before it. -/
theorem tokens_append_of_endsBlank
    {cs : List Char} (h : EndsBlank cs) (added : List Char) (p : Position) :
    ∃ body last more, tokens ⟨p, cs⟩ = body ++ [last] ∧
      tokens ⟨p, cs ++ added⟩ = body ++ more := by
  induction cs using tokens_induction generalizing p with
  | hend cs hend => exact ⟨[], _, _, hend p, rfl⟩
  | hcons gap c cs hgap hcs hnul ih =>
      have hblank := h.behind hcs
      obtain ⟨body, last, more, hbody, hmore⟩ :=
        ih hblank.drop_lexeme ((p.after gap).after (c :: (lexeme c cs).2))
      refine ⟨⟨(lexeme c cs).1, String.ofList (c :: (lexeme c cs).2),
        p.after gap⟩ :: body, last,
        more, ?_, ?_⟩
      · rw [tokens_cons hgap hcs hnul, hbody, List.cons_append]
      · rw [List.append_assoc, List.cons_append,
          tokens_cons_of_endsBlank hgap hcs hnul hblank, hmore,
          List.cons_append]

/-- A token that is not the end is a lexeme of its class. -/
theorem lexeme_of_mem_tokens
    {cs : List Char} {p : Position} {t : Token} (ht : t ∈ tokens ⟨p, cs⟩)
    (hkind : t.kind ≠ .eof) :
    Lexeme t.kind t.text.toList := by
  induction cs using tokens_induction generalizing p with
  | hend cs hend =>
      rw [hend p, List.mem_singleton] at ht
      exact absurd (congrArg Token.kind ht) hkind
  | hcons gap c cs hgap hcs hnul ih =>
      rw [tokens_cons hgap hcs hnul, List.mem_cons] at ht
      rcases ht with rfl | ht
      · rw [String.toList_ofList]
        exact lexeme_sound (layout_eq_nil_iff.mp hcs).1 hnul cs
      · exact ih ht

end Cursor

/-! ## Words -/

/-- The tokens of a source without their places. -/
def words (source : List Char) : List Token :=
  (scan source).map Token.unplaced

theorem map_unplaced_tokens (cs : List Char) (p q : Position) :
    (Cursor.tokens ⟨p, cs⟩).map Token.unplaced =
      (Cursor.tokens ⟨q, cs⟩).map Token.unplaced := by
  induction cs using Cursor.tokens_induction generalizing p q with
  | hend cs hend =>
      rw [hend p, hend q]
      rfl
  | hcons gap c cs hgap hcs hnul ih =>
      rw [Cursor.tokens_cons hgap hcs hnul, Cursor.tokens_cons hgap hcs hnul,
        List.map_cons, List.map_cons]
      exact congrArg₂ List.cons rfl (ih _ _)

theorem words_nil : words [] = [.nowhere] := by
  rcases Cursor.tokens_cases [] with hend | ⟨gap, c, rest, hsplit, -⟩
  · rw [words, scan, Cursor.start, hend]
    rfl
  · cases gap <;> cases hsplit

theorem words_layout {gap : List Char} (hgap : Layout gap) (cs : List Char) :
    words (gap ++ cs) = words cs := by
  rw [words, scan, Cursor.start, Cursor.tokens_layout hgap]
  exact map_unplaced_tokens cs _ _

theorem words_lexeme
    {kind : TokenKind} {text rest : List Char} (htext : Lexeme kind text)
    (hrest : Ends rest) :
    words (text ++ rest) = .bare kind (String.ofList text) :: words rest := by
  cases text with
  | nil => cases htext
  | cons c tail =>
      obtain ⟨hblank, hnul, hslash⟩ := htext.begins
      have hlayout : layout (c :: (tail ++ rest)) = [] := by
        refine layout_eq_nil_iff.mpr ⟨hblank, ?_⟩
        rintro ⟨hc, hhead⟩
        rw [hslash hc, List.nil_append] at hhead
        exact (hrest '*' hhead).2.2.2 rfl
      have htokens := Cursor.tokens_cons_of_ends .nil hlayout hnul hrest .start
      rw [htext.read, List.drop_length] at htokens
      rw [words, scan, Cursor.start, List.cons_append]
      simp only [List.nil_append] at htokens
      rw [htokens, List.map_cons]
      exact congrArg₂ List.cons rfl (map_unplaced_tokens rest _ _)

theorem words_sign
    {c : Char} {kind : TokenKind} (h : (c, kind) ∈ signs) (hcolon : c ≠ ':')
    (rest : List Char) :
    words (c :: rest) = .bare kind (String.ofList [c]) :: words rest := by
  have hslash : ∀ s ∈ signs, s.1 ≠ '/' := by decide
  have hlayout : layout (c :: rest) = [] :=
    layout_eq_nil_iff.mpr
      ⟨(Lexeme.sign h).begins.1, fun hopen => hslash _ h hopen.1⟩
  rw [words, scan, Cursor.start, ← List.nil_append (c :: rest),
    Cursor.tokens_cons .nil hlayout (Lexeme.sign h).begins.2.1, List.map_cons,
    lexeme_sign h hcolon]
  exact congrArg₂ List.cons rfl (map_unplaced_tokens rest _ _)

end Scan
end Stylesheet
