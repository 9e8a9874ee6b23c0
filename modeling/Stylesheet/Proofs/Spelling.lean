import Stylesheet.Proofs.Parsing
import Stylesheet.Text.Bytes

/-!
# Spelling

How a text is read token by token.  A text spells a list of tokens if they are
what is read from it, provided that nothing behind the text makes its last token
longer.  A text whose end is clear spells its tokens whatever comes behind it.
Texts are put together from such pieces.
-/

namespace Stylesheet

/-! ## The bytes of a text -/

theorem bytesOf_append (a b : String) :
    bytesOf (a ++ b) = bytesOf a ++ bytesOf b := by
  rw [bytesOf, String.toList_append, List.flatMap_append]
  rfl

theorem forall_ascii
    {P : Char → Prop} (h : ∀ n < 128, P (Char.ofNat n)) {c : Char}
    (hc : c.toNat < 128) : P c := by
  have hchar := h c.toNat hc
  rwa [Char.ofNat_toNat] at hchar

theorem Text.charBytes_eq_singleton {c : Char} (h : c.toNat < 128) :
    charBytes c = [c] :=
  forall_ascii (P := fun c => charBytes c = [c]) (by decide +kernel) h

theorem bytesOf_eq_toList {text : String}
    (h : ∀ c ∈ text.toList, c.toNat < 128) :
    bytesOf text = text.toList := by
  rw [bytesOf, List.flatMap_congr fun c hc =>
    Text.charBytes_eq_singleton (h c hc)]
  simp

namespace Scan

theorem toNat_lt_of_isNameChar {c : Char} (h : isNameChar c = true) :
    c.toNat < 128 := by
  simp only [isNameChar, isAlpha_iff, Bool.or_eq_true, isDigit_iff, isUpper_iff,
    isLower_iff, decide_eq_true_eq] at h
  rcases h with (h | rfl) | rfl
  · omega
  · decide
  · decide

/-- All lexemes are plain ASCII, apart from characters that belong to no
token. -/
theorem Lexeme.toNat_lt
    {kind : TokenKind} {text : List Char} (h : Lexeme kind text)
    (hkind : kind ≠ .illegal) :
    ∀ c ∈ text, c.toNat < 128 := by
  have hdigit : ∀ d : Char, d.isDigit = true → d.toNat < 128 := fun d hd =>
    toNat_lt_of_isNameChar (isNameChar_of_isDigit d hd)
  cases h with
  | @sign c kind h =>
      have hall : ∀ s ∈ signs, s.1.toNat < 128 := by decide
      exact List.forall_mem_singleton.mpr (hall _ h)
  | assign =>
      exact List.forall_mem_cons.mpr
        ⟨by decide, List.forall_mem_singleton.mpr (by decide)⟩
  | @word c tail hc htail =>
      refine List.forall_mem_cons.mpr ⟨?_, fun d hd => ?_⟩
      · exact toNat_lt_of_isNameChar (by simp [isNameChar, hc])
      · exact toNat_lt_of_isNameChar (isNameChar_of_isWordChar _ d (htail d hd))
  | classIdent _ hname =>
      exact List.forall_mem_cons.mpr
        ⟨by decide, fun d hd => toNat_lt_of_isNameChar (hname d hd)⟩
  | color _ hname =>
      exact List.forall_mem_cons.mpr ⟨by decide, fun d hd =>
        toNat_lt_of_isNameChar (isNameChar_of_isHexDigit d (hname d hd))⟩
  | idIdent _ hname _ =>
      exact List.forall_mem_cons.mpr
        ⟨by decide, fun d hd => toNat_lt_of_isNameChar (hname d hd)⟩
  | scalar hdigits => exact fun d hd => hdigit d (hdigits d hd)
  | percentage hdigits =>
      rw [← List.cons_append]
      exact List.forall_mem_append.mpr
        ⟨fun d hd => hdigit d (hdigits d hd),
          List.forall_mem_singleton.mpr (by decide)⟩
  | pixelSize hdigits =>
      rw [← List.cons_append]
      exact List.forall_mem_append.mpr ⟨fun d hd => hdigit d (hdigits d hd),
        List.forall_mem_cons.mpr
          ⟨by decide, List.forall_mem_singleton.mpr (by decide)⟩⟩
  | illegal => exact absurd rfl hkind

/-! ## Pieces of text -/

/-- The tokens are read from the text, if nothing behind it makes the last one
longer. -/
def Spells (text : String) (ts : List Token) : Prop :=
  ∀ rest, Ends rest → words (bytesOf text ++ rest) = ts ++ words rest

/-- The tokens are read from the text, whatever is behind it. -/
def Fills (text : String) (ts : List Token) : Prop :=
  ∀ rest, words (bytesOf text ++ rest) = ts ++ words rest

theorem Fills.spells {text : String} {ts : List Token} (h : Fills text ts) :
    Spells text ts :=
  fun rest _ => h rest

theorem fills_empty : Fills "" [] :=
  fun _ => rfl

theorem Fills.append
    {a b : String} {ts us : List Token} (ha : Fills a ts) (hb : Fills b us) :
    Fills (a ++ b) (ts ++ us) := by
  intro rest
  rw [bytesOf_append, List.append_assoc, ha, hb, List.append_assoc]

theorem Fills.append_spells
    {a b : String} {ts us : List Token} (ha : Fills a ts) (hb : Spells b us) :
    Spells (a ++ b) (ts ++ us) := by
  intro rest hrest
  rw [bytesOf_append, List.append_assoc, ha, hb rest hrest, List.append_assoc]

/-- The text begins with a character that ends every token before it. -/
def Apart (text : String) : Prop :=
  bytesOf text ≠ [] ∧ Ends (bytesOf text)

instance (text : String) : Decidable (Apart text) :=
  inferInstanceAs (Decidable (bytesOf text ≠ [] ∧ Ends (bytesOf text)))

theorem Spells.append_fills
    {a b : String} {ts us : List Token} (ha : Spells a ts) (hb : Fills b us)
    (hapart : Apart b) :
    Fills (a ++ b) (ts ++ us) := by
  intro rest
  have hrest : Ends (bytesOf b ++ rest) := by
    rw [Ends, List.head?_append, List.head?_eq_some_head hapart.1,
      Option.some_or, ← List.head?_eq_some_head hapart.1]
    exact hapart.2
  rw [bytesOf_append, List.append_assoc, ha _ hrest, hb, List.append_assoc]

theorem Lexeme.spells
    {kind : TokenKind} {text : String} (h : Lexeme kind text.toList)
    (hkind : kind ≠ .illegal) :
    Spells text [.bare kind text] := by
  intro rest hrest
  rw [bytesOf_eq_toList (h.toNat_lt hkind), words_lexeme h hrest,
    String.ofList_toList]
  rfl

/-- Signs other than the colon are never longer than one character. -/
theorem fills_sign
    {text : String} {c : Char} {kind : TokenKind} (htext : text.toList = [c])
    (h : (c, kind) ∈ signs) (hcolon : c ≠ ':') :
    Fills text [.bare kind text] := by
  intro rest
  have hascii : ∀ s ∈ signs, s.1.toNat < 128 := by decide
  have hbytes : bytesOf text = [c] := by
    rw [bytesOf_eq_toList, htext]
    rw [htext, List.forall_mem_singleton]
    exact hascii _ h
  rw [hbytes, List.singleton_append, words_sign h hcolon, ← htext,
    String.ofList_toList]
  rfl

theorem fills_layout {text : String} (h : Layout (bytesOf text)) :
    Fills text [] :=
  fun rest => words_layout h rest

theorem fills_space : Fills " " [] :=
  fills_layout (.blank rfl .nil)

theorem fills_newline : Fills "\n" [] :=
  fills_layout (.blank rfl .nil)

theorem fills_colon : Fills ": " [.bare .colon ":"] := by
  have hcolon : Spells ":" [.bare .colon ":"] :=
    Lexeme.spells (.sign (by decide)) (by decide)
  have htext : ": " = ":" ++ " " := by decide +kernel
  rw [htext]
  exact hcolon.append_fills fills_space (by decide)

theorem fills_assign : Fills " := " [.bare .assign ":="] := by
  have hassign : Spells ":=" [.bare .assign ":="] :=
    Lexeme.spells .assign (by decide)
  have htext : " := " = " " ++ (":=" ++ " ") := by decide +kernel
  rw [htext]
  exact fills_space.append (hassign.append_fills fills_space (by decide))

theorem fills_semicolon : Fills ";" [.bare .semicolon ";"] :=
  fills_sign rfl (by decide) (by decide)

/-! ## Texts that are one token -/

/-- The text is read as one token of the given class, and nothing else is in
it. -/
def LexesAs (kind : TokenKind) (text : String) : Prop :=
  words (bytesOf text) = [.bare kind text, .nowhere]

instance (kind : TokenKind) (text : String) : Decidable (LexesAs kind text) :=
  inferInstanceAs
    (Decidable (words (bytesOf text) = [.bare kind text, .nowhere]))

theorem LexesAs.lexeme
    {kind : TokenKind} {text : String} (h : LexesAs kind text)
    (hkind : kind ≠ .eof) :
    Lexeme kind text.toList := by
  obtain ⟨t, rest, hscan, ht, -⟩ := List.map_eq_cons_iff.mp h
  obtain rfl : t.kind = kind := congrArg Token.kind ht
  obtain rfl : t.text = text := congrArg Token.text ht
  have hmem : t ∈ Cursor.tokens ⟨.start, bytesOf t.text⟩ := by
    change t ∈ scan (bytesOf t.text)
    rw [hscan]
    exact List.mem_cons_self
  exact Cursor.lexeme_of_mem_tokens hmem hkind

theorem LexesAs.spells
    {kind : TokenKind} {text : String} (h : LexesAs kind text)
    (heof : kind ≠ .eof) (hillegal : kind ≠ .illegal) :
    Spells text [.bare kind text] :=
  (h.lexeme heof).spells hillegal

theorem Lexeme.lexesAs
    {kind : TokenKind} {text : String} (h : Lexeme kind text.toList)
    (hkind : kind ≠ .illegal) :
    LexesAs kind text := by
  have hwords := h.spells hkind [] (by simp [Ends])
  rwa [List.append_nil, words_nil] at hwords

/-! ## Numerals -/

open Grammar

/-- The digits of a number are read back as the number. -/
theorem valueOf_toDigits (n : Nat) : valueOf (Nat.toDigits 10 n) = n := by
  rw [← decimal_eq_valueOf]
  exact Nat.ofDigitChars_ten_toDigits

theorem repr_nat_inj {k l : Nat} (h : k.repr = l.repr) : k = l := by
  rw [← valueOf_toDigits k, ← valueOf_toDigits l, ← Nat.toList_repr,
    ← Nat.toList_repr, h]

/-- A number without a sign is not written like one with a sign. -/
theorem repr_nat_ne {k : Nat} {sign : String} (text : String)
    (hsign : sign.toList = ['-']) : k.repr ≠ sign ++ text := by
  intro h
  have hmem : '-' ∈ Nat.toDigits 10 k := by
    rw [← Nat.toList_repr, h, String.toList_append, hsign]
    exact List.mem_cons_self
  have hdigit := Nat.isDigit_of_mem_toDigits (by decide) (by decide) hmem
  exact absurd hdigit (by decide)

/-- Different numbers are written differently. -/
theorem toString_int_inj {m n : Int} (h : toString m = toString n) : m = n := by
  cases m with
  | ofNat k =>
      cases n with
      | ofNat l => exact congrArg _ (repr_nat_inj h)
      | negSucc l => exact absurd h (repr_nat_ne _ rfl)
  | negSucc k =>
      cases n with
      | ofNat l => exact absurd h.symm (repr_nat_ne _ rfl)
      | negSucc l =>
          have hrepr : (k + 1).repr = (l + 1).repr :=
            (String.append_right_inj _).mp h
          exact congrArg _ (Nat.succ.inj (repr_nat_inj hrepr))

theorem exists_digits {n : Int64} (h : 0 ≤ n.toInt) :
    ∃ c digits, (toString n.toInt).toList = c :: digits ∧
      (∀ d ∈ c :: digits, d.isDigit = true) ∧
        valueOf (c :: digits) ≤ largestNumber ∧
      n.toInt = valueOf (c :: digits) := by
  obtain ⟨k, hk⟩ := Int.eq_ofNat_of_zero_le h
  have htext : (toString n.toInt).toList = Nat.toDigits 10 k := by
    rw [hk]
    exact Nat.toList_repr
  obtain ⟨c, digits, hcons⟩ :=
    List.exists_cons_of_ne_nil (Nat.toDigits_ne_nil (n := k) (b := 10))
  have hvalue := valueOf_toDigits k
  rw [hcons] at htext hvalue
  refine ⟨c, digits, htext, ?_, ?_, ?_⟩
  · intro d hd
    rw [← hcons] at hd
    exact Nat.isDigit_of_mem_toDigits (by decide) (by decide) hd
  · have hlt := n.toInt_lt
    rw [hvalue, largestNumber]
    omega
  · rw [hvalue, hk]

/-- A number is written as a numeral, and so it is with a unit behind it. -/
theorem numeral_toString
    {n : Int64} (h : 0 ≤ n.toInt) (kind : TokenKind) {unit : String}
    (hunit : ∀ c ∈ unit.toList.head?, c.isDigit = false) :
    Numeral (.bare kind (toString n.toInt ++ unit)) n := by
  obtain ⟨c, digits, htext, hdigits, hle, hn⟩ := exists_digits h
  refine ⟨c :: digits, unit.toList, ?_, hdigits, hunit, hle, hn⟩
  rw [Token.bare, String.toList_append, htext]

end Scan

/-! ## The tokens of a sheet -/

open Scan

/-- Every token is a lexeme of its class. -/
def Lexed (ts : List Token) : Prop :=
  ∀ t ∈ ts, Lexeme t.kind t.text.toList

theorem Lexed.append {ts us : List Token} (h : Lexed (ts ++ us)) :
    Lexed ts ∧ Lexed us :=
  List.forall_mem_append.mp h

theorem Lexed.cons {t : Token} {ts : List Token} (h : Lexed (t :: ts)) :
    Lexeme t.kind t.text.toList ∧ Lexed ts :=
  List.forall_mem_cons.mp h

/-- What is read without a fault is derived from lexemes. -/
theorem exists_lexed_of_parse
    {source : List Char} (h : (parse source).diagnostics = []) :
    ∃ ts, Lexed ts ∧ Grammar.WholeSheet ts (parse source).sheet := by
  obtain ⟨body, last, hscan, hbody, -⟩ := (Cursor.start source).tokens_eq
  refine ⟨body, fun t ht => ?_, wholeSheet_of_parse h hscan⟩
  have hmem : t ∈ (Cursor.start source).tokens := by
    rw [hscan]
    exact List.mem_append_left _ ht
  exact Cursor.lexeme_of_mem_tokens hmem (hbody t ht)

end Stylesheet
