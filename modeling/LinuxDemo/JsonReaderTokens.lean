/-
LinuxDemo/JsonReaderTokens.lean

The tokens that the reader finds in the texts of the grammar, and what it makes
of them.

A lexer takes all of a text and stops behind it, whatever comes next; only a
number has to be followed by something that ends it.  An escape is decoded to
the UTF-8 of its character, one in two halves as well
(`decodeStringLoop_chars`).
-/
import LinuxDemo.JsonReaderRun
import LinuxDemo.Lib.JsonGrammar
import Mathlib.Data.List.DropRight

namespace LinuxDemo.Json

open JsonGrammar

/-! ### Strings are decoded -/

/-- **The UTF-8 of every character.** -/
theorem codePointToUTF8_eq (c : Char) : codePointToUTF8 c.val = String.utf8EncodeChar c := by
  have hmax : c.val ≤ 0x10FFFF := by
    rcases c.valid with h | h
    · exact UInt32.le_iff_toNat_le.mpr (show c.val.toNat ≤ 0x10FFFF by omega)
    · exact UInt32.le_iff_toNat_le.mpr (show c.val.toNat ≤ 0x10FFFF by omega)
  rw [String.utf8EncodeChar_eq_utf8EncodeCharFast, codePointToUTF8, String.utf8EncodeCharFast]
  simp [hmax]

theorem hexDigitValue_eq (c : UInt8) : hexDigitValue c = (digitValue c).map UInt32.ofNat := by
  have key : ∀ n : Fin 256, hexDigitValue ⟨⟨n⟩⟩ = (digitValue ⟨⟨n⟩⟩).map UInt32.ofNat := by
    decide +kernel
  exact key c.toBitVec.toFin

theorem unicodeDigits_eq {v n : ℕ} {ds : List UInt8} (h : hexFrom v ds = some n)
    (rest : List UInt8) :
    unicodeDigits ds.length (UInt32.ofNat v) (ds ++ rest) = .ok (UInt32.ofNat n, rest) := by
  induction ds generalizing v with
  | nil =>
    obtain rfl := Option.some.inj h
    rfl
  | cons c ds ih =>
    obtain ⟨d, hd, h⟩ := Option.bind_eq_some_iff.mp h
    have hstep := ih h
    rw [UInt32.ofNat_add, UInt32.ofNat_mul] at hstep
    rw [List.length_cons, unicodeDigits]
    simp only [List.cons_append, getNextChar, hexDigitValue_eq, hd, Option.map_some]
    exact hstep

theorem decodeUnicodeEscapeSequence_eq {n : ℕ} {ds : List UInt8} (h : HexText n ds)
    (rest : List UInt8) :
    decodeUnicodeEscapeSequence (ds ++ rest) = .ok (UInt32.ofNat n, rest) := by
  rw [decodeUnicodeEscapeSequence, if_neg (by rw [List.length_append, h.1]; omega)]
  have hdigits := unicodeDigits_eq h.2 rest
  rwa [h.1] at hdigits

theorem toNat_ofNat_of_lt {n : ℕ} (h : n < 0x110000) : (UInt32.ofNat n).toNat = n := by
  rw [UInt32.toNat_ofNat']
  omega

/-- What a half of a pair stands for. -/
theorem low_bits {n : ℕ} (h : n < 0x110000) : (UInt32.ofNat n &&& 0x3FF).toNat = n % 0x400 := by
  rw [UInt32.toNat_and, toNat_ofNat_of_lt h]
  exact Nat.and_two_pow_sub_one_eq_mod n 10

theorem ofNat_toNat_char (c : Char) : UInt32.ofNat c.toNat = c.val := UInt32.ofNat_toNat

/-- A character of one escape is no half of a pair. -/
theorem decodeUnicodeCodePoint_unicode {c : Char} {ds : List UInt8} (h : HexText c.toNat ds)
    (rest : List UInt8) : decodeUnicodeCodePoint (ds ++ rest) = .ok (c.val, rest) := by
  rw [decodeUnicodeCodePoint, decodeUnicodeEscapeSequence_eq h, ofNat_toNat_char]
  dsimp only
  rw [if_neg]
  rintro ⟨hle, hge⟩
  have hle : 0xD800 ≤ c.val.toNat := UInt32.le_iff_toNat_le.mp hle
  have hge : c.val.toNat ≤ 0xDBFF := UInt32.le_iff_toNat_le.mp hge
  rcases c.valid with hvalid | hvalid
  · omega
  · omega

theorem decodeUnicodeCodePoint_pair {c : Char} {ds ds' : List UInt8} (hc : 0x10000 ≤ c.toNat)
    (h : HexText (0xD800 + (c.toNat - 0x10000) / 0x400) ds)
    (h' : HexText (0xDC00 + (c.toNat - 0x10000) % 0x400) ds') (rest : List UInt8) :
    decodeUnicodeCodePoint (ds ++ 0x5C :: 0x75 :: (ds' ++ rest)) = .ok (c.val, rest) := by
  have hmax : c.toNat < 0x110000 := by
    rcases c.valid with hvalid | hvalid
    · exact Nat.lt_trans hvalid (by decide)
    · exact hvalid.2
  have hhigh := toNat_ofNat_of_lt (n := 0xD800 + (c.toNat - 0x10000) / 0x400) (by omega)
  have hlow := toNat_ofNat_of_lt (n := 0xDC00 + (c.toNat - 0x10000) % 0x400) (by omega)
  rw [decodeUnicodeCodePoint, decodeUnicodeEscapeSequence_eq h]
  dsimp only
  rw [if_pos ⟨UInt32.le_iff_toNat_le.mpr (by rw [hhigh]; exact Nat.le_add_right _ _),
    UInt32.le_iff_toNat_le.mpr (by rw [hhigh]; show _ ≤ 0xDBFF; omega)⟩]
  have hlen : ¬ (0x5C :: 0x75 :: (ds' ++ rest)).length < 6 := by
    rw [List.length_cons, List.length_cons, List.length_append, h'.1]
    omega
  rw [decodeSurrogatePair, if_neg hlen, if_pos ⟨rfl, rfl⟩, List.drop_succ_cons,
    List.drop_succ_cons, List.drop_zero, decodeUnicodeEscapeSequence_eq h', Except.map]
  dsimp only
  refine congrArg (fun cp => Except.ok (cp, rest)) (UInt32.toNat.inj ?_)
  have h10 : (10 : UInt32).toNat = 10 := rfl
  have hbase : (0x10000 : UInt32).toNat = 0x10000 := rfl
  have hpow : 2 ^ (10 % 32) = 1024 := rfl
  rw [UInt32.toNat_add, UInt32.toNat_add, UInt32.toNat_shiftLeft, low_bits (by omega),
    low_bits (by omega), h10, hbase, Nat.shiftLeft_eq, hpow]
  show _ = c.toNat
  omega

/-- One character of a string. -/
theorem decodeStringLoop_char {t s : List UInt8} (h : CharText t s) {n : ℕ} {rest : List UInt8}
    (hn : t.length + rest.length ≤ n) (decoded : List UInt8) :
    ∃ n', rest.length ≤ n' ∧
      decodeStringLoop n (t ++ rest) decoded = decodeStringLoop n' rest (decoded ++ s) := by
  obtain ⟨n, rfl⟩ : ∃ k, n = k + 1 := ⟨n - 1, by cases h <;> simp at hn <;> omega⟩
  cases h with
  | plain hcontrol hquote hescape =>
    refine ⟨n, by rw [List.length_singleton] at hn; omega, ?_⟩
    rw [List.singleton_append, decodeStringLoop.eq_def]
    exact (if_neg hquote).trans (if_neg hescape)
  | @short e b h =>
    refine ⟨n, by simp at hn; omega, ?_⟩
    have hvalues : shortEscapes.all (fun p => escapeValue p.1 = some p.2) = true := rfl
    have hvalue : escapeValue e = some b := of_decide_eq_true (List.all_eq_true.mp hvalues _ h)
    rw [List.cons_append, List.singleton_append, decodeStringLoop, if_neg (by decide), if_pos rfl]
    simp only [hvalue]
  | @unicode c ds h =>
    refine ⟨n, by simp at hn; omega, ?_⟩
    rw [List.cons_append, List.cons_append, decodeStringLoop, if_neg (by decide), if_pos rfl]
    have hvalue : escapeValue 0x75 = none := rfl
    simp only [hvalue, decodeUnicodeCodePoint_unicode h, if_true, codePointToUTF8_eq]
  | @pair c ds ds' hc h h' =>
    refine ⟨n, by simp at hn; omega, ?_⟩
    have hvalue : escapeValue 0x75 = none := rfl
    have hpair := decodeUnicodeCodePoint_pair hc h h' rest
    rw [List.cons_append, List.cons_append, List.append_assoc, List.cons_append, List.cons_append,
      decodeStringLoop, if_neg (by decide), if_pos rfl]
    simp only [hvalue, hpair, if_true, codePointToUTF8_eq]

theorem decodeStringLoop_chars {t s : List UInt8} (h : CharsText t s) {n : ℕ}
    (hn : t.length ≤ n) (decoded : List UInt8) :
    decodeStringLoop n t decoded = .ok (decoded ++ s) := by
  induction h generalizing n decoded with
  | nil =>
    rw [List.append_nil]
    cases n <;> rfl
  | cons h _ ih =>
    rw [List.length_append] at hn
    obtain ⟨n', hn', hstep⟩ := decodeStringLoop_char h hn decoded
    rw [hstep, ih hn', List.append_assoc]

theorem decodeContent_eq {t s : List UInt8} (h : CharsText t s) : decodeContent t = .ok s :=
  decodeStringLoop_chars h (Nat.le_refl _) []

/-! ### The ends of tokens -/

theorem Blank.isJsonSpace {b : List UInt8} (hb : Blank b) : ∀ c ∈ b, isJsonSpace c := by
  intro c hc
  rcases hb c hc with rfl | rfl | rfl | rfl <;> rfl

theorem skipSpaces_blank {b : List UInt8} (hb : Blank b) (current : List UInt8) :
    skipSpaces (b ++ current) = skipSpaces current :=
  List.dropWhile_append_of_pos (Blank.isJsonSpace hb)

theorem skipSpaces_cons {c : UInt8} (hc : isJsonSpace c = false) (current : List UInt8) :
    skipSpaces (c :: current) = c :: current :=
  List.dropWhile_cons_of_neg (by rw [hc]; decide)

theorem skipSpaces_skipSpaces (current : List UInt8) :
    skipSpaces (skipSpaces current) = skipSpaces current := List.dropWhile_idempotent _ current

/-- A value begins with no blank, and with no closing bracket. -/
theorem derives_head {v : Tree} {t : List UInt8} (h : Derives (.value v) t) :
    ∃ c t', t = c :: t' ∧ isJsonSpace c = false ∧ c ≠ 0x5D := by
  obtain ⟨c, t', ht, hc⟩ := h.head
  simp only [List.mem_cons, List.not_mem_nil, or_false, not_or] at hc
  exact ⟨c, t', ht, by simp [isJsonSpace, hc], hc.2.2.2.2⟩

/-- What is left of a text behind its first blanks, with what follows it. -/
def Begins (t : List UInt8) : Prop :=
  ∃ c t', c ≠ 0x5D ∧ ∀ rest, skipSpaces (t ++ rest) = c :: (t' ++ rest)

theorem begins_around {v : Tree} {t : List UInt8} (h : Derives (.around v) t) : Begins t := by
  cases h with | @around _ _ b' _ hb hv hb' =>
  obtain ⟨c, t', rfl, hspace, hc⟩ := derives_head hv
  refine ⟨c, t' ++ b', hc, fun rest => ?_⟩
  rw [List.append_assoc, skipSpaces_blank hb, List.cons_append, List.cons_append,
    skipSpaces_cons hspace]

theorem begins_elements {vs : List Tree} {t : List UInt8} (h : Derives (.elements vs) t) :
    Begins t := by
  cases h with
  | element h => exact begins_around h
  | @elements _ _ _ t' h _ =>
    obtain ⟨c, t, hc, hskip⟩ := begins_around h
    exact ⟨c, t ++ 0x2C :: t', hc, fun rest => by rw [List.append_assoc, hskip, List.append_assoc]⟩

/-- The byte before makes no difference. -/
theorem readStringLoop_congr (quote c c' : UInt8) {current : List UInt8} (h : current ≠ []) :
    readStringLoop quote c current = readStringLoop quote c' current := by
  rcases current with _ | ⟨d, _ | ⟨e, current⟩⟩
  · exact absurd rfl h
  · rfl
  · rfl

theorem readStringLoop_cons {quote b : UInt8} (c : UInt8) {current : List UInt8}
    (h : current ≠ []) (hescape : b ≠ 0x5C) (hquote : b ≠ quote) :
    readStringLoop quote c (b :: current) = readStringLoop quote c current := by
  rcases current with _ | ⟨d, current⟩
  · exact absurd rfl h
  · rw [readStringLoop, if_neg hescape, if_neg hquote]
    exact readStringLoop_congr quote b c h

theorem readStringLoop_escape {quote : UInt8} (c e : UInt8) {current : List UInt8}
    (h : current ≠ []) :
    readStringLoop quote c (0x5C :: e :: current) = readStringLoop quote c current := by
  rw [readStringLoop, if_pos rfl]
  exact readStringLoop_congr quote 0x5C c h

theorem readStringLoop_hex {v n : ℕ} {ds : List UInt8} (h : hexFrom v ds = some n) (c : UInt8)
    {current : List UInt8} (hcurrent : current ≠ []) :
    readStringLoop 0x22 c (ds ++ current) = readStringLoop 0x22 c current := by
  induction ds generalizing v with
  | nil => rfl
  | cons d ds ih =>
    obtain ⟨_, hd, h⟩ := Option.bind_eq_some_iff.mp h
    have hescape : d ≠ 0x5C := by
      rintro rfl
      cases hd
    have hquote : d ≠ 0x22 := by
      rintro rfl
      cases hd
    rw [List.cons_append, readStringLoop_cons c (List.append_ne_nil_of_right_ne_nil _ hcurrent)
      hescape hquote, ih h]

theorem readStringLoop_char {t s : List UInt8} (h : CharText t s) (c : UInt8)
    {current : List UInt8} (hcurrent : current ≠ []) :
    readStringLoop 0x22 c (t ++ current) = readStringLoop 0x22 c current := by
  have hne (l : List UInt8) : l ++ current ≠ [] := List.append_ne_nil_of_right_ne_nil l hcurrent
  cases h with
  | plain _ hquote hescape => exact readStringLoop_cons c hcurrent hescape hquote
  | short => exact readStringLoop_escape c _ hcurrent
  | unicode h =>
    rw [List.cons_append, List.cons_append, readStringLoop_escape c _ (hne _),
      readStringLoop_hex h.2 c hcurrent]
  | pair _ h h' =>
    rw [List.cons_append, List.cons_append, readStringLoop_escape c _ (hne _), List.append_assoc,
      List.cons_append, List.cons_append, readStringLoop_hex h.2 c (List.cons_ne_nil _ _),
      readStringLoop_escape c _ (hne _), readStringLoop_hex h'.2 c hcurrent]

/-- A string ends at its closing quote. -/
theorem readString_eq {t s : List UInt8} (h : CharsText t s) (rest : List UInt8) :
    readString (t ++ 0x22 :: rest) = (true, rest) := by
  have key : ∀ {t s : List UInt8}, CharsText t s → ∀ c : UInt8,
      readStringLoop 0x22 c (t ++ 0x22 :: rest) = readStringLoop 0x22 c (0x22 :: rest) := by
    intro t s h c
    induction h with
    | nil => rfl
    | cons h _ ih =>
      rw [List.append_assoc, readStringLoop_char h c
        (List.append_ne_nil_of_right_ne_nil _ (List.cons_ne_nil _ _)), ih]
  rw [readString, key h]
  cases rest <;> rfl

theorem dropWhile_digits {ds rest : List UInt8} (hds : Digits ds)
    (hrest : ∀ c ∈ rest.head?, isDecDigit c = false) :
    (ds ++ rest).dropWhile isDecDigit = rest := by
  rw [List.dropWhile_append_of_pos hds]
  cases rest with
  | nil => rfl
  | cons c rest => exact List.dropWhile_cons_of_neg (by rw [hrest c rfl]; decide)

theorem readExponent_eq {exp rest : List UInt8} (hexp : ExpText exp) (hrest : Stops rest) :
    readExponent (exp ++ rest) = rest := by
  have hdigits {ds : List UInt8} (hds : Digits ds) (hne : ds ≠ []) :
      (readSign (ds ++ rest)).dropWhile isDecDigit = rest := by
    obtain ⟨d, ds, rfl⟩ := List.exists_cons_of_ne_nil hne
    have hd := hds d List.mem_cons_self
    rw [readSign, if_neg, dropWhile_digits hds hrest.not_digit]
    rintro (rfl | rfl) <;> exact absurd hd (by decide)
  rcases hexp with rfl | ⟨e, sign, ds, rfl, he, hsign, hne, hds⟩
  · rw [List.nil_append, readExponent, if_neg]
    cases rest with
    | nil => decide
    | cons c rest =>
      have hc := hrest c rfl
      exact fun h => h.elim hc.2.2.1 hc.2.2.2
  · rw [List.cons_append, readExponent, List.headD_cons, if_pos he, List.tail_cons,
      List.append_assoc]
    rcases hsign with rfl | rfl | rfl
    · exact hdigits hds hne
    · exact dropWhile_digits hds hrest.not_digit
    · exact dropWhile_digits hds hrest.not_digit

theorem readFraction_eq {frac rest : List UInt8} (hfrac : FracText frac)
    (hrest : ∀ c ∈ rest.head?, isDecDigit c = false ∧ c ≠ 0x2E) :
    readFraction (frac ++ rest) = rest := by
  rcases hfrac with rfl | ⟨ds, rfl, -, hds⟩
  · rw [List.nil_append, readFraction, if_neg]
    cases rest with
    | nil => decide
    | cons c rest => exact (hrest c rfl).2
  · exact dropWhile_digits hds fun c hc => (hrest c hc).1

/-- A number ends where nothing of a number follows. -/
theorem readNumber_eq {c : UInt8} {t rest : List UInt8} (h : NumberText (c :: t))
    (hrest : Stops rest) : readNumber (t ++ rest) = rest := by
  have key {ds frac exp : List UInt8} (hds : Digits ds) (hfrac : FracText frac)
      (hexp : ExpText exp) : readNumber (ds ++ (frac ++ exp) ++ rest) = rest := by
    have hhead : ∀ c ∈ (frac ++ (exp ++ rest)).head?, isDecDigit c = false := by
      rcases hfrac with rfl | ⟨fs, rfl, -, -⟩
      · exact fun c hc => (hexp.not_digit hrest c hc).1
      · exact fun c hc => by cases hc; rfl
    rw [List.append_assoc, List.append_assoc, readNumber, dropWhile_digits hds hhead,
      readFraction_eq hfrac (hexp.not_digit hrest), readExponent_eq hexp hrest]
  generalize hwhole : c :: t = whole at h
  obtain ⟨hsign, hint, hfrac, hexp⟩ := h
  obtain ⟨d, ds, rfl, hd, hds⟩ := hint.cons
  rcases hsign with rfl | rfl
  · obtain ⟨-, rfl⟩ := List.cons_eq_cons.mp hwhole
    exact key hds hfrac hexp
  · obtain ⟨-, rfl⟩ := List.cons_eq_cons.mp hwhole
    have hend := key (hds.cons hd) hfrac hexp
    exact hend

/-! ### Tokens -/

namespace OurReader

variable {ρ : Type*} (r : OurReader ρ)

/-- A token behind blanks. -/
theorem readToken_eq {c : UInt8} {type_ : TokenType} {current next rest : List UInt8}
    (hspaces : skipSpaces current = c :: next) (hscan : r.scanToken c next = (type_, true, rest)) :
    r.readToken current = ⟨type_, c :: next, rest⟩ := by
  rw [readToken, hspaces]
  simp only [getNextChar, hscan, if_true]

theorem skipComments_eq {current : List UInt8} {token : Token} (h : r.readToken current = token)
    (htype : token.type_ ≠ .tokenComment) : r.skipComments current = token := by
  rw [skipComments]
  cases current.length with
  | zero => exact h
  | succ n => rw [skipCommentsLoop, h, if_neg htype]

theorem skipCommentTokens_eq {current : List UInt8} {token : Token}
    (h : r.readToken current = token) (htype : token.type_ ≠ .tokenComment) :
    r.skipCommentTokens current = token := by
  rw [skipCommentTokens, r.skipComments_eq h htype, h, ite_self]

/-- A literal behind its first letter. -/
theorem matchPattern_append (pattern rest : List UInt8) :
    matchPattern pattern (pattern ++ rest) = (true, rest) := by
  rw [matchPattern, if_pos (List.prefix_append _ _), List.drop_left]

theorem scanToken_null (rest : List UInt8) :
    r.scanToken 0x6E (ascii "ull" ++ rest) = (.tokenNull, true, rest) :=
  congrArg (Prod.mk TokenType.tokenNull) (matchPattern_append (ascii "ull") rest)

theorem scanToken_true (rest : List UInt8) :
    r.scanToken 0x74 (ascii "rue" ++ rest) = (.tokenTrue, true, rest) :=
  congrArg (Prod.mk TokenType.tokenTrue) (matchPattern_append (ascii "rue") rest)

theorem scanToken_false (rest : List UInt8) :
    r.scanToken 0x66 (ascii "alse" ++ rest) = (.tokenFalse, true, rest) :=
  congrArg (Prod.mk TokenType.tokenFalse) (matchPattern_append (ascii "alse") rest)

theorem scanToken_string {t s : List UInt8} (h : CharsText t s) (rest : List UInt8) :
    r.scanToken 0x22 (t ++ 0x22 :: rest) = (.tokenString, true, rest) :=
  congrArg (Prod.mk TokenType.tokenString) (readString_eq h rest)

theorem scanToken_number {c : UInt8} {t rest : List UInt8} (h : NumberText (c :: t))
    (hrest : Stops rest) : r.scanToken c (t ++ rest) = (.tokenNumber, true, rest) := by
  obtain ⟨_, _, heq, hc⟩ := h.head
  obtain ⟨rfl, rfl⟩ := List.cons_eq_cons.mp heq
  have hnumber := readNumber_eq h hrest
  have hmem : ∀ n : Fin 256, (⟨⟨n⟩⟩ : UInt8) = 0x2D ∨ isDecDigit ⟨⟨n⟩⟩ → (⟨⟨n⟩⟩ : UInt8) ∈
      ([0x30, 0x31, 0x32, 0x33, 0x34, 0x35, 0x36, 0x37, 0x38, 0x39, 0x2D] : List UInt8) := by
    decide +kernel
  have hscan : ∀ c ∈ ([0x30, 0x31, 0x32, 0x33, 0x34, 0x35, 0x36, 0x37, 0x38, 0x39, 0x2D] : List UInt8),
      r.scanToken c (t ++ rest) = (.tokenNumber, true, readNumber (t ++ rest)) := by
    simp only [List.forall_mem_cons]
    exact ⟨rfl, rfl, rfl, rfl, rfl, rfl, rfl, rfl, rfl, rfl, rfl, nofun⟩
  rw [hscan c (hmem c.toBitVec.toFin hc), hnumber]

end OurReader

/-- The text of a token is what it was read from. -/
theorem text_of_append (type_ : TokenType) (t rest : List UInt8) :
    Token.text ⟨type_, t ++ rest, rest⟩ = t := by
  rw [Token.text, List.length_append, Nat.add_sub_cancel, List.take_left]

theorem decodeString_eq {s q : List UInt8} (h : Quoted s q) (rest : List UInt8) :
    decodeString ⟨.tokenString, q ++ rest, rest⟩ = .ok s := by
  obtain ⟨t, ht, rfl⟩ := h
  have hcontent : Token.content ⟨.tokenString, 0x22 :: (t ++ [0x22]) ++ rest, rest⟩ = t := by
    rw [Token.content, text_of_append, List.tail_cons, List.dropLast_concat]
  rw [decodeString, hcontent, decodeContent_eq ht]
  rfl

end LinuxDemo.Json
