/-
LinuxDemo/Lib/CStr.lean

Strings of the C library: `strcpy` and `strcat`, `sprintf` with `%02X`, also at an
offset, and `sscanf` with `%2x`.

An array is the list of its bytes, and a function that would leave it gives
`none`.  A string that is only read is the list of the bytes from its pointer
on; its end counts as the terminator.
-/
import Mathlib.Data.List.TakeWhile

namespace LinuxDemo

/-! ### `strcpy` and `strcat` -/

/-- The string at a pointer: the bytes before the first NUL. -/
def cstr (mem : List UInt8) : List UInt8 := mem.takeWhile (· ≠ 0)

theorem mem_cstr {mem : List UInt8} {c : UInt8} (hc : c ∈ cstr mem) : c ≠ 0 := by
  have hne := List.mem_takeWhile_imp hc
  simpa using hne

theorem cstr_terminated {s : List UInt8} (rest : List UInt8) (hs : ∀ c ∈ s, c ≠ 0) :
    cstr (s ++ 0 :: rest) = s := by
  rw [cstr, List.takeWhile_append_of_pos (fun c hc => by simpa using hs c hc)]
  simp

theorem cstr_unterminated {s : List UInt8} (hs : ∀ c ∈ s, c ≠ 0) : cstr s = s :=
  List.takeWhile_eq_self_iff.mpr fun c hc => by simpa using hs c hc

/-- An array is a string and its NUL, with something behind it, or has no NUL. -/
theorem cstr_cases (mem : List UInt8) : cstr mem = mem ∨ ∃ rest, mem = cstr mem ++ 0 :: rest := by
  induction mem with
  | nil => exact .inl rfl
  | cons c mem ih =>
    by_cases hc : c = 0
    · subst hc
      exact .inr ⟨mem, rfl⟩
    · have hcons : cstr (c :: mem) = c :: cstr mem := by
        rw [cstr, List.takeWhile_cons_of_pos (by simpa using hc)]
        rfl
      rw [hcons]
      rcases ih with hself | ⟨rest, hrest⟩
      · exact .inl (by rw [hself])
      · exact .inr ⟨rest, congrArg (c :: ·) hrest⟩

/-- `strcpy(dst, src)`, with a NUL behind the copy. -/
def strcpy (dst src : List UInt8) : Option (List UInt8) :=
  let s := cstr src
  if s.length < dst.length then some (s ++ 0 :: dst.drop (s.length + 1)) else none

/-- `strcat(dst, src)`: the copy starts at the first NUL of `dst` and ends with
a NUL of its own. -/
def strcat (dst src : List UInt8) : Option (List UInt8) :=
  let p := (dst.takeWhile (· ≠ 0)).length
  if p + src.length < dst.length then
    some (dst.take p ++ src ++ 0 :: dst.drop (p + src.length + 1))
  else none

/-- A string in an array is extended, if there is room behind its NUL. -/
theorem strcat_eq {s rest src : List UInt8} (hs : ∀ c ∈ s, c ≠ 0) :
    strcat (s ++ 0 :: rest) src =
      if src.length ≤ rest.length then some (s ++ src ++ 0 :: rest.drop src.length)
      else none := by
  have hp : (s ++ 0 :: rest).takeWhile (· ≠ 0) = s := cstr_terminated rest hs
  have hroom : s.length + src.length < (s ++ 0 :: rest).length ↔ src.length ≤ rest.length := by
    rw [List.length_append, List.length_cons, Nat.add_lt_add_iff_left, Nat.lt_succ_iff]
  have hdrop : (s ++ 0 :: rest).drop (s.length + src.length + 1) = rest.drop src.length := by
    rw [Nat.add_assoc, List.drop_length_add_append, List.drop_succ_cons]
  simp only [strcat, hp, hroom, hdrop, List.take_left']

theorem strcat_append {s rest src : List UInt8} (hs : ∀ c ∈ s, c ≠ 0)
    (hroom : src.length ≤ rest.length) :
    strcat (s ++ 0 :: rest) src = some (s ++ src ++ 0 :: rest.drop src.length) := by
  rw [strcat_eq hs, if_pos hroom]

/-- Without that room the copy leaves the array. -/
theorem strcat_overflow {s rest src : List UInt8} (hs : ∀ c ∈ s, c ≠ 0)
    (hroom : rest.length < src.length) : strcat (s ++ 0 :: rest) src = none := by
  rw [strcat_eq hs, if_neg (Nat.not_le.mpr hroom)]

/-- An array without a NUL is left at once. -/
theorem strcat_unterminated {s : List UInt8} (src : List UInt8) (hs : ∀ c ∈ s, c ≠ 0) :
    strcat s src = none := by
  have hp : s.takeWhile (· ≠ 0) = s := cstr_unterminated hs
  rw [strcat, hp, if_neg (Nat.not_lt.mpr (Nat.le_add_right _ _))]

/-! ### `sprintf` with `%02X` -/

/-- The digit `0` to `F`. -/
def hexDigit (d : ℕ) : UInt8 := if d < 10 then UInt8.ofNat (48 + d) else UInt8.ofNat (55 + d)

def sprintf02X (b : UInt8) : List UInt8 := [hexDigit (b.toNat / 16), hexDigit (b.toNat % 16)]

/-- The upper-case hex of some bytes. -/
def hexOf (bs : List UInt8) : List UInt8 := bs.flatMap sprintf02X

/-- `sprintf(dst + off, ..)`: the text `src` at an offset, and a NUL behind it. -/
def sprintfAt (dst : List UInt8) (off : ℕ) (src : List UInt8) : Option (List UInt8) :=
  if off + src.length < dst.length then
    some (dst.take off ++ src ++ 0 :: dst.drop (off + src.length + 1))
  else none

/-- Where the string ends it is `strcat`. -/
theorem sprintfAt_eq_strcat {s : List UInt8} (rest src : List UInt8) (hs : ∀ c ∈ s, c ≠ 0) :
    sprintfAt (s ++ 0 :: rest) s.length src = strcat (s ++ 0 :: rest) src := by
  have hp : (s ++ 0 :: rest).takeWhile (· ≠ 0) = s := cstr_terminated rest hs
  simp only [strcat, hp, sprintfAt]

/-- The bytes of a literal. -/
def ascii (s : String) : List UInt8 := s.toList.map Char.toUInt8

/-! ### `sscanf` with `%2x` -/

/-- `isspace`. -/
def isSpace (c : UInt8) : Bool := c = 32 ∨ 9 ≤ c ∧ c ≤ 13

def hexVal (c : UInt8) : Option UInt32 :=
  if 48 ≤ c ∧ c ≤ 57 then some (c - 48).toUInt32
  else if 65 ≤ c ∧ c ≤ 70 then some (c - 55).toUInt32
  else if 97 ≤ c ∧ c ≤ 102 then some (c - 87).toUInt32
  else none

/-- At most `width` more digits. -/
def scanDigits : ℕ → List UInt8 → UInt32 → UInt32
  | width + 1, c :: cs, v => (hexVal c).elim v fun d => scanDigits width cs (v * 16 + d)
  | _, _, v => v

/-- At least one digit, and at most `width`. -/
def scanHex : ℕ → List UInt8 → Option UInt32
  | width + 1, c :: cs => (hexVal c).map (scanDigits width cs)
  | _, _ => none

/-- `sscanf(s, "%2x", ..)`: white space is skipped, and a sign takes one of the
two places.  The prefix `0x` takes both, and leaves the value 0. -/
def sscanf2x (s : List UInt8) : Option UInt32 :=
  match s.dropWhile isSpace with
  | [] => none
  | c :: cs =>
      if c = 45 then (scanHex 1 cs).map (0 - ·)
      else if c = 43 then scanHex 1 cs
      else scanHex 2 (c :: cs)

/-- What the scan does with a digit. -/
theorem hexDigit_scan : ∀ d < 16,
    isSpace (hexDigit d) = false ∧ hexDigit d ≠ 45 ∧ hexDigit d ≠ 43 ∧
      hexVal (hexDigit d) = some (UInt32.ofNat d) ∧ hexDigit d ≠ 0 ∧ hexDigit d ≠ 0x0A ∧
      hexDigit d ≠ 0x0D := by
  decide

/-- **The scan reads a printed byte back**, whatever follows it. -/
theorem sscanf2x_sprintf02X (b : UInt8) (rest : List UInt8) :
    sscanf2x (sprintf02X b ++ rest) = some (UInt32.ofNat b.toNat) := by
  have hlt := b.toNat_lt
  obtain ⟨hspace, hminus, hplus, hhigh, -⟩ := hexDigit_scan (b.toNat / 16) (by omega)
  obtain ⟨-, -, -, hlow, -⟩ := hexDigit_scan (b.toNat % 16) (by omega)
  have hval : UInt32.ofNat (b.toNat / 16) * 16 + UInt32.ofNat (b.toNat % 16) =
      UInt32.ofNat b.toNat := by
    apply UInt32.toNat.inj
    have h16 : (16 : UInt32).toNat = 16 := rfl
    simp only [UInt32.toNat_add, UInt32.toNat_mul, UInt32.toNat_ofNat', h16]
    omega
  simp only [sscanf2x, sprintf02X, List.cons_append, List.nil_append, List.dropWhile_cons, hspace,
    Bool.false_eq_true, if_false, if_neg hminus, if_neg hplus, scanHex, hhigh, Option.map_some,
    scanDigits, hlow, Option.elim_some, hval]

end LinuxDemo
