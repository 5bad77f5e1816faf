/-
LinuxDemo/Base16.lean

`base16Encode` and `ReadBufferHex` of `lib/SSLKernelItem.cpp`.

The encoder appends two digits for each byte with `strcat`, so its output
depends on what the array held.  The decoder scans two characters at a time
into an `unsigned int` and takes one byte of its memory: the first, or the last
one where `_SDK_BE_` is defined.  So it decodes on the hosts that the macro was
set right for (`Host.Matches`), and gives zeros on the others.
-/
import LinuxDemo.Lib.CInt
import LinuxDemo.Lib.CStr
import LinuxDemo.Lib.Words

namespace LinuxDemo

/-! ### `base16Encode` -/

/-- The loop with `n` rounds to go: the array and `*pBufferOutUsed`. -/
def base16Loop : ℕ → List UInt8 → List UInt8 → ℤ → Option (List UInt8 × ℤ)
  | 0, _, pBufferOut, used => some (pBufferOut, used)
  | _ + 1, [], _, _ => none
  | n + 1, b :: pBufferIn, pBufferOut, used =>
      (strcat pBufferOut (sprintf02X b)).bind fun pBufferOut =>
        base16Loop n pBufferIn pBufferOut (int32 (used + 2))

/-- The result, the output array and `*pBufferOutUsed`. -/
def base16Encode (pBufferIn : Option (List UInt8)) (nBufferIn : ℤ)
    (pBufferOut : Option (List UInt8)) (nBufferOut : ℤ) :
    Option (Bool × Option (List UInt8) × ℤ) :=
  match pBufferIn, pBufferOut with
  | some bufIn, some bufOut =>
      if nBufferOut < int32 (nBufferIn * 2) then some (false, bufOut, 0)
      else
        (base16Loop nBufferIn.toNat bufIn bufOut 0).map fun (bufOut, used) =>
          (true, some bufOut, used)
  | _, _ => some (false, pBufferOut, 0)

@[simp] theorem hexOf_nil : hexOf [] = [] := rfl

theorem hexOf_cons (b : UInt8) (bs : List UInt8) : hexOf (b :: bs) = sprintf02X b ++ hexOf bs :=
  List.flatMap_cons

@[simp] theorem hexOf_length (bs : List UInt8) : (hexOf bs).length = 2 * bs.length := by
  induction bs with
  | nil => rfl
  | cons b bs ih =>
    rw [hexOf_cons, List.length_append, ih, List.length_cons]
    show 2 + 2 * bs.length = 2 * (bs.length + 1)
    omega

/-- The characters of the encoding are neither NUL nor the ends of a line. -/
theorem mem_sprintf02X {b c : UInt8} (h : c ∈ sprintf02X b) : c ≠ 0 ∧ c ≠ 0x0A ∧ c ≠ 0x0D := by
  have hlt := b.toNat_lt
  rcases List.mem_cons.mp h with rfl | h
  · exact (hexDigit_scan (b.toNat / 16) (by omega)).2.2.2.2
  · rw [List.mem_singleton.mp h]
    exact (hexDigit_scan (b.toNat % 16) (by omega)).2.2.2.2

theorem mem_hexOf {bs : List UInt8} {c : UInt8} (h : c ∈ hexOf bs) :
    c ≠ 0 ∧ c ≠ 0x0A ∧ c ≠ 0x0D := by
  obtain ⟨b, -, hc⟩ := List.mem_flatMap.mp h
  exact mem_sprintf02X hc

/-- A string that is extended by a printed byte is a string. -/
theorem ne_zero_append_sprintf02X {s : List UInt8} (hs : ∀ c ∈ s, c ≠ 0) (b : UInt8) :
    ∀ c ∈ s ++ sprintf02X b, c ≠ 0 :=
  List.forall_mem_append.mpr ⟨hs, fun _ hc => (mem_sprintf02X hc).1⟩

/-- **The loop appends the encoding** to the string in the array. -/
theorem base16Loop_spec (bs more : List UInt8) (s rest : List UInt8) (used : ℕ)
    (hs : ∀ c ∈ s, c ≠ 0) (hroom : 2 * bs.length ≤ rest.length)
    (hused : used + 2 * bs.length < 2 ^ 31) :
    base16Loop bs.length (bs ++ more) (s ++ 0 :: rest) used =
      some (s ++ hexOf bs ++ 0 :: rest.drop (2 * bs.length), ((used + 2 * bs.length : ℕ) : ℤ)) := by
  induction bs generalizing s rest used with
  | nil => simp [base16Loop]
  | cons b bs ih =>
    rw [List.length_cons] at hroom hused
    have htwo : (sprintf02X b).length = 2 := rfl
    -- the count stays an `int`, and the characters are not NUL: the string grows
    have hnext : int32 ((used : ℤ) + 2) = ((used + 2 : ℕ) : ℤ) := by
      rw [int32_eq (by omega) (by omega)]
      rfl
    have hs' := ne_zero_append_sprintf02X hs b
    have htail := ih (s ++ sprintf02X b) (rest.drop 2) (used + 2) hs'
      (by rw [List.length_drop]; omega) (by omega)
    have hdrop : (rest.drop 2).drop (2 * bs.length) = rest.drop (2 * (bs.length + 1)) := by
      rw [List.drop_drop, Nat.mul_succ, Nat.add_comm]
    have hsum : used + 2 + 2 * bs.length = used + 2 * (bs.length + 1) := by omega
    have happend : s ++ hexOf (b :: bs) = s ++ sprintf02X b ++ hexOf bs := by
      rw [hexOf_cons, List.append_assoc]
    rw [hdrop, hsum] at htail
    rw [happend, List.cons_append, List.length_cons, base16Loop,
      strcat_append hs (by rw [htwo]; omega), Option.bind_some, hnext, htwo, htail]

/-- With less room than the text and its NUL take, the loop leaves the array. -/
theorem base16Loop_overflow (bs more : List UInt8) (s rest : List UInt8) (used : ℤ)
    (hs : ∀ c ∈ s, c ≠ 0) (hroom : rest.length < 2 * bs.length) :
    base16Loop bs.length (bs ++ more) (s ++ 0 :: rest) used = none := by
  induction bs generalizing s rest used with
  | nil => exact absurd hroom (Nat.not_lt_zero _)
  | cons b bs ih =>
    rw [List.length_cons] at hroom
    have htwo : (sprintf02X b).length = 2 := rfl
    rw [List.cons_append, List.length_cons, base16Loop]
    by_cases hfits : 2 ≤ rest.length
    · -- this byte fits, a later one does not
      rw [strcat_append hs (by rw [htwo]; exact hfits), Option.bind_some, htwo]
      apply ih
      · exact ne_zero_append_sprintf02X hs b
      · rw [List.length_drop]
        omega
    · rw [strcat_overflow hs (by rw [htwo]; omega), Option.bind_none]

/-- The encoder after its test. -/
theorem base16Encode_of_test {nBufferIn nBufferOut : ℤ}
    (htest : ¬ nBufferOut < int32 (nBufferIn * 2)) (bufIn bufOut : List UInt8) :
    base16Encode (some bufIn) nBufferIn (some bufOut) nBufferOut =
      (base16Loop nBufferIn.toNat bufIn bufOut 0).map fun (bufOut, used) =>
        (true, some bufOut, used) := by
  simp only [base16Encode, if_neg htest]

/-- **`base16Encode` into a zeroed array** with room for the text and its NUL. -/
theorem base16Encode_zeroed (bs more : List UInt8) (size : ℕ) (nBufferOut : ℤ)
    (hroom : 2 * bs.length < size) (hcap : 2 * bs.length ≤ nBufferOut)
    (hint : nBufferOut < 2 ^ 31) :
    base16Encode (some (bs ++ more)) bs.length (some (List.replicate size 0)) nBufferOut =
      some (true, some (hexOf bs ++ List.replicate (size - 2 * bs.length) 0),
        ((2 * bs.length : ℕ) : ℤ)) := by
  obtain ⟨m, rfl⟩ : ∃ m, size = m + 1 := ⟨size - 1, by omega⟩
  have hloop := base16Loop_spec bs more [] (List.replicate m 0) 0 nofun
    (by rw [List.length_replicate]; omega) (by omega)
  have htest : ¬ nBufferOut < int32 ((bs.length : ℤ) * 2) := by
    rw [int32_eq (by omega) (by omega)]
    omega
  have hzeros : 0 :: (List.replicate m (0 : UInt8)).drop (2 * bs.length) =
      List.replicate (m + 1 - 2 * bs.length) 0 := by
    rw [List.drop_replicate, ← List.replicate_succ]
    congr 1
    omega
  rw [List.nil_append, List.nil_append, hzeros, Nat.zero_add] at hloop
  rw [base16Encode_of_test htest, Int.toNat_natCast, List.replicate_succ]
  show (base16Loop bs.length (bs ++ more) _ ((0 : ℕ) : ℤ)).map _ = _
  rw [hloop]
  rfl

/-- Without room for the NUL the encoder leaves the array, if its test passes. -/
theorem base16Encode_overflow (bs more : List UInt8) (size : ℕ) (hroom : size = 2 * bs.length)
    (hpos : 0 < size) (hn : size < 2 ^ 31) :
    base16Encode (some (bs ++ more)) bs.length (some (List.replicate size 0)) size = none := by
  obtain ⟨m, rfl⟩ : ∃ m, size = m + 1 := ⟨size - 1, by omega⟩
  have hloop := base16Loop_overflow bs more [] (List.replicate m 0) 0 nofun
    (by rw [List.length_replicate]; omega)
  have htest : ¬ ((m + 1 : ℕ) : ℤ) < int32 ((bs.length : ℤ) * 2) := by
    rw [int32_eq (by omega) (by omega)]
    omega
  rw [List.nil_append] at hloop
  rw [base16Encode_of_test htest, Int.toNat_natCast, List.replicate_succ, hloop, Option.map_none]

/-! ### `ReadBufferHex` -/

/-- How the program was built, and where it runs. -/
structure Host where
  bigEndian : Bool
  /-- `_SDK_BE_` is defined. -/
  sdkBe : Bool

/-- The memory of an `unsigned int`. -/
def Host.memory (h : Host) (v : UInt32) : List UInt8 :=
  if h.bigEndian then (leBytes v).reverse else leBytes v

/-- `_SDK_BE_` is defined exactly on a big-endian host. -/
def Host.Matches (h : Host) : Prop := h.bigEndian = h.sdkBe

instance (h : Host) : Decidable h.Matches := inferInstanceAs (Decidable (_ = _))

/-- One round: `sscanf` into `cByte`, and the byte that is copied out. -/
def hexByte (h : Host) (pcBufIn : List UInt8) : UInt8 :=
  let cByte := (sscanf2x pcBufIn).elim [0, 0, 0, 0] h.memory
  if h.sdkBe then cByte.getD 3 0 else cByte.getD 0 0

/-- The loop with `n` rounds to go: the bytes it stores at `pcBufOut`. -/
def readHexLoop (h : Host) : ℕ → List UInt8 → List UInt8
  | 0, _ => []
  | n + 1, pcBufIn => hexByte h pcBufIn :: readHexLoop h n (pcBufIn.drop 2)

/-- The bytes that are stored; `*pnLenBufOut` is their number.  The memory at
`pcBufIn` may go on after its first `nLenBufIn` bytes. -/
def readBufferHex (h : Host) (pcBufIn : Option (List UInt8)) (nLenBufIn : ℤ) :
    Option (List UInt8) :=
  match pcBufIn with
  | none => some []
  | some buf =>
      let rounds := ((nLenBufIn + 1) / 2).toNat
      -- the index goes up to twice the rounds: for `INT_MAX` it overflows and the loop goes on
      if 2 * rounds < 2 ^ 31 then some (readHexLoop h rounds buf) else none

theorem readHexLoop_length (h : Host) (n : ℕ) (s : List UInt8) :
    (readHexLoop h n s).length = n := by
  induction n generalizing s with
  | zero => rfl
  | succ n ih => rw [readHexLoop, List.length_cons, ih]

/-- The rounds for a length that is not negative. -/
theorem readBufferHex_natCast (h : Host) (buf : List UInt8) (n : ℕ) :
    readBufferHex h (some buf) n =
      if n < 2 ^ 31 - 1 then some (readHexLoop h ((n + 1) / 2) buf) else none := by
  have hcount : (((n : ℤ) + 1) / 2).toNat = (n + 1) / 2 := by omega
  have hint : 2 * ((n + 1) / 2) < 2 ^ 31 ↔ n < 2 ^ 31 - 1 := by omega
  simp only [readBufferHex, hcount, hint]

/-- A printed byte is decoded on a host that matches, and else it is zero. -/
theorem hexByte_sprintf02X (h : Host) (b : UInt8) (rest : List UInt8) :
    hexByte h (sprintf02X b ++ rest) = if h.Matches then b else 0 := by
  have hbytes : leBytes (UInt32.ofNat b.toNat) = [b, 0, 0, 0] := by
    rw [leBytes_of_lt b.toNat_lt, UInt8.ofNat_toNat]
  simp only [hexByte, sscanf2x_sprintf02X, Option.elim_some, Host.memory, hbytes, Host.Matches]
  rcases h with ⟨_ | _, _ | _⟩ <;> rfl

/-- **`ReadBufferHex` on the encoding** of some bytes. -/
theorem readBufferHex_hexOf (h : Host) (bs more : List UInt8) (hlen : 2 * bs.length < 2 ^ 31) :
    readBufferHex h (some (hexOf bs ++ more)) (2 * bs.length : ℕ) =
      some (if h.Matches then bs else List.replicate bs.length 0) := by
  have hcount : (2 * bs.length + 1) / 2 = bs.length := by omega
  have hint : 2 * bs.length < 2 ^ 31 - 1 := by omega
  rw [readBufferHex_natCast, if_pos hint, hcount]
  clear hcount hint hlen
  induction bs with
  | nil => simp [readHexLoop]
  | cons b bs ih =>
    have hdrop : (sprintf02X b ++ (hexOf bs ++ more)).drop 2 = hexOf bs ++ more := rfl
    rw [hexOf_cons, List.append_assoc, List.length_cons, readHexLoop, hexByte_sprintf02X, hdrop]
    rw [Option.some.injEq] at ih ⊢
    rw [ih]
    split <;> rfl

end LinuxDemo
