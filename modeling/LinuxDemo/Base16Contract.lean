/-
LinuxDemo/Base16Contract.lean

Does `base16Encode` keep to its array?

It compares the capacity with twice the number of the bytes, as an `int`.  So
the test does not count the NUL, nor the string that the array holds already
and that `strcat` goes behind, and from 2^30 bytes on it compares with a
negative number.  If the test passes, the loop keeps to the array exactly if
there is room for the old string, the text and a NUL; and then the array begins
with the text exactly if the old string followed by the text does, as the empty
string does.
-/
import LinuxDemo.Base16

namespace LinuxDemo

/-- For the bytes `bs` and an array that holds `out`: the result is true, with
the text and its length, or false, with nothing written; and nothing behind the
array is written, whatever is there. -/
def HonoursCapacity (bs : List UInt8) (nBufferOut : ℤ) (out : List UInt8) : Prop :=
  ∀ more rest, ∃ ok out' used,
    base16Encode (some (bs ++ more)) bs.length (some (out ++ rest)) nBufferOut =
        some (ok, some out', used) ∧
      out'.drop out.length = rest ∧
      (ok = true → used = 2 * bs.length ∧ out'.take (2 * bs.length) = hexOf bs) ∧
      (ok = false → out' = out ++ rest ∧ used = 0)

/-- Without room for the old string, the text and a NUL the array is left. -/
theorem base16Loop_no_room {bs out : List UInt8} (more : List UInt8) (hbs : bs ≠ [])
    (hroom : out.length ≤ (cstr out).length + 2 * bs.length) :
    base16Loop bs.length (bs ++ more) out 0 = none := by
  rcases cstr_cases out with hself | ⟨rest, hrest⟩
  · -- no NUL at all
    cases bs with
    | nil => exact absurd rfl hbs
    | cons b bs =>
      have hne : ∀ c ∈ out, c ≠ 0 := by
        intro c hc
        rw [← hself] at hc
        exact mem_cstr hc
      rw [List.cons_append, List.length_cons, base16Loop, strcat_unterminated _ hne,
        Option.bind_none]
  · have hlen := congrArg List.length hrest
    rw [List.length_append, List.length_cons] at hlen
    rw [hrest]
    exact base16Loop_overflow bs more (cstr out) rest 0 (fun c hc => mem_cstr hc) (by omega)

/-- With that room the text goes behind the old string. -/
theorem base16Loop_room {bs out : List UInt8} (more rest : List UInt8)
    (hroom : (cstr out).length + 2 * bs.length < out.length) (hint : 2 * bs.length < 2 ^ 31) :
    ∃ tail, base16Loop bs.length (bs ++ more) (out ++ rest) 0 =
        some (cstr out ++ hexOf bs ++ 0 :: tail ++ rest, ((2 * bs.length : ℕ) : ℤ)) ∧
      (cstr out ++ hexOf bs ++ 0 :: tail).length = out.length := by
  rcases cstr_cases out with hself | ⟨behind, hbehind⟩
  · rw [hself] at hroom
    omega
  · have hlen := congrArg List.length hbehind
    rw [List.length_append, List.length_cons] at hlen
    have hsplit : out ++ rest = cstr out ++ 0 :: (behind ++ rest) := by
      rw [← List.cons_append, ← List.append_assoc, ← hbehind]
    have hloop := base16Loop_spec bs more (cstr out) (behind ++ rest) 0
      (fun c hc => mem_cstr hc) (by rw [List.length_append]; omega) (by omega)
    rw [← hsplit, Nat.zero_add, List.drop_append_of_le_length (by omega)] at hloop
    refine ⟨behind.drop (2 * bs.length), ?_, ?_⟩
    · rw [List.append_assoc, List.cons_append]
      exact hloop
    · rw [List.length_append, List.length_append, List.length_cons, List.length_drop,
        hexOf_length]
      omega

/-- A test that fails: nothing is written. -/
theorem honours_of_refused {bs : List UInt8} {nBufferOut : ℤ} (out : List UInt8)
    (htest : nBufferOut < int32 (bs.length * 2)) : HonoursCapacity bs nBufferOut out := by
  intro more rest
  refine ⟨false, out ++ rest, 0, ?_, List.drop_left, nofun, fun _ => ⟨rfl, rfl⟩⟩
  simp only [base16Encode, if_pos htest]

/-- Nothing to encode. -/
theorem honours_nil {nBufferOut : ℤ} (out : List UInt8)
    (htest : ¬ nBufferOut < int32 ((0 : ℤ) * 2)) : HonoursCapacity [] nBufferOut out := by
  intro more rest
  refine ⟨true, out ++ rest, 0, ?_, List.drop_left, fun _ => ⟨rfl, rfl⟩, nofun⟩
  exact base16Encode_of_test htest ([] ++ more) (out ++ rest)

/-- With room, it depends on what the array begins with afterwards. -/
theorem honours_room_iff {bs out : List UInt8} {nBufferOut : ℤ}
    (htest : ¬ nBufferOut < int32 (bs.length * 2))
    (hroom : (cstr out).length + 2 * bs.length < out.length) (hint : 2 * bs.length < 2 ^ 31) :
    HonoursCapacity bs nBufferOut out ↔ hexOf bs <+: cstr out ++ hexOf bs := by
  have hfront : ∀ tail, (cstr out ++ hexOf bs ++ tail).take (2 * bs.length) = hexOf bs ↔
      hexOf bs <+: cstr out ++ hexOf bs := by
    intro tail
    rw [List.prefix_iff_eq_take, hexOf_length, eq_comm, List.take_append_of_le_length
      (by rw [List.length_append, hexOf_length]; omega)]
  constructor
  · intro hhonours
    obtain ⟨ok, out', used, hencode, -, htrue, -⟩ := hhonours [] []
    obtain ⟨tail, hloop, -⟩ := base16Loop_room [] [] hroom hint
    rw [base16Encode_of_test htest, Int.toNat_natCast, hloop] at hencode
    cases hencode
    rw [← hfront (0 :: tail ++ []), ← List.append_assoc]
    exact (htrue rfl).2
  · intro hprefix more rest
    obtain ⟨tail, hloop, hlen⟩ := base16Loop_room more rest hroom hint
    refine ⟨true, _, ((2 * bs.length : ℕ) : ℤ), ?_, List.drop_left' hlen, fun _ => ⟨?_, ?_⟩,
      nofun⟩
    · rw [base16Encode_of_test htest, Int.toNat_natCast, hloop]
      rfl
    · exact Nat.cast_mul 2 bs.length
    · rw [List.append_assoc]
      exact (hfront _).mpr hprefix

/-- Without room the array is left. -/
theorem not_honours_of_no_room {bs out : List UInt8} {nBufferOut : ℤ}
    (htest : ¬ nBufferOut < int32 (bs.length * 2)) (hbs : bs ≠ [])
    (hroom : out.length ≤ (cstr out).length + 2 * bs.length) :
    ¬ HonoursCapacity bs nBufferOut out := by
  intro hhonours
  obtain ⟨ok, out', used, hencode, -⟩ := hhonours [] []
  rw [base16Encode_of_test htest, Int.toNat_natCast, List.append_nil out,
    base16Loop_no_room [] hbs hroom] at hencode
  cases hencode

/-- **When `base16Encode` honours its capacity**: its test fails, or there is
nothing to encode, or the old string, the text and a NUL fit and the text comes
out at the front. -/
theorem honoursCapacity_iff {bs out : List UInt8} {nBufferOut : ℤ}
    (hout : out.length = nBufferOut.toNat) (hint : nBufferOut < 2 ^ 31) :
    HonoursCapacity bs nBufferOut out ↔
      nBufferOut < int32 (bs.length * 2) ∨ bs = [] ∨
        (cstr out).length + 2 * bs.length < nBufferOut ∧
          hexOf bs <+: cstr out ++ hexOf bs := by
  by_cases htest : nBufferOut < int32 ((bs.length : ℤ) * 2)
  · exact iff_of_true (honours_of_refused out htest) (.inl htest)
  · rw [or_iff_right htest]
    by_cases hbs : bs = []
    · subst hbs
      exact iff_of_true (honours_nil out htest) (.inl rfl)
    · rw [or_iff_right hbs]
      by_cases hroom : (cstr out).length + 2 * bs.length < out.length
      · rw [honours_room_iff htest hroom (by omega), and_iff_right (by omega)]
      · refine iff_of_false (not_honours_of_no_room htest hbs (Nat.not_lt.mp hroom)) ?_
        rintro ⟨hlt, -⟩
        omega

/-- The byte 0xAB and an empty array of four bytes. -/
theorem honoursCapacity_empty : HonoursCapacity [0xAB] 4 [0, 0, 0, 0] := by
  apply (honoursCapacity_iff rfl (by omega)).mpr
  refine .inr (.inr ⟨by decide, ?_⟩)
  exact List.prefix_rfl

/-- From 2^30 bytes on the test passes for an array of no bytes. -/
theorem base16Encode_wraps (bs : List UInt8) (hlo : 2 ^ 30 ≤ bs.length)
    (hhi : bs.length < 2 ^ 31) : base16Encode (some bs) bs.length (some []) 0 = none := by
  have htest : ¬ (0 : ℤ) < int32 ((bs.length : ℤ) * 2) :=
    Int.not_lt.mpr (Int.le_of_lt (int32_neg (by omega) (by omega)))
  have hbs : bs ≠ [] := by
    rintro rfl
    exact absurd hlo (by decide)
  have hroom : ([] : List UInt8).length ≤ (cstr []).length + 2 * bs.length := Nat.zero_le _
  have hloop := base16Loop_no_room [] hbs hroom
  rw [List.append_nil] at hloop
  rw [base16Encode_of_test htest, Int.toNat_natCast, hloop, Option.map_none]

/-- The test passes, and the array is left: two bytes for one byte, and no bytes
for 2^30.  An array that holds `41` has `4` and `1` at the front afterwards. -/
theorem base16Encode_dishonours :
    base16Encode (some [0xAB]) 1 (some [0, 0]) 2 = none ∧
      base16Encode (some (List.replicate (2 ^ 30) 0xAB)) (2 ^ 30 : ℕ) (some []) 0 = none ∧
      base16Encode (some [0xAB]) 1 (some [0x34, 0x31, 0, 0, 0]) 5 =
        some (true, some [0x34, 0x31, 0x41, 0x42, 0], 2) ∧
      ¬ HonoursCapacity [0xAB] 5 [0x34, 0x31, 0, 0, 0] := by
  have hfilled : base16Encode (some [0xAB]) 1 (some [0x34, 0x31, 0, 0, 0]) 5 =
      some (true, some [0x34, 0x31, 0x41, 0x42, 0], 2) := by
    decide
  refine ⟨by decide, ?_, hfilled, ?_⟩
  · generalize hn : 2 ^ 30 = n
    have hlen : (List.replicate n (0xAB : UInt8)).length = n := List.length_replicate
    have hwraps := base16Encode_wraps (List.replicate n 0xAB) (by omega) (by omega)
    rw [hlen] at hwraps
    exact hwraps
  · intro hhonours
    obtain ⟨ok, out', used, hencode, -, htrue, -⟩ := hhonours [] []
    have hres := hfilled.symm.trans hencode
    cases hres
    exact absurd (htrue rfl).2 (by decide)

end LinuxDemo
