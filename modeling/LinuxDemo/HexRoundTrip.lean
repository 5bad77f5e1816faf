/-
LinuxDemo/HexRoundTrip.lean

`base16Encode` and `ReadBufferHex` are inverse to each other, on a host that
the decoder is built for.

One direction is what the two loops do on printed bytes (`base16Loop_spec`,
`readBufferHex_hexOf`).  The other one follows from it: a text of an even number
of upper-case digits is the encoding of some bytes (`exists_hexOf`), so that it
is enough to know what the decoder does with encodings.

The capacity is an `int`, so room for the text also keeps its length in an `int`.
-/
import LinuxDemo.Base16

namespace LinuxDemo

/-- `0` to `9` or `A` to `F`. -/
def IsUpperHex (c : UInt8) : Prop := 48 ≤ c ∧ c ≤ 57 ∨ 65 ≤ c ∧ c ≤ 70

/-- These are the digits that are printed. -/
theorem exists_hexDigit {c : UInt8} (h : IsUpperHex c) : ∃ d < 16, hexDigit d = c := by
  simp only [IsUpperHex, UInt8.le_iff_toNat_le] at h
  rcases h with ⟨hlo, hhi⟩ | ⟨hlo, hhi⟩
  · have hlo' : 48 ≤ c.toNat := hlo
    have hhi' : c.toNat ≤ 57 := hhi
    refine ⟨c.toNat - 48, by omega, ?_⟩
    rw [hexDigit, if_pos (by omega), Nat.add_sub_cancel' hlo', UInt8.ofNat_toNat]
  · have hlo' : 65 ≤ c.toNat := hlo
    have hhi' : c.toNat ≤ 70 := hhi
    refine ⟨c.toNat - 55, by omega, ?_⟩
    rw [hexDigit, if_neg (by omega), Nat.add_sub_cancel' (by omega), UInt8.ofNat_toNat]

/-- Two digits are a printed byte. -/
theorem exists_sprintf02X {c d : UInt8} (hc : IsUpperHex c) (hd : IsUpperHex d) :
    ∃ b, sprintf02X b = [c, d] := by
  obtain ⟨x, hx, rfl⟩ := exists_hexDigit hc
  obtain ⟨y, hy, rfl⟩ := exists_hexDigit hd
  have hval : (UInt8.ofNat (16 * x + y)).toNat = 16 * x + y := by
    rw [UInt8.toNat_ofNat']
    omega
  refine ⟨UInt8.ofNat (16 * x + y), ?_⟩
  rw [sprintf02X, hval]
  congr 2
  · omega
  · congr 1
    omega

/-- **A text of an even number of digits is an encoding.** -/
theorem exists_hexOf (n : ℕ) (text : List UInt8) (hlen : text.length = 2 * n)
    (hdigits : ∀ c ∈ text, IsUpperHex c) : ∃ bs, bs.length = n ∧ hexOf bs = text := by
  induction n generalizing text with
  | zero => exact ⟨[], rfl, (List.eq_nil_of_length_eq_zero hlen).symm⟩
  | succ n ih =>
    match text, hlen with
    | c :: d :: text, hlen =>
      rw [List.length_cons, List.length_cons] at hlen
      obtain ⟨b, hb⟩ := exists_sprintf02X (hdigits c (by simp)) (hdigits d (by simp))
      obtain ⟨bs, hbs, htext⟩ := ih text (by omega) fun c' hc' => hdigits c' (by simp [hc'])
      refine ⟨b :: bs, by rw [List.length_cons, hbs], ?_⟩
      rw [hexOf_cons, hb, htext]
      rfl

/-- The encoder and then the decoder: the bytes, and their number. -/
theorem readBufferHex_base16Encode {h : Host} (hhost : h.Matches) (bs more : List UInt8)
    (size : ℕ) (nBufferOut : ℤ) (hroom : 2 * bs.length < size)
    (hcap : 2 * bs.length ≤ nBufferOut) (hint : nBufferOut < 2 ^ 31) :
    ∃ out nUsed, base16Encode (some (bs ++ more)) bs.length
        (some (List.replicate size 0)) nBufferOut = some (true, some out, nUsed) ∧
      nUsed = 2 * bs.length ∧ readBufferHex h (some out) nUsed = some bs := by
  refine ⟨_, _, base16Encode_zeroed bs more size nBufferOut hroom hcap hint, ?_, ?_⟩
  · exact Nat.cast_mul 2 bs.length
  · rw [readBufferHex_hexOf h bs _ (by omega), if_pos hhost]

/-- The decoder and then the encoder: the text, and a NUL. -/
theorem base16Encode_readBufferHex {h : Host} (hhost : h.Matches) (text more : List UInt8)
    (heven : 2 ∣ text.length) (hdigits : ∀ c ∈ text, IsUpperHex c)
    (size : ℕ) (nBufferOut : ℤ) (hroom : text.length < size)
    (hcap : text.length ≤ nBufferOut) (hint : nBufferOut < 2 ^ 31) :
    ∃ bs rest, readBufferHex h (some (text ++ 0 :: more)) text.length = some bs ∧
      base16Encode (some bs) bs.length (some (List.replicate size 0)) nBufferOut =
        some (true, some (text ++ 0 :: rest), (text.length : ℤ)) := by
  obtain ⟨n, hn⟩ := heven
  obtain ⟨bs, rfl, htext⟩ := exists_hexOf n text hn hdigits
  have hlen : text.length = 2 * bs.length := hn
  have hencode := base16Encode_zeroed bs [] size nBufferOut (by omega) (by omega) hint
  obtain ⟨m, hm⟩ : ∃ m, size - 2 * bs.length = m + 1 := ⟨size - 2 * bs.length - 1, by omega⟩
  refine ⟨bs, List.replicate m 0, ?_, ?_⟩
  · rw [hlen, ← htext, readBufferHex_hexOf h bs _ (by omega), if_pos hhost]
  · rw [List.append_nil, hm, htext, List.replicate_succ] at hencode
    rw [hencode, hlen]

/-- **The hex round trip**, both ways round. -/
theorem hex_round_trip {h : Host} (hhost : h.Matches) :
    (∀ (bs more : List UInt8) (size : ℕ) (nBufferOut : ℤ), 2 * bs.length < size →
      2 * bs.length ≤ nBufferOut → nBufferOut < 2 ^ 31 →
      ∃ out nUsed, base16Encode (some (bs ++ more)) bs.length
          (some (List.replicate size 0)) nBufferOut = some (true, some out, nUsed) ∧
        nUsed = 2 * bs.length ∧ readBufferHex h (some out) nUsed = some bs) ∧
      ∀ (text more : List UInt8), 2 ∣ text.length → (∀ c ∈ text, IsUpperHex c) →
        ∀ (size : ℕ) (nBufferOut : ℤ), text.length < size → text.length ≤ nBufferOut →
          nBufferOut < 2 ^ 31 →
          ∃ bs rest, readBufferHex h (some (text ++ 0 :: more)) text.length = some bs ∧
            base16Encode (some bs) bs.length (some (List.replicate size 0)) nBufferOut =
              some (true, some (text ++ 0 :: rest), (text.length : ℤ)) :=
  ⟨readBufferHex_base16Encode hhost, base16Encode_readBufferHex hhost⟩

/-- The bytes 0x00 and 0xAB, and the text `00AB`, on a little-endian host: the
byte zero does not stop the encoder. -/
theorem hex_round_trip_zero :
    let h : Host := { bigEndian := false, sdkBe := false }
    (∃ out nUsed, base16Encode (some [0x00, 0xAB]) 2 (some [0, 0, 0, 0, 0]) 5 =
        some (true, some out, nUsed) ∧
      nUsed = 4 ∧ readBufferHex h (some out) nUsed = some [0x00, 0xAB]) ∧
      ∃ bs rest, readBufferHex h (some [0x30, 0x30, 0x41, 0x42, 0]) 4 = some bs ∧
        base16Encode (some bs) bs.length (some [0, 0, 0, 0, 0]) 5 =
          some (true, some ([0x30, 0x30, 0x41, 0x42] ++ 0 :: rest), 4) := by
  intro h
  have hhost : h.Matches := rfl
  have hdigits : ∀ c ∈ ([0x30, 0x30, 0x41, 0x42] : List UInt8), IsUpperHex c := by
    simp [IsUpperHex]
  obtain ⟨hbytes, htext⟩ := hex_round_trip hhost
  exact ⟨hbytes [0x00, 0xAB] [] 5 5 (by decide) (by decide) (by omega),
    htext [0x30, 0x30, 0x41, 0x42] [] (by decide) hdigits 5 5 (by decide) (by decide) (by omega)⟩

end LinuxDemo
