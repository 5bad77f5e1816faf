/-
LinuxDemo/LicenceRoundTrip.lean

When does a licence that was just written pass its check?

The assumption on OpenSSL is `Matching`: `ECDSA_verify` returns 1 on what
`ECDSA_sign` produced for the same digest under the other key.  So the check
passes exactly if it is made on the digest and the signature of the signing.
The two formats fail on different sides.

* A raw licence is written as it is and read through `ReadFileECC`, which
  drops the bytes 0x0A and 0x0D: the signature must not contain them.
* A base16 licence survives the reading.  But the signing digests the buffer,
  and the check digests the filtered file: the digest must not see the
  difference.  And the decoder must be built for its host.

Each theorem is about one data file and one signature, and all pairs of
functions that produce and accept it.
-/
import LinuxDemo.Licence

namespace LinuxDemo

variable {Digest Priv Pub : Type*}

/-- `ECDSA_verify` accepts what `ECDSA_sign` produces for the same digest. -/
def Matching (sign : Digest → Priv → Option (List UInt8))
    (verify : Digest → List UInt8 → Pub → ℤ) (priv : Priv) (pub : Pub) : Prop :=
  ∀ digest signature, sign digest priv = some signature → verify digest signature pub = 1

section Only

variable [DecidableEq Digest]

/-- Signs one digest, with one signature. -/
def signOnly (digest : Digest) (signature : List UInt8) : Digest → Priv → Option (List UInt8) :=
  fun d _ => if d = digest then some signature else none

/-- Accepts this signature for this digest, and nothing else. -/
def acceptOnly (digest : Digest) (signature : List UInt8) : Digest → List UInt8 → Pub → ℤ :=
  fun d s _ => if d = digest ∧ s = signature then 1 else 0

theorem signOnly_self (digest : Digest) (signature : List UInt8) (priv : Priv) :
    signOnly digest signature digest priv = some signature :=
  if_pos rfl

theorem acceptOnly_eq_one_iff {digest d : Digest} {signature s : List UInt8} {pub : Pub} :
    acceptOnly digest signature d s pub = 1 ↔ d = digest ∧ s = signature := by
  rw [acceptOnly]
  split
  · rename_i h
    exact iff_of_true rfl h
  · rename_i h
    exact iff_of_false (by decide) h

theorem acceptOnly_of_ne {digest d : Digest} {signature s : List UInt8} (pub : Pub)
    (h : ¬ (d = digest ∧ s = signature)) : acceptOnly digest signature d s pub = 0 :=
  if_neg h

/-- The least pair that produces a signature for a digest. -/
theorem matching_only (digest : Digest) (signature : List UInt8) (priv : Priv) (pub : Pub) :
    Matching (signOnly digest signature) (acceptOnly digest signature) priv pub := by
  intro d s hs
  rw [signOnly] at hs
  split at hs
  · rename_i hd
    exact acceptOnly_eq_one_iff.mpr ⟨hd, (Option.some.inj hs).symm⟩
  · cases hs

end Only

/-- No carriage return and no line feed. -/
def NoCrLf (bs : List UInt8) : Prop := ∀ c ∈ bs, isCrLf c = false

theorem dropCrLf_eq_self_iff {bs : List UInt8} : dropCrLf bs = bs ↔ NoCrLf bs := by
  rw [dropCrLf, unskipped, List.filter_eq_self]
  simp only [NoCrLf, Bool.not_eq_true']

theorem noCrLf_hexOf (bs : List UInt8) : NoCrLf (hexOf bs) := by
  intro c hc
  obtain ⟨-, hlf, hcr⟩ := mem_hexOf hc
  simp only [isCrLf, hlf, hcr, or_self, decide_false]

/-- A short file is read to its end. -/
theorem reach_of_lt {bs : List UInt8} (h : bs.length < 2 ^ 31) : reach bs = bs := by
  rw [reach, int32_eq (by omega) (by omega), Int.toNat_natCast, List.take_length]

theorem int32_length_nonneg {bs : List UInt8} (h : bs.length < 2 ^ 31) :
    0 ≤ int32 bs.length := by
  rw [int32_eq (by omega) (by omega)]
  exact Int.natCast_nonneg _

/-- A buffer whose length does not fit an `int` is not digested. -/
theorem bytesAt_int32 (bs : List UInt8) :
    bytesAt bs (int32 bs.length) = if int32 bs.length < 0 then none else some (reach bs) := by
  have hle : int32 bs.length ≤ bs.length := int32_le (Int.natCast_nonneg _)
  rw [bytesAt]
  by_cases h : int32 bs.length < 0
  · rw [if_pos h, if_neg (by omega)]
  · rw [if_neg h, if_pos ⟨by omega, hle⟩]
    rfl

/-! ### Raw licences -/

section Raw

variable {sha256 : List UInt8 → Digest} {sign : Digest → Priv → Option (List UInt8)}
  {verify : Digest → List UInt8 → Pub → ℤ} {priv : Priv} {D sig : List UInt8}

/-- What signing a file writes. -/
theorem ecdsaSignFileToLicenceFile_of
    (hsign : sign (sha256 (dropCrLf (reach D))) priv = some sig) :
    ecdsaSignFileToLicenceFile sha256 sign (some (some priv)) (.of D) .complete =
      if int32 D.length < 0 then some (-1, none)
      else if sig.length ≤ 1024 then some (1, some sig) else none := by
  by_cases hneg : int32 D.length < 0
  · rw [if_pos hneg, ecdsaSignFileToLicenceFile, readFileECC_of_neg hneg]
    rfl
  · obtain ⟨buf, hread, htake⟩ := readFileECC_of (Int.not_lt.mp hneg)
    have hbytes := bytesAt_of_take htake rfl
    rw [if_neg hneg, ecdsaSignFileToLicenceFile, hread]
    simp only [ne_eq, not_true_eq_false, if_false, ecdsaSignToBuffer, hbytes, Option.bind_some,
      hsign]
    split
    · simp only [Option.map_some, FileOut.complete, FileOut.file, Option.elim_none,
        List.take_length, and_self, if_true]
    · rfl

/-- What the check of a file looks at. -/
theorem ecdsaVerifyLicenceFile_of {L : List UInt8} (pub : Pub) (hD : 0 ≤ int32 D.length)
    (hL : 0 ≤ int32 L.length) :
    ecdsaVerifyLicenceFile sha256 verify (some pub) (.of D) (.of L) =
      some (verify (sha256 (dropCrLf (reach D))) (dropCrLf (reach L)) pub) := by
  obtain ⟨buf, hread, htake⟩ := readFileECC_of hD
  obtain ⟨buf', hread', htake'⟩ := readFileECC_of hL
  rw [ecdsaVerifyLicenceFile, hread, hread']
  simp only [ne_eq, not_true_eq_false, if_false, ecdsaVerifyLicenceBuffer, Option.getD_some,
    bytesAt_of_take htake rfl, bytesAt_of_take htake' rfl, Option.bind_some, Option.map_some]

end Raw

/-- **When a raw licence verifies.**  For a data file `D` and a signature, every
matching pair that produces the signature for `D` accepts the licence file that
signing writes, exactly if the signature contains neither 0x0A nor 0x0D; or
else signing does not return 1, since the length of `D` is negative as an `int`
or the signature is longer than its array. -/
theorem raw_licence_verifies_iff (sha256 : List UInt8 → Digest) (priv : Priv) (pub : Pub)
    (D sig : List UInt8) :
    (∀ (sign : Digest → Priv → Option (List UInt8)) (verify : Digest → List UInt8 → Pub → ℤ),
        Matching sign verify priv pub →
        sign (sha256 (dropCrLf (reach D))) priv = some sig →
        ∀ L, ecdsaSignFileToLicenceFile sha256 sign (some (some priv)) (.of D) .complete =
            some (1, some L) →
          ecdsaVerifyLicenceFile sha256 verify (some pub) (.of D) (.of L) = some 1) ↔
      int32 D.length < 0 ∨ 1024 < sig.length ∨ NoCrLf sig := by
  classical
  constructor
  · intro hall
    by_contra hcon
    rw [not_or, not_or] at hcon
    obtain ⟨hD, hlen, hsig⟩ := hcon
    have hlt : sig.length < 2 ^ 31 := by omega
    -- the pair that knows this one signature accepts only what is read back whole
    have hsign := signOnly_self (sha256 (dropCrLf (reach D))) sig priv
    have hverify := hall _ _ (matching_only _ sig priv pub) hsign sig
      (by rw [ecdsaSignFileToLicenceFile_of hsign, if_neg hD, if_pos (by omega)])
    rw [ecdsaVerifyLicenceFile_of pub (Int.not_lt.mp hD) (int32_length_nonneg hlt),
      reach_of_lt hlt] at hverify
    have hdrop : dropCrLf sig = sig := (acceptOnly_eq_one_iff.mp (Option.some.inj hverify)).2
    apply hsig
    exact dropCrLf_eq_self_iff.mp hdrop
  · intro hcond sign verify hmatch hsign L hL
    rw [ecdsaSignFileToLicenceFile_of hsign] at hL
    split at hL
    · cases hL
    · rename_i hD
      split at hL
      · rename_i hlen
        cases hL
        -- signing returned 1, so only the last condition is left
        have hsig : NoCrLf sig :=
          (hcond.resolve_left hD).resolve_left (not_lt.mpr hlen)
        have hlt : sig.length < 2 ^ 31 := by omega
        rw [ecdsaVerifyLicenceFile_of pub (Int.not_lt.mp hD) (int32_length_nonneg hlt),
          reach_of_lt hlt, dropCrLf_eq_self_iff.mpr hsig, hmatch _ _ hsign]
      · cases hL

/-- The file `A`, with its SHA-256, and a DER signature that contains 0x0A. -/
theorem raw_licence_rejected :
    let digest := 0x559aead08264d5795d3909718cdd05abd49572e84fe55590eef31a88a08fdffd
    let sha256 := fun _ : List UInt8 => digest
    let sig := [0x30, 0x06, 0x02, 0x01, 0x0A, 0x02, 0x01, 0x01]
    let verify : ℕ → List UInt8 → Unit → ℤ := acceptOnly digest sig
    Matching (signOnly digest sig) verify () () ∧
      ecdsaSignFileToLicenceFile sha256 (signOnly digest sig) (some (some ()))
        (.of [0x41]) .complete = some (1, some sig) ∧
      ecdsaVerifyLicenceFile sha256 verify (some ()) (.of [0x41]) (.of sig) =
        some 0 := by
  intro digest sha256 sig verify
  have hD : ¬ int32 ([0x41] : List UInt8).length < 0 := by decide
  have hlt : sig.length < 2 ^ 31 := by decide
  have hsign : signOnly digest sig (sha256 (dropCrLf (reach [0x41]))) () = some sig :=
    signOnly_self digest sig ()
  have hshort : dropCrLf sig ≠ sig := by decide
  refine ⟨matching_only digest sig () (), ?_, ?_⟩
  · rw [ecdsaSignFileToLicenceFile_of hsign, if_neg hD]
    exact if_pos (by decide)
  · rw [ecdsaVerifyLicenceFile_of () (Int.not_lt.mp hD) (int32_length_nonneg hlt),
      reach_of_lt hlt]
    exact congrArg some (acceptOnly_of_ne () fun h => hshort h.2)

/-! ### Base16 licences -/

section Base16

variable {sha256 : List UInt8 → Digest} {sign : Digest → Priv → Option (List UInt8)}
  {verify : Digest → List UInt8 → Pub → ℤ} {priv : Priv} {D sig : List UInt8}

/-- What signing a buffer writes. -/
theorem ecdsaSignBufferBase16ToLicenceFile_of
    (hsign : sign (sha256 (reach D)) priv = some sig) (hlen : sig.length ≤ 511) :
    ecdsaSignBufferBase16ToLicenceFile sha256 sign (some (some priv)) (some D) (int32 D.length)
        .complete =
      if int32 D.length < 0 then none else some (1, some (hexOf sig)) := by
  have hfits : sig.length ≤ 512 := by omega
  have hsigned : ecdsaSignToBuffer sha256 sign (some (some priv)) (some D) (int32 D.length) 512 =
      if int32 D.length < 0 then none else some (1, sig) := by
    simp only [ecdsaSignToBuffer, bytesAt_int32]
    split
    · rfl
    · simp only [Option.bind_some, hsign, if_pos hfits]
  by_cases hneg : int32 D.length < 0
  · rw [if_pos hneg] at hsigned ⊢
    rw [ecdsaSignBufferBase16ToLicenceFile, hsigned]
    exact Option.bind_none _
  · rw [if_neg hneg] at hsigned ⊢
    have hlt : sig.length < 512 := by omega
    rw [ecdsaSignBufferBase16ToLicenceFile_signed .complete hsigned, if_pos hlt]
    simp only [FileOut.complete, if_true, FileOut.file, Option.elim_none, List.take_length]

/-- The text of a signature is decoded into a block of twice its length and five. -/
theorem decodeLicence_hexOf (h : Host) (more : List UInt8) (hlen : sig.length ≤ 511) :
    decodeLicence h enoughMemory (some (hexOf sig ++ more)) ((2 * sig.length : ℕ) : ℤ) =
      (4 * sig.length + 5,
        some (if h.Matches then sig else List.replicate sig.length 0)) := by
  have hsize : sizeT (int32 (((2 * sig.length : ℕ) : ℤ) * 2 + 5)) = 4 * sig.length + 5 := by
    rw [int32_eq (by omega) (by omega), sizeT_eq (by omega) (by omega)]
    omega
  have hmalloc : enoughMemory (4 * sig.length + 5) = true := by
    rw [enoughMemory, PTRDIFF_MAX, decide_eq_true_eq]
    omega
  simp only [decodeLicence, hsize, hmalloc, if_true]
  rw [readBufferHex_hexOf h sig more (by omega)]

/-- What the check of a base16 licence looks at. -/
theorem ecdsaVerifyBase16LicenceFile_of (h : Host) (pub : Pub) (hD : 0 ≤ int32 D.length)
    (hlen : sig.length ≤ 511) :
    ecdsaVerifyBase16LicenceFile sha256 verify h (some pub) (.of D) (.of (hexOf sig))
        enoughMemory =
      some (verify (sha256 (dropCrLf (reach D)))
        (if h.Matches then sig else List.replicate sig.length 0) pub) := by
  -- the text has no line ends, so it is read back whole
  have htext : dropCrLf (reach (hexOf sig)) = hexOf sig := by
    rw [reach_of_lt (by rw [hexOf_length]; omega)]
    exact dropCrLf_eq_self_iff.mpr (noCrLf_hexOf sig)
  obtain ⟨buf, hread, htake⟩ := readFileECC_of hD
  have hhexlen : 0 ≤ int32 (hexOf sig).length :=
    int32_length_nonneg (by rw [hexOf_length]; omega)
  obtain ⟨buf', hread', htake'⟩ := readFileECC_of hhexlen
  rw [htext, hexOf_length] at hread' htake'
  have hdecode := decodeLicence_hexOf h (buf'.drop (2 * sig.length)) hlen
  nth_rewrite 1 [← htake'] at hdecode
  rw [List.take_append_drop] at hdecode
  generalize hdecoded : (if h.Matches then sig else List.replicate sig.length 0) = decoded
  rw [hdecoded] at hdecode
  have hroom : decoded.length ≤ 4 * sig.length + 5 := by
    have hcount : decoded.length = sig.length := by
      rw [← hdecoded]
      split
      · rfl
      · exact List.length_replicate
    omega
  rw [ecdsaVerifyBase16LicenceFile, hread, hread']
  simp only [ne_eq, not_true_eq_false, if_false, hdecode, hroom, if_true, ecdsaVerifyLicenceBuffer,
    Option.getD_some, bytesAt_of_take htake rfl, bytesAt_of_take List.take_length rfl,
    Option.bind_some, Option.map_some]

end Base16

theorem replicate_zero_eq_iff {bs : List UInt8} :
    List.replicate bs.length 0 = bs ↔ ∀ c ∈ bs, c = 0 := by
  rw [eq_comm, List.eq_replicate_iff]
  exact and_iff_right rfl

/-- **When a base16 licence verifies.**  For a data buffer `D`, a file with the
same content and a signature that fits, every matching pair that produces the
signature for `D` accepts the licence that signing writes, exactly if the
digest does not see the bytes 0x0A and 0x0D of `D`, and the decoder is built for
its host (or the signature is nothing but zeros); or else signing has no
result, since the length of `D` is negative as an `int`. -/
theorem base16_licence_verifies_iff (sha256 : List UInt8 → Digest) (host : Host) (priv : Priv)
    (pub : Pub) (D sig : List UInt8) (hlen : sig.length ≤ 511) :
    (∀ (sign : Digest → Priv → Option (List UInt8)) (verify : Digest → List UInt8 → Pub → ℤ),
        Matching sign verify priv pub →
        sign (sha256 (reach D)) priv = some sig →
        ∀ L, ecdsaSignBufferBase16ToLicenceFile sha256 sign (some (some priv)) (some D)
              (int32 D.length) .complete = some (1, some L) →
          ecdsaVerifyBase16LicenceFile sha256 verify host (some pub) (.of D) (.of L)
            enoughMemory = some 1) ↔
      int32 D.length < 0 ∨
        sha256 (dropCrLf (reach D)) = sha256 (reach D) ∧ (host.Matches ∨ ∀ c ∈ sig, c = 0) := by
  classical
  constructor
  · intro hall
    apply or_iff_not_imp_left.mpr
    intro hD
    -- the pair that knows this one digest and signature accepts nothing else
    have hsign := signOnly_self (sha256 (reach D)) sig priv
    have hverify := hall _ _ (matching_only _ sig priv pub) hsign (hexOf sig)
      (by rw [ecdsaSignBufferBase16ToLicenceFile_of hsign hlen, if_neg hD])
    rw [ecdsaVerifyBase16LicenceFile_of host pub (Int.not_lt.mp hD) hlen] at hverify
    have hseen := acceptOnly_eq_one_iff.mp (Option.some.inj hverify)
    refine ⟨hseen.1, ?_⟩
    by_cases hhost : host.Matches
    · exact .inl hhost
    · rw [if_neg hhost] at hseen
      exact .inr (replicate_zero_eq_iff.mp hseen.2)
  · intro hcond sign verify hmatch hsign L hL
    rw [ecdsaSignBufferBase16ToLicenceFile_of hsign hlen] at hL
    split at hL
    · cases hL
    · rename_i hD
      have htext : hexOf sig = L := Option.some.inj (Prod.mk.inj (Option.some.inj hL)).2
      obtain ⟨hdigest, hdecodes⟩ := hcond.resolve_left hD
      have hdecoded : (if host.Matches then sig else List.replicate sig.length 0) = sig := by
        split
        · rfl
        · rename_i hhost
          exact replicate_zero_eq_iff.mpr (hdecodes.resolve_left hhost)
      rw [← htext, ecdsaVerifyBase16LicenceFile_of host pub (Int.not_lt.mp hD) hlen, hdecoded,
        hdigest, hmatch _ _ hsign]

/-- The file `A` and the signature of before: in base16 it is accepted. -/
theorem base16_licence_accepted :
    let digest := 0x559aead08264d5795d3909718cdd05abd49572e84fe55590eef31a88a08fdffd
    let sha256 := fun _ : List UInt8 => digest
    let sig := [0x30, 0x06, 0x02, 0x01, 0x0A, 0x02, 0x01, 0x01]
    let verify : ℕ → List UInt8 → Unit → ℤ := acceptOnly digest sig
    ecdsaVerifyBase16LicenceFile sha256 verify
      { bigEndian := false, sdkBe := false } (some ()) (.of [0x41]) (.of (hexOf sig))
      enoughMemory = some 1 := by
  intro digest sha256 sig verify
  have hD : ¬ int32 ([0x41] : List UInt8).length < 0 := by decide
  have hlen : sig.length ≤ 511 := by decide
  have hsign : signOnly digest sig (sha256 (reach [0x41])) () = some sig :=
    signOnly_self digest sig ()
  apply (base16_licence_verifies_iff sha256 { bigEndian := false, sdkBe := false }
    () () [0x41] sig hlen).mpr (.inr ⟨rfl, .inl rfl⟩) _ _ (matching_only digest sig () ()) hsign
  rw [ecdsaSignBufferBase16ToLicenceFile_of hsign hlen, if_neg hD]

/-- A file that holds one line feed, with its SHA-256 and that of no bytes: the
licence of the buffer is rejected for the file. -/
theorem base16_licence_rejected :
    let digest := 0x01ba4719c80b6fe911b091a7c05124b64eeece964e09c058ef8f9805daca546b
    let sha256 := fun bs : List UInt8 => if bs = [0x0A] then digest
      else 0xe3b0c44298fc1c149afbf4c8996fb92427ae41e4649b934ca495991b7852b855
    let sig := [0x30, 0x06, 0x02, 0x01, 0x02, 0x02, 0x01, 0x01]
    let verify : ℕ → List UInt8 → Unit → ℤ := acceptOnly digest sig
    Matching (signOnly digest sig) verify () () ∧
      ecdsaSignBufferBase16ToLicenceFile sha256 (signOnly digest sig) (some (some ()))
        (some [0x0A]) (int32 ([0x0A] : List UInt8).length) .complete =
          some (1, some (hexOf sig)) ∧
      ecdsaVerifyBase16LicenceFile sha256 verify { bigEndian := false, sdkBe := false }
        (some ()) (.of [0x0A]) (.of (hexOf sig)) enoughMemory = some 0 := by
  intro digest sha256 sig verify
  have hD : ¬ int32 ([0x0A] : List UInt8).length < 0 := by decide
  have hlen : sig.length ≤ 511 := by decide
  have hsign : signOnly digest sig (sha256 (reach [0x0A])) () = some sig :=
    signOnly_self digest sig ()
  have hother : sha256 (dropCrLf (reach [0x0A])) ≠ digest := by decide
  refine ⟨matching_only digest sig () (), ?_, ?_⟩
  · rw [ecdsaSignBufferBase16ToLicenceFile_of hsign hlen, if_neg hD]
  · rw [ecdsaVerifyBase16LicenceFile_of _ () (Int.not_lt.mp hD) hlen]
    exact congrArg some (acceptOnly_of_ne () fun h => hother h.1)

end LinuxDemo
