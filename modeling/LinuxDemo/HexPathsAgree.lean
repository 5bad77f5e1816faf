/-
LinuxDemo/HexPathsAgree.lean

Do the two functions of `lib/SSLKernelItem.cpp` that write a signature in hex agree?

`ECDSASignBufferBase16ToLicenceFile` encodes with `base16Encode`, which finds the end
of the text with `strcat`; `My_ECDSASignBufferBase16ToLicenceFile` encodes on its own,
and keeps the end of the text in `szOff`.  As long as `szOff` is the length of the text
the two loops do the same (`myBase16Loop_eq`), so the texts are the same.

The lengths are not.  The first one writes as many characters as there are digits, and
the second one leaves in `*nLicLen` the length of the signature, half of that.  So the
two agree only where one of them does not return 1 (`hex_paths_agree_iff`).
-/
import LinuxDemo.Licence

namespace LinuxDemo

variable {Digest Priv : Type*} {sha256 : List UInt8 → Digest}
  {sign : Digest → Priv → Option (List UInt8)}

/-! ### The loops -/

/-- **The two loops do the same** to an array with a string, if the offset is the end of
the string. -/
theorem myBase16Loop_eq (n : ℕ) (buf s rest : List UInt8) (used : ℤ) (hs : ∀ c ∈ s, c ≠ 0) :
    myBase16Loop n buf (s ++ 0 :: rest) s.length =
      (base16Loop n buf (s ++ 0 :: rest) used).map Prod.fst := by
  induction n generalizing buf s rest used with
  | zero => rfl
  | succ n ih =>
    rcases buf with _ | ⟨c, buf⟩
    · rfl
    · rw [myBase16Loop, base16Loop, charByte_eq, sprintfAt_eq_strcat rest _ hs, strcat_eq hs]
      split
      · -- the text goes on, and the offset with it
        rw [Option.bind_some, Option.bind_some, ← List.length_append]
        exact ih buf _ _ _ (ne_zero_append_sprintf02X hs c)
      · rfl

/-- The text of a signature in `szTmp`. -/
theorem myBase16Loop_zeroed (signature more : List UInt8) (hlen : signature.length < 512) :
    ∃ rest, myBase16Loop signature.length (signature ++ more) (List.replicate 1024 0) 0 =
      some (hexOf signature ++ 0 :: rest) := by
  have hloop := base16Loop_spec signature more [] (List.replicate 1023 0) 0 nofun
    (by rw [List.length_replicate]; omega) (by omega)
  have heq := myBase16Loop_eq signature.length (signature ++ more) [] (List.replicate 1023 0)
    ((0 : ℕ) : ℤ) nofun
  rw [hloop] at heq
  exact ⟨_, heq⟩

/-! ### The functions -/

section Functions

variable {bio : Option (Option Priv)} {szBufferData : Option (List UInt8)} {nBufferData : ℤ}
  {signature : List UInt8}

/-- Signing into a larger or a smaller array. -/
theorem ecdsaSignToBuffer_size {size : ℕ}
    (h : ecdsaSignToBuffer sha256 sign bio szBufferData nBufferData size = some (1, signature))
    (size' : ℕ) :
    ecdsaSignToBuffer sha256 sign bio szBufferData nBufferData size' =
      if signature.length ≤ size' then some (1, signature) else none := by
  rcases szBufferData with _ | bufferData
  · cases h
  rcases bio with _ | _ | ec_key
  · cases h
  · cases h
  obtain ⟨data, hdata, h⟩ := Option.bind_eq_some_iff.mp h
  dsimp only [ecdsaSignToBuffer]
  rw [hdata, Option.bind_some]
  rcases hsign : sign (sha256 data) ec_key with _ | s
  · rw [hsign] at h
    cases h
  · rw [hsign] at h
    dsimp only at h ⊢
    split at h
    · cases h
      rfl
    · cases h

/-- The text takes the place of the signature. -/
theorem myECDSASignBufferBase16ToLicenceFile_copies (hlen : signature.length < 512)
    {licenceBuf : List UInt8} (licLen : ℤ)
    (h : ecdsaSignToBuffer sha256 sign bio szBufferData nBufferData licenceBuf.length =
      some (1, signature)) :
    ∃ rest, myECDSASignBufferBase16ToLicenceFile sha256 sign bio szBufferData nBufferData
        (some licenceBuf) (some licLen) =
      (strcpy (signature ++ licenceBuf.drop signature.length)
        (hexOf signature ++ 0 :: rest)).map fun licenceBuf =>
          (1, some licenceBuf, some (signature.length : ℤ)) := by
  have hint : int32 (signature.length : ℕ) = signature.length := int32_eq (by omega) (by omega)
  obtain ⟨rest, hloop⟩ := myBase16Loop_zeroed signature (licenceBuf.drop signature.length) hlen
  refine ⟨rest, ?_⟩
  rw [myECDSASignBufferBase16ToLicenceFile]
  dsimp only
  rw [h, Option.bind_some]
  dsimp only
  rw [if_pos rfl, hint, Int.toNat_natCast, hloop, Option.bind_some]

/-- **What `My_ECDSASignBufferBase16ToLicenceFile` leaves.**  The text, if there is room
for it and its NUL, and the length of the signature. -/
theorem myECDSASignBufferBase16ToLicenceFile_signed (hlen : signature.length < 512)
    (h : ecdsaSignToBuffer sha256 sign bio szBufferData nBufferData 512 = some (1, signature))
    (licenceBuf : List UInt8) (licLen : ℤ) :
    if 2 * signature.length < licenceBuf.length then
      ∃ rest, myECDSASignBufferBase16ToLicenceFile sha256 sign bio szBufferData nBufferData
        (some licenceBuf) (some licLen) =
          some (1, some (hexOf signature ++ 0 :: rest), some (signature.length : ℤ))
    else
      myECDSASignBufferBase16ToLicenceFile sha256 sign bio szBufferData nBufferData
        (some licenceBuf) (some licLen) = none := by
  have hsigned := ecdsaSignToBuffer_size h licenceBuf.length
  by_cases hfits : signature.length ≤ licenceBuf.length
  · rw [if_pos hfits] at hsigned
    obtain ⟨tail, hcopies⟩ := myECDSASignBufferBase16ToLicenceFile_copies hlen licLen hsigned
    have hcopy : (signature ++ licenceBuf.drop signature.length).length = licenceBuf.length := by
      rw [List.length_append, List.length_drop, Nat.add_sub_of_le hfits]
    have htext : cstr (hexOf signature ++ 0 :: tail) = hexOf signature :=
      cstr_terminated tail fun c hc => (mem_hexOf hc).1
    rw [hcopies]
    simp only [strcpy, htext, hcopy, hexOf_length]
    split
    · exact ⟨_, rfl⟩
    · rfl
  · -- the signature itself leaves the array
    rw [if_neg hfits] at hsigned
    rw [if_neg (by omega)]
    simp only [myECDSASignBufferBase16ToLicenceFile, hsigned, Option.bind_none]

end Functions

/-! ### Agreement -/

/-- If both functions return 1, the text in the buffer is what the file holds, and the
length is the number of characters written. -/
def HexPathsAgree (my : Option (ℤ × Option (List UInt8) × Option ℤ))
    (other : Option (ℤ × Option (List UInt8))) : Prop :=
  ∀ szLicenceBuf nLicLen written, my = some (1, some szLicenceBuf, some nLicLen) →
    other = some (1, some written) → cstr szLicenceBuf = written ∧ nLicLen = written.length

/-- A text with the length of its signature disagrees with itself. -/
theorem not_hexPathsAgree {signature szLicenceBuf : List UInt8} {licence : FileOut}
    (hlen : 1 ≤ signature.length) (htext : cstr szLicenceBuf = hexOf signature) :
    ¬ HexPathsAgree (some (1, some szLicenceBuf, some (signature.length : ℤ)))
      (some (1, some (licence.file (hexOf signature)))) := by
  intro hagree
  obtain ⟨hsame, hcount⟩ := hagree _ _ _ rfl rfl
  -- the same text has twice as many characters as the signature has bytes
  rw [← hsame, htext, hexOf_length] at hcount
  omega

/-- **When the two hex paths agree.**  For a signature of 1 to 511 bytes: if the buffer
has room for the text and the file opens, both return 1 with the same text, and the
length is half the number of its characters; so they agree only if one of them does not
return 1. -/
theorem hex_paths_agree_iff (sha256 : List UInt8 → Digest)
    (sign : Digest → Priv → Option (List UInt8)) (bio : Option (Option Priv))
    (szBufferData : Option (List UInt8)) (nBufferData : ℤ) (signature : List UInt8)
    (hsigned : ecdsaSignToBuffer sha256 sign bio szBufferData nBufferData 512 =
      some (1, signature))
    (hlen : 1 ≤ signature.length ∧ signature.length ≤ 511) (licenceBuf : List UInt8)
    (licLen : ℤ) (licence : FileOut) :
    (2 * signature.length < licenceBuf.length ∧ licence.fopen = true →
      ∃ szLicenceBuf text, cstr szLicenceBuf = text ∧ text.length = 2 * signature.length ∧
        myECDSASignBufferBase16ToLicenceFile sha256 sign bio szBufferData nBufferData
          (some licenceBuf) (some licLen) =
            some (1, some szLicenceBuf, some (signature.length : ℤ)) ∧
        ecdsaSignBufferBase16ToLicenceFile sha256 sign bio szBufferData nBufferData licence =
          some (1, some (licence.file text))) ∧
      (HexPathsAgree
          (myECDSASignBufferBase16ToLicenceFile sha256 sign bio szBufferData nBufferData
            (some licenceBuf) (some licLen))
          (ecdsaSignBufferBase16ToLicenceFile sha256 sign bio szBufferData nBufferData
            licence) ↔
        ¬ (2 * signature.length < licenceBuf.length ∧ licence.fopen = true)) := by
  have hmy := myECDSASignBufferBase16ToLicenceFile_signed (by omega) hsigned licenceBuf licLen
  have hother := ecdsaSignBufferBase16ToLicenceFile_signed licence hsigned
  rw [if_pos (show signature.length < 512 by omega)] at hother
  by_cases hboth : 2 * signature.length < licenceBuf.length ∧ licence.fopen = true
  · rw [if_pos hboth.1] at hmy
    rw [if_pos hboth.2] at hother
    obtain ⟨rest, hmy⟩ := hmy
    have htext : cstr (hexOf signature ++ 0 :: rest) = hexOf signature :=
      cstr_terminated rest fun c hc => (mem_hexOf hc).1
    refine ⟨fun _ => ⟨_, _, htext, hexOf_length signature, hmy, hother⟩, ?_⟩
    rw [hmy, hother]
    exact iff_of_false (not_hexPathsAgree hlen.1 htext) (not_not.mpr hboth)
  · refine ⟨fun h => absurd h hboth, iff_of_true ?_ hboth⟩
    intro szLicenceBuf nLicLen written hmy' hother'
    by_cases hroom : 2 * signature.length < licenceBuf.length
    · -- the file was not opened
      rw [hother, if_neg fun hopen => hboth ⟨hroom, hopen⟩] at hother'
      cases hother'
    · rw [if_neg hroom] at hmy
      rw [hmy] at hmy'
      cases hmy'

/-- A DER signature of 8 bytes. -/
def derSignature : List UInt8 := [0x30, 0x06, 0x02, 0x01, 0x0A, 0x02, 0x01, 0x01]

/-- The digest of the one byte `A`. -/
def digestOfA : ℕ := 0x559aead08264d5795d3909718cdd05abd49572e84fe55590eef31a88a08fdffd

theorem signs_derSignature :
    ecdsaSignToBuffer (fun _ => digestOfA) (fun _ (_ : Unit) => some derSignature) (some (some ()))
      (some [0x41]) 1 512 = some (1, derSignature) := rfl

/-- Signing `A` with a buffer of 32 bytes: both paths give the same 16 characters. -/
theorem hex_paths_agree_text :
    ∃ szLicenceBuf text, cstr szLicenceBuf = text ∧ text.length = 16 ∧
      myECDSASignBufferBase16ToLicenceFile (fun _ => digestOfA)
        (fun _ (_ : Unit) => some derSignature) (some (some ())) (some [0x41]) 1
        (some (List.replicate 32 0)) (some 0) = some (1, some szLicenceBuf, some 8) ∧
      ecdsaSignBufferBase16ToLicenceFile (fun _ => digestOfA)
        (fun _ (_ : Unit) => some derSignature) (some (some ())) (some [0x41]) 1 .complete =
          some (1, some (FileOut.complete.file text)) :=
  (hex_paths_agree_iff _ _ _ _ _ derSignature signs_derSignature (by decide)
    (List.replicate 32 0) 0 .complete).1 (by decide)

/-- They do not agree: `*nLicLen` is 8. -/
theorem hex_paths_lengths_differ :
    ¬ HexPathsAgree
      (myECDSASignBufferBase16ToLicenceFile (fun _ => digestOfA)
        (fun _ (_ : Unit) => some derSignature) (some (some ())) (some [0x41]) 1
        (some (List.replicate 32 0)) (some 0))
      (ecdsaSignBufferBase16ToLicenceFile (fun _ => digestOfA)
        (fun _ (_ : Unit) => some derSignature) (some (some ())) (some [0x41]) 1 .complete) := by
  intro hagree
  obtain ⟨rest, hmy⟩ := myECDSASignBufferBase16ToLicenceFile_signed (by decide) signs_derSignature
    (List.replicate 32 0) 0
  have hother := ecdsaSignBufferBase16ToLicenceFile_signed .complete signs_derSignature
  obtain ⟨-, hcount⟩ := hagree _ _ _ hmy hother
  exact absurd hcount (by decide)

end LinuxDemo
