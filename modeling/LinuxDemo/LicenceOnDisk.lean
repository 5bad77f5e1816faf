/-
LinuxDemo/LicenceOnDisk.lean

When does the result 1 of a signing function mean that the licence is on disk?

The three functions sign into an array, open the licence file and write.  The
two that write the signature as it is return 1 even if the file was not opened;
the one that writes base16 returns 0 then.  None of them looks at the count of
`fwrite`.  So the raw licence is on disk if the file was opened and took all of
it, and the base16 licence if the file, when it was opened, took all of it.

The file may have held something before.  `old` is what it held, if it was
there; a file that is not opened keeps it.
-/
import LinuxDemo.Licence
import Mathlib.Data.List.TakeDrop

namespace LinuxDemo

variable {Digest Priv : Type*}

/-- `fwrite` does not stop before the end of `bs`. -/
def FileOut.Takes (f : FileOut) (bs : List UInt8) : Prop := ∀ m, f.fwrite = some m → bs.length ≤ m

theorem FileOut.file_eq_iff {f : FileOut} {bs : List UInt8} : f.file bs = bs ↔ f.Takes bs := by
  rw [FileOut.file, FileOut.Takes]
  rcases f.fwrite with _ | m
  · exact iff_of_true List.take_length nofun
  · rw [Option.elim_some, List.take_eq_self_iff]
    constructor
    · intro hle m' hm'
      rw [← Option.some.inj hm']
      exact hle.trans (Nat.min_le_right _ _)
    · intro hall
      exact Nat.le_min.mpr ⟨Nat.le_refl _, hall m rfl⟩

/-- The result 1 means that the file holds the encoding `enc` of the signature:
`signed` is what signing into the array gave, and `r` the result with what was
written. -/
def SuccessOnDisk (enc : List UInt8 → List UInt8) (old : Option (List UInt8))
    (signed : Option (ℤ × List UInt8)) (r : Option (ℤ × Option (List UInt8))) : Prop :=
  ∀ written, r = some (1, written) →
    ∃ signature, signed = some (1, signature) ∧ written.or old = some (enc signature)

/-- The condition for the signature as it is. -/
def RawTaken (licence : FileOut) (old : Option (List UInt8)) (signed : Option (ℤ × List UInt8)) :
    Prop :=
  ∀ signature, signed = some (1, signature) →
    if licence.fopen then licence.Takes signature else old = some signature

/-- The condition for base16.  A signature that fills its array overflows the
array for the text, and there is no result. -/
def Base16Taken (licence : FileOut) (signed : Option (ℤ × List UInt8)) : Prop :=
  ∀ signature, signed = some (1, signature) → signature.length < 512 → licence.fopen →
    licence.Takes (hexOf signature)

/-- A raw licence, from any way of signing. -/
theorem raw_on_disk_iff (licence : FileOut) (old : Option (List UInt8))
    (signed : Option (ℤ × List UInt8)) :
    SuccessOnDisk id old signed (signed.map fun (nRet, signature) =>
        (nRet, if nRet = 1 ∧ licence.fopen then some (licence.file signature) else none)) ↔
      RawTaken licence old signed := by
  rcases signed with _ | ⟨nRet, signature⟩
  · exact iff_of_true nofun nofun
  · simp only [SuccessOnDisk, RawTaken, Option.map_some, Option.some.injEq, Prod.mk.injEq]
    by_cases hret : nRet = 1
    · subst hret
      rcases hopen : licence.fopen with _ | _
      · -- the file is as it was
        simp
      · simp [FileOut.file_eq_iff]
    · -- another result
      constructor
      · rintro - s ⟨h, -⟩
        exact absurd h hret
      · rintro - w ⟨h, -⟩
        exact absurd h hret

section Functions

variable (sha256 : List UInt8 → Digest) (sign : Digest → Priv → Option (List UInt8))

/-- A base16 licence. -/
theorem base16_on_disk_iff (bio : Option (Option Priv)) (szBufferData : Option (List UInt8))
    (nBufferData : ℤ) (licence : FileOut) (old : Option (List UInt8)) :
    SuccessOnDisk hexOf old (ecdsaSignToBuffer sha256 sign bio szBufferData nBufferData 512)
        (ecdsaSignBufferBase16ToLicenceFile sha256 sign bio szBufferData nBufferData licence) ↔
      Base16Taken licence
        (ecdsaSignToBuffer sha256 sign bio szBufferData nBufferData 512) := by
  by_cases hok : ∃ signature,
      ecdsaSignToBuffer sha256 sign bio szBufferData nBufferData 512 = some (1, signature)
  · obtain ⟨signature, hsigned⟩ := hok
    rw [SuccessOnDisk, Base16Taken,
      ecdsaSignBufferBase16ToLicenceFile_signed licence hsigned, hsigned]
    simp only [Option.some.injEq, Prod.mk.injEq, true_and, forall_eq', exists_eq_left']
    rcases hopen : licence.fopen with _ | _
    · -- the result is 0
      simp
    · by_cases hlt : signature.length < 512
      · simp [hlt, FileOut.file_eq_iff]
      · simp [hlt]
  · -- another result of signing is handed on
    rw [not_exists] at hok
    have hret : ∀ written, ecdsaSignBufferBase16ToLicenceFile sha256 sign bio szBufferData
        nBufferData licence ≠ some (1, written) := by
      intro written hres
      rw [ecdsaSignBufferBase16ToLicenceFile] at hres
      obtain ⟨⟨nRet, signature⟩, hsigned, hres⟩ := Option.bind_eq_some_iff.mp hres
      have hne : nRet ≠ 1 := by
        rintro rfl
        exact hok signature hsigned
      simp only [if_neg hne, Option.some.injEq, Prod.mk.injEq] at hres
      exact hne hres.1
    constructor
    · rintro - signature hsigned
      exact absurd hsigned (hok signature)
    · rintro - written hres
      exact absurd hres (hret written)

/-- What signing a file gives in the array. -/
def ecdsaSignFileToBuffer (bio : Option (Option Priv)) (dataFile : FileIn) :
    Option (ℤ × List UInt8) :=
  let (ret, szDataFile, nFileLen) := readFileECC dataFile
  if ret ≠ 1 then some (-1, [])
  else ecdsaSignToBuffer sha256 sign bio szDataFile nFileLen 1024

theorem ecdsaSignFileToLicenceFile_eq (bio : Option (Option Priv)) (dataFile : FileIn)
    (licence : FileOut) :
    ecdsaSignFileToLicenceFile sha256 sign bio dataFile licence =
      (ecdsaSignFileToBuffer sha256 sign bio dataFile).map fun (nRet, signature) =>
        (nRet, if nRet = 1 ∧ licence.fopen then some (licence.file signature) else none) := by
  rw [ecdsaSignFileToLicenceFile, ecdsaSignFileToBuffer]
  rcases readFileECC dataFile with ⟨ret, szDataFile, nFileLen⟩
  by_cases hret : ret = 1
  · simp only [hret, ne_eq, not_true_eq_false, if_false]
  · simp [hret]

/-- **When success means that the licence is on disk**, for the three functions
and every outcome of their steps. -/
theorem licence_on_disk_iff (bio : Option (Option Priv)) (szBufferData : Option (List UInt8))
    (nBufferData : ℤ) (dataFile : FileIn) (licence : FileOut) (old : Option (List UInt8)) :
    (SuccessOnDisk id old (ecdsaSignToBuffer sha256 sign bio szBufferData nBufferData 1024)
          (ecdsaSignBufferToLicenceFile sha256 sign bio szBufferData nBufferData licence) ↔
        RawTaken licence old
          (ecdsaSignToBuffer sha256 sign bio szBufferData nBufferData 1024)) ∧
      (SuccessOnDisk id old (ecdsaSignFileToBuffer sha256 sign bio dataFile)
          (ecdsaSignFileToLicenceFile sha256 sign bio dataFile licence) ↔
        RawTaken licence old (ecdsaSignFileToBuffer sha256 sign bio dataFile)) ∧
      (SuccessOnDisk hexOf old
          (ecdsaSignToBuffer sha256 sign bio szBufferData nBufferData 512)
          (ecdsaSignBufferBase16ToLicenceFile sha256 sign bio szBufferData nBufferData
            licence) ↔
        Base16Taken licence
          (ecdsaSignToBuffer sha256 sign bio szBufferData nBufferData 512)) := by
  refine ⟨?_, ?_, ?_⟩
  · exact raw_on_disk_iff licence old _
  · rw [ecdsaSignFileToLicenceFile_eq]
    exact raw_on_disk_iff licence old _
  · exact base16_on_disk_iff sha256 sign bio szBufferData nBufferData licence old

end Functions

/-- Signing the file `A`: the licence cannot be opened, and the raw functions
return 1 with no licence there; the base16 one returns 0.  A full disk takes
one byte, and it returns 1. -/
theorem licence_not_on_disk :
    let sha256 : List UInt8 → ℕ :=
      fun _ => 0x559aead08264d5795d3909718cdd05abd49572e84fe55590eef31a88a08fdffd
    let sig : List UInt8 := [0x30, 0x06, 0x02, 0x01, 0x0A, 0x02, 0x01, 0x01]
    let sign : ℕ → Unit → Option (List UInt8) := fun _ _ => some sig
    let unopened : FileOut := { fopen := false, fwrite := none }
    let full : FileOut := { fopen := true, fwrite := some 1 }
    ecdsaSignBufferToLicenceFile sha256 sign (some (some ())) (some [0x41]) 1 unopened =
        some (1, none) ∧
      ecdsaSignFileToLicenceFile sha256 sign (some (some ())) (.of [0x41]) unopened =
        some (1, none) ∧
      ecdsaSignBufferBase16ToLicenceFile sha256 sign (some (some ())) (some [0x41]) 1
        unopened = some (0, none) ∧
      ecdsaSignBufferBase16ToLicenceFile sha256 sign (some (some ())) (some [0x41]) 1
        full = some (1, some [0x33]) ∧
      ¬ SuccessOnDisk id none
        (ecdsaSignToBuffer sha256 sign (some (some ())) (some [0x41]) 1 1024)
        (ecdsaSignBufferToLicenceFile sha256 sign (some (some ())) (some [0x41]) 1
          unopened) := by
  intro sha256 sig sign unopened full
  have hsigned : ecdsaSignToBuffer sha256 sign (some (some ())) (some [0x41]) 1 512 =
      some (1, sig) := rfl
  have hraw : ecdsaSignBufferToLicenceFile sha256 sign (some (some ())) (some [0x41]) 1
      unopened = some (1, none) := rfl
  refine ⟨hraw, ?_, ?_, ?_, ?_⟩
  · rfl
  · rw [ecdsaSignBufferBase16ToLicenceFile_signed unopened hsigned]
    rfl
  · rw [ecdsaSignBufferBase16ToLicenceFile_signed full hsigned]
    rfl
  · intro hdisk
    obtain ⟨signature, -, hold⟩ := hdisk none hraw
    cases hold

end LinuxDemo
