/-
LinuxDemo/Licence.lean

The functions of `lib/SSLKernelItem.cpp` that write and check licences.

OpenSSL is a parameter: the digest `sha256`, and `sign` and `verify` for
`ECDSA_sign` and `ECDSA_verify`.  A signature that is not produced is `none`.
A key file is what is read from it: for the private key, whether it opens and
whether it holds a key.  The file a licence is written to is a `FileOut`, and
the result says what it then holds, `none` if it was not opened.  A function
that would leave an array it was given has no result.
-/
import LinuxDemo.Base16
import LinuxDemo.ReadFileECC

namespace LinuxDemo

/-- The first `n` bytes at a pointer. -/
def bytesAt (p : List UInt8) (n : ℤ) : Option (List UInt8) :=
  if 0 ≤ n ∧ n ≤ p.length then some (p.take n.toNat) else none

theorem bytesAt_of_take {p bs : List UInt8} {n : ℕ} (h : p.take n = bs) (hn : bs.length = n) :
    bytesAt p n = some bs := by
  have hle : n ≤ p.length := by
    rw [← h, List.length_take] at hn
    omega
  rw [bytesAt, if_pos (by omega), Int.toNat_natCast, h]

/-- What `fopen` and `fwrite` do with the file of a licence. -/
structure FileOut where
  fopen : Bool
  /-- The number of bytes that `fwrite` writes, if it stops early. -/
  fwrite : Option ℕ

/-- The file after `fwrite`. -/
def FileOut.file (f : FileOut) (bs : List UInt8) : List UInt8 :=
  bs.take (f.fwrite.elim bs.length (min bs.length))

/-- A file that takes everything. -/
def FileOut.complete : FileOut := { fopen := true, fwrite := none }

variable {Digest Priv Pub : Type*}

section Sign

variable (sha256 : List UInt8 → Digest) (sign : Digest → Priv → Option (List UInt8))

/-- The result, and the signature in the array of `size` bytes.  `bio` is the
key file, if it opens, and the key in it, if there is one. -/
def ecdsaSignToBuffer (bio : Option (Option Priv)) (szBufferData : Option (List UInt8))
    (nBufferData : ℤ) (size : ℕ) : Option (ℤ × List UInt8) :=
  match szBufferData with
  | none => some (0, [])
  | some bufferData =>
      match bio with
      | none => some (-2, [])
      | some none => some (-3, [])
      | some (some ec_key) =>
          (bytesAt bufferData nBufferData).bind fun data =>
            match sign (sha256 data) ec_key with
            | none => some (-4, [])
            -- `ECDSA_sign` knows nothing of the size of the array
            | some signature => if signature.length ≤ size then some (1, signature) else none

/-- The result, and the licence file. -/
def ecdsaSignFileToLicenceFile (bio : Option (Option Priv)) (dataFile : FileIn)
    (licence : FileOut) : Option (ℤ × Option (List UInt8)) :=
  let (ret, szDataFile, nFileLen) := readFileECC dataFile
  if ret ≠ 1 then some (-1, none)
  else
    (ecdsaSignToBuffer sha256 sign bio szDataFile nFileLen 1024).map fun (nRet, signature) =>
      (nRet, if nRet = 1 ∧ licence.fopen then some (licence.file signature) else none)

def ecdsaSignBufferToLicenceFile (bio : Option (Option Priv))
    (szBufferData : Option (List UInt8)) (nBufferData : ℤ) (licence : FileOut) :
    Option (ℤ × Option (List UInt8)) :=
  (ecdsaSignToBuffer sha256 sign bio szBufferData nBufferData 1024).map fun (nRet, signature) =>
    (nRet, if nRet = 1 ∧ licence.fopen then some (licence.file signature) else none)

def ecdsaSignBufferBase16ToLicenceFile (bio : Option (Option Priv))
    (szBufferData : Option (List UInt8)) (nBufferData : ℤ) (licence : FileOut) :
    Option (ℤ × Option (List UInt8)) :=
  (ecdsaSignToBuffer sha256 sign bio szBufferData nBufferData 512).bind fun (nRet, signature) =>
    if nRet = 1 then
      if licence.fopen then
        let szLicenceBuffer := signature ++ List.replicate (512 - signature.length) 0
        let nLicenceBase16len := 1024
        (base16Encode (some szLicenceBuffer) signature.length
            (some (List.replicate nLicenceBase16len 0)) nLicenceBase16len).bind
          fun (_, szLicenceBase16Buffer, nLicenceOutlen) =>
            (bytesAt (szLicenceBase16Buffer.getD []) nLicenceOutlen).map fun text =>
              (nRet, some (licence.file text))
      else some (0, none)
    else some (nRet, none)

/-- The loop of `My_ECDSASignBufferBase16ToLicenceFile` with `n` rounds to go:
`szTmp` after it. -/
def myBase16Loop : ℕ → List UInt8 → List UInt8 → ℕ → Option (List UInt8)
  | 0, _, szTmp, _ => some szTmp
  | _ + 1, [], _, _ => none
  | n + 1, c :: szLicenceBuf, szTmp, szOff =>
      (sprintfAt szTmp szOff (sprintf02X (charByte c))).bind fun szTmp =>
        myBase16Loop n szLicenceBuf szTmp (szOff + (sprintf02X (charByte c)).length)

/-- The result, and `szLicenceBuf` and `*nLicLen` after it. -/
def myECDSASignBufferBase16ToLicenceFile (bio : Option (Option Priv))
    (szBufferData : Option (List UInt8)) (nBufferData : ℤ) (szLicenceBuf : Option (List UInt8))
    (nLicLen : Option ℤ) : Option (ℤ × Option (List UInt8) × Option ℤ) :=
  match szLicenceBuf, nLicLen with
  | some licenceBuf, some licLen =>
      (ecdsaSignToBuffer sha256 sign bio szBufferData nBufferData licenceBuf.length).bind
        fun (nRet, signature) =>
          if nRet = 1 then
            let licenceBuf := signature ++ licenceBuf.drop signature.length
            let licLen := int32 signature.length
            (myBase16Loop licLen.toNat licenceBuf (List.replicate 1024 0) 0).bind fun szTmp =>
              (strcpy licenceBuf szTmp).map fun licenceBuf => (nRet, some licenceBuf, some licLen)
          -- a failed `ECDSA_sign` sets the length to 0
          else some (nRet, some licenceBuf, some (if nRet = -4 then 0 else licLen))
  | _, _ => some (0, szLicenceBuf, nLicLen)

variable {sha256 : List UInt8 → Digest} {sign : Digest → Priv → Option (List UInt8)}

/-- A signature that is returned is in the array. -/
theorem ecdsaSignToBuffer_length {bio : Option (Option Priv)} {szBufferData : Option (List UInt8)}
    {nBufferData : ℤ} {size : ℕ} {signature : List UInt8}
    (h : ecdsaSignToBuffer sha256 sign bio szBufferData nBufferData size = some (1, signature)) :
    signature.length ≤ size := by
  unfold ecdsaSignToBuffer at h
  split at h
  · cases h
  · split at h
    · cases h
    · cases h
    · obtain ⟨data, -, h⟩ := Option.bind_eq_some_iff.mp h
      split at h
      · cases h
      · split at h
        · rename_i hle
          cases h
          exact hle
        · cases h

/-- What becomes of a signature in base16. -/
theorem ecdsaSignBufferBase16ToLicenceFile_signed {bio : Option (Option Priv)}
    {szBufferData : Option (List UInt8)} {nBufferData : ℤ} {signature : List UInt8}
    (licence : FileOut)
    (h : ecdsaSignToBuffer sha256 sign bio szBufferData nBufferData 512 = some (1, signature)) :
    ecdsaSignBufferBase16ToLicenceFile sha256 sign bio szBufferData nBufferData licence =
      if licence.fopen then
        if signature.length < 512 then some (1, some (licence.file (hexOf signature))) else none
      else some (0, none) := by
  have hlen := ecdsaSignToBuffer_length h
  rw [ecdsaSignBufferBase16ToLicenceFile, h, Option.bind_some]
  simp only [if_true]
  split
  · by_cases hlt : signature.length < 512
    · have hencode := base16Encode_zeroed signature
        (List.replicate (512 - signature.length) 0) 1024 (1024 : ℕ) (by omega) (by omega) (by omega)
      have hbytes : bytesAt (hexOf signature ++ List.replicate (1024 - 2 * signature.length) 0)
          ((2 * signature.length : ℕ) : ℤ) = some (hexOf signature) :=
        bytesAt_of_take (List.take_left' (hexOf_length signature)) (hexOf_length signature)
      simp only [hencode, Option.bind_some, Option.getD_some, hbytes, Option.map_some, if_pos hlt]
    · -- the NUL behind 1024 characters leaves the array
      have hover := base16Encode_overflow signature
        (List.replicate (512 - signature.length) 0) 1024 (by omega) (by omega) (by omega)
      simp only [hover, Option.bind_none, if_neg hlt]
  · rfl

end Sign

section Verify

variable (sha256 : List UInt8 → Digest) (verify : Digest → List UInt8 → Pub → ℤ)

/-- `key` is the public key read from its file, if there is one. -/
def ecdsaVerifyLicenceBuffer (key : Option Pub) (szBuffer : List UInt8) (nBufflen : ℤ)
    (szLicenceData : List UInt8) (nLicencelen : ℤ) : Option ℤ :=
  match key with
  | none => some (-6)
  | some ec_key =>
      (bytesAt szBuffer nBufflen).bind fun data =>
        (bytesAt szLicenceData nLicencelen).map fun signature =>
          verify (sha256 data) signature ec_key

def ecdsaVerifyLicenceFile (key : Option Pub) (dataFile licenceFile : FileIn) : Option ℤ :=
  let (ret, pDataFileBuffer, nDataFilelen) := readFileECC dataFile
  if ret ≠ 1 then some (-1)
  else
    let (ret, szLicenceBuffer, nLicencelen) := readFileECC licenceFile
    if ret ≠ 1 then some (-1)
    else
      ecdsaVerifyLicenceBuffer sha256 verify key (pDataFileBuffer.getD []) nDataFilelen
        (szLicenceBuffer.getD []) nLicencelen

/-- Decoding the text of a licence into a block of its own: the size of the
block, and what is stored in it, unless the decoder does not end. -/
def decodeLicence (h : Host) (malloc : ℕ → Bool) (szLicenceBuffer : Option (List UInt8))
    (nLicencelen : ℤ) : ℕ × Option (List UInt8) :=
  let size := sizeT (int32 (nLicencelen * 2 + 5))
  -- the decoder does nothing without a block to write to
  (size, if malloc size then readBufferHex h szLicenceBuffer nLicencelen else some [])

/-- `malloc` is for the block that the text is decoded into. -/
def ecdsaVerifyBase16LicenceFile (h : Host) (key : Option Pub) (dataFile licenceFile : FileIn)
    (malloc : ℕ → Bool) : Option ℤ :=
  let (ret, pDataFileBuffer, nDataFilelen) := readFileECC dataFile
  if ret ≠ 1 then some (-1)
  else
    let (ret, szLicenceBuffer, nLicencelen) := readFileECC licenceFile
    if ret ≠ 1 then some (-2)
    else
      let (size, stored) := decodeLicence h malloc szLicenceBuffer nLicencelen
      stored.bind fun szDecodeLicenceBuffer =>
        if szDecodeLicenceBuffer.length ≤ size then
          ecdsaVerifyLicenceBuffer sha256 verify key (pDataFileBuffer.getD []) nDataFilelen
            szDecodeLicenceBuffer szDecodeLicenceBuffer.length
        else none

end Verify

end LinuxDemo
