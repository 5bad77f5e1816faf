/-
LinuxDemo/Ecdh.lean

`GetECDHShareKeyFromSrvPublicKey` of `lib/SSLKernelItem.cpp`, and the arrays that
`ReadBufferHex` decodes into.

OpenSSL is a parameter again: whether each of its calls succeeds, the octets of
the client's key, and what becomes of the server's octets.

`ReadBufferHex` is not told the size of its destination.  The licence goes into
a block of twice its length and five, which is enough until that size wraps
around as an `int`; the server's key goes into 128 bytes, which is enough for 256
characters.
-/
import LinuxDemo.HashMd5
import LinuxDemo.Licence

namespace LinuxDemo

def ECDH_SIZE : ℕ := 67

/-- What the calls into OpenSSL return. -/
structure EcdhCalls (Point : Type*) where
  newByCurveName : Bool
  generateKey : Bool
  get0PublicKey : Bool
  /-- The octets of the client's key in a buffer of some size, none if it fails. -/
  point2oct : ℕ → List UInt8
  get0Group : Bool
  pointNew : Bool
  oct2point : List UInt8 → Option Point
  /-- The shared key in a buffer of some size, none of it if it fails. -/
  computeKey : Point → ℕ → List UInt8

/-- What a call leaves behind. -/
structure EcdhResult where
  nResult : ℤ
  /-- `*pClientPubKeylen` is its length. -/
  szBufClientPubKey : List UInt8
  szSharekey : List UInt8
  deriving DecidableEq

variable {Point : Type*}

/-- The client's half, up to its public key: an error, or the octets. -/
def ecdhClientKey (c : EcdhCalls Point) : Except ℤ (List UInt8) :=
  if ¬ c.newByCurveName then .error (-1)
  else if ¬ c.generateKey then .error (-2)
  else if ¬ c.get0PublicKey then .error (-3)
  else if (c.point2oct ECDH_SIZE).length = 0 then .error (-4)
  else .ok (c.point2oct ECDH_SIZE)

/-- The shared key from the octets of the server's key: the result, and the
digest of the shared key. -/
def ecdhShareKey (c : EcdhCalls Point) (pubkeyServer : List UInt8) : ℤ × List UInt8 :=
  if ¬ c.get0Group then (-5, [])
  else if ¬ c.pointNew then (-6, [])
  else
    match c.oct2point pubkeyServer with
    | none => (-7, [])
    | some pointServer =>
        let sharekey := c.computeKey pointServer 512
        if sharekey.length = 0 then (-8, []) else (1, md5HashBuffer sharekey sharekey.length)

/-- The size of `pubkeyServer`. -/
def pubkeyServerSize : ℕ := 128

def getECDHShareKeyFromSrvPublicKey (h : Host) (c : EcdhCalls Point)
    (szSrvPublicKey : Option (List UInt8)) (nSrvPublicKeylen : ℤ) : Option EcdhResult :=
  match ecdhClientKey c with
  | .error nResult =>
      some { nResult := nResult, szBufClientPubKey := [], szSharekey := [] }
  | .ok pubkeyClient =>
      (readBufferHex h szSrvPublicKey nSrvPublicKeylen).bind fun stored =>
        if stored.length ≤ pubkeyServerSize then
          let pubkeyServer := stored ++ List.replicate (pubkeyServerSize - stored.length) 0
          -- without a key the length stays the size of the array
          let pubkeyLenSvr := szSrvPublicKey.elim pubkeyServerSize fun _ => stored.length
          let (nResult, szSharekey) := ecdhShareKey c (pubkeyServer.take pubkeyLenSvr)
          some { nResult := nResult, szBufClientPubKey := pubkeyClient, szSharekey := szSharekey }
        else none

/-! ### The destinations of the decoder -/

/-- The decoder ends, and what it stores is no longer than its destination. -/
def Fits (size : ℕ) (stored : Option (List UInt8)) : Prop :=
  ∃ bytes, stored = some bytes ∧ bytes.length ≤ size

/-- How much is stored. -/
theorem fits_readBufferHex_iff (h : Host) (buf : List UInt8) (size n : ℕ) :
    Fits size (readBufferHex h (some buf) n) ↔ n < 2 ^ 31 - 1 ∧ (n + 1) / 2 ≤ size := by
  rw [readBufferHex_natCast, Fits]
  split
  · rename_i hn
    simp only [Option.some.injEq, exists_eq_left', readHexLoop_length, hn, true_and]
  · rename_i hn
    simp only [reduceCtorEq, false_and, exists_false, hn]

/-- The block for a licence: big enough, until its size wraps around to 1. -/
theorem fits_decodeLicence_iff (h : Host) (malloc : ℕ → Bool) (buf : List UInt8) {n : ℕ}
    (hn : n < 2 ^ 31) :
    Fits (decodeLicence h malloc (some buf) n).1 (decodeLicence h malloc (some buf) n).2 ↔
      n < 2 ^ 31 - 2 ∨ malloc (decodeLicence h malloc (some buf) n).1 = false := by
  simp only [decodeLicence]
  by_cases hmalloc : malloc (sizeT (int32 ((n : ℤ) * 2 + 5))) = true
  · rw [if_pos hmalloc, fits_readBufferHex_iff, hmalloc, or_iff_left Bool.noConfusion]
    -- the sizes: as computed, wrapped to a negative `int`, wrapped to 1 or 3
    by_cases hsmall : (n : ℤ) * 2 + 5 < 2 ^ 31
    · rw [int32_eq (by omega) hsmall, sizeT_eq (by omega) hsmall]
      omega
    · rw [int32_wrap (Int.not_lt.mp hsmall) (by omega), sizeT]
      omega
  · rw [if_neg hmalloc]
    refine iff_of_true ⟨[], rfl, Nat.zero_le _⟩ (.inr ?_)
    simpa using hmalloc

/-- The array for the server's key. -/
theorem fits_serverKey_iff (h : Host) (szSrvPublicKey : Option (List UInt8)) (n : ℕ) :
    Fits pubkeyServerSize (readBufferHex h szSrvPublicKey n) ↔
      szSrvPublicKey = none ∨ n ≤ 256 := by
  rcases szSrvPublicKey with _ | buf
  · exact iff_of_true ⟨[], rfl, Nat.zero_le _⟩ (.inl rfl)
  · rw [fits_readBufferHex_iff, pubkeyServerSize]
    simp only [reduceCtorEq, false_or]
    omega

/-- The function has a result exactly if the server's key fits or is not decoded. -/
theorem getECDHShareKey_isSome_iff (h : Host) (c : EcdhCalls Point)
    (szSrvPublicKey : Option (List UInt8)) (n : ℤ) :
    (getECDHShareKeyFromSrvPublicKey h c szSrvPublicKey n).isSome ↔
      (∃ nResult, ecdhClientKey c = .error nResult) ∨
        Fits pubkeyServerSize (readBufferHex h szSrvPublicKey n) := by
  rw [getECDHShareKeyFromSrvPublicKey]
  rcases ecdhClientKey c with nResult | pubkeyClient
  · simp
  · rcases readBufferHex h szSrvPublicKey n with _ | stored
    · simp [Fits]
    · simp [Fits]

/-- **When decoded hex fits its destination**: a licence, unless its length is one
of the last two of an `int` and memory is there; and a server's key, if it is
not longer than 256 characters or there is an error before it is decoded. -/
theorem decoded_hex_fits_iff (h : Host) {n : ℕ} (hn : n < 2 ^ 31) :
    (∀ (malloc : ℕ → Bool) (buf : List UInt8),
      Fits (decodeLicence h malloc (some buf) n).1 (decodeLicence h malloc (some buf) n).2 ↔
        n < 2 ^ 31 - 2 ∨ malloc (decodeLicence h malloc (some buf) n).1 = false) ∧
      ∀ (c : EcdhCalls Point) (szSrvPublicKey : Option (List UInt8)),
        ((∃ nResult, ecdhClientKey c = .error nResult) ∨
            Fits pubkeyServerSize (readBufferHex h szSrvPublicKey n)) ↔
          (∃ nResult, ecdhClientKey c = .error nResult) ∨ szSrvPublicKey = none ∨ n ≤ 256 := by
  refine ⟨fun malloc buf => fits_decodeLicence_iff h malloc buf hn, ?_⟩
  intro c szSrvPublicKey
  rw [fits_serverKey_iff]

/-- A call in which all of OpenSSL succeeds. -/
def ecdhSucceeds : EcdhCalls Unit :=
  { newByCurveName := true, generateKey := true, get0PublicKey := true
    point2oct := fun _ => [0x02], get0Group := true, pointNew := true
    oct2point := fun _ => some (), computeKey := fun _ _ => [0x01] }

/-- 256 characters fit, from a licence and from the server. -/
theorem decoded_hex_fits_256 :
    let h : Host := { bigEndian := false, sdkBe := false }
    let buf : List UInt8 := List.replicate 256 0x30
    Fits (decodeLicence h enoughMemory (some buf) (256 : ℕ)).1
        (decodeLicence h enoughMemory (some buf) (256 : ℕ)).2 ∧
      ((∃ nResult, ecdhClientKey ecdhSucceeds = .error nResult) ∨
        Fits pubkeyServerSize (readBufferHex h (some buf) (256 : ℕ))) := by
  intro h buf
  have hn : 256 < 2 ^ 31 := by omega
  obtain ⟨hlicence, hserver⟩ := decoded_hex_fits_iff h hn
  refine ⟨(hlicence enoughMemory buf).mpr (.inl (by omega)), ?_⟩
  exact (hserver ecdhSucceeds (some buf)).mpr (.inr (.inr (Nat.le_refl 256)))

/-- 257 characters from the server do not fit, and the longest even licence is
decoded into a block of one byte. -/
theorem decoded_hex_overruns :
    let h : Host := { bigEndian := false, sdkBe := false }
    let key : List UInt8 := List.replicate 257 0x30
    getECDHShareKeyFromSrvPublicKey h ecdhSucceeds (some key) (257 : ℕ) = none ∧
      ¬ Fits pubkeyServerSize (readBufferHex h (some key) (257 : ℕ)) ∧
      ∀ licence : List UInt8,
        (decodeLicence h enoughMemory (some licence) (2 ^ 31 - 2 : ℕ)).1 = 1 ∧
          ¬ Fits 1 (decodeLicence h enoughMemory (some licence) (2 ^ 31 - 2 : ℕ)).2 := by
  intro h key
  have hkey : ¬ Fits pubkeyServerSize (readBufferHex h (some key) (257 : ℕ)) := by
    rw [fits_serverKey_iff]
    exact fun hfits => hfits.elim nofun (by omega)
  refine ⟨?_, hkey, ?_⟩
  · apply Option.not_isSome_iff_eq_none.mp
    rw [getECDHShareKey_isSome_iff]
    rintro (⟨nResult, herror⟩ | hfits)
    · cases herror
    · exact hkey hfits
  · intro licence
    generalize hn : 2 ^ 31 - 2 = n
    have hsize : sizeT (int32 ((n : ℤ) * 2 + 5)) = 1 := by
      rw [int32_wrap (by omega) (by omega), sizeT]
      omega
    have hmalloc : enoughMemory 1 = true := by decide
    simp only [decodeLicence, hsize, if_pos hmalloc]
    refine ⟨trivial, ?_⟩
    rw [fits_readBufferHex_iff]
    omega

end LinuxDemo
