/-
LinuxDemo/CreateECDSAKey.lean

`CreateECDSAKey` of `lib/SSLKernelItem.cpp`: what a call leaves on the disk.

The two files are replaced one after the other, in place: opening a file
empties it, and there is no way back.  So an exit before the first file is
opened leaves everything as it was, and each later exit has its own result, from
which the caller can tell how far the call came.

OpenSSL is a parameter.  A file that cannot be opened keeps its content; a text
whose writing fails is there up to some byte.  What was written is still in a
buffer, which `BIO_free` flushes: that may fail too, and nobody sees it.  PEM
texts and their readers are a `Pem`, and what the manual says of them is
`Pem.Reads`.
-/
import LinuxDemo.Lib.CStr
import LinuxDemo.ReadFileECC
import Mathlib.Logic.Function.Basic

namespace LinuxDemo

/-- The content of each file, by its path. -/
abbrev Disk := List UInt8 → Option (List UInt8)

/-- What PEM does with keys: the texts that are written for a key, and the
readers, which give the public key that a text belongs to. -/
structure Pem (Key Pub : Type*) where
  pub : Key → Pub
  pubText : Key → List UInt8
  paramsText : List UInt8
  keyText : Key → List UInt8
  readPub : List UInt8 → Option Pub
  readKey : List UInt8 → Option Pub

/-- What the calls return.  A text whose writing fails is written up to some
byte, and so is a file that `BIO_free` does not flush. -/
structure KeyGenCalls (Key : Type*) where
  keyNew : Bool
  groupNew : Bool
  setGroup : Bool
  generateKey : Option Key
  malloc : ℕ → Bool
  openPublic : Bool
  writePublic : Option ℕ
  flushPublic : Option ℕ
  openPrivate : Bool
  writeParams : Option ℕ
  writePrivate : Option ℕ
  flushPrivate : Option ℕ

/-- What is written of a text. -/
def written (fails : Option ℕ) (text : List UInt8) : List UInt8 := text.take (fails.getD text.length)

/-- `public.pem` -/
def pPublicKey : List UInt8 := [0x70, 0x75, 0x62, 0x6C, 0x69, 0x63, 0x2E, 0x70, 0x65, 0x6D]

/-- `ec_key.pem` -/
def pPrivateKey : List UInt8 := [0x65, 0x63, 0x5F, 0x6B, 0x65, 0x79, 0x2E, 0x70, 0x65, 0x6D]

/-- The path of a file, put together in a block of `nPathLen` zeros. -/
def keyFilePath (nPathLen : ℕ) (pFilePath name : List UInt8) : Option (List UInt8) :=
  (strcpy (List.replicate nPathLen 0) pFilePath).bind fun pFileAllPath =>
    (strcat pFileAllPath [0x2F]).bind fun pFileAllPath =>
      (strcat pFileAllPath name).map cstr

variable {Key Pub : Type*}

/-- The private key goes behind the parameters, whose writing is not checked.  Every exit
behind the opening of the file frees it. -/
def savePrivateKey (p : Pem Key Pub) (c : KeyGenCalls Key) (ec_key : Key) (path : List UInt8)
    (disk : Disk) : ℤ × Disk :=
  if ¬ c.openPrivate then (-8, disk)
  else
    let text := written c.writeParams p.paramsText ++ written c.writePrivate (p.keyText ec_key)
    (if c.writePrivate = none then 1 else -9,
      Function.update disk path (some (written c.flushPrivate text)))

/-- The two files. -/
def saveKeys (p : Pem Key Pub) (c : KeyGenCalls Key) (ec_key : Key) (nPathLen : ℕ)
    (pFilePath : List UInt8) (disk : Disk) : Option (ℤ × Disk) :=
  (keyFilePath nPathLen pFilePath pPublicKey).bind fun path =>
    if ¬ c.openPublic then some (-6, disk)
    else
      let text := written c.writePublic (p.pubText ec_key)
      let disk := Function.update disk path (some (written c.flushPublic text))
      if c.writePublic ≠ none then some (-7, disk)
      else
        (keyFilePath nPathLen pFilePath pPrivateKey).map fun path =>
          savePrivateKey p c ec_key path disk

/-- The result, and the disk afterwards. -/
def createECDSAKey (p : Pem Key Pub) (c : KeyGenCalls Key) (pFilePath : List UInt8)
    (disk : Disk) : Option (ℤ × Disk) :=
  if ¬ c.keyNew then some (-1, disk)
  else if ¬ c.groupNew then some (-2, disk)
  else if ¬ c.setGroup then some (-3, disk)
  else
    match c.generateKey with
    | none => some (-3, disk)
    | some ec_key =>
        let nPathLen := int32 ((cstr pFilePath).length + pPublicKey.length + pPrivateKey.length + 2)
        if ¬ c.malloc (sizeT nPathLen) then some (-5, disk)
        else saveKeys p c ec_key (sizeT nPathLen) pFilePath disk

/-! ### The paths -/

theorem pPublicKey_ne_zero : ∀ c ∈ pPublicKey, c ≠ 0 := by simp [pPublicKey]

theorem pPrivateKey_ne_zero : ∀ c ∈ pPrivateKey, c ≠ 0 := by simp [pPrivateKey]

/-- The path of a file in a directory. -/
def inDirectory (pFilePath name : List UInt8) : List UInt8 := cstr pFilePath ++ 0x2F :: name

/-- The path is put together if the block has room for it and a NUL. -/
theorem keyFilePath_eq {name : List UInt8} (hname : ∀ c ∈ name, c ≠ 0) (nPathLen : ℕ)
    (pFilePath : List UInt8) :
    keyFilePath nPathLen pFilePath name =
      if (inDirectory pFilePath name).length < nPathLen then some (inDirectory pFilePath name)
      else none := by
  have hpath : ∀ c ∈ cstr pFilePath, c ≠ 0 := fun c hc => mem_cstr hc
  have hdir : ∀ c ∈ cstr pFilePath ++ [0x2F], c ≠ 0 :=
    List.forall_mem_append.mpr ⟨hpath, by simp⟩
  have hall : ∀ c ∈ cstr pFilePath ++ [0x2F] ++ name, c ≠ 0 :=
    List.forall_mem_append.mpr ⟨hdir, hname⟩
  have hlen : (inDirectory pFilePath name).length = (cstr pFilePath).length + 1 + name.length := by
    rw [inDirectory, List.length_append, List.length_cons]
    omega
  rw [keyFilePath, strcpy, List.length_replicate, hlen]
  by_cases hcopy : (cstr pFilePath).length < nPathLen
  · simp only [if_pos hcopy, Option.bind_some, List.drop_replicate]
    generalize hm : nPathLen - ((cstr pFilePath).length + 1) = m
    rcases m with _ | m
    · -- no room for the separator
      rw [strcat_overflow hpath (by decide), if_neg (by omega)]
      rfl
    · rw [strcat_append hpath (by rw [List.length_replicate]; exact Nat.succ_pos m),
        Option.bind_some, List.length_singleton, List.drop_replicate, Nat.add_sub_cancel]
      by_cases hroom : name.length ≤ m
      · rw [strcat_append hdir (by rw [List.length_replicate]; exact hroom), Option.map_some,
          cstr_terminated _ hall, if_pos (by omega), inDirectory, List.append_assoc]
        rfl
      · rw [strcat_overflow hdir (by rw [List.length_replicate]; omega), if_neg (by omega)]
        rfl
  · rw [if_neg hcopy, if_neg (by omega)]
    rfl

/-- `public.pem` and `ec_key.pem` of a directory. -/
def publicPem (pFilePath : List UInt8) : List UInt8 := inDirectory pFilePath pPublicKey

def privatePem (pFilePath : List UInt8) : List UInt8 := inDirectory pFilePath pPrivateKey

theorem publicPem_ne_privatePem (pFilePath : List UInt8) :
    publicPem pFilePath ≠ privatePem pFilePath := by
  intro heq
  have hname := List.append_cancel_left heq
  exact absurd hname (by decide)

/-- A path that is put together is the path of the file. -/
theorem eq_of_keyFilePath {name : List UInt8} (hname : ∀ c ∈ name, c ≠ 0) {nPathLen : ℕ}
    {pFilePath path : List UInt8} (h : keyFilePath nPathLen pFilePath name = some path) :
    path = inDirectory pFilePath name := by
  rw [keyFilePath_eq hname] at h
  split at h
  · exact (Option.some.inj h).symm
  · cases h

theorem inDirectory_length (pFilePath : List UInt8) {name : List UInt8}
    (hname : name.length = 10) :
    (inDirectory pFilePath name).length = (cstr pFilePath).length + 11 := by
  rw [inDirectory, List.length_append, List.length_cons, hname]

/-- The saving of the keys in a block with room for the paths. -/
theorem saveKeys_of_room (p : Pem Key Pub) (c : KeyGenCalls Key) (ec_key : Key) {nPathLen : ℕ}
    {pFilePath : List UInt8} (hroom : (cstr pFilePath).length + 11 < nPathLen) (disk : Disk) :
    saveKeys p c ec_key nPathLen pFilePath disk =
      some (if ¬ c.openPublic then (-6, disk)
        else if c.writePublic ≠ none then
          (-7, Function.update disk (publicPem pFilePath)
            (some (written c.flushPublic (written c.writePublic (p.pubText ec_key)))))
        else
          savePrivateKey p c ec_key (privatePem pFilePath)
            (Function.update disk (publicPem pFilePath)
              (some (written c.flushPublic (written c.writePublic (p.pubText ec_key)))))) := by
  have hpath : ∀ name : List UInt8, (∀ c ∈ name, c ≠ 0) → name.length = 10 →
      keyFilePath nPathLen pFilePath name = some (inDirectory pFilePath name) := by
    intro name hname hlen
    rw [keyFilePath_eq hname, if_pos (by rw [inDirectory_length pFilePath hlen]; exact hroom)]
  rw [saveKeys, hpath pPublicKey pPublicKey_ne_zero rfl,
    hpath pPrivateKey pPrivateKey_ne_zero rfl, Option.bind_some]
  split
  · rfl
  · simp only
    split <;> rfl

/-- The block that a path gets has that room. -/
theorem pathLen_room {pFilePath : List UInt8} (hlen : (cstr pFilePath).length + 22 < 2 ^ 31) :
    (cstr pFilePath).length + 11 < sizeT (int32
      ((cstr pFilePath).length + pPublicKey.length + pPrivateKey.length + 2)) := by
  have hnames : pPublicKey.length = 10 ∧ pPrivateKey.length = 10 := ⟨rfl, rfl⟩
  rw [hnames.1, hnames.2, int32_eq (by omega) (by omega), sizeT_eq (by omega) (by omega)]
  omega

/-- An exit before the files, or a new key that is saved. -/
theorem createECDSAKey_exits (p : Pem Key Pub) (c : KeyGenCalls Key) (pFilePath : List UInt8)
    (disk : Disk) :
    (∃ ret ∈ [-1, -2, -3, -5, -6], createECDSAKey p c pFilePath disk = some (ret, disk)) ∨
      ∃ ec_key, createECDSAKey p c pFilePath disk =
        saveKeys p c ec_key (sizeT (int32
          ((cstr pFilePath).length + pPublicKey.length + pPrivateKey.length + 2))) pFilePath
          disk := by
  rw [createECDSAKey]
  split
  · exact .inl ⟨-1, by simp, rfl⟩
  · split
    · exact .inl ⟨-2, by simp, rfl⟩
    · split
      · exact .inl ⟨-3, by simp, rfl⟩
      · split
        · exact .inl ⟨-3, by simp, rfl⟩
        · rename_i ec_key _
          simp only
          split
          · exact .inl ⟨-5, by simp, rfl⟩
          · exact .inr ⟨ec_key, rfl⟩

/-- A call has a result, for a path whose length is well inside an `int`. -/
theorem createECDSAKey_isSome (p : Pem Key Pub) (c : KeyGenCalls Key) {pFilePath : List UInt8}
    (hlen : (cstr pFilePath).length + 22 < 2 ^ 31) (disk : Disk) :
    (createECDSAKey p c pFilePath disk).isSome := by
  rcases createECDSAKey_exits p c pFilePath disk with ⟨ret, -, hret⟩ | ⟨ec_key, hsave⟩
  · rw [hret]
    rfl
  · rw [hsave, saveKeys_of_room p c ec_key (pathLen_room hlen)]
    rfl

/-! ### The disk after a call -/

@[simp] theorem written_none (text : List UInt8) : written none text = text := List.take_length

theorem written_isPart (fails : Option ℕ) (text : List UInt8) : written fails text <+: text :=
  List.take_prefix _ _

/-- How far the saving of the keys comes, and with which result. -/
theorem saveKeys_cases {p : Pem Key Pub} {c : KeyGenCalls Key} {ec_key : Key} {nPathLen : ℕ}
    {pFilePath : List UInt8} {disk disk' : Disk} {ret : ℤ}
    (h : saveKeys p c ec_key nPathLen pFilePath disk = some (ret, disk')) :
    (ret = -6 ∧ disk' = disk) ∨
      (ret = -7 ∧ disk' = Function.update disk (publicPem pFilePath)
        (some (written c.flushPublic (written c.writePublic (p.pubText ec_key))))) ∨
      (ret, disk') = savePrivateKey p c ec_key (privatePem pFilePath)
        (Function.update disk (publicPem pFilePath)
          (some (written c.flushPublic (p.pubText ec_key)))) := by
  rw [saveKeys] at h
  obtain ⟨path, hpath, h⟩ := Option.bind_eq_some_iff.mp h
  rw [eq_of_keyFilePath pPublicKey_ne_zero hpath] at h
  split at h
  · cases h
    exact .inl ⟨rfl, rfl⟩
  · simp only at h
    split at h
    · cases h
      exact .inr (.inl ⟨rfl, rfl⟩)
    · rename_i hwrite
      obtain ⟨path', hpath', h⟩ := Option.map_eq_some_iff.mp h
      rw [not_not.mp hwrite, written_none,
        eq_of_keyFilePath pPrivateKey_ne_zero hpath'] at h
      exact .inr (.inr h.symm)

/-- **What a call may do**, and with which result. -/
theorem createECDSAKey_cases {p : Pem Key Pub} {c : KeyGenCalls Key} {pFilePath : List UInt8}
    {disk disk' : Disk} {ret : ℤ} (h : createECDSAKey p c pFilePath disk = some (ret, disk')) :
    (ret ∈ [-1, -2, -3, -5, -6] ∧ disk' = disk) ∨
      ∃ ec_key, (ret = -7 ∧ disk' = Function.update disk (publicPem pFilePath)
          (some (written c.flushPublic (written c.writePublic (p.pubText ec_key))))) ∨
        (ret, disk') = savePrivateKey p c ec_key (privatePem pFilePath)
          (Function.update disk (publicPem pFilePath)
            (some (written c.flushPublic (p.pubText ec_key)))) := by
  rcases createECDSAKey_exits p c pFilePath disk with ⟨code, hcode, hret⟩ | ⟨ec_key, hsave⟩
  · rw [hret] at h
    cases h
    exact .inl ⟨hcode, rfl⟩
  · rw [hsave] at h
    rcases saveKeys_cases h with ⟨rfl, rfl⟩ | hsaved
    · exact .inl ⟨by simp, rfl⟩
    · exact .inr ⟨ec_key, hsaved⟩

/-- What the manual says of the PEM readers: they read what was written. -/
structure Pem.Reads (p : Pem Key Pub) : Prop where
  readPub_text : ∀ ec_key, p.readPub (p.pubText ec_key) = some (p.pub ec_key)
  readKey_text : ∀ ec_key, p.readKey (p.paramsText ++ p.keyText ec_key) = some (p.pub ec_key)

/-- The two files are both absent, or belong to the same key. -/
def Pem.Matched (p : Pem Key Pub) (disk : Disk) (pFilePath : List UInt8) : Prop :=
  (disk (publicPem pFilePath) = none ∧ disk (privatePem pFilePath) = none) ∨
    ∃ pubText keyText key, disk (publicPem pFilePath) = some pubText ∧
      disk (privatePem pFilePath) = some keyText ∧
      p.readPub pubText = some key ∧ p.readKey keyText = some key

/-- What the results say about the disk afterwards: how far the call came. -/
inductive Leaves (p : Pem Key Pub) (c : KeyGenCalls Key) (pFilePath : List UInt8)
    (disk : Disk) : ℤ → Disk → Prop
  /-- An exit before `public.pem` is opened. -/
  | unchanged {ret : ℤ} : ret ∈ [-1, -2, -3, -5, -6] → Leaves p c pFilePath disk ret disk
  | public_part (ec_key : Key) (part : List UInt8) : part <+: p.pubText ec_key →
      Leaves p c pFilePath disk (-7) (Function.update disk (publicPem pFilePath) (some part))
  /-- An exit before `ec_key.pem` is opened. -/
  | public_new (ec_key : Key) : Leaves p c pFilePath disk (-8)
      (Function.update disk (publicPem pFilePath)
        (some (written c.flushPublic (p.pubText ec_key))))
  | private_part (ec_key : Key) (part : List UInt8) : part <+: p.keyText ec_key →
      Leaves p c pFilePath disk (-9)
        (Function.update
          (Function.update disk (publicPem pFilePath)
            (some (written c.flushPublic (p.pubText ec_key))))
          (privatePem pFilePath)
          (some (written c.flushPrivate (written c.writeParams p.paramsText ++ part))))
  /-- The writing of the parameters, before the private key, is not checked. -/
  | both (ec_key : Key) : Leaves p c pFilePath disk 1
      (Function.update
        (Function.update disk (publicPem pFilePath)
          (some (written c.flushPublic (p.pubText ec_key))))
        (privatePem pFilePath)
        (some (written c.flushPrivate
          (written c.writeParams p.paramsText ++ p.keyText ec_key))))

/-- The exits of the second file. -/
theorem leaves_savePrivateKey (p : Pem Key Pub) (c : KeyGenCalls Key) (pFilePath : List UInt8)
    (disk : Disk) (ec_key : Key) {ret : ℤ} {disk' : Disk}
    (h : (ret, disk') = savePrivateKey p c ec_key (privatePem pFilePath)
      (Function.update disk (publicPem pFilePath)
        (some (written c.flushPublic (p.pubText ec_key))))) :
    Leaves p c pFilePath disk ret disk' := by
  rw [savePrivateKey] at h
  split at h
  · cases h
    exact .public_new ec_key
  · rcases hwrite : c.writePrivate with _ | m
    · rw [hwrite, written_none] at h
      cases h
      exact .both ec_key
    · rw [hwrite] at h
      cases h
      exact .private_part ec_key _ (written_isPart _ _)

/-- The two new files match, if the parameters were written. -/
theorem matched_both {p : Pem Key Pub} (hreads : p.Reads) (pFilePath : List UInt8) (disk : Disk)
    (ec_key : Key) :
    p.Matched (Function.update
      (Function.update disk (publicPem pFilePath) (some (p.pubText ec_key)))
      (privatePem pFilePath) (some (p.paramsText ++ p.keyText ec_key))) pFilePath := by
  refine .inr ⟨p.pubText ec_key, p.paramsText ++ p.keyText ec_key, p.pub ec_key, ?_, ?_,
    hreads.readPub_text ec_key, hreads.readKey_text ec_key⟩
  · rw [Function.update_of_ne (publicPem_ne_privatePem pFilePath), Function.update_self]
  · rw [Function.update_self]

/-- The files match after a result that is not -7, -8 or -9, if nothing was lost that the
code does not look at. -/
theorem Leaves.matched {p : Pem Key Pub} (hreads : p.Reads) {c : KeyGenCalls Key}
    {pFilePath : List UInt8} {disk disk' : Disk} {ret : ℤ}
    (hleaves : Leaves p c pFilePath disk ret disk') (hmatched : p.Matched disk pFilePath)
    (hret : ret ∉ [-7, -8, -9]) (hparams : c.writeParams = none)
    (hpublic : c.flushPublic = none) (hprivate : c.flushPrivate = none) :
    p.Matched disk' pFilePath := by
  cases hleaves with
  | unchanged _ => exact hmatched
  | public_part ec_key part _ => exact absurd (by simp) hret
  | public_new ec_key => exact absurd (by simp) hret
  | private_part ec_key part _ => exact absurd (by simp) hret
  | both ec_key =>
    rw [hparams, hpublic, hprivate, written_none, written_none, written_none]
    exact matched_both hreads pFilePath disk ec_key

/-- Texts of one or two bytes for keys that are numbers. -/
def samplePem : Pem UInt8 UInt8 where
  pub := id
  pubText := fun ec_key => [0x50, ec_key]
  paramsText := [0x47]
  keyText := fun ec_key => [0x4B, ec_key]
  readPub := fun text => if text.head? = some 0x50 then text[1]? else none
  readKey := fun text => if text.head? = some 0x47 then text[2]? else none

theorem samplePem_reads : samplePem.Reads := ⟨fun _ => rfl, fun _ => rfl⟩

/-- A call that makes the key 2 and succeeds. -/
def sampleCalls : KeyGenCalls UInt8 where
  keyNew := true
  groupNew := true
  setGroup := true
  generateKey := some 2
  malloc := fun _ => true
  openPublic := true
  writePublic := none
  flushPublic := none
  openPrivate := true
  writeParams := none
  writePrivate := none
  flushPrivate := none

/-- A directory `k` with the files of the key 1. -/
def sampleDisk : Disk := fun path =>
  if path = publicPem [0x6B] then some [0x50, 1]
  else if path = privatePem [0x6B] then some [0x47, 0x4B, 1] else none

theorem sampleDisk_matched : samplePem.Matched sampleDisk [0x6B] :=
  .inr ⟨[0x50, 1], [0x47, 0x4B, 1], 1, rfl, by decide, rfl, rfl⟩

theorem sample_length : (cstr [0x6B]).length + 22 < 2 ^ 31 := by
  rw [show (cstr [0x6B]).length = 1 from rfl]
  omega

end LinuxDemo
