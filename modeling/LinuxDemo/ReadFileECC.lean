/-
LinuxDemo/ReadFileECC.lean

`ReadFileECC` of `lib/SSLKernelItem.cpp`: read a file into a new block, and
take the carriage returns and line feeds out of it.

What the C library answers is given as a `FileIn`.  The block is kept whole,
with what the filter leaves behind its result, since the callers hand it on as
a pointer.  `FileIn.of content` is a file that can be read: its length is what
`ftell` says, memory is there for every size up to `PTRDIFF_MAX`, and `fread`
delivers all it is asked for.
-/
import LinuxDemo.Lib.CInt
import LinuxDemo.Lib.Compact

namespace LinuxDemo

/-- What the calls on one file return. -/
structure FileIn where
  fopen : Bool
  content : List UInt8
  /-- A `long`. -/
  ftell : ℤ
  malloc : ℕ → Bool
  /-- The number of bytes that `fread` delivers, if it stops early. -/
  fread : Option ℕ

/-- `(size_t)x`, 64 bits. -/
def sizeT (x : ℤ) : ℕ := (x % 2 ^ 64).toNat

def PTRDIFF_MAX : ℕ := 0x7FFFFFFFFFFFFFFF

/-- `'\n'` or `'\r'`. -/
def isCrLf (c : UInt8) : Bool := c = 0x0A ∨ c = 0x0D

/-- The block after `fread`: what is delivered, and zeros behind it. -/
def FileIn.block (f : FileIn) (size : ℕ) : List UInt8 :=
  let got := f.content.take (f.fread.elim size (min size))
  got ++ List.replicate (size - got.length) 0

/-- The filter, and the terminator that it writes if it took something out:
the block and `j`. -/
def filterCrLf (nFilelen : ℕ) (pDataFileBuffer : List UInt8) : List UInt8 × ℕ :=
  let (buf, j) := compact isCrLf nFilelen 0 0 pDataFileBuffer
  (if j < nFilelen then buf.set j 0 else buf, j)

/-- The result, `*pDataBuffer` and `*pFilelen`. -/
def readFileECC (f : FileIn) : ℤ × Option (List UInt8) × ℤ :=
  if f.fopen then
    let nFilelen := int32 f.ftell
    if f.malloc (sizeT nFilelen) then
      let (buf, j) := filterCrLf nFilelen.toNat (f.block (sizeT nFilelen))
      (1, some buf, j)
    else (-2, none, 0)
  else (-1, none, 0)

/-- Memory is there for every size that an object may have. -/
def enoughMemory (size : ℕ) : Bool := size ≤ PTRDIFF_MAX

/-- A file that can be read. -/
def FileIn.of (content : List UInt8) : FileIn :=
  { fopen := true, content := content, ftell := content.length, malloc := enoughMemory
    fread := none }

/-- The bytes that the filter keeps. -/
def dropCrLf (bs : List UInt8) : List UInt8 := unskipped isCrLf bs

/-- The bytes of a file that a length of type `int` reaches. -/
def reach (bs : List UInt8) : List UInt8 := bs.take (int32 bs.length).toNat

theorem sizeT_eq {x : ℤ} (h0 : 0 ≤ x) (hlt : x < 2 ^ 31) : sizeT x = x.toNat := by
  rw [sizeT, Int.emod_eq_of_lt h0 (by omega)]

/-- The filter keeps the other bytes, in order; its terminator is behind them. -/
theorem filterCrLf_spec (bs : List UInt8) :
    (filterCrLf bs.length bs).2 = (dropCrLf bs).length ∧
      (filterCrLf bs.length bs).1.take (dropCrLf bs).length = dropCrLf bs := by
  have hcompact := compact_spec isCrLf bs.length 0 0 bs (Nat.le_refl 0) (Nat.zero_add _)
  simp only [List.drop_zero, Nat.zero_add, List.take_zero, List.nil_append] at hcompact
  obtain ⟨hj, htake, -⟩ := hcompact
  refine ⟨hj, ?_⟩
  -- the terminator is written behind the bytes that are kept
  show (if _ then _ else _ : List UInt8).take _ = _
  split
  · rw [hj, dropCrLf, List.take_set_of_le (Nat.le_refl _)]
    exact htake
  · exact htake

theorem FileIn.of_malloc (bs : List UInt8) (size : ℕ) :
    (FileIn.of bs).malloc size = true ↔ size ≤ PTRDIFF_MAX := by
  simp only [FileIn.of, enoughMemory, decide_eq_true_eq]

/-- What `ReadFileECC` does with a file that opens. -/
theorem readFileECC_eq {f : FileIn} {n : ℤ} (hopen : f.fopen = true) (hn : int32 f.ftell = n) :
    readFileECC f = if f.malloc (sizeT n) then
      (1, some (filterCrLf n.toNat (f.block (sizeT n))).1,
        ((filterCrLf n.toNat (f.block (sizeT n))).2 : ℤ))
    else (-2, none, 0) := by
  rw [readFileECC, if_pos hopen, hn]

/-- The number of bytes that `fread` delivers, if it is asked for `n`. -/
def FileIn.delivered (f : FileIn) (n : ℕ) : ℕ :=
  min (f.fread.elim n (min n)) f.content.length

theorem FileIn.block_eq (f : FileIn) (n : ℕ) :
    f.block n =
      f.content.take (f.delivered n) ++ List.replicate (n - f.delivered n) 0 := by
  have hlen : (f.content.take (f.fread.elim n (min n))).length = f.delivered n :=
    List.length_take
  rw [FileIn.block, hlen, List.take_eq_take_min]
  rfl

theorem FileIn.delivered_le (f : FileIn) (n : ℕ) : f.delivered n ≤ n := by
  rw [FileIn.delivered]
  rcases f.fread with _ | m
  · exact Nat.min_le_left _ _
  · exact Nat.le_trans (Nat.min_le_left _ _) (Nat.min_le_left _ _)

theorem FileIn.block_length (f : FileIn) (n : ℕ) : (f.block n).length = n := by
  have hle := f.delivered_le n
  have hlen : f.delivered n ≤ f.content.length := Nat.min_le_right _ _
  rw [FileIn.block_eq, List.length_append, List.length_take, List.length_replicate]
  omega

/-- **A file that opens, with memory for it**: the filtered block. -/
theorem readFileECC_opened {f : FileIn} (hopen : f.fopen = true)
    (hmalloc : f.malloc (sizeT (int32 f.ftell)) = true) :
    ∃ buf, readFileECC f =
        (1, some buf, ((dropCrLf (f.block (int32 f.ftell).toNat)).length : ℤ)) ∧
      buf.take (dropCrLf (f.block (int32 f.ftell).toNat)).length =
        dropCrLf (f.block (int32 f.ftell).toNat) := by
  rw [readFileECC_eq hopen rfl, if_pos hmalloc]
  by_cases hneg : int32 f.ftell < 0
  · -- no round of the filter
    have hzero : (int32 f.ftell).toNat = 0 := by omega
    have hnil : dropCrLf (f.block 0) = [] := by
      rw [List.eq_nil_of_length_eq_zero (f.block_length 0)]
      rfl
    rw [hzero, hnil]
    exact ⟨_, rfl, rfl⟩
  · have hsize : sizeT (int32 f.ftell) = (int32 f.ftell).toNat :=
      sizeT_eq (Int.not_lt.mp hneg) (int32_lt _)
    obtain ⟨hj, htake⟩ := filterCrLf_spec (f.block (int32 f.ftell).toNat)
    rw [f.block_length] at hj htake
    rw [hsize, hj]
    exact ⟨_, rfl, htake⟩

/-- All that is asked for is delivered. -/
theorem FileIn.of_block {bs : List UInt8} {size : ℕ} (h : size ≤ bs.length) :
    (FileIn.of bs).block size = bs.take size := by
  simp only [FileIn.block, FileIn.of, Option.elim_none, List.length_take, Nat.min_eq_left h,
    Nat.sub_self, List.replicate_zero, List.append_nil]

/-- **A file whose length is not negative as an `int`** is read as far as that
length goes, and filtered. -/
theorem readFileECC_of {bs : List UInt8} (h : 0 ≤ int32 bs.length) :
    ∃ buf, readFileECC (.of bs) = (1, some buf, ((dropCrLf (reach bs)).length : ℤ)) ∧
      buf.take (dropCrLf (reach bs)).length = dropCrLf (reach bs) := by
  have hlt : int32 bs.length < 2 ^ 31 := int32_lt _
  have hle : int32 bs.length ≤ bs.length := int32_le (Int.natCast_nonneg _)
  have hmalloc : (FileIn.of bs).malloc (sizeT (int32 bs.length)) = true := by
    rw [FileIn.of_malloc, sizeT_eq h hlt, PTRDIFF_MAX]
    omega
  have hblock : (FileIn.of bs).block (int32 bs.length).toNat = reach bs :=
    FileIn.of_block (by omega)
  rw [← hblock]
  exact readFileECC_opened (f := .of bs) rfl hmalloc

/-- One whose length is negative is not. -/
theorem readFileECC_of_neg {bs : List UInt8} (h : int32 bs.length < 0) :
    readFileECC (.of bs) = (-2, none, 0) := by
  have hlo : -2 ^ 31 ≤ int32 bs.length := le_int32 _
  -- the length is a huge `size_t`
  have hmalloc : ¬ (FileIn.of bs).malloc (sizeT (int32 bs.length)) = true := by
    rw [FileIn.of_malloc, sizeT, PTRDIFF_MAX]
    omega
  rw [readFileECC_eq (f := .of bs) rfl rfl]
  exact if_neg hmalloc

end LinuxDemo
