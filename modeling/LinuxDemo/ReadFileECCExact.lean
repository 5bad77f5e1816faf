/-
LinuxDemo/ReadFileECCExact.lean

Does `ReadFileECC` return the whole file?

The length is what `ftell` says, as an `int`, and the count of `fread` is not
looked at.  What is not delivered stays zero in the block, and the zeros pass
the filter.  So the result is exact if these zeros are just what the filter
keeps of the rest of the file: mostly, if all of the file was delivered.

The filter works in place.  Its accesses are those of `compactLog`, and a last
write for the terminator.
-/
import LinuxDemo.ReadFileECC

namespace LinuxDemo

/-! ### The accesses of the filter -/

/-- `filterCrLf` with its accesses to the block. -/
def filterCrLfLog (nFilelen : ℕ) (pDataFileBuffer : List UInt8) :
    (List UInt8 × ℕ) × List Access :=
  let ((buf, j), log) := compactLog isCrLf nFilelen 0 0 pDataFileBuffer
  if j < nFilelen then ((buf.set j 0, j), log ++ [.write j]) else ((buf, j), log)

theorem filterCrLfLog_fst (nFilelen : ℕ) (buf : List UInt8) :
    (filterCrLfLog nFilelen buf).1 = filterCrLf nFilelen buf := by
  have hfst := compactLog_fst isCrLf nFilelen 0 0 buf
  rw [filterCrLf, ← hfst]
  simp only [filterCrLfLog]
  split <;> rfl

/-- The filter never reads what it has written, and stays in the first
`nFilelen` bytes. -/
theorem filterCrLfLog_safe (nFilelen : ℕ) (buf : List UInt8) :
    ReadsFirst (filterCrLfLog nFilelen buf).2 ∧
      ∀ a ∈ (filterCrLfLog nFilelen buf).2, a.index < nFilelen := by
  have hreads := compactLog_readsFirst isCrLf nFilelen 0 0 buf (Nat.le_refl 0)
  have hindex : ∀ a ∈ (compactLog isCrLf nFilelen 0 0 buf).2, a.index < nFilelen := by
    intro a ha
    have hlt := (compactLog_index isCrLf nFilelen 0 0 buf (Nat.le_refl 0) a ha).1
    rwa [Nat.zero_add] at hlt
  simp only [filterCrLfLog]
  split
  · rename_i hj
    constructor
    · -- nothing is read after the terminator
      refine List.pairwise_append.mpr ⟨hreads, List.pairwise_singleton _ _, ?_⟩
      rintro a - b hb hover
      rw [List.mem_singleton.mp hb] at hover
      cases a with
      | read i => exact hover
      | write j => exact hover
    · intro a ha
      rcases List.mem_append.mp ha with ha | ha
      · exact hindex a ha
      · rw [List.mem_singleton.mp ha]
        exact hj
  · exact ⟨hreads, hindex⟩

/-! ### What is read -/

theorem dropCrLf_append (bs bs' : List UInt8) : dropCrLf (bs ++ bs') = dropCrLf bs ++ dropCrLf bs' :=
  List.filter_append _ _

theorem dropCrLf_zeros (n : ℕ) : dropCrLf (List.replicate n 0) = List.replicate n 0 := by
  apply List.filter_eq_self.mpr
  intro c hc
  rw [List.eq_of_mem_replicate hc]
  rfl

/-- The zeros of the block are what the filter keeps of the rest of the file. -/
def FileIn.RestIsZeros (f : FileIn) (n : ℕ) : Prop :=
  dropCrLf (f.content.drop (f.delivered n)) = List.replicate (n - f.delivered n) 0

theorem dropCrLf_block_iff (f : FileIn) (n : ℕ) :
    dropCrLf (f.block n) = dropCrLf f.content ↔ f.RestIsZeros n := by
  rw [FileIn.RestIsZeros, FileIn.block_eq, dropCrLf_append, dropCrLf_zeros]
  nth_rewrite 2 [← List.take_append_drop (f.delivered n) f.content]
  rw [dropCrLf_append, List.append_cancel_left_eq, eq_comm]

/-- The file without its carriage returns and line feeds and the number of these
bytes; or a negative result, and no block. -/
def ExactOrFails (f : FileIn) : Prop :=
  (∃ buf, readFileECC f = (1, some buf, ((dropCrLf f.content).length : ℤ)) ∧
      buf.take (dropCrLf f.content).length = dropCrLf f.content) ∨
    ∃ ret, ret < 0 ∧ readFileECC f = (ret, none, 0)

theorem exactOrFails_iff (f : FileIn) :
    ExactOrFails f ↔ f.fopen = false ∨ f.malloc (sizeT (int32 f.ftell)) = false ∨
      f.RestIsZeros (int32 f.ftell).toNat := by
  rcases hopen : f.fopen with _ | _
  · refine iff_of_true (.inr ⟨-1, by decide, ?_⟩) (.inl rfl)
    rw [readFileECC, hopen]
    rfl
  · rw [or_iff_right Bool.noConfusion]
    rcases hmalloc : f.malloc (sizeT (int32 f.ftell)) with _ | _
    · refine iff_of_true (.inr ⟨-2, by decide, ?_⟩) (.inl rfl)
      rw [readFileECC_eq hopen rfl, hmalloc]
      rfl
    · rw [or_iff_right Bool.noConfusion, ← dropCrLf_block_iff]
      obtain ⟨buf, hread, htake⟩ := readFileECC_opened hopen hmalloc
      constructor
      · rintro (⟨buf', hexact, htake'⟩ | ⟨ret, -, hfails⟩)
        · -- the same block, and the same number of its bytes
          rw [hread, Prod.mk.injEq, Prod.mk.injEq, Option.some.injEq, Nat.cast_inj] at hexact
          obtain ⟨-, rfl, hlen⟩ := hexact
          rw [← htake, hlen, htake']
        · rw [hread] at hfails
          cases hfails
      · intro heq
        rw [heq] at hread htake
        exact .inl ⟨buf, hread, htake⟩

/-- **When `ReadFileECC` is exact or fails.**  And in any case its filter never
reads a place that it has written, and stays in its block. -/
theorem readFileECC_exact_iff (f : FileIn) :
    (ExactOrFails f ↔ f.fopen = false ∨ f.malloc (sizeT (int32 f.ftell)) = false ∨
        f.RestIsZeros (int32 f.ftell).toNat) ∧
      ∃ log, filterCrLfLog (int32 f.ftell).toNat (f.block (sizeT (int32 f.ftell))) =
          (filterCrLf (int32 f.ftell).toNat (f.block (sizeT (int32 f.ftell))), log) ∧
        ReadsFirst log ∧
        ∀ a ∈ log, a.index < (f.block (sizeT (int32 f.ftell))).length := by
  refine ⟨exactOrFails_iff f, _, Prod.ext (filterCrLfLog_fst _ _) rfl, ?_⟩
  obtain ⟨hreads, hindex⟩ := filterCrLfLog_safe (int32 f.ftell).toNat
    (f.block (sizeT (int32 f.ftell)))
  refine ⟨hreads, ?_⟩
  intro a ha
  have hlt := hindex a ha
  have hint : int32 f.ftell < 2 ^ 31 := int32_lt _
  -- there is an access, so the length is positive
  rw [f.block_length, sizeT_eq (by omega) hint]
  exact hlt

/-- A read that delivers nothing is not noticed, and of a file of 2^32 bytes none
are read. -/
theorem readFileECC_inexact :
    let short : FileIn := { FileIn.of [0x41] with fread := some 0 }
    readFileECC short = (1, some [0], 1) ∧ ¬ ExactOrFails short ∧
      ∀ content : List UInt8, content.length = 2 ^ 32 →
        readFileECC (.of content) = (1, some [], 0) := by
  intro short
  have hshort : readFileECC short = (1, some [0], 1) := by decide
  refine ⟨hshort, ?_, ?_⟩
  · rintro (⟨buf, hexact, htake⟩ | ⟨ret, -, hfails⟩)
    · rw [hshort] at hexact
      cases hexact
      exact absurd htake (by decide)
    · rw [hshort] at hfails
      cases hfails
  · intro content hlen
    have hzero : int32 (FileIn.of content).ftell = 0 := by
      show int32 (content.length : ℤ) = 0
      rw [hlen]
      rfl
    rw [readFileECC_eq rfl hzero]
    rfl

end LinuxDemo
