/-
LinuxDemo/FdWrite.lean

What `Serial::write`, `ExtFd::write` and `Tcp::send` have handed to the kernel
when they return.

The only call that hands anything over is the last one of the retry loop: an
outcome that is tried again is an error.  So a return says how much was handed
over, but for the exit for a short count: it returns -4 whatever the count was,
and the first bytes of the buffer are gone.
-/
import LinuxDemo.FdIo

namespace LinuxDemo

/-- The three methods. -/
inductive Writer where
  | serial
  | extFd
  | tcp

def Writer.write : Writer → ℤ → Option (ℕ → UInt8) → UInt32 → ℤ → ℤ → Kernel →
    Option (ℤ × Kernel)
  | .serial => Serial.write
  | .extFd => ExtFd.write
  | .tcp => Tcp.send

/-- A count is at most the number of bytes asked for, and one call transfers
fewer than 2^31 of them: on Linux at most 0x7ffff000. -/
def KernelCounts (size : UInt32) (k : Kernel) : Prop :=
  ∀ m en, .count m en ∈ k.writes → m ≤ size.toNat ∧ m < 2 ^ 31

/-- The test for a short count, on the counts of the kernel. -/
def ShortTest (short : ℤ → UInt32 → Bool) : Prop :=
  ∀ (m : ℕ) (size : UInt32), m < 2 ^ 31 → (short m size ↔ m ≠ size.toNat)

/-- `(unsigned)ret != _size` compares the count with the size. -/
theorem shortTest_unsigned :
    ShortTest fun ret size => decide (uint32 ret ≠ (size.toNat : ℤ)) := by
  intro m size hm
  have huint : uint32 m = m := by unfold uint32; omega
  simp only [huint, decide_eq_true_eq, ne_eq, Nat.cast_inj]

/-- So does `ret != (int)_size`: a size that is negative as an `int` is never
met by a count. -/
theorem shortTest_int : ShortTest fun ret size => decide (ret ≠ int32 size.toNat) := by
  intro m size hm
  simp only [decide_eq_true_eq, ne_eq, not_iff_not]
  by_cases hlt : size.toNat < 2 ^ 31
  · rw [int32_eq (by omega) (by omega), Nat.cast_inj]
  · have hneg : int32 size.toNat < 0 := int32_neg (by omega) (by have := size.toNat_lt; omega)
    constructor
    · intro h
      omega
    · intro h
      omega

/-- An outcome that is tried again has handed nothing over. -/
theorem taken_of_again {o : WriteOutcome} (buf : ℕ → UInt8)
    (hcount : ∀ m en, o = .count m en → m < 2 ^ 31) (h : o.again) : o.taken buf = [] := by
  cases o with
  | error en => rfl
  | count m en =>
    have hm := hcount m en rfl
    simp only [WriteOutcome.again, WriteOutcome.ret, int32_eq (by omega : -2 ^ 31 ≤ (m : ℤ))
      (by omega), decide_eq_true_eq] at h
    omega

/-- A `write` that ends hands over what its last outcome took. -/
theorem Kernel.write_spec {k k' : Kernel} {tries : Option ℤ} {buf : ℕ → UInt8} {size : UInt32}
    {o : WriteOutcome} (hk : KernelCounts size k) (h : k.write tries buf = some (o, k')) :
    o ∈ k.writes ∧ k'.handed = k.handed ++ o.taken buf := by
  obtain ⟨r, hr, heq⟩ := Option.map_eq_some_iff.mp h
  obtain ⟨hos, hagain, -⟩ := retry_spec hr
  cases heq
  refine ⟨by rw [hos]; simp, ?_⟩
  -- the outcomes before the last one are errors
  have htried : r.tried.flatMap (WriteOutcome.taken buf) = [] := by
    rw [List.flatMap_eq_nil_iff]
    intro o ho
    refine taken_of_again buf (fun m en hcount => (hk m en ?_).2) (hagain o ho)
    rw [← hcount, hos]
    exact List.mem_append_left _ ho
  simp only [List.flatMap_append, htried, List.nil_append, List.flatMap_singleton]

theorem Kernel.select_spec {k k' : Kernel} {fd : ℤ} {o : SelectOutcome}
    (h : k.select fd = some (o, k')) : k'.writes = k.writes ∧ k'.handed = k.handed := by
  obtain ⟨r, -, heq⟩ := Option.map_eq_some_iff.mp h
  cases heq
  exact ⟨rfl, rfl⟩

/-- The ways out of the common body. -/
inductive WriteExit (badFd : ℤ → Bool) (tries : Option ℤ) (short : ℤ → UInt32 → Bool) (fd : ℤ)
    (_buf : Option (ℕ → UInt8)) (_size : UInt32) (_s _u : ℤ) (k : Kernel) : ℤ → Kernel → Prop
  | rejected (hchecks : _buf = none ∨ _size ≤ 0 ∨ _s < 0 ∨ _u < 0 ∨ badFd fd) :
      WriteExit badFd tries short fd _buf _size _s _u k (-1) k
  /-- `select` fails, or times out, or is wrong. -/
  | notReady {buf : ℕ → UInt8} {o : SelectOutcome} {k₁ : Kernel} {ret : ℤ} (hbuf : _buf = some buf)
      (hchecks : ¬ (_size ≤ 0 ∨ _s < 0 ∨ _u < 0 ∨ badFd fd)) (hselect : k.select fd = some (o, k₁))
      (hret : ret ∈ [-2, 0, -5]) : WriteExit badFd tries short fd _buf _size _s _u k ret k₁
  /-- After the last `write`. -/
  | written {buf : ℕ → UInt8} {o : WriteOutcome} {k₁ k₂ : Kernel} {ret : ℤ} (hbuf : _buf = some buf)
      (hchecks : ¬ (_size ≤ 0 ∨ _s < 0 ∨ _u < 0 ∨ badFd fd))
      (hselect : k.select fd = some (.ready true, k₁)) (hwrite : k₁.write tries buf = some (o, k₂))
      (hret : ret = if o.ret < 0 then -3 else if short o.ret _size then -4 else o.ret) :
      WriteExit badFd tries short fd _buf _size _s _u k ret k₂

theorem writeFd_exit {badFd : ℤ → Bool} {tries : Option ℤ} {short : ℤ → UInt32 → Bool} {fd : ℤ}
    {_buf : Option (ℕ → UInt8)} {_size : UInt32} {_s _u ret : ℤ} {k k' : Kernel}
    (h : writeFd badFd tries short fd _buf _size _s _u k = some (ret, k')) :
    WriteExit badFd tries short fd _buf _size _s _u k ret k' := by
  rcases _buf with _ | buf
  · cases h
    exact .rejected (.inl rfl)
  · simp only [writeFd] at h
    split at h
    · rename_i hchecks
      cases h
      exact .rejected (.inr hchecks)
    · rename_i hchecks
      obtain ⟨⟨o, k₁⟩, hselect, h⟩ := Option.bind_eq_some_iff.mp h
      rcases o with en | _ | _ | _
      · cases h
        exact .notReady rfl hchecks hselect (by decide)
      · cases h
        exact .notReady rfl hchecks hselect (by decide)
      · cases h
        exact .notReady rfl hchecks hselect (by decide)
      · obtain ⟨⟨o, k₂⟩, hwrite, h⟩ := Option.bind_eq_some_iff.mp h
        dsimp only at h
        split at h
        · cases h
          exact .written rfl hchecks hselect hwrite (by rw [if_pos ‹_›])
        · split at h
          · cases h
            exact .written rfl hchecks hselect hwrite (by rw [if_neg ‹_›, if_pos ‹_›])
          · cases h
            exact .written rfl hchecks hselect hwrite (by rw [if_neg ‹_›, if_neg ‹_›])

/-- What a return of the common body says. -/
theorem writeFd_cases {badFd : ℤ → Bool} {tries : Option ℤ} {short : ℤ → UInt32 → Bool}
    (hshort : ShortTest short) {fd : ℤ} {buf : ℕ → UInt8} {size : UInt32} {s u : ℤ}
    {k k' : Kernel} {ret : ℤ} (hk : KernelCounts size k)
    (h : writeFd badFd tries short fd (some buf) size s u k = some (ret, k')) :
    ret = size.toNat ∧ k'.handed = k.handed ++ firstBytes buf size.toNat ∨
      ret ∈ [0, -1, -2, -3, -5] ∧ k'.handed = k.handed ∨
      ret = -4 ∧ ∃ m < size.toNat, k'.handed = k.handed ++ firstBytes buf m := by
  cases writeFd_exit h with
  | rejected hchecks => exact .inr (.inl ⟨by decide, rfl⟩)
  | notReady hbuf hchecks hselect hret =>
    obtain ⟨-, hhanded⟩ := k.select_spec hselect
    refine .inr (.inl ⟨?_, hhanded⟩)
    simp only [List.mem_cons, List.not_mem_nil, or_false] at hret ⊢
    tauto
  | @written buf' o k₁ _ _ hbuf hchecks hselect hwrite hret =>
    cases hbuf
    obtain ⟨hwrites, hhanded⟩ := k.select_spec hselect
    have hk₁ : KernelCounts size k₁ := by rwa [KernelCounts, hwrites]
    obtain ⟨hmem, htaken⟩ := k₁.write_spec hk₁ hwrite
    rw [hhanded] at htaken
    cases o with
    | error en =>
      have hthree : ret = -3 := hret
      rw [hthree]
      exact .inr (.inl ⟨by decide, by rw [htaken]; exact List.append_nil _⟩)
    | count m en =>
      obtain ⟨hle, hlt⟩ := hk₁ m en hmem
      have hm : WriteOutcome.ret (.count m en) = m := int32_eq (by omega) (by omega)
      rw [hm, if_neg (by omega : ¬ (m : ℤ) < 0)] at hret
      by_cases heq : m = size.toNat
      · -- all bytes
        rw [if_neg (by rw [hshort m size hlt]; exact not_not.mpr heq)] at hret
        exact .inl ⟨by rw [hret, heq], by rw [← heq]; exact htaken⟩
      · rw [if_pos ((hshort m size hlt).mpr heq)] at hret
        exact .inr (.inr ⟨hret, m, by omega, htaken⟩)

/-- **What a return of the three methods says.**  `size`: all bytes were handed
over, once and in order.  0, -1, -2, -3 or -5: none were.  -4: some first
bytes, but not all.  The descriptor is below `FD_SETSIZE`, or `FD_SET` has left
the set. -/
theorem write_hands_over (w : Writer) (fd : ℤ) (buf : ℕ → UInt8) (size : UInt32) (s u : ℤ)
    (k k' : Kernel) (ret : ℤ) (hk : KernelCounts size k)
    (h : w.write fd (some buf) size s u k = some (ret, k')) :
    ret = size.toNat ∧ k'.handed = k.handed ++ firstBytes buf size.toNat ∨
      ret ∈ [0, -1, -2, -3, -5] ∧ k'.handed = k.handed ∨
      ret = -4 ∧ ∃ m < size.toNat, k'.handed = k.handed ++ firstBytes buf m := by
  cases w with
  | serial =>
    rw [Writer.write, Serial.write] at h
    exact writeFd_cases shortTest_unsigned hk h
  | extFd =>
    rw [Writer.write, ExtFd.write] at h
    exact writeFd_cases shortTest_unsigned hk h
  | tcp =>
    rw [Writer.write, Tcp.send] at h
    exact writeFd_cases shortTest_int hk h

/-- A kernel that is interrupted once and then takes `m` bytes. -/
def takes (m : ℕ) : Kernel :=
  { selects := [.ready true], reads := [], writes := [.error EINTR, .count m 0], fdSets := []
    consumed := [], handed := [] }

/-- The buffer with the letters from `A` on. -/
def letters (i : ℕ) : UInt8 := 65 + i.toUInt8

/-- Two bytes written after an interruption. -/
theorem write_hands_over_interrupted :
    ∃ k', Writer.serial.write 3 (some letters) 2 0 0 (takes 2) = some (2, k') ∧
      k'.handed = [65, 66] := by
  obtain ⟨k', hrun⟩ :
      ∃ k', Writer.serial.write 3 (some letters) 2 0 0 (takes 2) = some (2, k') := ⟨_, rfl⟩
  refine ⟨k', hrun, ?_⟩
  have hk : KernelCounts 2 (takes 2) := by
    intro m en h
    simp only [takes, List.mem_cons, WriteOutcome.count.injEq, reduceCtorEq, List.not_mem_nil,
      false_or, or_false] at h
    rw [h.1]
    decide
  rcases write_hands_over .serial 3 letters 2 0 0 (takes 2) k' 2 hk hrun with
    ⟨-, h⟩ | ⟨h, -⟩ | ⟨h, -⟩
  · exact h
  · exact absurd h (by decide)
  · exact absurd h (by decide)

/-- A short count is reported by -4 alone, and its bytes are gone. -/
theorem write_short_count :
    ((Serial.write 3 (some letters) 2 0 0 (takes 1)).map fun (ret, k) => (ret, k.handed)) =
        some (-4, [65]) ∧
      ((ExtFd.write 3 (some letters) 2 0 0 (takes 1)).map fun (ret, k) => (ret, k.handed)) =
        some (-4, [65]) ∧
      ((Tcp.send 3 (some letters) 2 0 0 (takes 1)).map fun (ret, k) => (ret, k.handed)) =
        some (-4, [65]) := by
  decide

end LinuxDemo
