/-
LinuxDemo/HashMd5Stream.lean

`MD5_Update` and `MD5_Final` against the reference, for every sequence of
chunks.

The invariant is `Buffers c h buf`: the chaining registers are `h`, and the
words of `c->data` hold the bytes `buf` that do not fill a block.  A word that
is only partly filled has zero high bytes (`Holds`), which is what the macros
`p_c2l` and `p_c2l_p` rely on; the words after the last byte may be anything.

* `pC2l_spec`, `pC2lP_spec`, `c2lP_spec`, `Holds.fill` — one lemma per macro;
* `md5Rest_buffers`, `md5Complete_buffers`, `md5Stay_buffers` — the branches of
  `MD5_Update`, each absorbing its bytes;
* `Represents` — the context after a byte string, bit count included;
* `md5Final_spec` — the padding branches of `MD5_Final`.
-/
import LinuxDemo.HashMd5Block

namespace LinuxDemo

open Rfc1321 (process processBytes)

/-! ### The sixteen-word buffer -/

theorem rd_wr (p : Vector UInt32 16) {i : ℕ} (hi : i < 16) (l : UInt32) (j : ℕ) :
    rd (wr p i l) j = if j = i then l else rd p j := by
  simp only [rd, wr, Vector.getElem?_setIfInBounds, hi, if_true]
  split
  · rename_i heq
    rw [if_pos heq.symm, Option.getD_some]
  · rename_i hne
    rw [if_neg (Ne.symm hne)]

theorem rd_of_le (p : Vector UInt32 16) {i : ℕ} (hi : 16 ≤ i) : rd p i = 0 := by
  rw [rd, Vector.getElem?_eq_none hi, Option.getD_none]

/-- The words of `p` hold the bytes `buf`, the last word padded with zeros. -/
def Holds (p : Vector UInt32 16) (buf : List UInt8) : Prop :=
  ∀ i, 4 * i < buf.length → rd p i = wordAt buf i

theorem holds_nil (p : Vector UInt32 16) : Holds p [] := fun _ h => absurd h (Nat.not_lt_zero _)

/-- A full buffer is a block, word for word. -/
theorem Holds.eq_wordAt {p : Vector UInt32 16} {buf : List UInt8} (h : Holds p buf)
    (hlen : buf.length = 64) : rd p = wordAt buf := by
  funext i
  by_cases hi : i < 16
  · exact h i (by omega)
  · rw [rd_of_le p (by omega), wordAt, List.drop_eq_nil_of_le (by omega)]
    rfl

/-- Writing the word after the last full one appends bytes to the buffer. -/
theorem Holds.write {p : Vector UInt32 16} {buf : List UInt8} (h : Holds p buf)
    (ext : List UInt8) (sw : ℕ) (hsw : buf.length / 4 = sw) (h16 : sw < 16)
    (hext : buf.length + ext.length ≤ 4 * sw + 4) :
    Holds (wr p sw (leWord (buf.drop (4 * sw) ++ ext))) (buf ++ ext) := by
  intro i hi
  rw [List.length_append] at hi
  rw [rd_wr p h16]
  split
  · rename_i heq
    rw [heq, wordAt, List.drop_append_of_le_length (by omega), List.take_of_length_le]
    rw [List.length_append, List.length_drop]
    omega
  · rw [wordAt_append_left ext (by omega)]
    exact h i (by omega)

/-! ### The macros -/

theorem leWord_take (bs : List UInt8) : leWord (bs.take 4) = leWord bs := by
  match bs with
  | [] | [_] | [_, _] | [_, _, _] => rfl
  | _ :: _ :: _ :: _ :: _ => rfl

theorem c2l_eq (c : List UInt8) : c2l c = (leWord c, c.drop 4) := by
  simp only [c2l, leWord, deref, List.getD_eq_getElem?_getD, List.getElem?_drop, Nat.add_zero]

/-- `p_c2l` completes a word that holds `sc` bytes, whatever `l` was when `sc`
is zero. -/
theorem pC2l_spec {pre c : List UInt8} {l : UInt32} {sc : ℕ} (hpre : pre.length = sc)
    (h4 : sc < 4) (hl : sc ≠ 0 → l = leWord pre) (hc : 4 ≤ sc + c.length) :
    pC2l c l sc = (leWord (pre ++ c.take (4 - sc)), c.drop (4 - sc)) := by
  subst hpre
  match pre, c with
  | [], a :: b :: d :: e :: c =>
    simp [pC2l, pC2lCase0, pC2lCase1, pC2lCase2, pC2lCase3, deref, leWord]
  | [x], b :: d :: e :: c =>
    rw [hl (by simp)]
    simp [pC2l, pC2lCase1, pC2lCase2, pC2lCase3, deref, leWord]
  | [x, y], d :: e :: c =>
    rw [hl (by simp)]
    simp [pC2l, pC2lCase2, pC2lCase3, deref, leWord]
  | [x, y, z], e :: c =>
    rw [hl (by simp)]
    simp [pC2l, pC2lCase3, deref, leWord]
  | _ :: _ :: _ :: _ :: _, _ => simp at h4; omega
  | [], [] | [], [_] | [], [_, _] | [], [_, _, _] | [_], [] | [_], [_] | [_], [_, _]
  | [_, _], [] | [_, _], [_] | [_, _, _], [] => simp at hc

/-- `p_c2l_p` adds bytes to a word that is not completed by them. -/
theorem pC2lP_spec {pre c : List UInt8} {l : UInt32} {sc : ℕ} (hpre : pre.length = sc)
    (h0 : c ≠ []) (h4 : sc + c.length < 4) (hl : sc ≠ 0 → l = leWord pre) :
    (pC2lP c l sc c.length).1 = leWord (pre ++ c) := by
  subst hpre
  match pre, c with
  | [], [a] => simp [pC2lP, pC2lPCase0, deref, leWord]
  | [], [a, b] => simp [pC2lP, pC2lPCase0, pC2lPCase1, deref, leWord]
  | [], [a, b, d] => simp [pC2lP, pC2lPCase0, pC2lPCase1, pC2lPCase2, deref, leWord]
  | [x], [b] =>
    rw [hl (by simp)]
    simp [pC2lP, pC2lPCase1, deref, leWord]
  | [x], [b, d] =>
    rw [hl (by simp)]
    simp [pC2lP, pC2lPCase1, pC2lPCase2, deref, leWord]
  | [x, y], [d] =>
    rw [hl (by simp)]
    simp [pC2lP, pC2lPCase2, deref, leWord]
  | _, [] => exact absurd rfl h0
  | [], _ :: _ :: _ :: _ :: _ | [_], _ :: _ :: _ :: _ | [_, _], _ :: _ :: _
  | _ :: _ :: _ :: _, _ :: _ => simp at h4; omega

/-- `c2l_p` reads the last bytes, fewer than a word. -/
theorem c2lP_spec {c : List UInt8} (h4 : c.length < 4) : c2lP c c.length = leWord c := by
  match c with
  | [] => rfl
  | [a] => simp [c2lP, deref, leWord]
  | [a, b] => simp [c2lP, deref, leWord, UInt32.or_comm]
  | [a, b, d] =>
    simp only [c2lP, deref, leWord, List.length_cons, List.length_nil, List.drop_succ_cons,
      List.drop_zero, List.getD_cons_zero, List.getD_cons_succ, List.getD_nil]
    rw [UInt32.or_assoc, UInt32.or_comm]
    simp [UInt32.or_comm]
  | _ :: _ :: _ :: _ :: _ => simp at h4; omega

/-- `fillWords` appends whole words to the buffer. -/
theorem Holds.fill {p : Vector UInt32 16} {buf : List UInt8} (h : Holds p buf) (n : ℕ)
    (data : List UInt8) (sw : ℕ) (hlen : buf.length = 4 * sw) (h16 : sw + n ≤ 16)
    (hdata : 4 * n ≤ data.length) :
    Holds (fillWords n p data sw).1 (buf ++ data.take (4 * n)) ∧
      (fillWords n p data sw).2 = data.drop (4 * n) := by
  induction n generalizing p buf data sw with
  | zero => simpa [fillWords] using h
  | succ n ih =>
    have hone : (data.take 4).length = 4 := by rw [List.length_take]; omega
    have hw := h.write (data.take 4) sw (by omega) (by omega) (by omega)
    rw [List.drop_eq_nil_of_le (by omega), List.nil_append, leWord_take] at hw
    obtain ⟨hfill, hrest⟩ := ih hw (data.drop 4) (sw + 1)
      (by rw [List.length_append]; omega) (by omega) (by rw [List.length_drop]; omega)
    have htake : data.take 4 ++ (data.drop 4).take (4 * n) = data.take (4 * (n + 1)) := by
      rw [← List.take_add, Nat.mul_succ, Nat.add_comm]
    rw [fillWords, c2l_eq]
    refine ⟨?_, ?_⟩
    · rw [← htake, ← List.append_assoc]
      exact hfill
    · rw [hrest, List.drop_drop, Nat.mul_succ, Nat.add_comm]

/-- Completing the word that the last bytes of the buffer started. -/
theorem Holds.complete {p : Vector UInt32 16} {buf : List UInt8} (h : Holds p buf)
    (data : List UInt8) (hbuf : buf.length < 64) (hdata : 4 ≤ buf.length % 4 + data.length) :
    Holds (wr p (buf.length / 4)
        (pC2l data (rd p (buf.length / 4)) (buf.length % 4)).1)
      (buf ++ data.take (4 - buf.length % 4)) ∧
    (pC2l data (rd p (buf.length / 4)) (buf.length % 4)).2 = data.drop (4 - buf.length % 4) := by
  have hpre : (buf.drop (4 * (buf.length / 4))).length = buf.length % 4 := by
    rw [List.length_drop]; omega
  have hl : buf.length % 4 ≠ 0 →
      rd p (buf.length / 4) = leWord (buf.drop (4 * (buf.length / 4))) := by
    intro hsc
    rw [h _ (by omega), wordAt, leWord_take]
  rw [pC2l_spec hpre (Nat.mod_lt _ (by decide)) hl hdata]
  refine ⟨h.write _ _ rfl (by omega) ?_, rfl⟩
  rw [List.length_take]
  omega

/-- Starting a word with the last bytes. -/
theorem Holds.last {p : Vector UInt32 16} {buf : List UInt8} (h : Holds p buf)
    (ext : List UInt8) {sw : ℕ} (hlen : buf.length = 4 * sw) (h16 : sw < 16) (hext : ext.length < 4) :
    Holds (wr p sw (c2lP ext ext.length)) (buf ++ ext) := by
  have hw := h.write ext sw (by omega) h16 (by omega)
  rwa [List.drop_eq_nil_of_le (by omega), List.nil_append, ← c2lP_spec hext] at hw

/-! ### The branches of MD5_Update -/

/-- `c` holds the chaining state and the bytes kept back in `s`, with bit
count `hi:lo`. -/
structure Buffers (c : Md5Ctx) (lo hi : UInt32) (s : Regs × List UInt8) : Prop where
  regs : c.regs = s.1
  num : c.num = s.2.length
  data : Holds c.data s.2
  lo : c.Nl = lo
  hi : c.Nh = hi

theorem md5Tail_buffers (c : Md5Ctx) {data : List UInt8} (h : data.length < 64) :
    Buffers (md5Tail c data data.length) c.Nl c.Nh (c.regs, data) := by
  rw [md5Tail]
  split
  · rename_i h0
    rw [List.length_eq_zero_iff.mp h0]
    exact ⟨rfl, rfl, holds_nil _, rfl, rfl⟩
  · -- whole words first, then the bytes of the last one
    obtain ⟨hfill, hrest⟩ :=
      (holds_nil c.data).fill (data.length / 4) data 0 rfl (by omega) (by omega)
    have hext : (data.drop (4 * (data.length / 4))).length = data.length % 4 := by
      rw [List.length_drop]; omega
    have hbuf : (data.take (4 * (data.length / 4))).length = 4 * (data.length / 4) := by
      rw [List.length_take]; omega
    have hw := hfill.last (data.drop (4 * (data.length / 4))) hbuf (by omega) (by omega)
    rw [List.nil_append, List.take_append_drop, hext, ← hrest] at hw
    exact ⟨rfl, rfl, hw, rfl, rfl⟩

/-- The block loop absorbs its bytes from the registers it starts with. -/
theorem md5Rest_buffers (c : Md5Ctx) (data : List UInt8) :
    Buffers (md5Rest c data data.length) c.Nl c.Nh (absorb processBytes 64 c.regs data) := by
  induction hk : data.length using Nat.strong_induction_on generalizing c data with
  | _ k ih =>
    subst hk
    rw [md5Rest]
    split
    · rename_i hlt
      rw [absorb_short c.regs hlt]
      exact md5Tail_buffers c hlt
    · rename_i hge
      -- one block is absorbed; the induction hypothesis is about the rest
      obtain ⟨hfill, hrest⟩ := (holds_nil c.data).fill 16 data 0 rfl
        (by omega) (by omega)
      rw [List.nil_append] at hfill
      have hblock := hfill.eq_wordAt (by rw [List.length_take]; omega)
      have hlen : (data.drop (4 * 16)).length = data.length - 64 := by rw [List.length_drop]
      have hih := ih (data.length - 64) (by omega)
        { c with
          data := (fillWords 16 c.data data 0).1
          regs := processBytes c.regs (data.take 64) } (data.drop 64) hlen
      rw [absorb_step (by decide) c.regs (by omega : 64 ≤ data.length)]
      simp only [show 4 * (16 / 4) = 16 from rfl, hrest, md5Block_64, hblock]
      exact hih

/-- The data fills the block: the buffer and the data are absorbed together. -/
theorem md5Complete_buffers {c : Md5Ctx} {lo hi : UInt32} {h : Regs} {buf : List UInt8}
    (hc : Buffers c lo hi (h, buf)) {data : List UInt8} (hbuf : buf.length < 64)
    (hlen : 64 ≤ buf.length + data.length) :
    Buffers (md5Complete c data data.length) lo hi
      (absorb processBytes 64 h (buf ++ data)) := by
  have hnum : c.num = buf.length := hc.num
  have hdata : Holds c.data buf := hc.data
  obtain ⟨hw, hrest⟩ := hdata.complete data hbuf (by omega)
  obtain ⟨hfill, hrest'⟩ := hw.fill (16 - (buf.length / 4 + 1))
    (data.drop (4 - buf.length % 4)) (buf.length / 4 + 1)
    (by rw [List.length_append, List.length_take]; omega) (by omega)
    (by rw [List.length_drop]; omega)
  -- the words written are the bytes up to the end of the block
  have htake : data.take (4 - buf.length % 4) ++
      (data.drop (4 - buf.length % 4)).take (4 * (16 - (buf.length / 4 + 1)))
        = data.take (64 - buf.length) := by
    rw [← List.take_add]; congr 1; omega
  have hdrop : (data.drop (4 - buf.length % 4)).drop (4 * (16 - (buf.length / 4 + 1)))
      = data.drop (64 - buf.length) := by
    rw [List.drop_drop]; congr 1; omega
  rw [List.append_assoc, htake] at hfill
  rw [hdrop] at hrest'
  have hblock : (buf ++ data.take (64 - buf.length)).length = 64 := by
    rw [List.length_append, List.length_take]; omega
  have hsplit : buf ++ data
      = (buf ++ data.take (64 - buf.length)) ++ data.drop (64 - buf.length) := by
    rw [List.append_assoc, List.take_append_drop]
  have hlen' : data.length - (64 - buf.length) = (data.drop (64 - buf.length)).length := by
    rw [List.length_drop]
  rw [md5Complete, hsplit, absorb_block_append (by decide) _ _ hblock]
  simp only [hnum, hrest, hrest', md5Block_64, hfill.eq_wordAt hblock, hc.regs, hlen']
  have hR := md5Rest_buffers
    { regs := processBytes h (buf ++ data.take (64 - buf.length)), Nl := c.Nl, Nh := c.Nh,
      data := (fillWords (16 - (buf.length / 4 + 1))
        (wr c.data (buf.length / 4) (pC2l data (rd c.data (buf.length / 4)) (buf.length % 4)).1)
        (data.drop (4 - buf.length % 4)) (buf.length / 4 + 1)).1,
      num := 0 } (data.drop (64 - buf.length))
  rw [← hc.lo, ← hc.hi]
  exact hR

/-- The data stays inside the block. -/
theorem md5Stay_buffers {c : Md5Ctx} {lo hi : UInt32} {h : Regs} {buf : List UInt8}
    (hc : Buffers c lo hi (h, buf)) {data : List UInt8} (hdata : data ≠ [])
    (hlen : buf.length + data.length < 64) :
    Buffers (md5Stay c data data.length) lo hi (h, buf ++ data) := by
  have hnum : c.num = buf.length := hc.num
  have hold : Holds c.data buf := hc.data
  have hsum : (buf.length + data.length) % 2 ^ 32 = buf.length + data.length :=
    Nat.mod_eq_of_lt (by omega)
  have hsc : (buf.length % 4 + data.length) % 2 ^ 32 = buf.length % 4 + data.length :=
    Nat.mod_eq_of_lt (by omega)
  simp only [md5Stay, hnum, hsum, hsc]
  split
  · -- inside one word
    rename_i h4
    have hpre : (buf.drop (4 * (buf.length / 4))).length = buf.length % 4 := by
      rw [List.length_drop]; omega
    have hw := hold.write data (buf.length / 4) rfl (by omega) (by omega)
    rw [← pC2lP_spec (l := rd c.data (buf.length / 4)) hpre hdata (by omega)] at hw
    · exact ⟨hc.regs, by rw [List.length_append], hw, hc.lo, hc.hi⟩
    · intro hne
      rw [hold _ (by omega), wordAt, leWord_take]
  · -- across words: complete the first, copy the whole ones, start the last
    obtain ⟨hw, hrest⟩ := hold.complete data (by omega) (by omega)
    obtain ⟨hfill, hrest'⟩ := hw.fill
      ((buf.length + data.length) / 4 - (buf.length / 4 + 1))
      (data.drop (4 - buf.length % 4)) (buf.length / 4 + 1)
      (by rw [List.length_append, List.length_take]; omega) (by omega)
      (by rw [List.length_drop]; omega)
    set n := (buf.length + data.length) / 4 - (buf.length / 4 + 1) with hn
    set ext := (data.drop (4 - buf.length % 4)).drop (4 * n) with hext
    have hextlen : ext.length = (buf.length + data.length) % 4 := by
      simp only [hext, List.length_drop]; omega
    have hwhole : (buf ++ data.take (4 - buf.length % 4) ++
        (data.drop (4 - buf.length % 4)).take (4 * n)).length
          = 4 * (buf.length / 4 + 1 + n) := by
      simp only [List.length_append, List.length_take, List.length_drop]; omega
    have hall : buf ++ data.take (4 - buf.length % 4) ++
        (data.drop (4 - buf.length % 4)).take (4 * n) ++ ext = buf ++ data := by
      rw [List.append_assoc, List.take_append_drop, List.append_assoc, List.take_append_drop]
    simp only [hrest, hrest']
    split
    · have hlast := hfill.last ext hwhole (by omega) (by omega)
      rw [hextlen, hall] at hlast
      exact ⟨hc.regs, by rw [List.length_append], hlast, hc.lo, hc.hi⟩
    · rename_i hec
      have hnil : ext = [] := List.length_eq_zero_iff.mp (by omega)
      rw [hnil, List.append_nil] at hall
      rw [hall] at hfill
      exact ⟨hc.regs, by rw [List.length_append], hfill, hc.lo, hc.hi⟩

/-! ### The context after a byte string -/

/-- `len<<3`, the low word of the bits of `len` bytes. -/
theorem toNat_shl3 (len : ℕ) : (UInt32.ofNat len <<< 3).toNat = 8 * len % 2 ^ 32 := by
  rw [UInt32.toNat_shiftLeft, UInt32.toNat_ofNat']
  simp [Nat.shiftLeft_eq]
  omega

/-- `len>>29`, the high word of the bits of `len` bytes. -/
theorem toNat_shr29 {len : ℕ} (h : len < 2 ^ 32) :
    (UInt32.ofNat len >>> 29).toNat = 8 * len / 2 ^ 32 := by
  rw [UInt32.toNat_shiftRight, UInt32.toNat_ofNat']
  simp [Nat.shiftRight_eq_div_pow]
  omega

/-- The bit count of `MD5_Update` is the 64-bit count of the bytes so far: the
low word wraps exactly when the comparison with its old value says so. -/
theorem md5Count_eq {c : Md5Ctx} {n len : ℕ} (hlen : len < 2 ^ 32)
    (hlo : c.Nl = UInt32.ofNat (8 * n)) (hhi : c.Nh = UInt32.ofNat (8 * n / 2 ^ 32)) :
    md5Count c len =
      { c with
        Nl := UInt32.ofNat (8 * (n + len))
        Nh := UInt32.ofNat (8 * (n + len) / 2 ^ 32) } := by
  have hl : c.Nl + UInt32.ofNat len <<< 3 = UInt32.ofNat (8 * (n + len)) := by
    rw [← UInt32.toNat_inj, UInt32.toNat_add, toNat_shl3, hlo]
    simp only [UInt32.toNat_ofNat']
    omega
  -- the carry: the low word wrapped exactly if it is now below its old value
  have hh : (if UInt32.ofNat (8 * (n + len)) < c.Nl then c.Nh + 1 else c.Nh) +
      UInt32.ofNat len >>> 29 = UInt32.ofNat (8 * (n + len) / 2 ^ 32) := by
    rw [← UInt32.toNat_inj, UInt32.toNat_add, toNat_shr29 hlen, hlo, hhi]
    split
    · rename_i hlt
      simp only [UInt32.lt_iff_toNat_lt, UInt32.toNat_ofNat'] at hlt
      simp only [UInt32.toNat_add, UInt32.toNat_ofNat', UInt32.toNat_one]
      omega
    · rename_i hlt
      simp only [UInt32.lt_iff_toNat_lt, UInt32.toNat_ofNat'] at hlt
      simp only [UInt32.toNat_ofNat']
      omega
  simp only [md5Count, hl, hh]

/-- `c` is the context after the bytes `msg`. -/
def Represents (c : Md5Ctx) (msg : List UInt8) : Prop :=
  Buffers c (UInt32.ofNat (8 * msg.length)) (UInt32.ofNat (8 * msg.length / 2 ^ 32))
    (absorb processBytes 64 Rfc1321.initial msg)

/-- The words that the data buffer held before the first byte do not matter. -/
theorem md5Init_represents (stale : Vector UInt32 16) :
    Represents { md5Init with data := stale } [] :=
  ⟨rfl, rfl, holds_nil _, rfl, rfl⟩

/-- **One `MD5_Update` appends its chunk.** -/
theorem md5Update_represents {c : Md5Ctx} {msg : List UInt8} (hc : Represents c msg)
    (chunk : List UInt8) (hlen : msg.length + chunk.length < 2 ^ 32) :
    Represents (md5Update c chunk chunk.length) (msg ++ chunk) := by
  rw [md5Update]
  split
  · rename_i h0
    rw [List.length_eq_zero_iff.mp h0, List.append_nil]
    exact hc
  · rename_i h0
    have hne : chunk ≠ [] := fun h => h0 (by rw [h, List.length_nil])
    -- the context with its new bit count, before any byte is moved
    have hcount : Buffers (md5Count c chunk.length)
        (UInt32.ofNat (8 * (msg ++ chunk).length))
        (UInt32.ofNat (8 * (msg ++ chunk).length / 2 ^ 32))
        (absorb processBytes 64 Rfc1321.initial msg) := by
      rw [md5Count_eq (by omega) hc.lo hc.hi, List.length_append]
      exact ⟨hc.regs, hc.num, hc.data, rfl, rfl⟩
    have hkept := absorb_rest_length (f := processBytes) (n := 64) (by decide)
      Rfc1321.initial msg
    rw [Represents, absorb_append (by decide)]
    generalize md5Count c chunk.length = c' at hcount
    generalize absorb processBytes 64 Rfc1321.initial msg = s at hcount hkept
    obtain ⟨h, buf⟩ := s
    dsimp only at hkept
    have hnum : c'.num = buf.length := hcount.num
    have hadd : (buf.length + chunk.length) % 2 ^ 32 = buf.length + chunk.length :=
      Nat.mod_eq_of_lt (by omega)
    simp only [hnum, hadd]
    -- the branches of the code: bytes are kept back or not, and the block fills or not
    split
    · split
      · exact md5Complete_buffers hcount (by omega) (by omega)
      · rw [absorb_short h (by rw [List.length_append]; omega)]
        exact md5Stay_buffers hcount hne (by omega)
    · rename_i h0
      have hnil : buf = [] := List.length_eq_zero_iff.mp (by omega)
      have hR := md5Rest_buffers c' chunk
      rw [hcount.lo, hcount.hi, hcount.regs] at hR
      rw [hnil, List.nil_append]
      exact hR

/-! ### MD5_Final -/

theorem l2c_eq (l : UInt32) : l2c l = leBytes l := by
  have hand (w : UInt32) : (w &&& 0xff).toUInt8 = w.toUInt8 := by
    rw [← UInt8.toNat_inj, UInt32.toNat_toUInt8, UInt32.toNat_toUInt8, UInt32.toNat_and,
      show (0xff : UInt32).toNat = 2 ^ 8 - 1 from rfl, Nat.and_two_pow_sub_one_eq_mod, Nat.mod_mod]
  simp only [l2c, leBytes, hand]

/-- Zeroing words appends zero bytes to a buffer of whole words. -/
theorem Holds.zero {n : ℕ} {p : Vector UInt32 16} {buf : List UInt8} {i : ℕ} (h : Holds p buf)
    (hlen : buf.length = 4 * i) (h16 : i + n ≤ 16) :
    Holds (zeroWords n p i) (buf ++ List.replicate (4 * n) 0) := by
  induction n generalizing p buf i with
  | zero => simpa [zeroWords] using h
  | succ n ih =>
    have hw := h.write (List.replicate 4 0) i (by omega) (by omega)
      (by rw [List.length_replicate]; omega)
    rw [List.drop_eq_nil_of_le (by omega)] at hw
    have hih := ih (i := i + 1) hw (by rw [List.length_append, List.length_replicate]; omega)
      (by omega)
    rwa [List.append_assoc, List.replicate_append_replicate,
      show 4 + 4 * n = 4 * (n + 1) by omega] at hih

/-- Writing a whole word appends its bytes. -/
theorem Holds.word {p : Vector UInt32 16} {buf : List UInt8} {i : ℕ} (h : Holds p buf)
    (hlen : buf.length = 4 * i) (h16 : i < 16) (w : UInt32) :
    Holds (wr p i w) (buf ++ leBytes w) := by
  have hw := h.write (leBytes w) i (by omega) h16 (by rw [leBytes_length]; omega)
  rwa [List.drop_eq_nil_of_le (by omega), List.nil_append, leWord_leBytes] at hw

/-- The last block: the bytes so far, zeros up to byte 56, and the bit count. -/
theorem md5Finish_spec (c : Md5Ctx) {p : Vector UInt32 16} {blk : List UInt8} {i : ℕ}
    (h : Holds p blk) (hlen : blk.length = 4 * i) (hi : i ≤ 14) :
    (md5Finish c p i).1 = Rfc1321.output (processBytes c.regs
      (blk ++ List.replicate (4 * (14 - i)) 0 ++ leBytes c.Nl ++ leBytes c.Nh)) := by
  have hz := h.zero (n := 14 - i) hlen (by omega)
  have hlo := hz.word (i := 14) (by rw [List.length_append, List.length_replicate]; omega)
    (by decide) c.Nl
  have hhi := hlo.word (i := 15)
    (by simp only [List.length_append, List.length_replicate, leBytes_length]; omega)
    (by decide) c.Nh
  have hblock := hhi.eq_wordAt
    (by simp only [List.length_append, List.length_replicate, leBytes_length]; omega)
  simp only [md5Finish, md5Block_64, l2c_eq, show 16 - 2 = 14 from rfl, show 16 - 1 = 15 from rfl,
    hblock]
  rfl

/-- The marker byte and the zeros that complete its word. -/
theorem marker_take (m : ℕ) : ([0x80, 0x00, 0x00, 0x00] : List UInt8).take (4 - m % 4) =
    0x80 :: List.replicate (3 - m % 4) 0 := by
  have hzeros : ([0x00, 0x00, 0x00] : List UInt8) = List.replicate 3 0 := rfl
  have hcount : 4 - m % 4 = 3 - m % 4 + 1 := by omega
  rw [hcount, List.take_succ_cons, hzeros, List.take_replicate, Nat.min_eq_left (Nat.sub_le _ _)]

/-- The padding of a message of `n` bytes whose last ones are `buf`.  If the
bit count fits behind the marker, zeros fill the words up to the fourteenth. -/
theorem padding_fits {buf : List UInt8} {n : ℕ} (hbuf : buf.length = n % 64)
    (h56 : buf.length < 56) :
    buf ++ Rfc1321.padding n = buf ++ 0x80 :: List.replicate (3 - buf.length % 4) 0 ++
      List.replicate (4 * (14 - (buf.length / 4 + 1))) 0 ++ Rfc1321.lengthBytes n := by
  have hz : Rfc1321.padZeros n = 3 - buf.length % 4 + 4 * (14 - (buf.length / 4 + 1)) := by
    rw [Rfc1321.padZeros]
    omega
  rw [Rfc1321.padding, hz, ← List.replicate_append_replicate]
  simp only [List.append_assoc, List.cons_append]

/-- If it does not, zeros fill the block, and the bit count is at the end of a
block of its own. -/
theorem padding_overflows {buf : List UInt8} {n : ℕ} (hbuf : buf.length = n % 64)
    (h56 : 56 ≤ buf.length) :
    buf ++ Rfc1321.padding n = buf ++ 0x80 :: List.replicate (3 - buf.length % 4) 0 ++
      List.replicate (4 * (16 - (buf.length / 4 + 1))) 0 ++
        (List.replicate 56 0 ++ Rfc1321.lengthBytes n) := by
  have hz : Rfc1321.padZeros n =
      3 - buf.length % 4 + (4 * (16 - (buf.length / 4 + 1)) + 56) := by
    rw [Rfc1321.padZeros]
    omega
  rw [Rfc1321.padding, hz, ← List.replicate_append_replicate, ← List.replicate_append_replicate]
  simp only [List.append_assoc, List.cons_append]

/-- **`MD5_Final` stores the digest of the bytes absorbed.**  The padding
either ends in the block the bytes are in or takes one block more. -/
theorem md5Final_spec {c : Md5Ctx} {msg : List UInt8} (hc : Represents c msg) :
    (md5Final c).1 = Rfc1321.md5 msg := by
  have hkept := absorb_rest_length (f := processBytes) (n := 64) (by decide)
    Rfc1321.initial msg
  rw [Rfc1321.md5, absorb_append (by decide)]
  rw [Represents] at hc
  -- the state before the padding, whatever the bytes were
  generalize absorb processBytes 64 Rfc1321.initial msg = s at hc hkept
  obtain ⟨h, buf⟩ := s
  dsimp only at hkept
  have hnum : c.num = buf.length := hc.num
  have hdata : Holds c.data buf := hc.data
  obtain ⟨hw, -⟩ := hdata.complete [0x80, 0x00, 0x00, 0x00] (by omega)
    (by simp)
  rw [marker_take] at hw
  have hlen : (buf ++ 0x80 :: List.replicate (3 - buf.length % 4) 0).length
      = 4 * (buf.length / 4 + 1) := by
    simp only [List.length_append, List.length_cons, List.length_replicate]
    omega
  simp only [md5Final, hnum]
  split
  · -- two blocks: the zeros end the first, and the second starts empty
    rename_i h56
    have hz := hw.zero (n := 16 - (buf.length / 4 + 1)) hlen (by omega)
    have hfull : (buf ++ 0x80 :: List.replicate (3 - buf.length % 4) 0 ++
        List.replicate (4 * (16 - (buf.length / 4 + 1))) 0).length = 64 := by
      rw [List.length_append, hlen, List.length_replicate]
      omega
    have hblock := hz.eq_wordAt hfull
    rw [padding_overflows hkept h56, absorb_block_append (by decide) _ _ hfull,
      absorb_block (by decide) _ (by simp [Rfc1321.lengthBytes]),
      md5Finish_spec _ (holds_nil _) rfl (by decide), md5Block_64, hblock]
    simp only [hc.regs, hc.lo, hc.hi, Rfc1321.lengthBytes, List.nil_append, List.append_assoc,
      processBytes, Nat.sub_zero, show 4 * 14 = 56 from rfl]
  · rename_i h56
    have hpad := padding_fits hkept (Nat.lt_of_not_le h56)
    have hblock : (buf ++ Rfc1321.padding msg.length).length = 64 := by
      rw [hpad, List.length_append, List.length_append, hlen, List.length_replicate]
      simp only [Rfc1321.lengthBytes, List.length_append, leBytes_length]
      omega
    rw [absorb_block (by decide) _ hblock, md5Finish_spec c hw hlen (by omega), hpad]
    simp only [hc.regs, hc.lo, hc.hi, Rfc1321.lengthBytes, List.append_assoc]

/-! ### Whole runs -/

/-- `MD5_Update` once per chunk. -/
def md5UpdateAll (c : Md5Ctx) (chunks : List (List UInt8)) : Md5Ctx :=
  chunks.foldl (fun c chunk => md5Update c chunk chunk.length) c

/-- A sequence of updates appends its chunks in order. -/
theorem md5UpdateAll_represents {c : Md5Ctx} {msg : List UInt8} (chunks : List (List UInt8))
    (hc : Represents c msg) (hlen : msg.length + chunks.flatten.length < 2 ^ 32) :
    Represents (md5UpdateAll c chunks) (msg ++ chunks.flatten) := by
  induction chunks generalizing c msg with
  | nil => simpa [md5UpdateAll] using hc
  | cons chunk chunks ih =>
    rw [List.flatten_cons, List.length_append] at hlen
    have hone := md5Update_represents hc chunk (by omega)
    have hall := ih hone (by rw [List.length_append]; omega)
    rwa [List.append_assoc] at hall

/-- The digest after any chunks, from any contents of the data buffer. -/
theorem md5Final_updateAll (stale : Vector UInt32 16) (chunks : List (List UInt8))
    (hlen : chunks.flatten.length < 2 ^ 32) :
    (md5Final (md5UpdateAll { md5Init with data := stale } chunks)).1
      = Rfc1321.md5 chunks.flatten := by
  have hall := md5UpdateAll_represents chunks (md5Init_represents stale)
    (by simpa using hlen)
  exact md5Final_spec hall

/-- The one-shot wrapper computes the digest. -/
theorem md5HashBuffer_eq {inBuffer : List UInt8} (hlen : inBuffer.length < 2 ^ 32) :
    md5HashBuffer inBuffer inBuffer.length = Rfc1321.md5 inBuffer :=
  md5Final_spec (md5Update_represents (md5Init_represents _) inBuffer
    (by simpa using hlen))

/-- **`Md5HashBuffer` is MD5**: sixteen bytes, the RFC 1321 digest of the
buffer, for every length that a `uint32` can hold. -/
theorem md5HashBuffer_digest (inBuffer : List UInt8) (hlen : inBuffer.length < 2 ^ 32) :
    md5HashBuffer inBuffer inBuffer.length = Rfc1321.md5 inBuffer ∧
      (md5HashBuffer inBuffer inBuffer.length).length = 16 := by
  have heq := md5HashBuffer_eq hlen
  exact ⟨heq, by rw [heq]; rfl⟩

theorem md5HashBuffer_digest_abc :
    md5HashBuffer [0x61, 0x62, 0x63] 3 = Rfc1321.md5 [0x61, 0x62, 0x63] ∧
      (md5HashBuffer [0x61, 0x62, 0x63] 3).length = 16 :=
  md5HashBuffer_digest [0x61, 0x62, 0x63] (by decide)

/-- **Chunking does not matter**: any sequence of updates gives the digest of
the concatenation, whatever the data buffer held before (`MD5_Init` itself
leaves zeros there). -/
theorem md5_chunking (stale : Vector UInt32 16) (chunks : List (List UInt8))
    (hlen : chunks.flatten.length < 2 ^ 32) :
    (md5Final (md5UpdateAll { md5Init with data := stale } chunks)).1
      = md5HashBuffer chunks.flatten chunks.flatten.length := by
  rw [md5Final_updateAll stale chunks hlen, md5HashBuffer_eq hlen]

theorem md5_chunking_ab_c :
    (md5Final (md5UpdateAll md5Init [[0x61, 0x62], [], [0x63]])).1
      = md5HashBuffer [0x61, 0x62, 0x63] 3 :=
  md5_chunking (Vector.replicate 16 0) [[0x61, 0x62], [], [0x63]] (by decide)

end LinuxDemo
