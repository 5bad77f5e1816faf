/-
LinuxDemo/FdRead.lean

When `Serial::read` and `ExtFd::read` report every byte they consume.

A `read` makes one `_read` for each byte, and a `_read` is one `Attempt`: with
the repetitions taken out, the outcomes of the kernel are a list of them
(`attempts`).  A `read` of `size` bytes consumes the leading bytes of that
list, at most `size`, and if there are fewer it takes one attempt more, the one
that stops it.  A time-out reports the bytes before it; a failure, an end of
file included, reports a code and nothing else.  So the bytes are kept exactly
if no failure comes after some of them, and if their number is positive as an
`int`.
-/
import LinuxDemo.FdIo

namespace LinuxDemo

/-! ### Attempts -/

/-- What one `_read` finds. -/
inductive Attempt where
  | byte (ch : UInt8)
  /-- The time is up. -/
  | quiet
  | failed
deriving DecidableEq

def ReadOutcome.attempt : ReadOutcome → Attempt
  | .byte ch => .byte ch
  | .error _ | .eof => .failed

/-- The outcomes of `select` and `read` as attempts. -/
def attempts : List SelectOutcome → List ReadOutcome → List Attempt
  | [], _ => []
  | .error en :: selects, reads =>
      if tryAgain en then attempts selects reads else .failed :: attempts selects reads
  | .timeout :: selects, reads => .quiet :: attempts selects reads
  | .ready false :: selects, reads => .failed :: attempts selects reads
  | .ready true :: selects, reads =>
      match retry ReadOutcome.again none reads with
      | none => []
      | some r => r.last.attempt :: attempts selects r.rest

def Kernel.attempts (k : Kernel) : List Attempt := LinuxDemo.attempts k.selects k.reads

/-- A `select` that is tried again is no attempt. -/
theorem attempts_append_again {tried : List SelectOutcome} (selects : List SelectOutcome)
    (reads : List ReadOutcome) (h : ∀ o ∈ tried, o.again) :
    attempts (tried ++ selects) reads = attempts selects reads := by
  induction tried with
  | nil => rfl
  | cons o tried ih =>
    have ho : o.again := h o (List.mem_cons_self ..)
    have htail := ih fun t ht => h t (List.mem_cons_of_mem _ ht)
    cases o with
    | error en =>
      have hen : tryAgain en = true := ho
      rw [List.cons_append, attempts, if_pos hen, htail]
    | timeout => cases ho
    | ready isset => cases ho

/-- What a `_read` says about the attempt it made. -/
def Attempt.Reports (a : Attempt) (ret : ℤ) (c : Option UInt8) : Prop :=
  match a with
  | .byte ch => ret = 1 ∧ c = some ch
  | .quiet => ret = 0 ∧ c = none
  | .failed => ret < 0 ∧ c = none

def Attempt.bytes : Attempt → List UInt8
  | .byte ch => [ch]
  | _ => []

theorem Kernel.select_attempts {k k' : Kernel} {fd : ℤ} {o : SelectOutcome}
    (h : k.select fd = some (o, k')) :
    k.attempts = LinuxDemo.attempts (o :: k'.selects) k'.reads ∧ k'.consumed = k.consumed ∧
      o.again = false := by
  obtain ⟨r, hr, heq⟩ := Option.map_eq_some_iff.mp h
  obtain ⟨hos, hagain, hlast⟩ := retry_spec hr
  cases heq
  refine ⟨?_, rfl, hlast rfl⟩
  rw [Kernel.attempts, hos, attempts_append_again _ _ hagain]

/-- **One `_read` is one attempt.** -/
theorem readByte_spec {fd s u : ℤ} (hs : 0 ≤ s) (hu : 0 ≤ u) (hfd : 0 ≤ fd) {k k' : Kernel}
    {ret : ℤ} {c : Option UInt8} (h : readByte fd s u k = some (ret, c, k')) :
    ∃ a, k.attempts = a :: k'.attempts ∧ a.Reports ret c ∧
      k'.consumed = k.consumed ++ a.bytes := by
  rw [readByte, if_neg (by omega)] at h
  obtain ⟨⟨o, k₁⟩, hselect, h⟩ := Option.bind_eq_some_iff.mp h
  obtain ⟨hatt, hcons, hagain⟩ := k.select_attempts hselect
  rw [hatt, ← hcons]
  rcases o with en | _ | _ | _
  · -- an error of `select` that is not tried again
    cases h
    have hen : tryAgain en = false := hagain
    refine ⟨.failed, ?_, ⟨by decide, rfl⟩, (List.append_nil _).symm⟩
    simp only [attempts, hen, Bool.false_eq_true, if_false, Kernel.attempts]
  · cases h
    exact ⟨.quiet, rfl, ⟨rfl, rfl⟩, (List.append_nil _).symm⟩
  · cases h
    exact ⟨.failed, rfl, ⟨by decide, rfl⟩, (List.append_nil _).symm⟩
  · -- ready: the `read` that ends the loop decides
    obtain ⟨⟨o, k₂⟩, hread, h⟩ := Option.bind_eq_some_iff.mp h
    obtain ⟨⟨tried, last, rest⟩, hr, heq⟩ := Option.map_eq_some_iff.mp hread
    cases heq
    rcases last with en | _ | ch <;> cases h
    · refine ⟨.failed, ?_, ⟨by decide, rfl⟩, rfl⟩
      simp only [attempts, hr, ReadOutcome.attempt, Kernel.attempts]
    · refine ⟨.failed, ?_, ⟨by decide, rfl⟩, rfl⟩
      simp only [attempts, hr, ReadOutcome.attempt, Kernel.attempts]
    · refine ⟨.byte ch, ?_, ⟨rfl, rfl⟩, rfl⟩
      simp only [attempts, hr, ReadOutcome.attempt, Kernel.attempts]

/-! ### One call -/

/-- The leading bytes of the attempts, at most `n`. -/
def lead : ℕ → List Attempt → List UInt8
  | n + 1, .byte ch :: as => ch :: lead n as
  | _, _ => []

/-- The buffer with some bytes stored from the index `i` on. -/
def store (buf : ℕ → UInt8) : ℕ → List UInt8 → ℕ → UInt8
  | _, [] => buf
  | i, ch :: bs => store (Function.update buf i ch) (i + 1) bs

/-- Nothing is stored outside. -/
theorem store_of_out {buf : ℕ → UInt8} {i j : ℕ} {bs : List UInt8}
    (h : j < i ∨ i + bs.length ≤ j) : store buf i bs j = buf j := by
  induction bs generalizing buf i with
  | nil => rfl
  | cons ch bs ih =>
    rw [List.length_cons] at h
    rw [store, ih (by omega), Function.update_of_ne (by omega)]

/-- The bytes stored are found there. -/
theorem map_store {buf : ℕ → UInt8} {i : ℕ} (bs : List UInt8) :
    (List.range' i bs.length).map (store buf i bs) = bs := by
  induction bs generalizing buf i with
  | nil => rfl
  | cons ch bs ih =>
    rw [List.length_cons, List.range'_succ, List.map_cons, store, ih]
    rw [store_of_out (.inl (Nat.lt_succ_self i)), Function.update_self]

theorem firstBytes_store (buf : ℕ → UInt8) (bs : List UInt8) :
    firstBytes (store buf 0 bs) bs.length = bs := by
  rw [firstBytes, List.range_eq_range', map_store]

theorem lead_length_le (n : ℕ) (as : List Attempt) : (lead n as).length ≤ n := by
  induction n generalizing as with
  | zero => simp [lead]
  | succ n ih =>
    rcases as with _ | ⟨_ | _ | _, as⟩
    · simp [lead]
    · rw [lead, List.length_cons]
      exact Nat.succ_le_succ (ih as)
    · simp [lead]
    · simp [lead]

/-- **The loop of `read`** consumes and stores the leading bytes, and ends with
all of them or on the attempt after them. -/
theorem readLoop_spec {fd s u : ℤ} (hs : 0 ≤ s) (hu : 0 ≤ u) (hfd : 0 ≤ fd) (n i : ℕ)
    (buf : ℕ → UInt8) (k : Kernel) {ret : ℤ} {buf' : ℕ → UInt8} {k' : Kernel}
    (h : readLoop fd s u n i buf k = some (ret, buf', k')) :
    k'.consumed = k.consumed ++ lead n k.attempts ∧ buf' = store buf i (lead n k.attempts) ∧
      ((lead n k.attempts).length = n ∧ k'.attempts = k.attempts.drop n ∧
          ret = int32 ((i + n : ℕ) : ℤ) ∨
        (lead n k.attempts).length < n ∧
          ∃ a, k.attempts.drop (lead n k.attempts).length = a :: k'.attempts ∧
            (a = .quiet ∧ ret = int32 ((i + (lead n k.attempts).length : ℕ) : ℤ) ∨
              a = .failed ∧ ret < 0)) := by
  induction n generalizing i buf k with
  | zero =>
    simp only [readLoop, Option.some.injEq, Prod.mk.injEq] at h
    obtain ⟨rfl, rfl, rfl⟩ := h
    exact ⟨(List.append_nil _).symm, rfl, .inl ⟨rfl, rfl, rfl⟩⟩
  | succ n ih =>
    obtain ⟨⟨ret₁, c, k₁⟩, hbyte, h⟩ := Option.bind_eq_some_iff.mp h
    obtain ⟨a, hatt, hrep, hcons⟩ :=
      readByte_spec (by split <;> omega) hu hfd hbyte
    rw [hatt]
    cases a with
    | byte ch =>
      obtain ⟨rfl, rfl⟩ := hrep
      simp only [if_true, Option.elim_some] at h
      -- the rounds after this one start an index on, from the buffer with the byte
      obtain ⟨hcons', hbuf, hend⟩ := ih (i + 1) _ k₁ h
      refine ⟨?_, hbuf, ?_⟩
      · rw [hcons', hcons, List.append_assoc]
        rfl
      · simp only [lead, List.length_cons, List.drop_succ_cons, Nat.add_lt_add_iff_right,
          Nat.add_right_cancel_iff]
        rcases hend with ⟨hlen, hrest, hret⟩ | ⟨hlt, a, hdrop, hstop⟩
        · exact .inl ⟨hlen, hrest, by rw [hret, Nat.add_right_comm, Nat.add_assoc]⟩
        · refine .inr ⟨hlt, a, hdrop, hstop.imp_left fun ⟨ha, hret⟩ => ⟨ha, ?_⟩⟩
          rw [hret, Nat.add_right_comm, Nat.add_assoc]
    | quiet =>
      obtain ⟨rfl, rfl⟩ := hrep
      simp only [zero_ne_one, if_false, if_true, Option.elim_none, Option.some.injEq,
        Prod.mk.injEq] at h
      obtain ⟨rfl, rfl, rfl⟩ := h
      exact ⟨hcons, rfl, .inr ⟨Nat.succ_pos n, .quiet, rfl, .inl ⟨rfl, rfl⟩⟩⟩
    | failed =>
      obtain ⟨hneg, rfl⟩ := hrep
      simp only [if_neg (by omega : ¬ ret₁ = 1), if_neg (by omega : ¬ ret₁ = 0),
        Option.elim_none] at h
      cases h
      exact ⟨hcons, rfl, .inr ⟨Nat.succ_pos n, .failed, rfl, .inr ⟨rfl, hneg⟩⟩⟩

/-- The argument checks of `read` pass. -/
def ReadCall.valid (c : ReadCall) : Bool := c.buf.isSome ∧ 0 < c.size ∧ 0 ≤ c.s ∧ 0 ≤ c.u

/-- The bytes that the call consumes. -/
def ReadCall.lead (c : ReadCall) (as : List Attempt) : List UInt8 :=
  if c.valid then LinuxDemo.lead c.size.toNat as else []

/-- The number of attempts that the call makes. -/
def ReadCall.used (c : ReadCall) (as : List Attempt) : ℕ :=
  if c.valid then min c.size.toNat ((c.lead as).length + 1) else 0

/-- The call keeps the bytes it consumes: their number is positive as an
`int`, and no failure stops it after some of them. -/
def ReadCall.Kept (c : ReadCall) (as : List Attempt) : Prop :=
  (c.lead as).length < 2 ^ 31 ∧
    (c.lead as = [] ∨ (c.lead as).length = c.size.toNat ∨
      as[(c.lead as).length]? ≠ some .failed)

instance (c : ReadCall) (as : List Attempt) : Decidable (c.Kept as) :=
  inferInstanceAs (Decidable (_ ∧ _))

/-- What the call says to its caller: the first bytes of the buffer for a
positive result, and else nothing. -/
def ReadResult.reported (r : ReadResult) : List UInt8 :=
  if 0 < r.ret then (r.buf.map (firstBytes · r.ret.toNat)).getD [] else []

theorem reported_of_nonpos {ret : ℤ} {buf : Option (ℕ → UInt8)} (h : ret ≤ 0) :
    (ReadResult.mk ret buf).reported = [] := by
  simp only [ReadResult.reported, if_neg (not_lt.mpr h)]

/-- The count as an `int` reports the bytes up to that count. -/
theorem reported_int32 {buf : ℕ → UInt8} {bs : List UInt8} (h : bs.length < 2 ^ 31) :
    (ReadResult.mk (int32 (bs.length : ℕ)) (some (store buf 0 bs))).reported = bs := by
  have hret : int32 (bs.length : ℕ) = bs.length := int32_eq (by omega) (by omega)
  rw [ReadResult.reported]
  simp only [hret, Option.map_some, Option.getD_some, Int.toNat_natCast, firstBytes_store]
  split
  · rfl
  · exact (List.length_eq_zero_iff.mp (by omega)).symm

/-- From 2^31 bytes on the count is negative, and nothing is reported. -/
theorem reported_int32_neg {buf : Option (ℕ → UInt8)} {n : ℕ} (hlo : 2 ^ 31 ≤ n)
    (hhi : n < 2 ^ 32) : (ReadResult.mk (int32 (n : ℕ)) buf).reported = [] := by
  have hneg : int32 (n : ℕ) < 0 := int32_neg (by omega) (by omega)
  exact reported_of_nonpos hneg.le

/-- A call whose arguments are rejected does nothing. -/
theorem readFd_invalid {fd : ℤ} {c : ReadCall} {k : Kernel}
    (h : c.valid = false) : readFd fd c k = some (⟨-1, c.buf⟩, k) := by
  rcases c with ⟨_ | buf, size, s, u⟩
  · rfl
  · have hbad : size ≤ 0 ∨ s < 0 ∨ u < 0 ∨ fd < 0 := by
      simp only [ReadCall.valid, Option.isSome_some, true_and, decide_eq_false_iff_not] at h
      by_contra hcon
      simp only [not_or, UInt32.not_le, not_lt] at hcon
      exact h ⟨hcon.1, hcon.2.1, hcon.2.2.1⟩
    simp only [readFd, if_pos hbad]

/-- A call whose arguments pass is the loop. -/
theorem readFd_valid {fd : ℤ} {c : ReadCall} {k k' : Kernel} {r : ReadResult} (hfd : 0 ≤ fd)
    (hc : c.valid) (h : readFd fd c k = some (r, k')) :
    ∃ buf buf', c.buf = some buf ∧ r.buf = some buf' ∧ 0 ≤ c.s ∧ 0 ≤ c.u ∧
      readLoop fd c.s c.u c.size.toNat 0 buf k = some (r.ret, buf', k') := by
  rcases c with ⟨_ | buf, size, s, u⟩
  · cases hc
  · simp only [ReadCall.valid, decide_eq_true_eq] at hc
    obtain ⟨-, hpos, hs, hu⟩ := hc
    have hok : ¬ (size ≤ 0 ∨ s < 0 ∨ u < 0 ∨ fd < 0) := by
      simp only [not_or, UInt32.not_le, not_lt]
      exact ⟨hpos, hs, hu, hfd⟩
    simp only [readFd, if_neg hok] at h
    obtain ⟨⟨ret, buf', k₁⟩, hloop, heq⟩ := Option.map_eq_some_iff.mp h
    cases heq
    exact ⟨buf, buf', rfl, rfl, hs, hu, hloop⟩

/-- What a call says, from the way its loop ended: with `n` bytes, or with
fewer on the attempt `a`. -/
theorem reported_of_end {buf : ℕ → UInt8} {bs : List UInt8} {n : ℕ} {ret : ℤ} {a : Option Attempt}
    (hn : n < 2 ^ 32)
    (hend : bs.length = n ∧ ret = int32 (n : ℕ) ∨
      bs.length < n ∧ (a = some .quiet ∧ ret = int32 (bs.length : ℕ) ∨
        a = some .failed ∧ ret < 0)) :
    let kept := bs.length < 2 ^ 31 ∧ (bs = [] ∨ bs.length = n ∨ a ≠ some .failed)
    let reported := (ReadResult.mk ret (some (store buf 0 bs))).reported
    (kept → reported = bs) ∧ (¬ kept → reported = [] ∧ bs ≠ []) := by
  constructor
  · rintro ⟨hint, hstop⟩
    rcases hend with ⟨hlen, hret⟩ | ⟨hlt, ⟨-, hret⟩ | ⟨ha, hneg⟩⟩
    · -- all the bytes, or those before a time-out: the count is returned
      rw [hret, ← hlen]
      exact reported_int32 hint
    · rw [hret]
      exact reported_int32 hint
    · -- a failure that loses nothing comes before the first byte
      have hnil : bs = [] := by
        rcases hstop with hnil | hlen | hne
        · exact hnil
        · omega
        · exact absurd ha hne
      rw [hnil]
      exact reported_of_nonpos hneg.le
  · intro hk
    by_cases hint : bs.length < 2 ^ 31
    · -- a failure after some bytes: its code is returned
      have hstop : bs ≠ [] ∧ bs.length ≠ n ∧ a = some .failed := by
        by_contra hcon
        exact hk ⟨hint, by tauto⟩
      obtain ⟨hne, hlen, ha⟩ := hstop
      refine ⟨?_, hne⟩
      rcases hend with ⟨hlen', -⟩ | ⟨-, ⟨ha', -⟩ | ⟨-, hneg⟩⟩
      · exact absurd hlen' hlen
      · rw [ha] at ha'
        cases ha'
      · exact if_neg (not_lt.mpr hneg.le)
    · -- the count is negative as an `int`
      have hne : bs ≠ [] := by
        rintro rfl
        exact hint (by decide)
      refine ⟨?_, hne⟩
      rcases hend with ⟨hlen, hret⟩ | ⟨hlt, ⟨-, hret⟩ | ⟨-, hneg⟩⟩
      · rw [hret]
        exact reported_int32_neg (by omega) hn
      · rw [hret]
        exact reported_int32_neg (by omega) (by omega)
      · exact if_neg (not_lt.mpr hneg.le)

/-- The end of a loop of `n` rounds, read off the attempts before it: those
that it used, and the one after the leading bytes. -/
theorem stop_of_end {as as' : List Attempt} {n : ℕ} {ret : ℤ}
    (hend : (lead n as).length = n ∧ as' = as.drop n ∧ ret = int32 (n : ℕ) ∨
      (lead n as).length < n ∧ ∃ a, as.drop (lead n as).length = a :: as' ∧
        (a = .quiet ∧ ret = int32 ((lead n as).length : ℕ) ∨ a = .failed ∧ ret < 0)) :
    as' = as.drop (min n ((lead n as).length + 1)) ∧
      ((lead n as).length = n ∧ ret = int32 (n : ℕ) ∨
        (lead n as).length < n ∧
          (as[(lead n as).length]? = some .quiet ∧ ret = int32 ((lead n as).length : ℕ) ∨
            as[(lead n as).length]? = some .failed ∧ ret < 0)) := by
  rcases hend with ⟨hlen, hrest, hret⟩ | ⟨hlt, a, hdrop, hstop⟩
  · refine ⟨?_, .inl ⟨hlen, hret⟩⟩
    rw [hrest, hlen, Nat.min_eq_left (Nat.le_succ n)]
  · have hget : as[(lead n as).length]? = some a := by
      rw [← List.head?_drop, hdrop, List.head?_cons]
    refine ⟨?_, .inr ⟨hlt, ?_⟩⟩
    · rw [Nat.min_eq_right hlt, Nat.succ_eq_add_one, ← List.drop_drop, hdrop]
      rfl
    · rw [hget, Option.some.injEq, Option.some.injEq]
      exact hstop

/-- **One `read`.**  It consumes the leading bytes, reports them exactly if it
keeps them, and leaves the buffer from `size` on as it was. -/
theorem readFd_spec {fd : ℤ} (hfd : 0 ≤ fd) {c : ReadCall} {k k' : Kernel} {r : ReadResult}
    (h : readFd fd c k = some (r, k')) :
    k'.consumed = k.consumed ++ c.lead k.attempts ∧
      k'.attempts = k.attempts.drop (c.used k.attempts) ∧
      (c.Kept k.attempts → r.reported = c.lead k.attempts) ∧
      (¬ c.Kept k.attempts → r.reported = [] ∧ c.lead k.attempts ≠ []) ∧
      ∀ buf, c.buf = some buf →
        ∃ buf', r.buf = some buf' ∧ ∀ j, c.size.toNat ≤ j → buf' j = buf j := by
  rcases hvalid : c.valid with _ | _
  · rw [readFd_invalid hvalid] at h
    cases h
    have hlead : c.lead k.attempts = [] := by
      rw [ReadCall.lead, hvalid]
      rfl
    have hused : c.used k.attempts = 0 := by
      rw [ReadCall.used, hvalid]
      rfl
    have hkept : c.Kept k.attempts := ⟨by rw [hlead]; decide, .inl hlead⟩
    rw [hlead, hused]
    exact ⟨(List.append_nil _).symm, rfl, fun _ => rfl, fun hn => absurd hkept hn,
      fun buf hbuf => ⟨buf, hbuf, fun _ _ => rfl⟩⟩
  · have hlead : c.lead k.attempts = lead c.size.toNat k.attempts := by
      rw [ReadCall.lead, if_pos hvalid]
    have hused : c.used k.attempts = min c.size.toNat ((c.lead k.attempts).length + 1) := by
      rw [ReadCall.used, if_pos hvalid]
    obtain ⟨buf, buf', hbuf, hbuf', hs, hu, hloop⟩ := readFd_valid hfd hvalid h
    obtain ⟨hcons, rfl, hend⟩ := readLoop_spec hs hu hfd _ 0 buf k hloop
    have hle := lead_length_le c.size.toNat k.attempts
    obtain ⟨ret, rbuf⟩ := r
    cases hbuf'
    rw [ReadCall.Kept, hused, hlead]
    simp only [Nat.zero_add] at hend
    obtain ⟨hrest, hstop⟩ := stop_of_end hend
    have hsays := @reported_of_end buf (lead c.size.toNat k.attempts) c.size.toNat ret
      (k.attempts[(lead c.size.toNat k.attempts).length]?) c.size.toNat_lt hstop
    refine ⟨hcons, hrest, hsays.1, hsays.2, fun b hb => ⟨_, rfl, fun j hj => ?_⟩⟩
    rw [hbuf] at hb
    cases hb
    exact store_of_out (.inr (by omega))

/-! ### Sequences of calls -/

/-- The two classes. -/
inductive Reader where
  | serial
  | extFd

def Reader.read : Reader → ℤ → ReadCall → Kernel → Option (ReadResult × Kernel)
  | .serial => Serial.read
  | .extFd => ExtFd.read

theorem Reader.read_eq (d : Reader) : d.read = readFd := by
  cases d <;> rfl

/-- The calls in their order, if each returns. -/
def Reader.readAll (d : Reader) (fd : ℤ) : List ReadCall → Kernel →
    Option (List ReadResult × Kernel)
  | [], k => some ([], k)
  | c :: calls, k =>
      (d.read fd c k).bind fun (r, k) =>
        (d.readAll fd calls k).map fun (rs, k) => (r :: rs, k)

/-- Every call keeps the bytes it consumes. -/
def AllKept : List ReadCall → List Attempt → Prop
  | [], _ => True
  | c :: calls, as => c.Kept as ∧ AllKept calls (as.drop (c.used as))

/-- The bytes that the calls consume. -/
def leads : List ReadCall → List Attempt → List UInt8
  | [], _ => []
  | c :: calls, as => c.lead as ++ leads calls (as.drop (c.used as))

/-- What is reported, and what is consumed. -/
theorem readAll_spec (d : Reader) {fd : ℤ} (hfd : 0 ≤ fd) (calls : List ReadCall)
    {k k' : Kernel} {rs : List ReadResult} (h : d.readAll fd calls k = some (rs, k')) :
    k'.consumed = k.consumed ++ leads calls k.attempts ∧
      (rs.flatMap ReadResult.reported).length ≤ (leads calls k.attempts).length ∧
      (rs.flatMap ReadResult.reported = leads calls k.attempts ↔ AllKept calls k.attempts) := by
  induction calls generalizing k rs with
  | nil =>
    cases h
    exact ⟨(List.append_nil _).symm, Nat.le_refl _, iff_of_true rfl trivial⟩
  | cons c calls ih =>
    obtain ⟨⟨r, k₁⟩, hread, h⟩ := Option.bind_eq_some_iff.mp h
    obtain ⟨⟨rs', k₂⟩, hrest, heq⟩ := Option.map_eq_some_iff.mp h
    cases heq
    rw [d.read_eq] at hread
    obtain ⟨hcons, hatt, hkept, hlost, -⟩ := readFd_spec hfd hread
    obtain ⟨hcons', hlen, hiff⟩ := ih hrest
    rw [hatt] at hcons' hlen hiff
    refine ⟨by rw [hcons', hcons, List.append_assoc]; rfl, ?_, ?_⟩
    · rw [List.flatMap_cons, leads, List.length_append, List.length_append]
      by_cases hk : c.Kept k.attempts
      · rw [hkept hk]
        omega
      · rw [(hlost hk).1, List.length_nil]
        omega
    · rw [List.flatMap_cons, leads, AllKept]
      by_cases hk : c.Kept k.attempts
      · rw [hkept hk, List.append_cancel_left_eq, hiff]
        exact (and_iff_right hk).symm
      · -- the lost bytes make the report shorter
        refine iff_of_false (fun heq => ?_) fun hall => hk hall.1
        obtain ⟨hnil, hne⟩ := hlost hk
        have hlen' := congrArg List.length heq
        rw [hnil, List.nil_append, List.length_append] at hlen'
        have hpos := List.length_pos_iff.mpr hne
        omega

/-- No call stores anything from its size on. -/
theorem readAll_bounds (d : Reader) {fd : ℤ} (hfd : 0 ≤ fd) (calls : List ReadCall)
    {k k' : Kernel} {rs : List ReadResult} (h : d.readAll fd calls k = some (rs, k')) :
    List.Forall₂ (fun c r => ∀ buf, c.buf = some buf →
      ∃ buf', r.buf = some buf' ∧ ∀ j, c.size.toNat ≤ j → buf' j = buf j) calls rs := by
  induction calls generalizing k rs with
  | nil =>
    cases h
    exact .nil
  | cons c calls ih =>
    obtain ⟨⟨r, k₁⟩, hread, h⟩ := Option.bind_eq_some_iff.mp h
    obtain ⟨⟨rs', k₂⟩, hrest, heq⟩ := Option.map_eq_some_iff.mp h
    cases heq
    rw [d.read_eq] at hread
    obtain ⟨-, -, -, -, hbuf⟩ := readFd_spec hfd hread
    exact .cons hbuf (ih hrest)

/-- **When the stream of `Serial::read` and `ExtFd::read` is intact.**  What
the calls on an open descriptor report is what they consumed, in order, exactly
if every call keeps its bytes; and no call stores anything from its size on.
The descriptor is below `FD_SETSIZE`, or `FD_SET` has left the set. -/
theorem read_stream_iff (d : Reader) (fd : ℤ) (hfd : 0 ≤ fd) (calls : List ReadCall)
    (k k' : Kernel) (rs : List ReadResult) (h : d.readAll fd calls k = some (rs, k')) :
    (k'.consumed = k.consumed ++ rs.flatMap ReadResult.reported ↔ AllKept calls k.attempts) ∧
      List.Forall₂ (fun c r => ∀ buf, c.buf = some buf →
        ∃ buf', r.buf = some buf' ∧ ∀ j, c.size.toNat ≤ j → buf' j = buf j) calls rs := by
  obtain ⟨hcons, -, hiff⟩ := readAll_spec d hfd calls h
  refine ⟨?_, readAll_bounds d hfd calls h⟩
  rw [hcons, List.append_cancel_left_eq, ← hiff]
  exact eq_comm

/-- A descriptor that will answer like this. -/
def answers (selects : List SelectOutcome) (reads : List ReadOutcome) : Kernel :=
  { selects := selects, reads := reads, writes := [], fdSets := [], consumed := [], handed := [] }

/-- A byte and a time-out, then an interruption and a byte. -/
theorem read_stream_two_calls :
    ∃ rs k', Reader.serial.readAll 3 [⟨some fun _ => 0, 2, 0, 0⟩, ⟨some fun _ => 0, 1, 0, 0⟩]
        (answers [.ready true, .timeout, .error EINTR, .ready true] [.byte 65, .byte 66]) =
          some (rs, k') ∧
      rs.map ReadResult.ret = [1, 1] ∧ k'.consumed = rs.flatMap ReadResult.reported := by
  obtain ⟨rs, k', hrun, hret⟩ :
      ∃ rs k', Reader.serial.readAll 3 [⟨some fun _ => 0, 2, 0, 0⟩, ⟨some fun _ => 0, 1, 0, 0⟩]
          (answers [.ready true, .timeout, .error EINTR, .ready true] [.byte 65, .byte 66]) =
            some (rs, k') ∧ rs.map ReadResult.ret = [1, 1] := ⟨_, _, rfl, by decide⟩
  exact ⟨rs, k', hrun, hret, (read_stream_iff .serial 3 (by decide) _ _ k' rs hrun).1.mpr
    ⟨by decide, by decide, trivial⟩⟩

/-- An end of file after one byte of two: the byte is consumed, and the call
reports -5. -/
theorem read_stream_byte_lost :
    ((Serial.read 3 ⟨some fun _ => 0, 2, 0, 0⟩
        (answers [.ready true, .ready true] [.byte 65, .eof])).map
          fun (r, k) => (r.ret, r.reported, k.consumed)) = some (-5, [], [65]) ∧
      ((ExtFd.read 3 ⟨some fun _ => 0, 2, 0, 0⟩
        (answers [.ready true, .ready true] [.byte 65, .eof])).map
          fun (r, k) => (r.ret, r.reported, k.consumed)) = some (-5, [], [65]) := by
  decide

end LinuxDemo
