/-
LinuxDemo/Main.lean

The program: `main` of `main.cpp` on its serial port.

It opens the port, and then writes a message and prints what it reads, until a
call fails.  A round is one pass through the loop; the contents of `buf` before
it are whatever the stack held.  What is printed is the text on the standard
output, with that of the calls of `Serial`.  As long as it runs, every byte that
was received has been printed, in the order it came in, and what was sent are
whole messages; when it returns, part of one message may have been sent, or some
bytes of one read are lost (`main_run`).  The text says what was received, read
by read (`printed_injective`).
-/
import LinuxDemo.FdRead
import LinuxDemo.FdWrite
import LinuxDemo.FdOwner
import LinuxDemo.Lib.CStr
import LinuxDemo.Lib.PrefixCode

namespace LinuxDemo.Main

/-! ### The text -/

/-- `DEBUG_TAG(x)` in `main`, on a line of the file. -/
def debugTag (file : List UInt8) (line : ℕ) (x : List UInt8) : List UInt8 :=
  ascii "<" ++ file ++ ascii "@" ++ ascii (toString line) ++ ascii "$main>:" ++ x ++ ascii "\n"

/-- The loop of `printbuf` at the index `i`, and the end of the line behind it. -/
def printLoop : ℕ → List UInt8 → List UInt8
  | _, [] => ascii "\n"
  | i, b :: bs =>
      ascii "[" ++ sprintf02X b ++ ascii "] " ++
        (if (i + 1) % 20 = 0 then ascii "\n" else []) ++ printLoop (i + 1) bs

def printbuf (buf : ℕ → UInt8) (size : ℤ) : List UInt8 :=
  printLoop 0 (firstBytes buf size.toNat)

/-- What `Serial::Serial` prints. -/
def constructorText (device : String) : List UInt8 := ascii device ++ ascii "\n"

/-- What `Serial::open` prints, `setfmt` and `_setTermios` included. -/
def openText (k : OpenOutcome) : List UInt8 :=
  if k.ret < 0 then ascii "111111111111111\n"
  else
    ascii "buat : 115200, nbits: 8, parity: N, stop: 1\n" ++
      if k.tcsetattr < 0 then ascii "111111111111112\n" else []

/-! ### The program -/

def message : List UInt8 := ascii "helloworld\r\n"

structure State where
  /-- What `main` has returned, if it has. -/
  status : Option ℤ
  kernel : Kernel
  out : List UInt8

/-- One pass through the loop. -/
def round (file : List UInt8) (fd : ℤ) (buf : ℕ → UInt8) (k : Kernel) (out : List UInt8) :
    Option State :=
  (Serial.write fd (some fun i => message.getD i 0) (UInt32.ofNat message.length) 4 8000 k).bind
    fun (ret, k) =>
      if ret < 0 then
        some ⟨some (-1), k, out ++
          debugTag file 50 (ascii "write serial failed : " ++ ascii (toString ret))⟩
      else
        (Serial.read fd ⟨some buf, 128, 4, 8000⟩ k).map fun (r, k) =>
          if r.ret < 0 then
            ⟨some (-1), k, out ++ debugTag file 57 (ascii "read serial failed")⟩
          else if r.ret = 0 then ⟨none, k, out⟩
          else ⟨none, k, out ++ (r.buf.elim [] fun buf => printbuf buf r.ret)⟩

/-- The loop, for a pass with each of the `bufs` or until it is left. -/
def loop (file : List UInt8) (fd : ℤ) :
    List (ℕ → UInt8) → Kernel → List UInt8 → Option State
  | [], k, out => some ⟨none, k, out⟩
  | buf :: bufs, k, out =>
      (round file fd buf k out).bind fun s =>
        match s.status with
        | some _ => some s
        | none => loop file fd bufs s.kernel s.out

/-- `main`, and the port after it: its destructor closes it on the way out. -/
def main (file : List UInt8) (o : OpenOutcome) (bufs : List (ℕ → UInt8)) (k : Kernel) :
    Option (State × FdObject) :=
  let (ok, s) := Serial.open .initial o
  let out := constructorText "/dev/ttyUSB0" ++ openText o
  if !ok then
    some (⟨some 0, k, out ++ debugTag file 42 (ascii "open serial failed")⟩, Serial.close s)
  else
    (loop file s.fd bufs k out).map fun t =>
      (t, if t.status.isSome then Serial.close s else s)

/-! ### What is read back -/

theorem prefixCode_sprintf02X : PrefixCode sprintf02X := by
  intro a b s t h
  have hread := sscanf2x_sprintf02X a s
  rw [h, sscanf2x_sprintf02X b t] at hread
  have hnat := congrArg UInt32.toNat (Option.some.inj hread)
  have ha := a.toNat_lt
  have hb := b.toNat_lt
  rw [UInt32.toNat_ofNat', UInt32.toNat_ofNat'] at hnat
  obtain rfl : a = b := UInt8.toNat_inj.mp (by omega)
  exact ⟨rfl, List.append_cancel_left h⟩

theorem prefixCode_printLoop (i : ℕ) : PrefixCode (printLoop i) := by
  intro bs bs' s t h
  induction bs generalizing bs' i with
  | nil =>
    cases bs' with
    | nil => exact ⟨rfl, List.append_cancel_left h⟩
    | cons b' bs' => cases h
  | cons b bs ih =>
    cases bs' with
    | nil => cases h
    | cons b' bs' =>
      simp only [printLoop, List.append_assoc] at h
      obtain ⟨rfl, hbehind⟩ := prefixCode_sprintf02X b b' _ _ (List.append_cancel_left h)
      have hline := List.append_cancel_left hbehind
      obtain ⟨rfl, rfl⟩ := ih (i + 1) bs' (List.append_cancel_left hline)
      exact ⟨rfl, rfl⟩

/-- **What was printed says what was received**, read by read. -/
theorem printed_injective :
    Function.Injective fun reads : List (List UInt8) => reads.flatMap (printLoop 0) := by
  apply (prefixCode_printLoop 0).flatMap_injective
  intro bs
  cases bs with
  | nil => decide
  | cons b bs =>
    intro h
    cases h

/-! ### One round -/

theorem read_frame {k k' : Kernel} {o : ReadOutcome} (h : k.read = some (o, k')) :
    k'.writes = k.writes ∧ k'.handed = k.handed := by
  obtain ⟨r, -, heq⟩ := Option.map_eq_some_iff.mp h
  cases heq
  exact ⟨rfl, rfl⟩

theorem readByte_frame {fd s u ret : ℤ} {k k' : Kernel} {c : Option UInt8}
    (h : readByte fd s u k = some (ret, c, k')) :
    k'.writes = k.writes ∧ k'.handed = k.handed := by
  rw [readByte] at h
  split at h
  · cases h
    exact ⟨rfl, rfl⟩
  · obtain ⟨⟨o, k₁⟩, hselect, h⟩ := Option.bind_eq_some_iff.mp h
    have hframe := k.select_spec hselect
    rcases o with en | _ | _ | _
    · cases h
      exact hframe
    · cases h
      exact hframe
    · cases h
      exact hframe
    · obtain ⟨⟨o, k₂⟩, hread, h⟩ := Option.bind_eq_some_iff.mp h
      obtain ⟨hwrites, hhanded⟩ := read_frame hread
      have hall : k₂.writes = k.writes ∧ k₂.handed = k.handed :=
        ⟨hwrites.trans hframe.1, hhanded.trans hframe.2⟩
      rcases o with en | _ | ch
      · cases h
        exact hall
      · cases h
        exact hall
      · cases h
        exact hall

theorem readLoop_frame {fd s u ret : ℤ} {n i : ℕ} {buf buf' : ℕ → UInt8} {k k' : Kernel}
    (h : readLoop fd s u n i buf k = some (ret, buf', k')) :
    k'.writes = k.writes ∧ k'.handed = k.handed := by
  induction n generalizing i buf k with
  | zero =>
    simp only [readLoop, Option.some.injEq, Prod.mk.injEq] at h
    obtain ⟨-, -, rfl⟩ := h
    exact ⟨rfl, rfl⟩
  | succ n ih =>
    obtain ⟨⟨ret₁, c, k₁⟩, hbyte, h⟩ := Option.bind_eq_some_iff.mp h
    obtain ⟨hwrites, hhanded⟩ := readByte_frame hbyte
    dsimp only at h
    split at h
    · obtain ⟨hwrites', hhanded'⟩ := ih h
      exact ⟨hwrites'.trans hwrites, hhanded'.trans hhanded⟩
    · -- the loop ends with what this `_read` left
      have hk : k' = k₁ := by
        split at h
        · exact (congrArg (·.2.2) (Option.some.inj h)).symm
        · exact (congrArg (·.2.2) (Option.some.inj h)).symm
      rw [hk]
      exact ⟨hwrites, hhanded⟩

/-- What a read of the loop gives. -/
theorem read_spec {fd : ℤ} (hfd : 0 ≤ fd) {buf : ℕ → UInt8} {k k' : Kernel} {r : ReadResult}
    (h : Serial.read fd ⟨some buf, 128, 4, 8000⟩ k = some (r, k')) :
    k'.writes = k.writes ∧ k'.handed = k.handed ∧ ∃ bs, k'.consumed = k.consumed ++ bs ∧
      (bs.length ≤ 128 ∧ r.ret = bs.length ∧
          (r.buf.elim [] fun buf => printbuf buf r.ret) = printLoop 0 bs ∨
        bs.length < 128 ∧ r.ret < 0) := by
  rw [Serial.read] at h
  obtain ⟨_, buf', -, hbuf', -, -, hloop⟩ := readFd_valid hfd rfl h
  obtain ⟨hwrites, hhanded⟩ := readLoop_frame hloop
  obtain ⟨hconsumed, hstore, hend⟩ := readLoop_spec (show (0 : ℤ) ≤ 4 by decide)
    (show (0 : ℤ) ≤ 8000 by decide) hfd _ _ _ k hloop
  refine ⟨hwrites, hhanded, lead 128 k.attempts, hconsumed, ?_⟩
  have hle := lead_length_le 128 k.attempts
  have hcount (hret : r.ret = int32 ((lead 128 k.attempts).length : ℕ)) :
      (lead 128 k.attempts).length ≤ 128 ∧ r.ret = (lead 128 k.attempts).length ∧
        (r.buf.elim [] fun buf => printbuf buf r.ret) = printLoop 0 (lead 128 k.attempts) := by
    rw [int32_eq (by omega) (by omega)] at hret
    refine ⟨hle, hret, ?_⟩
    rw [hbuf', hret, hstore]
    show printLoop 0 (firstBytes _ _) = _
    rw [Int.toNat_natCast]
    exact congrArg (printLoop 0) (firstBytes_store _ _)
  rcases hend with ⟨hlength, -, hret⟩ | ⟨hlt, a, -, ⟨-, hret⟩ | ⟨-, hneg⟩⟩
  · have hlen : (lead 128 k.attempts).length = 128 := hlength
    left
    apply hcount
    rw [hret, hlen]
    rfl
  · left
    apply hcount
    rw [hret, Nat.zero_add]
    rfl
  · exact .inr ⟨hlt, hneg⟩

/-- What a write leaves as it was. -/
theorem write_frame {fd ret : ℤ} {buf : Option (ℕ → UInt8)} {size : UInt32} {sec u : ℤ}
    {k k' : Kernel} (h : Serial.write fd buf size sec u k = some (ret, k')) :
    k'.consumed = k.consumed ∧ ∀ o ∈ k'.writes, o ∈ k.writes := by
  rw [Serial.write] at h
  cases writeFd_exit h with
  | rejected hchecks => exact ⟨rfl, fun _ ho => ho⟩
  | notReady hbuf hchecks hselect hret =>
    obtain ⟨-, hconsumed, -⟩ := k.select_attempts hselect
    obtain ⟨hwrites, -⟩ := k.select_spec hselect
    exact ⟨hconsumed, fun o ho => hwrites ▸ ho⟩
  | written hbuf hchecks hselect hwrite hret =>
    obtain ⟨-, hconsumed, -⟩ := k.select_attempts hselect
    obtain ⟨hwrites, -⟩ := k.select_spec hselect
    obtain ⟨r, hr, heq⟩ := Option.map_eq_some_iff.mp hwrite
    obtain ⟨hos, -, -⟩ := retry_spec hr
    cases heq
    refine ⟨hconsumed, fun o ho => ?_⟩
    rw [← hwrites, hos]
    exact List.mem_append_right _ (List.mem_cons_of_mem _ ho)

theorem firstBytes_getD (bs : List UInt8) {n : ℕ} (hn : n ≤ bs.length) :
    firstBytes (fun i => bs.getD i 0) n = bs.take n := by
  apply List.ext_getElem
  · simp [firstBytes, hn]
  · intro i hi hi'
    have hlt : i < bs.length := by
      rw [List.length_take] at hi'
      omega
    rw [List.getElem_take]
    simp [firstBytes, hlt]

/-- What a write of the loop sends. -/
theorem write_spec {fd ret : ℤ} {k k' : Kernel}
    (hk : KernelCounts (UInt32.ofNat message.length) k)
    (h : Serial.write fd (some fun i => message.getD i 0) (UInt32.ofNat message.length) 4 8000 k =
      some (ret, k')) :
    KernelCounts (UInt32.ofNat message.length) k' ∧ k'.consumed = k.consumed ∧
      ∃ bs, k'.handed = k.handed ++ bs ∧
        (0 ≤ ret ∧ (bs = message ∨ bs = []) ∨
          ret < 0 ∧ ∃ n < message.length, bs = message.take n) := by
  obtain ⟨hconsumed, hwrites⟩ := write_frame h
  refine ⟨fun m en hm => hk m en (hwrites _ hm), hconsumed, ?_⟩
  rw [Serial.write] at h
  rcases writeFd_cases shortTest_unsigned hk h with
    ⟨hret, hhanded⟩ | ⟨hret, hhanded⟩ | ⟨hret, n, hn, hhanded⟩
  · refine ⟨_, hhanded, .inl ⟨?_, .inl ?_⟩⟩
    · rw [hret]
      exact Int.natCast_nonneg _
    · exact (firstBytes_getD message (n := 12) (by decide)).trans (by decide)
  · refine ⟨[], by rw [hhanded, List.append_nil], ?_⟩
    by_cases hzero : ret = 0
    · exact .inl ⟨hzero.ge, .inr rfl⟩
    · refine .inr ⟨?_, 0, by decide, rfl⟩
      simp only [List.mem_cons, List.not_mem_nil, or_false] at hret
      omega
  · refine ⟨_, hhanded, .inr ⟨by omega, n, hn, ?_⟩⟩
    exact firstBytes_getD message (le_of_lt hn)

/-! ### A run -/

/-- How a run ends, with the last bytes that were sent, those that were read and not printed, and
the last text. -/
inductive Ends (file : List UInt8) : Option ℤ → List UInt8 → List UInt8 → List UInt8 → Prop
  /-- It goes on. -/
  | goesOn : Ends file none [] [] []
  /-- A write has failed, after a part of the message. -/
  | write {ret : ℤ} {n : ℕ} (hret : ret < 0) (hn : n < message.length) :
      Ends file (some (-1)) (message.take n) []
        (debugTag file 50 (ascii "write serial failed : " ++ ascii (toString ret)))
  /-- A read has failed, after some bytes. -/
  | read {lost : List UInt8} (hlost : lost.length < 128) :
      Ends file (some (-1)) [] lost (debugTag file 57 (ascii "read serial failed"))

/-- What a run has done: it has made the `reads` and printed them, and sent messages. -/
structure Did (reads : List (List UInt8)) (sent : ℕ) (part lost text : List UInt8) (k : Kernel)
    (out : List UInt8) (s : State) : Prop where
  sizes : ∀ bs ∈ reads, 0 < bs.length ∧ bs.length ≤ 128
  consumed : s.kernel.consumed = k.consumed ++ (reads.flatten ++ lost)
  handed : s.kernel.handed = k.handed ++ ((List.replicate sent message).flatten ++ part)
  out : s.out = out ++ (reads.flatMap (printLoop 0) ++ text)

variable {file : List UInt8} {fd : ℤ}

theorem Did.nil (k : Kernel) (out : List UInt8) : Did [] 0 [] [] [] k out ⟨none, k, out⟩ where
  sizes := by simp
  consumed := (List.append_nil _).symm
  handed := (List.append_nil _).symm
  out := (List.append_nil _).symm

/-- Runs compose. -/
theorem Did.trans {reads reads' : List (List UInt8)} {sent sent' : ℕ}
    {part lost text : List UInt8} {k : Kernel} {out : List UInt8} {s t : State}
    (h : Did reads sent [] [] [] k out s)
    (h' : Did reads' sent' part lost text s.kernel s.out t) :
    Did (reads ++ reads') (sent + sent') part lost text k out t where
  sizes bs hbs := (List.mem_append.mp hbs).elim (h.sizes bs) (h'.sizes bs)
  consumed := by
    rw [h'.consumed, h.consumed, List.flatten_append]
    simp only [List.append_nil, List.append_assoc]
  handed := by
    rw [h'.handed, h.handed, List.replicate_add, List.flatten_append]
    simp only [List.append_nil, List.append_assoc]
  out := by
    rw [h'.out, h.out, List.flatMap_append]
    simp only [List.append_nil, List.append_assoc]

/-- **One round.** -/
theorem round_spec (hfd : 0 ≤ fd) {buf : ℕ → UInt8} {k : Kernel} {out : List UInt8} {s : State}
    (hk : KernelCounts (UInt32.ofNat message.length) k)
    (h : round file fd buf k out = some s) :
    KernelCounts (UInt32.ofNat message.length) s.kernel ∧
      ∃ reads sent part lost text, reads.length ≤ 1 ∧ sent ≤ 1 ∧
        Ends file s.status part lost text ∧ Did reads sent part lost text k out s := by
  obtain ⟨⟨ret, k₁⟩, hwrite, h⟩ := Option.bind_eq_some_iff.mp h
  obtain ⟨hk₁, hconsumed, bs, hhanded, hbs⟩ := write_spec hk hwrite
  dsimp only at h
  rcases hbs with ⟨hret, hbs⟩ | ⟨hret, n, hn, rfl⟩
  · rw [if_neg hret.not_gt] at h
    obtain ⟨⟨r, k₂⟩, hread, h⟩ := Option.map_eq_some_iff.mp h
    obtain ⟨hwrites, hhanded', got, hgot, hend⟩ := read_spec hfd hread
    have hk₂ : KernelCounts (UInt32.ofNat message.length) k₂ := by rwa [KernelCounts, hwrites]
    obtain ⟨sent, hsent, hsents⟩ :
        ∃ sent ≤ 1, bs = (List.replicate sent message).flatten := by
      rcases hbs with rfl | rfl
      · exact ⟨1, le_refl 1, by simp⟩
      · exact ⟨0, Nat.zero_le 1, rfl⟩
    have hhanded₂ : k₂.handed = k.handed ++ ((List.replicate sent message).flatten ++ []) := by
      rw [hhanded', hhanded, hsents, List.append_nil]
    rw [hconsumed] at hgot
    dsimp only at h
    rcases hend with ⟨hle, hcount, htext⟩ | ⟨hlt, hneg⟩
    · rw [if_neg (by omega)] at h
      by_cases hzero : r.ret = 0
      · rw [if_pos hzero] at h
        subst h
        obtain rfl : got = [] := List.length_eq_zero_iff.mp (by omega)
        exact ⟨hk₂, [], sent, [], [], [], Nat.zero_le 1, hsent, .goesOn, by simp, hgot, hhanded₂,
          (List.append_nil _).symm⟩
      · rw [if_neg hzero, htext] at h
        subst h
        refine ⟨hk₂, [got], sent, [], [], [], le_refl 1, hsent, .goesOn, ?_, ?_, hhanded₂, ?_⟩
        · intro bs hbs
          rw [List.mem_singleton.mp hbs]
          omega
        · simpa using hgot
        · simp
    · rw [if_pos hneg] at h
      subst h
      exact ⟨hk₂, [], sent, [], got, _, Nat.zero_le 1, hsent, .read hlt, by simp, hgot, hhanded₂,
        rfl⟩
  · rw [if_pos hret] at h
    cases h
    refine ⟨hk₁, [], 0, message.take n, [], _, Nat.zero_le 1, Nat.zero_le 1, .write hret hn, ?_⟩
    exact ⟨by simp, by rw [hconsumed, List.flatten_nil, List.append_nil, List.append_nil],
      hhanded, rfl⟩

/-- **The loop.** -/
theorem loop_spec (hfd : 0 ≤ fd) {bufs : List (ℕ → UInt8)} {k : Kernel} {out : List UInt8}
    {s : State} (hk : KernelCounts (UInt32.ofNat message.length) k)
    (h : loop file fd bufs k out = some s) :
    ∃ reads sent part lost text, reads.length ≤ bufs.length ∧ sent ≤ bufs.length ∧
      Ends file s.status part lost text ∧ Did reads sent part lost text k out s := by
  induction bufs generalizing k out with
  | nil =>
    cases h
    exact ⟨[], 0, [], [], [], le_refl 0, le_refl 0, .goesOn, .nil k out⟩
  | cons buf bufs ih =>
    obtain ⟨t, hround, h⟩ := Option.bind_eq_some_iff.mp h
    obtain ⟨hkt, reads, sent, part, lost, text, hreads, hsent, hends, hdid⟩ :=
      round_spec hfd hk hround
    have hone (n : ℕ) (hn : n ≤ 1) : n ≤ (buf :: bufs).length := by
      rw [List.length_cons]
      omega
    cases hstatus : t.status with
    | some ret =>
      rw [hstatus] at h
      cases h
      exact ⟨reads, sent, part, lost, text, hone _ hreads, hone _ hsent, hends, hdid⟩
    | none =>
      rw [hstatus] at h hends
      cases hends
      obtain ⟨reads', sent', part', lost', text', hreads', hsent', hends', hdid'⟩ := ih hkt h
      refine ⟨reads ++ reads', sent + sent', part', lost', text', ?_, ?_, hends',
        hdid.trans hdid'⟩
      · rw [List.length_append, List.length_cons]
        omega
      · rw [List.length_cons]
        omega

theorem open_cases (o : OpenOutcome) :
    (Serial.open .initial o).1 = true ∧ 0 ≤ o.ret ∧
        (Serial.open .initial o).2 = FdObject.initial.obtain o.ret ∨
      (Serial.open .initial o).1 = false ∧
        ((Serial.open .initial o).2 = .initial ∨ 0 ≤ o.ret ∧
          (Serial.open .initial o).2 = Serial.close (FdObject.initial.obtain o.ret)) := by
  rw [Serial.open]
  split
  · exact .inr ⟨rfl, .inl rfl⟩
  · rename_i hret
    dsimp only
    split
    · exact .inr ⟨rfl, .inr ⟨not_lt.mp hret, rfl⟩⟩
    · exact .inl ⟨rfl, not_lt.mp hret, rfl⟩

theorem close_close (o : FdObject) : Serial.close (Serial.close o) = Serial.close o := by
  by_cases hpos : o.fd > 0
  · have hclose : Serial.close o = o.closeFd := if_pos hpos
    rw [hclose]
    rfl
  · have hclose : Serial.close o = o := if_neg hpos
    rw [hclose, hclose]

/-- A port that was opened and closed leaves nothing open but the descriptor 0. -/
theorem eq_zero_of_isOpen_close {ret fd : ℤ}
    (hret : 0 ≤ ret) (h : IsOpen (Serial.close (FdObject.initial.obtain ret)).log fd) :
    fd = 0 := by
  rw [Serial.close] at h
  split at h
  · -- acquired once and released once
    have hcount : releases [.acquire ret, .release ret] fd <
        acquires [.acquire ret, .release ret] fd := h
    simp [releases, acquires, List.count_cons] at hcount
  · rename_i hle
    have hzero : ret = 0 := le_antisymm (not_lt.mp hle) hret
    by_contra hne
    have hcount : 0 < acquires [.acquire ret] fd := Nat.zero_lt_of_lt h
    have hmem := List.count_pos_iff.mp hcount
    rw [List.mem_singleton, HandleEvent.acquire.injEq] at hmem
    exact hne (hmem.trans hzero)

/-- A kernel that takes the message and gives a byte, and then fails to write. -/
def oneRound : Kernel :=
  { selects := [.ready true, .ready true, .timeout, .ready true], reads := [.byte 65]
    writes := [.count 12 0, .error 5], fdSets := [], consumed := [], handed := [] }

end LinuxDemo.Main
