/-
LinuxDemo/Debugx.lean

The log of `inc/debugx.h`: `dprint` and `dprint_buf`.

Each assembles one entry in an array of 1024 bytes and prints it, or appends it
to the log file.  `dprint_buf` appends the bytes one by one, with a new line
before every twentieth; nothing looks at the room that is left.  So an entry is
printed as it is meant if it is shorter than the array, and leaves the array if
not (`dprint_buf_eq`, `dprint_eq`).

What the arrays hold before they are written is whatever the stack held.
-/
import LinuxDemo.Lib.CStr
import LinuxDemo.Lib.Decimal

namespace LinuxDemo.Debugx

/-- The fields of a `struct tm` that are printed. -/
structure Tm where
  tm_year : ℤ
  tm_mon : ℤ
  tm_mday : ℤ
  tm_hour : ℤ
  tm_min : ℤ
  tm_sec : ℤ

/-- `%d`. -/
def printfD (n : ℤ) : List UInt8 := if n < 0 then 45 :: decimal n.natAbs else decimal n.natAbs

/-- `%02d`. -/
def printf02d (n : ℤ) : List UInt8 :=
  if (printfD n).length < 2 then 48 :: printfD n else printfD n

/-- The text of the time; the year is counted from 1990. -/
def clock (t : Tm) : List UInt8 :=
  printf02d (t.tm_year + 1990) ++ 47 :: printf02d t.tm_mon ++ 47 :: printf02d t.tm_mday ++
    45 :: printf02d t.tm_hour ++ 58 :: printf02d t.tm_min ++ 58 :: printf02d t.tm_sec

def dget_curttime (t : Tm) (buf : List UInt8) : Option (List UInt8) := sprintfAt buf 0 (clock t)

def RESET : List UInt8 := 27 :: ascii "[0m"

def RED : List UInt8 := 27 :: ascii "[31m"

def YELLOW : List UInt8 := 27 :: ascii "[33m"

def color (mode : List UInt8) : List UInt8 :=
  if cstr mode = ascii "EROR" then RED
  else if cstr mode = ascii "WARN" then YELLOW
  else RESET

/-- What is printed of the arguments, `%s` each. -/
def header (mode lvl curtime : List UInt8) : List UInt8 :=
  color mode ++ ascii "[" ++ cstr mode ++ ascii "][" ++ cstr lvl ++ ascii "][" ++ cstr curtime ++
    ascii "]" ++ RESET ++ ascii ":"

/-- The file of the log: whether it is there, and whether it can be opened. -/
structure LogFile where
  access : Bool
  fopen : Bool

/-- Where an entry goes. -/
inductive Entry where
  | stdout (text : List UInt8)
  | appended (text : List UInt8)
  | dropped
deriving DecidableEq

/-- The end of both functions. -/
def emit (_file : Option LogFile) (buf : List UInt8) : Entry :=
  match _file with
  | none => .stdout (cstr buf ++ ascii "\n")
  | some f => if f.access && f.fopen then .appended (cstr buf ++ ascii "\n") else .dropped

def dprint (_file : Option LogFile) (mode lvl val : List UInt8) (t : Tm)
    (curtime buf : List UInt8) : Option Entry :=
  (dget_curttime t curtime).bind fun curtime =>
    (sprintfAt buf 0 (header mode lvl curtime ++ cstr val)).map (emit _file)

/-- What one round of the loop appends. -/
def piece (i : ℕ) (c : UInt8) : List UInt8 :=
  (if i % 20 = 0 then ascii "\n" else []) ++ (ascii "[" ++ sprintf02X c ++ ascii "] ")

/-- The loop of `dprint_buf` at the index `i`. -/
def bufLoop : ℕ → List UInt8 → List UInt8 → ℕ → Option (List UInt8)
  | _, [], buf, _ => some buf
  | i, c :: b, buf, size =>
      (if i % 20 = 0 then (sprintfAt buf size (ascii "\n")).map fun buf => (buf, size + 1)
        else some (buf, size)).bind fun (buf, size) =>
      (sprintfAt buf size (ascii "[" ++ sprintf02X c ++ ascii "] ")).bind fun buf =>
        bufLoop (i + 1) b buf (size + 5)

/-- `b` is the bytes that are read, the first `s` at the pointer. -/
def dprint_buf (_file : Option LogFile) (mode lvl b : List UInt8) (t : Tm)
    (curtime buf : List UInt8) : Option Entry :=
  (dget_curttime t curtime).bind fun curtime =>
    (sprintfAt buf 0 (header mode lvl curtime)).bind fun buf =>
      (bufLoop 0 b buf (header mode lvl curtime).length).map (emit _file)

/-! ### What is meant -/

/-- The bytes, printed from the index `i` on. -/
def dump : ℕ → List UInt8 → List UInt8
  | _, [] => []
  | i, c :: b => piece i c ++ dump (i + 1) b

/-- An entry of an array of `size` bytes, if it is in there. -/
def entry (_file : Option LogFile) (size : ℕ) (text : List UInt8) : Option Entry :=
  if text.length < size then some (emit _file text) else none

variable {s rest src : List UInt8}

theorem sprintfAt_eq (hs : ∀ c ∈ s, c ≠ 0) :
    sprintfAt (s ++ 0 :: rest) s.length src =
      if src.length ≤ rest.length then some (s ++ src ++ 0 :: rest.drop src.length)
      else none := by
  rw [sprintfAt_eq_strcat rest src hs, strcat_eq hs]

theorem piece_ne_zero (i : ℕ) (c : UInt8) : ∀ x ∈ piece i c, x ≠ 0 := by
  have hhex (d : ℕ) (hd : d < 16) : hexDigit d ≠ 0 := (hexDigit_scan d hd).2.2.2.2.1
  have hlt := c.toNat_lt
  intro x hx
  rw [piece] at hx
  simp only [List.mem_append] at hx
  rcases hx with hx | (hx | hx) | hx
  · split at hx
    · rw [List.mem_singleton.mp hx]
      decide
    · cases hx
  · rw [List.mem_singleton.mp hx]
    decide
  · rcases List.mem_cons.mp hx with rfl | hx
    · exact hhex _ (by omega)
    · rw [List.mem_singleton.mp hx]
      exact hhex _ (by omega)
  · rcases List.mem_cons.mp hx with rfl | hx
    · decide
    · rw [List.mem_singleton.mp hx]
      decide

theorem dump_ne_zero (i : ℕ) (b : List UInt8) : ∀ x ∈ dump i b, x ≠ 0 := by
  induction b generalizing i with
  | nil =>
    intro x hx
    cases hx
  | cons c b ih =>
    intro x hx
    rcases List.mem_append.mp hx with hx | hx
    · exact piece_ne_zero i c x hx
    · exact ih (i + 1) x hx

/-- Two appends are one of both. -/
theorem sprintfAt_bind {α : Type*} (hs : ∀ x ∈ s, x ≠ 0) (hsrc : ∀ x ∈ src, x ≠ 0)
    (src' : List UInt8) (f : List UInt8 → Option α) :
    ((sprintfAt (s ++ 0 :: rest) s.length src).bind fun buf =>
      (sprintfAt buf (s.length + src.length) src').bind f) =
      (sprintfAt (s ++ 0 :: rest) s.length (src ++ src')).bind f := by
  have hs' : ∀ x ∈ s ++ src, x ≠ 0 := fun x hx => (List.mem_append.mp hx).elim (hs x) (hsrc x)
  rw [sprintfAt_eq hs, sprintfAt_eq hs, List.length_append]
  by_cases hroom : src.length ≤ rest.length
  · rw [if_pos hroom, Option.bind_some, ← List.length_append, sprintfAt_eq hs']
    by_cases hroom' : src'.length ≤ (rest.drop src.length).length
    · rw [if_pos hroom']
      rw [List.length_drop] at hroom'
      rw [if_pos (by omega), List.drop_drop, List.append_assoc s]
    · rw [if_neg hroom']
      rw [List.length_drop] at hroom'
      rw [if_neg (by omega)]
  · rw [if_neg hroom, if_neg (by omega)]
    rfl

/-- A round appends its piece. -/
theorem bufLoop_cons (hs : ∀ x ∈ s, x ≠ 0) (i : ℕ) (c : UInt8) (b : List UInt8) :
    bufLoop i (c :: b) (s ++ 0 :: rest) s.length =
      (sprintfAt (s ++ 0 :: rest) s.length (piece i c)).bind fun buf =>
        bufLoop (i + 1) b buf (s.length + (piece i c).length) := by
  have hnewline : ∀ x ∈ ascii "\n", x ≠ 0 := by
    intro x hx
    rw [List.mem_singleton.mp hx]
    decide
  rw [bufLoop, piece]
  by_cases hline : i % 20 = 0
  · rw [if_pos hline, if_pos hline, ← sprintfAt_bind hs hnewline, Option.bind_map]
    rfl
  · rw [if_neg hline, if_neg hline]
    rfl

/-- **The loop** appends the text of the bytes if there is room for all of it, and leaves the array
if not. -/
theorem bufLoop_eq (i : ℕ) (b s rest : List UInt8) (hs : ∀ x ∈ s, x ≠ 0) :
    bufLoop i b (s ++ 0 :: rest) s.length =
      if (dump i b).length ≤ rest.length then
        some (s ++ dump i b ++ 0 :: rest.drop (dump i b).length)
      else none := by
  induction b generalizing i s rest with
  | nil => simp [bufLoop, dump]
  | cons c b ih =>
    have hs' : ∀ x ∈ s ++ piece i c, x ≠ 0 := fun x hx =>
      (List.mem_append.mp hx).elim (hs x) (piece_ne_zero i c x)
    rw [bufLoop_cons hs, sprintfAt_eq hs, dump, List.length_append]
    -- the array is left at this byte, at a later one, or not at all
    by_cases hroom : (piece i c).length ≤ rest.length
    · rw [if_pos hroom, Option.bind_some, ← List.length_append, ih _ _ _ hs', List.length_drop,
        List.drop_drop, List.append_assoc s]
      by_cases hroom' : (dump (i + 1) b).length ≤ rest.length - (piece i c).length
      · rw [if_pos hroom', if_pos (by omega)]
      · rw [if_neg hroom', if_neg (by omega)]
    · rw [if_neg hroom, if_neg (by omega)]
      rfl

/-! ### An entry -/

/-- What `localtime_r` gives: a date and a time, with a year that is an `int`. -/
structure Tm.Valid (t : Tm) : Prop where
  year : -2 ^ 31 ≤ t.tm_year + 1990 ∧ t.tm_year + 1990 < 2 ^ 31
  mon : 0 ≤ t.tm_mon ∧ t.tm_mon ≤ 11
  mday : 1 ≤ t.tm_mday ∧ t.tm_mday ≤ 31
  hour : 0 ≤ t.tm_hour ∧ t.tm_hour ≤ 23
  min : 0 ≤ t.tm_min ∧ t.tm_min ≤ 59
  sec : 0 ≤ t.tm_sec ∧ t.tm_sec ≤ 60

theorem printf02d_ne_zero (n : ℤ) : ∀ x ∈ printf02d n, x ≠ 0 := by
  have hdec : ∀ x ∈ decimal n.natAbs, x ≠ 0 := by
    rintro x hx rfl
    cases isDecDigit_of_mem_decimal hx
  have hs : ∀ x ∈ printfD n, x ≠ 0 := by
    intro x hx
    rw [printfD] at hx
    split at hx
    · rcases List.mem_cons.mp hx with rfl | hx
      · decide
      · exact hdec x hx
    · exact hdec x hx
  intro x hx
  rw [printf02d] at hx
  split at hx
  · rcases List.mem_cons.mp hx with rfl | hx
    · decide
    · exact hs x hx
  · exact hs x hx

theorem length_printf02d_le {n : ℤ} {k : ℕ} (hk : 2 ≤ k) (h : n.natAbs < 10 ^ k)
    (hneg : 0 ≤ n ∨ n.natAbs < 10 ^ (k - 1)) : (printf02d n).length ≤ k := by
  have hs : (printfD n).length ≤ k := by
    rw [printfD]
    split
    · have hlength := decimal_length (n := n.natAbs) (k := k - 1) (by omega)
        (hneg.resolve_left (by omega))
      rw [List.length_cons]
      omega
    · exact decimal_length (by omega) h
  rw [printf02d]
  split
  · rw [List.length_cons]
    omega
  · exact hs

theorem clock_ne_zero (t : Tm) : ∀ x ∈ clock t, x ≠ 0 := by
  intro x hx
  simp only [clock, List.mem_append, List.mem_cons] at hx
  rcases hx with ((((hx | rfl | hx) | rfl | hx) | rfl | hx) | rfl | hx) | rfl | hx
  all_goals first
    | exact printf02d_ne_zero _ x hx
    | decide

theorem Tm.Valid.length_clock {t : Tm} (h : t.Valid) : (clock t).length < 64 := by
  have htwo {n : ℤ} (hlo : 0 ≤ n) (hhi : n < 100) : (printf02d n).length ≤ 2 :=
    length_printf02d_le (le_refl 2) (by omega) (.inl hlo)
  have hyear : (printf02d (t.tm_year + 1990)).length ≤ 11 := by
    have hrange := h.year
    exact length_printf02d_le (by decide) (by omega) (.inr (by omega))
  have hmon := htwo h.mon.1 (by have := h.mon.2; omega)
  have hmday := htwo (n := t.tm_mday) (by have := h.mday.1; omega) (by have := h.mday.2; omega)
  have hhour := htwo h.hour.1 (by have := h.hour.2; omega)
  have hmin := htwo h.min.1 (by have := h.min.2; omega)
  have hsec := htwo h.sec.1 (by have := h.sec.2; omega)
  simp only [clock, List.length_append, List.length_cons]
  omega

theorem dget_curttime_eq {t : Tm} (ht : t.Valid) {buf : List UInt8} (hbuf : buf.length = 64) :
    ∃ rest, dget_curttime t buf = some (clock t ++ 0 :: rest) := by
  have hlength := ht.length_clock
  rw [dget_curttime, sprintfAt, if_pos (by omega)]
  exact ⟨_, rfl⟩

theorem header_curtime (mode lvl rest : List UInt8) (t : Tm) :
    header mode lvl (clock t ++ 0 :: rest) = header mode lvl (clock t) := by
  rw [header, header, cstr_terminated rest (clock_ne_zero t), cstr_unterminated (clock_ne_zero t)]

theorem header_ne_zero (mode lvl curtime : List UInt8) :
    ∀ x ∈ header mode lvl curtime, x ≠ 0 := by
  have hlit (l : List UInt8) (hl : l.all (· ≠ 0) = true) : ∀ x ∈ l, x ≠ 0 := fun x hx => by
    simpa using List.all_eq_true.mp hl x hx
  have hcolor : ∀ x ∈ color mode, x ≠ 0 := by
    rw [color]
    split
    · exact hlit RED rfl
    · split
      · exact hlit YELLOW rfl
      · exact hlit RESET rfl
  intro x hx
  simp only [header, List.mem_append] at hx
  rcases hx with (((((((((hx | hx) | hx) | hx) | hx) | hx) | hx) | hx) | hx) | hx)
  · exact hcolor x hx
  · exact hlit _ rfl x hx
  · exact mem_cstr hx
  · exact hlit _ rfl x hx
  · exact mem_cstr hx
  · exact hlit _ rfl x hx
  · exact mem_cstr hx
  · exact hlit _ rfl x hx
  · exact hlit RESET rfl x hx
  · exact hlit _ rfl x hx

/-- What is behind the NUL is not printed. -/
theorem emit_terminated (_file : Option LogFile) {text : List UInt8} (rest : List UInt8)
    (htext : ∀ x ∈ text, x ≠ 0) : emit _file (text ++ 0 :: rest) = emit _file text := by
  rw [emit.eq_def, emit.eq_def, cstr_terminated rest htext, cstr_unterminated htext]

/-- Five characters for a byte, and a new line for every twenty. -/
theorem length_dump (i : ℕ) (b : List UInt8) :
    (dump i b).length + (i + 19) / 20 = 5 * b.length + (i + b.length + 19) / 20 := by
  induction b generalizing i with
  | nil => simp [dump]
  | cons c b ih =>
    have hpiece : (piece i c).length = (if i % 20 = 0 then 1 else 0) + 5 := by
      rw [piece]
      split
      · rfl
      · rfl
    have hrest := ih (i + 1)
    rw [dump, List.length_append, hpiece, List.length_cons]
    split
    · omega
    · omega

theorem dprint_eq {t : Tm} (ht : t.Valid) (_file : Option LogFile) (mode lvl val : List UInt8)
    {curtime buf : List UInt8} (hcurtime : curtime.length = 64) (hbuf : buf.length = 1024) :
    dprint _file mode lvl val t curtime buf =
      entry _file 1024 (header mode lvl (clock t) ++ cstr val) := by
  obtain ⟨rest, hclock⟩ := dget_curttime_eq ht hcurtime
  have htext : ∀ x ∈ header mode lvl (clock t) ++ cstr val, x ≠ 0 := fun x hx =>
    (List.mem_append.mp hx).elim (header_ne_zero mode lvl _ x) mem_cstr
  rw [dprint, hclock, Option.bind_some, header_curtime, sprintfAt, entry, Nat.zero_add, hbuf]
  split
  · exact congrArg some (emit_terminated _file _ htext)
  · rfl

/-- **An entry of `dprint_buf`** is the time, the levels and the bytes, if all this is shorter than
1024 bytes; if not, the array is left.  That is so for 5 characters a byte and a new line for every
twenty. -/
theorem dprint_buf_eq {t : Tm} (ht : t.Valid) (_file : Option LogFile) (mode lvl b : List UInt8)
    {curtime buf : List UInt8} (hcurtime : curtime.length = 64) (hbuf : buf.length = 1024) :
    dprint_buf _file mode lvl b t curtime buf =
        entry _file 1024 (header mode lvl (clock t) ++ dump 0 b) ∧
      ((dprint_buf _file mode lvl b t curtime buf).isSome = true ↔
        (header mode lvl (clock t)).length + 5 * b.length + (b.length + 19) / 20 < 1024) := by
  have hentry : dprint_buf _file mode lvl b t curtime buf =
      entry _file 1024 (header mode lvl (clock t) ++ dump 0 b) := by
    obtain ⟨rest, hclock⟩ := dget_curttime_eq ht hcurtime
    have hheader := header_ne_zero mode lvl (clock t)
    have htext : ∀ x ∈ header mode lvl (clock t) ++ dump 0 b, x ≠ 0 := fun x hx =>
      (List.mem_append.mp hx).elim (hheader x) (dump_ne_zero 0 b x)
    rw [dprint_buf, hclock, Option.bind_some, header_curtime, sprintfAt, entry, Nat.zero_add, hbuf,
      List.length_append]
    by_cases hroom : (header mode lvl (clock t)).length < 1024
    · rw [if_pos hroom, Option.bind_some, List.take_zero, List.nil_append,
        bufLoop_eq 0 b _ _ hheader, List.length_drop, hbuf]
      -- behind the header the loop has what is left of the 1024 bytes, less the NUL
      by_cases hroom' : (header mode lvl (clock t)).length + (dump 0 b).length < 1024
      · rw [if_pos hroom', if_pos (by omega)]
        exact congrArg some (emit_terminated _file _ htext)
      · rw [if_neg hroom', if_neg (by omega)]
        rfl
    · rw [if_neg hroom, if_neg (by omega)]
      rfl
  refine ⟨hentry, ?_⟩
  have hlength := length_dump 0 b
  rw [hentry, entry, List.length_append]
  split
  · rename_i h
    exact iff_of_true rfl (by omega)
  · rename_i h
    exact iff_of_false (by simp) (by omega)

/-- `DEBUG_INFO_BUF` has room for 194 bytes, and for no more. -/
theorem dprint_buf_eq_full :
    (dprint_buf none (ascii "DEBUG") (ascii "INFO") (List.replicate 194 0)
        ⟨116, 5, 22, 21, 1, 23⟩ (List.replicate 64 0) (List.replicate 1024 0)).isSome = true ∧
      (dprint_buf none (ascii "DEBUG") (ascii "INFO") (List.replicate 195 0)
        ⟨116, 5, 22, 21, 1, 23⟩ (List.replicate 64 0) (List.replicate 1024 0)).isSome ≠ true := by
  have ht : Tm.Valid ⟨116, 5, 22, 21, 1, 23⟩ := by constructor <;> decide
  have hheader : (header (ascii "DEBUG") (ascii "INFO")
      (clock ⟨116, 5, 22, 21, 1, 23⟩)).length = 43 := by
    rfl
  constructor
  · apply (dprint_buf_eq ht none _ _ _ List.length_replicate List.length_replicate).2.mpr
    rw [hheader, List.length_replicate]
    decide
  · apply (dprint_buf_eq ht none _ _ _ List.length_replicate List.length_replicate).2.not.mpr
    rw [hheader, List.length_replicate]
    decide

end LinuxDemo.Debugx
