/-
LinuxDemo/ReadHexPairs.lean

Does `ReadBufferHex` decode each pair of characters on its own?

Each round scans from its pair on, and the scan has no end of its own: it skips
white space, and then takes up to two characters.  So a round looks behind its
pair exactly if the pair begins with white space and its second character is
white space too or begins a number; and behind a last single character if that
one is or does (`LooksBehind`).  Of a value without a minus sign a host that
does not match takes a byte that is zero, whatever the digits are.

A round that does not look behind its pair gives the same byte for all that may
follow (`hexByte_append`); for one that does, there are two continuations that
give two bytes (`hexByte_ne`).
-/
import LinuxDemo.Base16

namespace LinuxDemo

/-! ### What one scan sees -/

theorem sscanf2x_space {c : UInt8} (hc : isSpace c) (s : List UInt8) :
    sscanf2x (c :: s) = sscanf2x s := by
  rw [sscanf2x, sscanf2x, List.dropWhile_cons, if_pos hc]

theorem sscanf2x_minus (s : List UInt8) : sscanf2x (45 :: s) = (scanHex 1 s).map (0 - ·) := by
  rw [sscanf2x, List.dropWhile_cons, if_neg (by decide)]
  rfl

theorem sscanf2x_plus (s : List UInt8) : sscanf2x (43 :: s) = scanHex 1 s := by
  rw [sscanf2x, List.dropWhile_cons, if_neg (by decide)]
  rfl

theorem sscanf2x_other {c : UInt8} (hspace : ¬ isSpace c) (hminus : c ≠ 45) (hplus : c ≠ 43)
    (s : List UInt8) : sscanf2x (c :: s) = scanHex 2 (c :: s) := by
  rw [sscanf2x, List.dropWhile_cons, if_neg hspace]
  simp only [if_neg hminus, if_neg hplus]

theorem hexVal_lt {c : UInt8} {v : UInt32} (h : hexVal c = some v) : v.toNat < 16 := by
  have key : ∀ a b : UInt8, a ≤ c ∧ c ≤ b → b.toNat - a.toNat < 16 →
      (c - a).toUInt32.toNat < 16 := by
    rintro a b ⟨hlo, hhi⟩ hab
    have hhi' : c.toNat ≤ b.toNat := hhi
    rw [UInt8.toNat_toUInt32, UInt8.toNat_sub_of_le _ _ hlo]
    omega
  unfold hexVal at h
  split at h
  · rename_i hc
    rw [← Option.some.inj h]
    -- the digits begin ten places before their `a`
    exact key 48 57 hc (by decide)
  · split at h
    · rename_i hc
      rw [← Option.some.inj h]
      apply key 55 70 ⟨?_, hc.2⟩ (by decide)
      exact UInt8.le_trans (by decide) hc.1
    · split at h
      · rename_i hc
        rw [← Option.some.inj h]
        apply key 87 102 ⟨?_, hc.2⟩ (by decide)
        exact UInt8.le_trans (by decide) hc.1
      · cases h

/-- Two digits. -/
theorem toNat_mul_add {u v : UInt32} (hu : u.toNat < 16) (hv : v.toNat < 16) :
    (u * 16 + v).toNat = 16 * u.toNat + v.toNat := by
  have h16 : (16 : UInt32).toNat = 16 := rfl
  rw [UInt32.toNat_add, UInt32.toNat_mul, h16]
  omega

theorem scanDigits_zero (s : List UInt8) (v : UInt32) : scanDigits 0 s v = v := by
  cases s <;> rfl

theorem scanHex_one (s : List UInt8) : scanHex 1 s = s.head?.bind hexVal := by
  cases s with
  | nil => rfl
  | cons c s =>
    show (hexVal c).map (scanDigits 0 s) = hexVal c
    rw [funext (scanDigits_zero s)]
    exact Option.map_id'

theorem scanHex_two (c : UInt8) (s : List UInt8) :
    scanHex 2 (c :: s) =
      (hexVal c).map fun v => (s.head?.bind hexVal).elim v fun d => v * 16 + d := by
  show (hexVal c).map (scanDigits 1 s) = _
  congr 1
  funext v
  cases s with
  | nil => rfl
  | cons d s =>
    show ((hexVal d).elim v fun d => scanDigits 0 s (v * 16 + d)) = _
    rw [funext fun d => scanDigits_zero s (v * 16 + d)]
    rfl

theorem scanHex_two_lt {s : List UInt8} {v : UInt32} (h : scanHex 2 s = some v) :
    v.toNat < 2 ^ 8 := by
  cases s with
  | nil => cases h
  | cons c s =>
    rw [scanHex_two] at h
    obtain ⟨u, hu, rfl⟩ := Option.map_eq_some_iff.mp h
    have hult := hexVal_lt hu
    rcases hd : s.head?.bind hexVal with _ | d
    · exact Nat.lt_trans hult (by decide)
    · obtain ⟨c', -, hc'⟩ := Option.bind_eq_some_iff.mp hd
      have hdlt := hexVal_lt hc'
      rw [Option.elim_some, toNat_mul_add hult hdlt]
      omega

/-! ### The byte of one round -/

/-- A value of one byte: a host that does not match takes a zero. -/
theorem hexByte_of_lt (h : Host) {s : List UInt8} {v : UInt32} (hscan : sscanf2x s = some v)
    (hv : v.toNat < 2 ^ 8) : hexByte h s = if h.Matches then UInt8.ofNat v.toNat else 0 := by
  have hbytes : leBytes v = [UInt8.ofNat v.toNat, 0, 0, 0] := by
    rw [← leBytes_of_lt hv, UInt32.ofNat_toNat]
  simp only [hexByte, hscan, Option.elim_some, Host.memory, hbytes, Host.Matches]
  rcases h with ⟨_ | _, _ | _⟩ <;> rfl

theorem hexByte_space (h : Host) {c : UInt8} (hc : isSpace c) (s : List UInt8) :
    hexByte h (c :: s) = hexByte h s := by
  rw [hexByte, hexByte, sscanf2x_space hc]

/-- Nothing was scanned. -/
theorem hexByte_of_none (h : Host) {s : List UInt8} (hscan : sscanf2x s = none) :
    hexByte h s = 0 := by
  simp only [hexByte, hscan, Option.elim_none]
  rcases h with ⟨_ | _, _ | _⟩ <;> rfl

/-- All bytes of -1 are the same. -/
theorem hexByte_minus_one (h : Host) {s : List UInt8} (hscan : sscanf2x s = some (0 - 1)) :
    hexByte h s = 0xFF := by
  simp only [hexByte, hscan, Option.elim_some, Host.memory]
  rcases h with ⟨_ | _, _ | _⟩ <;> rfl

/-- The scan goes on behind `c`, and the byte depends on what it finds there. -/
def ScansOn (h : Host) (c : UInt8) : Prop :=
  isSpace c ∨ c = 45 ∨ h.Matches ∧ (c = 43 ∨ hexVal c ≠ none)

/-- The characters that a round is for, and whether their byte depends on what
follows them. -/
def LooksBehind (h : Host) : List UInt8 → Prop
  | [c] => ScansOn h c
  | [c, d] => isSpace c ∧ ScansOn h d
  | _ => False

/-- A character that the scan does not go on behind is decoded to zero. -/
theorem hexByte_of_not_scansOn {h : Host} {c : UInt8} (hc : ¬ ScansOn h c) (s : List UInt8) :
    hexByte h (c :: s) = 0 := by
  simp only [ScansOn, not_or, not_and] at hc
  obtain ⟨hspace, hminus, hnumber⟩ := hc
  by_cases hhost : h.Matches
  · -- no number begins here
    obtain ⟨hplus, hdigit⟩ := hnumber hhost
    have hnone : scanHex 2 (c :: s) = none := by
      rw [scanHex_two, not_not.mp hdigit, Option.map_none]
    apply hexByte_of_none
    rw [sscanf2x_other hspace hminus hplus, hnone]
  · rcases hscan : sscanf2x (c :: s) with _ | v
    · exact hexByte_of_none h hscan
    · have hlt : v.toNat < 2 ^ 8 := by
        by_cases hplus : c = 43
        · rw [hplus, sscanf2x_plus, scanHex_one] at hscan
          obtain ⟨c', -, hc'⟩ := Option.bind_eq_some_iff.mp hscan
          exact Nat.lt_trans (hexVal_lt hc') (by decide)
        · rw [sscanf2x_other hspace hminus hplus] at hscan
          exact scanHex_two_lt hscan
      rw [hexByte_of_lt h hscan hlt, if_neg hhost]

/-- The scan of a pair that does not begin with white space. -/
theorem sscanf2x_pair {c : UInt8} (hspace : ¬ isSpace c) (d : UInt8) (s : List UInt8) :
    sscanf2x (c :: d :: s) = sscanf2x [c, d] := by
  by_cases hminus : c = 45
  · rw [hminus, sscanf2x_minus, sscanf2x_minus, scanHex_one, scanHex_one]
    rfl
  · by_cases hplus : c = 43
    · rw [hplus, sscanf2x_plus, sscanf2x_plus, scanHex_one, scanHex_one]
      rfl
    · rw [sscanf2x_other hspace hminus hplus, sscanf2x_other hspace hminus hplus, scanHex_two,
        scanHex_two]
      rfl

/-- **A round that does not look behind its characters** gives one byte,
whatever follows them. -/
theorem hexByte_append {h : Host} {pair : List UInt8} (hpair : ¬ LooksBehind h pair)
    (hpos : 0 < pair.length) (hlen : pair.length ≤ 2) (rest : List UInt8) :
    hexByte h (pair ++ rest) = hexByte h pair := by
  match pair, hpos, hlen with
  | [c], _, _ =>
    have hc : ¬ ScansOn h c := hpair
    rw [List.singleton_append, hexByte_of_not_scansOn hc, hexByte_of_not_scansOn hc]
  | [c, d], _, _ =>
    by_cases hspace : isSpace c
    · have hd : ¬ ScansOn h d := fun hd => hpair ⟨hspace, hd⟩
      rw [List.cons_append, hexByte_space h hspace, hexByte_space h hspace]
      exact (hexByte_of_not_scansOn hd _).trans (hexByte_of_not_scansOn hd _).symm
    · have hscan : sscanf2x ([c, d] ++ rest) = sscanf2x [c, d] := sscanf2x_pair hspace d rest
      rw [hexByte, hexByte, hscan]

/-- Two continuations that a character tells apart: a digit (with a sign behind
white space), and a NUL. -/
theorem hexByte_ne_of_scansOn {h : Host} {c : UInt8} (hc : ScansOn h c) :
    ∃ d e, ∀ s t, hexByte h (c :: d :: e :: s) ≠ hexByte h (c :: 0 :: t) := by
  have hminus : ∀ s, sscanf2x (45 :: 49 :: s) = some (0 - 1) := by
    intro s
    rw [sscanf2x_minus, scanHex_one]
    rfl
  have hnul : ∀ t, sscanf2x (0 :: t) = none := by
    intro t
    rw [sscanf2x_other (by decide) (by decide) (by decide), scanHex_two]
    rfl
  by_cases hspace : isSpace c
  · -- `-1`
    refine ⟨45, 49, fun s t => ?_⟩
    rw [hexByte_minus_one h (by rw [sscanf2x_space hspace, hminus]),
      hexByte_of_none h (by rw [sscanf2x_space hspace, hnul])]
    decide
  · refine ⟨49, 0, fun s t => ?_⟩
    by_cases hsign : c = 45
    · rw [hsign, hexByte_minus_one h (hminus _),
        hexByte_of_none h (by rw [sscanf2x_minus, scanHex_one]; rfl)]
      decide
    · obtain ⟨hhost, hnumber⟩ := (hc.resolve_left hspace).resolve_left hsign
      by_cases hplus : c = 43
      · have hone : sscanf2x (43 :: 49 :: 0 :: s) = some 1 := by
          rw [sscanf2x_plus, scanHex_one]
          rfl
        have hnone : sscanf2x (43 :: 0 :: t) = none := by
          rw [sscanf2x_plus, scanHex_one]
          rfl
        rw [hplus, hexByte_of_lt h hone (by decide), if_pos hhost, hexByte_of_none h hnone]
        decide
      · obtain ⟨v, hv⟩ := Option.ne_none_iff_exists'.mp (hnumber.resolve_left hplus)
        have hvlt := hexVal_lt hv
        have htwo : sscanf2x (c :: 49 :: 0 :: s) = some (v * 16 + 1) := by
          rw [sscanf2x_other hspace hsign hplus, scanHex_two, hv]
          rfl
        have hone : sscanf2x (c :: 0 :: t) = some v := by
          rw [sscanf2x_other hspace hsign hplus, scanHex_two, hv]
          rfl
        have hval : (v * 16 + 1).toNat = 16 * v.toNat + 1 := toNat_mul_add hvlt (by decide)
        rw [hexByte_of_lt h htwo (by rw [hval]; omega), hexByte_of_lt h hone (by omega),
          if_pos hhost, if_pos hhost, hval]
        intro heq
        have hbytes := congrArg UInt8.toNat heq
        rw [UInt8.toNat_ofNat', UInt8.toNat_ofNat'] at hbytes
        omega

/-- **A round that looks behind its characters** gives two bytes. -/
theorem hexByte_ne {h : Host} {pair : List UInt8} (hpair : LooksBehind h pair) :
    ∃ d e, ∀ s t, hexByte h (pair ++ d :: e :: s) ≠ hexByte h (pair ++ 0 :: t) := by
  match pair, hpair with
  | [c], hc => exact hexByte_ne_of_scansOn hc
  | [c, d], ⟨hspace, hd⟩ =>
    obtain ⟨x, y, hne⟩ := hexByte_ne_of_scansOn hd
    refine ⟨x, y, fun s t => ?_⟩
    show hexByte h (c :: d :: x :: y :: s) ≠ hexByte h (c :: d :: 0 :: t)
    rw [hexByte_space h hspace, hexByte_space h hspace]
    exact hne s t

/-! ### The rounds -/

theorem readHexLoop_getElem? (h : Host) (n i : ℕ) (s : List UInt8) :
    (readHexLoop h n s)[i]? = if i < n then some (hexByte h (s.drop (2 * i))) else none := by
  induction n generalizing i s with
  | zero => rfl
  | succ n ih =>
    rw [readHexLoop]
    cases i with
    | zero => rfl
    | succ i =>
      rw [List.getElem?_cons_succ, ih, List.drop_drop, Nat.mul_succ, Nat.add_comm 2]
      simp only [Nat.add_lt_add_iff_right]

/-- The characters `2i` and `2i + 1`, or `2i` alone if it is the last one. -/
def pairAt (bs : List UInt8) (i : ℕ) : List UInt8 := (bs.drop (2 * i)).take 2

/-- `ReadBufferHex` gives a result for every buffer that begins with `bs`, and it
is the same whatever follows; and byte `i` of it is the same for all inputs of
this length with the same characters at `2i` and `2i + 1`. -/
def DecodesAlone (h : Host) (bs : List UInt8) : Prop :=
  (∃ out, ∀ rest, readBufferHex h (some (bs ++ rest)) bs.length = some out) ∧
    ∀ i bs' rest rest' out out', bs'.length = bs.length → pairAt bs' i = pairAt bs i →
      readBufferHex h (some (bs ++ rest)) bs.length = some out →
      readBufferHex h (some (bs' ++ rest')) bs.length = some out' → out'[i]? = out[i]?

/-- The byte of a round that does not look behind its pair. -/
theorem hexByte_round {h : Host} {bs : List UInt8} {i : ℕ} (hi : i < (bs.length + 1) / 2)
    (hpair : ¬ LooksBehind h (pairAt bs i)) (rest : List UInt8) :
    hexByte h ((bs ++ rest).drop (2 * i)) = hexByte h (pairAt bs i) := by
  have hpos : 0 < (pairAt bs i).length := by
    rw [pairAt, List.length_take, List.length_drop]
    omega
  have hsplit : (bs ++ rest).drop (2 * i) =
      pairAt bs i ++ ((bs.drop (2 * i)).drop 2 ++ rest) := by
    rw [pairAt, ← List.append_assoc, List.take_append_drop,
      List.drop_append_of_le_length (by omega)]
  rw [hsplit]
  exact hexByte_append hpair hpos (List.length_take_le _ _) _

/-- Behind a pair there may be anything: an input of the same length with this
pair, and what follows the input. -/
theorem exists_input {bs : List UInt8} {i : ℕ} (hi : 2 * i < bs.length) (w : List UInt8)
    (hw : bs.length ≤ w.length) :
    ∃ bs' rest', bs'.length = bs.length ∧ pairAt bs' i = pairAt bs i ∧
      (bs' ++ rest').drop (2 * i) = pairAt bs i ++ w := by
  have hfirst : (bs.take (2 * i)).length = 2 * i := by
    rw [List.length_take]
    omega
  have hpair : (pairAt bs i).length = min 2 (bs.length - 2 * i) := by
    rw [pairAt, List.length_take, List.length_drop]
  have hsecond : pairAt (bs.take (2 * i) ++ (pairAt bs i ++ w.take (bs.length - 2 * i - 2))) i =
      pairAt bs i := by
    show ((bs.take (2 * i) ++ (pairAt bs i ++ _)).drop (2 * i)).take 2 = _
    rw [List.drop_left' hfirst]
    rcases Nat.lt_or_ge (bs.length - 2 * i) 2 with hlt | hge
    · -- the last character, alone
      rw [show bs.length - 2 * i - 2 = 0 by omega, List.take_zero, List.append_nil]
      exact List.take_of_length_le (by omega)
    · exact List.take_left' (by omega)
  refine ⟨bs.take (2 * i) ++ (pairAt bs i ++ w.take (bs.length - 2 * i - 2)),
    w.drop (bs.length - 2 * i - 2), ?_, hsecond, ?_⟩
  · rw [List.length_append, List.length_append, hfirst, hpair, List.length_take]
    omega
  · rw [List.append_assoc, List.append_assoc, List.drop_left' hfirst, List.take_append_drop]

/-- **`ReadBufferHex` decodes each pair on its own** exactly if no round looks
behind its characters, and the index stays an `int`. -/
theorem decodesAlone_iff (h : Host) (bs : List UInt8) :
    DecodesAlone h bs ↔
      bs.length < 2 ^ 31 - 1 ∧ ∀ i, ¬ LooksBehind h (pairAt bs i) := by
  constructor
  · rintro ⟨⟨out, hout⟩, hlocal⟩
    have hlen : bs.length < 2 ^ 31 - 1 := by
      by_contra hlen
      have hnone := hout []
      rw [readBufferHex_natCast, if_neg hlen] at hnone
      cases hnone
    refine ⟨hlen, ?_⟩
    intro i hpair
    have hi : 2 * i < bs.length := by
      by_contra hle
      rw [pairAt, List.drop_eq_nil_of_le (Nat.not_lt.mp hle), List.take_nil] at hpair
      exact hpair
    -- all continuations that are long enough give the same byte
    have hbyte : ∀ w : List UInt8, bs.length ≤ w.length →
        some (hexByte h (pairAt bs i ++ w)) = out[i]? := by
      intro w hw
      obtain ⟨bs', rest', hlen', hpair', hdrop⟩ := exists_input hi w hw
      have hresult := hlocal i bs' [] rest' out _ hlen' hpair' (hout [])
        (by rw [readBufferHex_natCast, if_pos hlen])
      rw [← hresult, readHexLoop_getElem?, if_pos (by omega), hdrop]
    obtain ⟨d, e, hne⟩ := hexByte_ne hpair
    apply hne (List.replicate bs.length 0) (List.replicate bs.length 0)
    apply Option.some.inj
    rw [hbyte _ (by simp only [List.length_cons, List.length_replicate]; omega),
      hbyte _ (by simp only [List.length_cons, List.length_replicate]; omega)]
  · rintro ⟨hlen, hclosed⟩
    refine ⟨⟨readHexLoop h ((bs.length + 1) / 2) bs, ?_⟩, ?_⟩
    · intro rest
      rw [readBufferHex_natCast, if_pos hlen, Option.some.injEq]
      apply List.ext_getElem?
      intro i
      rw [readHexLoop_getElem?, readHexLoop_getElem?]
      split
      · rename_i hi
        have hround := hexByte_round hi (hclosed i)
        have hself := hround []
        rw [List.append_nil] at hself
        rw [hround rest, hself]
      · rfl
    · intro i bs' rest rest' out out' hlen' hpair' hout hout'
      rw [readBufferHex_natCast, if_pos hlen, Option.some.injEq] at hout hout'
      rw [← hout, ← hout', readHexLoop_getElem?, readHexLoop_getElem?]
      split
      · rename_i hi
        rw [hexByte_round hi (hclosed i),
          hexByte_round (by rw [hlen']; exact hi) (by rw [hpair']; exact hclosed i), hpair']
      · rfl

/-- Two spaces are decoded with what follows them: the digits `41`, or a NUL. -/
theorem decodes_spaces :
    let h : Host := { bigEndian := false, sdkBe := false }
    readBufferHex h (some ([0x20, 0x20] ++ [0x34, 0x31])) 2 = some [0x41] ∧
      readBufferHex h (some ([0x20, 0x20] ++ [0])) 2 = some [0] ∧
      ¬ DecodesAlone h [0x20, 0x20] := by
  intro h
  have hdigits : readBufferHex h (some ([0x20, 0x20] ++ [0x34, 0x31])) 2 = some [0x41] := by
    decide
  have hnul : readBufferHex h (some ([0x20, 0x20] ++ [0])) 2 = some [0] := by
    decide
  refine ⟨hdigits, hnul, ?_⟩
  rintro ⟨⟨out, hout⟩, -⟩
  have heq := (hdigits.symm.trans (hout [0x34, 0x31])).trans ((hout [0]).symm.trans hnul)
  exact absurd heq (by decide)

end LinuxDemo
