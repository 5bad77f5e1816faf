/-
LinuxDemo/JsonDocument.lean

Which documents of the grammar the reader accepts.

A document is accepted if it is not nested too deep, is a container where
`strictRoot_` asks for one, and has no name twice in an object where
`rejectDupKeys_` forbids it; and no other document is (`parse_document`).  The
first half is `parse_of_derives`.  For the second, a name that is there twice
makes the call that meets it fail, and then every call around it
(`Rejects`).
-/
import LinuxDemo.JsonComplete

namespace LinuxDemo.Json

open JsonGrammar

variable {ρ : Type*}

namespace OurReader

variable (r : OurReader ρ)

/-- What each function does at a text of the grammar in which a name is there twice. -/
def Rejects : Node → List UInt8 → Prop
  | .value v, t => ¬ v.Distinct →
      ∀ (n : ℕ) (place : Value ρ) (s : ReaderState) (rest : List UInt8), Call n s t rest →
        Stops rest → (r.readValue n place s).NotOk
  | .around v, t => ¬ v.Distinct →
      ∀ (n : ℕ) (place : Value ρ) (s : ReaderState) (rest : List UInt8), Call n s t rest →
        Stops rest → (r.readValue n place s).NotOk
  | .elements vs, t => ¬ (∀ v ∈ vs, v.Distinct) →
      ∀ (n index : ℕ) (m : List (ℕ × Value ρ)) (s : ReaderState) (rest : List UInt8),
        Call n s t (0x5D :: rest) → (∀ e ∈ m, e.1 < index) →
          (r.readArray (n + 1) index m s).NotOk
  | .members ms, t =>
      ∀ (n : ℕ) (name : List UInt8) (m : List (List UInt8 × Value ρ)) (s : ReaderState)
        (rest : List UInt8), Call n s t (0x7D :: rest) →
        ¬ ((ms.map Prod.fst).Nodup ∧ (∀ e ∈ ms, e.2.Distinct ∧ OrdMap.find m e.1 = none)) →
          (r.readObject n name m s).NotOk

variable {r} {n : ℕ} {place : Value ρ} {s : ReaderState} {t rest : List UInt8}

theorem notOk_readValue (h : Call n s t rest)
    (hlimit : (s.stackDepth_ : ℤ) ≥ r.features_.stackLimit_) : (r.readValue n place s).NotOk := by
  obtain ⟨n, rfl⟩ := h.exists_succ
  rw [readValue, if_pos hlimit]
  trivial

theorem rejects_distinct {v : Tree} (h : v.Distinct) : r.Rejects (.value v) t :=
  fun hnot => absurd h hnot

theorem rejects_array {vs : List Tree} (hbegins : Begins t) (h : r.Rejects (.elements vs) t) :
    r.Rejects (.value (.array vs)) (0x5B :: (t ++ [0x5D])) := by
  intro hnot n place s rest hcall _
  by_cases hlimit : (s.stackDepth_ : ℤ) ≥ r.features_.stackLimit_
  · exact notOk_readValue hcall hlimit
  · obtain ⟨k, s', hcall', -, -, hvalue⟩ := readValue_array hbegins hcall hlimit place
    rw [hvalue]
    exact (h (fun hall => hnot (.array hall)) k 0 [] s' rest hcall' nofun).leave

theorem rejects_object {ms : List (List UInt8 × Tree)} (h : r.Rejects (.members ms) t) :
    r.Rejects (.value (.object ms)) (0x7B :: (t ++ [0x7D])) := by
  intro hnot n place s rest hcall _
  by_cases hlimit : (s.stackDepth_ : ℤ) ≥ r.features_.stackLimit_
  · exact notOk_readValue hcall hlimit
  · obtain ⟨k, s', hcall', -, -, hvalue⟩ := readValue_object hcall hlimit place
    rw [hvalue]
    refine (h k [] [] s' rest hcall' ?_).leave
    exact fun hall => hnot (.object hall.1 fun e he => (hall.2 e he).1)

theorem rejects_around {b b' : List UInt8} {v : Tree} (hb : Blank b) (hb' : Blank b')
    (h : r.Rejects (.value v) t) : r.Rejects (.around v) (b ++ (t ++ b')) := by
  intro hnot n place s rest hcall hrest
  exact h hnot n place s (b' ++ rest) (hcall.around hb) (hb'.stops hrest)

theorem rejects_element {v : Tree} (h : r.Rejects (.around v) t) :
    r.Rejects (.elements [v]) t := by
  intro hnot n index m s rest hcall _
  refine notOk_readArray (h (fun hv => hnot ?_) n _ s _ hcall (stops_cons (.inr (.inl rfl)) rest))
  exact List.forall_mem_singleton.mpr hv

theorem rejects_elements {v : Tree} {vs : List Tree} {t' : List UInt8} (hbegins : Begins t)
    (haccepts : r.Accepts (.around v) t) (h : r.Rejects (.around v) t)
    (h' : r.Rejects (.elements vs) t') : r.Rejects (.elements (v :: vs)) (t ++ 0x2C :: t') := by
  intro hnot n index m s rest hcall hm
  have hcall' := hcall.first
  by_cases hv : v.Distinct
  · have hvs : ¬ ∀ v ∈ vs, v.Distinct := fun hall => hnot (List.forall_mem_cons.mpr ⟨hv, hall⟩)
    rw [readArray_round haccepts (fun _ => hv) hm hcall' (.inl rfl) rfl (.inl rfl),
      if_neg (by decide : ¬ TokenType.tokenArraySeparator = .tokenArrayEnd)]
    split
    · obtain ⟨n, rfl⟩ := hcall.exists_succ
      exact h' hvs n (index + 1) _ _ rest (hcall'.afterElement hbegins) (forall_lt_append hm _)
    · trivial
  · exact notOk_readArray (h hv n _ s _ hcall' (stops_cons (.inl rfl) _))

/-- A member whose name is there already, or whose value has a name twice, ends the object. -/
theorem notOk_readObject (hreject : r.features_.rejectDupKeys_ = true) {q b b' name : List UInt8}
    {v : Tree} (hb : Blank b) (hq : Quoted name q) (hb' : Blank b') (h : r.Rejects (.around v) t)
    {name' : List UInt8} {m : List (List UInt8 × Value ρ)}
    (hnot : ¬ (v.Distinct ∧ OrdMap.find m name = none))
    (hcall : Call (n + 1) s (b ++ (q ++ (b' ++ 0x3A :: t))) rest) (hrest : Stops rest) :
    (r.readObject (n + 1) name' m s).NotOk := by
  obtain ⟨hcall', hround⟩ := readObject_member (r := r) name' hb hq hb' m hcall
  by_cases hfind : (OrdMap.find m name).isSome = true
  · rw [if_pos ⟨hreject, hfind⟩] at hround
    obtain ⟨s', hround⟩ := hround
    rw [hround]
    rfl
  · have hv : ¬ v.Distinct := fun hv => hnot ⟨hv, Option.not_isSome_iff_eq_none.mp hfind⟩
    rw [if_neg (fun hboth => hfind hboth.2)] at hround
    rw [hround]
    exact notOk_memberRest (h hv n _ _ rest hcall' hrest)

theorem rejects_member (hreject : r.features_.rejectDupKeys_ = true) {name q b b' : List UInt8}
    {v : Tree} (hb : Blank b) (hq : Quoted name q) (hb' : Blank b')
    (h : r.Rejects (.around v) t) :
    r.Rejects (.members [(name, v)]) (b ++ (q ++ (b' ++ 0x3A :: t))) := by
  intro n name' m s rest hcall hnot
  obtain ⟨n, rfl⟩ := hcall.exists_succ
  refine notOk_readObject hreject hb hq hb' h (fun hv => hnot ?_) hcall
    (stops_cons (.inr (.inr rfl)) rest)
  exact ⟨List.nodup_singleton name, List.forall_mem_singleton.mpr hv⟩

theorem rejects_members (hreject : r.features_.rejectDupKeys_ = true) {name q b b' t' : List UInt8}
    {v : Tree} {ms : List (List UInt8 × Tree)} (hb : Blank b) (hq : Quoted name q)
    (hb' : Blank b') (haccepts : r.Accepts (.around v) t) (h : r.Rejects (.around v) t)
    (h' : r.Rejects (.members ms) t') :
    r.Rejects (.members ((name, v) :: ms)) (b ++ (q ++ (b' ++ 0x3A :: (t ++ 0x2C :: t')))) := by
  intro n name' m s rest hcall hnot
  obtain ⟨n, rfl⟩ := hcall.exists_succ
  have hcall' := hcall.member
  by_cases hv : v.Distinct ∧ OrdMap.find m name = none
  · rw [readObject_round hb hq hb' haccepts (fun _ => hv.1) (fun _ => hv.2) hcall' (.inl rfl) rfl
      (.inl rfl), if_neg (by decide : ¬ TokenType.tokenArraySeparator = .tokenObjectEnd)]
    split
    · refine h' n name _ _ rest (hcall'.afterMember hb hq) fun hall => hnot ?_
      -- a name of the other members is not in the map, so it is not this name
      have hne : ∀ e ∈ ms, e.1 ≠ name := fun e he heq => by
        have hfind := (hall.2 e he).2
        rw [heq, OrdMap.find_set_self] at hfind
        cases hfind
      refine ⟨List.nodup_cons.mpr ⟨fun hmem => ?_, hall.1⟩, List.forall_mem_cons.mpr ⟨hv, ?_⟩⟩
      · obtain ⟨e, he, heq⟩ := List.mem_map.mp hmem
        exact hne e he heq
      · intro e he
        have hfind := (hall.2 e he).2
        rw [OrdMap.find_set_ne _ _ (hne e he)] at hfind
        exact ⟨(hall.2 e he).1, hfind⟩
    · trivial
  · exact notOk_readObject hreject hb hq hb' h hv hcall' (stops_cons (.inl rfl) _)

/-- **A name that is there twice makes the reader fail.** -/
theorem rejects (hscan : r.doubles.Scans) (hreject : r.features_.rejectDupKeys_ = true)
    {node : Node} {t : List UInt8} (h : Derives node t) : r.Rejects node t := by
  induction h with
  | null => exact rejects_distinct .null
  | bool b => exact rejects_distinct (.bool b)
  | number h => exact rejects_distinct (.number _)
  | string h => exact rejects_distinct (.string _)
  | emptyArray hb => exact rejects_distinct (.array nofun)
  | array h ih => exact rejects_array (begins_elements h) ih
  | emptyObject hb => exact rejects_distinct (.object List.nodup_nil nofun)
  | object _ ih => exact rejects_object ih
  | around hb _ hb' ih => exact rejects_around hb hb' ih
  | element _ ih => exact rejects_element ih
  | elements h _ ih ih' => exact rejects_elements (begins_around h) (accepts hscan h) ih ih'
  | member hb hq hb' _ ih => exact rejects_member hreject hb hq hb' ih
  | members hb hq hb' h _ ih ih' =>
    exact rejects_members hreject hb hq hb' (accepts hscan h) ih ih'

/-! ### Documents -/

/-- The features let a document of this tree pass. -/
structure Admits (r : OurReader ρ) (v : Tree) : Prop where
  depth : (v.depth : ℤ) ≤ r.features_.stackLimit_
  root : r.features_.strictRoot_ = true → v.IsContainer
  keys : r.features_.rejectDupKeys_ = true → v.Distinct

/-- **A document of the grammar is accepted exactly if the features admit it**, and the value is
the one of its tree. -/
theorem parse_document (r : OurReader ρ) (hscan : r.doubles.Scans) {document : List UInt8}
    {v : Tree} (h : Derives (.around v) document) (hshort : document.length < 2 ^ 30)
    (root root' : Value ρ) (errors : List ErrorInfo) :
    r.parse document root = .done (true, root', errors) ↔
      r.Admits v ∧ root' = valueOf r.doubles v ∧ errors = [] := by
  constructor
  · intro hparse
    have hdup : r.features_.rejectDupKeys_ = true → v.Distinct := fun hreject => by
      by_contra hnot
      have hcall : Call (2 * document.length + 1) ⟨document, [], 0⟩ document [] := by
        refine ⟨?_, hshort, Nat.le_refl _⟩
        rw [List.append_nil]
      exact parse_of_notOk (rejects hscan hreject h hnot _ root _ [] hcall stops_nil) root' errors hparse
    rw [r.parse_of_derives hscan h hshort hdup root] at hparse
    split at hparse
    · rename_i hdepth
      split at hparse
      · cases hparse
      · rename_i hroot
        cases hparse
        refine ⟨⟨hdepth, fun hstrict => ?_, hdup⟩, rfl, rfl⟩
        exact not_not.mp fun hcontainer => hroot ⟨hstrict, hcontainer⟩
    · cases hparse
  · rintro ⟨hadmits, rfl, rfl⟩
    rw [r.parse_of_derives hscan h hshort hadmits.keys root, if_pos hadmits.depth,
      if_neg fun hroot => hroot.2 (hadmits.root hroot.1)]

/-- A name that is there twice, with `rejectDupKeys_`. -/
theorem parse_document_twice :
    (⟨.strictMode, true, 0, .half⟩ : OurReader Unit).parse (ascii "\x7b\"a\":null,\"a\":[]\x7d")
        .nullValue = .done (true, .objectValue [(ascii "a", .arrayValue [])], []) ↔
      Admits (⟨.strictMode, true, 0, .half⟩ : OurReader Unit)
        (.object [(ascii "a", .null), (ascii "a", .array [])]) ∧
      .objectValue [(ascii "a", .arrayValue [])] =
        valueOf .half (.object [(ascii "a", .null), (ascii "a", .array [])]) ∧
      ([] : List ErrorInfo) = [] :=
  have hname : Quoted (ascii "a") (ascii "\"a\"") :=
    ⟨_, .cons (.plain (b := 0x61) (by decide) (by decide) (by decide)) .nil, rfl⟩
  parse_document _ (fun _ _ => rfl)
    (.ofValue (.object (.members blank_nil hname blank_nil (.ofValue .null)
      (.member blank_nil hname blank_nil (.ofValue (.emptyArray blank_nil))))))
    (by decide) .nullValue _ []

end OurReader

end LinuxDemo.Json
