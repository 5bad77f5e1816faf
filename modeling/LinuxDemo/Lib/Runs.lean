/-
LinuxDemo/Lib/Runs.lean

Runs of a machine whose steps are given by a partial function
`step : S → L → Option S`: an action that is not enabled in a state has no
result there.  Interleavings of threads are lists of actions, so a statement
about every interleaving is one about every list.

`RunMeets step G s as` says that every step of the run of `as` from `s` meets
`G`, a condition on the state before, the action and the state after.  The
rule is `run_invariant_of`: what every step that meets `G` preserves holds at
the end of every run that meets `G`.  A state reached on the way is the end of
a run of its own (`run_append`), so nothing is lost by looking at the end.
-/
import Mathlib.Data.List.Basic
import Mathlib.Data.List.Induction

namespace LinuxDemo

variable {S L : Type*}

/-- The state after the actions `as`, if each is enabled in its turn. -/
def run (step : S → L → Option S) : S → List L → Option S
  | s, [] => some s
  | s, a :: as => (step s a).bind fun s' => run step s' as

/-- Every step of the run of `as` from `s` meets `G`. -/
def RunMeets (step : S → L → Option S) (G : S → L → S → Prop) : S → List L → Prop
  | _, [] => True
  | s, a :: as =>
      match step s a with
      | none => True
      | some s' => G s a s' ∧ RunMeets step G s' as

variable {step : S → L → Option S} {G : S → L → S → Prop}

theorem runMeets_cons_some {s s' : S} {a : L} {as : List L} (h : step s a = some s') :
    RunMeets step G s (a :: as) ↔ G s a s' ∧ RunMeets step G s' as := by
  simp only [RunMeets, h]

theorem runMeets_cons_none {s : S} {a : L} {as : List L} (h : step s a = none) :
    RunMeets step G s (a :: as) := by
  simp only [RunMeets, h]

instance decidableRunMeets [∀ s a s', Decidable (G s a s')] :
    (s : S) → (as : List L) → Decidable (RunMeets step G s as)
  | _, [] => isTrue trivial
  | s, a :: as =>
      match h : step s a with
      | none => isTrue (runMeets_cons_none h)
      | some s' =>
          have : Decidable (RunMeets step G s' as) := decidableRunMeets s' as
          decidable_of_iff _ (runMeets_cons_some h).symm

@[simp] theorem run_nil (s : S) : run step s [] = some s := rfl

theorem run_cons (s : S) (a : L) (as : List L) :
    run step s (a :: as) = (step s a).bind fun s' => run step s' as := rfl

/-- The first step of a run, and the rest of it. -/
theorem run_cons_eq_some {s t : S} {a : L} {as : List L} :
    run step s (a :: as) = some t ↔ ∃ s', step s a = some s' ∧ run step s' as = some t := by
  rw [run_cons, Option.bind_eq_some_iff]

/-- Runs compose. -/
theorem run_append {s t : S} {as : List L} (bs : List L) (h : run step s as = some t) :
    run step s (as ++ bs) = run step t bs := by
  induction as generalizing s with
  | nil => rw [Option.some.inj h, List.nil_append]
  | cons a as ih =>
    obtain ⟨s', hs, hr⟩ := run_cons_eq_some.mp h
    rw [List.cons_append, run_cons, hs, Option.bind_some, ih hr]

/-- **The invariant rule for restricted runs.**  What holds at the start and
is preserved by every step that meets `G` holds at the end. -/
theorem run_invariant_of {I : S → Prop}
    (hstep : ∀ s a s', I s → G s a s' → step s a = some s' → I s')
    {s t : S} {as : List L} (hs : I s) (hG : RunMeets step G s as)
    (h : run step s as = some t) : I t := by
  induction as generalizing s with
  | nil => exact Option.some.inj h ▸ hs
  | cons a as ih =>
    obtain ⟨s', hs', hr⟩ := run_cons_eq_some.mp h
    obtain ⟨hg, hG'⟩ := (runMeets_cons_some hs').mp hG
    exact ih (hstep s a s' hs hg hs') hG' hr

/-- **The invariant rule.** -/
theorem run_invariant {I : S → Prop}
    (hstep : ∀ s a s', I s → step s a = some s' → I s')
    {s t : S} {as : List L} (hs : I s) (h : run step s as = some t) : I t := by
  induction as generalizing s with
  | nil => exact Option.some.inj h ▸ hs
  | cons a as ih =>
    obtain ⟨s', hs', hr⟩ := run_cons_eq_some.mp h
    exact ih (hstep s a s' hs hs') hr

/-- The first part of a restricted run is one. -/
theorem runMeets_of_append {s : S} {as bs : List L} (h : RunMeets step G s (as ++ bs)) :
    RunMeets step G s as := by
  induction as generalizing s with
  | nil => trivial
  | cons a as ih =>
    rcases hs : step s a with _ | s'
    · exact runMeets_cons_none hs
    · rw [List.cons_append, runMeets_cons_some hs] at h
      exact (runMeets_cons_some hs).mpr ⟨h.1, ih h.2⟩

/-- **The rule for exact conditions.**  If every step that meets `G` preserves
`I`, a step that does not leads from `I` to `J`, and every step preserves `J`,
then a run ends in `I` if it meets `G` and in `J` if not. -/
theorem run_invariant_or {I J : S → Prop}
    (hgood : ∀ s a s', I s → G s a s' → step s a = some s' → I s')
    (hbad : ∀ s a s', I s → ¬ G s a s' → step s a = some s' → J s')
    (hstay : ∀ s a s', J s → step s a = some s' → J s')
    {s t : S} {as : List L} (hs : I s) (h : run step s as = some t) :
    RunMeets step G s as ∧ I t ∨ ¬ RunMeets step G s as ∧ J t := by
  induction as generalizing s with
  | nil => exact .inl ⟨trivial, Option.some.inj h ▸ hs⟩
  | cons a as ih =>
    obtain ⟨s', hs', hr⟩ := run_cons_eq_some.mp h
    rw [runMeets_cons_some hs']
    by_cases hg : G s a s'
    · exact (ih (hgood s a s' hs hg hs') hr).imp (fun ⟨hm, hi⟩ => ⟨⟨hg, hm⟩, hi⟩)
        (fun ⟨hm, hj⟩ => ⟨fun hall => hm hall.2, hj⟩)
    · exact .inr ⟨fun hall => hg hall.1, run_invariant hstay (hbad s a s' hs hg hs') hr⟩

/-- **The rule for refinement.**  If every step keeps `I` and does to `abs` what `spec` says, so
does a run. -/
theorem run_refines_fold {A : Type*} {I : S → Prop} {abs : S → A} {spec : A → L → A}
    (hstep : ∀ s a s', I s → step s a = some s' → I s' ∧ abs s' = spec (abs s) a)
    {s t : S} {as : List L} (hs : I s) (h : run step s as = some t) :
    I t ∧ abs t = as.foldl spec (abs s) := by
  induction as generalizing s with
  | nil =>
    obtain rfl := Option.some.inj h
    exact ⟨hs, rfl⟩
  | cons a as ih =>
    obtain ⟨s', hs', hr⟩ := run_cons_eq_some.mp h
    obtain ⟨hI, habs⟩ := hstep s a s' hs hs'
    rw [List.foldl_cons, ← habs]
    exact ih hI hr

/-- **The rule for refinement under an exact condition.**  If a step that meets `G` does to
`abs` what `spec` says, and a step that does not ends elsewhere or not at all, then a run does
so all the way exactly if each of its steps meets `G`. -/
theorem run_refines_iff {A : Type*} {I : S → Prop} {G : S → L → Prop} {abs : S → A}
    {spec : A → L → A}
    (hgood : ∀ s a, I s → G s a → ∃ s', step s a = some s' ∧ I s' ∧ abs s' = spec (abs s) a)
    (hbad : ∀ s a s', I s → ¬ G s a → step s a = some s' → abs s' ≠ spec (abs s) a)
    {s : S} (hs : I s) (as : List L) :
    (∀ bs, bs <+: as → ∃ t, run step s bs = some t ∧ abs t = bs.foldl spec (abs s)) ↔
      ∀ bs b, bs ++ [b] <+: as → ∀ t, run step s bs = some t → G t b := by
  constructor
  · intro h
    have hG : ∀ bs b t, bs ++ [b] <+: as → run step s bs = some t → I t → G t b := by
      intro bs b t hb ht hI
      by_contra hG
      obtain ⟨u, hu, habs⟩ := h bs ((List.prefix_append bs [b]).trans hb)
      obtain rfl := Option.some.inj (hu.symm.trans ht)
      obtain ⟨t', ht', habs'⟩ := h _ hb
      rw [run_append [b] ht] at ht'
      obtain ⟨w, hw, hr⟩ := run_cons_eq_some.mp ht'
      obtain rfl := Option.some.inj hr
      rw [List.foldl_append, ← habs] at habs'
      exact hbad _ b w hI hG hw habs'
    -- so all that is reached on the way keeps `I`
    have hI : ∀ bs, bs <+: as → ∀ t, run step s bs = some t → I t := by
      intro bs
      induction bs using List.reverseRecOn with
      | nil => exact fun _ t ht => Option.some.inj ht ▸ hs
      | append_singleton bs a ih =>
        intro hbs t ht
        have hprefix := (List.prefix_append bs [a]).trans hbs
        obtain ⟨u, hu, -⟩ := h bs hprefix
        have hIu := ih hprefix u hu
        obtain ⟨t', ht', hIt, -⟩ := hgood u a hIu (hG bs a u hbs hu hIu)
        rw [run_append [a] hu, run_cons, ht'] at ht
        exact Option.some.inj ht ▸ hIt
    exact fun bs b hb t ht => hG bs b t hb ht (hI bs ((List.prefix_append bs [b]).trans hb) t ht)
  · intro h bs hbs
    have key : ∃ t, run step s bs = some t ∧ I t ∧ abs t = bs.foldl spec (abs s) := by
      induction bs using List.reverseRecOn with
      | nil => exact ⟨s, rfl, hs, rfl⟩
      | append_singleton bs a ih =>
        obtain ⟨t, ht, hI, habs⟩ := ih ((List.prefix_append bs [a]).trans hbs)
        obtain ⟨t', ht', hI', habs'⟩ := hgood t a hI (h bs a hbs t ht)
        refine ⟨t', ?_, hI', ?_⟩
        · rw [run_append [a] ht, run_cons, ht']
          rfl
        · rw [List.foldl_append, ← habs, habs']
          rfl
    obtain ⟨t, ht, -, habs⟩ := key
    exact ⟨t, ht, habs⟩

end LinuxDemo
