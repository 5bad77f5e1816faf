/-
LinuxDemo/JsonStyledTree.lean

What the styled writers write is JSON, whatever the style is.

A style is `Lawful` if all it adds are blanks.  Then a value is written as a
text of its tree (`Child.write`), and a value that holds no other is pushed to
`childValues_` as one (`Child.push`), which is what an array on one line is put
together from.  The induction on values carries both (`Style.child_writeValue`).
-/
import LinuxDemo.JsonWriterTree

namespace LinuxDemo.Json

open JsonGrammar

variable {ρ : Type*}

/-- `t` was written, and nothing else changed. -/
structure Puts (p p' : Page) (t : List UInt8) : Prop where
  document : p'.document_ = p.document_ ++ t
  indentString : p'.indentString_ = p.indentString_
  addChildValues : p'.addChildValues_ = p.addChildValues_
  childValues : p'.childValues_ = p.childValues_

theorem Puts.trans {p p' p'' : Page} {t t' : List UInt8} (h : Puts p p' t) (h' : Puts p' p'' t') :
    Puts p p'' (t ++ t') where
  document := by rw [h'.document, h.document, List.append_assoc]
  indentString := h'.indentString.trans h.indentString
  addChildValues := h'.addChildValues.trans h.addChildValues
  childValues := h'.childValues.trans h.childValues

theorem puts_append (p : Page) (t : List UInt8) : Puts p (p.append t) t := ⟨rfl, rfl, rfl, rfl⟩

theorem puts_nil (p : Page) : Puts p p [] := ⟨(List.append_nil _).symm, rfl, rfl, rfl⟩

/-- `indented_` makes no difference to what is written. -/
theorem puts_indented {p p' : Page} {t : List UInt8} (h : Puts p p' t) (indented : Bool) :
    Puts p { p' with indented_ := indented } t := ⟨h.document, h.indentString, h.addChildValues,
  h.childValues⟩

namespace Style

variable (style : Style)

/-- `t` was written; `childValues_` may have been used for it. -/
structure Adds (p p' : Page) (t : List UInt8) : Prop where
  document : p'.document_ = p.document_ ++ t
  indentString : p'.indentString_ = p.indentString_
  addChildValues : p'.addChildValues_ = p.addChildValues_
  childValues : style.allMultiLine = true → p'.childValues_ = p.childValues_

/-- A page that a value may be written to. -/
structure Ready (p : Page) : Prop where
  indentString : Blank p.indentString_
  addChildValues : p.addChildValues_ = false
  childValues : style.allMultiLine = true → p.childValues_ = []

/-- All that the style adds are blanks. -/
structure Lawful (name : List UInt8 → List UInt8) : Prop where
  indentation : Blank style.indentation_
  colon : ColonText style.colonSymbol_
  null : style.nullSymbol_ = ascii "null"
  inside : Blank style.inside
  writeName : ∀ s, Quoted (name s) (style.writeName s)
  writeWithIndent : ∀ p value, Blank p.indentString_ →
    ∃ b, Blank b ∧ Puts p (style.writeWithIndent p value) (b ++ value)
  beforeChild : ∀ p, Blank p.indentString_ → ∃ b, Blank b ∧ Puts p (style.beforeChild p) b
  afterChild : ∀ p, Puts p (style.afterChild p) []

variable {style} {p p' p'' : Page} {t t' : List UInt8}

theorem Adds.trans (h : style.Adds p p' t) (h' : style.Adds p' p'' t') :
    style.Adds p p'' (t ++ t') where
  document := by rw [h'.document, h.document, List.append_assoc]
  indentString := h'.indentString.trans h.indentString
  addChildValues := h'.addChildValues.trans h.addChildValues
  childValues hall := (h'.childValues hall).trans (h.childValues hall)

theorem adds_of_puts (h : Puts p p' t) : style.Adds p p' t :=
  ⟨h.document, h.indentString, h.addChildValues, fun _ => h.childValues⟩

theorem Adds.append (h : style.Adds p p' []) (t : List UInt8) : style.Adds p (p'.append t) t :=
  h.trans (adds_of_puts (puts_append p' t))

theorem childValues_append (p : Page) (t : List UInt8) :
    (p.append t).childValues_ = p.childValues_ := rfl

theorem Ready.adds (hp : style.Ready p) (h : style.Adds p p' t) : style.Ready p' where
  indentString := by rw [h.indentString]; exact hp.indentString
  addChildValues := h.addChildValues.trans hp.addChildValues
  childValues hall := (h.childValues hall).trans (hp.childValues hall)

variable (style) in
/-- What a value is written as, and pushed as if it holds no other. -/
structure Child (child : Page → Page) (tree : Tree) (nested : Bool) : Prop where
  write : ∀ p, style.Ready p → ∃ t, Derives (.around tree) t ∧ style.Adds p (child p) t
  push : nested = false → ∃ t, Derives (.value tree) t ∧ ∀ p : Page, p.addChildValues_ = true →
    child p = { p with childValues_ := p.childValues_ ++ [t] }

theorem child_pushValue {tree : Tree} (h : Derives (.value tree) t) :
    style.Child (fun p => p.pushValue t) tree false where
  write p hp := by
    refine ⟨t, h.ofValue, ?_⟩
    rw [Page.pushValue, if_neg (by rw [hp.addChildValues]; decide)]
    exact adds_of_puts (puts_append p t)
  push _ := ⟨t, h, fun p hadd => by rw [Page.pushValue, if_pos hadd]⟩

/-! ### Arrays -/

variable {name : List UInt8 → List UInt8} {child : ℕ → Page → Page} {tree : ℕ → Tree}
  {nested : ℕ → Bool}

/-- Values that hold no other are pushed one after the other. -/
theorem pushChildren_eq {n : ℕ} (index : ℕ) (lineLength : ℤ) (p : Page)
    (hchild : ∀ i, i < index + n → style.Child (child i) (tree i) false)
    (hadd : p.addChildValues_ = true) :
    ∃ ts : List (List UInt8), ts.length = n ∧
      (∀ i < n, Derives (.value (tree (index + i))) (ts.getD i [])) ∧
      (pushChildren child n index lineLength p).2 =
        { p with childValues_ := p.childValues_ ++ ts } := by
  induction n generalizing index lineLength p with
  | zero => exact ⟨[], rfl, nofun, by rw [pushChildren, List.append_nil]⟩
  | succ n ih =>
    obtain ⟨t, ht, hpush⟩ := (hchild index (by omega)).push rfl
    obtain ⟨ts, hlen, hts, hrest⟩ := ih (index + 1)
      (lineLength + ((child index p).childValues_.getD index []).length) (child index p)
      (fun i hi => hchild i (by omega)) (by rw [hpush p hadd]; exact hadd)
    refine ⟨t :: ts, by rw [List.length_cons, hlen], fun i hi => ?_, ?_⟩
    · cases i with
      | zero => exact ht
      | succ i =>
        have hderives := hts i (by omega)
        rwa [Nat.add_right_comm] at hderives
    · rw [pushChildren, hrest, hpush p hadd, List.append_assoc]
      rfl

/-- One value of a multi-line array. -/
theorem writeLine_adds (hstyle : style.Lawful name) {hasChildValue : Bool} {index : ℕ}
    (hp : style.Ready p)
    (hpushed : hasChildValue = true → Derives (.value (tree index)) (p.childValues_.getD index []))
    (hchild : hasChildValue = false → style.Child (child index) (tree index) (nested index))
    (hp' : p' = if hasChildValue then style.writeWithIndent p (p.childValues_.getD index [])
      else style.afterChild (child index (style.beforeChild p))) :
    ∃ t, Derives (.around (tree index)) t ∧ style.Adds p p' t ∧
      (hasChildValue = true → p'.childValues_ = p.childValues_) := by
  cases hasChildValue with
  | true =>
    obtain ⟨b, hb, hputs⟩ := hstyle.writeWithIndent p (p.childValues_.getD index []) hp.indentString
    rw [if_pos rfl] at hp'
    subst hp'
    exact ⟨_, (hpushed rfl).ofValue.padLeft hb, adds_of_puts hputs, fun _ => hputs.childValues⟩
  | false =>
    obtain ⟨b, hb, hputs⟩ := hstyle.beforeChild p hp.indentString
    obtain ⟨t, ht, hadds⟩ := (hchild rfl).write _ (hp.adds (adds_of_puts hputs))
    have hafter := hstyle.afterChild (child index (style.beforeChild p))
    have htrans := ((adds_of_puts hputs).trans hadds).trans (adds_of_puts hafter)
    rw [if_neg nofun] at hp'
    subst hp'
    rw [List.append_nil] at htrans
    exact ⟨_, ht.padLeft hb, htrans, nofun⟩

/-- The loop of a multi-line array. -/
theorem writeLines_adds (hstyle : style.Lawful name) (hasChildValue : Bool) {n : ℕ} (index : ℕ)
    (hn : n ≠ 0) (hp : style.Ready p)
    (hpushed : hasChildValue = true → ∀ i, index ≤ i → i < index + n →
      Derives (.value (tree i)) (p.childValues_.getD i []))
    (hchild : hasChildValue = false → ∀ i, i < index + n →
      style.Child (child i) (tree i) (nested i)) :
    ∃ t, Derives (.elements ((List.range' index n).map tree)) t ∧
      style.Adds p (style.writeLines child hasChildValue n index p) t := by
  induction n generalizing index p with
  | zero => exact absurd rfl hn
  | succ n ih =>
    obtain ⟨t, ht, hadds, hkeeps⟩ := writeLine_adds hstyle hp
      (fun h => hpushed h index (Nat.le_refl _) (by omega)) (fun h => hchild h index (by omega)) rfl
    rw [writeLines, List.range'_succ, List.map_cons]
    split
    · rename_i hzero
      subst hzero
      exact ⟨t, .element ht, hadds⟩
    · rename_i hne
      have hcomma := hadds.trans (adds_of_puts (puts_append _ [0x2C]))
      obtain ⟨t', ht', hrest⟩ := ih (index + 1) hne (hp.adds hcomma)
        (fun h i hle hlt => by
          rw [childValues_append, hkeeps h]
          exact hpushed h i (by omega) (by omega))
        (fun h i hlt => hchild h i (by omega))
      have hall := hcomma.trans hrest
      rw [List.append_assoc, List.singleton_append] at hall
      exact ⟨_, .elements ht ht', hall⟩

/-- The values are pushed if none of them is nested and there are not too many. -/
theorem isMultineArray_eq {size : ℕ} (hp : style.Ready p)
    (hchild : ∀ i < size, style.Child (child i) (tree i) (nested i)) {res : Bool × Page}
    (hres : res = isMultineArray size child nested p) :
    res.2.document_ = p.document_ ∧ res.2.indentString_ = p.indentString_ ∧
      res.2.addChildValues_ = false ∧
      (res.1 = true ∧ res.2.childValues_ = [] ∨
        ∀ i < size, Derives (.value (tree i)) (res.2.childValues_.getD i [])) := by
  rw [isMultineArray] at hres
  split at hres
  · rename_i hflat
    have hflat : ∀ i < size, nested i = false := by
      rw [Bool.not_eq_true', Bool.or_eq_false_iff, List.any_eq_false] at hflat
      intro i hi
      exact Bool.eq_false_iff.mpr (hflat.2 i (List.mem_range.mpr hi))
    obtain ⟨ts, -, hts, hrest⟩ := pushChildren_eq (n := size) 0 (4 + (int32 size - 1) * 2)
      { p with childValues_ := [], addChildValues_ := true }
      (fun i hi => by
        have h := hchild i (by omega)
        rwa [hflat i (by omega)] at h) rfl
    have hdocument := congrArg Page.document_ hrest
    have hindent := congrArg Page.indentString_ hrest
    have hvalues := congrArg Page.childValues_ hrest
    rw [hres]
    refine ⟨hdocument, hindent, rfl, .inr fun i hi => ?_⟩
    have hderives := hts i hi
    rw [Nat.zero_add] at hderives
    exact hvalues ▸ hderives
  · rw [hres]
    exact ⟨rfl, rfl, hp.addChildValues, .inl ⟨rfl, rfl⟩⟩

/-- A container on lines of its own: a bracket, what stands inside one level
further, and a bracket. -/
theorem adds_container (hstyle : style.Lawful name) {o c : UInt8} {p₁ p₂ : Page}
    {node : Node} (hp : style.Ready p) (hp₁ : p₁ = style.indent (style.writeWithIndent p [o]))
    (h : style.Ready p₁ → ∃ t, Derives node t ∧ style.Adds p₁ p₂ t) :
    ∃ b t b', Blank b ∧ Derives node t ∧ Blank b' ∧
      style.Adds p (style.writeWithIndent (style.unindent p₂) [c]) (b ++ o :: (t ++ b' ++ [c])) := by
  obtain ⟨b, hb, hopen⟩ := hstyle.writeWithIndent p [o] hp.indentString
  have hindent : p₁.indentString_ = p.indentString_ ++ style.indentation_ := by
    rw [hp₁, indent, hopen.indentString]
  have hready : style.Ready p₁ := by
    refine ⟨?_, ?_, fun hall => ?_⟩
    · rw [hindent]
      exact hp.indentString.append hstyle.indentation
    · rw [hp₁]
      exact hopen.addChildValues.trans hp.addChildValues
    · rw [hp₁]
      exact hopen.childValues.trans (hp.childValues hall)
  obtain ⟨t, ht, hadds⟩ := h hready
  have hunindent : (style.unindent p₂).indentString_ = p.indentString_ := by
    rw [unindent, hadds.indentString, hindent, List.length_append, Nat.add_sub_cancel,
      List.take_left]
  obtain ⟨b', hb', hclose⟩ := hstyle.writeWithIndent (style.unindent p₂) [c]
    (by rw [hunindent]; exact hp.indentString)
  refine ⟨b, t, b', hb, ht, hb', ?_, hclose.indentString.trans hunindent, ?_, fun hall => ?_⟩
  · have hdocument : p₁.document_ = p.document_ ++ (b ++ [o]) := by
      rw [hp₁]
      exact hopen.document
    have hdocument₂ : (style.unindent p₂).document_ = p₁.document_ ++ t := hadds.document
    rw [hclose.document, hdocument₂, hdocument]
    simp only [List.append_assoc, List.cons_append, List.nil_append]
  · rw [hclose.addChildValues]
    show p₂.addChildValues_ = _
    rw [hadds.addChildValues, hready.addChildValues, hp.addChildValues]
  · rw [hclose.childValues]
    show p₂.childValues_ = _
    rw [hadds.childValues hall, hready.childValues hall, hp.childValues hall]

/-- The values of an array on one line. -/
theorem derives_line {n : ℕ} {values : List (List UInt8)} (hinside : Blank style.inside)
    (h : ∀ i < n + 1, Derives (.value (tree i)) (values.getD i [])) :
    Derives (.value (.array ((List.range (n + 1)).map tree)))
      (0x5B :: (style.inside ++ (List.intercalate (ascii ", ")
        ((List.range (n + 1)).map fun index => values.getD index []) ++
          (style.inside ++ [0x5D])))) := by
  have hjoin := derives_join blank_space ((List.range (n + 1)).map fun index =>
    (tree index, values.getD index [])) (by simp) (by
      intro e he
      obtain ⟨index, hindex, rfl⟩ := List.mem_map.mp he
      exact h index (List.mem_range.mp hindex))
  rw [List.map_map, List.map_map] at hjoin
  have harray := Derives.array ((hjoin.elementsRight hinside).elementsLeft hinside)
  simp only [List.append_assoc] at harray
  exact harray

theorem child_writeArrayValue (hstyle : style.Lawful name) {size : ℕ}
    (hchild : ∀ i < size, style.Child (child i) (tree i) (nested i)) :
    style.Child (style.writeArrayValue size child nested)
      (.array ((List.range size).map tree)) (size > 0) := by
  cases size with
  | zero => exact child_pushValue (.emptyArray blank_nil)
  | succ n =>
    refine ⟨fun p hp => ?_, fun h => by simp at h⟩
    rw [writeArrayValue, if_neg (Nat.succ_ne_zero n)]
    have hmultine : ∃ multine : Bool × Page, multine = (if style.allMultiLine then (true, p) else
        isMultineArray (n + 1) child nested p) ∧ style.Adds p multine.2 [] ∧
        (multine.1 = true ∧ multine.2.childValues_ = [] ∨ ∀ i < n + 1,
          Derives (.value (tree i)) (multine.2.childValues_.getD i [])) := by
      refine ⟨_, rfl, ?_⟩
      split
      · rename_i hall
        refine ⟨⟨(List.append_nil _).symm, rfl, rfl, fun _ => rfl⟩, .inl ⟨rfl, hp.childValues hall⟩⟩
      · rename_i hall
        obtain ⟨hdocument, hindent, hadd, hvalues⟩ := isMultineArray_eq hp hchild rfl
        exact ⟨⟨by rw [hdocument, List.append_nil], hindent, by rw [hadd, hp.addChildValues],
          fun h => absurd h hall⟩, hvalues⟩
    obtain ⟨multine, heq, hadds, hvalues⟩ := hmultine
    rw [← heq]
    have hready := hp.adds hadds
    dsimp only
    split
    · obtain ⟨_, -, hopen⟩ := hstyle.writeWithIndent multine.2 [0x5B] hready.indentString
      generalize hp₁ : style.indent (style.writeWithIndent multine.2 [0x5B]) = p₁
      have hkeeps : p₁.childValues_ = multine.2.childValues_ := by
        rw [← hp₁]
        exact hopen.childValues
      obtain ⟨b, t, b', hb, ht, hb', hwhole⟩ := adds_container (c := 0x5D) hstyle hready hp₁.symm
        fun hready₁ => writeLines_adds hstyle (!p₁.childValues_.isEmpty) 0
          (Nat.succ_ne_zero n) hready₁
          (fun hsome i _ hi => by
            rw [hkeeps] at hsome ⊢
            refine (hvalues.resolve_left fun h => ?_) i (by omega)
            rw [h.2] at hsome
            cases hsome)
          (fun _ i hi => hchild i (by omega))
      have harray := Derives.array (ht.elementsRight hb')
      rw [← List.range_eq_range'] at harray
      exact ⟨_, harray.ofValue.padLeft hb, hadds.trans hwhole⟩
    · rename_i hsingle
      have hvalues := hvalues.resolve_left fun h => hsingle h.1
      exact ⟨_, (derives_line hstyle.inside hvalues).ofValue, hadds.append _⟩

/-! ### Values -/

variable {D : Doubles ρ}

theorem elemWriters_eq (m : List (ℕ × Value ρ)) :
    elemWriters style D m = m.map fun e => (e.1, writeValue style D e.2) := by
  induction m with
  | nil => rfl
  | cons e m ih => rw [elemWriters, ih]; rfl

theorem writeValue_arrayValue (m : List (ℕ × Value ρ)) :
    writeValue style D (.arrayValue m) =
      style.writeArrayValue (Value.arrayValue m).size
        (fun index => writeValue style D (Value.elem m index))
        (fun index => isNested (Value.elem m index)) := by
  have helem (index : ℕ) : ((OrdMap.find (elemWriters style D m) index).getD fun p =>
      p.pushValue style.nullSymbol_) = writeValue style D (Value.elem m index) := by
    rw [elemWriters_eq, OrdMap.find_map, Value.elem]
    cases OrdMap.find m index <;> rfl
  rw [writeValue]
  simp only [helem]

/-- The members of an object, each on a line of its own. -/
theorem writeMemberLines_adds (hstyle : style.Lawful name) {m : List (List UInt8 × Value ρ)}
    (hm : m ≠ []) (hchild : ∀ e ∈ m, style.Child (writeValue style D e.2) (treeOf D name e.2)
      (isNested e.2)) (hp : style.Ready p) :
    ∃ t, Derives (.members (m.map fun e => (name e.1, treeOf D name e.2))) t ∧
      style.Adds p (style.writeMemberLines (memberWriters style D m) p) t := by
  induction m generalizing p with
  | nil => exact absurd rfl hm
  | cons e m ih =>
    obtain ⟨b, hb, hname⟩ := hstyle.writeWithIndent p (style.writeName e.1) hp.indentString
    have hcolon := (adds_of_puts hname : style.Adds _ _ _).trans
      (adds_of_puts (puts_append _ style.colonSymbol_))
    obtain ⟨t, ht, hvalue⟩ := (hchild e List.mem_cons_self).write _ (hp.adds hcolon)
    have hmember := derives_member hb (hstyle.writeName e.1) hstyle.colon ht
    have hadds := hcolon.trans hvalue
    rw [List.append_assoc, List.append_assoc] at hadds
    cases m with
    | nil => exact ⟨_, hmember, hadds⟩
    | cons e' m =>
      have hcomma := hadds.trans (adds_of_puts (puts_append _ [0x2C]))
      obtain ⟨t', ht', hrest⟩ := ih (List.cons_ne_nil _ _)
        (fun e he => hchild e (List.mem_cons_of_mem _ he)) (hp.adds hcomma)
      have hall := hcomma.trans hrest
      rw [List.append_assoc, List.singleton_append] at hall
      exact ⟨_, hmember.membersCons ht', hall⟩

/-- **A styled writer writes the tree of a value.** -/
theorem child_writeValue (hstyle : style.Lawful name) (hprints : D.Prints) {v : Value ρ}
    (hv : v.Everywhere Writable) :
    style.Child (writeValue style D v) (treeOf D name v) (isNested v) := by
  have hnull : Derives (.value .null) style.nullSymbol_ := by
    rw [hstyle.null]
    exact .null
  induction v with
  | nullValue => exact child_pushValue hnull
  | intValue n => exact child_pushValue (.number (numberText_int n))
  | uintValue n => exact child_pushValue (.number (numberText_uint n))
  | realValue x => exact child_pushValue (derives_real hprints x)
  | stringValue s =>
    obtain ⟨s, rfl⟩ := Option.isSome_iff_exists.mp hv
    exact child_pushValue (.string (quoted_valueToQuotedStringN s))
  | booleanValue b => exact child_pushValue (.bool b)
  | arrayValue m ih =>
    obtain ⟨-, hm⟩ := Value.everywhere_arrayValue.mp hv
    rw [treeOf_arrayValue, writeValue_arrayValue]
    have helem (index : ℕ) : style.Child (writeValue style D (Value.elem m index))
        (treeOf D name (Value.elem m index)) (isNested (Value.elem m index)) := by
      rcases Value.elem_cases m index with helem | ⟨e, he, helem⟩
      · rw [helem]
        exact child_pushValue hnull
      · rw [helem]
        exact ih e he (hm e he)
    exact child_writeArrayValue hstyle fun index _ => helem index
  | objectValue m ih =>
    obtain ⟨hlength, hm⟩ := Value.everywhere_objectValue.mp hv
    rw [treeOf_objectValue, writeValue]
    cases m with
    | nil => exact child_pushValue (.emptyObject blank_nil)
    | cons e m =>
      refine ⟨fun p hp => ?_, fun h => ?_⟩
      · obtain ⟨b, t, b', hb, ht, hb', hwhole⟩ := adds_container (c := 0x7D) hstyle hp rfl
          fun hready => writeMemberLines_adds (D := D) hstyle (List.cons_ne_nil e m)
            (fun e he => ih e he (hm e he)) hready
        exact ⟨_, (Derives.object (ht.membersRight hb')).ofValue.padLeft hb, hwhole⟩
      · have hsize : (Value.objectValue (e :: m)).size = m.length + 1 := Nat.mod_eq_of_lt hlength
        rw [isNested, hsize] at h
        simp [Value.isObject] at h

/-- **A written document**, apart from the end of its last line. -/
theorem derives_write (hstyle : style.Lawful name) (hprints : D.Prints) {v : Value ρ}
    (hv : v.Everywhere Writable) (hp : style.allMultiLine = true → p.childValues_ = []) :
    Derives (.around (treeOf D name v)) (style.write D p v).document_ := by
  obtain ⟨t, ht, hadds⟩ := (child_writeValue hstyle hprints hv).write
    { p with document_ := [], addChildValues_ := false, indentString_ := [], indented_ := true }
    ⟨blank_nil, rfl, hp⟩
  rw [write, hadds.document]
  exact ht

end Style

/-! ### The three of them -/

theorem colonText_spaced : ColonText (ascii " : ") :=
  ⟨[0x20], [0x20], blank_space, blank_space, by decide⟩

namespace StyledWriter

theorem puts_writeIndent {p : Page} (hp : Blank p.indentString_) :
    ∃ b, Blank b ∧ Puts p (writeIndent p) b := by
  rw [writeIndent]
  split
  · exact ⟨_, hp, puts_append p _⟩
  · split
    · exact ⟨[], blank_nil, puts_nil p⟩
    · split
      · exact ⟨_, blank_newline.append hp, puts_append p _⟩
      · exact ⟨_, hp, puts_append p _⟩

theorem lawful : style.Lawful cstr where
  indentation := (blank_space.append blank_space).append blank_space
  colon := colonText_spaced
  null := rfl
  inside := blank_space
  writeName := quoted_valueToQuotedString
  writeWithIndent p value hp := by
    obtain ⟨b, hb, hputs⟩ := puts_writeIndent hp
    exact ⟨b, hb, hputs.trans (puts_append _ value)⟩
  beforeChild p hp := puts_writeIndent hp
  afterChild p := puts_nil p

/-- **`StyledWriter` writes the tree of a value**, the names up to their NULs. -/
theorem derives_write {D : Doubles ρ} (hprints : D.Prints) {v : Value ρ}
    (hv : v.Everywhere Writable) (p : Page) : Derives (.around (treeOf D cstr v)) (write D p v) :=
  (Style.derives_write lawful hprints hv nofun).padRight blank_newline

end StyledWriter

/-- An indentation unless there is one already. -/
theorem puts_unlessIndented {p p' : Page} {b : List UInt8} (hb : Blank b) (h : Puts p p' b) :
    ∃ b, Blank b ∧ Puts p (if !p.indented_ then p' else p) b := by
  split
  · exact ⟨b, hb, h⟩
  · exact ⟨[], blank_nil, puts_nil p⟩

namespace StyledStreamWriter

theorem lawful {indentation : List UInt8} (h : Blank indentation) :
    (style indentation).Lawful cstr where
  indentation := h
  colon := colonText_spaced
  null := rfl
  inside := blank_space
  writeName := quoted_valueToQuotedString
  writeWithIndent p value hp := by
    obtain ⟨b, hb, hputs⟩ := puts_unlessIndented (blank_newline.append hp) (puts_append p _)
    exact ⟨b, hb, puts_indented (hputs.trans (puts_append _ value)) false⟩
  beforeChild p hp := by
    obtain ⟨b, hb, hputs⟩ := puts_unlessIndented (blank_newline.append hp) (puts_append p _)
    exact ⟨b, hb, puts_indented hputs true⟩
  afterChild p := puts_indented (puts_nil p) false

/-- **`StyledStreamWriter` writes the same tree**, if it is indented with blanks. -/
theorem derives_write {D : Doubles ρ} (hprints : D.Prints) {v : Value ρ}
    (hv : v.Everywhere Writable) {indentation : List UInt8} (h : Blank indentation) (p : Page) :
    Derives (.around (treeOf D cstr v)) (write D indentation p v) :=
  (Style.derives_write (lawful h) hprints hv nofun).padRight blank_newline

end StyledStreamWriter

namespace BuiltStyledStreamWriter

theorem puts_writeIndent (indentation : List UInt8) {p : Page} (hp : Blank p.indentString_) :
    ∃ b, Blank b ∧ Puts p (writeIndent indentation p) b := by
  rw [writeIndent]
  split
  · exact ⟨_, blank_newline.append hp, puts_append p _⟩
  · exact ⟨[], blank_nil, puts_nil p⟩

theorem lawful {builder : StreamWriterBuilder} (h : Blank builder.indentation)
    (hnull : builder.dropNullPlaceholders = false) : (style builder).Lawful id where
  indentation := h
  colon := by
    show ColonText (if _ then _ else if _ then _ else _)
    split
    · exact ⟨[], [0x20], blank_nil, blank_space, by decide⟩
    · split
      · exact ⟨[], [], blank_nil, blank_nil, by decide⟩
      · exact colonText_spaced
  null := by
    show (if builder.dropNullPlaceholders then [] else ascii "null") = ascii "null"
    rw [hnull]
    rfl
  inside := by
    show Blank (if builder.indentation ≠ [] then [0x20] else [])
    split
    · exact blank_space
    · exact blank_nil
  writeName := quoted_valueToQuotedStringN
  writeWithIndent p value hp := by
    obtain ⟨b₀, hb₀, hindent⟩ := puts_writeIndent builder.indentation hp
    obtain ⟨b, hb, hputs⟩ := puts_unlessIndented hb₀ hindent
    exact ⟨b, hb, puts_indented (hputs.trans (puts_append _ value)) false⟩
  beforeChild p hp := by
    obtain ⟨b₀, hb₀, hindent⟩ := puts_writeIndent builder.indentation hp
    obtain ⟨b, hb, hputs⟩ := puts_unlessIndented hb₀ hindent
    exact ⟨b, hb, puts_indented hputs true⟩
  afterChild p := puts_indented (puts_nil p) false

/-- **`BuiltStyledStreamWriter` writes the tree of a value**, if it is indented with blanks
and writes nulls; `childValues_` has to be empty where it is not cleared. -/
theorem derives_write {D : Doubles ρ} (hprints : D.Prints) {v : Value ρ}
    (hv : v.Everywhere Writable) {builder : StreamWriterBuilder} (h : Blank builder.indentation)
    (hnull : builder.dropNullPlaceholders = false) {p : Page}
    (hp : builder.commentStyleAll = true → p.childValues_ = []) :
    Derives (.around (treeOf D id v)) (write D builder p v) :=
  Style.derives_write (lawful h hnull) hprints hv hp

end BuiltStyledStreamWriter

end LinuxDemo.Json
