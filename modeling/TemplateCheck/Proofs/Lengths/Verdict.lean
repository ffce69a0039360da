import TemplateCheck.Proofs.Findings
import TemplateCheck.Proofs.Lengths

/-!
# The verdict on a length restriction

A length restriction with known bounds is compared with the number of elements that were counted. The number is
called wrong exactly if the template matches no length within the bounds.
-/

namespace TemplateCheck

variable {env : Env} {s : Store} {id : NodeId} {length : LengthRestriction} {lower n : Nat} {upper : Option Nat}
  {bounds : LengthBounds}

/-- The bounds of a length restriction are known numbers, and the upper one may be missing. -/
inductive LengthRestriction.Bounds (defs : Definitions) : LengthRestriction → Nat → Option Nat → Prop where
  | single {value : Value} {n : Nat} : defs.foldInteger? value = some (n : Int) → Bounds defs (.single value) n (some n)
  | atLeast {low : Value} {lower : Nat} : defs.foldInteger? low = some (lower : Int) →
      Bounds defs (.range low none) lower none
  | between {low high : Value} {lower upper : Nat} : defs.foldInteger? low = some (lower : Int) →
      defs.foldInteger? high = some (upper : Int) → lower ≤ upper →
      Bounds defs (.range low (some high)) lower (some upper)

section Bounds

variable {value : Value}

theorem Definitions.fold_of_foldInteger? {defs : Definitions} {number : Int}
    (h : defs.foldInteger? value = some number) : defs.fold value = .ok (.integer number) := by
  obtain ⟨constant, hFold, hInteger⟩ := Option.bind_eq_some_iff.1 h
  have hConstant : constant = .integer number := by
    cases constant <;> simp_all [Value.integer?]
  rw [Definitions.fold?] at hFold
  cases hValue : defs.fold value with
  | error obstacle =>
    rw [hValue] at hFold
    cases hFold
  | ok found =>
    rw [hValue] at hFold
    cases hFold
    rw [hConstant]

theorem attains_foldBound (h : env.definitions.foldInteger? value = some (n : Int)) (part : LengthPart) :
    Attains true env s (foldBound id part value) fun bound s' => bound = some (n : Int) ∧ s' = s := by
  have hConstant : Attains true env s (expectConstant (problemAt id) "integer" Value.integer? value)
      fun number s' => number = some (n : Int) ∧ s' = s := by
    apply Attains.read_then
    simp only [Env.fold, Definitions.fold_of_foldInteger? h, Value.integer?]
    exact .pure ⟨rfl, rfl⟩
  apply hConstant.bind
  rintro _ _ ⟨rfl, rfl⟩
  have hNatural : ¬ (n : Int) < 0 := by omega
  simp only [hNatural, if_false]
  exact .pure ⟨rfl, rfl⟩

theorem attains_foldBounds (h : length.Bounds env.definitions lower upper) :
    Attains true env s (foldBounds id length) fun bounds s' =>
      bounds.lower = some (lower : Int) ∧ bounds.upper = upper.map (↑·) ∧ s' = s := by
  cases h with
  | single hValue =>
    apply (attains_foldBound hValue .whole).bind
    rintro _ _ ⟨rfl, rfl⟩
    exact .pure ⟨rfl, rfl, rfl⟩
  | atLeast hLow =>
    apply (attains_foldBound hLow (.bound .lower)).bind
    rintro _ _ ⟨rfl, rfl⟩
    exact .pure ⟨rfl, rfl, rfl⟩
  | between hLow hHigh hLe =>
    apply (attains_foldBound hLow (.bound .lower)).bind
    rintro _ _ ⟨rfl, rfl⟩
    apply (attains_foldBound hHigh (.bound .upper)).bind
    rintro _ _ ⟨rfl, rfl⟩
    simp only [Int.ofNat_lt, Nat.not_lt.2 hLe, if_false]
    exact .pure ⟨rfl, rfl, rfl⟩

end Bounds

def maxSize : Nat := 0x7FFFFFFFFFFFFFFF

/-- The greatest of some lengths, or one from which on there are all, can be compared with a bound. -/
def Comparable (lengths : Nat → Prop) : Prop :=
  ∃ n ≤ maxSize, lengths n ∧ ((∀ m, lengths m → m ≤ n) ∨ ∀ m, n ≤ m → lengths m)

namespace CountedElements

def Admits (found : CountedElements) (n : Nat) : Prop :=
  (found.atMost = false → found.count ≤ n) ∧ (found.unbounded = false → n ≤ found.count)

variable {found : CountedElements}

theorem problems_eq_nil (hLower : bounds.lower = some (lower : Int)) (hUpper : bounds.upper = upper.map (↑·)) :
    found.problems bounds = [] ↔ (found.unbounded = false → (lower : Int) ≤ comparableSize found.count) ∧
      ∀ u, upper = some u → found.atMost = false → comparableSize found.count ≤ u := by
  unfold problems
  simp only [hLower, hUpper, List.append_eq_nil_iff]
  refine and_congr ?_ ?_
  · cases found.unbounded <;> simp
  · cases upper <;> cases found.atMost <;> simp

theorem comparableSize_count (hSize : Comparable found.Admits)
    (hCompared : found.unbounded = false ∨ found.atMost = false) : comparableSize found.count = found.count := by
  obtain ⟨n, hLe, hAdmits, hEnd⟩ := hSize
  have hCount : found.count ≤ n := by
    cases hExact : found.atMost with
    | false => exact hAdmits.1 hExact
    | true =>
      have hFixed := hCompared.resolve_right (by simp [hExact])
      obtain hGreatest | hAll := hEnd
      · exact hGreatest found.count ⟨fun _ => Nat.le_refl _, fun _ => Nat.le_refl _⟩
      · have hMore := (hAll (max n found.count + 1) (by omega)).2 hFixed
        omega
  unfold comparableSize maxSize at *
  omega

/-- Nothing is wrong exactly if some number of elements lies within the bounds. -/
theorem problems_eq_nil_iff (hLower : bounds.lower = some (lower : Int))
    (hUpper : bounds.upper = upper.map (↑·)) (hOrder : ∀ u, upper = some u → lower ≤ u)
    (hSize : Comparable found.Admits) :
    found.problems bounds = [] ↔ ∃ n, lower ≤ n ∧ (∀ u, upper = some u → n ≤ u) ∧ found.Admits n := by
  have hCompare (hFixed : found.unbounded = false) :
      (lower : Int) ≤ comparableSize found.count ↔ lower ≤ found.count := by
    rw [comparableSize_count hSize (.inl hFixed), Int.ofNat_le]
  have hCount (hExact : found.atMost = false) : comparableSize found.count = found.count :=
    comparableSize_count hSize (.inr hExact)
  rw [problems_eq_nil hLower hUpper, imp_congr_right hCompare]
  unfold Admits
  constructor
  · rintro ⟨hFew, hMany⟩
    cases hExact : found.atMost with
    | true => exact ⟨lower, Nat.le_refl _, hOrder, nofun, hFew⟩
    | false =>
      refine ⟨max lower found.count, Nat.le_max_left .., fun u hu => ?_, fun _ => Nat.le_max_right .., fun hFixed => ?_⟩
      · have hAbove := hMany u hu hExact
        rw [hCount hExact, Int.ofNat_le] at hAbove
        exact Nat.max_le.2 ⟨hOrder u hu, hAbove⟩
      · exact Nat.max_le.2 ⟨hFew hFixed, Nat.le_refl _⟩
  · rintro ⟨n, hLe, hBelow, hLeast, hMost⟩
    refine ⟨fun hFixed => Nat.le_trans hLe (hMost hFixed), fun u hu hExact => ?_⟩
    rw [hCount hExact, Int.ofNat_le]
    exact Nat.le_trans (hLeast hExact) (hBelow u hu)

end CountedElements

/-- The lengths that a template can match under a governor of the given category. Of a text that is no literal
of its kind only the size is known. -/
inductive Store.Lengths (s : Store) (defs : Definitions) : Category → Form → (Nat → Prop) → Prop where
  | positional {category : Category} {element : TypeKey} {items : List NodeId} :
      category = .recordOf element ∨ category = .setOf element →
      Lengths s defs category (.list .positional items) (s.Counts items)
  | superset {element : TypeKey} {items : List NodeId} :
      Lengths s defs (.setOf element) (.list .superset items) fun n => ∃ k, s.Counts items k ∧ k ≤ n
  | subset {element : TypeKey} {items : List NodeId} :
      Lengths s defs (.setOf element) (.list .subset items) fun n => ∃ k, s.Counts items k ∧ n ≤ k
  | pattern {family : BinaryFamily} {text : String} : family.patternFault? text = none →
      Lengths s defs (.string (.binary family)) (.binaryPattern family text) fun n =>
        ∃ w ∈ family.language text.toList, w.length = n
  | literal {family : BinaryFamily} {value : Value} {text : String} :
      defs.fold? value = some (.string (.binary family) text) → family.Spells text.toList →
      Lengths s defs (.string (.binary family)) (.specific value) fun n =>
        n = (family.elements text.toList).length
  | unspelled {family : BinaryFamily} {value : Value} {text : String} :
      defs.fold? value = some (.string (.binary family) text) → ¬ family.Spells text.toList →
      Lengths s defs (.string (.binary family)) (.specific value) fun n =>
        n = text.utf8ByteSize / family.digitsPerElement
  | text {expected own : CharFamily} {value : Value} {text : String} :
      defs.fold? value = some (.string (.character own) text) →
      (StringFamily.character expected).accepts (.character own) →
      Lengths s defs (.string (.character expected)) (.specific value) fun n => n = text.length
  | constant {category : Category} {element : TypeKey} {value : Value} {items : List Value} :
      category = .recordOf element ∨ category = .setOf element → defs.fold? value = some (.list items) →
      Lengths s defs category (.specific value) fun n => n = items.length

section Verdict

variable {t : Template} {category : Category} {form : Form} {lengths : Nat → Prop} {defs : Definitions}
  {counted : Counted} {context : List Context}

theorem attains_extent {items : List NodeId} (h : s.Counts items n) :
    Attains true env s (extent items) fun e s' => s' = s ∧ s.Measures items e := by
  obtain ⟨e, hExtent, hMeasures⟩ := h.extent
  apply Attains.store_then
  rw [hExtent]
  exact .pure ⟨rfl, hMeasures⟩

theorem constantElements?_string {expected family : StringFamily} {text : String}
    (hAccepts : expected.accepts family) (hLength : (Value.string family text).stringLength? = some n) :
    constantElements? (.string expected) (.string family text) = some { count := n, counted := .string } := by
  simp [constantElements?, Value.stringFamily?, hAccepts, hLength]

theorem admits_count_iff {m : Nat} : CountedElements.Admits { count := n, counted } m ↔ m = n := by
  simp only [CountedElements.Admits, forall_const]
  omega

theorem attains_counted_constant {value found : Value} (hFold : env.definitions.fold? value = some found)
    (hCount : constantElements? category found = some { count := n, counted }) :
    Attains true env s (countedElements? category (.specific value)) fun found s' =>
      s' = s ∧ ∃ counted, found = some counted ∧ ∀ m, m = n ↔ counted.Admits m := by
  apply Attains.read_then
  rw [hFold, Option.bind_some, hCount]
  exact .pure ⟨rfl, _, rfl, fun m => admits_count_iff.symm⟩

theorem Store.Lengths.attains_counted (h : s.Lengths env.definitions category form lengths) (hSome : lengths n) :
    Attains true env s (countedElements? category form) fun found s' =>
      s' = s ∧ ∃ counted, found = some counted ∧ ∀ m, lengths m ↔ counted.Admits m := by
  cases h with
  | positional hCategory =>
    have hExtent : Attains true env s _ _ := attains_extent hSome
    obtain rfl | rfl := hCategory <;>
    · apply hExtent.bind
      rintro e _ ⟨rfl, hMeasures⟩
      refine .pure ⟨rfl, _, rfl, fun m => (hMeasures m).trans ?_⟩
      simp [Extent.Admits, CountedElements.Admits]
  | superset =>
    obtain ⟨k, hCounts, -⟩ := hSome
    apply (attains_extent hCounts).bind
    rintro e _ ⟨rfl, hMeasures⟩
    refine .pure ⟨rfl, _, rfl, fun m => ?_⟩
    simp only [hMeasures _, Extent.exists_admits_le, CountedElements.Admits, forall_const, Bool.true_eq_false,
      false_imp_iff, and_true]
  | subset =>
    obtain ⟨k, hCounts, -⟩ := hSome
    apply (attains_extent hCounts).bind
    rintro e _ ⟨rfl, hMeasures⟩
    refine .pure ⟨rfl, _, rfl, fun m => ?_⟩
    simp only [hMeasures _, Extent.exists_le_admits, CountedElements.Admits, Bool.true_eq_false, false_imp_iff,
      true_and]
  | pattern hValid =>
    have hWritten := BinaryFamily.patternFault?_eq_none_iff.1 hValid
    simp only [countedElements?, if_true]
    refine .pure ⟨rfl, _, rfl, fun m => ?_⟩
    rw [hWritten.language_eq, BinaryFamily.Symbol.exists_length_sequence_iff, hWritten.extents_eq]
    simp [Extent.Admits, CountedElements.Admits]
  | literal hFold hSpells =>
    exact attains_counted_constant hFold (constantElements?_string (StringFamily.accepts_refl _) hSpells.stringLength?)
  | unspelled hFold =>
    exact attains_counted_constant hFold (constantElements?_string (StringFamily.accepts_refl _)
      (BinaryFamily.stringLength?_binary ..))
  | text hFold hAccepts => exact attains_counted_constant hFold (constantElements?_string hAccepts rfl)
  | constant hCategory hFold =>
    obtain rfl | rfl := hCategory <;> exact attains_counted_constant hFold rfl

theorem Store.Lengths.update {f : Template → Template}
    (h : s.Lengths defs category form lengths) (hForm : ∀ t, (f t).form = t.form) :
    (s.update id f).Lengths defs category form lengths := by
  have hCounts : (s.update id f).Counts = s.Counts := counts_update hForm
  cases h with
  | positional hCategory => exact hCounts ▸ .positional hCategory
  | superset => exact hCounts ▸ .superset
  | subset => exact hCounts ▸ .subset
  | pattern hValid => exact .pattern hValid
  | literal hFold hSpells => exact .literal hFold hSpells
  | unspelled hFold hNot => exact .unspelled hFold hNot
  | text hFold hAccepts => exact .text hFold hAccepts
  | constant hCategory hFold => exact .constant hCategory hFold

def Problem.isWrongCount : Problem → Bool
  | .tooFewElements .. | .tooManyElements .. => true
  | _ => false

theorem CountedElements.isWrongCount_of_mem {found : CountedElements} {p : Problem}
    (h : p ∈ found.problems bounds) : p.isWrongCount := by
  unfold problems at h
  grind [Problem.isWrongCount]

theorem Store.Lengths.isEnd (h : s.Lengths defs category form lengths) :
    (∀ r last, form ≠ .referenced r last) ∧ form ≠ .omitted ∧ form ≠ .specific .omitted := by
  have hConstant {value found : Value} (hFold : defs.fold? value = some found) (hFound : found ≠ .omitted) :
      Form.specific value ≠ .specific .omitted := by
    rintro ⟨⟩
    cases hFold
    exact hFound rfl
  cases h with
  | literal hFold | unspelled hFold | text hFold | constant _ hFold => exact ⟨nofun, nofun, hConstant hFold nofun⟩
  | _ => exact ⟨nofun, nofun, nofun⟩

theorem Store.Lengths.isCounted (h : s.Lengths defs category form lengths) : (∃ family, category = .string family) ∨
      ∃ element, category = .recordOf element ∨ category = .setOf element := by
  cases h with
  | positional hCategory | constant hCategory => exact .inr ⟨_, hCategory⟩
  | superset | subset => exact .inr ⟨_, .inr rfl⟩
  | _ => exact .inl ⟨_, rfl⟩

theorem Store.Lengths.reports (h : s.Lengths env.definitions category t.form lengths) (hNode : s.get? id = some t)
    (hLower : bounds.lower = some (lower : Int)) (hUpper : bounds.upper = upper.map (↑·))
    (hOrder : ∀ u, upper = some u → lower ≤ u) (hSize : Comparable lengths) :
    Reports env s context (compareWithBounds id bounds category) fun _ _ found =>
      (∃ d ∈ found, ∃ p, d.finding = .error p ∧ p.isWrongCount) ↔
        ¬ ∃ n, lower ≤ n ∧ (∀ u, upper = some u → n ≤ u) ∧ lengths n := by
  obtain ⟨hEnd, hOmitted, hOmitted'⟩ := h.isEnd
  obtain ⟨n, hSome⟩ : ∃ n, lengths n := hSize.imp fun _ h => h.2.1
  apply Reports.attains_then (Attains.lastTemplate hNode hEnd)
  rintro _ _ ⟨rfl, rfl⟩
  apply Reports.formOf_then hNode
  split
  · contradiction
  · contradiction
  · apply Reports.attains_then (h.attains_counted hSome)
    rintro _ _ ⟨rfl, counted, rfl, hAdmits⟩
    apply (Reports.forM_problemAt hNode fun p => p).mono
    rintro _ _ _ ⟨-, rfl⟩
    obtain rfl : lengths = counted.Admits := funext fun n => propext (hAdmits n)
    have hNone := CountedElements.problems_eq_nil_iff hLower hUpper hOrder hSize
    rw [← hNone]
    constructor
    · rintro ⟨d, hMem, -⟩ hNil
      rw [hNil] at hMem
      cases hMem
    · intro hProblems
      obtain ⟨p, hMem⟩ := List.exists_mem_of_ne_nil _ hProblems
      exact ⟨_, List.mem_map_of_mem hMem, p, rfl, CountedElements.isWrongCount_of_mem hMem⟩

theorem LengthRestriction.Bounds.le (h : length.Bounds defs lower upper) : ∀ u, upper = some u → lower ≤ u := by
  rintro u rfl
  cases h with
  | single => exact Nat.le_refl _
  | between _ _ hLe => exact hLe

theorem reports_checkLengthRestriction {governor : TypeKey} {decl : TypeDecl} (hNode : s.get? id = some t)
    (hFirst : t.marks.lengthChecked = false) (hLength : t.length = some length)
    (hBounds : length.Bounds env.definitions lower upper) (hDecl : env.types.decl? governor = some decl)
    (hLengths : s.Lengths env.definitions decl.category t.form lengths) (hSize : Comparable lengths) :
    Reports env s context (checkLengthRestriction id governor) fun _ _ found =>
      (∃ d ∈ found, ∃ p, d.finding = .error p ∧ p.isWrongCount) ↔
        ¬ ∃ n, lower ≤ n ∧ (∀ u, upper = some u → n ≤ u) ∧ lengths n := by
  have hMarked := Store.get?_update_some hNode (·.mark .lengthChecked)
  have hLengths' : (s.update id (·.mark .lengthChecked)).Lengths env.definitions decl.category
      (t.mark .lengthChecked).form lengths := hLengths.update fun _ => rfl
  apply Reports.node_then hNode
  simp only [hFirst, hLength, Bool.false_eq_true, if_false]
  apply Reports.attains_then (Attains.mark hNode .lengthChecked)
  rintro _ _ rfl
  apply Reports.attains_then (attains_foldBounds hBounds)
  rintro bounds _ ⟨hLower, hUpper, rfl⟩
  apply Reports.read_then
  simp only [hDecl]
  have hReports : Reports env _ context (compareWithBounds id bounds decl.category) _ :=
    hLengths'.reports hMarked hLower hUpper hBounds.le hSize
  obtain ⟨family, hCategory⟩ | ⟨element, hCategory | hCategory⟩ := hLengths.isCounted <;>
  · rw [hCategory] at hReports ⊢
    exact hReports

end Verdict

namespace Session

/-- A length restriction is reported exactly if no length within its bounds is one that the template matches. -/
theorem length_verdict {s : Session} {id : NodeId} {t : Template} {governor : TypeKey} {decl : TypeDecl}
    {length : LengthRestriction} {lower : Nat} {upper : Option Nat} {lengths : Nat → Prop}
    (hNode : s.store.get? id = some t) (hFirst : t.marks.lengthChecked = false) (hLength : t.length = some length)
    (hBounds : length.Bounds s.definitions lower upper) (hDecl : s.types.decl? governor = some decl)
    (hLengths : s.store.Lengths s.definitions decl.category t.form lengths) (hSize : Comparable lengths) :
    ∃ found, (s.run (checkLengthRestriction id governor)).1 = .ok () ∧
      (s.run (checkLengthRestriction id governor)).2.report.diagnostics = s.report.diagnostics ++ found ∧
      ((∃ d ∈ found, ∃ p, d.finding = .error p ∧ p.isWrongCount) ↔
        ¬ ∃ n, lower ≤ n ∧ (∀ u, upper = some u → n ≤ u) ∧ lengths n) := by
  have hReports : Reports s.env s.store s.report.context (checkLengthRestriction id governor) _ :=
    reports_checkLengthRestriction hNode hFirst hLength hBounds hDecl hLengths hSize
  obtain ⟨_, after, found, hRun, hFound, hVerdict⟩ := hReports.run s.report rfl
  rw [run_of_run hRun]
  exact ⟨found, rfl, hFound, hVerdict⟩

/-- The list at 4 is a permutation of a number and any further elements, followed by an element of any value. -/
def shortList : Session where
  types := ⟨[(1, ⟨"integer", .integer⟩), (2, ⟨"Numbers", .setOf 1⟩)]⟩
  store := ⟨[{ form := .ofInteger 1 }, { form := .anyOrOmit }, { form := .list .permutation [0, 1] },
    { form := .anyValue },
    { form := .ofItems [2, 3], length := some (.range (.integer 0) (some (.integer 1))) }]⟩

theorem shortList.comparable : Comparable (shortList.store.Counts [2, 3]) := by
  have hCounts : ∀ k, shortList.store.Counts [2, 3] (1 + (k + 0) + (1 + 0)) := fun k =>
    .permutation rfl rfl (.element rfl (by decide) rfl (.anyNumber k rfl rfl .nil)) (.element rfl (by decide) rfl .nil)
  refine ⟨2, by decide, hCounts 0, .inr fun m hLe => ?_⟩
  have hEq : 1 + (m - 2 + 0) + (1 + 0) = m := by omega
  exact hEq ▸ hCounts (m - 2)

theorem length_verdict_shortList :
    ∃ found, (shortList.run (checkLengthRestriction 4 2)).1 = .ok () ∧
      (shortList.run (checkLengthRestriction 4 2)).2.report.diagnostics = [] ++ found ∧
      ((∃ d ∈ found, ∃ p, d.finding = .error p ∧ p.isWrongCount) ↔
        ¬ ∃ n, 0 ≤ n ∧ (∀ u, some 1 = some u → n ≤ u) ∧ shortList.store.Counts [2, 3] n) :=
  length_verdict rfl rfl rfl (.between rfl rfl (by decide)) rfl (.positional (.inr rfl)) shortList.comparable

end Session

end TemplateCheck
