import TemplateCheck.Check.Cardinality
import TemplateCheck.Proofs.Graph
import TemplateCheck.Proofs.Languages

/-!
# Lengths

How many elements a template matches, and what is counted of it. A list matches one element for each of its
items, any number for some of them, and for a permutation as many as its members match; the extent of the list
describes these numbers. Those that a pattern matches are the lengths of the words of its language, and they are
read off its text.
-/

namespace TemplateCheck

open List

variable {n : Nat} {e : Extent}

def Extent.Admits (e : Extent) (n : Nat) : Prop := e.count ≤ n ∧ (e.unbounded = false → n ≤ e.count)

theorem Extent.admits_add {a b : Extent} : (a.add b).Admits n ↔ ∃ k l, a.Admits k ∧ b.Admits l ∧ n = k + l := by
  simp only [Admits, add, Bool.or_eq_false_iff]
  constructor
  · rintro ⟨hLe, hFixed⟩
    -- Elements beyond those that are certain belong to the first part that may have more.
    cases hUnbounded : a.unbounded with
    | true => exact ⟨n - b.count, b.count, ⟨by omega, nofun⟩, ⟨Nat.le_refl _, fun _ => Nat.le_refl _⟩, by omega⟩
    | false =>
      refine ⟨a.count, n - a.count, ⟨Nat.le_refl _, fun _ => Nat.le_refl _⟩, ⟨by omega, fun hRest => ?_⟩, by omega⟩
      have := hFixed ⟨hUnbounded, hRest⟩
      omega
  · rintro ⟨k, l, ⟨hFirst, hFixed⟩, ⟨hSecond, hFixed'⟩, rfl⟩
    refine ⟨by omega, fun ⟨h, h'⟩ => ?_⟩
    have := hFixed h
    have := hFixed' h'
    omega

theorem Extent.exists_admits_le : (∃ k, e.Admits k ∧ k ≤ n) ↔ e.count ≤ n :=
  ⟨fun ⟨_, h, hLe⟩ => Nat.le_trans h.1 hLe, fun h => ⟨e.count, ⟨Nat.le_refl _, fun _ => Nat.le_refl _⟩, h⟩⟩

theorem Extent.exists_le_admits : (∃ k, e.Admits k ∧ n ≤ k) ↔ (e.unbounded = false → n ≤ e.count) := by
  constructor
  · rintro ⟨k, h, hLe⟩ hFixed
    exact Nat.le_trans hLe (h.2 hFixed)
  · intro h
    exact ⟨max n e.count, ⟨Nat.le_max_right .., fun hFixed => Nat.max_le.2 ⟨h hFixed, Nat.le_refl _⟩⟩,
      Nat.le_max_left ..⟩

theorem Extent.add_zero (e : Extent) : e.add {} = e := by simp [add]

theorem Extent.zero_add (e : Extent) : Extent.add {} e = e := by simp [add]

theorem Extent.add_assoc (a b c : Extent) : (a.add b).add c = a.add (b.add c) := by
  simp [add, Nat.add_assoc, Bool.or_assoc]

/-- Items of a list that match any number of elements: `*`, and slots that were not spliced. -/
def Form.isAnyNumber : Form → Bool
  | .anyOrOmit | .allFrom _ => true
  | _ => false

namespace Store

variable {depth k : Nat} {members : List NodeId}

/-- A list of items matches so many elements: any number for some of them, for a permutation as many as its
members match, and one for every other. -/
inductive Counts (s : Store) : List NodeId → Nat → Prop where
  | nil : Counts s [] 0
  | element {item : NodeId} {t : Template} {rest : List NodeId} {n : Nat} : s.get? item = some t →
      t.form.listShape? ≠ some .permutation → t.form.isAnyNumber = false → Counts s rest n →
      Counts s (item :: rest) (1 + n)
  | anyNumber {item : NodeId} {t : Template} {rest : List NodeId} {n : Nat} (k : Nat) : s.get? item = some t →
      t.form.isAnyNumber → Counts s rest n → Counts s (item :: rest) (k + n)
  | permutation {item : NodeId} {t : Template} {members rest : List NodeId} {k n : Nat} : s.get? item = some t →
      t.form = .list .permutation members → Counts s members k → Counts s rest n → Counts s (item :: rest) (k + n)

def Measures (s : Store) (items : List NodeId) (e : Extent) : Prop := ∀ n, s.Counts items n ↔ e.Admits n

variable {s : Store} {item : NodeId} {t : Template} {items rest : List NodeId} {e' : Extent}

theorem Counts.of_forms {s' : Store} (h : s.Counts items n)
    (hForms : ∀ id t, s.get? id = some t → ∃ t', s'.get? id = some t' ∧ t'.form = t.form) : s'.Counts items n := by
  induction h with
  | nil => exact .nil
  | element hNode hForm hOne _ ih =>
    obtain ⟨t', hNode', hSame⟩ := hForms _ _ hNode
    exact .element hNode' (hSame ▸ hForm) (hSame ▸ hOne) ih
  | anyNumber k hNode hAny _ ih =>
    obtain ⟨t', hNode', hSame⟩ := hForms _ _ hNode
    exact .anyNumber k hNode' (hSame ▸ hAny) ih
  | permutation hNode hForm _ _ ihMembers ih =>
    obtain ⟨t', hNode', hSame⟩ := hForms _ _ hNode
    exact .permutation hNode' (hSame.trans hForm) ihMembers ih

theorem counts_update {id : NodeId} {f : Template → Template} (hForm : ∀ t, (f t).form = t.form) :
    (s.update id f).Counts = s.Counts := by
  funext items n
  apply propext
  constructor <;> refine fun h => h.of_forms fun other t hFound => ?_
  · obtain ⟨hFound', -⟩ | ⟨rfl, t', hFound', rfl⟩ := get?_update_cases hFound
    · exact ⟨t, hFound', rfl⟩
    · exact ⟨t', hFound', (hForm t').symm⟩
  · by_cases hSelf : other = id
    · subst hSelf
      exact ⟨f t, get?_update_some hFound f, hForm t⟩
    · exact ⟨t, by rw [get?_update_of_ne hSelf, hFound], rfl⟩

theorem measures_nil (s : Store) : s.Measures [] {} := by
  intro n
  constructor
  · rintro ⟨⟩
    exact ⟨Nat.le_refl _, fun _ => Nat.le_refl _⟩
  · rintro ⟨-, hZero⟩
    obtain rfl := Nat.le_zero.1 (hZero rfl)
    exact .nil

theorem Measures.cons_permutation (hNode : s.get? item = some t)
    (hForm : t.form = .list .permutation members) (hMembers : s.Measures members e) (hRest : s.Measures rest e') :
    s.Measures (item :: rest) (e.add e') := by
  intro n
  rw [Extent.admits_add]
  constructor
  · intro h
    cases h with
    | element hNode' hNot =>
      cases hNode.symm.trans hNode'
      exact absurd (by rw [hForm]; rfl) hNot
    | anyNumber k hNode' hAny =>
      cases hNode.symm.trans hNode'
      rw [hForm] at hAny
      cases hAny
    | permutation hNode' hForm' hInner hOuter =>
      cases hNode.symm.trans hNode'
      cases hForm.symm.trans hForm'
      exact ⟨_, _, (hMembers _).1 hInner, (hRest _).1 hOuter, rfl⟩
  · rintro ⟨k, l, hInner, hOuter, rfl⟩
    exact .permutation hNode hForm ((hMembers k).2 hInner) ((hRest l).2 hOuter)

theorem itemExtent_eq (item : NodeId) (form : Form) : itemExtent item form =
    if form.isAnyNumber then ⟨0, true⟩ else ⟨1, false⟩ := by
  cases form <;> rfl

theorem Measures.cons (hNode : s.get? item = some t) (hForm : t.form.listShape? ≠ some .permutation)
    (hRest : s.Measures rest e) : s.Measures (item :: rest) ((itemExtent item t.form).add e) := by
  intro n
  rw [Extent.admits_add, itemExtent_eq]
  constructor
  · intro h
    cases h with
    | element hNode' _ hOne hRest' =>
      cases hNode.symm.trans hNode'
      simp only [hOne, Bool.false_eq_true, if_false]
      exact ⟨1, _, ⟨Nat.le_refl _, fun _ => Nat.le_refl _⟩, (hRest _).1 hRest', rfl⟩
    | anyNumber k hNode' hAny hRest' =>
      cases hNode.symm.trans hNode'
      simp only [hAny, if_true]
      exact ⟨k, _, ⟨Nat.zero_le k, nofun⟩, (hRest _).1 hRest', rfl⟩
    | permutation hNode' hForm' =>
      cases hNode.symm.trans hNode'
      exact absurd (by rw [hForm']; rfl) hForm
  · rintro ⟨k, l, hItem, hAdmits, rfl⟩
    cases hAny : t.form.isAnyNumber with
    | true => exact .anyNumber k hNode hAny ((hRest l).2 hAdmits)
    | false =>
      simp only [hAny, Bool.false_eq_true, if_false] at hItem
      obtain rfl : k = 1 := Nat.le_antisymm (hItem.2 rfl) hItem.1
      exact .element hNode hForm hAny ((hRest l).2 hAdmits)

def tallyStep {α : Type} (s : Store) (measure : NodeId → Form → α) (add : α → α → α) (zero : α) (depth : Nat)
    (total : α) (item : NodeId) : Except Fault α := do
  match ← s.formOf item with
  | .list .permutation members => return add total (← s.tallyWithin measure add zero depth members)
  | form => return add total (measure item form)

abbrev extentWith (s : Store) : Nat → Extent → NodeId → Except Fault Extent := s.tallyStep itemExtent Extent.add {}

theorem tallyWithin_succ (s : Store) (depth : Nat) (items : List NodeId) :
    s.tallyWithin itemExtent Extent.add {} (depth + 1) items = items.foldlM (s.extentWith depth) {} := rfl

theorem extentWith_permutation (hNode : s.get? item = some t) (hForm : t.form = .list .permutation members)
    (hMembers : s.tallyWithin itemExtent Extent.add {} depth members = .ok e) (total : Extent) :
    s.extentWith depth total item = .ok (total.add e) := by
  simp only [tallyStep, formOf, hNode, hForm, hMembers, bind, Except.bind, pure, Except.pure]

theorem extentWith_item (hNode : s.get? item = some t) (hForm : t.form.listShape? ≠ some .permutation)
    (depth : Nat) (total : Extent) : s.extentWith depth total item = .ok (total.add (itemExtent item t.form)) := by
  simp only [tallyStep, formOf, hNode, bind, Except.bind, pure, Except.pure]
  split
  · rename_i hMembers
    exact absurd (by rw [hMembers]; rfl) hForm
  · rfl

inductive Visits (s : Store) : List NodeId → Nat → Prop where
  | nil : Visits s [] 0
  | item {item : NodeId} {t : Template} {rest : List NodeId} {k : Nat} : s.get? item = some t →
      t.form.listShape? ≠ some .permutation → Visits s rest k → Visits s (item :: rest) (k + 1)
  | permutation {item : NodeId} {t : Template} {members rest : List NodeId} {k l : Nat} :
      s.get? item = some t → t.form = .list .permutation members → Visits s members k → Visits s rest l →
      Visits s (item :: rest) (k + l + 1)

theorem Visits.eq {l : Nat} (h : s.Visits items k) (h' : s.Visits items l) : k = l := by
  induction h generalizing l with
  | nil =>
    cases h'
    rfl
  | item hNode hForm _ ih =>
    cases h' with
    | item _ _ hRest => rw [ih hRest]
    | permutation hNode' hForm' =>
      cases hNode.symm.trans hNode'
      exact absurd (by rw [hForm']; rfl) hForm
  | permutation hNode hForm _ _ ihMembers ihRest =>
    cases h' with
    | item hNode' hForm' =>
      cases hNode.symm.trans hNode'
      exact absurd (by rw [hForm]; rfl) hForm'
    | permutation hNode' hForm' hMembers hRest =>
      cases hNode.symm.trans hNode'
      cases hForm.symm.trans hForm'
      rw [ihMembers hMembers, ihRest hRest]

theorem Counts.visits (h : s.Counts items n) : ∃ k, s.Visits items k := by
  induction h with
  | nil => exact ⟨0, .nil⟩
  | element hNode hForm _ _ ih =>
    obtain ⟨k, hVisits⟩ := ih
    exact ⟨k + 1, .item hNode hForm hVisits⟩
  | anyNumber _ hNode hAny _ ih =>
    obtain ⟨k, hVisits⟩ := ih
    refine ⟨k + 1, .item hNode (fun hShape => ?_) hVisits⟩
    revert hAny hShape
    cases Template.form _ <;> simp [Form.isAnyNumber, Form.listShape?]
  | permutation hNode hForm _ _ ih ih' =>
    obtain ⟨k, hMembers⟩ := ih
    obtain ⟨l, hRest⟩ := ih'
    exact ⟨k + l + 1, .permutation hNode hForm hMembers hRest⟩

/-- Fewer nodes are visited below a permutation than from it, so the permutations on the way down are all different, and
there are no more than the store has. -/
theorem Visits.tallies (h : s.Visits items k) {path : List NodeId} (hNodup : path.Nodup)
    (hPath : ∀ above ∈ path, s.Has above ∧ ∃ own, s.Visits [above] own ∧ k < own)
    (hDepth : s.size ≤ path.length + depth) :
    ∃ e, s.Measures items e ∧ ∀ total, items.foldlM (s.extentWith depth) total = .ok (total.add e) := by
  induction h generalizing path depth with
  | nil => exact ⟨{}, measures_nil s, fun total => by rw [Extent.add_zero]; rfl⟩
  | item hNode hForm _ ih =>
    obtain ⟨e, hMeasures, hFold⟩ := ih hNodup (fun above hMem => by
      obtain ⟨hHas, own, hOwn, hLt⟩ := hPath above hMem
      exact ⟨hHas, own, hOwn, by omega⟩) hDepth
    refine ⟨_, hMeasures.cons hNode hForm, fun total => ?_⟩
    rw [foldlM_cons, extentWith_item hNode hForm, ← Extent.add_assoc]
    exact hFold _
  | @permutation item t members rest k l hNode hForm hMembers _ ihMembers ihRest =>
    have hOwn : s.Visits [item] (k + 1) := .permutation hNode hForm hMembers .nil
    have hNew : item ∉ path := by
      intro hMem
      obtain ⟨-, own, hOwn', hLt⟩ := hPath item hMem
      have := hOwn.eq hOwn'
      omega
    have hNodup' : (item :: path).Nodup := nodup_cons.2 ⟨hNew, hNodup⟩
    have hPath' : ∀ above ∈ item :: path, s.Has above ∧ ∃ own, s.Visits [above] own ∧ k < own := by
      intro above hMem
      obtain rfl | hMem := mem_cons.1 hMem
      · exact ⟨has_of_get? hNode, k + 1, hOwn, Nat.lt_succ_self k⟩
      · obtain ⟨hHas, own, hOwn', hLt⟩ := hPath above hMem
        exact ⟨hHas, own, hOwn', by omega⟩
    have hLength := length_le_size hNodup' fun above hMem => (hPath' above hMem).1
    rw [length_cons] at hLength
    obtain ⟨depth, rfl⟩ : ∃ n, depth = n + 1 := ⟨depth - 1, by omega⟩
    obtain ⟨e, hMeasures, hFold⟩ := ihMembers hNodup' hPath'
      (show s.size ≤ (item :: path).length + depth by rw [length_cons]; omega)
    obtain ⟨e', hMeasures', hFold'⟩ := ihRest hNodup (fun above hMem => by
      obtain ⟨hHas, own, hOwn', hLt⟩ := hPath above hMem
      exact ⟨hHas, own, hOwn', by omega⟩) hDepth
    have hInner : s.tallyWithin itemExtent Extent.add {} (depth + 1) members = .ok e := by
      rw [tallyWithin_succ, ← Extent.zero_add e]
      exact hFold {}
    refine ⟨e.add e', hMeasures.cons_permutation hNode hForm hMeasures', fun total => ?_⟩
    rw [foldlM_cons, extentWith_permutation hNode hForm hInner, ← Extent.add_assoc]
    exact hFold' (total.add e)

theorem Counts.extent (h : s.Counts items n) : ∃ e, s.extent items = .ok e ∧ s.Measures items e := by
  obtain ⟨k, hVisits⟩ := h.visits
  obtain ⟨e, hMeasures, hFold⟩ := hVisits.tallies .nil nofun (Nat.le_of_eq (Nat.zero_add s.size).symm)
  refine ⟨e, ?_, hMeasures⟩
  have hTotal := hFold {}
  rwa [Extent.zero_add] at hTotal

end Store

namespace BinaryFamily

variable {family : BinaryFamily} {c : Char} {rest text : List Char}

def Symbol.extent : family.Symbol → Extent
  | .many => ⟨0, true⟩
  | .any | .exactly _ => ⟨1, false⟩

def Symbol.extents (symbols : List family.Symbol) : Extent :=
  symbols.foldr (fun symbol total => symbol.extent.add total) {}

theorem Symbol.extents_cons (first : family.Symbol) (symbols : List family.Symbol) :
    extents (first :: symbols) = first.extent.add (extents symbols) := rfl

theorem Symbol.exists_length_iff (symbol : family.Symbol) (n : Nat) :
    (∃ w ∈ symbol.language, w.length = n) ↔ symbol.extent.Admits n := by
  have hOne : (⟨1, false⟩ : Extent).Admits n ↔ n = 1 :=
    ⟨fun h => Nat.le_antisymm (h.2 rfl) h.1, fun h => ⟨h.ge, fun _ => h.le⟩⟩
  cases symbol with
  | exactly element =>
    rw [extent, hOne]
    constructor
    · rintro ⟨_, rfl, hLength⟩
      exact hLength.symm
    · exact fun h => ⟨[element], rfl, h.symm⟩
  | any =>
    rw [extent, hOne]
    constructor
    · rintro ⟨w, hWord, hLength⟩
      exact hLength.symm.trans hWord
    · exact fun h => ⟨[family.element 0], rfl, h.symm⟩
  | many =>
    exact ⟨fun _ => ⟨Nat.zero_le n, nofun⟩, fun _ =>
      ⟨replicate n (family.element 0), trivial, length_replicate⟩⟩

theorem Symbol.exists_length_sequence_iff (symbols : List family.Symbol) (n : Nat) :
    (∃ w ∈ sequence symbols, w.length = n) ↔ (extents symbols).Admits n := by
  induction symbols generalizing n with
  | nil =>
    constructor
    · rintro ⟨_, rfl, hLength⟩
      exact ⟨Nat.zero_le n, fun _ => hLength.ge⟩
    · exact fun h => ⟨[], rfl, (Nat.le_zero.1 (h.2 rfl)).symm⟩
  | cons first symbols ih =>
    rw [sequence_cons, extents_cons, Extent.admits_add]
    constructor
    · rintro ⟨w, hWord, rfl⟩
      obtain ⟨u, hFirst, v, hRest, rfl⟩ := Language.mem_mul.1 hWord
      exact ⟨u.length, v.length, (first.exists_length_iff _).1 ⟨u, hFirst, rfl⟩, (ih _).1 ⟨v, hRest, rfl⟩,
        length_append⟩
    · rintro ⟨k, l, hFirst, hRest, rfl⟩
      obtain ⟨u, hWord, rfl⟩ := (first.exists_length_iff k).2 hFirst
      obtain ⟨v, hWord', rfl⟩ := (ih l).2 hRest
      exact ⟨u ++ v, Language.mem_mul.2 ⟨u, hWord, v, hWord', rfl⟩, length_append⟩

theorem minLength_digit (hFamily : family ≠ .octet) (h : family.isDigit c) :
    family.minLength (c :: rest) = family.minLength rest + 1 := by
  obtain ⟨hStar, hMark⟩ := ne_wildcard (isHexDigit_of_isDigit h)
  rw [minLength.eq_def]
  grind

theorem minLength_pair {d : Char} (h : isHexDigit c) : octet.minLength (c :: d :: rest) = octet.minLength rest + 1 := by
  obtain ⟨hStar, hMark⟩ := ne_wildcard h
  rw [minLength.eq_def]
  grind

theorem Written.extents_eq {symbols : List family.Symbol} (h : Written family text symbols) :
    Symbol.extents symbols = ⟨family.minLength text, '*' ∈ text⟩ := by
  induction h with
  | nil => rfl
  | many _ ih => simp [Symbol.extents_cons, ih, Symbol.extent, Extent.add, minLength]
  | any _ ih => simp [Symbol.extents_cons, ih, Symbol.extent, Extent.add, minLength, Nat.add_comm]
  | digit hFamily hDigit _ ih =>
    have hStar := (ne_wildcard (isHexDigit_of_isDigit hDigit)).1
    simp [Symbol.extents_cons, ih, Symbol.extent, Extent.add, minLength_digit hFamily hDigit, hStar.symm, Nat.add_comm]
  | pair hFirst hSecond _ ih =>
    have hStar := (ne_wildcard hFirst).1
    have hStar' := (ne_wildcard hSecond).1
    simp [Symbol.extents_cons, ih, Symbol.extent, Extent.add, minLength_pair hFirst, hStar.symm, hStar'.symm,
      Nat.add_comm]

def digitsPerElement : BinaryFamily → Nat
  | .octet => 2
  | _ => 1

theorem utf8Size_digit (h : isHexDigit c) : c.utf8Size = 1 := by
  have hLe : c ≤ 'f' := by
    simp only [isHexDigit, Bool.or_eq_true, Bool.and_eq_true, decide_eq_true_eq] at h
    obtain (⟨-, h⟩ | ⟨-, h⟩) | ⟨-, h⟩ := h
    · exact Nat.le_trans h (by decide)
    · exact h
    · exact Nat.le_trans h (by decide)
  rw [Char.utf8Size_eq_one_iff]
  exact Nat.le_trans hLe (by decide)

theorem utf8ByteSize_digits (h : ∀ c ∈ text, family.isDigit c) : (String.ofList text).utf8ByteSize = text.length := by
  induction text with
  | nil => rfl
  | cons c text ih =>
    have hDigit := isHexDigit_of_isDigit (h c mem_cons_self)
    rw [← singleton_append, String.ofList_append, String.utf8ByteSize_append,
      ih fun d hMem => h d (mem_cons_of_mem c hMem)]
    simp [utf8Size_digit hDigit, Nat.add_comm]

theorem length_elements (family : BinaryFamily) (text : List Char) :
    (family.elements text).length = (text.length + (family.digitsPerElement - 1)) / family.digitsPerElement := by
  fun_induction elements family text with
  | case1 family => cases family <;> rfl
  | case2 c d rest ih =>
    simp only [digitsPerElement, length_cons] at ih ⊢
    omega
  | case3 c family rest hPair ih =>
    cases family with
    | octet =>
      cases rest with
      | nil => simp [ih, digitsPerElement]
      | cons d rest => exact (hPair d rest rfl rfl).elim
    | _ => simp [digitsPerElement, ih]

theorem stringLength?_binary (family : BinaryFamily) (text : String) :
    (Value.string (.binary family) text).stringLength? = some (text.utf8ByteSize / family.digitsPerElement) := by
  cases family <;> simp [Value.stringLength?, digitsPerElement]

theorem Spells.stringLength? {text : String} (h : family.Spells text.toList) :
    (Value.string (.binary family) text).stringLength? = some (family.elements text.toList).length := by
  have hBytes : text.utf8ByteSize = text.toList.length := by
    rw [← utf8ByteSize_digits h.digits, String.ofList_toList]
  rw [stringLength?_binary, length_elements, hBytes]
  cases family with
  | octet =>
    have hEven := h.even rfl
    simp only [digitsPerElement, Option.some.injEq]
    omega
  | _ => simp [digitsPerElement]

end BinaryFamily

end TemplateCheck
