import Mathlib.Data.List.Perm.Subperm
import Mathlib.Logic.Relation
import TemplateCheck.Proofs.Typing

/-!
# Compatibility of types

Without erroneous types, compatibility is a preorder on the types that names stand for. Lists are as compatible as their
elements. The search through nested lists has a depth limit, which is not noticed where no list contains itself: then
lists nest less deep than there are types.
-/

namespace TemplateCheck

open List

/-- A type of the second category may stand for one of the first, given which elements may stand for each other. -/
inductive Category.Admits (rel : TypeKey → TypeKey → Prop) : Category → Category → Prop where
  | string {expected actual : StringFamily} : expected.accepts actual → Admits rel (.string expected) (.string actual)
  | recordOf {expected actual : TypeKey} : rel expected actual → Admits rel (.recordOf expected) (.recordOf actual)
  | setOf {expected actual : TypeKey} : rel expected actual → Admits rel (.setOf expected) (.setOf actual)
  | array {expected actual : TypeKey} {size : Nat} {offset offset' : Int} :
      rel expected actual → Admits rel (.array expected size offset) (.array actual size offset')

namespace Category.Admits

variable {rel rel' : TypeKey → TypeKey → Prop} {a b c : Category}

theorem mono (h : a.Admits rel b) (hRel : ∀ e f, a.element? = some e → rel e f → rel' e f) : a.Admits rel' b := by
  cases h with
  | string hFamily => exact .string hFamily
  | recordOf h => exact .recordOf (hRel _ _ rfl h)
  | setOf h => exact .setOf (hRel _ _ rfl h)
  | array h => exact .array (hRel _ _ rfl h)

theorem trans (hRel : ∀ e f g, rel e f → rel f g → rel e g) (h : a.Admits rel b) (h' : b.Admits rel c) :
    a.Admits rel c := by
  cases h with
  | string hFamily =>
    cases h' with
    | string hFamily' => exact .string (StringFamily.accepts_trans hFamily hFamily')
  | recordOf h =>
    cases h' with
    | recordOf h' => exact .recordOf (hRel _ _ _ h h')
  | setOf h =>
    cases h' with
    | setOf h' => exact .setOf (hRel _ _ _ h h')
  | array h =>
    cases h' with
    | array h' => exact .array (hRel _ _ _ h h')

end Category.Admits

namespace Registry

variable {types : Registry} {key final expected actual : TypeKey} {decl : TypeDecl} {depth : Nat}

/-- The elements of the first type are finally of the second. -/
def Holds (types : Registry) (list inner : TypeKey) : Prop :=
  ∃ decl element innerDecl, types.get? list = some decl ∧ decl.category.element? = some element ∧
    types.resolve? element = some (inner, innerDecl)

def Accords (types : Registry) (rel : TypeKey → TypeKey → Prop) (expected actual : TypeKey) : Prop :=
  ∃ key decl key' decl', types.resolve? expected = some (key, decl) ∧ types.resolve? actual = some (key', decl') ∧
    (key = key' ∨ decl.category.Admits rel decl'.category)

theorem compatibleWithin_succ_iff (hSound : types.Sound) : types.compatibleWithin (depth + 1) expected actual ↔
    types.Accords (fun e a => types.compatibleWithin depth e a) expected actual := by
  rw [compatibleWithin]
  constructor
  · intro h
    split at h
    · rename_i key decl key' decl' hExpected hActual
      refine ⟨key, decl, key', decl', hExpected, hActual, ?_⟩
      rw [Bool.or_eq_true, decide_eq_true_eq] at h
      refine h.imp_right fun h => ?_
      split at h
      · exact absurd ‹_› (hSound key decl (get?_of_resolve? hExpected))
      · exact absurd ‹_› (hSound key' decl' (get?_of_resolve? hActual))
      · simp only [*]
        exact .string h
      · simp only [*]
        exact .recordOf h
      · simp only [*]
        exact .setOf h
      · simp only [Bool.and_eq_true, decide_eq_true_eq] at h
        obtain ⟨rfl, h⟩ := h
        simp only [*]
        exact .array h
      · cases h
    · cases h
  · rintro ⟨key, decl, key', decl', hExpected, hActual, h⟩
    simp only [hExpected, hActual, Bool.or_eq_true, decide_eq_true_eq]
    refine h.imp_right fun h => ?_
    generalize decl.category = category at h ⊢
    generalize decl'.category = category' at h ⊢
    cases h with
    | string h | recordOf h | setOf h => exact h
    | array h => simpa using h

theorem length_le_size {keys : List TypeKey} (hNodup : keys.Nodup) (h : ∀ key ∈ keys, (types.get? key).isSome) :
    keys.length ≤ types.size := by
  have hSub : keys ⊆ types.entries.map (·.1) := by
    intro key hKey
    obtain ⟨decl, hDecl⟩ := Option.isSome_iff_exists.mp (h key hKey)
    obtain ⟨entry, hEntry, -⟩ := Option.map_eq_some_iff.mp hDecl
    exact mem_map.mpr ⟨entry, mem_of_find?_eq_some hEntry, by simpa using find?_some hEntry⟩
  have hLe := (hNodup.subperm hSub).length_le
  rwa [length_map] at hLe

section Acyclic

open Relation (TransGen)

/-- Different declared lists that contain what the type stands for. -/
structure Around (types : Registry) (lists : List TypeKey) (key : TypeKey) : Prop where
  nodup : lists.Nodup
  declared : ∀ list ∈ lists, (types.get? list).isSome
  holds : ∀ list ∈ lists, ∀ final decl, types.resolve? key = some (final, decl) → TransGen types.Holds list final

variable {lists : List TypeKey} (hAcyclic : ∀ key, ¬ TransGen types.Holds key key)

include hAcyclic

theorem Around.nodup_cons (h : types.Around lists key) (hKey : types.resolve? key = some (final, decl)) :
    (final :: lists).Nodup :=
  List.nodup_cons.mpr ⟨fun hAgain => hAcyclic final (h.holds final hAgain final decl hKey), h.nodup⟩

omit hAcyclic in
theorem Around.declared_cons (h : types.Around lists key) (hKey : types.resolve? key = some (final, decl)) :
    ∀ list ∈ final :: lists, (types.get? list).isSome :=
  forall_mem_cons.mpr ⟨by simp [get?_of_resolve? hKey], h.declared⟩

theorem Around.cons {element : TypeKey} (h : types.Around lists key) (hKey : types.resolve? key = some (final, decl))
    (hElement : decl.category.element? = some element) : types.Around (final :: lists) element where
  nodup := h.nodup_cons hAcyclic hKey
  declared := h.declared_cons hKey
  holds list hList inner innerDecl hInner := by
    have hHolds : types.Holds final inner := ⟨decl, element, innerDecl, get?_of_resolve? hKey, hElement, hInner⟩
    obtain rfl | hList := mem_cons.mp hList
    · exact .single hHolds
    · exact (h.holds list hList final decl hKey).tail hHolds

/-- There are no more lists around a type than types. -/
theorem Around.compatibleWithin_succ (h : types.Around lists expected) (hDepth : types.size ≤ lists.length + depth) :
    types.compatibleWithin (depth + 1) expected actual = types.compatibleWithin depth expected actual := by
  induction depth generalizing expected actual lists with
  | zero =>
    cases hExpected : types.resolve? expected with
    | none => simp [compatibleWithin, hExpected]
    | some found =>
      have hLe := length_le_size (h.nodup_cons hAcyclic hExpected) (h.declared_cons hExpected)
      rw [length_cons] at hLe
      omega
  | succ depth ih =>
    rw [compatibleWithin, compatibleWithin]
    cases hExpected : types.resolve? expected with
    | none => rfl
    | some found =>
      obtain ⟨final, name, category⟩ := found
      have hElements : ∀ e f, category.element? = some e →
          types.compatibleWithin (depth + 1) e f = types.compatibleWithin depth e f :=
        fun e f hElement => ih (h.cons hAcyclic hExpected hElement) (by rw [length_cons]; omega)
      cases types.resolve? actual with
      | none => rfl
      | some other =>
        obtain ⟨final', name', category'⟩ := other
        cases category with
        | recordOf e | setOf e | array e => cases category' <;> simp only [hElements e _ rfl]
        | _ => cases category' <;> rfl

/-- The depth limit is not noticed. -/
theorem compatibleWithin_eq (hDepth : types.size ≤ depth) :
    types.compatibleWithin depth expected actual = types.compatible expected actual := by
  have hSucc : ∀ {depth}, types.size ≤ depth →
      types.compatibleWithin (depth + 1) expected actual = types.compatibleWithin depth expected actual :=
    fun hLe => Around.compatibleWithin_succ hAcyclic ⟨.nil, nofun, nofun⟩ (by simpa using hLe)
  induction hDepth with
  | refl => exact (hSucc (Nat.le_refl _)).symm
  | step hLe ih => exact (hSucc hLe).trans ih

theorem compatible_iff (hSound : types.Sound) :
    types.compatible expected actual ↔ types.Accords (fun e a => types.compatible e a) expected actual := by
  have hLimit : ∀ e a, types.compatible e a = types.compatibleWithin types.size e a :=
    fun e a => (compatibleWithin_eq hAcyclic (Nat.le_refl _)).symm
  simp only [hLimit]
  rw [← hLimit]
  exact compatibleWithin_succ_iff hSound

end Acyclic

theorem compatibleWithin_trans (hSound : types.Sound) {a b c : TypeKey} (h : types.compatibleWithin depth a b)
    (h' : types.compatibleWithin depth b c) : types.compatibleWithin depth a c := by
  induction depth generalizing a b c with
  | zero => cases h
  | succ depth ih =>
    rw [compatibleWithin_succ_iff hSound] at h h' ⊢
    obtain ⟨aKey, aDecl, bKey, bDecl, ha, hb, h⟩ := h
    obtain ⟨_, _, cKey, cDecl, hb', hc, h'⟩ := h'
    cases hb.symm.trans hb'
    refine ⟨aKey, aDecl, cKey, cDecl, ha, hc, ?_⟩
    obtain rfl | h := h
    · cases (get?_of_resolve? ha).symm.trans (get?_of_resolve? hb)
      exact h'
    obtain rfl | h' := h'
    · cases (get?_of_resolve? hb).symm.trans (get?_of_resolve? hc)
      exact .inr h
    · exact .inr (h.trans (fun _ _ _ => ih) h')

theorem category_ne_of_follow {steps : Nat} (h : types.follow steps key = some (final, decl)) (target : TypeKey) :
    decl.category ≠ .synonym target := by
  induction steps generalizing key with
  | zero => cases h
  | succ steps ih =>
    rw [follow] at h
    split at h
    · cases h
    · split at h
      · exact ih h
      · rename_i hCategory
        cases h
        exact hCategory target

theorem resolve?_final (h : types.resolve? key = some (final, decl)) : types.resolve? final = some (final, decl) := by
  rw [resolve?, synonymLimit, follow, get?_of_resolve? h]
  dsimp only
  split
  · exact absurd ‹_› (category_ne_of_follow h _)
  · rfl

theorem Accords.congr {rel : TypeKey → TypeKey → Prop} {a b a' b' : TypeKey} (ha : types.resolve? a = types.resolve? a')
    (hb : types.resolve? b = types.resolve? b') : types.Accords rel a b ↔ types.Accords rel a' b' := by
  unfold Accords
  rw [ha, hb]

/-- Compatibility is a preorder on the types that are declared, the same for a synonym and for what it stands for, and
lists are compatible by their elements. -/
theorem compatible_preorder (hSound : types.Sound) (hAcyclic : ∀ key, ¬ Relation.TransGen types.Holds key key) :
    (∀ key, (types.resolve? key).isSome → types.compatible key key) ∧
    (∀ a b c, types.compatible a b → types.compatible b c → types.compatible a c) ∧
    (∀ a b, types.resolve? a = none ∨ types.resolve? b = none → ¬ types.compatible a b) ∧
    (∀ key final decl other, types.resolve? key = some (final, decl) →
      types.compatible final other = types.compatible key other ∧
        types.compatible other final = types.compatible other key) ∧
    ∀ a b key decl key' decl', types.resolve? a = some (key, decl) → types.resolve? b = some (key', decl') → ∀ e f,
      (decl.category = .recordOf e ∧ decl'.category = .recordOf f ∨
          decl.category = .setOf e ∧ decl'.category = .setOf f →
        (types.compatible a b ↔ key = key' ∨ types.compatible e f)) ∧
      ∀ m n i j, decl.category = .array e m i → decl'.category = .array f n j →
        (types.compatible a b ↔ key = key' ∨ m = n ∧ types.compatible e f) := by
  have hIff : ∀ {a b}, types.compatible a b ↔ types.Accords (fun e a => types.compatible e a) a b :=
    compatible_iff hAcyclic hSound
  refine ⟨fun key hKey => ?_, fun a b c => compatibleWithin_trans hSound, fun a b hNone => ?_,
    fun key final decl other hKey => ?_, fun a b key decl key' decl' ha hb e f => ?_⟩
  · obtain ⟨⟨final, decl⟩, hResolve⟩ := Option.isSome_iff_exists.mp hKey
    exact hIff.mpr ⟨final, decl, final, decl, hResolve, hResolve, .inl rfl⟩
  · rw [hIff]
    rintro ⟨key, decl, key', decl', ha, hb, -⟩
    simp [ha, hb] at hNone
  · have hFinal := (resolve?_final hKey).trans hKey.symm
    constructor
    · rw [Bool.eq_iff_iff, hIff, hIff]
      exact Accords.congr hFinal rfl
    · rw [Bool.eq_iff_iff, hIff, hIff]
      exact Accords.congr rfl hFinal
  · have hAdmits : types.compatible a b ↔
        key = key' ∨ decl.category.Admits (fun e a => types.compatible e a) decl'.category := by
      rw [hIff]
      constructor
      · rintro ⟨_, _, _, _, ha', hb', h⟩
        cases ha.symm.trans ha'
        cases hb.symm.trans hb'
        exact h
      · exact fun h => ⟨key, decl, key', decl', ha, hb, h⟩
    rw [hAdmits]
    refine ⟨?_, fun m n i j hDecl hDecl' => or_congr_right ?_⟩
    · rintro (⟨hDecl, hDecl'⟩ | ⟨hDecl, hDecl'⟩)
      · rw [hDecl, hDecl']
        exact or_congr_right ⟨fun h => by cases h; assumption, fun h => .recordOf h⟩
      · rw [hDecl, hDecl']
        exact or_congr_right ⟨fun h => by cases h; assumption, fun h => .setOf h⟩
    · rw [hDecl, hDecl']
      constructor
      · rintro ⟨⟩
        exact ⟨rfl, ‹_›⟩
      · rintro ⟨rfl, h⟩
        exact .array h

theorem acyclic_of_rank (rank : TypeKey → Nat) (h : ∀ entry ∈ types.entries,
      ∀ element ∈ entry.2.category.element?.toList,
      ∀ inner ∈ (types.resolve? element).toList, rank inner.1 < rank entry.1) (key : TypeKey) :
    ¬ Relation.TransGen types.Holds key key := by
  have hStep : types.Holds ≤ Function.onFun (· > ·) rank := by
    rintro list inner ⟨decl, element, innerDecl, hList, hElement, hInner⟩
    obtain ⟨⟨key, _⟩, hEntry, rfl⟩ := Option.map_eq_some_iff.mp hList
    obtain rfl : key = list := by simpa using find?_some hEntry
    exact h _ (mem_of_find?_eq_some hEntry) element (by simp [hElement]) (inner, innerDecl) (by simp [hInner])
  intro hCycle
  have hLess := hCycle.lift rank hStep
  rw [Relation.transGen_eq_self] at hLess
  exact Nat.lt_irrefl _ hLess

/-- Pairs of lists of strings, where one of the lists has two names. -/
def pairsOfLists : Registry :=
  ⟨[(1, ⟨"charstring", .string (.character .basic)⟩), (2, ⟨"universal charstring", .string (.character .universal)⟩),
    (3, ⟨"Names", .recordOf 1⟩), (4, ⟨"Texts", .recordOf 2⟩), (5, ⟨"Others", .synonym 3⟩),
    (6, ⟨"Pair", .array 5 2 0⟩), (7, ⟨"TextPair", .array 4 2 1⟩)]⟩

theorem compatible_preorder_pairsOfLists :
    (pairsOfLists.compatible 7 6 ↔ (7 : TypeKey) = 6 ∨ 2 = 2 ∧ pairsOfLists.compatible 4 5) ∧
      pairsOfLists.compatible 4 3 = pairsOfLists.compatible 4 5 ∧ pairsOfLists.compatible 4 5 := by
  have hSound : pairsOfLists.Sound := by
    intro key decl hKey
    obtain ⟨entry, hEntry, rfl⟩ := Option.map_eq_some_iff.mp hKey
    have hAll : ∀ entry ∈ pairsOfLists.entries, entry.2.category ≠ .erroneous := by decide
    exact hAll entry (mem_of_find?_eq_some hEntry)
  have hAcyclic : ∀ key, ¬ Relation.TransGen pairsOfLists.Holds key key :=
    acyclic_of_rank (fun key => key.bits.toNat) (by decide)
  obtain ⟨-, -, -, hSynonym, hLists⟩ := compatible_preorder hSound hAcyclic
  exact ⟨(hLists _ _ _ _ _ _ rfl rfl _ _).2 2 2 1 0 rfl rfl, (hSynonym 5 3 _ _ rfl).2, by decide⟩

end Registry

end TemplateCheck
