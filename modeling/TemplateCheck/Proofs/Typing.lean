import TemplateCheck.Check.Conformance

/-!
# Values that fit a type

A value fits a type when nothing is wrong with it there. Fitting is read off the parts of a value:
elements of lists, positional and named fields. A value without references that fits a type also
fits every type that accepts it, so compatibility of types is sound for constants.
-/

namespace TemplateCheck

namespace Value

inductive Ground : Value → Prop where
  | omitted : Ground .omitted
  | notUsed : Ground .notUsed
  | null : Ground .null
  | boolean (flag : Bool) : Ground (.boolean flag)
  | integer (number : Int) : Ground (.integer number)
  | real (number : Binary64) : Ground (.real number)
  | enumerated (item : String) : Ground (.enumerated item)
  | string (family : StringFamily) (text : String) : Ground (.string family text)
  | list {items : List Value} : (∀ item ∈ items, Ground item) → Ground (.list items)
  | fields {entries : List (String × Value)} : (∀ entry ∈ entries, Ground entry.2) → Ground (.fields entries)

end Value

namespace Registry

variable {key final : TypeKey} {decl : TypeDecl} {types : Registry}

def Sound (types : Registry) : Prop :=
  ∀ key decl, types.get? key = some decl → decl.category ≠ .erroneous

theorem get?_of_follow {steps : Nat}
    (h : types.follow steps key = some (final, decl)) : types.get? final = some decl := by
  induction steps generalizing key with
  | zero => cases h
  | succ steps ih =>
    rw [follow] at h
    split at h
    · cases h
    · rename_i found hFound
      split at h
      · exact ih h
      · cases h
        exact hFound

theorem get?_of_resolve? (h : types.resolve? key = some (final, decl)) : types.get? final = some decl :=
  get?_of_follow h

theorem decl?_of_resolve? (h : types.resolve? key = some (final, decl)) : types.decl? key = some decl := by
  rw [decl?, h]
  rfl

theorem resolve?_of_decl? (h : types.decl? key = some decl) : ∃ final, types.resolve? key = some (final, decl) := by
  obtain ⟨⟨final, found⟩, hFound, rfl⟩ := Option.map_eq_some_iff.mp h
  exact ⟨final, hFound⟩

theorem Sound.category_ne (hTypes : types.Sound) (h : types.decl? key = some decl) : decl.category ≠ .erroneous := by
  obtain ⟨final, hFinal⟩ := resolve?_of_decl? h
  exact hTypes final decl (get?_of_resolve? hFinal)

end Registry

namespace Env

variable {env : Env} {value : Value} {type : TypeKey} {decl : TypeDecl} {allowOmit : Bool} {items : List Value}
  {element : TypeKey} {entries : List (String × Value)} {family : StringFamily}

/-- Nothing is wrong with a value of the given type. -/
def Fits (env : Env) (value : Value) (type : TypeKey) (allowOmit : Bool) : Prop :=
  env.valueProblems value type allowOmit = []

instance : Decidable (env.Fits value type allowOmit) :=
  inferInstanceAs (Decidable (env.valueProblems value type allowOmit = []))

theorem fits_of_unresolved (h : env.types.decl? type = none) : env.Fits value type allowOmit :=
  valueProblems_of_unresolved h value allowOmit

theorem itemsProblems_eq_nil_iff :
    env.itemsProblems items element = [] ↔ ∀ item ∈ items, env.Fits item element false := by
  induction items with
  | nil => simp [itemsProblems]
  | cons item items ih => simp [itemsProblems, ih, Fits]

theorem positionalProblems_eq_nil_iff {fields : List FieldDecl} : env.positionalProblems items fields = [] ↔
      ∀ pair ∈ items.zip fields, env.Fits pair.1 pair.2.type pair.2.optional := by
  induction items generalizing fields with
  | nil => simp [positionalProblems]
  | cons item items ih =>
    cases fields with
    | nil => simp [positionalProblems]
    | cons field fields => simp [positionalProblems, ih, Fits]

theorem entriesProblems_eq_nil_iff : env.entriesProblems entries decl = [] ↔
      ∀ entry ∈ entries, ∃ field, decl.field? entry.1 = some field ∧ env.Fits entry.2 field.type field.optional := by
  induction entries with
  | nil => simp [entriesProblems]
  | cons entry entries ih =>
    obtain ⟨name, item⟩ := entry
    rw [entriesProblems, List.append_eq_nil_iff, ih, List.forall_mem_cons]
    apply and_congr_left
    intro _
    cases decl.field? name <;> simp [Fits]

theorem fits_list_iff (hDecl : env.types.decl? type = some decl) (hSound : decl.category ≠ .erroneous) :
    env.Fits (.list items) type allowOmit ↔
      match decl.category with
      | .objectIdentifier => True
      | .recordOf element | .setOf element => ∀ item ∈ items, env.Fits item element false
      | .array element size _ =>
        items.length = size ∧ ∀ item ∈ items, env.Fits item element false
      | .record fields =>
        items.length ≤ fields.length ∧ ∀ pair ∈ items.zip fields, env.Fits pair.1 pair.2.type pair.2.optional
      | _ => False := by
  rw [Fits, valueProblems]
  simp only [hDecl, if_neg hSound]
  cases hCategory : decl.category <;> simp [itemsProblems_eq_nil_iff, positionalProblems_eq_nil_iff]

theorem fits_fields_iff (hDecl : env.types.decl? type = some decl) (hSound : decl.category ≠ .erroneous) :
    env.Fits (.fields entries) type allowOmit ↔ (match decl.category with
        | .record _ | .set _ => True
        | .union _ => entries.length = 1
        | _ => False) ∧
      ∀ entry ∈ entries, ∃ field, decl.field? entry.1 = some field ∧ env.Fits entry.2 field.type field.optional := by
  rw [← entriesProblems_eq_nil_iff, Fits, valueProblems]
  simp only [hDecl, if_neg hSound]
  cases hCategory : decl.category <;> simp

theorem Fits.of_ne_omitted {other : Bool} (hValue : value ≠ .omitted)
    (h : env.Fits value type allowOmit) : env.Fits value type other := by
  cases value with
  | omitted => exact absurd rfl hValue
  | _ => simpa only [Fits, valueProblems] using h

theorem Fits.permit (h : env.Fits value type false) : env.Fits value type allowOmit := by
  by_cases hValue : value = .omitted
  · subst hValue
    cases hDecl : env.types.decl? type with
    | none => exact fits_of_unresolved hDecl
    | some decl =>
      simp only [Fits, valueProblems, hDecl] at h ⊢
      split at h <;> simp_all
  · exact h.of_ne_omitted hValue

theorem Fits.of_decl?_eq {other : TypeKey} (hGround : value.Ground)
    (hDecl : env.types.decl? other = env.types.decl? type) (h : env.Fits value type allowOmit) :
    env.Fits value other allowOmit := by
  cases hGround <;> simpa only [Fits, valueProblems, hDecl] using h

theorem Fits.string_of_category (hGround : value.Ground)
    (h : env.Fits value type false) (hDecl : env.types.decl? type = some decl)
    (hCategory : decl.category = .string family) :
    ∃ own text, value = .string own text ∧ family.accepts own = true := by
  cases hGround <;> simp_all [Fits, valueProblems, literalProblems]

theorem Fits.list_of_element (hGround : value.Ground)
    (h : env.Fits value type false) (hDecl : env.types.decl? type = some decl)
    (hElement : decl.category.element? = some element) : ∃ items, value = .list items := by
  have hSound : decl.category ≠ .erroneous := by
    intro hCategory
    simp [hCategory, Category.element?] at hElement
  cases hGround with
  | list _ => exact ⟨_, rfl⟩
  | fields _ =>
    rw [fits_fields_iff hDecl hSound] at h
    cases hCategory : decl.category <;> simp_all [Category.element?]
  | _ => cases hCategory : decl.category <;>
      simp_all [Fits, valueProblems, literalProblems, Category.element?]

/-- Compatibility of types is sound for constants. -/
theorem Fits.of_compatibleWithin (hTypes : env.types.Sound) {depth : Nat}
    {expected actual : TypeKey} (hGround : value.Ground) (h : env.Fits value actual false)
    (hCompatible : env.types.compatibleWithin depth expected actual = true) : env.Fits value expected allowOmit := by
  apply Fits.permit
  induction depth generalizing value expected actual with
  | zero => cases hCompatible
  | succ depth ih =>
    rw [Registry.compatibleWithin] at hCompatible
    split at hCompatible
    · rename_i expectedKey expectedDecl actualKey actualDecl hExpected hActual
      have hE := Registry.decl?_of_resolve? hExpected
      have hA := Registry.decl?_of_resolve? hActual
      have hESound := hTypes.category_ne hE
      have hASound := hTypes.category_ne hA
      rw [Bool.or_eq_true, decide_eq_true_eq] at hCompatible
      rcases hCompatible with hKey | hCompatible
      · have hSame : expectedDecl = actualDecl := by
          have := Registry.get?_of_resolve? hExpected
          rw [hKey, Registry.get?_of_resolve? hActual] at this
          exact (Option.some.inj this).symm
        exact h.of_decl?_eq hGround (by rw [hE, hA, hSame])
      · split at hCompatible
        · exact absurd ‹_› hESound
        · exact absurd ‹_› hASound
        · rename_i e a hEC hAC
          obtain ⟨own, text, rfl, hOwn⟩ := h.string_of_category hGround hA hAC
          have hAccepts : e.accepts own = true := StringFamily.accepts_trans hCompatible hOwn
          simp [Fits, valueProblems, literalProblems, hE, hEC, hAccepts]
        case h_4 e a hEC hAC | h_5 e a hEC hAC =>
          obtain ⟨items, rfl⟩ := h.list_of_element hGround hA (by rw [hAC]; rfl)
          rw [fits_list_iff hA hASound, hAC] at h
          rw [fits_list_iff hE hESound, hEC]
          cases hGround with
          | list hItems => exact fun item hItem => ih (hItems item hItem) (h item hItem) hCompatible
        · rename_i e m _ a n _ hEC hAC
          obtain ⟨items, rfl⟩ := h.list_of_element hGround hA (by rw [hAC]; rfl)
          rw [fits_list_iff hA hASound, hAC] at h
          rw [fits_list_iff hE hESound, hEC]
          rw [Bool.and_eq_true, decide_eq_true_eq] at hCompatible
          cases hGround with
          | list hItems =>
            exact ⟨h.1.trans hCompatible.1.symm,
              fun item hItem => ih (hItems item hItem) (h.2 item hItem) hCompatible.2⟩
        · cases hCompatible
    · cases hCompatible

end Env

end TemplateCheck
