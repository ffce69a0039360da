import Mathlib.Data.List.Forall2
import TemplateCheck.Proofs.Typing

/-!
# Folding keeps types

Folding a value yields a constant without references. If every constant definition fits its declared type, the constant
fits wherever the value did: along a reference, the type of a path and the part that the path selects are stepped side
by side. A constant folds to itself within the depth in which it was found. The depth is only a limit: folding that
starts with less of it gives up as unknown or answers the same.
-/

namespace TemplateCheck

open Definitions List

variable {current next result start value : Value} {ε α β : Type} {f : α → Except ε β} {items : List α}
  {results : List β} {R : α → β → Prop} {entries : List (String × Value)} {fold : Value → Folding}
  {path : List PathStep} {defs : Definitions} {depth : Nat}

theorem bind_eq_ok_iff {x : Except ε α} {b : β} : x >>= f = .ok b ↔ ∃ a, x = .ok a ∧ f a = .ok b := by
  cases x with
  | error e =>
    constructor
    · intro h
      cases h
    · rintro ⟨_, h, _⟩
      cases h
  | ok a =>
    constructor
    · exact fun h => ⟨a, rfl, h⟩
    · rintro ⟨_, hx, h⟩
      cases hx
      exact h

theorem mapM_eq_ok_iff : items.mapM f = .ok results ↔ List.Forall₂ (fun a b => f a = .ok b) items results := by
  induction items generalizing results with
  | nil => exact ⟨fun h => by cases h; exact .nil, fun h => by cases h; rfl⟩
  | cons item items ih =>
    rw [mapM_cons, bind_eq_ok_iff]
    constructor
    · rintro ⟨b, hb, h⟩
      obtain ⟨bs, hbs, h⟩ := bind_eq_ok_iff.mp h
      cases h
      exact .cons hb (ih.mp hbs)
    · rintro (_ | ⟨hb, hbs⟩)
      exact ⟨_, hb, bind_eq_ok_iff.mpr ⟨_, ih.mpr hbs, rfl⟩⟩

theorem exists_mapM_eq_ok (h : ∀ a ∈ items, ∃ b, f a = .ok b) : ∃ results, items.mapM f = .ok results := by
  induction items with
  | nil => exact ⟨[], rfl⟩
  | cons item items ih =>
    obtain ⟨⟨b, hb⟩, hItems⟩ := forall_mem_cons.1 h
    obtain ⟨bs, hbs⟩ := ih hItems
    exact ⟨b :: bs, mapM_eq_ok_iff.2 (.cons hb (mapM_eq_ok_iff.1 hbs))⟩

theorem forall_mem_of_forall₂ {P : β → Prop} (h : List.Forall₂ R items results)
    (hStep : ∀ a ∈ items, ∀ b, R a b → P b) : ∀ b ∈ results, P b := by
  induction h with
  | nil => simp
  | @cons a b items results hHead _ ih =>
    rw [forall_mem_cons] at hStep ⊢
    exact ⟨hStep.1 b hHead, ih hStep.2⟩

theorem forall_mem_zip_of_forall₂ {γ : Type} {P : β × γ → Prop} {others : List γ} (h : List.Forall₂ R items results)
    (hStep : ∀ pair ∈ items.zip others, ∀ b, R pair.1 b → P (b, pair.2)) : ∀ pair ∈ results.zip others, P pair := by
  induction h generalizing others with
  | nil => simp
  | @cons a b items results hHead _ ih =>
    cases others with
    | nil => simp
    | cons c others =>
      rw [zip_cons_cons, forall_mem_cons] at hStep ⊢
      exact ⟨hStep.1 b hHead, ih hStep.2⟩

namespace Constant

variable {step : PathStep}

theorem selectField_eq_ok {name : String} (h : selectField name entries = .ok value) :
    (name, value) ∈ entries ∧ value ≠ .omitted := by
  rw [selectField] at h
  split at h
  · cases h
  · rename_i found value' hNot hFound
    cases h
    have hName : found = name := by simpa using find?_some hFound
    refine ⟨hName ▸ mem_of_find?_eq_some hFound, ?_⟩
    rintro rfl
    exact hNot rfl
  · cases h

theorem selectElement_eq_ok {index : Int} {items : List Value}
    (h : selectElement index items = .ok value) : value ∈ items := by
  rw [selectElement] at h
  split at h
  · cases h
  · split at h
    · cases h
    · rename_i found _ hFound
      cases h
      exact mem_of_getElem? hFound
    · cases h

theorem select_eq_ok (h : select fold current step = .ok next) :
    (∃ entries name, current = .fields entries ∧ step = .field name ∧ (name, next) ∈ entries ∧ next ≠ .omitted) ∨
    (∃ items index, current = .list items ∧ step = .index index ∧ next ∈ items) := by
  rw [select.eq_def] at h
  split at h
  · exact .inl ⟨_, _, rfl, rfl, selectField_eq_ok h⟩
  · split at h
    · exact .inr ⟨_, _, rfl, rfl, selectElement_eq_ok h⟩
    · cases h
    · cases h
  · cases h
  · cases h

theorem Ground.select (hGround : current.Ground) (h : select fold current step = .ok next) : next.Ground := by
  obtain ⟨entries, name, rfl, rfl, hNext, _⟩ | ⟨items, index, rfl, rfl, hNext⟩ := select_eq_ok h
  · cases hGround with
    | fields hEntries => exact hEntries _ hNext
  · cases hGround with
    | list hItems => exact hItems _ hNext

end Constant

namespace Definitions

theorem ground_of_foldlM_select (hGround : start.Ground)
    (h : path.foldlM (Constant.select fold) start = .ok result) : result.Ground := by
  induction path generalizing start with
  | nil =>
    cases h
    exact hGround
  | cons step path ih =>
    rw [foldlM_cons] at h
    obtain ⟨next, hNext, hRest⟩ := bind_eq_ok_iff.mp h
    exact ih (Constant.Ground.select hGround hNext) hRest

theorem foldEntries_eq_ok {results : List (String × Value)}
    (h : (entries.mapM fun (name, item) => do return (name, ← fold item)) = .ok results) :
    List.Forall₂ (fun entry result => entry.1 = result.1 ∧ fold entry.2 = .ok result.2) entries results := by
  refine (mapM_eq_ok_iff.mp h).imp fun entry result hEntry => ?_
  obtain ⟨item, hItem, hResult⟩ := bind_eq_ok_iff.mp hEntry
  cases hResult
  exact ⟨rfl, hItem⟩

/-- Folding yields values without references, expressions and failed parts. -/
theorem ground_of_foldWithin (h : defs.foldWithin depth value = .ok result) : result.Ground := by
  induction depth generalizing value result with
  | zero => cases h
  | succ depth ih =>
    cases value with
    | erroneous | expr => cases h
    | ref r =>
      simp only [foldWithin] at h
      split at h
      · cases h
      · obtain ⟨start, hStart, hPath⟩ := bind_eq_ok_iff.mp h
        exact ground_of_foldlM_select (ih hStart) hPath
    | list items =>
      obtain ⟨results, hResults, h⟩ := bind_eq_ok_iff.mp h
      cases h
      exact .list (forall_mem_of_forall₂ (mapM_eq_ok_iff.mp hResults) fun _ _ _ hItem => ih hItem)
    | fields entries =>
      obtain ⟨results, hResults, h⟩ := bind_eq_ok_iff.mp h
      cases h
      exact .fields (forall_mem_of_forall₂ (foldEntries_eq_ok hResults) fun _ _ _ hEntry => ih hEntry.2)
    | omitted => cases h; exact .omitted
    | notUsed => cases h; exact .notUsed
    | null => cases h; exact .null
    | boolean flag => cases h; exact .boolean flag
    | integer number => cases h; exact .integer number
    | real number => cases h; exact .real number
    | enumerated item => cases h; exact .enumerated item
    | string family text => cases h; exact .string family text

end Definitions

theorem ground_of_fold? {constant : Value} (h : defs.fold? value = some constant) : constant.Ground := by
  unfold Definitions.fold? at h
  cases hFold : defs.fold value with
  | error obstacle =>
    rw [hFold] at h
    cases h
  | ok result =>
    rw [hFold] at h
    cases h
    exact ground_of_foldWithin hFold

namespace Env

variable {env : Env} {type : TypeKey} {allowOmit : Bool} {part : PartType}

/-- Every constant has a declared type that its value fits. -/
def ConstantsFit (env : Env) : Prop :=
  ∀ id definition value, env.definitions.get? id = some definition → definition.kind = .const value →
      ∃ declared, definition.type = some declared ∧ env.Fits value declared false

theorem Fits.select (hTypes : env.types.Sound)
    {step : PathStep} {nextPart : PartType} (h : env.Fits current part.type false)
    (hNext : Constant.select fold current step = .ok next) (hPart : env.types.stepPart? part step = some nextPart) :
    env.Fits next nextPart.type false := by
  obtain ⟨decl, hDecl, hPart⟩ := Option.bind_eq_some_iff.mp hPart
  have hSound := hTypes.category_ne hDecl
  obtain ⟨entries, name, rfl, rfl, hMem, hValue⟩ | ⟨items, index, rfl, rfl, hMem⟩ :=
    Constant.select_eq_ok hNext
  · obtain ⟨field, hField, hPart⟩ := Option.bind_eq_some_iff.mp hPart
    cases hPart
    obtain ⟨declared, hDeclared, hFits⟩ := ((fits_fields_iff hDecl hSound).mp h).2 _ hMem
    cases hField.symm.trans hDeclared
    exact hFits.of_ne_omitted hValue
  · rw [fits_list_iff hDecl hSound] at h
    cases hCategory : decl.category <;> simp only [hCategory] at h hPart <;>
      simp only [Category.element?, Option.bind_eq_bind, Option.bind_some, Option.bind_none,
        Option.pure_def, Option.some.injEq, reduceCtorEq] at hPart
    · exact hPart ▸ h next hMem
    · exact hPart ▸ h next hMem
    · exact hPart ▸ h.2 next hMem

theorem Fits.selectPath (hTypes : env.types.Sound) {final : PartType} (h : env.Fits start part.type false)
    (hResult : path.foldlM (Constant.select fold) start = .ok result)
    (hFinal : path.foldlM env.types.stepPart? part = some final) : env.Fits result final.type false := by
  induction path generalizing start part with
  | nil =>
    cases hResult
    cases hFinal
    exact h
  | cons step path ih =>
    rw [foldlM_cons] at hResult hFinal
    obtain ⟨next, hNext, hResult⟩ := bind_eq_ok_iff.mp hResult
    obtain ⟨nextPart, hPart, hFinal⟩ := Option.bind_eq_some_iff.mp hFinal
    exact ih (h.select hTypes hNext hPart) hResult hFinal

theorem Fits.const_part {r : Reference} {decl : TypeDecl} (hTypes : env.types.Sound) (hConstants : env.ConstantsFit)
    (hDecl : env.types.decl? type = some decl) (h : env.Fits (.ref r) type allowOmit)
    (hValue : (env.definitions.target? r).bind (·.kind.constant?) = some value) :
    ∃ declared part, env.Fits value declared false ∧ env.types.part? declared r.path = some part ∧
      env.types.compatible type part.type = true := by
  obtain ⟨definition, hTarget, hConstant⟩ := Option.bind_eq_some_iff.mp hValue
  obtain ⟨id, hId, hGet⟩ := Option.bind_eq_some_iff.mp hTarget
  have hKind : definition.kind = .const value := by
    cases hKind : definition.kind <;> simp_all [DefKind.constant?]
  obtain ⟨declared, hType, hFits⟩ := hConstants id definition value hGet hKind
  have hNone : env.referenceProblems r type = [] := by
    simpa only [Fits, valueProblems, hDecl, if_neg (hTypes.category_ne hDecl)] using h
  rw [referenceProblems, hTarget] at hNone
  simp only [hKind, DefKind.isBehaviour, Bool.false_eq_true, ↓reduceIte, hType] at hNone
  split at hNone
  · rename_i part hPart
    split at hNone
    · exact ⟨declared, part, hFits, hPart, ‹_›⟩
    · cases hNone
  · cases hNone

theorem Fits.foldWithin (hTypes : env.types.Sound) (hConstants : env.ConstantsFit) (h : env.Fits value type allowOmit)
    (hFold : env.definitions.foldWithin depth value = .ok result) : env.Fits result type allowOmit := by
  induction depth generalizing value result type allowOmit with
  | zero => cases hFold
  | succ depth ih =>
    cases hDecl : env.types.decl? type with
    | none => exact fits_of_unresolved hDecl
    | some decl =>
      have hSound := hTypes.category_ne hDecl
      cases value with
      | erroneous | expr => cases hFold
      | ref r =>
        simp only [Definitions.foldWithin] at hFold
        split at hFold
        · cases hFold
        · rename_i initial hInitial
          obtain ⟨start, hStart, hPath⟩ := bind_eq_ok_iff.mp hFold
          obtain ⟨declared, part, hFits, hPart, hCompatible⟩ :=
            h.const_part hTypes hConstants hDecl hInitial
          have hResult : env.Fits result part.type false := (ih hFits hStart).selectPath hTypes hPath hPart
          have hGround := ground_of_foldlM_select (ground_of_foldWithin hStart) hPath
          exact hResult.of_compatibleWithin hTypes hGround hCompatible
      | list items =>
        obtain ⟨results, hResults, hFold⟩ := bind_eq_ok_iff.mp hFold
        cases hFold
        have hItems := mapM_eq_ok_iff.mp hResults
        rw [fits_list_iff hDecl hSound] at h ⊢
        split at h
        · trivial
        case h_2 | h_3 => exact forall_mem_of_forall₂ hItems fun item hItem _ hFolded => ih (h item hItem) hFolded
        · exact ⟨hItems.length_eq ▸ h.1,
            forall_mem_of_forall₂ hItems fun item hItem _ hFolded => ih (h.2 item hItem) hFolded⟩
        · exact ⟨hItems.length_eq ▸ h.1,
            forall_mem_zip_of_forall₂ hItems fun pair hPair _ hFolded => ih (h.2 pair hPair) hFolded⟩
        · exact h.elim
      | fields entries =>
        obtain ⟨results, hResults, hFold⟩ := bind_eq_ok_iff.mp hFold
        cases hFold
        have hEntries := foldEntries_eq_ok hResults
        rw [fits_fields_iff hDecl hSound] at h ⊢
        refine ⟨?_, forall_mem_of_forall₂ hEntries ?_⟩
        · rw [← hEntries.length_eq]
          exact h.1
        · rintro entry hEntry ⟨name, item⟩ ⟨rfl, hItem⟩
          obtain ⟨field, hField, hFits⟩ := h.2 entry hEntry
          exact ⟨field, hField, ih hFits hItem⟩
      | _ =>
        cases hFold
        exact h

/-- Where every constant fits its declared type, the constant that a value folds to fits wherever
the value fits. -/
theorem valueProblems_fold_eq_nil (hTypes : env.types.Sound) (hConstants : env.ConstantsFit)
    {value constant : Value} {type : TypeKey} {allowOmit : Bool}
    (h : env.valueProblems value type allowOmit = []) (hFold : env.fold value = .ok constant) :
    env.valueProblems constant type allowOmit = [] :=
  Fits.foldWithin hTypes hConstants h hFold

def pairEnv : Env where
  types := ⟨[(1, ⟨"integer", .integer⟩), (2, ⟨"Numbers", .recordOf 1⟩), (3, ⟨"Alias", .synonym 2⟩),
    (4, ⟨"Pair", .record [⟨"head", 1, false, false⟩, ⟨"tail", 3, true, false⟩]⟩)]⟩
  definitions := ⟨[⟨"c", some 4, .const (.fields [("head", .integer 3), ("tail", .list [.integer 5])]), {}⟩]⟩

def pairValue : Value :=
  .list [.ref ⟨"c", some 0, [.field "tail", .index (.integer 0)], none, {}⟩,
    .ref ⟨"c", some 0, [.field "tail"], none, {}⟩]

theorem pairEnv_types_sound : pairEnv.types.Sound := by
  intro key decl h
  obtain ⟨entry, hEntry, rfl⟩ := Option.map_eq_some_iff.mp h
  have hMem := mem_of_find?_eq_some hEntry
  simp only [pairEnv, mem_cons, not_mem_nil, or_false] at hMem
  rcases hMem with rfl | rfl | rfl | rfl <;> simp

theorem pairEnv_constantsFit : pairEnv.ConstantsFit := by
  rintro ⟨index⟩ definition value hGet hKind
  match index with
  | 0 =>
    cases hGet
    cases hKind
    exact ⟨4, rfl, by decide⟩
  | index + 1 => cases hGet

theorem valueProblems_fold_pair :
    pairEnv.valueProblems pairValue 4 false = [] ∧
      pairEnv.fold pairValue = .ok (.list [.integer 5, .list [.integer 5]]) ∧
      pairEnv.valueProblems (.list [.integer 5, .list [.integer 5]]) 4 false = [] := by
  have hFits : pairEnv.valueProblems pairValue 4 false = [] := by decide
  have hFold : pairEnv.fold pairValue = .ok (.list [.integer 5, .list [.integer 5]]) := by rfl
  exact ⟨hFits, hFold,
    valueProblems_fold_eq_nil pairEnv_types_sound pairEnv_constantsFit hFits hFold⟩

end Env

section

variable {x y : Except Obstacle α} {f g : α → Except Obstacle β}

/-- The second answer, unless it is not known within a limit. -/
def Limited (x y : Except Obstacle α) : Prop := x = .error .unknown ∨ x = y

theorem Limited.refl (x : Except Obstacle α) : Limited x x := .inr rfl

theorem Limited.bind (hx : Limited x y) (hf : ∀ a, Limited (f a) (g a)) : Limited (x >>= f) (y >>= g) := by
  obtain rfl | rfl := hx
  · exact .inl rfl
  · cases x with
    | error obstacle => exact .inr rfl
    | ok a => exact hf a

theorem Limited.mapM (hf : ∀ a, Limited (f a) (g a)) : Limited (items.mapM f) (items.mapM g) := by
  induction items with
  | nil => exact .refl _
  | cons a items ih =>
    rw [mapM_cons, mapM_cons]
    exact (hf a).bind fun _ => ih.bind fun _ => .refl _

theorem Limited.foldlM {items : List β} {f g : α → β → Except Obstacle α} {start : α}
    (hf : ∀ a b, Limited (f a b) (g a b)) : Limited (items.foldlM f start) (items.foldlM g start) := by
  induction items generalizing start with
  | nil => exact .refl _
  | cons b items ih =>
    rw [foldlM_cons, foldlM_cons]
    exact (hf start b).bind fun _ => ih

end

theorem Constant.limited_select {fold' : Value → Folding} (h : ∀ value, Limited (fold value) (fold' value))
    (current : Value) (step : PathStep) : Limited (select fold current step) (select fold' current step) := by
  cases current with
  | list items =>
    cases step with
    | field name => exact .refl _
    | index value =>
      simp only [select]
      obtain hUnknown | hSame := h value
      · rw [hUnknown]
        exact .inl rfl
      · rw [hSame]
        exact .refl _
  | _ => cases step <;> exact .refl _

namespace Definitions

variable {depth' : Nat} {constant : Value}

theorem limited_foldWithin (hDepth : depth ≤ depth') (value : Value) :
    Limited (defs.foldWithin depth value) (defs.foldWithin depth' value) := by
  induction depth generalizing depth' value with
  | zero => exact .inl rfl
  | succ depth ih =>
    obtain ⟨deeper, rfl⟩ : ∃ deeper, depth' = deeper + 1 := ⟨depth' - 1, by omega⟩
    have hInner : ∀ item, Limited (defs.foldWithin depth item) (defs.foldWithin deeper item) := ih (by omega)
    cases value with
    | ref r =>
      simp only [foldWithin]
      split
      · exact .refl _
      · exact (hInner _).bind fun _ => .foldlM (Constant.limited_select hInner)
    | list items => exact (Limited.mapM hInner).bind fun _ => .refl _
    | fields entries =>
      have hEntry : ∀ entry : String × Value, Limited (do return (entry.1, ← defs.foldWithin depth entry.2))
          (do return (entry.1, ← defs.foldWithin deeper entry.2)) :=
        fun entry => (hInner entry.2).bind fun _ => .refl _
      exact (Limited.mapM hEntry).bind fun _ => .refl _
    | _ => exact .refl _

theorem foldWithin_mono (hDepth : depth ≤ depth') (h : defs.foldWithin depth value = .ok constant) :
    defs.foldWithin depth' value = .ok constant := by
  obtain hUnknown | hSame := limited_foldWithin hDepth value
  · cases h.symm.trans hUnknown
  · exact hSame.symm.trans h

theorem foldWithin_list_eq_self {items : List Value} : defs.foldWithin (depth + 1) (.list items) = .ok (.list items) ↔
      ∀ item ∈ items, defs.foldWithin depth item = .ok item := by
  rw [foldWithin, bind_eq_ok_iff]
  constructor
  · rintro ⟨_, hItems, hSame⟩
    cases hSame
    exact forall₂_same.mp (mapM_eq_ok_iff.mp hItems)
  · exact fun hItems => ⟨items, mapM_eq_ok_iff.mpr (forall₂_same.mpr hItems), rfl⟩

theorem foldWithin_fields_eq_self :
    defs.foldWithin (depth + 1) (.fields entries) = .ok (.fields entries) ↔
      ∀ entry ∈ entries, defs.foldWithin depth entry.2 = .ok entry.2 := by
  rw [foldWithin, bind_eq_ok_iff]
  constructor
  · rintro ⟨_, hEntries, hSame⟩
    cases hSame
    exact fun entry hEntry => (forall₂_same.mp (foldEntries_eq_ok hEntries) entry hEntry).2
  · intro hEntries
    refine ⟨entries, mapM_eq_ok_iff.mpr (forall₂_same.mpr fun entry hEntry => ?_), rfl⟩
    exact bind_eq_ok_iff.mpr ⟨entry.2, hEntries entry hEntry, rfl⟩

theorem foldWithin_select_eq_self {step : PathStep}
    (hCurrent : defs.foldWithin depth current = .ok current) (h : Constant.select fold current step = .ok next) :
    defs.foldWithin depth next = .ok next := by
  cases depth with
  | zero => cases hCurrent
  | succ depth =>
    obtain ⟨entries, name, rfl, rfl, hNext, -⟩ | ⟨items, index, rfl, rfl, hNext⟩ := Constant.select_eq_ok h
    · exact foldWithin_mono (Nat.le_succ depth) (foldWithin_fields_eq_self.mp hCurrent _ hNext)
    · exact foldWithin_mono (Nat.le_succ depth) (foldWithin_list_eq_self.mp hCurrent _ hNext)

theorem foldWithin_selectPath_eq_self
    (hCurrent : defs.foldWithin depth current = .ok current)
    (h : path.foldlM (Constant.select fold) current = .ok next) : defs.foldWithin depth next = .ok next := by
  induction path generalizing current with
  | nil =>
    cases h
    exact hCurrent
  | cons step path ih =>
    rw [foldlM_cons] at h
    obtain ⟨part, hPart, hRest⟩ := bind_eq_ok_iff.mp h
    exact ih (foldWithin_select_eq_self hCurrent hPart) hRest

theorem foldWithin_eq_self (h : defs.foldWithin depth value = .ok constant) :
    defs.foldWithin depth constant = .ok constant := by
  induction depth generalizing value constant with
  | zero => cases h
  | succ depth ih =>
    cases value with
    | erroneous | expr => cases h
    | ref r =>
      simp only [foldWithin] at h
      split at h
      · cases h
      · obtain ⟨start, hStart, hPath⟩ := bind_eq_ok_iff.mp h
        exact foldWithin_mono (Nat.le_succ depth) (foldWithin_selectPath_eq_self (ih hStart) hPath)
    | list items =>
      obtain ⟨results, hResults, h⟩ := bind_eq_ok_iff.mp h
      cases h
      exact foldWithin_list_eq_self.mpr (forall_mem_of_forall₂ (mapM_eq_ok_iff.mp hResults) fun _ _ _ hItem => ih hItem)
    | fields entries =>
      obtain ⟨results, hResults, h⟩ := bind_eq_ok_iff.mp h
      cases h
      exact foldWithin_fields_eq_self.mpr
        (forall_mem_of_forall₂ (foldEntries_eq_ok hResults) fun _ _ _ hEntry => ih hEntry.2)
    | _ =>
      cases h
      rfl

/-- A constant has no reference, expression or failed part at any depth and folds to itself. Folding with less depth
to go gives up as unknown or ends with the same answer, so a constant that is found stays the same with more. -/
theorem fold_yields_fixed_points (defs : Definitions) (value : Value) :
    (∀ constant, defs.fold value = .ok constant → constant.Ground ∧ defs.fold constant = .ok constant) ∧
    ∀ depth depth', depth ≤ depth' →
      (∀ constant, defs.foldWithin depth value = .ok constant → defs.foldWithin depth' value = .ok constant) ∧
      (defs.foldWithin depth value = .error .unknown ∨
        defs.foldWithin depth value = defs.foldWithin depth' value) := by
  refine ⟨fun constant hFold => ⟨ground_of_foldWithin hFold, foldWithin_eq_self hFold⟩, ?_⟩
  exact fun depth depth' hDepth => ⟨fun _ => foldWithin_mono hDepth, limited_foldWithin hDepth value⟩

/-- A list whose second element is given by another constant, and a constant that is defined by itself. -/
def fewAndLoop : Definitions :=
  ⟨[⟨"three", none, .const (.integer 3), {}⟩, ⟨"loop", none, .const (.ref (.plain "loop" (some 1) {})), {}⟩,
    ⟨"few", none, .const (.list [.integer 5, .ref (.plain "three" (some 0) {})]), {}⟩]⟩

theorem fold_yields_fixed_points_few :
    let few := Value.ref (.plain "few" (some 2) {})
    let constant := Value.list [.integer 5, .integer 3]
    fewAndLoop.fold (.ref (.plain "loop" (some 1) {})) = .error .unknown ∧
    fewAndLoop.fold few = .ok constant ∧ constant.Ground ∧ fewAndLoop.fold constant = .ok constant ∧
    fewAndLoop.foldWithin 3 few = .error .unknown ∧ fewAndLoop.foldWithin 4 few = .ok constant ∧
    fewAndLoop.foldWithin 9 few = .ok constant := by
  intro few constant
  obtain ⟨hFixed, hLimit⟩ := fold_yields_fixed_points fewAndLoop few
  have hFold : fewAndLoop.fold few = .ok constant := by rfl
  have hFour : fewAndLoop.foldWithin 4 few = .ok constant := by rfl
  obtain ⟨hGround, hSelf⟩ := hFixed constant hFold
  exact ⟨by rfl, hFold, hGround, hSelf, by rfl, hFour, (hLimit 4 9 (by decide)).1 constant hFour⟩

end Definitions

end TemplateCheck
