import TemplateCheck.Proofs.Inheritance

/-!
# Indexing constants and templates

An array may start at any index. A reference to an element of an array template counts from the first index of its
type, a reference to an element of a constant always from zero. So a constant and a template that give the same values
agree at an index exactly if the values at the two positions are the same: always if the array starts at zero, and
otherwise, as a rule, only where both positions are outside.
-/

namespace TemplateCheck

open Reading

variable {values : List Value} {v : Value} {index : Int}

/-- The element at an index that may be negative. -/
def elementAt {α : Type} (items : List α) (index : Int) : Option α :=
  if index < 0 then none else items[index.toNat]?

def Value.isScalar : Value → Bool
  | .omitted | .null | .boolean _ | .integer _ | .real _ | .enumerated _ | .string .. => true
  | _ => false

theorem forall₂_getElem? {α β : Type} {R : α → β → Prop} {xs : List α} {ys : List β} (h : List.Forall₂ R xs ys)
    (k : Nat) : (xs[k]? = none ∧ ys[k]? = none) ∨ ∃ x y, xs[k]? = some x ∧ ys[k]? = some y ∧ R x y := by
  induction h generalizing k with
  | nil => exact .inl ⟨rfl, rfl⟩
  | @cons x y xs ys hHead _ ih =>
    cases k with
    | zero => exact .inr ⟨x, y, rfl, rfl, hHead⟩
    | succ k => exact ih k

variable {r : Reference} {d : Definition}

section Constants

variable {defs : Definitions}

theorem Definitions.foldWithin_scalar (h : v.isScalar) (depth : Nat) : defs.foldWithin (depth + 1) v = .ok v := by
  cases v with
  | omitted | null | boolean | integer | real | enumerated | string => rfl
  | erroneous | notUsed | list | fields | ref | expr => cases h

theorem Definitions.foldWithin_scalars (h : ∀ v ∈ values, v.isScalar) (depth : Nat) :
    defs.foldWithin (depth + 2) (.list values) = .ok (.list values) := by
  have hSame : List.Forall₂ (fun a b => defs.foldWithin (depth + 1) a = .ok b) values values := by
    rw [List.forall₂_same]
    exact fun v hMem => foldWithin_scalar (h v hMem) depth
  exact bind_eq_ok_iff.2 ⟨values, mapM_eq_ok_iff.2 hSame, rfl⟩

theorem Constant.selectElement_eq_ok_iff (h : ∀ v ∈ values, v.isScalar) :
    selectElement index values = .ok v ↔ elementAt values index = some v := by
  unfold selectElement elementAt
  split
  · simp
  · cases hFound : values[index.toNat]? with
    | none => simp
    | some found =>
      have hScalar := h found (List.mem_of_getElem? hFound)
      cases found with
      | notUsed => cases hScalar
      | _ => simp

theorem Definitions.fold_element_iff (hTarget : defs.target? r = some d)
    (hConstant : d.kind.constant? = some (.list values)) (hPath : r.path = [.index (.integer index)])
    (h : ∀ v ∈ values, v.isScalar) : defs.fold (.ref r) = .ok v ↔ elementAt values index = some v := by
  have hFold : defs.fold (.ref r) = Constant.selectElement index values := by
    rw [fold, foldLimit, foldWithin]
    simp only [hTarget, Option.bind_some, hConstant, foldWithin_scalars h, hPath]
    change Constant.selectElement index values >>= pure = _
    exact bind_pure _
  rw [hFold, Constant.selectElement_eq_ok_iff h]

end Constants

namespace Session

variable {s : Session} {id : NodeId} {offset : Int} {t : Template}

/-- The chain of the node is followed to a template that gives the value. -/
def LeadsToValue (s : Session) (id : NodeId) (v : Value) : Prop :=
  ∃ last t, (s.lastTemplate id).1 = .ok last ∧ (s.lastTemplate id).2.store.get? last = some t ∧ t.form = .specific v

/-- The definition is an array template that lists the values. The first index of its type is `offset`. -/
structure Lists (s : Session) (d : Definition) (offset : Int) (values : List Value) : Prop where
  type : ∃ type decl element size, d.type = some type ∧ s.types.decl? type = some decl ∧
    decl.category = .array element size offset
  body : ∃ template body items, d.kind.template? = some template ∧ s.store.get? template.body = some body ∧
    body.form = .list .positional items ∧
    List.Forall₂ (fun item v => ∃ t, s.store.get? item = some t ∧ t.form = .specific v) items values

theorem GivesUp.not_leadsToValue {span : Span} {p : Problem} (h : s.GivesUp id span p) : ¬ s.LeadsToValue id v := by
  obtain ⟨hLast, -, t, hNode, hForm⟩ := h
  rintro ⟨last, t', hLast', hNode', hForm'⟩
  cases hLast.symm.trans hLast'
  cases hNode.symm.trans hNode'
  cases hForm.symm.trans hForm'

theorem leadsToValue_iff_of_specific {item : NodeId} {w : Value}
    (hEnd : (s.store.reading s.env).EndsAt id item) (hItem : s.store.get? item = some t)
    (hForm : t.form = .specific w) : s.LeadsToValue id v ↔ w = v := by
  obtain ⟨_, hLast, -, rfl, hLearns⟩ := run_of_attains
    (Reading.attains_lastTemplate hEnd (matches_reading s.store s.env).toAgrees)
  obtain ⟨t', hNode, hFollowed⟩ := hLearns.agrees.nodes _ t hItem
  have hForm' : t'.form = .specific w := by
    cases hFollowed with
    | same => exact hForm
    | known _ hOther => cases hForm.symm.trans hOther
  constructor
  · rintro ⟨last, u, hLast', hNode', hValue⟩
    cases hLast.symm.trans hLast'
    cases hNode.symm.trans hNode'
    cases hForm'.symm.trans hValue
    rfl
  · rintro rfl
    exact ⟨_, t', hLast, hNode, hForm'⟩

theorem Lists.leadsToValue_iff (h : s.Lists d offset values)
    (hNode : s.store.get? id = some t) (hForm : t.form = .referenced r none)
    (hTarget : s.definitions.target? r = some d) (hArgs : r.args = none) (hPath : r.path = [.index (.integer index)]) :
    s.LeadsToValue id v ↔ elementAt values (wrapIndex (index - offset)) = some v := by
  obtain ⟨type, decl, element, size, hType, hDecl, hCategory⟩ := h.type
  obtain ⟨template, body, items, hTemplate, hBody, hList, hItems⟩ := h.body
  have hAtBody : (s.store.reading s.env).EndsAt template.body template.body := ⟨1, body, hBody, by rw [hList]; rfl⟩
  have hSelects : (s.store.reading s.env).Selects id template.body r (.index (.integer index)) decl :=
    ⟨⟨t, hNode, hForm⟩, ⟨d, template, type, hTarget, hTemplate, hType, hDecl, hAtBody⟩, hArgs, hPath,
      body, hBody, by rw [hList]; rfl, by rw [hList]; rfl⟩
  have hElement : decl.category.element? = some element := by rw [hCategory]; rfl
  have hPosition : decl.category.position index = wrapIndex (index - offset) := by rw [hCategory]; rfl
  have hIndex : (s.store.reading s.env).env.definitions.foldInteger? (.integer index) = some index := rfl
  rw [← hPosition]
  unfold elementAt
  split
  · rename_i hNegative
    have hLost := glance_negative hElement hIndex template.body hNegative
    simp only [reduceCtorEq, iff_false]
    exact (givesUp_of_lost hSelects (.here hLost)).not_leadsToValue
  · rename_i hNegative
    have hNonneg := Int.not_lt.1 hNegative
    obtain ⟨hItem, hValue⟩ | ⟨item, w, hItem, hValue, u, hNode', hForm'⟩ :=
      forall₂_getElem? hItems (decl.category.position index).toNat
    · have hLost := glance_overflow hElement hIndex hNonneg hBody hList hItem
      simp only [hValue, reduceCtorEq, iff_false]
      exact (givesUp_of_lost hSelects (.here hLost)).not_leadsToValue
    · have hPart := glance_item hElement hIndex hNonneg hBody hList hItem hNode'
      simp only [hForm', Glance.ofElement] at hPart
      have hItself : (s.store.reading s.env).EndsAt item item := ⟨1, u, hNode', by rw [hForm']; rfl⟩
      rw [hValue, Option.some.injEq]
      exact leadsToValue_iff_of_specific ((hSelects.endsAt_iff_of_found (.here hPart)).2 hItself) hNode' hForm'

/-- A constant and an array template give the same values. A reference to an element of the constant folds to the value
at its index, and a reference to an element of the template leads to the value at the distance of its index from the
first one, which wraps around unless it is a 64-bit number. So the two agree exactly if these are the same. -/
theorem element_agrees_iff (s : Session) (id : NodeId) (r : Reference) {r' : Reference} {c d : Definition}
    (h : s.Lists d offset values) (hConstant : c.kind.constant? = some (.list values))
    (hScalar : ∀ v ∈ values, v.isScalar)
    (hTarget : s.definitions.target? r = some c) (hPath : r.path = [.index (.integer index)]) {t : Template}
    (hNode : s.store.get? id = some t) (hForm : t.form = .referenced r' none)
    (hTarget' : s.definitions.target? r' = some d) (hArgs : r'.args = none)
    (hPath' : r'.path = [.index (.integer index)]) :
    (∀ v, s.fold (.ref r) = .ok v ↔ elementAt values index = some v) ∧
    (∀ v, s.LeadsToValue id v ↔ elementAt values (wrapIndex (index - offset)) = some v) ∧
    ((∀ v, s.fold (.ref r) = .ok v ↔ s.LeadsToValue id v) ↔
      elementAt values index = elementAt values (wrapIndex (index - offset))) ∧
    (-0x8000000000000000 ≤ index - offset → index - offset < 0x8000000000000000 →
      wrapIndex (index - offset) = index - offset) := by
  have hFold : ∀ v, s.fold (.ref r) = .ok v ↔ elementAt values index = some v :=
    fun v => Definitions.fold_element_iff hTarget hConstant hPath hScalar
  have hLeads : ∀ v, s.LeadsToValue id v ↔ elementAt values (wrapIndex (index - offset)) = some v :=
    fun v => h.leadsToValue_iff hNode hForm hTarget' hArgs hPath'
  refine ⟨hFold, hLeads, ?_, wrapIndex_eq⟩
  constructor
  · intro hAgree
    apply Option.ext
    intro v
    rw [← hFold v, hAgree v, hLeads v]
  · intro hSame v
    rw [hFold v, hLeads v, hSame]

/-- An array that starts at one, given by a constant and by a template. -/
def shifted : Session where
  types := ⟨[(1, ⟨"A", .array 2 2 1⟩)]⟩
  definitions := ⟨[⟨"c", some 1, .const (.list [.integer 10, .integer 20]), {}⟩,
    .ofBody "t" 1 2]⟩
  store := .ofForms [.ofInteger 10, .ofInteger 20, .ofItems [0, 1],
    .following "t" 1 [.index (.integer 1)]]

theorem shifted.lists : shifted.Lists ⟨"t", some 1, .template { body := 2 }, {}⟩ 1 [.integer 10, .integer 20] :=
  ⟨⟨1, _, 2, 2, rfl, rfl, rfl⟩, ⟨_, _, [0, 1], rfl, rfl, rfl, .cons ⟨_, rfl, rfl⟩ (.cons ⟨_, rfl, rfl⟩ .nil)⟩⟩

theorem element_agrees_iff_shifted :
    shifted.fold (.ref ⟨"c", some 0, [.index (.integer 1)], none, {}⟩) = .ok (.integer 20) ∧
    shifted.LeadsToValue 3 (.integer 10) := by
  obtain ⟨hFold, hLeads, -⟩ := element_agrees_iff shifted 3 ⟨"c", some 0, [.index (.integer 1)], none, {}⟩
    shifted.lists rfl (by simp [Value.isScalar]) rfl rfl rfl rfl rfl rfl rfl
  exact ⟨(hFold _).2 rfl, (hLeads _).2 rfl⟩

/-- At its first index the constant has another value than the template. -/
theorem shifted_element_disagrees :
    shifted.fold (.ref ⟨"c", some 0, [.index (.integer 1)], none, {}⟩) = .ok (.integer 20) ∧
    ¬ shifted.LeadsToValue 3 (.integer 20) := by
  refine ⟨rfl, ?_⟩
  rintro ⟨last, t, hLast, hNode, hForm⟩
  cases hLast
  cases hNode
  cases hForm

end Session

end TemplateCheck
