import TemplateCheck.Proofs.Walk.Own

/-!
# Checks that take the same steps

The checks of all forms are gone through once for the properties of families that hold of a sequence if they hold of
its parts. They may be about the checks of some nodes only, whose children then belong to a set.
-/

namespace TemplateCheck

open Form
open List

variable {ι : Type} {id : NodeId} {entries : List NamedEntry}

/-- A property of checks of the nodes in `T`, whose children are in `C`. -/
structure Naming.Checks {ι : Type} (N : Naming ι) (T C : NodeId → Prop) (P : ViewedProperty ι) : Prop
    extends N.Reshapes (fun id => T id ∨ C id) P where
  children_then : ∀ {α β : Type} {id : NodeId} {f : ι → Form → CheckM α} {view : ι → β → α} {ok : β → Prop},
    T id ∨ C id →
    (∀ form, N.Holds form → (∀ child ∈ form.children, C child) → P (fun i => f i (form.rename (N i))) view ok) →
    P (fun i => formOf (N i id) >>= f i) view ok
  recognized_then : ∀ {α β : Type} {id : NodeId} {site : Site} {x : ι → CheckM α} {view : ι → β → α} {ok : β → Prop},
    T id → P x view ok →
    P (fun i => do recognizeReference (N i id); checkSupported (N i id); checkPlacement (N i id) site; x i) view ok
  govern : ∀ {id} type, T id ∨ C id → Agreed P fun i => govern (N i id) type
  name : ∀ {id} {entries : List NamedEntry}, T id → (∀ e ∈ entries, C e.template) →
    Agreed P fun i => replaceForm (N i id) (.named (entries.map (·.rename (N i))))
  fillOmitted : ∀ {id} {entries : List NamedEntry} fields, T id → (∀ e ∈ entries, C e.template) →
    Agreed P fun i => fillOmitted (N i id) (entries.map (·.rename (N i))) fields

namespace Naming.Checks

variable {N : Naming ι} {T C : NodeId → Prop} {P : ViewedProperty ι} (h : N.Checks T C P) {items : List NodeId}
  {c : ι → ChildCheck}

section Flagged

variable {F : Bool → Prop} (hF : Flag P F) (hCheck : ∀ id type site, C id →
    P (fun i => c i (N i id) type site) (fun _ outcome => outcome) fun outcome => F outcome.selfReference)

include h hF hCheck

theorem checkChild (hId : C id) (context : Context) (type : TypeKey) (site : Site) :
    Flagged P F fun i => checkChild (c i) context (N i id) type site :=
  h.pass (hF.inside context (hCheck id type site hId)) fun _ hFlag => hFlag

section Fields

variable (hEntries : ∀ e ∈ entries, C e.template)

theorem checkField (decl : TypeDecl) (incomplete : Bool) {item : NamedEntry × EntryStatus FieldDecl}
    (hItem : C item.1.template) : Flagged P F fun i => checkField (c i) decl incomplete (renameEntry (N i) item) := by
  obtain ⟨entry, status⟩ := item
  cases status with
  | undeclared | repeated =>
    simp only [TemplateCheck.checkField, reportUndeclared, reportRepeated, NamedEntry.rename]
    exact h.lower hF (h.next (h.tell _ _) fun _ => h.tell _ _)
  | first field =>
    simp only [TemplateCheck.checkField, NamedEntry.rename]
    apply h.formOf_then (h.known (.inr hItem))
    intro form _
    cases incomplete with
    | true => exact h.checkChild hF hCheck hItem _ _ _
    | false =>
      cases form with
      | notUsed => exact h.lower hF (h.complain (h.known (.inr hItem)) _)
      | _ => exact h.checkChild hF hCheck hItem _ _ _

include hEntries

omit hCheck in
theorem checkEntries {α : Type} {lookup? : String → Option α} {f : ι → NamedEntry × EntryStatus α → CheckM Bool}
    (hf : ∀ item : NamedEntry × EntryStatus α, C item.1.template → Flagged P F fun i => f i (renameEntry (N i) item)) :
    Flagged P F fun i => checkAny (f i) (classifyEntries lookup? [] (entries.map (·.rename (N i)))) := by
  simp only [classifyEntries_rename]
  exact h.anyFlag hF fun item hItem => hf item (hEntries _ (mem_of_mem_classifyEntries hItem))

theorem checkAssigned (hId : T id) (decl : TypeDecl) (fields : List FieldDecl) (incomplete : Bool) :
    Flagged P F fun i => checkAssigned (c i) (N i id) decl fields (entries.map (·.rename (N i))) incomplete := by
  have hDom := h.known (.inl hId)
  apply h.bind (h.checkEntries hF hEntries fun _ => h.checkField hF hCheck decl incomplete)
  intro _ hFlag
  simp only [missingFields_rename]
  apply h.node_then hDom
  intro t shown ht
  simp only [ht.like.base, Option.isSome_map]
  apply h.next (h.onlyIf (h.forM fun _ _ => h.complain hDom _))
  exact fun _ => h.pass (h.onlyIf (h.fillOmitted _ hId hEntries)) fun _ _ => hFlag

omit hF hCheck hEntries in
theorem nameItems (names : List String) (hItems : ∀ item ∈ items, C item) :
    P (fun i => nameItems names (items.map (N i))) N.entries fun entries => ∀ e ∈ entries, C e.template := by
  simp only [TemplateCheck.nameItems, zip_map_right]
  apply h.mapM
  rintro ⟨name, item⟩ hMem
  have hItem := hItems item (of_mem_zip hMem).2
  apply h.node_then (h.known (.inr hItem))
  intro t shown ht
  simp only [ht.like.span]
  exact h.give ⟨name, item, t.span⟩ rfl hItem

omit hEntries in
theorem checkRecord (hId : T id) (decl : TypeDecl) (fields : List FieldDecl) (site : Site) :
    Flagged P F fun i => checkRecord (c i) (N i id) decl fields site := by
  have hDom := h.known (.inl hId)
  apply h.children_then (.inl hId)
  intro form _ hChildren
  cases form with
  | list shape items =>
    cases shape with
    | positional =>
      simp only [Form.rename, length_map]
      apply h.next (h.onlyIf (h.complain hDom _))
      intro _
      apply h.bind (h.nameItems _ hChildren)
      intro entries hEntries
      exact h.next (h.name hId hEntries) fun _ => h.checkAssigned hF hCheck hEntries hId decl fields _
    | _ => exact h.illegal hDom hF decl
  | named entries => exact h.checkAssigned hF hCheck (forall_mem_map.1 hChildren) hId decl fields _
  | _ => exact h.illegal hDom hF decl

omit hEntries in
theorem checkSet (hId : T id) (decl : TypeDecl) (fields : List FieldDecl) (site : Site) :
    Flagged P F fun i => checkSet (c i) (N i id) decl fields site := by
  have hDom := h.known (.inl hId)
  have hProblem : ∀ p, Flagged P F fun i => problemAt (N i id) p >>= fun _ => Pure.pure false :=
    fun p => h.lower hF (h.complain hDom p)
  apply h.children_then (.inl hId)
  intro form _ hChildren
  cases form with
  | list shape items =>
    cases shape with
    | positional =>
      simp only [Form.rename, isEmpty_map]
      refine Looks.ite (hProblem _) (Looks.ite (hProblem _) ?_)
      have hNone : ∀ e ∈ ([] : List NamedEntry), C e.template := by simp
      exact h.next (h.name hId hNone) fun _ => h.checkAssigned hF hCheck hNone hId decl fields _
    | _ => exact h.illegal hDom hF decl
  | named entries => exact h.checkAssigned hF hCheck (forall_mem_map.1 hChildren) hId decl fields _
  | _ => exact h.illegal hDom hF decl

omit hEntries in
theorem checkUnion (hId : T id) (decl : TypeDecl) (site : Site) :
    Flagged P F fun i => checkUnion (c i) (N i id) decl site := by
  have hDom := h.known (.inl hId)
  apply h.children_then (.inl hId)
  intro form _ hChildren
  cases form with
  | named entries =>
    simp only [Form.rename, length_map]
    apply h.next (h.onlyIf (h.complain hDom _))
    intro _
    apply h.checkEntries hF (forall_mem_map.1 hChildren)
    rintro ⟨entry, status⟩ hItem
    cases status with
    | undeclared | repeated =>
      simp only [checkAlternative, reportUndeclared, reportRepeated, NamedEntry.rename]
      exact h.lower hF (h.next (h.tell _ _) fun _ => h.tell _ _)
    | first field =>
      simp only [checkAlternative, NamedEntry.rename]
      apply h.bind (h.completeness hDom _ (fun form _ => ?_) fun form _ => form.completenessOfAlternative_rename _ _)
      · intro permitted _
        simp only [incomplete_rename]
        exact h.checkChild hF hCheck hItem _ _ _
      · unfold Form.completenessOfAlternative
        split <;> split <;> simp [Naming.Permits]
  | _ => exact h.illegal hDom hF decl

omit hEntries in
theorem checkParameters {items : List (NamedEntry × EntryStatus (ParamDecl × Nat))}
    (hItems : ∀ item ∈ items, C item.1.template) (decl : TypeDecl) (incomplete : Bool) (order : EntryOrder) :
    Flagged P F fun i => checkParameters (c i) decl incomplete order (items.map (renameEntry (N i))) := by
  induction items generalizing order with
  | nil => exact h.give false rfl hF.lowered
  | cons item items ih =>
    obtain ⟨hItem, hRest⟩ := forall_mem_cons.1 hItems
    have hOne : Flagged P F fun i => checkParameter (c i) decl incomplete order (renameEntry (N i) item) := by
      obtain ⟨entry, status⟩ := item
      cases status <;> simp only [checkParameter, NamedEntry.rename]
      · exact h.lower hF (h.tell _ _)
      · exact h.next (h.tell _ _) fun _ => h.lower hF (h.tell _ _)
      · exact h.next (h.onlyIf (h.tell _ _)) fun _ => h.checkChild hF hCheck hItem _ _ _
    exact h.bind hOne fun _ hFlag => h.pass (ih hRest (order.next item.2)) fun _ => hF.either hFlag

theorem checkGivenParameters (hId : N.dom id) (decl : TypeDecl) (params : List ParamDecl) (incomplete : Bool) :
    Flagged P F fun i => checkGivenParameters (c i) (N i id) decl params (entries.map (·.rename (N i))) incomplete := by
  simp only [TemplateCheck.checkGivenParameters, classifyEntries_rename]
  apply h.bind (h.checkParameters hF hCheck (fun item hItem => hEntries _ (mem_of_mem_classifyEntries hItem)) decl _ _)
  have hDom : ∀ e ∈ entries, N.dom e.template := fun e he => h.known (.inr (hEntries e he))
  exact fun _ hFlag => h.pass (h.onlyIf (h.checkCompleteSignature hId params hDom)) fun _ _ => hFlag

omit hEntries in
theorem checkSignature (hId : T id) (decl : TypeDecl) (params : List ParamDecl) (site : Site) :
    Flagged P F fun i => checkSignature (c i) (N i id) decl params site := by
  have hDom := h.known (.inl hId)
  apply h.children_then (.inl hId)
  intro form _ hChildren
  cases form with
  | list shape items =>
    cases shape with
    | positional =>
      simp only [Form.rename, checkParameterCount, length_map]
      apply h.next (Looks.ite (h.complain hDom _) (Looks.ite (h.complain hDom _) (h.done ())))
      intro _
      apply h.bind (h.nameItems _ hChildren)
      intro entries hEntries
      exact h.next (h.name hId hEntries) fun _ => h.checkGivenParameters hF hCheck hEntries hDom decl params _
    | _ => exact h.illegal hDom hF decl
  | named entries => exact h.checkGivenParameters hF hCheck (forall_mem_map.1 hChildren) hDom decl params _
  | _ => exact h.illegal hDom hF decl

end Fields

section Elements

variable (g : ListType) {permitted : Completeness} {item : NodeId}

omit hCheck in
theorem checkItems {f : ι → NodeId × Nat → CheckM Bool} (hItems : ∀ item ∈ items, C item)
    (hf : ∀ item position, C item → Flagged P F fun i => f i (N i item, position)) :
    Flagged P F fun i => checkAny (f i) (items.map (N i)).zipIdx := by
  simp only [zipIdx_map]
  apply h.anyFlag hF
  rintro ⟨item, position⟩ hMem
  exact hf item position (hItems item (fst_mem_of_mem_zipIdx hMem))

theorem checkListed (hItems : ∀ item ∈ items, C item) (context : Nat → Context) (type : TypeKey) (site : Site)
    (warned : Variant → Bool) (warning : Warning) :
    Flagged P F fun i => checkAny (fun (item, position) => do
      let one ← TemplateCheck.checkChild (c i) (context position) item type site
      let form ← formOf item
      TemplateCheck.onlyIf (warned form.variant) (TemplateCheck.warnAt item warning)
      return one) (items.map (N i)).zipIdx := by
  apply h.checkItems hF hItems
  intro item position hItem
  apply h.bind (h.checkChild hF hCheck hItem _ _ _)
  intro _ hFlag
  apply h.formOf_then (h.known (.inr hItem))
  intro form _
  simp only [variant_rename]
  exact h.pass (h.onlyIf (h.warnAt (h.known (.inr hItem)) _)) fun _ _ => hFlag

theorem checkMembers (type : TypeKey) (list : String) {members : List NodeId}
    (hMembers : ∀ member ∈ members, C member) :
    Flagged P F fun i => checkMembers (c i) type list (members.map (N i)) :=
  h.checkItems hF hMembers fun _ _ hMember => h.checkChild hF hCheck hMember _ _ _

theorem checkElement (hPermitted : N.Permits permitted) (hItem : C item)
    (position : Nat) : Flagged P F fun i => checkElement (c i) g (permitted.rename (N i)) (N i item) position := by
  simp only [TemplateCheck.checkElement, incomplete_rename]
  cases permitted with
  | complete | incomplete =>
    dsimp only [Completeness.rename]
    exact h.next (h.done ()) fun _ => h.checkChild hF hCheck hItem _ _ _
  | asBase items =>
    simp only [Completeness.rename, getElem?_map, Option.isSome_map]
    refine h.next ?_ fun _ => h.checkChild hF hCheck hItem _ _ _
    cases hBase : items[position]? with
    | none => exact h.done ()
    | some base => exact h.inheritBase (.inr hItem) (hPermitted items rfl base (mem_of_getElem? hBase))

theorem checkItem (hId : T id) (hPermitted : N.Permits permitted) (hItem : C item) (position : Nat) :
    P (fun i => checkItem (c i) g (N i id) (permitted.rename (N i)) (N i item) position) (fun _ result => result)
      fun result => F result.2 := by
  have hDom := h.known (.inr hItem)
  have hElement : P (fun i => do
      return (1, ← TemplateCheck.checkElement (c i) g (permitted.rename (N i)) (N i item) position))
      (fun _ result => result) fun result => F result.2 :=
    h.pass (h.checkElement hF hCheck g hPermitted hItem position) fun _ hFlag => hFlag
  apply h.children_then (.inr hItem)
  intro form _ hChildren
  cases form with
  | list shape members =>
    cases shape with
    | permutation =>
      simp only [Form.rename, length_map]
      refine h.pass (?_ : Flagged P F _) fun _ hFlag => hFlag
      refine Looks.ite (h.illegal hDom hF g.decl) (Looks.ite (h.lower hF (h.complain hDom _)) ?_)
      apply h.next (h.mark .hasPermutation (.inl hId) (by decide))
      exact fun _ => h.next (h.govern g.element (.inr hItem)) fun _ => h.checkMembers hF hCheck g.element _ hChildren
    | _ => exact hElement
  | notUsed =>
    have hSame : ∀ i, checkNotUsed (N i item) position (permitted.rename (N i)) =
        checkNotUsed (N i item) position permitted := by
      intro i
      cases permitted <;> simp [checkNotUsed, Completeness.rename]
    have hNotUsed := h.remarks hDom (remarks_checkNotUsed position permitted)
    simp only [← hSame] at hNotUsed
    exact h.pass hNotUsed fun _ _ => hF.lowered
  | _ => exact hElement

variable {l : ι → Flattening} (hFlatten : ∀ id, T id → Agreed P fun i => l i (N i id))

include hFlatten

omit hF hCheck in
theorem flattenedItems (hId : T id) :
    P (fun i => flattenedItems (l i) (N i id)) N.list fun items => ∀ item ∈ items, C item := by
  apply h.next (hFlatten id hId)
  intro _
  apply h.children_then (.inl hId)
  intro form _ hChildren
  cases form with
  | list shape items => exact h.give items rfl hChildren
  | _ => exact h.give [] rfl (by simp)

theorem checkPositional (hId : T id) (site : Site) :
    Flagged P F fun i => checkPositional (c i) (l i) g (N i id) site := by
  have hDom := h.known (.inl hId)
  apply h.bind (h.flattenedItems hFlatten hId)
  intro items hItems
  apply h.bind (h.completeness hDom _ (fun form hForm => ?_) fun form _ => form.completenessOfList_rename _ _)
  · intro permitted hPermitted
    have hCounted : P (fun i => TemplateCheck.checkItems (c i) g (N i id) (permitted.rename (N i))
        (items.map (N i)).zipIdx (0, false)) (fun _ result => result) fun result => F result.2 := by
      simp only [zipIdx_map]
      refine h.foldlM (fun _ result => result) (b := (0, false)) hF.lowered ?_
      rintro ⟨count, found⟩ hFound ⟨item, position⟩ hPair
      have hItem := hItems item (fst_mem_of_mem_zipIdx hPair)
      exact h.pass (h.checkItem hF hCheck g hId hPermitted hItem position) fun _ => hF.either hFound
    apply h.bind hCounted
    rintro ⟨count, selfReference⟩ hFlag
    exact h.pass (h.optionForM fun bounds => h.checkArraySize hDom bounds count) fun _ _ => hFlag
  · cases form with
    | list shape items =>
      cases shape with
      | positional =>
        rintro _ hBase
        cases hArray : g.array.isSome <;> simp [Form.completenessOfList, hArray] at hBase
        exact hBase ▸ hForm.children
      | _ => exact nofun
    | _ => exact nofun

theorem checkInclusion (hId : T id) (list : String) (ineffective : Warning) :
    Flagged P F fun i => checkInclusion (c i) (l i) g (N i id) list ineffective := by
  apply h.bind (h.flattenedItems hFlatten hId)
  intro items hItems
  exact h.checkListed hF hCheck hItems (fun position => .listElement (position + 1) list) _ _ (· = .anyOrOmit) _

theorem checkList (hId : T id) (site : Site) : Flagged P F fun i => checkList (c i) (l i) (N i id) g site := by
  have hDom := h.known (.inl hId)
  have hIllegal : Flagged P F fun i => checkList.illegal (N i id) g := h.illegal hDom hF g.decl
  apply h.children_then (.inl hId)
  intro form _ hChildren
  cases form with
  | list shape items =>
    cases shape with
    | positional => exact h.checkPositional hF hCheck g hFlatten hId site
    | superset | subset => exact Looks.ite (h.checkInclusion hF hCheck g hFlatten hId _ _) hIllegal
    | _ => exact hIllegal
  | indexed entries =>
    refine Looks.ite ?_ (h.lower hF (h.complain hDom _))
    apply h.read_then
    intro env _
    simp only [map_map, zipIdx_map]
    apply h.anyFlag hF
    rintro ⟨entry, position⟩ hPair
    dsimp only [Prod.map, Function.comp_def, IndexedEntry.rename]
    apply h.next (h.forM fun _ _ => h.tell _ _)
    exact fun _ => h.checkChild hF hCheck (forall_mem_map.1 hChildren entry (fst_mem_of_mem_zipIdx hPair)) _ _ _
  | _ => exact hIllegal

end Elements

omit hF in
theorem checkOperand {operand : NodeId} (hOperand : C operand) (governor : TypeKey) (text : Option CharFamily) :
    Flagged P F fun i => checkOperand (c i) (N i operand) governor text := by
  apply h.bind (hCheck operand governor _ hOperand)
  intro outcome hFlag
  apply h.bind (h.lastTemplate (h.known (.inr hOperand)))
  intro last hLast
  apply h.next (h.isErroneous (h.known (.inr hOperand)))
  intro first
  apply h.next (h.isErroneous hLast)
  intro second
  refine Looks.ite (h.give _ rfl hFlag) ?_
  apply h.node_then hLast
  intro t shown ht
  apply h.read_then
  intro env _
  simp only [ht.like.operandFault?, ht.like.form, variant_rename]
  exact h.pass (h.optionForM fun fault => h.operandFault (.inr hOperand) _ _) fun _ _ => hFlag

theorem checkConcatenation (hId : T id) {left right : NodeId} (hLeft : C left) (hRight : C right) (governor : TypeKey)
    (decl : TypeDecl) :
    Flagged P F fun i => checkConcatenation (c i) (N i id) (N i left) (N i right) governor decl := by
  unfold TemplateCheck.checkConcatenation
  split
  · apply h.bind (hF.within .concatenation ?_)
    · exact fun _ hFlag => h.pass (h.settleConcatenation (.inl hId) (h.known (.inr hLeft)) (h.known (.inr hRight))
        governor _) fun _ _ => hFlag
    · apply h.bind (hF.within .firstOperand (h.checkOperand hCheck hLeft governor _))
      intro _ hFirst
      exact h.pass (hF.within .secondOperand (h.checkOperand hCheck hRight governor _)) fun _ =>
        hF.either hFirst
  · exact h.lower hF (h.reject (.inl hId) _)

section Inline

variable {inline : InlineTemplate} (hBody : C inline.body) (hModifies : ∀ r, inline.modifies = some r → N.Covers r)

include hBody hModifies

theorem checkInline (expected : Option TypeKey) :
    P (fun i => checkInline (c i) (inline.rename (N i)) expected) (fun _ outcome => outcome) fun outcome =>
      F outcome.selfReference := by
  apply h.next (h.bindGovernor (.inr hBody) hModifies expected)
  intro governor?
  split
  · exact hCheck inline.body _ inline.site hBody
  · exact h.unknownGovernor (.inr hBody) inline.span hF.lowered

theorem checkDecoded : Flagged P F fun i => checkDecoded (c i) (inline.rename (N i)) := by
  apply hF.within
  apply h.next (h.bindGovernor (.inr hBody) hModifies none)
  intro governor?
  split
  · apply h.read_then
    intro env _
    refine Looks.ite (h.pass (hCheck inline.body _ inline.site hBody) fun _ hFlag => hFlag) ?_
    exact h.lower hF (h.tell inline.span _)
  · exact h.unknownGovernor (.inr hBody) inline.span hF.lowered

end Inline

theorem checkString (hId : T id) (decl : TypeDecl) (family : StringFamily) :
    Flagged P F fun i => checkString (c i) (N i id) decl family := by
  apply h.children_then (.inl hId)
  intro form hForm hChildren
  have hOther : Flagged P F fun i => do
      TemplateCheck.checkStringForm (N i id) decl family (form.rename (N i))
      return false :=
    h.lower hF (h.checkStringForm (.inl hId) decl family form)
  cases form with
  | decoded encoding target =>
    apply h.next (h.onlyIf (h.complain (h.known (.inl hId)) _))
    exact fun _ => h.checkDecoded hF hCheck (hChildren target.body mem_cons_self) fun r hr =>
      hForm.mentions r (Option.mem_toList.2 hr)
  | _ => exact hOther

variable {l : ι → Flattening} (hFlatten : ∀ id, T id → Agreed P fun i => l i (N i id))

include hFlatten

theorem checkAlternatives (hId : T id) (shape : ListShape) (governor : TypeKey) (site : Site) :
    Flagged P F fun i => checkAlternatives (c i) (l i) (N i id) shape governor site := by
  apply h.bind (h.flattenedItems hFlatten hId)
  intro items hItems
  apply h.read_then
  intro env _
  exact h.checkListed hF hCheck hItems (fun position => .listItem (position + 1)) _ _
    (shape = .complemented && · = .anyOrOmit) _

theorem checkByCategory (hId : T id) (decl : TypeDecl) (site : Site) :
    Flagged P F fun i => checkByCategory (c i) (l i) (N i id) decl site := by
  have hDom := h.known (.inl hId)
  unfold TemplateCheck.checkByCategory
  split
  · exact h.lower hF (h.checkNumber hDom decl remarks_checkIntegerRange)
  · exact h.lower hF (h.checkNumber hDom decl remarks_checkFloatRange)
  · exact h.checkString hF hCheck hId decl _
  · exact h.checkRecord hF hCheck hId decl _ site
  · exact h.checkSet hF hCheck hId decl _ site
  · exact h.checkUnion hF hCheck hId decl site
  · exact h.checkSignature hF hCheck hId decl _ site
  · split
    · exact h.checkList hF hCheck _ hFlatten hId site
    · exact h.illegal hDom hF decl

end Flagged

variable (hCheck : ∀ id type site, C id → Agreed P fun i => c i (N i id) type site) {l : ι → Flattening}
  (hFlatten : ∀ id, T id → Agreed P fun i => l i (N i id))

include h hCheck hFlatten

theorem checkForm (hId : T id) (governor : TypeKey) (decl : TypeDecl) (site : Site) :
    Agreed P fun i => checkForm (c i) (l i) (N i id) governor decl site := by
  have hDom := h.known (.inl hId)
  have hCategory := h.checkByCategory h.unflagged hCheck hFlatten hId decl site
  have hSymbol : ∀ symbol, Agreed P fun i => checkSymbol (N i id) symbol decl >>= fun _ => Pure.pure false :=
    fun symbol => h.finish (h.checkSymbol hDom symbol decl)
  apply h.children_then (.inl hId)
  intro form hForm hChildren
  cases form with
  | erroneous => exact h.done _
  | notUsed | omitted | anyValue | anyOrOmit => exact hSymbol _
  | allFrom target => exact h.checkSlot (.inl hId) (h.known (.inr (hChildren target mem_cons_self)))
  | list shape items =>
    cases shape with
    | valueList | complemented => exact h.checkAlternatives h.unflagged hCheck hFlatten hId _ governor site
    | _ => exact hCategory
  | specific value => exact h.finish (h.checkConformance (.inl hId) governor _)
  | referenced r resolved => exact h.checkReference (.inl hId) hForm governor
  | invoke callee args => exact h.finish (h.checkApplication (.inl hId) callee governor)
  | concat left right =>
    have hRight := hChildren right (mem_cons_of_mem _ mem_cons_self)
    exact h.checkConcatenation h.unflagged hCheck hId (hChildren left mem_cons_self) hRight governor decl
  | _ => exact hCategory

theorem checkStep (hId : T id) (governor : TypeKey) (site : Site) :
    Agreed P fun i => checkStep (c i) (l i) (N i id) governor site := by
  have hDom := h.known (.inl hId)
  have hReject : ∀ p, Agreed P fun i =>
      TemplateCheck.reject (N i id) p >>= fun _ => Pure.pure { erroneous := true : Outcome } :=
    fun p => h.finish (h.reject (.inl hId) p)
  apply h.node_then hDom
  intro t shown ht
  simp only [ht.like.checked, ht.like.form, isErroneous_rename]
  refine Looks.ite (h.done _) (h.next (h.govern governor (.inl hId)) fun _ => ?_)
  apply h.read_then
  intro env _
  split
  · exact hReject _
  split
  · exact h.done _
  · exact hReject _
  · apply h.recognized_then hId
    apply h.next (h.checkForm hCheck hFlatten hId governor _ site)
    intro _
    exact h.next (h.checkModifiers (.inl hId) governor site) fun _ => h.finish (h.isErroneous hDom)

end Naming.Checks

/-- A property of checks of restrictions, which only read nodes, report, follow references and set marks. -/
structure Naming.Restricts {ι : Type} (N : Naming ι) (P : ViewedProperty ι) : Prop extends N.Reports P where
  endless : ∀ {α : Type} {x : ι → CheckM α}, (∀ i, N.leads i → x i = throw .endlessWalk) → Agreed P x
  undefined : ¬ N.defined → ∀ {α : Type} (r : Reference), Agreed P fun _ =>
    (throw (.undefinedReference r.text) : CheckM α)
  sizes_then : ∀ {α : Type} {f : ι → Store → CheckM α}, (∀ (s : ι → Store) (least : Nat),
    N.Depths least (fun i => (s i).size + 1) → Agreed P fun i => f i (s i)) → Agreed P fun i => currentStore >>= f i
  lastTemplate : ∀ {id}, N.dom id → P (fun i => lastTemplate (N i id)) N N.dom
  mark : ∀ {id}, N.dom id → Agreed P fun i => mark (N i id) .needsRestrictionCheck

namespace Naming.Restricts

variable {N : Naming ι} {P : ViewedProperty ι} (h : N.Restricts P) {r : ι → RestrictionCheck}
  (hRestrict : ∀ id required, N.dom id → Agreed P fun i => r i (N i id) required) (use : RestrictedUse)

include h hRestrict

section Entries

variable (hEntries : ∀ e ∈ entries, N.dom e.template)

include hEntries

theorem restrictInherited (seen : List String) :
    Agreed P fun i => restrictInherited (r i) seen (entries.map (·.rename (N i))) := by
  induction entries generalizing seen with
  | nil => exact h.done _
  | cons entry entries ih =>
    obtain ⟨hEntry, hRest⟩ := forall_mem_cons.1 hEntries
    simp only [map_cons, TemplateCheck.restrictInherited, NamedEntry.rename]
    refine Looks.ite (ih hRest seen) (h.next (hRestrict entry.template _ hEntry) fun _ => ?_)
    exact h.finish (ih hRest (entry.name :: seen))

omit hEntries in
theorem restrictBases (needed : Nat) {least : Nat} {depth : ι → Nat} (hDepth : N.Depths least depth)
    (seen : List String) (hId : N.dom id) :
    Agreed P fun i => restrictBases (r i) use needed (depth i) seen (N i id) := by
  induction least generalizing depth seen id with
  | zero =>
    refine h.endless fun i hLead => ?_
    rw [(hDepth i).2 hLead]
    rfl
  | succ least ih =>
    obtain ⟨depth, hLess, rfl⟩ := hDepth.pred
    refine Looks.ite (h.done _) (h.bind (h.lastTemplate hId) fun last hLast => ?_)
    apply h.node_then hLast
    intro t shown ht
    simp only [ht.like.form, ht.like.base, variant_rename]
    have hChildren := ht.holds.children
    cases hForm : t.form with
    | named entries =>
      rw [hForm] at hChildren
      apply h.next (h.restrictInherited hRestrict (forall_mem_map.1 hChildren) seen)
      intro inherited
      cases hBase : t.base with
      | none => exact h.done _
      | some base => exact h.finish (ih hLess inherited.1 (ht.base base hBase))
    | anyValue | anyOrOmit => exact h.finish (h.complain hLast _)
    | _ => exact h.done _

theorem restrictNamed {t : Template} {shown : ι → Template} (ht : N.Shows t shown) :
    Agreed P fun i => restrictNamed (r i) use (shown i) (entries.map (·.rename (N i))) := by
  have hNames : ∀ i, (entries.map (·.rename (N i))).map (·.name) = entries.map (·.name) :=
    fun _ => map_map
  apply h.next (h.checkAny fun entry hEntry => hRestrict entry.template _ (hEntries entry hEntry))
  intro own
  simp only [ht.like.base, ht.like.governor, hNames]
  cases hBase : t.base with
  | none => exact h.done _
  | some base =>
    cases t.governor with
    | none => exact h.done _
    | some governor =>
      refine h.read_then fun env _ => Looks.ite (h.done _) (h.sizes_then fun s least hDepth => ?_)
      exact h.finish (h.restrictBases hRestrict use _ hDepth _ (ht.base base hBase))

end Entries

section

variable (hId : N.dom id)

include hId

theorem restrictReferenced {reference : Reference} {resolved : Option NodeId}
    (hForm : N.Holds (.referenced reference resolved)) (required : Restriction) :
    Agreed P fun i => restrictReferenced (r i) (N i id) reference required := by
  apply h.read_then
  intro env hEnv
  split
  · rename_i definition _
    have hDeclared : ∀ (inadequate : Bool) result, Agreed P fun i => (do
        onlyIf inadequate do
          warnAt (N i id) (.inadequateRestriction definition.kind.word reference.text)
          note definition.span (.definitionIsHere definition.kind.word)
        return result : CheckM Bool) := by
      intro inadequate result
      exact h.finish (h.onlyIf (h.next (h.warnAt hId _) fun _ => h.tell _ _))
    split
    · apply h.bind (h.lastTemplate hId)
      intro last hLast
      simp only [eq_iff hLast hId]
      exact Looks.ite (h.done _) (hRestrict last required hLast)
    case h_2 | h_3 | h_4 | h_5 | h_6 => exact hDeclared _ _
    · exact h.done _
  · rename_i hNone
    refine h.undefined (fun hDefined => ?_) reference
    obtain ⟨definition, hTarget⟩ := Option.isSome_iff_exists.1 (hForm.target hDefined env reference resolved hEnv rfl)
    exact absurd hTarget (hNone definition)

variable {t : Template} {shown : ι → Template} (ht : N.Shows t shown)

include ht

theorem restrictToValues (required : Restriction) :
    Agreed P fun i => restrictToValues (r i) use (N i id) (shown i) required := by
  have hHolds := ht.holds
  simp only [TemplateCheck.restrictToValues, ht.like.form, ht.like.base]
  have hOther : Agreed P fun i => (if (t.form.rename (N i)).variant = .omitted && required = .valueOrOmit then pure {}
      else pure { violation := some (.form (t.form.rename (N i)).variant) } : CheckM Verdict) := by
    simp only [variant_rename]
    exact Looks.ite (h.done _) (h.done _)
  cases hForm : t.form <;> rw [hForm] at hHolds hOther <;> have hChildren := hHolds.children
  case notUsed =>
    cases hBase : t.base with
    | none => exact h.done _
    | some base => exact h.finish (hRestrict base required (ht.base base hBase))
  case referenced reference resolved => exact h.finish (h.restrictReferenced hRestrict hId hHolds required)
  case list shape items =>
    cases shape with
    | positional => exact h.finish (h.checkAny fun item hItem => hRestrict item _ (hChildren item hItem))
    | _ => exact hOther
  case named entries =>
    exact h.finish (h.restrictNamed hRestrict use (forall_mem_map.1 hChildren) ht)
  case indexed entries =>
    have hEntries := forall_mem_map.1 hChildren
    exact h.finish (h.checkAny fun entry hEntry => hRestrict entry.template _ (hEntries entry hEntry))
  case concat left right =>
    exact h.finish (h.checkAny fun item (hItem : item ∈ [left, right]) => hRestrict item required
      (hChildren item hItem))
  all_goals first | exact h.done _ | exact hOther

theorem restrictToPresent : Agreed P fun i => restrictToPresent (r i) (N i id) (shown i) := by
  have hHolds := ht.holds
  simp only [TemplateCheck.restrictToPresent, ht.like.form, variant_rename]
  cases hForm : t.form <;> rw [hForm] at hHolds <;> have hChildren := hHolds.children
  case referenced reference resolved => exact h.finish (h.restrictReferenced hRestrict hId hHolds .present)
  case list shape items =>
    cases shape with
    | valueList => exact h.finish (h.checkAny fun item hItem => hRestrict item .present (hChildren item hItem))
    | complemented =>
      refine h.read_then fun env _ => Looks.ite (h.done _) ?_
      refine h.next (h.anyM fun item hItem => ?_) fun _ => Looks.ite (h.done _) (h.done _)
      apply h.formOf_then (hChildren item hItem)
      intro form _
      cases form <;> exact h.done _
    | _ => exact h.done _
  case concat left right =>
    exact h.finish (h.checkAny fun item (hItem : item ∈ [left, right]) => hRestrict item .present
      (hChildren item hItem))
  all_goals exact h.done _

omit ht in
theorem restrictStep (required : Restriction) : Agreed P fun i => restrictStep (r i) use (N i id) required := by
  refine Looks.ite (h.done _) (h.node_then hId fun t shown ht => ?_)
  have hForm : Agreed P fun i => restrictForm (r i) use (N i id) (shown i) required :=
    Looks.ite (h.restrictToPresent hRestrict hId ht) (h.restrictToValues hRestrict use hId ht required)
  simp only [ht.like.ifPresent, ht.like.length, ht.like.span]
  apply h.next (h.onlyIf (h.tell _ _))
  intro _
  apply h.next (h.onlyIf (h.tell _ _))
  intro _
  apply h.next hForm
  intro verdict
  apply h.next (h.optionForM fun _ => h.tell _ _)
  intro _
  apply h.next (h.onlyIf (h.tell _ _))
  exact fun _ => h.finish (h.onlyIf (h.mark hId))

end

end Naming.Restricts

end TemplateCheck
