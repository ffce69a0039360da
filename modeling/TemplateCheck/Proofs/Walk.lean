import TemplateCheck.Proofs.Folding
import TemplateCheck.Proofs.Naming

/-!
# Walks that take the same steps

What following references and splicing do is gone through here once, for families of computations that take the same
steps: a single one, a pair that differs in depth, or one that finds the nodes of another one under other names. A
property of such families holds of a sequence if it holds of its parts. It tells what the results have in common: they
are views of one value of a kind.
-/

namespace TemplateCheck

open Form Store
open List

variable {ι : Type} {id : NodeId} {p : Problem} {inPermutation : Bool} {active : List DefId}

def Problem.ofSplicing : Problem → Bool
  | .unresolvedReference _ | .circularReference _ | .invalidPath _ => true
  | .allFromMatching | .allFromPermutation | .allFromTarget _ | .allFromKind .. | .allFromBehaviour _ => true
  | .allFromNotSpecific .. | .allFromUnboundElement | .allFromUnboundField | .allFromOmittedField => true
  | _ => false

theorem mentions_of_ground {value : Value} (h : value.Ground) : (Form.specific value).mentions = [] := by
  cases h <;> rfl

/-- What can be said of a family of computations. -/
abbrev FamilyProperty (ι : Type) : Type 1 := ∀ {α : Type}, (ι → CheckM α) → Prop

/-- What can be said of a family of computations whose results are views of one value of a kind. -/
abbrev ViewedProperty (ι : Type) : Type 1 := ∀ {α β : Type}, (ι → CheckM α) → (ι → β → α) → (β → Prop) → Prop

/-- All computations of the family have the same result. -/
abbrev Agreed {ι : Type} (P : ViewedProperty ι) {α : Type} (x : ι → CheckM α) : Prop :=
  P x (fun _ a => a) fun _ => True

/-- What holds of every flag that is returned where it holds of those that are passed on. -/
structure Flag {ι : Type} (P : ViewedProperty ι) (F : Bool → Prop) : Prop where
  lowered : F false
  either : ∀ {a b : Bool}, F a → F b → F (a || b)
  inside : ∀ {α : Type} {x : ι → CheckM α} {g : α → Bool} (c : Context), P x (fun _ a => a) (fun a => F (g a)) →
    P (fun i => inside c (x i)) (fun _ a => a) fun a => F (g a)

abbrev Flagged {ι : Type} (P : ViewedProperty ι) (F : Bool → Prop) (x : ι → CheckM Bool) : Prop := P x (fun _ a => a) F

theorem Flag.within {P : ViewedProperty ι} {F : Bool → Prop} {x : ι → CheckM Bool} (hF : Flag P F)
    (c : Context) (hx : Flagged P F x) : Flagged P F fun i => TemplateCheck.inside c (x i) :=
  hF.inside (g := fun flag => flag) c hx

/-- A property of families of computations that look at nodes. -/
structure Naming.Looks {ι : Type} (N : Naming ι) (P : ViewedProperty ι) : Prop where
  pure : ∀ {α β : Type} {a : ι → α} {view : ι → β → α} {ok : β → Prop} {b : β}, ok b → (∀ i, a i = view i b) →
    P (fun i => pure (a i)) view ok
  bind : ∀ {α β γ δ : Type} {x : ι → CheckM α} {f : ι → α → CheckM γ} {view : ι → β → α} {ok : β → Prop}
    {view' : ι → δ → γ} {ok' : δ → Prop}, P x view ok → (∀ b, ok b → P (fun i => f i (view i b)) view' ok') →
    P (fun i => x i >>= f i) view' ok'
  read_then : ∀ {α β : Type} {f : ι → Env → CheckM α} {view : ι → β → α} {ok : β → Prop},
    (∀ env, N.At env → P (fun i => f i env) view ok) → P (fun i => read >>= f i) view ok
  node_then : ∀ {α β : Type} {id : NodeId} {f : ι → Template → CheckM α} {view : ι → β → α} {ok : β → Prop},
    N.dom id → (∀ t shown, N.Shows t shown → P (fun i => f i (shown i)) view ok) →
    P (fun i => node (N i id) >>= f i) view ok

namespace Naming.Looks

variable {α β γ δ : Type} {N : Naming ι} {P : ViewedProperty ι} {view : ι → β → α} {ok : β → Prop}

theorem ite {c : Prop} [Decidable c] {x y : ι → CheckM α} (hx : P x view ok) (hy : P y view ok) :
    P (fun i => if c then x i else y i) view ok := by
  split
  · exact hx
  · exact hy

variable (h : N.Looks P) {x : ι → CheckM γ} {xs : List γ} {g : ι → γ → δ} {f : ι → δ → CheckM Bool}

include h

theorem done (a : α) : Agreed P fun _ => Pure.pure a := h.pure trivial fun _ => rfl

theorem give {a : ι → α} (b : β) (ha : a = fun i => view i b) (hb : ok b) : P (fun i => Pure.pure (a i)) view ok :=
  h.pure hb (congrFun ha)

theorem next {f : ι → γ → CheckM α} (hx : Agreed P x) (hf : ∀ c, P (fun i => f i c) view ok) :
    P (fun i => x i >>= f i) view ok :=
  h.bind hx fun c _ => hf c

theorem pass {ok : γ → Prop} {ok' : α → Prop} {g : γ → α} (hx : P x (fun _ c => c) ok) (hg : ∀ c, ok c → ok' (g c)) :
    P (fun i => x i >>= fun c => Pure.pure (g c)) (fun _ a => a) ok' :=
  h.bind hx fun c hc => h.give (g c) rfl (hg c hc)

theorem finish {g : γ → α} (hx : Agreed P x) : Agreed P fun i => x i >>= fun c => Pure.pure (g c) :=
  h.pass hx fun _ _ => trivial

theorem lower {F : Bool → Prop} (hF : Flag P F) (hx : Agreed P x) :
    Flagged P F fun i => x i >>= fun _ => Pure.pure false :=
  h.pass hx fun _ _ => hF.lowered

theorem onlyIf {c : Bool} {x : ι → CheckM Unit} (hx : Agreed P x) : Agreed P fun i => onlyIf c (x i) :=
  ite hx (h.done ())

theorem forM {xs : List α} {f : ι → α → CheckM Unit} (hf : ∀ a ∈ xs, Agreed P fun i => f i a) :
    Agreed P fun i => xs.forM (f i) := by
  induction xs with
  | nil => exact h.done ()
  | cons a xs ih => exact h.next (hf a mem_cons_self) fun _ => ih fun b hb => hf b (mem_cons_of_mem a hb)

theorem optionForM {o : Option α} {f : ι → α → CheckM Unit} (hf : ∀ a, Agreed P fun i => f i a) :
    Agreed P fun i => o.forM (f i) := by
  cases o with
  | none => exact h.done ()
  | some a => exact hf a

theorem foldlM {f : ι → α → δ → CheckM α} (view : ι → β → α) {b : β} (hb : ok b)
    (hf : ∀ b, ok b → ∀ c ∈ xs, P (fun i => f i (view i b) (g i c)) view ok) :
    P (fun i => (xs.map (g i)).foldlM (f i) (view i b)) view ok := by
  induction xs generalizing b with
  | nil => exact h.give b rfl hb
  | cons c xs ih =>
    simp only [map_cons, foldlM_cons]
    apply h.bind (hf b hb c mem_cons_self)
    exact fun b' hb' => ih hb' fun b'' hb'' c' hc' => hf b'' hb'' c' (mem_cons_of_mem c hc')

theorem mapM {f : ι → δ → CheckM α} (hf : ∀ c ∈ xs, P (fun i => f i (g i c)) view ok) :
    P (fun i => (xs.map (g i)).mapM (f i)) (fun i => List.map (view i)) fun bs => ∀ b ∈ bs, ok b := by
  induction xs with
  | nil => exact h.give [] rfl (by simp)
  | cons c xs ih =>
    simp only [map_cons, mapM_cons]
    apply h.bind (hf c mem_cons_self)
    intro b hb
    apply h.bind (ih fun c' hc' => hf c' (mem_cons_of_mem c hc'))
    exact fun bs hbs => h.give (b :: bs) rfl (forall_mem_cons.2 ⟨hb, hbs⟩)

theorem checkAny (hf : ∀ c ∈ xs, Agreed P fun i => f i (g i c)) : Agreed P fun i => checkAny (f i) (xs.map (g i)) :=
  h.foldlM (fun _ a => a) trivial fun _ _ c hc => h.finish (hf c hc)

theorem anyFlag {F : Bool → Prop} (hF : Flag P F) (hf : ∀ c ∈ xs, Flagged P F fun i => f i (g i c)) :
    Flagged P F fun i => TemplateCheck.checkAny (f i) (xs.map (g i)) :=
  h.foldlM (fun _ a => a) hF.lowered fun _ ha c hc => h.pass (hf c hc) fun _ => hF.either ha

theorem filterM {xs : List α} {f : ι → α → CheckM Bool} (hf : ∀ a, Agreed P fun i => f i a) :
    Agreed P fun i => xs.filterM (f i) := by
  have hAux : ∀ kept, Agreed P fun i => xs.filterAuxM (f i) kept := by
    induction xs with
    | nil => exact fun kept => h.done kept
    | cons a xs ih => exact fun kept => h.next (hf a) fun _ => ih _
  exact h.finish (hAux [])

theorem anyM (hf : ∀ c ∈ xs, Agreed P fun i => f i (g i c)) : Agreed P fun i => (xs.map (g i)).anyM (f i) := by
  induction xs with
  | nil => exact h.done false
  | cons c xs ih =>
    apply h.next (hf c mem_cons_self)
    intro found
    cases found with
    | true => exact h.done true
    | false => exact ih fun c' hc' => hf c' (mem_cons_of_mem c hc')

theorem formOf_then {f : ι → Form → CheckM α} (hId : N.dom id)
    (hf : ∀ form, N.Holds form → P (fun i => f i (form.rename (N i))) view ok) :
    P (fun i => formOf (N i id) >>= f i) view ok := by
  simp only [formOf, bind_assoc, pure_bind]
  apply h.node_then hId
  intro t shown ht
  simp only [ht.like.form]
  exact hf t.form ht.holds

theorem isErroneous (hId : N.dom id) : Agreed P fun i => isErroneous (N i id) := by
  apply h.formOf_then hId
  intro form _
  simp only [isErroneous_rename]
  exact h.done _

end Naming.Looks

/-- A property of families of computations that look at nodes and report problems of splicing. -/
structure Naming.Walks {ι : Type} (N : Naming ι) (P : ViewedProperty ι) : Prop extends N.Looks P where
  problem : ∀ span p, p.ofSplicing → Agreed P fun _ => problem span p

namespace Naming.Walks

variable {N : Naming ι} {P : ViewedProperty ι} (h : N.Walks P)

include h

theorem problemAt (hId : N.dom id) (hp : p.ofSplicing) : Agreed P fun i => problemAt (N i id) p := by
  apply h.node_then hId
  intro t shown ht
  simp only [ht.like.span]
  exact h.problem _ p hp

section Targets

variable {items : List NodeId}

theorem listTarget (type : TypeKey) (span : Span) (what : String) :
    P (fun _ => listTarget type span what) N.content N.Content := by
  apply h.read_then
  intro env _
  split
  · exact Looks.ite (h.give .runtime rfl nofun) (h.next (h.problem span _ rfl) fun _ => h.give .invalid rfl nofun)
  · exact h.give .invalid rfl nofun

theorem spliceStep (span : Span) (type : TypeKey) (step : PathStep) : Agreed P fun _ => spliceStep span type step := by
  apply h.read_then
  intro env _
  split
  · exact h.done _
  · exact h.finish (h.optionForM fun _ => h.problem _ _ rfl)

theorem splicePath (span : Span) (type : TypeKey) (path : List PathStep) :
    Agreed P fun _ => splicePath span type path := by
  induction path generalizing type with
  | nil => exact h.done _
  | cons step path ih =>
    apply h.next (h.spliceStep span type step)
    intro next
    split
    · exact ih _
    · exact h.done _

theorem lost (span : Span) (hp : p.ofSplicing) :
    P (fun _ => TemplateCheck.problem span p >>= fun _ => Pure.pure none) N.walk N.Walk :=
  h.next (h.problem span p hp) fun _ => h.give none rfl nofun

theorem found (walk : TargetWalk) (hWalk : N.dom walk.node) :
    P (fun i => Pure.pure (some (walk.rename (N i)))) N.walk N.Walk :=
  h.give (some walk) rfl fun _ hFound => Option.some.inj hFound ▸ hWalk

theorem targetItem (span : Span) (owner : TypeDecl) (number : Int) (hItems : N.All items) (walk : TargetWalk) :
    P (fun i => targetItem span owner number (items.map (N i)) (walk.rename (N i))) N.walk N.Walk := by
  unfold TemplateCheck.targetItem
  simp only [getElem?_map, length_map]
  split
  · exact h.lost span rfl
  cases hFound : items[(owner.category.position number).toNat]? with
  | none => exact h.lost span rfl
  | some element =>
    have hElement := hItems element (mem_of_getElem? hFound)
    apply h.formOf_then hElement
    intro form _
    cases form with
    | notUsed => exact h.lost span rfl
    | _ => exact h.found { walk with node := element } hElement

theorem targetElement (span : Span) (owner : TypeDecl) (index : Value) (walk : TargetWalk) (hWalk : N.dom walk.node) :
    P (fun i => targetElement span owner index (walk.rename (N i))) N.walk N.Walk := by
  apply h.read_then
  intro env _
  split
  · apply h.formOf_then hWalk
    intro form hForm
    cases form with
    | indexed | referenced => exact h.found { walk with known := false } hWalk
    | list shape items =>
      cases shape with
      | positional | valueList => exact h.targetItem span owner _ hForm.children walk
      | _ =>
        dsimp only [Form.rename, Form.variant]
        exact h.lost span rfl
    | _ =>
      dsimp only [Form.rename, Form.variant]
      exact h.lost span rfl
  · exact h.found { walk with known := false } hWalk

theorem targetField (span : Span) (owner : TypeDecl) (name : String) (walk : TargetWalk) (hWalk : N.dom walk.node) :
    P (fun i => targetField span owner name (walk.rename (N i))) N.walk N.Walk := by
  apply h.formOf_then hWalk
  intro form hForm
  cases form with
  | referenced => exact h.found { walk with known := false } hWalk
  | named entries =>
    simp only [Form.rename, find?_rename]
    cases hEntry : entries.find? (·.name = name) with
    | none => exact h.lost span rfl
    | some entry =>
      have hDom := hForm.children _ (mem_map_of_mem (mem_of_find?_eq_some hEntry))
      apply h.formOf_then hDom
      intro form _
      cases form with
      | omitted | notUsed => exact h.lost span rfl
      | _ => exact h.found { walk with node := entry.template } hDom
  | _ =>
    dsimp only [Form.rename, Form.variant]
    exact h.lost span rfl

theorem walkTarget (hLast : ∀ {id}, N.dom id → P (fun i => lastTemplate (N i id)) N N.dom) (span : Span)
    (path : List PathStep) (walk : TargetWalk) (hWalk : N.dom walk.node) :
    P (fun i => walkTarget span path (walk.rename (N i))) N.walk N.Walk := by
  have hMove : ∀ owner step, ∀ walk : TargetWalk, N.dom walk.node →
      P (fun i => moveTarget span owner (walk.rename (N i)) step) N.walk N.Walk := by
    rintro owner step ⟨node, type, known⟩ hWalk
    cases known with
    | false => exact h.found ⟨node, type, false⟩ hWalk
    | true =>
      apply h.bind (hLast hWalk)
      intro last hDom
      cases step with
      | index index => exact h.targetElement span owner index ⟨last, type, true⟩ hDom
      | field name => exact h.targetField span owner name ⟨last, type, true⟩ hDom
  induction path generalizing walk with
  | nil => exact h.found walk hWalk
  | cons step path ih =>
    apply h.read_then
    intro env _
    dsimp only [TargetWalk.rename]
    split
    · apply h.next (h.spliceStep span walk.type step)
      intro next
      cases next with
      | none => exact h.give none rfl nofun
      | some next =>
        apply h.bind (hMove _ step walk hWalk)
        intro moved hMoved
        cases moved with
        | none => exact h.give none rfl nofun
        | some moved => exact ih { moved with type := next } (hMoved moved rfl)
    · exact h.give none rfl nofun

theorem elementsObstacle (inPermutation : Bool) (hItems : N.All items) :
    Agreed P fun i => elementsObstacle inPermutation (items.map (N i)) := by
  induction items with
  | nil => exact h.done _
  | cons item items ih =>
    obtain ⟨hItem, hRest⟩ := forall_mem_cons.1 hItems
    apply h.formOf_then hItem
    intro form _
    simp only [elementObstacle_rename]
    split
    · exact h.done _
    · apply h.next (ih hRest)
      intro obstacle
      split <;> exact h.done _
    · exact ih hRest

theorem spliceNamed {slot : NodeId} (hSlot : N.dom slot) {entries : List NamedEntry}
    (hEntries : ∀ e ∈ entries, N.dom e.template) :
    P (fun i => spliceNamed (N i slot) (entries.map (·.rename (N i)))) N.content N.Content := by
  induction entries with
  | nil => exact h.give .runtime rfl nofun
  | cons entry entries ih =>
    obtain ⟨hEntry, hRest⟩ := forall_mem_cons.1 hEntries
    apply h.formOf_then hEntry
    intro form _
    cases form with
    | list shape items =>
      cases shape with
      | permutation => exact h.next (h.problemAt hSlot rfl) fun _ => h.give .invalid rfl nofun
      | _ => exact ih hRest
    | _ => exact ih hRest

theorem spliceAtRuntime (definition : Definition) (r : Reference) :
    P (fun _ => spliceAtRuntime definition r) N.content N.Content := by
  unfold TemplateCheck.spliceAtRuntime
  split
  · apply h.next (h.splicePath r.span _ r.path)
    intro type
    split
    · exact h.listTarget _ _ _
    · exact h.give .invalid rfl nofun
  · exact h.give .runtime rfl nofun

end Targets

section Parts

variable {resolve : ι → NodeId → CheckM NodeId} {least : Nat} {depth : ι → Nat}
  (hResolve : ∀ id, N.dom id → P (fun i => resolve i (N i id)) N N.dom)
  (hStop : ∀ {x : ι → CheckM TemplateCheck.Part}, (∀ i, N.leads i → x i = throw .endlessWalk) → P x N.part N.Part)

include hResolve hStop

theorem partAt (decl : TypeDecl) (span : Span) (hDepth : N.Depths least depth) (hId : N.dom id) (step : PathStep) :
    P (fun i => partAt (resolve i) decl span (depth i) (N i id) step) N.part N.Part := by
  induction least generalizing depth id with
  | zero =>
    apply hStop
    intro i hLead
    rw [(hDepth i).2 hLead]
    cases step <;> rfl
  | succ least ih =>
    obtain ⟨depth, hLess, rfl⟩ := hDepth.pred
    have hLost (fault : PathFault) : P (fun _ => invalidPart span fault) N.part N.Part :=
      h.next (h.problem span _ rfl) fun _ => h.give .invalid rfl nofun
    have hFollow {g : Glance} (hg : g.Inside N.dom) :
        P (fun i => (g.rename (N i)).follow (resolve i) decl span (depth i) step) N.part N.Part := by
      cases g with
      | part p =>
        refine h.give p rfl ?_
        rintro id type rfl
        exact hg
      | lost fault => exact hLost fault
      | inherited base => exact h.bind (hResolve base hg) fun last hLast => ih hLess hLast
    cases step with
    | field name =>
      simp only [TemplateCheck.partAt, fieldPart_succ]
      apply h.node_then hId
      intro t shown ht
      simp only [ht.like.form, ht.like.base, TypeDecl.glanceField_rename]
      exact hFollow (decl.glanceField_inside name ht.holds.children ht.base)
    | index index =>
      simp only [TemplateCheck.partAt, elementPart_succ]
      apply h.read_then
      intro env _
      cases hIndex : decl.glanceIndex env.definitions index with
      | inl g =>
        have hStops := TypeDecl.stops_of_glanceIndex hIndex
        have hFound := hFollow hStops.inside
        simpa only [hStops.rename] using hFound
      | inr found =>
        apply h.node_then hId
        intro t shown ht
        simp only [ht.like.form, ht.like.base, elements?_rename]
        cases hItems : t.form.elements? with
        | none => exact h.give .unknown rfl nofun
        | some items =>
          simp only [Option.map_some, getElem?_map, length_map]
          cases hItem : items[(decl.category.position found.2).toNat]? with
          | none => exact hLost _
          | some item =>
            have hDom : N.dom item :=
              ht.holds.children item (by rw [eq_of_elements? hItems]; exact mem_of_getElem? hItem)
            apply h.formOf_then hDom
            intro form _
            simp only [Glance.ofElement_rename]
            exact hFollow (Glance.ofElement_inside _ form hDom ht.base)

theorem narrow (span : Span) (hDepth : N.Depths least depth) (path : List PathStep) (hId : N.dom id) (type : TypeKey) :
    P (fun i => narrow (resolve i) span (depth i) path (N i id) type) N.part N.Part := by
  induction path generalizing id type with
  | nil => exact h.give (.found id type) rfl (part_found hId type)
  | cons step path ih =>
    apply h.bind (hResolve id hId)
    intro last hLast
    apply h.formOf_then hLast
    intro form _
    simp only [isErroneous_rename, hidesParts_rename]
    refine Looks.ite (h.give (.found last type) rfl (part_found hLast type)) (Looks.ite (h.give .unknown rfl nofun) ?_)
    apply h.read_then
    intro env _
    split
    · apply h.bind (h.partAt hResolve hStop _ span hDepth hLast step)
      intro part hPart
      cases part with
      | found next type => exact ih (hPart next type rfl) type
      | unknown => exact h.give .unknown rfl nofun
      | invalid => exact h.give .invalid rfl nofun
    · exact h.give .unknown rfl nofun

end Parts

end Naming.Walks

structure Naming.Splices {ι : Type} (N : Naming ι) (P : ViewedProperty ι) : Prop extends N.Walks P where
  lastTemplate : ∀ {id}, N.dom id → P (fun i => lastTemplate (N i id)) N N.dom
  deepCopy : ∀ {id}, N.dom id → P (fun i => onStore (deepCopy (N i id))) N N.dom
  alloc : ∀ {value} span, (Form.specific value).mentions = [] →
    P (fun _ => onStore (alloc { form := .specific value, span })) N N.dom
  giveUp : ∀ {id}, N.dom id → Agreed P fun i => markErroneous (N i id)

namespace Naming.Splices

variable {N : Naming ι} {P : ViewedProperty ι} (h : N.Splices P) {e : ι → Expand} {slot : NodeId} (hSlot : N.dom slot)

include h hSlot

theorem refuse (hp : p.ofSplicing) :
    P (fun i => problemAt (N i slot) p >>= fun _ => Pure.pure .invalid) N.content N.Content :=
  h.next (h.problemAt hSlot hp) fun _ => h.give .invalid rfl nofun

theorem spliceFromConstant (definition : Definition) (r : Reference) :
    P (fun i => spliceFromConstant (N i slot) definition r) N.content N.Content := by
  unfold TemplateCheck.spliceFromConstant
  split
  · apply h.next (h.splicePath r.span _ r.path)
    intro type
    split
    · apply h.bind (h.listTarget _ r.span "constant")
      intro content _
      cases content with
      | invalid => exact h.give .invalid rfl nofun
      | runtime | elements =>
        refine Looks.ite (h.give .runtime rfl nofun) (h.read_then fun env _ => ?_)
        split
        · rename_i values hFold
          have hGround : (Value.list values).Ground := Definitions.ground_of_foldWithin hFold
          cases hGround with
          | list hValues =>
            apply h.node_then hSlot
            intro t shown ht
            simp only [ht.like.span]
            have hItems := h.mapM (g := fun _ value => value)
              (f := fun _ value => onStore (Store.alloc { form := .specific value, span := t.span }))
              fun value hValue => h.alloc t.span (mentions_of_ground (hValues value hValue))
            simp only [map_id'] at hItems
            apply h.bind hItems
            refine fun items hItems => h.give (.elements items true) rfl ?_
            rintro _ _ ⟨⟩
            exact hItems
        case h_2 | h_3 => exact h.give .runtime rfl nofun
        · exact h.next (h.problem r.span _ rfl) fun _ => h.give .invalid rfl nofun
    · exact h.give .invalid rfl nofun
  · exact h.give .runtime rfl nofun

theorem spliceElements (hExpand : ∀ items, N.All items →
      P (fun i => e i inPermutation active (items.map (N i))) N.expanded N.Expanded) {items : List NodeId}
    (hItems : N.All items) :
    P (fun i => spliceElements (e i) inPermutation active (N i slot) (items.map (N i))) N.content N.Content := by
  apply h.next (h.elementsObstacle inPermutation hItems)
  intro obstacle
  split
  · exact h.refuse hSlot rfl
  · exact h.give .runtime rfl nofun
  · apply h.bind (h.mapM (f := fun _ item => onStore (Store.deepCopy item)) fun item hItem =>
      h.deepCopy (hItems item hItem))
    intro copies hCopies
    apply h.bind (hExpand copies hCopies)
    refine fun result hResult => h.give (.elements result.1 result.2) rfl ?_
    rintro _ _ ⟨⟩
    exact hResult

theorem spliceFromTemplate (hExpand : ∀ items, N.All items →
      P (fun i => e i inPermutation active (items.map (N i))) N.expanded N.Expanded) (definition : Definition)
    {body : NodeId} (hBody : N.dom body) (r : Reference) :
    P (fun i => spliceFromTemplate (e i) inPermutation active (N i slot) definition (N i body) r)
      N.content N.Content := by
  unfold TemplateCheck.spliceFromTemplate
  split
  · rename_i type _
    apply h.bind (h.walkTarget h.lastTemplate r.span r.path ⟨body, type, !r.isParameterized⟩ hBody)
    intro walk hWalk
    rcases walk with _ | ⟨node, type, known⟩
    · exact h.give .invalid rfl nofun
    cases known with
    | false => exact h.listTarget type r.span "template"
    | true =>
      apply h.bind (h.lastTemplate (hWalk _ rfl))
      intro last hLast
      apply h.formOf_then hLast
      intro form hForm
      have hOther : P (fun i => do
          problemAt (N i last) (.allFromKind "template" ((← read).types.typeName type))
          return .invalid) N.content N.Content :=
        h.read_then fun env _ => h.refuse hLast rfl
      cases form with
      | referenced | indexed => exact h.give .runtime rfl nofun
      | list shape items =>
        cases shape with
        | positional | valueList => exact h.spliceElements hSlot hExpand hForm.children
        | _ => exact hOther
      | named entries => exact h.spliceNamed hSlot (forall_mem_map.1 hForm.children)
      | anyValue | anyOrOmit => exact h.refuse hLast rfl
      | erroneous => exact h.give .invalid rfl nofun
      | _ => exact hOther
  · exact h.give .invalid rfl nofun

theorem rejectSlot (hp : p.ofSplicing) : P (fun i => rejectSlot (N i slot) p) N.content N.Content :=
  h.next (h.next (h.problemAt hSlot hp) fun _ => h.giveUp hSlot) fun _ => h.give .invalid rfl nofun

variable (hExpand : ∀ env target items, N.At env → target ∉ active → (env.definitions.get? target).isSome →
  N.All items → P (fun i => e i inPermutation (active ++ [target]) (items.map (N i))) N.expanded N.Expanded)

include hExpand

theorem spliceReference {r : Reference} (hCovers : N.Covers r) :
    P (fun i => spliceReference (e i) inPermutation active (N i slot) r) N.content N.Content := by
  apply h.read_then
  intro env hEnv
  dsimp only
  split
  · rename_i target definition hName hTarget
    split
    · exact h.rejectSlot hSlot rfl
    · rename_i hNew
      have hExists : (env.definitions.get? target).isSome := by
        simp only [Definitions.target?, hName, Option.bind_some] at hTarget
        simp [hTarget]
      have hDefinition : P (fun i => spliceDefinition (e i) inPermutation active (N i slot) target definition r)
          N.content N.Content := by
        unfold spliceDefinition
        split
        · rename_i template hKind
          obtain ⟨hBody, hFixed⟩ := hCovers env definition template hEnv hTarget (by rw [hKind]; rfl)
          have hSplice := h.spliceFromTemplate hSlot (hExpand env target · hEnv hNew hExists) definition hBody r
          simpa only [hFixed] using hSplice
        · exact h.spliceFromConstant hSlot definition r
        case h_3 | h_4 => exact h.refuse hSlot rfl
        · exact h.spliceAtRuntime definition r
      apply h.bind hDefinition
      intro content hContent
      cases content with
      | invalid =>
        exact h.next (h.isErroneous hSlot) fun _ => h.next (h.onlyIf (h.giveUp hSlot)) fun _ =>
          h.give .invalid rfl nofun
      | runtime => exact h.give .runtime rfl nofun
      | elements items complete => exact h.give (.elements items complete) rfl hContent
  · exact h.rejectSlot hSlot rfl

theorem spliceSlot {target : NodeId} (hTarget : N.dom target) :
    P (fun i => spliceSlot (e i) inPermutation active (N i slot) (N i target)) N.content N.Content := by
  apply h.formOf_then hTarget
  intro form hForm
  have hMentions := hForm.mentions
  have hOther : P (fun i => TemplateCheck.rejectSlot (N i slot) (.allFromTarget (form.rename (N i)).variant))
      N.content N.Content := by
    simp only [variant_rename]
    exact h.rejectSlot hSlot rfl
  cases form with
  | specific value =>
    cases value with
    | ref r => exact h.spliceReference hSlot hExpand (hMentions r mem_cons_self)
    | _ => exact hOther
  | referenced r => exact h.spliceReference hSlot hExpand (hMentions r mem_cons_self)
  | erroneous => exact h.next (h.giveUp hSlot) fun _ => h.give .invalid rfl nofun
  | _ => exact hOther

end Naming.Splices

structure Naming.Unfolds {ι : Type} (N : Naming ι) (P : ViewedProperty ι) : Prop extends N.Splices P where
  mark : ∀ {id} m, N.dom id → Agreed P fun i => mark (N i id) m
  fill : ∀ {id items} shape, N.dom id → N.All items →
    Agreed P fun i => replaceForm (N i id) (.list shape (items.map (N i)))
  settle : ∀ {id} flattened, N.dom id → Agreed P fun i => settle (N i id) flattened

namespace Naming.Unfolds

variable {N : Naming ι} {P : ViewedProperty ι}
  (h : N.Unfolds P) {e : ι → Expand} (hExpand : ∀ inPermutation active items, N.All items →
    P (fun i => e i inPermutation active (items.map (N i))) N.expanded N.Expanded) (hId : N.dom id)

include h hExpand hId

theorem expandNode : Agreed P fun i => expandNode (e i) inPermutation active (N i id) := by
  apply h.node_then hId
  intro t shown ht
  simp only [ht.like.folded, ht.like.flattened, ht.like.form]
  refine Looks.ite (h.done _) ?_
  have hChildren := ht.holds.children
  cases hForm : t.form with
  | list shape items =>
    rw [hForm] at hChildren
    apply h.next (h.mark .folded hId)
    intro _
    apply h.bind (hExpand inPermutation active items hChildren)
    intro result hResult
    exact h.next (h.fill shape hId hResult) fun _ => h.finish (h.settle result.2 hId)
  | _ => exact h.done _

theorem expandItem {done : List NodeId × Bool} (hDone : N.Expanded done) :
    P (fun i => expandItem (e i) inPermutation active (N.expanded i done) (N i id)) N.expanded N.Expanded := by
  obtain ⟨items, flattened⟩ := done
  have hGive : ∀ {more : List NodeId} (flag : Bool), N.All more →
      P (fun i => Pure.pure (items.map (N i) ++ more.map (N i), flag)) N.expanded N.Expanded := by
    intro more flag hMore
    refine h.give (items ++ more, flag) (funext fun i => ?_) (forall_mem_append.2 ⟨hDone, hMore⟩)
    simp only [Naming.expanded, map_append]
  have hKept : N.All [id] := forall_mem_singleton.2 hId
  have hInner : ∀ inPermutation, P (fun i => do
      let inner ← TemplateCheck.expandNode (e i) inPermutation active (N i id)
      return (items.map (N i) ++ [N i id], flattened && inner)) N.expanded N.Expanded :=
    fun _ => h.next (h.expandNode hExpand hId) fun _ => hGive _ hKept
  apply h.formOf_then hId
  intro form hForm
  cases form with
  | allFrom target =>
    apply h.bind (h.spliceSlot hId (fun _ _ items _ _ _ => hExpand _ _ items) (hForm.children target mem_cons_self))
    intro content hContent
    cases content with
    | elements elements complete => exact hGive _ (hContent elements complete rfl)
    | runtime => exact h.next (h.mark .needsExpansion hId) fun _ => hGive _ hKept
    | invalid => exact hGive _ hKept
  | list shape members =>
    cases shape with
    | permutation => exact hInner true
    | positional | valueList => exact hInner false
    | _ => exact hGive _ hKept
  | _ => exact hGive _ hKept

end Naming.Unfolds

end TemplateCheck
