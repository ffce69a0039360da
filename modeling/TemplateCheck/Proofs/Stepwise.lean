import TemplateCheck.Proofs.Locality
import TemplateCheck.Proofs.Walk

/-!
# Properties that are built up step by step

Some properties hold of a computation if they hold of its steps. They are stated of families of computations that take
the same steps but may expand lists in different ways: a single one, a pair of them, or one for each depth. Such a
property holds of a walk if it holds of the walk with every continuation.
-/

namespace TemplateCheck

/-- The property holds of the computations, whatever they are continued with that has it for their results. -/
def Continues {ι : Type} (P : FamilyProperty ι) {α β : Type} (x : ι → CheckM α)
    (view : ι → β → α) (ok : β → Prop) : Prop :=
  ∀ (γ : Type) (k : ι → α → CheckM γ), (∀ b, ok b → P fun i => k i (view i b)) → P fun i => x i >>= k i

/-- A property that holds of what looks at nodes and reports problems of splicing, and of sequences of what it holds
of. -/
structure Stepwise {ι : Type} (At : Env → Prop) (P : FamilyProperty ι) : Prop where
  pure : ∀ {α : Type} (a : α), P fun _ => pure a
  bind : ∀ {α β : Type} {x : ι → CheckM α} {f : ι → α → CheckM β}, P x → (∀ a, P fun i => f i a) →
    P fun i => x i >>= f i
  read_then : ∀ {α : Type} {f : ι → Env → CheckM α}, (∀ env, At env → P fun i => f i env) → P fun i => read >>= f i
  node : ∀ id, P fun _ => node id
  problem : ∀ span p, p.ofSplicing → P fun _ => problem span p

namespace Stepwise

variable {ι α : Type} {At : Env → Prop} {P : FamilyProperty ι} (h : Stepwise At P) {x : ι → CheckM α} {view : ι → α → α}
  {ok : α → Prop}

include h

theorem lift (hView : ∀ i a, view i a = a) (hx : P x) (hOk : ∀ a, ok a) : Continues P x view ok :=
  fun _ _ hk => h.bind hx fun a => by simpa only [hView] using hk a (hOk a)

theorem agreed (hx : P x) : Agreed (Continues P) x := fun _ _ hk => h.bind hx fun a => hk a trivial

theorem runViewed (hView : ∀ i a, view i a = a) (hx : Continues P x view ok) : P x := by
  have hPure : P fun i => x i >>= Pure.pure := hx α (fun _ => Pure.pure) fun a _ => by
    simp only [hView]
    exact h.pure a
  simpa only [bind_pure] using hPure

theorem run (hx : Agreed (Continues P) x) : P x := h.runViewed (fun _ _ => rfl) hx

theorem expands {e : ι → List NodeId → CheckM (List NodeId × Bool)} {items : List NodeId} (he : P fun i => e i items) :
    Continues P (fun i => e i (items.map (Naming.plain ι At i))) (Naming.plain ι At).expanded
      (Naming.plain ι At).Expanded :=
  h.lift (by simp) (by simpa using he) fun _ _ _ => trivial

theorem walks : (Naming.plain ι At).Walks (Continues P) where
  pure hb ha _ _ hk := by simpa only [pure_bind, ha] using hk _ hb
  bind hx hf γ k hk := by
    simp only [bind_assoc]
    exact hx γ _ fun b hb => hf b hb γ k hk
  read_then hf γ k hk := by
    simp only [bind_assoc]
    exact h.read_then fun env hEnv => hf env hEnv γ k hk
  node_then _ hf γ k hk := by
    simp only [bind_assoc]
    exact h.bind (h.node _) fun t => hf t (fun _ => t) (.plain t) γ k hk
  problem span p hp := h.agreed (h.problem span p hp)

theorem checkAny {xs : List α} {f : ι → α → CheckM Bool} (hf : ∀ a ∈ xs, P fun i => f i a) :
    P fun i => checkAny (f i) xs := by
  simpa using h.run (h.walks.checkAny (g := fun _ a => a) fun a ha => h.agreed (hf a ha))

theorem splicePath (span : Span) (type : TypeKey) (path : List PathStep) : P fun _ => splicePath span type path :=
  h.run (h.walks.splicePath span type path)

theorem listTarget (type : TypeKey) (span : Span) (what : String) : P fun _ => listTarget type span what :=
  h.runViewed (by simp) (h.walks.listTarget type span what)

theorem elementsObstacle (inPermutation : Bool) (items : List NodeId) :
    P fun _ => elementsObstacle inPermutation items := by
  have hItems : ∀ item ∈ items, (Naming.plain ι At).dom item := fun _ _ => trivial
  simpa using h.run (h.walks.elementsObstacle inPermutation hItems)

theorem walkTarget (hLast : ∀ id, P fun _ => lastTemplate id) (span : Span) (path : List PathStep) (walk : TargetWalk) :
    P fun _ => walkTarget span path walk :=
  h.runViewed (by simp) (h.walks.walkTarget (fun _ => h.agreed (hLast _)) span path walk trivial)

theorem narrow (hThrow : P fun _ => (throw .endlessWalk : CheckM Part)) {resolve : NodeId → CheckM NodeId}
    (hResolve : ∀ id, P fun _ => resolve id) (span : Span) (depth : Nat) (path : List PathStep) (id : NodeId)
    (type : TypeKey) : P fun _ => narrow resolve span depth path id type := by
  have hDepth : (Naming.plain ι At).Depths depth fun _ => depth := fun _ => ⟨Nat.le_refl _, fun _ => rfl⟩
  refine h.runViewed (by simp) (h.walks.narrow (fun id _ => h.agreed (hResolve id)) (fun hStop => ?_) span hDepth path
    trivial type)
  rw [funext fun i => hStop i trivial]
  exact h.lift (by simp) hThrow fun _ _ _ _ => trivial

end Stepwise

/-- A property that holds of what leaves the store alone, and of sequences if it holds of their parts. -/
structure Sequential {ι : Type} (P : FamilyProperty ι) : Prop where
  still : ∀ {α : Type} {x : CheckM α}, Still x → P fun _ => x
  bind : ∀ {α β : Type} {x : ι → CheckM α} {f : ι → α → CheckM β}, P x → (∀ a, P fun i => f i a) →
    P fun i => x i >>= f i

theorem Sequential.stepwise {ι : Type} {P : FamilyProperty ι} (h : Sequential P) : Stepwise (fun _ => True) P where
  pure a := h.still (.pure a)
  bind := h.bind
  read_then hf := h.bind (h.still .read) fun env => hf env trivial
  node id := h.still (.node id)
  problem span _ _ := h.still (.tell span _)

theorem sequential_steps (R : Store → Store → Prop) [Course R] (env : Env) :
    Sequential fun {_} (x : Unit → CheckM _) => ∀ s, Steps R env s (x ()) where
  still hx _ := hx.steps
  bind hx hf s := (hx s).bind fun a s' _ _ => hf a s'

structure Splicing {ι : Type} (At : Env → Prop) (P : FamilyProperty ι) : Prop extends Stepwise At P where
  lastTemplate : ∀ id, P fun _ => lastTemplate id
  deepCopy : ∀ id, P fun _ => onStore (Store.deepCopy id)
  alloc : ∀ value span, P fun _ => onStore (Store.alloc { form := .specific value, span })
  giveUp : ∀ id, P fun _ => markErroneous id

namespace Splicing

variable {ι : Type} {At : Env → Prop} {P : FamilyProperty ι} (h : Splicing At P)

include h

theorem splices : (Naming.plain ι At).Splices (Continues P) where
  toWalks := h.walks
  lastTemplate _ := h.agreed (h.lastTemplate _)
  deepCopy _ := h.agreed (h.deepCopy _)
  alloc _ _ := h.agreed (h.alloc _ _)
  giveUp _ := h.agreed (h.giveUp _)

theorem spliceSlot {e : ι → Expand} {inPermutation : Bool} {active : List DefId} (slot : NodeId)
    (hExpand : ∀ env target items, At env → target ∉ active → (env.definitions.get? target).isSome →
      P fun i => e i inPermutation (active ++ [target]) items) (target : NodeId) :
    P fun i => spliceSlot (e i) inPermutation active slot target := by
  refine h.runViewed (by simp) (h.splices.spliceSlot trivial (fun env target items hEnv hNew hExists _ => ?_) trivial)
  exact h.expands (hExpand env target items hEnv hNew hExists)

end Splicing

structure Unfolding {ι : Type} (At : Env → Prop) (P : FamilyProperty ι) : Prop extends Splicing At P where
  mark : ∀ id m, P fun _ => mark id m
  fill : ∀ id shape items, P fun _ => replaceForm id (.list shape items)
  settle : ∀ id flattened, P fun _ => settle id flattened

namespace Unfolding

variable {ι : Type} {At : Env → Prop} {P : FamilyProperty ι} (h : Unfolding At P) {e : ι → Expand}
  (hExpand : ∀ inPermutation active items, P fun i => e i inPermutation active items) {inPermutation : Bool}
  {active : List DefId}

include h

theorem unfolds : (Naming.plain ι At).Unfolds (Continues P) where
  toSplices := h.splices
  mark m _ := h.agreed (h.mark _ m)
  fill shape _ _ := h.agreed (by simpa using h.fill _ shape _)
  settle flattened _ := h.agreed (h.settle _ flattened)

include hExpand

theorem expandNode (id : NodeId) : P fun i => expandNode (e i) inPermutation active id :=
  h.run (h.unfolds.expandNode (fun inPermutation active items _ => h.expands (hExpand inPermutation active items))
    trivial)

theorem expandItem (done : List NodeId × Bool) (item : NodeId) :
    P fun i => expandItem (e i) inPermutation active done item := by
  have hItem : Continues P (fun i => TemplateCheck.expandItem (e i) inPermutation active
      ((Naming.plain ι At).expanded i done) item) (Naming.plain ι At).expanded (Naming.plain ι At).Expanded :=
    h.unfolds.expandItem (fun inPermutation active items _ => h.expands (hExpand inPermutation active items)) trivial
      fun _ _ => trivial
  simpa using h.runViewed (by simp) hItem

end Unfolding

end TemplateCheck
