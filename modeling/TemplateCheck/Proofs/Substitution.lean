import Mathlib.Data.Set.Finite.Range
import TemplateCheck.Proofs.Chains
import TemplateCheck.Proofs.Results
import TemplateCheck.Proofs.Trees.Copies

/-!
# Substitution for `all from`

What splicing is meant to do, told without a store: in a list of trees every slot is replaced by the elements of the
template or constant that it names, and the elements of a template are treated in the same way before. Which trees a
definition stands for is read off once and for all. If no definition comes up again while its own elements are treated,
the substitution has a result. A copy of a tree is made of new nodes, and it is the same tree.
-/

namespace TemplateCheck

open List Store
open Relation (ReflTransGen TransGen)

variable {view : NodeId → Option Template} {roots more ids : List NodeId} {id : NodeId}

def Form.bare : Form → Form
  | .referenced r _ => .referenced r none
  | .list shape _ => .list shape []
  | .named entries => .named (entries.map fun entry => { entry with template := 0 })
  | .indexed entries => .indexed (entries.map fun entry => { entry with template := 0 })
  | .allFrom _ => .allFrom 0
  | .decoded encoding target => .decoded encoding { target with body := 0 }
  | .concat _ _ => .concat 0 0
  | form => form

def Template.bare (t : Template) : Template := { t with form := t.form.bare, governor := none, marks := {} }

inductive Tree where
  | node (head : Template) (children : List Tree)

/-- The trees below some roots, and the nodes they are made of, each before its children. -/
inductive Unfolds (view : NodeId → Option Template) : List NodeId → List NodeId → List Tree → Prop where
  | nil : Unfolds view [] [] []
  | cons {root : NodeId} {t : Template} {rest below ids : List NodeId} {children trees : List Tree} :
      view root = some t → Unfolds view t.form.children below children → Unfolds view rest ids trees →
      Unfolds view (root :: rest) (root :: (below ++ ids)) (.node t.bare children :: trees)

def Form.isExpanded : Form → Bool
  | .list .positional _ | .list .valueList _ | .list .permutation _ => true
  | _ => false

theorem Form.isSlot_bare (form : Form) : form.bare.isSlot = form.isSlot := by
  cases form <;> rfl

namespace Tree

def form : Tree → Form
  | .node head _ => head.form

def reference? (tree : Tree) : Option Reference :=
  match tree.form with
  | .specific (.ref r) | .referenced r _ => some r
  | _ => none

def target? (tree : Tree) : Option DefId := tree.reference?.bind (·.target)

def ofValue (span : Span) (value : Value) : Tree := .node { form := .specific value, span } []

end Tree

/-- Some slot of the trees refers to the second tree. -/
inductive SlotIn : List Tree → Tree → Prop where
  | here {head : Template} {target : Tree} {trees : List Tree} : head.form.isSlot →
      SlotIn (.node head [target] :: trees) target
  | inside {head : Template} {target : Tree} {children trees : List Tree} : head.form.isExpanded →
      SlotIn children target → SlotIn (.node head children :: trees) target
  | later {tree target : Tree} {trees : List Tree} : SlotIn trees target → SlotIn (tree :: trees) target

namespace Reading

variable (m : Reading)

def Contains (d : DefId) (elements : List Tree) : Prop :=
  ∃ definition template last t items ids, m.env.definitions.get? d = some definition ∧
    definition.kind = .template template ∧ definition.type.isSome ∧ m.EndsAt template.body last ∧
    m.view last = some t ∧ (t.form = .list .positional items ∨ t.form = .list .valueList items) ∧
    Unfolds m.view items ids elements

def FromTemplate (target : Tree) (d : DefId) (elements : List Tree) : Prop :=
  ∃ r, target.reference? = some r ∧ r.path = [] ∧ r.args = none ∧ r.target = some d ∧
    m.Contains d elements ∧ ∀ tree ∈ elements, elementObstacle false tree.form = none

def FromConstant (target : Tree) (values : List Value) : Prop :=
  ∃ r definition initial type decl, target.reference? = some r ∧ r.path = [] ∧ r.args = none ∧
    m.env.definitions.target? r = some definition ∧ definition.kind = .const initial ∧
    definition.type = some type ∧ m.env.types.decl? type = some decl ∧ decl.isList ∧
    m.env.fold (.ref r) = .ok (.list values)

/-- What becomes of trees when the slots are replaced by what they stand for. -/
inductive Substituted : List Tree → List Tree → Prop where
  | nil : Substituted [] []
  | kept {head : Template} {children trees trees' : List Tree} : head.form.isSlot = false →
      head.form.isExpanded = false → Substituted trees trees' →
      Substituted (.node head children :: trees) (.node head children :: trees')
  | list {head : Template} {children children' trees trees' : List Tree} : head.form.isExpanded →
      Substituted children children' → Substituted trees trees' →
      Substituted (.node head children :: trees) (.node head children' :: trees')
  | template {head : Template} {target : Tree} {d : DefId} {elements elements' trees trees' : List Tree} :
      head.form.isSlot → m.FromTemplate target d elements → Substituted elements elements' →
      Substituted trees trees' → Substituted (.node head [target] :: trees) (elements' ++ trees')
  | constant {head : Template} {target : Tree} {values : List Value} {trees trees' : List Tree} :
      head.form.isSlot → m.FromConstant target values → Substituted trees trees' →
      Substituted (.node head [target] :: trees) (values.map (.ofValue head.span) ++ trees')

/-- A slot with that target can be replaced. -/
def Fits (target : Tree) : Prop :=
  (∃ d elements, m.FromTemplate target d elements) ∨ ∃ values, m.FromConstant target values

/-- Among the trees or the elements that slots stand for, some slot refers to the second tree. -/
inductive ReachesSlot : List Tree → Tree → Prop where
  | direct {trees : List Tree} {target : Tree} : SlotIn trees target → ReachesSlot trees target
  | through {trees elements : List Tree} {first target : Tree} {d : DefId} : SlotIn trees first →
      first.target? = some d → m.Contains d elements → ReachesSlot elements target → ReachesSlot trees target

def ReachesDefinition (trees : List Tree) (d : DefId) : Prop :=
  ∃ target, m.ReachesSlot trees target ∧ target.target? = some d

/-- A slot among the elements of the first definition names the second. -/
def Splices (d e : DefId) : Prop :=
  ∃ elements target, m.Contains d elements ∧ SlotIn elements target ∧ target.target? = some e

end Reading

namespace Unfolds

variable {view' : NodeId → Option Template} {others : List NodeId} {trees trees' : List Tree}

theorem append (h : Unfolds view roots ids trees) (h' : Unfolds view more others trees') :
    Unfolds view (roots ++ more) (ids ++ others) (trees ++ trees') := by
  induction h with
  | nil => exact h'
  | cons hView hBelow _ _ ih =>
    simp only [cons_append, append_assoc]
    exact .cons hView hBelow ih

theorem of_single {head : Template} {children : List Tree} (h : Unfolds view [id] ids [.node head children]) :
    ∃ t below, view id = some t ∧ head = t.bare ∧ ids = id :: below ∧ Unfolds view t.form.children below children := by
  cases h with
  | cons hView hBelow hRest =>
    cases hRest
    exact ⟨_, _, hView, rfl, by rw [append_nil], hBelow⟩

section

variable (h : Unfolds view roots ids trees)

include h

theorem mem_of_root (hMem : id ∈ roots) : id ∈ ids := by
  induction h with
  | nil => cases hMem
  | cons _ _ _ _ ih =>
    obtain rfl | hMem := mem_cons.1 hMem
    · exact mem_cons_self
    · exact mem_cons_of_mem _ (mem_append_right _ (ih hMem))

theorem exists_node (hMem : id ∈ ids) : ∃ t, view id = some t := by
  induction h with
  | nil => cases hMem
  | cons hView _ _ ihBelow ih =>
    obtain rfl | hMem := mem_cons.1 hMem
    · exact ⟨_, hView⟩
    obtain hMem | hMem := mem_append.1 hMem
    · exact ihBelow hMem
    · exact ih hMem

theorem congr (hNodes : ∀ id ∈ ids, ∀ t, view id = some t →
      ∃ t', view' id = some t' ∧ t'.bare = t.bare ∧ t'.form.children = t.form.children) :
    Unfolds view' roots ids trees := by
  induction h with
  | nil => exact .nil
  | @cons root t rest below ids children trees hView _ _ ihBelow ih =>
    obtain ⟨t', hView', hBare, hChildren⟩ := hNodes root mem_cons_self t hView
    have hBelow' := ihBelow fun id hMem => hNodes id (mem_cons_of_mem _ (mem_append_left _ hMem))
    have hRest' := ih fun id hMem => hNodes id (mem_cons_of_mem _ (mem_append_right _ hMem))
    rw [← hChildren] at hBelow'
    rw [← hBare]
    exact .cons hView' hBelow' hRest'

theorem eq (h' : Unfolds view roots others trees') : ids = others ∧ trees = trees' := by
  induction h generalizing others trees' with
  | nil =>
    cases h'
    exact ⟨rfl, rfl⟩
  | cons hView _ _ ihBelow ih =>
    cases h' with
    | cons hView' hBelow' hRest' =>
      cases hView.symm.trans hView'
      obtain ⟨rfl, rfl⟩ := ihBelow hBelow'
      obtain ⟨rfl, rfl⟩ := ih hRest'
      exact ⟨rfl, rfl⟩

end

end Unfolds

namespace Reading

variable {m : Reading} {trees : List Tree} {d : DefId} {elements : List Tree} {target : Tree}

theorem Contains.eq {elements' : List Tree} (h : m.Contains d elements)
    (h' : m.Contains d elements') : elements = elements' := by
  obtain ⟨definition, template, last, t, items, ids, hGet, hKind, -, hLast, hView, hForm, hUnfolds⟩ := h
  obtain ⟨_, _, _, _, items', ids', hGet', hKind', -, hLast', hView', hForm', hUnfolds'⟩ := h'
  cases hGet.symm.trans hGet'
  cases hKind.symm.trans hKind'
  obtain rfl := hLast.eq hLast'
  cases hView.symm.trans hView'
  obtain rfl : items = items' := by
    obtain hForm | hForm := hForm <;> obtain hForm' | hForm' := hForm' <;> cases hForm.symm.trans hForm' <;> rfl
  exact (hUnfolds.eq hUnfolds').2

theorem exists_substituted_step (h : Unfolds view roots ids trees)
    (hFits : ∀ target, SlotIn trees target → m.Fits target)
    (hElements : ∀ target d elements, SlotIn trees target → m.FromTemplate target d elements →
      ∃ elements', m.Substituted elements elements') : ∃ trees', m.Substituted trees trees' := by
  induction h with
  | nil => exact ⟨[], .nil⟩
  | @cons root t rest below ids children trees hView hBelow _ ihBelow ih =>
    obtain ⟨trees', hTrees⟩ := ih (fun target hSlot => hFits target (.later hSlot))
      fun target d elements hSlot => hElements target d elements (.later hSlot)
    by_cases hSlot : t.bare.form.isSlot
    · obtain ⟨target, rfl⟩ : ∃ target, children = [target] := by
        obtain ⟨form⟩ := t
        cases form <;> cases hSlot
        cases hBelow with
        | cons _ _ hNone =>
          cases hNone
          exact ⟨_, rfl⟩
      obtain ⟨d, elements, hFrom⟩ | ⟨values, hFrom⟩ := hFits target (.here hSlot)
      · obtain ⟨elements', hElements⟩ := hElements target d elements (.here hSlot) hFrom
        exact ⟨_, .template hSlot hFrom hElements hTrees⟩
      · exact ⟨_, .constant hSlot hFrom hTrees⟩
    · by_cases hExpanded : t.bare.form.isExpanded
      · obtain ⟨children', hChildren⟩ := ihBelow (fun target hSlot => hFits target (.inside hExpanded hSlot))
          fun target d elements hSlot => hElements target d elements (.inside hExpanded hSlot)
        exact ⟨_, .list hExpanded hChildren hTrees⟩
      · exact ⟨_, .kept (Bool.eq_false_iff.2 hSlot) (Bool.eq_false_iff.2 hExpanded) hTrees⟩

theorem ReachesSlot.tail {first : Tree} (h : m.ReachesSlot trees first)
    (hTarget : first.target? = some d) (hContains : m.Contains d elements) (hSlot : SlotIn elements target) :
    m.ReachesSlot trees target := by
  induction h with
  | direct hFirst => exact .through hFirst hTarget hContains (.direct hSlot)
  | through hFirst hTarget' hContains' _ ih => exact .through hFirst hTarget' hContains' (ih hTarget)

theorem ReachesDefinition.splices {e : DefId} (h : m.ReachesDefinition trees d) (hSplices : m.Splices d e) :
    m.ReachesDefinition trees e := by
  obtain ⟨first, hReaches, hFirst⟩ := h
  obtain ⟨elements, target, hContains, hSlot, hTarget⟩ := hSplices
  exact ⟨target, hReaches.tail hFirst hContains hSlot, hTarget⟩

theorem Fits.has_definition (h : m.Fits target) (hTarget : target.target? = some d) :
    d.index < m.env.definitions.size := by
  have hGet : ∃ definition, m.env.definitions.get? d = some definition := by
    obtain ⟨e, elements, r, hReference, -, -, hDefinition, hContains, -⟩ |
      ⟨values, r, definition, -, -, -, hReference, -, -, hDefinition, -⟩ := h
    · obtain ⟨definition, -, -, -, -, -, hGet, -⟩ := hContains
      obtain rfl : e = d := by simpa [Tree.target?, hReference, hDefinition] using hTarget
      exact ⟨definition, hGet⟩
    · have hEq : r.target = some d := by simpa [Tree.target?, hReference] using hTarget
      exact ⟨definition, by simpa [Definitions.target?, hEq] using hDefinition⟩
  obtain ⟨definition, hGet⟩ := hGet
  exact (List.getElem?_eq_some_iff.1 hGet).1

/-- Trees whose slots can be replaced, and those among what they stand for as well, can be treated as long as
no definition comes up again in its own elements. -/
theorem exists_substituted (h : Unfolds view roots ids trees)
    (hFits : ∀ target, m.ReachesSlot trees target → m.Fits target)
    (hAcyclic : ∀ d, m.ReachesDefinition trees d → ¬ TransGen m.Splices d d) :
    ∃ trees', m.Substituted trees trees' := by
  have hDefinition : ∀ d, m.ReachesDefinition trees d → ∀ elements, m.Contains d elements →
      ∃ elements', m.Substituted elements elements' := by
    intro d hReaches
    have hPaths : ∀ e, ReflTransGen m.Splices d e → m.ReachesDefinition trees e := by
      intro e hPath
      induction hPath with
      | refl => exact hReaches
      | tail _ hStep ih => exact ih.splices hStep
    have hFinite : {e | ReflTransGen m.Splices d e}.Finite := by
      apply (Set.finite_range fun i : Fin m.env.definitions.size => DefId.mk i).subset
      intro e hPath
      obtain ⟨target, hSlot, hTarget⟩ := hPaths e hPath
      exact ⟨⟨e.index, (hFits target hSlot).has_definition hTarget⟩, rfl⟩
    have hAcc : Acc (fun next e => m.Splices e next) d := by
      rw [acc_iff_not_cycle hFinite]
      rintro ⟨e, hPath, hCycle⟩
      exact hAcyclic e (hPaths e hPath) hCycle
    clear hPaths hFinite
    induction hAcc with
    | intro d _ ih =>
      intro elements hContains
      obtain ⟨first, hFirst, hTarget⟩ := hReaches
      have hSlots : ∀ target, SlotIn elements target → m.ReachesSlot trees target :=
        fun target => hFirst.tail hTarget hContains
      obtain ⟨-, -, -, -, items, ids, -, -, -, -, -, -, hUnfolds⟩ := id hContains
      apply exists_substituted_step hUnfolds fun target hSlot => hFits target (hSlots target hSlot)
      rintro target e inner hSlot ⟨r, hReference, -, -, hDefinition, hInner, -⟩
      have hNamed : target.target? = some e := by simp [Tree.target?, hReference, hDefinition]
      exact ih e ⟨elements, target, hContains, hSlot, hNamed⟩ ⟨target, hSlots target hSlot, hNamed⟩ inner hInner
  apply exists_substituted_step h fun target hSlot => hFits target (.direct hSlot)
  rintro target d elements hSlot ⟨r, hReference, -, -, hTarget, hContains, -⟩
  exact hDefinition d ⟨target, .direct hSlot, by simp [Tree.target?, hReference, hTarget]⟩ elements hContains

end Reading

variable {items : List NodeId} {form : Form} {trees : List Tree}

theorem Form.bare_withChildren {news : List NodeId} (h : news.length = form.children.length) :
    (form.withChildren news).bare = form.bare := by
  cases form with
  | named entries =>
    have hLength : news.length = entries.length := by simpa [children] using h
    exact congrArg Form.named (ext_getElem (by simp [hLength]) (by simp))
  | indexed entries =>
    have hLength : news.length = entries.length := by simpa [children] using h
    exact congrArg Form.indexed (ext_getElem (by simp [hLength]) (by simp))
  | _ => rfl

variable {α : Type} {s : Store}

theorem Attains.onStore {quiet : Bool} {env : Env} {x : StoreM α} {Q : α → Store → Prop}
    (h : StoreAttains s x Q) : Attains quiet env s (onStore x) Q := by
  obtain ⟨a, s', hRun, hQ⟩ := h.run
  exact ⟨fun report => ⟨a, ⟨s', report⟩, by simp [TemplateCheck.onStore, hRun], fun _ => rfl, hQ⟩⟩

theorem Unfolds.lists (h : Unfolds s.get? roots ids trees) : s.Lists roots ids := by
  induction h with
  | nil => exact .nil
  | cons hView _ _ ihBelow ih => exact .cons hView ihBelow ih

namespace Store

variable {s' s'' : Store} {t : Template} {trees trees' : List TemplateCheck.Tree}

structure Plants (s : Store) (roots : List NodeId) (trees : List TemplateCheck.Tree) (s' : Store) : Prop where
  keeps : ∀ id t, s.get? id = some t → s'.get? id = some t
  planted : ∃ ids, Unfolds s'.get? roots ids trees ∧ ids.Nodup ∧
    ∀ id ∈ ids, ¬ s.Has id ∧ ∀ t, s'.get? id = some t → t.marks = {}

theorem plants_nil (s : Store) : s.Plants [] [] s := ⟨fun _ _ h => h, [], .nil, .nil, nofun⟩

theorem Plants.has (h : s.Plants roots trees s') (hHas : s.Has id) : s'.Has id := by
  obtain ⟨t, hFound⟩ := hHas.exists_get?
  exact has_of_get? (h.keeps id t hFound)

theorem Plants.append (h : s.Plants roots trees s') (h' : s'.Plants more trees' s'') :
    s.Plants (roots ++ more) (trees ++ trees') s'' := by
  obtain ⟨ids, hUnfolds, hNodup, hNew⟩ := h.planted
  obtain ⟨others, hUnfolds', hNodup', hNew'⟩ := h'.planted
  have hKept : Unfolds s''.get? roots ids trees :=
    hUnfolds.congr fun id _ t hFound => ⟨t, h'.keeps id t hFound, rfl, rfl⟩
  refine ⟨fun id t hFound => h'.keeps id t (h.keeps id t hFound), ids ++ others, hKept.append hUnfolds', ?_, ?_⟩
  · refine nodup_append.2 ⟨hNodup, hNodup', ?_⟩
    rintro id hMem _ hOther rfl
    exact (hNew' id hOther).1 (hUnfolds.lists.has hMem)
  · intro id hMem
    obtain hMem | hMem := mem_append.1 hMem
    · refine ⟨(hNew id hMem).1, fun t'' hFound'' => ?_⟩
      obtain ⟨t, hFound⟩ := hUnfolds.exists_node hMem
      rw [← Option.some.inj ((h'.keeps id t hFound).symm.trans hFound'')]
      exact (hNew id hMem).2 t hFound
    · exact ⟨fun hHas => (hNew' id hMem).1 (h.has hHas), (hNew' id hMem).2⟩

theorem Plants.push (h : s.Plants t.form.children trees s') (hMarks : t.marks = {}) :
    s.Plants [s'.nextId] [.node t.bare trees] (s'.push t) := by
  obtain ⟨ids, hUnfolds, hNodup, hNew⟩ := h.planted
  have hKeeps : ∀ id u, s'.get? id = some u → (s'.push t).get? id = some u := fun _ _ => get?_push_of_get?
  have hKept : Unfolds (s'.push t).get? t.form.children ids trees :=
    hUnfolds.congr fun id _ u hFound => ⟨u, hKeeps id u hFound, rfl, rfl⟩
  refine ⟨fun id u hFound => hKeeps id u (h.keeps id u hFound), s'.nextId :: (ids ++ []),
    .cons (get?_push_nextId s' t) hKept .nil, ?_, ?_⟩
  · rw [append_nil]
    exact nodup_cons.2 ⟨fun hMem => not_has_nextId s' (hUnfolds.lists.has hMem), hNodup⟩
  · rw [append_nil]
    intro id hMem
    obtain rfl | hMem := mem_cons.1 hMem
    · refine ⟨fun hHas => not_has_nextId s' (h.has hHas), fun u hFound => ?_⟩
      rw [get?_push_nextId] at hFound
      cases hFound
      exact hMarks
    · refine ⟨(hNew id hMem).1, fun u hFound => ?_⟩
      obtain ⟨u', hFound'⟩ := hUnfolds.exists_node hMem
      rw [← Option.some.inj ((hKeeps id u' hFound').symm.trans hFound)]
      exact (hNew id hMem).2 u' hFound'

namespace Copies

variable {copies ids' : List NodeId} (h : Copies s s' roots ids copies ids')

include h

theorem unfolds {others : List NodeId} (hTrees : Unfolds s.get? roots others trees) :
    Unfolds s'.get? copies ids' trees := by
  induction h generalizing others trees with
  | nil =>
    cases hTrees
    exact .nil
  | cons hFound hBelow hCopy _ ihBelow ih =>
    obtain _ | ⟨hView, hChildren, hRest⟩ := hTrees
    cases hFound.symm.trans hView
    have hUnfolds := Unfolds.cons hCopy (by
      rw [Form.children_withChildren hBelow.length_eq]
      exact ihBelow hChildren) (ih hRest)
    rwa [Template.bare, Form.bare_withChildren hBelow.length_eq] at hUnfolds

theorem marks (hMem : id ∈ ids') : ∃ t, s'.get? id = some t ∧ t.marks = {} := by
  induction h with
  | nil => cases hMem
  | cons _ _ hCopy _ ihBelow ih =>
    obtain rfl | hMem := mem_cons.1 hMem
    · exact ⟨_, hCopy, rfl⟩
    · exact (mem_append.1 hMem).elim ihBelow ih

end Copies

theorem attains_deepCopy {root : NodeId} {tree : TemplateCheck.Tree} (h : Unfolds s.get? [root] ids [tree]) :
    StoreAttains s (deepCopy root) fun copy s' => s.Plants [copy] [tree] s' := by
  have hFounded := h.lists.founded (h.mem_of_root mem_cons_self)
  obtain ⟨listing, hListing⟩ := hFounded.exists_preorder
  apply (copied_deepCopy hListing).mono
  rintro copy s' ⟨ids', hCopied⟩
  refine ⟨hCopied.keeps, ids', hCopied.copies.unfolds h, hCopied.nodup, fun id hMem => ?_⟩
  obtain ⟨t, hFound, hMarks⟩ := hCopied.copies.marks hMem
  refine ⟨hCopied.fresh id hMem, fun t' hFound' => ?_⟩
  cases hFound.symm.trans hFound'
  rw [hMarks]

end Store

variable {quiet : Bool} {env : Env}

theorem attains_copies (h : Unfolds s.get? items ids trees) :
    Attains quiet env s (items.mapM fun item => onStore (deepCopy item)) fun copies =>
      s.Plants copies trees := by
  induction items generalizing s ids trees with
  | nil =>
    cases h
    exact .pure s.plants_nil
  | cons item items ih =>
    cases h with
    | cons hView hBelow hRest =>
      rw [mapM_cons]
      apply (Attains.onStore (attains_deepCopy (.cons hView hBelow .nil))).bind
      intro copy s' hCopy
      apply (ih (hRest.congr fun id _ t hFound => ⟨t, hCopy.keeps id t hFound, rfl, rfl⟩)).bind
      intro copies s'' hCopies
      exact .pure (hCopy.append hCopies)

theorem attains_values (values : List Value) (span : Span) :
    Attains quiet env s (values.mapM fun value => onStore (alloc { form := .specific value, span }))
      fun items s' => s.Plants items (values.map (.ofValue span)) s' := by
  induction values generalizing s with
  | nil => exact .pure s.plants_nil
  | cons value values ih =>
    rw [mapM_cons]
    apply Attains.bind (Q := fun item s' => s.Plants [item] [.ofValue span value] s')
    · exact .onStore (.alloc (Plants.push (t := { form := .specific value, span }) s.plants_nil rfl))
    · intro item s' hItem
      apply ih.bind
      intro items s'' hItems
      exact .pure (hItem.append hItems)

theorem Store.update_update (s : Store) (id : NodeId) (f g : Template → Template) :
    (s.update id f).update id g = s.update id fun t => g (f t) := by
  simp [update, modify_modify_eq, Function.comp_def]

/-- A list is given its new items and told whether slots are left among them. -/
theorem attains_fill {t : Template} {shape : ListShape}
    (hNode : s.get? id = some t) (hForm : t.form = .list shape items) (expanded : List NodeId) (flat : Bool) :
    Attains true env s (do replaceForm id (.list shape expanded); settle id flat; return flat) fun flat' s' =>
      flat' = flat ∧ s' = s.update id fun t => { t with form := .list shape expanded }.settle flat := by
  have hMay : t.form.mayBecome (.list shape expanded) := by simp [hForm, Form.mayBecome, Form.variant]
  apply (Attains.replaceForm hNode hMay).bind
  rintro _ _ rfl
  apply Attains.bind (Attains.modifyNode (t := { t with form := .list shape expanded }) (by simp [hNode]))
  rintro _ _ rfl
  exact .pure ⟨rfl, update_update ..⟩

end TemplateCheck
