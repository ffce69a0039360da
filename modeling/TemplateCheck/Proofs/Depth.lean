import TemplateCheck.Proofs.History
import TemplateCheck.Proofs.Stepwise.Check

/-!
# Depth is only a limit

A computation deepens another if it does the same wherever the other does not go too deep. Checks and
splices that may descend deeper deepen those that may not, so operations that come to an end within some
depth come to the same end within every greater depth.
-/

namespace TemplateCheck

section

variable {α β : Type} {deep : Prop} {I : Store → Prop} {x y : CheckM α} {f g : α → CheckM β} {Q : α → Prop}
  {P : β → Prop} {a : α} {xs : List α}

/-- On stores of which `I` holds, the second computation does what the first does, unless the first goes too deep and
may do so. `I` is kept. -/
def Even (deep : Prop) (I : Store → Prop) (x y : CheckM α) (Q : α → Prop) : Prop :=
  ∀ env st, I st.store → ((y env).run st = (x env).run st ∨ deep ∧ ((x env).run st).1 = .error .tooDeep) ∧
    I ((x env).run st).2.store ∧ ∀ a, ((x env).run st).1 = .ok a → Q a

namespace Even

theorem bind (hx : Even deep I x y Q) (hf : ∀ a, Q a → Even deep I (f a) (g a) P) :
    Even deep I (x >>= f) (y >>= g) P := by
  intro env st hI
  obtain ⟨hSame, hNext, hResult⟩ := hx env st hI
  rcases hFirst : (x env).run st with ⟨fault | a, middle⟩
  · rw [hFirst] at hSame hNext
    rw [run_bind_error f hFirst]
    refine ⟨hSame.imp (run_bind_error g) fun ⟨hMay, hDeep⟩ => ⟨hMay, ?_⟩, hNext, nofun⟩
    cases hDeep
    rfl
  · rw [hFirst] at hSame hNext hResult
    obtain hSame | ⟨-, hDeep⟩ := hSame
    · rw [run_bind_ok f hFirst, run_bind_ok g hSame]
      exact hf a (hResult a rfl) env middle hNext
    · cases hDeep

theorem inside (c : Context) (h : Even deep I x y Q) : Even deep I (inside c x) (inside c y) Q := by
  intro env st hI
  obtain ⟨hSame, hRest⟩ := h env { st with report := st.report.enter c } hI
  refine ⟨hSame.imp_left fun hSame => ?_, hRest⟩
  simp only [TemplateCheck.inside, hSame]

theorem pure (h : Q a) : Even deep I (Pure.pure a) (Pure.pure a) Q := by
  refine fun env st hI => ⟨.inl rfl, hI, ?_⟩
  rintro _ ⟨⟩
  exact h

theorem foldlM {f g : β → α → CheckM β} {b : β} (hb : P b)
    (h : ∀ a ∈ xs, ∀ b, P b → Even deep I (f b a) (g b a) P) : Even deep I (xs.foldlM f b) (xs.foldlM g b) P := by
  induction xs generalizing b with
  | nil => exact .pure hb
  | cons a xs ih =>
    rw [List.foldlM_cons, List.foldlM_cons]
    exact (h a List.mem_cons_self b hb).bind fun c hc => ih hc fun d hd => h d (List.mem_cons_of_mem a hd)

end Even

/-- The second computation does what the first does, unless the first goes too deep. -/
abbrev Deepens (x y : CheckM α) : Prop := Even True (fun _ => True) x y fun _ => True

namespace Deepens

theorem refl : Deepens x x := fun _ _ _ => ⟨.inl rfl, trivial, fun _ _ => trivial⟩

theorem tooDeep : Deepens (throw .tooDeep) y := fun _ _ _ => ⟨.inr ⟨trivial, rfl⟩, trivial, fun _ _ => trivial⟩

theorem bind (hx : Deepens x y) (hf : ∀ a, Deepens (f a) (g a)) : Deepens (x >>= f) (y >>= g) :=
  Even.bind hx fun a _ => hf a

theorem after (h : ∀ a, Deepens (f a) (g a)) : Deepens (x >>= f) (x >>= g) := refl.bind h

theorem before (h : Deepens x y) : Deepens (x >>= f) (y >>= f) := h.bind fun _ => refl

theorem withReader (change : Env → Env) (h : Deepens x y) : Deepens (withReader change x) (withReader change y) :=
  fun env => h (change env)

theorem onlyIf {c : Bool} {x y : CheckM Unit} (h : Deepens x y) : Deepens (onlyIf c x) (onlyIf c y) := by
  cases c with
  | false => exact .refl
  | true => exact h

theorem forM {f g : α → CheckM Unit} (h : ∀ a, Deepens (f a) (g a)) :
    Deepens (xs.forM f) (xs.forM g) := by
  induction xs with
  | nil => exact .refl
  | cons a xs ih => exact (h a).bind fun _ => ih

theorem run (h : Deepens x y) (env : Env) (st : CheckState) :
    (y env).run st = (x env).run st ∨ ((x env).run st).1 = .error .tooDeep :=
  (h env st trivial).1.imp_right And.right

end Deepens

end

section Splicing

def Expand.Deepens (e e' : Expand) : Prop :=
  ∀ inPermutation active items, TemplateCheck.Deepens (e inPermutation active items) (e' inPermutation active items)

variable {id : NodeId}

theorem unfolding_deepens : Unfolding (fun _ => True) fun {_} (x : Bool → CheckM _) => Deepens (x false) (x true) where
  pure _ := .refl
  bind hx hf := hx.bind hf
  read_then hf := .after fun env => hf env trivial
  node _ := .refl
  problem _ _ _ := .refl
  lastTemplate _ := .refl
  deepCopy _ := .refl
  alloc _ _ := .refl
  giveUp _ := .refl
  mark _ _ := .refl
  fill _ _ _ := .refl
  settle _ _ := .refl

theorem deepens_expandWithin (depth : Nat) : (expandWithin depth).Deepens (expandWithin (depth + 1)) := by
  induction depth with
  | zero => exact fun _ _ _ => .tooDeep
  | succ depth ih =>
    intro inPermutation active items
    refine Even.foldlM trivial fun item _ done _ => ?_
    exact unfolding_deepens.expandItem (e := fun deeper => cond deeper (expandWithin (depth + 1)) (expandWithin depth))
      ih done item

theorem deepens_flattenWithin (depth : Nat) : Deepens (flattenWithin depth id) (flattenWithin (depth + 1) id) :=
  .after fun _ => unfolding_deepens.expandNode
    (e := fun deeper => cond deeper (expandWithin (depth + 1)) (expandWithin depth)) (deepens_expandWithin depth) id

end Splicing

theorem checking_deepens :
    Checking (fun _ => True) (fun _ => True) fun {_} (x : Bool → CheckM _) => Deepens (x false) (x true) where
  still _ := .refl
  bind hx hf := hx.bind hf
  inside c hx := Even.inside c hx
  formOf_then _ hf := .after fun form => hf form fun _ _ => trivial
  lastTemplate _ := .refl
  basePart _ _ _ := .refl
  own _ _ := .refl
  govern _ _ := .refl
  name _ _ := .refl
  fillOmitted _ _ _ := .refl

theorem restricting_deepens : Restricting fun {_} (x : Bool → CheckM _) => Deepens (x false) (x true) :=
  ⟨checking_deepens.toSequential, fun _ => .refl, fun _ => .refl⟩

theorem deepens_checkWithin (depth : Nat) (id : NodeId) (governor : TypeKey) (site : Site) :
    Deepens (checkWithin depth id governor site) (checkWithin (depth + 1) id governor site) := by
  induction depth generalizing id governor site with
  | zero => exact .tooDeep
  | succ depth ih =>
    exact checking_deepens.checkStep (c := fun deeper => cond deeper (checkWithin (depth + 1)) (checkWithin depth))
      (l := fun deeper => cond deeper (flattenWithin (depth + 1)) (flattenWithin depth))
      (fun id governor site _ => ih id governor site) (fun _ _ => deepens_flattenWithin depth) trivial governor site

theorem deepens_checkInline (depth : Nat) (inline : InlineTemplate) (expected : Option TypeKey) :
    Deepens (checkInline (checkWithin depth) inline expected) (checkInline (checkWithin (depth + 1)) inline expected) :=
  checking_deepens.checkInline (c := fun deeper => cond deeper (checkWithin (depth + 1)) (checkWithin depth))
    (fun id governor site _ => deepens_checkWithin depth id governor site) trivial expected

theorem run_checkWithin_of_le {depth deeper : Nat} {id : NodeId} {governor : TypeKey} {site : Site} {env : Env}
    {st after : CheckState} {outcome : Outcome} (hLe : depth ≤ deeper)
    (hRun : (checkWithin depth id governor site env).run st = (.ok outcome, after)) :
    (checkWithin deeper id governor site env).run st = (.ok outcome, after) := by
  induction hLe with
  | refl => exact hRun
  | @step deeper _ ih =>
    obtain hSame | hDeep := (deepens_checkWithin deeper id governor site).run env st
    · exact hSame.trans ih
    · rw [ih] at hDeep
      cases hDeep

theorem deepens_restrictWithin (use : RestrictedUse) (depth : Nat) (id : NodeId) (required : Restriction) :
    Deepens (restrictWithin use depth id required) (restrictWithin use (depth + 1) id required) := by
  induction depth generalizing id required with
  | zero => exact .tooDeep
  | succ depth ih =>
    exact restricting_deepens.restrictStep use
      (r := fun deeper => cond deeper (restrictWithin use (depth + 1)) (restrictWithin use depth)) ih id required

theorem deepens_checkDefinition (depth : Nat) (id : DefId) :
    Deepens (checkDefinition depth id) (checkDefinition (depth + 1) id) := by
  unfold checkDefinition
  refine .after fun env => ?_
  split
  · split
    · refine .bind (.withReader _ (deepens_checkInline depth _ _)) fun outcome => ?_
      exact .before (.onlyIf (.before (deepens_restrictWithin _ depth _ _)))
    · exact .refl
  · exact .refl

theorem deepens_checkModule (depth : Nat) : Deepens (checkModule depth) (checkModule (depth + 1)) :=
  .after fun _ => .before (.forM fun id => .before (deepens_checkDefinition depth id))

namespace Session

theorem ended_of_deepens {α : Type} {x y : CheckM α} (s : Session) (h : Deepens x y) :
    ended (s.run y) = ended (s.run x) ∨ (ended (s.run x)).1 = some .tooDeep := by
  obtain hSame | hDeep := h.run s.env ⟨s.store, s.report⟩
  · exact .inl (by simp only [run, hSame])
  · exact .inr (ended_fst_eq_some.2 hDeep)

theorem performWithin_succ (s : Session) (depth : Nat) (op : Operation) :
    s.performWithin (depth + 1) op = s.performWithin depth op ∨ (s.performWithin depth op).1 = some .tooDeep := by
  cases op with
  | check id governor site => exact ended_of_deepens s (deepens_checkWithin depth id governor site)
  | checkInline inline expected => exact ended_of_deepens s (deepens_checkInline depth inline expected)
  | checkDefinition id => exact ended_of_deepens s (deepens_checkDefinition depth id)
  | checkModule => exact ended_of_deepens s (deepens_checkModule depth)
  | flatten id => exact ended_of_deepens s (deepens_flattenWithin depth)
  | checkRestriction use id required =>
    exact ended_of_deepens s (deepens_restrictWithin use depth id required)
  | _ => exact .inl rfl

theorem performWithin_of_le (s : Session) {depth depth' : Nat} (op : Operation) (hLe : depth ≤ depth')
    (h : (s.performWithin depth op).1 ≠ some .tooDeep) : s.performWithin depth' op = s.performWithin depth op := by
  induction hLe with
  | refl => rfl
  | @step depth' _ ih =>
    obtain hSame | hDeep := s.performWithin_succ depth' op
    · exact hSame.trans ih
    · exact absurd (ih ▸ hDeep) h

end Session

end TemplateCheck
