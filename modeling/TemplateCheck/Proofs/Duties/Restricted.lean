import TemplateCheck.Proofs.Chains.Following
import TemplateCheck.Proofs.Duties

/-!
# Checks of restrictions fulfil their duties

A check of a restriction ends with a result when the checks it demands do, and its result is the one they
demand. Conversely, whatever it returns it owes to a duty. The caches that are filled on the way do not matter,
and neither does the order of the checks. Where nothing is reported, no duty on the way objects to anything.
-/

namespace TemplateCheck

open List

variable {required : Restriction}

section AnyOf

variable {holds : Restriction → NodeId → Bool → Prop} {parts parts' : List (Restriction × NodeId)} {b : Bool}

theorem anyOf_append :
    AnyOf holds (parts ++ parts') b ↔ ∃ b1, AnyOf holds parts b1 ∧ ∃ b2, AnyOf holds parts' b2 ∧ b = (b1 || b2) := by
  induction parts generalizing b with
  | nil => simp only [nil_append, AnyOf, exists_eq_left, Bool.false_or, exists_eq_right']
  | cons part parts ih =>
    constructor
    · rintro ⟨one, others, hOne, hOthers, rfl⟩
      obtain ⟨b1, h1, b2, h2, rfl⟩ := ih.1 hOthers
      exact ⟨one || b1, ⟨one, b1, hOne, h1, rfl⟩, b2, h2, by rw [Bool.or_assoc]⟩
    · rintro ⟨_, ⟨one, b1, hOne, h1, rfl⟩, b2, h2, rfl⟩
      exact ⟨one, b1 || b2, hOne, ih.2 ⟨b1, h1, b2, h2, rfl⟩, by rw [Bool.or_assoc]⟩

theorem anyOf_singleton {id : NodeId} : AnyOf holds [(required, id)] b ↔ holds required id b := by
  simp [AnyOf]

end AnyOf

theorem restrictReferenced_eq (restrict : RestrictionCheck) (id : NodeId) (r : Reference) (required : Restriction) :
    restrictReferenced restrict id r required = read >>= fun env =>
      match env.definitions.target? r with
      | none => throw (.undefinedReference r.text)
      | some definition =>
        if definition.kind.template?.isSome then
          lastTemplate id >>= fun last => if last = id then return false else restrict last required
        else if definition.kind.declares then do
          onlyIf (env.inadequate definition r required) do
            warnAt id (.inadequateRestriction definition.kind.word r.text)
            note definition.span (.definitionIsHere definition.kind.word)
          return definition.kind.isExternalFunction || env.inadequate definition r required
        else return false := by
  refine congrArg (read >>= ·) (funext fun env => ?_)
  cases env.definitions.target? r with
  | none => rfl
  | some definition =>
    unfold Env.inadequate
    cases hKind : definition.kind <;> simp only [hKind] <;> rfl

namespace Reading

def FollowsAll (m : Reading) (quiet : Bool) : Prop :=
  ∀ s id, m.Matches s → Returns quiet m.env s (lastTemplate id) fun last s' => m.EndsAt id last ∧ m.Matches s'

/-- In a store that matches the reading, the computation ends with each of the results that `D` tells of, and with
no other. -/
structure Determines (m : Reading) (quiet : Bool) {α : Type} (x : CheckM α) (D : α → Prop) : Prop where
  attains : ∀ {s : Store} {a : α}, m.Matches s → D a → Attains quiet m.env s x fun a' s' => a' = a ∧ m.Matches s'
  returns : ∀ {s : Store}, m.Matches s → Returns quiet m.env s x fun a s' => D a ∧ m.Matches s'

variable {m : Reading} {quiet : Bool} {id : NodeId} {t t' : Template} {duty : Duty}

theorem followsAll_quiet : m.FollowsAll true := fun _ _ hs => .of_clean (clean_lastTemplate hs)

theorem Followed.demands (h : m.Followed id t t') : m.Demands id t' required duty ↔ m.Demands id t required duty := by
  cases h with
  | same => rfl
  | known _ hForm => simp only [Demands, DemandsPresent, DemandsValues, hForm]

namespace Determines

variable {α β : Type} {x : CheckM α} {f : α → CheckM β} {D D' : α → Prop} {E : α → β → Prop} {P : β → Prop} {c : Bool}

theorem congr (h : m.Determines quiet x D) (hD : ∀ a, D' a ↔ D a) : m.Determines quiet x D' := by
  rwa [show D' = D from funext fun a => propext (hD a)]

theorem pure (a : α) : m.Determines quiet (pure a) (· = a) where
  attains hs h := .pure ⟨h.symm, hs⟩
  returns hs := .pure ⟨rfl, hs⟩

theorem throw (fault : Fault) : m.Determines quiet (throw fault : CheckM α) fun _ => False where
  attains _ h := h.elim
  returns _ := .throw fault

theorem bind (hx : m.Determines quiet x D) (hf : ∀ a, D a → m.Determines quiet (f a) (E a)) :
    m.Determines quiet (x >>= f) fun b => ∃ a, D a ∧ E a b where
  attains := by
    rintro s b hs ⟨a, ha, hb⟩
    apply (hx.attains hs ha).bind
    rintro _ s' ⟨rfl, hs'⟩
    exact (hf _ ha).attains hs' hb
  returns hs := by
    apply (hx.returns hs).bind
    rintro a s' ⟨ha, hs'⟩
    exact ((hf a ha).returns hs').mono fun b s'' h => ⟨⟨a, ha, h.1⟩, h.2⟩

theorem read_then {f : Env → CheckM β} (h : m.Determines quiet (f m.env) P) : m.Determines quiet (read >>= f) P where
  attains hs hb := .read_then (h.attains hs hb)
  returns hs := .read_then (h.returns hs)

theorem store_then {f : Store → CheckM β} (h : ∀ s : Store, m.walk = s.size + 1 → m.Determines quiet (f s) P) :
    m.Determines quiet (currentStore >>= f) P where
  attains hs hb := .store_then ((h _ hs.walk_eq).attains hs hb)
  returns hs := .store_then ((h _ hs.walk_eq).returns hs)

theorem node_then {f : Template → CheckM β} {E : Template → β → Prop}
    (h : ∀ t t', m.view id = some t → m.Followed id t t' → m.Determines quiet (f t') (E t)) :
    m.Determines quiet (node id >>= f) fun b => ∃ t, m.view id = some t ∧ E t b where
  attains := by
    rintro s b hs ⟨t, hView, hb⟩
    obtain ⟨t', hFound, hFollowed⟩ := hs.nodes id t hView
    exact .node_then hFound ((h t t' hView hFollowed).attains hs hb)
  returns := by
    intro s hs
    apply Concludes.node_then
    intro t' hFound
    obtain ⟨t, hView, hFollowed⟩ := hs.of_get? hFound
    exact ((h t t' hView hFollowed).returns hs).mono fun b s' h => ⟨⟨t, hView, h.1⟩, h.2⟩

theorem lastTemplate (hFollows : m.FollowsAll quiet) : m.Determines quiet (lastTemplate id) (m.EndsAt id) where
  attains hs hLast := (attains_lastTemplate hLast hs.toAgrees).of_quiet.mono fun _ _ h => ⟨h.1, hs.learns h.2⟩
  returns hs := hFollows _ id hs

theorem loud {x : CheckM Unit} (hx : ∀ s, m.Matches s → Attains false m.env s x fun _ s' => s' = s)
    (hLoud : ∀ s, Returns true m.env s x fun _ _ => False) : m.Determines quiet x fun _ => quiet = false where
  attains := by
    rintro s _ hs rfl
    exact (hx s hs).mono fun _ _ hSame => ⟨rfl, hSame ▸ hs⟩
  returns := by
    intro s hs
    cases quiet with
    | true => exact (hLoud s).mono fun _ _ h => h.elim
    | false =>
      constructor
      intro report a after hRun _
      obtain ⟨_, _, hRun', -, hSame⟩ := (hx s hs).run report
      cases hRun.symm.trans hRun'
      exact ⟨rfl, hSame ▸ hs⟩

theorem onlyIf {x : CheckM Unit} (h : m.Determines quiet x fun _ => quiet = false) :
    m.Determines quiet (onlyIf c x) fun _ => quiet → c = false := by
  cases c with
  | false => exact (pure ()).congr fun _ => by simp
  | true => exact h.congr fun _ => by simp

theorem forbid (use : RestrictedUse) (usage : Usage) : m.Determines quiet (use.forbid usage) fun _ => quiet = false :=
  loud (fun _ _ => .tell _ _) fun _ => .tell rfl

theorem note (hc : quiet → c = false) (span : Span) (n : Note) :
    m.Determines quiet (TemplateCheck.onlyIf c (note span n)) fun _ => True where
  attains hs _ := (Attains.onlyIf hc fun _ => .tell _ _).mono fun _ _ hSame => ⟨rfl, hSame ▸ hs⟩
  returns hs := .of_still (.onlyIf (.tell _ _)) fun _ => ⟨trivial, hs⟩

theorem mark (hView : m.view id = some t) (k : Mark) :
    m.Determines quiet (TemplateCheck.onlyIf c (mark id k)) fun _ => True := by
  have hMark : ∀ s, m.Matches s → Attains true m.env s (TemplateCheck.onlyIf c (TemplateCheck.mark id k))
      fun _ => m.Matches := by
    intro s hs
    cases c with
    | false => exact .pure hs
    | true => exact (attains_mark hs.toAgrees hView k).mono fun _ _ hLearns => hs.learns hLearns
  exact ⟨fun hs _ => (hMark _ hs).of_quiet.mono fun _ _ h => ⟨rfl, h⟩,
    fun hs => (Concludes.of_attains (hMark _ hs)).mono fun _ _ h => ⟨trivial, h⟩⟩

end Determines

def Meets (quiet : Bool) (holds : Restriction → NodeId → Bool → Prop) (demands : Duty → Prop) (b : Bool) : Prop :=
  ∃ duty others, demands duty ∧ (quiet → duty.objection = false) ∧ AnyOf holds duty.parts others ∧
    b = (duty.runtime || others)

theorem meets_eq {holds : Restriction → NodeId → Bool → Prop} {b : Bool} : Meets quiet holds (· = duty) b ↔
      (quiet → duty.objection = false) ∧ ∃ others, AnyOf holds duty.parts others ∧ b = (duty.runtime || others) := by
  simp [Meets]

variable {holds : Restriction → NodeId → Bool → Prop} {restrict : RestrictionCheck} {use : RestrictedUse}
  (hRestrict : ∀ id required, m.Determines quiet (restrict id required) (holds required id))

include hRestrict

theorem determines_checkAny {α : Type} (required : Restriction) (items : List α) (template : α → NodeId) :
    m.Determines quiet (checkAny (fun item => restrict (template item) required) items)
      (AnyOf holds (holdAll required (items.map template))) := by
  have hFold : ∀ found : Bool, m.Determines quiet (items.foldlM (fun found item => do
        let one ← restrict (template item) required
        return found || one) found)
      fun b => ∃ others, AnyOf holds (holdAll required (items.map template)) others ∧ b = (found || others) := by
    induction items with
    | nil => exact fun found => (Determines.pure found).congr fun b => by simp [AnyOf, holdAll]
    | cons item items ih =>
      intro found
      rw [foldlM_cons]
      have hItem := (hRestrict (template item) required).bind fun one _ => .pure (found || one)
      refine (hItem.bind fun b _ => ih b).congr ?_
      intro b
      constructor
      · rintro ⟨_, ⟨one, others, hOne, hOthers, rfl⟩, rfl⟩
        exact ⟨found || one, ⟨one, hOne, rfl⟩, others, hOthers, by rw [Bool.or_assoc]⟩
      · rintro ⟨_, ⟨one, hOne, rfl⟩, others, hOthers, rfl⟩
        exact ⟨one || others, ⟨one, others, hOne, hOthers, rfl⟩, by rw [Bool.or_assoc]⟩
  exact (hFold false).congr fun b => by simp

theorem determines_restrictInherited (seen : List String) (entries : List NamedEntry) :
    m.Determines quiet (restrictInherited restrict seen entries) fun result =>
      result.1 = (unseen seen entries).1 ∧ AnyOf holds (holdAll .valueOrOmit (unseen seen entries).2) result.2 := by
  induction entries generalizing seen with
  | nil => exact (Determines.pure _).congr fun result => by simp [unseen, AnyOf, holdAll, Prod.ext_iff]
  | cons entry entries ih =>
    rw [restrictInherited]
    unfold unseen
    split
    · exact ih seen
    · refine ((hRestrict _ _).bind fun one _ => (ih _).bind fun rest _ => .pure (rest.1, one || rest.2)).congr ?_
      rintro ⟨names, b⟩
      constructor
      · rintro ⟨rfl, one, others, hOne, hOthers, rfl⟩
        exact ⟨one, hOne, (_, others), ⟨rfl, hOthers⟩, rfl⟩
      · rintro ⟨one, hOne, rest, ⟨hNames, hOthers⟩, hEq⟩
        obtain ⟨rfl, rfl⟩ := Prod.ext_iff.1 hEq
        exact ⟨hNames, one, rest.2, hOne, hOthers, rfl⟩

variable (hFollows : m.FollowsAll quiet)

include hFollows

theorem determines_restrictBases (needed depth : Nat) (seen : List String) (id : NodeId) :
    m.Determines quiet (restrictBases restrict use needed depth seen id) fun b =>
      ∃ ids wildcard, m.Inherits needed depth seen id ids wildcard ∧ (quiet → wildcard = false) ∧
        AnyOf holds (holdAll .valueOrOmit ids) b := by
  induction depth generalizing seen id with
  | zero => exact (Determines.throw _).congr fun b => by simp [Inherits]
  | succ depth ih =>
    rw [restrictBases]
    split
    · rename_i hEnough
      exact (Determines.pure false).congr fun b => by simp [Inherits, hEnough, AnyOf, holdAll]
    · rename_i hMore
      refine ((Determines.lastTemplate hFollows).bind fun last _ => .node_then (E := fun t b => ∃ ids wildcard,
        Supplies (m.Inherits needed depth) seen t ids wildcard ∧ (quiet → wildcard = false) ∧
          AnyOf holds (holdAll .valueOrOmit ids) b) fun t t' hView hFollowed => ?_).congr ?_
      · have hNothing {P : Bool → Prop} (h : ∀ b, P b ↔ b = false) : m.Determines quiet (pure false) P :=
          (Determines.pure false).congr h
        have hWildcard (p : Problem) : m.Determines quiet (do problemAt last p; return false)
            fun b => quiet = false ∧ b = false := by
          refine (Determines.bind (.loud ?_ fun s => .problemAt last p) fun _ _ => .pure false).congr (by simp)
          intro s hs
          obtain ⟨_, hFound, -⟩ := hs.nodes last t hView
          exact .problemAt hFound p
        cases hFollowed with
        | known _ hForm => exact hNothing fun b => by simp [Supplies, hForm, AnyOf, holdAll]
        | same marks =>
          obtain ⟨form, governor, length, ifPresent, base, marks', span⟩ := t
          cases form with
          | named entries =>
            have hInherited := determines_restrictInherited hRestrict seen entries
            cases base with
            | none =>
              refine (hInherited.bind fun result _ => .pure result.2).congr fun b => ?_
              simp [Supplies]
            | some base =>
              refine (hInherited.bind fun result _ => (ih result.1 base).bind fun b _ => .pure (result.2 || b)).congr
                fun b => ?_
              simp only [Supplies, holdAll]
              constructor
              · rintro ⟨_, wildcard, ⟨others, hFurther, rfl⟩, hQuiet, hAny⟩
                rw [map_append] at hAny
                obtain ⟨b1, h1, b2, h2, rfl⟩ := anyOf_append.1 hAny
                exact ⟨(_, b1), ⟨rfl, h1⟩, b2, ⟨others, wildcard, hFurther, hQuiet, h2⟩, rfl⟩
              · rintro ⟨⟨_, b1⟩, ⟨rfl, h1⟩, b2, ⟨others, wildcard, hFurther, hQuiet, h2⟩, rfl⟩
                refine ⟨_, wildcard, ⟨others, hFurther, rfl⟩, hQuiet, ?_⟩
                rw [map_append]
                exact anyOf_append.2 ⟨b1, h1, b2, h2, rfl⟩
          | anyValue | anyOrOmit => exact (hWildcard _).congr fun b => by simp [Supplies, AnyOf, holdAll]
          | _ => exact hNothing fun b => by simp [Supplies, AnyOf, holdAll]
      · intro b
        simp only [Inherits, if_neg hMore]
        constructor
        · rintro ⟨ids, wildcard, ⟨last, t, hLast, hView, hSupplies⟩, hRest⟩
          exact ⟨last, hLast, t, hView, ids, wildcard, hSupplies, hRest⟩
        · rintro ⟨last, hLast, t, hView, ids, wildcard, hSupplies, hRest⟩
          exact ⟨ids, wildcard, ⟨last, t, hLast, hView, hSupplies⟩, hRest⟩

theorem determines_restrictNamed (t : Template) (entries : List NamedEntry) :
    m.Determines quiet (restrictNamed restrict use t entries) fun b =>
      ∃ ids wildcard, m.LeftToBases t entries ids wildcard ∧ (quiet → wildcard = false) ∧
        AnyOf holds (holdAll .valueOrOmit (entries.map (·.template) ++ ids)) b := by
  have hOwn := determines_checkAny hRestrict .valueOrOmit entries (·.template)
  have hNothing (h : ∀ ids wildcard, m.LeftToBases t entries ids wildcard ↔ ids = [] ∧ wildcard = false) :
      m.Determines quiet (checkAny (fun entry => restrict entry.template .valueOrOmit) entries >>= pure) fun b =>
        ∃ ids wildcard, m.LeftToBases t entries ids wildcard ∧ (quiet → wildcard = false) ∧
          AnyOf holds (holdAll .valueOrOmit (entries.map (·.template) ++ ids)) b :=
    (hOwn.bind fun own _ => .pure own).congr fun b => by simp [h]
  unfold restrictNamed
  obtain ⟨form, governor, length, ifPresent, base, marks, span⟩ := t
  cases base with
  | none => exact hNothing fun ids wildcard => by simp [LeftToBases]
  | some base =>
    cases governor with
    | none => exact hNothing fun ids wildcard => by simp [LeftToBases]
    | some governor =>
      refine (hOwn.bind fun own _ => .read_then (P := fun b => ∃ ids wildcard,
        m.LeftToBases ⟨form, some governor, length, ifPresent, some base, marks, span⟩ entries ids wildcard ∧
          (quiet → wildcard = false) ∧ ∃ b', AnyOf holds (holdAll .valueOrOmit ids) b' ∧ b = (own || b')) ?_).congr ?_
      · simp only [LeftToBases]
        split
        · exact (Determines.pure own).congr fun b => by simp [AnyOf, holdAll]
        · apply Determines.store_then
          intro s hWalk
          rw [← hWalk]
          refine ((determines_restrictBases hRestrict hFollows _ _ _ base).bind fun b _ => .pure (own || b)).congr ?_
          intro b
          constructor
          · rintro ⟨ids, wildcard, hLeft, hQuiet, b', hAny, rfl⟩
            exact ⟨b', ⟨ids, wildcard, hLeft, hQuiet, hAny⟩, rfl⟩
          · rintro ⟨b', ⟨ids, wildcard, hLeft, hQuiet, hAny⟩, rfl⟩
            exact ⟨ids, wildcard, hLeft, hQuiet, b', hAny, rfl⟩
      · intro b
        simp only [holdAll, map_append, anyOf_append]
        constructor
        · rintro ⟨ids, wildcard, hLeft, hQuiet, own, hOwn, hRest⟩
          exact ⟨own, hOwn, ids, wildcard, hLeft, hQuiet, hRest⟩
        · rintro ⟨own, hOwn, ids, wildcard, hLeft, hQuiet, hRest⟩
          exact ⟨ids, wildcard, hLeft, hQuiet, own, hOwn, hRest⟩

theorem determines_restrictReferenced (id : NodeId) (r : Reference) (required : Restriction)
    (hView : m.view id = some t) :
    m.Determines quiet (restrictReferenced restrict id r required) (Meets quiet holds (m.Refers id r required)) := by
  rw [restrictReferenced_eq]
  apply Determines.read_then
  unfold Refers
  cases hTarget : m.env.definitions.target? r with
  | none => exact (Determines.throw _).congr fun b => by simp [Meets]
  | some definition =>
    simp only [Option.some.injEq, exists_eq_left']
    split
    · refine ((Determines.lastTemplate hFollows).bind (E := fun last =>
        Meets quiet holds (· = if last = id then {} else { parts := [(required, last)] })) fun last _ => ?_).congr ?_
      · split
        · exact (Determines.pure false).congr fun b => by simp [meets_eq, AnyOf]
        · exact (hRestrict last required).congr fun b => by simp [meets_eq, anyOf_singleton]
      · intro b
        constructor
        · rintro ⟨duty, others, ⟨last, hLast, hDuty⟩, hRest⟩
          exact ⟨last, hLast, duty, others, hDuty, hRest⟩
        · rintro ⟨last, hLast, duty, others, hDuty, hRest⟩
          exact ⟨duty, others, ⟨last, hLast, hDuty⟩, hRest⟩
    split
    · refine (Determines.bind (.onlyIf (.loud ?_ ?_)) fun _ _ => .pure _).congr fun b => by simp [meets_eq, AnyOf]
      · intro s hs
        obtain ⟨_, hFound, -⟩ := hs.nodes id t hView
        apply (Attains.warnAt hFound _).bind
        rintro _ _ rfl
        exact .tell _ _
      · exact fun s => (Returns.warnAt _ _ (Q := fun _ _ => False)).bind fun _ _ h => h.elim
    · exact (Determines.pure false).congr fun b => by simp [meets_eq, AnyOf]

section Verdict

/-! What remains to be done with a verdict reports its violation. -/

variable {k : Verdict → CheckM Bool}
  (hk : ∀ verdict, m.Determines quiet (k verdict) fun b => (quiet → verdict.violation = none) ∧ b = verdict.runtime)

include hk

omit hRestrict hFollows in
theorem determines_verdict {x : CheckM Bool} {D : Bool → Prop} (hx : m.Determines quiet x D) :
    m.Determines quiet ((do return ({ runtime := ← x } : Verdict)) >>= k) D := by
  simp only [bind_assoc, pure_bind]
  exact (hx.bind fun b _ => hk { runtime := b }).congr fun b => by simp

omit hRestrict hFollows in
theorem determines_judgement {verdict : Verdict} (hParts : duty.parts = [])
    (hRuntime : duty.runtime = verdict.runtime) (hObjection : duty.objection = verdict.violation.isSome) :
    m.Determines quiet (pure verdict >>= k) (Meets quiet holds (· = duty)) := by
  rw [pure_bind]
  exact (hk verdict).congr fun b => by simp [meets_eq, hParts, hRuntime, hObjection, AnyOf]

omit hFollows in
theorem determines_verdict_any (required : Restriction) (ids : List NodeId) :
    m.Determines quiet ((do return ({ runtime := ← checkAny (restrict · required) ids } : Verdict)) >>= k)
      (Meets quiet holds (· = { parts := holdAll required ids })) :=
  determines_verdict hk ((determines_checkAny hRestrict required ids id).congr fun b => by simp [meets_eq])

theorem determines_restrictToValues (required : Restriction) (hView : m.view id = some t) (t' : Template) :
    m.Determines quiet (restrictToValues restrict use id t' required >>= k)
      (Meets quiet holds (m.DemandsValues id t' required)) := by
  have hOther (form : Form) : m.Determines quiet ((if form.variant = .omitted && required = .valueOrOmit then pure {}
        else pure { violation := some (.form form.variant) }) >>= k)
      (Meets quiet holds (· = { objection := !(form.variant = .omitted && required = .valueOrOmit) })) := by
    split
    · rename_i hAllowed
      exact determines_judgement hk rfl rfl (by simp [hAllowed])
    · rename_i hForbidden
      exact determines_judgement hk rfl rfl (by simp [hForbidden])
  unfold restrictToValues DemandsValues
  obtain ⟨form, _, _, _, base⟩ := t'
  cases form with
  | erroneous | specific | invoke => exact determines_judgement hk rfl rfl rfl
  | notUsed =>
    cases base with
    | some base =>
      exact determines_verdict hk ((hRestrict base required).congr fun b => by simp [meets_eq, anyOf_singleton])
    | none => exact determines_judgement hk rfl rfl rfl
  | referenced r known =>
    exact determines_verdict hk (determines_restrictReferenced hRestrict hFollows id r required hView)
  | list shape items =>
    cases shape with
    | positional => exact determines_verdict_any hRestrict hk _ items
    | _ => exact hOther _
  | named entries =>
    apply determines_verdict hk
    refine (determines_restrictNamed hRestrict hFollows _ entries).congr fun b => ?_
    constructor
    · rintro ⟨_, others, ⟨ids, wildcard, hLeft, rfl⟩, hQuiet, hAny, rfl⟩
      exact ⟨ids, wildcard, hLeft, hQuiet, hAny⟩
    · rintro ⟨ids, wildcard, hLeft, hQuiet, hAny⟩
      exact ⟨_, b, ⟨ids, wildcard, hLeft, rfl⟩, hQuiet, hAny, rfl⟩
  | indexed entries =>
    simp only [bind_assoc, pure_bind]
    refine ((determines_checkAny hRestrict .valueOrOmit entries (·.template)).bind fun _ _ => hk _).congr fun b => ?_
    simp [meets_eq]
  | concat left right => exact determines_verdict_any hRestrict hk required [left, right]
  | _ => exact hOther _

omit hRestrict hFollows hk in
theorem determines_excludesOmit (items : List NodeId) : m.Determines quiet (excludesOmit items) (m.Excludes items) := by
  unfold excludesOmit
  induction items with
  | nil => exact (Determines.pure false).congr fun b => by simp [Excludes]
  | cons item items ih =>
    have hItem : m.Determines quiet (do return (← formOf item).excludesOmit) fun b =>
        ∃ t, m.view item = some t ∧ b = t.form.excludesOmit := by
      simp only [formOf, bind_assoc, pure_bind]
      apply Determines.node_then
      intro t t' _ hFollowed
      rw [← t.form.excludesOmit_uncached, ← hFollowed.uncached.1, t'.form.excludesOmit_uncached]
      exact .pure _
    rw [anyM_cons]
    refine (hItem.bind (E := fun b b' => if b then b' = true else m.Excludes items b') fun b _ => ?_).congr fun b => ?_
    · cases b with
      | true => exact .pure true
      | false => exact ih
    · simp [Excludes]

theorem determines_restrictToPresent (hView : m.view id = some t) (t' : Template) :
    m.Determines quiet (restrictToPresent restrict id t' >>= k) (Meets quiet holds (m.DemandsPresent id t')) := by
  unfold restrictToPresent DemandsPresent
  obtain ⟨form, _, _, _, base⟩ := t'
  cases form with
  | referenced r known => exact determines_verdict hk (determines_restrictReferenced hRestrict hFollows id r _ hView)
  | list shape items =>
    cases shape with
    | valueList => exact determines_verdict_any hRestrict hk _ items
    | complemented =>
      simp only [bind_assoc]
      apply Determines.read_then
      cases m.env.settings.omitInValueLists with
      | false => exact determines_judgement hk rfl rfl rfl
      | true =>
        simp only [Bool.not_true, Bool.false_eq_true, if_false, if_true, bind_assoc]
        refine ((determines_excludesOmit items).bind (E := fun excludes =>
          Meets quiet holds (· = { runtime := true, objection := !excludes })) fun excludes _ => ?_).congr fun b => ?_
        · cases excludes with
          | true | false => exact determines_judgement hk rfl rfl rfl
        · constructor
          · rintro ⟨duty, others, ⟨excludes, hExcludes, hDuty⟩, hRest⟩
            exact ⟨excludes, hExcludes, duty, others, hDuty, hRest⟩
          · rintro ⟨excludes, hExcludes, duty, others, hDuty, hRest⟩
            exact ⟨duty, others, ⟨excludes, hExcludes, hDuty⟩, hRest⟩
    | _ => exact determines_judgement hk rfl rfl rfl
  | omitted | anyOrOmit => exact determines_judgement hk rfl rfl rfl
  | concat left right => exact determines_verdict_any hRestrict hk _ [left, right]
  | _ => exact determines_judgement hk rfl rfl rfl

end Verdict

theorem determines_restrictStep (id : NodeId) (required : Restriction) :
    m.Determines quiet (restrictStep restrict use id required) (Meets quiet holds (m.Owes required id)) := by
  unfold restrictStep Owes
  split
  · exact (Determines.pure false).congr fun b => by simp [meets_eq, AnyOf]
  · let measured (t : Template) : Bool := t.length.isSome && required ≠ .present
    refine (Determines.node_then (E := fun t b => (quiet → t.ifPresent = false) ∧ (quiet → measured t = false) ∧
      Meets quiet holds (m.Demands id t required) b) fun t t' hView hFollowed => ?_).congr fun b => ?_
    · have hIfPresent : t'.ifPresent = t.ifPresent := by cases hFollowed <;> rfl
      have hLength : t'.length = t.length := by cases hFollowed <;> rfl
      have hDemands : m.Demands id t required = m.Demands id t' required :=
        funext fun duty => propext hFollowed.demands.symm
      rw [hIfPresent, hLength, hDemands]
      have hVerdict (hNot : quiet → t.ifPresent = false) (hUnmeasured : quiet → measured t = false) :
          m.Determines quiet (do
            let verdict ← restrictForm restrict use id t' required
            verdict.violation.forM use.forbid
            onlyIf ((t.ifPresent || measured t || verdict.violation.isSome) && use.span ≠ t'.span)
              (note t'.span .templateIsHere)
            onlyIf verdict.runtime (mark id .needsRestrictionCheck)
            return verdict.runtime) (Meets quiet holds (m.Demands id t' required)) := by
        have hReport (verdict : Verdict) : m.Determines quiet (verdict.violation.forM use.forbid)
            fun _ => quiet → verdict.violation = none := by
          cases verdict.violation with
          | none => exact (Determines.pure ()).congr fun _ => by simp
          | some usage => exact (Determines.forbid use usage).congr fun _ => by simp
        have hNote (verdict : Verdict) (hNone : quiet → verdict.violation = none) (h : quiet) :
            ((t.ifPresent || measured t || verdict.violation.isSome) && use.span ≠ t'.span) = false := by
          simp [hNot h, hUnmeasured h, hNone h]
        have hRest (verdict : Verdict) : m.Determines quiet _
            fun b => (quiet → verdict.violation = none) ∧ b = verdict.runtime :=
          ((hReport verdict).bind fun _ hNone => .bind (.note (hNote verdict hNone) t'.span .templateIsHere) fun _ _ =>
            .bind (.mark (c := verdict.runtime) hView .needsRestrictionCheck) fun _ _ =>
              .pure verdict.runtime).congr (by simp)
        unfold restrictForm Demands
        split
        · exact determines_restrictToPresent hRestrict hFollows hRest hView t'
        · exact determines_restrictToValues hRestrict hFollows hRest required hView t'
      exact (Determines.bind (.onlyIf (.forbid use _)) fun _ hNot => .bind (.onlyIf (.forbid use _))
        fun _ hUnmeasured => hVerdict hNot hUnmeasured).congr fun b => by simp [measured]
    · simp only [Meets]
      constructor
      · rintro ⟨_, others, ⟨t, inner, hView, hDemands, rfl⟩, hQuiet, hAny, rfl⟩
        simp only [Bool.or_eq_false_iff] at hQuiet
        exact ⟨t, hView, fun h => (hQuiet h).1.1, fun h => (hQuiet h).1.2, inner, others, hDemands,
          fun h => (hQuiet h).2, hAny, rfl⟩
      · rintro ⟨t, hView, hNot, hUnmeasured, inner, others, hDemands, hQuiet, hAny, rfl⟩
        refine ⟨_, others, ⟨t, inner, hView, hDemands, rfl⟩, fun h => ?_, hAny, rfl⟩
        simpa [hNot h, hQuiet h, measured] using hUnmeasured h

omit hRestrict in
/-- A check ends with the results that fulfil the duties of the node, and with no others. -/
theorem determines_restrictWithin (use : RestrictedUse) (depth : Nat) (id : NodeId) (required : Restriction) :
    m.Determines quiet (restrictWithin use depth id required) (m.Fulfils quiet depth required id) := by
  induction depth generalizing id required with
  | zero => exact .throw _
  | succ depth ih => exact determines_restrictStep ih hFollows id required

end Reading

end TemplateCheck
