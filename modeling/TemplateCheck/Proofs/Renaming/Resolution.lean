import TemplateCheck.Proofs.Renaming

/-!
# Following references in renamed stores

The end of a reference chain, the part that a path leads to and the type of an inline template are found in
the same way in both stores. A chain is circular in one of them if it is in the other, since new names keep
nodes apart. Once the end of a chain has been looked for, the reference is not pending any more.
-/

namespace TemplateCheck

open List

variable {id body : NodeId} {chain : ReferenceChain}

section Chains

variable {ι : Type} {N : Naming ι} {i : ι}

def ReferenceChain.rename (ρ : NodeId → NodeId) (chain : ReferenceChain) : ReferenceChain :=
  { chain with entries := chain.entries.map fun e => (ρ e.1, e.2) }

def ReferenceChain.Inside (N : Naming ι) (chain : ReferenceChain) : Prop := ∀ e ∈ chain.entries, N.dom e.1

theorem ReferenceChain.Inside.start (N : Naming ι) (note : String) : ReferenceChain.Inside N ⟨note, [], []⟩ := nofun

variable (hChain : chain.Inside N) (hId : N.dom id)

include hChain hId

theorem ReferenceChain.add?_rename (name : String) :
    (chain.rename (N i)).add? (N i id) name = (chain.add? id name).map (·.rename (N i)) := by
  have hContains : (chain.rename (N i)).contains (N i id) = chain.contains id := by
    rw [contains, contains, rename, any_map, Bool.eq_iff_iff, any_eq_true, any_eq_true]
    apply exists_congr
    intro e
    apply and_congr_right
    intro he
    simp [Naming.eq_iff (hChain e he) hId]
  rw [add?, add?, hContains]
  split
  · rfl
  · simp [rename]

theorem ReferenceChain.inside_of_add? {name : String} {longer : ReferenceChain}
    (h : chain.add? id name = some longer) : longer.Inside N := by
  unfold add? at h
  split at h
  · cases h
  · cases h
    exact forall_mem_append.2 ⟨hChain, forall_mem_singleton.2 hId⟩

theorem ReferenceChain.cycleNames_rename : (chain.rename (N i)).cycleNames (N i id) = chain.cycleNames id := by
  have hIdx : ∀ entries : List (NodeId × String), (∀ e ∈ entries, N.dom e.1) →
      (entries.map fun e => (N i e.1, e.2)).findIdx? (·.1 = N i id) = entries.findIdx? (·.1 = id) := by
    intro entries hEntries
    induction entries with
    | nil => rfl
    | cons e entries ih =>
      rw [map_cons, findIdx?_cons, findIdx?_cons, ih fun e he => hEntries e (mem_cons_of_mem _ he)]
      simp only [Naming.eq_iff (hEntries e mem_cons_self) hId]
  simp only [cycleNames, rename, hIdx _ hChain, ← map_drop, map_map]
  rfl

end Chains

variable {env : Env} {ρ : Renaming env.definitions} {P : NodeId → Prop} {least : Nat} {depth : Bool → Nat}

theorem mirrors_recognizeReference (hId : ρ.dom id) :
    Agreed (Pairs env ρ P fun n => P n ∨ n = id) fun i => recognizeReference (ρ.naming i id) := by
  have hDone : Agreed (Pairs env ρ P fun n => P n ∨ n = id) fun _ => (pure () : CheckM Unit) :=
    (paired.done ()).loosen fun _ => .inl
  apply Pairs.formOf_then hId
  intro form hForm
  cases form with
  | specific value =>
    cases value with
    | ref r =>
      apply Pairs.read_then
      cases hTarget : env.definitions.target? r with
      | none => exact (mirrors_reject hId _).loosen fun _ => .inl
      | some definition =>
        dsimp only
        split
        · have hInside : (Form.referenced r none).Inside ρ := ⟨nofun, nofun, hForm.inside.mentions⟩
          apply mirrors_replaceForm hId (.referenced r none) hInside
          · rintro _ ⟨⟩
            exact ⟨.inr rfl, by simp [hTarget]⟩
          · exact fun _ _ => .inl
        · exact hDone
    | _ => exact hDone
  | _ => exact hDone

theorem mirrors_rememberLast {last : NodeId} (hId : ρ.dom id) (hLast : ρ.dom last) :
    Agreed (Pairs env ρ P fun n => P n ∧ n ≠ id) fun i => rememberLast (ρ.naming i id) (ρ.naming i last) := by
  apply Mirrors.agreed
  apply mirrors_modifyNode hId
  · intro t t' ht
    obtain ⟨hAlike, hInside, hDom, -⟩ := ht
    unfold Template.remember
    rw [hAlike.form]
    cases hOwn : t.form with
    | referenced r resolved =>
      rw [hOwn] at hInside
      refine ⟨{ hAlike with form := rfl }, ⟨nofun, ?_, hInside.mentions⟩, hDom, nofun⟩
      rintro _ ⟨⟩
      exact hLast
    | _ =>
      refine ⟨hAlike, hInside, hDom, fun r hr => ?_⟩
      rw [hOwn] at hr
      cases hr
  · exact fun n hNe hn => ⟨hn, hNe⟩

theorem mirrors_narrow {resolve : Bool → NodeId → CheckM NodeId}
    (hResolve : ∀ id, ρ.dom id → Paired env ρ P (fun i => resolve i (ρ.naming i id)) ρ.naming ρ.dom) (span : Span)
    (hDepth : ρ.naming.Depths least depth) (path : List PathStep) (hBody : ρ.dom body) (type : TypeKey) :
    Paired env ρ P (fun i => narrow (resolve i) span (depth i) path (ρ.naming i body) type) ρ.naming.part
      ρ.naming.Part :=
  paired.narrow hResolve (fun hStop => .throw hStop) span hDepth path hBody type

theorem mirrors_chainEnd {resolve : Bool → ReferenceChain → NodeId → CheckM NodeId}
    (hResolve : ∀ chain : ReferenceChain, chain.Inside ρ.naming → ∀ id, ρ.dom id →
      Paired env ρ P (fun i => resolve i (chain.rename (ρ.naming i)) (ρ.naming i id)) ρ.naming ρ.dom)
    (hChain : chain.Inside ρ.naming) (hId : ρ.dom id) (r : Reference) (hBody : ρ.dom body)
    (type : TypeKey) :
    Paired env ρ P (fun i => chainEnd (resolve i) (chain.rename (ρ.naming i)) (ρ.naming i id) r (ρ.naming i body) type)
      ρ.naming ρ.dom := by
  unfold chainEnd
  simp only [ReferenceChain.add?_rename hChain hId, ReferenceChain.cycleNames_rename hChain hId]
  cases hAdd : chain.add? id r.text with
  | none => exact paired.next (mirrors_reject hId _) fun _ => paired.give id rfl hId
  | some longer =>
    have hLonger := ReferenceChain.inside_of_add? hChain hId hAdd
    apply Pairs.sizes_then
    intro s least hDepth
    apply Pairs.bind (mirrors_narrow (hResolve longer hLonger) r.span hDepth r.path hBody type)
    intro part hPart
    cases part with
    | found part type => exact hResolve longer hLonger part (hPart part type rfl)
    | unknown => exact paired.give id rfl hId
    | invalid => exact paired.next (mirrors_markErroneous hId) fun _ => paired.give id rfl hId

/-- Whatever the chain leads to, its first reference is not pending afterwards. -/
theorem mirrors_lastWithin (hDepth : ρ.naming.Depths least depth) (hChain : chain.Inside ρ.naming) (hId : ρ.dom id) :
    Pairs env ρ P (fun n => P n ∧ n ≠ id)
      (fun i => lastWithin (depth i) (chain.rename (ρ.naming i)) (ρ.naming i id)) ρ.naming ρ.dom := by
  induction least generalizing depth chain id P with
  | zero =>
    apply Pairs.throw
    intro i hLead
    rw [(hDepth i).2 hLead]
    rfl
  | succ least ih =>
    obtain ⟨depth, hLess, rfl⟩ := hDepth.pred
    apply Pairs.pending_then hId
    intro form hForm
    have hSettled : (∀ r, form ≠ .referenced r none) → ∀ last, ρ.dom last →
        Pairs env ρ (fun n => P n ∧ (n = id → ∃ r, form = .referenced r none)) (fun n => P n ∧ n ≠ id)
          (fun i => pure (ρ.naming i last)) ρ.naming ρ.dom := by
      intro hNot last hLast
      apply (paired.give last rfl hLast).loosen
      rintro n ⟨hn, hPending⟩
      refine ⟨hn, fun hEq => ?_⟩
      obtain ⟨r, hr⟩ := hPending hEq
      exact hNot r hr
    cases form with
    | referenced r resolved =>
      cases resolved with
      | some last => exact hSettled (by simp) last (hForm.inside.resolved last rfl)
      | none =>
        obtain ⟨-, hTarget⟩ := hForm.followed r rfl
        have hWeaken : ∀ n, (P n ∧ (n = id → ∃ r', Form.referenced r none = .referenced r' none)) ∧ n ≠ id →
            P n ∧ n ≠ id := fun n hn => ⟨hn.1.1, hn.2⟩
        apply Pairs.read_then
        obtain ⟨definition, hDefinition⟩ := Option.isSome_iff_exists.1 hTarget
        simp only [hDefinition]
        have hOwn : Pairs env ρ (fun n => P n ∧ (n = id → ∃ r', Form.referenced r none = .referenced r' none))
            (fun n => P n ∧ n ≠ id) (fun i => do rememberLast (ρ.naming i id) (ρ.naming i id); return ρ.naming i id)
            ρ.naming ρ.dom :=
          ((mirrors_rememberLast hId hId).bind fun _ _ => paired.give id rfl hId).loosen hWeaken
        cases hTemplate : definition.kind.template? with
        | none => exact hOwn
        | some template =>
          cases definition.type with
          | none => exact hOwn
          | some type =>
            cases r.args with
            | some args => exact hOwn
            | none =>
              obtain ⟨hBody, hFixed⟩ :=
                (hForm.inside.mentions r mem_cons_self).naming env definition template rfl hDefinition hTemplate
              have hEnd := mirrors_chainEnd (P := fun n => P n ∧
                  (n = id → ∃ r', Form.referenced r none = .referenced r' none))
                (fun chain hChain id hId => (ih hLess hChain hId).loosen fun _ hn => hn.1) hChain hId r hBody type
              simp only [hFixed] at hEnd
              apply Pairs.bind hEnd
              intro last hLast
              apply Pairs.bind (mirrors_rememberLast hId hLast)
              intro _ _
              apply Pairs.bind (mirrors_mark hId .recursionsChecked)
              exact fun _ _ => (paired.give last rfl hLast).loosen hWeaken
    | _ => exact hSettled (by simp) id hId

theorem mirrors_lastTemplate_settled (hId : ρ.dom id) :
    Pairs env ρ P (fun n => P n ∧ n ≠ id) (fun i => lastTemplate (ρ.naming i id)) ρ.naming ρ.dom := by
  apply Pairs.sizes_then
  intro s least hDepth
  have hLast := mirrors_lastWithin (P := P) hDepth (.start _ "While searching for referenced template") hId
  exact hLast

theorem mirrors_lastTemplate (hId : ρ.dom id) : Paired env ρ P (fun i => lastTemplate (ρ.naming i id)) ρ.naming ρ.dom :=
  (mirrors_lastTemplate_settled hId).loosen fun _ hn => hn.1

theorem mirrors_basePart (r : Reference) {template : TemplateDef} (type : TypeKey) (hDom : ρ.dom template.body)
    (hFixed : ∀ i, ρ.naming i template.body = template.body) :
    Paired env ρ P (fun _ => basePart r template type) (fun i => Option.map (ρ.naming i))
      fun part => ∀ base, part = some base → ρ.dom base := by
  apply Pairs.sizes_then
  intro s least hDepth
  have hNarrow := mirrors_narrow (fun id hId =>
    (mirrors_lastWithin (P := P) hDepth (.start _ "While searching for the base template") hId).loosen
      fun _ hn => hn.1) r.span hDepth r.path hDom type
  simp only [hFixed] at hNarrow
  apply Pairs.bind hNarrow
  intro part hPart
  cases part with
  | found base type =>
    refine paired.give (some base) rfl ?_
    rintro _ ⟨⟩
    exact hPart base type rfl
  | unknown | invalid => exact paired.give none rfl nofun

theorem mirrors_linkBase {base : NodeId} (hId : ρ.dom id) (hBase : ρ.dom base) :
    Agreed (Paired env ρ P) fun i => linkBase (ρ.naming i id) (ρ.naming i base) := by
  apply Mirrors.agreed
  apply mirrors_modifyNode hId
  · intro t t' ht
    refine ⟨{ ht.alike with base := rfl }, ht.inside, ?_, ht.followed⟩
    rintro _ ⟨⟩
    exact hBase
  · exact fun _ _ hn => hn

end TemplateCheck
