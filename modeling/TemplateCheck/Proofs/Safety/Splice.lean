import TemplateCheck.Proofs.Safety.Resolution

/-!
# Splicing safely

The items of an expanded list are those it had and new nodes, so its children do not lead back to it.
Each level of the descent either marks a list as folded or enters a further definition. A descent
that goes too deep has therefore spent as many marks and definitions as it had levels.
-/

namespace TemplateCheck

open List Store

variable {n l total : Nat} {K : NodeId → Prop} {F : Allowance} {env : Env} {s : Store} {id slot : NodeId} {t : Template}
  {expand : Expand} {inPermutation : Bool} {active : List DefId} {walk : TargetWalk} {items : List NodeId}
  {walks : Prop}

structure Active (env : Env) (active : List DefId) : Prop where
  nodup : active.Nodup
  exist : ∀ d ∈ active, (env.definitions.get? d).isSome ∨ env.current = some d

def SlotContent.New (before after : Store) : SlotContent → Prop
  | .elements items _ => ∀ item ∈ items, ¬ before.Has item ∧ after.Has item
  | _ => True

def Expands (items : List NodeId) (before after : Store) (expanded : List NodeId) : Prop :=
  ∀ item ∈ expanded, (item ∈ items ∨ ¬ before.Has item) ∧ after.Has item

def ExpandsSafely (n l : Nat) (F : Allowance) (env : Env) (expand : Expand) : Prop :=
  ∀ K s inPermutation active items, Ready n K (F.backing env) items s → Active env active →
    l ≤ active.length → Checks K F env s (expand inPermutation active items) fun result s' =>
      Expands items s s' result.1

theorem quiet_listTarget (type : TypeKey) (span : Span) (what : String) (s' : Store) :
    Quiet env s (listTarget type span what) fun content => content.New s s' := by
  unfold listTarget
  refine quiet_read.bind fun _ _ => ?_
  split
  · split
    · exact .pure trivial
    · exact (quiet_problem span _).bind fun _ _ => .pure trivial
  · exact .pure trivial

theorem quiet_splicePath (h : s.Backed (F.backing env)) (span : Span) (type : TypeKey) (path : List PathStep) :
    Quiet env s (splicePath span type path) fun _ => True :=
  (h.quietly.splicePath span type path).quiet

theorem checks_walkTarget (span : Span) (path : List PathStep) (h : s.Backed (F.backing env)) (hHas : s.Has walk.node) :
    Checks K F env s (walkTarget span path walk) fun walk' s' => ∀ w, walk' = some w → s'.Has w.node := by
  have hWalk := ((steady_endures (F.backing env)).reports (F := F) s.size).walkTarget
    (fun hId => follows_lastTemplate.secure _ hId) span path walk hHas
  refine ((hWalk s h rfl).reaches (steps_walkTarget span path walk)).mono ?_
  rintro _ s' hReaches ⟨⟨found, hFound, rfl⟩, -⟩ w hw
  exact hReaches.has (hFound w (by simpa using hw))

theorem quiet_spliceNamed {entries : List NamedEntry} (hSlot : s.Has slot)
    (h : ∀ entry ∈ entries, s.Has entry.template) :
    Quiet env s (spliceNamed slot entries) fun content => content.New s s := by
  induction entries with
  | nil => exact .pure trivial
  | cons entry entries ih =>
    unfold spliceNamed
    refine (quiet_formOf (h entry (by simp))).bind fun form _ => ?_
    split
    · exact (quiet_problemAt hSlot _).bind fun _ _ => .pure trivial
    · exact ih fun other hOther => h other (by simp [hOther])

theorem SlotContent.New.of_grows {before middle after : Store} {content : SlotContent}
    (h : content.New middle after) (hGrows : before.Grows middle) : content.New before after := by
  cases content with
  | elements items complete => exact fun item hItem => ⟨hGrows.not_has (h item hItem).1, (h item hItem).2⟩
  | runtime | invalid => trivial

theorem checks_invalid {s0 : Store} (h : s.Has id) (p : Problem) :
    Checks K F env s (problemAt id p >>= fun _ => pure SlotContent.invalid) fun content => content.New s0 :=
  (quiet_problemAt h p).bind_pure fun _ => trivial

theorem quiet_spliceAtRuntime (h : s.Backed (F.backing env)) (definition : Definition) (r : Reference) (s' : Store) :
    Quiet env s (spliceAtRuntime definition r) fun content => content.New s s' := by
  unfold spliceAtRuntime
  split
  · refine (quiet_splicePath h r.span _ r.path).bind fun type _ => ?_
    split
    · exact quiet_listTarget _ r.span _ s'
    · exact .pure trivial
  · exact .pure trivial

namespace Active

theorem push (h : Active env active) {d : DefId} (hNew : d ∉ active)
    (hExists : (env.definitions.get? d).isSome) : Active env (active ++ [d]) where
  nodup := nodup_append.2 ⟨h.nodup, by simp, by
    intro a ha b hb
    obtain rfl := mem_singleton.1 hb
    rintro rfl
    exact hNew ha⟩
  exist other hOther := by
    obtain hOther | hOther := mem_append.1 hOther
    · exact h.exist other hOther
    · obtain rfl := mem_singleton.1 hOther
      exact .inl hExists

theorem current (env : Env) : Active env env.current.toList := by
  cases hCurrent : env.current with
  | none => exact ⟨by simp, by simp⟩
  | some d => exact ⟨by simp, by simp [hCurrent]⟩

theorem length_le (h : Active env active) : active.length ≤ env.definitions.size + 1 := by
  have hSub : active ⊆ (List.range env.definitions.size).map DefId.mk ++ env.current.toList := by
    intro d hd
    simp only [mem_append, mem_map, mem_range, Option.mem_toList]
    refine (h.exist d hd).imp (fun hExists => ⟨d.index, ?_, rfl⟩) fun hCurrent => hCurrent
    simpa [Definitions.get?, Definitions.size] using hExists
  have hLength := (h.nodup.subperm hSub).length_le
  have hCurrent : env.current.toList.length ≤ 1 := by cases env.current <;> simp
  simp only [length_append, length_map, length_range] at hLength
  omega

end Active

section

variable (h : Ready n K (F.backing env) [slot] s)

include h

theorem checks_rejectSlot (p : Problem) : Checks K F env s (rejectSlot slot p) fun content => content.New s :=
  (h.reject (by simp) p).bind_pure fun _ _ => trivial

theorem checks_spliceFromConstant (hWalks : F.walks) (definition : Definition) (r : Reference) :
    Checks K F env s (spliceFromConstant slot definition r) fun content => content.New s := by
  unfold spliceFromConstant
  split
  · refine (quiet_splicePath h.backed r.span _ r.path).bind_runs fun type _ => ?_
    split
    · rename_i type
      refine (quiet_listTarget type r.span "constant" s).bind_runs fun target _ => ?_
      split
      · exact .pure trivial
      split
      · exact .pure trivial
      apply Runs.read_then
      split
      · refine (quiet_node h.head).bind_runs fun t _ => ?_
        refine (Runs.mapM (P := fun new s' => ¬ s.Has new ∧ s'.Has new) ?_ ?_).bind ?_
        · exact fun new s' s'' hReaches hNew => ⟨hNew.1, hReaches.has hNew.2⟩
        · intro value _ s' hReaches
          refine (checks_alloc (hReaches.backed h.backed) rfl rfl (.inl hWalks)).mono fun new s'' _ hNew => ?_
          exact ⟨hReaches.grows.not_has hNew.1, hNew.2⟩
        · exact fun items s' _ hNew => .pure hNew
      case h_2 | h_3 => exact .pure trivial
      · exact (quiet_problem r.span _).bind_pure fun _ => trivial
    · exact .pure trivial
  · exact .pure trivial

variable (hActive : Active env active) (hLength : l ≤ active.length)

include hActive hLength

theorem checks_spliceElements (hExpand : ExpandsSafely n l F env expand)
    (hItems : ∀ item ∈ items, s.Has item) : Checks K F env s (spliceElements expand inPermutation active slot items)
      fun content => content.New s := by
  unfold spliceElements
  have hObstacle : Quiet env s (elementsObstacle inPermutation items) fun _ => True := by
    simpa using (h.backed.quietly.elementsObstacle inPermutation hItems).quiet
  refine hObstacle.bind_runs fun obstacle _ => ?_
  split
  · exact checks_invalid h.head _
  · exact .pure trivial
  · have hCopies : Checks K F env s (items.mapM fun item => onStore (deepCopy item))
        fun copies s' => ∀ copy ∈ copies, ¬ s.Has copy ∧ s'.Has copy := by
      refine Runs.mapM (fun copy s' s'' hReaches hCopy => ⟨hCopy.1, hReaches.has hCopy.2⟩) ?_
      intro item hItem s' hReaches
      have hCopy := deepCopy_runs (hReaches.backed h.backed) (hReaches.has (hItems item hItem))
      refine (runs_onStore hCopy).mono fun copy s'' _ hNew => ?_
      exact ⟨hReaches.grows.not_has hNew.2.1, hNew.2.2⟩
    refine hCopies.bind fun copies s1 hReaches hNew => ?_
    refine (hExpand K s1 inPermutation active copies (h.added hReaches hNew) hActive hLength).bind ?_
    intro result s2 hReaches2 hResult
    refine .pure fun item hItem => ⟨?_, (hResult item hItem).2⟩
    obtain hCopy | hFresh := (hResult item hItem).1
    · exact (hNew item hCopy).1
    · exact hReaches.grows.not_has hFresh

theorem checks_spliceFromTemplate (hExpand : ExpandsSafely n l F env expand)
    (definition : Definition) {body : NodeId} (r : Reference)
    (hBody : s.Has body) : Checks K F env s (spliceFromTemplate expand inPermutation active slot definition body r)
      fun content => content.New s := by
  unfold spliceFromTemplate
  split
  · rename_i type _
    have hStart : s.Has (TargetWalk.mk body type !r.isParameterized).node := hBody
    refine h.bind (checks_walkTarget r.span r.path h.backed hStart) fun walk s1 hReaches1 h1 hWalk => ?_
    split
    · rename_i walk
      split
      · exact (quiet_listTarget walk.type r.span "template" s1).runs fun content hNew =>
          hNew.of_grows hReaches1.grows
      refine h1.bind (checks_lastTemplate h1.backed (hWalk walk rfl)) fun last s2 hReaches2 h2 hLast => ?_
      have hGrows : s.Grows s2 := Course.trans hReaches1.grows hReaches2.grows
      refine (quiet_formOf hLast).bind_runs ?_
      rintro _ ⟨t, hFound, rfl⟩
      have hItems : ∀ shape items, t.form = .list shape items → ∀ item ∈ items, s2.Has item :=
        fun shape items hForm item hMem => h2.backed.has_child hFound (by rw [hForm]; exact hMem)
      split
      case h_1 | h_2 => exact .pure trivial
      case h_3 | h_4 =>
        rename_i hForm
        exact (checks_spliceElements h2 hActive hLength hExpand (hItems _ _ hForm)).mono
          fun content _ _ hNew => hNew.of_grows hGrows
      · rename_i entries hForm
        have hEntries : ∀ entry ∈ entries, s2.Has entry.template := fun entry hEntry =>
          h2.backed.has_child hFound (by rw [hForm]; exact mem_map_of_mem hEntry)
        exact (quiet_spliceNamed h2.head hEntries).runs fun content hNew =>
          hNew.of_grows hGrows
      case h_6 | h_7 => exact checks_invalid hLast _
      · exact .pure trivial
      · exact quiet_read.bind_runs fun _ _ => checks_invalid hLast _
    · exact .pure trivial
  · exact .pure trivial

variable (hWalks : F.walks) (hExpand : ExpandsSafely n (l + 1) F env expand)

include hWalks hExpand

theorem checks_spliceDefinition {definition : Definition} (r : Reference) {target : DefId}
    (hNew : target ∉ active) (hTarget : env.definitions.get? target = some definition) :
    Checks K F env s (spliceDefinition expand inPermutation active slot target definition r)
      fun content => content.New s := by
  unfold spliceDefinition
  split
  · rename_i template hKind
    have hBody : s.Has template.body := h.backed.bodies hWalks definition (mem_of_getElem? hTarget)
      template (by simp [hKind, DefKind.template?])
    exact checks_spliceFromTemplate h (hActive.push hNew (by simp [hTarget])) (by simpa using hLength) hExpand
      definition r hBody
  · exact checks_spliceFromConstant h hWalks definition r
  case h_3 | h_4 => exact checks_invalid h.head _
  · exact (quiet_spliceAtRuntime h.backed definition r s).runs fun _ hContent => hContent

theorem checks_spliceReference (r : Reference) :
    Checks K F env s (spliceReference expand inPermutation active slot r) fun content => content.New s := by
  unfold spliceReference
  apply Runs.read_then
  dsimp only
  split
  · rename_i target definition hName hTarget
    have hGet : env.definitions.get? target = some definition := by
      simpa [Definitions.target?, hName] using hTarget
    split
    · exact checks_rejectSlot h _
    · rename_i hNew
      refine h.bind (checks_spliceDefinition h hActive hLength hWalks hExpand r hNew hGet) ?_
      intro content s1 hReaches1 h1 hContent
      split
      · refine (quiet_isErroneous h1.head).bind_runs fun erroneous _ => ?_
        exact (Runs.onlyIf fun _ => h1.markErroneous (by simp)).bind_pure fun _ _ => trivial
      · exact .pure hContent
  · exact checks_rejectSlot h _

theorem checks_spliceSlot {target : NodeId} (hTarget : s.Has target) :
    Checks K F env s (spliceSlot expand inPermutation active slot target) fun content => content.New s := by
  unfold spliceSlot
  refine (quiet_formOf hTarget).bind_runs fun form _ => ?_
  split
  case h_1 | h_2 => exact checks_spliceReference h hActive hLength hWalks hExpand _
  · exact (h.markErroneous (by simp)).bind_pure fun _ _ => trivial
  · exact checks_rejectSlot h _

end

/-- Marking the list spends a mark. The list is not below its items and stays as it was read. -/
theorem checks_expandNode (hExpand : ExpandsSafely (n + 1) l F env expand)
    (h : Ready n K (F.backing env) [id] s) (hActive : Active env active) (hLength : l ≤ active.length) :
    Safe K F env s (expandNode expand inPermutation active id) := by
  have hK : ¬ K id := h.not_kept (by simp)
  unfold expandNode
  refine (quiet_node h.head).bind_runs fun t hFound => ?_
  split
  · exact .pure trivial
  rename_i hFolded
  split
  · rename_i shape items hForm
    have hMark : s.Reaches (F.backing env) K (s.update id (·.mark .folded)) :=
      reaches_update_same_form hFound hK (t.evolves_mark .folded) rfl (.inl rfl)
    refine (runs_modifyNode hFound hMark).bind ?_
    rintro _ _ - rfl
    have hFound1 : (s.update id (·.mark .folded)).get? id = some (t.mark .folded) := by simp [hFound]
    have hSpent := hMark.evolves.spent_lt (.inr rfl) hFound hFound1 hFolded (by simp [Template.mark])
    have h1 : Ready (n + 1) K (F.backing env) [id] (s.update id (·.mark .folded)) :=
      { h.step hMark with spent := Nat.lt_of_le_of_lt h.spent hSpent }
    have hItems := h1.guarded (by simp) hFound1
    have hForm1 : (t.mark .folded).form.children = items := by simp [Template.mark, hForm, Form.children]
    rw [hForm1] at hItems
    have hRun := (hExpand _ _ inPermutation active items hItems hActive hLength).with_relation
    refine (hRun.weaken fun _ hReaches => hReaches.narrow fun k hk => .inl hk).bind_from ?_
    rintro ⟨expanded, flattened⟩ s2 hReaches ⟨hKept, hExpanded⟩
    have hFound2 := hKept.kept id _ (.inr rfl) hFound1 (by simp [Template.mark, hForm, Form.reference?])
    have hMay : (t.mark .folded).form.mayBecome (.list shape expanded) := by
      simp [Template.mark, hForm, Form.mayBecome, Form.variant]
    have hReplace := hReaches.update_form h1.head hFound2 hK hMay
      (fun item hItem => hForm1 ▸ (hExpanded item hItem).1.imp_right (⟨·, (hExpanded item hItem).2⟩))
      rfl (by simp [Form.reference?]) (.inr rfl)
    refine (runs_replaceForm hFound2 hMay hReplace).bind_from ?_
    rintro _ _ - rfl
    set s3 := s2.update id fun t => { t with form := .list shape expanded }
    have hFound3 : s3.get? id = some { t.mark .folded with form := .list shape expanded } := by
      simp [s3, hFound2]
    have hSettle : s3.Reaches (F.backing env) K (s3.update id (·.settle flattened)) :=
      reaches_update_same_form hFound3 hK (Template.evolves_settle _ flattened) rfl (.inl rfl)
    have hDone := Course.trans hReplace hSettle
    refine (runs_modifyNode hFound3 hDone).bind_from ?_
    rintro _ _ - rfl
    exact .done hDone trivial
  · exact .pure trivial

theorem checks_expandItem (hNode : ExpandsSafely (n + 1) l F env expand)
    (hSplice : ExpandsSafely n (l + 1) F env expand) {origin : Store}
    {done : List NodeId × Bool} {item : NodeId} (h : Ready n K (F.backing env) items s)
    (hOrigin : origin.Grows s) (hActive : Active env active) (hLength : l ≤ active.length)
    (hItem : item ∈ items) (hDone : Expands items origin s done.1) :
    Checks K F env s (expandItem expand inPermutation active done item) fun done' s' =>
      Expands items origin s' done'.1 := by
  have hOnly := h.only hItem
  have hKeep : ∀ s', s.Reaches (F.backing env) K s' → Expands items origin s' (done.1 ++ [item]) := by
    intro s' hReaches other hOther
    obtain hOther | hOther := mem_append.1 hOther
    · exact ⟨(hDone other hOther).1, hReaches.has (hDone other hOther).2⟩
    · obtain rfl := mem_singleton.1 hOther
      exact ⟨.inl hItem, hReaches.has (h.has other hItem)⟩
  unfold expandItem
  refine (quiet_formOf (h.has item hItem)).bind_runs ?_
  rintro _ ⟨t, hFound, rfl⟩
  split
  · rename_i target hForm
    have hTarget : s.Has target := h.backed.has_child hFound (by simp [hForm, Form.children])
    have hWalks := h.backed.refers hFound (by simp [Template.isPlain, hForm, Form.isPlain])
    refine hOnly.bind (checks_spliceSlot hOnly hActive hLength hWalks hSplice hTarget) ?_
    intro content s1 hReaches h1 hContent
    split
    · refine .pure fun other hOther => ?_
      obtain hOther | hOther := mem_append.1 hOther
      · exact ⟨(hDone other hOther).1, hReaches.has (hDone other hOther).2⟩
      · exact ⟨.inr (hOrigin.not_has (hContent other hOther).1), (hContent other hOther).2⟩
    · refine (h1.mark (by simp) .needsExpansion).bind fun _ s2 hReaches2 _ => ?_
      exact .pure (hKeep s2 (Course.trans hReaches hReaches2))
    · exact .pure (hKeep s1 hReaches)
  case h_2 | h_3 | h_4 =>
    exact (checks_expandNode hNode hOnly hActive hLength).bind fun _ s1 hReaches _ => .pure (hKeep s1 hReaches)
  · exact .pure (hKeep s (Course.refl s))

def Exhausted (depth : Nat) (env : Env) (s : Store) : Prop := depth ≤ s.spent + env.definitions.size + 1

theorem expandsSafely_expandWithin (depth : Nat) (hTotal : total ≤ depth + n + l) :
    ExpandsSafely n l ⟨walks, Exhausted total env⟩ env (expandWithin depth) := by
  induction depth generalizing n l with
  | zero =>
    intro K s inPermutation active items h hActive hLength
    refine .tooDeep ?_
    have hSpent := h.spent
    have hActive := hActive.length_le
    unfold Exhausted
    omega
  | succ depth ih =>
    intro K s inPermutation active items h hActive hLength
    unfold expandWithin
    refine Runs.foldlM (J := fun (done : List NodeId × Bool) s' => Expands items s s' done.1) ?_ ?_
    · simp [Expands]
    intro item hItem done s' hReaches hDone
    exact checks_expandItem (ih (by omega)) (ih (by omega)) (h.step hReaches) hReaches.grows hActive hLength hItem hDone

theorem checks_flattenWithin {depth : Nat} (hTotal : total ≤ depth + n + 1)
    (h : Ready n K ⟨env.definitions, walks⟩ [id] s) :
    Safe K ⟨walks, Exhausted total env⟩ env s (flattenWithin depth id) := by
  apply Runs.read_then
  exact checks_expandNode (expandsSafely_expandWithin (l := 0) depth (by omega)) h (.current env) (Nat.zero_le _)

end TemplateCheck
