import TemplateCheck.Proofs.Remarks
import TemplateCheck.Proofs.Walk

/-!
# Steps of a check that concern one node

Apart from its children, a check reports what it finds, follows references, and alters the node that it is about: the
node is given marks, a base or a form without children. These steps are gone through once, for the properties of
families that hold of a sequence if they hold of its parts.
-/

namespace TemplateCheck

variable {ι : Type} {id : NodeId} {T : NodeId → Prop}

/-- A property of what looks at nodes and makes ordinary remarks about them. -/
structure Naming.Mentions {ι : Type} (N : Naming ι) (P : ViewedProperty ι) : Prop extends N.Looks P where
  mention : ∀ span finding, finding.isOrdinary → Agreed P fun _ => tell span finding

variable {α : Type} {form : Form} {family : StringFamily} {first second : Operand}

namespace Naming.Mentions

variable {N : Naming ι} {P : ViewedProperty ι} (h : N.Mentions P) (hId : N.dom id)

include h

theorem remarks {x : NodeId → CheckM α} (hId : N.dom id) (hx : Remarks x) : Agreed P fun i => x (N i id) := by
  induction hx with
  | pure a => exact h.done a
  | read => exact h.read_then fun _ _ => h.done _
  | tell span hOrdinary => exact h.mention span _ hOrdinary
  | problemAt hOrdinary | warnAt hOrdinary =>
    apply h.node_then hId
    intro t shown ht
    simp only [ht.like.span]
    exact h.mention _ _ hOrdinary
  | bind _ _ ihx ihf => exact h.next ihx ihf

theorem countedElements? (hExtent : ∀ {items}, N.All items → Agreed P fun i => extent (items.map (N i)))
    (category : Category) (hForm : N.Holds form) :
    Agreed P fun i => countedElements? category (form.rename (N i)) := by
  cases form with
  | specific value => exact h.read_then fun _ _ => h.done _
  | list shape items =>
    have hCount : ∀ f : Extent → Option CountedElements, Agreed P fun i => do return f (← extent (items.map (N i))) :=
      fun f => h.finish (hExtent hForm.children)
    cases category with
    | recordOf element =>
      cases shape with
      | positional => exact hCount _
      | _ => exact h.done _
    | setOf element =>
      cases shape with
      | positional | superset | subset => exact hCount _
      | _ => exact h.done _
    | _ => cases shape <;> exact h.done _
  | binaryPattern family text => exact Looks.ite (h.done _) (h.done _)
  | charPattern family pattern =>
    dsimp only [TemplateCheck.countedElements?, Form.rename]
    split <;> exact h.done _
  | _ => exact h.done _

variable (hLast : P (fun i => lastTemplate (N i id)) N N.dom)

include hId hLast

theorem checkPlacement (site : Site) : Agreed P fun i => checkPlacement (N i id) site := by
  apply h.bind hLast
  intro last hEnd
  apply h.formOf_then hEnd
  intro form _
  cases form with
  | omitted | anyOrOmit => exact Looks.ite (h.remarks hId (.problemAt rfl)) (h.done _)
  | _ => exact h.done _

variable (hExtent : ∀ {items}, N.All items → Agreed P fun i => extent (items.map (N i)))

include hExtent

theorem compareWithBounds (bounds : LengthBounds) (category : Category) :
    Agreed P fun i => compareWithBounds (N i id) bounds category := by
  apply h.bind hLast
  intro last hEnd
  apply h.formOf_then hEnd
  intro form hForm
  cases form
  case omitted => exact h.remarks hId (.problemAt rfl)
  case' specific value => cases value
  case specific.omitted => exact h.remarks hId (.problemAt rfl)
  all_goals
    apply h.next (h.countedElements? hExtent category hForm)
    rintro (_ | found)
    · exact h.done _
    · exact h.forM fun p hp => h.remarks hId (.problemAt (CountedElements.isOrdinary_of_mem_problems hp))

variable (hMark : Agreed P fun i => mark (N i id) .lengthChecked)

include hMark

theorem checkModifiers (governor : TypeKey) (site : Site) :
    Agreed P fun i => checkModifiers (N i id) governor site := by
  have hCompare := fun bounds => h.compareWithBounds hId hLast hExtent bounds
  have hRestriction : Agreed P fun i => checkLengthRestriction (N i id) governor := by
    apply h.node_then hId
    intro t shown ht
    simp only [ht.like.lengthChecked, ht.like.length]
    refine Looks.ite (h.done _) (h.next hMark fun _ => ?_)
    cases t.length with
    | none => exact h.done _
    | some length =>
      apply h.next (h.remarks hId (remarks_foldBounds length))
      intro bounds
      apply h.read_then
      intro env _
      split
      · split
        · exact h.done _
        · exact h.done _
        · exact h.next (h.remarks hId (remarks_compareWithArray bounds _)) fun _ => hCompare bounds _
        case h_4 | h_5 | h_6 => exact hCompare bounds _
        · exact h.remarks hId (.problemAt rfl)
      · exact h.done _
  apply h.node_then hId
  intro t shown ht
  simp only [ht.like.length, ht.like.form, ht.like.ifPresent, Form.isErroneous_rename]
  exact h.next (h.onlyIf hRestriction) fun _ => h.onlyIf (h.remarks hId (.problemAt rfl))

end Naming.Mentions

/-- A property of what looks at nodes, makes ordinary remarks and follows references. -/
structure Naming.Follows {ι : Type} (N : Naming ι) (P : ViewedProperty ι) : Prop extends N.Mentions P where
  lastTemplate : ∀ {id}, N.dom id → P (fun i => lastTemplate (N i id)) N N.dom
  extent : ∀ {items}, N.All items → Agreed P fun i => extent (items.map (N i))

namespace Naming.Follows

variable {N : Naming ι} {P : ViewedProperty ι} (h : N.Follows P) (hId : N.dom id)

include h hId

theorem completeness (incomplete : Bool) {given : Form → Completeness}
    (hGiven : ∀ form, N.Holds form → N.Permits (given form))
    (hRename : ∀ form i, given (form.rename (N i)) = (given form).rename (N i)) :
    P (fun i => completeness (N i id) incomplete given) N.permitted N.Permits := by
  refine Looks.ite (h.give .complete rfl nofun) ?_
  have hBase : P (fun i => baseForm? (N i id)) (fun i => Option.map (·.rename (N i)))
      fun o => ∀ form, o = some form → N.Holds form := by
    apply h.node_then hId
    intro t shown ht
    simp only [ht.like.base]
    cases hFound : t.base with
    | none => exact h.give none rfl nofun
    | some base =>
      apply h.bind (h.lastTemplate (ht.base base hFound))
      intro last hLast
      apply h.formOf_then hLast
      intro form hForm
      refine h.give (some form) rfl ?_
      rintro _ ⟨⟩
      exact hForm
  apply h.bind hBase
  intro o hForm
  cases o with
  | none => exact h.give .incomplete rfl nofun
  | some form => exact h.pure (hGiven form (hForm form rfl)) (hRename form)

theorem checkPlacement (site : Site) : Agreed P fun i => checkPlacement (N i id) site :=
  h.toMentions.checkPlacement hId (h.lastTemplate hId) site

theorem checkModifiers (hMark : Agreed P fun i => mark (N i id) .lengthChecked) (governor : TypeKey) (site : Site) :
    Agreed P fun i => checkModifiers (N i id) governor site :=
  h.toMentions.checkModifiers hId (h.lastTemplate hId) h.extent hMark governor site

end Naming.Follows

structure Naming.Reports {ι : Type} (N : Naming ι) (P : ViewedProperty ι) : Prop extends N.Walks P, N.Mentions P where
  tell : ∀ span finding, Agreed P fun _ => tell span finding
  problem := fun span p _ => tell span (.error p)

namespace Naming.Reports

variable {N : Naming ι} {P : ViewedProperty ι} (h : N.Reports P) (hId : N.dom id)

include h hId

theorem complain (p : Problem) : Agreed P fun i => TemplateCheck.problemAt (N i id) p := by
  apply h.node_then hId
  intro t shown ht
  simp only [ht.like.span]
  exact h.tell _ _

theorem warnAt (w : Warning) : Agreed P fun i => warnAt (N i id) w := by
  apply h.node_then hId
  intro t shown ht
  simp only [ht.like.span]
  exact h.tell _ _

theorem illegalForm (decl : TypeDecl) : Agreed P fun i => illegalForm (N i id) decl := by
  apply h.formOf_then hId
  intro form _
  simp only [Form.variant_rename]
  exact h.complain hId _

theorem illegal {F : Bool → Prop} (hF : Flag P F) (decl : TypeDecl) :
    Flagged P F fun i => TemplateCheck.illegalForm (N i id) decl >>= fun _ => Pure.pure false :=
  h.lower hF (h.illegalForm hId decl)

theorem checkNumber (decl : TypeDecl) {range : NodeId → ValueRange → CheckM Unit}
    (hRange : ∀ bounds, Remarks (range · bounds)) : Agreed P fun i => checkNumber (N i id) decl (range (N i id)) := by
  apply h.formOf_then hId
  intro form _
  cases form with
  | range bounds => exact h.remarks hId (hRange bounds)
  | _ => exact h.illegalForm hId decl

theorem checkSymbol (symbol : String) (decl : TypeDecl) : Agreed P fun i => checkSymbol (N i id) symbol decl := by
  have hLength : Agreed P fun i => (do
      let t ← node (N i id)
      if t.form.variant = .omitted && t.length.isSome then TemplateCheck.warnAt (N i id) .redundantLength) := by
    apply h.node_then hId
    intro t shown ht
    simp only [ht.like.form, ht.like.length, Form.variant_rename]
    exact Looks.ite (h.warnAt hId _) (h.done _)
  unfold TemplateCheck.checkSymbol
  split
  · exact h.complain hId _
  case h_2 | h_3 | h_4 => exact hLength
  · exact h.done _

theorem checkArraySize (bounds : ArrayBounds) (count : Nat) :
    Agreed P fun i => checkArraySize (N i id) bounds count := by
  apply h.node_then hId
  intro t shown ht
  simp only [ht.like.flattened]
  exact Looks.ite (Looks.ite (h.complain hId _) (h.done _)) (h.warnAt hId _)

theorem checkCompleteSignature (params : List ParamDecl) {entries : List NamedEntry}
    (hEntries : ∀ e ∈ entries, N.dom e.template) :
    Agreed P fun i => checkCompleteSignature (N i id) params (entries.map (·.rename (N i))) := by
  have hGives : ∀ name, Agreed P fun i => givesParameter (entries.map (·.rename (N i))) name := by
    intro name
    simp only [givesParameter, find?_rename]
    cases hEntry : entries.find? (·.name = name) with
    | none => exact h.done _
    | some entry =>
      apply h.formOf_then (hEntries entry (List.mem_of_find?_eq_some hEntry))
      intro form _
      cases form <;> exact h.done _
  have hMissing : Agreed P fun i => params.filterM fun param => do
      return !(← givesParameter (entries.map (·.rename (N i))) param.name) :=
    h.filterM fun param => h.finish (hGives param.name)
  exact h.next hMissing fun missing => h.forM fun p _ => h.complain hId p

end Naming.Reports

/-- A property of checks that set marks on the nodes in `T` and give them up. -/
structure Naming.Alters {ι : Type} (N : Naming ι) (T : NodeId → Prop)
    (P : ViewedProperty ι) : Prop extends N.Reports P, N.Follows P where
  known : ∀ {id}, T id → N.dom id
  inside : ∀ {α : Type} {x : ι → CheckM α} (c : Context), Agreed P x → Agreed P fun i => inside c (x i)
  mark : ∀ {id} m, T id → m ≠ .checked → Agreed P fun i => mark (N i id) m
  giveUp : ∀ {id} span p, T id → Agreed P fun i => do TemplateCheck.problem span p; markErroneous (N i id)

namespace Naming.Alters

variable {N : Naming ι} {P : ViewedProperty ι} (h : N.Alters T P) (hId : T id)

include h hId

theorem reject (p : Problem) : Agreed P fun i => reject (N i id) p := by
  simp only [TemplateCheck.reject, TemplateCheck.problemAt, bind_assoc]
  apply h.node_then (h.known hId)
  intro t shown ht
  simp only [ht.like.span]
  exact h.giveUp t.span p hId

theorem operandFault (p : Problem) (fatal : Bool) :
    Agreed P fun i => (do problemAt (N i id) p; if fatal then markErroneous (N i id)) := by
  cases fatal with
  | true => exact h.reject hId p
  | false => exact h.finish (h.complain (h.known hId) p)

theorem unknownGovernor (span : Span) {ok : α → Prop} {a : α} (ha : ok a) :
    P (fun i => do TemplateCheck.problem span .unknownGovernor; markErroneous (N i id); return a) (fun _ a => a)
      ok := by
  have hGiveUp := h.pass (h.giveUp span .unknownGovernor hId) fun _ _ => ha
  simpa only [bind_assoc] using hGiveUp

omit hId in
theorem unflagged : Flag P fun _ => True := ⟨trivial, fun _ _ => trivial, fun c hx => h.inside c hx⟩

theorem checkSupported : Agreed P fun i => checkSupported (N i id) := by
  refine h.read_then fun env _ => Looks.ite (h.done _) (h.formOf_then (h.known hId) fun form _ => ?_)
  cases form with
  | concat | decoded => exact h.reject hId _
  | _ => exact h.done _

theorem checkModifiers (governor : TypeKey) (site : Site) : Agreed P fun i => checkModifiers (N i id) governor site :=
  h.toFollows.checkModifiers (h.known hId) (h.mark _ hId nofun) governor site

theorem checkConformance (governor : TypeKey) (allowOmit : Bool) :
    Agreed P fun i => checkConformance (N i id) governor allowOmit := by
  apply h.node_then (h.known hId)
  intro t shown ht
  simp only [ht.like.valueChecked, ht.like.form, ht.like.span]
  refine Looks.ite (h.done _) (h.next (h.mark .valueChecked hId nofun) fun _ => ?_)
  cases t.form with
  | specific value => exact h.read_then fun _ _ => h.forM fun p _ => h.tell t.span _
  | _ => exact h.done _

theorem checkApplication (callee : Value) (governor : TypeKey) :
    Agreed P fun i => checkApplication (N i id) callee governor :=
  h.read_then fun _ _ => h.inside _ (h.optionForM fun p => h.reject hId p)

theorem checkSlot {target : NodeId} (hTarget : N.dom target) : Agreed P fun i => checkSlot (N i id) (N i target) := by
  have hReject : ∀ p, Agreed P fun i => do TemplateCheck.reject (N i id) p; return false :=
    fun p => h.finish (h.reject hId p)
  have hReference : ∀ r, Agreed P fun i => checkSlotReference (N i id) r := by
    intro r
    refine h.read_then fun env _ => ?_
    cases env.definitions.target? r with
    | none => exact hReject _
    | some definition => exact Looks.ite (hReject _) (h.done _)
  apply h.formOf_then hTarget
  intro form _
  have hOther : Agreed P fun i => do
      TemplateCheck.reject (N i id) (.allFromTarget (form.rename (N i)).variant); return false := by
    simp only [Form.variant_rename]
    exact hReject _
  cases form with
  | specific value =>
    cases value with
    | ref r => exact hReference r
    | _ => exact hOther
  | referenced r resolved => exact hReference r
  | erroneous => exact h.done _
  | _ => exact hOther

end Naming.Alters

/-- A property of checks that also give bases to the nodes in `T`. -/
structure Naming.Binds {ι : Type} (N : Naming ι) (T : NodeId → Prop)
    (P : ViewedProperty ι) : Prop extends N.Alters T P where
  basePart : ∀ r {template : TemplateDef} type, N.dom template.body → (∀ i, N i template.body = template.body) →
    P (fun _ => basePart r template type) (fun i => Option.map (N i)) fun part => ∀ base, part = some base → N.dom base
  linkBase : ∀ {id base}, T id → N.dom base → Agreed P fun i => linkBase (N i id) (N i base)
  inheritBase : ∀ {id base}, T id → N.dom base → Agreed P fun i => inheritBase (N i id) (N i base)

namespace Naming.Binds

variable {N : Naming ι} {P : ViewedProperty ι} (h : N.Binds T P) {inline : InlineTemplate} (hBody : T inline.body)
  (hModifies : ∀ r, inline.modifies = some r → N.Covers r) (expected : Option TypeKey)

include h hBody hModifies

theorem attachBase : Agreed P fun i => attachBase (inline.rename (N i)) expected := by
  unfold TemplateCheck.attachBase
  dsimp only [InlineTemplate.rename]
  cases hReference : inline.modifies with
  | none => exact h.done _
  | some r =>
    refine h.read_then fun env hEnv => ?_
    cases hTarget : env.definitions.target? r with
    | none => exact h.finish (h.tell _ _)
    | some definition =>
      refine Looks.ite (h.finish (h.tell _ _)) ?_
      cases definition.type with
      | none => exact h.done _
      | some declared =>
        apply h.next (h.remarks (h.known hBody) (remarks_baseGovernor r expected _))
        intro governor
        refine h.finish ?_
        unfold linkToPart
        cases hTemplate : definition.kind.template? with
        | none => exact h.done _
        | some template =>
          obtain ⟨hDom, hFixed⟩ := hModifies r hReference env definition template hEnv hTarget hTemplate
          apply h.bind (h.basePart r declared hDom hFixed)
          intro part hPart
          cases part with
          | none => exact h.done _
          | some base => exact h.linkBase hBody (hPart base rfl)

theorem bindGovernor : Agreed P fun i => bindGovernor (inline.rename (N i)) expected := by
  unfold TemplateCheck.bindGovernor
  simp only [fun i => show (inline.rename (N i)).type = inline.type from rfl]
  cases inline.type with
  | none => exact h.attachBase hBody hModifies expected
  | some type =>
    refine h.read_then fun env _ => ?_
    apply h.next (h.optionForM fun _ => Looks.ite (h.tell _ _) (h.done _))
    exact fun _ => h.finish (h.attachBase hBody hModifies (some type))

end Naming.Binds

/-- Give up a node if one of two others has been given up. -/
def giveUpWith (id left right : NodeId) : CheckM Bool := do
  if (← isErroneous left) || (← isErroneous right) then
    markErroneous id
    return true
  else return false

theorem settleConcatenation_eq (id left right : NodeId) (governor : TypeKey) (family : Option StringFamily) :
    settleConcatenation id left right governor family = (do
      if ← giveUpWith id left right then return
      else family.forM (joinOperands id left right governor)) := by
  simp only [settleConcatenation, giveUpWith, bind_assoc]
  congr 1
  funext first
  congr 1
  funext second
  split <;> simp

theorem concatForm_mayBecome (h : concatForm? family first second = some form) (left right : NodeId) :
    (Form.concat left right).mayBecome form ∧ form.children = [] ∧ form.resolved? = none ∧
      form.reference? = none ∧ form.isPlain ∧ form ≠ .erroneous := by
  unfold concatForm? at h
  split at h
  · cases h
    exact ⟨rfl, rfl, rfl, rfl, rfl, nofun⟩
  · split at h
    · obtain ⟨pattern, -, h⟩ := Option.bind_eq_some_iff.1 h
      obtain ⟨whole, -, h⟩ := Option.bind_eq_some_iff.1 h
      cases h
      exact ⟨rfl, rfl, rfl, rfl, rfl, nofun⟩
    · split at h
      · cases h
        exact ⟨rfl, rfl, rfl, rfl, rfl, nofun⟩
      · obtain ⟨text, -, h⟩ := Option.bind_eq_some_iff.1 h
        obtain ⟨whole, -, h⟩ := Option.bind_eq_some_iff.1 h
        cases h
        exact ⟨rfl, rfl, rfl, rfl, rfl, nofun⟩

theorem concatForm?_mentions
    (h : concatForm? family first second = some form) : form ≠ .erroneous ∧ form.mentions = [] := by
  obtain ⟨-, -, -, -, hPlain, hIntact⟩ := concatForm_mayBecome h 0 0
  refine ⟨hIntact, ?_⟩
  cases form with
  | specific value => cases value <;> first | rfl | cases hPlain
  | referenced | decoded => cases hPlain
  | _ => rfl

/-- A property of what checks do to the nodes in `T` themselves. -/
structure Naming.Reshapes {ι : Type} (N : Naming ι) (T : NodeId → Prop)
    (P : ViewedProperty ι) : Prop extends N.Binds T P where
  undefined : ¬ N.defined → ∀ {α : Type} (r : Reference), Agreed P fun _ =>
    (throw (.undefinedReference r.text) : CheckM α)
  giveUpWith : ∀ {id left right}, T id → N.dom left → N.dom right →
    Agreed P fun i => giveUpWith (N i id) (N i left) (N i right)
  become : ∀ {id} {form : Form}, T id → form ≠ .erroneous → form.children = [] → form.resolved? = none →
    form.mentions = [] → Agreed P fun i => replaceForm (N i id) form

namespace Naming.Reshapes

variable {N : Naming ι} {P : ViewedProperty ι} (h : N.Reshapes T P) (hId : T id)

include h hId

theorem checkStringForm (decl : TypeDecl) (family : StringFamily) (form : Form) :
    Agreed P fun i => checkStringForm (N i id) decl family (form.rename (N i)) := by
  have hDom := h.known hId
  have hIllegal : Agreed P fun i => TemplateCheck.illegalForm (N i id) decl := h.illegalForm hDom decl
  cases form with
  | range bounds =>
    cases family with
    | character chars => exact h.remarks hDom (remarks_checkCharacterRange chars bounds)
    | binary binary => exact hIllegal
  | binaryPattern digits text =>
    cases family with
    | character chars => exact hIllegal
    | binary binary => exact Looks.ite (h.remarks hDom (remarks_checkBinaryPattern binary text)) hIllegal
  | charPattern own pattern =>
    cases family with
    | character chars =>
      refine Looks.ite hIllegal (h.next (h.remarks hDom (remarks_expandPattern chars pattern)) fun _ => ?_)
      apply h.next (h.optionForM fun _ => h.complain hDom _)
      exact fun _ => h.become hId nofun rfl rfl rfl
    | binary binary => exact hIllegal
  | _ => cases family <;> exact hIllegal

theorem checkReference {r : Reference} {resolved : Option NodeId} (hForm : N.Holds (.referenced r resolved))
    (governor : TypeKey) : Agreed P fun i => checkReference (N i id) r governor := by
  have hDom := h.known hId
  have hCollapse : ∀ {last}, N.dom last → Agreed P fun i => collapseReference (N i id) (N i last) governor := by
    intro last hLast
    apply h.node_then hLast
    intro t shown ht
    simp only [ht.like.form, ht.like.length, ht.like.ifPresent]
    cases t.form with
    | specific value =>
      cases t.length with
      | some length => exact h.done _
      | none =>
        cases t.ifPresent with
        | true => exact h.done _
        | false =>
          refine h.read_then fun env _ => ?_
          cases hFold : env.definitions.fold? value with
          | none => exact h.done _
          | some constant =>
            have hBecome : Agreed P fun i => replaceForm (N i id) (.specific constant) :=
              h.become hId nofun rfl rfl (mentions_of_ground (ground_of_fold? hFold))
            exact h.next hBecome fun _ => h.checkConformance hId governor false
    | _ => exact h.done _
  refine h.read_then fun env hEnv => ?_
  cases hTarget : env.definitions.target? r with
  | none =>
    refine h.undefined (fun hDefined => ?_) r
    simpa [hTarget] using hForm.target hDefined env r resolved hEnv rfl
  | some definition =>
    refine h.finish (h.read_then fun env _ => ?_)
    cases env.referenceTypeProblem? r definition governor with
    | some p => exact h.reject hId p
    | none =>
      apply h.bind (h.lastTemplate hDom)
      intro last hLast
      apply h.next (h.isErroneous hDom)
      intro erroneous
      simp only [ne_eq, eq_iff hLast hDom]
      exact Looks.ite (hCollapse hLast) (h.done _)

theorem settleConcatenation {left right : NodeId} (hLeft : N.dom left) (hRight : N.dom right) (governor : TypeKey)
    (family : Option StringFamily) :
    Agreed P fun i => settleConcatenation (N i id) (N i left) (N i right) governor family := by
  have hOperand : ∀ (defs : Definitions) {t t' : Template} {σ : NodeId → NodeId}, t.Alike σ t' →
      defs.operand t' = defs.operand t := by
    intro defs t t' σ hAlike
    unfold Definitions.operand
    rw [hAlike.form, hAlike.length, hAlike.ifPresent]
    cases t.length with
    | none => cases t.form <;> rfl
    | some length =>
      dsimp only
      cases defs.onlyLength? length <;> cases t.form <;> rfl
  simp only [settleConcatenation_eq]
  apply h.next (h.giveUpWith hId hLeft hRight)
  intro stop
  refine Looks.ite (h.done _) (h.optionForM fun family => h.read_then fun env _ => ?_)
  apply h.bind (h.lastTemplate hLeft)
  intro lastLeft hLastLeft
  apply h.node_then hLastLeft
  intro first shown hFirst
  apply h.bind (h.lastTemplate hRight)
  intro lastRight hLastRight
  apply h.node_then hLastRight
  intro second shown' hSecond
  simp only [fun i => hOperand env.definitions (hFirst.alike i), fun i => hOperand env.definitions (hSecond.alike i)]
  split
  · exact h.done _
  · rename_i form hForm
    obtain ⟨-, hChildren, hResolved, -⟩ := concatForm_mayBecome hForm left right
    obtain ⟨hIntact, hMentions⟩ := concatForm?_mentions hForm
    apply h.next (h.become hId hIntact hChildren hResolved hMentions)
    intro _
    split
    · exact h.checkConformance hId governor false
    · exact h.done _

end Naming.Reshapes

end TemplateCheck
