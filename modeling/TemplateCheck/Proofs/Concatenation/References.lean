import TemplateCheck.Proofs.Concatenation.Check

/-!
# Operands that are references

Operands are joined by the templates at the ends of their chains. The length restriction of a reference stands at the
reference and is overlooked: what a concatenation is folded to matches all that the target matches, followed by all that
the other operand matches. Nothing is lost only if the restriction admits whatever the target matches.
-/

namespace TemplateCheck

open List

def LengthRestriction.Admits (defs : Definitions) (length : LengthRestriction) (n : Nat) : Prop :=
  ∃ lower upper, length.Bounds defs lower upper ∧ lower ≤ n ∧ ∀ most, upper = some most → n ≤ most

/-- The sequences that an operand matches: those of the template it stands for, as far as its own length restriction
admits them. -/
def Template.narrowed (defs : Definitions) (family : BinaryFamily) (own t : Template) : Language family.Element :=
  {w | w ∈ t.language defs family ∧ ∀ length, own.length = some length → length.Admits defs w.length}

/-- An operand that was checked, the template it stands for, and the sequences that this one matches. -/
structure Store.Operand (s : Store) (defs : Definitions) (family : BinaryFamily) (id : NodeId) (own t : Template) :
    Prop where
  node : s.get? id = some own
  checked : own.marks.checked
  standsFor : s.StandsFor id t
  spans : t.Spans defs family (t.language defs family)

section

variable {env : Env} {s : Store} {defs : Definitions} {family : BinaryFamily} {id operand : NodeId} {own t u : Template}
  {left right : NodeId}

theorem Store.Operand.attains_checkWithin (h : s.Operand defs family operand own t) (depth : Nat) (governor : TypeKey)
    (site : Site) : Attains true env s (checkWithin (depth + 1) operand governor site) fun _ s' => s' = s := by
  apply Attains.node_then h.node
  simp only [h.checked, if_true]
  exact .pure rfl

theorem Store.Operand.update (h : s.Operand defs family operand own t) (hNode : s.get? id = some u)
    (hUnchecked : u.marks.checked = false) (hForm : u.form = .concat left right) (f : Template → Template) :
    (s.update id f).Operand defs family operand own t := by
  have hOther : ∀ {other : NodeId} {v : Template}, s.get? other = some v →
    v.marks.checked ∨ v.form ≠ .concat left right →
      (s.update id f).get? other = some v := by
    intro other v hFound hNot
    rw [get?_update_of_ne, hFound]
    rintro rfl
    cases hNode.symm.trans hFound
    simp [hUnchecked, hForm] at hNot
  refine ⟨hOther h.node (.inl h.checked), h.checked, ?_, h.spans⟩
  cases h.standsFor with
  | own hFound hDirect => exact .own (hOther hFound (.inr (h.spans.joins.ne_concat left right))) hDirect
  | followed hFound hReferenced hEnd =>
    exact .followed (hOther hFound (.inr (by simp [hReferenced]))) hReferenced
      (hOther hEnd (.inr (h.spans.joins.ne_concat left right)))

end

namespace Session

/-- A concatenation of operands that were checked is folded to what the ends of their chains match one after the other,
whatever length restrictions the operands have. These are kept if they exclude nothing. -/
theorem fold_overlooks_lengths {s : Session} {id left right : NodeId} {t own own' l r : Template} {governor : TypeKey}
    {decl : TypeDecl} {family : BinaryFamily} (hConcat : s.settings.concatenation)
    (hDecl : s.types.decl? governor = some decl) (hCategory : decl.category = .string (.binary family))
    (hNode : s.store.get? id = some t) (hUnchecked : t.marks.checked = false) (hLength : t.length = none)
    (hAlways : t.ifPresent = false) (hForm : t.form = .concat left right)
    (hLeft : s.store.Operand s.definitions family left own l)
    (hRight : s.store.Operand s.definitions family right own' r)
    (site : Site) :
    ∃ outcome t', (s.check id governor site).1 = .ok outcome ∧ (s.check id governor site).2.report = s.report ∧
      (s.check id governor site).2.store.get? id = some t' ∧ t'.form.Folded family ∧
      t'.language s.definitions family = l.language s.definitions family * r.language s.definitions family ∧
      (own.narrowed s.definitions family l = l.language s.definitions family →
        own'.narrowed s.definitions family r = r.language s.definitions family →
        ∀ w ∈ t'.language s.definitions family, ∃ a ∈ own.narrowed s.definitions family l,
          ∃ b ∈ own'.narrowed s.definitions family r, a ++ b = w) := by
  change s.env.settings.concatenation at hConcat
  change s.env.types.decl? governor = some decl at hDecl
  change s.store.Operand s.env.definitions family left own l at hLeft
  change s.store.Operand s.env.definitions family right own' r at hRight
  have hLeft' := hLeft.update hNode hUnchecked hForm (·.govern governor)
  have hRight' := hRight.update hNode hUnchecked hForm (·.govern governor)
  obtain ⟨depth, hDepth⟩ : ∃ n, s.limit = n + 2 := ⟨s.limit - 2, by have := s.size_lt_limit; omega⟩
  have hFolds : Attains true s.env s.store (checkWithin (depth + 2) id governor site) fun _ s' =>
      ∃ s1, s1 = s.store.update id (·.govern governor) ∧ s1.Folds (Form.Spans s.env.definitions family) id
        (t.govern governor) (l.language s.env.definitions family * r.language s.env.definitions family) s' := by
    refine (joining_spans hDecl hCategory).attains_checkStep_concat hNode hUnchecked hAlways hLength hForm
      (hLeft'.attains_checkWithin depth governor _) ?_ ?_ ?_ hConcat hDecl hCategory
    · rintro _ rfl
      exact ⟨l, hLeft'.standsFor, hLeft.spans⟩
    · rintro _ rfl
      exact hRight'.attains_checkWithin depth governor _
    · rintro _ rfl
      exact ⟨Store.get?_update_some hNode _, ⟨l, hLeft'.standsFor, hLeft.spans⟩, r, hRight'.standsFor, hRight.spans⟩
  rw [← hDepth] at hFolds
  obtain ⟨outcome, hEnds, hReport, _, rfl, -, form, marks, hNode', hSpans⟩ := run_of_attains hFolds
  have hResult := hSpans.template { t.govern governor with form, marks } rfl hLength hAlways
  refine ⟨outcome, _, hEnds, hReport rfl, hNode', hSpans.folded, hResult.language_eq, fun hAll hAll' w hw => ?_⟩
  rw [show ({ t.govern governor with form, marks } : Template).language s.definitions family = _ from
    hResult.language_eq, Language.mem_mul] at hw
  rw [hAll, hAll']
  exact hw

/-- The reference at 1 stands for two bits of the template `t`, which is `?`. Two other bits follow it at 3. -/
def sizedReference : Session where
  types := ⟨[(1, ⟨"bitstring", .string (.binary .bit)⟩)]⟩
  definitions := ⟨[.ofBody "t" 1 0]⟩
  store := ⟨[{ form := .anyValue },
    { form := .following "t" 0, length := some (.single (.integer 2)) },
    { form := .specific (.string (.binary .bit) "01") },
    { form := .concat 1 2 }]⟩

def settledReference : Session := ((sizedReference.check 1 1 {}).2.check 2 1 {}).2

theorem fold_overlooks_lengths_settledReference :
    ∃ own l r outcome t', settledReference.store.get? 1 = some own ∧ settledReference.store.get? 0 = some l ∧
      settledReference.store.get? 2 = some r ∧ own.length = some (.single (.integer 2)) ∧
      (settledReference.check 3 1 {}).1 = .ok outcome ∧
      (settledReference.check 3 1 {}).2.report = settledReference.report ∧
      (settledReference.check 3 1 {}).2.store.get? 3 = some t' ∧ t'.form.Folded .bit ∧
      t'.language settledReference.definitions .bit =
        l.language settledReference.definitions .bit * r.language settledReference.definitions .bit := by
  have hSpells : BinaryFamily.bit.Spells "01".toList := ⟨all_eq_true.1 (by decide), by decide⟩
  have hLeft : settledReference.store.Operand settledReference.definitions .bit 1 _ { form := .anyValue } :=
    ⟨rfl, rfl, .followed rfl rfl rfl, rfl, .folded .anything rfl, rfl⟩
  have hRight : settledReference.store.Operand settledReference.definitions .bit 2 _ _ :=
    ⟨rfl, rfl, .own rfl rfl, rfl, .folded (.literal hSpells) rfl, rfl⟩
  have hDecl : settledReference.types.decl? 1 = some ⟨"bitstring", .string (.binary .bit)⟩ := rfl
  have hRoot : settledReference.store.get? 3 = some { form := .concat 1 2 } := rfl
  obtain ⟨outcome, t', hEnds, hReport, hNode, hFolded, hLanguage, -⟩ :=
    fold_overlooks_lengths rfl hDecl rfl hRoot rfl rfl rfl rfl hLeft hRight {}
  exact ⟨_, _, _, outcome, t', hLeft.node, rfl, hRight.node, rfl, hEnds, hReport, hNode, hFolded, hLanguage⟩

/-- Three bits are matched, though both operands match two. -/
theorem sizedReference_matches_three_bits :
    ∃ own target other t', sizedReference.store.get? 1 = some own ∧ sizedReference.store.get? 0 = some target ∧
      sizedReference.store.get? 2 = some other ∧ (sizedReference.check 3 1 {}).1 = .ok {} ∧
      (sizedReference.check 3 1 {}).2.report = {} ∧
      (sizedReference.check 3 1 {}).2.store.get? 3 = some t' ∧
      BinaryFamily.bit.elements "101".toList ∈ t'.language sizedReference.definitions .bit ∧
      ¬ ∃ a ∈ own.narrowed sizedReference.definitions .bit target,
        ∃ b ∈ other.narrowed sizedReference.definitions .bit other,
          a ++ b = BinaryFamily.bit.elements "101".toList := by
  have hResult : ((sizedReference.check 3 1 {}).2.store.get? 3).map (fun t => (t.form, t.length)) =
      some (.binaryPattern .bit "*01", none) := by rfl
  obtain ⟨t', hNode, hShape⟩ := Option.map_eq_some_iff.1 hResult
  obtain ⟨hForm, hLength⟩ := Prod.mk.inj hShape
  refine ⟨_, _, _, t', rfl, rfl, rfl, by decide +kernel, by decide +kernel, hNode, ?_, ?_⟩
  · have hSpells : BinaryFamily.bit.Spells "01".toList := ⟨all_eq_true.1 (by decide), by decide⟩
    have hAfter : t'.language sizedReference.definitions .bit = ⊤ * {BinaryFamily.bit.elements "01".toList} := by
      rw [Template.language_of_form hForm hLength, ← hSpells.language_eq]
      rfl
    rw [hAfter]
    exact Language.mem_mul.2 ⟨BinaryFamily.bit.elements "1".toList, trivial, _, rfl, rfl⟩
  · rintro ⟨a, ⟨-, hTwo⟩, b, ⟨hOther, -⟩, hJoined⟩
    obtain ⟨lower, upper, hBounds, hLower, -⟩ := hTwo _ rfl
    cases hBounds with
    | single hFold =>
      have hBound : (2 : Int) = lower := Option.some.inj hFold
      have hCount := congrArg length hJoined
      rw [length_append, show b = BinaryFamily.bit.elements "01".toList from hOther] at hCount
      change a.length + 2 = 3 at hCount
      omega

end Session

end TemplateCheck
