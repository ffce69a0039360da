import TemplateCheck.Proofs.Safety

/-!
# Remarks about a node

Ranges, patterns and length restrictions are folded and judged by the environment alone: the node they belong to
only gives the place of what is reported. Such computations are singled out once, by how they are built. What they
do in a store, and in two stores that correspond to each other, follows by induction on that.
-/

namespace TemplateCheck

def Problem.isCircular : Problem → Bool
  | .circularReference _ => true
  | _ => false

def Finding.isCircular : Finding → Bool
  | .error p => p.isCircular
  | _ => false

def Finding.comparesSize : Finding → Bool
  | .error (.arraySize ..) => true
  | .warning .unknownArraySize => true
  | _ => false

def Finding.namesField : Finding → Bool
  | .error (.unknownField ..) | .error (.duplicateField _) | .error (.missingField ..) => true
  | _ => false

def Finding.isUnexpectedParameter : Finding → Bool
  | .error (.unexpectedParameter _) => true
  | _ => false

def Finding.isDuplicateParameter : Finding → Bool
  | .error (.duplicateParameter ..) => true
  | _ => false

def Finding.isIncompleteSignature : Finding → Bool
  | .error (.missingInoutParameter _) | .error (.missingInAndOutParameters ..) => true
  | _ => false

def Finding.namesParameter (finding : Finding) : Bool :=
  finding.isUnexpectedParameter || finding.isDuplicateParameter || finding.isIncompleteSignature

def Finding.isOrdinary (finding : Finding) : Bool :=
  !finding.isCircular && !finding.comparesSize && !finding.namesField && !finding.namesParameter

variable {finding : Finding}

theorem Finding.isCircular_of_isOrdinary (h : finding.isOrdinary) : finding.isCircular = false := by
  simp_all [isOrdinary]

theorem Finding.comparesSize_of_isOrdinary (h : finding.isOrdinary) : finding.comparesSize = false := by
  simp_all [isOrdinary]

theorem Finding.namesField_of_isOrdinary (h : finding.isOrdinary) : finding.namesField = false := by
  simp_all [isOrdinary]

theorem Finding.namesParameter_of_isOrdinary (h : finding.isOrdinary) : finding.namesParameter = false := by
  simp_all [isOrdinary]

/-- The environment is read and ordinary remarks are made, some of them at the given node. -/
inductive Remarks : {α : Type} → (NodeId → CheckM α) → Prop where
  | pure {α : Type} (a : α) : Remarks fun _ => pure a
  | read : Remarks fun _ => read
  | tell (span : Span) {finding : Finding} (h : finding.isOrdinary) : Remarks fun _ => tell span finding
  | problemAt {p : Problem} (h : (Finding.error p).isOrdinary) : Remarks fun id => problemAt id p
  | warnAt {w : Warning} (h : (Finding.warning w).isOrdinary) : Remarks fun id => warnAt id w
  | bind {α β : Type} {x : NodeId → CheckM α} {f : NodeId → α → CheckM β} (hx : Remarks x)
      (hf : ∀ a, Remarks fun id => f id a) : Remarks fun id => x id >>= f id

namespace Remarks

variable {α β : Type} {x : NodeId → CheckM α} {xs : List α} {f : NodeId → α → CheckM Unit}

theorem still (h : Remarks x) (id : NodeId) : Still (x id) := by
  induction h with
  | pure a => exact .pure a
  | read => exact .read
  | tell span _ => exact .tell span _
  | problemAt _ => exact .problemAt id _
  | warnAt _ => exact .warnAt id _
  | bind _ _ ihx ihf => exact ihx.bind ihf

theorem quiet {env : Env} {s : Store} {id : NodeId} (h : Remarks x) (hId : s.Has id) :
    Quiet env s (x id) fun _ => True := by
  induction h with
  | pure _ => exact .pure trivial
  | read => exact fun report => ⟨env, report, rfl, trivial⟩
  | tell _ _ => exact fun _ => ⟨(), _, rfl, trivial⟩
  | problemAt _ => exact quiet_problemAt hId _
  | warnAt _ => exact quiet_warnAt hId _
  | bind _ _ ihx ihf => exact ihx.bind fun a _ => ihf a

theorem ite {c : Prop} [Decidable c] {y : NodeId → CheckM α} (hx : Remarks x) (hy : Remarks y) :
    Remarks fun id => if c then x id else y id := by
  by_cases hc : c
  · simpa only [hc, if_true] using hx
  · simpa only [hc, if_false] using hy

theorem foldlM {f : NodeId → β → α → CheckM β} {b : β} (hf : ∀ b a, Remarks fun id => f id b a) :
    Remarks fun id => xs.foldlM (f id) b := by
  induction xs generalizing b with
  | nil => exact .pure b
  | cons a xs ih =>
    simp only [List.foldlM_cons]
    exact (hf b a).bind fun _ => ih

theorem forM (hf : ∀ a, Remarks fun id => f id a) : Remarks fun id => xs.forM (f id) := by
  induction xs with
  | nil => exact .pure ()
  | cons a xs ih => exact (hf a).bind fun _ => ih

theorem optionForM {o : Option α} (hf : ∀ a, Remarks fun id => f id a) : Remarks fun id => o.forM (f id) := by
  cases o with
  | none => exact .pure ()
  | some a => exact hf a

theorem expectConstant {report : NodeId → Problem → CheckM Unit} (kind : String) (read? : Value → Option α)
    (value : Value) (hReport : ∀ p : Problem, (Finding.error p).isOrdinary → Remarks fun id => report id p) :
    Remarks fun id => expectConstant (report id) kind read? value := by
  apply Remarks.read.bind
  intro env
  rcases env.fold value with (_ | fault) | constant
  · exact .pure none
  · exact (hReport _ rfl).bind fun _ => .pure none
  · dsimp only
    cases read? constant with
    | none => exact (hReport _ rfl).bind fun _ => .pure none
    | some a => exact .pure (some a)

end Remarks

section Ranges

theorem remarks_numberBound {α : Type} (kind : String) (read? : Value → Option α) (value : Option Value) :
    Remarks fun id => numberBound id kind read? value := by
  cases value with
  | none => exact .pure none
  | some value => exact .expectConstant kind read? value fun _ => .problemAt

theorem remarks_checkIntegerRange (r : ValueRange) : Remarks fun id => checkIntegerRange id r := by
  apply (remarks_numberBound _ _ r.min).bind
  intro lower
  apply (remarks_numberBound _ _ r.max).bind
  intro upper
  apply Remarks.bind (.forM fun _ => .problemAt rfl)
  intro _
  rcases lower, upper with ⟨_ | _, _ | _⟩
  · exact .pure ()
  · exact .pure ()
  · exact .pure ()
  · exact .ite (.problemAt rfl) (.pure ())

theorem remarks_checkFloatRange (r : ValueRange) : Remarks fun id => checkFloatRange id r := by
  apply (remarks_numberBound _ _ r.min).bind
  intro lower
  apply (remarks_numberBound _ _ r.max).bind
  intro upper
  rcases lower, upper with ⟨_ | _, _ | _⟩
  · exact .pure ()
  · exact .pure ()
  · exact .pure ()
  · exact .ite (.problemAt rfl) (.pure ())

theorem remarks_characterBound (family : CharFamily) (which : Bound) (value : Option Value) :
    Remarks fun id => characterBound id family which value := by
  cases value with
  | none => exact (Remarks.problemAt rfl).bind fun _ => .pure none
  | some value =>
    apply (Remarks.expectConstant _ _ value fun _ => .problemAt).bind
    rintro (_ | text)
    · exact .pure none
    · dsimp only
      rcases text.toList with _ | ⟨c, _ | ⟨_, _⟩⟩
      · exact (Remarks.problemAt rfl).bind fun _ => .pure none
      · exact .pure (some c)
      · exact (Remarks.problemAt rfl).bind fun _ => .pure none

theorem remarks_checkCharacterRange (family : CharFamily) (r : ValueRange) :
    Remarks fun id => checkCharacterRange id family r := by
  apply (remarks_characterBound family .lower r.min).bind
  intro lower
  apply (remarks_characterBound family .upper r.max).bind
  intro upper
  rcases lower, upper with ⟨_ | _, _ | _⟩
  · exact .pure ()
  · exact .pure ()
  · exact .pure ()
  · exact .ite (.problemAt rfl) (.pure ())

end Ranges

section Patterns

theorem remarks_checkBinaryPattern (family : BinaryFamily) (text : String) :
    Remarks fun id => checkBinaryPattern id family text :=
  .optionForM fun _ => .problemAt rfl

theorem remarks_expandPattern (family : CharFamily) (p : CharPattern) : Remarks fun _ => expandPattern family p := by
  apply Remarks.foldlM
  intro done segment
  cases segment with
  | literal text => exact .pure _
  | ref r =>
    have hReport : ∀ p : Problem, (Finding.error p).isOrdinary → Remarks fun _ => problem r.span p :=
      fun _ hp => .tell r.span hp
    apply (Remarks.expectConstant _ _ _ hReport).bind
    rintro (_ | text)
    · exact .pure _
    · exact .pure _

end Patterns

section Lengths

theorem remarks_foldBound (part : LengthPart) (value : Value) : Remarks fun id => foldBound id part value := by
  apply (Remarks.expectConstant _ _ value fun _ => .problemAt).bind
  rintro (_ | number)
  · exact .pure none
  · exact .ite ((Remarks.problemAt rfl).bind fun _ => .pure none) (.pure _)

theorem remarks_foldBounds (length : LengthRestriction) : Remarks fun id => foldBounds id length := by
  cases length with
  | single value => exact (remarks_foldBound _ value).bind fun _ => .pure _
  | range low high =>
    apply (remarks_foldBound _ low).bind
    intro lower
    have hUpper : Remarks fun id => foldUpperBound id high := by
      cases high with
      | none => exact .pure none
      | some value => exact remarks_foldBound _ value
    apply hUpper.bind
    intro upper
    rcases lower, upper with ⟨_ | _, _ | _⟩
    · exact .pure _
    · exact .pure _
    · exact .pure _
    · exact .ite ((Remarks.problemAt rfl).bind fun _ => .pure _) (.pure _)

theorem remarks_compareWithArray (bounds : LengthBounds) (size : Nat) :
    Remarks fun id => compareWithArray id bounds size := by
  unfold compareWithArray
  cases bounds.arrayConflicts size with
  | nil => exact .warnAt rfl
  | cons _ _ => exact .forM fun _ => .problemAt rfl

theorem CountedElements.isOrdinary_of_mem_problems {found : CountedElements} {bounds : LengthBounds} {p : Problem}
    (h : p ∈ found.problems bounds) : (Finding.error p).isOrdinary := by
  simp only [CountedElements.problems, List.mem_append] at h
  obtain h | h := h
  all_goals
    split at h
    · split at h
      · rw [List.mem_singleton.1 h]
        rfl
      · cases h
    · cases h

end Lengths

section Structures

theorem remarks_checkNotUsed (position : Nat) (permitted : Completeness) :
    Remarks fun item => checkNotUsed item position permitted := by
  cases permitted with
  | complete => exact .problemAt rfl
  | incomplete => exact .pure ()
  | asBase items => exact .ite (.problemAt rfl) (.pure ())

theorem remarks_checkParameterCount (decl : TypeDecl) (params : List ParamDecl) (items : List NodeId) :
    Remarks fun id => checkParameterCount id decl params items :=
  .ite (.problemAt rfl) (.ite (.problemAt rfl) (.pure ()))

theorem remarks_baseGovernor (r : Reference) (expected : Option TypeKey) (base : TypeKey) :
    Remarks fun _ => baseGovernor r expected base := by
  apply Remarks.read.bind
  intro env
  cases expected with
  | none => exact .pure base
  | some type => exact .ite (.pure type) ((Remarks.tell _ rfl).bind fun _ => .pure base)

end Structures

end TemplateCheck
