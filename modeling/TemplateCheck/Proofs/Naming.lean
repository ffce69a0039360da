import TemplateCheck.Check.Module
import TemplateCheck.Proofs.Glance

/-!
# Renamed nodes

Computations may do the same with nodes that have other names. A naming tells what each computation of a family calls
the nodes of a set. The set is closed under everything that a check follows: children, bases and the bodies of the
templates that are referred to. Marks that no check reads are left out of account.
-/

namespace TemplateCheck

open List

section Rename

variable (ρ : NodeId → NodeId) {α : Type}

def NamedEntry.rename (e : NamedEntry) : NamedEntry := { e with template := ρ e.template }

def IndexedEntry.rename (e : IndexedEntry) : IndexedEntry := { e with template := ρ e.template }

def InlineTemplate.rename (inline : InlineTemplate) : InlineTemplate := { inline with body := ρ inline.body }

def Form.rename : Form → Form
  | .referenced r resolved => .referenced r (resolved.map ρ)
  | .list shape items => .list shape (items.map ρ)
  | .named entries => .named (entries.map (·.rename ρ))
  | .indexed entries => .indexed (entries.map (·.rename ρ))
  | .allFrom target => .allFrom (ρ target)
  | .decoded encoding target => .decoded encoding (target.rename ρ)
  | .concat left right => .concat (ρ left) (ρ right)
  | form => form

def Part.rename : Part → Part
  | .found id type => .found (ρ id) type
  | part => part

def Glance.rename : Glance → Glance
  | .part p => .part (p.rename ρ)
  | .lost fault => .lost fault
  | .inherited base => .inherited (ρ base)

def TargetWalk.rename (walk : TargetWalk) : TargetWalk := { walk with node := ρ walk.node }

def SlotContent.rename : SlotContent → SlotContent
  | .elements items complete => .elements (items.map ρ) complete
  | content => content

def Completeness.rename : Completeness → Completeness
  | .asBase items => .asBase (items.map ρ)
  | permitted => permitted

namespace Form

variable (form : Form)

@[simp] theorem variant_rename : (form.rename ρ).variant = form.variant := by
  cases form <;> rfl

@[simp] theorem isErroneous_rename : (form.rename ρ).isErroneous = form.isErroneous := by
  cases form <;> rfl

@[simp] theorem rename_self : form.rename (fun n => n) = form := by
  cases form with
  | named entries => exact congrArg Form.named (map_id' entries)
  | indexed entries => exact congrArg Form.indexed (map_id' entries)
  | _ => simp [rename, InlineTemplate.rename]

theorem hidesFields_rename : (form.rename ρ).hidesFields = form.hidesFields := by
  cases form with
  | list shape items => cases shape <;> rfl
  | _ => rfl

theorem hidesParts_rename : (form.rename ρ).hidesParts = form.hidesParts := by
  cases form <;> rfl

theorem elements?_rename : (form.rename ρ).elements? = form.elements?.map (·.map ρ) := by
  cases form with
  | list shape items => cases shape <;> rfl
  | _ => rfl

theorem completenessOfList_rename (isArray : Bool) :
    (form.rename ρ).completenessOfList isArray = (form.completenessOfList isArray).rename ρ := by
  cases form with
  | list shape items => cases shape <;> cases isArray <;> rfl
  | _ => rfl

theorem completenessOfAlternative_rename (name : String) :
    (form.rename ρ).completenessOfAlternative name = (form.completenessOfAlternative name).rename ρ := by
  cases form with
  | named entries =>
    have hAny : (entries.map (·.rename ρ)).any (·.name = name) = entries.any (·.name = name) := any_map
    simp only [rename, completenessOfAlternative, hAny]
    split <;> rfl
  | _ => rfl

end Form

theorem elementObstacle_rename (inPermutation : Bool) (form : Form) :
    elementObstacle inPermutation (form.rename ρ) = elementObstacle inPermutation form := by
  cases form with
  | list shape items => cases shape <;> rfl
  | _ => rfl

theorem find?_rename (name : String) (entries : List NamedEntry) :
    (entries.map (·.rename ρ)).find? (·.name = name) = (entries.find? (·.name = name)).map (·.rename ρ) :=
  find?_map

theorem Glance.Stops.rename {g : Glance} (h : g.Stops) : g.rename ρ = g := by
  cases h <;> rfl

theorem Glance.ofElement_rename (item : NodeId) (element : TypeKey) (base : Option NodeId) (form : Form) :
    Glance.ofElement (ρ item) element (base.map ρ) (form.rename ρ) =
      (Glance.ofElement item element base form).rename ρ := by
  cases form with
  | notUsed => cases base <;> rfl
  | _ => rfl

namespace TypeDecl

theorem glanceField_rename (decl : TypeDecl) (name : String) (form : Form) (base : Option NodeId) :
    decl.glanceField name (form.rename ρ) (base.map ρ) = (decl.glanceField name form base).rename ρ := by
  unfold glanceField
  rw [Form.hidesFields_rename, Form.variant_rename]
  split
  · rfl
  cases decl.field? name with
  | none => rfl
  | some field =>
    cases form with
    | named entries =>
      cases decl.category with
      | union fields =>
        cases entries with
        | nil => rfl
        | cons entry entries =>
          by_cases hName : entry.name = name <;>
            simp [Form.rename, NamedEntry.rename, Glance.rename, Part.rename, hName]
      | record fields | set fields =>
        simp only [Form.rename, find?_rename]
        cases entries.find? (·.name = name) <;> cases base <;> rfl
      | _ => rfl
    | list shape items =>
      cases shape with
      | positional =>
        cases decl.category with
        | record fields =>
          simp only [Form.rename, getElem?_map]
          cases decl.fieldIndex? name with
          | none => rfl
          | some index => cases hItem : items[index]? <;> simp [hItem, Glance.rename, Part.rename]
        | _ => rfl
      | _ => cases decl.category <;> rfl
    | _ => cases decl.category <;> rfl

end TypeDecl

theorem incomplete_rename (permitted : Completeness) : permitted.rename ρ = .incomplete ↔ permitted = .incomplete := by
  cases permitted <;> simp [Completeness.rename]

abbrev renameEntry {α : Type} (item : NamedEntry × EntryStatus α) : NamedEntry × EntryStatus α :=
  (item.1.rename ρ, item.2)

@[simp] theorem renameEntry_self : renameEntry (α := α) (fun n => n) = id := rfl

theorem classifyEntries_rename (lookup? : String → Option α) (entries : List NamedEntry) :
    classifyEntries lookup? [] (entries.map (·.rename ρ)) =
      (classifyEntries lookup? [] entries).map (renameEntry ρ) := by
  suffices h : ∀ before : List NamedEntry,
      classifyEntries lookup? (before.map (·.rename ρ)) (entries.map (·.rename ρ)) =
        (classifyEntries lookup? before entries).map (renameEntry ρ) from h []
  induction entries with
  | nil => exact fun _ => rfl
  | cons entry entries ih =>
    intro before
    have hStatus : (entry.rename ρ).status lookup? (before.map (·.rename ρ)) = entry.status lookup? before := by
      unfold NamedEntry.status
      rw [show (entry.rename ρ).name = entry.name from rfl, find?_rename]
      cases lookup? entry.name with
      | none => rfl
      | some declared => cases before.find? (·.name = entry.name) <;> rfl
    rw [map_cons, classifyEntries, classifyEntries, map_cons, hStatus, ← ih]
    rfl

theorem missingFields_rename (fields : List FieldDecl) (entries : List NamedEntry) :
    missingFields fields (entries.map (·.rename ρ)) = missingFields fields entries := by
  unfold missingFields
  congr 1
  funext field
  rw [any_map]
  rfl

end Rename

@[simp] theorem Part.rename_self (part : Part) : part.rename (fun n => n) = part := by
  cases part <;> rfl

@[simp] theorem SlotContent.rename_self (content : SlotContent) : content.rename (fun n => n) = content := by
  cases content <;> simp [rename]

@[simp] theorem Completeness.rename_self (permitted : Completeness) : permitted.rename (fun n => n) = permitted := by
  cases permitted <;> simp [rename]

@[simp] theorem NamedEntry.rename_self : NamedEntry.rename (fun n => n) = id := rfl

@[simp] theorem TargetWalk.rename_self : TargetWalk.rename (fun n => n) = id := rfl

def Form.mentions : Form → List Reference
  | .specific (.ref r) => [r]
  | .referenced r _ => [r]
  | .decoded _ target => target.modifies.toList
  | _ => []

def Marks.forget (m : Marks) : Marks := { m with needsRestrictionCheck := false }

/-- The second template is the first one under other names, up to marks that no check reads. -/
structure Template.Alike (ρ : NodeId → NodeId) (t t' : Template) : Prop where
  form : t'.form = t.form.rename ρ
  base : t'.base = t.base.map ρ
  governor : t'.governor = t.governor
  length : t'.length = t.length
  ifPresent : t'.ifPresent = t.ifPresent
  span : t'.span = t.span
  marks : t'.marks.forget = t.marks.forget

namespace Template.Alike

variable {ρ : NodeId → NodeId} {t t' : Template}

theorem of_eq (h : t' = t) : t.Alike (fun n => n) t' := by
  subst h
  exact ⟨by simp, by simp, rfl, rfl, rfl, rfl, rfl⟩

variable (h : t.Alike ρ t')

include h

theorem checked : t'.marks.checked = t.marks.checked := (congrArg Marks.checked h.marks :)

theorem folded : t'.marks.folded = t.marks.folded := (congrArg Marks.folded h.marks :)

theorem flattened : t'.marks.flattened = t.marks.flattened :=
  (congrArg Marks.flattened h.marks :)

theorem valueChecked : t'.marks.valueChecked = t.marks.valueChecked :=
  (congrArg Marks.valueChecked h.marks :)

theorem lengthChecked : t'.marks.lengthChecked = t.marks.lengthChecked :=
  (congrArg Marks.lengthChecked h.marks :)

theorem operandFault? (defs : Definitions) (text : Option CharFamily) :
    defs.operandFault? text t' = defs.operandFault? text t := by
  unfold Definitions.operandFault?
  rw [h.form, h.length]
  cases t.form with
  | list shape items => cases shape <;> cases text <;> rfl
  | _ => cases text <;> rfl

end Template.Alike

theorem mem_of_mem_classifyEntries {α : Type} {lookup? : String → Option α} {before entries : List NamedEntry}
    {item : NamedEntry × EntryStatus α} (h : item ∈ classifyEntries lookup? before entries) : item.1 ∈ entries := by
  induction entries generalizing before with
  | nil => cases h
  | cons entry entries ih =>
    obtain rfl | hRest := mem_cons.1 h
    · exact mem_cons_self
    · exact mem_cons_of_mem _ (ih hRest)

/-- What the computations of a family call the nodes of a set, and the settings that they read. Where the leading ones
do not end, nothing is asked of the others. References may be known to be defined. -/
structure Naming (ι : Type) where
  At : Env → Prop
  defined : Prop
  leads : ι → Prop
  dom : NodeId → Prop
  map : ι → NodeId → NodeId
  injective : ∀ {i n m}, dom n → dom m → map i n = map i m → n = m

instance {ι : Type} : CoeFun (Naming ι) fun _ => ι → NodeId → NodeId := ⟨Naming.map⟩

namespace Naming

/-- All nodes have the same name in all computations. -/
def plain (ι : Type) (At : Env → Prop) : Naming ι :=
  ⟨At, False, fun _ => True, fun _ => True, fun _ n => n, fun _ _ h => h⟩

variable {ι : Type} (N : Naming ι) {At : Env → Prop} {i : ι}

@[simp] theorem plain_map (At : Env → Prop) (i : ι) : plain ι At i = fun n => n := rfl

variable {N} in
theorem eq_iff {n m : NodeId} (hn : N.dom n) (hm : N.dom m) : N i n = N i m ↔ n = m :=
  ⟨N.injective hn hm, congrArg (N i)⟩

def Covers (r : Reference) : Prop :=
  ∀ env definition template, N.At env → env.definitions.target? r = some definition →
    definition.kind.template? = some template → N.dom template.body ∧ ∀ i, N i template.body = template.body

structure Holds (form : Form) : Prop where
  children : ∀ child ∈ form.children, N.dom child
  mentions : ∀ r ∈ form.mentions, N.Covers r
  target : N.defined → ∀ env r resolved, N.At env → form = .referenced r resolved → (env.definitions.target? r).isSome

structure Shows (t : Template) (shown : ι → Template) : Prop where
  alike : ∀ i, t.Alike (N i) (shown i)
  holds : N.Holds t.form
  base : ∀ base, t.base = some base → N.dom base

theorem Shows.like {t : Template} {shown : ι → Template} (h : N.Shows t shown) : t.Alike (N i) (shown i) :=
  h.alike i

theorem covers_plain (r : Reference) : (plain ι At).Covers r :=
  fun _ _ _ _ _ _ => ⟨trivial, fun _ => rfl⟩

theorem holds_plain (form : Form) : (plain ι At).Holds form :=
  ⟨fun _ _ => trivial, fun r _ => covers_plain r, nofun⟩

theorem Shows.plain (t : Template) : (plain ι At).Shows t fun _ => t where
  alike _ := .of_eq rfl
  holds := holds_plain t.form
  base _ _ := trivial

/-- Depths to which the computations may go. The leading ones go least deep. -/
def Depths (least : Nat) (depth : ι → Nat) : Prop := ∀ i, least ≤ depth i ∧ (N.leads i → depth i = least)

theorem Depths.pred {N : Naming ι} {least : Nat} {depth : ι → Nat} (h : N.Depths (least + 1) depth) :
    ∃ less, N.Depths least less ∧ depth = fun i => less i + 1 := by
  refine ⟨fun i => depth i - 1, fun i => ⟨?_, fun hi => ?_⟩, funext fun i => ?_⟩
  · exact Nat.le_sub_of_add_le (h i).1
  · exact Nat.sub_eq_of_eq_add ((h i).2 hi)
  · exact (Nat.sub_add_cancel (Nat.le_trans (Nat.le_add_left 1 least) (h i).1)).symm

abbrev All (items : List NodeId) : Prop := ∀ item ∈ items, N.dom item

@[simp] abbrev list (i : ι) : List NodeId → List NodeId := List.map (N i)

@[simp] abbrev part (i : ι) : Part → Part := .rename (N i)

@[simp] abbrev walk (i : ι) : Option TargetWalk → Option TargetWalk := Option.map (.rename (N i))

@[simp] abbrev content (i : ι) : SlotContent → SlotContent := .rename (N i)

@[simp] abbrev expanded (i : ι) (result : List NodeId × Bool) : List NodeId × Bool := (result.1.map (N i), result.2)

@[simp] abbrev entries (i : ι) : List NamedEntry → List NamedEntry := List.map (.rename (N i))

@[simp] abbrev permitted (i : ι) : Completeness → Completeness := .rename (N i)

def Part (part : TemplateCheck.Part) : Prop := ∀ id type, part = .found id type → N.dom id

variable {N} in
theorem part_found {id : NodeId} (hId : N.dom id) (type : TypeKey) : N.Part (.found id type) := by
  rintro _ _ ⟨⟩
  exact hId

def Walk (walk : Option TargetWalk) : Prop := ∀ found, walk = some found → N.dom found.node

def Content (content : SlotContent) : Prop := ∀ items complete, content = .elements items complete → N.All items

def Expanded (result : List NodeId × Bool) : Prop := N.All result.1

def Permits (permitted : Completeness) : Prop := ∀ items, permitted = .asBase items → N.All items

end Naming

end TemplateCheck
