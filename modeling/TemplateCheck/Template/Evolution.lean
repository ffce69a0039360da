import TemplateCheck.Template

/-!
# How a node evolves

A node keeps its span, length restriction and `ifpresent`. Marks are set and never taken back, and
the form changes only in steps that `Form.mayBecome` permits. Every change that a check makes to a
node is one of the changes below.
-/

namespace TemplateCheck

inductive Form.Becomes : Form → Form → Prop where
  | refl (form : Form) : Becomes form form
  | step {first second third : Form} :
      Becomes first second → second.mayBecome third → Becomes first third

theorem Form.Becomes.trans {first second third : Form} (hFirst : first.Becomes second)
    (hSecond : second.Becomes third) : first.Becomes third := by
  induction hSecond with
  | refl => exact hFirst
  | step _ hStep ih => exact ih.step hStep

structure Template.Evolves (before after : Template) : Prop where
  form : before.form.Becomes after.form
  length : after.length = before.length
  ifPresent : after.ifPresent = before.ifPresent
  span : after.span = before.span
  marks (m : Mark) : before.marks.has m → after.marks.has m

namespace Template

theorem Evolves.refl (t : Template) : t.Evolves t := ⟨.refl _, rfl, rfl, rfl, fun _ h => h⟩

theorem Evolves.trans {first second third : Template} (hFirst : first.Evolves second)
    (hSecond : second.Evolves third) : first.Evolves third where
  form := hFirst.form.trans hSecond.form
  length := hSecond.length.trans hFirst.length
  ifPresent := hSecond.ifPresent.trans hFirst.ifPresent
  span := hSecond.span.trans hFirst.span
  marks m h := hSecond.marks m (hFirst.marks m h)

def mark (t : Template) (m : Mark) : Template := { t with marks := t.marks.set m }

def govern (t : Template) (type : TypeKey) : Template :=
  { t with governor := some type, marks := t.marks.set .checked }

def settle (t : Template) (flattened : Bool) : Template :=
  { t with marks := t.marks.settle flattened }

def linkTo (t : Template) (base : NodeId) : Template := { t with base := some base }

/-- Link a node to a template, unless it modifies one of its own. -/
def inheritFrom (t : Template) (base : NodeId) : Template :=
  { t with base := t.base.or (some base) }

def remember (t : Template) (last : NodeId) : Template :=
  match t.form with
  | .referenced reference _ => { t with form := .referenced reference (some last) }
  | _ => t

theorem has_set {marks : Marks} {m : Mark} (other : Mark) (h : marks.has m) : (marks.set other).has m := by
  cases other <;> cases m <;> simp_all [Marks.has, Marks.set]

@[simp] theorem has_set_self (marks : Marks) (m : Mark) : (marks.set m).has m := by
  cases m <;> rfl

theorem has_settle {marks : Marks} {m : Mark} (flattened : Bool) (h : marks.has m) :
    (marks.settle flattened).has m := by
  cases flattened <;> cases m <;> simp_all [Marks.has, Marks.settle]

theorem evolves_mark (t : Template) (m : Mark) : t.Evolves (t.mark m) :=
  ⟨.refl _, rfl, rfl, rfl, fun _ => has_set m⟩

theorem evolves_govern (t : Template) (type : TypeKey) : t.Evolves (t.govern type) :=
  ⟨.refl _, rfl, rfl, rfl, fun _ => has_set .checked⟩

theorem evolves_settle (t : Template) (flattened : Bool) : t.Evolves (t.settle flattened) :=
  ⟨.refl _, rfl, rfl, rfl, fun _ => has_settle flattened⟩

theorem evolves_linkTo (t : Template) (base : NodeId) : t.Evolves (t.linkTo base) :=
  ⟨.refl _, rfl, rfl, rfl, fun _ h => h⟩

theorem evolves_inheritFrom (t : Template) (base : NodeId) : t.Evolves (t.inheritFrom base) :=
  ⟨.refl _, rfl, rfl, rfl, fun _ h => h⟩

theorem evolves_form {t : Template} {form : Form} (h : t.form.mayBecome form) : t.Evolves { t with form } :=
  ⟨.step (.refl _) h, rfl, rfl, rfl, fun _ h => h⟩

theorem evolves_remember (t : Template) (last : NodeId) : t.Evolves (t.remember last) := by
  unfold remember
  split
  · rename_i reference resolved hForm
    exact evolves_form (by rw [hForm]; simp [Form.mayBecome, Form.variant])
  · exact .refl t

end Template

end TemplateCheck
