import TemplateCheck.Fault

/-!
# Computations along a preorder

A computation on states may fail, and a failure keeps what was changed before it. Either way the
state moves only along a preorder, which a computation proves of itself. Whatever is composed of such
computations moves along the same preorder, without a further proof.
-/

namespace TemplateCheck

/-- A preorder that states move along. -/
class Course {σ : Type} (R : σ → σ → Prop) : Prop where
  refl (s : σ) : R s s
  trans {a b c : σ} : R a b → R b c → R a c

/-- A computation that moves its state along `R`. -/
@[ext]
structure Tracked {σ : Type} (R : σ → σ → Prop) (α : Type) where
  run : σ → Except Fault α × σ
  along (s : σ) : R s (run s).2

namespace Tracked

variable {σ α β : Type} {R : σ → σ → Prop} [Course R]

def still (result : σ → Except Fault α) : Tracked R α := ⟨fun s => (result s, s), Course.refl⟩

def bind (x : Tracked R α) (f : α → Tracked R β) : Tracked R β where
  run s :=
    match x.run s with
    | (.ok a, after) => (f a).run after
    | (.error fault, after) => (.error fault, after)
  along s := by
    have hFirst := x.along s
    split
    · rename_i a after hRun
      rw [hRun] at hFirst
      exact Course.trans hFirst ((f a).along after)
    · rename_i fault after hRun
      rw [hRun] at hFirst
      exact hFirst

def tryCatch (x : Tracked R α) (handle : Fault → Tracked R α) : Tracked R α where
  run s :=
    match x.run s with
    | (.ok a, after) => (.ok a, after)
    | (.error fault, after) => (handle fault).run after
  along s := by
    have hFirst := x.along s
    split
    · rename_i a after hRun
      rw [hRun] at hFirst
      exact hFirst
    · rename_i fault after hRun
      rw [hRun] at hFirst
      exact Course.trans hFirst ((handle fault).along after)

instance : Monad (Tracked R) where
  pure a := still fun _ => .ok a
  bind := bind

instance : MonadExceptOf Fault (Tracked R) where
  throw fault := still fun _ => .error fault
  tryCatch := tryCatch

def get : Tracked R σ := still .ok

@[simp] theorem run_pure (a : α) (s : σ) : (pure a : Tracked R α).run s = (.ok a, s) := rfl

@[simp] theorem run_throw (fault : Fault) (s : σ) : (throw fault : Tracked R α).run s = (.error fault, s) := rfl

@[simp] theorem run_get (s : σ) : (get : Tracked R σ).run s = (.ok s, s) := rfl

theorem run_bind (x : Tracked R α) (f : α → Tracked R β) (s : σ) : (x >>= f).run s =
      match x.run s with
      | (.ok a, after) => (f a).run after
      | (.error fault, after) => (.error fault, after) := rfl

theorem bind_pure_eq (x : Tracked R α) : x >>= pure = x := by
  ext s : 2
  rw [run_bind]
  split <;> simp_all

theorem bind_assoc_eq {γ : Type} (x : Tracked R α) (f : α → Tracked R β) (g : β → Tracked R γ) :
    x >>= f >>= g = x >>= fun a => f a >>= g := by
  ext s : 2
  simp only [run_bind]
  rcases x.run s with ⟨_ | a, after⟩ <;> rfl

instance : LawfulMonad (Tracked R) :=
  LawfulMonad.mk' _ bind_pure_eq (fun _ _ => rfl) bind_assoc_eq

end Tracked

end TemplateCheck
