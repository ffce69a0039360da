import TemplateCheck.Proofs.Depth
import TemplateCheck.Proofs.Scope

/-!
# The order of checks

Definitions are checked one after the other. Two checks next to each other can change places if neither definition is in
the scope of the other: both report the same as before, and the stores are the same up to the names of the nodes that
were added. So the order of checks makes no difference to what is reported as long as definitions are checked in the
same order where one is in the scope of the other.

There the order does matter: a chain ends at a reference that is not recognized yet, which happens when the definition
around it is checked. It also matters if the store holds recognized references that nobody has followed to the end.
Checks leave no such reference behind.
-/

namespace TemplateCheck

open Renaming Store
open List

variable {env : Env} {defs : Definitions} {s : Store} {a d : DefId}

section Exchange

/-- The names of nodes that were added by two checks after the checks have changed places. -/
def Renaming.exchange (defs : Definitions) (s : Store) (j k : Nat) : Renaming defs where
  map n :=
    if n.index < s.size then n
    else if n.index < s.size + j then ⟨n.index + k⟩
    else if n.index < s.size + j + k then ⟨n.index - j⟩
    else n
  dom _ := True
  injective {n m} _ _ hEq := by
    obtain ⟨n⟩ := n
    obtain ⟨m⟩ := m
    simp only at hEq
    split_ifs at hEq <;> simp only [NodeId.mk.injEq] at hEq ⊢ <;> omega

variable {j k : Nat} {D : NodeId → Prop} {n : NodeId}

theorem Renaming.exchange_of_has (hn : s.Has n) : Renaming.exchange defs s j k n = n := if_pos hn

theorem Renaming.exchange_first (hn : n.index < s.size + j) :
    Renaming.exchange defs s j k n = Renaming.shift defs s k D n := by
  simp only [Renaming.exchange, Renaming.shift, hn, if_true]

theorem Renaming.exchange_second (hn : n.index < s.size + k) :
    Renaming.exchange defs s j k (Renaming.shift defs s j D n) = n := by
  by_cases hHas : s.Has n
  · rw [shift_of_has hHas, exchange_of_has hHas]
  · unfold Has at hHas
    have hFirst : ¬ n.index + j < s.size := by omega
    have hSecond : ¬ n.index + j < s.size + j := by omega
    have hThird : n.index + j < s.size + j + k := by omega
    simp only [Renaming.exchange, Renaming.shift, hHas, hFirst, hSecond, hThird, if_false, if_true, Nat.add_sub_cancel]

theorem Renaming.exchange_new (hn : ¬ n.index < s.size + j + k) : Renaming.exchange defs s j k n = n := by
  have hFirst : ¬ n.index < s.size := by omega
  have hSecond : ¬ n.index < s.size + j := by omega
  simp only [Renaming.exchange, hFirst, hSecond, hn, if_false]

theorem Store.Agree.size_eq {s2 s12 : Store} (h : s2.Agree (.shift defs s j D) NonePending s12)
    (hSize : s.size ≤ s2.size) : s12.size = s2.size + j := by
  have hNew : ¬ s.Has ⟨s2.size + 0⟩ := Nat.not_lt.2 hSize
  have hShift := h.shift 0
  rw [shift_of_not_has hNew] at hShift
  exact (NodeId.mk.inj hShift).symm

/-- Two definitions that are not in each other's scope were checked in both orders. -/
structure Store.Crossed (defs : Definitions) (s : Store) (a d : DefId) (j k : Nat) (s1 s2 s12 s21 : Store) : Prop where
  origin : s.WellFormed defs
  first : s.Passed defs a s1
  second : s.Passed defs d s2
  second' : s1.Passed defs d s12
  first' : s2.Passed defs a s21
  size_first : s1.size = s.size + j
  size_second : s2.size = s.size + k
  free : ¬ s.Involves defs d a
  free' : ¬ s.Involves defs a d
  agree : s2.Agree (.shift defs s j (s.Scope defs d)) NonePending s12
  agree' : s1.Agree (.shift defs s k (s.Scope defs a)) NonePending s21

def Store.Paired (ρ : NodeId → NodeId) (s s' : Store) (n : NodeId) : Prop :=
  ∃ t, s.get? n = some t ∧ ∃ t', s'.get? (ρ n) = some t' ∧ t.Alike ρ t'

namespace Store.Crossed

variable {s1 s2 s12 s21 : Store}

section

variable (h : Crossed defs s a d j k s1 s2 s12 s21)

include h

/-- Nodes of the definition that was checked second are as after its check alone. -/
theorem paired_second (hHas : s2.Has n) (hn : s.Scope defs d n ∨ ¬ s.Has n) :
    s12.Paired (Renaming.exchange defs s j k) s21 (Renaming.shift defs s j (s.Scope defs d) n) := by
  have hBack : ∀ m, s2.Has m → Renaming.exchange defs s j k (Renaming.shift defs s j (s.Scope defs d) m) = m := by
    intro m hm
    apply exchange_second
    rw [← h.size_second]
    exact hm
  obtain ⟨t, hFound⟩ := hHas.exists_get?
  obtain ⟨t12, hFound12, hMatches⟩ := h.agree.nodes n t hn hFound
  obtain ⟨t21, hFound21, hKept⟩ := h.first'.kept hFound (h.second.not_tree h.origin h.free hn hHas)
  refine ⟨t12, hFound12, t21, ?_, hMatches.alike.join hKept fun link hLink => ?_⟩
  · rwa [hBack n hHas]
  · exact hBack link (h.second.wellFormed.links n t hFound link hLink)

/-- Nodes of the definition that was checked first are as after its check alone. -/
theorem paired_first (hHas : s1.Has n)
    (hn : s.Scope defs a n ∨ ¬ s.Has n) : s12.Paired (Renaming.exchange defs s j k) s21 n := by
  have hForth : ∀ m, s1.Has m → Renaming.exchange defs s j k m = Renaming.shift defs s k (s.Scope defs a) m := by
    intro m hm
    apply exchange_first
    rw [← h.size_first]
    exact hm
  obtain ⟨t, hFound⟩ := hHas.exists_get?
  obtain ⟨t12, hFound12, hKept⟩ := h.second'.kept hFound (h.first.not_tree h.origin h.free' hn hHas)
  obtain ⟨t21, hFound21, hMatches⟩ := h.agree'.nodes n t hn hFound
  refine ⟨t12, hFound12, t21, ?_, hKept.join hMatches.alike fun link hLink => ?_⟩
  · rwa [hForth n hHas]
  · exact hForth link (h.first.wellFormed.links n t hFound link hLink)

theorem paired_neither (hHas : s.Has n)
    (ha : ¬ s.Scope defs a n) (hd : ¬ s.Scope defs d n) : s12.Paired (Renaming.exchange defs s j k) s21 n := by
  obtain ⟨t, hFound⟩ := hHas.exists_get?
  obtain ⟨t1, hFound1, hKept1⟩ := h.first.kept hFound fun hTree => ha (scope_of_tree h.origin hTree)
  obtain ⟨t12, hFound12, hKept12⟩ := h.second'.kept hFound1 (h.first.not_tree_outside h.origin h.free hd)
  obtain ⟨t2, hFound2, hKept2⟩ := h.second.kept hFound fun hTree => hd (scope_of_tree h.origin hTree)
  obtain ⟨t21, hFound21, hKept21⟩ := h.first'.kept hFound2 (h.second.not_tree_outside h.origin h.free' ha)
  refine ⟨t12, hFound12, t21, ?_, (hKept1.trans hKept12).join (hKept2.trans hKept21) fun link hLink => ?_⟩
  · rwa [exchange_of_has hHas]
  · exact exchange_of_has (h.origin.links n t hFound link hLink)

theorem paired (hHas : s12.Has n) : s12.Paired (Renaming.exchange defs s j k) s21 n := by
  by_cases hOld : s.Has n
  · by_cases hd : s.Scope defs d n
    · have hPaired := h.paired_second (hOld.of_size_le h.second.framed.size_le) (.inl hd)
      rwa [shift_of_has hOld] at hPaired
    · by_cases ha : s.Scope defs a n
      · exact h.paired_first (hOld.of_size_le h.first.framed.size_le) (.inl ha)
      · exact h.paired_neither hOld ha hd
  · by_cases hFirst : s1.Has n
    · exact h.paired_first hFirst (.inr hOld)
    · -- The check that came second added this node, under a lower name where it came alone.
      have hSize := h.agree.size_eq h.second.framed.size_le
      have hSizeFirst := h.size_first
      unfold Has at hHas hFirst
      have hLower : ¬ s.Has ⟨n.index - j⟩ := by
        change ¬ n.index - j < s.size
        omega
      have hSecond : s2.Has ⟨n.index - j⟩ := by
        change n.index - j < s2.size
        omega
      have hPaired := h.paired_second hSecond (.inr hLower)
      rwa [shift_of_not_has hLower, Nat.sub_add_cancel (by omega)] at hPaired

theorem agree_exchange : s12.Agree (.exchange defs s j k) NonePending s21 := by
  have hSize12 : s12.size = s.size + j + k := by
    have hSize := h.agree.size_eq h.second.framed.size_le
    have hSecond := h.size_second
    omega
  have hSize21 : s21.size = s.size + j + k := by
    have hSize := h.agree'.size_eq h.first.framed.size_le
    have hFirst := h.size_first
    omega
  constructor
  · intro n t _ hFound
    obtain ⟨_, hFound', t', hFound21, hAlike⟩ := h.paired (has_of_get? hFound)
    cases hFound.symm.trans hFound'
    refine ⟨t', hFound21, hAlike, ⟨fun _ _ => trivial, fun _ _ => trivial, ?_⟩, fun _ _ => trivial, fun r hr => ?_⟩
    · intro r _ definition template hTarget hTemplate
      obtain ⟨e, -, hGet⟩ := Option.bind_eq_some_iff.1 hTarget
      have hBody := h.origin.has_body (Definitions.body?_eq hGet hTemplate)
      exact ⟨trivial, (exchange_of_has hBody).symm⟩
    · exact absurd hr (h.second'.followed n t r hFound)
  · exact fun _ _ => trivial
  · intro i
    have hNew : ¬ (⟨s12.size + i⟩ : NodeId).index < s.size + j + k := by
      change ¬ s12.size + i < s.size + j + k
      omega
    rw [exchange_new hNew, hSize12, hSize21]
  · omega

end

end Store.Crossed

end Exchange

section Runs

variable {depth : Nat} {st st' after after' : CheckState} {ids ids' xs ys : List DefId} {outcome : Outcome}
  {st1 st2 : CheckState} {e : DefId}

structure CheckState.Ready (env : Env) (st : CheckState) : Prop where
  wellFormed : st.store.WellFormed env.definitions
  followed : st.store.Followed

theorem CheckState.Ready.passed (hReady : st.Ready env)
    (hRun : (checkDefinition depth d env).run st = (.ok outcome, after)) :
    st.store.Passed env.definitions d after.store :=
  passed_checkDefinition hReady.wellFormed hReady.followed hRun

theorem CheckState.Ready.next (hReady : st.Ready env)
    (hRun : (checkDefinition depth d env).run st = (.ok outcome, after)) : after.Ready env :=
  ⟨(hReady.passed hRun).wellFormed, (hReady.passed hRun).followed⟩

inductive Checked (env : Env) (depth : Nat) : List DefId → CheckState → CheckState → Prop where
  | nil {st : CheckState} : Checked env depth [] st st
  | cons {d : DefId} {ids : List DefId} {outcome : Outcome} {st middle after : CheckState}
    (hHead : (checkDefinition depth d env).run st = (.ok outcome, middle))
    (hTail : Checked env depth ids middle after) : Checked env depth (d :: ids) st after

theorem run_after_other {j : Nat} (hReady : st.Ready env) (hOther : st.store.Passed env.definitions a st1.store)
    (hContext : st1.report.context = st.report.context) (hSize : st1.store.size = st.store.size + j)
    (hFree : ¬ st.store.Involves env.definitions d a)
    (hRun : (checkDefinition depth d env).run st = (.ok outcome, st2)) :
    ∃ st12, (checkDefinition depth d env).run st1 = (.ok outcome, st12) ∧
      Twin (.shift env.definitions st.store j (st.store.Scope env.definitions d)) NonePending
        st.report.diagnostics st1.report.diagnostics st2 st12 := by
  have hSealed := hReady.wellFormed.sealed_scope d
  have hAgree : st.store.Agree (.shift env.definitions st.store j (st.store.Scope env.definitions d)) NonePending
      st1.store := by
    apply hSealed.agree hReady.wellFormed hReady.followed hSize
    intro n t hn hFound
    exact hOther.kept hFound (hSealed.not_tree (fun body hBody hMem => hFree ⟨body, hBody, hMem⟩) hn)
  have hTwin : Twin (.shift env.definitions st.store j (st.store.Scope env.definitions d)) NonePending
      st.report.diagnostics st1.report.diagnostics st st1 := ⟨hAgree, hContext, [], by simp, by simp⟩
  have hMirrors : Mirrors env (.shift _ st.store j (st.store.Scope env.definitions d)) NonePending
      NonePending (checkDefinition depth d) (checkDefinition depth d) Eq :=
    mirrors_checkDefinition depth (hSealed.hosts (st.store.scope_of_body env.definitions d))
  obtain ⟨_, st12, hRun', rfl, hTwin'⟩ := hMirrors.run _ _ st st1 outcome st2 hTwin hRun
  exact ⟨st12, hRun', hTwin'⟩

/-- Neither of two definitions is in the scope of the other. -/
structure Store.Apart (defs : Definitions) (s : Store) (d e : DefId) : Prop where
  left : ¬ s.Involves defs d e
  right : ¬ s.Involves defs e d

theorem Store.Parted.apart {p q : NodeId → Bool} (hp : s.Parted defs p) (hq : s.Parted defs q)
    (hs : s.WellFormed defs) (hd : ∀ body ∈ defs.body? d, p body ∧ ¬ q body)
    (he : ∀ body ∈ defs.body? e, q body ∧ ¬ p body) : s.Apart defs d e := by
  constructor
  · apply (hp.sealed hs).not_involves
    · exact fun body hBody => ⟨hs.has_body hBody, (hd body hBody).1⟩
    · exact fun body hBody hIn => (he body hBody).2 hIn.2
  · apply (hq.sealed hs).not_involves
    · exact fun body hBody => ⟨hs.has_body hBody, (he body hBody).1⟩
    · exact fun body hBody hIn => (hd body hBody).2 hIn.2

theorem Store.Passed.apart {s' : Store} {c : DefId} (hs : s.WellFormed defs) (h : s.Passed defs c s')
    (hApart : s.Apart defs d e) : s'.Apart defs d e :=
  ⟨fun hInvolves => hApart.left (h.involves hs hInvolves), fun hInvolves => hApart.right (h.involves hs hInvolves)⟩

structure CheckState.Rearranged (env : Env) (st st' : CheckState) : Prop where
  store : ∃ ρ : Renaming env.definitions, (∀ d, ρ.Hosts d) ∧ st.store.Agree ρ NonePending st'.store
  context : st'.report.context = st.report.context
  diagnostics : st.report.diagnostics.Perm st'.report.diagnostics

theorem run_exchange {outcome1 outcome2 : Outcome} (hReady : st.Ready env) (hApart : st.store.Apart env.definitions a d)
    (hFirst : (checkDefinition depth a env).run st = (.ok outcome1, st1))
    (hSecond : (checkDefinition depth d env).run st = (.ok outcome2, st2)) :
    ∃ st12 st21, (checkDefinition depth d env).run st1 = (.ok outcome2, st12) ∧
      (checkDefinition depth a env).run st2 = (.ok outcome1, st21) ∧ st12.Rearranged env st21 := by
  have hPassed1 := hReady.passed hFirst
  have hPassed2 := hReady.passed hSecond
  have hExtends1 := (evolves_of_run hFirst).report
  have hExtends2 := (evolves_of_run hSecond).report
  obtain ⟨j, hSize1⟩ := Nat.exists_eq_add_of_le hPassed1.framed.size_le
  obtain ⟨k, hSize2⟩ := Nat.exists_eq_add_of_le hPassed2.framed.size_le
  obtain ⟨st12, hSecond', hTwin⟩ :=
    run_after_other hReady hPassed1 hExtends1.context hSize1 hApart.right hSecond
  obtain ⟨st21, hFirst', hTwin'⟩ :=
    run_after_other hReady hPassed2 hExtends2.context hSize2 hApart.left hFirst
  have hCrossed : Crossed env.definitions st.store a d j k st1.store st2.store st12.store st21.store :=
    ⟨hReady.wellFormed, hPassed1, hPassed2, (hReady.next hFirst).passed hSecond',
      (hReady.next hSecond).passed hFirst', hSize1, hSize2, hApart.right, hApart.left, hTwin.store, hTwin'.store⟩
  have hHosts := hReady.wellFormed.hosts (ρ := .exchange env.definitions st.store j k) (fun _ => trivial)
    fun n => exchange_of_has
  refine ⟨st12, st21, hSecond', hFirst', ⟨_, hHosts, hCrossed.agree_exchange⟩, ?_, ?_⟩
  · rw [hTwin.context, hTwin'.context, hExtends1.context, hExtends2.context]
  · obtain ⟨found2, hFound2, hFound12⟩ := hTwin.found
    obtain ⟨found1, hFound1, hFound21⟩ := hTwin'.found
    rw [hFound12, hFound21, hFound1, hFound2, append_assoc, append_assoc]
    exact perm_append_comm.append_left _

theorem CheckState.Rearranged.step (h : st.Rearranged env st')
    (hRun : (checkDefinition depth d env).run st = (.ok outcome, after)) :
    ∃ after', (checkDefinition depth d env).run st' = (.ok outcome, after') ∧ after.Rearranged env after' := by
  obtain ⟨ρ, hHosts, hAgree⟩ := h.store
  have hTwin : Twin ρ NonePending st.report.diagnostics st'.report.diagnostics st st' :=
    ⟨hAgree, h.context, [], by simp, by simp⟩
  obtain ⟨_, after', hRun', rfl, hTwin'⟩ :=
    (mirrors_checkDefinition depth (hHosts d)).run _ _ st st' outcome after hTwin hRun
  refine ⟨after', hRun', ⟨ρ, hHosts, hTwin'.store⟩, hTwin'.context, ?_⟩
  obtain ⟨found, hFound, hFound'⟩ := hTwin'.found
  rw [hFound, hFound']
  exact h.diagnostics.append_right found

theorem Checked.rearranged (hChecked : Checked env depth ids st after) (h : st.Rearranged env st') :
    ∃ after', Checked env depth ids st' after' ∧ after.Rearranged env after' := by
  induction hChecked generalizing st' with
  | nil => exact ⟨st', .nil, h⟩
  | cons hHead _ ih =>
    obtain ⟨middle', hHead', hMiddle⟩ := h.step hHead
    obtain ⟨after', hTail', hAfter⟩ := ih hMiddle
    exact ⟨after', .cons hHead' hTail', hAfter⟩

theorem Checked.move_front (hChecked : Checked env depth (xs ++ d :: ys) st after) (hReady : st.Ready env)
    (hRun : (checkDefinition depth d env).run st = (.ok outcome, st2))
    (hApart : ∀ a ∈ xs, st.store.Apart env.definitions a d) : ∃ after', Checked env depth (xs ++ ys) st2 after' ∧
      after.report.diagnostics.Perm after'.report.diagnostics := by
  induction xs generalizing st st2 with
  | nil =>
    cases hChecked with
    | cons hHead hTail =>
      cases hHead.symm.trans hRun
      exact ⟨after, hTail, .refl _⟩
  | cons a xs ih =>
    cases hChecked with
    | cons hHead hTail =>
      obtain ⟨st12, st21, hSecond, hFirst, hRearranged⟩ :=
        run_exchange hReady (hApart a mem_cons_self) hHead hRun
      have hLater : ∀ b ∈ xs, Apart env.definitions _ b d := fun b hb =>
        (hReady.passed hHead).apart hReady.wellFormed (hApart b (mem_cons_of_mem a hb))
      obtain ⟨middle, hMiddle, hPerm⟩ := ih hTail (hReady.next hHead) hSecond hLater
      obtain ⟨after', hRest, hAfter⟩ := hMiddle.rearranged hRearranged
      exact ⟨after', .cons hFirst hRest, hPerm.trans hAfter.diagnostics⟩

/-- Definitions that are checked in another order, but in the same order where they have to do with each
other. -/
theorem Checked.perm (hChecked : Checked env depth ids st after) (hReady : st.Ready env) (hPerm : ids.Perm ids')
    (hApart : ∀ d e, d ≠ e → [d, e].Sublist ids → [e, d].Sublist ids' → st.store.Apart env.definitions d e)
    (hChecked' : Checked env depth ids' st after') : after.report.diagnostics.Perm after'.report.diagnostics := by
  induction hChecked generalizing ids' after' with
  | nil =>
    obtain rfl := nil_perm.1 hPerm
    cases hChecked'
    exact .refl _
  | @cons d ids outcome st middle after hHead hTail ih =>
    obtain ⟨xs, ys, rfl, hNot⟩ := eq_append_cons_of_mem (hPerm.subset mem_cons_self)
    have hRest : ids.Perm (xs ++ ys) := (hPerm.trans perm_middle).cons_inv
    have hFront : ∀ a ∈ xs, st.store.Apart env.definitions a d := by
      intro a ha
      have hNe : d ≠ a := fun hEq => hNot (hEq ▸ ha)
      have hLater : [d, a].Sublist (d :: ids) :=
        (singleton_sublist.2 (hRest.mem_iff.2 (mem_append_left ys ha))).cons_cons d
      have hEarlier : [a, d].Sublist (xs ++ d :: ys) :=
        (singleton_sublist.2 ha).append (singleton_sublist.2 mem_cons_self)
      exact ⟨(hApart d a hNe hLater hEarlier).right, (hApart d a hNe hLater hEarlier).left⟩
    obtain ⟨after'', hMoved, hSame⟩ := hChecked'.move_front hReady hHead hFront
    apply (ih (hReady.next hHead) hRest ?_ hMoved).trans hSame.symm
    intro e f hNe hBefore hAfter
    apply (hReady.passed hHead).apart hReady.wellFormed
    apply hApart e f hNe (hBefore.cons d)
    exact hAfter.trans ((List.Sublist.refl xs).append (sublist_cons_self d ys))

end Runs

namespace Session

def Faultless (s : Session) : List (Nat × Operation) → Prop
  | [] => True
  | (depth, op) :: history =>
    (s.performWithin depth op).1 = none ∧ (s.performWithin depth op).2.Faultless history

instance decidableFaultless (s : Session) : (history : List (Nat × Operation)) → Decidable (s.Faultless history)
  | [] => .isTrue trivial
  | (depth, op) :: history =>
    have := (s.performWithin depth op).2.decidableFaultless history
    inferInstanceAs (Decidable (_ ∧ _))

def definitionChecks (order : List (Nat × DefId)) : List (Nat × Operation) :=
  order.map fun entry => (entry.1, .checkDefinition entry.2)

theorem performWithin_env (s : Session) (depth : Nat) (op : Operation) : (s.performWithin depth op).2.env = s.env := by
  cases op <;> simp [performWithin, run, env]

theorem run_of_performWithin {s : Session} {depth : Nat} (h : (s.performWithin depth (.checkDefinition d)).1 = none) :
    ∃ outcome, (TemplateCheck.checkDefinition depth d s.env).run s.state =
      (.ok outcome, (s.performWithin depth (.checkDefinition d)).2.state) := by
  rcases hRun : (TemplateCheck.checkDefinition depth d s.env).run s.state with ⟨fault | outcome, after⟩
  · have hFault : (s.performWithin depth (.checkDefinition d)).1 = some fault :=
      ended_fst_eq_some.2 (congrArg Prod.fst hRun)
    cases h.symm.trans hFault
  · refine ⟨outcome, Prod.ext rfl ?_⟩
    rw [performWithin, ended_snd]
    exact (congrArg Prod.snd hRun).symm

theorem Faultless.checked {s : Session} {order : List (Nat × DefId)}
    (h : s.Faultless (definitionChecks order)) : ∃ bound, ∀ depth, bound ≤ depth →
      Checked s.env depth (order.map Prod.snd) s.state (s.after (definitionChecks order)).state := by
  induction order generalizing s with
  | nil => exact ⟨0, fun _ _ => .nil⟩
  | cons entry order ih =>
    obtain ⟨hHead, hTail⟩ := h
    obtain ⟨bound, hRest⟩ := ih hTail
    rw [performWithin_env] at hRest
    refine ⟨max entry.1 bound, fun depth hDepth => ?_⟩
    have hSame : s.performWithin depth (.checkDefinition entry.2) =
        s.performWithin entry.1 (.checkDefinition entry.2) := by
      apply s.performWithin_of_le _ (Nat.le_trans (Nat.le_max_left _ _) hDepth)
      rw [hHead]
      exact nofun
    rw [← hSame] at hHead
    obtain ⟨outcome, hRun⟩ := run_of_performWithin hHead
    rw [hSame] at hRun
    exact .cons hRun (hRest depth (Nat.le_trans (Nat.le_max_right _ _) hDepth))

/-- Two orders of checks report the same, but for the order of the diagnostics, if definitions of which one
is in the scope of the other come in the same order. -/
theorem orders_agree (s : Session) (hWell : s.WellFormed) (hFollowed : s.store.Followed)
    (first second : List (Nat × DefId)) (hPerm : (first.map Prod.snd).Perm (second.map Prod.snd))
    (hApart : ∀ d e, d ≠ e → [d, e].Sublist (first.map Prod.snd) → [e, d].Sublist (second.map Prod.snd) →
      s.store.Apart s.definitions d e)
    (hFirst : s.Faultless (definitionChecks first)) (hSecond : s.Faultless (definitionChecks second)) :
    ∃ found found', (s.after (definitionChecks first)).report.diagnostics = s.report.diagnostics ++ found ∧
      (s.after (definitionChecks second)).report.diagnostics = s.report.diagnostics ++ found' ∧
      found.Perm found' := by
  obtain ⟨bound, hChecked⟩ := hFirst.checked
  obtain ⟨bound', hChecked'⟩ := hSecond.checked
  have hReady : s.state.Ready s.env := ⟨hWell, hFollowed⟩
  have hSame := (hChecked (max bound bound') (Nat.le_max_left _ _)).perm hReady hPerm hApart
    (hChecked' (max bound bound') (Nat.le_max_right _ _))
  obtain ⟨found, hFound, -⟩ := (s.after_evolves (definitionChecks first)).report.added
  obtain ⟨found', hFound', -⟩ := (s.after_evolves (definitionChecks second)).report.added
  rw [hFound, hFound'] at hSame
  exact ⟨found, found', hFound, hFound', (perm_append_left_iff _).1 hSame⟩

/-- A number, a template of the wrong type that refers to it, and a value of the wrong type. -/
def mistyped : Session where
  types := ⟨[(1, ⟨"integer", .integer⟩), (2, ⟨"boolean", .boolean⟩)]⟩
  definitions := ⟨[.ofBody "one" 1 0,
    .ofBody "same" 2 1, .ofBody "other" 1 2]⟩
  store := .ofForms [.ofInteger 1, .ofName "one" 0,
    .specific (.boolean true)]

theorem orders_agree_mistyped :
    let first := definitionChecks [(4, 0), (4, 1), (4, 2)]
    let second := definitionChecks [(3, 2), (3, 0), (3, 1)]
    (mistyped.after first).report.diagnostics.length = 2 ∧
    ∃ found found', (mistyped.after first).report.diagnostics = mistyped.report.diagnostics ++ found ∧
      (mistyped.after second).report.diagnostics = mistyped.report.diagnostics ++ found' ∧
      found.Perm found' := by
  have hWell : mistyped.WellFormed := Ordered.wellFormed (by decide)
  have hBodies : ∀ d ∈ [(0 : DefId), 1], ∀ body ∈ mistyped.definitions.body? d,
      decide (body.index < 2) ∧ ¬ decide (body.index = 2) := by decide
  have hExchanged : ∀ d ∈ [(0 : DefId), 1, 2], ∀ e ∈ [(0 : DefId), 1, 2],
      [d, e].Sublist [0, 1, 2] → [e, d].Sublist [2, 0, 1] → d ∈ [(0 : DefId), 1] ∧ e = 2 := by
    decide
  refine ⟨by decide +kernel, orders_agree mistyped hWell (followed_of_forall (by decide)) _ _
    (by decide) ?_ (by decide +kernel) (by decide +kernel)⟩
  intro d e _ hBefore hAfter
  obtain ⟨hd, rfl⟩ := hExchanged d (hBefore.subset (by simp)) e (hBefore.subset (by simp)) hBefore hAfter
  exact Parted.apart (p := fun n => n.index < 2) (q := fun n => n.index = 2) (by decide) (by decide)
    hWell (hBodies d hd) (by decide)

/-- A record where a value is required but omitted, by way of two references. -/
def chained : Session where
  types := ⟨[(1, ⟨"integer", .integer⟩), (2, ⟨"R", .record [⟨"a", 1, false, false⟩]⟩)]⟩
  definitions := ⟨[.ofBody "nothing" 1 0,
    .ofBody "alias" 1 1, .ofBody "user" 2 3]⟩
  store := .ofForms [.omitted, .ofName "nothing" 0,
    .ofName "alias" 1, .named [⟨"a", 2, {}⟩]]

/-- The omission is found if the reference in between has been recognized before. -/
theorem chained_orders_differ :
    let first := [(4, 0), (4, 1), (4, 2)]
    let second := [(4, 2), (4, 1), (4, 0)]
    chained.WellFormed ∧ chained.store.Followed ∧
    (first.map Prod.snd).Perm chained.definitions.templates ∧
    (second.map Prod.snd).Perm chained.definitions.templates ∧
    chained.Faultless (definitionChecks first) ∧ chained.Faultless (definitionChecks second) ∧
    ¬ ((chained.after (definitionChecks first)).report.diagnostics.filter (·.finding.isError)).Perm
      ((chained.after (definitionChecks second)).report.diagnostics.filter (·.finding.isError)) := by
  exact ⟨Ordered.wellFormed (by decide), followed_of_forall (by decide), by decide, by decide,
    by decide +kernel, by decide +kernel, by decide +kernel⟩

end Session

end TemplateCheck
