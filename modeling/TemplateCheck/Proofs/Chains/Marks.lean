import TemplateCheck.ReferenceChain
import Mathlib.Data.List.Nodup

/-!
# Marks on a reference chain

Whatever is done to a chain, no node stands on it twice. What is added between a mark and the restoration that belongs
to it is gone afterwards, however the marks in between are nested.
-/

namespace TemplateCheck

open List

namespace ReferenceChain

variable {chain : ReferenceChain} {node : NodeId} {name : String}

def nodes (chain : ReferenceChain) : List NodeId := chain.entries.map (·.1)

theorem contains_iff : chain.contains node ↔ node ∈ chain.nodes := by
  simp [contains, nodes]

theorem add?_of_mem (h : node ∈ chain.nodes) (name : String) : chain.add? node name = none :=
  if_pos (contains_iff.2 h)

theorem add?_of_notMem (h : node ∉ chain.nodes) (name : String) :
    chain.add? node name = some { chain with entries := chain.entries ++ [(node, name)] } :=
  if_neg (mt contains_iff.1 h)

theorem add?_eq_some_iff {longer : ReferenceChain} : chain.add? node name = some longer ↔
    node ∉ chain.nodes ∧ { chain with entries := chain.entries ++ [(node, name)] } = longer := by
  simp [add?, contains_iff]

inductive Operation where
  | add (node : NodeId) (name : String)
  | mark
  | restore

/-- A node that is refused leaves the chain as it is. -/
def perform (chain : ReferenceChain) : Operation → ReferenceChain
  | .add node name => (chain.add? node name).getD chain
  | .mark => chain.mark
  | .restore => chain.restore

def performAll (chain : ReferenceChain) (operations : List Operation) : ReferenceChain :=
  operations.foldl perform chain

theorem perform_add_of_notMem (h : node ∉ chain.nodes) :
    chain.perform (.add node name) = { chain with entries := chain.entries ++ [(node, name)] } := by
  rw [perform, add?_of_notMem h, Option.getD_some]

theorem perform_add_eq_self_iff : chain.perform (.add node name) = chain ↔ node ∈ chain.nodes := by
  refine ⟨fun h => ?_, fun h => by rw [perform, add?_of_mem h, Option.getD_none]⟩
  by_contra hNew
  rw [perform_add_of_notMem hNew] at h
  exact absurd (congrArg entries h) (by simp)

theorem nodup_perform (h : chain.nodes.Nodup) (operation : Operation) : (chain.perform operation).nodes.Nodup := by
  cases operation with
  | add node name =>
    by_cases hOld : node ∈ chain.nodes
    · rwa [perform_add_eq_self_iff.2 hOld]
    · rw [perform_add_of_notMem hOld, nodes, map_append]
      exact nodup_append_comm.1 (List.nodup_cons.2 ⟨hOld, h⟩)
  | mark => exact h
  | restore =>
    rw [perform, restore]
    split
    · exact h
    · exact h.sublist ((take_sublist _ _).map _)

theorem nodup_performAll (h : chain.nodes.Nodup) (operations : List Operation) :
    (chain.performAll operations).nodes.Nodup := by
  induction operations generalizing chain with
  | nil => exact h
  | cons operation operations ih => exact ih (nodup_perform h operation)

/-- Every mark is restored, and nothing is restored that was not marked. -/
inductive Bracketed : List Operation → Prop where
  | nil : Bracketed []
  | add (node : NodeId) (name : String) {rest : List Operation} : Bracketed rest → Bracketed (.add node name :: rest)
  | marked {inner rest : List Operation} :
      Bracketed inner → Bracketed rest → Bracketed (.mark :: (inner ++ .restore :: rest))

theorem performAll_cons (chain : ReferenceChain) (operation : Operation) (rest : List Operation) :
    chain.performAll (operation :: rest) = (chain.perform operation).performAll rest := rfl

theorem performAll_marked {inner : List Operation} {added : List (NodeId × String)}
    (h : chain.mark.performAll inner = { chain.mark with entries := chain.entries ++ added }) (rest : List Operation) :
    chain.performAll (.mark :: (inner ++ .restore :: rest)) = chain.performAll rest := by
  have hRestored : { chain.mark with entries := chain.entries ++ added }.restore = chain := by
    simp [mark, restore, size]
  rw [performAll_cons, performAll, foldl_append]
  exact congrArg (performAll · rest) ((congrArg restore h).trans hRestored)

/-- Within brackets a chain only grows. -/
theorem Bracketed.performAll_eq {operations : List Operation} (h : Bracketed operations) : ∀ chain : ReferenceChain,
      ∃ added, chain.performAll operations = { chain with entries := chain.entries ++ added } := by
  induction h with
  | nil => exact fun chain => ⟨[], by simp [performAll]⟩
  | @add node name rest _ ih =>
    intro chain
    obtain ⟨added, hAdded⟩ := ih (chain.perform (.add node name))
    rw [performAll_cons, hAdded]
    by_cases hOld : node ∈ chain.nodes
    · exact ⟨added, by rw [perform_add_eq_self_iff.2 hOld]⟩
    · exact ⟨(node, name) :: added, by simp [perform_add_of_notMem hOld]⟩
  | @marked inner rest _ _ ihInner ihRest =>
    intro chain
    obtain ⟨added, hAdded⟩ := ihInner chain.mark
    rw [performAll_marked hAdded]
    exact ihRest chain

theorem cycleNames_eq {before after : List (NodeId × String)} (h : chain.nodes.Nodup)
    (hEntries : chain.entries = before ++ (node, name) :: after) :
    chain.cycleNames node = name :: after.map (·.2) ++ [name] := by
  have hBefore : ∀ entry ∈ before, entry.1 ≠ node := by
    rw [nodes, hEntries, map_append, map_cons] at h
    rintro entry hMem rfl
    exact (nodup_append.1 h).2.2 _ (mem_map_of_mem hMem) _ mem_cons_self rfl
  have hStart : chain.entries.findIdx? (·.1 = node) = some before.length := by
    rw [hEntries, findIdx?_append, findIdx?_eq_none_iff.2 (by simpa using hBefore)]
    simp [findIdx?_cons]
  rw [cycleNames, hStart, hEntries, Option.getD_some, drop_left']
  all_goals simp

/-- A chain never holds a node twice, refuses those it holds, and is restored to what it was at the mark; a circular
reference is told from its node on, round to the node again. -/
theorem distinct_and_restored (purpose : String) (operations : List Operation) :
    let chain := performAll { purpose } operations
    chain.nodes.Nodup ∧
    (∀ node name, (chain.add? node name = none ↔ node ∈ chain.nodes) ∧
      (chain.perform (.add node name) = chain ↔ node ∈ chain.nodes)) ∧
    (∀ inner, Bracketed inner → chain.performAll (.mark :: (inner ++ [.restore])) = chain) ∧
    ∀ before node name after, chain.entries = before ++ (node, name) :: after →
      chain.cycleNames node = name :: after.map (·.2) ++ [name] ∧
      joinCycle (chain.cycleNames node) =
        " -> ".intercalate ((name :: after.map (·.2) ++ [name]).map fun name => "`" ++ name ++ "'") := by
  intro chain
  have hNodup : chain.nodes.Nodup := @nodup_performAll { purpose } .nil operations
  refine ⟨hNodup, fun node name => ⟨⟨fun h => ?_, (add?_of_mem · name)⟩, perform_add_eq_self_iff⟩, ?_, ?_⟩
  · by_contra hNew
    rw [add?_of_notMem hNew] at h
    cases h
  · intro inner hInner
    obtain ⟨added, hAdded⟩ := hInner.performAll_eq chain.mark
    exact performAll_marked hAdded []
  · intro before node name after hEntries
    rw [cycleNames_eq hNodup hEntries]
    exact ⟨rfl, rfl⟩

theorem distinct_and_restored_nested :
    let chain := performAll { purpose := "" } [.restore, .add 0 "a", .add 1 "b", .add 0 "c"]
    Bracketed [.add 2 "d", .mark, .restore] ∧
    chain.performAll [.mark, .add 2 "d", .mark, .restore, .restore] = chain ∧
    chain.entries = [(0, "a"), (1, "b")] ∧ chain.cycleNames 0 = ["a", "b", "a"] := by
  have hInner : Bracketed [.add 2 "d", .mark, .restore] := .add _ _ (.marked .nil .nil)
  obtain ⟨-, -, hRestored, hCycle⟩ :=
    distinct_and_restored "" [.restore, .add 0 "a", .add 1 "b", .add 0 "c"]
  exact ⟨hInner, hRestored _ hInner, rfl, (hCycle [] 0 "a" [(1, "b")] rfl).1⟩

end ReferenceChain

end TemplateCheck
