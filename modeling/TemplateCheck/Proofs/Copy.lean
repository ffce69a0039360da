import TemplateCheck.Proofs.Graph

/-!
# Copies of trees

Copying a tree adds nodes and leaves those that were there alone. New nodes are made from the leaves
upwards, so their children are new ones. A walk over a tree of a well-formed store comes to an end.
-/

namespace TemplateCheck

open List Store

namespace Form

def withChildren (news : List NodeId) : Form → Form
  | .list shape _ => .list shape news
  | .named entries => .named (zipWith (fun e new => { e with template := new }) entries news)
  | .indexed entries => .indexed (zipWith (fun e new => { e with template := new }) entries news)
  | .allFrom target => .allFrom (news.headD target)
  | .decoded encoding target => .decoded encoding { target with body := news.headD target.body }
  | .concat left right => .concat (news.headD left) (news.tail.headD right)
  | form => form

variable {m : Type → Type}

theorem mapM_place [Monad m] [LawfulMonad m] {α : Type} (child : α → NodeId)
    (place : α → NodeId → α) (f : NodeId → m NodeId) (entries : List α) :
    entries.mapM (fun e => do return place e (← f (child e))) =
      do return zipWith place entries (← (entries.map child).mapM f) := by
  induction entries with
  | nil => simp
  | cons e entries ih => simp only [map_cons, mapM_cons, ih, bind_assoc, pure_bind, zipWith_cons_cons]

theorem mapChildrenM_eq [Monad m] [LawfulMonad m] (f : NodeId → m NodeId) (form : Form) :
    form.mapChildrenM f = do return form.withChildren (← form.children.mapM f) := by
  cases form with
  | named entries =>
    rw [mapChildrenM, mapM_place NamedEntry.template fun e new => { e with template := new }]
    simp [withChildren, children]
  | indexed entries =>
    rw [mapChildrenM, mapM_place IndexedEntry.template fun e new => { e with template := new }]
    simp [withChildren, children]
  | _ => simp [mapChildrenM, withChildren, children]

theorem children_withChildren {form : Form} {news : List NodeId} (h : news.length = form.children.length) :
    (form.withChildren news).children = news := by
  have hPlaced {α : Type} {child : α → NodeId} {place : α → NodeId → α} (hPlace : ∀ e new, child (place e new) = new)
      {entries : List α} (hLength : news.length = entries.length) :
      (zipWith place entries news).map child = news :=
    ext_getElem (by simp [hLength]) (by simp [hPlace])
  cases form with
  | list shape items => rfl
  | named | indexed => exact hPlaced (fun _ _ => rfl) (by simpa [children] using h)
  | allFrom target | decoded encoding target =>
    obtain ⟨new, rfl⟩ := length_eq_one_iff.1 h
    rfl
  | concat left right =>
    obtain ⟨new, new', rfl⟩ := length_eq_two.1 h
    rfl
  | _ => exact (length_eq_zero_iff.1 h).symm

theorem reference?_withChildren (form : Form) (news : List NodeId) :
    (form.withChildren news).reference? = form.reference? := by
  cases form <;> rfl

theorem resolved?_withChildren (form : Form) (news : List NodeId) :
    (form.withChildren news).resolved? = form.resolved? := by
  cases form <;> rfl

theorem isPlain_withChildren (form : Form) (news : List NodeId) : (form.withChildren news).isPlain = form.isPlain := by
  cases form <;> rfl

end Form

def StoreRuns {α : Type} (I : Store → Prop) (E : Prop) (s : Store) (x : StoreM α) (Q : α → Store → Prop) : Prop :=
  ∀ result after, x.run s = (result, after) → I after ∧
    match result with
    | .ok a => Q a after
    | .error _ => E

namespace StoreRuns

variable {α β : Type} {I : Store → Prop} {E : Prop} {s : Store} {Q : α → Store → Prop} {x : StoreM α} {f : α → StoreM β}

theorem pure {a : α} (hI : I s) (h : Q a s) : StoreRuns I E s (pure a) Q := by
  intro result after hRun
  cases hRun
  exact ⟨hI, h⟩

theorem bind {Q' : β → Store → Prop} (hx : StoreRuns I E s x Q)
    (hf : ∀ a s', s.Evolves s' → I s' → Q a s' → StoreRuns I E s' (f a) Q') : StoreRuns I E s (x >>= f) Q' := by
  intro result after hRun
  have hAlong := x.along s
  rw [Tracked.run_bind] at hRun
  rcases hFirst : x.run s with ⟨_ | a, middle⟩
  · rw [hFirst] at hRun
    cases hRun
    exact hx _ _ hFirst
  · rw [hFirst] at hRun hAlong
    obtain ⟨hI, hQ⟩ := hx _ _ hFirst
    exact hf a middle hAlong hI hQ _ _ hRun

theorem mono {Q' : α → Store → Prop} (h : StoreRuns I E s x Q) (hQ : ∀ a s', Q a s' → Q' a s') :
    StoreRuns I E s x Q' := by
  intro result after hRun
  obtain ⟨hI, hResult⟩ := h result after hRun
  refine ⟨hI, ?_⟩
  cases result with
  | ok a => exact hQ a after hResult
  | error fault => exact hResult

theorem get_then {id : NodeId} {f : Template → StoreM β} {Q : β → Store → Prop} (hI : I s)
    (h : ∀ t, s.get? id = some t → StoreRuns I True s (f t) Q) : StoreRuns I True s (get id >>= f) Q := by
  have hGet : StoreRuns I True s (get id) fun t s' => s' = s ∧ s.get? id = some t := by
    intro result after hRun
    simp only [Store.get, Tracked.still] at hRun
    split at hRun
    · rename_i t hNode
      cases hRun
      exact ⟨hI, rfl, hNode⟩
    · cases hRun
      exact ⟨hI, trivial⟩
  apply hGet.bind
  rintro t _ - - ⟨rfl, hNode⟩
  exact h t hNode

theorem alloc {t : Template} {Q : NodeId → Store → Prop} (hI : I (s.push t)) (hQ : Q s.nextId (s.push t)) :
    StoreRuns I E s (alloc t) Q := by
  intro result after hRun
  cases hRun
  exact ⟨hI, hQ⟩

theorem and_evolves (h : StoreRuns I E s x Q) : StoreRuns I E s x fun a s' => Q a s' ∧ s.Evolves s' := by
  intro result after hRun
  have hEvolves := x.along s
  rw [hRun] at hEvolves
  obtain ⟨hI, hEnd⟩ := h result after hRun
  refine ⟨hI, ?_⟩
  cases result with
  | ok a => exact ⟨hEnd, hEvolves⟩
  | error fault => exact hEnd

theorem mapM {xs : List α} {J : List β → Store → Prop} (hI : I s) (hs : J [] s)
    (h : ∀ a ∈ xs, ∀ done s', I s' → J done s' → StoreRuns I E s' (f a) fun b s'' => J (done ++ [b]) s'') :
    StoreRuns I E s (xs.mapM f) fun bs s' => bs.length = xs.length ∧ J bs s' := by
  suffices hDone : ∀ done s, I s → J done s →
      StoreRuns I E s (xs.mapM f) fun bs s' => bs.length = xs.length ∧ J (done ++ bs) s' from hDone [] s hI hs
  induction xs with
  | nil => exact fun done s hI hs => .pure hI ⟨rfl, by simpa using hs⟩
  | cons a xs ih =>
    intro done s hI hs
    rw [mapM_cons]
    apply (h a mem_cons_self done s hI hs).bind
    intro b s' _ hI' hs'
    apply (ih (fun a' ha' => h a' (mem_cons_of_mem a ha')) (done ++ [b]) s' hI' hs').bind
    rintro bs s'' - hI'' ⟨hLength, hs''⟩
    exact .pure hI'' ⟨by rw [length_cons, length_cons, hLength], by rwa [append_assoc] at hs''⟩

theorem mapChildrenM {f : NodeId → StoreM NodeId} {J : List NodeId → Store → Prop} (form : Form) (hI : I s)
    (hs : J [] s) (h : ∀ child ∈ form.children, ∀ done s', I s' → J done s' →
      StoreRuns I E s' (f child) fun new s'' => J (done ++ [new]) s'') :
    StoreRuns I E s (form.mapChildrenM f) fun form' s' => ∃ news : List NodeId,
      news.length = form.children.length ∧ form' = form.withChildren news ∧ J news s' := by
  rw [Form.mapChildrenM_eq]
  apply (mapM hI hs h).bind
  rintro news s' - hI' ⟨hLength, hs'⟩
  exact .pure hI' ⟨news, hLength, rfl, hs'⟩

end StoreRuns

namespace Store

variable {b : Backing} {E : Prop} {origin s : Store} {id : NodeId} {after : Store} {t : Template}

structure Adds (b : Backing) (origin s : Store) : Prop where
  backed : s.Backed b
  grows : origin.Grows s
  same : ∀ id, origin.Has id → s.get? id = origin.get? id

theorem Backed.adds (h : s.Backed b) : s.Adds b s := ⟨h, Course.refl s, fun _ _ => rfl⟩

theorem Evolves.has (h : s.Evolves after) (hHas : s.Has id) : after.Has id := by
  obtain ⟨t, hFound⟩ := hHas.exists_get?
  obtain ⟨t', hFound', -⟩ := h id t hFound
  exact has_of_get? hFound'

theorem Evolves.size_le (h : s.Evolves after) : s.size ≤ after.size := by
  by_contra hLess
  have hLast : s.Has ⟨after.size⟩ := Nat.lt_of_not_le hLess
  exact Nat.lt_irrefl _ (h.has hLast)

theorem Adds.push (h : origin.Adds b s) (hLinks : ∀ link ∈ t.links, s.Has link)
    (hReference : ∀ r, t.form.reference? = some r → (b.definitions.target? r).isSome) (hPlain : b.refers ∨ t.isPlain)
    (hNew : ∀ child ∈ t.form.children, ¬ origin.Has child) : origin.Adds b (s.push t) where
  backed := h.backed.push hLinks hReference hPlain
  grows := grows_push h.grows hNew
  same other hHas := (get?_push_of_lt (hHas.of_size_le h.grows.size_le)).trans (h.same other hHas)

theorem get_runs (h : origin.Adds b s) (hFound : s.get? id = some t) :
    StoreRuns (origin.Adds b) E s (get id) fun found s' => found = t ∧ s' = s := by
  intro result after hRun
  simp only [get, Tracked.still, hFound] at hRun
  cases hRun
  exact ⟨h, rfl, rfl⟩

theorem alloc_runs (h : origin.Adds b s) (hAdds : origin.Adds b (s.push t)) :
    StoreRuns (origin.Adds b) E s (alloc t) fun new s' => ¬ origin.Has new ∧ s'.Has new := by
  intro result after hRun
  cases hRun
  refine ⟨hAdds, fun hHas => ?_, has_push_nextId s t⟩
  exact not_has_nextId s (hHas.of_size_le h.grows.size_le)

theorem copyWithin_runs (hOrigin : origin.Backed b) (depth : Nat) (h : origin.Adds b s)
    (hHas : origin.Has id) (hPath : origin.Descends depth id → E) :
    StoreRuns (origin.Adds b) E s (copyWithin depth id) fun new s' => ¬ origin.Has new ∧ s'.Has new := by
  induction depth generalizing s id with
  | zero =>
    intro result after hRun
    cases hRun
    exact ⟨h, hPath (.here id)⟩
  | succ depth ih =>
    obtain ⟨t, hFound⟩ := hHas.exists_get?
    have hLinks := hOrigin.links id t hFound
    refine (get_runs h ((h.same id hHas).trans hFound)).bind ?_
    rintro _ _ - h ⟨rfl, rfl⟩
    refine (StoreRuns.mapChildrenM (J := fun news s' => ∀ new ∈ news, ¬ origin.Has new ∧ s'.Has new) _ h (by simp)
      ?_).bind ?_
    · intro child hChild done s' h' hDone
      refine (ih h' (hLinks child (by simp [Template.links, hChild]))
        fun hBelow => hPath (.step ⟨_, hFound, hChild⟩ hBelow)).and_evolves.mono ?_
      rintro new s'' ⟨hNew, hEvolves⟩ other hOther
      obtain hOther | hOther := mem_append.1 hOther
      · exact (hDone other hOther).imp_right hEvolves.has
      · rwa [mem_singleton.1 hOther]
    rintro _ s' - h' ⟨news, hLength, rfl, hNews⟩
    rw [← Form.children_withChildren hLength] at hNews
    refine alloc_runs h' (h'.push ?_ ?_ ?_ fun child hChild => (hNews child hChild).1)
    · intro link hLink
      simp only [Template.links, mem_append, Form.resolved?_withChildren] at hLink hLinks
      obtain (hLink | hLink) | hLink := hLink
      · exact (hNews link hLink).2
      · exact (hLinks link (.inl (.inr hLink))).of_size_le h'.grows.size_le
      · exact (hLinks link (.inr hLink)).of_size_le h'.grows.size_le
    · intro r hr
      exact hOrigin.references id _ r hFound (Form.reference?_withChildren .. ▸ hr)
    · simpa only [Template.isPlain, Form.isPlain_withChildren] using hOrigin.plain id _ hFound

theorem deepCopy_runs (h : s.Backed b) (hHas : s.Has id) :
    StoreRuns (s.Adds b) False s (deepCopy id) fun new s' => ¬ s.Has new ∧ s'.Has new := by
  refine copyWithin_runs h (s.size + 1) h.adds hHas fun hPath => ?_
  have hLt := h.descends_lt hPath hHas
  omega

end Store

end TemplateCheck
