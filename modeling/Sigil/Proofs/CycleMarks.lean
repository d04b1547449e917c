import Mathlib.Data.List.Perm.Subperm
import Mathlib.Data.List.Nodup
import Sigil.Proofs.IdentityKey

/-!
# Where the document of a value is cut off

A value is a graph, its document a tree. An occurrence of a value is a way down from the root: the
steps that lead to it and the containers that are open there. The document shows an occurrence as
long as no container was opened twice on the way (`part?_unfold`), and marks a container as a cycle
exactly if it is open already. `toJson_unfolding` says that this determines the document.
-/

namespace Sigil

/-- One step down, into a list or into a map. -/
inductive Descent where
  | item (i : Nat)
  | field (name : String)
deriving DecidableEq, Repr

/-! ## Parts of documents -/

namespace Json

def child? : Json → Descent → Option Json
  | .array items, .item i => items[i]?
  | .object fields, .field name => fields.lookup name
  | _, _ => none

/-- The part of a document to which the steps lead. -/
def part? (j : Json) : List Descent → Option Json
  | [] => some j
  | step :: steps => (j.child? step).bind (·.part? steps)

theorem part?_concat (j : Json) (steps : List Descent) (step : Descent) :
    j.part? (steps ++ [step]) = (j.part? steps).bind (·.child? step) := by
  induction steps generalizing j with
  | nil => simp [part?]
  | cons first rest ih =>
    rw [List.cons_append, part?, part?]
    cases j.child? first with
    | none => rfl
    | some i => exact ih i

end Json

theorem lookup_map {α β : Type} (f : α → β) (name : String) (es : List (String × α)) :
    (es.map fun e => (e.1, f e.2)).lookup name = (es.lookup name).map f := by
  induction es with
  | nil => rfl
  | cons e rest ih =>
    obtain ⟨k, x⟩ := e
    simp only [List.map_cons, List.lookup_cons]
    split
    · rfl
    · exact ih

/-! ## Occurrences of values -/

/-- What a step into a container leads to. -/
def Heap.child? (h : Heap) : Container → Descent → Option Value
  | .list r, .item i => (h.list r)[i]?
  | .map r, .field name => (h.map r).get? name
  | _, _ => none

theorem Heap.mem_containers_of_child? {h : Heap} {c : Container} {step : Descent} {x : Value}
    (hx : h.child? c step = some x) : c ∈ h.containers := by
  cases c with
  | list r =>
    cases step with
    | item i => exact list_mem_containers (lt_size_of_mem_list (List.mem_of_getElem? hx))
    | field => cases hx
  | map r =>
    cases step with
    | item => cases hx
    | field name => exact map_mem_containers (lt_size_of_mem_map (Fields.mem_entries.2 hx))

theorem Heap.length_containers (h : Heap) :
    h.containers.length = h.lists.size + h.maps.size := by
  simp [containers]

namespace Value

/-- The steps lead from the first value to the second, through the open containers. The container
that was opened last stands first. -/
inductive Occurs (h : Heap) : Value → List Descent → List Container → Value → Prop where
  | root (v : Value) : Occurs h v [] [] v
  | inside {c : Container} {step : Descent} {x y : Value} {steps : List Descent}
      {open_ : List Container} : h.child? c step = some x → Occurs h x steps open_ y →
      Occurs h c.toValue (step :: steps) (open_ ++ [c]) y

namespace Occurs

variable {h : Heap} {v x y : Value} {steps steps' : List Descent} {open_ open' : List Container}
  {c : Container}

theorem trans (hx : Occurs h v steps open_ x) (hy : Occurs h x steps' open' y) :
    Occurs h v (steps ++ steps') (open' ++ open_) y := by
  induction hx with
  | root => simpa using hy
  | inside hchild _ ih =>
    rw [List.cons_append, ← List.append_assoc]
    exact .inside hchild (ih hy)

theorem length_eq (hx : Occurs h v steps open_ x) : steps.length = open_.length := by
  induction hx with
  | root => rfl
  | inside _ _ ih => simp [ih]

theorem mem_containers (hx : Occurs h v steps open_ x) : ∀ c ∈ open_, c ∈ h.containers := by
  induction hx with
  | root => simp
  | inside hchild _ ih =>
    intro d hd
    rcases List.mem_append.1 hd with hd | hd
    · exact ih d hd
    · rw [List.mem_singleton.1 hd]
      exact Heap.mem_containers_of_child? hchild

/-- No way down opens more containers than there are, unless it opens one of them twice. -/
theorem length_le (hx : Occurs h v steps open_ x) (hnodup : open_.Nodup) :
    steps.length ≤ h.lists.size + h.maps.size := by
  rw [hx.length_eq, ← h.length_containers]
  exact (List.subperm_of_subset hnodup hx.mem_containers).length_le

/-- An open container occurs on the way, and what is reached occurs in it. -/
theorem of_mem (hx : Occurs h v steps open_ x) (hc : c ∈ open_) :
    (∃ steps' open', Occurs h v steps' open' c.toValue) ∧
      ∃ steps' open', Occurs h c.toValue steps' open' x ∧ c ∈ open' := by
  induction hx with
  | root => cases hc
  | @inside d step x y steps open_ hchild hy ih =>
    rcases List.mem_append.1 hc with hc | hc
    · obtain ⟨⟨steps', open', habove⟩, hbelow⟩ := ih hc
      exact ⟨⟨_, _, .inside hchild habove⟩, hbelow⟩
    · obtain rfl := List.mem_singleton.1 hc
      exact ⟨⟨_, _, .root _⟩, _, _, .inside hchild hy, List.mem_append_right _ List.mem_cons_self⟩

end Occurs

/-- No container occurs inside of itself, however often it is shared. -/
def Acyclic (h : Heap) (v : Value) : Prop :=
  ∀ steps open_ c, Occurs h v steps open_ (Container.toValue c) → c ∉ open_

namespace Acyclic

variable {h : Heap} {v x : Value} {steps : List Descent} {open_ : List Container} {c : Container}

theorem of_occurs (hv : Acyclic h v) (hx : Occurs h v steps open_ x) : Acyclic h x :=
  fun _ _ _ hc hmem => hv _ _ _ (hx.trans hc) (List.mem_append_left _ hmem)

/-- A container that is open where an acyclic value occurs does not occur in that value. -/
theorem not_occurs (hx : Acyclic h x) (hocc : Occurs h v steps open_ x) (hc : c ∈ open_)
    {steps' : List Descent} {open' : List Container} : ¬Occurs h x steps' open' c.toValue := by
  intro hdown
  obtain ⟨-, steps'', open'', hup, hmem⟩ := hocc.of_mem hc
  -- From the value to the container, round to the value and to the container again.
  have hround := (hdown.trans hup).trans hdown
  exact hx _ _ _ hround (by simp [hmem])

theorem nodup (hv : Acyclic h v) (hx : Occurs h v steps open_ x) : open_.Nodup := by
  induction hx with
  | root => exact List.nodup_nil
  | @inside c step x y steps open_ hchild hy ih =>
    have hroot : Occurs h c.toValue [step] [c] x := .inside hchild (.root x)
    have hx : Acyclic h x := hv.of_occurs hroot
    rw [List.nodup_append_comm, List.singleton_append, List.nodup_cons]
    refine ⟨fun hmem => ?_, ih hx⟩
    obtain ⟨⟨steps', open', hc⟩, -⟩ := hy.of_mem hmem
    exact hx.not_occurs hroot List.mem_cons_self hc

end Acyclic

/-! ## What the document shows -/

variable {h : Heap} {p open_ : List Container}

theorem unfold_of_mem {c : Container} (hc : c ∈ p) :
    unfold h p c.toValue = .string "<cycle>" := by
  cases c with
  | list r => rw [Container.toValue, unfold_list, if_pos hc]
  | map r => rw [Container.toValue, unfold_map, if_pos hc]

theorem child?_unfold {c : Container} (hc : c ∉ p) (step : Descent) :
    (unfold h p c.toValue).child? step = (h.child? c step).map (unfold h (c :: p)) := by
  cases c with
  | list r =>
    rw [Container.toValue, unfold_list, if_neg hc]
    cases step with
    | item i => simp [Json.child?, Heap.child?]
    | field => rfl
  | map r =>
    rw [Container.toValue, unfold_map, if_neg hc]
    cases step with
    | item => rfl
    | field name => exact lookup_map (unfold h (.map r :: p)) name (h.map r).entries

/-- Below the containers of `p`, the document shows just the occurrences on whose way no container
is opened twice. -/
theorem part?_unfold {v x : Value} {steps : List Descent} (hx : Occurs h v steps open_ x)
    (hp : p.Nodup) :
    (unfold h p v).part? steps =
      if (open_ ++ p).Nodup then some (unfold h (open_ ++ p) x) else none := by
  induction hx generalizing p with
  | root => simp [Json.part?, hp]
  | @inside c step x y steps open_ hchild _ ih =>
    rw [Json.part?, List.append_assoc, List.singleton_append]
    by_cases hc : c ∈ p
    · have hnot : ¬(open_ ++ c :: p).Nodup := fun hnodup =>
        (List.nodup_cons.1 (List.nodup_append.1 hnodup).2.1).1 hc
      rw [unfold_of_mem hc, if_neg hnot]
      rfl
    · rw [child?_unfold hc, hchild, ← ih (List.nodup_cons.2 ⟨hc, hp⟩)]
      rfl

theorem part?_toJson {v x : Value} {steps : List Descent} (hx : Occurs h v steps open_ x) :
    (toJson h v).part? steps = if open_.Nodup then some (unfold h open_ x) else none := by
  simpa [toJson] using part?_unfold hx List.nodup_nil

/-! ## The unfolding -/

/-- From outside, the document is that of the value below the open containers: a mark for one of
them, an array or object with a part for each element or field, or the document of a scalar. -/
def Shows (h : Heap) (open_ : List Container) : Value → Json → Prop
  | .list r, doc =>
    if .list r ∈ open_ then doc = .string "<cycle>"
    else ∃ items, doc = .array items ∧ items.length = (h.list r).length
  | .map r, doc =>
    if .map r ∈ open_ then doc = .string "<cycle>"
    else ∃ fields, doc = .object fields ∧ fields.map Prod.fst = (h.map r).keys
  | x, doc => doc = toJson h x

theorem shows_scalar {x : Value} (hx : IsScalar x) {doc : Json} :
    Shows h open_ x doc ↔ doc = toJson h x := by
  cases x with
  | list | map => exact hx.elim
  | _ => rfl

theorem shows_unfold (h : Heap) (open_ : List Container) (x : Value) :
    Shows h open_ x (unfold h open_ x) := by
  have hscalar (hx : IsScalar x) : Shows h open_ x (unfold h open_ x) :=
    (shows_scalar hx).2 (unfold_scalar hx open_ [])
  cases x with
  | list r =>
    rw [Shows, unfold_list]
    split
    · rfl
    · exact ⟨_, rfl, List.length_map _⟩
  | map r =>
    rw [Shows, unfold_map]
    split
    · rfl
    · exact ⟨_, rfl, by simp [Fields.keys]⟩
  | _ => exact hscalar trivial

/-- The document shows every occurrence in the value on whose way no container is opened twice; the
containers of `p` are open from the start. -/
def IsUnfoldingBelow (h : Heap) (p : List Container) (v : Value) (doc : Json) : Prop :=
  ∀ steps open_ x, Occurs h v steps open_ x → (open_ ++ p).Nodup →
    ∃ j, doc.part? steps = some j ∧ Shows h (open_ ++ p) x j

def IsUnfolding (h : Heap) (v : Value) (doc : Json) : Prop :=
  ∀ steps open_ x, Occurs h v steps open_ x → open_.Nodup →
    ∃ j, doc.part? steps = some j ∧ Shows h open_ x j

theorem isUnfoldingBelow_unfold (hp : p.Nodup) (v : Value) :
    IsUnfoldingBelow h p v (unfold h p v) := by
  intro steps open_ x hx hnodup
  rw [part?_unfold hx hp, if_pos hnodup]
  exact ⟨_, rfl, shows_unfold h _ x⟩

/-- A part of an unfolding unfolds what is there, below one more container. -/
theorem IsUnfoldingBelow.child {c : Container} {doc part : Json} {x : Value}
    (hdoc : IsUnfoldingBelow h p c.toValue doc) (step : Descent) (hx : h.child? c step = some x)
    (hpart : doc.child? step = some part) : IsUnfoldingBelow h (c :: p) x part := by
  intro steps open_ y hy hnodup
  have hshown := hdoc _ _ _ (.inside hx hy) (by simpa using hnodup)
  simpa [Json.part?, hpart] using hshown

/-- What the occurrences show determines the document. Induction on the way down from the value. -/
theorem IsUnfoldingBelow.eq {v : Value} {doc : Json} (hdoc : IsUnfoldingBelow h p v doc)
    (hp : p.Nodup) : doc = unfold h p v := by
  induction p, v using unfold_induction (h := h) generalizing doc with
  | scalar p x hx =>
    obtain ⟨j, hj, hshows⟩ := hdoc [] [] x (.root x) hp
    rw [Option.some.inj hj, (shows_scalar hx).1 hshows, toJson, unfold_scalar hx]
  | list p r ih =>
    obtain ⟨j, hj, hshows⟩ := hdoc [] [] _ (.root _) hp
    obtain rfl := Option.some.inj hj
    rw [List.nil_append, Shows] at hshows
    rw [unfold_list]
    split
    · rename_i hr
      rwa [if_pos hr] at hshows
    · rename_i hr
      rw [if_neg hr] at hshows
      obtain ⟨items, rfl, hlen⟩ := hshows
      refine congrArg Json.array (List.ext_getElem (by simpa using hlen) fun i hi hi' => ?_)
      have hi'' : i < (h.list r).length := hlen ▸ hi
      have hpart := hdoc.child (c := .list r) (.item i)
        (List.getElem?_eq_getElem hi'') (List.getElem?_eq_getElem hi)
      rw [List.getElem_map]
      exact ih hr _ (List.getElem_mem hi'') hpart (List.nodup_cons.2 ⟨hr, hp⟩)
  | map p r ih =>
    obtain ⟨j, hj, hshows⟩ := hdoc [] [] _ (.root _) hp
    obtain rfl := Option.some.inj hj
    rw [List.nil_append, Shows] at hshows
    rw [unfold_map]
    split
    · rename_i hr
      rwa [if_pos hr] at hshows
    · rename_i hr
      rw [if_neg hr] at hshows
      obtain ⟨fields, rfl, hkeys⟩ := hshows
      let parts : Fields Json := ⟨fields, hkeys ▸ (h.map r).nodup_keys⟩
      have hall : List.Forall₂ (fun d e => d.1 = e.1 ∧ d.2 = unfold h (.map r :: p) e.2)
          parts.entries (h.map r).entries := by
        refine (Fields.forall₂_entries (f := parts)
          (R := fun j x => j = unfold h (.map r :: p) x)).2 ⟨hkeys, fun name j x hj hx => ?_⟩
        have hpart := hdoc.child (c := .map r) (.field name) hx hj
        exact ih hr (name, x) (Fields.mem_entries.2 hx) hpart (List.nodup_cons.2 ⟨hr, hp⟩)
      refine congrArg Json.object (List.forall₂_eq_eq_eq ▸ List.forall₂_map_right_iff.2 ?_)
      exact hall.imp fun d e hde => Prod.ext hde.1 hde.2

theorem isUnfolding_iff {v : Value} {doc : Json} :
    IsUnfolding h v doc ↔ doc = toJson h v := by
  have hbelow : IsUnfolding h v doc ↔ IsUnfoldingBelow h [] v doc := by
    simp [IsUnfolding, IsUnfoldingBelow]
  rw [hbelow]
  constructor
  · exact fun hdoc => hdoc.eq List.nodup_nil
  · rintro rfl
    exact isUnfoldingBelow_unfold List.nodup_nil v

/-- Containers that do not occur in a value do not matter for its document. -/
theorem unfold_eq_toJson {x : Value} (hp : p.Nodup)
    (hout : ∀ c ∈ p, ∀ steps open_, ¬Occurs h x steps open_ (Container.toValue c)) :
    unfold h p x = toJson h x := by
  refine isUnfolding_iff.1 fun steps open_ y hy hnodup => ?_
  have hdisjoint : (open_ ++ p).Nodup := by
    refine List.nodup_append.2 ⟨hnodup, hp, fun c hc d hd hcd => ?_⟩
    obtain ⟨⟨steps', open', hocc⟩, -⟩ := hy.of_mem hc
    exact hout c (hcd ▸ hd) _ _ hocc
  refine ⟨unfold h (open_ ++ p) y, by rw [part?_unfold hy hp, if_pos hdisjoint], ?_⟩
  have hopen (c : Container) (hc : Occurs h x steps open_ c.toValue) :
      c ∈ open_ ++ p ↔ c ∈ open_ := by
    rw [List.mem_append]
    exact or_iff_left fun hmem => hout c hmem _ _ hc
  have hshows := shows_unfold h (open_ ++ p) y
  generalize unfold h (open_ ++ p) y = doc at hshows
  cases y with
  | list r => simpa only [Shows, hopen (.list r) hy] using hshows
  | map r => simpa only [Shows, hopen (.map r) hy] using hshows
  | _ => exact hshows

theorem Acyclic.part?_toJson {v x : Value} {steps : List Descent} (hx : Acyclic h x)
    (hocc : Occurs h v steps open_ x) (hnodup : open_.Nodup) :
    (toJson h v).part? steps = some (toJson h x) := by
  rw [Value.part?_toJson hocc, if_pos hnodup,
    unfold_eq_toJson hnodup fun c hc _ _ => hx.not_occurs hocc hc]

/-- The document of a value is its unfolding: the one document that shows every occurrence on whose
way no container is opened twice. There, a container is marked as a cycle exactly if it is open
already. So an acyclic value is written in full wherever it is shown, and an acyclic value shows all
its occurrences; nothing is shown inside of a container that is inside of itself; and no way down is
longer than the number of containers. -/
theorem toJson_unfolding (h : Heap) (v : Value) :
    (∀ doc, IsUnfolding h v doc ↔ doc = toJson h v) ∧
    (∀ steps open_ c, Occurs h v steps open_ (Container.toValue c) → open_.Nodup →
      ((toJson h v).part? steps = some (.string "<cycle>") ↔ c ∈ open_)) ∧
    (∀ steps open_ x, Occurs h v steps open_ x → Acyclic h x → open_.Nodup ∨ Acyclic h v →
      (toJson h v).part? steps = some (toJson h x)) ∧
    (∀ steps open_ c step, Occurs h v steps open_ (Container.toValue c) → c ∈ open_ →
      (toJson h v).part? (steps ++ [step]) = none) ∧
    ∀ steps open_ x, Occurs h v steps open_ x → (toJson h v).part? steps ≠ none →
      open_.Nodup ∧ steps.length ≤ h.lists.size + h.maps.size := by
  refine ⟨fun doc => isUnfolding_iff, fun steps open_ c hc hnodup => ?_,
    fun steps open_ x hocc hx hshown => ?_, fun steps open_ c step hc hmem => ?_,
    fun steps open_ x hocc hne => ?_⟩
  · rw [part?_toJson hc, if_pos hnodup, Option.some.injEq]
    constructor
    · intro hmark
      by_contra hmem
      have hshows := shows_unfold h open_ c.toValue
      rw [hmark] at hshows
      cases c with
      | list r => simp [Container.toValue, Shows, hmem] at hshows
      | map r => simp [Container.toValue, Shows, hmem] at hshows
    · exact unfold_of_mem
  · exact hx.part?_toJson hocc (hshown.elim id fun hv => hv.nodup hocc)
  · rw [Json.part?_concat, part?_toJson hc]
    split
    · rw [unfold_of_mem hmem]
      rfl
    · rfl
  · rw [part?_toJson hocc] at hne
    have hnodup : open_.Nodup := by
      by_contra hrepeated
      exact hne (if_neg hrepeated)
    exact ⟨hnodup, hocc.length_le hnodup⟩

namespace SharedRow

/-- The list `xs`, which holds the row `[1]` twice and a map with `xs` and the row in it. -/
def heap : Heap :=
  { lists := #[[.list ⟨1⟩, .map ⟨0⟩, .list ⟨1⟩], [.int 1]]
    maps := #[.ofList [("me", .list ⟨0⟩), ("row", .list ⟨1⟩)]] }

theorem acyclic_row : Acyclic heap (.list ⟨1⟩) := by
  intro steps open_ c hocc hmem
  generalize hrow : Value.list ⟨1⟩ = v at hocc
  cases hocc with
  | root => cases hmem
  | @inside d step x y steps open_ hchild hx =>
    obtain rfl : d = .list ⟨1⟩ := by
      cases d <;> cases hrow
      rfl
    -- The only child of the row is no container, so that nothing is inside of it.
    have hone : x = .int 1 := by
      cases step with
      | item i =>
        obtain _ | i := i
        · exact (Option.some.inj hchild).symm
        · simp [Heap.child?, heap, Heap.list] at hchild
      | field => cases hchild
    subst hone
    generalize hint : Value.int 1 = x at hx
    generalize hc : c.toValue = y at hx
    cases hx with
    | root => cases c <;> cases hint.trans hc.symm
    | @inside e => cases e <;> cases hint

theorem toJson_shared :
    (toJson heap (.list ⟨0⟩)).part? [.item 1, .field "me"] = some (.string "<cycle>") ∧
      (toJson heap (.list ⟨0⟩)).part? [.item 1, .field "row"] = some (toJson heap (.list ⟨1⟩)) ∧
      (toJson heap (.list ⟨0⟩)).part? [.item 2] = some (toJson heap (.list ⟨1⟩)) ∧
      (toJson heap (.list ⟨0⟩)).part? [.item 1, .field "me", .item 0] = none := by
  have hmap : Occurs heap (.list ⟨0⟩) [.item 1] [.list ⟨0⟩] (.map ⟨0⟩) :=
    .inside (c := .list ⟨0⟩) rfl (.root _)
  have hme : Occurs heap (.map ⟨0⟩) [.field "me"] [.map ⟨0⟩] (.list ⟨0⟩) :=
    .inside (c := .map ⟨0⟩) rfl (.root _)
  have hrow : Occurs heap (.map ⟨0⟩) [.field "row"] [.map ⟨0⟩] (.list ⟨1⟩) :=
    .inside (c := .map ⟨0⟩) rfl (.root _)
  have hlast : Occurs heap (.list ⟨0⟩) [.item 2] [.list ⟨0⟩] (.list ⟨1⟩) :=
    .inside (c := .list ⟨0⟩) rfl (.root _)
  obtain ⟨-, hmark, hfull, hinside, -⟩ := toJson_unfolding heap (.list ⟨0⟩)
  refine ⟨?_, ?_, ?_, ?_⟩
  · exact (hmark _ _ (.list ⟨0⟩) (hmap.trans hme) (by decide)).2 (by decide)
  · exact hfull _ _ _ (hmap.trans hrow) acyclic_row (.inl (by decide))
  · exact hfull _ _ _ hlast acyclic_row (.inl (by decide))
  · exact hinside _ _ (.list ⟨0⟩) (.item 0) (hmap.trans hme) (by decide)

end SharedRow

end Value

end Sigil
