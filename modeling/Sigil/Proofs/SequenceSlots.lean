import Mathlib.Data.List.Infix
import Sigil.Proofs.Frame
import Sigil.Proofs.ReadOnly
import Sigil.Proofs.Sequence

/-!
# The slots of nested sequences

All sequences in an environment share the list in `seqArray` as a stack: a sequence owns the slot
that is free when it starts, and cuts the list back to where it was when it ends, whether by its
last form, an exit or an error. So the list never comes back longer (`evaluate_sequence_slots`), and
it comes back as it was if the forms leave what they find there alone (`KeepsSlots`), to which
nested sequences add nothing.
-/

namespace Sigil

open Operators

/-! ## The steps of a sequence as functions of the state -/

namespace Env

/-- The list in `seqArray`. -/
def slots? (env : MapRef) (s : State) : Option ListRef :=
  match (s.heap.map env).get? seqArray with
  | some (.list r) => some r
  | _ => none

/-- The elements of `seqArray`; none if it is no list. -/
def slotValues (env : MapRef) (s : State) : List Value :=
  ((slots? env s).map s.heap.list).getD []

/-- The list in `seqArray`, or the one that is made if there is none. -/
def slotList (env : MapRef) (s : State) : ListRef := (slots? env s).getD (s.heap.newList []).1

end Env

namespace State

/-- The state once there is a list in `seqArray`. -/
def withSlots (s : State) (env : MapRef) : State :=
  if (Env.slots? env s).isSome then s else { s with heap := newSlots env s.heap }

/-- The state with other elements in `seqArray`. -/
def mapSlots (s : State) (env : MapRef) (f : List Value → List Value) : State :=
  let h := (s.withSlots env).heap
  { s.withSlots env with heap := h.setList (Env.slotList env s) (f (h.list (Env.slotList env s))) }

/-- The state with a name bound in an environment. -/
def withVar (s : State) (env : MapRef) (name : String) (v : Value) : State :=
  { s with heap := s.heap.setMap env ((s.heap.map env).set name v) }

/-- The state after the result of a form was recorded. -/
def recorded (s : State) (env : MapRef) (start : Nat) (v : Value) : State :=
  if v.isNull then s else (s.withVar env Env.seq v).mapSlots env (writeSlot · start v)

/-- The state after the slots from `start` on were given back. -/
def released (s : State) (env : MapRef) (start : Nat) : State :=
  s.mapSlots env (List.take start)

end State

namespace Env

variable {env : MapRef} {s : State} {r : ListRef}

theorem slots?_eq_some : slots? env s = some r ↔
    (s.heap.map env).get? seqArray = some (.list r) := by
  unfold slots?
  split <;> simp_all

theorem slotList_of_some (hr : slots? env s = some r) : slotList env s = r := by
  rw [slotList, hr, Option.getD_some]

theorem slotValues_of_some (hr : slots? env s = some r) : slotValues env s = s.heap.list r := by
  rw [slotValues, hr, Option.map_some, Option.getD_some]

theorem withSlots_of_some (hr : slots? env s = some r) : s.withSlots env = s := by
  rw [State.withSlots, hr, Option.isSome_some, if_pos rfl]

/-- A name that is bound is bound in an environment of the heap. -/
theorem lt_size_of_slots? (hr : slots? env s = some r) : env.index < s.heap.maps.size :=
  Heap.lt_size_of_mem_map (Fields.mem_entries.2 (slots?_eq_some.1 hr))

theorem slots_eq (env : MapRef) (s : State) :
    slots env s = .ended ⟨.ok (slotList env s), s.withSlots env⟩ := by
  cases hr : slots? env s with
  | some r =>
    rw [slots_of_list (slots?_eq_some.1 hr), slotList_of_some hr, withSlots_of_some hr]
  | none =>
    have hnone (r : ListRef) : (s.heap.map env).get? seqArray ≠ some (.list r) := fun hv => by
      cases hr.symm.trans (slots?_eq_some.2 hv)
    rw [slots_of_not_list hnone, slotList, hr, State.withSlots, hr]
    rfl

theorem slots?_withSlots (henv : env.index < s.heap.maps.size) :
    slots? env (s.withSlots env) = some (slotList env s) := by
  cases hr : slots? env s with
  | some r => rw [withSlots_of_some hr, hr, slotList_of_some hr]
  | none =>
    have hmap : ((newSlots env s.heap).map env).get? seqArray =
        some (.list (s.heap.newList []).1) := by
      rw [newSlots, Heap.map_setMap (by simpa [Heap.newList] using henv)]
      simp
    rw [State.withSlots, slotList, hr]
    exact slots?_eq_some.2 hmap

theorem list_withSlots (env : MapRef) (s : State) :
    (s.withSlots env).heap.list (slotList env s) = slotValues env s := by
  cases hr : slots? env s with
  | some r => rw [withSlots_of_some hr, slotList_of_some hr, slotValues_of_some hr]
  | none =>
    rw [State.withSlots, slotList, slotValues, hr]
    exact Heap.list_newList s.heap []

end Env

theorem slotCount_eq (env : MapRef) (s : State) :
    slotCount env s = .ended ⟨.ok (Env.slotValues env s).length, s.withSlots env⟩ := by
  rw [← Env.list_withSlots]
  exact EvalM.bind_of_ok (Env.slots_eq env s)

theorem record_eq (env : MapRef) (start : Nat) (v : Value) (s : State) :
    record env start v s = .ended ⟨.ok (), s.recorded env start v⟩ := by
  unfold record State.recorded
  split
  · rfl
  · have hset : Env.set env Env.seq v s = .ended ⟨.ok (), s.withVar env Env.seq v⟩ := rfl
    rw [EvalM.bind_of_ok hset, EvalM.bind_of_ok (Env.slots_eq env _)]
    rfl

namespace State

variable {env : MapRef} {name : String}

/-- The list in `seqArray` is made and written without touching the other names. -/
theorem get?_mapSlots (s : State) (f : List Value → List Value) (hname : name ≠ Env.seqArray) :
    ((s.mapSlots env f).heap.map env).get? name = (s.heap.map env).get? name := by
  unfold mapSlots withSlots
  split
  · rfl
  · exact Heap.get?_setMap_ne (s.heap.newList []).2 env hname _

theorem exited_recorded (s : State) (start : Nat) (v : Value) :
    Env.Exited env (s.recorded env start v) ↔ Env.Exited env s := by
  unfold recorded
  split
  · rfl
  · rw [Env.Exited, get?_mapSlots _ _ (by decide)]
    exact Eq.congr_left (Heap.get?_setMap_ne s.heap env (by decide) v)

theorem exited_released (s : State) (start : Nat) :
    Env.Exited env (s.released env start) ↔ Env.Exited env s := by
  rw [Env.Exited, released, get?_mapSlots _ _ (by decide), Env.Exited]

end State

/-! ## One form -/

section Step

variable {sc : Scope} {start : Nat} {form : Operand} {rest : List Operand} {s t : State}

theorem runForms_of_crashed (heval : sc.eval form s = .crashed t) :
    runForms sc start (form :: rest) s = .crashed t :=
  EvalM.bind_of_crashed heval

theorem runForms_of_tooDeep (heval : sc.eval form s = .tooDeep) :
    runForms sc start (form :: rest) s = .tooDeep :=
  EvalM.bind_of_tooDeep heval

theorem runForms_of_error {e : EvalError} (heval : sc.eval form s = .ended ⟨.error e, t⟩) :
    runForms sc start (form :: rest) s = .ended ⟨.error e, t⟩ :=
  EvalM.bind_of_error heval

theorem runForms_of_exited {v : Value} (heval : sc.eval form s = .ended ⟨.ok v, t⟩)
    (hexit : Env.Exited sc.env t) :
    runForms sc start (form :: rest) s = .ended ⟨.ok (), t.recorded sc.env start v⟩ := by
  rw [runForms, EvalM.bind_of_ok heval, EvalM.bind_of_ok (record_eq _ _ v t),
    EvalM.bind_of_ok (exitRequested_of_exited ((t.exited_recorded start v).2 hexit))]
  rfl

theorem runForms_of_not_exited {v : Value} (heval : sc.eval form s = .ended ⟨.ok v, t⟩)
    (hexit : ¬Env.Exited sc.env t) :
    runForms sc start (form :: rest) s = runForms sc start rest (t.recorded sc.env start v) := by
  rw [runForms, EvalM.bind_of_ok heval, EvalM.bind_of_ok (record_eq _ _ v t),
    EvalM.bind_of_ok (exitRequested_of_not_exited (mt (t.exited_recorded start v).1 hexit))]
  rfl

end Step

/-! ## The whole sequence -/

/-- A sequence runs its forms with a list in `seqArray`, gives back its slots however that ends, and
returns what `seq` holds then. -/
theorem sequence_eq (sc : Scope) (forms : List Operand) (s : State) :
    sequence sc forms s =
      (runForms sc (Env.slotValues sc.env s).length forms (s.withSlots sc.env)).map fun o =>
        let t := o.state.released sc.env (Env.slotValues sc.env s).length
        ⟨o.result.map fun _ => Env.read sc.env Env.seq t, t⟩ := by
  unfold Operators.sequence
  rw [EvalM.bind_of_ok (slotCount_eq sc.env s), EvalM.bind_attempt]
  cases runForms sc (Env.slotValues sc.env s).length forms (s.withSlots sc.env) with
  | crashed | tooDeep => rfl
  | ended o =>
    obtain ⟨result, t⟩ := o
    refine (EvalM.bind_of_ok (Env.slots_eq sc.env t)).trans ?_
    cases result with
    | ok a => rfl
    | error e => rfl

/-! ## Writing and giving back slots -/

namespace State

variable {env : MapRef} {s : State} {f : List Value → List Value}

theorem slots?_mapSlots (henv : env.index < s.heap.maps.size) :
    Env.slots? env (s.mapSlots env f) = some (Env.slotList env s) :=
  Env.slots?_withSlots henv

/-- A list outside the heap is empty and stays so. -/
theorem list_mapSlots
    (hf : f [] = [] ∨ (Env.slotList env s).index < (s.withSlots env).heap.lists.size) :
    (s.mapSlots env f).heap.list (Env.slotList env s) = f (Env.slotValues env s) := by
  rw [← Env.list_withSlots, mapSlots]
  by_cases hlt : (Env.slotList env s).index < (s.withSlots env).heap.lists.size
  · exact Heap.list_setList hlt _
  · have hle := Nat.not_lt.1 hlt
    rw [Heap.setList_of_le hle, Heap.list_of_le hle, hf.resolve_right hlt]

theorem maps_size_withSlots (s : State) (env : MapRef) :
    (s.withSlots env).heap.maps.size = s.heap.maps.size := by
  unfold withSlots
  split <;> simp [newSlots, Heap.setMap, Heap.newList]

theorem maps_size_mapSlots (s : State) (env : MapRef) (f : List Value → List Value) :
    (s.mapSlots env f).heap.maps.size = s.heap.maps.size :=
  s.maps_size_withSlots env

theorem slots?_withVar {name : String} (hname : name ≠ Env.seqArray) (v : Value) :
    Env.slots? env (s.withVar env name v) = Env.slots? env s := by
  simp only [Env.slots?, withVar, Heap.get?_setMap_ne s.heap env hname.symm]

end State

theorem isPrefix_writeSlot {xs ys : List Value} (hxs : xs <+: ys) (v : Value) :
    xs <+: writeSlot ys xs.length v := by
  obtain ⟨zs, rfl⟩ := hxs
  rw [writeSlot, List.append_assoc, List.set_append_right _ _ (Nat.le_refl _)]
  exact List.prefix_append _ _

/-! ## What forms leave in the slots -/

/-- In the environment, what is evaluated leaves `seqArray` bound to the list that it finds there,
with the elements that it finds there in front. -/
def KeepsSlots (env : MapRef) (m : EvalM Value) : Prop :=
  ∀ s o r, Env.slots? env s = some r → m s = .ended o →
    Env.slots? env o.state = some r ∧ s.heap.list r <+: o.state.heap.list r

/-- `seqArray` has the list that it had, or that was made, with the elements that it had. -/
def SlotsRestored (env : MapRef) (s t : State) : Prop :=
  Env.slots? env t = some (Env.slotList env s) ∧
    t.heap.list (Env.slotList env s) = Env.slotValues env s

/-- The slots of the sequences around are in place: the list and its elements in front. -/
def SlotsInPlace (env : MapRef) (r : ListRef) (below : List Value) (s : State) : Prop :=
  Env.slots? env s = some r ∧ below <+: s.heap.list r

namespace SlotsInPlace

variable {env : MapRef} {r : ListRef} {below : List Value} {s : State}

/-- One form: recording a result writes to the slot behind those of the sequences around. -/
theorem recorded (hs : SlotsInPlace env r below s) (v : Value) :
    SlotsInPlace env r below (s.recorded env below.length v) := by
  unfold State.recorded
  split
  · exact hs
  · have hr : Env.slots? env (s.withVar env Env.seq v) = some r := by
      rw [State.slots?_withVar (by decide)]
      exact hs.1
    have hvalues : Env.slotValues env (s.withVar env Env.seq v) = s.heap.list r :=
      Env.slotValues_of_some hr
    refine ⟨?_, ?_⟩
    · rw [State.slots?_mapSlots (Env.lt_size_of_slots? hr), Env.slotList_of_some hr]
    · by_cases hlt : r.index < s.heap.lists.size
      · have hlist := State.list_mapSlots (f := (writeSlot · below.length v)) (.inr
          (by rwa [Env.slotList_of_some hr, Env.withSlots_of_some hr]))
        rw [Env.slotList_of_some hr, hvalues] at hlist
        rw [hlist]
        exact isPrefix_writeSlot hs.2 v
      · have hbelow : below = [] :=
          List.prefix_nil.1 (Heap.list_of_le (Nat.not_lt.1 hlt) ▸ hs.2)
        rw [hbelow]
        exact List.nil_prefix

/-- All forms: what they keep is in place whether they end well or not. -/
theorem runForms {sc : Scope} (hsc : sc.env = env) {forms : List Operand}
    (hforms : ∀ o ∈ forms, KeepsSlots env (sc.eval o)) (hs : SlotsInPlace env r below s)
    {o : Outcome Unit} (h : Operators.runForms sc below.length forms s = .ended o) :
    SlotsInPlace env r below o.state := by
  subst hsc
  induction forms generalizing s with
  | nil =>
    obtain rfl := Course.ended.inj h
    exact hs
  | cons form rest ih =>
    rw [List.forall_mem_cons] at hforms
    cases heval : sc.eval form s with
    | crashed => cases (runForms_of_crashed heval).symm.trans h
    | tooDeep => cases (runForms_of_tooDeep heval).symm.trans h
    | ended out =>
      obtain ⟨result, t⟩ := out
      obtain ⟨hslots, hfront⟩ := hforms.1 s _ r hs.1 heval
      have ht : SlotsInPlace sc.env r below t := ⟨hslots, hs.2.trans hfront⟩
      cases result with
      | error e =>
        obtain rfl := Course.ended.inj ((runForms_of_error heval).symm.trans h)
        exact ht
      | ok v =>
        by_cases hexit : Env.Exited sc.env t
        · obtain rfl := Course.ended.inj ((runForms_of_exited heval hexit).symm.trans h)
          exact ht.recorded v
        · rw [runForms_of_not_exited heval hexit] at h
          exact ih h hforms.2 (ht.recorded v)

/-- Giving back the slots leaves exactly those of the sequences around. -/
theorem released (hs : SlotsInPlace env r below s) :
    Env.slots? env (s.released env below.length) = some r ∧
      (s.released env below.length).heap.list r = below := by
  have hslots : Env.slots? env (s.released env below.length) = _ :=
    State.slots?_mapSlots (Env.lt_size_of_slots? hs.1)
  have hlist : (s.released env below.length).heap.list (Env.slotList env s) = _ :=
    State.list_mapSlots (.inl List.take_nil)
  rw [Env.slotList_of_some hs.1] at hslots hlist
  rw [Env.slotValues_of_some hs.1, ← List.prefix_iff_eq_take.1 hs.2] at hlist
  exact ⟨hslots, hlist⟩

end SlotsInPlace

theorem slotsRestored_of_sequence {sc : Scope} {forms : List Operand} {s : State}
    (henv : sc.env.index < s.heap.maps.size)
    (hforms : ∀ o ∈ forms, KeepsSlots sc.env (sc.eval o)) {o : Outcome Value}
    (h : sequence sc forms s = .ended o) : SlotsRestored sc.env s o.state := by
  rw [sequence_eq] at h
  obtain ⟨out, hrun, rfl⟩ := Course.map_eq_ended h
  have hstart : SlotsInPlace sc.env (Env.slotList sc.env s) (Env.slotValues sc.env s)
      (s.withSlots sc.env) := by
    refine ⟨Env.slots?_withSlots henv, ?_⟩
    rw [Env.list_withSlots]
  exact (hstart.runForms rfl hforms hrun).released

theorem SlotsRestored.keeps {env : MapRef} {s t : State} {r : ListRef}
    (hrestored : SlotsRestored env s t) (hr : Env.slots? env s = some r) :
    Env.slots? env t = some r ∧ t.heap.list r = s.heap.list r := by
  rwa [SlotsRestored, Env.slotList_of_some hr, Env.slotValues_of_some hr] at hrestored

/-- Whatever its forms do, a sequence leaves no more slots than there were. -/
theorem slots?_of_sequence {sc : Scope} {forms : List Operand} {s : State} {o : Outcome Value}
    (h : sequence sc forms s = .ended o) (henv : sc.env.index < o.state.heap.maps.size) :
    ∃ r, Env.slots? sc.env o.state = some r ∧
      (o.state.heap.list r).length ≤ (Env.slotValues sc.env s).length := by
  rw [sequence_eq] at h
  obtain ⟨⟨result, t⟩, -, rfl⟩ := Course.map_eq_ended h
  dsimp only at henv ⊢
  rw [State.released, State.maps_size_mapSlots] at henv
  refine ⟨Env.slotList sc.env t, State.slots?_mapSlots henv, ?_⟩
  rw [State.released, State.list_mapSlots (.inl List.take_nil)]
  exact List.length_take_le _ _

/-! ## The form -/

/-- The invocation of `sequence` with its forms. -/
def sequenceForm (forms : List Json) : Json := .object [("sequence", .array forms)]

theorem Registry.operator?_sequence : builtin.operator? "sequence" =
    some { name := "sequence", arity := .any, run := Operators.sequence } := rfl

theorem Registry.evaluate_sequenceForm {reg : Registry} (hreg : reg.HasBuiltin) (depth : Nat)
    (env : MapRef) (forms : List Json) : reg.evaluate (depth + 1) env (sequenceForm forms) =
      sequence (reg.scope (·.evaluate depth) env) (forms.map .ofForm) :=
  evaluate_invocation (hreg "sequence" _ operator?_sequence) rfl depth env

/-! ## Nested sequences -/

/-- The form is one of the given ones, or a sequence of such forms, nested to any depth. -/
inductive NestedIn (leaf : Json → Prop) : Json → Prop where
  | leaf {form : Json} : leaf form → NestedIn leaf form
  | sequence {forms : List Json} : (∀ j ∈ forms, NestedIn leaf (Operand.ofForm j).raw) →
      NestedIn leaf (sequenceForm forms)

section Nested

variable {reg : Registry} (hreg : reg.HasBuiltin) {env : MapRef}

include hreg

theorem Registry.slotsRestored_sequenceForm {depth : Nat} {forms : List Json} {s : State}
    {o : Outcome Value} (henv : env.index < s.heap.maps.size)
    (hforms : ∀ j ∈ forms, KeepsSlots env (reg.evaluate depth env (Operand.ofForm j).raw))
    (h : reg.evaluate (depth + 1) env (sequenceForm forms) s = .ended o) :
    SlotsRestored env s o.state := by
  rw [reg.evaluate_sequenceForm hreg] at h
  refine slotsRestored_of_sequence henv (fun form hform => ?_) h
  obtain ⟨j, hj, rfl⟩ := List.mem_map.1 hform
  exact hforms j hj

theorem NestedIn.keepsSlots {leaf : Json → Prop}
    (hleaf : ∀ form, leaf form → ∀ depth, KeepsSlots env (reg.evaluate depth env form))
    {form : Json} (hform : NestedIn leaf form) (depth : Nat) :
    KeepsSlots env (reg.evaluate depth env form) := by
  induction hform generalizing depth with
  | leaf hform => exact hleaf _ hform depth
  | sequence _ ih =>
    intro s o r hr h
    cases depth with
    | zero => cases h
    | succ depth =>
      have hrestored := Registry.slotsRestored_sequenceForm hreg (Env.lt_size_of_slots? hr)
        (fun j hj => ih j hj depth) h
      obtain ⟨hslots, hlist⟩ := hrestored.keeps hr
      exact ⟨hslots, hlist ▸ List.prefix_rfl⟩

end Nested

/-- After a sequence, whatever its forms did and however it ended, `seqArray` is a list with no more
elements than there were when it started; without a list there were none. If each form leaves the
list that it finds there with its elements in front, then the sequence leaves exactly what it found,
or an empty list that it made; and so do sequences nested to any depth in each other around such
forms. -/
theorem evaluate_sequence_slots (reg : Registry) (hreg : reg.AllBuiltin) (hhost : reg.KeepsHeap)
    (depth : Nat) (env : MapRef) (forms : List Json) (s : State)
    (henv : env.index < s.heap.maps.size) (o : Outcome Value)
    (h : reg.evaluate (depth + 1) env (sequenceForm forms) s = .ended o) :
    (∃ r, Env.slots? env o.state = some r ∧
      (o.state.heap.list r).length ≤ (Env.slotValues env s).length) ∧
    ((∀ j ∈ forms, KeepsSlots env (reg.evaluate depth env (Operand.ofForm j).raw)) →
      SlotsRestored env s o.state) ∧
    ∀ leaf : Json → Prop,
      (∀ form, leaf form → ∀ depth, KeepsSlots env (reg.evaluate depth env form)) →
      (∀ j ∈ forms, NestedIn leaf (Operand.ofForm j).raw) → SlotsRestored env s o.state := by
  have hbuiltin := hreg.isBuiltin.hasBuiltin
  refine ⟨?_, fun hforms => Registry.slotsRestored_sequenceForm hbuiltin henv hforms h, ?_⟩
  · have hgrows := growsHeap_evaluate hreg hhost (depth + 1) env _ s o h
    rw [reg.evaluate_sequenceForm hbuiltin] at h
    exact slots?_of_sequence h (Nat.lt_of_lt_of_le henv hgrows.maps)
  · intro leaf hleaf hforms
    refine Registry.slotsRestored_sequenceForm hbuiltin henv (fun j hj => ?_) h
    exact (hforms j hj).keepsSlots hbuiltin hleaf depth

/-! ## Forms that only read -/

/-- A form that only reads leaves the slots alone. -/
theorem Json.ReadOnly.keepsSlots {reg : Registry} (hreg : reg.IsBuiltin) {form : Json}
    (hform : form.ReadOnly) (env : MapRef) (depth : Nat) :
    KeepsSlots env (reg.evaluate depth env form) := by
  intro s o r hr h
  obtain ⟨huntouched, -⟩ := untouched_evaluate hreg hform s depth env s o (.refl s) h
  have hmap := huntouched.heap.map (Env.lt_size_of_slots? hr)
  refine ⟨?_, ?_⟩
  · rw [← hr, Env.slots?, Env.slots?, hmap]
  · by_cases hlt : r.index < s.heap.lists.size
    · rw [huntouched.heap.list hlt]
    · rw [Heap.list_of_le (Nat.not_lt.1 hlt)]
      exact List.nil_prefix

namespace Nesting

/-- A sequence around has left `7` in `seqArray`. -/
def entry : State :=
  { heap := { lists := #[[.int 7]]
              maps := #[.ofList [("seqArray", .list ⟨0⟩), ("x", .int 3)]] } }

/-- Three sequences in each other. -/
def forms : List Json :=
  [.int 1, sequenceForm [.string "$.x", sequenceForm [.int 2, .string "$.y"]], .string "$.x + 1"]

theorem nestedIn : ∀ j ∈ forms, NestedIn Json.ReadOnly (Operand.ofForm j).raw := by
  have hinner : NestedIn Json.ReadOnly (sequenceForm [.int 2, .string "$.y"]) := by
    refine .sequence ?_
    simp only [List.forall_mem_cons, List.not_mem_nil, false_imp_iff, implies_true, and_true]
    exact ⟨.leaf (.int 2), .leaf (.string _)⟩
  simp only [forms, List.forall_mem_cons, List.not_mem_nil, false_imp_iff, implies_true, and_true]
  refine ⟨.leaf (.int 1), .sequence ?_, .leaf (.string _)⟩
  simp only [List.forall_mem_cons, List.not_mem_nil, false_imp_iff, implies_true, and_true]
  exact ⟨.leaf (.string _), hinner⟩

theorem evaluate_forms_slots :
    ∃ o, Registry.builtin.evaluate 6 ⟨0⟩ (sequenceForm forms) entry = .ended o ∧
      o.result = .ok (.int 4) ∧ Env.slots? ⟨0⟩ o.state = some ⟨0⟩ ∧
      o.state.heap.list ⟨0⟩ = [.int 7] := by
  have hrun : (Registry.builtin.evaluate 6 ⟨0⟩ (sequenceForm forms) entry).outcome?.map
      (·.result.toOption) = some (some (.int 4)) := by
    decide +kernel
  obtain ⟨o, ho, hresult⟩ := Course.exists_of_outcome?_map hrun
  obtain ⟨-, -, hnested⟩ := evaluate_sequence_slots .builtin (fun _ => rfl)
    (fun f hf => absurd hf List.not_mem_nil) 5 ⟨0⟩ forms entry (by decide) o ho
  have hrestored := hnested Json.ReadOnly (fun form hform => hform.keepsSlots rfl ⟨0⟩) nestedIn
  have hentry : Env.slots? ⟨0⟩ entry = some ⟨0⟩ := rfl
  exact ⟨o, ho, Outcome.result_eq_ok hresult, hrestored.keeps hentry⟩

end Nesting

end Sigil
