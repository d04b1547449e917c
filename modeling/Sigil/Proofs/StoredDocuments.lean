import Sigil.Proofs.IterationPasses
import Sigil.Proofs.SetGet
import Sigil.Proofs.SingleWrite
import Sigil.Proofs.StorableValues
import Sigil.Proofs.StoreHistory

/-!
# What the store keeps of a value

A value is stored as its document, and every read of a collection builds new values from the
documents in it. A stored value comes back structurally equal, with the identifier that the store
made up if it had none. No write to the value, or to what was read, reaches the store or shows in a
later read (`find_after_insert`).
-/

namespace Sigil

/-! ## Storing and reading -/

def insertForm (collection : String) (form : Json) : Json :=
  .object [("mongoInsert", .array [.string collection, form])]

def findForm (collection : String) : Json := .object [("mongoGet", .string collection)]

/-- The collection that an operand names. -/
def collectionName (collection : String) : String :=
  String.ofList (normalizePath collection.toList)

/-- The names of the operators on documents stand for them. -/
def Registry.HasDocuments (reg : Registry) : Prop :=
  ∀ op ∈ Operators.documents, reg.operator? op.name = some op

theorem Registry.hasDocuments_host : Registry.host.HasDocuments := by
  intro op hop
  fin_cases hop <;> rfl

/-- The collection holds the documents, and a read of it gives a new list of copies of them. -/
structure Registry.Reads (reg : Registry) (collection : String) (s : State) (docs : List Document)
    (r : ListRef) (t : State) : Prop where
  stored : s.store.map (·.find (collectionName collection)) = some docs
  eval (depth : Nat) (env : MapRef) :
    reg.evaluate (depth + 1) env (findForm collection) s = .ended ⟨.ok (.list r), t⟩
  isNew : (Value.list r).IsNew s.heap
  untouched : s.Untouched t
  copies : List.Forall₂ (Value.IsCopy s.heap t.heap) (docs.map .object) (t.heap.list r)

namespace Operators

variable {sc : Scope} {s : State} {store : Store}

theorem onStore_eq {α : Type} (f : Store → Except HostFault α × Store)
    (hstore : s.store = some store) :
    onStore f s =
      .ended ⟨(f store).1.mapError .host, { s with store := some (f store).2 }⟩ := by
  refine (EvalM.bind_of_ok rfl).trans ?_
  rw [hstore]
  refine (EvalM.bind_of_ok rfl).trans ?_
  cases (f store).1 <;> rfl

theorem document_of_object (operator : String) {o : Operand} {v : Value} {t : State}
    {doc : Document} (ho : sc.eval o s = .ended ⟨.ok v, t⟩) (hv : v.toJson t.heap = .object doc) :
    document sc operator o s = .ended ⟨.ok doc, t⟩ := by
  refine (EvalM.bind_of_ok ho).trans ?_
  refine (EvalM.bind_of_ok rfl).trans ?_
  rw [hv]
  rfl

end Operators

namespace Registry

variable {reg : Registry} (hdocs : reg.HasDocuments) {collection : String} {s t : State}
  {store : Store}

include hdocs

theorem evaluate_findForm (hstore : s.store = some store) {x : Value} {k : Heap}
    (hbuilt : Value.ofJson (.array ((store.find (collectionName collection)).map .object)) s.heap =
      (x, k)) (depth : Nat) (env : MapRef) :
    reg.evaluate (depth + 1) env (findForm collection) s =
      .ended ⟨.ok x, { s with heap := k }⟩ := by
  have hop := hdocs _ (List.mem_cons_self)
  have hfind := Operators.onStore_eq
    (fun store => (.ok (store.find (collectionName collection)), store)) hstore
  have hsame : { s with store := some store } = s := by rw [← hstore]
  rw [hsame] at hfind
  rw [findForm, evaluate_invocation hop rfl]
  refine (EvalM.bind_of_ok rfl).trans ?_
  refine (EvalM.bind_of_ok hfind).trans ?_
  simp only [EvalM.ofJson, EvalM.onHeap, hbuilt]

/-- A collection can be read whenever there is a store. -/
theorem exists_reads (collection : String) (hstore : s.store = some store) :
    ∃ r t, reg.Reads collection s (store.find (collectionName collection)) r t := by
  obtain ⟨x, k, hbuilt⟩ : ∃ x k, Value.ofJson
      (.array ((store.find (collectionName collection)).map .object)) s.heap = (x, k) := ⟨_, _, rfl⟩
  have huntouched : s.Untouched { s with heap := k } := by
    have hofJson := ((readable_untouched s).ofJson
      (.array ((store.find (collectionName collection)).map .object)) (.refl s)).1
    rwa [hbuilt] at hofJson
  have hcopy := Value.isCopy_of_ofJson hbuilt
  obtain ⟨r, rfl, hcopies⟩ := hcopy.of_array
  exact ⟨r, _, by rw [hstore]; rfl, evaluate_findForm hdocs hstore hbuilt, hcopy.isNew rfl,
    huntouched, hcopies⟩

/-- Storing the document of a value: what the store answers, or its fault. -/
theorem evaluate_insertForm (collection : String) {form : Json} {depth : Nat} {env : MapRef}
    {v : Value} {doc : Document}
    (hform : reg.evaluate depth env (Operand.ofForm form).raw s = .ended ⟨.ok v, t⟩)
    (hv : v.toJson t.heap = .object doc) (hstore : t.store = some store) :
    let answer := store.insert (collectionName collection) doc
    let later := { t with store := some answer.2 }
    (∀ id, answer.1 = .ok id →
      reg.evaluate (depth + 1) env (insertForm collection form) s =
        .ended ⟨.ok (.native (t.heap.newNative (.insertResult id)).1),
          { later with heap := (t.heap.newNative (.insertResult id)).2 }⟩) ∧
    ∀ fault, answer.1 = .error fault →
      reg.evaluate (depth + 1) env (insertForm collection form) s =
        .ended ⟨.error (.host fault), later⟩ := by
  intro answer later
  have hop := hdocs { name := "mongoInsert", arity := .exactly 2, run := Operators.insertDocument }
    (by simp [Operators.documents])
  have hdocument : Operators.document (reg.scope (·.evaluate depth) env) "mongoInsert"
      (.ofForm form) s = .ended ⟨.ok doc, t⟩ :=
    Operators.document_of_object "mongoInsert" hform hv
  have hinsert := Operators.onStore_eq (·.insert (collectionName collection) doc) hstore
  have hrun : reg.evaluate (depth + 1) env (insertForm collection form) s =
      (Operators.onStore (·.insert (collectionName collection) doc) >>= fun id =>
        EvalM.onHeap (·.newNative (.insertResult id)) >>= fun r => pure (.native r)) t := by
    rw [insertForm, evaluate_invocation hop rfl]
    refine (EvalM.bind_of_ok rfl).trans ?_
    exact EvalM.bind_of_ok hdocument
  rw [hrun]
  refine ⟨fun id hid => ?_, fun fault hfault => ?_⟩
  · rw [hid] at hinsert
    exact EvalM.bind_of_ok hinsert
  · rw [hfault] at hinsert
    exact EvalM.bind_of_error hinsert

end Registry

/-! ## The last document -/

/-- A read of the collection gives copies of the documents and of one more. That one is a new map,
which has the property in the heap after the read. -/
def Registry.ReadsLast (reg : Registry) (collection : String) (s : State) (docs : List Document)
    (P : Heap → MapRef → Prop) : Prop :=
  ∃ doc r t m, reg.Reads collection s (docs ++ [doc]) r t ∧
    (t.heap.list r).getLast? = some (.map m) ∧ (Value.map m).IsNew s.heap ∧ P t.heap m

theorem Registry.Reads.last {reg : Registry} {collection : String} {s t : State}
    {docs : List Document} {doc : Document} {r : ListRef}
    (hreads : reg.Reads collection s (docs ++ [doc]) r t) :
    ∃ m, (t.heap.list r).getLast? = some (.map m) ∧
      Value.IsCopy s.heap t.heap (.object doc) (.map m) := by
  have hcopies := List.forall₂_reverse_iff.2 hreads.copies
  rw [List.map_append, List.map_singleton, List.reverse_append, List.reverse_singleton,
    List.singleton_append] at hcopies
  rw [← List.head?_reverse]
  generalize (t.heap.list r).reverse = xs at hcopies
  cases hcopies with
  | cons hcopy _ =>
    obtain ⟨m, rfl, -⟩ := hcopy.of_object
    exact ⟨m, rfl, hcopy⟩

theorem Registry.HasDocuments.readsLast {reg : Registry} (hdocs : reg.HasDocuments)
    {collection : String} {s : State} {store : Store} {docs : List Document} {doc : Document}
    {P : Heap → MapRef → Prop} (hstore : s.store = some store)
    (hfind : store.find (collectionName collection) = docs ++ [doc])
    (hP : ∀ k m, s.heap.Extends k → Value.IsCopy s.heap k (.object doc) (.map m) → P k m) :
    reg.ReadsLast collection s docs P := by
  obtain ⟨r, t, hreads⟩ := exists_reads hdocs collection hstore
  rw [hfind] at hreads
  obtain ⟨m, hlast, hcopy⟩ := hreads.last
  exact ⟨doc, r, t, m, hreads, hlast, hcopy.isNew rfl, hP _ m hreads.untouched.heap hcopy⟩

/-! ## Identifiers -/

theorem Store.lacksId_iff {doc : Document} :
    lacksId doc = true ↔ (idOf? doc).getD .null = .null := by
  unfold lacksId
  cases idOf? doc with
  | none => simp
  | some id => cases id <;> simp

namespace Value

variable {h : Heap}

theorem IsDatum.toJson_eq_null_iff {x : Value} (hx : IsDatum h x) :
    toJson h x = .null ↔ x = .null := by
  cases x with
  | list r => simp [toJson, unfold_list]
  | map r => simp [toJson, unfold_map]
  | null | bool | int | string => simp [toJson, unfold]
  | _ => exact hx.elim

/-- The document of a map lacks an identifier just if the map does. -/
theorem Storable.lacksId_iff {v : MapRef} (hv : Storable h (.map v)) :
    Store.lacksId (documentOf h v) = true ↔ ((h.map v).get? Store.idField).getD .null = .null := by
  rw [Store.lacksId_iff, Store.idOf?, lookup_documentOf]
  cases hid : (h.map v).get? Store.idField with
  | none => simp
  | some x => exact (hv.of_get? hid).datum.toJson_eq_null_iff

end Value

/-! ## Later writes -/

theorem State.Untouched.store {s t : State} (h : s.Untouched t) : t.store = s.store := by
  have hrest := congrArg State.store h.rest
  exact hrest

/-- The second state is reached from the first by writing values to paths, some of them perhaps
refused. The evaluation of the values leaves the store as it was. -/
inductive Registry.Writes (reg : Registry) : State → State → Prop where
  | done (s : State) : Writes reg s s
  | write {fields : List (String × Json)} {path : String} {form : Json} {depth : Nat} {env : MapRef}
      {s u : State} {o o' : Outcome Value} :
      reg.objectRole fields = .invocation "set" [.ofForm (.string path), .ofForm form] →
      reg.evaluate depth env (Operand.ofForm form).raw s = .ended o → o.state.store = s.store →
      reg.evaluate (depth + 1) env (.object fields) s = .ended o' → Writes reg o'.state u →
      Writes reg s u

/-- A write does not reach the store. -/
theorem Registry.store_of_write {reg : Registry} (hreg : reg.HasBuiltin)
    {fields : List (String × Json)} {path : String} {form : Json} {depth : Nat} {env : MapRef}
    {s : State} {o o' : Outcome Value}
    (hrole : reg.objectRole fields = .invocation "set" [.ofForm (.string path), .ofForm form])
    (ho : reg.evaluate depth env (Operand.ofForm form).raw s = .ended o)
    (ho' : reg.evaluate (depth + 1) env (.object fields) s = .ended o') :
    o'.state.store = o.state.store := by
  obtain ⟨result, w⟩ := o
  simp only [evaluate, step, hrole, invoke_set hreg] at ho'
  cases result with
  | error e =>
    obtain rfl := Course.ended.inj ((EvalM.bind_of_error ho).symm.trans ho')
    rfl
  | ok v =>
    have hset : ((reg.scope (·.evaluate depth) env).resolve (.ofForm (.string path)) >>=
        fun location => Operators.writeAt v location >>= fun _ => pure .null) w = .ended o' :=
      (EvalM.bind_of_ok ho).symm.trans ho'
    -- The path may fail, too; if it does not, then the write changes the heap at most.
    rcases EvalM.bind_eq_ended hset with ⟨e, t, hresolve⟩ | ⟨location, t, hresolve, hwrite⟩
    · obtain rfl := Course.ended.inj ((EvalM.bind_of_error hresolve).symm.trans hset)
      exact (untouched_resolve hreg env hresolve).store
    · rw [← (untouched_resolve hreg env hresolve).store]
      obtain ⟨result, u, hrun, hslot, hnone, -, -⟩ := location.exists_write t v
      obtain rfl := Course.ended.inj (hrun.symm.trans hwrite)
      cases hfound : location.slot? t.heap with
      | none => rw [hnone hfound]
      | some slot => rw [(hslot slot hfound).2]

theorem Registry.Writes.store_eq {reg : Registry} (hreg : reg.HasBuiltin) {s t : State}
    (hwrites : reg.Writes s t) : t.store = s.store := by
  induction hwrites with
  | done => rfl
  | write hrole ho hkept ho' _ ih => rw [ih, store_of_write hreg hrole ho ho', hkept]

/-! ## Storing a value and reading it back -/

section Insert

variable {reg : Registry} (hdocs : reg.HasDocuments) {collection : String} {form : Json}
  {depth : Nat} {env : MapRef} {s t : State} {v : MapRef} {store : Store}
  (hform : reg.evaluate depth env (Operand.ofForm form).raw s = .ended ⟨.ok (.map v), t⟩)
  (hstore : t.store = some store) (hv : Value.Storable t.heap (.map v))

include hdocs hform hstore hv

/-- If the store takes the document of a map, then the collection is read with it at the end. -/
theorem readsLast_of_insert {id : Json} {P : Heap → MapRef → Prop}
    (hid : (store.insert (collectionName collection) (Value.documentOf t.heap v)).1 = .ok id)
    (hP : ∀ old k m, t.heap.Extends k →
      Value.IsCopy old k (.object (Store.withId id (Value.documentOf t.heap v))) (.map m) → P k m) :
    ∃ r u, reg.evaluate (depth + 1) env (insertForm collection form) s =
        .ended ⟨.ok (.native r), u⟩ ∧ u.heap.native r = .insertResult id ∧
      reg.ReadsLast collection u (store.find (collectionName collection)) P := by
  have hinsert := (Registry.evaluate_insertForm hdocs collection hform hv.acyclic.toJson_map
    hstore).1 id hid
  have hfind := (Store.insert_inv hid).2.2 (collectionName collection)
  rw [if_pos rfl] at hfind
  refine ⟨_, _, hinsert, by simp [Heap.native, Heap.newNative], ?_⟩
  refine hdocs.readsLast rfl hfind fun k m hk hcopy => ?_
  exact hP _ k m ((Heap.extends_newNative t.heap _).trans hk) hcopy

theorem exists_id_of_insert {x : Value} {u : State}
    (hinsert : reg.evaluate (depth + 1) env (insertForm collection form) s = .ended ⟨.ok x, u⟩) :
    ∃ id, (store.insert (collectionName collection) (Value.documentOf t.heap v)).1 = .ok id := by
  cases hanswer : (store.insert (collectionName collection) (Value.documentOf t.heap v)).1 with
  | ok id => exact ⟨id, rfl⟩
  | error fault =>
    have hfault := (Registry.evaluate_insertForm hdocs collection hform hv.acyclic.toJson_map
      hstore).2 fault hanswer
    cases hfault.symm.trans hinsert

theorem readsLast_of_identified {x : Value} (hx : (t.heap.map v).get? Store.idField = some x)
    (hnull : x ≠ .null)
    (hnew : ∀ doc ∈ store.find (collectionName collection),
      Store.hasId (x.toJson t.heap) doc = false) :
    ∃ r u, reg.evaluate (depth + 1) env (insertForm collection form) s =
        .ended ⟨.ok (.native r), u⟩ ∧ u.heap.native r = .insertResult (x.toJson t.heap) ∧
      reg.ReadsLast collection u (store.find (collectionName collection)) fun k m =>
        t.heap.Extends k ∧ Value.structEq k (.map m) (.map v) = true := by
  have hid : Store.idOf? (Value.documentOf t.heap v) = some (x.toJson t.heap) := by
    rw [Store.idOf?, Value.lookup_documentOf, hx]
    rfl
  have hidentify : (store.identify (Value.documentOf t.heap v)).1 = x.toJson t.heap := by
    rw [store.identify_of_idOf? hid (mt (hv.of_get? hx).datum.toJson_eq_null_iff.1 hnull)]
  have hanswer := (store.insert_fst_iff (collectionName collection) (Value.documentOf t.heap v)).2
    (by rwa [hidentify])
  rw [hidentify] at hanswer
  refine readsLast_of_insert hdocs hform hstore hv hanswer fun old k m hk hcopy => ⟨hk, ?_⟩
  -- The document has its identifier, so that it is stored as it is.
  have hlacks : ¬ Store.lacksId (Value.documentOf t.heap v) = true := by
    rw [hv.lacksId_iff, hx]
    exact hnull
  rw [Store.withId, if_neg hlacks] at hcopy
  exact hv.structEq_copy hk hcopy

theorem readsLast_of_unidentified
    (hid : ((t.heap.map v).get? Store.idField).getD .null = .null) {x : Value} {u : State}
    (hinsert : reg.evaluate (depth + 1) env (insertForm collection form) s = .ended ⟨.ok x, u⟩) :
    ∃ id : String, x.member u.heap (.string "insertedId") = some (.string id, u.heap) ∧
      reg.ReadsLast collection u (store.find (collectionName collection)) fun k m =>
        t.heap.Extends k ∧ Value.structEq (k.copyWith v Store.idField (.string id)).2 (.map m)
          (.map (k.copyWith v Store.idField (.string id)).1) = true := by
  have hlacks := hv.lacksId_iff.2 hid
  obtain ⟨id, hanswer⟩ := exists_id_of_insert hdocs hform hstore hv hinsert
  obtain ⟨made, rfl⟩ : ∃ made, id = .string made := by
    rw [(Store.insert_inv hanswer).1, store.identify_of_lacksId hlacks]
    exact ⟨_, rfl⟩
  have hstored (old k : Heap) (m : MapRef) (hk : t.heap.Extends k)
      (hcopy : Value.IsCopy old k
        (.object (Store.withId (.string made) (Value.documentOf t.heap v))) (.map m)) :
      t.heap.Extends k ∧ Value.structEq (k.copyWith v Store.idField (.string made)).2 (.map m)
        (.map (k.copyWith v Store.idField (.string made)).1) = true := by
    rw [Store.withId, if_pos hlacks] at hcopy
    exact ⟨hk, hv.structEq_copyWith hk hcopy⟩
  obtain ⟨r, u', hinsert', hnative, hreads⟩ :=
    readsLast_of_insert hdocs hform hstore hv hanswer hstored
  obtain ⟨rfl, rfl⟩ : Value.native r = x ∧ u' = u := by simpa using hinsert'.symm.trans hinsert
  refine ⟨made, ?_, hreads⟩
  change Value.nativeMember u'.heap r "insertedId" = _
  rw [Value.nativeMember, hnative]
  rfl

end Insert

/-- What is read does not depend on what was written after the documents were stored. -/
theorem Registry.Reads.of_writes {reg : Registry} (hreg : reg.HasBuiltin)
    (hdocs : reg.HasDocuments) {collection : String} {s t u : State} {docs : List Document}
    {r : ListRef} (hreads : reg.Reads collection s docs r t)
    (hwrites : reg.Writes s u ∨ reg.Writes t u) :
    u.store = s.store ∧ ∃ r' w, reg.Reads collection u docs r' w := by
  have hstore : u.store = s.store := by
    rcases hwrites with hwrites | hwrites
    · exact hwrites.store_eq hreg
    · rw [hwrites.store_eq hreg, hreads.untouched.store]
  obtain ⟨store, hsome, rfl⟩ := Option.map_eq_some_iff.1 hreads.stored
  exact ⟨hstore, exists_reads hdocs collection (hstore.trans hsome)⟩

/-- Storing a map of data, with any sharing in it, and reading its collection. A map with an
identifier that no stored document has is stored; one without an identifier, or with null, gets one
if it is stored. Afterwards the collection holds the documents that it held before, and one more,
which is read as a new map. This map is structurally equal to the one that was stored, or to that
with the identifier in it. Writes, to these maps or others, change neither the store nor what is
read later. -/
theorem find_after_insert (reg : Registry) (hreg : reg.HasBuiltin) (hdocs : reg.HasDocuments)
    (collection : String) (form : Json) (depth : Nat) (env : MapRef) (s t : State) (v : MapRef)
    (store : Store)
    (hform : reg.evaluate depth env (Operand.ofForm form).raw s = .ended ⟨.ok (.map v), t⟩)
    (hstore : t.store = some store) (hv : Value.Storable t.heap (.map v)) :
    let before := store.find (collectionName collection)
    let insert := reg.evaluate (depth + 1) env (insertForm collection form) s
    (∃ r u, reg.Reads collection t before r u) ∧
    (∀ x, (t.heap.map v).get? "_id" = some x → x ≠ .null →
      (∀ doc ∈ before, Store.hasId (x.toJson t.heap) doc = false) →
      ∃ r u, insert = .ended ⟨.ok (.native r), u⟩ ∧
        u.heap.native r = .insertResult (x.toJson t.heap) ∧
        reg.ReadsLast collection u before fun k m =>
          t.heap.Extends k ∧ Value.structEq k (.map m) (.map v) = true) ∧
    (((t.heap.map v).get? "_id").getD .null = .null → ∀ x u, insert = .ended ⟨.ok x, u⟩ →
      ∃ id : String, x.member u.heap (.string "insertedId") = some (.string id, u.heap) ∧
        reg.ReadsLast collection u before fun k m =>
          t.heap.Extends k ∧ Value.structEq (k.copyWith v "_id" (.string id)).2 (.map m)
            (.map (k.copyWith v "_id" (.string id)).1) = true) ∧
    ∀ u docs r w later, reg.Reads collection u docs r w →
      reg.Writes u later ∨ reg.Writes w later →
      later.store = u.store ∧ ∃ r' w', reg.Reads collection later docs r' w' := by
  intro before insert
  refine ⟨Registry.exists_reads hdocs collection hstore, ?_, ?_, ?_⟩
  · intro x hx hnull hnew
    exact readsLast_of_identified hdocs hform hstore hv hx hnull hnew
  · intro hid x u hinsert
    exact readsLast_of_unidentified hdocs hform hstore hv hid hinsert
  · intro u docs r w later hreads hwrites
    exact hreads.of_writes hreg hdocs hwrites

namespace SharedNote

/-- The note `v` holds one row twice, and `w` is a note without an identifier. -/
def start : State :=
  { heap :=
    { lists := #[[.int 1, .null]]
      maps := #[.ofList [("v", .map ⟨1⟩), ("w", .map ⟨2⟩)],
        .ofList [("_id", .string "a"), ("row", .list ⟨0⟩), ("again", .list ⟨0⟩)],
        .ofList [("_id", .null), ("row", .list ⟨0⟩)]] }
    store := some { collections := .ofList [("notes", [[("_id", .int 7)]])] } }

theorem storable_row : Value.Storable start.heap (.list ⟨0⟩) := by
  refine .of_list (by decide) ?_
  change ∀ x ∈ [Value.int 1, .null], x.Storable start.heap
  simp only [List.forall_mem_cons]
  exact ⟨.of_scalar trivial trivial, .of_scalar trivial trivial, by simp⟩

theorem storable_first : Value.Storable start.heap (.map ⟨1⟩) := by
  refine .of_map (by decide) ?_
  change ∀ e ∈ [("_id", Value.string "a"), ("row", .list ⟨0⟩), ("again", .list ⟨0⟩)],
    e.2.Storable start.heap
  simp only [List.forall_mem_cons]
  exact ⟨.of_scalar trivial trivial, storable_row, storable_row, by simp⟩

theorem storable_second : Value.Storable start.heap (.map ⟨2⟩) := by
  refine .of_map (by decide) ?_
  change ∀ e ∈ [("_id", Value.null), ("row", .list ⟨0⟩)], e.2.Storable start.heap
  simp only [List.forall_mem_cons]
  exact ⟨.of_scalar trivial trivial, storable_row, by simp⟩

/-- The store makes up a text, and the identifier that it has is a number. -/
theorem exists_insert_second : ∃ x u, Registry.host.evaluate 3 ⟨0⟩
    (insertForm "notes" (.string "$.w")) start = .ended ⟨.ok x, u⟩ := by
  have hform : Registry.host.evaluate 2 ⟨0⟩ (Operand.ofForm (.string "$.w")).raw start =
      .ended ⟨.ok (.map ⟨2⟩), start⟩ := rfl
  have hinsert := Registry.evaluate_insertForm Registry.hasDocuments_host "notes" hform
    storable_second.acyclic.toJson_map rfl
  refine ⟨_, _, hinsert.1 _ ((Store.insert_fst_iff _ _ _).2 ?_)⟩
  rw [Store.identify_of_lacksId _ (storable_second.lacksId_iff.2 rfl)]
  change ∀ doc ∈ [[("_id", Json.int 7)]], _
  simp only [List.forall_mem_singleton]
  rfl

/-- The state after the row was written to. -/
def later : State :=
  { start with heap := { start.heap with lists := #[[.int 5, .null]] } }

theorem find_after_insert_shared :
    let before : List Document := [[("_id", .int 7)]]
    let insert (path : String) :=
      Registry.host.evaluate 3 ⟨0⟩ (insertForm "notes" (.string path)) start
    (∃ r u, insert "$.v" = .ended ⟨.ok (.native r), u⟩ ∧
      u.heap.native r = .insertResult (.string "a") ∧
      Registry.host.ReadsLast "notes" u before fun k m =>
        start.heap.Extends k ∧ Value.structEq k (.map m) (.map ⟨1⟩) = true) ∧
    (∃ x u id, insert "$.w" = .ended ⟨.ok x, u⟩ ∧
      x.member u.heap (.string "insertedId") = some (.string id, u.heap) ∧
      Registry.host.ReadsLast "notes" u before fun k m =>
        start.heap.Extends k ∧ Value.structEq (k.copyWith ⟨2⟩ "_id" (.string id)).2 (.map m)
          (.map (k.copyWith ⟨2⟩ "_id" (.string id)).1) = true) ∧
    Registry.host.Writes start later ∧ ∃ r w, Registry.host.Reads "notes" later before r w := by
  intro before insert
  have hpath (path : String) (v : MapRef)
      (hform : Registry.host.evaluate 2 ⟨0⟩ (Operand.ofForm (.string path)).raw start =
        .ended ⟨.ok (.map v), start⟩) (hv : Value.Storable start.heap (.map v)) :=
    find_after_insert .host Registry.hasBuiltin_host Registry.hasDocuments_host "notes"
      (.string path) 2 ⟨0⟩ start start v _ hform rfl hv
  obtain ⟨⟨r, u, hreads⟩, hfirst, -, hlater⟩ := hpath "$.v" ⟨1⟩ rfl storable_first
  obtain ⟨-, -, hsecond, -⟩ := hpath "$.w" ⟨2⟩ rfl storable_second
  have hwrite : Registry.host.evaluate 3 ⟨0⟩ (.object [("$.v.again.0", .int 5)]) start =
      .ended ⟨.ok .null, later⟩ := rfl
  have hwrites : Registry.host.Writes start later := .write rfl rfl rfl hwrite (.done later)
  refine ⟨?_, ?_, hwrites, ?_⟩
  · have hid : Value.toJson start.heap (.string "a") = .string "a" := by
      simp [Value.toJson, Value.unfold]
    have hinsert := hfirst (.string "a") rfl (by simp)
    rw [hid] at hinsert
    exact hinsert (by decide)
  · obtain ⟨x, u, hinsert⟩ := exists_insert_second
    obtain ⟨id, hmember, hlast⟩ := hsecond rfl x u hinsert
    exact ⟨x, u, id, hinsert, hmember, hlast⟩
  · exact (hlater _ _ r u later hreads (.inl hwrites)).2

end SharedNote

end Sigil
