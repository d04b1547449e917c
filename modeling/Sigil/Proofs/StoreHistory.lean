import Sigil.Proofs.DocumentEquality
import Sigil.Store

/-!
# What a store holds

A store is described by the history of the calls to it, each with its answer. A collection holds the
documents of the inserts that succeeded, in that order and each in its latest version: the document
of the last replacement that succeeded and has an equal identifier (`documents_of_history`).
-/

namespace Sigil.Store

/-! ## Identifiers -/

/-- The document has no identifier, or a null one. -/
def lacksId (doc : Document) : Bool :=
  match idOf? doc with
  | some .null | none => true
  | _ => false

/-- The document has an identifier that can be told from others. -/
def Identified (doc : Document) : Prop := ∃ id, idOf? doc = some id ∧ id ≠ .null ∧ id.WellFormed

/-- The documents have equal identifiers. -/
def sameId (d e : Document) : Bool :=
  match idOf? d, idOf? e with
  | some i, some j => i.same j
  | _, _ => false

theorem sameId_iff {d e : Document} :
    sameId d e = true ↔ ∃ i j, idOf? d = some i ∧ idOf? e = some j ∧ i.same j = true := by
  unfold sameId
  cases idOf? d <;> cases idOf? e <;> simp

theorem sameId_eq_hasId {d e : Document} {id : Json} (he : idOf? e = some id) :
    sameId d e = hasId id d := by
  unfold sameId hasId
  rw [he]
  cases idOf? d <;> rfl

theorem sameId_symm {d e : Document} (hd : Identified d) (he : Identified e)
    (h : sameId d e = true) : sameId e d = true := by
  obtain ⟨i, hi, -, hwi⟩ := hd
  obtain ⟨j, hj, -, hwj⟩ := he
  obtain ⟨i', j', hi', hj', hsame⟩ := sameId_iff.1 h
  obtain rfl : i' = i := Option.some.inj (hi'.symm.trans hi)
  obtain rfl : j' = j := Option.some.inj (hj'.symm.trans hj)
  exact sameId_iff.2 ⟨j', i', hj', hi', Json.same_symm hwi hwj hsame⟩

theorem sameId_trans {d e f : Document} (hde : sameId d e = true) (hef : sameId e f = true) :
    sameId d f = true := by
  obtain ⟨i, j, hi, hj, hij⟩ := sameId_iff.1 hde
  obtain ⟨j', k, hj', hk, hjk⟩ := sameId_iff.1 hef
  obtain rfl : j' = j := Option.some.inj (hj'.symm.trans hj)
  exact sameId_iff.2 ⟨i, k, hi, hk, Json.same_trans hij hjk⟩

/-- Two documents whose identifiers equal a third one have equal identifiers. -/
theorem sameId_of_sameId {d e f : Document} (he : Identified e) (hf : Identified f)
    (hdf : sameId d f = true) (hef : sameId e f = true) : sameId d e = true :=
  sameId_trans hdf (sameId_symm he hf hef)

/-- Only null equals null, so a document with the identifier of another one is identified too. -/
theorem identified_of_sameId {d e : Document} (hd : Identified d) (h : sameId d e = true)
    (he : ∀ id, idOf? e = some id → id.WellFormed) : Identified e := by
  obtain ⟨i, hi, hnull, -⟩ := hd
  obtain ⟨i', j, hi', hj, hsame⟩ := sameId_iff.1 h
  obtain rfl : i' = i := Option.some.inj (hi'.symm.trans hi)
  refine ⟨j, hj, ?_, he j hj⟩
  rintro rfl
  cases i' with
  | null => exact hnull rfl
  | _ => cases hsame

/-! ## Calls, answers and histories -/

inductive Call where
  | insert (collection : String) (doc : Document)
  | replace (collection : String) (doc : Document)
  | find (collection : String)

inductive Answer where
  | inserted (result : Except HostFault Json)
  | replaced (found : Bool)
  | documents (docs : List Document)

namespace Call

def collection : Call → String
  | .insert c _ | .replace c _ | .find c => c

def isInsert : Call → Bool
  | .insert _ _ => true
  | _ => false

/-- No object in the document of the call repeats a field name. -/
def WellFormed : Call → Prop
  | .insert _ doc | .replace _ doc => Json.WellFormed (.object doc)
  | .find _ => True

end Call

/-- The call was carried out and has changed its collection. -/
def Answer.isChange : Answer → Bool
  | .inserted (.ok _) | .replaced true => true
  | _ => false

def serve (s : Store) : Call → Answer × Store
  | .insert c doc => (.inserted (s.insert c doc).1, (s.insert c doc).2)
  | .replace c doc => (.replaced (s.replace c doc).1, (s.replace c doc).2)
  | .find c => (.documents (s.find c), s)

/-- The store after a run of calls. -/
def serveAll (s : Store) (calls : List Call) : Store :=
  calls.foldl (fun s call => (s.serve call).2) s

/-- The calls of a run with their answers. -/
def history : Store → List Call → List (Call × Answer)
  | _, [] => []
  | s, call :: rest => (call, (s.serve call).1) :: history (s.serve call).2 rest

/-- The document with the identifier, unless it brings one of its own. -/
def withId (id : Json) (doc : Document) : Document :=
  if lacksId doc then overwrite idField id doc else doc

/-- The document that a call has added to a collection. -/
def inserted? (collection : String) : Call × Answer → Option Document
  | (.insert c doc, .inserted (.ok id)) => if c = collection then some (withId id doc) else none
  | _ => none

/-- The document that a call has put in the place of another one of a collection. -/
def replaced? (collection : String) : Call × Answer → Option Document
  | (.replace c doc, .replaced true) => if c = collection then some doc else none
  | _ => none

/-- The last of some versions with the identifier of the document, or the document itself. -/
def latest (versions : List Document) (doc : Document) : Document :=
  (versions.reverse.find? (sameId doc)).getD doc

/-- What a collection should hold after a history. -/
def expected (collection : String) (hist : List (Call × Answer)) : List Document :=
  (hist.filterMap (inserted? collection)).map (latest (hist.filterMap (replaced? collection)))

theorem serveAll_concat (s : Store) (calls : List Call) (call : Call) :
    s.serveAll (calls ++ [call]) = ((s.serveAll calls).serve call).2 := by
  simp [serveAll]

theorem history_concat (s : Store) (calls : List Call) (call : Call) :
    s.history (calls ++ [call]) =
      s.history calls ++ [(call, ((s.serveAll calls).serve call).1)] := by
  induction calls generalizing s with
  | nil => rfl
  | cons first rest ih => simp [history, serveAll, ih]

/-! ## Versions -/

theorem latest_concat (versions : List Document) (r doc : Document) :
    latest (versions ++ [r]) doc = if sameId doc r then r else latest versions doc := by
  unfold latest
  rw [List.reverse_concat, List.find?_cons]
  cases sameId doc r <;> rfl

theorem latest_eq_or (versions : List Document) (doc : Document) :
    latest versions doc = doc ∨
      latest versions doc ∈ versions ∧ sameId doc (latest versions doc) = true := by
  unfold latest
  cases hfind : versions.reverse.find? (sameId doc) with
  | none => exact .inl rfl
  | some version =>
    refine .inr ⟨?_, List.find?_some hfind⟩
    exact List.mem_reverse.1 (List.mem_of_find?_eq_some hfind)

/-- A later version has the identifier of the document. -/
theorem sameId_latest {versions : List Document} {doc other : Document} (hdoc : Identified doc)
    (hversions : ∀ d ∈ versions, Identified d) :
    sameId (latest versions doc) other = sameId doc other := by
  rcases latest_eq_or versions doc with heq | ⟨hmem, hsame⟩
  · rw [heq]
  · have hback := sameId_symm hdoc (hversions _ hmem) hsame
    exact Bool.eq_iff_iff.2 ⟨sameId_trans hsame, sameId_trans hback⟩

/-- If at most one document passes the test, replacing the first one replaces all. -/
theorem replaceFirst_eq_map {p : Document → Bool} {doc : Document} {docs docs' : List Document}
    (hunique : docs.Pairwise fun d e => ¬(p d = true ∧ p e = true))
    (h : replaceFirst p doc docs = some docs') :
    docs' = docs.map fun d => if p d then doc else d := by
  induction docs generalizing docs' with
  | nil => cases h
  | cons d rest ih =>
    rw [List.pairwise_cons] at hunique
    rw [replaceFirst] at h
    split at h
    · rename_i hd
      obtain rfl := Option.some.inj h
      have hrest : ∀ e ∈ rest, (if p e then doc else e) = e := by
        intro e he
        rw [if_neg fun hpe => hunique.1 e he ⟨hd, hpe⟩]
      rw [List.map_cons, if_pos hd, List.map_congr_left hrest, List.map_id']
    · rename_i hd
      obtain ⟨rest', hrest', rfl⟩ := Option.map_eq_some_iff.1 h
      rw [List.map_cons, if_neg hd, ih hunique.2 hrest']

theorem exists_of_replaceFirst {p : Document → Bool} {doc : Document} {docs docs' : List Document}
    (h : replaceFirst p doc docs = some docs') : ∃ d ∈ docs, p d = true := by
  induction docs generalizing docs' with
  | nil => cases h
  | cons d rest ih =>
    rw [replaceFirst] at h
    split at h
    · exact ⟨d, List.mem_cons_self, ‹_›⟩
    · obtain ⟨rest', hrest', -⟩ := Option.map_eq_some_iff.1 h
      obtain ⟨e, he, hpe⟩ := ih hrest'
      exact ⟨e, List.mem_cons_of_mem _ he, hpe⟩

theorem not_of_replaceFirst_eq_none {p : Document → Bool} {doc : Document} {docs : List Document}
    (h : replaceFirst p doc docs = none) : ∀ d ∈ docs, ¬p d = true := by
  induction docs with
  | nil => exact fun _ hd => nomatch hd
  | cons e rest ih =>
    rw [replaceFirst] at h
    split at h
    · cases h
    · exact List.forall_mem_cons.2 ⟨‹_›, ih (Option.map_eq_none_iff.1 h)⟩

/-- Every document stays unless the new one takes its place. -/
theorem mem_of_replaceFirst {p : Document → Bool} {doc d : Document} {docs docs' : List Document}
    (h : replaceFirst p doc docs = some docs') (hd : d ∈ docs) :
    d ∈ docs' ∨ p d = true ∧ doc ∈ docs' := by
  induction docs generalizing docs' with
  | nil => cases hd
  | cons e rest ih =>
    rw [replaceFirst] at h
    split at h
    · rename_i he
      obtain rfl := Option.some.inj h
      rcases List.mem_cons.1 hd with rfl | hd
      · exact .inr ⟨he, List.mem_cons_self⟩
      · exact .inl (List.mem_cons_of_mem _ hd)
    · obtain ⟨rest', hrest', rfl⟩ := Option.map_eq_some_iff.1 h
      rcases List.mem_cons.1 hd with rfl | hd
      · exact .inl List.mem_cons_self
      · exact (ih hrest' hd).imp (List.mem_cons_of_mem _) (And.imp_right (List.mem_cons_of_mem _))

/-! ## One call -/

theorem find_set (s : Store) (c c' : String) (docs : List Document) :
    ({ s with collections := s.collections.set c docs } : Store).find c' =
      if c' = c then docs else s.find c' := by
  unfold find
  rw [Fields.get?_set]
  split <;> rfl

theorem idOf?_of_not_lacksId {doc : Document} (h : ¬lacksId doc = true) :
    ∃ id, idOf? doc = some id ∧ id ≠ .null := by
  unfold lacksId at h
  split at h
  · exact absurd rfl h
  · exact absurd rfl h
  · rename_i hnull hnone
    cases hid : idOf? doc with
    | none => exact absurd hid hnone
    | some id => exact ⟨id, rfl, fun hn => hnull (hid.trans (congrArg some hn))⟩

theorem identify_of_lacksId (s : Store) {doc : Document} (h : lacksId doc = true) :
    s.identify doc = (s.newId.1, withId s.newId.1 doc, s.newId.2) := by
  rw [withId, if_pos h]
  unfold lacksId at h
  unfold identify
  split at h
  · rename_i hid
    rw [hid]
  · rename_i hid
    rw [hid]
  · cases h

theorem identify_of_idOf? (s : Store) {doc : Document} {id : Json} (hid : idOf? doc = some id)
    (hnull : id ≠ .null) : s.identify doc = (id, withId id doc, s) := by
  have hlacks : lacksId doc = false := by
    unfold lacksId
    rw [hid]
    cases id with
    | null => exact absurd rfl hnull
    | _ => rfl
  unfold identify withId
  rw [hid, hlacks]
  cases id with
  | null => exact absurd rfl hnull
  | _ => rfl

theorem collections_identify (s : Store) (doc : Document) :
    (s.identify doc).2.2.collections = s.collections := by
  unfold identify
  split <;> rfl

theorem identify_snd_fst (s : Store) (doc : Document) :
    (s.identify doc).2.1 = withId (s.identify doc).1 doc := by
  by_cases hlacks : lacksId doc = true
  · rw [s.identify_of_lacksId hlacks]
  · obtain ⟨id, hid, hnull⟩ := idOf?_of_not_lacksId hlacks
    rw [s.identify_of_idOf? hid hnull]

/-- What is stored has the identifier that the document gets. -/
theorem idOf?_withId (s : Store) (doc : Document) :
    idOf? (withId (s.identify doc).1 doc) = some (s.identify doc).1 := by
  by_cases hlacks : lacksId doc = true
  · rw [withId, if_pos hlacks, idOf?, lookup_overwrite, if_pos rfl]
  · obtain ⟨id, hid, hnull⟩ := idOf?_of_not_lacksId hlacks
    rw [withId, if_neg hlacks, s.identify_of_idOf? hid hnull, hid]

theorem identified_withId (s : Store) {doc : Document} (hdoc : Json.WellFormed (.object doc)) :
    Identified (withId (s.identify doc).1 doc) := by
  refine ⟨_, s.idOf?_withId doc, ?_⟩
  by_cases hlacks : lacksId doc = true
  · rw [s.identify_of_lacksId hlacks]
    exact ⟨nofun, trivial⟩
  · obtain ⟨id, hid, hnull⟩ := idOf?_of_not_lacksId hlacks
    rw [s.identify_of_idOf? hid hnull]
    exact ⟨hnull, Json.wellFormedFields_iff.1 hdoc.2 _ (mem_of_lookup hid)⟩

theorem insert_eq (s : Store) (c : String) (doc : Document) :
    s.insert c doc =
      if (s.find c).any (hasId (s.identify doc).1) then
        (.error (.duplicateId (s.identify doc).1 c), (s.identify doc).2.2)
      else (.ok (s.identify doc).1, { (s.identify doc).2.2 with
        collections := s.collections.set c (s.find c ++ [withId (s.identify doc).1 doc]) }) := by
  have hfind : (s.identify doc).2.2.find c = s.find c := by
    rw [find, find, collections_identify]
  rw [← identify_snd_fst, ← hfind, ← s.collections_identify doc]
  rfl

theorem insert_error_inv {s : Store} {c : String} {doc : Document} {e : HostFault}
    (h : (s.insert c doc).1 = .error e) :
    e = .duplicateId (s.identify doc).1 c ∧ (∃ d ∈ s.find c, hasId (s.identify doc).1 d = true) ∧
      ∀ c', (s.insert c doc).2.find c' = s.find c' := by
  rw [insert_eq] at h ⊢
  split at h
  · rename_i hany
    refine ⟨(Except.error.inj h).symm, List.any_eq_true.1 hany, fun c' => ?_⟩
    rw [if_pos hany, find, find, collections_identify]
  · cases h

theorem insert_inv {s : Store} {c : String} {doc : Document} {id : Json}
    (h : (s.insert c doc).1 = .ok id) :
    id = (s.identify doc).1 ∧ (∀ d ∈ s.find c, hasId id d = false) ∧
      ∀ c', (s.insert c doc).2.find c' =
        if c' = c then s.find c ++ [withId id doc] else s.find c' := by
  rw [insert_eq] at h ⊢
  split at h
  · cases h
  · rename_i hany
    obtain rfl := Except.ok.inj h
    refine ⟨rfl, by simpa using hany, fun c' => ?_⟩
    rw [if_neg hany]
    exact find_set s c c' _

theorem replace_of_false {s : Store} {c : String} {doc : Document}
    (h : (s.replace c doc).1 = false) : (s.replace c doc).2 = s := by
  cases hid : idOf? doc with
  | none => simp [replace, hid]
  | some id =>
    cases hdocs : replaceFirst (hasId id) doc (s.find c) with
    | none => simp [replace, hid, hdocs]
    | some docs => simp [replace, hid, hdocs] at h

theorem replace_inv {s : Store} {c : String} {doc : Document} (h : (s.replace c doc).1 = true) :
    ∃ docs, replaceFirst (fun d => sameId d doc) doc (s.find c) = some docs ∧
      ∀ c', (s.replace c doc).2.find c' = if c' = c then docs else s.find c' := by
  cases hid : idOf? doc with
  | none => simp [replace, hid] at h
  | some id =>
    have htest : (fun d => sameId d doc) = hasId id := funext fun d => sameId_eq_hasId hid
    cases hdocs : replaceFirst (hasId id) doc (s.find c) with
    | none => simp [replace, hid, hdocs] at h
    | some docs =>
      refine ⟨docs, htest ▸ hdocs, fun c' => ?_⟩
      simp only [replace, hid, hdocs]
      exact find_set s c c' docs

theorem replace_fst_iff (s : Store) (c : String) (doc : Document) :
    (s.replace c doc).1 = true ↔ ∃ d ∈ s.find c, sameId d doc = true := by
  constructor
  · intro h
    obtain ⟨docs, hdocs, -⟩ := replace_inv h
    exact exists_of_replaceFirst hdocs
  · rintro ⟨d, hd, hsame⟩
    obtain ⟨-, id, -, hid, -⟩ := sameId_iff.1 hsame
    rw [sameId_eq_hasId hid] at hsame
    cases hdocs : replaceFirst (hasId id) doc (s.find c) with
    | some docs => simp [replace, hid, hdocs]
    | none => exact absurd hsame (not_of_replaceFirst_eq_none hdocs d hd)

theorem insert_fst_iff (s : Store) (c : String) (doc : Document) :
    (s.insert c doc).1 = .ok (s.identify doc).1 ↔
      ∀ d ∈ s.find c, hasId (s.identify doc).1 d = false := by
  constructor
  · exact fun h => (insert_inv h).2.1
  · intro h
    rw [insert_eq, if_neg (by simpa using h)]

/-- What a call can do to a collection, and what the history records of it. -/
inductive Effect (s s' : Store) (c : String) (entry : Call × Answer) : Prop where
  | none (hinserted : inserted? c entry = none) (hreplaced : replaced? c entry = none)
      (hfind : s'.find c = s.find c)
  | insert {doc : Document} (hinserted : inserted? c entry = some doc)
      (hreplaced : replaced? c entry = none) (hdoc : Identified doc)
      (hnew : ∀ d ∈ s.find c, sameId d doc = false) (hfind : s'.find c = s.find c ++ [doc])
  | replace {doc : Document} (hinserted : inserted? c entry = none)
      (hreplaced : replaced? c entry = some doc)
      (hdoc : ∀ id, idOf? doc = some id → id.WellFormed)
      (hfind : replaceFirst (fun d => sameId d doc) doc (s.find c) = some (s'.find c))

theorem effect_insert (s : Store) (c c' : String) {doc : Document}
    (hdoc : Json.WellFormed (.object doc)) :
    Effect s (s.insert c' doc).2 c (.insert c' doc, .inserted (s.insert c' doc).1) := by
  cases hresult : (s.insert c' doc).1 with
  | error e => exact .none rfl rfl ((insert_error_inv hresult).2.2 c)
  | ok id =>
    obtain ⟨rfl, hnew, hfind⟩ := insert_inv hresult
    have hfind := hfind c
    by_cases hc : c' = c
    · subst hc
      rw [if_pos rfl] at hfind
      refine .insert (if_pos rfl) rfl (s.identified_withId hdoc) (fun d hd => ?_) hfind
      rw [sameId_eq_hasId (s.idOf?_withId doc)]
      exact hnew d hd
    · rw [if_neg (Ne.symm hc)] at hfind
      exact .none (if_neg hc) rfl hfind

theorem effect_replace (s : Store) (c c' : String) {doc : Document}
    (hdoc : Json.WellFormed (.object doc)) :
    Effect s (s.replace c' doc).2 c (.replace c' doc, .replaced (s.replace c' doc).1) := by
  cases hresult : (s.replace c' doc).1 with
  | false =>
    rw [replace_of_false hresult]
    exact .none rfl rfl rfl
  | true =>
    obtain ⟨docs, hdocs, hfind⟩ := replace_inv hresult
    have hfind := hfind c
    by_cases hc : c' = c
    · subst hc
      rw [if_pos rfl] at hfind
      refine .replace rfl (if_pos rfl) (fun id hid => ?_) (hfind ▸ hdocs)
      exact Json.wellFormedFields_iff.1 hdoc.2 _ (mem_of_lookup hid)
    · rw [if_neg (Ne.symm hc)] at hfind
      exact .none rfl (if_neg hc) hfind

theorem effect_serve (s : Store) {call : Call} (hcall : call.WellFormed) (c : String) :
    Effect s (s.serve call).2 c (call, (s.serve call).1) := by
  cases call with
  | insert c' doc => exact effect_insert s c c' hcall
  | replace c' doc => exact effect_replace s c c' hcall
  | find c' => exact .none rfl rfl rfl

/-- A call to another collection and a call that is refused change nothing. -/
theorem find_serve_of_no_change (s : Store) (call : Call) (c : String)
    (h : call.collection ≠ c ∨ (s.serve call).1.isChange = false) :
    (s.serve call).2.find c = s.find c := by
  cases call with
  | insert c' doc =>
    change (s.insert c' doc).2.find c = s.find c
    cases hresult : (s.insert c' doc).1 with
    | error e => exact (insert_error_inv hresult).2.2 c
    | ok id =>
      rcases h with hne | hrefused
      · exact ((insert_inv hresult).2.2 c).trans (if_neg (Ne.symm hne))
      · simp [serve, hresult, Answer.isChange] at hrefused
  | replace c' doc =>
    change (s.replace c' doc).2.find c = s.find c
    cases hresult : (s.replace c' doc).1 with
    | false => rw [replace_of_false hresult]
    | true =>
      rcases h with hne | hrefused
      · obtain ⟨docs, -, hfind⟩ := replace_inv hresult
        exact (hfind c).trans (if_neg (Ne.symm hne))
      · simp [serve, hresult, Answer.isChange] at hrefused
  | find c' => rfl

/-! ## Runs of calls -/

/-- The collection holds what is expected after the history, under identifiers that differ. -/
structure Reflects (s : Store) (c : String) (hist : List (Call × Answer)) : Prop where
  documents : s.find c = expected c hist
  inserted : ∀ d ∈ hist.filterMap (inserted? c), Identified d
  replaced : ∀ d ∈ hist.filterMap (replaced? c), Identified d
  unique : (s.find c).Pairwise fun d e => sameId d e = false
  present : ∀ r ∈ hist.filterMap (replaced? c), ∃ d ∈ s.find c, sameId d r = true

namespace Reflects

variable {s s' : Store} {c : String} {hist : List (Call × Answer)} {entry : Call × Answer}

theorem new (c : String) : Reflects {} c [] where
  documents := rfl
  inserted := fun _ h => nomatch h
  replaced := fun _ h => nomatch h
  unique := .nil
  present := fun _ h => nomatch h

theorem identified (h : Reflects s c hist) {d : Document} (hd : d ∈ s.find c) : Identified d := by
  rw [h.documents] at hd
  obtain ⟨d₀, hd₀, rfl⟩ := List.mem_map.1 hd
  rcases latest_eq_or (hist.filterMap (replaced? c)) d₀ with heq | ⟨hmem, -⟩
  · rw [heq]
    exact h.inserted d₀ hd₀
  · exact h.replaced _ hmem

theorem differ (h : Reflects s c hist) {i j : Nat} {d e : Document} (hij : i < j)
    (hi : (s.find c)[i]? = some d) (hj : (s.find c)[j]? = some e) : sameId d e = false := by
  obtain ⟨hi', rfl⟩ := List.getElem?_eq_some_iff.1 hi
  obtain ⟨hj', rfl⟩ := List.getElem?_eq_some_iff.1 hj
  exact List.pairwise_iff_getElem.1 h.unique i j hi' hj' hij

/-- An identifier that is in use stays in use when a document is replaced. -/
theorem exists_of_replace (h : Reflects s c hist) {doc r : Document} (hdoc : Identified doc)
    (hfind : replaceFirst (fun d => sameId d doc) doc (s.find c) = some (s'.find c))
    (hr : ∃ d ∈ s.find c, sameId d r = true) : ∃ d ∈ s'.find c, sameId d r = true := by
  obtain ⟨d, hd, hdr⟩ := hr
  rcases mem_of_replaceFirst hfind hd with hmem | ⟨hsame, hmem⟩
  · exact ⟨d, hmem, hdr⟩
  · exact ⟨doc, hmem, sameId_trans (sameId_symm (h.identified hd) hdoc hsame) hdr⟩

theorem none (h : Reflects s c hist) (hinserted : inserted? c entry = none)
    (hreplaced : replaced? c entry = .none) (hfind : s'.find c = s.find c) :
    Reflects s' c (hist ++ [entry]) := by
  have hins : (hist ++ [entry]).filterMap (inserted? c) = hist.filterMap (inserted? c) := by
    simp [hinserted]
  have hrep : (hist ++ [entry]).filterMap (replaced? c) = hist.filterMap (replaced? c) := by
    simp [hreplaced]
  have hexpected : expected c (hist ++ [entry]) = expected c hist := by
    rw [expected, expected, hins, hrep]
  exact ⟨by rw [hfind, hexpected, h.documents], hins ▸ h.inserted, hrep ▸ h.replaced,
    hfind ▸ h.unique, by rw [hrep, hfind]; exact h.present⟩

/-- No version of a new document is older than the document. -/
theorem latest_of_new (h : Reflects s c hist) {doc : Document} (hdoc : Identified doc)
    (hnew : ∀ d ∈ s.find c, sameId d doc = false) :
    latest (hist.filterMap (replaced? c)) doc = doc := by
  rcases latest_eq_or (hist.filterMap (replaced? c)) doc with heq | ⟨hmem, hsame⟩
  · exact heq
  · obtain ⟨d, hd, hdr⟩ := h.present _ hmem
    have hdoc' := sameId_of_sameId hdoc (h.replaced _ hmem) hdr hsame
    exact absurd hdoc' (by rw [hnew d hd]; decide)

theorem insert (h : Reflects s c hist) {doc : Document} (hinserted : inserted? c entry = some doc)
    (hreplaced : replaced? c entry = .none) (hdoc : Identified doc)
    (hnew : ∀ d ∈ s.find c, sameId d doc = false) (hfind : s'.find c = s.find c ++ [doc]) :
    Reflects s' c (hist ++ [entry]) := by
  have hins : (hist ++ [entry]).filterMap (inserted? c) =
      hist.filterMap (inserted? c) ++ [doc] := by
    simp [hinserted]
  have hrep : (hist ++ [entry]).filterMap (replaced? c) = hist.filterMap (replaced? c) := by
    simp [hreplaced]
  refine ⟨?_, ?_, hrep ▸ h.replaced, ?_, ?_⟩
  · rw [hfind, h.documents, expected, expected, hins, hrep, List.map_append, List.map_singleton,
      h.latest_of_new hdoc hnew]
  · rw [hins]
    exact List.forall_mem_append.2 ⟨h.inserted, List.forall_mem_singleton.2 hdoc⟩
  · rw [hfind, List.pairwise_append]
    refine ⟨h.unique, List.pairwise_singleton _ _, fun d hd e he => ?_⟩
    exact List.mem_singleton.1 he ▸ hnew d hd
  · rw [hrep, hfind]
    intro r hr
    obtain ⟨d, hd, hdr⟩ := h.present r hr
    exact ⟨d, List.mem_append_left _ hd, hdr⟩

theorem replace (h : Reflects s c hist) {doc : Document} (hinserted : inserted? c entry = .none)
    (hreplaced : replaced? c entry = some doc) (hdoc : ∀ id, idOf? doc = some id → id.WellFormed)
    (hfind : replaceFirst (fun d => sameId d doc) doc (s.find c) = some (s'.find c)) :
    Reflects s' c (hist ++ [entry]) := by
  have hins : (hist ++ [entry]).filterMap (inserted? c) = hist.filterMap (inserted? c) := by
    simp [hinserted]
  have hrep : (hist ++ [entry]).filterMap (replaced? c) =
      hist.filterMap (replaced? c) ++ [doc] := by
    simp [hreplaced]
  obtain ⟨old, hold, hsame⟩ := exists_of_replaceFirst hfind
  have hdoc : Identified doc := identified_of_sameId (h.identified hold) hsame hdoc
  -- No two documents of the collection can both have the identifier of the new one.
  have hone : (s.find c).Pairwise fun d e => ¬(sameId d doc = true ∧ sameId e doc = true) := by
    refine (List.Pairwise.imp_of_mem ?_ h.unique)
    intro d e _ he hne hboth
    have hde := sameId_of_sameId (h.identified he) hdoc hboth.1 hboth.2
    exact absurd hde (by rw [hne]; decide)
  have hmap := replaceFirst_eq_map hone hfind
  refine ⟨?_, hins ▸ h.inserted, ?_, ?_, ?_⟩
  · rw [hmap, h.documents, expected, expected, hins, hrep, List.map_map]
    refine List.map_congr_left fun d hd => ?_
    rw [latest_concat, Function.comp, sameId_latest (h.inserted d hd) h.replaced]
  · rw [hrep]
    exact List.forall_mem_append.2 ⟨h.replaced, List.forall_mem_singleton.2 hdoc⟩
  · rw [hmap, List.pairwise_map]
    refine List.Pairwise.imp_of_mem ?_ (h.unique.and hone)
    intro d e hd he ⟨hne, hone⟩
    by_cases hd' : sameId d doc = true
    · have he' : ¬sameId e doc = true := fun he' => hone ⟨hd', he'⟩
      rw [if_pos hd', if_neg he', Bool.eq_false_iff]
      exact fun hdoce => he' (sameId_symm hdoc (h.identified he) hdoce)
    · by_cases he' : sameId e doc = true
      · rw [if_neg hd', if_pos he', Bool.eq_false_iff]
        exact hd'
      · rwa [if_neg hd', if_neg he']
  · rw [hrep]
    intro r hr
    refine h.exists_of_replace hdoc hfind ?_
    rcases List.mem_append.1 hr with hr | hr
    · exact h.present r hr
    · obtain rfl := List.mem_singleton.1 hr
      exact ⟨old, hold, hsame⟩

theorem step (h : Reflects s c hist) (heffect : Effect s s' c entry) :
    Reflects s' c (hist ++ [entry]) := by
  cases heffect with
  | none hinserted hreplaced hfind => exact h.none hinserted hreplaced hfind
  | insert hinserted hreplaced hdoc hnew hfind =>
    exact h.insert hinserted hreplaced hdoc hnew hfind
  | replace hinserted hreplaced hdoc hfind => exact h.replace hinserted hreplaced hdoc hfind

/-- An identifier that is in use stays in use. -/
theorem exists_of_effect (h : Reflects s c hist) (heffect : Effect s s' c entry) {r : Document}
    (hr : ∃ d ∈ s.find c, sameId d r = true) : ∃ d ∈ s'.find c, sameId d r = true := by
  cases heffect with
  | none _ _ hfind => rwa [hfind]
  | insert _ _ _ _ hfind =>
    obtain ⟨d, hd, hdr⟩ := hr
    exact ⟨d, hfind ▸ List.mem_append_left _ hd, hdr⟩
  | replace _ _ hdoc hfind =>
    obtain ⟨old, hold, hsame⟩ := exists_of_replaceFirst hfind
    exact h.exists_of_replace (identified_of_sameId (h.identified hold) hsame hdoc) hfind hr

end Reflects

theorem reflects_serveAll (calls : List Call) (hcalls : ∀ call ∈ calls, call.WellFormed)
    (c : String) : Reflects (serveAll {} calls) c (history {} calls) := by
  induction calls using List.reverseRecOn with
  | nil => exact .new c
  | append_singleton calls call ih =>
    rw [List.forall_mem_append, List.forall_mem_singleton] at hcalls
    rw [serveAll_concat, history_concat]
    exact (ih hcalls.1).step (effect_serve _ hcalls.2 c)

/-- What a store holds after any run of calls, and what changes it. -/
theorem documents_of_history (calls : List Call) (hcalls : ∀ call ∈ calls, call.WellFormed)
    (c : String) :
    let s := serveAll {} calls
    (∀ d ∈ s.find c, ∃ id, idOf? d = some id ∧ id ≠ .null) ∧
      (∀ (i j : Nat) (d e : Document), (s.find c)[i]? = some d → (s.find c)[j]? = some e →
        sameId d e = true → i = j) ∧
      s.find c = expected c (history {} calls) ∧
      (∀ doc, (s.replace c doc).1 = true ↔ ∃ d ∈ s.find c, sameId d doc = true) ∧
      (∀ doc id, idOf? doc = some id → id ≠ .null →
        ((s.insert c doc).1 = .ok id ↔ ∀ d ∈ s.find c, sameId d doc = false)) ∧
      ∀ call : Call, call.collection ≠ c ∨ (s.serve call).1.isChange = false →
        (s.serve call).2.find c = s.find c := by
  intro s
  have h : Reflects s c (history {} calls) := reflects_serveAll calls hcalls c
  refine ⟨fun d hd => ?_, fun i j d e hi hj hsame => ?_, h.documents, s.replace_fst_iff c,
    fun doc id hid hnull => ?_, fun call => s.find_serve_of_no_change call c⟩
  · obtain ⟨id, hid, hnull, -⟩ := h.identified hd
    exact ⟨id, hid, hnull⟩
  · have hback := sameId_symm (h.identified (List.mem_of_getElem? hi))
      (h.identified (List.mem_of_getElem? hj)) hsame
    by_contra hne
    rcases Nat.lt_or_gt_of_ne hne with hlt | hlt
    · exact absurd hsame (by rw [h.differ hlt hi hj]; decide)
    · exact absurd hback (by rw [h.differ hlt hj hi]; decide)
  · have hinsert := s.insert_fst_iff c doc
    rw [s.identify_of_idOf? hid hnull] at hinsert
    rw [hinsert]
    exact forall₂_congr fun d _ => by rw [sameId_eq_hasId hid]

/-- Two identifiers with their fields in another order, a null one, and one that is in use. -/
def mixedCalls : List Call :=
  [.insert "c" [("_id", .object [("a", .int 1), ("b", .int 2)]), ("v", .int 1)],
    .insert "c" [("_id", .null)],
    .replace "c" [("_id", .object [("b", .int 2), ("a", .int 1)])],
    .insert "c" [("_id", .object [("a", .int 1), ("b", .int 2)])]]

theorem documents_mixedCalls :
    (∀ call ∈ mixedCalls, call.WellFormed) ∧
      (serveAll {} mixedCalls).find "c" = expected "c" (history {} mixedCalls) ∧
      expected "c" (history {} mixedCalls) =
        [[("_id", .object [("b", .int 2), ("a", .int 1)])],
          [("_id", .string "000000000000000000000001")]] := by
  have hcalls : ∀ call ∈ mixedCalls, call.WellFormed := by
    simp [mixedCalls, Call.WellFormed, Json.WellFormed, Json.WellFormedFields]
  exact ⟨hcalls, (documents_of_history mixedCalls hcalls "c").2.2.1, rfl⟩

end Sigil.Store
