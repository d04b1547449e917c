import Sigil.Json.Reader
import Sigil.Proofs.StoreHistory

/-!
# Made-up identifiers

The store makes up an identifier from a counter that knows nothing of the identifiers that documents
bring with them. So a document without an identifier can be refused, which happens exactly if an
earlier insert brought the identifier that is made up for it (`insert_of_lacksId`).
-/

namespace Sigil.Store

/-! ## Padded numerals -/

def hexValue (digits : List Char) : Nat :=
  digits.foldl (fun n c => 16 * n + (Json.hexValue? c).getD 0) 0

theorem hexValue_concat (digits : List Char) {d : Nat} (hd : d < 16) :
    hexValue (digits ++ [d.digitChar]) = 16 * hexValue digits + d := by
  have hchar : (Json.hexValue? d.digitChar).getD 0 = d := by
    revert d
    decide
  simp [hexValue, hchar]

theorem hexValue_zeros_append (k : Nat) (digits : List Char) :
    hexValue (List.replicate k '0' ++ digits) = hexValue digits := by
  induction k with
  | zero => rfl
  | succ k ih => exact ih

theorem hexValue_toDigits (n : Nat) : hexValue (Nat.toDigits 16 n) = n := by
  induction n using Nat.strongRecOn with
  | ind n ih =>
    rw [Nat.toDigits_eq_if (by decide)]
    split
    · rename_i hn
      rw [← List.nil_append [n.digitChar], hexValue_concat [] hn]
      exact Nat.zero_add n
    · rw [hexValue_concat _ (Nat.mod_lt n (by decide)), ih (n / 16) (by omega)]
      omega

theorem hexPadded_injective : Function.Injective hexPadded := by
  intro m n h
  have hdigits := congrArg hexValue (String.ofList_inj.1 h)
  rwa [hexValue_zeros_append, hexValue_zeros_append, hexValue_toDigits,
    hexValue_toDigits] at hdigits

/-! ## The counter -/

/-- The identifier that is made up after `k` others. -/
def madeUpId (k : Nat) : Json := .string (hexPadded ((k + 1) % 2 ^ 64))

/-- Until the counter wraps around, no identifier is made up twice. -/
theorem madeUpId_ne {k n : Nat} (hk : k < n) (hn : n < 2 ^ 64) : madeUpId k ≠ madeUpId n := by
  intro h
  have hmod := hexPadded_injective (Json.string.inj h)
  omega

/-- The call needs a made-up identifier. -/
def Call.needsId : Call → Bool
  | .insert _ doc => lacksId doc
  | _ => false

/-- How many identifiers are made up in a run. Inserts that are refused use theirs up too. -/
def madeUp (calls : List Call) : Nat := calls.countP Call.needsId

theorem madeUp_concat (calls : List Call) (call : Call) :
    madeUp (calls ++ [call]) = madeUp calls + if call.needsId then 1 else 0 := by
  rw [madeUp, List.countP_append, List.countP_singleton]
  rfl

theorem madeUp_le (calls : List Call) : madeUp calls ≤ calls.countP Call.isInsert := by
  refine List.countP_mono_left fun call _ hneeds => ?_
  cases call with
  | insert c doc => rfl
  | _ => cases hneeds

theorem generated_insert (s : Store) (c : String) (doc : Document) :
    (s.insert c doc).2.generated = s.generated + if lacksId doc then 1 else 0 := by
  have hinsert : (s.insert c doc).2.generated = (s.identify doc).2.2.generated := by
    rw [insert_eq]
    split <;> rfl
  rw [hinsert]
  by_cases hlacks : lacksId doc = true
  · rw [s.identify_of_lacksId hlacks, if_pos hlacks]
    rfl
  · obtain ⟨id, hid, hnull⟩ := idOf?_of_not_lacksId hlacks
    rw [s.identify_of_idOf? hid hnull, if_neg hlacks]
    exact (UInt64.add_zero _).symm

theorem generated_replace (s : Store) (c : String) (doc : Document) :
    (s.replace c doc).2.generated = s.generated := by
  unfold replace
  split
  · rfl
  · split <;> rfl

theorem generated_serveAll (calls : List Call) :
    (serveAll {} calls).generated = UInt64.ofNat (madeUp calls) := by
  induction calls using List.reverseRecOn with
  | nil => rfl
  | append_singleton calls call ih =>
    rw [serveAll_concat, madeUp_concat]
    cases call with
    | insert c doc =>
      change ((serveAll {} calls).insert c doc).2.generated = _
      rw [generated_insert, ih, UInt64.ofNat_add]
      cases hlacks : lacksId doc <;> simp [Call.needsId, hlacks]
    | replace c doc =>
      change ((serveAll {} calls).replace c doc).2.generated = _
      rw [generated_replace, ih]
      rfl
    | find c => exact ih

theorem identify_serveAll (calls : List Call) {doc : Document} (hdoc : lacksId doc = true) :
    ((serveAll {} calls).identify doc).1 = madeUpId (madeUp calls) := by
  rw [identify_of_lacksId _ hdoc, newId, generated_serveAll]
  simp [madeUpId, UInt64.toNat_add, UInt64.toNat_ofNat]

/-! ## Identifiers in use -/

/-- Every identifier in a collection was brought by an insert or is one of those made up so far. -/
theorem idOf?_inserted (calls : List Call) (c : String) :
    ∀ d ∈ (history {} calls).filterMap (inserted? c),
      .insert c d ∈ calls ∨ ∃ k < madeUp calls, idOf? d = some (madeUpId k) := by
  induction calls using List.reverseRecOn with
  | nil => exact fun _ hd => nomatch hd
  | append_singleton calls call ih =>
    intro d hd
    rw [history_concat, List.filterMap_append, List.mem_append] at hd
    rw [madeUp_concat, List.mem_append]
    rcases hd with hd | hd
    · rcases ih d hd with hmem | ⟨k, hk, hid⟩
      · exact .inl (.inl hmem)
      · exact .inr ⟨k, by omega, hid⟩
    · obtain ⟨entry, hentry, hins⟩ := List.mem_filterMap.1 hd
      obtain rfl := List.mem_singleton.1 hentry
      cases call with
      | insert c' doc =>
        cases hresult : ((serveAll {} calls).insert c' doc).1 with
        | error e => simp [serve, hresult, inserted?] at hins
        | ok id =>
          simp only [serve, hresult, inserted?, Option.ite_none_right_eq_some,
            Option.some.injEq] at hins
          obtain ⟨rfl, rfl⟩ := hins
          obtain rfl := (insert_inv hresult).1
          cases hlacks : lacksId doc with
          | false => simp [withId, hlacks]
          | true =>
            refine .inr ⟨madeUp calls, ?_, ?_⟩
            · simp [Call.needsId, hlacks]
            · rw [idOf?_withId, identify_serveAll calls hlacks]
      | replace c' doc => simp [inserted?] at hins
      | find c' => simp [inserted?] at hins

/-- Whether it succeeds or not, after an insert the identifier is in use. -/
theorem exists_of_insert (s : Store) (c : String) {doc : Document} {id : Json}
    (hid : idOf? doc = some id) (hnull : id ≠ .null) (hself : id.same id = true) :
    ∃ d ∈ (s.insert c doc).2.find c, sameId d doc = true := by
  cases hresult : (s.insert c doc).1 with
  | ok id' =>
    obtain ⟨rfl, -, hfind⟩ := insert_inv hresult
    have hstored : idOf? (withId (s.identify doc).1 doc) = some id := by
      rw [idOf?_withId, s.identify_of_idOf? hid hnull]
    refine ⟨_, ?_, sameId_iff.2 ⟨id, id, hstored, hid, hself⟩⟩
    rw [hfind c, if_pos rfl]
    exact List.mem_append_right _ List.mem_cons_self
  | error e =>
    obtain ⟨-, ⟨d, hd, hhas⟩, hfind⟩ := insert_error_inv hresult
    rw [s.identify_of_idOf? hid hnull, ← sameId_eq_hasId hid] at hhas
    exact ⟨d, (hfind c).symm ▸ hd, hhas⟩

/-- An identifier that an insert has brought is in use ever after. -/
theorem exists_of_insert_mem (calls : List Call) (hcalls : ∀ call ∈ calls, call.WellFormed)
    {c : String} {doc : Document} (hdoc : .insert c doc ∈ calls) {id : Json}
    (hid : idOf? doc = some id) (hnull : id ≠ .null) (hself : id.same id = true) :
    ∃ d ∈ (serveAll {} calls).find c, sameId d doc = true := by
  induction calls using List.reverseRecOn with
  | nil => cases hdoc
  | append_singleton calls call ih =>
    rw [List.forall_mem_append, List.forall_mem_singleton] at hcalls
    rw [serveAll_concat]
    rcases List.mem_append.1 hdoc with hdoc | hdoc
    · exact (reflects_serveAll calls hcalls.1 c).exists_of_effect (effect_serve _ hcalls.2 c)
        (ih hcalls.1 hdoc)
    · obtain rfl := List.mem_singleton.1 hdoc
      exact exists_of_insert _ c hid hnull hself

/-- The next made-up identifier is in use exactly if an insert has brought it. -/
theorem exists_hasId_madeUpId_iff (calls : List Call) (hcalls : ∀ call ∈ calls, call.WellFormed)
    (hcount : madeUp calls < 2 ^ 64) (c : String) :
    (∃ d ∈ (serveAll {} calls).find c, hasId (madeUpId (madeUp calls)) d = true) ↔
      ∃ doc, .insert c doc ∈ calls ∧ idOf? doc = some (madeUpId (madeUp calls)) := by
  have h := reflects_serveAll calls hcalls c
  constructor
  · rintro ⟨d, hd, hhas⟩
    rw [h.documents] at hd
    obtain ⟨d₀, hd₀, rfl⟩ := List.mem_map.1 hd
    have hother : idOf? [(idField, madeUpId (madeUp calls))] = some (madeUpId (madeUp calls)) := rfl
    -- The document as it was inserted has the identifier too, so it is known where it comes from.
    rw [← sameId_eq_hasId hother, sameId_latest (h.inserted d₀ hd₀) h.replaced] at hhas
    obtain ⟨i, j, hi, hj, hsame⟩ := sameId_iff.1 hhas
    obtain rfl := Option.some.inj (hother.symm.trans hj)
    obtain rfl : i = madeUpId (madeUp calls) := Json.eq_of_same (.inr rfl) hsame
    rcases idOf?_inserted calls c d₀ hd₀ with hmem | ⟨k, hk, hid⟩
    · exact ⟨d₀, hmem, hi⟩
    · exact absurd (Option.some.inj (hid.symm.trans hi)) (madeUpId_ne hk hcount)
  · rintro ⟨doc, hmem, hid⟩
    obtain ⟨d, hd, hsame⟩ := exists_of_insert_mem calls hcalls hmem hid nofun (by
      simp [madeUpId, Json.same])
    exact ⟨d, hd, sameId_eq_hasId hid ▸ hsame⟩

/-- A document without an identifier is inserted under a made-up one that no document of the
collection has, unless an earlier insert into the collection brought just that identifier. -/
theorem insert_of_lacksId (calls : List Call) (hcalls : ∀ call ∈ calls, call.WellFormed)
    (hcount : calls.countP Call.isInsert < 2 ^ 64) (c : String) (doc : Document)
    (hdoc : lacksId doc = true) :
    let s := serveAll {} calls
    let id := madeUpId (madeUp calls)
    ((s.insert c doc).1 = .ok id ↔ ∀ d ∈ s.find c, hasId id d = false) ∧
      ((s.insert c doc).1 = .ok id ↔ ∀ doc', .insert c doc' ∈ calls → idOf? doc' ≠ some id) ∧
      ((s.insert c doc).1 = .ok id ∨ (s.insert c doc).1 = .error (.duplicateId id c)) := by
  intro s id
  have hid : (s.identify doc).1 = id := identify_serveAll calls hdoc
  have hfree : (s.insert c doc).1 = .ok id ↔ ∀ d ∈ s.find c, hasId id d = false :=
    hid ▸ s.insert_fst_iff c doc
  have hbrought := exists_hasId_madeUpId_iff calls hcalls ((madeUp_le calls).trans_lt hcount) c
  refine ⟨hfree, ?_, ?_⟩
  · rw [hfree]
    simpa using not_congr hbrought
  · cases hresult : (s.insert c doc).1 with
    | ok id' => exact .inl (by rw [(insert_inv hresult).1, hid])
    | error e => exact .inr (by rw [(insert_error_inv hresult).1, hid])

/-- The second made-up identifier is free although the first one was brought by another document. -/
theorem insert_after_chosenId :
    let calls : List Call :=
      [.insert "d" [], .insert "c" [("_id", .string "000000000000000000000001")]]
    (∀ call ∈ calls, call.WellFormed) ∧ calls.countP Call.isInsert < 2 ^ 64 ∧ lacksId [] = true ∧
      ((serveAll {} calls).insert "c" []).1 = .ok (.string "000000000000000000000002") := by
  intro calls
  have hcalls : ∀ call ∈ calls, call.WellFormed := by
    simp [calls, Call.WellFormed, Json.WellFormed, Json.WellFormedFields]
  have hcount : calls.countP Call.isInsert < 2 ^ 64 := by decide
  have hid : madeUpId (madeUp calls) = .string "000000000000000000000002" :=
    congrArg (fun n => Json.string (hexPadded n)) (by decide : (madeUp calls + 1) % 2 ^ 64 = 2)
  have hinsert := insert_of_lacksId calls hcalls hcount "c" [] rfl
  rw [hid] at hinsert
  refine ⟨hcalls, hcount, rfl, hinsert.2.1.2 ?_⟩
  intro doc' hmem hid
  obtain rfl : doc' = [("_id", .string "000000000000000000000001")] := by
    simpa [calls] using hmem
  exact absurd (Json.string.inj (Option.some.inj hid)) (by decide)

/-- A document without an identifier is refused: another one was inserted under the identifier that
is made up next. -/
theorem insert_refused_after_chosenId :
    let s := serveAll {} [.insert "c" [("_id", .string "000000000000000000000001")]]
    lacksId [] = true ∧
      (s.insert "c" []).1 = .error (.duplicateId (.string "000000000000000000000001") "c") :=
  ⟨rfl, rfl⟩

end Sigil.Store
