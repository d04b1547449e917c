/-!
# Named fields in the order of their first writing

Overwriting a field keeps its place, erasing one closes the gap, and a field written again after
that goes last. `Fields` carries the proof that no name occurs twice, so it can be read as a finite
map from names or as a list of entries.
-/

namespace Sigil

/-- Replaces the value in its place, or appends a new entry. -/
def overwrite {α : Type} (name : String) (value : α) : List (String × α) → List (String × α)
  | [] => [(name, value)]
  | (k, v) :: rest =>
    if k = name then (k, value) :: rest else (k, v) :: overwrite name value rest

theorem mem_keys_overwrite {α : Type} {name k : String} {value : α} {es : List (String × α)} :
    k ∈ (overwrite name value es).map Prod.fst ↔ k = name ∨ k ∈ es.map Prod.fst := by
  induction es with
  | nil => simp [overwrite]
  | cons e rest ih =>
    obtain ⟨k', v⟩ := e
    by_cases h : k' = name
    · subst h; simp [overwrite]
    · simp only [overwrite, if_neg h, List.map_cons, List.mem_cons, ih]
      constructor <;> rintro (h | h | h) <;> simp [h]

theorem nodup_keys_overwrite {α : Type} {name : String} {value : α} {es : List (String × α)}
    (h : (es.map Prod.fst).Nodup) : ((overwrite name value es).map Prod.fst).Nodup := by
  induction es with
  | nil => simp [overwrite]
  | cons e rest ih =>
    obtain ⟨k', v⟩ := e
    rw [List.map_cons, List.nodup_cons] at h
    by_cases hk : k' = name
    · simp only [overwrite, if_pos hk, List.map_cons, List.nodup_cons]
      exact h
    · simp only [overwrite, if_neg hk, List.map_cons, List.nodup_cons, mem_keys_overwrite]
      exact ⟨fun hm => hm.elim hk h.1, ih h.2⟩

theorem lookup_overwrite {α : Type} (name k : String) (value : α) (es : List (String × α)) :
    (overwrite name value es).lookup k = if k = name then some value else es.lookup k := by
  induction es with
  | nil => grind [overwrite]
  | cons e rest ih =>
    obtain ⟨k', v⟩ := e
    by_cases h : k' = name <;> by_cases hk : k' = k <;> grind [overwrite]

theorem mem_of_lookup {α : Type} {name : String} {value : α} {es : List (String × α)}
    (h : es.lookup name = some value) : (name, value) ∈ es := by
  obtain ⟨before, after, rfl, -⟩ := List.lookup_eq_some_iff.1 h
  simp

structure Fields (α : Type) where
  entries : List (String × α)
  nodup : (entries.map Prod.fst).Nodup

namespace Fields

variable {α : Type}

def empty : Fields α := ⟨[], List.nodup_nil⟩

instance : Inhabited (Fields α) := ⟨empty⟩

instance [Repr α] : Repr (Fields α) := ⟨fun f n => reprPrec f.entries n⟩

def get? (f : Fields α) (name : String) : Option α := f.entries.lookup name

def contains (f : Fields α) (name : String) : Bool := (f.get? name).isSome

def set (f : Fields α) (name : String) (value : α) : Fields α :=
  ⟨overwrite name value f.entries, nodup_keys_overwrite f.nodup⟩

def erase (f : Fields α) (name : String) : Fields α :=
  ⟨f.entries.filter (·.1 ≠ name), f.nodup.sublist (List.filter_sublist.map Prod.fst)⟩

/-- Writes the entries one after the other. -/
def ofList (es : List (String × α)) : Fields α :=
  es.foldl (fun f e => f.set e.1 e.2) empty

def keys (f : Fields α) : List String := f.entries.map Prod.fst

def size (f : Fields α) : Nat := f.entries.length

@[simp] theorem get?_empty (name : String) : (empty : Fields α).get? name = none := rfl

@[simp] theorem get?_set (f : Fields α) (name k : String) (value : α) :
    (f.set name value).get? k = if k = name then some value else f.get? k :=
  lookup_overwrite name k value f.entries

@[simp] theorem get?_erase (f : Fields α) (name k : String) :
    (f.erase name).get? k = if k = name then none else f.get? k := by
  obtain ⟨es, h⟩ := f
  simp only [get?, erase]
  clear h
  induction es with
  | nil => simp
  | cons e rest ih =>
    obtain ⟨k', v⟩ := e
    by_cases h : k' = name <;> by_cases hk : k' = k <;> grind

theorem nodup_keys (f : Fields α) : f.keys.Nodup := f.nodup

@[simp] theorem length_keys (f : Fields α) : f.keys.length = f.size := List.length_map _

theorem mem_entries {f : Fields α} {name : String} {value : α} :
    (name, value) ∈ f.entries ↔ f.get? name = some value := by
  obtain ⟨es, h⟩ := f
  refine ⟨fun hm => ?_, mem_of_lookup⟩
  simp only [get?] at hm ⊢
  induction es with
  | nil => cases hm
  | cons e rest ih =>
    obtain ⟨k, v⟩ := e
    rw [List.map_cons, List.nodup_cons] at h
    rcases List.mem_cons.1 hm with heq | hrest
    · cases heq
      simp
    · have hk : (name == k) = false := by
        refine beq_eq_false_iff_ne.2 ?_
        rintro rfl
        exact h.1 (List.mem_map.2 ⟨(name, value), hrest, rfl⟩)
      rw [List.lookup_cons, hk]
      exact ih h.2 hrest

theorem mem_keys {f : Fields α} {name : String} : name ∈ f.keys ↔ ∃ v, f.get? name = some v := by
  simp only [keys, List.mem_map, Prod.exists, mem_entries]
  constructor
  · rintro ⟨k, v, hv, rfl⟩
    exact ⟨v, hv⟩
  · rintro ⟨v, hv⟩
    exact ⟨name, v, hv, rfl⟩

section Values

variable {p : α → Prop} {f : Fields α}

theorem forall_values_set (hf : ∀ e ∈ f.entries, p e.2) (name : String) {value : α}
    (hvalue : p value) : ∀ e ∈ (f.set name value).entries, p e.2 := by
  rintro ⟨k, x⟩ he
  rw [mem_entries, get?_set] at he
  split at he
  · exact Option.some.inj he ▸ hvalue
  · exact hf (k, x) (mem_entries.2 he)

theorem forall_values_erase (hf : ∀ e ∈ f.entries, p e.2) (name : String) :
    ∀ e ∈ (f.erase name).entries, p e.2 :=
  fun e he => hf e (List.mem_filter.1 he).1

theorem forall_values_ofList {es : List (String × α)} (hes : ∀ e ∈ es, p e.2) :
    ∀ e ∈ (ofList es).entries, p e.2 := by
  suffices hfold : ∀ f : Fields α, (∀ e ∈ f.entries, p e.2) →
      ∀ e ∈ (es.foldl (fun f e => f.set e.1 e.2) f).entries, p e.2 from
    hfold empty fun _ he => nomatch he
  induction es with
  | nil => exact fun _ hf => hf
  | cons e rest ih =>
    rw [List.forall_mem_cons] at hes
    exact fun f hf => ih hes.2 _ (forall_values_set hf e.1 hes.1)

end Values

end Fields

end Sigil
