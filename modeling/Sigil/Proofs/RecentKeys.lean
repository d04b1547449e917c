import Mathlib.Data.List.DropRight
import Mathlib.Tactic.SplitIfs
import Sigil.Window

/-!
# What windows remember

A window that starts empty holds the keys that it admitted last, and refuses just these
(`acceptAll_new`). In a table, each kind has windows of its own: a kind is served as if there were
no other, and a kind that was forgotten starts again with the capacity of its next use
(`answers_of_kind`). A use that would have to start too large a window crashes and leaves the table
as it was.
-/

namespace Sigil

/-! ## One window -/

namespace Window

/-- The window after a run of keys was offered to it. -/
def acceptAll (w : Window) (keys : List String) : Window :=
  keys.foldl (fun w key => (w.accept key).2) w

/-- The keys of a run that are admitted. -/
def admitted : Window → List String → List String
  | _, [] => []
  | w, key :: rest =>
    if (w.accept key).1 then key :: admitted (w.accept key).2 rest
    else admitted (w.accept key).2 rest

/-- How many keys a window holds at most: without capacity it still takes in one. -/
def limit (w : Window) : Nat := max w.capacity 1

@[simp] theorem capacity_makeRoom (w : Window) : w.makeRoom.capacity = w.capacity := by
  unfold makeRoom
  split_ifs
  · rfl
  · split <;> rfl

theorem accept_of_contains {w : Window} {key : String} (hkey : w.contains key = true) :
    w.accept key = (false, w) := by
  rw [accept, if_pos hkey]

theorem accept_of_not_contains {w : Window} {key : String} (hkey : ¬w.contains key = true) :
    w.accept key = (true, { w.makeRoom with
      queue := w.makeRoom.queue ++ [key], members := w.makeRoom.members.insert key }) := by
  rw [accept, if_neg hkey]

@[simp] theorem limit_accept (w : Window) (key : String) : (w.accept key).2.limit = w.limit := by
  by_cases hkey : w.contains key = true
  · rw [accept_of_contains hkey]
  · simp [accept_of_not_contains hkey, limit]

theorem accept_fst_iff (w : Window) (key : String) :
    (w.accept key).1 = true ↔ ¬w.contains key = true := by
  by_cases hkey : w.contains key = true
  · simp [accept_of_contains hkey, hkey]
  · simp [accept_of_not_contains hkey, hkey]

/-- The window holds the last `n` keys of `history`, each of them once. -/
structure Remembers (w : Window) (n : Nat) (history : List String) : Prop where
  queue : w.queue = history.rtake n
  nodup : w.queue.Nodup
  members : ∀ key, w.contains key = true ↔ key ∈ w.queue

namespace Remembers

variable {w : Window} {n : Nat} {history : List String} {key : String}

theorem new (capacity n : Nat) : Remembers { capacity } n [] where
  queue := by simp [List.rtake]
  nodup := List.nodup_nil
  members := by simp [contains]

theorem size_eq (h : w.Remembers n history) : w.size = min history.length n := by
  rw [size, h.queue, List.rtake, List.length_drop]
  omega

theorem dropOldest (h : w.Remembers (n + 1) history) (hfull : n < history.length) {oldest : String}
    {rest : List String} (hqueue : w.queue = oldest :: rest) :
    Remembers { w with queue := rest, members := w.members.erase oldest } n history where
  queue := by
    have hrest : rest = w.queue.tail := by rw [hqueue, List.tail_cons]
    have hdrop : history.length - (n + 1) + 1 = history.length - n := by omega
    rw [hrest, h.queue, List.rtake, List.rtake, List.tail_drop, hdrop]
  nodup := (hqueue ▸ h.nodup).of_cons
  members key := by
    have holdest : oldest ∉ rest := (List.nodup_cons.1 (hqueue ▸ h.nodup)).1
    have hkey := h.members key
    rw [hqueue, List.mem_cons, contains] at hkey
    rw [contains, Std.HashSet.contains_erase, Bool.and_eq_true, hkey]
    grind

/-- A full window gives up the oldest key, so that there is room for one more. -/
theorem makeRoom (h : w.Remembers w.limit history) :
    w.makeRoom.Remembers (w.limit - 1) history := by
  have hsize := h.size_eq
  have hlimit : w.limit = max w.capacity 1 := rfl
  unfold size at hsize
  unfold Window.makeRoom
  split_ifs with hroom
  · -- The history is shorter than the capacity, so that nothing of it is lost yet.
    have hall : history.rtake w.limit = history.rtake (w.limit - 1) := by
      have hzero : history.length - w.limit = 0 ∧ history.length - (w.limit - 1) = 0 := by omega
      rw [List.rtake, List.rtake, hzero.1, hzero.2]
    exact ⟨hall ▸ h.queue, h.nodup, h.members⟩
  · split
    · rename_i hqueue
      rw [hqueue, List.length_nil] at hsize
      obtain rfl : history = [] := List.length_eq_zero_iff.1 (by omega)
      exact ⟨by simp [hqueue, List.rtake], h.nodup, h.members⟩
    · rename_i oldest rest hqueue
      rw [hqueue, List.length_cons] at hsize hroom
      have hsucc : w.limit = w.limit - 1 + 1 := by omega
      exact dropOldest (hsucc ▸ h) (by omega) hqueue

theorem push (h : w.Remembers n history) (hkey : key ∉ w.queue) :
    Remembers { w with queue := w.queue ++ [key], members := w.members.insert key } (n + 1)
      (history ++ [key]) where
  queue := by rw [List.rtake_concat_succ, h.queue]
  nodup := by
    have hnodup := h.nodup
    grind
  members other := by
    have hother := h.members other
    rw [contains] at hother
    rw [contains, Std.HashSet.contains_insert, Bool.or_eq_true, hother]
    grind

theorem mem_of_mem_makeRoom (h : w.Remembers w.limit history) (hkey : key ∈ w.makeRoom.queue) :
    key ∈ w.queue := by
  rw [h.makeRoom.queue, List.rtake] at hkey
  rw [h.queue, List.rtake]
  exact (List.drop_sublist_drop_left history (by omega)).subset hkey

theorem accept (h : w.Remembers w.limit history) (key : String) :
    (w.accept key).2.Remembers w.limit
      (if (w.accept key).1 then history ++ [key] else history) := by
  by_cases hkey : w.contains key = true
  · rw [accept_of_contains hkey]
    exact h
  · have hnew : key ∉ w.makeRoom.queue := fun hmem =>
      hkey ((h.members key).2 (h.mem_of_mem_makeRoom hmem))
    have hsucc : w.limit = w.limit - 1 + 1 := by
      have hlimit : w.limit = max w.capacity 1 := rfl
      omega
    rw [accept_of_not_contains hkey, if_pos rfl, hsucc]
    exact h.makeRoom.push hnew

/-- What one call keeps, a run of calls keeps. -/
theorem acceptAll (h : w.Remembers w.limit history) (keys : List String) :
    (w.acceptAll keys).Remembers w.limit (history ++ w.admitted keys) := by
  induction keys generalizing w history with
  | nil => simpa [Window.acceptAll, admitted] using h
  | cons key rest ih =>
    have hstep := h.accept key
    rw [← limit_accept w key] at hstep
    have hrest := ih hstep
    rw [limit_accept] at hrest
    rw [admitted]
    split_ifs with haccept
    · simpa [Window.acceptAll, haccept] using hrest
    · simpa [Window.acceptAll, haccept] using hrest

end Remembers

/-- After any run of calls on a new window, let `history` be the keys admitted so far. The queue is
the end of the history, as long as the capacity allows but at least one key; it has no key twice and
the same keys as the set; and the next key is admitted unless it is in that end of the history. -/
theorem acceptAll_new (capacity : Nat) (keys : List String) :
    let w := acceptAll { capacity } keys
    let history := admitted { capacity } keys
    w.queue = history.rtake (min history.length (max capacity 1)) ∧ w.queue.Nodup ∧
      (∀ key, key ∈ w.members ↔ key ∈ w.queue) ∧ w.size ≤ max capacity 1 ∧
      ∀ key, (w.accept key).1 = true ↔ key ∉ history.rtake (max capacity 1) := by
  intro w history
  have hw : w.Remembers (max capacity 1) history :=
    (Remembers.new capacity (max capacity 1)).acceptAll keys
  have hend : history.rtake (min history.length (max capacity 1)) =
      history.rtake (max capacity 1) := by
    have hdrop : history.length - min history.length (max capacity 1) =
        history.length - max capacity 1 := by omega
    rw [List.rtake, List.rtake, hdrop]
  refine ⟨hend ▸ hw.queue, hw.nodup, hw.members, ?_, fun key => ?_⟩
  · rw [hw.size_eq]
    exact Nat.min_le_right _ _
  · rw [accept_fst_iff, hw.members, hw.queue]

/-! ## Questions to a window -/

inductive Query where
  | accept (key : String)
  | contains (key : String)
  | isEmpty
  | capacity
  | size

inductive Answer where
  | flag (b : Bool)
  | count (n : Nat)
  /-- No answer: the memory of the window cannot be reserved. -/
  | crash

/-- Answers a question. Only offering a key can change the window. -/
def ask (w : Window) : Query → Answer × Window
  | .accept key => (.flag (w.accept key).1, (w.accept key).2)
  | .contains key => (.flag (w.contains key), w)
  | .isEmpty => (.flag w.isEmpty, w)
  | .capacity => (.count w.capacity, w)
  | .size => (.count w.size, w)

/-- The window after questions were put to it. -/
def askAll (w : Window) (queries : List Query) : Window :=
  queries.foldl (fun w query => (w.ask query).2) w

end Window

/-! ## A table of windows -/

namespace Windows

open Window (Query Answer)

inductive Request where
  | use (kind : String) (capacity : Nat) (query : Query)
  | forget (kind : String)

def Request.kind : Request → String
  | .use kind _ _ => kind
  | .forget kind => kind

theorem start?_of_get? {ws : Windows} {kind : String} {w : Window} (h : ws.get? kind = some w)
    (capacity : Nat) : ws.start? kind capacity = some ws := by
  rw [start?, if_pos (by rw [Fields.contains, h]; rfl)]

theorem start?_of_get?_eq_none {ws : Windows} {kind : String} (h : ws.get? kind = none)
    (capacity : Nat) :
    ws.start? kind capacity = (Window.create? capacity).map (ws.set kind) := by
  rw [start?, if_neg (by rw [Fields.contains, h]; exact Bool.false_ne_true)]

/-- Answers a request. Every use starts a window for its kind if there is none. -/
def serve (ws : Windows) : Request → Answer × Windows
  | .use kind capacity query =>
    match ws.start? kind capacity with
    | none => (.crash, ws)
    | some ws =>
      let (answer, w) := (ws.get kind capacity).ask query
      (answer, ws.set kind w)
  | .forget kind => (.flag (ws.forget kind).1, (ws.forget kind).2)

/-- The answers to a run of requests. -/
def answers : Windows → List Request → List Answer
  | _, [] => []
  | ws, r :: rest => (ws.serve r).1 :: answers (ws.serve r).2 rest

/-- A request to a kind that has the given window, if any. -/
def serveOne (w? : Option Window) : Request → Answer × Option Window
  | .use _ capacity query =>
    match w?.or (Window.create? capacity) with
    | none => (.crash, none)
    | some w => ((w.ask query).1, some (w.ask query).2)
  | .forget _ => (.flag w?.isSome, none)

/-- A request is answered from the window of its kind, and changes that window only. -/
theorem serve_eq (ws : Windows) (r : Request) :
    (ws.serve r).1 = (serveOne (ws.get? r.kind) r).1 ∧ ∀ kind, (ws.serve r).2.get? kind =
      if kind = r.kind then (serveOne (ws.get? r.kind) r).2 else ws.get? kind := by
  cases r with
  | use kind capacity query =>
    change _ = (serveOne (ws.get? kind) _).1 ∧ ∀ kind', _ =
      if kind' = kind then (serveOne (ws.get? kind) _).2 else _
    simp only [serve, serveOne]
    cases hw : ws.get? kind with
    | some w =>
      have hget : ws.get kind capacity = w := by rw [get, hw, Option.getD_some]
      simp only [start?_of_get? hw, hget, Option.some_or]
      exact ⟨trivial, fun kind' => Fields.get?_set ws kind kind' _⟩
    | none =>
      rw [start?_of_get?_eq_none hw]
      cases hnew : Window.create? capacity with
      | none =>
        refine ⟨rfl, fun kind' => ?_⟩
        by_cases hkind : kind' = kind
        · rw [if_pos hkind, hkind]
          exact hw
        · rw [if_neg hkind]
          rfl
      | some w =>
        have hget : get (ws.set kind w) kind capacity = w := by simp [get]
        simp only [Option.map_some, Option.none_or, hget]
        refine ⟨trivial, fun kind' => ?_⟩
        by_cases hkind : kind' = kind <;> simp [hkind]
  | forget kind => exact ⟨rfl, Fields.get?_erase ws kind⟩

/-! ## One kind on its own -/

/-- What a use brings: the capacity in case that it is the first, and the question. -/
structure Use where
  capacity : Nat
  query : Query

/-- After these uses, a use with the capacity would have to start a window that is too large. -/
def crashes (uses : List Use) (capacity : Nat) : Bool :=
  uses.isEmpty && decide (Window.maxCapacity < capacity)

/-- The uses of a kind since it was last forgotten, after one more request to it. A use that crashes
counts for nothing. -/
def Request.extend (uses : List Use) : Request → List Use
  | .use _ capacity query => if crashes uses capacity then uses else uses ++ [⟨capacity, query⟩]
  | .forget _ => []

/-- The uses of a kind in a run of requests since it was last forgotten. -/
def usesOf (kind : String) (requests : List Request) : List Use :=
  requests.foldl (fun uses r => if r.kind = kind then r.extend uses else uses) []

/-- A single window with the capacity of the first use (`capacity` before there is any), to which
the questions of all uses were put. -/
def solo (capacity : Nat) (uses : List Use) : Window :=
  Window.askAll { capacity := (uses.head?.map Use.capacity).getD capacity } (uses.map Use.query)

/-- The answer that a kind owes to a request after its uses since it was last forgotten. -/
def expected (uses : List Use) : Request → Answer
  | .use _ capacity query =>
    if crashes uses capacity then .crash else ((solo capacity uses).ask query).1
  | .forget _ => .flag !uses.isEmpty

/-- The window of a kind after its uses: none before the first. -/
def window? (uses : List Use) : Option Window :=
  if uses.isEmpty then none else some (solo 0 uses)

/-- The window that serves a use: the one of the uses before it, or else a new one. -/
theorem window?_or_create? (uses : List Use) (capacity : Nat) :
    (window? uses).or (Window.create? capacity) =
      if crashes uses capacity then none else some (solo capacity uses) := by
  cases uses with
  | nil =>
    by_cases hmax : capacity ≤ Window.maxCapacity
    · simp [window?, Window.create?, crashes, solo, Window.askAll, hmax]
    · simp [window?, Window.create?, crashes, hmax, Nat.lt_of_not_le hmax]
  | cons use rest => simp [window?, crashes, solo]

theorem solo_concat (capacity c : Nat) (uses : List Use) (query : Query) :
    solo c (uses ++ [⟨capacity, query⟩]) = ((solo capacity uses).ask query).2 := by
  cases uses <;> simp [solo, Window.askAll]

theorem serveOne_window? (uses : List Use) (r : Request) :
    serveOne (window? uses) r = (expected uses r, window? (r.extend uses)) := by
  cases r with
  | use kind capacity query =>
    simp only [serveOne, window?_or_create?, expected, Request.extend]
    by_cases hcrash : crashes uses capacity = true
    · have hempty : uses.isEmpty = true := (Bool.and_eq_true_iff.1 hcrash).1
      simp [hcrash, window?, hempty]
    · have hnext : window? (uses ++ [⟨capacity, query⟩]) =
          some ((solo capacity uses).ask query).2 := by
        rw [window?, if_neg (by simp), solo_concat capacity]
      simp [hcrash, hnext]
  | forget kind => cases uses <;> rfl

/-- Every kind of the table has the window of its own uses in the requests so far. -/
def Reflects (ws : Windows) (requests : List Request) : Prop :=
  ∀ kind, ws.get? kind = window? (usesOf kind requests)

theorem reflects_empty : Reflects .empty [] := fun _ => rfl

theorem Reflects.serve {ws : Windows} {requests : List Request} (h : ws.Reflects requests)
    (r : Request) : (ws.serve r).2.Reflects (requests ++ [r]) := by
  intro kind
  rw [(serve_eq ws r).2, h, h, usesOf, usesOf, usesOf, List.foldl_concat]
  by_cases hkind : kind = r.kind
  · rw [if_pos hkind, if_pos hkind.symm, hkind, ← usesOf, serveOne_window?]
  · rw [if_neg hkind, if_neg (Ne.symm hkind)]

theorem Reflects.answers {ws : Windows} {before : List Request} (h : ws.Reflects before)
    (requests : List Request) :
    ws.answers requests =
      requests.mapIdx fun i r => expected (usesOf r.kind (before ++ requests.take i)) r := by
  induction requests generalizing ws before with
  | nil => rfl
  | cons r rest ih =>
    rw [Windows.answers, ih (h.serve r), (serve_eq ws r).1, h, serveOne_window?, List.mapIdx_cons]
    simp

/-- Two tables that agree on a kind serve it alike, whatever one of them is asked of other kinds. -/
theorem answers_filter {ws ws' : Windows} {kind : String} (h : ws.get? kind = ws'.get? kind)
    (requests : List Request) :
    (((ws.answers requests).zip requests).filter (·.2.kind = kind)).map Prod.fst =
      ws'.answers (requests.filter (·.kind = kind)) := by
  induction requests generalizing ws ws' with
  | nil => rfl
  | cons r rest ih =>
    have hnext : r.kind = kind → (ws.serve r).2.get? kind = (ws'.serve r).2.get? kind := by
      rintro rfl
      rw [(serve_eq ws r).2, (serve_eq ws' r).2, h]
    by_cases hkind : r.kind = kind
    · have hanswer : (ws.serve r).1 = (ws'.serve r).1 := by
        rw [(serve_eq ws r).1, (serve_eq ws' r).1, hkind, h]
      simp [answers, hkind, hanswer, ih (hnext hkind)]
    · have hsame : (ws.serve r).2.get? kind = ws'.get? kind := by
        rw [(serve_eq ws r).2, if_neg (Ne.symm hkind), h]
      simp [answers, hkind, ih hsame]

/-- The answers that a table gives for one kind, in any run of requests, are those to the requests
of that kind alone. Each answer is what a single window gives that was started by the first use of
the kind since it was last forgotten, with the capacity of that use, and was asked the same
questions; forgetting a kind answers whether there was such a use. A use crashes if it is the first
and its capacity is beyond `Window.maxCapacity`; it does not count as a use then, so that the next
one is the first. -/
theorem answers_of_kind (requests : List Request) (kind : String) :
    (((answers .empty requests).zip requests).filter (·.2.kind = kind)).map Prod.fst =
        answers .empty (requests.filter (·.kind = kind)) ∧
      answers .empty requests =
        requests.mapIdx fun i r => expected (usesOf r.kind (requests.take i)) r :=
  ⟨answers_filter rfl requests, reflects_empty.answers requests⟩

end Windows

end Sigil
