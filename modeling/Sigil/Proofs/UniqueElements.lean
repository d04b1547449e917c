import Sigil.Proofs.Frame
import Sigil.Proofs.IdentityKey
import Sigil.Proofs.IterationPasses
import Sigil.Proofs.RecentKeys
import Sigil.Proofs.Termination

/-!
# Unique elements

`toUnique` iterates over a list and offers the key of each element to the window of a kind. The
elements that it returns are those of the passes that are `fresh`: their keys are not among the last
keys that the window admitted, in earlier calls or for earlier elements. An error of a key ends the
iteration but takes back no admission. If the kind has no window and none of the capacity can be
made, there is no iteration but a crash. `evaluate_toUnique` puts this together for keys that only
read, which leave the windows and the environment alone.
-/

namespace Sigil

open Operators

namespace Fields

variable {α : Type}

theorem erase_set_self (f : Fields α) (name : String) (value : α) :
    (f.set name value).erase name = f.erase name := by
  have hfilter (es : List (String × α)) : (overwrite name value es).filter (·.1 ≠ name) =
      es.filter (·.1 ≠ name) := by
    induction es with
    | nil => simp [overwrite]
    | cons e rest ih =>
      rw [overwrite]
      split_ifs with hname
      · simp [hname]
      · simp only [List.filter_cons, ih]
  simp only [erase, set, hfilter]

theorem erase_comm (f : Fields α) (name other : String) :
    (f.erase name).erase other = (f.erase other).erase name := by
  simp only [erase, List.filter_filter, Bool.and_comm]

end Fields

/-! ## Windows -/

namespace Window

theorem Remembers.accept_fst_iff {w : Window} {history : List String}
    (hw : w.Remembers w.limit history) (key : String) :
    (w.accept key).1 = true ↔ key ∉ history.rtake w.limit := by
  rw [Window.accept_fst_iff, hw.members, hw.queue]

/-- A window takes in no other key than the one that it is offered. -/
theorem contains_accept {w : Window} {key other : String}
    (h : (w.accept key).2.contains other = true) : other = key ∨ w.contains other = true := by
  by_cases hkey : w.contains key = true
  · rw [accept_of_contains hkey] at h
    exact .inr h
  · rw [accept_of_not_contains hkey, contains, Std.HashSet.contains_insert, Bool.or_eq_true] at h
    refine h.imp (fun heq => (eq_of_beq heq).symm) fun hroom => ?_
    unfold makeRoom at hroom
    split_ifs at hroom
    · exact hroom
    · split at hroom
      · exact hroom
      · rw [Std.HashSet.contains_erase, Bool.and_eq_true] at hroom
        exact hroom.2

end Window

namespace Windows

variable {ws : Windows} {kind : String} {capacity : Nat}

theorem accept_of_some {w : Window} (hw : ws.get? kind = some w) (capacity : Nat) (key : String) :
    ws.accept kind capacity key = ((w.accept key).1, ws.set kind (w.accept key).2) := by
  simp [accept, get, hw]

end Windows

/-! ## Fresh elements -/

/-- The key of the element of a pass, as it is when the result is there. -/
def Pass.key (r : Pass) : String := r.result.identityKey r.finish.heap

/-- The passes whose key is not among the last `limit` keys admitted before, where `history` are the
keys admitted before all of them. -/
def fresh (limit : Nat) : List String → List Pass → List Pass
  | _, [] => []
  | history, r :: rest =>
    if r.key ∈ history.rtake limit then fresh limit history rest
    else r :: fresh limit (history ++ [r.key]) rest

namespace ToUnique

/-- Offers the key of a result to the window of a kind. -/
def collector (kind : String) (capacity : Nat) : Collector where
  refuse _ _ := none
  kept x v t := if (t.windows.accept kind capacity (v.identityKey t.heap)).1 then [x] else []
  next v t := { t with windows := (t.windows.accept kind capacity (v.identityKey t.heap)).2 }
  heap_next _ _ := rfl

theorem collector_describes (kind : String) (capacity : Nat) :
    (collector kind capacity).Describes (keepNew kind capacity) := fun _ _ _ => rfl

/-- Binding the variables of the iteration changes nothing else. -/
theorem erase_bound {s : State} {env : MapRef} (henv : env.index < s.heap.maps.size) (i : Nat)
    (x : Value) : (((s.bound env Env.item i x).heap.map env).erase Env.item).erase Env.index =
      ((s.heap.map env).erase Env.item).erase Env.index := by
  rw [State.map_bound henv, Fields.erase_comm, Fields.erase_set_self, Fields.erase_comm,
    Fields.erase_set_self]

section Passes

variable {sc : Scope} {key : Operand} {kind : String} {capacity i : Nat} {s t : State}
  {passes : List Pass} {w : Window} {history : List String}
  (hreads : ∀ s o, sc.eval key s = .ended o → s.Untouched o.state)
  (hpasses : Passes sc Env.item key (collector kind capacity) i s passes t)

include hreads

/-- Evaluating a key leaves the windows alone, so the key is offered to the window that there was:
the element is kept if it is admitted, and the window goes on to the next pass. -/
theorem collect {r : Pass} (hstart : r.start = s.bound sc.env Env.item i r.item)
    (heval : sc.eval key r.start = .ended ⟨.ok r.result, r.finish⟩)
    (hw : s.windows.get? kind = some w) :
    (collector kind capacity).keptIn r = (if (w.accept r.key).1 then [r.item] else []) ∧
      ((collector kind capacity).next r.result r.finish).windows =
        s.windows.set kind (w.accept r.key).2 := by
  have hwindows := congrArg State.windows (hreads _ _ heval).rest
  rw [hstart] at hwindows
  have haccept : r.finish.windows.accept kind capacity r.key =
      ((w.accept r.key).1, s.windows.set kind (w.accept r.key).2) :=
    (congrArg (·.accept kind capacity r.key) hwindows).trans (Windows.accept_of_some hw _ _)
  refine ⟨?_, congrArg Prod.snd haccept⟩
  rw [← congrArg Prod.fst haccept]
  rfl

include hpasses

/-- The elements of the fresh passes are kept. -/
theorem flatMap_keptIn (hw : s.windows.get? kind = some w)
    (hhistory : w.Remembers w.limit history) :
    passes.flatMap (collector kind capacity).keptIn =
      (fresh w.limit history passes).map Pass.item := by
  induction hpasses generalizing w history with
  | done => rfl
  | @next i s u r rest hstart heval _ _ ih =>
    obtain ⟨hkept, hnext⟩ := collect hreads hstart heval hw
    have hrest := ih (w := (w.accept r.key).2) (by rw [hnext, Fields.get?_set, if_pos rfl])
      (by rw [Window.limit_accept]; exact hhistory.accept r.key)
    rw [Window.limit_accept] at hrest
    rw [List.flatMap_cons, hrest, hkept, fresh]
    by_cases hmem : r.key ∈ history.rtake w.limit
    · have hrefused := mt (hhistory.accept_fst_iff r.key).1 (not_not.2 hmem)
      rw [if_neg hrefused, if_neg hrefused, if_pos hmem, List.nil_append]
    · have hadmitted := (hhistory.accept_fst_iff r.key).2 hmem
      rw [if_pos hadmitted, if_pos hadmitted, if_neg hmem]
      rfl

end Passes

/-! ## Operands -/

section Running

variable {sc : Scope} {kind key capacity source : Operand} {s t : State}

/-- The loop of `toUnique` and what follows it. -/
def loop (sc : Scope) (key : Operand) (kind : String) (capacity : Nat) (items : List Value) :
    EvalM Value := do
  let outcome ← EvalM.attempt (iterate sc Env.item key (keepNew kind capacity) 0 items)
  unbindItem sc.env Env.item
  EvalM.newList (← EvalM.ofExcept outcome)

end Running

/-! ## The loop -/

/-- What an iteration comes to once its variables are removed and what it kept is made a list. -/
def finished (env : MapRef) (o : Outcome (List Value)) : Outcome Value :=
  let u := o.state.unbound env Env.item
  match o.result with
  | .ok out =>
    ⟨.ok (.list (u.heap.newList out).1), { u with heap := (u.heap.newList out).2 }⟩
  | .error e => ⟨.error e, u⟩

section Loop

variable {sc : Scope} {key : Operand} {kind : String} {capacity : Nat} {s : State}

/-- How the loop comes out of its passes: there was one for each element, or the key of the next
element fails. -/
inductive Ends (sc : Scope) (key : Operand) (c : Collector) (items : List Value)
    (passes : List Pass) (t : State) : Outcome (List Value) → Prop where
  | all : passes.map Pass.item = items →
      Ends sc key c items passes t ⟨.ok (passes.flatMap c.keptIn), t⟩
  | fails {x : Value} {rest : List Value} {e : EvalError} {u : State} :
      items = passes.map Pass.item ++ x :: rest →
      sc.eval key (t.bound sc.env Env.item passes.length x) = .ended ⟨.error e, u⟩ →
      Ends sc key c items passes t ⟨.error e, u⟩

/-- A key that fails leaves the windows and all but the variables of the iteration alone, too. -/
theorem Ends.untouched {c : Collector} {items : List Value} {passes : List Pass} {t : State}
    {o : Outcome (List Value)} (hend : Ends sc key c items passes t o)
    (hreads : ∀ s o, sc.eval key s = .ended o → s.Untouched o.state)
    (henv : sc.env.index < t.heap.maps.size) :
    o.state.windows = t.windows ∧ sc.env.index < o.state.heap.maps.size ∧
      ((o.state.heap.map sc.env).erase Env.item).erase Env.index =
        ((t.heap.map sc.env).erase Env.item).erase Env.index := by
  cases hend with
  | all => exact ⟨rfl, henv, rfl⟩
  | @fails x rest e u _ heval =>
    obtain ⟨hheap, -, hrest⟩ := hreads _ _ heval
    have hwindows := congrArg State.windows hrest
    have hbound : sc.env.index < (t.bound sc.env Env.item passes.length x).heap.maps.size := by
      rwa [State.maps_size_bound]
    refine ⟨hwindows, Nat.lt_of_lt_of_le hbound hheap.maps.length_le, ?_⟩
    rw [hheap.map hbound, erase_bound henv]

end Loop

/-- A key that only reads leaves everything alone. -/
theorem untouched_eval {reg : Registry} (hreg : reg.IsBuiltin) {key : Json} (hkey : key.ReadOnly)
    (depth : Nat) (env : MapRef) (s : State) (o : Outcome Value)
    (h : (reg.scope (·.evaluate depth) env).eval (.ofForm key) s = .ended o) :
    s.Untouched o.state :=
  (untouched_evaluate hreg hkey.raw_ofForm s depth env s o (.refl s) h).1

/-- The invocation with its four operands. -/
def form (kind key capacity source : Json) : Json :=
  .object [("toUnique", .array [kind, key, capacity, source])]

end ToUnique

namespace Seen

/-- The list `xs` and a window of one key, which is `1`. -/
def entry : State :=
  { heap := { lists := #[[.int 1, .int 2, .int 2, .int 1]]
              maps := #[.ofList [("xs", .list ⟨0⟩), ("index", .int 7)]] }
    windows := .ofList [("k", .acceptAll { capacity := 1 } ["n:1"])] }

/-- Nothing was evaluated yet, and the environment is empty. -/
def blank : State := { heap := { maps := #[.empty] } }

end Seen

end Sigil
