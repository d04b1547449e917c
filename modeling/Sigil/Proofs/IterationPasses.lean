import Mathlib.Data.List.Basic
import Sigil.Proofs.Sequence

/-!
# The passes of an iteration

An iteration goes through passes. A pass binds an element and its position in the environment,
evaluates the body in that state, and hands the result to a `Collector`, which refuses it or keeps
some values. `Passes` is a run of passes without a failure. An iteration over some elements either
goes through all of them, or breaks off at one after the passes of those before it
(`iterate_eq_ok`, `iterate_eq_error`).
-/

namespace Sigil

open Operators

/-- A computation of two steps that ends fails in the first step or goes through both. -/
theorem EvalM.bind_eq_ended {α β : Type} {m : EvalM α} {f : α → EvalM β} {s : State}
    {o : Outcome β} (h : (m >>= f) s = .ended o) :
    (∃ e t, m s = .ended ⟨.error e, t⟩) ∨ ∃ a t, m s = .ended ⟨.ok a, t⟩ ∧ f a t = .ended o := by
  cases hs : m s with
  | crashed => cases (EvalM.bind_of_crashed hs).symm.trans h
  | tooDeep => cases (EvalM.bind_of_tooDeep hs).symm.trans h
  | ended r =>
    obtain ⟨result, t⟩ := r
    cases result with
    | ok a => exact .inr ⟨a, t, rfl, (EvalM.bind_of_ok hs).symm.trans h⟩
    | error e => exact .inl ⟨e, t, rfl⟩

theorem EvalM.bind_eq_error {α β : Type} {m : EvalM α} {f : α → EvalM β} {s u : State}
    {e : EvalError} :
    (m >>= f) s = .ended ⟨.error e, u⟩ ↔ m s = .ended ⟨.error e, u⟩ ∨
      ∃ a t, m s = .ended ⟨.ok a, t⟩ ∧ f a t = .ended ⟨.error e, u⟩ := by
  cases hs : m s with
  | crashed => simp [EvalM.bind_of_crashed hs]
  | tooDeep => simp [EvalM.bind_of_tooDeep hs]
  | ended r =>
    obtain ⟨result, t⟩ := r
    cases result with
    | ok a => simp [EvalM.bind_of_ok hs]
    | error e' => simp [EvalM.bind_of_error hs]

/-! ## The variables of an iteration -/

namespace State

/-- The state with the element and its position bound. -/
def bound (s : State) (env : MapRef) (var : String) (i : Nat) (x : Value) : State :=
  let h := s.heap.setMap env ((s.heap.map env).set var x)
  { s with heap := h.setMap env ((h.map env).set Env.index (.int (Int64.ofNat i))) }

/-- The state without the variables of an iteration. -/
def unbound (s : State) (env : MapRef) (var : String) : State :=
  let h := s.heap.setMap env ((s.heap.map env).erase var)
  { s with heap := h.setMap env ((h.map env).erase Env.index) }

variable {s : State} {env : MapRef} (henv : env.index < s.heap.maps.size) (var : String)

theorem maps_size_bound (s : State) (env : MapRef) (var : String) (i : Nat) (x : Value) :
    (s.bound env var i x).heap.maps.size = s.heap.maps.size := by
  simp [bound, Heap.setMap]

include henv

theorem map_bound (i : Nat) (x : Value) :
    (s.bound env var i x).heap.map env =
      ((s.heap.map env).set var x).set Env.index (.int (Int64.ofNat i)) := by
  have hsize : env.index < (s.heap.setMap env ((s.heap.map env).set var x)).maps.size := by
    simpa [Heap.setMap] using henv
  simp only [bound, Heap.map_setMap hsize, Heap.map_setMap henv]

theorem map_unbound :
    (s.unbound env var).heap.map env = ((s.heap.map env).erase var).erase Env.index := by
  have hsize : env.index < (s.heap.setMap env ((s.heap.map env).erase var)).maps.size := by
    simpa [Heap.setMap] using henv
  simp only [unbound, Heap.map_setMap hsize, Heap.map_setMap henv]

end State

theorem bindItem_apply (env : MapRef) (var : String) (i : Nat) (x : Value) (s : State) :
    bindItem env var i x s = .ended ⟨.ok (), s.bound env var i x⟩ := rfl

/-- What an iteration does with the result of its body: it refuses the result with an error, or
keeps some values; in both cases it goes on to a state with the same heap. -/
structure Collector where
  refuse : Value → State → Option EvalError
  kept : Value → Value → State → List Value
  next : Value → State → State
  heap_next : ∀ v t, (next v t).heap = t.heap

/-- An element, the state in which the body is evaluated for it, and what that leads to. -/
structure Pass where
  item : Value
  start : State
  result : Value
  finish : State

namespace Collector

/-- The collector says what happens to a result. -/
def Describes (c : Collector) (keep : Value → Value → EvalM (List Value)) : Prop :=
  ∀ x v t, keep x v t = .ended ⟨match c.refuse v t with
    | some e => .error e
    | none => .ok (c.kept x v t), c.next v t⟩

/-- What is kept in a pass. -/
def keptIn (c : Collector) (r : Pass) : List Value := c.kept r.item r.result r.finish

end Collector

/-- Passes from position `i` on, without a failure. Each of them starts in the state that the one
before left, with its own element and position bound. -/
inductive Passes (sc : Scope) (var : String) (body : Operand) (c : Collector) :
    Nat → State → List Pass → State → Prop where
  | done {i : Nat} {s : State} : Passes sc var body c i s [] s
  | next {i : Nat} {s u : State} {r : Pass} {rest : List Pass} :
      r.start = s.bound sc.env var i r.item →
      sc.eval body r.start = .ended ⟨.ok r.result, r.finish⟩ →
      c.refuse r.result r.finish = none →
      Passes sc var body c (i + 1) (c.next r.result r.finish) rest u →
      Passes sc var body c i s (r :: rest) u

/-- The pass of an element fails: the body does, or its result is refused. -/
inductive BreaksOff (sc : Scope) (var : String) (body : Operand) (c : Collector) (i : Nat)
    (x : Value) (s : State) : EvalError → State → Prop where
  | body {e : EvalError} {t : State} :
      sc.eval body (s.bound sc.env var i x) = .ended ⟨.error e, t⟩ →
      BreaksOff sc var body c i x s e t
  | refused {e : EvalError} {v : Value} {t : State} :
      sc.eval body (s.bound sc.env var i x) = .ended ⟨.ok v, t⟩ → c.refuse v t = some e →
      BreaksOff sc var body c i x s e (c.next v t)

section Iterate

variable {sc : Scope} {var : String} {body : Operand} {c : Collector}
  {keep : Value → Value → EvalM (List Value)} (hc : c.Describes keep) {i : Nat} {x v : Value}
  {items rest : List Value} {s t u : State} {e : EvalError}

theorem iterate_cons_of_eval (heval : sc.eval body (s.bound sc.env var i x) = .ended ⟨.ok v, t⟩) :
    iterate sc var body keep i (x :: rest) s =
      (keep x v >>= fun kept => iterate sc var body keep (i + 1) rest >>= fun more =>
        pure (kept ++ more)) t :=
  (EvalM.bind_of_ok (bindItem_apply sc.env var i x s)).trans (EvalM.bind_of_ok heval)

theorem iterate_cons_of_error
    (heval : sc.eval body (s.bound sc.env var i x) = .ended ⟨.error e, t⟩) :
    iterate sc var body keep i (x :: rest) s = .ended ⟨.error e, t⟩ :=
  (EvalM.bind_of_ok (bindItem_apply sc.env var i x s)).trans (EvalM.bind_of_error heval)

theorem iterate_cons_of_crashed (heval : sc.eval body (s.bound sc.env var i x) = .crashed t) :
    iterate sc var body keep i (x :: rest) s = .crashed t :=
  (EvalM.bind_of_ok (bindItem_apply sc.env var i x s)).trans (EvalM.bind_of_crashed heval)

theorem iterate_cons_of_tooDeep (heval : sc.eval body (s.bound sc.env var i x) = .tooDeep) :
    iterate sc var body keep i (x :: rest) s = .tooDeep :=
  (EvalM.bind_of_ok (bindItem_apply sc.env var i x s)).trans (EvalM.bind_of_tooDeep heval)

include hc

theorem Collector.Describes.keep_of_refuse (hrefuse : c.refuse v t = some e) :
    keep x v t = .ended ⟨.error e, c.next v t⟩ := by
  rw [hc x v t, hrefuse]

theorem Collector.Describes.keep_of_accept (haccept : c.refuse v t = none) :
    keep x v t = .ended ⟨.ok (c.kept x v t), c.next v t⟩ := by
  rw [hc x v t, haccept]

/-- One pass of the loop: what it leaves to the others. -/
theorem iterate_cons_of_accept (heval : sc.eval body (s.bound sc.env var i x) = .ended ⟨.ok v, t⟩)
    (haccept : c.refuse v t = none) :
    iterate sc var body keep i (x :: rest) s =
      (iterate sc var body keep (i + 1) rest >>= fun more => pure (c.kept x v t ++ more))
        (c.next v t) :=
  (iterate_cons_of_eval heval).trans (EvalM.bind_of_ok (hc.keep_of_accept haccept))

theorem iterate_cons_of_refuse (heval : sc.eval body (s.bound sc.env var i x) = .ended ⟨.ok v, t⟩)
    (hrefuse : c.refuse v t = some e) :
    iterate sc var body keep i (x :: rest) s = .ended ⟨.error e, c.next v t⟩ :=
  (iterate_cons_of_eval heval).trans (EvalM.bind_of_error (hc.keep_of_refuse hrefuse))

/-- How the first pass of an iteration that ends went: it broke the iteration off, or the other
passes follow it. -/
theorem iterate_cons_cases {o : Outcome (List Value)}
    (h : iterate sc var body keep i (x :: rest) s = .ended o) :
    (∃ e u, BreaksOff sc var body c i x s e u ∧ o = ⟨.error e, u⟩) ∨
      ∃ v t, sc.eval body (s.bound sc.env var i x) = .ended ⟨.ok v, t⟩ ∧ c.refuse v t = none ∧
        (iterate sc var body keep (i + 1) rest >>= fun more => pure (c.kept x v t ++ more))
          (c.next v t) = .ended o := by
  cases heval : sc.eval body (s.bound sc.env var i x) with
  | crashed => rw [iterate_cons_of_crashed heval] at h; cases h
  | tooDeep => rw [iterate_cons_of_tooDeep heval] at h; cases h
  | ended first =>
    obtain ⟨result, t⟩ := first
    cases result with
    | error e =>
      rw [iterate_cons_of_error heval] at h
      exact .inl ⟨e, t, .body heval, (Course.ended.inj h).symm⟩
    | ok v =>
      cases hrefuse : c.refuse v t with
      | some e =>
        rw [iterate_cons_of_refuse hc heval hrefuse] at h
        exact .inl ⟨e, _, .refused heval hrefuse, (Course.ended.inj h).symm⟩
      | none =>
        rw [iterate_cons_of_accept hc heval hrefuse] at h
        exact .inr ⟨v, t, rfl, hrefuse, h⟩

/-- An iteration that ends well has gone through a pass for each element. -/
theorem iterate_eq_ok {out : List Value} :
    iterate sc var body keep i items s = .ended ⟨.ok out, u⟩ ↔
      ∃ passes, Passes sc var body c i s passes u ∧ passes.map Pass.item = items ∧
        out = passes.flatMap c.keptIn := by
  induction items generalizing i s out with
  | nil =>
    constructor
    · intro h
      cases h
      exact ⟨[], .done, rfl, rfl⟩
    · rintro ⟨passes, hpasses, hitems, rfl⟩
      obtain rfl := List.map_eq_nil_iff.1 hitems
      cases hpasses
      rfl
  | cons x rest ih =>
    constructor
    · intro h
      obtain ⟨_, _, -, heq⟩ | ⟨v, t, heval, haccept, hrest⟩ := iterate_cons_cases hc h
      · cases heq
      · obtain ⟨more, u', hmore, hout⟩ := EvalM.bind_eq_ok.1 hrest
        obtain ⟨rfl, rfl⟩ : c.kept x v t ++ more = out ∧ u' = u := by
          cases hout
          exact ⟨rfl, rfl⟩
        obtain ⟨passes, hpasses, rfl, rfl⟩ := ih.1 hmore
        exact ⟨⟨x, _, v, t⟩ :: passes, .next rfl heval haccept hpasses, rfl, rfl⟩
    · rintro ⟨passes, hpasses, hitems, rfl⟩
      cases hpasses with
      | done => cases hitems
      | @next _ _ _ r rest' hstart heval haccept hpasses =>
        obtain ⟨rfl, rfl⟩ := List.cons.inj hitems
        rw [hstart] at heval
        rw [iterate_cons_of_accept hc heval haccept,
          EvalM.bind_of_ok (ih.2 ⟨rest', hpasses, rfl, rfl⟩)]
        rfl

/-- An iteration that fails has broken off at an element after a pass for each one before. -/
theorem iterate_eq_error :
    iterate sc var body keep i items s = .ended ⟨.error e, u⟩ ↔
      ∃ passes t x rest, Passes sc var body c i s passes t ∧
        items = passes.map Pass.item ++ x :: rest ∧
        BreaksOff sc var body c (i + passes.length) x t e u := by
  induction items generalizing i s with
  | nil =>
    constructor
    · intro h
      cases h
    · rintro ⟨passes, t, x, rest, -, hitems, -⟩
      exact absurd hitems.symm (by simp)
  | cons x rest ih =>
    constructor
    · intro h
      obtain ⟨e', u', hbreaks, heq⟩ | ⟨v, t, heval, haccept, hrest⟩ := iterate_cons_cases hc h
      · obtain ⟨rfl, rfl⟩ : e = e' ∧ u = u' := by
          cases heq
          exact ⟨rfl, rfl⟩
        exact ⟨[], s, x, rest, .done, rfl, hbreaks⟩
      · obtain hmore | ⟨_, _, _, hpure⟩ := EvalM.bind_eq_error.1 hrest
        · obtain ⟨passes, t', y, rest', hpasses, rfl, hbreaks⟩ := ih.1 hmore
          refine ⟨⟨x, _, v, t⟩ :: passes, t', y, rest', .next rfl heval haccept hpasses, rfl, ?_⟩
          rwa [List.length_cons, Nat.add_comm passes.length, ← Nat.add_assoc]
        · cases hpure
    · rintro ⟨passes, t, y, rest', hpasses, hitems, hbreaks⟩
      cases hpasses with
      | done =>
        obtain ⟨rfl, rfl⟩ := List.cons.inj hitems
        cases hbreaks with
        | body heval => exact iterate_cons_of_error heval
        | refused heval hrefuse => exact iterate_cons_of_refuse hc heval hrefuse
      | @next _ _ _ r rest'' hstart heval haccept hpasses =>
        obtain ⟨rfl, rfl⟩ := List.cons.inj hitems
        rw [hstart] at heval
        rw [List.length_cons, Nat.add_comm rest''.length, ← Nat.add_assoc] at hbreaks
        rw [iterate_cons_of_accept hc heval haccept,
          EvalM.bind_of_error (ih.2 ⟨rest'', t, y, rest', hpasses, rfl, hbreaks⟩)]

end Iterate

/-! ## What holds in every pass -/

namespace Passes

variable {sc : Scope} {var : String} {body : Operand} {c : Collector} {i : Nat} {s u : State}
  {passes : List Pass}

/-- What holds at the start, and passes from one pass to the next, holds at the end and in the
state in which every pass starts to bind its element. -/
theorem invariant {P : State → Prop} (hpasses : Passes sc var body c i s passes u) (hs : P s)
    (hstep : ∀ i x s v t, P s → sc.eval body (s.bound sc.env var i x) = .ended ⟨.ok v, t⟩ →
      P (c.next v t)) :
    P u ∧ ∀ (k : Nat) (r : Pass), passes[k]? = some r →
      ∃ t, P t ∧ r.start = t.bound sc.env var (i + k) r.item := by
  induction hpasses with
  | done => exact ⟨hs, fun k r hr => by simp at hr⟩
  | @next i s u r rest hstart heval _ _ ih =>
    rw [hstart] at heval
    obtain ⟨hu, hrest⟩ := ih (hstep _ _ _ _ _ hs heval)
    refine ⟨hu, fun k r' hr' => ?_⟩
    cases k with
    | zero =>
      obtain rfl : r = r' := by simpa using hr'
      exact ⟨s, hs, hstart⟩
    | succ k =>
      obtain ⟨t, ht, hbound⟩ := hrest k r' (by simpa using hr')
      rw [Nat.add_assoc, Nat.add_comm 1] at hbound
      exact ⟨t, ht, hbound⟩

/-- The environment stays in the heap, so that every pass finds its element and its position
there. -/
theorem reads (hpasses : Passes sc var body c i s passes u) (hvar : var ≠ Env.index)
    (hgrows : ∀ form, GrowsHeap Value (sc.evaluate sc.env form) (sc.evaluate sc.env form))
    (henv : sc.env.index < s.heap.maps.size) :
    sc.env.index < u.heap.maps.size ∧ ∀ (k : Nat) (r : Pass), passes[k]? = some r →
      (r.start.heap.map sc.env).get? var = some r.item ∧
      (r.start.heap.map sc.env).get? Env.index = some (.int (Int64.ofNat (i + k))) := by
  have hinv := hpasses.invariant (P := fun s => sc.env.index < s.heap.maps.size) henv
    fun i x s v t hs heval => by
      have hle := (hgrows body.raw _ _ heval).maps
      rw [State.maps_size_bound] at hle
      rw [c.heap_next]
      exact Nat.lt_of_lt_of_le hs hle
  refine ⟨hinv.1, fun k r hr => ?_⟩
  obtain ⟨t, ht, hstart⟩ := hinv.2 k r hr
  rw [hstart, State.map_bound ht]
  exact ⟨by simp [hvar], by simp⟩

end Passes

end Sigil
