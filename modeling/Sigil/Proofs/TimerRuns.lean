import Mathlib.Algebra.Group.Nat.Defs
import Sigil.Program
import Sigil.Proofs.StepUniformity

/-!
# Runs of a timer

A timer is shared by the thread that evaluates its body and by all who can cancel it. The thread
waits. When a tick is due, it looks whether the timer was cancelled, and stops or starts the body;
when a message has come, it stops. Everyone else may cancel at any moment, also from inside the
body. A `Run` is any order of these steps.

In every run the ticks are the completed evaluations, cancelling leaves at most the evaluation in
progress to complete, and at most one message is sent (`timer_counts_and_stops`). The interpreter,
which lets a timer tick without interruption, goes through such runs (`Registry.run_of_ticks`).
-/

namespace Sigil

/-! ## Timers -/

namespace Timer

theorem cancel_of_cancelled {t : Timer} (ht : t.cancelled = true) : t.cancel = t := by
  simp [cancel, ht]

theorem cancelled_cancel (t : Timer) : t.cancel.cancelled = true := by
  unfold cancel trySend
  split
  · assumption
  · split <;> rfl

theorem ticks_cancel (t : Timer) : t.cancel.ticks = t.ticks := by
  unfold cancel trySend
  split
  · rfl
  · split <;> rfl

/-- Cancelling again changes nothing. -/
theorem cancel_cancel (t : Timer) : t.cancel.cancel = t.cancel :=
  cancel_of_cancelled t.cancelled_cancel

end Timer

/-- What the thread of a timer is doing. -/
inductive Thread where
  | waiting
  | evaluating
  | stopped
deriving DecidableEq, Repr

/-- A timer with its thread. -/
structure Scheduled where
  timer : Timer
  thread : Thread

namespace Scheduled

/-- A timer whose body was evaluated for the first time. -/
def new (period : Nat) (body : Json) (env : MapRef) (registry : RegistryRef) : Scheduled :=
  ⟨{ period, body, env, registry }, .waiting⟩

/-! ## Steps and runs -/

inductive Event where
  /-- A tick is due, and the thread starts the body. -/
  | start
  /-- A tick is due, but the timer was cancelled. -/
  | giveUp
  /-- The body ends, with a value or an error. -/
  | finish (result : Except EvalError Value)
  /-- The body crashes, and the thread with it. -/
  | crash
  /-- The thread takes a message. -/
  | receive
  /-- Someone cancels the timer, which may send a message. -/
  | cancel (sends : Bool)

namespace Event

def isStart : Event → Bool
  | .start => true
  | _ => false

def isFinish : Event → Bool
  | .finish _ => true
  | _ => false

def isSend : Event → Bool
  | .cancel sends => sends
  | _ => false

end Event

inductive Step : Scheduled → Event → Scheduled → Prop where
  | start {t : Timer} (ht : t.cancelled = false) : Step ⟨t, .waiting⟩ .start ⟨t, .evaluating⟩
  | giveUp {t : Timer} (ht : t.cancelled = true) : Step ⟨t, .waiting⟩ .giveUp ⟨t, .stopped⟩
  | finish (t : Timer) (result : Except EvalError Value) :
      Step ⟨t, .evaluating⟩ (.finish result) ⟨t.countTick, .waiting⟩
  | crash (t : Timer) : Step ⟨t, .evaluating⟩ .crash ⟨t, .stopped⟩
  | receive {t : Timer} (ht : 0 < t.messages) :
      Step ⟨t, .waiting⟩ .receive ⟨{ t with messages := t.messages - 1 }, .stopped⟩
  | cancel (t : Timer) (thread : Thread) :
      Step ⟨t, thread⟩ (.cancel (t.messages < t.cancel.messages)) ⟨t.cancel, thread⟩

/-- The steps of all parties, in any order. -/
inductive Run : Scheduled → List Event → Scheduled → Prop where
  | nil (s : Scheduled) : Run s [] s
  | cons {s u v : Scheduled} {e : Event} {es : List Event} (hstep : Step s e u)
      (hrun : Run u es v) : Run s (e :: es) v

theorem Run.single {s u : Scheduled} {e : Event} (hstep : Step s e u) : Run s [e] u :=
  .cons hstep (.nil u)

theorem run_append {s v : Scheduled} {es fs : List Event} :
    Run s (es ++ fs) v ↔ ∃ u, Run s es u ∧ Run u fs v := by
  constructor
  · intro h
    induction es generalizing s with
    | nil => exact ⟨s, .nil s, h⟩
    | cons e es ih =>
      cases h with
      | cons hstep hrun =>
        obtain ⟨u, hes, hfs⟩ := ih hrun
        exact ⟨u, .cons hstep hes, hfs⟩
  · rintro ⟨u, hes, hfs⟩
    induction hes with
    | nil => exact hfs
    | cons hstep _ ih => exact .cons hstep (ih hfs)

/-- If every step pays for the events that are counted, then a run has no more of them than it had
credit. The steps may rely on a property that they keep. -/
theorem Run.countP_add_le {P : Scheduled → Prop} (counted : Event → Bool) (credit : Scheduled → Nat)
    (hstep : ∀ s e u, P s → Step s e u → P u ∧ (counted e).toNat + credit u ≤ credit s)
    {s u : Scheduled} {es : List Event} (h : Run s es u) (hs : P s) :
    P u ∧ es.countP counted + credit u ≤ credit s := by
  induction h with
  | nil => exact ⟨hs, by simp⟩
  | @cons s u v e es hfirst _ ih =>
    obtain ⟨hu, hpaid⟩ := hstep s e u hs hfirst
    obtain ⟨hv, hrest⟩ := ih hu
    refine ⟨hv, ?_⟩
    rw [List.countP_cons]
    cases hcounted : counted e <;> simp [hcounted] at hpaid ⊢ <;> omega

theorem Run.ticks {s u : Scheduled} {es : List Event} (h : Run s es u) :
    u.timer.ticks = s.timer.ticks + UInt64.ofNat (es.countP Event.isFinish) := by
  induction h with
  | nil => simp
  | cons hstep _ ih =>
    rw [ih, List.countP_cons]
    cases hstep with
    | finish t result =>
      simp only [Timer.countTick, Event.isFinish, if_true, UInt64.ofNat_add]
      ac_rfl
    | cancel t thread => simp [Timer.ticks_cancel, Event.isFinish]
    | _ => simp [Event.isFinish]

/-! ## Cancelled timers -/

namespace Step

variable {s u : Scheduled} {e : Event}

theorem cancelled (h : Step s e u) (hs : s.timer.cancelled = true) : u.timer.cancelled = true := by
  cases h with
  | cancel t thread => exact t.cancelled_cancel
  | _ => exact hs

theorem isStart_eq_false (h : Step s e u) (hs : s.timer.cancelled = true) : e.isStart = false := by
  cases h with
  | start ht => simp [ht] at hs
  | _ => rfl

end Step

/-- The evaluations that a cancelled timer still completes. -/
def inProgress (s : Scheduled) : Nat := if s.thread = .evaluating then 1 else 0

/-- The messages that can still be sent. -/
def unsent (s : Scheduled) : Nat := if s.timer.cancelled then 0 else 1

theorem Step.isFinish_add_le {s u : Scheduled} {e : Event} (h : Step s e u)
    (hs : s.timer.cancelled = true) : e.isFinish.toNat + u.inProgress ≤ s.inProgress := by
  cases h with
  | start ht => simp [ht] at hs
  | _ => simp [Event.isFinish, inProgress]

/-- The call that finds the timer running is the only one that sends. -/
theorem Step.isSend_add_le {s u : Scheduled} {e : Event} (h : Step s e u) :
    e.isSend.toNat + u.unsent ≤ s.unsent := by
  cases h with
  | cancel t thread =>
    cases ht : t.cancelled with
    | true => simp [unsent, Event.isSend, Timer.cancel_of_cancelled ht, ht]
    | false =>
      have hunsent : (Scheduled.mk t.cancel thread).unsent = 0 := by
        simp [unsent, t.cancelled_cancel]
      rw [hunsent, Nat.add_zero]
      simpa [unsent, ht] using Bool.toNat_le _
  | _ => exact Nat.le_of_eq (Nat.zero_add _)

theorem Run.of_cancelled {s u : Scheduled} {es : List Event} (h : Run s es u)
    (hs : s.timer.cancelled = true) :
    u.timer.cancelled = true ∧ .start ∉ es ∧ es.countP Event.isFinish ≤ s.inProgress := by
  obtain ⟨hu, hstarts⟩ := h.countP_add_le (P := fun s => s.timer.cancelled = true)
    Event.isStart (fun _ => 0)
    (fun s e u hs hstep => ⟨hstep.cancelled hs, by simp [hstep.isStart_eq_false hs]⟩) hs
  obtain ⟨-, hfinishes⟩ := h.countP_add_le (P := fun s => s.timer.cancelled = true)
    Event.isFinish inProgress
    (fun s e u hs hstep => ⟨hstep.cancelled hs, hstep.isFinish_add_le hs⟩) hs
  refine ⟨hu, fun hmem => ?_, by omega⟩
  have hnone : es.countP Event.isStart = 0 := by omega
  exact absurd rfl (List.countP_eq_zero.1 hnone _ hmem)

theorem Run.countP_isSend_le {s u : Scheduled} {es : List Event} (h : Run s es u) :
    es.countP Event.isSend ≤ 1 := by
  obtain ⟨-, hsends⟩ := h.countP_add_le (P := fun _ => True) Event.isSend unsent
    (fun s e u _ hstep => ⟨trivial, hstep.isSend_add_le⟩) trivial
  have hunsent : s.unsent ≤ 1 := by
    unfold unsent
    split <;> omega
  omega

end Scheduled

/-! ## Timers in the heap -/

namespace Heap

variable {h : Heap} {r : NativeRef} {t : Timer}

theorem lt_size_of_native (ht : h.native r = .timer t) : r.index < h.natives.size := by
  by_cases hr : r.index < h.natives.size
  · exact hr
  · simp only [native, Array.getD, hr] at ht
    cases ht

theorem native_setNative (hr : r.index < h.natives.size) (n : Native) :
    (h.setNative r n).native r = n := by
  simp [native, setNative, Array.getD, hr]

theorem native_setNative_ne {other : NativeRef} (hne : other ≠ r) (n : Native) :
    (h.setNative other n).native r = h.native r := by
  have hindex : other.index ≠ r.index := fun heq => hne (by cases other; cases r; simp_all)
  simp [native, setNative, Array.getD_eq_getD_getElem?, Array.getElem?_setIfInBounds_ne hindex]

theorem timer_newNative (ht : h.native r = .timer t) (n : Native) :
    (h.newNative n).2.native r = .timer t := by
  have hr := lt_size_of_native ht
  rw [← ht]
  simp [native, newNative, Array.getD_eq_getD_getElem?, Array.getElem?_push, hr, Nat.ne_of_lt hr]

theorem native_cancel (ht : h.native r = .timer t) : (h.cancel r).native r = .timer t.cancel := by
  simp only [cancel, ht]
  exact native_setNative (lt_size_of_native ht) _

theorem native_cancel_ne {other : NativeRef} (hne : other ≠ r) :
    (h.cancel other).native r = h.native r := by
  unfold cancel
  split
  · exact native_setNative_ne hne _
  · rfl

theorem native_countTick (ht : h.native r = .timer t) :
    (h.countTick r).native r = .timer t.countTick := by
  simp only [countTick, ht]
  exact native_setNative (lt_size_of_native ht) _

end Heap

/-! ## Ticks of the interpreter -/

/-- The timer is as it was, or was cancelled since. -/
def State.HasTimer (r : NativeRef) (t : Timer) (s : State) : Prop :=
  s.heap.native r = .timer t ∨ s.heap.native r = .timer t.cancel

theorem writable_hasTimer (r : NativeRef) (t : Timer) :
    Writable (State.HasTimer r t) (fun _ => True) fun _ => True where
  plain _ := trivial
  element _ _ _ := trivial
  field _ _ _ := trivial
  newList hs _ := ⟨hs, trivial⟩
  newMap hs _ := ⟨hs, trivial⟩
  newClosure hs _ _ _ := ⟨hs, trivial⟩
  held _ _ _ := trivial
  newFunction hs _ _ := ⟨hs, trivial⟩
  setList hs _ _ := hs
  setMap hs _ _ := hs
  newTimer t' hs := ⟨hs.imp (Heap.timer_newNative · _) (Heap.timer_newNative · _), trivial⟩
  cancel {s} other hs := by
    by_cases hother : other = r
    · subst hother
      refine .inr ?_
      rcases hs with hs | hs
      · exact Heap.native_cancel hs
      · rw [← t.cancel_cancel]
        exact Heap.native_cancel hs
    · exact hs.imp (Heap.native_cancel_ne hother).trans (Heap.native_cancel_ne hother).trans
  sameHeap hs heq := by rwa [State.HasTimer, heq]
  captured _ _ := ⟨trivial, .inl trivial, fun _ _ => trivial⟩

namespace Registry

open Scheduled

/-- The functions of the embedder may cancel the timer, and leave it alone otherwise. -/
def OnlyCancels (reg : Registry) (r : NativeRef) : Prop :=
  ∀ f ∈ reg.functions, ∀ vs s o t, s.heap.native r = .timer t → f vs s = .ended o →
    o.state.HasTimer r t

variable {reg : Registry} {r : NativeRef} {s : State} {t : Timer}

theorem hasTimer_run (hreg : reg.AllBuiltin) (hhost : reg.OnlyCancels r)
    (ht : s.heap.native r = .timer t) {env : MapRef} {form : Json} {o : Outcome Value}
    (h : reg.run env form s = .ended o) : o.state.HasTimer r t := by
  refine (keeps_evaluate (E := fun _ => True) (fun _ _ => trivial) (writable_hasTimer r t) hreg
    (fun _ _ _ _ _ => trivial) ?_ maxDepth trivial trivial form s o (.inl ht) h).1
  intro _ _ _ f _ _ _ hf vs _ s' o' hs' h'
  refine ⟨?_, resultIn_true _⟩
  have hmem := List.mem_of_getElem? hf
  -- The timer may be cancelled by now, and cancelling it once more is the same.
  rcases hs' with hs' | hs'
  · exact hhost f hmem vs s' o' t hs' h'
  · have hcancelled := hhost f hmem vs s' o' t.cancel hs' h'
    rw [State.HasTimer, t.cancel_cancel, or_self] at hcancelled
    exact .inr hcancelled

theorem tick_of_cancelled (ht : s.heap.native r = .timer t) (hcancelled : t.cancelled = true) :
    reg.tick r s = .ended ⟨.ok (), s⟩ := by
  have hheap : EvalM.getHeap s = .ended ⟨.ok s.heap, s⟩ := rfl
  rw [tick, EvalM.bind_of_ok hheap, ht]
  simp only [hcancelled, if_true]
  rfl

theorem tick_of_not_cancelled (ht : s.heap.native r = .timer t) (hcancelled : t.cancelled = false) :
    reg.tick r s = ((reg.select t.registry).run t.env t.body s).map fun o =>
      ⟨.ok (), { o.state with heap := o.state.heap.countTick r }⟩ := by
  have hheap : EvalM.getHeap s = .ended ⟨.ok s.heap, s⟩ := rfl
  rw [tick, EvalM.bind_of_ok hheap, ht]
  simp only [hcancelled, Bool.false_eq_true, if_false]
  rw [EvalM.bind_attempt]
  cases (reg.select t.registry).run t.env t.body s <;> rfl

theorem ticks_of_cancelled (ht : s.heap.native r = .timer t) (hcancelled : t.cancelled = true)
    (n : Nat) : reg.ticks r n s = .ended ⟨.ok (), s⟩ := by
  induction n with
  | zero => rfl
  | succ n ih => rw [ticks, EvalM.bind_of_ok (tick_of_cancelled ht hcancelled), ih]

/-- A tick of a running timer is one evaluation of its body, which may cancel the timer. -/
theorem run_of_tick (hreg : reg.AllBuiltin) (hhost : reg.OnlyCancels r)
    (ht : s.heap.native r = .timer t) (hcancelled : t.cancelled = false) {o : Outcome Unit}
    (h : reg.tick r s = .ended o) :
    ∃ es u, o.result = .ok () ∧ o.state.heap.native r = .timer u ∧
      Run ⟨t, .waiting⟩ es ⟨u, .waiting⟩ ∧ es.countP Event.isFinish = 1 := by
  rw [tick_of_not_cancelled ht hcancelled] at h
  obtain ⟨o', hrun, rfl⟩ := Course.map_eq_ended h
  rcases hasTimer_run (hreg.select t.registry) hhost ht hrun with ht' | ht'
  · refine ⟨[.start, .finish o'.result], t.countTick, rfl, Heap.native_countTick ht', ?_, rfl⟩
    exact .cons (.start hcancelled) (.single (.finish t _))
  · refine ⟨[.start, .cancel (t.messages < t.cancel.messages), .finish o'.result],
      t.cancel.countTick, rfl, Heap.native_countTick ht', ?_, rfl⟩
    exact .cons (.start hcancelled) (.cons (.cancel t _) (.single (.finish t.cancel _)))

/-- The ticks of the interpreter are a run. All of them complete, or the timer is cancelled
before. -/
theorem run_of_ticks (hreg : reg.AllBuiltin) (hhost : reg.OnlyCancels r) {n : Nat}
    (ht : s.heap.native r = .timer t) {o : Outcome Unit} (h : reg.ticks r n s = .ended o) :
    ∃ es u, Run ⟨t, .waiting⟩ es u ∧ o.state.heap.native r = .timer u.timer ∧
      (u.thread = .waiting ∧ es.countP Event.isFinish = n ∨
        u.thread = .stopped ∧ u.timer.cancelled = true ∧ es.countP Event.isFinish < n) := by
  induction n generalizing s t with
  | zero =>
    obtain rfl := Course.ended.inj h
    exact ⟨[], ⟨t, .waiting⟩, .nil _, ht, .inl ⟨rfl, rfl⟩⟩
  | succ n ih =>
    cases hcancelled : t.cancelled with
    | true =>
      rw [ticks_of_cancelled ht hcancelled] at h
      obtain rfl := Course.ended.inj h
      have hrun : Run ⟨t, .waiting⟩ [.giveUp] ⟨t, .stopped⟩ := .single (.giveUp hcancelled)
      exact ⟨_, _, hrun, ht, .inr ⟨rfl, hcancelled, Nat.succ_pos n⟩⟩
    | false =>
      rw [ticks] at h
      cases htick : reg.tick r s with
      | crashed s' =>
        rw [EvalM.bind_of_crashed htick] at h
        cases h
      | tooDeep =>
        rw [EvalM.bind_of_tooDeep htick] at h
        cases h
      | ended o' =>
        obtain ⟨es, t', hok, ht', hrun, hone⟩ := run_of_tick hreg hhost ht hcancelled htick
        obtain ⟨result, s'⟩ := o'
        obtain rfl : result = .ok () := hok
        rw [EvalM.bind_of_ok htick] at h
        obtain ⟨fs, u, hrest, hu, hcount⟩ := ih ht' h
        refine ⟨es ++ fs, u, run_append.2 ⟨_, hrun, hrest⟩, hu, ?_⟩
        rw [List.countP_append, hone, Nat.add_comm 1]
        exact hcount.imp (fun ⟨hthread, hn⟩ => ⟨hthread, congrArg (· + 1) hn⟩)
          fun ⟨hthread, hstopped, hn⟩ => ⟨hthread, hstopped, Nat.succ_lt_succ hn⟩

end Registry

open Scheduled in
/-- In every run of a new timer the ticks are the completed evaluations of its body, failed ones
included, as far as 64 bits can count them, and at most one message is sent. Once it was cancelled
it stays so, no evaluation of the body starts, and the ticks grow at most by the evaluation in
progress. What the interpreter does when it lets a timer tick is a run. -/
theorem timer_counts_and_stops :
    (∀ period body env registry es s, Run (.new period body env registry) es s →
      s.timer.ticks.toNat = es.countP Event.isFinish % 2 ^ 64 ∧ es.countP Event.isSend ≤ 1 ∧
      ∀ before sends after, es = before ++ .cancel sends :: after →
        s.timer.cancelled = true ∧ .start ∉ after ∧
        ∃ mid, Run (.new period body env registry) before mid ∧
          Run mid (.cancel sends :: after) s ∧
          ∃ n ≤ mid.inProgress, s.timer.ticks = mid.timer.ticks + UInt64.ofNat n) ∧
    ∀ (reg : Registry) r n s t o, reg.AllBuiltin → reg.OnlyCancels r →
      s.heap.native r = .timer t → reg.ticks r n s = .ended o →
      ∃ es u, Run ⟨t, .waiting⟩ es u ∧ o.state.heap.native r = .timer u.timer ∧
        (u.thread = .waiting ∧ es.countP Event.isFinish = n ∨
          u.thread = .stopped ∧ u.timer.cancelled = true ∧ es.countP Event.isFinish < n) := by
  refine ⟨fun period body env registry es s h => ⟨?_, h.countP_isSend_le, ?_⟩,
    fun reg r n s t o hreg hhost ht h => Registry.run_of_ticks hreg hhost ht h⟩
  · rw [h.ticks, new, UInt64.zero_add, UInt64.toNat_ofNat']
  · rintro before sends after rfl
    obtain ⟨mid, hbefore, hafter⟩ := run_append.1 h
    have hticks := hafter.ticks
    cases hafter with
    | cons hstep hrest =>
      cases hstep with
      | cancel t thread =>
        obtain ⟨hcancelled, hstart, hfinish⟩ := hrest.of_cancelled t.cancelled_cancel
        refine ⟨hcancelled, hstart, ⟨t, thread⟩, hbefore, .cons (.cancel t thread) hrest, ?_⟩
        rw [List.countP_cons_of_neg (by simp [Event.isFinish])] at hticks
        exact ⟨_, hfinish, hticks⟩

/-! ## A timer that cancels itself -/

namespace SelfCancelling

/-- Cancels the timer and then fails. -/
def body : Json :=
  .object [("sequence", .array [.object [("do", .array [.string "$.t", .string "cancel"])],
    .string "1 / 0"])]

def start : State :=
  { heap := { maps := #[.ofList [("t", .native ⟨0⟩)]]
              natives := #[.timer { period := 1000000000, body, env := ⟨0⟩, registry := ⟨0⟩ }] } }

open Scheduled in
/-- The evaluation in which the timer is cancelled counts, although it fails, and is the last. -/
theorem ticks_body :
    ∃ o es u, Registry.builtin.ticks ⟨0⟩ 3 start = .ended o ∧
      Run (.new 1000000000 body ⟨0⟩ ⟨0⟩) es u ∧ o.state.heap.native ⟨0⟩ = .timer u.timer ∧
      u.timer.cancelled = true ∧ u.timer.ticks = 1 ∧ es.countP Event.isFinish = 1 := by
  have hhost : Registry.builtin.OnlyCancels ⟨0⟩ := nofun
  have hticks :
      (Registry.builtin.ticks ⟨0⟩ 3 start).outcome?.map (·.state.heap.native ⟨0⟩) =
        some (.timer { period := 1000000000, body, env := ⟨0⟩, registry := ⟨0⟩
                       cancelled := true, ticks := 1, messages := 1 }) := by
    rfl
  obtain ⟨o, h, hnative⟩ := Course.exists_of_outcome?_map hticks
  obtain ⟨es, u, hrun, hu, hfinishes⟩ :=
    timer_counts_and_stops.2 .builtin ⟨0⟩ 3 start _ o (fun _ => rfl) hhost rfl h
  obtain ⟨hcount, -⟩ := timer_counts_and_stops.1 1000000000 body ⟨0⟩ ⟨0⟩ es u hrun
  have htimer := Native.timer.inj (hu.symm.trans hnative)
  have hone : u.timer.ticks.toNat = 1 := by rw [htimer]; rfl
  refine ⟨o, es, u, h, hrun, hu, ?_, ?_, ?_⟩
  · rw [htimer]
  · rw [htimer]
  · omega

end SelfCancelling

end Sigil
