import Sigil.Operators.Builtin
import Sigil.Proofs.Uniformity

/-!
# Operators are uniform in the evaluator

Operators evaluate their operands with the evaluator of the scope and do everything else by
commands. So a uniform relation passes from what an operator evaluates to the operator
(`Uniform.builtin`); for the operators that only read (`Operators.readers`) it is enough that
reading keeps the invariant. Only calls go beyond the operands, to the bodies of closures
(`Uniform.invoke`).
-/

namespace Sigil

namespace Arity

/-- How many operands there are at least. -/
def least : Arity → Nat
  | .any => 0
  | .exactly n => n
  | .between least _ => least

theorem least_le_of_check {operator : String} {arity : Arity} {n : Nat}
    (h : arity.check operator n = .ok ()) : arity.least ≤ n := by
  unfold check at h
  split at h
  · exact Nat.zero_le _
  · split_ifs at h with heq
    exact Nat.le_of_eq heq.symm
  · split_ifs at h with hlt
    exact Nat.le_of_not_lt hlt

end Arity

namespace Operators

/-- The operators that only read and allocate. -/
def readers : List String :=
  ["get", "function", "when", "plus", "minus", "multiply", "divide", "mod", "compare", "is", "not",
    "in", "regexp", "format", "len", "reverse", "now"]

/-- The keys and the default are among the operands after a path. -/
theorem forall_splitDefault {p : Operand → Prop} {args : List Operand}
    (hargs : ∀ o ∈ args, p o) :
    (∀ o ∈ (splitDefault args).1, p o) ∧ ∀ o ∈ (splitDefault args).2, p o := by
  fun_induction splitDefault args with
  | case1 => simp
  | case2 o ho => simpa using hargs
  | case3 o ho => simpa using hargs
  | case4 o rest hrest keys default? heq ih =>
    rw [List.forall_mem_cons] at hargs
    obtain ⟨hkeys, hdefault⟩ := ih hargs.2
    rw [heq] at hkeys hdefault
    exact ⟨List.forall_mem_cons.2 ⟨hargs.1, hkeys⟩, hdefault⟩

theorem forall_writeSlot {p : Value → Prop} (hnull : p .null) {xs : List Value}
    (hxs : ∀ x ∈ xs, p x) (i : Nat) {v : Value} (hv : p v) : ∀ x ∈ writeSlot xs i v, p x := by
  intro x hx
  rcases List.mem_or_eq_of_mem_set hx with hx | rfl
  · rcases List.mem_append.1 hx with hx | hx
    · exact hxs x hx
    · exact List.eq_of_mem_replicate hx ▸ hnull
  · exact hv

end Operators

namespace Uniform

variable {I : State → Prop} {E : EvalError → Prop}
  {R : (α : Type) → (α → Prop) → EvalM α → EvalM α → Prop} (hR : Uniform I E R) {V : Value → Prop}
  {G : RegistryRef → Prop} {sc : Scope} (hsc : sc.Within V G) {ev : RegistryRef → Evaluator}
  {P : Json → Prop}
  (hev : ∀ form, P form → R Value V (sc.evaluate sc.env form) (ev sc.registry sc.env form))
  {args : List Operand}

include hR

section Reading

variable (hI : Readable I V G)

/-! ## Arithmetic -/

theorem toInts (vs : List Value) :
    R (List Int64) (fun ns => ns.length = vs.length) (Operators.toInts vs)
      (Operators.toInts vs) := by
  induction vs with
  | nil => exact hR.pure rfl
  | cons v rest ih =>
    refine hR.bind (hR.toInt v) fun _ _ => hR.bind ih fun _ hlen => ?_
    exact hR.pure (congrArg (· + 1) hlen)

include hev

theorem intOperands (hargs : ∀ o ∈ args, P o.raw) :
    R (List Int64) (fun ns => ns.length = args.length) (Operators.intOperands sc args)
      (Operators.intOperands (sc.under ev) args) :=
  hR.bind (hR.evalAll hev hargs) fun vs hvs => hvs.1 ▸ hR.toInts vs

include hI

theorem plus (hargs : ∀ o ∈ args, P o.raw) :
    R Value V (Operators.plus sc args) (Operators.plus (sc.under ev) args) :=
  hR.bind (hR.intOperands hev hargs) fun _ _ => hR.pure (hI.plain rfl)

theorem multiply (hargs : ∀ o ∈ args, P o.raw) :
    R Value V (Operators.multiply sc args) (Operators.multiply (sc.under ev) args) :=
  hR.bind (hR.intOperands hev hargs) fun _ _ => hR.pure (hI.plain rfl)

theorem minus (hlen : 1 ≤ args.length) (hargs : ∀ o ∈ args, P o.raw) :
    R Value V (Operators.minus sc args) (Operators.minus (sc.under ev) args) := by
  refine hR.bind (hR.intOperands hev hargs) fun ns hns => ?_
  cases ns with
  | nil => exact absurd (hns ▸ hlen) (by simp)
  | cons n rest => exact hR.pure (hI.plain rfl)

theorem dividing (op : Int64 → Int64 → Int64) (hlen : 1 ≤ args.length)
    (hargs : ∀ o ∈ args, P o.raw) :
    R Value V (Operators.dividing op sc args) (Operators.dividing op (sc.under ev) args) := by
  refine hR.bind (hR.intOperands hev hargs) fun ns hns => ?_
  cases ns with
  | nil => exact absurd (hns ▸ hlen) (by simp)
  | cons n rest =>
    dsimp only
    split
    · exact hR.pure (hI.plain rfl)
    · exact hR.throw rfl

theorem compare (hlen : 3 ≤ args.length) (hargs : ∀ o ∈ args, P o.raw) :
    R Value V (Operators.compare sc args) (Operators.compare (sc.under ev) args) := by
  match args, hlen, hargs with
  | relation :: left :: right :: rest, _, hargs =>
    refine hR.bind (hR.literal _ _ _) fun symbol _ => ?_
    split
    · exact hR.throw rfl
    · refine hR.bind (hev _ (hargs left (by simp))) fun _ _ => ?_
      refine hR.bind (hev _ (hargs right (by simp))) fun _ _ => ?_
      refine hR.bind (hR.toInt _) fun _ _ => hR.bind (hR.toInt _) fun _ _ => ?_
      exact hR.pure (hI.plain rfl)
  | [], hlen, _ => exact absurd hlen (by simp)
  | [_], hlen, _ => exact absurd hlen (by simp)
  | [_, _], hlen, _ => exact absurd hlen (by simp)

/-! ## Predicates, sizes, templates and branches -/

theorem is (hlen : 2 ≤ args.length) (hargs : ∀ o ∈ args, P o.raw) :
    R Value V (Operators.is sc args) (Operators.is (sc.under ev) args) := by
  match args, hlen, hargs with
  | left :: right :: rest, _, hargs =>
    refine hR.bind (hev _ (hargs left (by simp))) fun _ _ => ?_
    refine hR.bind (hev _ (hargs right (by simp))) fun _ _ => ?_
    exact hR.bind hR.getHeap fun _ _ => hR.pure (hI.plain rfl)
  | [], hlen, _ => exact absurd hlen (by simp)
  | [_], hlen, _ => exact absurd hlen (by simp)

theorem not (hlen : 2 ≤ args.length) (hargs : ∀ o ∈ args, P o.raw) :
    R Value V (Operators.not sc args) (Operators.not (sc.under ev) args) := by
  match args, hlen, hargs with
  | left :: right :: rest, _, hargs =>
    refine hR.bind (hev _ (hargs left (by simp))) fun _ _ => ?_
    refine hR.bind (hev _ (hargs right (by simp))) fun _ _ => ?_
    exact hR.bind hR.getHeap fun _ _ => hR.pure (hI.plain rfl)
  | [], hlen, _ => exact absurd hlen (by simp)
  | [_], hlen, _ => exact absurd hlen (by simp)

omit hI in
theorem anyFits (v : Value) (hargs : ∀ o ∈ args, P o.raw) :
    R Bool (fun _ => True) (Operators.anyFits sc v args)
      (Operators.anyFits (sc.under ev) v args) := by
  induction args with
  | nil => exact hR.pure trivial
  | cons o rest ih =>
    rw [List.forall_mem_cons] at hargs
    refine hR.bind (hev _ hargs.1) fun _ _ => hR.bind hR.getHeap fun _ _ => ?_
    exact ite (hR.pure trivial) (ih hargs.2)

theorem isIn (hlen : 1 ≤ args.length) (hargs : ∀ o ∈ args, P o.raw) :
    R Value V (Operators.isIn sc args) (Operators.isIn (sc.under ev) args) := by
  cases args with
  | nil => exact absurd hlen (by simp)
  | cons o rest =>
    rw [List.forall_mem_cons] at hargs
    refine hR.bind (hev _ hargs.1) fun v _ => hR.bind (hR.anyFits hev v hargs.2) fun _ _ => ?_
    exact hR.pure (hI.plain rfl)

theorem regexp (hlen : 1 ≤ args.length) (hargs : ∀ o ∈ args, P o.raw) :
    R Value V (Operators.regexp sc args) (Operators.regexp (sc.under ev) args) := by
  cases args with
  | nil => exact absurd hlen (by simp)
  | cons o rest =>
    refine hR.bind (hev _ (hargs o (by simp))) fun v _ => ?_
    cases v with
    | string source =>
      dsimp only
      split
      · exact hR.pure (hI.plain rfl)
      · exact hR.throw rfl
    | _ => exact hR.bind (hR.kindOf _) fun _ _ => hR.throw rfl

theorem format (hlen : 1 ≤ args.length) (hargs : ∀ o ∈ args, P o.raw) :
    R Value V (Operators.format sc args) (Operators.format (sc.under ev) args) := by
  cases args with
  | nil => exact absurd hlen (by simp)
  | cons o rest =>
    rw [List.forall_mem_cons] at hargs
    refine hR.bind (hR.literal _ _ _) fun _ _ => hR.bind (hR.evalAll hev hargs.2) fun _ _ => ?_
    exact hR.bind hR.getHeap fun _ _ => hR.pure (hI.plain rfl)

theorem len (hlen : 1 ≤ args.length) (hargs : ∀ o ∈ args, P o.raw) :
    R Value V (Operators.len sc args) (Operators.len (sc.under ev) args) := by
  cases args with
  | nil => exact absurd hlen (by simp)
  | cons o rest =>
    refine hR.bind (hev _ (hargs o (by simp))) fun v _ => hR.bind hR.getHeap fun _ _ => ?_
    cases v with
    | list | map | string => exact hR.pure (hI.plain rfl)
    | _ => exact hR.mismatch _ _

theorem reverse (hlen : 1 ≤ args.length) (hargs : ∀ o ∈ args, P o.raw) :
    R Value V (Operators.reverse sc args) (Operators.reverse (sc.under ev) args) := by
  cases args with
  | nil => exact absurd hlen (by simp)
  | cons o rest =>
    refine hR.bind (hev _ (hargs o (by simp))) fun v hv => ?_
    cases v with
    | list r =>
      refine hR.bind hR.getHeap fun h ⟨s, hs, hh⟩ => hR.newList hI fun x hx => ?_
      exact hI.element hs hv (hh ▸ List.mem_reverse.1 hx)
    | _ => exact hR.mismatch _ _

theorem firstTrue (total : Nat) (hargs : ∀ o ∈ args, P o.raw) :
    R Value V (Operators.firstTrue sc total args)
      (Operators.firstTrue (sc.under ev) total args) := by
  fun_induction Operators.firstTrue sc total args with
  | case1 => exact hR.throw rfl
  | case2 condition =>
    refine hR.bind (hev _ (hargs condition (by simp))) fun v _ => ?_
    split
    · exact hR.pure (hI.plain rfl)
    · exact hR.throw rfl
    · exact hR.mismatch _ _
  | case3 condition branch rest ih =>
    refine hR.bind (hev _ (hargs condition (by simp))) fun v _ => ?_
    split
    · exact hev _ (hargs branch (by simp))
    · exact ih fun o ho => hargs o (by simp [ho])
    · exact hR.mismatch _ _

theorem when_ (hargs : ∀ o ∈ args, P o.raw) :
    R Value V (Operators.when_ sc args) (Operators.when_ (sc.under ev) args) :=
  hR.firstTrue hev hI _ hargs

/-! ## Reading through paths and making functions -/

theorem follow {keys : List Operand} (hkeys : ∀ o ∈ keys, P o.raw) {v : Value} (hv : V v) :
    R Value V (Operators.follow sc keys v) (Operators.follow (sc.under ev) keys v) := by
  induction keys generalizing v with
  | nil => exact hR.pure hv
  | cons o rest ih =>
    rw [List.forall_mem_cons] at hkeys
    refine hR.bind (hev _ hkeys.1) fun key _ => hR.bind (hR.member? hI hv key) fun _ hnext => ?_
    exact ih hkeys.2 (hI.getD_null hnext)

theorem evalDefault {default? : Option Operand} (hdefault : ∀ o ∈ default?, P o.raw) :
    R Value V (Operators.evalDefault sc default?)
      (Operators.evalDefault (sc.under ev) default?) := by
  cases default? with
  | none => exact hR.pure (hI.plain rfl)
  | some o => exact hev _ (hdefault o rfl)

include hsc

theorem get {path : Operand} (hpath : Located P path) (hargs : ∀ o ∈ args, P o.raw) :
    R Value V (Operators.get sc (path :: args)) (Operators.get (sc.under ev) (path :: args)) := by
  obtain ⟨hkeys, hdefault⟩ := Operators.forall_splitDefault hargs
  refine hR.bind (hR.evalDefault hev hI hdefault) fun fallback hfallback => ?_
  refine hR.bind (hR.resolve hI hsc hev hpath) fun location hlocation => ?_
  have hread : R Value V
      (location.read >>= fun start =>
        Operators.follow sc (Operators.splitDefault args).1 (start.getD .null) >>= fun v =>
          Pure.pure (if v.isNull then fallback else v))
      (location.read >>= fun start =>
        Operators.follow (sc.under ev) (Operators.splitDefault args).1 (start.getD .null) >>=
          fun v => Pure.pure (if v.isNull then fallback else v)) := by
    refine hR.bind (hR.locationRead hI hlocation) fun _ hstart => ?_
    refine hR.bind (hR.follow hev hI hkeys (hI.getD_null hstart)) fun v hv => hR.pure ?_
    split
    · exact hfallback
    · exact hv
  cases location with
  | notFound => exact hR.pure hfallback
  | _ => exact hread

omit hsc hev hI in
theorem names (role : String) (o : Operand) :
    R (List String) (fun _ => True) (Operators.names role o) (Operators.names role o) := by
  unfold Operators.names
  split
  · exact hR.pure trivial
  · exact hR.throw rfl

omit hsc hI in
theorem captureAll {names : List String} (hnames : ∀ name ∈ names, P (.string ("$." ++ name))) :
    R (List (String × Value)) (fun fixed => ∀ e ∈ fixed, V e.2) (Operators.captureAll sc names)
      (Operators.captureAll (sc.under ev) names) := by
  induction names with
  | nil => exact hR.pure fun _ he => nomatch he
  | cons name rest ih =>
    rw [List.forall_mem_cons] at hnames
    refine hR.bind (hev _ hnames.1) fun _ hv => hR.bind (ih hnames.2) fun _ hvs => ?_
    exact hR.pure (List.forall_mem_cons.2 ⟨hv, hvs⟩)

/-- The property holds of the paths that making a function reads for the names in an operand. -/
def Captured (P : Json → Prop) (o : Operand) : Prop :=
  ∀ ns, Operators.names? o.raw = some ns → ∀ name ∈ ns, P (.string ("$." ++ name))

omit hsc hI in
theorem captureFixed (hargs : ∀ o ∈ args, Captured P o) :
    R (List (String × Value)) (fun fixed => ∀ e ∈ fixed, V e.2) (Operators.captureFixed sc args)
      (Operators.captureFixed (sc.under ev) args) := by
  cases args with
  | nil => exact hR.pure fun _ he => nomatch he
  | cons o rest =>
    simp only [Operators.captureFixed, Operators.names]
    cases hnames : Operators.names? o.raw with
    | none => exact hR.throw rfl
    | some ns => exact hR.captureAll hev (hargs o (by simp) ns hnames)

theorem function (hlen : 2 ≤ args.length) (hargs : ∀ o ∈ args, Captured P o) :
    R Value V (Operators.function sc args) (Operators.function (sc.under ev) args) := by
  match args, hlen, hargs with
  | params :: body :: rest, _, hargs =>
    refine hR.bind (hR.names _ params) fun _ _ => ?_
    refine hR.bind (hR.captureFixed hev fun o ho => hargs o (by simp [ho])) fun fixed hfixed => ?_
    refine hR.bind (Q := fun r => V (.closure r))
      (hR.onHeap fun s hs => hI.newClosure hs hsc.env hsc.registry hfixed) fun _ hr => hR.pure hr
  | [], hlen, _ => exact absurd hlen (by simp)
  | [_], hlen, _ => exact absurd hlen (by simp)

end Reading

section Writing

variable (hI : Writable I V G)

/-! ## Printing and time -/

theorem resultIn_period (h : Heap) (v : Value) :
    ResultIn E (fun _ => True) (Operators.period h v) := by
  unfold Operators.period
  dsimp only
  split
  · exact hR.own rfl
  · split
    · exact hR.own rfl
    · split_ifs
      · exact hR.own rfl
      · trivial

include hev hI

theorem print (hargs : ∀ o ∈ args, P o.raw) :
    R Value V (Operators.print sc args) (Operators.print (sc.under ev) args) := by
  refine hR.bind (hR.evalAll hev hargs) fun _ _ => hR.bind hR.getHeap fun _ _ => ?_
  exact hR.bind (hR.modifyState fun _ hs => hI.sameHeap hs rfl) fun _ _ => hR.pure (hI.plain rfl)

theorem timer (hlen : 2 ≤ args.length) (hargs : ∀ o ∈ args, P o.raw) :
    R Value V (Operators.timer sc args) (Operators.timer (sc.under ev) args) := by
  match args, hlen, hargs with
  | seconds :: body :: rest, _, hargs =>
    refine hR.bind (hev _ (hargs seconds (by simp))) fun _ _ => hR.bind hR.getHeap fun _ _ => ?_
    refine hR.bind (Q := fun _ => True) (hR.ofExcept (hR.resultIn_period _ _)) fun _ _ => ?_
    refine hR.bind (hev _ (hargs body (by simp))) fun _ _ => ?_
    exact hR.bind (Q := fun r => V (.native r)) (hR.onHeap fun _ hs => hI.newTimer _ hs)
      fun _ hr => hR.pure hr
  | [], hlen, _ => exact absurd hlen (by simp)
  | [_], hlen, _ => exact absurd hlen (by simp)

/-! ## Sequences -/

section Slots

omit hev

variable {env : MapRef} (henv : V (.map env))

include henv

theorem slots :
    R ListRef (fun r => V (.list r)) (Operators.slots env) (Operators.slots env) := by
  refine hR.bind (hR.envGet? hI.toReadable henv _) fun v hv => ?_
  split
  · exact hR.pure (hv _ rfl)
  · refine hR.bind (Q := fun r => V (.list r))
      (hR.onHeap fun _ hs => hI.newList hs fun _ hx => nomatch hx) fun r hr => ?_
    exact hR.bind (hR.envSet hI henv _ hr) fun _ _ => hR.pure hr

theorem slotCount :
    R Nat (fun _ => True) (Operators.slotCount env) (Operators.slotCount env) :=
  hR.bind (hR.slots hI henv) fun _ _ => hR.bind hR.getHeap fun _ _ => hR.pure trivial

theorem record (start : Nat) {v : Value} (hv : V v) :
    R Unit (fun _ => True) (Operators.record env start v) (Operators.record env start v) := by
  refine ite (hR.pure trivial) (hR.bind (hR.envSet hI henv _ hv) fun _ _ => ?_)
  refine hR.bind (hR.slots hI henv) fun r hr => hR.modifyHeap fun s hs => ?_
  refine hI.setList hs hr (Operators.forall_writeSlot (hI.plain rfl) (fun x hx => ?_) start hv)
  exact hI.element hs hr hx

theorem exitRequested :
    R Bool (fun _ => True) (Operators.exitRequested env) (Operators.exitRequested env) := by
  refine hR.bind (hR.envGet? hI.toReadable henv _) fun v _ => ?_
  split <;> exact hR.pure trivial

end Slots

include hsc

omit hev in
theorem exit (args : List Operand) :
    R Value V (Operators.exit sc args) (Operators.exit (sc.under ev) args) :=
  hR.bind (hR.envSet hI hsc.env _ (hI.plain rfl)) fun _ _ => hR.pure (hI.plain rfl)

theorem runForms (start : Nat) (hargs : ∀ o ∈ args, P o.raw) :
    R Unit (fun _ => True) (Operators.runForms sc start args)
      (Operators.runForms (sc.under ev) start args) := by
  induction args with
  | nil => exact hR.pure trivial
  | cons o rest ih =>
    rw [List.forall_mem_cons] at hargs
    refine hR.bind (hev _ hargs.1) fun v hv => hR.bind (hR.record hI hsc.env start hv) fun _ _ => ?_
    exact hR.bind (hR.exitRequested hI hsc.env) fun _ _ => ite (hR.pure trivial) (ih hargs.2)

theorem sequence (hargs : ∀ o ∈ args, P o.raw) :
    R Value V (Operators.sequence sc args) (Operators.sequence (sc.under ev) args) := by
  refine hR.bind (hR.slotCount hI hsc.env) fun start _ => ?_
  refine hR.bind (hR.attempt (hR.runForms hsc hev hI start hargs)) fun outcome houtcome => ?_
  refine hR.bind (hR.slots hI hsc.env) fun r hr => ?_
  refine hR.bind (hR.modifyHeap fun s hs => hI.setList hs hr fun x hx => ?_) fun _ _ => ?_
  · exact hI.element hs hr (List.mem_of_mem_take hx)
  · refine hR.bind (hR.ofExcept houtcome) fun _ _ => ?_
    refine hR.bind (hR.envGet? hI.toReadable hsc.env _) fun _ hv => hR.pure (hI.getD_null hv)

/-! ## Iteration -/

section Items

omit hev

theorem bindItem (var : String) (i : Nat) {x : Value} (hx : V x) :
    R Unit (fun _ => True) (Operators.bindItem sc.env var i x)
      (Operators.bindItem sc.env var i x) :=
  hR.bind (hR.envSet hI hsc.env var hx) fun _ _ => hR.envSet hI hsc.env _ (hI.plain rfl)

theorem unbindItem (var : String) :
    R Unit (fun _ => True) (Operators.unbindItem sc.env var) (Operators.unbindItem sc.env var) :=
  hR.bind (hR.envRemove hI hsc.env var) fun _ _ => hR.envRemove hI hsc.env _

theorem unbindAfter (var : String) (items : List Value) :
    R Unit (fun _ => True) (Operators.unbindAfter sc.env var items)
      (Operators.unbindAfter sc.env var items) :=
  ite (hR.pure trivial) (hR.unbindItem hsc hI var)

omit hsc

omit hI in
theorem keepIf (test : Operand) {x : Value} (hx : V x) (result : Value) :
    R (List Value) (fun xs => ∀ x ∈ xs, V x) (Operators.keepIf test x result)
      (Operators.keepIf test x result) := by
  unfold Operators.keepIf
  split
  · exact hR.pure (List.forall_mem_singleton.2 hx)
  · exact hR.pure fun _ hx => nomatch hx
  · exact hR.mismatch _ _

omit hI in
theorem itemVariable (name : String) (rest : List Operand) :
    R String (fun _ => True) (Operators.itemVariable name rest)
      (Operators.itemVariable name rest) := by
  cases rest with
  | nil => exact hR.pure trivial
  | cons o _ => exact hR.literal _ _ o

theorem admitKey (kind : String) (capacity : Nat) (key : String) :
    R Bool (fun _ => True) (Operators.admitKey kind capacity key)
      (Operators.admitKey kind capacity key) :=
  hR.command (fun s => (.ok (s.windows.accept kind capacity key).1,
    { s with windows := (s.windows.accept kind capacity key).2 })) fun _ hs =>
      ⟨hI.sameHeap hs rfl, trivial⟩

omit hI in
theorem uniqueKind (v : Value) :
    R String (fun _ => True) (Operators.uniqueKind v) (Operators.uniqueKind v) := by
  cases v with
  | string s => exact hR.pure trivial
  | _ => exact hR.bind (hR.kindOf _) fun _ _ => hR.throw rfl

omit hI in
theorem uniqueCapacity (v : Value) :
    R Nat (fun _ => True) (Operators.uniqueCapacity v) (Operators.uniqueCapacity v) := by
  cases v with
  | int n => exact ite (hR.pure trivial) (hR.bind hR.getHeap fun _ _ => hR.throw rfl)
  | _ => exact hR.bind hR.getHeap fun _ _ => hR.throw rfl

theorem uniqueSource {v : Value} (hv : V v) :
    R (List Value) (fun xs => ∀ x ∈ xs, V x) (Operators.uniqueSource v)
      (Operators.uniqueSource v) := by
  cases v with
  | list r =>
    refine hR.bind hR.getHeap fun h ⟨s, hs, hh⟩ => hR.pure fun x hx => ?_
    exact hI.element hs hv (hh ▸ hx)
  | _ => exact hR.mismatch _ _

theorem keepNew (kind : String) (capacity : Nat) {x : Value} (hx : V x) (result : Value) :
    R (List Value) (fun xs => ∀ x ∈ xs, V x) (Operators.keepNew kind capacity x result)
      (Operators.keepNew kind capacity x result) := by
  refine hR.bind hR.getHeap fun _ _ => hR.bind (hR.admitKey hI kind capacity _) fun admitted _ => ?_
  refine hR.pure ?_
  cases admitted with
  | true => exact List.forall_mem_singleton.2 hx
  | false => exact fun _ hx => nomatch hx

end Items

theorem iterate (var : String) {body : Operand} (hbody : P body.raw)
    {keep : Value → Value → EvalM (List Value)}
    (hkeep : ∀ x result, V x → V result →
      R (List Value) (fun xs => ∀ x ∈ xs, V x) (keep x result) (keep x result)) (i : Nat)
    {items : List Value} (hitems : ∀ x ∈ items, V x) :
    R (List Value) (fun xs => ∀ x ∈ xs, V x) (Operators.iterate sc var body keep i items)
      (Operators.iterate (sc.under ev) var body keep i items) := by
  induction items generalizing i with
  | nil => exact hR.pure fun _ hx => nomatch hx
  | cons x rest ih =>
    rw [List.forall_mem_cons] at hitems
    refine hR.bind (hR.bindItem hsc hI var i hitems.1) fun _ _ => ?_
    refine hR.bind (hev _ hbody) fun result hresult => ?_
    refine hR.bind (hkeep x result hitems.1 hresult) fun _ hkept => ?_
    refine hR.bind (ih (i + 1) hitems.2) fun _ hmore => hR.pure ?_
    exact List.forall_mem_append.2 ⟨hkept, hmore⟩

theorem iteration (name : String) {keep : Operand → Value → Value → EvalM (List Value)}
    (hkeep : ∀ o x result, V x → V result →
      R (List Value) (fun xs => ∀ x ∈ xs, V x) (keep o x result) (keep o x result))
    {finish : List Value → EvalM Value}
    (hfinish : ∀ xs, (∀ x ∈ xs, V x) → R Value V (finish xs) (finish xs))
    (hlen : 2 ≤ args.length) (hargs : ∀ o ∈ args, P o.raw) :
    R Value V (Operators.iteration name keep finish sc args)
      (Operators.iteration name keep finish (sc.under ev) args) := by
  match args, hlen, hargs with
  | source :: body :: rest, _, hargs =>
    refine hR.bind (hR.itemVariable name rest) fun var _ => ?_
    refine hR.bind (hev _ (hargs source (by simp))) fun v hv => ?_
    refine hR.bind hR.getHeap fun h ⟨s, hs, hh⟩ => ?_
    have hitems : ∀ x ∈ v.toElements h, V x := hh ▸ hI.elements hs hv
    refine hR.bind (hR.iterate hsc hev hI var (hargs body (by simp)) (hkeep body) 0 hitems)
      fun kept hkept => ?_
    exact hR.bind (hR.unbindAfter hsc hI var _) fun _ _ => hfinish kept hkept
  | [], hlen, _ => exact absurd hlen (by simp)
  | [_], hlen, _ => exact absurd hlen (by simp)

/-- Starting a window may crash, which the relation has to allow for. -/
theorem toUnique
    (hstart : ∀ kind capacity, R Unit (fun _ => True) (Operators.startWindow kind capacity)
      (Operators.startWindow kind capacity))
    (hlen : 4 ≤ args.length) (hargs : ∀ o ∈ args, P o.raw) :
    R Value V (Operators.toUnique sc args) (Operators.toUnique (sc.under ev) args) := by
  match args, hlen, hargs with
  | kind :: key :: capacity :: source :: rest, _, hargs =>
    refine hR.bind (hev _ (hargs kind (by simp))) fun v _ => ?_
    refine hR.bind (hR.uniqueKind v) fun k _ => ?_
    refine hR.bind (hev _ (hargs capacity (by simp))) fun v _ => ?_
    refine hR.bind (hR.uniqueCapacity v) fun c _ => ?_
    refine hR.bind (hev _ (hargs source (by simp))) fun v hv => ?_
    refine hR.bind (hR.uniqueSource hI hv) fun items hitems => ?_
    refine hR.bind (hstart k c) fun _ _ => ?_
    refine hR.bind (hR.attempt (hR.iterate hsc hev hI Env.item (hargs key (by simp))
      (fun _ result hx _ => hR.keepNew hI k c hx result) 0 hitems)) fun outcome houtcome => ?_
    refine hR.bind (hR.unbindItem hsc hI Env.item) fun _ _ => ?_
    exact hR.bind (hR.ofExcept houtcome) fun xs hxs => hR.newList hI.toReadable hxs
  | [], hlen, _ => exact absurd hlen (by simp)
  | [_], hlen, _ => exact absurd hlen (by simp)
  | [_, _], hlen, _ => exact absurd hlen (by simp)
  | [_, _, _], hlen, _ => exact absurd hlen (by simp)

/-! ## Writing through paths -/

omit hsc hev in
theorem writeAt {value : Value} (hvalue : V value) {location : Location}
    (hlocation : location.Within V) :
    R Unit (fun _ => True) (Operators.writeAt value location)
      (Operators.writeAt value location) := by
  cases location with
  | slot key parent => exact ite (hR.pure trivial) (hR.assign hI hlocation key hvalue)
  | _ => exact hR.pure trivial

theorem set {path form : Operand} (hpath : Located P path) (hform : P form.raw) :
    R Value V (Operators.set sc (path :: form :: args))
      (Operators.set (sc.under ev) (path :: form :: args)) := by
  refine hR.bind (hev _ hform) fun value hvalue => ?_
  refine hR.bind (hR.resolve hI.toReadable hsc hev hpath) fun location hlocation => ?_
  exact hR.bind (hR.writeAt hI hvalue hlocation) fun _ _ => hR.pure (hI.plain rfl)

end Writing

/-! ## Calls

A call runs the body of a closure, which may be any form, under the registry and in the environment
of the closure. -/

section Calls

variable (hI : Writable I V G)
  (hall : ∀ r env form, G r ∨ form = .null → V (.map env) →
    R Value V (sc.evaluator r env form) (ev r env form))
  (hhost : ∀ s r n f, I s → V (.host r) → (s.heap.function r).action = .embedded n →
    sc.functions[n]? = some f → ∀ vs, (∀ v ∈ vs, V v) → R Value V (f vs) (f vs))

include hI hall

theorem callClosure {c : Closure} (henv : V (.map c.env))
    (hregistry : G c.registry ∨ c.body = .null) (hfixed : ∀ e ∈ c.fixed, V e.2) {vs : List Value}
    (hvs : ∀ v ∈ vs, V v) :
    R Value V (sc.callClosure c vs) ((sc.under ev).callClosure c vs) := by
  have hparams : ∀ e ∈ c.params.zip vs, V e.2 := fun e he => hvs e.2 (List.of_mem_zip he).2
  refine hR.bind (hR.envSetAll hI henv hparams) fun _ _ => ?_
  refine hR.bind (hR.envSet hI henv _ henv) fun _ _ => ?_
  refine hR.bind (hR.envSetAll hI henv hfixed) fun _ _ => ?_
  refine hR.bind (hR.attempt (hall c.registry c.env c.body hregistry henv)) fun result hresult => ?_
  refine hR.bind (hR.envRemove hI henv _) fun _ _ => ?_
  exact hR.bind (hR.envRemove hI henv _) fun _ _ => hR.ofExcept hresult

include hhost

omit hall in
theorem callHost {s : State} {r : HostRef} (hs : I s) (hr : V (.host r)) {vs : List Value}
    (hvs : ∀ v ∈ vs, V v) :
    R Value V (sc.callHost (s.heap.function r) vs)
      ((sc.under ev).callHost (s.heap.function r) vs) := by
  unfold Scope.callHost
  split
  · exact hR.bind (hR.modifyHeap fun _ hs => hI.cancel _ hs) fun _ _ => hR.pure (hI.plain rfl)
  · rename_i n haction
    dsimp only [Scope.under]
    split
    · exact hhost s r n _ hs hr haction ‹_› vs hvs
    · exact hR.pure (hI.plain rfl)

theorem call {f : Value} (hf : V f) {vs : List Value} (hvs : ∀ v ∈ vs, V v) :
    R Value V (sc.call f vs) ((sc.under ev).call f vs) := by
  cases f with
  | closure r =>
    refine hR.bind hR.getHeap fun h ⟨s, hs, hh⟩ => ?_
    obtain ⟨henv, hregistry, hfixed⟩ := hI.captured hs hf
    rw [← hh]
    exact hR.callClosure hI hall henv hregistry hfixed hvs
  | host r =>
    refine hR.bind hR.getHeap fun h ⟨s, hs, hh⟩ => ?_
    rw [← hh]
    exact hR.callHost hI hhost hs hf hvs
  | _ => exact hR.mismatch _ _

include hsc

theorem callMember (args : List Operand) {v : Value} (hv : V v) :
    R Value V (Operators.callMember sc args v) (Operators.callMember (sc.under ev) args v) := by
  have hev : ∀ form, True → R Value V (sc.evaluate sc.env form) (ev sc.registry sc.env form) :=
    fun form _ => hall sc.registry sc.env form (.inl hsc.registry) hsc.env
  induction args generalizing v with
  | nil => exact ite (hR.call hI hall hhost hv fun _ hx => nomatch hx) (hR.pure (hI.plain rfl))
  | cons o rest ih =>
    refine ite ?_ ?_
    · refine hR.bind (hR.evalAll hev fun _ _ => trivial) fun vs hvs => ?_
      exact hR.call hI hall hhost hv hvs.2
    · refine hR.bind (hev o.raw trivial) fun key _ => ?_
      refine hR.bind (hR.member? hI.toReadable hv key) fun next hnext => ?_
      cases next with
      | none => exact hR.pure (hI.plain rfl)
      | some x => exact ih (hnext x rfl)

theorem invoke (hlen : 1 ≤ args.length) :
    R Value V (Operators.invoke sc args) (Operators.invoke (sc.under ev) args) := by
  have hev : ∀ form, True → R Value V (sc.evaluate sc.env form) (ev sc.registry sc.env form) :=
    fun form _ => hall sc.registry sc.env form (.inl hsc.registry) hsc.env
  cases args with
  | nil => exact absurd hlen (by simp)
  | cons path rest =>
    have hpath : Located (fun _ => True) path := located_of_texts (fun _ => trivial) trivial
    refine hR.bind (hR.resolve hI.toReadable hsc hev hpath) fun location hlocation => ?_
    have hcall := hR.bind (hR.locationRead hI.toReadable hlocation) fun _ hstart =>
      hR.callMember hsc hI hall hhost rest (hI.getD_null hstart)
    cases location with
    | notFound => exact hR.pure (hI.plain rfl)
    | _ => exact hcall

end Calls

/-! ## The built-in operators -/

section Builtin

include hsc hev

theorem builtin (hI : Readable I V G) {op : Operator} (hop : op ∈ Operators.builtin)
    (hwrite : op.name ∉ Operators.readers → Writable I V G) (hdo : op.name ≠ "do")
    (hstart : op.name = "toUnique" → ∀ kind capacity, R Unit (fun _ => True)
      (Operators.startWindow kind capacity) (Operators.startWindow kind capacity))
    (hlen : op.arity.least ≤ args.length)
    (hargs : op.name ≠ "function" → ∀ o ∈ args, P o.raw ∧ Located P o)
    (hfixed : op.name = "function" → ∀ o ∈ args, Captured P o) :
    R Value V (op.run sc args) (op.run (sc.under ev) args) := by
  have heval (hname : op.name ≠ "function") : ∀ o ∈ args, P o.raw :=
    fun o ho => (hargs hname o ho).1
  have hget (hname : op.name ≠ "function") (hlen : 1 ≤ args.length) :
      R Value V (Operators.get sc args) (Operators.get (sc.under ev) args) := by
    cases args with
    | nil => exact absurd hlen (by simp)
    | cons path rest =>
      exact hR.get hsc hev hI (hargs hname path (by simp)).2 fun o ho =>
        heval hname o (by simp [ho])
  have hset (hname : op.name ≠ "function") (hI : Writable I V G) (hlen : 2 ≤ args.length) :
      R Value V (Operators.set sc args) (Operators.set (sc.under ev) args) := by
    match args, hlen, hargs hname with
    | path :: form :: rest, _, hargs =>
      exact hR.set hsc hev hI (hargs path (by simp)).2 (hargs form (by simp)).1
    | [], hlen, _ => exact absurd hlen (by simp)
    | [_], hlen, _ => exact absurd hlen (by simp)
  simp only [Operators.builtin, Operators.data, Operators.functions, Operators.control,
    Operators.iterations, Operators.arithmetic, Operators.predicates, Operators.templates,
    Operators.containers, Operators.schedule, List.mem_append, List.mem_cons, List.not_mem_nil,
    or_false, or_assoc] at hop
  rcases hop with rfl | rfl | rfl | rfl | rfl | rfl | rfl | rfl | rfl | rfl | rfl | rfl | rfl |
    rfl | rfl | rfl | rfl | rfl | rfl | rfl | rfl | rfl | rfl | rfl | rfl | rfl | rfl
  · exact hget (by decide) hlen
  · exact hset (by decide) (hwrite (by decide)) hlen
  · exact absurd rfl hdo
  · exact hR.function hsc hev hI hlen (hfixed rfl)
  · exact hR.sequence hsc hev (hwrite (by decide)) (heval (by decide))
  · exact hR.exit hsc (hwrite (by decide)) args
  · exact hR.when_ hev hI (heval (by decide))
  · exact hR.iteration hsc hev (hwrite (by decide)) _
      (fun _ _ _ _ _ => hR.pure (List.forall_mem_nil V)) (fun _ _ => hR.pure (hI.plain rfl))
      hlen (heval (by decide))
  · exact hR.iteration hsc hev (hwrite (by decide)) _
      (fun test _ result hx _ => hR.keepIf test hx result) (fun _ hxs => hR.newList hI hxs)
      hlen (heval (by decide))
  · exact hR.iteration hsc hev (hwrite (by decide)) _
      (fun _ _ _ _ hresult => hR.pure (List.forall_mem_singleton.2 hresult))
      (fun _ hxs => hR.newList hI hxs) hlen (heval (by decide))
  · exact hR.toUnique hsc hev (hwrite (by decide)) (hstart rfl) hlen (heval (by decide))
  · exact hR.plus hev hI (heval (by decide))
  · exact hR.minus hev hI hlen (heval (by decide))
  · exact hR.multiply hev hI (heval (by decide))
  · exact hR.dividing hev hI _ hlen (heval (by decide))
  · exact hR.dividing hev hI _ hlen (heval (by decide))
  · exact hR.compare hev hI hlen (heval (by decide))
  · exact hR.is hev hI hlen (heval (by decide))
  · exact hR.not hev hI hlen (heval (by decide))
  · exact hR.isIn hev hI hlen (heval (by decide))
  · exact hR.regexp hev hI hlen (heval (by decide))
  · exact hR.format hev hI hlen (heval (by decide))
  · exact hR.print hev (hwrite (by decide)) (heval (by decide))
  · exact hR.len hev hI hlen (heval (by decide))
  · exact hR.reverse hev hI hlen (heval (by decide))
  · exact hR.timer hev (hwrite (by decide)) hlen (heval (by decide))
  · exact hR.bind hR.getState fun _ _ => hR.pure (hI.plain rfl)

end Builtin

end Uniform

/-! ## Registries with the built-in operators -/

namespace Registry

theorem operators_registerAll (b : Bindings) (ops : List Operator) :
    (b.registerAll ops).operators = ops.reverse ++ b.operators := by
  induction ops generalizing b with
  | nil => rfl
  | cons op rest ih => simpa [Bindings.registerAll, Bindings.register] using ih (b.register op)

/-- The registry has the built-in operators and no others; what the embedder bound is free. -/
def IsBuiltin (reg : Registry) : Prop := reg.operators = builtin.operators

/-- All registries of the process have the built-in operators and no others. -/
def AllBuiltin (reg : Registry) : Prop := ∀ r, (reg.select r).IsBuiltin

theorem AllBuiltin.select {reg : Registry} (hreg : reg.AllBuiltin) (r : RegistryRef) :
    (reg.select r).AllBuiltin :=
  hreg

theorem AllBuiltin.isBuiltin {reg : Registry} (hreg : reg.AllBuiltin) : reg.IsBuiltin :=
  hreg reg.self

/-- The names of the built-in operators stand for these operators; there may be others. -/
def HasBuiltin (reg : Registry) : Prop :=
  ∀ name op, builtin.operator? name = some op → reg.operator? name = some op

theorem IsBuiltin.mem {reg : Registry} (hreg : reg.IsBuiltin) {name : String} {op : Operator}
    (hop : reg.operator? name = some op) : op ∈ Operators.builtin := by
  have hmem := List.mem_of_find?_eq_some hop
  have hbuiltin : builtin.operators = Operators.builtin.reverse ++ [] :=
    operators_registerAll {} Operators.builtin
  rw [hreg, hbuiltin] at hmem
  simpa using hmem

/-- The operators that call, make functions and start windows have no other names. -/
theorem IsBuiltin.name_eq {reg : Registry} (hreg : reg.IsBuiltin) {name : String} {op : Operator}
    (hop : reg.operator? name = some op)
    (hname : op.name = "do" ∨ op.name = "function" ∨ op.name = "toUnique") : name = op.name := by
  have haliases : ∀ op ∈ Operators.builtin,
      op.name = "do" ∨ op.name = "function" ∨ op.name = "toUnique" → op.aliases = [] := by decide
  have hnamed : op.isNamed name = true :=
    List.find?_some (p := fun o : Operator => o.isNamed name) hop
  rw [Operator.isNamed, haliases op (hreg.mem hop) hname] at hnamed
  exact (by simpa using hnamed : op.name = name).symm

theorem IsBuiltin.operator?_eq {reg : Registry} (hreg : reg.IsBuiltin) (name : String) :
    reg.operator? name = builtin.operator? name := by
  rw [operator?, hreg, operator?]

theorem IsBuiltin.hasBuiltin {reg : Registry} (hreg : reg.IsBuiltin) : reg.HasBuiltin := by
  intro name op hop
  rwa [hreg.operator?_eq]

theorem operator?_get : builtin.operator? "get" =
    some { name := "get", arity := .between 1 none, run := Operators.get } := rfl

theorem operator?_set : builtin.operator? "set" =
    some { name := "set", arity := .exactly 2, run := Operators.set } := rfl

theorem operator?_do : builtin.operator? "do" =
    some { name := "do", arity := .between 1 none, run := Operators.invoke } := rfl

theorem operator?_function : builtin.operator? "function" =
    some { name := "function", arity := .between 2 (some 3), run := Operators.function } := rfl

theorem IsBuiltin.name_function {reg : Registry} (hreg : reg.IsBuiltin) {op : Operator}
    (hop : reg.operator? "function" = some op) : op.name = "function" := by
  rw [hreg.operator?_eq, operator?_function] at hop
  rw [← Option.some.inj hop]

theorem IsBuiltin.run_do {reg : Registry} (hreg : reg.IsBuiltin) {op : Operator}
    (hop : reg.operator? "do" = some op) : op.run = Operators.invoke := by
  rw [hreg.operator?_eq, operator?_do] at hop
  rw [← Option.some.inj hop]

theorem IsBuiltin.arity_do {reg : Registry} (hreg : reg.IsBuiltin) {op : Operator}
    (hop : reg.operator? "do" = some op) : op.arity.least = 1 := by
  rw [hreg.operator?_eq, operator?_do] at hop
  rw [← Option.some.inj hop]
  rfl

end Registry

end Sigil
