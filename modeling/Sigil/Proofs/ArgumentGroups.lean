import Sigil.CommandLine

/-!
# Arguments in groups

A flag that wants a file takes the argument behind it, whatever that looks like. So arguments are
read in groups, and a list of arguments splits into groups in at most one way (`argsOf_injective`).
Reading succeeds exactly on the lists that split into groups with one program among them, and the
last file of each kind counts; the other lists fail at the first argument that does not fit
(`options_groups`).
-/

namespace Sigil.CommandLine

/-! ## Groups -/

/-- An argument that does not look like a flag. -/
@[ext]
structure Plain where
  text : String
  noFlag : ¬ ['-', '-'] <+: text.toList

/-- Arguments that are read together. -/
inductive Group where
  | env (file : String)
  | config (file : String)
  | wait
  | program (path : Plain)

inductive Kind where
  | env
  | config
  | wait
  | program
deriving DecidableEq

namespace Group

def kind : Group → Kind
  | .env _ => .env
  | .config _ => .config
  | .wait => .wait
  | .program _ => .program

/-- The arguments of the group, as they are written. -/
def args : Group → List String
  | .env file => ["--env", file]
  | .config file => ["--config", file]
  | .wait => ["--wait"]
  | .program path => [path.text]

/-- The file that the group names. -/
def file? : Group → Option String
  | .env file | .config file => some file
  | .wait => none
  | .program path => some path.text

end Group

/-- The arguments of groups one after the other. -/
def argsOf (gs : List Group) : List String := gs.flatMap Group.args

/-- The files that the groups of a kind name, from left to right. -/
def filesOf (k : Kind) (gs : List Group) : List String :=
  (gs.filter (·.kind = k)).filterMap Group.file?

/-- The options that groups ask for: they have one program, and the last one of the other files of
each kind counts. -/
structure Asks (gs : List Group) (o : Options) : Prop where
  program : filesOf .program gs = [o.program]
  env : o.env = (filesOf .env gs).getLast?
  config : o.config = (filesOf .config gs).getLast?
  wait : o.wait = true ↔ .wait ∈ gs

/-- It looks like a flag, and is none of those that there are. -/
structure IsUnknown (flag : String) : Prop where
  isFlag : ['-', '-'] <+: flag.toList
  ne_env : flag ≠ "--env"
  ne_config : flag ≠ "--config"
  ne_wait : flag ≠ "--wait"

/-- What is wrong with the arguments that are left behind groups. -/
inductive Fault (gs : List Group) : List String → UsageError → Prop
  | noProgram : filesOf .program gs = [] → Fault gs [] .noProgram
  | unexpected {first : String} {path : Plain} {rest : List String} :
      filesOf .program gs = [first] → Fault gs (path.text :: rest) (.unexpected path.text)
  | needsFile {flag : String} : (filesOf .program gs).length ≤ 1 →
      flag = "--env" ∨ flag = "--config" → Fault gs [flag] (.needsFile flag)
  | unknownFlag {flag : String} {rest : List String} : (filesOf .program gs).length ≤ 1 →
      IsUnknown flag → Fault gs (flag :: rest) (.unknownFlag flag)

theorem isFlag_iff {arg : String} : isFlag arg = true ↔ ['-', '-'] <+: arg.toList := by
  simp [isFlag, List.prefix_iff_eq_take, eq_comm]

theorem Plain.isFlag_eq (path : Plain) : isFlag path.text = false := by
  rw [← Bool.not_eq_true, isFlag_iff]
  exact path.noFlag

/-- A path is none of the flags. -/
theorem Plain.ne_of_isFlag (path : Plain) {flag : String} (hflag : isFlag flag = true) :
    path.text ≠ flag := by
  rintro rfl
  rw [path.isFlag_eq] at hflag
  cases hflag

theorem Plain.ne_env (path : Plain) : path.text ≠ "--env" := path.ne_of_isFlag (by decide)

theorem Plain.ne_config (path : Plain) : path.text ≠ "--config" := path.ne_of_isFlag (by decide)

theorem Plain.ne_wait (path : Plain) : path.text ≠ "--wait" := path.ne_of_isFlag (by decide)

theorem Group.length_args_pos (g : Group) : 0 < g.args.length := by cases g <;> simp [args]

theorem argsOf_cons (g : Group) (gs : List Group) : argsOf (g :: gs) = g.args ++ argsOf gs := rfl

theorem argsOf_append (gs gs' : List Group) : argsOf (gs ++ gs') = argsOf gs ++ argsOf gs' :=
  List.flatMap_append

theorem filesOf_append (k : Kind) (gs gs' : List Group) :
    filesOf k (gs ++ gs') = filesOf k gs ++ filesOf k gs' := by
  rw [filesOf, List.filter_append, List.filterMap_append]
  rfl

/-! ## One way to split -/

/-- The first argument tells which group it begins. -/
theorem Group.args_append_inj {g g' : Group} {rest rest' : List String}
    (heq : g.args ++ rest = g'.args ++ rest') : g = g' ∧ rest = rest' := by
  -- The flags differ from each other, and no path is one of them.
  cases g <;> cases g' <;>
    simp_all [Group.args, Plain.ext_iff, Plain.ne_env, Plain.ne_config, Plain.ne_wait,
      (Plain.ne_env _).symm, (Plain.ne_config _).symm, (Plain.ne_wait _).symm]

theorem argsOf_injective : Function.Injective argsOf := by
  intro gs
  induction gs with
  | nil =>
    intro gs' heq
    cases gs' with
    | nil => rfl
    | cons g' gs' => cases g' <;> cases heq
  | cons g gs ih =>
    intro gs' heq
    cases gs' with
    | nil => cases g <;> cases heq
    | cons g' gs' =>
      obtain ⟨rfl, hrest⟩ := Group.args_append_inj heq
      rw [ih hrest]

/-- Arguments begin with a group, or there is none at their front. -/
inductive Front : List String → Prop
  | none : Front []
  | group (g : Group) (rest : List String) : Front (g.args ++ rest)
  | lacksFile {flag : String} : flag = "--env" ∨ flag = "--config" → Front [flag]
  | unknown {flag : String} (rest : List String) : IsUnknown flag → Front (flag :: rest)

theorem front (args : List String) : Front args := by
  cases args with
  | nil => exact .none
  | cons arg rest =>
    by_cases henv : arg = "--env"
    · cases rest with
      | nil => exact .lacksFile (.inl henv)
      | cons file rest => exact henv ▸ .group (.env file) rest
    by_cases hconfig : arg = "--config"
    · cases rest with
      | nil => exact .lacksFile (.inr hconfig)
      | cons file rest => exact hconfig ▸ .group (.config file) rest
    by_cases hwait : arg = "--wait"
    · exact hwait ▸ .group .wait rest
    by_cases hflag : ['-', '-'] <+: arg.toList
    · exact .unknown rest ⟨hflag, henv, hconfig, hwait⟩
    · exact .group (.program ⟨arg, hflag⟩) rest

/-! ## Reading groups -/

namespace Draft

/-- What has been read after one more group. -/
def add (d : Draft) : Group → Draft
  | .env file => { d with env := some file }
  | .config file => { d with config := some file }
  | .wait => { d with wait := true }
  | .program path => { d with program := some path.text }

/-- The file of a kind. -/
def file? (d : Draft) : Kind → Option String
  | .env => d.env
  | .config => d.config
  | .wait => none
  | .program => d.program

theorem file?_foldl_add (k : Kind) (gs : List Group) (d : Draft) :
    (gs.foldl add d).file? k = (filesOf k gs).getLast?.or (d.file? k) := by
  induction gs generalizing d with
  | nil => rfl
  | cons g gs ih =>
    have hadd : (d.add g).file? k = (filesOf k [g]).getLast?.or (d.file? k) := by
      cases g <;> cases k <;> rfl
    rw [List.foldl_cons, ih, hadd, ← Option.or_assoc, ← List.getLast?_append, ← filesOf_append]
    rfl

theorem wait_foldl_add (gs : List Group) (d : Draft) :
    (gs.foldl add d).wait = true ↔ d.wait = true ∨ .wait ∈ gs := by
  induction gs generalizing d with
  | nil => simp
  | cons g gs ih =>
    rw [List.foldl_cons, ih]
    cases g <;> simp [add]

/-- What has been read after groups. -/
def after (gs : List Group) : Draft := gs.foldl add {}

theorem file?_after (k : Kind) (gs : List Group) :
    (after gs).file? k = (filesOf k gs).getLast? := by
  rw [after, file?_foldl_add]
  cases k <;> exact Option.or_none

theorem program_after (gs : List Group) :
    (after gs).program = (filesOf .program gs).getLast? := file?_after .program gs

theorem wait_after (gs : List Group) : (after gs).wait = true ↔ .wait ∈ gs := by
  simp [after, wait_foldl_add]

theorem eq_of_file? {d d' : Draft} (hfile : ∀ k, d.file? k = d'.file? k)
    (hwait : d.wait = d'.wait) : d = d' := by
  have henv := hfile .env
  have hconfig := hfile .config
  have hprogram := hfile .program
  cases d
  cases d'
  simp_all [file?]

end Draft

section Reading

variable {d : Draft} {gs gs' : List Group} {o : Options} {e : UsageError}

theorem readOptions_group {g : Group} (hg : g.kind = .program → d.program = none)
    (rest : List String) : readOptions d (g.args ++ rest) = readOptions (d.add g) rest := by
  cases g with
  | env file => rfl
  | config file => rfl
  | wait => simp [Group.args, readOptions, Draft.add]
  | program path =>
    simp [Group.args, readOptions, Draft.add, path.ne_env, path.ne_config, path.ne_wait,
      path.isFlag_eq, hg rfl]

theorem readOptions_second_program {first : String} (hd : d.program = some first) (path : Plain)
    (rest : List String) :
    readOptions d (path.text :: rest) = .error (.unexpected path.text) := by
  simp [readOptions, path.ne_env, path.ne_config, path.ne_wait, path.isFlag_eq, hd]

/-- Groups are read one after the other, up to the second program. -/
theorem readOptions_argsOf (gs : List Group) (d : Draft) (rest : List String) :
    readOptions d (argsOf gs ++ rest) =
      (d.program.toList ++ filesOf .program gs)[1]?.elim (readOptions (gs.foldl Draft.add d) rest)
        fun extra => .error (.unexpected extra) := by
  induction gs generalizing d with
  | nil => cases hd : d.program <;> simp [argsOf, filesOf]
  | cons g gs ih =>
    rw [argsOf_cons, List.append_assoc]
    by_cases hg : g.kind = .program → d.program = none
    · have hprograms : (d.add g).program.toList ++ filesOf .program gs =
          d.program.toList ++ filesOf .program (g :: gs) := by
        cases g with
        | program path => simp [Draft.add, filesOf, Group.kind, Group.file?, hg rfl]
        | _ => rfl
      rw [readOptions_group hg, ih, hprograms, List.foldl_cons]
    · obtain ⟨hkind, hd⟩ := Classical.not_imp.1 hg
      obtain ⟨first, hd⟩ := Option.ne_none_iff_exists'.1 hd
      cases g with
      | program path =>
        refine (readOptions_second_program hd path _).trans ?_
        simp [hd, filesOf, Group.kind, Group.file?]
      | _ => cases hkind

theorem options_argsOf (gs : List Group) (rest : List String) :
    options (argsOf gs ++ rest) =
      (filesOf .program gs)[1]?.elim (readOptions (.after gs) rest)
        fun extra => .error (.unexpected extra) :=
  readOptions_argsOf gs {} rest

theorem options_of_one_program (hone : (filesOf .program gs).length ≤ 1) (rest : List String) :
    options (argsOf gs ++ rest) = readOptions (.after gs) rest := by
  rw [options_argsOf, List.getElem?_eq_none hone]
  rfl

theorem options_of_asks (hasks : Asks gs o) : options (argsOf gs) = .ok o := by
  have hone : (filesOf .program gs).length ≤ 1 := by simp [hasks.program]
  have hprogram : (Draft.after gs).program = some o.program := by
    rw [Draft.program_after, hasks.program]
    rfl
  have henv : (Draft.after gs).env = o.env := (Draft.file?_after .env gs).trans hasks.env.symm
  have hconfig : (Draft.after gs).config = o.config :=
    (Draft.file?_after .config gs).trans hasks.config.symm
  have hwait : (Draft.after gs).wait = o.wait := by
    rw [Bool.eq_iff_iff, hasks.wait, Draft.wait_after]
  rw [← List.append_nil (argsOf gs), options_of_one_program hone, readOptions, hprogram, henv,
    hconfig, hwait]

theorem options_of_fault {rest : List String} (hfault : Fault gs rest e) :
    options (argsOf gs ++ rest) = .error e := by
  cases hfault with
  | noProgram hnone =>
    have hprogram : (Draft.after gs).program = none := by
      rw [Draft.program_after, hnone]
      rfl
    rw [options_of_one_program (by simp [hnone]), readOptions, hprogram]
  | @unexpected first path rest hfirst =>
    have hprogram : (Draft.after gs).program = some first := by
      rw [Draft.program_after, hfirst]
      rfl
    rw [options_of_one_program (by simp [hfirst]), readOptions_second_program hprogram]
  | needsFile hone hflag =>
    rw [options_of_one_program hone]
    rcases hflag with rfl | rfl <;> rfl
  | unknownFlag hone hflag =>
    rw [options_of_one_program hone]
    simp [readOptions, hflag.ne_env, hflag.ne_config, hflag.ne_wait, isFlag_iff.2 hflag.isFlag]

theorem exists_asks {path : String} (hpath : filesOf .program gs = [path]) : ∃ o, Asks gs o :=
  ⟨⟨path, _, _, (Draft.after gs).wait⟩, hpath, rfl, rfl, Draft.wait_after gs⟩

/-- Behind groups with at most one program, more groups follow until the arguments end or one of
them does not fit. -/
theorem asks_or_fault (gs : List Group) (hone : (filesOf .program gs).length ≤ 1)
    (rest : List String) :
    (∃ gs' o, argsOf gs ++ rest = argsOf gs' ∧ Asks gs' o) ∨
      ∃ gs' rest' e, argsOf gs ++ rest = argsOf gs' ++ rest' ∧ Fault gs' rest' e := by
  cases front rest with
  | none =>
    cases hprograms : filesOf .program gs with
    | nil => exact .inr ⟨gs, [], _, rfl, .noProgram hprograms⟩
    | cons path more =>
      obtain rfl : more = [] := by simpa [hprograms] using hone
      obtain ⟨o, hasks⟩ := exists_asks hprograms
      exact .inl ⟨gs, o, List.append_nil _, hasks⟩
  | group g rest =>
    by_cases hmore : (filesOf .program (gs ++ [g])).length ≤ 1
    · have hrest := asks_or_fault (gs ++ [g]) hmore rest
      rw [argsOf_append, List.append_assoc] at hrest
      simpa only [argsOf, List.flatMap_singleton] using hrest
    · rw [filesOf_append] at hmore
      cases g with
      | program path =>
        obtain ⟨first, hfirst⟩ : ∃ first, filesOf .program gs = [first] := by
          have hpath : filesOf .program [.program path] = [path.text] := rfl
          rw [hpath, List.length_append, List.length_singleton] at hmore
          exact List.length_eq_one_iff.1 (by omega)
        exact .inr ⟨gs, _, _, rfl, .unexpected hfirst⟩
      | _ => exact absurd hone (by simpa [filesOf, Group.kind] using hmore)
  | lacksFile hflag => exact .inr ⟨gs, _, _, rfl, .needsFile hone hflag⟩
  | unknown rest hflag => exact .inr ⟨gs, _, _, rfl, .unknownFlag hone hflag⟩
termination_by rest.length
decreasing_by
  have hpos := g.length_args_pos
  rw [List.length_append]
  omega

theorem mem_wait_iff : .wait ∈ gs ↔ gs.filter (·.kind = .wait) ≠ [] := by
  constructor
  · intro hmem
    exact List.ne_nil_of_mem (List.mem_filter.2 ⟨hmem, rfl⟩)
  · intro hne
    obtain ⟨g, hg⟩ := List.exists_mem_of_ne_nil _ hne
    obtain ⟨hmem, hkind⟩ := List.mem_filter.1 hg
    cases g with
    | wait => exact hmem
    | _ => cases hkind

/-- The order counts only among groups of one kind. -/
theorem options_reordered (hkinds : ∀ k : Kind, gs'.filter (·.kind = k) = gs.filter (·.kind = k)) :
    options (argsOf gs') = options (argsOf gs) := by
  have hfiles (k : Kind) : filesOf k gs' = filesOf k gs := by rw [filesOf, hkinds, filesOf]
  have hdraft : Draft.after gs' = Draft.after gs := by
    refine Draft.eq_of_file? (fun k => ?_) ?_
    · rw [Draft.file?_after, Draft.file?_after, hfiles]
    · rw [Bool.eq_iff_iff, Draft.wait_after, Draft.wait_after, mem_wait_iff, mem_wait_iff, hkinds]
  rw [← List.append_nil (argsOf gs'), ← List.append_nil (argsOf gs), options_argsOf,
    options_argsOf, hfiles, hdraft]

end Reading

/-- Reading a list of arguments. It succeeds exactly if the list splits into groups with one program
among them, and gives the options that these ask for; every other list is an error, of the first
argument that fits no group, lacks its file or is a second program, or of the end if there was no
program. There is at most one way to split it. The order of the groups counts only among those of
one kind. -/
theorem options_groups (args : List String) :
    (∀ o, options args = .ok o ↔ ∃ gs, args = argsOf gs ∧ Asks gs o) ∧
    ((∃ e, options args = .error e) ↔
      ¬ ∃ gs path, args = argsOf gs ∧ filesOf .program gs = [path]) ∧
    (∀ e, options args = .error e ↔ ∃ gs rest, args = argsOf gs ++ rest ∧ Fault gs rest e) ∧
    (∀ gs gs', args = argsOf gs → args = argsOf gs' → gs = gs') ∧
    ∀ gs gs', args = argsOf gs →
      (∀ k : Kind, gs'.filter (·.kind = k) = gs.filter (·.kind = k)) →
      options (argsOf gs') = options args := by
  have hcases : (∃ gs o, args = argsOf gs ∧ Asks gs o) ∨
      ∃ gs rest e, args = argsOf gs ++ rest ∧ Fault gs rest e :=
    asks_or_fault [] (Nat.zero_le _) args
  have hok (o : Options) : options args = .ok o ↔ ∃ gs, args = argsOf gs ∧ Asks gs o := by
    constructor
    · intro ho
      rcases hcases with ⟨gs, o', rfl, hasks⟩ | ⟨gs, rest, e, rfl, hfault⟩
      · rw [options_of_asks hasks] at ho
        cases ho
        exact ⟨gs, rfl, hasks⟩
      · rw [options_of_fault hfault] at ho
        cases ho
    · rintro ⟨gs, rfl, hasks⟩
      exact options_of_asks hasks
  refine ⟨hok, ?_, ?_, ?_, ?_⟩
  · constructor
    · rintro ⟨e, he⟩ ⟨gs, path, rfl, hpath⟩
      obtain ⟨o, hasks⟩ := exists_asks hpath
      rw [options_of_asks hasks] at he
      cases he
    · intro hnone
      rcases hcases with ⟨gs, o, rfl, hasks⟩ | ⟨gs, rest, e, rfl, hfault⟩
      · exact absurd ⟨gs, o.program, rfl, hasks.program⟩ hnone
      · exact ⟨e, options_of_fault hfault⟩
  · intro e
    constructor
    · intro he
      rcases hcases with ⟨gs, o, rfl, hasks⟩ | ⟨gs, rest, e', rfl, hfault⟩
      · rw [options_of_asks hasks] at he
        cases he
      · rw [options_of_fault hfault] at he
        cases he
        exact ⟨gs, rest, rfl, hfault⟩
    · rintro ⟨gs, rest, rfl, hfault⟩
      exact options_of_fault hfault
  · rintro gs gs' rfl heq
    exact argsOf_injective heq
  · rintro gs gs' rfl hkinds
    exact options_reordered hkinds

namespace Repeated

def path : Plain := ⟨"run.json", by decide⟩

/-- A flag as the name of a file, and a second file of the same kind. -/
def groups : List Group := [.env "--wait", .program path, .env "env.json", .wait]

def reordered : List Group := [.wait, .env "--wait", .env "env.json", .program path]

theorem options_groups_repeated :
    argsOf groups = ["--env", "--wait", "run.json", "--env", "env.json", "--wait"] ∧
      options (argsOf groups) =
        .ok { program := "run.json", env := some "env.json", wait := true } ∧
      (∀ gs, argsOf groups = argsOf gs → groups = gs) ∧
      options (argsOf reordered) = options (argsOf groups) ∧
      options ["--wait", "run.json", "--env"] = .error (.needsFile "--env") := by
  obtain ⟨hok, -, -, hsplit, hreordered⟩ := options_groups (argsOf groups)
  obtain ⟨-, -, herror, -, -⟩ := options_groups ["--wait", "run.json", "--env"]
  refine ⟨rfl, ?_, fun gs => hsplit groups gs rfl, hreordered groups reordered rfl ?_, ?_⟩
  · exact (hok _).2 ⟨groups, rfl, rfl, rfl, rfl, by simp [groups]⟩
  · intro k
    cases k <;> rfl
  · exact (herror _).2 ⟨[.wait, .program path], ["--env"], rfl,
      .needsFile (Nat.le_refl 1) (.inl rfl)⟩

end Repeated

end Sigil.CommandLine
