import HttkWorkflow.CwlSourceNames
import HttkWorkflow.JobCursors
import HttkWorkflow.System

/-!
# The directories of the steps of a CWL workflow

The tool steps of one workflow run one after the other, in one directory that
they share. `run_tool` takes five places in it from the name of the step: the
execution directory `name`, the staged inputs `name.inputs`, the temporary
directory `name.tmp`, and `name.stdout` and `name.stderr` for the streams the
tool does not declare. The first two it clears before it begins. Everything
an earlier step has produced stays where that step put it, since the values
recorded for it are paths.

That a step leaves the others alone is thus a matter of names, and nothing
compares them. A step `a` clears the directory of a step `a.inputs`
(`inputs_of_another`). Nor is anything said of the texts a tool declares: a
stream or an output pattern that goes up from the execution directory comes
to the directory of another step.

Where the names keep apart (`KeepsApart`) and the texts and the tool itself
stay inside (`StaysInside`), every place belongs to one step: what lies there
was written by it, and nobody else writes there (`Owned`). From this
`steps_undisturbed` follows for every run, with steps that are killed and
repeated. The disk is without links, so that a path is where its text says.
-/

variable {ν : Type}

/-- **An entry of the disk.** -/
structure DiskEntry (ν : Type) where
  /-- What a file holds, `none` for a directory. -/
  content : Option ν
  /-- The step that made it, if one did. -/
  writer : Option PyStr
deriving DecidableEq

/-- **A disk**, by the paths from its root. -/
abbrev Disk (ν : Type) := Dict (List PyStr) (DiskEntry ν)

/-- **A change of the disk.** -/
inductive DiskEdit (ν : Type) where
  /-- `shutil.rmtree(path, ignore_errors=True)`, and the entries it cannot remove. -/
  | rmtree (path : List PyStr) (stuck : List (List PyStr))
  | remove (path : List PyStr)
  /-- `mkdir(parents=True, exist_ok=True)`. -/
  | mkdir (path : List PyStr)
  /-- `os.makedirs(path)`, which refuses a path that is there. -/
  | makedirs (path : List PyStr)
  | write (path : List PyStr) (content : ν)

/-- The path a change is about. -/
def DiskEdit.target : DiskEdit ν → List PyStr
  | .rmtree path _ | .remove path | .mkdir path | .makedirs path | .write path _ => path

namespace Disk

/-- Whether a path is a directory. -/
def isDir (d : Disk ν) (p : List PyStr) : Bool :=
  match d.get p with
  | some ⟨none, _⟩ => true
  | _ => false

def isFile (d : Disk ν) (p : List PyStr) : Bool :=
  match d.get p with
  | some ⟨some _, _⟩ => true
  | _ => false

/-- A directory is made, unless something is there. -/
def ensure (writer : PyStr) (d : Disk ν) (p : List PyStr) : Disk ν :=
  if (d.get p).isSome then d else d.set p ⟨none, some writer⟩

/-- **A change made by a step**, `none` where the call raises. -/
def edit (writer : PyStr) (d : Disk ν) : DiskEdit ν → Option (Disk ν)
  | .rmtree path stuck =>
    some (if d.isDir path then d.filter fun e => ¬(path <+: e.fst ∧ e.fst ∉ stuck) else d)
  | .remove path => some (d.filter fun e => ¬path <+: e.fst)
  | .mkdir path => if path.inits.any d.isFile then none else some (path.inits.foldl (ensure writer) d)
  | .makedirs path =>
    if (d.get path).isSome || path.inits.any d.isFile then none else some (path.inits.foldl (ensure writer) d)
  | .write path content =>
    if d.isDir path.dropLast && !d.isDir path then some (d.set path ⟨some content, some writer⟩) else none

/-- **Changes in turn**, up to the first that raises, and whether none did. -/
def perform (writer : PyStr) : List (DiskEdit ν) → Disk ν → Disk ν × Bool
  | [], d => (d, true)
  | e :: es, d =>
    match d.edit writer e with
    | none => (d, false)
    | some d' => perform writer es d'

end Disk

/-! ## Paths and patterns -/

/-- Whether a text is an absolute path. -/
def startsAtRoot (text : PyStr) : Bool := text.codes.head? = some '/'.toNat

/-- **`directory / text`**, as the system reads it. -/
def joinPath (directory : List PyStr) (text : PyStr) : List PyStr :=
  (text.split '/').foldl
    (fun p part =>
      if part.codes = [] ∨ part = PyStr.ofString "." then p
      else if part = PyStr.ofString ".." then p.dropLast
      else p ++ [part])
    (if startsAtRoot text then [] else directory)

def hasMagic (text : PyStr) : Bool := text.contains '*' || text.contains '?' || text.contains '['

section Glob

variable (fnmatch : PyStr → PyStr → Bool) (d : Disk ν)

/-- The entries of a directory that match. -/
def globChildren (p : List PyStr) (part : PyStr) : List (List PyStr) :=
  (d.map Prod.fst).filter fun q => q.dropLast = p ∧ q ≠ p ∧ (q.getLast?.any (fnmatch part)) = true

/-- The directories at and below a path. -/
def globBelow (p : List PyStr) : List (List PyStr) :=
  (d.map Prod.fst).filter fun q => p.isPrefixOf q && d.isDir q

/-- The matches of a pattern, part by part. -/
def globWalk : List PyStr → List PyStr → List (List PyStr)
  | [], p => [p]
  | part :: rest, p =>
    if part.codes = [] ∨ part = "." then globWalk rest p
    else if part = ".." then globWalk rest p.dropLast
    else if part = "**" then (globBelow d p).flatMap (globWalk rest)
    else if hasMagic part then (globChildren fnmatch d p part).flatMap (globWalk rest)
    else if (d.get (p ++ [part])).isSome then globWalk rest (p ++ [part])
    else []

/-- `directory.glob(text)`, which does not take absolute patterns. -/
def globPaths (directory : List PyStr) (text : PyStr) : Option (List (List PyStr)) :=
  if startsAtRoot text then none
  else some ((globWalk fnmatch d (text.split '/') directory).mergeSort (· ≤ ·))

end Glob

/-! ## One tool -/

/-- `f"{name}{suffix}"`. -/
def suffixed (name : PyStr) (suffix : String) : PyStr := ⟨name.codes ++ (PyStr.ofString suffix).codes⟩

/-- What is collected for an output. -/
inductive OutputKind where
  | stdout
  | stderr
  /-- The interpolated patterns; whether all matches are taken, or the first; whether there may be none. -/
  | files (patterns : List PyStr) (array optional : Bool)

/-- **One execution of a tool.** The texts are those interpolated for it. -/
structure ToolRun (ν : Type) where
  name : PyStr
  /-- What the removals cannot remove. -/
  stuck : List (List PyStr)
  /-- The staged values: their basenames, and the entries copied there, files or directories. -/
  staged : List (PyStr × List (List PyStr × Option ν))
  program : List (DiskEdit ν)
  /-- `stdout` and `stderr` of the tool where it declares them. -/
  declared : Option PyStr × Option PyStr
  /-- What it wrote there. -/
  streams : ν × ν
  /-- Whether its exit code is accepted. -/
  accepted : Bool
  outputs : List OutputKind
  /-- After how many changes the process is killed or raises on its own, if it does. -/
  killed : Option ℕ

namespace ToolRun

variable (base : List PyStr) (t : ToolRun ν)

def directory : List PyStr := joinPath base t.name

def staging : List PyStr := joinPath base (suffixed t.name ".inputs")

def tmpdir : List PyStr := joinPath base (suffixed t.name ".tmp")

/-- Where a stream goes: to the execution directory, or beside it. -/
def streamPath (declared : Option PyStr) (suffix : String) : List PyStr :=
  match declared with
  | some text => joinPath (t.directory base) text
  | none => joinPath base (suffixed t.name suffix)

/-- Where `stdout` goes. -/
def stdoutPath : List PyStr := t.streamPath base t.declared.fst ".stdout"

/-- Where `stderr` goes. -/
def stderrPath : List PyStr := t.streamPath base t.declared.snd ".stderr"

/-- The slot of a staged value, `f"{counter:04d}"`. -/
def slot (counter : ℕ) : PyStr :=
  PyStr.ofString ("".pushn '0' (4 - (toString counter).length) ++ toString counter)

/-- **`stage_value`** of one value. -/
def stageEdits (entry : (PyStr × List (List PyStr × Option ν)) × ℕ) : List (DiskEdit ν) :=
  let place := t.staging base ++ [slot entry.snd]
  let destination := joinPath place entry.fst.fst
  let isDirectory := entry.fst.snd.any fun e => e.fst.isEmpty && e.snd.isNone
  .mkdir place :: (if isDirectory then [.rmtree destination t.stuck] else [])
    ++ entry.fst.snd.map fun e =>
      match e.snd with
      | none => .makedirs (destination ++ e.fst)
      | some content => .write (destination ++ e.fst) content

/-- **What `run_tool` does to the disk**, before it collects. -/
def edits : List (DiskEdit ν) :=
  [.rmtree (t.directory base) t.stuck, .rmtree (t.staging base) t.stuck, .mkdir (t.directory base),
      .mkdir (t.tmpdir base)]
    ++ t.staged.zipIdx.flatMap (t.stageEdits base)
    ++ t.program
    ++ [.mkdir (t.stdoutPath base).dropLast, .write (t.stdoutPath base) t.streams.fst,
      .mkdir (t.stderrPath base).dropLast, .write (t.stderrPath base) t.streams.snd]

/-- **One output of `collect_outputs`**: the paths it names, `none` where it raises. -/
def collectOutput (fnmatch : PyStr → PyStr → Bool) (d : Disk ν) : OutputKind → Option (List (List PyStr))
  | .stdout => some (if d.isFile (t.stdoutPath base) then [t.stdoutPath base] else [])
  | .stderr => some (if d.isFile (t.stderrPath base) then [t.stderrPath base] else [])
  | .files patterns array optional => do
    let matched ← patterns.mapM fun text =>
      if hasMagic text then globPaths fnmatch d (t.directory base) text
      else some [joinPath (t.directory base) text]
    let found := matched.flatten.filter fun p => (d.get p).isSome
    if array then some found
    else
      match found with
      | [] => if optional then some [] else none
      | first :: _ => some [first]

/-- **`run_tool`**: the disk it leaves, and the paths its outputs name if it returns. -/
def run (fnmatch : PyStr → PyStr → Bool) (d : Disk ν) : Disk ν × Option (List (List PyStr)) :=
  match t.killed with
  | some count => ((d.perform t.name ((t.edits base).take count)).fst, none)
  | none =>
    let (d', finished) := d.perform t.name (t.edits base)
    if finished && t.accepted then
      (d', (t.outputs.mapM (t.collectOutput base fnmatch d')).map List.flatten)
    else (d', none)

end ToolRun

/-! ## The steps of a workflow -/

/-- **A step of the plan**: its identifier in the document, and the steps whose outputs it takes. -/
structure CwlPlanStep where
  identifier : PyStr
  producers : List PyStr

def CwlPlanStep.name (step : CwlPlanStep) : PyStr := cwlName step.identifier

/-- **A plan**, with one step for each name. -/
structure CwlPlan where
  steps : List CwlPlanStep
  nodup : (steps.map CwlPlanStep.name).Nodup

def CwlPlan.readySteps (plan : CwlPlan) (done : List PyStr) : List PyStr :=
  ((plan.steps.filter fun step => step.name ∉ done ∧ ∀ producer ∈ step.producers, producer ∈ done).map
    CwlPlanStep.name).mergeSort (· ≤ ·)

/-- **The job of a workflow**: the disk, `cwl_done`, and the paths in the recorded values. -/
structure StepsState (ν : Type) where
  disk : Disk ν
  done : List PyStr
  records : List (PyStr × List (List PyStr))

/-- **What happens to it.** -/
inductive StepsLabel (ν : Type) where
  | tool (t : ToolRun ν)
  /-- A step is skipped, or runs in jobs of its own, whose outputs name these paths. -/
  | elsewhere (name : PyStr) (named : List (List PyStr))

namespace StepsState

variable (plan : CwlPlan) (base : List PyStr) (fnmatch : PyStr → PyStr → Bool)

def record (s : StepsState ν) (name : PyStr) (named : List (List PyStr)) : StepsState ν :=
  { s with done := s.done ++ [name], records := s.records ++ [(name, named)] }

/-- **`_advance`**: the first step that is ready. -/
def next (s : StepsState ν) : StepsLabel ν → Option (StepsState ν)
  | .tool t =>
    if (plan.readySteps s.done).head? = some t.name then
      let (disk, named) := t.run base fnmatch s.disk
      some (match named with
        | some named => { s with disk := disk }.record t.name named
        | none => { s with disk := disk })
    else none
  | .elsewhere name named =>
    if (plan.readySteps s.done).head? = some name then some (s.record name named) else none

/-- A job that begins, with nothing in the shared directory. -/
def Begins (s : StepsState ν) : Prop :=
  (∀ q, (s.disk.get q).isSome = true → base <+: q → q = base) ∧ s.done = [] ∧ s.records = []

end StepsState

/-! ## What is promised -/

/-- **A step disturbs nothing**: what recorded outputs name is as before. -/
def Undisturbed (s s' : StepsState ν) : Prop :=
  ∀ r ∈ s.records, ∀ p ∈ r.snd, ∀ q, p <+: q → s'.disk.get q = s.disk.get q

/-- **Outputs are a step's own**: it has written all that is at the paths they name, and below. -/
def OwnOutputs (name : PyStr) (d : Disk ν) (named : List (List PyStr)) : Prop :=
  ∀ p ∈ named, ∀ q, p <+: q → ∀ e, d.get q = some e → e.writer = some name

def stepSuffixes : List String := [".inputs", ".tmp", ".stdout", ".stderr"]

/-- **Names keep apart**: each names an entry of the shared directory, and none is another with a suffix. -/
def CwlPlan.KeepsApart (plan : CwlPlan) : Prop :=
  ∀ step ∈ plan.steps, (step.name.codes ≠ [] ∧ step.name ≠ "." ∧ step.name ≠ "..")
    ∧ ∀ other ∈ plan.steps, ∀ suffix ∈ stepSuffixes, step.name ≠ suffixed other.name suffix

/-- **A text stays inside** the directory it is joined to. -/
def InnerText (text : PyStr) : Prop := startsAtRoot text = false ∧ PyStr.ofString ".." ∉ text.split '/'

/-- A path has nothing to do with the shared directory. -/
def Unshared (base p : List PyStr) : Prop := ¬base <+: p ∧ ¬p <+: base

/-- **An execution stays inside**: so do the texts of its streams, its patterns and the basenames of its
inputs, and the tool changes its own directories. What the outputs of a step that runs elsewhere name lies
elsewhere, or in an output of an earlier step. -/
def StaysInside (base : List PyStr) (s : StepsState ν) : StepsLabel ν → Prop
  | .tool t =>
    (∀ text ∈ t.declared.fst, InnerText text) ∧ (∀ text ∈ t.declared.snd, InnerText text) ∧
      (∀ patterns array optional, OutputKind.files patterns array optional ∈ t.outputs →
        ∀ text ∈ patterns, InnerText text) ∧
      (∀ entry ∈ t.staged, InnerText entry.fst) ∧
      ∀ e ∈ t.program, t.directory base <+: e.target ∨ t.staging base <+: e.target ∨ t.tmpdir base <+: e.target
  | .elsewhere _ named =>
    ∀ p ∈ named, Unshared base p ∨ ∃ r ∈ s.records, ∃ q ∈ r.snd, q <+: p

/-! ## What a change reaches -/

/-- The paths a change can concern: what is below its target, or above it where directories are made. -/
def DiskEdit.reaches (e : DiskEdit ν) (q : List PyStr) : Prop :=
  match e with
  | .mkdir path | .makedirs path => q <+: path
  | e => e.target <+: q

namespace Disk

variable {writer : PyStr} {d d' : Disk ν} {q : List PyStr}

theorem get_ensure (p : List PyStr) : (d.ensure writer p).get q = d.get q ∨
    q = p ∧ (d.ensure writer p).get q = some ⟨none, some writer⟩ := by
  unfold ensure
  split
  · exact Or.inl rfl
  · rw [Dict.get_set]
    split
    case isTrue h => exact Or.inr ⟨h, rfl⟩
    case isFalse => exact Or.inl rfl

theorem get_foldl_ensure (paths : List (List PyStr)) : (paths.foldl (ensure writer) d).get q = d.get q ∨
    q ∈ paths ∧ (paths.foldl (ensure writer) d).get q = some ⟨none, some writer⟩ := by
  induction paths generalizing d with
  | nil => exact Or.inl rfl
  | cons p paths ih =>
    have hfirst : (d.ensure writer p).get q = d.get q ∨
        q = p ∧ (d.ensure writer p).get q = some ⟨none, some writer⟩ := get_ensure p
    rcases ih (d := d.ensure writer p) with hlater | ⟨hmem, hlater⟩
    · rcases hfirst with hfirst | ⟨rfl, hfirst⟩
      · exact Or.inl (hlater.trans hfirst)
      · exact Or.inr ⟨List.mem_cons_self, hlater.trans hfirst⟩
    · exact Or.inr ⟨List.mem_cons_of_mem _ hmem, hlater⟩

theorem get_restrict (p : List PyStr → Prop) [DecidablePred p] :
    Dict.get (d.filter fun e => p e.fst) q = d.get q ∨ ¬p q ∧ Dict.get (d.filter fun e => p e.fst) q = none := by
  rw [Dict.get_filter]
  split
  case isTrue => exact Or.inl rfl
  case isFalse h => exact Or.inr ⟨h, rfl⟩

theorem get_edit {e : DiskEdit ν} (h : d.edit writer e = some d') : d'.get q = d.get q ∨
    e.reaches q ∧ (d'.get q = none ∨ ∃ content, d'.get q = some ⟨content, some writer⟩) := by
  cases e with
  | rmtree path stuck =>
    obtain rfl := Option.some.inj h
    split
    case isTrue =>
      refine (get_restrict fun p => ¬(path <+: p ∧ p ∉ stuck)).imp_right fun hcut => ?_
      exact ⟨(not_not.mp hcut.1).1, Or.inl hcut.2⟩
    case isFalse => exact Or.inl rfl
  | remove path =>
    obtain rfl := Option.some.inj h
    refine (get_restrict fun p => ¬path <+: p).imp_right fun hcut => ?_
    exact ⟨not_not.mp hcut.1, Or.inl hcut.2⟩
  | mkdir path | makedirs path =>
    dsimp only [edit] at h
    split_ifs at h
    obtain rfl := Option.some.inj h
    refine (get_foldl_ensure path.inits).imp_right fun hmade => ?_
    exact ⟨(List.mem_inits _ _).mp hmade.1, Or.inr ⟨none, hmade.2⟩⟩
  | write path content =>
    dsimp only [edit] at h
    split_ifs at h
    obtain rfl := Option.some.inj h
    rw [Dict.get_set]
    split
    case isTrue heq => exact Or.inr ⟨heq ▸ List.prefix_refl _, Or.inr ⟨_, rfl⟩⟩
    case isFalse => exact Or.inl rfl

theorem get_perform (es : List (DiskEdit ν)) : (d.perform writer es).fst.get q = d.get q ∨
    (∃ e ∈ es, e.reaches q) ∧ ((d.perform writer es).fst.get q = none ∨
      ∃ content, (d.perform writer es).fst.get q = some ⟨content, some writer⟩) := by
  induction es generalizing d with
  | nil => exact Or.inl rfl
  | cons e es ih =>
    unfold perform
    split
    case h_1 => exact Or.inl rfl
    case h_2 d' hedit =>
      rcases ih (d := d') with hlater | ⟨⟨e', he', hreaches⟩, hlater⟩
      · rw [hlater]
        exact (get_edit hedit).imp_right fun hmade => ⟨⟨e, List.mem_cons_self, hmade.1⟩, hmade.2⟩
      · exact Or.inr ⟨⟨e', List.mem_cons_of_mem _ he', hreaches⟩, hlater⟩

end Disk

/-! ## The places of a step -/

/-- **The entries of the shared directory a step uses.** -/
def places (name : PyStr) : List PyStr := name :: stepSuffixes.map (suffixed name)

/-- A path lies in a place of a step. -/
def Placed (base : List PyStr) (name : PyStr) (p : List PyStr) : Prop :=
  ∃ place ∈ places name, base ++ [place] <+: p

theorem suffix_injective {n m : PyStr} {s s' : String} (hs : s ∈ stepSuffixes) (hs' : s' ∈ stepSuffixes)
    (h : suffixed n s = suffixed m s') : n = m := by
  have hcodes : n.codes ++ (PyStr.ofString s).codes = m.codes ++ (PyStr.ofString s').codes :=
    congrArg PyStr.codes h
  have hlast : (PyStr.ofString s).codes.getLast? = (PyStr.ofString s').codes.getLast? := by
    have hne : ∀ s ∈ stepSuffixes, (PyStr.ofString s).codes.getLast?.isSome = true := by decide
    have hwhole := congrArg List.getLast? hcodes
    rw [List.getLast?_append, List.getLast?_append, Option.or_of_isSome (hne s hs),
      Option.or_of_isSome (hne s' hs')] at hwhole
    exact hwhole
  have heq : s = s' := by
    have hdistinct : ∀ s ∈ stepSuffixes, ∀ s' ∈ stepSuffixes,
        (PyStr.ofString s).codes.getLast? = (PyStr.ofString s').codes.getLast? → s = s' := by decide
    exact hdistinct s hs s' hs' hlast
  subst heq
  have hname := List.append_cancel_right hcodes
  cases n
  cases m
  rw [PyStr.mk.injEq]
  exact hname

theorem CwlPlan.KeepsApart.unique {plan : CwlPlan} (h : plan.KeepsApart) {n m place : PyStr}
    (hn : n ∈ plan.steps.map CwlPlanStep.name) (hm : m ∈ plan.steps.map CwlPlanStep.name)
    (hplace : place ∈ places n) (hplace' : place ∈ places m) : n = m := by
  obtain ⟨step, hstep, rfl⟩ := List.mem_map.mp hn
  obtain ⟨other, hother, rfl⟩ := List.mem_map.mp hm
  rcases List.mem_cons.mp hplace with rfl | hplace
  · rcases List.mem_cons.mp hplace' with h' | hplace'
    · exact h'
    · obtain ⟨s, hs, heq⟩ := List.mem_map.mp hplace'
      exact absurd heq.symm ((h step hstep).2 other hother s hs)
  · obtain ⟨s, hs, rfl⟩ := List.mem_map.mp hplace
    rcases List.mem_cons.mp hplace' with h' | hplace'
    · exact absurd h'.symm ((h other hother).2 step hstep s hs)
    · obtain ⟨s', hs', heq⟩ := List.mem_map.mp hplace'
      exact suffix_injective hs hs' heq.symm

theorem CwlPlan.KeepsApart.placed_unique {plan : CwlPlan} (h : plan.KeepsApart) {base p : List PyStr}
    {n m : PyStr} (hn : n ∈ plan.steps.map CwlPlanStep.name) (hm : m ∈ plan.steps.map CwlPlanStep.name)
    (hp : Placed base n p) (hp' : Placed base m p) : n = m := by
  obtain ⟨place, hplace, hprefix⟩ := hp
  obtain ⟨place', hplace', hprefix'⟩ := hp'
  have heq : base ++ [place] = base ++ [place'] := by
    refine List.IsPrefix.eq_of_length (List.prefix_of_prefix_length_le hprefix hprefix' ?_) ?_ <;> simp
  obtain rfl := List.append_cancel_left heq |> List.cons.inj |> And.left
  exact h.unique hn hm hplace hplace'

variable {n : PyStr}

theorem Placed.mono {base p q : List PyStr} (h : Placed base n p) (hpq : p <+: q) : Placed base n q :=
  h.imp fun _ hplace => ⟨hplace.1, hplace.2.trans hpq⟩

theorem Placed.not_above {base p : List PyStr} (h : Placed base n p) : ¬p <+: base := by
  obtain ⟨place, -, hroot⟩ := h
  intro habove
  have hle := (hroot.trans habove).length_le
  simp at hle

theorem Placed.base_prefix {base p : List PyStr} (h : Placed base n p) : base <+: p := by
  obtain ⟨place, -, hprefix⟩ := h
  exact (List.prefix_append base [place]).trans hprefix

theorem DiskEdit.reaches.placed {base q : List PyStr} {e : DiskEdit ν} (h : e.reaches q)
    (he : Placed base n e.target) : q <+: base ∨ Placed base n q := by
  cases e with
  | mkdir path | makedirs path =>
    obtain ⟨place, hplace, hprefix⟩ := he
    rcases List.prefix_or_prefix_of_prefix h hprefix with hle | hle
    · rcases List.prefix_concat_iff.mp hle with rfl | hle
      · exact Or.inr ⟨place, hplace, List.prefix_refl _⟩
      · exact Or.inl hle
    · exact Or.inr ⟨place, hplace, hle⟩
  | rmtree path stuck => exact Or.inr (he.mono h)
  | remove path => exact Or.inr (he.mono h)
  | write path content => exact Or.inr (he.mono h)

/-! ## Where texts lead -/

structure EntryName (name : PyStr) : Prop where
  plain : '/'.toNat ∉ name.codes
  nonempty : name.codes ≠ []
  ne_dot : name ≠ "."
  ne_up : name ≠ PyStr.ofString ".."

theorem plain_cwlName (identifier : PyStr) : '/'.toNat ∉ (cwlName identifier).codes := by
  have hlast : ∀ text : PyStr, '/'.toNat ∉ ((text.split '/').getLastD ⟨[]⟩).codes := by
    intro text
    have hne : (text.codes.splitOn '/'.toNat).map PyStr.mk ≠ [] := fun hnil =>
      List.splitOn_ne_nil '/'.toNat text.codes (List.map_eq_nil_iff.mp hnil)
    obtain ⟨codes, hcodes, heq⟩ := List.mem_map.mp (List.getLast_mem hne)
    rw [PyStr.split, List.getLastD_eq_getLast?, List.getLast?_eq_some_getLast hne, Option.getD_some, ← heq]
    exact separator_not_mem hcodes
  exact hlast _

theorem CwlPlan.KeepsApart.entryName {plan : CwlPlan} (h : plan.KeepsApart) {name : PyStr}
    (hname : name ∈ plan.steps.map CwlPlanStep.name) : EntryName name := by
  obtain ⟨step, hstep, rfl⟩ := List.mem_map.mp hname
  obtain ⟨hne, hdot, hup⟩ := (h step hstep).1
  exact ⟨plain_cwlName _, hne, hdot, hup⟩

theorem entryName_suffixed {name : PyStr} (h : EntryName name) {suffix : String} (hs : suffix ∈ stepSuffixes) :
    EntryName (suffixed name suffix) := by
  have hplain : ∀ s ∈ stepSuffixes, '/'.toNat ∉ (PyStr.ofString s).codes := by decide
  have hlong : ∀ s ∈ stepSuffixes, 3 < (PyStr.ofString s).codes.length := by decide
  have hlength : 3 < (suffixed name suffix).codes.length := by
    have hle := hlong suffix hs
    simp only [suffixed, List.length_append]
    omega
  refine ⟨List.not_mem_append h.plain (hplain suffix hs), fun hnil => ?_, fun hdot => ?_, fun hup => ?_⟩
  · rw [hnil] at hlength
    cases hlength
  · rw [hdot] at hlength
    exact absurd hlength (by decide)
  · rw [hup] at hlength
    exact absurd hlength (by decide)

theorem joinPath_entry {name : PyStr} (h : EntryName name) (directory : List PyStr) :
    joinPath directory name = directory ++ [name] := by
  have hsplit : name.split '/' = [name] := by
    rw [PyStr.split, List.splitOn_eq_singleton h.plain]
    rfl
  have hroot : startsAtRoot name = false := by
    refine decide_eq_false fun hhead => h.plain ?_
    exact List.mem_of_head? hhead
  unfold joinPath
  rw [hsplit, hroot]
  simp [h.nonempty, h.ne_dot, h.ne_up]

/-- **A text that stays inside** leads below its directory. -/
theorem prefix_joinPath {text : PyStr} (h : InnerText text) (directory : List PyStr) :
    directory <+: joinPath directory text := by
  obtain ⟨hroot, hup⟩ := h
  unfold joinPath
  rw [hroot]
  generalize text.split '/' = parts at hup
  have hfold : ∀ p, directory <+: p → directory <+: parts.foldl (fun p part =>
        if part.codes = [] ∨ part = PyStr.ofString "." then p
        else if part = PyStr.ofString ".." then p.dropLast
        else p ++ [part]) p := by
    induction parts with
    | nil => exact fun p hp => hp
    | cons part parts ih =>
      obtain ⟨hpart, hparts⟩ := not_or.mp (mt List.mem_cons.mpr hup)
      intro p hp
      refine ih hparts _ ?_
      dsimp only
      split_ifs with hdot hstep
      · exact hp
      · exact absurd hstep.symm hpart
      · exact hp.trans (List.prefix_append _ _)
  exact hfold directory (List.prefix_refl _)

theorem prefix_of_globWalk {fnmatch : PyStr → PyStr → Bool} {d : Disk ν} {parts : List PyStr}
    (h : PyStr.ofString ".." ∉ parts) {p q : List PyStr} (hq : q ∈ globWalk fnmatch d parts p) : p <+: q := by
  induction parts generalizing p with
  | nil => exact List.mem_singleton.mp hq ▸ List.prefix_refl _
  | cons part parts ih =>
    obtain ⟨hpart, hparts⟩ := not_or.mp (mt List.mem_cons.mpr h)
    rw [globWalk] at hq
    split_ifs at hq with hdot hup hdeep hmagic hthere
    · exact ih hparts hq
    · exact absurd hup.symm hpart
    · obtain ⟨r, hr, hq⟩ := List.mem_flatMap.mp hq
      have hbelow := (List.mem_filter.mp hr).2
      rw [Bool.and_eq_true] at hbelow
      exact (List.isPrefixOf_iff_prefix.mp hbelow.1).trans (ih hparts hq)
    · obtain ⟨r, hr, hq⟩ := List.mem_flatMap.mp hq
      obtain ⟨hchild, -⟩ := of_decide_eq_true (List.mem_filter.mp hr).2
      exact (hchild ▸ List.dropLast_prefix r).trans (ih hparts hq)
    · exact (List.prefix_append p [part]).trans (ih hparts hq)
    · exact absurd hq List.not_mem_nil

/-! ## What a tool changes and collects -/

section Tool

variable {base : List PyStr} {t : ToolRun ν}

variable {p : List PyStr}

theorem Placed.dropLast {name : PyStr} (h : Placed base name p) : p.dropLast = base ∨ Placed base name p.dropLast := by
  obtain ⟨place, hplace, rest, rfl⟩ := h
  rcases List.eq_nil_or_concat rest with rfl | ⟨init, last, rfl⟩
  · left
    rw [List.append_nil, List.dropLast_concat]
  · right
    refine ⟨place, hplace, ?_⟩
    rw [List.concat_eq_append, ← List.append_assoc, List.dropLast_concat]
    exact List.prefix_append _ _

theorem placed_directory (h : EntryName t.name) : Placed base t.name (t.directory base) :=
  ⟨t.name, List.mem_cons_self, joinPath_entry h base ▸ List.prefix_refl _⟩

variable {suffix : String}

theorem placed_suffixed {name : PyStr} (h : EntryName name) (hs : suffix ∈ stepSuffixes) :
    Placed base name (joinPath base (suffixed name suffix)) :=
  ⟨suffixed name suffix, List.mem_cons_of_mem _ (List.mem_map_of_mem hs),
    joinPath_entry (entryName_suffixed h hs) base ▸ List.prefix_refl _⟩

theorem placed_streamPath {declared : Option PyStr} (h : EntryName t.name)
    (hs : suffix ∈ stepSuffixes) (hinner : ∀ text ∈ declared, InnerText text) :
    Placed base t.name (t.streamPath base declared suffix) := by
  cases declared with
  | none => exact placed_suffixed h hs
  | some text => exact (placed_directory h).mono (prefix_joinPath (hinner text rfl) _)

theorem placed_stdoutPath (h : EntryName t.name) (hinner : ∀ text ∈ t.declared.fst, InnerText text) :
    Placed base t.name (t.stdoutPath base) :=
  placed_streamPath h (by decide) hinner

theorem placed_stderrPath (h : EntryName t.name) (hinner : ∀ text ∈ t.declared.snd, InnerText text) :
    Placed base t.name (t.stderrPath base) :=
  placed_streamPath h (by decide) hinner

theorem reaches_streamDirectory {name : PyStr} {p q : List PyStr} (hp : Placed base name p)
    (h : (DiskEdit.mkdir p.dropLast : DiskEdit ν).reaches q) : q <+: base ∨ Placed base name q := by
  rcases hp.dropLast with hbase | hplaced
  · exact Or.inl (hbase ▸ h)
  · exact h.placed hplaced

variable {s : StepsState ν}

theorem placed_of_edits (h : EntryName t.name) (hinside : StaysInside base s (.tool t))
    {e : DiskEdit ν} (he : e ∈ t.edits base) {q : List PyStr} (hq : e.reaches q) :
    q <+: base ∨ Placed base t.name q := by
  obtain ⟨hstdout, hstderr, -, hstaged, hprogram⟩ := hinside
  have hstaging : Placed base t.name (t.staging base) := placed_suffixed h (by decide)
  have htmp : Placed base t.name (t.tmpdir base) := placed_suffixed h (by decide)
  unfold ToolRun.edits at he
  rcases List.mem_append.mp he with he | he
  · rcases List.mem_append.mp he with he | he
    · rcases List.mem_append.mp he with he | he
      · -- the two removals, and the two directories that are made
        simp only [List.mem_cons, List.not_mem_nil, or_false] at he
        rcases he with rfl | rfl | rfl | rfl
        · exact hq.placed (placed_directory h)
        · exact hq.placed hstaging
        · exact hq.placed (placed_directory h)
        · exact hq.placed htmp
      · obtain ⟨entry, hentry, he⟩ := List.mem_flatMap.mp he
        refine hq.placed ?_
        have hslot : Placed base t.name (t.staging base ++ [ToolRun.slot entry.snd]) :=
          hstaging.mono (List.prefix_append _ _)
        have hinner : InnerText entry.fst.fst := hstaged _ (List.fst_mem_of_mem_zipIdx hentry)
        have hdestination := hslot.mono (prefix_joinPath hinner _)
        rcases List.mem_append.mp he with he | he
        · rcases List.mem_cons.mp he with rfl | he
          · exact hslot
          · split at he
            · obtain rfl := List.mem_singleton.mp he
              exact hdestination
            · cases he
        · obtain ⟨copied, -, rfl⟩ := List.mem_map.mp he
          have hbelow := hdestination.mono (List.prefix_append _ copied.fst)
          split <;> exact hbelow
    · rcases hprogram e he with hbelow | hbelow | hbelow
      · exact hq.placed ((placed_directory h).mono hbelow)
      · exact hq.placed (hstaging.mono hbelow)
      · exact hq.placed (htmp.mono hbelow)
  · have hout : Placed base t.name (t.stdoutPath base) := placed_stdoutPath h hstdout
    have herr : Placed base t.name (t.stderrPath base) := placed_stderrPath h hstderr
    simp only [List.mem_cons, List.not_mem_nil, or_false] at he
    rcases he with rfl | rfl | rfl | rfl
    · exact reaches_streamDirectory hout hq
    · exact hq.placed hout
    · exact reaches_streamDirectory herr hq
    · exact hq.placed herr

theorem exists_of_mapM_some {α β : Type} {f : α → Option β} {items : List α} {results : List β}
    (h : items.mapM f = some results) : ∀ b ∈ results, ∃ item ∈ items, f item = some b := by
  induction items generalizing results with
  | nil =>
    obtain rfl := Option.some.inj h
    exact List.forall_mem_nil _
  | cons item items ih =>
    rw [List.mapM_cons] at h
    obtain ⟨first, hfirst, h⟩ := Option.bind_eq_some_iff.mp h
    obtain ⟨rest, hrest, h⟩ := Option.bind_eq_some_iff.mp h
    rw [← Option.some.inj h]
    refine List.forall_mem_cons.mpr ⟨⟨item, List.mem_cons_self, hfirst⟩, fun b hb => ?_⟩
    obtain ⟨other, hother, hb⟩ := ih hrest b hb
    exact ⟨other, List.mem_cons_of_mem _ hother, hb⟩

variable {d : Disk ν}

theorem placed_of_captured {name : PyStr} (hp : Placed base name p) :
    ∀ q ∈ (if d.isFile p then [p] else []), Placed base name q := by
  split
  · exact List.forall_mem_singleton.mpr hp
  · exact List.forall_mem_nil _

variable {fnmatch : PyStr → PyStr → Bool}

theorem placed_of_matched (h : EntryName t.name) {text : PyStr} (htext : InnerText text) {matched : List (List PyStr)}
    (hmatched : (if hasMagic text then globPaths fnmatch d (t.directory base) text
      else some [joinPath (t.directory base) text]) = some matched) :
    ∀ p ∈ matched, Placed base t.name p := by
  intro p hp
  refine (placed_directory h).mono ?_
  split_ifs at hmatched
  · unfold globPaths at hmatched
    rw [htext.1, if_neg Bool.false_ne_true] at hmatched
    obtain rfl := Option.some.inj hmatched
    exact prefix_of_globWalk htext.2 (List.mem_mergeSort.mp hp)
  · obtain rfl := Option.some.inj hmatched
    rw [List.mem_singleton.mp hp]
    exact prefix_joinPath htext _

variable {named : List (List PyStr)}

theorem placed_of_collectOutput (h : EntryName t.name)
    (hinside : StaysInside base s (.tool t)) {kind : OutputKind} (hkind : kind ∈ t.outputs)
    (hcollect : t.collectOutput base fnmatch d kind = some named) :
    ∀ p ∈ named, Placed base t.name p := by
  obtain ⟨hstdout, hstderr, hpatterns, -, -⟩ := hinside
  cases kind with
  | stdout =>
    obtain rfl := Option.some.inj hcollect
    exact placed_of_captured (placed_stdoutPath h hstdout)
  | stderr =>
    obtain rfl := Option.some.inj hcollect
    exact placed_of_captured (placed_stderrPath h hstderr)
  | files patterns array optional =>
    obtain ⟨matched, hmatched, hnamed⟩ := Option.bind_eq_some_iff.mp hcollect
    have hfound : ∀ p ∈ matched.flatten.filter fun p => (d.get p).isSome, Placed base t.name p := by
      intro p hp
      obtain ⟨paths, hpaths, hp⟩ := List.mem_flatten.mp (List.mem_filter.mp hp).1
      obtain ⟨text, htext, hpattern⟩ := exists_of_mapM_some hmatched paths hpaths
      exact placed_of_matched h (hpatterns _ _ _ hkind text htext) hpattern p hp
    dsimp only at hnamed
    split at hnamed
    · obtain rfl := Option.some.inj hnamed
      exact hfound
    · split at hnamed
      case h_1 =>
        split at hnamed
        · obtain rfl := Option.some.inj hnamed
          exact List.forall_mem_nil _
        · cases hnamed
      case h_2 first rest hfirst =>
        obtain rfl := Option.some.inj hnamed
        exact List.forall_mem_singleton.mpr (hfound first (hfirst ▸ List.mem_cons_self))

/-- **What the outputs of a tool name lies in its places.** -/
theorem placed_of_run (h : EntryName t.name) (hinside : StaysInside base s (.tool t))
    (hrun : (t.run base fnmatch d).snd = some named) : ∀ p ∈ named, Placed base t.name p := by
  unfold ToolRun.run at hrun
  split at hrun
  · cases hrun
  · dsimp only at hrun
    split_ifs at hrun
    · obtain ⟨collected, hcollected, rfl⟩ := Option.map_eq_some_iff.mp hrun
      intro p hp
      obtain ⟨paths, hpaths, hp⟩ := List.mem_flatten.mp hp
      obtain ⟨kind, hkind, hcollect⟩ := exists_of_mapM_some hcollected paths hpaths
      exact placed_of_collectOutput h hinside hkind hcollect p hp

/-- **What a tool leaves of the disk**, finished or killed. -/
theorem get_run (h : EntryName t.name) (hinside : StaysInside base s (.tool t)) (q : List PyStr) :
    Dict.get (t.run base fnmatch d).fst q = d.get q ∨
      (q <+: base ∨ Placed base t.name q) ∧ (Dict.get (t.run base fnmatch d).fst q = none ∨
        ∃ content, Dict.get (t.run base fnmatch d).fst q = some ⟨content, some t.name⟩) := by
  have hperform : ∀ es : List (DiskEdit ν), (∀ e ∈ es, e ∈ t.edits base) →
      Dict.get (d.perform t.name es).fst q = d.get q ∨
        (q <+: base ∨ Placed base t.name q) ∧ (Dict.get (d.perform t.name es).fst q = none ∨
          ∃ content, Dict.get (d.perform t.name es).fst q = some ⟨content, some t.name⟩) := by
    intro es hes
    refine (Disk.get_perform es).imp_right fun ⟨⟨e, he, hreaches⟩, hmade⟩ => ⟨?_, hmade⟩
    exact placed_of_edits h hinside (hes e he) hreaches
  unfold ToolRun.run
  split
  · exact hperform _ fun e he => List.mem_of_mem_take he
  · dsimp only
    split_ifs <;> exact hperform _ fun e he => he

end Tool

/-! ## Every place belongs to one step -/

/-- **What holds of a job in every moment**: what lies in a place of a step was written by it, and what
recorded outputs name lies in a place of a step that is done, or apart from the shared directory. -/
structure Owned (plan : CwlPlan) (base : List PyStr) (s : StepsState ν) : Prop where
  written : ∀ q e, s.disk.get q = some e → ∀ name ∈ plan.steps.map CwlPlanStep.name,
    Placed base name q → e.writer = some name
  named : ∀ r ∈ s.records, ∀ p ∈ r.snd,
    (∃ name ∈ plan.steps.map CwlPlanStep.name, name ∈ s.done ∧ Placed base name p) ∨ Unshared base p

section Runs

variable {plan : CwlPlan} {base : List PyStr} {fnmatch : PyStr → PyStr → Bool} {s s' : StepsState ν}

theorem mem_of_ready {done : List PyStr} {name : PyStr} (h : (plan.readySteps done).head? = some name) :
    name ∈ plan.steps.map CwlPlanStep.name ∧ name ∉ done := by
  have hmem := List.mem_mergeSort.mp (List.mem_of_head? h)
  obtain ⟨step, hstep, rfl⟩ := List.mem_map.mp hmem
  obtain ⟨hplan, hready⟩ := List.mem_filter.mp hstep
  exact ⟨List.mem_map_of_mem hplan, (of_decide_eq_true hready).1⟩

variable {p q : List PyStr}

theorem Unshared.not_reached {name : PyStr} (h : Unshared base p) (hpq : p <+: q) :
    ¬(q <+: base ∨ Placed base name q) := by
  rintro (habove | hplaced)
  · exact h.2 (hpq.trans habove)
  · rcases List.prefix_or_prefix_of_prefix hpq hplaced.base_prefix with hle | hle
    · exact h.2 hle
    · exact h.1 hle

variable {t : ToolRun ν}

theorem get_run_of_other (hapart : plan.KeepsApart)
    (ht : t.name ∈ plan.steps.map CwlPlanStep.name) (hinside : StaysInside base s (.tool t))
    (hp : (∃ name ∈ plan.steps.map CwlPlanStep.name, name ≠ t.name ∧ Placed base name p) ∨ Unshared base p)
    (hpq : p <+: q) : Dict.get (t.run base fnmatch s.disk).fst q = s.disk.get q := by
  refine (get_run (hapart.entryName ht) hinside q).resolve_right fun ⟨hreached, _⟩ => ?_
  rcases hp with ⟨name, hname, hne, hplaced⟩ | hapart'
  · rcases hreached with habove | hown
    · exact (hplaced.mono hpq).not_above habove
    · exact hne (hapart.placed_unique hname ht (hplaced.mono hpq) hown)
  · exact hapart'.not_reached hpq hreached

theorem written_run (hapart : plan.KeepsApart) (h : Owned plan base s)
    (ht : t.name ∈ plan.steps.map CwlPlanStep.name) (hinside : StaysInside base s (.tool t)) :
    ∀ q e, Dict.get (t.run base fnmatch s.disk).fst q = some e → ∀ name ∈ plan.steps.map CwlPlanStep.name,
      Placed base name q → e.writer = some name := by
  intro q e he name hname hplaced
  have hrun : Dict.get (t.run base fnmatch s.disk).fst q = s.disk.get q ∨ _ :=
    get_run (hapart.entryName ht) hinside q
  rcases hrun with hsame | ⟨hreached, hmade⟩
  · exact h.written q e (hsame.symm.trans he) name hname hplaced
  · have hown : Placed base t.name q := hreached.resolve_left hplaced.not_above
    obtain rfl := hapart.placed_unique hname ht hplaced hown
    rcases hmade with hnone | ⟨content, hcontent⟩
    · rw [hnone] at he
      cases he
    · rw [hcontent] at he
      rw [← Option.some.inj he]

theorem Owned.named_record (h : Owned plan base s) {name : PyStr} {named : List (List PyStr)}
    (hnew : ∀ p ∈ named, (∃ n ∈ plan.steps.map CwlPlanStep.name, n ∈ s.done ++ [name] ∧ Placed base n p)
      ∨ Unshared base p) :
    ∀ r ∈ s.records ++ [(name, named)], ∀ p ∈ r.snd,
      (∃ n ∈ plan.steps.map CwlPlanStep.name, n ∈ s.done ++ [name] ∧ Placed base n p) ∨ Unshared base p := by
  intro r hr p hp
  rcases List.mem_append.mp hr with hr | hr
  · refine (h.named r hr p hp).imp_left fun ⟨n, hn, hdone, hplaced⟩ => ?_
    exact ⟨n, hn, List.mem_append_left _ hdone, hplaced⟩
  · obtain rfl := List.mem_singleton.mp hr
    exact hnew p hp

/-- **A step keeps the places.** -/
theorem Owned.next (hapart : plan.KeepsApart) (h : Owned plan base s) {l : StepsLabel ν}
    (hinside : StaysInside base s l) (hnext : s.next plan base fnmatch l = some s') : Owned plan base s' := by
  cases l with
  | tool t =>
    dsimp only [StepsState.next] at hnext
    split_ifs at hnext with hready
    obtain ⟨ht, -⟩ := mem_of_ready hready
    obtain rfl := Option.some.inj hnext
    split
    case h_1 named hnamed =>
      refine ⟨written_run hapart h ht hinside, h.named_record fun p hp => Or.inl ?_⟩
      exact ⟨t.name, ht, List.mem_append_right _ (List.mem_singleton_self _),
        placed_of_run (hapart.entryName ht) hinside hnamed p hp⟩
    case h_2 => exact ⟨written_run hapart h ht hinside, h.named⟩
  | elsewhere name named =>
    dsimp only [StepsState.next] at hnext
    split_ifs at hnext with hready
    obtain rfl := Option.some.inj hnext
    refine ⟨h.written, h.named_record fun p hp => ?_⟩
    rcases hinside p hp with hout | ⟨r, hr, q, hq, hqp⟩
    · exact Or.inr hout
    · rcases h.named r hr q hq with ⟨n, hn, hdone, hplaced⟩ | hout
      · exact Or.inl ⟨n, hn, List.mem_append_left _ hdone, hplaced.mono hqp⟩
      · refine Or.inr ⟨fun hbase => ?_, fun habove => hout.2 (hqp.trans habove)⟩
        rcases List.prefix_or_prefix_of_prefix hqp hbase with hle | hle
        · exact hout.2 hle
        · exact hout.1 hle

theorem owned_of_begins (h : StepsState.Begins base s) : Owned plan base s := by
  obtain ⟨hempty, -, hrecords⟩ := h
  refine ⟨fun q e he name _ hplaced => ?_, fun r hr => ?_⟩
  · have hq : q = base := hempty q (he ▸ rfl) hplaced.base_prefix
    exact absurd (hq ▸ List.prefix_refl _) hplaced.not_above
  · rw [hrecords] at hr
    cases hr

/-- **The steps of a workflow do not disturb each other**: in every run in which the tools stay inside, a
tool changes nothing that recorded outputs name, and its outputs are its own. -/
theorem steps_undisturbed (hapart : plan.KeepsApart)
    (hs : ((System.ofNext (StepsState.Begins base) (StepsState.next plan base fnmatch)).guarded
      (StaysInside base)).Reachable s) {t : ToolRun ν} (hinside : StaysInside base s (.tool t))
    (hnext : s.next plan base fnmatch (.tool t) = some s') :
    Undisturbed s s' ∧ ∀ named, (t.run base fnmatch s.disk).snd = some named → OwnOutputs t.name s'.disk named := by
  have howned : Owned plan base s := by
    refine hs.invariant (fun _ h => ?_) fun _ _ _ _ h hstep => ?_
    · exact owned_of_begins h
    · exact h.next hapart hstep.2 hstep.1
  have howned' : Owned plan base s' := howned.next hapart hinside hnext
  dsimp only [StepsState.next] at hnext
  split_ifs at hnext with hready
  obtain ⟨ht, hnew⟩ := mem_of_ready hready
  have hdisk : s'.disk = (t.run base fnmatch s.disk).fst := by
    rw [← Option.some.inj hnext]
    split <;> rfl
  constructor
  · intro r hr p hp q hpq
    rw [hdisk]
    refine get_run_of_other hapart ht hinside ?_ hpq
    refine (howned.named r hr p hp).imp_left fun ⟨name, hname, hdone, hplaced⟩ => ?_
    exact ⟨name, hname, fun heq => hnew (heq ▸ hdone), hplaced⟩
  · intro named hnamed p hp q hpq e he
    have hplaced := placed_of_run (hapart.entryName ht) hinside hnamed p hp
    exact howned'.written q e he t.name ht (hplaced.mono hpq)

end Runs

/-! ## A step called after the inputs of another -/

def sharedDirectory : List PyStr := [PyStr.ofString "cwl"]

def writesOne (name : PyStr) (killed : Option ℕ) : ToolRun ℕ where
  name := name
  stuck := []
  staged := []
  program := [.write (joinPath sharedDirectory name ++ [PyStr.ofString "o"]) 1]
  declared := (none, none)
  streams := (0, 0)
  accepted := true
  outputs := [.files ["o"] false false]
  killed := killed

def chain (first second : CwlPlanStep) (h : [first.name, second.name].Nodup) : CwlPlan := ⟨[first, second], h⟩

def inputsPlan : CwlPlan := chain ⟨"w.cwl#main/a.inputs", []⟩ ⟨"w.cwl#main/a", ["a.inputs"]⟩ (by decide +kernel)

def plainPlan : CwlPlan := chain ⟨"w.cwl#main/a", []⟩ ⟨"w.cwl#main/b", ["a"]⟩ (by decide +kernel)

def emptyJob : StepsState ℕ := ⟨[], [], []⟩

theorem emptyJob_begins : StepsState.Begins sharedDirectory emptyJob :=
  ⟨fun _ h => (by cases h), rfl, rfl⟩

def afterFirst (plan : CwlPlan) (name : PyStr) : Option (StepsState ℕ) :=
  emptyJob.next plan sharedDirectory (fun _ _ => false) (.tool (writesOne name none))

/-- **The output of `a.inputs` is gone** once `a` begins. -/
theorem inputs_of_another : ¬∀ (plan : CwlPlan) (base : List PyStr) (fnmatch : PyStr → PyStr → Bool)
    (s s' : StepsState ℕ) (t : ToolRun ℕ),
    (System.ofNext (StepsState.Begins base) (StepsState.next plan base fnmatch)).Reachable s →
    s.next plan base fnmatch (.tool t) = some s' → Undisturbed s s' := by
  intro hall
  let output : List PyStr := ["cwl", "a.inputs", "o"]
  have hfirst : (afterFirst inputsPlan "a.inputs").map (fun s => (s.records, (s.disk.get output).isSome,
      (s.next inputsPlan sharedDirectory (fun _ _ => false) (.tool (writesOne "a" (some 4)))).map
        fun s' => (s'.disk.get output).isSome))
      = some ([(PyStr.ofString "a.inputs", [output])], true, some false) := by
    decide +kernel
  obtain ⟨s, hs, heq⟩ := Option.map_eq_some_iff.mp hfirst
  obtain ⟨hrecords, hrest⟩ := Prod.mk.inj heq
  obtain ⟨hbefore, hsecond⟩ := Prod.mk.inj hrest
  obtain ⟨s', hs', hafter⟩ := Option.map_eq_some_iff.mp hsecond
  have hreach : (System.ofNext (StepsState.Begins sharedDirectory)
      (StepsState.next inputsPlan sharedDirectory fun _ _ => false)).Reachable s :=
    (System.Reachable.init emptyJob_begins).step hs
  have hsame := hall _ _ _ s s' _ hreach hs' (PyStr.ofString "a.inputs", [output]) (hrecords ▸ List.mem_cons_self) output
    List.mem_cons_self output (List.prefix_refl _)
  rw [hsame, hbefore] at hafter
  cases hafter

theorem writesOne_inside (name : PyStr) (s : StepsState ℕ) :
    StaysInside sharedDirectory s (.tool (writesOne name none)) := by
  refine ⟨fun _ h => (by cases h), fun _ h => (by cases h), fun patterns _ _ h text htext => ?_,
    fun _ h => absurd h List.not_mem_nil, fun e he => Or.inl ?_⟩
  · obtain ⟨rfl, -, -⟩ := OutputKind.files.inj (List.mem_singleton.mp h)
    rw [List.mem_singleton.mp htext]
    exact ⟨by decide, by decide⟩
  · rw [List.mem_singleton.mp he]
    exact List.prefix_append _ _

/-- **`b` leaves the output of `a`**, and its output is its own. -/
theorem steps_undisturbed_pair : ∃ s s' : StepsState ℕ, s.records.length = 1 ∧ s'.records.length = 2
    ∧ Undisturbed s s' := by
  have hrun : (afterFirst plainPlan "a").map (fun s => (s.records.length,
      (s.next plainPlan sharedDirectory (fun _ _ => false) (.tool (writesOne "b" none))).map
        fun s' => s'.records.length)) = some (1, some 2) := by
    decide +kernel
  obtain ⟨s, hs, heq⟩ := Option.map_eq_some_iff.mp hrun
  obtain ⟨hrecords, hsecond⟩ := Prod.mk.inj heq
  obtain ⟨s', hs', hrecords'⟩ := Option.map_eq_some_iff.mp hsecond
  have hapart : plainPlan.KeepsApart := by
    unfold CwlPlan.KeepsApart
    decide +kernel
  have hreach : ((System.ofNext (StepsState.Begins sharedDirectory)
      (StepsState.next plainPlan sharedDirectory fun _ _ => false)).guarded (StaysInside sharedDirectory)).Reachable s :=
    (System.Reachable.init emptyJob_begins).step ⟨hs, writesOne_inside _ _⟩
  exact ⟨s, s', hrecords, hrecords', (steps_undisturbed hapart hreach (writesOne_inside _ _) hs').1⟩
