import HttkWorkflow.Errors
import HttkWorkflow.System
import Mathlib.Logic.Function.Basic

/-!
# The registry of workspaces

The registry is one JSON file that maps names to paths. `register_workspace`,
`adopt_workspace`, `forget_workspace` and the move of a workspace each read
it whole, edit what they read, and replace the file by the result. The file
is always replaced as a whole, so that every reader finds some registry; but
nothing ties the one that is written to the one that was read.

So a registration that is replaced by the result of an older read is lost,
although it returned normally (`registration_lost`). And a path is compared
with those that are registered where a name is registered, but not where a
workspace is moved: a name whose directory is gone keeps its path, and a move
onto that path binds it twice. As long as each write replaces the registry
that was read for it, and a move writes a path no other name has, every
registered name stays and no path is bound twice (`registrations_kept`).
-/

/-! ## The document -/

/-- **A registry**: the names and their paths. -/
abbrev Registry := Dict PyStr PyStr

/-- **What is at the path of the registry**: no file, one that cannot be read or decoded, or a value. -/
inductive RegistryFile where
  | absent
  | unreadable
  | document (value : Json)

/-- `Path.is_absolute` of a text. -/
def isAbsolutePath (path : PyStr) : Bool := path.codes.head? = some '/'.toNat

def readRegistryEntry (file : PyStr) (entry : PyStr × Json) : Except Exc (PyStr × PyStr) :=
  match entry.snd with
  | .obj record =>
    match Json.get record "path" with
    | some (.str location) =>
      if location.codes = [] ∨ isAbsolutePath location = false then
        .error ⟨.valueError, [.lit "workspace registry entry ", .repr (some (.str entry.fst)),
          .lit " has no absolute path: ", .raw file]⟩
      else .ok (entry.fst, location)
    | _ => .error ⟨.valueError, [.lit "workspace registry entry ", .repr (some (.str entry.fst)),
        .lit " has no absolute path: ", .raw file]⟩
  | _ => .error ⟨.valueError, [.lit "workspace registry has an invalid entry: ", .raw file]⟩

/-- **`_read_global`**. `file` is the path of the registry. -/
def readGlobal (file : PyStr) : RegistryFile → Except Exc Registry
  | .absent => .ok []
  | .unreadable => .error ⟨.valueError, [.lit "cannot read workspace registry ", .raw file]⟩
  | .document (.obj document) =>
    if Json.optEqStr (Json.get document "format") (PyStr.ofString "httk-workspaces") = false
        ∨ Json.optEqInt (Json.get document "format_version") 2 = false then
      .error ⟨.valueError, [.lit "workspace registry is not httk-workspaces format version 2: ", .raw file]⟩
    else
      match (Json.get document "workspaces").getD (.obj []) with
      | .obj entries => entries.mapM (readRegistryEntry file)
      | _ => .error ⟨.valueError,
          [.lit "workspace registry workspaces member is not an object: ", .raw file]⟩
  | .document _ => .error ⟨.valueError, [.lit "workspace registry is not a JSON object: ", .raw file]⟩

/-- **What `_write_global` writes.** -/
def writeGlobal (workspaces : Registry) : RegistryFile :=
  .document (.obj [("format", .str "httk-workspaces"), ("format_version", .int 2),
    ("workspaces", .obj (workspaces.map fun e => (e.fst, .obj [("path", .str e.snd)])))])

/-! ## The operations -/

/-- **How paths are resolved** at one moment: to an absolute path that is its own. -/
structure PathResolver where
  resolve : PyStr → PyStr
  absolute : ∀ path, isAbsolutePath (resolve path) = true
  idempotent : ∀ path, resolve (resolve path) = resolve path

def validWorkspaceName (name : PyStr) : Except Exc PyStr :=
  if name.codes = [] ∨ name.contains '/' = true ∨ name.contains ':' = true
      ∨ name ∈ [PyStr.ofString ".", PyStr.ofString ".."] then
    .error ⟨.valueError, [.lit "invalid workspace name: ", .repr (some (.str name)),
      .lit "; ':' is reserved for remote-qualified names"]⟩
  else .ok name

/-- The refusal of a name that is not registered. -/
def unknownWorkspace (name : PyStr) : Exc :=
  ⟨.valueError, [.lit "unknown workspace: ", .raw name,
    .lit "; register it with `httk workspace init` or list the registered ones with `httk workspace list`"]⟩

def refuseRegistered (resolver : PathResolver) (workspaces : Registry) (name location : PyStr) :
    Except Exc Unit := do
  let _ ← validWorkspaceName name
  if (workspaces.get name).isSome = true then
    .error ⟨.valueError, [.lit "workspace ", .repr (some (.str name)),
      .lit " is already registered; forget it first"]⟩
  else
    match workspaces.find? fun e => resolver.resolve e.snd = location with
    | some existing => .error ⟨.valueError, [.lit "workspace path is already registered as ",
        .repr (some (.str existing.fst))]⟩
    | none => .ok ()

/-- **`_local_binding`**: the path of a registered name. -/
def localBinding (name : PyStr) (workspaces : Registry) : Except Exc PyStr := do
  let _ ← validWorkspaceName name
  match workspaces.get name with
  | some path => .ok path
  | none => .error (unknownWorkspace name)

/-- What an operation is about to write, and for which name. -/
inductive RegistryEdit where
  | registers (name location : PyStr)
  | moves (name location : PyStr)
  | forgets (name : PyStr)

def RegistryEdit.apply (workspaces : Registry) : RegistryEdit → Registry
  | .registers name location => workspaces.set name location
  | .moves name location => workspaces.set name location
  | .forgets name => workspaces.without [name]

/-- **`register_workspace`** up to its write, with the registry it has read. -/
def registerWorkspace (resolver : PathResolver) (name path : PyStr) (workspaces : Registry) :
    Except Exc RegistryEdit := do
  let location := resolver.resolve path
  let _ ← refuseRegistered resolver workspaces name location
  .ok (.registers name location)

/-- **`_update_workspace_path`** up to its write. -/
def updateWorkspacePath (resolver : PathResolver) (name path : PyStr) (workspaces : Registry) :
    Except Exc RegistryEdit := do
  let _ ← validWorkspaceName name
  if (workspaces.get name).isSome = true then .ok (.moves name (resolver.resolve path))
  else .error (unknownWorkspace name)

/-- `forget_workspace` of a workspace with transfers that are not retired. -/
def refusePending (name : PyStr) (pending : Bool) : Except Exc Unit :=
  if pending = true then
    .error ⟨.valueError, [.lit "workspace ", .repr (some (.str name)),
      .lit " has unretired outbound transfers; fetch or retire them first, or use `workspace forget --force` to deregister the name anyway"]⟩
  else .ok ()

/-- **`forget_workspace`** from its second read to its write. It raises a `KeyError` where the name is
gone by then. -/
def forgetEdit (name : PyStr) (workspaces : Registry) : Option RegistryEdit :=
  if (workspaces.get name).isSome = true then some (.forgets name) else none

/-- **`adopt_workspace`** before it registers: whether the root or the name is there already. -/
def adoptable (resolver : PathResolver) (root chosen : PyStr) (workspaces : Registry) : Bool :=
  (workspaces.find? fun e => resolver.resolve e.snd = root).isNone && (workspaces.get chosen).isNone

/-! ## Processes and the file -/

/-- **Where a process is.** Between its read and its write it has the registry it has read. -/
inductive RegistryPhase where
  | idle
  | adopting (name root : PyStr)
  | forgetting (name : PyStr) (pending : Bool)
  | moving (name destination : PyStr)
  | writing (base : Registry) (edit : RegistryEdit)

/-- **The registry file** and the processes that use it. -/
structure RegistryWorld where
  file : RegistryFile
  phase : ℕ → RegistryPhase

/-- How a write ends: the caller goes on and returns, the file is replaced and something after it
raises, or the file is not replaced. -/
inductive WriteEnding where
  | returns
  | raises
  | fails

/-- **The steps.** The two reads of an adoption, of a forget and of a move are two steps. A name that is
to be moved may be known from the project instead. -/
inductive RegistryAction where
  | register (p : ℕ) (resolver : PathResolver) (name path : PyStr)
  | adopt (p : ℕ) (resolver : PathResolver) (root chosen : PyStr)
  | registerAdopted (p : ℕ) (resolver : PathResolver)
  | forget (p : ℕ) (name : PyStr) (pending : Bool)
  | forgetAgain (p : ℕ)
  | move (p : ℕ) (name destination : PyStr) (member : Bool)
  | update (p : ℕ) (resolver : PathResolver)
  | write (p : ℕ) (ending : WriteEnding)
  | crash (p : ℕ)

namespace RegistryWorld

/-- What a process reads. -/
def read (file : PyStr) (w : RegistryWorld) : Except Exc Registry := readGlobal file w.file

def setPhase (w : RegistryWorld) (p : ℕ) (phase : RegistryPhase) : RegistryWorld :=
  { w with phase := Function.update w.phase p phase }

/-- A process has read the registry and is about to write, or has raised. -/
def edits (file : PyStr) (w : RegistryWorld) (p : ℕ) (edit : Registry → Option RegistryEdit) :
    RegistryWorld :=
  match (w.read file).toOption.bind fun base => (edit base).map (base, ·) with
  | some (base, edit) => w.setPhase p (.writing base edit)
  | none => w.setPhase p .idle

/-- **The operations on the registry, step by step.** -/
def next (file : PyStr) (w : RegistryWorld) : RegistryAction → Option RegistryWorld
  | .register p resolver name path =>
    match w.phase p with
    | .idle => some (w.edits file p fun base => (registerWorkspace resolver name path base).toOption)
    | _ => none
  | .adopt p resolver root chosen =>
    match w.phase p, w.read file with
    | .idle, .ok workspaces =>
      if adoptable resolver root chosen workspaces = true then some (w.setPhase p (.adopting chosen root))
      else some w
    | .idle, .error _ => some w
    | _, _ => none
  | .registerAdopted p resolver =>
    match w.phase p with
    | .adopting name root => some (w.edits file p fun base => (registerWorkspace resolver name root base).toOption)
    | _ => none
  | .forget p name pending =>
    match w.phase p with
    | .idle =>
      match (w.read file).bind (localBinding name) with
      | .ok _ => some (w.setPhase p (.forgetting name pending))
      | .error _ => some w
    | _ => none
  | .forgetAgain p =>
    match w.phase p with
    | .forgetting name pending =>
      match refusePending name pending with
      | .ok () => some (w.edits file p (forgetEdit name))
      | .error _ => some (w.setPhase p .idle)
    | _ => none
  | .move p name destination member =>
    match w.phase p with
    | .idle =>
      match (w.read file).bind (localBinding name) with
      | .ok _ => some (w.setPhase p (.moving name destination))
      | .error _ => if member = true then some (w.setPhase p (.moving name destination)) else some w
    | _ => none
  | .update p resolver =>
    match w.phase p with
    | .moving name destination =>
      some (w.edits file p fun base => (updateWorkspacePath resolver name destination base).toOption)
    | _ => none
  | .write p ending =>
    match w.phase p, ending with
    | .writing _ _, .fails => some (w.setPhase p .idle)
    | .writing base edit, _ =>
      some { (w.setPhase p .idle) with file := writeGlobal (edit.apply base) }
    | _, _ => none
  | .crash p => some (w.setPhase p .idle)

end RegistryWorld

/-! ## Histories -/

/-- **What an observer remembers**: the names whose registration has returned, and that were not
forgotten since. -/
def observeRegistered (registered : List PyStr) (w : RegistryWorld) (a : RegistryAction)
    (_ : RegistryWorld) : List PyStr :=
  match a with
  | .write p ending =>
    match w.phase p, ending with
    | .writing _ (.registers name _), .returns => name :: registered
    | .writing _ (.forgets _), .fails => registered
    | .writing _ (.forgets name), _ => registered.filter (· ≠ name)
    | _, _ => registered
  | _ => registered

def UniquePaths (workspaces : Registry) : Prop := ∀ name name' path,
  workspaces.get name = some path → workspaces.get name' = some path → name = name'

/-- **What is to hold**: the registered names are in the registry, and no two names in it have one
path. -/
structure RegistryKept (file : PyStr) (w : RegistryWorld) (registered : List PyStr) : Prop where
  kept : ∀ name ∈ registered, ∃ workspaces, w.read file = .ok workspaces ∧ (workspaces.get name).isSome = true
  unique : ∀ workspaces, w.read file = .ok workspaces → UniquePaths workspaces

/-- **The registry in use**, with its observer. It begins with any registry that meets what is to hold. -/
def registryUse (file : PyStr) : System (RegistryWorld × List PyStr) RegistryAction :=
  System.ofNext (fun s => (∀ p, s.fst.phase p = .idle) ∧ RegistryKept file s.fst s.snd)
    (System.watching (RegistryWorld.next file) observeRegistered)

/-- **A step that is safe**: what is replaced is the registry that was read, and a move writes a path
that no other name has in it. -/
def RegistryAction.Safe (file : PyStr) (w : RegistryWorld) : RegistryAction → Prop
  | .write p _ =>
    match w.phase p with
    | .writing base edit => w.read file = .ok base ∧
      match edit with
      | .moves name location => ∀ name', base.get name' = some location → name' = name
      | _ => True
    | _ => True
  | _ => True

/-! ## What is written is read -/

section ReadBack

variable {file : PyStr} {workspaces : Registry}

theorem readRegistryEntry_ok {entry : PyStr × Json} {e : PyStr × PyStr}
    (h : readRegistryEntry file entry = .ok e) : e.snd.codes ≠ [] ∧ isAbsolutePath e.snd = true := by
  unfold readRegistryEntry at h
  split at h
  · split at h
    · split_ifs at h with hpath
      obtain rfl := Except.ok.inj h
      obtain ⟨hne, habsolute⟩ := not_or.mp hpath
      exact ⟨hne, eq_true_of_ne_false habsolute⟩
    · cases h
  · cases h

theorem absolute_of_read {w : RegistryWorld} (h : w.read file = .ok workspaces) :
    ∀ e ∈ workspaces, isAbsolutePath e.snd = true := by
  unfold RegistryWorld.read readGlobal at h
  split at h
  · obtain rfl := Except.ok.inj h
    exact List.forall_mem_nil _
  · cases h
  · split_ifs at h
    split at h
    · intro e he
      obtain ⟨entry, -, hentry⟩ := (mem_of_mapM_ok h).mp he
      exact (readRegistryEntry_ok hentry).2
    · cases h
  · cases h

theorem read_writeGlobal (habsolute : ∀ e ∈ workspaces, isAbsolutePath e.snd = true) :
    readGlobal file (writeGlobal workspaces) = .ok workspaces := by
  have hentries : (workspaces.map fun e => (e.fst, Json.obj [("path", .str e.snd)])).mapM
      (readRegistryEntry file) = .ok workspaces := by
    induction workspaces with
    | nil => rfl
    | cons e workspaces ih =>
      obtain ⟨he, hrest⟩ := List.forall_mem_cons.mp habsolute
      have hne : e.snd.codes ≠ [] := by
        intro hnil
        rw [isAbsolutePath, hnil] at he
        cases he
      have hentry : readRegistryEntry file (e.fst, Json.obj [("path", .str e.snd)]) = .ok e := by
        have hget : Json.get [("path", .str e.snd)] "path" = some (.str e.snd) := rfl
        simp only [readRegistryEntry, hget]
        rw [if_neg (by simp [hne, he])]
      rw [List.map_cons, List.mapM_cons, hentry, ih hrest]
      rfl
  exact hentries

end ReadBack

/-! ## What a step can do -/

/-- **What an edit is to be**: of an absolute path, and a registration of one that no name has. -/
def RegistryEdit.Sound (base : Registry) : RegistryEdit → Prop
  | .registers _ location => isAbsolutePath location = true ∧ ∀ name', base.get name' ≠ some location
  | .moves _ location => isAbsolutePath location = true
  | .forgets _ => True

variable {edit : RegistryEdit} {base : Registry}

variable {resolver : PathResolver}

theorem sound_of_register {name path : PyStr}
    (h : registerWorkspace resolver name path base = .ok edit) : edit.Sound base := by
  unfold registerWorkspace at h
  obtain ⟨_, hrefused, h⟩ := bind_eq_ok.mp h
  obtain rfl := Except.ok.inj h
  refine ⟨resolver.absolute path, fun name' hname' => ?_⟩
  unfold refuseRegistered at hrefused
  obtain ⟨_, -, hrefused⟩ := bind_eq_ok.mp hrefused
  split_ifs at hrefused
  split at hrefused
  · cases hrefused
  · rename_i hnone
    have hentry := List.find?_eq_none.mp hnone _ (Dict.mem_of_get hname')
    exact hentry (decide_eq_true (resolver.idempotent path))

theorem sound_of_update {name path : PyStr}
    (h : updateWorkspacePath resolver name path base = .ok edit) : edit.Sound base := by
  unfold updateWorkspacePath at h
  obtain ⟨_, -, h⟩ := bind_eq_ok.mp h
  split_ifs at h
  obtain rfl := Except.ok.inj h
  exact resolver.absolute path

variable {name : PyStr}

theorem sound_of_forget (h : forgetEdit name base = some edit) : edit.Sound base := by
  unfold forgetEdit at h
  split_ifs at h
  obtain rfl := Option.some.inj h
  exact trivial

def RegistryAction.Unnoticed (w : RegistryWorld) (a : RegistryAction) : Prop :=
  ∀ registered w', observeRegistered registered w a w' = registered

namespace RegistryWorld

variable {file : PyStr} {w w' : RegistryWorld} {p q : ℕ} {phase : RegistryPhase}

/-- **What a step can do**: a process goes on without writing, has read the registry for a sound edit, or
writes. -/
inductive Moves (file : PyStr) (w : RegistryWorld) : RegistryAction → RegistryWorld → Prop
  | stays {a : RegistryAction} (hlog : a.Unnoticed w) : Moves file w a w
  | quiet {a : RegistryAction} {p : ℕ} {phase : RegistryPhase}
      (hphase : ∀ base edit, phase ≠ .writing base edit) (hlog : a.Unnoticed w) :
      Moves file w a (w.setPhase p phase)
  | reads {a : RegistryAction} {p : ℕ} {base : Registry} {edit : RegistryEdit}
      (hread : w.read file = .ok base) (hsound : edit.Sound base) (hlog : a.Unnoticed w) :
      Moves file w a (w.setPhase p (.writing base edit))
  | writes {p : ℕ} {base : Registry} {edit : RegistryEdit} {ending : WriteEnding}
      (hphase : w.phase p = .writing base edit) (hending : ending ≠ .fails) :
      Moves file w (.write p ending) { (w.setPhase p .idle) with file := writeGlobal (edit.apply base) }

variable {a : RegistryAction}

theorem moves_edits (hlog : a.Unnoticed w) {edit : Registry → Option RegistryEdit}
    (hsound : ∀ base e, edit base = some e → e.Sound base) : w.Moves file a (w.edits file p edit) := by
  unfold edits
  split
  · rename_i base e h
    obtain ⟨base', hread, h⟩ := Option.bind_eq_some_iff.mp h
    obtain ⟨e', he, hpair⟩ := Option.map_eq_some_iff.mp h
    obtain ⟨rfl, rfl⟩ := Prod.mk.inj hpair
    exact Moves.reads (toOption_eq_some.mp hread) (hsound _ _ he) hlog
  · exact Moves.quiet (by simp) hlog

theorem moves_of_next (hnext : w.next file a = some w') : w.Moves file a w' := by
  cases a with
  | register p resolver name path =>
    simp only [next] at hnext
    split at hnext
    · obtain rfl := Option.some.inj hnext
      exact moves_edits (fun _ _ => rfl) fun base e he => sound_of_register (toOption_eq_some.mp he)
    · cases hnext
  | adopt p resolver root chosen =>
    simp only [next] at hnext
    split at hnext
    · split_ifs at hnext
      · obtain rfl := Option.some.inj hnext
        exact Moves.quiet (by simp) fun _ _ => rfl
      · obtain rfl := Option.some.inj hnext
        exact Moves.stays fun _ _ => rfl
    · obtain rfl := Option.some.inj hnext
      exact Moves.stays fun _ _ => rfl
    · cases hnext
  | registerAdopted p resolver =>
    simp only [next] at hnext
    split at hnext
    · obtain rfl := Option.some.inj hnext
      exact moves_edits (fun _ _ => rfl) fun base e he => sound_of_register (toOption_eq_some.mp he)
    · cases hnext
  | forget p name pending =>
    simp only [next] at hnext
    split at hnext
    · split at hnext
      · obtain rfl := Option.some.inj hnext
        exact Moves.quiet (by simp) fun _ _ => rfl
      · obtain rfl := Option.some.inj hnext
        exact Moves.stays fun _ _ => rfl
    · cases hnext
  | forgetAgain p =>
    simp only [next] at hnext
    split at hnext
    · split at hnext
      · obtain rfl := Option.some.inj hnext
        exact moves_edits (fun _ _ => rfl) fun base e he => sound_of_forget he
      · obtain rfl := Option.some.inj hnext
        exact Moves.quiet (by simp) fun _ _ => rfl
    · cases hnext
  | move p name destination member =>
    simp only [next] at hnext
    split at hnext
    · split at hnext
      · obtain rfl := Option.some.inj hnext
        exact Moves.quiet (by simp) fun _ _ => rfl
      · split_ifs at hnext
        · obtain rfl := Option.some.inj hnext
          exact Moves.quiet (by simp) fun _ _ => rfl
        · obtain rfl := Option.some.inj hnext
          exact Moves.stays fun _ _ => rfl
    · cases hnext
  | update p resolver =>
    simp only [next] at hnext
    split at hnext
    · obtain rfl := Option.some.inj hnext
      exact moves_edits (fun _ _ => rfl) fun base e he => sound_of_update (toOption_eq_some.mp he)
    · cases hnext
  | write p ending =>
    simp only [next] at hnext
    split at hnext
    · rename_i base edit hphase
      obtain rfl := Option.some.inj hnext
      refine Moves.quiet (by simp) fun registered _ => ?_
      cases edit <;> simp [observeRegistered, hphase]
    · rename_i base edit hphase hending
      obtain rfl := Option.some.inj hnext
      exact Moves.writes hphase hending
    · cases hnext
  | crash p =>
    obtain rfl := Option.some.inj hnext
    exact Moves.quiet (by simp) fun _ _ => rfl

/-! ## What every step keeps -/

/-- **Who is about to write** has read absolute paths, and has a sound edit of them. -/
def Ready (w : RegistryWorld) : Prop := ∀ p base edit, w.phase p = .writing base edit →
  (∀ e ∈ base, isAbsolutePath e.snd = true) ∧ edit.Sound base

@[simp] theorem phase_setPhase (w : RegistryWorld) (p : ℕ) (phase : RegistryPhase) :
    (w.setPhase p phase).phase p = phase := by
  simp [setPhase]

theorem phase_setPhase_of_ne (h : q ≠ p) : (w.setPhase p phase).phase q = w.phase q := by
  simp [setPhase, h]

theorem Ready.setPhase (h : w.Ready) (hphase : ∀ base edit, phase = .writing base edit →
    (∀ e ∈ base, isAbsolutePath e.snd = true) ∧ edit.Sound base) : (w.setPhase p phase).Ready := by
  intro q base edit hq
  by_cases hqp : q = p
  · subst hqp
    exact hphase base edit ((phase_setPhase w q phase).symm.trans hq)
  · exact h q base edit ((phase_setPhase_of_ne hqp).symm.trans hq)

theorem Ready.next (h : w.Ready) (hnext : w.next file a = some w') : w'.Ready := by
  cases moves_of_next hnext with
  | stays _ => exact h
  | quiet hphase _ => exact h.setPhase fun base edit heq => absurd heq (hphase base edit)
  | reads hread hsound _ =>
    refine h.setPhase fun base edit heq => ?_
    obtain ⟨rfl, rfl⟩ := RegistryPhase.writing.inj heq
    exact ⟨absolute_of_read hread, hsound⟩
  | @writes p _ _ _ _ _ =>
    have hidle : (w.setPhase p .idle).Ready := h.setPhase fun base edit heq => by cases heq
    exact hidle

theorem absolute_apply {base : Registry} {edit : RegistryEdit}
    (hbase : ∀ e ∈ base, isAbsolutePath e.snd = true) (hsound : edit.Sound base) :
    ∀ e ∈ edit.apply base, isAbsolutePath e.snd = true := by
  cases edit with
  | registers name location =>
    exact List.forall_mem_cons.mpr ⟨hsound.1, fun e he => hbase e (List.mem_filter.mp he).1⟩
  | moves name location =>
    exact List.forall_mem_cons.mpr ⟨hsound, fun e he => hbase e (List.mem_filter.mp he).1⟩
  | forgets name => exact fun e he => hbase e (List.mem_filter.mp he).1

theorem uniquePaths_set {base : Registry} (h : UniquePaths base) {name location : PyStr}
    (hlocation : ∀ name', base.get name' = some location → name' = name) :
    UniquePaths (base.set name location) := by
  intro first second path hfirst hsecond
  rw [Dict.get_set] at hfirst hsecond
  split_ifs at hfirst hsecond with h₁ h₂ h₂
  · exact h₁.trans h₂.symm
  · rw [← Option.some.inj hfirst] at hsecond
    exact absurd (hlocation second hsecond) h₂
  · rw [← Option.some.inj hsecond] at hfirst
    exact absurd (hlocation first hfirst) h₁
  · exact h first second path hfirst hsecond

theorem uniquePaths_without {base : Registry} (h : UniquePaths base) (name : PyStr) :
    UniquePaths (base.without [name]) := by
  intro first second path hfirst hsecond
  rw [Dict.get_without] at hfirst hsecond
  split_ifs at hfirst hsecond
  exact h first second path hfirst hsecond

end RegistryWorld

theorem isSome_apply (h : (base.get name).isSome = true) (hedit : edit ≠ .forgets name) :
    ((edit.apply base).get name).isSome = true := by
  cases edit with
  | registers other location =>
    rw [RegistryEdit.apply, Dict.get_set]
    split_ifs
    · rfl
    · exact h
  | moves other location =>
    rw [RegistryEdit.apply, Dict.get_set]
    split_ifs
    · rfl
    · exact h
  | forgets other =>
    have hne : name ∉ [other] := fun hmem => hedit (congrArg _ (List.mem_singleton.mp hmem).symm)
    rw [RegistryEdit.apply, Dict.get_without, if_neg hne]
    exact h

variable {registered : List PyStr} {w w' : RegistryWorld}

theorem noticed_of_write {p : ℕ} {ending : WriteEnding} (hphase : w.phase p = .writing base edit)
    (hending : ending ≠ .fails) (h : name ∈ observeRegistered registered w (.write p ending) w') :
    (∃ location, edit = .registers name location) ∨ (name ∈ registered ∧ edit ≠ .forgets name) := by
  cases edit with
  | registers other location =>
    have hother : name = other ∨ name ∈ registered := by
      cases ending with
      | returns => simpa [observeRegistered, hphase] using h
      | raises => exact Or.inr (by simpa [observeRegistered, hphase] using h)
      | fails => exact absurd rfl hending
    rcases hother with rfl | hname
    · exact Or.inl ⟨location, rfl⟩
    · exact Or.inr ⟨hname, by simp⟩
  | moves other location =>
    exact Or.inr ⟨by simpa [observeRegistered, hphase] using h, by simp⟩
  | forgets other =>
    have hother : name ∈ registered ∧ name ≠ other := by
      cases ending with
      | returns => simpa [observeRegistered, hphase] using h
      | raises => simpa [observeRegistered, hphase] using h
      | fails => exact absurd rfl hending
    exact Or.inr ⟨hother.1, fun heq => hother.2 (RegistryEdit.forgets.inj heq).symm⟩

/-- **A safe step keeps the registrations.** -/
theorem RegistryKept.next {file : PyStr}
    (h : RegistryKept file w registered) (hready : w.Ready) {a : RegistryAction} (hsafe : a.Safe file w)
    (hnext : w.next file a = some w') : RegistryKept file w' (observeRegistered registered w a w') := by
  cases RegistryWorld.moves_of_next hnext with
  | stays hlog =>
    rw [hlog]
    exact h
  | quiet _ hlog =>
    rw [hlog]
    exact ⟨h.kept, h.unique⟩
  | reads _ _ hlog =>
    rw [hlog]
    exact ⟨h.kept, h.unique⟩
  | @writes p base edit ending hphase hending =>
    obtain ⟨habsolute, hsound⟩ := hready p base edit hphase
    obtain ⟨hread, hmoves⟩ : w.read file = .ok base ∧ _ := by
      simpa only [RegistryAction.Safe, hphase] using hsafe
    have hwritten : readGlobal file _ = _ := read_writeGlobal (RegistryWorld.absolute_apply habsolute hsound)
    have hbase : ∀ name ∈ registered, (base.get name).isSome = true := by
      intro name hname
      obtain ⟨workspaces, hworkspaces, hsome⟩ := h.kept name hname
      obtain rfl := Except.ok.inj (hread.symm.trans hworkspaces)
      exact hsome
    have hunique : UniquePaths (edit.apply base) := by
      have hold := h.unique base hread
      cases edit with
      | registers name location =>
        exact RegistryWorld.uniquePaths_set hold fun name' hname' => absurd hname' (hsound.2 name')
      | moves name location => exact RegistryWorld.uniquePaths_set hold hmoves
      | forgets name => exact RegistryWorld.uniquePaths_without hold name
    refine ⟨fun name hname => ⟨edit.apply base, hwritten, ?_⟩, fun workspaces hworkspaces => ?_⟩
    · rcases noticed_of_write hphase hending hname with ⟨location, rfl⟩ | ⟨hname, hedit⟩
      · rw [RegistryEdit.apply, Dict.get_set, if_pos rfl]
        rfl
      · exact isSome_apply (hbase name hname) hedit
    · obtain rfl := Except.ok.inj (hwritten.symm.trans hworkspaces)
      exact hunique

def safeRegistryUse (file : PyStr) : System (RegistryWorld × List PyStr) RegistryAction :=
  (registryUse file).guarded fun s a => a.Safe file s.fst

/-- **Registered names stay and paths have one name**, in every run of safe steps. -/
theorem registrations_kept {file : PyStr} {w : RegistryWorld} {registered : List PyStr}
    (h : (safeRegistryUse file).Reachable (w, registered)) : RegistryKept file w registered := by
  have hinvariant : ∀ s, (safeRegistryUse file).Reachable s → s.fst.Ready ∧ RegistryKept file s.fst s.snd := by
    intro s hs
    refine System.Reachable.invariant (I := fun s => s.fst.Ready ∧ RegistryKept file s.fst s.snd)
      (fun s hinit => ?_) (fun s a s' _ hinv hstep => ?_) hs
    · refine ⟨fun p base edit hp => ?_, hinit.2⟩
      cases (hinit.1 p).symm.trans hp
    · obtain ⟨hready, hkept⟩ := hinv
      obtain ⟨hstep, hsafe⟩ := hstep
      obtain ⟨hnext, hregistered⟩ := System.watching_eq_some.mp hstep
      exact ⟨hready.next hnext, hregistered ▸ hkept.next hready hsafe hnext⟩
  exact (hinvariant _ h).2

/-! ## Two registrations at once -/

def noRegistry : RegistryWorld := ⟨.absent, fun _ => .idle⟩

theorem noRegistry_kept (file : PyStr) : RegistryKept file noRegistry [] :=
  ⟨List.forall_mem_nil _, fun workspaces h => Except.ok.inj h ▸ fun _ _ _ hget => by cases hget⟩

def constantResolver (path : PyStr) (h : isAbsolutePath path = true) : PathResolver :=
  ⟨fun _ => path, fun _ => h, fun _ => rfl⟩

/-- A resolver that has nothing to resolve in a path that is absolute. -/
def plainResolver : PathResolver where
  resolve path := if isAbsolutePath path = true then path else "/"
  absolute path := by split_ifs with h <;> first | exact h | rfl
  idempotent path := by split_ifs <;> rfl

/-- **Two processes, one after the other**: the second registration is made upon the first, while a third process
that had read before dies; then the first workspace moves. -/
theorem registrations_kept_one : ∃ w registered, registered = [PyStr.ofString "second", PyStr.ofString "first"]
    ∧ w.read "workspaces.json" = .ok [("first", "/d"), ("second", "/b")]
    ∧ RegistryKept "workspaces.json" w registered := by
  have h₀ : (safeRegistryUse "workspaces.json").Reachable (noRegistry, []) :=
    System.Reachable.init ⟨fun _ => rfl, noRegistry_kept _⟩
  have h₁ := h₀.next (.register 0 plainResolver "first" "/a") trivial rfl
  have h₂ := h₁.next (.register 2 plainResolver "third" "/c") trivial rfl
  have h₃ := h₂.next (.write 0 .returns) ⟨rfl, trivial⟩ rfl
  have h₄ := h₃.next (.crash 2) trivial rfl
  have h₅ := h₄.next (.register 1 plainResolver "second" "/b") trivial rfl
  have h₆ := h₅.next (.write 1 .returns) ⟨rfl, trivial⟩ rfl
  have h₇ := h₆.next (.move 0 "first" "/d" true) trivial rfl
  have h₈ := h₇.next (.update 0 plainResolver) trivial rfl
  have h₉ := h₈.next (.write 0 .returns) ⟨rfl, fun _ h => by
    have hmem : PyStr.ofString "/d" ∈ _ := List.mem_map_of_mem (f := Prod.snd) (Dict.mem_of_get h)
    exact absurd hmem (by decide)⟩ rfl
  exact ⟨_, _, rfl, rfl, registrations_kept h₉⟩

def registerTwice : List RegistryAction :=
  [.register 0 (constantResolver "/a" rfl) "first" "/a", .register 1 (constantResolver "/b" rfl) "second" "/b",
    .write 0 .returns, .write 1 .returns]

/-- **A registration is lost** that another process writes over with what it had read before. -/
theorem registration_lost : ∃ w registered, (registryUse "workspaces.json").Reachable (w, registered)
    ∧ ¬RegistryKept "workspaces.json" w registered := by
  have hrun : ∃ s, System.follow (System.watching (RegistryWorld.next "workspaces.json") observeRegistered)
      (noRegistry, []) registerTwice = some s ∧ s.fst.file = writeGlobal [("second", "/b")]
        ∧ s.snd = ["second", "first"] := ⟨_, rfl, rfl, rfl⟩
  obtain ⟨⟨w, registered⟩, hfollow, hfile, hregistered⟩ := hrun
  have hinit : (registryUse "workspaces.json").Reachable (noRegistry, []) :=
    System.Reachable.init ⟨fun _ => rfl, noRegistry_kept _⟩
  refine ⟨w, registered, (System.run_of_follow hfollow).reachable hinit, fun h => ?_⟩
  obtain ⟨workspaces, hread, hfirst⟩ := h.kept "first" (by rw [show registered = _ from hregistered]; decide)
  have hsecond : w.read "workspaces.json" = .ok [("second", "/b")] := by
    rw [RegistryWorld.read, show w.file = _ from hfile]
    rfl
  obtain rfl := Except.ok.inj (hread.symm.trans hsecond)
  exact absurd hfirst (by decide)
