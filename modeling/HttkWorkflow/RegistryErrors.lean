import HttkWorkflow.Effects
import HttkWorkflow.Registry
import Mathlib.Order.Lattice

/-!
# Forgetting and deleting a workspace

A registered workspace is written down in three places: the registry has its
name and path, the project it lies in may list it as a member, and its files
are on disk. `forget_workspace` takes it out of the first two, and
`delete_workspace` out of all three. Each has checks of its own, and an
operation that is refused by one should leave all three as they are.

The check of the outbound transfers does not manage that: it comes after
`_unregister_project_member`, so that a refused `forget_workspace` has already
taken the workspace out of its project (`pending_forget`). `forget_atomic` and
`delete_atomic` say for which states and errors the two are atomic. A ledger
that cannot be read counts as a refusal, and so do the errors of the
operations themselves, a removal of the files that stops on the way and a
write of the registry that does not return.

The functions of `httk.core` that find the project of a directory and take a
member out of its list are parameters. A call may change the list and raise.
-/

/-- **The three stores.** -/
structure RegistryStores (μ : Type) where
  registry : RegistryFile
  members : μ
  /-- The files below a resolved path, with their JSON objects where they hold one. -/
  files : PyStr → List (List PyStr × Option (List (PyStr × Json)))

/-- **What is used of `httk.core`**: `discover_project`, and `unregister_project_member`
with the lists it leaves. -/
structure CoreProjects (μ : Type) where
  discover : RegistryStores μ → PyStr → Except Exc (Option PyStr)
  unregister : μ → PyStr → PyStr → μ × Except Exc Unit

/-- How `shutil.rmtree` ends: everything is gone, or an error leaves some of it. -/
inductive RemovalEnding where
  | gone
  | fails (left : List (List PyStr × Option (List (PyStr × Json)))) (text : Message)

/-- **The environment of a call.** -/
structure RegistryEnv (μ : Type) where
  /-- `workspaces_path()`. -/
  file : PyStr
  resolver : PathResolver
  core : CoreProjects μ
  /-- How the removal of the files ends. -/
  removal : RemovalEnding
  /-- How the write of the registry ends. -/
  write : WriteEnding

namespace RegistryStores

variable {μ : Type}

section Definitions

variable (env : RegistryEnv μ)

/-- `_local_binding`, with the registry it reads. -/
def binding (s : RegistryStores μ) (name : PyStr) : Except Exc PyStr := do
  let workspaces ← readGlobal env.file s.registry
  localBinding name workspaces

/-- **`_unregister_project_member`**: the members it leaves, and whether it raises. -/
def memberOutcome (s : RegistryStores μ) (path : PyStr) (allowSealed : Bool) : μ × Except Exc Unit :=
  match env.core.discover s (env.resolver.resolve path) with
  | .error e => (s.members, .error e)
  | .ok none => (s.members, .ok ())
  | .ok (some project) =>
    let (members, result) := env.core.unregister s.members project path
    match result with
    | .ok _ => (members, .ok ())
    | .error e =>
      if e.cls.isValueError || e.cls = .sealed && allowSealed then (members, .ok ()) else (members, .error e)

/-- The transfer ledgers of a workspace, sorted by name. -/
def ledgers (s : RegistryStores μ) (path : PyStr) : List (PyStr × Option (List (PyStr × Json))) :=
  ((s.files path).filterMap fun e =>
    match e.fst with
    | [control, transfers, name] =>
      if control = ".httk-workspace" ∧ transfers = "transfers"
          ∧ (PyStr.ofString ".json").codes <:+ name.codes then some (name, e.snd) else none
    | _ => none).mergeSort fun a b => a.fst ≤ b.fst

/-- Whether a ledger can be read and its transfer is retired. -/
def retired (ledger : PyStr × Option (List (PyStr × Json))) : Bool :=
  match ledger.snd with
  | none => false
  | some record => Json.optEqStr (Json.get record "status") "retired"

def pendingLedgers : List (PyStr × Option (List (PyStr × Json))) → Except Exc (List PyStr)
  | [] => .ok []
  | (name, none) :: _ => raiseFormat [.lit "cannot read JSON object ", .raw name]
  | (name, some record) :: rest => do
    let pending ← pendingLedgers rest
    .ok (if Json.optEqStr (Json.get record "status") "retired" then pending else name :: pending)

/-- The check of `forget_workspace`. -/
def refuseLedgers (s : RegistryStores μ) (name path : PyStr) (force : Bool) : Except Exc Unit :=
  if force then .ok ()
  else do
    let pending ← pendingLedgers (s.ledgers (env.resolver.resolve path))
    refusePending name (pending ≠ [])

/-- Whether a directory is an execution workspace. -/
def isWorkspace (s : RegistryStores μ) (path : PyStr) : Bool :=
  [".httk-workspace", "format.json"] ∈ (s.files path).map Prod.fst

end Definitions

/-- A call, or a part of it. -/
abbrev Registering (μ α : Type) := Effects (RegistryStores μ) Exc α

open Effects

variable (env : RegistryEnv μ)

/-- `_unregister_project_member`. -/
def unregisterMember (path : PyStr) (allowSealed : Bool) : Registering μ Unit := do
  let s ← current
  emit (fun s' => { s' with members := (s.memberOutcome env path allowSealed).fst }) ()
  ofExcept (s.memberOutcome env path allowSealed).snd

def writeError (file : PyStr) : Exc := ⟨.osError, [.raw file]⟩

/-- **`_write_global`**, as it ends here. -/
def writeRegistry (workspaces : Registry) : Registering μ Unit :=
  match env.write with
  | .returns => emit (fun s => { s with registry := writeGlobal workspaces }) ()
  | .raises => do
    emit (fun s => { s with registry := writeGlobal workspaces }) ()
    raise (writeError env.file)
  | .fails => raise (writeError env.file)

def forgetWorkspace (name : PyStr) (force : Bool) : Registering μ PyStr := do
  let s ← current
  let path ← ofExcept (s.binding env name)
  unregisterMember env path true
  let s ← current
  ofExcept (s.refuseLedgers env name path force)
  let s ← current
  let workspaces ← ofExcept (readGlobal env.file s.registry)
  -- nothing has touched the registry, so that the name is still in it
  writeRegistry env ((RegistryEdit.forgets name).apply workspaces)
  pure path

def removeLocalWorkspace (path : PyStr) : Registering μ Unit := do
  let resolved := env.resolver.resolve path
  let s ← current
  if s.isWorkspace resolved then do
    unregisterMember env resolved false
    match env.removal with
    | .gone => emit (fun s => { s with files := Function.update s.files resolved [] }) ()
    | .fails left text => do
      emit (fun s => { s with files := Function.update s.files resolved left }) ()
      raise ⟨.osError, text⟩
  else raise ⟨.valueError, [.lit "not an httk execution workspace: ", .raw resolved]⟩

def deleteWorkspace (name : PyStr) (force : Bool) : Registering μ PyStr := do
  if force then do
    let s ← current
    let path ← ofExcept (s.binding env name)
    removeLocalWorkspace env path
    forgetWorkspace env name true
  else raise ⟨.valueError, [.lit "destroying the workspace ", .repr (some (.str name)), .lit " requires force"]⟩

/-! ## When they are atomic -/

/-- What a release of the membership leaves. -/
def afterRelease (s : RegistryStores μ) (path : PyStr) (allowSealed : Bool) : RegistryStores μ :=
  { s with members := (s.memberOutcome env path allowSealed).fst }

/-- What a deletion leaves when the files are gone. -/
def afterRemoval (s : RegistryStores μ) (path : PyStr) (left : List (List PyStr × Option (List (PyStr × Json)))) :
    RegistryStores μ :=
  { s.afterRelease env path false with files := Function.update s.files path left }

/-- **Nothing refuses a forget** once it has begun: the membership can be released, and the ledgers
are retired or not asked for. -/
def Unrefused (s : RegistryStores μ) (path : PyStr) (force : Bool) : Prop :=
  (s.memberOutcome env path true).snd = .ok () ∧
    (force = true ∨ ∀ ledger ∈ s.ledgers (env.resolver.resolve path), retired ledger = true)

/-- **A forget has no effect before it raises**: it is refused with the membership as it was, or the
write returns, or it fails and there was no membership to release. -/
def ForgetsCleanly (s : RegistryStores μ) (name : PyStr) (force : Bool) : Prop :=
  ∀ path, s.binding env name = .ok path →
    ¬s.Unrefused env path force ∧ s.afterRelease env path true = s ∨
    s.Unrefused env path force ∧
      (env.write = .returns ∨ env.write = .fails ∧ s.afterRelease env path true = s)

/-- **A deletion has no effect before it raises**: it is refused by the project, with the membership as it
was; or the removal of the files fails without effect, after a release without effect; or it goes
through, and what follows does not raise. -/
def DeletesCleanly (s : RegistryStores μ) (name : PyStr) : Prop :=
  ∀ path, s.binding env name = .ok path → s.isWorkspace (env.resolver.resolve path) = true →
    (s.memberOutcome env (env.resolver.resolve path) false).snd ≠ .ok ()
        ∧ s.afterRelease env (env.resolver.resolve path) false = s ∨
      (s.memberOutcome env (env.resolver.resolve path) false).snd = .ok () ∧
        match env.removal with
        | .fails left _ => s.afterRemoval env (env.resolver.resolve path) left = s
        | .gone => env.write = .returns ∧
            ((s.afterRemoval env (env.resolver.resolve path) []).memberOutcome env path true).snd = .ok ()

variable {env : RegistryEnv μ}

theorem pendingLedgers_eq_nil {l : List (PyStr × Option (List (PyStr × Json)))} :
    pendingLedgers l = .ok [] ↔ ∀ ledger ∈ l, retired ledger = true := by
  induction l with
  | nil => simp [pendingLedgers]
  | cons ledger rest ih =>
    obtain ⟨name, content⟩ := ledger
    rw [List.forall_mem_cons, ← ih]
    cases content with
    | none => simp [pendingLedgers, retired, raiseFormat]
    | some record =>
      rw [pendingLedgers, bind_eq_ok]
      unfold retired
      by_cases hretired : Json.optEqStr (Json.get record "status") "retired" = true <;> simp [hretired]

variable {force : Bool}

theorem refuseLedgers_eq_ok {s : RegistryStores μ} {name path : PyStr} : s.refuseLedgers env name path force = .ok () ↔
      (force = true ∨ ∀ ledger ∈ s.ledgers (env.resolver.resolve path), retired ledger = true) := by
  unfold refuseLedgers
  cases force with
  | true => simp
  | false =>
    rw [← pendingLedgers_eq_nil]
    unfold refusePending
    cases pendingLedgers (s.ledgers (env.resolver.resolve path)) with
    | error e => simp [bind, Except.bind]
    | ok pending => cases pending <;> simp [bind, Except.bind]

variable {s s' : RegistryStores μ} {path : PyStr}

variable {allowSealed : Bool}

@[simp] theorem returns_unregisterMember {u : Unit} : (unregisterMember env path allowSealed).Returns s u s' ↔
      (s.memberOutcome env path allowSealed).snd = .ok () ∧ s' = s.afterRelease env path allowSealed := by
  rw [unregisterMember, returns_current_bind]
  simp [afterRelease, eq_comm]

variable {e : Exc}

@[simp] theorem raises_unregisterMember : (unregisterMember env path allowSealed).Raises s e s' ↔
      (s.memberOutcome env path allowSealed).snd = .error e ∧ s' = s.afterRelease env path allowSealed := by
  rw [unregisterMember, raises_current_bind]
  simp [afterRelease, eq_comm]

variable {workspaces : Registry}

theorem raises_writeRegistry : (writeRegistry env workspaces).Raises s e s' ↔ writeError env.file = e ∧
      (env.write = .raises ∧ s' = { s with registry := writeGlobal workspaces } ∨
        env.write = .fails ∧ s' = s) := by
  unfold writeRegistry
  cases env.write <;> simp [eq_comm]

theorem binding_eq_ok {s : RegistryStores μ} {name path : PyStr} :
    s.binding env name = .ok path ↔ ∃ workspaces, readGlobal env.file s.registry = .ok workspaces
      ∧ localBinding name workspaces = .ok path := bind_eq_ok

theorem forgotten_ne {s : RegistryStores μ} {name path : PyStr}
    (hread : readGlobal env.file s.registry = .ok workspaces) (hbound : localBinding name workspaces = .ok path) :
    writeGlobal ((RegistryEdit.forgets name).apply workspaces) ≠ s.registry := by
  intro heq
  have habsolute : ∀ e ∈ workspaces, isAbsolutePath e.snd = true := by
    have hworld : RegistryWorld.read env.file ⟨s.registry, fun _ => .idle⟩ = .ok workspaces := hread
    exact absolute_of_read hworld
  have hforgotten : readGlobal env.file s.registry
      = .ok ((RegistryEdit.forgets name).apply workspaces) := by
    rw [← heq]
    exact read_writeGlobal fun e he => habsolute e (List.mem_filter.mp he).1
  have hsame : workspaces = (RegistryEdit.forgets name).apply workspaces :=
    Except.ok.inj (hread.symm.trans hforgotten)
  have hgone : workspaces.get name = none := by
    rw [hsame, RegistryEdit.apply, Dict.get_without, if_pos (List.mem_singleton_self _)]
  obtain ⟨_, -, hfound⟩ := bind_eq_ok.mp hbound
  rw [hgone] at hfound
  cases hfound

variable {name : PyStr}

/-- **How a forget raises.** -/
theorem raises_forgetWorkspace : (forgetWorkspace env name force).Raises s e s' ↔
      (s.binding env name = .error e ∧ s' = s) ∨ ∃ path, s.binding env name = .ok path ∧
        ((s.memberOutcome env path true).snd = .error e ∧ s' = s.afterRelease env path true ∨
          (s.memberOutcome env path true).snd = .ok () ∧
            (s.refuseLedgers env name path force = .error e ∧ s' = s.afterRelease env path true ∨
              s.refuseLedgers env name path force = .ok () ∧
                ∃ workspaces, readGlobal env.file s.registry = .ok workspaces ∧
                  (writeRegistry env ((RegistryEdit.forgets name).apply workspaces)).Raises
                    (s.afterRelease env path true) e s')) := by
  unfold forgetWorkspace
  simp only [raises_bind, raises_ofExcept, returns_ofExcept, raises_unregisterMember,
    returns_unregisterMember, raises_pure, not_raises_current, returns_current, false_or, and_false,
    exists_false, or_false, and_assoc, exists_eq_left, exists_eq_left', exists_and_left, Unique.exists_iff]
  refine or_congr (and_congr_right fun _ => eq_comm) (exists_congr fun path => and_congr_right fun hbound => ?_)
  obtain ⟨workspaces, hread, -⟩ := binding_eq_ok.mp hbound
  have hreread : readGlobal env.file (s.afterRelease env path true).registry = .ok workspaces := hread
  have hledgers : (s.afterRelease env path true).refuseLedgers env name path force
      = s.refuseLedgers env name path force := rfl
  simp only [hreread, hread, hledgers, reduceCtorEq, false_and, false_or, Except.ok.injEq, exists_eq_left',
    eq_comm (b := s')]

theorem refused_of_not {s : RegistryStores μ} (name : PyStr) (h : ¬s.Unrefused env path force) :
    (∃ e, (s.memberOutcome env path true).snd = .error e) ∨
      (s.memberOutcome env path true).snd = .ok () ∧ ∃ e, s.refuseLedgers env name path force = .error e := by
  cases hmember : (s.memberOutcome env path true).snd with
  | error e => exact Or.inl ⟨e, rfl⟩
  | ok _ =>
    refine Or.inr ⟨rfl, ?_⟩
    cases hledgers : s.refuseLedgers env name path force with
    | error e => exact ⟨e, rfl⟩
    | ok _ => exact absurd ⟨hmember, refuseLedgers_eq_ok.mp hledgers⟩ h

theorem forget_atomic (env : RegistryEnv μ) (s : RegistryStores μ) (name : PyStr) (force : Bool) :
    (∀ e s', (forgetWorkspace env name force).Raises s e s' → s' = s) ↔ s.ForgetsCleanly env name force := by
  constructor
  · intro h path hbound
    have hraise : ∀ {e s'}, _ → s' = s := fun {e s'} hcase => h e s' (raises_forgetWorkspace.mpr (Or.inr ⟨path, hbound, hcase⟩))
    by_cases hfree : s.Unrefused env path force
    · obtain ⟨hmember, hledgers⟩ := hfree
      have hpasses : s.refuseLedgers env name path force = .ok () := refuseLedgers_eq_ok.mpr hledgers
      obtain ⟨workspaces, hread, hlocal⟩ := binding_eq_ok.mp hbound
      refine Or.inr ⟨⟨hmember, hledgers⟩, ?_⟩
      cases hwrite : env.write with
      | returns => exact Or.inl rfl
      | raises =>
        have hsame := hraise (Or.inr ⟨hmember, Or.inr ⟨hpasses, workspaces, hread,
          raises_writeRegistry.mpr ⟨rfl, Or.inl ⟨hwrite, rfl⟩⟩⟩⟩)
        exact absurd (congrArg RegistryStores.registry hsame) (forgotten_ne hread hlocal)
      | fails =>
        exact Or.inr ⟨rfl, hraise (Or.inr ⟨hmember, Or.inr ⟨hpasses, workspaces, hread,
          raises_writeRegistry.mpr ⟨rfl, Or.inr ⟨hwrite, rfl⟩⟩⟩⟩)⟩
    · refine Or.inl ⟨hfree, ?_⟩
      rcases refused_of_not name hfree with ⟨e, he⟩ | ⟨hmember, e, he⟩
      · exact hraise (Or.inl ⟨he, rfl⟩)
      · exact hraise (Or.inr ⟨hmember, Or.inl ⟨he, rfl⟩⟩)
  · intro hclean e s' hraises
    rcases raises_forgetWorkspace.mp hraises with ⟨-, hs'⟩ | ⟨path, hbound, hcase⟩
    · exact hs'
    · rcases hclean path hbound with ⟨hrefused, hkept⟩ | ⟨⟨hmember, hledgers⟩, hwrite⟩
      · rcases hcase with ⟨-, hs'⟩ | ⟨hmember, ⟨-, hs'⟩ | ⟨hpasses, -⟩⟩
        · exact hs'.trans hkept
        · exact hs'.trans hkept
        · exact absurd ⟨hmember, refuseLedgers_eq_ok.mp hpasses⟩ hrefused
      · rcases hcase with ⟨he, -⟩ | ⟨-, ⟨he, -⟩ | ⟨-, workspaces, -, hraised⟩⟩
        · rw [hmember] at he
          cases he
        · rw [refuseLedgers_eq_ok.mpr hledgers] at he
          cases he
        · obtain ⟨-, ⟨hending, -⟩ | ⟨hending, hs'⟩⟩ := raises_writeRegistry.mp hraised
          · rcases hwrite with hreturns | ⟨hfails, -⟩
            · cases hending.symm.trans hreturns
            · cases hending.symm.trans hfails
          · rcases hwrite with hreturns | ⟨-, hkept⟩
            · cases hending.symm.trans hreturns
            · exact hs'.trans hkept

/-! ## Deletion -/

theorem returns_removeLocalWorkspace {s t : RegistryStores μ} :
    (removeLocalWorkspace env path).Returns s () t ↔ s.isWorkspace (env.resolver.resolve path) = true ∧
      (s.memberOutcome env (env.resolver.resolve path) false).snd = .ok () ∧ env.removal = .gone ∧
      t = s.afterRemoval env (env.resolver.resolve path) [] := by
  unfold removeLocalWorkspace
  rw [returns_current_bind]
  cases hfiles : s.isWorkspace (env.resolver.resolve path) with
  | false => simp
  | true =>
    cases hremoval : env.removal with
    | gone => simp [afterRemoval, eq_comm, afterRelease]
    | fails left text => simp

theorem raises_removeLocalWorkspace : (removeLocalWorkspace env path).Raises s e s' ↔
      (s.isWorkspace (env.resolver.resolve path) = false ∧ s' = s
        ∧ e = ⟨.valueError, [.lit "not an httk execution workspace: ", .raw (env.resolver.resolve path)]⟩) ∨
      s.isWorkspace (env.resolver.resolve path) = true ∧
        ((s.memberOutcome env (env.resolver.resolve path) false).snd = .error e
          ∧ s' = s.afterRelease env (env.resolver.resolve path) false ∨
        (s.memberOutcome env (env.resolver.resolve path) false).snd = .ok () ∧ ∃ left text,
          env.removal = .fails left text ∧ e = ⟨.osError, text⟩
          ∧ s' = s.afterRemoval env (env.resolver.resolve path) left) := by
  unfold removeLocalWorkspace
  rw [raises_current_bind]
  cases hfiles : s.isWorkspace (env.resolver.resolve path) with
  | false => simp [eq_comm, and_comm]
  | true =>
    cases hremoval : env.removal with
    | gone => simp
    | fails left text => simp [afterRemoval, eq_comm, afterRelease]

theorem raises_deleteWorkspace : (deleteWorkspace env name true).Raises s e s' ↔
      (s.binding env name = .error e ∧ s' = s) ∨ ∃ path, s.binding env name = .ok path ∧
        ((removeLocalWorkspace env path).Raises s e s' ∨
          ∃ t, (removeLocalWorkspace env path).Returns s () t ∧ (forgetWorkspace env name true).Raises t e s') := by
  unfold deleteWorkspace
  simp only [if_true, raises_bind, raises_ofExcept, returns_ofExcept, not_raises_current, returns_current, false_or,
    and_assoc, exists_eq_left, exists_eq_left', exists_and_left, Unique.exists_iff]
  refine or_congr (and_congr_right fun _ => eq_comm) Iff.rfl

theorem files_afterRemoval_ne {s : RegistryStores μ} (h : s.isWorkspace path = true) :
    (s.afterRemoval env path []).files ≠ s.files := by
  intro heq
  have hnil : s.files path = [] := by
    rw [← heq]
    exact Function.update_self path [] s.files
  unfold isWorkspace at h
  rw [hnil] at h
  cases h

theorem files_of_raises_forget {t s' : RegistryStores μ}
    (h : (forgetWorkspace env name force).Raises t e s') : s'.files = t.files := by
  rcases raises_forgetWorkspace.mp h with ⟨-, rfl⟩ | ⟨path, -, hcase⟩
  · rfl
  · rcases hcase with ⟨-, rfl⟩ | ⟨-, ⟨-, rfl⟩ | ⟨-, workspaces, -, hraised⟩⟩
    · rfl
    · rfl
    · obtain ⟨-, ⟨-, rfl⟩ | ⟨-, rfl⟩⟩ := raises_writeRegistry.mp hraised <;> rfl

theorem raises_forget_forced {t : RegistryStores μ} {name path : PyStr} (hbound : t.binding env name = .ok path) :
    (∃ e s', (forgetWorkspace env name true).Raises t e s') ↔
      ¬(env.write = .returns ∧ (t.memberOutcome env path true).snd = .ok ()) := by
  constructor
  · rintro ⟨e, s', hraises⟩ ⟨hwrite, hmember⟩
    rcases raises_forgetWorkspace.mp hraises with ⟨hunbound, -⟩ | ⟨path', hbound', hcase⟩
    · cases hbound.symm.trans hunbound
    · obtain rfl := Except.ok.inj (hbound.symm.trans hbound')
      rcases hcase with ⟨he, -⟩ | ⟨-, ⟨he, -⟩ | ⟨-, workspaces, -, hraised⟩⟩
      · cases hmember.symm.trans he
      · cases (refuseLedgers_eq_ok.mpr (Or.inl rfl)).symm.trans he
      · obtain ⟨-, ⟨hending, -⟩ | ⟨hending, -⟩⟩ := raises_writeRegistry.mp hraised
        · cases hwrite.symm.trans hending
        · cases hwrite.symm.trans hending
  · intro hnot
    obtain ⟨workspaces, hread, -⟩ := binding_eq_ok.mp hbound
    cases hmember : (t.memberOutcome env path true).snd with
    | error e => exact ⟨e, _, raises_forgetWorkspace.mpr (Or.inr ⟨path, hbound, Or.inl ⟨hmember, rfl⟩⟩)⟩
    | ok _ =>
      have hwritten : ∀ s', _ → ∃ e s', (forgetWorkspace env name true).Raises t e s' := fun s' hraised =>
        ⟨_, s', raises_forgetWorkspace.mpr (Or.inr ⟨path, hbound, Or.inr ⟨hmember, Or.inr
          ⟨refuseLedgers_eq_ok.mpr (Or.inl rfl), workspaces, hread, raises_writeRegistry.mpr ⟨rfl, hraised⟩⟩⟩⟩)⟩
      cases hwrite : env.write with
      | returns => exact absurd ⟨hwrite, hmember⟩ hnot
      | raises => exact hwritten _ (Or.inl ⟨hwrite, rfl⟩)
      | fails => exact hwritten _ (Or.inr ⟨hwrite, rfl⟩)

theorem delete_atomic (env : RegistryEnv μ) (s : RegistryStores μ) (name : PyStr) :
    (∀ e s', (deleteWorkspace env name true).Raises s e s' → s' = s) ↔ s.DeletesCleanly env name := by
  constructor
  · intro h path hbound hfiles
    have hremove : ∀ {e s'}, (removeLocalWorkspace env path).Raises s e s' → s' = s := fun {e s'} hraises =>
      h e s' (raises_deleteWorkspace.mpr (Or.inr ⟨path, hbound, Or.inl hraises⟩))
    cases hmember : (s.memberOutcome env (env.resolver.resolve path) false).snd with
    | error e =>
      refine Or.inl ⟨fun hok => (by cases hok), ?_⟩
      exact hremove (raises_removeLocalWorkspace.mpr (Or.inr ⟨hfiles, Or.inl ⟨hmember, rfl⟩⟩))
    | ok _ =>
      refine Or.inr ⟨rfl, ?_⟩
      cases hremoval : env.removal with
      | fails left text =>
        exact hremove (raises_removeLocalWorkspace.mpr
          (Or.inr ⟨hfiles, Or.inr ⟨hmember, left, text, hremoval, rfl, rfl⟩⟩))
      | gone =>
        by_contra hnot
        have hstill : (s.afterRemoval env (env.resolver.resolve path) []).binding env name = .ok path := hbound
        obtain ⟨e, s', hraises⟩ := (raises_forget_forced hstill).mpr hnot
        have hgone := returns_removeLocalWorkspace.mpr ⟨hfiles, hmember, hremoval, rfl⟩
        have hsame := h e s' (raises_deleteWorkspace.mpr (Or.inr ⟨path, hbound, Or.inr ⟨_, hgone, hraises⟩⟩))
        have hleft := files_of_raises_forget hraises
        rw [hsame] at hleft
        exact files_afterRemoval_ne hfiles hleft.symm
  · intro hclean e s' hraises
    rcases raises_deleteWorkspace.mp hraises with ⟨-, hs'⟩ | ⟨path, hbound, hremove | ⟨t, hgone, hforget⟩⟩
    · exact hs'
    · rcases raises_removeLocalWorkspace.mp hremove with ⟨-, hs', -⟩ | ⟨hfiles, hcase⟩
      · exact hs'
      · rcases hclean path hbound hfiles with ⟨hrefused, hkept⟩ | ⟨hmember, hend⟩
        · rcases hcase with ⟨-, hs'⟩ | ⟨hmember, -⟩
          · exact hs'.trans hkept
          · exact absurd hmember hrefused
        · rcases hcase with ⟨he, -⟩ | ⟨-, left, text, hremoval, -, hs'⟩
          · cases hmember.symm.trans he
          · rw [hremoval] at hend
            exact hs'.trans hend
    · obtain ⟨hfiles, hmember, hremoval, rfl⟩ := returns_removeLocalWorkspace.mp hgone
      rcases hclean path hbound hfiles with ⟨hrefused, -⟩ | ⟨-, hend⟩
      · exact absurd hmember hrefused
      · rw [hremoval] at hend
        have hstill : (s.afterRemoval env (env.resolver.resolve path) []).binding env name = .ok path := hbound
        exact absurd hend ((raises_forget_forced hstill).mp ⟨e, s', hforget⟩)

theorem raises_delete_unforced (h : (deleteWorkspace env name false).Raises s e s') : s' = s := h.2.symm

/-- **Errors are atomic** exactly if a forget and a deletion have no effect before they raise. -/
theorem registry_errors_atomic (env : RegistryEnv μ) (s : RegistryStores μ) (name : PyStr) (force : Bool) :
    ((∀ e s', (forgetWorkspace env name force).Raises s e s' → s' = s) ↔ s.ForgetsCleanly env name force) ∧
      ((∀ e s', (deleteWorkspace env name force).Raises s e s' → s' = s) ↔
        (force = true → s.DeletesCleanly env name)) := by
  refine ⟨forget_atomic env s name force, ?_⟩
  cases force with
  | false => exact ⟨fun _ h => (by cases h), fun _ e s' h => raises_delete_unforced h⟩
  | true => exact (delete_atomic env s name).trans ⟨fun h _ => h, fun h => h rfl⟩

/-! ## A workspace with a transfer under way -/

def plainProjects : CoreProjects (List PyStr) where
  discover := fun _ _ => .ok (some "/project")
  unregister := fun members _ path =>
    if path ∈ members then (members.filter (· ≠ path), .ok ()) else (members, .error ⟨.valueError, []⟩)

def plainEnv : RegistryEnv (List PyStr) where
  file := "workspaces.json"
  resolver := constantResolver "/project/work" (by decide)
  core := plainProjects
  removal := .gone
  write := .returns

def transferring : RegistryStores (List PyStr) where
  registry := writeGlobal [("work", "/project/work")]
  members := ["/project/work"]
  files := fun _ => [([".httk-workspace", "format.json"], some []),
    ([".httk-workspace", "transfers", "a.json"], some [("status", .str "sealed")])]

/-- **A forget that is refused** for the transfer has taken the workspace out of its project. -/
theorem pending_forget : ¬∀ (μ : Type) (env : RegistryEnv μ) (s : RegistryStores μ) (name : PyStr) (force : Bool)
    (e : Exc) (s' : RegistryStores μ), (forgetWorkspace env name force).Raises s e s' → s' = s := by
  intro hall
  have hrefused : (forgetWorkspace plainEnv "work" false transferring).snd.isOk = false := by
    decide +kernel
  have hmembers : ((forgetWorkspace plainEnv "work" false).final transferring).members = [] := by
    decide +kernel
  cases hraised : (forgetWorkspace plainEnv "work" false transferring).snd with
  | ok path =>
    rw [hraised] at hrefused
    cases hrefused
  | error e =>
    have hsame := hall _ plainEnv transferring "work" false e _ ⟨hraised, rfl⟩
    rw [hsame] at hmembers
    cases hmembers

end RegistryStores
