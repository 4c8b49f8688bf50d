import HttkWorkflow.GarbageCollection
import HttkWorkflow.System

/-!
# The removal of jobs

`remove_jobs` is given the markers an operator selected, and works in two
phases. The preflight looks at the whole selection: the kinds, the seals, the
joins of the markers that are not terminal, and whether each payload is a
directory below directories. One refusal in it refuses every job. Then each
job is removed for itself, its marker first. The unlink of the marker is what
decides: a manager that has renamed it meanwhile makes the unlink fail, and
the payload is left to it.

Each read and each change is a step here, and between any two of them the
managers may do anything (`RemovalLabel.others`). Errors of the file system
may come up in every step, and a removal of a tree that fails has taken some
of it. `removal_safe` follows from what one step can do (`deletes_below`) and
from what a call knows while it is about to delete (`Licensed`).

A payload directory goes with all that lies below it. As a placement may run
through the payload directory of another job, this can be the payload of a
job that was not selected (`nested_payload_deleted`). So what is proved says
of a deleted payload that it lies at or below that of a marker which the same
call unlinked before.
-/

open Journal SegmentStore

/-- **What lies at a path** below the workspace root. -/
inductive PathNode where
  | missing
  | directory
  /-- A file, a link or anything else. -/
  | other
deriving DecidableEq, Repr

/-- **A workspace, as far as a removal reads it.** -/
structure RemovalWorld where
  /-- Its markers, journal, job seals and payload directories. -/
  stored : StoredWorkspace
  /-- `is_workspace_sealed`. -/
  workspaceSealed : Bool
  projectSealed : Bool
  /-- The tree below the root, the root included. -/
  nodes : List PyStr → PathNode

/-- `payload_path`, below the root. -/
def StateMarker.payloadPath (m : StateMarker) : List PyStr := m.placement ++ [m.jobKey.text]

structure RemovalOutcome where
  jobKey : PyStr
  kind : StateKind
  removed : Bool
  reason : Option Message
deriving Repr

/-- **Where a call of `remove_jobs` is.** -/
inductive RemovalPhase where
  | kinds
  | workspaceSeal
  | projectSeal
  /-- The markers whose seal is still to be looked for, and those with one. -/
  | jobSeals (rest found : List StateMarker)
  | scan
  /-- The markers whose join is still to be read, and the children with a parent. -/
  | joins (rest : List StateMarker) (parents : List (PyStr × PyStr))
  /-- The payloads still to be checked, and what was found of the others. -/
  | safety (rest : List StateMarker) (found : List (StateMarker × Option Message))
  /-- The preflight has passed; the jobs still to be removed, and the outcomes. -/
  | removing (rest : List StateMarker) (outcomes : List RemovalOutcome)
  /-- `os.unlink(marker.path)` is next. -/
  | unlinking (m : StateMarker) (rest : List StateMarker) (outcomes : List RemovalOutcome)
  /-- The marker is gone; its payload is checked again. -/
  | rechecking (m : StateMarker) (rest : List StateMarker) (outcomes : List RemovalOutcome)
  /-- `_remove_payload` is next. -/
  | deleting (m : StateMarker) (rest : List StateMarker) (outcomes : List RemovalOutcome)
  | refused (outcomes : List RemovalOutcome)
  | finished (outcomes : List RemovalOutcome)
  | raised (exc : Exc)

namespace RemovalWorld

/-! ## The preflight -/

/-- `_is_real_directory(path, missing_ok=True)`. -/
def directoryOrMissing (w : RemovalWorld) (p : List PyStr) : Bool := w.nodes p ≠ .other

def payloadSafety (w : RemovalWorld) (m : StateMarker) : Option Message :=
  if w.nodes [] ≠ .directory then
    some [.lit "workspace root is not a real directory: ", .path []]
  else
    match m.placement.inits.find? fun p => !w.directoryOrMissing p with
    | some p => some [.lit "payload placement is not a real directory: ", .path p]
    | none =>
      if !w.directoryOrMissing m.payloadPath then
        some [.lit "payload is not a real directory: ", .path m.payloadPath]
      else
        match [PyStr.ofString "attempts", PyStr.ofString "logs"].find? fun name =>
            !w.directoryOrMissing (m.payloadPath ++ [name]) with
        | some name => some [.lit "payload ", .raw name, .lit " directory is not a real directory: ",
            .path (m.payloadPath ++ [name])]
        | none => none

def removeTree (w : RemovalWorld) (path : List PyStr) (kept : List PyStr → Bool) : RemovalWorld where
  __ := w
  nodes := fun p => if path <+: p ∧ kept p = false then .missing else w.nodes p
  stored := { w.stored with
    payloads := w.stored.payloads.filter fun j => !(path.isPrefixOf (j.fst ++ [j.snd]) && !kept (j.fst ++ [j.snd])) }

/-- The workspace without a marker. -/
def unlink (w : RemovalWorld) (m : StateMarker) : RemovalWorld where
  __ := w
  stored := { w.stored with markers := w.stored.markers.filter (· ≠ m) }

end RemovalWorld

def RemovalOutcome.refusal (m : StateMarker) (reason : Message) : RemovalOutcome :=
  ⟨m.jobKey.text, m.kind, false, some reason⟩

/-- **A refusal of the whole batch**: the jobs with a reason of their own have it,
the others the first such reason. -/
def refuseBatch (selected : List StateMarker) (own : StateMarker → Option Message) (first : Message) :
    RemovalPhase :=
  .refused (selected.map fun m =>
    RemovalOutcome.refusal m ((own m).getD (.lit "batch preflight refused: " :: first)))

/-- The exceptions `join_child_parents` catches. -/
def ExcClass.isJoinFailure (cls : ExcClass) : Bool :=
  cls.isWorkflowError || cls.isOSError || cls = .typeError || cls.isValueError

def parentKeys (parents : List (PyStr × PyStr)) (child : PyStr) : List PyStr :=
  (((parents.filter fun p => p.fst = child).map Prod.snd).dedup).mergeSort (· ≤ ·)

/-- `", ".join` of the keys of parents. -/
def parentText (keys : List PyStr) : Message :=
  (keys.map MessagePart.raw).intersperse (.lit ", ")

section Preflight

variable (env : JournalEnv Record) (selected : List StateMarker) (force : Bool)

def afterSeals : RemovalPhase := if force then .safety selected [] else .scan

/-- **A step of the preflight**, none in a phase behind it. -/
def preflightStep (w : RemovalWorld) (fault : Option Message) : RemovalPhase → Option RemovalPhase
  | .kinds =>
    match selected.find? fun m => !m.kind.isRemovable with
    | none => some .workspaceSeal
    | some m =>
      let reason : Message := [.lit "job ", .raw m.jobKey.text, .lit " is ", .raw m.kind.word,
        .lit "; cancel it first: httk job request cancel …"]
      some (refuseBatch selected (fun m => if m.kind.isRemovable then none else some reason) reason)
  | .workspaceSeal =>
    if w.workspaceSealed then
      some (refuseBatch selected (fun _ => some [.lit "workspace is sealed; unseal it first"]) [])
    else some .projectSeal
  | .projectSeal =>
    match fault with
    | some text => some (.raised ⟨.osError, text⟩)
    | none =>
      if w.projectSealed then
        some (refuseBatch selected (fun _ => some [.lit "project is sealed; unseal it first"]) [])
      else some (.jobSeals selected [])
  | .jobSeals (m :: rest) found =>
    some (.jobSeals rest (if m.jobKey.text ∈ w.stored.jobSeals then found ++ [m] else found))
  | .jobSeals [] found =>
    let text (m : StateMarker) : Message :=
      [.lit "job ", .raw m.jobKey.text, .lit " is sealed; unseal it first"]
    match found with
    | [] => some (afterSeals selected force)
    | first :: _ => some (refuseBatch selected (fun m => if m ∈ found then some (text m) else none) (text first))
  | .scan =>
    match fault with
    | some text => some (.raised ⟨.workspaceCorruption, text⟩)
    | none => some (.joins (w.stored.markers.filter fun m => !m.kind.isTerminal) [])
  | .joins (m :: rest) parents =>
    match w.stored.joinedChildren env m with
    | .ok children => some (.joins rest (parents ++ children.map fun child => (child, m.jobKey.text)))
    | .error exc =>
      if exc.cls.isJoinFailure then
        let reason : Message := [.lit "cannot load non-terminal marker state ", .raw m.jobKey.text, .lit ": "]
          ++ exc.message
        some (refuseBatch selected (fun _ => some reason) [])
      else some (.raised exc)
  | .joins [] parents =>
    let text (m : StateMarker) : Message :=
      [.lit "job ", .raw m.jobKey.text,
        .lit " is referenced as a join child by non-terminal parent(s): "]
        ++ parentText (parentKeys parents m.jobId)
    let guarded (m : StateMarker) : Bool := parentKeys parents m.jobId ≠ []
    match selected.find? guarded with
    | none => some (.safety selected [])
    | some first => some (refuseBatch selected (fun m => if guarded m then some (text m) else none) (text first))
  | .safety (m :: rest) found =>
    match fault with
    | some text => some (.raised ⟨.osError, text⟩)
    | none => some (.safety rest (found ++ [(m, w.payloadSafety m)]))
  | .safety [] found =>
    match found.findSome? Prod.snd with
    | none => some (.removing selected [])
    | some first =>
      some (.refused (found.map fun e =>
        RemovalOutcome.refusal e.fst (e.snd.getD (.lit "batch preflight refused: " :: first))))
  | _ => none

end Preflight

/-! ## The removal of one job -/

/-- A step ends the removal of one job without its payload. -/
def leave (m : StateMarker) (reason : Message) (rest : List StateMarker) (outcomes : List RemovalOutcome) :
    RemovalPhase :=
  .removing rest (outcomes ++ [RemovalOutcome.refusal m reason])

/-- **A step of the removals**, `_remove_one` job after job: the workspace after it, and the
phase. Where the step fails, `kept` is what a removal of a tree has left. -/
def removalStep (w : RemovalWorld) (fault : Option Message) (kept : List PyStr → Bool) :
    RemovalPhase → Option (RemovalWorld × RemovalPhase)
  | .removing [] outcomes => some (w, .finished outcomes)
  | .removing (m :: rest) outcomes =>
    match fault, w.payloadSafety m with
    | some text, _ | none, some text => some (w, leave m text rest outcomes)
    | none, none => some (w, .unlinking m rest outcomes)
  | .unlinking m rest outcomes =>
    match fault with
    | some text => some (w, leave m text rest outcomes)
    | none =>
      if m ∈ w.stored.markers then some (w.unlink m, .rechecking m rest outcomes)
      else some (w, leave m [.lit "state changed; not removed"] rest outcomes)
  | .rechecking m rest outcomes =>
    match fault, w.payloadSafety m with
    | some text, _ | none, some text => some (w, leave m text rest outcomes)
    | none, none => some (w, .deleting m rest outcomes)
  | .deleting m rest outcomes =>
    let done := RemovalPhase.removing rest (outcomes ++ [⟨m.jobKey.text, m.kind, true, none⟩])
    match w.nodes m.payloadPath, fault with
    | .directory, none => some (w.removeTree m.payloadPath fun _ => false, done)
    | .directory, some text => some (w.removeTree m.payloadPath kept, leave m text rest outcomes)
    | _, none => some (w, done)
    | _, some text => some (w, leave m text rest outcomes)
  | _ => none


/-! ## The call among the managers -/

/-- **A workspace and the call that is under way in it.** -/
structure RemovalState where
  world : RemovalWorld
  phase : RemovalPhase

/-- **A step**, of the call or of anything else. -/
inductive RemovalLabel where
  /-- The managers and everybody else, who leave the workspace as it is given. -/
  | others (world : RemovalWorld)
  /-- The call, with an error of the file system, and what that error keeps of a tree. -/
  | call (fault : Option Message) (kept : List PyStr → Bool)

/-- **A step of the call remembered**: the workspace before and after it. -/
structure CallStep where
  before : RemovalWorld
  after : RemovalWorld

section System

variable (env : JournalEnv Record) (selected : List StateMarker) (force : Bool)

def callStep (s : RemovalState) (fault : Option Message) (kept : List PyStr → Bool) : Option RemovalState :=
  match preflightStep env selected force s.world fault s.phase with
  | some phase => some ⟨s.world, phase⟩
  | none => (removalStep s.world fault kept s.phase).map fun p => ⟨p.fst, p.snd⟩

/-- The steps of the system. -/
def removalNext (s : RemovalState) : RemovalLabel → Option RemovalState
  | .others world => some { s with world := world }
  | .call fault kept => callStep env selected force s fault kept

/-- What the call has done so far. -/
def rememberCall (history : List CallStep) (s : RemovalState) (l : RemovalLabel) (s' : RemovalState) :
    List CallStep :=
  match l with
  | .others _ => history
  | .call _ _ => history ++ [⟨s.world, s'.world⟩]

/-- **`remove_jobs` among the managers**, with a record of its own steps. -/
def removalSystem : System (RemovalState × List CallStep) RemovalLabel :=
  System.observed (fun s => s.phase = .kinds) (removalNext env selected force) [] rememberCall

end System

/-! ## What is promised -/

def CallStep.unlinked (c : CallStep) (m : StateMarker) : Prop :=
  m ∈ c.before.stored.markers ∧ m ∉ c.after.stored.markers

def CallStep.deleted (c : CallStep) (job : List PyStr × PyStr) : Prop :=
  job ∈ c.before.stored.payloads ∧ job ∉ c.after.stored.payloads

def liesBelow (path : List PyStr) (job : List PyStr × PyStr) : Prop := path <+: job.fst ++ [job.snd]

/-- A marker whose payload a job lies at or below was unlinked before. -/
def Licensed (history : List CallStep) (job : List PyStr × PyStr) : Prop :=
  ∃ c ∈ history, ∃ m, c.unlinked m ∧ liesBelow m.payloadPath job

/-- **A removal is safe**: refusals are without effect, and each payload that was deleted
was licensed by an unlink of the same call. -/
structure RemovalSafe (phase : RemovalPhase) (history : List CallStep) : Prop where
  refused : (∃ outcomes, phase = .refused outcomes) ∨ (∃ exc, phase = .raised exc) →
    ∀ c ∈ history, c.after = c.before
  deleted : ∀ earlier c later, history = earlier ++ c :: later →
    ∀ job, c.deleted job → Licensed earlier job

/-! ## What one step does -/

variable {env : JournalEnv Record} {selected : List StateMarker} {force : Bool}

/-- The preflight, and where it ends without a removal. -/
def RemovalPhase.untouched : RemovalPhase → Bool
  | .removing _ _ | .unlinking _ _ _ | .rechecking _ _ _ | .deleting _ _ _ | .finished _ => false
  | _ => true

/-- The job whose marker the call has unlinked, and whose payload is next. -/
def RemovalPhase.owed : RemovalPhase → Option StateMarker
  | .rechecking m _ _ | .deleting m _ _ => some m
  | _ => none

variable {fault : Option Message} {p p' : RemovalPhase} {w : RemovalWorld}

theorem owed_preflightStep (h : preflightStep env selected force w fault p = some p') : p.untouched = true ∧ p'.owed = none := by
  have hbatch : ∀ (own : StateMarker → Option Message) (first : Message),
      (refuseBatch selected own first).owed = none := fun _ _ => rfl
  have hseals : (afterSeals selected force).owed = none := by
    unfold afterSeals
    split <;> rfl
  unfold preflightStep at h
  cases p with
  | kinds =>
    dsimp only at h
    split at h <;> exact ⟨rfl, Option.some.inj h ▸ rfl⟩
  | workspaceSeal =>
    dsimp only at h
    split at h <;> exact ⟨rfl, Option.some.inj h ▸ rfl⟩
  | projectSeal =>
    dsimp only at h
    split at h
    · exact ⟨rfl, Option.some.inj h ▸ rfl⟩
    · split at h <;> exact ⟨rfl, Option.some.inj h ▸ rfl⟩
  | jobSeals rest found =>
    refine ⟨rfl, ?_⟩
    cases rest with
    | cons m rest => exact Option.some.inj h ▸ rfl
    | nil =>
      cases found with
      | nil => exact Option.some.inj h ▸ hseals
      | cons first found => exact Option.some.inj h ▸ hbatch _ _
  | scan =>
    dsimp only at h
    split at h <;> exact ⟨rfl, Option.some.inj h ▸ rfl⟩
  | joins rest parents =>
    refine ⟨rfl, ?_⟩
    cases rest with
    | cons m rest =>
      dsimp only at h
      split at h
      · exact Option.some.inj h ▸ rfl
      · split at h <;> exact Option.some.inj h ▸ rfl
    | nil =>
      dsimp only at h
      split at h <;> exact Option.some.inj h ▸ rfl
  | safety rest found =>
    refine ⟨rfl, ?_⟩
    cases rest with
    | cons m rest =>
      dsimp only at h
      split at h <;> exact Option.some.inj h ▸ rfl
    | nil =>
      dsimp only at h
      split at h <;> exact Option.some.inj h ▸ rfl
  | removing | unlinking | rechecking | deleting | refused | finished | raised => cases h

theorem removalStep_cases {w w' : RemovalWorld} {kept : List PyStr → Bool}
    (h : removalStep w fault kept p = some (w', p')) :
    p'.untouched = false ∧
    ((w' = w ∧ (p'.owed = none ∨ p'.owed = p.owed)) ∨ (∃ m, m ∈ w.stored.markers ∧ w' = w.unlink m ∧ p'.owed = some m) ∨
      ∃ m keeps, p.owed = some m ∧ w' = w.removeTree m.payloadPath keeps ∧ p'.owed = none) := by
  unfold removalStep at h
  cases p with
  | removing rest outcomes =>
    cases rest with
    | nil =>
      obtain ⟨rfl, rfl⟩ := Prod.mk.inj (Option.some.inj h)
      exact ⟨rfl, Or.inl ⟨rfl, Or.inl rfl⟩⟩
    | cons m rest =>
      dsimp only at h
      split at h <;> obtain ⟨rfl, rfl⟩ := Prod.mk.inj (Option.some.inj h) <;>
        exact ⟨rfl, Or.inl ⟨rfl, Or.inl rfl⟩⟩
  | unlinking m rest outcomes =>
    dsimp only at h
    split at h
    · obtain ⟨rfl, rfl⟩ := Prod.mk.inj (Option.some.inj h)
      exact ⟨rfl, Or.inl ⟨rfl, Or.inl rfl⟩⟩
    · split at h
      case isTrue hm =>
        obtain ⟨rfl, rfl⟩ := Prod.mk.inj (Option.some.inj h)
        exact ⟨rfl, Or.inr (Or.inl ⟨m, hm, rfl, rfl⟩)⟩
      case isFalse =>
        obtain ⟨rfl, rfl⟩ := Prod.mk.inj (Option.some.inj h)
        exact ⟨rfl, Or.inl ⟨rfl, Or.inl rfl⟩⟩
  | rechecking m rest outcomes =>
    dsimp only at h
    split at h <;> obtain ⟨rfl, rfl⟩ := Prod.mk.inj (Option.some.inj h)
    · exact ⟨rfl, Or.inl ⟨rfl, Or.inl rfl⟩⟩
    · exact ⟨rfl, Or.inl ⟨rfl, Or.inl rfl⟩⟩
    · exact ⟨rfl, Or.inl ⟨rfl, Or.inr rfl⟩⟩
  | deleting m rest outcomes =>
    dsimp only at h
    split at h <;> obtain ⟨rfl, rfl⟩ := Prod.mk.inj (Option.some.inj h)
    · exact ⟨rfl, Or.inr (Or.inr ⟨m, _, rfl, rfl, rfl⟩)⟩
    · exact ⟨rfl, Or.inr (Or.inr ⟨m, _, rfl, rfl, rfl⟩)⟩
    · exact ⟨rfl, Or.inl ⟨rfl, Or.inl rfl⟩⟩
    · exact ⟨rfl, Or.inl ⟨rfl, Or.inl rfl⟩⟩
  | kinds | workspaceSeal | projectSeal | jobSeals | scan | joins | safety | refused | finished | raised =>
    cases h

theorem liesBelow_of_removeTree {path : List PyStr} {keeps : List PyStr → Bool}
    {job : List PyStr × PyStr} (h : job ∈ w.stored.payloads)
    (hgone : job ∉ (w.removeTree path keeps).stored.payloads) : liesBelow path job := by
  by_contra hnot
  refine hgone (List.mem_filter.mpr ⟨h, ?_⟩)
  rw [Bool.eq_false_of_not_eq_true (mt List.isPrefixOf_iff_prefix.mp hnot)]
  rfl

/-! ## What a call knows -/

/-- **What holds of a call in every moment**: it is safe, before the removals it has changed
nothing, and the payload that is owed is licensed. -/
structure CallSound (p : RemovalState × List CallStep) : Prop where
  untouched : p.fst.phase.untouched = true → ∀ c ∈ p.snd, c.after = c.before
  deleted : ∀ earlier c later, p.snd = earlier ++ c :: later →
    ∀ job, c.deleted job → Licensed earlier job
  owed : ∀ m, p.fst.phase.owed = some m → ∃ c ∈ p.snd, c.unlinked m

theorem deleted_concat {history : List CallStep} {c' : CallStep}
    (hold : ∀ earlier c later, history = earlier ++ c :: later → ∀ job, c.deleted job → Licensed earlier job)
    (hnew : ∀ job, c'.deleted job → Licensed history job) :
    ∀ earlier c later, history ++ [c'] = earlier ++ c :: later →
      ∀ job, c.deleted job → Licensed earlier job := by
  intro earlier c later hsplit job hdeleted
  rcases List.eq_nil_or_concat later with rfl | ⟨init, last, rfl⟩
  · obtain ⟨rfl, hc⟩ := List.append_inj' hsplit rfl
    obtain ⟨rfl, -⟩ := List.cons.inj hc
    exact hnew job hdeleted
  · rw [List.concat_eq_append, ← List.cons_append, ← List.append_assoc] at hsplit
    exact hold earlier c init (List.append_inj' hsplit rfl).1 job hdeleted

/-- **A step keeps the knowledge of a call.** -/
theorem CallSound.next {p p' : RemovalState × List CallStep} {l : RemovalLabel} (hp : CallSound p)
    (h : (removalSystem env selected force).step p l p') : CallSound p' := by
  obtain ⟨⟨w, phase⟩, history⟩ := p
  obtain ⟨⟨w', phase'⟩, history'⟩ := p'
  obtain ⟨hnext, hhistory⟩ := System.watching_eq_some.mp h
  obtain rfl : history' = rememberCall history ⟨w, phase⟩ l ⟨w', phase'⟩ := hhistory
  cases l with
  | others world =>
    obtain ⟨rfl, rfl⟩ := RemovalState.mk.inj (Option.some.inj hnext)
    exact ⟨hp.untouched, hp.deleted, hp.owed⟩
  | call fault kept =>
    have howed : ∀ m, phase.owed = some m → ∃ c ∈ history ++ [⟨w, w'⟩], CallStep.unlinked c m := fun m hm => by
      obtain ⟨c, hc, hunlinked⟩ := hp.owed m hm
      exact ⟨c, List.mem_append_left _ hc, hunlinked⟩
    dsimp only [removalNext, callStep] at hnext
    split at hnext
    case h_1 next hpreflight =>
      obtain ⟨rfl, rfl⟩ := RemovalState.mk.inj (Option.some.inj hnext)
      obtain ⟨huntouched, hnothing⟩ := owed_preflightStep hpreflight
      refine ⟨fun _ c hc => ?_, deleted_concat hp.deleted fun job hdeleted => ?_, fun m hm => ?_⟩
      · rcases List.mem_append.mp hc with hc | hc
        · exact hp.untouched huntouched c hc
        · rw [List.mem_singleton.mp hc]
      · exact absurd hdeleted.1 hdeleted.2
      · rw [hnothing] at hm
        cases hm
    case h_2 =>
      obtain ⟨⟨v, next⟩, hremoval, heq⟩ := Option.map_eq_some_iff.mp hnext
      obtain ⟨rfl, rfl⟩ := RemovalState.mk.inj heq
      obtain ⟨hbehind, hstep⟩ := removalStep_cases hremoval
      refine ⟨fun hbefore => ?_, deleted_concat hp.deleted fun job hdeleted => ?_, fun m hm => ?_⟩
      · rw [hbehind] at hbefore
        cases hbefore
      · obtain ⟨hpresent, hgone⟩ := hdeleted
        rcases hstep with ⟨rfl, -⟩ | ⟨m, -, rfl, -⟩ | ⟨m, keeps, hm, rfl, -⟩
        · exact absurd hpresent hgone
        · exact absurd hpresent hgone
        · obtain ⟨c, hc, hunlinked⟩ := hp.owed m hm
          exact ⟨c, hc, m, hunlinked, liesBelow_of_removeTree hpresent hgone⟩
      · rcases hstep with ⟨rfl, hnone | hsame⟩ | ⟨m', hm', rfl, hnew⟩ | ⟨m', keeps, -, rfl, hnone⟩
        · rw [hnone] at hm
          cases hm
        · exact howed m (hsame.symm.trans hm)
        · obtain rfl := Option.some.inj (hnew.symm.trans hm)
          refine ⟨_, List.mem_append_right _ (List.mem_singleton_self _), hm', fun hstill => ?_⟩
          exact absurd rfl (of_decide_eq_true (List.mem_filter.mp hstill).2)
        · rw [hnone] at hm
          cases hm

/-- **Removal is safe**, whatever the managers do meanwhile. -/
theorem removal_safe {p : RemovalState × List CallStep}
    (hp : (removalSystem env selected force).Reachable p) : RemovalSafe p.fst.phase p.snd := by
  have hsound : CallSound p := by
    refine hp.invariant (fun q hq => ?_) fun _ _ _ _ hq hstep => hq.next hstep
    obtain ⟨⟨world, phase⟩, history⟩ := q
    obtain ⟨rfl, rfl⟩ : phase = .kinds ∧ history = [] := hq
    exact ⟨fun _ _ hc => absurd hc List.not_mem_nil, fun earlier c later hsplit => by simp at hsplit,
      fun _ howed => by cases howed⟩
  refine ⟨?_, hsound.deleted⟩
  rintro (⟨outcomes, hphase⟩ | ⟨exc, hphase⟩) <;> exact hsound.untouched (hphase ▸ rfl)

/-! ## A payload below a payload -/

theorem parse_innerKey : parseJobKey (.ofString "22222222-2222-4222-8222-222222222222")
    = .ok (none, .ofString "22222222-2222-4222-8222-222222222222") := rfl

def innerKey : ValidJobKey :=
  ⟨.ofString "22222222-2222-4222-8222-222222222222", none,
    .ofString "22222222-2222-4222-8222-222222222222", parse_innerKey⟩

def outerMarker : StateMarker :=
  ⟨.submitted, [.ofString "a"], untaggedKey, 500, 0, .ofString "init"⟩

def innerMarker : StateMarker :=
  ⟨.submitted, outerMarker.payloadPath, innerKey, 500, 0, .ofString "init"⟩

def StateMarker.job (m : StateMarker) : List PyStr × PyStr := (m.placement, m.jobKey.text)

def worldOf (markers : List StateMarker) : RemovalWorld where
  stored := { StoredWorkspace.removedWorkspace with
    markers := markers
    payloads := markers.map StateMarker.job }
  workspaceSealed := false
  projectSealed := false
  nodes := fun p => if markers.any fun m => p.isPrefixOf m.payloadPath then .directory else .missing

def callIn (markers : List StateMarker) : RemovalState × List CallStep := (⟨worldOf markers, .kinds⟩, [])

def removeOuter (markers : List StateMarker) (steps : ℕ) : Option (RemovalState × List CallStep) :=
  System.follow
    (System.watching (removalNext StoredWorkspace.readyEnv [outerMarker] false) rememberCall)
    (callIn markers) (List.replicate steps (.call none fun _ => false))

theorem reachable_removeOuter {markers : List StateMarker} {steps : ℕ} {p : RemovalState × List CallStep}
    (h : removeOuter markers steps = some p) :
    (removalSystem StoredWorkspace.readyEnv [outerMarker] false).Reachable p :=
  (System.run_of_follow h).reachable (System.Reachable.init ⟨rfl, rfl⟩)

/-- One job alone is removed, and safely. -/
theorem removal_safe_outer : ∃ p, removeOuter [outerMarker] 15 = some p ∧ p.fst.world.stored.payloads = []
    ∧ RemovalSafe p.fst.phase p.snd := by
  have hrun : (removeOuter [outerMarker] 15).map (fun p => p.fst.world.stored.payloads) = some [] := by
    decide +kernel
  obtain ⟨p, hp, hpayloads⟩ := Option.map_eq_some_iff.mp hrun
  exact ⟨p, hp, hpayloads, removal_safe (reachable_removeOuter hp)⟩

/-- **The payload of the inner job is deleted** with that of the outer one: the call unlinks one marker,
which is not that of the inner job. -/
theorem nested_payload_deleted : ¬∀ (env : JournalEnv Record) (selected : List StateMarker) (force : Bool)
    (p : RemovalState × List CallStep), (removalSystem env selected force).Reachable p →
    ∀ earlier c later, p.snd = earlier ++ c :: later → ∀ job, c.deleted job →
      ∃ c' ∈ earlier, ∃ m, c'.unlinked m ∧ m.job = job := by
  intro hall
  have hrun : (removeOuter [outerMarker, innerMarker] 15).map (fun p =>
      (p.snd.any fun c => innerMarker.job ∈ c.before.stored.payloads ∧ innerMarker.job ∉ c.after.stored.payloads,
        p.snd.all fun c => c.before.stored.markers.all fun m =>
          m ∈ c.after.stored.markers ∨ m.job ≠ innerMarker.job)) = some (true, true) := by
    decide +kernel
  obtain ⟨p, hp, hseen⟩ := Option.map_eq_some_iff.mp hrun
  obtain ⟨hdeleted, hothers⟩ := Prod.mk.inj hseen
  obtain ⟨c, hc, hgone⟩ := List.any_eq_true.mp hdeleted
  have hinner : innerMarker.job ∈ c.before.stored.payloads ∧ innerMarker.job ∉ c.after.stored.payloads :=
    of_decide_eq_true hgone
  obtain ⟨earlier, later, hsplit⟩ := List.append_of_mem hc
  obtain ⟨c', hc', m, ⟨hpresent, hunlinked⟩, hjob⟩ := hall _ _ _ p (reachable_removeOuter hp) earlier c later
    hsplit innerMarker.job hinner
  have hmem : c' ∈ p.snd := hsplit ▸ List.mem_append_left _ hc'
  have hstays := List.all_eq_true.mp (List.all_eq_true.mp hothers c' hmem) m hpresent
  exact (of_decide_eq_true hstays).elim hunlinked fun hne => hne hjob
