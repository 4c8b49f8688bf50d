import Mathlib.Data.Finset.Sort
import HttkWorkflow.Errors

/-!
# The jobflow driver

A jobflow Flow is run by one job that keeps the state of its scheduler and
hands out the jobs of the flow. `DriverState` is that state: the jobs that
are pending, with the executions each of them waits for, and the sets of
those that are settled. A response of a job may add flows, whose jobs then
stand before the responder's children as *barriers*, and may stop the
responder's descendants or everything.

An execution is known by the text `uuid:index`, since a replacement reuses
the UUID at the next index. Two of the ways a job is settled look at
different relations: stopping follows the parent keys at once, and poisoning
waits until all parents are settled and then looks at their UUIDs.

The methods change the state in place and may raise in the middle, so they
are computations that leave a state in either case (`Driving`).
-/

open Dict (assign)

/-- **A job of a flow**, as far as the scheduler looks at it. -/
structure FlowJob where
  uuid : PyStr
  index : ℕ
  /-- The UUIDs its arguments refer to. -/
  references : List PyStr
  /-- Whether `spool_job` can encode it. -/
  spooled : Except Exc Unit
  /-- `on_missing_references == OnMissing.ERROR`, if the spooled job can be decoded. -/
  missingIsError : Except Exc Bool

/-- **A flow**: what `iterflow` yields of it, the jobs with the UUIDs of their parents. -/
structure JobFlow where
  jobs : List (FlowJob × List PyStr)
  nodup : (jobs.map fun e => e.fst.uuid).Nodup
  acyclic : ∃ depth : PyStr → ℕ, ∀ e ∈ jobs, ∀ parent ∈ e.snd,
    parent ∈ jobs.map (fun e => e.fst.uuid) → depth parent < depth e.fst.uuid

structure PendingJob where
  job : FlowJob
  parents : Finset PyStr
  barriers : Finset PyStr

structure DriverState where
  pending : List (PyStr × PendingJob)
  identities : List (PyStr × PyStr × ℕ)
  order : List PyStr
  completed : Finset PyStr
  running : Finset PyStr
  errored : Finset PyStr
  stopped : Finset PyStr
  skipped : Finset PyStr
  errors : List (PyStr × Message)
  storedData : List (PyStr × Json)
  rootOutput : Json
  stopJobflow : Bool

/-- **A response of a job.** The flows are the values of `get_flow`, which may refuse. -/
structure JobResponse where
  storedData : Option Json
  stopJobflow : Bool
  stopChildren : Bool
  replace : Option (Except Exc JobFlow)
  detour : Option (Except Exc JobFlow)
  addition : Option (Except Exc JobFlow)

/-- **What a method raises.** -/
inductive DriverError where
  /-- `KeyError`: there is no unique pending job of that name. -/
  | noPendingJob (identifier : PyStr)
  /-- `ValueError`: a dynamic flow reused a job that was scheduled before. -/
  | reusedJob (key : PyStr)
  /-- What `get_flow`, the encoder or the decoder raised. -/
  | raised (exc : Exc)

/-- A method of the driver: it returns or raises, and leaves a state. -/
abbrev Driving (α : Type) := EStateM DriverError DriverState α

def jobKey (uuid : PyStr) (index : ℕ) : PyStr := uuid ++ PyStr.ofString (":" ++ toString index)

def FlowJob.key (job : FlowJob) : PyStr := jobKey job.uuid job.index

def PendingJob.waits (record : PendingJob) : Finset PyStr := record.parents ∪ record.barriers

def JobFlow.uuids (flow : JobFlow) : List PyStr := flow.jobs.map fun e => e.fst.uuid

def JobFlow.keys (flow : JobFlow) : List PyStr := flow.jobs.map fun e => e.fst.key

namespace DriverState

def keys (s : DriverState) : List PyStr := s.pending.map Prod.fst

def known (s : DriverState) : List PyStr := s.identities.map Prod.fst

def settled (s : DriverState) : Finset PyStr := s.completed ∪ s.errored ∪ s.stopped ∪ s.skipped

/-- `identities[key][0]`. The parents of a pending job are known to the driver. -/
def uuidOf (s : DriverState) (key : PyStr) : PyStr :=
  ((s.identities.lookup key).map Prod.fst).getD ""

def statusUuids (s : DriverState) (keys : Finset PyStr) : Finset PyStr := keys.image s.uuidOf

def finish (s : DriverState) (key : PyStr) : DriverState :=
  { s with
    pending := s.pending.filter fun e => e.fst ≠ key
    running := s.running.erase key
    completed := insert key s.completed }

/-- A pending job is popped and marked stopped. -/
def stop (s : DriverState) (key : PyStr) : DriverState :=
  { s with
    pending := s.pending.filter fun e => e.fst ≠ key
    stopped := insert key s.stopped
    skipped := insert key s.skipped }

/-- A pending job is popped and marked errored. -/
def poison (s : DriverState) (key : PyStr) : DriverState :=
  { s with
    pending := s.pending.filter fun e => e.fst ≠ key
    errored := insert key s.errored
    skipped := insert key s.skipped
    errors := if key ∈ s.errors.map Prod.fst then s.errors
      else s.errors ++ [(key, [.lit "skipped: parent job failed"])] }

def stopAllPending (s : DriverState) : DriverState :=
  let popped := s.keys.toFinset \ s.running
  { s with
    pending := s.pending.filter fun e => e.fst ∈ s.running
    stopped := s.stopped ∪ popped
    skipped := s.skipped ∪ popped }

/-- The pending jobs that have a key among some of what they wait for. -/
def dependents (s : DriverState) (among : PendingJob → Finset PyStr) (key : PyStr) : List PyStr :=
  (s.pending.filter fun e => key ∈ among e.snd).map Prod.fst

/-- **`_stop_descendants`**, with the end of the queue first. -/
def stopDescendants (s : DriverState) (queue : List PyStr) : DriverState :=
  match queue with
  | [] => s
  | key :: queue =>
    if _h : key ∈ s.keys then
      let stopped := { s.stop key with running := s.running.erase key }
      stopDescendants stopped ((stopped.dependents PendingJob.parents key).reverse ++ queue)
    else stopDescendants s queue
termination_by (s.pending.length, queue.length)
decreasing_by
  · refine Prod.Lex.left _ _ ?_
    obtain ⟨e, he, hkey⟩ := List.mem_map.mp _h
    refine List.length_filter_lt_length_iff_exists.mpr ⟨e, he, ?_⟩
    simp [hkey]
  · exact Prod.Lex.right _ (Nat.lt_succ_self _)

/-- More barriers for some of the jobs that are still pending. -/
def addBarriers (s : DriverState) (dependents : List PyStr) (added : Finset PyStr) : DriverState :=
  { s with pending := s.pending.map fun e =>
      if e.fst ∈ dependents then (e.fst, { e.snd with barriers := e.snd.barriers ∪ added }) else e }

def latestUnsettledKey (s : DriverState) (uuid : PyStr) : Option PyStr :=
  s.order.reverse.find? fun key => s.uuidOf key = uuid ∧ key ∉ s.settled

/-! ## The methods -/

def pendingKey (identifier : PyStr) : Driving PyStr := do
  let s ← get
  if identifier ∈ s.keys then pure identifier
  else
    match (s.identities.filter fun e => e.snd.fst = identifier ∧ e.fst ∈ s.keys).map Prod.fst with
    | [key] => pure key
    | _ => throw (.noPendingJob identifier)

/-- One round of the first loop of `_add_flow`. -/
def introduce (job : FlowJob) : Driving Unit := do
  let s ← get
  if job.key ∈ s.known then throw (.reusedJob job.key)
  else
    set { s with
      identities := s.identities ++ [(job.key, job.uuid, job.index)]
      order := s.order ++ [job.key] }

def parentsOf (s : DriverState) (flow : JobFlow) (e : FlowJob × List PyStr) : Finset PyStr :=
  let newKeys := flow.jobs.map fun e => (e.fst.uuid, e.fst.key)
  (e.snd.filterMap fun uuid => newKeys.lookup uuid).toFinset
    ∪ ((e.fst.references.filter fun uuid => uuid ∉ flow.uuids).filterMap s.latestUnsettledKey).toFinset

/-- One round of the second loop of `_add_flow`. -/
def schedule (flow : JobFlow) (e : FlowJob × List PyStr) : Driving Unit := do
  let s ← get
  match e.fst.spooled with
  | .error exc => throw (.raised exc)
  | .ok () =>
    set { s with pending := assign s.pending e.fst.key ⟨e.fst, s.parentsOf flow e, ∅⟩ }

def addFlow (flow : JobFlow) : Driving (Finset PyStr) := do
  flow.jobs.forM fun e => introduce e.fst
  flow.jobs.forM (schedule flow)
  pure flow.keys.toFinset

/-- One job of a pass of `_settle_skips`, and whether it was settled. -/
def settleSkip (key : PyStr) : Driving Bool := do
  let s ← get
  match s.pending.lookup key with
  | none => pure false
  | some record =>
    if ¬record.waits ⊆ s.settled then pure false
    else
      let parentUuids := s.statusUuids record.parents
      if (parentUuids ∩ s.statusUuids s.stopped).Nonempty then
        set (s.stop key)
        pure true
      else if (parentUuids ∩ s.statusUuids s.errored).Nonempty then
        match record.job.missingIsError with
        | .error exc => throw (.raised exc)
        | .ok false => pure false
        | .ok true =>
          set (s.poison key)
          pure true
      else pure false

/-- A pass over the jobs that are pending at its start. -/
def settlePass : List PyStr → Driving Bool
  | [] => pure false
  | key :: keys => do
    let changed ← settleSkip key
    let later ← settlePass keys
    pure (changed || later)

/-- Passes until one changes nothing. -/
def settleLoop : ℕ → Driving Unit
  | 0 => pure ()
  | n + 1 => do
    let s ← get
    let changed ← settlePass s.keys
    if changed = true then settleLoop n else pure ()

/-- **`_settle_skips`**. Every pass but the last settles a job. -/
def settleSkips : Driving Unit := do
  let s ← get
  if s.stopJobflow = true then set s.stopAllPending else settleLoop (s.pending.length + 1)

def markRunning (identifier : PyStr) : Driving Unit := do
  let key ← pendingKey identifier
  modify fun s => { s with running := insert key s.running }

def markPending (identifier : PyStr) : Driving Unit := do
  let key ← pendingKey identifier
  modify fun s => { s with running := s.running.erase key }

/-- A flow of a response is added, as a barrier before some jobs. -/
def addResponseFlow (flow : Except Exc JobFlow) (dependents : List PyStr) : Driving Unit := do
  match flow with
  | .error exc => throw (.raised exc)
  | .ok flow =>
    let added ← addFlow flow
    modify fun s => s.addBarriers dependents added

/-- The flows a response adds, with the jobs they stand before. -/
def responseFlows (response : JobResponse) (children barrierDependents : List PyStr) :
    List (Except Exc JobFlow × List PyStr) :=
  (response.replace.toList ++ response.detour.toList).map (·, children ++ barrierDependents)
    ++ response.addition.toList.map (·, barrierDependents)

/-- `stored_data` of a response is kept under the responder's UUID. -/
def storeData (s : DriverState) (key : PyStr) (data : Option Json) : DriverState :=
  { s with storedData := match data with
      | some data => assign s.storedData (s.uuidOf key) data
      | none => s.storedData }

/-- A job is finished, and its descendants are stopped if it says so. -/
def responded (s : DriverState) (key : PyStr) (response : JobResponse) : DriverState :=
  let children := (s.dependents PendingJob.parents key).filter (· ≠ key)
  let stored := (s.finish key).storeData key response.storedData
  if response.stopJobflow = true then stopAllPending { stored with stopJobflow := true }
  else if response.stopChildren = true then
    stopDescendants { stored with stopped := insert key stored.stopped } children.reverse
  else stored

/-- The flows of a response to a job, with the jobs they stand before. -/
def flowsOf (s : DriverState) (key : PyStr) (response : JobResponse) :
    List (Except Exc JobFlow × List PyStr) :=
  responseFlows response ((s.dependents PendingJob.parents key).filter (· ≠ key))
    ((s.dependents PendingJob.barriers key).filter (· ≠ key))

/-- What `apply_success` does once it has found the job. -/
def applyResponse (key : PyStr) (response : JobResponse) : Driving Unit := do
  let s ← get
  set (s.responded key response)
  if response.stopJobflow = true then pure ()
  else
    (s.flowsOf key response).forM fun e => addResponseFlow e.fst e.snd
    settleSkips

def applySuccess (identifier : PyStr) (response : JobResponse) : Driving Unit := do
  let key ← pendingKey identifier
  applyResponse key response

def failed (s : DriverState) (key : PyStr) (message : Message) : DriverState :=
  { s.finish key with
    errored := insert key s.errored
    errors := assign s.errors key message }

def applyError (identifier : PyStr) (message : Message) : Driving Unit := do
  let key ← pendingKey identifier
  modify fun s => s.failed key message
  settleSkips

/-- `ready`, of the keys. -/
def readyKeys (s : DriverState) : List (PyStr × PendingJob) :=
  s.pending.filter fun e => e.fst ∉ s.running ∧ e.snd.waits ⊆ s.settled

/-- **`ready`**: the jobs that wait for nothing, which are decoded. -/
def ready : Driving (List FlowJob) := do
  settleSkips
  let s ← get
  match s.readyKeys.mapM fun e => e.snd.job.missingIsError.map fun _ => e.snd.job with
  | .ok jobs => pure jobs
  | .error exc => throw (.raised exc)

def isComplete : Driving Bool := do
  settleSkips
  let s ← get
  pure (decide (s.pending = [] ∧ s.running = ∅))

/-- Whether `advance` reports a stalled flow, given the labels of the children that live. The jobs
that are ready are dispatched first. -/
def stalls (priorLive : List PyStr) : Driving Bool := do
  let jobs ← ready
  jobs.forM fun job => markRunning job.key
  if priorLive ++ jobs.map FlowJob.key ≠ [] then pure false
  else
    let complete ← isComplete
    pure (!complete)

/-! ## Checkpoints -/

/-- **What `to_mapping` returns.** -/
structure DriverMapping where
  pending : List (PyStr × FlowJob × List PyStr × List PyStr)
  identities : List (PyStr × PyStr × ℕ)
  order : List PyStr
  completed : List PyStr
  running : List PyStr
  errored : List PyStr
  stopped : List PyStr
  skipped : List PyStr
  errors : List (PyStr × Message)
  storedData : List (PyStr × Json)
  rootOutput : Json
  stopJobflow : Bool

def toMapping (s : DriverState) : DriverMapping where
  pending := s.pending.map fun e =>
    (e.fst, e.snd.job, e.snd.parents.sort (· ≤ ·), e.snd.barriers.sort (· ≤ ·))
  identities := s.identities
  order := s.order
  completed := s.completed.sort (· ≤ ·)
  running := s.running.sort (· ≤ ·)
  errored := s.errored.sort (· ≤ ·)
  stopped := s.stopped.sort (· ≤ ·)
  skipped := s.skipped.sort (· ≤ ·)
  errors := s.errors
  storedData := s.storedData
  rootOutput := s.rootOutput
  stopJobflow := s.stopJobflow

def fromMapping (m : DriverMapping) : DriverState where
  pending := m.pending.foldl
    (fun d e => assign d e.fst ⟨e.snd.fst, e.snd.snd.fst.toFinset, e.snd.snd.snd.toFinset⟩) []
  identities := m.identities
  order := m.order
  completed := m.completed.toFinset
  running := m.running.toFinset
  errored := m.errored.toFinset
  stopped := m.stopped.toFinset
  skipped := m.skipped.toFinset
  errors := m.errors
  storedData := m.storedData
  rootOutput := m.rootOutput
  stopJobflow := m.stopJobflow

/-- A driver without a job. -/
def blank (rootOutput : Json) : DriverState where
  pending := []
  identities := []
  order := []
  completed := ∅
  running := ∅
  errored := ∅
  stopped := ∅
  skipped := ∅
  errors := []
  storedData := []
  rootOutput := rootOutput
  stopJobflow := false

def fromFlow (root : JobFlow) (rootOutput : Json) : Except DriverError DriverState :=
  match addFlow root (blank rootOutput) with
  | .ok _ s => .ok s
  | .error exc _ => .error exc

end DriverState
