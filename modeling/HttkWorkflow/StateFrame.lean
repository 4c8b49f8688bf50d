import HttkWorkflow.Errors

/-!
# State kinds, state frames and markers

A job is in the state its marker says. The marker is one empty file below
`state/`, and its path is the whole record: the kind is the directory it
lies in, the generation and the reference to the frame that describes the
state are parts of its name. `Marker` is that path. `Frame` is what the
reference leads to: the envelope the transition supplies and the members
the manager wrote.

The members form a `StateFrame`. Their vocabulary is closed, as it is in
the one signature every frame is written through (`StateFrame.replace`),
so that no envelope member can be overwritten by an update: `Member` has
no constructor for one. What a frame keeps when an activation goes on is
`carriedStateMembers`, and what each accessor returns is what its type
check lets through.
-/

/-- **The state kinds**, one directory below `state/` each. -/
inductive StateKind where
  | submitted
  | ready
  | claimed
  | running
  | committing
  | cancelling
  | relocating
  | transferring
  | waiting
  | paused
  | succeeded
  | failed
  | cancelled
deriving DecidableEq, Repr

namespace StateKind

/-- `CORE_STATE_KINDS`: every kind but the two of a move between places. -/
def isCore : StateKind → Bool
  | relocating | transferring => false
  | _ => true

/-- `TERMINAL_KINDS`. -/
def isTerminal : StateKind → Bool
  | succeeded | failed | cancelled => true
  | _ => false

/-- `QUIESCENT_KINDS`: the kinds a job may be moved away from. -/
def isQuiescent : StateKind → Bool
  | submitted | ready | waiting | paused | failed | succeeded | cancelled => true
  | _ => false

end StateKind

/-- **The members of a state frame**, as `StateFrame.replace` names them,
and those the transfer and repair paths write. -/
inductive Member where
  | step
  | activationId
  | activationOrdinal
  | attemptId
  | attemptOrdinal
  | totalAttempts
  | dataGeneration
  | resources
  | joinSummary
  | runnerSteps
  | managerId
  | writerId
  | claimId
  | attemptControl
  | leaseSeconds
  | matchedPool
  | matchedCapabilities
  | process
  | startedAt
  | workdir
  | outcomeAction
  | childDigests
  | childLabels
  | nextStep
  | join
  | pause
  | pauseRequested
  | failure
  | jobDigest
  | joinUnresolved
  | uncleanRestart
  | unsafePersistentTakeover
  | takeoverEvidence
  | cancellation
  | previousAttemptId
  | operator
  | operatorKey
  | operatorReason
  | requestId
  | revivalHazard
  | reason
  | transferId
  | transferSequence
  | transferEpoch
  | sourceWorkspaceId
  | destinationWorkspaceId
  | destinationRemote
  | destinationPlacement
  | priorKind
  | priorState
  | transfer
  | fsckRepair
deriving DecidableEq, Repr

/-- **The members of one state frame**, as they are on disk. -/
structure StateFrame where
  /-- The members, absent ones not listed. -/
  members : Dict Member Json
deriving Repr

/-- `CARRIED_STATE_MEMBERS`: what every transition of one activation
repeats. -/
def carriedStateMembers : List Member :=
  [.step, .activationId, .activationOrdinal, .attemptId, .attemptOrdinal,
    .totalAttempts, .dataGeneration, .resources, .joinSummary, .pauseRequested,
    .runnerSteps]

namespace StateFrame

def empty : StateFrame := ⟨[]⟩

/-- The value of a member, null included; `none` is an absent member. -/
def get (s : StateFrame) (m : Member) : Option Json := s.members.get m

/-- `has`: whether the frame carries a member at all. -/
def has (s : StateFrame) (m : Member) : Bool := (s.get m).isSome

/-- **`replace`**: the base frame with the named members set. -/
def replace (base : StateFrame) (written : List (Member × Json)) : StateFrame :=
  ⟨base.members.update written⟩

/-- **`carried`**: only the members every transition of this activation
repeats. -/
def carried (s : StateFrame) : StateFrame := ⟨s.members.select carriedStateMembers⟩

/-- `select`: only the named members this frame actually carries. -/
def select (s : StateFrame) (names : List Member) : StateFrame :=
  ⟨s.members.select names⟩

def without (s : StateFrame) (names : List Member) : StateFrame :=
  ⟨s.members.without names⟩

/-! ## What reading a rebuilt frame gives -/

@[simp] theorem replace_nil (s : StateFrame) : s.replace [] = s := rfl

@[simp] theorem get_replace_cons (s : StateFrame) (e : Member × Json) (es : List (Member × Json)) (m : Member) :
    (s.replace (e :: es)).get m = ((⟨s.members.set e.fst e.snd⟩ : StateFrame).replace es).get m := rfl

@[simp] theorem get_mk_set (d : Dict Member Json) (k m : Member) (v : Json) : (⟨d.set k v⟩ : StateFrame).get m
      = if m = k then some v else (⟨d⟩ : StateFrame).get m :=
  Dict.get_set d k m v

@[simp] theorem get_carried (s : StateFrame) (m : Member) :
    s.carried.get m = if m ∈ carriedStateMembers then s.get m else none :=
  Dict.get_select s.members carriedStateMembers m

@[simp] theorem get_select (s : StateFrame) (names : List Member) (m : Member) :
    (s.select names).get m = if m ∈ names then s.get m else none :=
  Dict.get_select s.members names m

@[simp] theorem get_without (s : StateFrame) (names : List Member) (m : Member) :
    (s.without names).get m = if m ∈ names then none else s.get m :=
  Dict.get_without s.members names m

variable {m : Member}

/-- **What an update does not name stays as it was.** -/
theorem get_replace_other {written : List (Member × Json)}
    (h : m ∉ written.map Prod.fst) (s : StateFrame) : (s.replace written).get m = s.get m := by
  induction written generalizing s with
  | nil => rfl
  | cons e es ih =>
    obtain ⟨hne, hes⟩ := not_or.mp (mt List.mem_cons.mpr h)
    rw [get_replace_cons, ih hes, get_mk_set, if_neg hne]

variable {s : StateFrame}

theorem mem_of_mem_select {names : List Member} (h : m ∈ (s.select names).members.map Prod.fst) : m ∈ names := by
  obtain ⟨e, he, rfl⟩ := List.mem_map.mp h
  exact of_decide_eq_true (List.mem_filter.mp he).2

/-! ## Typed reads

An accessor answers `None` for a member of the wrong type, so a frame
another implementation wrote is never misread. -/

def string (s : StateFrame) (m : Member) : Option PyStr :=
  match s.get m with
  | some (.str t) => if t.codes = [] then none else some t
  | _ => none

theorem get_of_string {t : PyStr} (h : s.string m = some t) : s.get m = some (.str t) ∧ t.codes ≠ [] := by
  unfold string at h
  split at h
  · rename_i t' hget
    split_ifs at h with hempty
    rw [← Option.some.inj h]
    exact ⟨hget, hempty⟩
  · cases h

theorem string_of_get {t : PyStr} (h : s.get m = some (.str t)) (ht : t.codes ≠ []) : s.string m = some t := by
  unfold string
  rw [h]
  exact if_neg ht

def integer (s : StateFrame) (m : Member) : Option Int :=
  match s.get m with
  | some (.int n) => some n
  | _ => none

theorem integer_of_get {n : Int} (h : s.get m = some (.int n)) : s.integer m = some n := by
  unfold integer
  rw [h]

theorem integer_congr {s t : StateFrame} (h : s.get m = t.get m) : s.integer m = t.integer m := by
  unfold integer
  rw [h]

def mapping (s : StateFrame) (m : Member) : Option (List (PyStr × Json)) :=
  match s.get m with
  | some (.obj members) => some members
  | _ => none

/-- A member that is exactly `true`. -/
def flag (s : StateFrame) (m : Member) : Bool :=
  match s.get m with
  | some (.bool b) => b
  | _ => false

def attemptId (s : StateFrame) : Option PyStr := s.string .attemptId

def activationId (s : StateFrame) : Option PyStr := s.string .activationId

def activationOrdinal (s : StateFrame) : Option Int := s.integer .activationOrdinal

def attemptOrdinal (s : StateFrame) : Option Int := s.integer .attemptOrdinal

def totalAttempts (s : StateFrame) : Option Int := s.integer .totalAttempts

def dataGeneration (s : StateFrame) : Option Int := s.integer .dataGeneration

def pauseRequested (s : StateFrame) : Option (List (PyStr × Json)) :=
  s.mapping .pauseRequested

def join (s : StateFrame) : Option (List (PyStr × Json)) := s.mapping .join

def childDigests (s : StateFrame) : Option (List (PyStr × Json)) :=
  s.mapping .childDigests

def reason (s : StateFrame) : Option PyStr := s.string .reason

end StateFrame

/-- **A reference to a journal frame**, or the word a submitted marker
carries in its place. The journal is the append order of all writers, so
that the references it hands out are pairwise different. -/
inductive RecordRef where
  /-- The initial marker, whose information is in `job.json`. -/
  | init
  /-- The frame appended after this many others. -/
  | frame (index : Nat)
deriving DecidableEq, Repr

/-- **A job key**: the job's UUID and, possibly, a tag before it. -/
structure JobKey where
  tag : Option String
  /-- The UUID, which identifies the job in the workspace. -/
  id : String
deriving DecidableEq, Repr

/-- **A state marker**, identified with the path it lies at: two markers
that agree in these members are one file. -/
structure Marker where
  /-- The state kind, the first directory of the path. -/
  kind : StateKind
  /-- The placement, the directories after it. -/
  placement : List String
  jobKey : JobKey
  priority : Nat
  /-- The state generation in the name. -/
  generation : Nat
  /-- The frame the name refers to. -/
  recordRef : RecordRef
deriving DecidableEq, Repr

def Marker.jobId (m : Marker) : String := m.jobKey.id

/-- **One journal frame of a job**: the envelope its transition supplies
and the members written into it. -/
structure Frame where
  workspaceId : String
  jobKey : JobKey
  /-- Where the job is. -/
  placement : List String
  /-- The generation this frame brings. -/
  stateGeneration : Nat
  /-- The kind this frame brings. -/
  kind : StateKind
  /-- The frame before it, none for the first. -/
  previousRecordRef : Option RecordRef
  priority : Nat
  /-- What the transition wrote. -/
  members : StateFrame
deriving Repr
