import HttkWorkflow.MarkerRename
import HttkWorkflow.TransferBundle

/-!
# Where markers come from

A transition renames a marker that is there. New ones come into the tree on
three paths: `Workspace.submit` publishes a payload and then the marker
`submitted`, `register_children` does the same for each child of an outcome,
and `_import_bundle` takes the marker out of a sealed bundle. Each of them
looks first whether the job is there already, and each looks at something
else: a submission at the payload path it was given, a registration at the
markers of one placement, an import at the markers of the core kinds. None
looks again when it publishes.

`CreationSystem` lets any number of such calls, and of transitions, take
turns effect by effect; a call that crashes takes no further step. Imports
alone exclude each other, by the lock of the transfer protocol. A state
marker is one file, so that publishing a name that is there replaces it.

The condition `Sighted` is about these looks. Where one finds nothing, no
marker of the job's UUID lies outside what it looks at, and no other creation
of that UUID has looked and is still to publish. Then every job has one marker
at most: a creation that has looked is the only one of its job, and the job
has no marker until it publishes one. Without the condition a payload
submitted at two placements has two.
-/

/-- **A payload directory**, as far as creation looks at it. -/
structure PlacedPayload where
  placement : List String
  jobKey : JobKey
  /-- The priority its `job.json` asks for. -/
  priority : Nat
  digest : String
  /-- Whether a sealed marker lies in its transfer directory. -/
  sealedMarker : Bool
deriving DecidableEq, Repr

/-- **What one call is asked for.** -/
inductive CreationRequest where
  /-- `submit` of a payload at its placement. -/
  | submit (payload : PlacedPayload)
  /-- `register_children`, for one child of an outcome. -/
  | registerChild (outcome : Nat) (child : PlacedPayload)
  | importBundle (manifest : TransferManifest)
deriving Repr

/-- **How far a call has come.** -/
inductive CreationPhase where
  | called
  /-- An import that found no marker of the job. -/
  | unmarked
  /-- The payload is about to be published. -/
  | placing
  /-- The payload is in place, published by this call or before it. -/
  | placed (here : Bool)
  /-- The marker is about to be published. -/
  | naming (marker : Marker)
  | ended
  | raised (cls : ExcClass)
  | crashed
deriving DecidableEq, Repr

/-- Whether a call takes no further step. -/
def CreationPhase.isOver : CreationPhase → Bool
  | ended | raised _ | crashed => true
  | _ => false

/-- **One call.** -/
structure Creation where
  /-- What was asked. -/
  request : CreationRequest
  /-- How far it has come. -/
  phase : CreationPhase
deriving Repr

/-- **The workspace as transitions and creations see it.** -/
structure WorkspaceState where
  /-- The state tree, the journal and the transitions under way. -/
  transitions : TransitionState
  payloads : List PlacedPayload
  /-- The child payloads that lie in outcomes. -/
  spawned : List (Nat × PlacedPayload)
  /-- The creations so far, by a number of their own. -/
  creations : Nat → Option Creation
  /-- The import that holds the lock of the transfer protocol. -/
  holder : Option Nat

/-- **The steps.** -/
inductive WorkspaceLabel where
  /-- A step of a transition, whoever asked for it. -/
  | transition (label : TransitionLabel)
  | spawn (outcome : Nat) (child : PlacedPayload)
  /-- A new call. -/
  | create (i : Nat) (request : CreationRequest)
  /-- The next effect of a call. `executed` tells whether a rename took effect. -/
  | proceed (i : Nat) (executed : Bool)
  /-- A call stops where it is. -/
  | crash (i : Nat)
deriving Repr

namespace PlacedPayload

/-- The marker a submission or a registration publishes. -/
def submittedMarker (p : PlacedPayload) : Marker where
  kind := .submitted
  placement := p.placement
  jobKey := p.jobKey
  priority := p.priority
  generation := 0
  recordRef := .init

end PlacedPayload

/-- The payload an import publishes. -/
def TransferManifest.payload (m : TransferManifest) : PlacedPayload where
  placement := m.destinationPlacement
  jobKey := m.jobKey
  priority := m.priority
  digest := m.payloadSha256
  sealedMarker := true

/-- **`find_marker_by_id`**, among the core kinds. -/
def findMarkerById (markers : List Marker) (jobId : String) : Except ExcClass (Option Marker) :=
  match markers.filter fun m => m.kind.isCore && m.jobId == jobId with
  | [] => .ok none
  | [m] => .ok (some m)
  | _ :: _ :: _ => .error .workspaceCorruption

namespace WorkspaceState

/-- What lies at a payload path. -/
def payloadAt (s : WorkspaceState) (placement : List String) (jobKey : JobKey) :
    Option PlacedPayload :=
  s.payloads.find? fun p => p.placement = placement ∧ p.jobKey = jobKey

/-- **`find_marker_at`**, among the core kinds at one placement. -/
def findMarkerAt (markers : List Marker) (jobKey : JobKey) (placement : List String) :
    Except ExcClass (Option Marker) :=
  match markers.filter fun m => m.kind.isCore && m.jobKey == jobKey && m.placement == placement with
  | [] => .ok none
  | [m] => .ok (some m)
  | _ :: _ :: _ => .error .workspaceCorruption

/-- A call moves to its next phase; an import that is over gives up the lock. -/
def setPhase (s : WorkspaceState) (i : Nat) (c : Creation) (p : CreationPhase) : WorkspaceState :=
  { s with
    creations := Function.update s.creations i (some { c with phase := p })
    holder := if p.isOver = true ∧ s.holder = some i then none else s.holder }

/-- A payload directory appears. -/
def addPayload (s : WorkspaceState) (p : PlacedPayload) : WorkspaceState :=
  { s with payloads := s.payloads ++ [p] }

/-- A marker file appears, or replaces the one of its name. -/
def addMarker (s : WorkspaceState) (m : Marker) : WorkspaceState :=
  { s with
    transitions := { s.transitions with
      markers := if m ∈ s.transitions.markers then s.transitions.markers
        else s.transitions.markers ++ [m]
      history := s.transitions.history ++ [m] } }

/-- The sealed marker leaves the payload it lay in. -/
def takeSealedMarker (s : WorkspaceState) (placement : List String) (jobKey : JobKey) :
    WorkspaceState :=
  { s with payloads := s.payloads.map fun p =>
      if p.placement = placement ∧ p.jobKey = jobKey then { p with sealedMarker := false } else p }

/-- **`_publish_path`** of a payload: an occupied path is `FileExistsError`. -/
def publishPayload (s : WorkspaceState) (i : Nat) (c : Creation) (p : PlacedPayload)
    (executed : Bool) : WorkspaceState :=
  if (s.payloadAt p.placement p.jobKey).isSome then s.setPhase i c (.raised .osError)
  else if executed = true then (s.addPayload p).setPhase i c (.placed true)
  else s.setPhase i c (.raised .workspaceUnavailable)

/-- **`_publish_path`** of a marker, onto whatever has its name. -/
def publishMarker (s : WorkspaceState) (i : Nat) (c : Creation) (m : Marker) (executed : Bool) :
    WorkspaceState :=
  if executed = true then (s.addMarker m).setPhase i c .ended
  else s.setPhase i c (.raised .workspaceUnavailable)

/-- **`submit`**, one effect. -/
def submitStep (s : WorkspaceState) (i : Nat) (c : Creation) (p : PlacedPayload)
    (executed : Bool) : Option WorkspaceState :=
  match c.phase with
  | .called =>
    if (s.payloadAt p.placement p.jobKey).isSome then some (s.setPhase i c (.raised .osError))
    else some (s.setPhase i c .placing)
  | .placing => some (s.publishPayload i c p executed)
  | .placed _ => some (s.setPhase i c (.naming p.submittedMarker))
  | .naming m => some (s.publishMarker i c m executed)
  | _ => none

/-- **`register_children`**, one effect for one child. -/
def registerStep (s : WorkspaceState) (i : Nat) (c : Creation) (outcome : Nat)
    (child : PlacedPayload) (executed : Bool) : Option WorkspaceState :=
  match c.phase with
  | .called =>
    if (outcome, child) ∈ s.spawned then some (s.setPhase i c .placing)
    else if (s.payloadAt child.placement child.jobKey).isSome then
      some (s.setPhase i c (.placed false))
    else some (s.setPhase i c (.raised .formatError))
  | .placing =>
    if (outcome, child) ∈ s.spawned then
      let s' := s.publishPayload i c child executed
      if (s.payloadAt child.placement child.jobKey).isNone ∧ executed = true then
        some { s' with spawned := s'.spawned.erase (outcome, child) }
      else some s'
    -- another registration took the source: with the destination there, that reads as success
    else if (s.payloadAt child.placement child.jobKey).isSome then
      some (s.setPhase i c (.placed true))
    else some (s.setPhase i c (.raised .workspaceUnavailable))
  | .placed here =>
    match findMarkerAt s.transitions.markers child.jobKey child.placement with
    | .error e => some (s.setPhase i c (.raised e))
    | .ok (some _) => some (s.setPhase i c .ended)
    | .ok none =>
      match s.payloadAt child.placement child.jobKey with
      | none => some (s.setPhase i c (.raised .formatError))
      | some target =>
        if here = false ∧ target.digest ≠ child.digest then
          some (s.setPhase i c (.raised .formatError))
        else some (s.setPhase i c (.naming target.submittedMarker))
  | .naming m => some (s.publishMarker i c m executed)
  | _ => none

/-- **`_import_bundle`**, one effect, from the look for a marker of the job to the
rename of the sealed marker. A job that is there is acknowledged or refused. -/
def importStep (workspaceId : String) (s : WorkspaceState) (i : Nat) (c : Creation)
    (m : TransferManifest) (executed : Bool) : Option WorkspaceState :=
  match c.phase with
  | .called =>
    match findMarkerById s.transitions.markers m.jobId with
    | .error e => some (s.setPhase i c (.raised e))
    | .ok (some _) => some (s.setPhase i c .ended)
    | .ok none => some (s.setPhase i c .unmarked)
  | .unmarked =>
    match s.payloadAt m.destinationPlacement m.jobKey with
    | none => some (s.setPhase i c .placing)
    | some target =>
      if target.sealedMarker = false then some (s.setPhase i c (.raised .formatError))
      else if target.digest ≠ m.payloadSha256 then some (s.setPhase i c (.raised .osError))
      else some (s.setPhase i c (.placed false))
  | .placing => some (s.publishPayload i c m.payload executed)
  | .placed _ =>
    if m.priorKind.isQuiescent = false then some (s.setPhase i c (.raised .formatError))
    else
      let d := m.importedMarker (.frame s.transitions.journal.length)
      let s' := { s with transitions := { s.transitions with
        journal := s.transitions.journal ++ [m.importedFrame workspaceId] } }
      if m.nameable = false then some (s'.setPhase i c (.raised .formatError))
      else some (s'.setPhase i c (.naming d))
  | .naming d =>
    if executed = true ∧ (s.payloadAt m.destinationPlacement m.jobKey).any (·.sealedMarker) then
      some (((s.takeSealedMarker m.destinationPlacement m.jobKey).addMarker d).setPhase i c .ended)
    else some (s.setPhase i c (.raised .workspaceUnavailable))
  | _ => none

/-- The next effect of a call. -/
def creationStep (workspaceId : String) (s : WorkspaceState) (i : Nat) (c : Creation)
    (executed : Bool) : Option WorkspaceState :=
  match c.request with
  | .submit p => s.submitStep i c p executed
  | .registerChild outcome child => s.registerStep i c outcome child executed
  | .importBundle m => s.importStep workspaceId i c m executed

/-- Whether a new call has to wait for the lock. -/
def blocked (s : WorkspaceState) : CreationRequest → Bool
  | .importBundle _ => s.holder.isSome
  | _ => false

/-- Who holds the lock once a call is made. -/
def holding (s : WorkspaceState) (i : Nat) : CreationRequest → Option Nat
  | .importBundle _ => some i
  | _ => s.holder

/-- **The next state under a label**, `none` when the label does not apply. -/
def next (workspaceId : String) (attempts : Nat) (s : WorkspaceState) :
    WorkspaceLabel → Option WorkspaceState
  | .transition label =>
    (s.transitions.next workspaceId attempts label).map fun t => { s with transitions := t }
  | .spawn outcome child => some { s with spawned := (outcome, child) :: s.spawned }
  | .create i request =>
    if s.creations i = none ∧ s.blocked request = false then
      some { s with
        creations := Function.update s.creations i (some ⟨request, .called⟩)
        holder := s.holding i request }
    else none
  | .proceed i executed =>
    match s.creations i with
    | some c => s.creationStep workspaceId i c executed
    | none => none
  | .crash i =>
    match s.creations i with
    | some c => if c.phase.isOver = true then none else some (s.setPhase i c .crashed)
    | none => none

end WorkspaceState

/-- **The histories of a workspace**, which starts empty. -/
abbrev creationSystem (workspaceId : String) (attempts : Nat) :
    System WorkspaceState WorkspaceLabel :=
  System.ofNext
    (fun s => s.transitions.markers = [] ∧ s.transitions.history = []
      ∧ s.transitions.journal = [] ∧ s.transitions.calls = (fun _ => none)
      ∧ s.payloads = [] ∧ s.spawned = [] ∧ s.creations = (fun _ => none) ∧ s.holder = none)
    (WorkspaceState.next workspaceId attempts)

namespace TransitionState

variable {wid : String} {attempts : Nat} {s s' : TransitionState}

theorem map_jobId_move {a d : Marker} (h : d.jobId = a.jobId) :
    (s.move a d).markers.map Marker.jobId = s.markers.map Marker.jobId := by
  show (s.markers.map fun m => if m = a then d else m).map Marker.jobId = _
  rw [List.map_map]
  refine List.map_congr_left fun m _ => ?_
  show (if m = a then d else m).jobId = m.jobId
  split_ifs with hm
  · rw [hm, h]
  · rfl

/-- Every call prepares a marker of the job it was asked about. -/
def Named (s : TransitionState) : Prop :=
  ∀ i c d, s.calls i = some c → c.phase.prepared = some d → d.jobId = c.request.marker.jobId

theorem Named.setPhase {i : Nat} {c : TransitionCall} {p : TransitionPhase} (hs : s.Named)
    (hp : ∀ d, p.prepared = some d → d.jobId = c.request.marker.jobId) :
    (s.setPhase i c p).Named := by
  intro j c' d hj hd
  rw [setPhase_calls] at hj
  split_ifs at hj
  · obtain rfl := Option.some.inj hj
    exact hp d hd
  · exact hs j c' d hj hd

/-- **No transition makes a job or ends one**: the UUIDs in the tree stay what they are. -/
theorem Named.next {l : TransitionLabel} (hs : s.Named) (h : s.next wid attempts l = some s') :
    s'.Named ∧ s'.markers.map Marker.jobId = s.markers.map Marker.jobId := by
  cases l with
  | call i r =>
    obtain ⟨-, -, rfl⟩ := next_call h
    refine ⟨?_, rfl⟩
    intro j c d hj hd
    have hj : Function.update s.calls i (some ⟨r, .called⟩) j = some c := hj
    rw [Function.update_apply] at hj
    split_ifs at hj
    · obtain rfl := Option.some.inj hj
      cases hd
    · exact hs j c d hj hd
  | prepare i f =>
    obtain ⟨c, -, -, ⟨e, rfl⟩ | ⟨p, hp, rfl⟩⟩ := next_prepare h
    · refine ⟨hs.setPhase ?_, rfl⟩
      intro d hd
      cases hd
    · have hprepared : p.prepared = some (c.request.destination (.frame s.journal.length)) := by
        rcases hp with rfl | rfl | rfl <;> rfl
      refine ⟨?_, rfl⟩
      have happended : ({ s with journal := s.journal ++ [c.request.frame wid] } : TransitionState).Named := hs
      refine happended.setPhase fun d hd => ?_
      obtain rfl := Option.some.inj (hprepared.symm.trans hd)
      rfl
  | rename i x =>
    obtain ⟨c, k, d, hc, hph, hmoved⟩ := next_rename h
    have hd : d.jobId = c.request.marker.jobId := hs i c d hc (by rw [hph]; rfl)
    have hphase : ∀ d', (TransitionPhase.probingDestination k d).prepared = some d' →
        d'.jobId = c.request.marker.jobId := fun d' h' => Option.some.inj h' ▸ hd
    rcases hmoved with ⟨-, rfl⟩ | ⟨-, rfl⟩
    · have hmove : (s.move c.request.marker d).Named := hs
      exact ⟨hmove.setPhase hphase, map_jobId_move hd⟩
    · exact ⟨hs.setPhase hphase, rfl⟩
  | look i =>
    obtain ⟨c, d, p, hc, hd, rfl, hp⟩ := next_look h
    refine ⟨hs.setPhase fun d' hd' => ?_, rfl⟩
    have hprepared : p.prepared = some d := by
      rcases hp with ⟨k, -, ⟨-, rfl⟩ | ⟨-, rfl⟩⟩ | ⟨-, ⟨k, rfl | rfl⟩ | ⟨e, rfl⟩⟩ <;> rfl
    obtain rfl := Option.some.inj (hprepared.symm.trans hd')
    exact hs i c d hc hd

end TransitionState

def CreationRequest.jobId : CreationRequest → String
  | submit p => p.jobKey.id
  | registerChild _ p => p.jobKey.id
  | importBundle m => m.jobId

/-- **The look of a path**: a submission's is the publication of the payload,
which refuses an occupied path. -/
def Creation.looks : Creation → Bool
  | ⟨.submit _, .placing⟩ | ⟨.registerChild _ _, .placed _⟩ | ⟨.importBundle _, .called⟩ => true
  | _ => false

/-- **A creation that has looked** and is still to publish its marker. -/
def Creation.pending : Creation → Bool
  | ⟨.submit _, .placed _⟩ | ⟨.importBundle _, .unmarked⟩ | ⟨.importBundle _, .placing⟩
  | ⟨.importBundle _, .placed _⟩ | ⟨_, .naming _⟩ => true
  | _ => false

namespace WorkspaceState

variable {wid : String} {attempts : Nat} {s s' : WorkspaceState}

/-! ## The look of a creation -/

def found : Except ExcClass (Option Marker) → Bool
  | .ok none => false
  | _ => true

/-- **What the look of a path finds**: a payload at its path, a marker at its
placement, or a marker of a core kind. -/
def finds (s : WorkspaceState) : CreationRequest → Bool
  | .submit p => (s.payloadAt p.placement p.jobKey).isSome
  | .registerChild _ p => found (findMarkerAt s.transitions.markers p.jobKey p.placement)
  | .importBundle m => found (findMarkerById s.transitions.markers m.jobId)

/-- Whether a marker of the job is one that the look takes notice of. -/
def sees (s : WorkspaceState) : CreationRequest → Marker → Bool
  | .submit p, _ => (s.payloadAt p.placement p.jobKey).isSome
  | .registerChild _ p, m => m.kind.isCore && m.jobKey == p.jobKey && m.placement == p.placement
  | .importBundle _, m => m.kind.isCore

/-- **The condition**: at a look that finds nothing, no marker of the job's
UUID lies outside what the look sees, and no other creation of that UUID has
looked and is still to publish. -/
def Sighted (s : WorkspaceState) : WorkspaceLabel → Prop
  | .proceed i _ => ∀ c, s.creations i = some c → c.looks = true → s.finds c.request = false →
      (∀ m ∈ s.transitions.markers, m.jobId = c.request.jobId → s.sees c.request m = true)
        ∧ ∀ j c', j ≠ i → s.creations j = some c' → c'.request.jobId = c.request.jobId → c'.pending = false
  | _ => True

theorem findMarkerAt_found {markers : List Marker} {jobKey : JobKey} {placement : List String} {m : Marker}
    (hm : m ∈ markers.filter fun m => m.kind.isCore && m.jobKey == jobKey && m.placement == placement) :
    found (findMarkerAt markers jobKey placement) = true := by
  unfold findMarkerAt
  split
  · rename_i hnil
    rw [hnil] at hm
    cases hm
  · rfl
  · rfl

theorem findMarkerById_found {markers : List Marker} {jobId : String} {m : Marker}
    (hm : m ∈ markers.filter fun m => m.kind.isCore && m.jobId == jobId) :
    found (findMarkerById markers jobId) = true := by
  unfold findMarkerById
  split
  · rename_i hnil
    rw [hnil] at hm
    cases hm
  · rfl
  · rfl

/-- **A look finds what it sees.** -/
theorem finds_of_sees {r : CreationRequest} {m : Marker} (hm : m ∈ s.transitions.markers) (hid : m.jobId = r.jobId)
    (hsees : s.sees r m = true) : s.finds r = true := by
  cases r with
  | submit p => exact hsees
  | registerChild o p => exact findMarkerAt_found (List.mem_filter.mpr ⟨hm, hsees⟩)
  | importBundle manifest =>
    refine findMarkerById_found (List.mem_filter.mpr ⟨hm, ?_⟩)
    rw [Bool.and_eq_true, beq_iff_eq]
    exact ⟨hsees, hid⟩

/-! ## What one effect of a creation does -/

variable {c : Creation} {x : Bool} {i : Nat} {p : PlacedPayload}

/-- **An effect of a creation** moves the call to its next phase, and changes
the tree only if it publishes the marker. A call is pending from its look on. -/
inductive CreationEffect (s : WorkspaceState) (i : Nat) (c : Creation) (s' : WorkspaceState) : Prop where
  | stays (phase : CreationPhase)
      (hcreations : s'.creations = Function.update s.creations i (some { c with phase := phase }))
      (hcalls : s'.transitions.calls = s.transitions.calls)
      (hmarkers : s'.transitions.markers = s.transitions.markers)
      (hpending : Creation.pending ⟨c.request, phase⟩ = true →
        c.pending = true ∨ (c.looks = true ∧ s.finds c.request = false))
      (hnaming : ∀ d, phase = .naming d → d.jobId = c.request.jobId)
  | publishes (d : Marker) (hphase : c.phase = .naming d)
      (hcreations : s'.creations = Function.update s.creations i (some { c with phase := .ended }))
      (hcalls : s'.transitions.calls = s.transitions.calls)
      (hmarkers : s'.transitions.markers = (s.addMarker d).transitions.markers)

/-- A call that is over is not pending. -/
theorem effect_over {phase : CreationPhase} (hover : phase.isOver = true) : CreationEffect s i c (s.setPhase i c phase) := by
  refine .stays phase rfl rfl rfl ?_ ?_
  · obtain ⟨request, _⟩ := c
    cases phase <;> cases hover <;> cases request <;> exact fun h => by cases h
  · rintro d rfl
    cases hover

theorem publishPayload_effect (hpending : (s.payloadAt p.placement p.jobKey).isSome = false →
      Creation.pending ⟨c.request, .placed true⟩ = true →
        c.pending = true ∨ (c.looks = true ∧ s.finds c.request = false)) :
    CreationEffect s i c (s.publishPayload i c p x) := by
  unfold publishPayload
  split_ifs with hoccupied
  · exact effect_over rfl
  · exact .stays (.placed true) rfl rfl rfl (hpending (eq_false_of_ne_true hoccupied)) fun d hd => by cases hd
  · exact effect_over rfl

theorem publishMarker_effect {d : Marker} (hphase : c.phase = .naming d) :
    CreationEffect s i c (s.publishMarker i c d x) := by
  unfold publishMarker
  split_ifs
  · exact .publishes d hphase rfl rfl rfl
  · exact effect_over rfl

theorem submitStep_effect {phase : CreationPhase} (h : s.submitStep i ⟨.submit p, phase⟩ p x = some s') :
    CreationEffect s i ⟨.submit p, phase⟩ s' := by
  unfold submitStep at h
  split at h
  · split_ifs at h <;> obtain rfl := Option.some.inj h
    · exact effect_over rfl
    · exact .stays .placing rfl rfl rfl nofun nofun
  · rename_i hphase
    obtain rfl : phase = .placing := hphase
    obtain rfl := Option.some.inj h
    exact publishPayload_effect fun hfree _ => Or.inr ⟨rfl, hfree⟩
  · rename_i hphase
    obtain rfl : phase = .placed _ := hphase
    obtain rfl := Option.some.inj h
    refine .stays (.naming p.submittedMarker) rfl rfl rfl (fun _ => Or.inl rfl) fun d hd => ?_
    rw [← CreationPhase.naming.inj hd]
    rfl
  · rename_i hphase
    obtain rfl := Option.some.inj h
    exact publishMarker_effect hphase
  · cases h

theorem payloadAt_jobKey {placement : List String} {jobKey : JobKey} {target : PlacedPayload}
    (h : s.payloadAt placement jobKey = some target) : target.jobKey = jobKey := by
  have hfound := List.find?_some h
  exact (of_decide_eq_true hfound).2

theorem registerStep_effect {o : Nat} {phase : CreationPhase}
    (h : s.registerStep i ⟨.registerChild o p, phase⟩ o p x = some s') :
    CreationEffect s i ⟨.registerChild o p, phase⟩ s' := by
  unfold registerStep at h
  split at h
  · split_ifs at h <;> obtain rfl := Option.some.inj h
    · exact .stays .placing rfl rfl rfl nofun nofun
    · exact .stays (.placed false) rfl rfl rfl nofun nofun
    · exact effect_over rfl
  · dsimp only at h
    split_ifs at h <;> obtain rfl := Option.some.inj h
    · rcases publishPayload_effect (s := s) (i := i) (c := ⟨.registerChild o p, phase⟩) (p := p) (x := x) nofun with
        ⟨ph, h₁, h₂, h₃, h₄, h₅⟩ | ⟨d, h₁, h₂, h₃, h₄⟩
      · exact .stays ph h₁ h₂ h₃ h₄ h₅
      · exact .publishes d h₁ h₂ h₃ h₄
    · exact publishPayload_effect nofun
    · exact .stays (.placed true) rfl rfl rfl nofun nofun
    · exact effect_over rfl
  · rename_i here hphase
    obtain rfl : phase = .placed here := hphase
    split at h
    · obtain rfl := Option.some.inj h
      exact effect_over rfl
    · obtain rfl := Option.some.inj h
      exact effect_over rfl
    · rename_i hnone
      split at h
      · obtain rfl := Option.some.inj h
        exact effect_over rfl
      · rename_i target htarget
        split_ifs at h <;> obtain rfl := Option.some.inj h
        · exact effect_over rfl
        · refine .stays (.naming target.submittedMarker) rfl rfl rfl (fun _ => Or.inr ⟨rfl, ?_⟩) fun d hd => ?_
          · rw [finds, hnone]
            rfl
          · rw [← CreationPhase.naming.inj hd]
            exact congrArg JobKey.id (payloadAt_jobKey htarget)
  · rename_i hphase
    obtain rfl := Option.some.inj h
    exact publishMarker_effect hphase
  · cases h

theorem importStep_effect {m : TransferManifest} {phase : CreationPhase}
    (h : s.importStep wid i ⟨.importBundle m, phase⟩ m x = some s') :
    CreationEffect s i ⟨.importBundle m, phase⟩ s' := by
  unfold importStep at h
  split at h
  · rename_i hphase
    obtain rfl : phase = .called := hphase
    split at h <;> obtain rfl := Option.some.inj h
    · exact effect_over rfl
    · exact effect_over rfl
    · rename_i hnone
      refine .stays .unmarked rfl rfl rfl (fun _ => Or.inr ⟨rfl, ?_⟩) nofun
      rw [finds, hnone]
      rfl
  · rename_i hphase
    obtain rfl : phase = .unmarked := hphase
    split at h
    · obtain rfl := Option.some.inj h
      exact .stays .placing rfl rfl rfl (fun _ => Or.inl rfl) nofun
    · split_ifs at h <;> obtain rfl := Option.some.inj h
      · exact effect_over rfl
      · exact effect_over rfl
      · exact .stays (.placed false) rfl rfl rfl (fun _ => Or.inl rfl) nofun
  · rename_i hphase
    obtain rfl : phase = .placing := hphase
    obtain rfl := Option.some.inj h
    exact publishPayload_effect fun _ _ => Or.inl rfl
  · rename_i here hphase
    obtain rfl : phase = .placed here := hphase
    dsimp only at h
    split_ifs at h <;> obtain rfl := Option.some.inj h
    · exact effect_over rfl
    · exact .stays (.raised .formatError) rfl rfl rfl nofun nofun
    · refine .stays (.naming _) rfl rfl rfl (fun _ => Or.inl rfl) fun d hd => ?_
      rw [← CreationPhase.naming.inj hd]
      rfl
  · rename_i d hphase
    split_ifs at h <;> obtain rfl := Option.some.inj h
    · exact .publishes d hphase rfl rfl rfl
    · exact effect_over rfl
  · cases h

theorem creationStep_effect (h : s.creationStep wid i c x = some s') : CreationEffect s i c s' := by
  obtain ⟨request, phase⟩ := c
  cases request with
  | submit p => exact submitStep_effect h
  | registerChild o p => exact registerStep_effect h
  | importBundle m => exact importStep_effect h

/-! ## One marker a job -/

/-- **A workspace that forks no job**: the markers have UUIDs of their own, and
a creation that has looked is the only one of its job, which has no marker. -/
structure Unforked (s : WorkspaceState) : Prop where
  ids : (s.transitions.markers.map Marker.jobId).Nodup
  named : s.transitions.Named
  naming : ∀ i c d, s.creations i = some c → c.phase = .naming d → d.jobId = c.request.jobId
  absent : ∀ i c, s.creations i = some c → c.pending = true →
    c.request.jobId ∉ s.transitions.markers.map Marker.jobId
  alone : ∀ i j c c', s.creations i = some c → s.creations j = some c' → c.pending = true → c'.pending = true →
    c.request.jobId = c'.request.jobId → i = j

theorem creation_of_update {creations : Nat → Option Creation} {c₀ c' : Creation} {j : Nat}
    (h : Function.update creations i (some c₀) j = some c') : (j = i ∧ c' = c₀) ∨ (j ≠ i ∧ creations j = some c') := by
  rw [Function.update_apply] at h
  split_ifs at h with hji
  · exact Or.inl ⟨hji, (Option.some.inj h).symm⟩
  · exact Or.inr ⟨hji, h⟩

theorem named_congr (hs : s.transitions.Named) (h : s'.transitions.calls = s.transitions.calls) :
    s'.transitions.Named := by
  intro j c d hj
  rw [h] at hj
  exact hs j c d hj

/-- **A call that moves on** leaves the jobs unforked: it was pending, or has
just looked as the only one, or is not pending now. -/
theorem Unforked.stays (hs : s.Unforked) (hcreations : s'.creations = Function.update s.creations i (some c))
    (hcalls : s'.transitions.calls = s.transitions.calls) (hmarkers : s'.transitions.markers = s.transitions.markers)
    (hpending : c.pending = true → c.request.jobId ∉ s.transitions.markers.map Marker.jobId
      ∧ ∀ j c', j ≠ i → s.creations j = some c' → c'.request.jobId = c.request.jobId → c'.pending = false)
    (hnaming : ∀ d, c.phase = .naming d → d.jobId = c.request.jobId) : s'.Unforked := by
  refine ⟨hmarkers ▸ hs.ids, named_congr hs.named hcalls, ?_, ?_, ?_⟩
  · intro j c' d hj hphase
    rw [hcreations] at hj
    rcases creation_of_update hj with ⟨rfl, rfl⟩ | ⟨-, hold⟩
    · exact hnaming d hphase
    · exact hs.naming j c' d hold hphase
  · intro j c' hj hc'
    rw [hmarkers]
    rw [hcreations] at hj
    rcases creation_of_update hj with ⟨rfl, rfl⟩ | ⟨-, hold⟩
    · exact (hpending hc').1
    · exact hs.absent j c' hold hc'
  · intro j k c₁ c₂ hj hk h₁ h₂ heq
    rw [hcreations] at hj hk
    rcases creation_of_update hj with ⟨rfl, rfl⟩ | ⟨hji, hold⟩
    · rcases creation_of_update hk with ⟨rfl, rfl⟩ | ⟨hki, hold'⟩
      · rfl
      · rw [(hpending h₁).2 k c₂ hki hold' heq.symm] at h₂
        cases h₂
    · rcases creation_of_update hk with ⟨rfl, rfl⟩ | ⟨-, hold'⟩
      · rw [(hpending h₂).2 j c₁ hji hold heq] at h₁
        cases h₁
      · exact hs.alone j k c₁ c₂ hold hold' h₁ h₂ heq

theorem mem_addMarker {d : Marker} {u : String} (h : u ∈ (s.addMarker d).transitions.markers.map Marker.jobId) :
    u ∈ s.transitions.markers.map Marker.jobId ∨ u = d.jobId := by
  have h : u ∈ (if d ∈ s.transitions.markers then s.transitions.markers
    else s.transitions.markers ++ [d]).map Marker.jobId := h
  split_ifs at h
  · exact Or.inl h
  · rw [List.map_append, List.mem_append] at h
    exact h.imp id List.mem_singleton.mp

theorem nodup_addMarker {d : Marker} (hs : (s.transitions.markers.map Marker.jobId).Nodup)
    (hd : d.jobId ∉ s.transitions.markers.map Marker.jobId) :
    ((s.addMarker d).transitions.markers.map Marker.jobId).Nodup := by
  have hnew : d ∉ s.transitions.markers := fun hmem => hd (List.mem_map_of_mem hmem)
  show ((if d ∈ s.transitions.markers then s.transitions.markers
    else s.transitions.markers ++ [d]).map Marker.jobId).Nodup
  rw [if_neg hnew, List.map_append, List.nodup_append]
  refine ⟨hs, List.nodup_singleton _, fun u hu v hv huv => hd ?_⟩
  rwa [← List.mem_singleton.mp hv, ← huv]

/-- **The marker of the creation that looked last** is the first of its job. -/
theorem Unforked.publishes {d : Marker} (hs : s.Unforked) (hc : s.creations i = some c) (hphase : c.phase = .naming d)
    (hcreations : s'.creations = Function.update s.creations i (some { c with phase := .ended }))
    (hcalls : s'.transitions.calls = s.transitions.calls)
    (hmarkers : s'.transitions.markers = (s.addMarker d).transitions.markers) : s'.Unforked := by
  have hid : d.jobId = c.request.jobId := hs.naming i c d hc hphase
  have hpending : c.pending = true := by
    obtain ⟨request, phase⟩ := c
    obtain rfl : phase = .naming d := hphase
    cases request <;> rfl
  have hover : Creation.pending ⟨c.request, .ended⟩ = false := by
    cases c.request <;> rfl
  refine ⟨?_, named_congr hs.named hcalls, ?_, ?_, ?_⟩
  · rw [hmarkers]
    exact nodup_addMarker hs.ids (hid ▸ hs.absent i c hc hpending)
  · intro j c' d' hj hd'
    rw [hcreations] at hj
    rcases creation_of_update hj with ⟨rfl, rfl⟩ | ⟨-, hold⟩
    · cases hd'
    · exact hs.naming j c' d' hold hd'
  · intro j c' hj hc' hmem
    rw [hcreations] at hj
    rcases creation_of_update hj with ⟨rfl, rfl⟩ | ⟨hji, hj⟩
    · rw [hover] at hc'
      cases hc'
    · rw [hmarkers] at hmem
      rcases mem_addMarker hmem with hmem | hsame
      · exact hs.absent j c' hj hc' hmem
      · exact hji (hs.alone j i c' c hj hc hc' hpending (hsame.trans hid))
  · intro j k c₁ c₂ hj hk h₁ h₂ heq
    rw [hcreations] at hj hk
    rcases creation_of_update hj with ⟨rfl, rfl⟩ | ⟨-, hj⟩
    · rw [hover] at h₁
      cases h₁
    · rcases creation_of_update hk with ⟨rfl, rfl⟩ | ⟨-, hk⟩
      · rw [hover] at h₂
        cases h₂
      · exact hs.alone j k c₁ c₂ hj hk h₁ h₂ heq

/-- **Every step that meets the condition keeps the jobs unforked.** -/
theorem Unforked.next {l : WorkspaceLabel} (hs : s.Unforked) (hl : s.Sighted l)
    (h : s.next wid attempts l = some s') : s'.Unforked := by
  cases l with
  | transition label =>
    obtain ⟨t, ht, rfl⟩ := Option.map_eq_some_iff.mp h
    obtain ⟨hnamed, hids⟩ := hs.named.next ht
    exact ⟨hids ▸ hs.ids, hnamed, hs.naming, fun i c hc hp => hids ▸ hs.absent i c hc hp, hs.alone⟩
  | spawn o p =>
    obtain rfl := Option.some.inj h
    exact ⟨hs.ids, hs.named, hs.naming, hs.absent, hs.alone⟩
  | create i r =>
    rw [WorkspaceState.next] at h
    split_ifs at h
    obtain rfl := Option.some.inj h
    exact hs.stays rfl rfl rfl (fun hp => by cases r <;> cases hp) nofun
  | proceed i x =>
    rw [WorkspaceState.next] at h
    split at h
    · rename_i c hc
      rcases creationStep_effect h with ⟨phase, hcreations, hcalls, hmarkers, hpending, hnaming⟩
        | ⟨d, hphase, hcreations, hcalls, hmarkers⟩
      · refine hs.stays hcreations hcalls hmarkers (fun hp => ?_) hnaming
        rcases hpending hp with hpending | ⟨hlooks, hnothing⟩
        · refine ⟨hs.absent i c hc hpending, fun j c' hji hj heq => ?_⟩
          by_contra hc'
          exact hji (hs.alone j i c' c hj hc (eq_true_of_ne_false hc') hpending heq)
        · obtain ⟨hsees, halone⟩ := hl c hc hlooks hnothing
          refine ⟨fun hmem => ?_, halone⟩
          obtain ⟨m, hm, hid⟩ := List.mem_map.mp hmem
          rw [finds_of_sees hm hid (hsees m hm hid)] at hnothing
          cases hnothing
      · exact hs.publishes hc hphase hcreations hcalls hmarkers
    · cases h
  | crash i =>
    rw [WorkspaceState.next] at h
    split at h
    · rename_i c hc
      split_ifs at h
      obtain rfl := Option.some.inj h
      refine hs.stays (i := i) (c := ⟨c.request, .crashed⟩) rfl rfl rfl (fun hp => ?_) nofun
      obtain ⟨request, phase⟩ := c
      cases request <;> cases hp
    · cases h

def emptyWorkspace : WorkspaceState where
  transitions := ⟨[], [], fun _ => none, []⟩
  payloads := []
  spawned := []
  creations := fun _ => none
  holder := none

theorem emptyWorkspace_init (workspaceId : String) (n : Nat) : (creationSystem workspaceId n).init emptyWorkspace :=
  ⟨rfl, rfl, rfl, rfl, rfl, rfl, rfl, rfl⟩

def relaxation (placement : String) : PlacedPayload where
  placement := [placement]
  jobKey := ⟨none, "7d444840-9dc0-11d1-b245-5ffdce74fad2"⟩
  priority := 500
  digest := "d"
  sealedMarker := false

def submission (i : Nat) (placement : String) : List WorkspaceLabel :=
  [.create i (.submit (relaxation placement)), .proceed i true, .proceed i true, .proceed i true,
    .proceed i true]

/-- A child with a UUID of its own. -/
def sampledChild : PlacedPayload where
  placement := ["b"]
  jobKey := ⟨none, "7d444841-9dc0-11d1-b245-5ffdce74fad2"⟩
  priority := 500
  digest := "c"
  sealedMarker := false

end WorkspaceState
