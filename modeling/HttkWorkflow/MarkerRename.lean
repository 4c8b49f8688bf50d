import Mathlib.Logic.Function.Basic
import Mathlib.Data.List.Basic
import HttkWorkflow.System
import HttkWorkflow.StateFrame

/-!
# The verified marker rename

`Workspace.transition` appends a state frame, names the marker that would
refer to it, and renames the old marker onto that name. The rename is the
only atomic step: whether it was this actor's that took effect is worked
out afterwards, from three separate looks at the directory tree
(`_verified_marker_rename`). Between any two of those steps every other
actor may take any number of its own, so a call is modelled here by the
point it has reached (`TransitionPhase`), and `TransitionSystem` lets all
the calls of all the actors take turns.

A rename may also fail although its source is there, or be reported as
failed although it took effect. The code does not look at what the rename
reports, so the second case is a rename like any other; the first is the
choice `executed := false` of `TransitionLabel.rename`.

`history` is no part of the workspace. It records every marker that was
ever in the tree, in the order of appearance, so that a statement can say
that a frame *became* the frame of an authoritative marker.
-/

/-- **What one actor asks of `Workspace.transition`.** -/
structure TransitionRequest where
  /-- The marker the actor read, possibly long ago. -/
  marker : Marker
  kind : StateKind
  /-- The members of the new frame. -/
  updates : StateFrame
  priority : Option Nat
  /-- Whether the job-level seal is passed over. -/
  allowSealed : Bool
deriving Repr

/-- Why `transition` raised. -/
inductive TransitionError where
  /-- `SealedError` of the guard. -/
  | sealed
  | generationExhausted
  /-- `FormatError` of `marker_basename`. -/
  | invalidName
  /-- `OSError` of `ensure_directory`. -/
  | directory
  | lost (source current : Marker)
  | duplicated (jobKey : JobKey)
  | unresolved (source destination : Marker)
deriving DecidableEq, Repr

def TransitionError.cls : TransitionError → ExcClass
  | .sealed => .sealed
  | .generationExhausted => .workspaceCorruption
  | .invalidName => .formatError
  | .directory => .osError
  | .lost _ _ => .transitionLost
  | .duplicated _ => .workspaceCorruption
  | .unresolved _ _ => .workspaceUnavailable

/-- **How far a call of `transition` has come.** The three looks at the
tree are phases of their own. -/
inductive TransitionPhase where
  | called
  | moving (attempt : Nat) (destination : Marker)
  | probingDestination (attempt : Nat) (destination : Marker)
  | probingSource (attempt : Nat) (destination : Marker)
  | locating (attempt : Nat) (destination : Marker)
  | returned (destination : Marker)
  | raised (error : TransitionError) (destination : Option Marker)
deriving DecidableEq, Repr

/-- The marker a call prepared, once its frame is in the journal. -/
def TransitionPhase.prepared : TransitionPhase → Option Marker
  | called => none
  | moving _ d | probingDestination _ d | probingSource _ d | locating _ d
  | returned d => some d
  | raised _ d => d

/-- **One call of `transition`.** -/
structure TransitionCall where
  /-- What was asked. -/
  request : TransitionRequest
  /-- How far it has come. -/
  phase : TransitionPhase
deriving Repr

namespace TransitionRequest

def nextPriority (r : TransitionRequest) : Nat := r.priority.getD r.marker.priority

/-- **The frame the call appends.** -/
def frame (workspaceId : String) (r : TransitionRequest) : Frame where
  workspaceId := workspaceId
  jobKey := r.marker.jobKey
  placement := r.marker.placement
  stateGeneration := r.marker.generation + 1
  kind := r.kind
  previousRecordRef := if r.marker.recordRef = .init then none else some r.marker.recordRef
  priority := r.nextPriority
  members := r.updates

/-- The marker that refers to the frame appended at a reference. -/
def destination (r : TransitionRequest) (ref : RecordRef) : Marker where
  kind := r.kind
  placement := r.marker.placement
  jobKey := r.marker.jobKey
  priority := r.nextPriority
  generation := r.marker.generation + 1
  recordRef := ref

end TransitionRequest

/-- **`find_markers`** of a job key: every core kind is searched for the
job's UUID, and more than one hit is corruption. -/
def findMarkers (markers : List Marker) (jobKey : JobKey) : Except ExcClass (List Marker) :=
  match markers.filter (fun m => m.kind.isCore && m.jobKey.id == jobKey.id) with
  | [] => .ok []
  | [m] => if m.jobKey = jobKey then .ok [m] else .ok []
  | _ :: _ :: _ => .error .workspaceCorruption

/-- **The workspace as transitions see it.** -/
structure TransitionState where
  /-- The files below `state/`. -/
  markers : List Marker
  /-- The journal, in append order. -/
  journal : List Frame
  /-- The calls made so far, by a number of their own. -/
  calls : Nat → Option TransitionCall
  /-- Every marker that was ever in the tree, in order of appearance. -/
  history : List Marker

/-- What can go wrong before the rename, outside the caller's control. -/
inductive PrepareFault where
  | sealedWorkspace
  | sealedJob
  /-- The marker name exceeds its byte budget. -/
  | longName
  /-- The destination directory cannot be created. -/
  | directory
deriving DecidableEq, Repr

/-- **The steps**: a new call, or the next step of a call. -/
inductive TransitionLabel where
  | call (i : Nat) (request : TransitionRequest)
  | prepare (i : Nat) (fault : Option PrepareFault)
  | rename (i : Nat) (executed : Bool)
  | look (i : Nat)
deriving Repr

namespace TransitionState

def setPhase (s : TransitionState) (i : Nat) (c : TransitionCall)
    (p : TransitionPhase) : TransitionState :=
  { s with calls := Function.update s.calls i (some { c with phase := p }) }

/-- `os.rename(source, destination)`, when the source is there. -/
def move (s : TransitionState) (source destination : Marker) : TransitionState :=
  { s with
    markers := s.markers.map (fun m => if m = source then destination else m)
    history := s.history ++ [destination] }

/-- The next round of the visibility schedule, or its end. -/
def nextAttempt (attempts : Nat) (c : TransitionCall) (k : Nat) (d : Marker) :
    TransitionPhase :=
  if k + 1 < attempts then .moving (k + 1) d
  else .raised (.unresolved c.request.marker d) (some d)

/-- What the three looks decide, one at a time. -/
def lookPhase (attempts : Nat) (s : TransitionState) (c : TransitionCall) :
    Option TransitionPhase :=
  match c.phase with
  | .probingDestination k d =>
    if d ∈ s.markers then some (.returned d) else some (.probingSource k d)
  | .probingSource k d =>
    if c.request.marker ∈ s.markers then some (nextAttempt attempts c k d)
    else some (.locating k d)
  | .locating k d =>
    match findMarkers s.markers c.request.marker.jobKey with
    | .error _ => some (.raised (.duplicated c.request.marker.jobKey) (some d))
    | .ok [] => some (nextAttempt attempts c k d)
    | .ok [m] => some (.raised (.lost c.request.marker m) (some d))
    | .ok (_ :: _ :: _) => some (.raised (.duplicated c.request.marker.jobKey) (some d))
  | _ => none

/-- Everything up to the rename: the seal guard, the generation bound, the
frame, the marker name and its directory, in the order of the source. -/
def prepare (workspaceId : String) (s : TransitionState) (i : Nat) (c : TransitionCall)
    (fault : Option PrepareFault) : TransitionState :=
  if fault = some .sealedWorkspace ∨ (fault = some .sealedJob ∧ c.request.allowSealed = false) then
    s.setPhase i c (.raised .sealed none)
  else if c.request.marker.generation + 1 > 2 ^ 64 - 1 then
    s.setPhase i c (.raised .generationExhausted none)
  else
    -- the frame is appended and synchronized before anything is renamed
    let d := c.request.destination (.frame s.journal.length)
    let s' := { s with journal := s.journal ++ [c.request.frame workspaceId] }
    if fault = some .longName ∨ 999 < c.request.nextPriority then
      s'.setPhase i c (.raised .invalidName (some d))
    else if fault = some .directory then
      s'.setPhase i c (.raised .directory (some d))
    else s'.setPhase i c (.moving 0 d)

/-- **The next state under a label**, `none` when the label does not apply.
`attempts` is the number of rounds of the visibility schedule. -/
def next (workspaceId : String) (attempts : Nat) (s : TransitionState) :
    TransitionLabel → Option TransitionState
  | .call i request =>
    if s.calls i = none ∧ request.marker ∈ s.history then
      some { s with calls := Function.update s.calls i (some ⟨request, .called⟩) }
    else none
  | .prepare i fault =>
    match s.calls i with
    | some c => if c.phase = .called then some (s.prepare workspaceId i c fault) else none
    | none => none
  | .rename i executed =>
    match s.calls i with
    | some c =>
      match c.phase with
      | .moving k d =>
        let s' := if executed = true ∧ c.request.marker ∈ s.markers
          then s.move c.request.marker d else s
        some (s'.setPhase i c (.probingDestination k d))
      | _ => none
    | none => none
  | .look i =>
    match s.calls i with
    | some c => (s.lookPhase attempts c).map (s.setPhase i c)
    | none => none

end TransitionState

namespace TransitionState

@[simp] theorem setPhase_markers (s : TransitionState) (i : Nat) (c : TransitionCall)
    (p : TransitionPhase) : (s.setPhase i c p).markers = s.markers := rfl

@[simp] theorem setPhase_history (s : TransitionState) (i : Nat) (c : TransitionCall)
    (p : TransitionPhase) : (s.setPhase i c p).history = s.history := rfl

theorem setPhase_calls (s : TransitionState) (i j : Nat) (c : TransitionCall) (p : TransitionPhase) :
    (s.setPhase i c p).calls j = if j = i then some { c with phase := p } else s.calls j :=
  Function.update_apply _ _ _ _

theorem mem_move_history (s : TransitionState) (a b m : Marker) :
    m ∈ (s.move a b).history ↔ m ∈ s.history ∨ m = b := by
  show m ∈ s.history ++ [b] ↔ _
  rw [List.mem_append, List.mem_singleton]

theorem mem_move_markers (s : TransitionState) (a b m : Marker) :
    m ∈ (s.move a b).markers ↔ (m ∈ s.markers ∧ m ≠ a) ∨ (a ∈ s.markers ∧ m = b) := by
  show m ∈ s.markers.map _ ↔ _
  rw [List.mem_map]
  constructor
  · rintro ⟨x, hx, rfl⟩
    by_cases h : x = a
    · subst h
      rw [if_pos rfl]
      exact Or.inr ⟨hx, rfl⟩
    · rw [if_neg h]
      exact Or.inl ⟨hx, h⟩
  · rintro (⟨hm, hne⟩ | ⟨ha, rfl⟩)
    · exact ⟨m, hm, if_neg hne⟩
    · exact ⟨a, ha, if_pos rfl⟩

section Inversion

variable {wid : String} {attempts : Nat} {s s' : TransitionState}

variable {i : Nat}

theorem next_call {r : TransitionRequest} (h : next wid attempts s (.call i r) = some s') :
    s.calls i = none ∧ r.marker ∈ s.history
      ∧ s' = { s with calls := Function.update s.calls i (some ⟨r, .called⟩) } := by
  rw [next] at h
  split at h
  · rename_i hg
    exact ⟨hg.1, hg.2, (Option.some.inj h).symm⟩
  · cases h

/-- **Preparing** either raises before anything is written, or appends the
call's frame; the call is then about to rename, or has raised. -/
theorem next_prepare {f : Option PrepareFault} (h : next wid attempts s (.prepare i f) = some s') :
    ∃ c, s.calls i = some c ∧ c.phase = .called ∧ ((∃ e, s' = s.setPhase i c (.raised e none)) ∨
        ∃ p, (p = .moving 0 (c.request.destination (.frame s.journal.length))
            ∨ (p = .raised .invalidName (some (c.request.destination (.frame s.journal.length)))
              ∨ p = .raised .directory (some (c.request.destination (.frame s.journal.length)))))
          ∧ s' = { s with journal := s.journal ++ [c.request.frame wid] }.setPhase i c p) := by
  rw [next] at h
  split at h
  · rename_i c hc
    split at h
    · rename_i hp
      refine ⟨c, hc, hp, ?_⟩
      have h := (Option.some.inj h).symm
      unfold prepare at h
      split_ifs at h
      · exact Or.inl ⟨_, h⟩
      · exact Or.inl ⟨_, h⟩
      · exact Or.inr ⟨_, Or.inr (Or.inl rfl), h⟩
      · exact Or.inr ⟨_, Or.inr (Or.inr rfl), h⟩
      · exact Or.inr ⟨_, Or.inl rfl, h⟩
    · cases h
  · cases h

/-- **Renaming** moves the source if it is there, and then looks. -/
theorem next_rename {x : Bool} (h : next wid attempts s (.rename i x) = some s') :
    ∃ c k d, s.calls i = some c ∧ c.phase = .moving k d ∧ (((x = true ∧ c.request.marker ∈ s.markers)
          ∧ s' = (s.move c.request.marker d).setPhase i c (.probingDestination k d)) ∨
        (¬(x = true ∧ c.request.marker ∈ s.markers)
          ∧ s' = s.setPhase i c (.probingDestination k d))) := by
  rw [next] at h
  split at h
  · rename_i c hc
    split at h
    · rename_i k d hp
      refine ⟨c, k, d, hc, hp, ?_⟩
      have h := (Option.some.inj h).symm
      split_ifs at h with hx
      · exact Or.inl ⟨hx, h⟩
      · exact Or.inr ⟨hx, h⟩
    · cases h
  · cases h

theorem nextAttempt_cases (attempts : Nat) (c : TransitionCall) (k : Nat) (d : Marker) :
    nextAttempt attempts c k d = .moving (k + 1) d
      ∨ nextAttempt attempts c k d = .raised (.unresolved c.request.marker d) (some d) := by
  unfold nextAttempt
  split_ifs
  · exact Or.inl rfl
  · exact Or.inr rfl

/-- **Looking** returns exactly when the destination is seen. -/
theorem next_look (h : next wid attempts s (.look i) = some s') :
    ∃ c d p, s.calls i = some c ∧ c.phase.prepared = some d ∧ s' = s.setPhase i c p ∧
      ((∃ k, c.phase = .probingDestination k d
          ∧ ((d ∈ s.markers ∧ p = .returned d) ∨ (d ∉ s.markers ∧ p = .probingSource k d))) ∨
        ((∃ k, c.phase = .probingSource k d ∨ c.phase = .locating k d)
          ∧ ((∃ k, p = .moving k d ∨ p = .locating k d) ∨ ∃ e, p = .raised e (some d)))) := by
  rw [next] at h
  split at h
  · rename_i c hc
    obtain ⟨p, hp, rfl⟩ := Option.map_eq_some_iff.mp h
    unfold lookPhase at hp
    split at hp
    · rename_i k d hph
      refine ⟨c, d, p, hc, by rw [hph]; rfl, rfl, Or.inl ⟨k, hph, ?_⟩⟩
      split_ifs at hp with hd
      · exact Or.inl ⟨hd, (Option.some.inj hp).symm⟩
      · exact Or.inr ⟨hd, (Option.some.inj hp).symm⟩
    · rename_i k d hph
      refine ⟨c, d, p, hc, by rw [hph]; rfl, rfl, Or.inr ⟨⟨k, Or.inl hph⟩, ?_⟩⟩
      split_ifs at hp
      · have hp := (Option.some.inj hp).symm
        rcases nextAttempt_cases attempts c k d with hn | hn <;> rw [hn] at hp
        · exact Or.inl ⟨_, Or.inl hp⟩
        · exact Or.inr ⟨_, hp⟩
      · exact Or.inl ⟨k, Or.inr (Option.some.inj hp).symm⟩
    · rename_i k d hph
      refine ⟨c, d, p, hc, by rw [hph]; rfl, rfl, Or.inr ⟨⟨k, Or.inr hph⟩, ?_⟩⟩
      split at hp
      · exact Or.inr ⟨_, (Option.some.inj hp).symm⟩
      · have hp := (Option.some.inj hp).symm
        rcases nextAttempt_cases attempts c k d with hn | hn <;> rw [hn] at hp
        · exact Or.inl ⟨_, Or.inl hp⟩
        · exact Or.inr ⟨_, hp⟩
      · exact Or.inr ⟨_, (Option.some.inj hp).symm⟩
      · exact Or.inr ⟨_, (Option.some.inj hp).symm⟩
    · cases hp
  · cases h

end Inversion

/-! ## What holds of every call -/

/-- **A coherent workspace**: every call asks about a marker that was in the
tree, and the marker it prepared, if any, refers to the frame it appended
and to no other call's. Every marker but the submitted ones was prepared by
some call. -/
structure Coherent (wid : String) (s : TransitionState) : Prop where
  asked : ∀ i c, s.calls i = some c → c.request.marker ∈ s.history
  prepared : ∀ i c d, s.calls i = some c → c.phase.prepared = some d →
    ∃ n, d = c.request.destination (.frame n) ∧ s.journal[n]? = some (c.request.frame wid)
  distinct : ∀ i j c c' d d', s.calls i = some c → s.calls j = some c' →
    c.phase.prepared = some d → c'.phase.prepared = some d' → d.recordRef = d'.recordRef → i = j
  current : ∀ m ∈ s.markers, m ∈ s.history
  origin : ∀ m ∈ s.history, m.recordRef = .init
    ∨ ∃ i c, s.calls i = some c ∧ c.phase.prepared = some m

namespace Coherent

variable {wid : String} {attempts : Nat} {s s' : TransitionState}

variable {c : TransitionCall}

variable {i : Nat} {p : TransitionPhase}

theorem setPhase (hs : Coherent wid s) (hc : s.calls i = some c) (hp : p.prepared = c.phase.prepared) :
    Coherent wid (s.setPhase i c p) := by
  -- every call of the new state is one of the old state with the same marker prepared
  have hback : ∀ j c', (s.setPhase i c p).calls j = some c' → ∃ c₀, s.calls j = some c₀ ∧ c'.request = c₀.request
        ∧ c'.phase.prepared = c₀.phase.prepared := by
    intro j c' hj
    rw [setPhase_calls] at hj
    split_ifs at hj with hji
    · obtain rfl := Option.some.inj hj
      exact ⟨c, by rw [hji, hc], rfl, hp⟩
    · exact ⟨c', hj, rfl, rfl⟩
  refine ⟨?_, ?_, ?_, hs.current, ?_⟩
  · intro j c' hj
    obtain ⟨c₀, h₀, hr, -⟩ := hback j c' hj
    rw [hr]
    exact hs.asked j c₀ h₀
  · intro j c' d hj hd
    obtain ⟨c₀, h₀, hr, hq⟩ := hback j c' hj
    rw [hr]
    exact hs.prepared j c₀ d h₀ (hq ▸ hd)
  · intro j k cj ck d d' hj hk hd hd' href
    obtain ⟨c₀, h₀, -, hq₀⟩ := hback j cj hj
    obtain ⟨c₁, h₁, -, hq₁⟩ := hback k ck hk
    exact hs.distinct j k c₀ c₁ d d' h₀ h₁ (hq₀ ▸ hd) (hq₁ ▸ hd') href
  · intro m hm
    rcases hs.origin m hm with h | ⟨j, c', hj, hd⟩
    · exact Or.inl h
    · refine Or.inr ⟨j, ?_⟩
      by_cases hji : j = i
      · subst hji
        obtain rfl : c' = c := Option.some.inj (hj.symm.trans hc)
        refine ⟨{ c' with phase := p }, ?_, hp.trans hd⟩
        rw [setPhase_calls, if_pos rfl]
      · refine ⟨c', ?_, hd⟩
        rw [setPhase_calls, if_neg hji, hj]

theorem move {a d : Marker} (hs : Coherent wid s) (hc : s.calls i = some c) (hd : c.phase.prepared = some d) :
    Coherent wid (s.move a d) := by
  refine ⟨?_, hs.prepared, hs.distinct, ?_, ?_⟩
  · intro j c' hj
    rw [mem_move_history]
    exact Or.inl (hs.asked j c' hj)
  · intro m hm
    rw [mem_move_markers] at hm
    rw [mem_move_history]
    rcases hm with ⟨hm, -⟩ | ⟨-, hm⟩
    · exact Or.inl (hs.current m hm)
    · exact Or.inr hm
  · intro m hm
    rw [mem_move_history] at hm
    rcases hm with hm | rfl
    · exact hs.origin m hm
    · exact Or.inr ⟨i, c, hc, hd⟩

theorem call {r : TransitionRequest} (hs : Coherent wid s) (hi : s.calls i = none) (hr : r.marker ∈ s.history) :
    Coherent wid { s with calls := Function.update s.calls i (some ⟨r, .called⟩) } := by
  have hback : ∀ j c', Function.update s.calls i (some ⟨r, .called⟩) j = some c' →
      (c' = ⟨r, .called⟩) ∨ s.calls j = some c' := by
    intro j c' hj
    rw [Function.update_apply] at hj
    split_ifs at hj with hji
    · exact Or.inl (Option.some.inj hj).symm
    · exact Or.inr hj
  refine ⟨?_, ?_, ?_, hs.current, ?_⟩
  · intro j c' hj
    rcases hback j c' hj with rfl | hj
    · exact hr
    · exact hs.asked j c' hj
  · intro j c' d hj hd
    rcases hback j c' hj with rfl | hj
    · cases hd
    · exact hs.prepared j c' d hj hd
  · intro j k cj ck d d' hj hk hd hd' href
    rcases hback j cj hj with rfl | hj
    · cases hd
    · rcases hback k ck hk with rfl | hk
      · cases hd'
      · exact hs.distinct j k cj ck d d' hj hk hd hd' href
  · intro m hm
    rcases hs.origin m hm with h | ⟨j, c', hj, hd⟩
    · exact Or.inl h
    · refine Or.inr ⟨j, c', ?_, hd⟩
      show Function.update s.calls i _ j = some c'
      rw [Function.update_apply, if_neg, hj]
      rintro rfl
      rw [hi] at hj
      cases hj

theorem append (hs : Coherent wid s) (hc : s.calls i = some c) (hcalled : c.phase = .called)
    (hp : p.prepared = some (c.request.destination (.frame s.journal.length))) :
    Coherent wid ({ s with journal := s.journal ++ [c.request.frame wid] }.setPhase i c p) := by
  have hback : ∀ j c', ({ s with journal := s.journal ++ [c.request.frame wid] }.setPhase i c p).calls j
        = some c' → (j = i ∧ c' = { c with phase := p }) ∨ (j ≠ i ∧ s.calls j = some c') := by
    intro j c' hj
    rw [setPhase_calls] at hj
    split_ifs at hj with hji
    · exact Or.inl ⟨hji, (Option.some.inj hj).symm⟩
    · exact Or.inr ⟨hji, hj⟩
  -- an older marker refers to a frame that was in the journal before
  have hold : ∀ j c' d, s.calls j = some c' → c'.phase.prepared = some d → d.recordRef ≠ .frame s.journal.length := by
    intro j c' d hj hd href
    obtain ⟨n, rfl, hn⟩ := hs.prepared j c' d hj hd
    obtain rfl : n = s.journal.length := RecordRef.frame.inj href
    rw [List.getElem?_eq_none (Nat.le_refl _)] at hn
    cases hn
  refine ⟨?_, ?_, ?_, hs.current, ?_⟩
  · intro j c' hj
    rcases hback j c' hj with ⟨-, rfl⟩ | ⟨-, hj⟩
    · exact hs.asked i c hc
    · exact hs.asked j c' hj
  · intro j c' d hj hd
    rcases hback j c' hj with ⟨-, rfl⟩ | ⟨-, hj⟩
    · rw [hp] at hd
      refine ⟨s.journal.length, (Option.some.inj hd).symm, ?_⟩
      show (s.journal ++ [c.request.frame wid])[s.journal.length]? = _
      rw [List.getElem?_concat_length]
    · obtain ⟨n, hdest, hn⟩ := hs.prepared j c' d hj hd
      refine ⟨n, hdest, ?_⟩
      show (s.journal ++ [c.request.frame wid])[n]? = _
      rw [List.getElem?_append_left (List.getElem?_eq_some_iff.mp hn).1, hn]
  · intro j k cj ck d d' hj hk hd hd' href
    rcases hback j cj hj with ⟨hji, rfl⟩ | ⟨-, hj₀⟩
    · rcases hback k ck hk with ⟨hki, -⟩ | ⟨-, hk₀⟩
      · rw [hji, hki]
      · obtain rfl := Option.some.inj (hp.symm.trans hd)
        exact absurd href.symm (hold k ck d' hk₀ hd')
    · rcases hback k ck hk with ⟨-, rfl⟩ | ⟨-, hk₀⟩
      · obtain rfl := Option.some.inj (hp.symm.trans hd')
        exact absurd href (hold j cj d hj₀ hd)
      · exact hs.distinct j k cj ck d d' hj₀ hk₀ hd hd' href
  · intro m hm
    rcases hs.origin m hm with h | ⟨j, c', hj, hd⟩
    · exact Or.inl h
    · refine Or.inr ⟨j, c', ?_, hd⟩
      rw [setPhase_calls, if_neg]
      · exact hj
      · rintro rfl
        obtain rfl := Option.some.inj (hc.symm.trans hj)
        rw [hcalled] at hd
        cases hd

/-- **Every step keeps the workspace coherent.** -/
theorem next {l : TransitionLabel} (hs : Coherent wid s) (h : s.next wid attempts l = some s') : Coherent wid s' := by
  cases l with
  | call i r =>
    obtain ⟨hi, hr, rfl⟩ := next_call h
    exact hs.call hi hr
  | prepare i f =>
    obtain ⟨c, hc, hcalled, ⟨e, rfl⟩ | ⟨p, hp, rfl⟩⟩ := next_prepare h
    · refine hs.setPhase hc ?_
      rw [hcalled]
      rfl
    · refine hs.append hc hcalled ?_
      rcases hp with rfl | rfl | rfl <;> rfl
  | rename i x =>
    obtain ⟨c, k, d, hc, hph, ⟨-, rfl⟩ | ⟨-, rfl⟩⟩ := next_rename h
    · have hd : c.phase.prepared = some d := by rw [hph]; rfl
      exact (hs.move hc hd).setPhase hc hd.symm
    · refine hs.setPhase hc ?_
      rw [hph]
      rfl
  | look i =>
    obtain ⟨c, d, p, hc, hd, rfl, hp⟩ := next_look h
    refine hs.setPhase hc ?_
    rw [hd]
    rcases hp with ⟨k, -, ⟨-, rfl⟩ | ⟨-, rfl⟩⟩ | ⟨-, ⟨k, rfl | rfl⟩ | ⟨e, rfl⟩⟩ <;> rfl

end Coherent

end TransitionState

/-- **The transitions of a workspace**, started on submitted jobs: each has
one marker, of its own UUID, whose information is in `job.json`. -/
abbrev transitionSystem (workspaceId : String) (attempts : Nat) :
    System TransitionState TransitionLabel :=
  System.ofNext
    (fun s => s.calls = (fun _ => none) ∧ s.journal = [] ∧ s.history = s.markers
      ∧ (∀ m ∈ s.markers, m.kind = .submitted ∧ m.generation = 0 ∧ m.recordRef = .init)
      ∧ (s.markers.map Marker.jobId).Nodup)
    (TransitionState.next workspaceId attempts)

theorem transitionSystem_coherent {wid : String} {attempts : Nat} {s : TransitionState}
    (hs : (transitionSystem wid attempts).Reachable s) : s.Coherent wid := by
  refine hs.invariant ?_ ?_
  · rintro s ⟨hcalls, -, hhist, hinit, -⟩
    refine ⟨?_, ?_, ?_, ?_, ?_⟩
    · intro i c hc
      rw [hcalls] at hc
      cases hc
    · intro i c d hc
      rw [hcalls] at hc
      cases hc
    · intro i j c c' d d' hc
      rw [hcalls] at hc
      cases hc
    · intro m hm
      rw [hhist]
      exact hm
    · intro m hm
      rw [hhist] at hm
      exact Or.inl (hinit m hm).2.2
  · intro s l s' _ hI h
    exact TransitionState.Coherent.next hI h
