import HttkWorkflow.JobEffects
import HttkWorkflow.JoinGrace
import HttkWorkflow.JsonText

/-!
# Detaching a job that is joined on

A job that some parent waits for must stay: `observe_children` looks for it
where the reference says, and a parent whose child is gone fails after its
grace. So before a job is detached, `_waiting_parent_map` reads the frames of
all waiting jobs, and a job that is in that map is refused.

The map is narrower than what an evaluation of a join goes by. It has only
parents that wait already, while a job whose outcome was published waits as
soon as its commit is made. It has only references that spell the workspace,
which an evaluation does not ask of them. And it is made from one scan,
while waiting jobs are renamed and other outcomes are published before the
job is fenced.

Here the jobs of a workspace take the transitions of `jobNext`, all of them,
and any number of processes look at the waiting parents and detach jobs, one
or a batch of them. `joins_attached` says which steps have to be absent so
that no parent comes to wait for a job that was detached.
-/

/-! ## References of a join -/

def joinEntries : Option Json → List Json
  | some (.obj join) =>
    match Json.get join "children" with
    | some (.arr children) => children
    | _ => []
  | _ => []

def namesChild (join : Option Json) (childId : PyStr) : Bool :=
  (joinEntries join).any (refersTo childId)

/-- What `_waiting_parent_map` takes from one reference. -/
def localChild (workspaceId : PyStr) : Json → Option PyStr
  | .obj reference =>
    if Json.optEqStr (Json.get reference "workspace_id") workspaceId then
      match Json.get reference "job_id" with
      | some (.str id) => some id
      | _ => none
    else none
  | _ => none

/-- **`_waiting_parent_map`**, as the list of the children that have a parent. -/
def waitingParentMap (workspaceId : PyStr) (waiting : List StateFrame) : List PyStr :=
  waiting.flatMap fun frame => (joinEntries (frame.get .join)).filterMap (localChild workspaceId)

def spelled (workspaceId : PyStr) (join : Option Json) : Bool :=
  (joinEntries join).all fun child =>
    match child with
    | .obj reference => Json.optEqStr (Json.get reference "workspace_id") workspaceId
    | _ => true

def outcomeJoin (outcome : List (PyStr × Json)) : Option Json :=
  if Json.optEqStr (Json.get outcome "action") "wait" then Json.get outcome "join" else none

theorem mem_localChild {workspaceId childId : PyStr} {join : Option Json}
    (hspelled : spelled workspaceId join = true) (h : namesChild join childId = true) :
    childId ∈ (joinEntries join).filterMap (localChild workspaceId) := by
  obtain ⟨child, hchild, hrefers⟩ := List.any_eq_true.mp h
  have hspelled := List.all_eq_true.mp hspelled child hchild
  refine List.mem_filterMap.mpr ⟨child, hchild, ?_⟩
  cases child with
  | obj reference =>
    have hid : Json.get reference "job_id" = some (.str childId) := Json.optEqStr_iff.mp hrefers
    have hspelled : Json.optEqStr (Json.get reference "workspace_id") workspaceId = true := hspelled
    rw [localChild, if_pos hspelled, hid]
  | _ => cases hrefers

section Labels

variable {env : CommitEnv} {labels : List (PyStr × PyStr)}

theorem get_labeled {reference : List (PyStr × Json)} {label : Json} {name : String}
    (h : PyStr.ofString name ≠ "label") :
    Json.get (Dict.set reference "label" label) name = Json.get reference name := by
  show Dict.get _ _ = Dict.get _ _
  rw [Dict.get_set, if_neg h]

theorem labeledReference_cases (child : Json) : labeledReference env labels child = child
    ∨ ∃ reference label, child = .obj reference
      ∧ labeledReference env labels child
        = .obj (Dict.set reference "label" (.str label)) := by
  cases child with
  | obj reference =>
    rw [labeledReference]
    cases labels.lookup (((Json.get reference "job_key").map env.str).getD ⟨[]⟩) with
    | none => exact Or.inl (by split <;> rfl)
    | some label =>
      split
      · exact Or.inr ⟨reference, label, rfl, rfl⟩
      · exact Or.inr ⟨reference, label, rfl, rfl⟩
      · exact Or.inl rfl
  | _ => exact Or.inl rfl

theorem joinEntries_labeled (join : List (PyStr × Json)) : joinEntries (some (.obj (labeledJoin env labels join)))
      = (joinEntries (some (.obj join))).map (labeledReference env labels) := by
  unfold labeledJoin
  cases hchildren : Json.get join "children" with
  | none =>
    simp only [joinEntries, hchildren]
    rfl
  | some children =>
    cases children with
    | arr children =>
      simp only [joinEntries, hchildren]
      have hget : Json.get (Dict.set join "children"
          (.arr (children.map (labeledReference env labels)))) "children"
            = some (.arr (children.map (labeledReference env labels))) := by
        show Dict.get _ _ = _
        rw [Dict.get_set, if_pos rfl]
      rw [hget]
    | _ =>
      simp only [joinEntries, hchildren]
      rfl

theorem namesChild_labeled (join : List (PyStr × Json)) (childId : PyStr) :
    namesChild (some (.obj (labeledJoin env labels join))) childId
      = namesChild (some (.obj join)) childId := by
  have hrefers : ∀ child, refersTo childId (labeledReference env labels child) = refersTo childId child := by
    intro child
    obtain heq | ⟨reference, label, rfl, heq⟩ : labeledReference env labels child = child ∨ _ :=
      labeledReference_cases child
    · rw [heq]
    · rw [heq, refersTo, refersTo, get_labeled (by decide)]
  unfold namesChild
  rw [joinEntries_labeled, List.any_map]
  exact congrArg (List.any _) (funext hrefers)

theorem spelled_labeled (workspaceId : PyStr) (join : List (PyStr × Json)) :
    spelled workspaceId (some (.obj (labeledJoin env labels join)))
      = spelled workspaceId (some (.obj join)) := by
  unfold spelled
  rw [joinEntries_labeled, List.all_map]
  refine congrArg (List.all _) (funext fun child => ?_)
  rw [Function.comp_apply]
  obtain heq | ⟨reference, label, rfl, heq⟩ : labeledReference env labels child = child ∨ _ :=
    labeledReference_cases child
  · rw [heq]
  · rw [heq]
    simp only [get_labeled (show PyStr.ofString "workspace_id" ≠ PyStr.ofString "label" by decide)]

end Labels

/-! ## The join of a waiting frame -/

section WaitingFrame

variable {σ : Type} {env : JoinEnv} {job : JobDefinition} {jobId : PyStr}
variable {state progress : StateFrame} {move moved : Move}

theorem mem_update {κ β : Type} [DecidableEq κ] {d : Dict κ β} {written : List (κ × β)} {e : κ × β}
    (h : e ∈ d.update written) : e ∈ written ∨ e ∈ d ∧ e.fst ∉ written.map Prod.fst := by
  induction written generalizing d with
  | nil => exact Or.inr ⟨h, List.not_mem_nil⟩
  | cons first written ih =>
    rw [Dict.update_cons] at h
    rcases ih h with hmem | ⟨hmem, hnot⟩
    · exact Or.inl (List.mem_cons_of_mem _ hmem)
    · rcases List.mem_cons.mp hmem with rfl | hmem
      · exact Or.inl List.mem_cons_self
      · obtain ⟨hold, hne⟩ := List.mem_filter.mp hmem
        refine Or.inr ⟨hold, fun hin => ?_⟩
        rcases List.mem_cons.mp hin with heq | hin
        · exact of_decide_eq_true hne heq
        · exact hnot hin

variable {kind : StateKind}

theorem Writes.mem_waiting (h : Writes env kind move moved)
    (hkind : moved.kind = .waiting) {e : Member × Json} (he : e ∈ moved.frame.members) :
    e ∈ move.frame.members := by
  obtain ⟨reread, hsettle⟩ := h.settled
  rcases settle_cases hsettle with ⟨-, heq | heq⟩ | ⟨hpaused, -⟩
  · exact heq ▸ he
  · rw [heq] at he
    exact (List.mem_filter.mp he).1
  · rw [hkind] at hpaused
    cases hpaused

variable {cenv : CommitEnv}

theorem outcomeMove_waiting {priority : Int} {outcome : List (PyStr × Json)}
    {generation : Option Int} {labels : Except Exc (List (PyStr × PyStr))} {freshId : PyStr}
    (h : outcomeMove cenv job priority state outcome generation labels freshId = .ok move)
    (hkind : move.kind = .waiting) : ∃ join labels', outcomeJoin outcome = some (.obj join)
      ∧ ∀ value, (Member.join, value) ∈ move.frame.members →
        value = .obj (labeledJoin cenv labels' join) := by
  have hother : move.kind = .ready ∨ move.kind = .failed → False := by
    rw [hkind]
    rintro (heq | heq) <;> cases heq
  obtain ⟨steps, progress, -, hasks⟩ := asks_of_outcomeMove h
  cases hasks with
  | advances _ _ h => exact (hother (advance_kind h)).elim
  | retries _ h => exact (hother (retry_kind h)).elim
  | @waits _ _ _ join labels' hwait hjoin =>
    refine ⟨join, labels', ?_, fun value hvalue => ?_⟩
    · have haction : Json.optEqStr (Json.get outcome "action") "wait" = true := by
        unfold actionOf at hwait
        split at hwait
        · rename_i action haction
          rw [Json.optEqStr_iff, haction, hwait]
        · cases hwait
      rw [outcomeJoin, if_pos haction, hjoin]
    · rcases mem_update hvalue with hwritten | ⟨-, hnot⟩
      · simpa using hwritten
      · exact absurd (by simp : Member.join ∈ _) hnot
  | ends _ _ hends _ => rcases hends with rfl | rfl <;> cases hkind
  | pauses => cases hkind

theorem joinAsks_waiting {world : JoinWorld} (h : JoinAsks env world job state move)
    (hkind : move.kind = .waiting) {value : Json} (hvalue : (Member.join, value) ∈ move.frame.members) :
    (Member.join, value) ∈ state.members := by
  cases h with
  | fails written hwritten => cases hkind
  | records childId =>
    rcases mem_update hvalue with hwritten | ⟨hmem, -⟩
    · simp at hwritten
    · exact (List.mem_filter.mp hmem).1
  | advances h =>
    obtain ⟨step, resources, h⟩ := advance_of_joinAdvance h
    rcases advance_kind h with heq | heq
    · rw [hkind] at heq
      cases heq
    · rw [hkind] at heq
      cases heq

variable {asked : OperatorRequest}

theorem join_notMem_audited {value : Json} : (Member.join, value) ∉ (audited state.carried asked).members := by
  have hnot : Member.join ∉ carriedStateMembers := by decide
  have hcarried : (Member.join, value) ∉ state.carried.members := fun h =>
    hnot (of_decide_eq_true (List.mem_filter.mp h).2)
  have hnamed : (Member.join, value) ∉ (state.carried.replace [(.operator, asked.operator),
      (.operatorReason, asked.reason), (.requestId, asked.requestId)]).members := fun h => by
    rcases mem_update h with hwritten | ⟨hmem, -⟩
    · simp at hwritten
    · exact hcarried hmem
  unfold audited
  cases asked.operatorKey with
  | none => exact hnamed
  | some key =>
    intro h
    rcases mem_update h with hwritten | ⟨hmem, -⟩
    · simp at hwritten
    · exact hnamed hmem

theorem requestAsks_waiting (h : RequestAsks cenv job kind state asked move) (hkind : move.kind = .waiting) :
    kind = .waiting ∧ ∀ value, (Member.join, value) ∈ move.frame.members →
      (Member.join, value) ∈ state.members := by
  cases h with
  | cancels haction hterminal h =>
    rcases requestCancel_ends h with heq | heq
    · rw [hkind] at heq
      cases heq
    · rw [hkind] at heq
      cases heq
  | prioritizes priority haction hfrom =>
    refine ⟨hkind, fun value hvalue => ?_⟩
    rcases mem_update hvalue with hwritten | ⟨hmem, -⟩
    · simp at hwritten
    · rcases mem_update hmem with hmem | ⟨hmem, -⟩
      · exact (List.mem_filter.mp hmem).1
      · exact absurd hmem join_notMem_audited
  | records haction hfrom => exact absurd hfrom (by rw [show kind = .waiting from hkind]; decide)
  | pauses haction hfrom => cases hkind
  | revives haction hfrom h =>
    rcases revive_kind h with heq | heq
    · rw [hkind] at heq
      cases heq
    · rw [hkind] at heq
      cases heq

end WaitingFrame

/-! ## The workspace -/

/-- **How far a process is** that detaches jobs. -/
inductive Detaching where
  /-- It scans for waiting parents; these were there since it began, under the same name. -/
  | scanning (batch there : List PyStr)
  /-- It has its map. -/
  | looked (batch joined : List PyStr)
deriving DecidableEq

namespace Detaching

/-- The jobs it was asked to detach. -/
def batch : Detaching → List PyStr
  | scanning batch _ | looked batch _ => batch

/-- A job was renamed. -/
def forget (id : PyStr) : Detaching → Detaching
  | scanning batch there => scanning batch (there.filter fun other => other ≠ id)
  | looked batch joined => looked batch joined

@[simp] theorem batch_forget (id : PyStr) (d : Detaching) : (d.forget id).batch = d.batch := by
  cases d <;> rfl

/-- Whether a detaching process has seen, or will see, a parent of a job. -/
def covers (parent childId : PyStr) : Detaching → Prop
  | scanning _ there => parent ∈ there
  | looked _ joined => childId ∈ joined

end Detaching

/-- **The jobs of a workspace**, and the processes that detach some. -/
structure JoinedWorkspace where
  workspaceId : PyStr
  jobs : Dict PyStr JobState
  /-- The outcome each job published last. -/
  published : Dict PyStr (List (PyStr × Json))
  /-- The processes, `none` for one that detaches nothing. -/
  detaching : List (Option Detaching)
  /-- The jobs whose marker is in a bundle. -/
  bundled : List PyStr

variable {σ : Type}

/-- **What can happen next.** -/
inductive JoinedStep (σ : Type) where
  | submit (id : PyStr) (priority : Int)
  /-- A job makes a transition. -/
  | move (id : PyStr) (step : JobStep σ) (reread : Bool)
  /-- A process begins to look for waiting parents. -/
  | look (i : ℕ) (batch : List PyStr)
  /-- It has read the frames of some waiting parents, and others that have moved on since. -/
  | map (i : ℕ) (seen : List PyStr) (others : List StateFrame)
  /-- It fences a job, which passed the check. -/
  | fence (i : ℕ) (id : PyStr) (members : List (Member × Json))
  /-- A fenced job has its marker moved into the bundle. -/
  | embed (id : PyStr)
  | leave (i : ℕ)

namespace JoinedWorkspace

def withJob (s : JoinedWorkspace) (id : PyStr) (st : JobState) : JoinedWorkspace :=
  { s with
    jobs := s.jobs.set id st
    detaching := s.detaching.map (Option.map (Detaching.forget id)) }

/-- The ids of the waiting jobs. -/
def waiting (s : JoinedWorkspace) : List PyStr :=
  (s.jobs.filter fun e => e.snd.kind = .waiting).map Prod.fst

/-- A commit reads the outcome that was published. -/
def readsPublished (s : JoinedWorkspace) (id : PyStr) : JobStep σ → Bool
  | .apply world files =>
    match s.published.get id, world.document files with
    | some outcome, .ok (.obj document) => document = outcome
    | _, _ => false
  | _ => true

/-- The outcomes after a step of a job. -/
def publishes (s : JoinedWorkspace) (id : PyStr) (st : JobState) :
    JobStep σ → Dict PyStr (List (PyStr × Json))
  | .fence _ document =>
    match readOutcome document id st.frame with
    | .ok outcome => s.published.set id outcome
    | .error _ => s.published
  | _ => s.published

section Steps

variable (env : JoinEnv) (job : PyStr → JobDefinition)

/-- **One step.** -/
def next (s : JoinedWorkspace) : JoinedStep σ → Option JoinedWorkspace
  | .submit id priority =>
    if (s.jobs.get id).isNone ∧ id ∉ s.bundled then some (s.withJob id (.submitted priority)) else none
  | .move id step reread =>
    match s.jobs.get id with
    | some st =>
      if s.readsPublished id step = true then
        (jobNext env (job id) id st (step, reread)).map fun st' =>
          { s.withJob id st' with published := s.publishes id st step }
      else none
    | none => none
  | .look i batch =>
    if s.detaching[i]? = some none then
      some { s with detaching := s.detaching.set i (some (.scanning batch s.waiting)) }
    else none
  | .map i seen others =>
    match s.detaching[i]? with
    | some (some (.scanning batch there)) =>
      if there ⊆ seen then
        some { s with detaching := s.detaching.set i (some (.looked batch (waitingParentMap s.workspaceId
          (seen.filterMap (fun id => (s.jobs.get id).map JobState.frame) ++ others)))) }
      else none
    | _ => none
  | .fence i id members =>
    match s.detaching[i]?, s.jobs.get id with
    | some (some (.looked batch joined)), some st =>
      if id ∈ batch ∧ st.kind.isQuiescent = true ∧ st.kind ≠ .waiting ∧ id ∉ joined then
        some (s.withJob id { st with
          kind := .transferring
          frame := StateFrame.empty.replace members
          previousState := none })
      else none
    | _, _ => none
  | .embed id =>
    match s.jobs.get id with
    | some st =>
      if st.kind = .transferring then
        some { s with jobs := s.jobs.without [id], bundled := id :: s.bundled }
      else none
    | none => none
  | .leave i => some { s with detaching := s.detaching.set i none }

/-- **The runs**, from a workspace without jobs. -/
def joinedRuns : System JoinedWorkspace (JoinedStep σ) :=
  System.ofNext (fun s => s.jobs = [] ∧ s.bundled = [] ∧ ∀ d ∈ s.detaching, d = none) (next env job)

end Steps

/-! ## What a join names -/

def WaitsFor (s : JoinedWorkspace) (parent childId : PyStr) : Prop :=
  ∃ st, s.jobs.get parent = some st ∧ st.kind = .waiting
    ∧ namesChild (st.frame.get .join) childId = true

def CommitsFor (s : JoinedWorkspace) (parent childId : PyStr) : Prop :=
  ∃ st outcome, s.jobs.get parent = some st ∧ st.kind = .committing
    ∧ s.published.get parent = some outcome ∧ namesChild (outcomeJoin outcome) childId = true

/-- A job is detached: it is fenced, or its marker is in a bundle. -/
def Detached (s : JoinedWorkspace) (id : PyStr) : Prop :=
  id ∈ s.bundled ∨ ∃ st, s.jobs.get id = some st ∧ st.kind = .transferring

/-- Some process is about to detach a job. -/
def UnderWay (s : JoinedWorkspace) (id : PyStr) : Prop :=
  ∃ d, some d ∈ s.detaching ∧ id ∈ d.batch

/-- **No job that is detached is joined on**, and none is that could be fenced now. -/
structure Attached (env : JoinEnv) (job : PyStr → JobDefinition) (s : JoinedWorkspace) : Prop where
  waiting : ∀ parent childId, s.WaitsFor parent childId → ¬s.Detached childId
  refused : ∀ i childId members, (s.next (σ := PUnit) env job (.fence i childId members)).isSome →
    ∀ parent, ¬s.WaitsFor parent childId ∧ ¬s.CommitsFor parent childId

/-- **No step takes the map by surprise.** An outcome that waits spells the workspace in each
reference, and names no job that is detached or about to be; a process looks while no
committing parent names a job of its batch; and a parent of such a job is not renamed within
`waiting` while the process scans. -/
def Foreseen (env : JoinEnv) (job : PyStr → JobDefinition) (s : JoinedWorkspace) :
    JoinedStep σ → Prop
  | .move id step reread =>
    (∀ world document st outcome, step = .fence world document → s.jobs.get id = some st →
      readOutcome document id st.frame = .ok outcome →
        spelled s.workspaceId (outcomeJoin outcome) = true
          ∧ ∀ childId, namesChild (outcomeJoin outcome) childId = true →
            ¬s.Detached childId ∧ ¬s.UnderWay childId)
    ∧ ∀ st, s.jobs.get id = some st → st.kind = .waiting →
      ∀ batch there, some (.scanning batch there) ∈ s.detaching → ∀ childId ∈ batch,
        namesChild (st.frame.get .join) childId = true →
          ∀ st', jobNext env (job id) id st (step, reread) = some st' → st'.kind ≠ .waiting
  | .look _ batch => ∀ parent childId, s.CommitsFor parent childId → childId ∉ batch
  | _ => True

end JoinedWorkspace

/-! ## The transitions of a parent -/

section Transitions

variable {env : JoinEnv} {job : JobDefinition} {jobId childId workspaceId : PyStr}
variable {st st' : JobState} {a : JobStep σ × Bool} {frame frame' : StateFrame} {join join' : Option Json}

/-- **A frame has one join**, which its member gives. -/
def JoinsOnce (frame : StateFrame) : Prop :=
  ∀ value, (Member.join, value) ∈ frame.members → frame.get .join = some value

theorem JoinsOnce.of_entries (h : JoinsOnce frame)
    (hentries : ∀ value, (Member.join, value) ∈ frame'.members → (Member.join, value) ∈ frame.members) :
    JoinsOnce frame' ∧ (frame'.get .join = none ∨ frame'.get .join = frame.get .join) := by
  have hget : ∀ value, frame'.get .join = some value → frame.get .join = some value :=
    fun value hvalue => h value (hentries value (Dict.mem_of_get hvalue))
  constructor
  · intro value hvalue
    obtain ⟨other, hother⟩ := Dict.get_of_mem (List.mem_map_of_mem hvalue)
    have hsame : some other = some value := (hget other hother).symm.trans (h value (hentries value hvalue))
    exact hother.trans hsame
  · cases hjoin : frame'.get .join with
    | none => exact Or.inl rfl
    | some value => exact Or.inr (hget value hjoin).symm

theorem joinsOnce_of_eq {value : Json} (hentries : ∀ other, (Member.join, other) ∈ frame.members → other = value) :
    JoinsOnce frame ∧ (frame.get .join = none ∨ frame.get .join = some value) := by
  have hget : ∀ other, frame.get .join = some other → frame.get .join = some value :=
    fun other hother => (hentries other (Dict.mem_of_get hother)) ▸ hother
  constructor
  · intro other hother
    obtain ⟨first, hfirst⟩ := Dict.get_of_mem (List.mem_map_of_mem hother)
    rw [hentries other hother]
    exact hget first hfirst
  · cases hjoin : frame.get .join with
    | none => exact Or.inl rfl
    | some other => exact Or.inr ((hget other hjoin).symm.trans hjoin).symm

theorem names_of_absent_or (h : join' = none ∨ join' = join)
    (hnames : namesChild join' childId = true) : namesChild join childId = true := by
  rcases h with rfl | rfl
  · cases hnames
  · exact hnames

theorem spelled_of_absent_or (h : join' = none ∨ join' = join)
    (hspelled : spelled workspaceId join = true) : spelled workspaceId join' = true := by
  rcases h with rfl | rfl
  · rfl
  · exact hspelled

theorem edge_of_next (hprevious : st.previousState.isSome = true → st.kind = .claimed)
    (h : jobNext env job jobId st a = some st') : ∃ move moved, Asks env job jobId st a.fst move
      ∧ Writes env st.kind move moved ∧ (st.kind, move.kind) ∈ a.fst.edges
      ∧ st.after jobId a.fst moved = st' := by
  obtain ⟨-, moved, hwritten, hafter⟩ := jobNext_eq_some.mp h
  obtain ⟨move, hasks, hwrites⟩ := asks_of_written hwritten
  exact ⟨move, moved, hasks, hwrites, edge_of_asks hprevious hasks, hafter⟩

theorem transferring_notMem_edges (step : JobStep σ) (kind : StateKind) :
    (kind, StateKind.transferring) ∉ step.edges := by
  cases step <;> simp [JobStep.edges, requestEdges]

theorem not_transferring_of_next (hprevious : st.previousState.isSome = true → st.kind = .claimed)
    (h : jobNext env job jobId st a = some st') : st'.kind ≠ .transferring := by
  obtain ⟨move, moved, hasks, hwrites, hedge, rfl⟩ := edge_of_next hprevious h
  intro hkind
  rw [after_kind] at hkind
  rw [← hwrites.kind_of_ne (by rw [hkind]; decide), hkind] at hedge
  exact transferring_notMem_edges _ _ hedge

/-- **A job commits** an outcome it published, or goes on doing so. -/
theorem committing_of_next (hprevious : st.previousState.isSome = true → st.kind = .claimed)
    (h : jobNext env job jobId st a = some st') (hkind : st'.kind = .committing) :
    (st.kind = .committing ∧ a.fst.isFence = false) ∨ ∃ world document outcome, a.fst = .fence world document
        ∧ readOutcome document jobId st.frame = .ok outcome := by
  obtain ⟨move, moved, hasks, hwrites, hedge, rfl⟩ := edge_of_next hprevious h
  rw [after_kind] at hkind
  rw [← hwrites.kind_of_ne (by rw [hkind]; decide), hkind] at hedge
  cases hstep : a.fst with
  | fence world document =>
    rw [hstep] at hasks
    obtain ⟨-, outcome, -, -, -, houtcome, -⟩ := hasks
    exact Or.inr ⟨world, document, outcome, rfl, houtcome⟩
  | request asked =>
    rw [hstep] at hedge
    refine Or.inl ⟨?_, rfl⟩
    simpa [JobStep.edges, requestEdges] using hedge
  | _ =>
    rw [hstep] at hedge
    simp [JobStep.edges] at hedge

/-- **A job waits** with the join of the outcome it committed, or goes on waiting with the join
it had. -/
theorem waiting_of_next (hprevious : st.previousState.isSome = true → st.kind = .claimed)
    (h : jobNext env job jobId st a = some st') (hkind : st'.kind = .waiting) :
    (st.kind = .waiting ∧ ∀ value, (Member.join, value) ∈ st'.frame.members → (Member.join, value) ∈ st.frame.members)
      ∨ st.kind = .committing ∧ ∃ world files outcome join labels, a.fst = .apply world files
        ∧ readOutcome (world.document files) jobId st.frame = .ok outcome
        ∧ outcomeJoin outcome = some (.obj join)
        ∧ ∀ value, (Member.join, value) ∈ st'.frame.members →
          value = .obj (labeledJoin env.toCommitEnv labels join) := by
  obtain ⟨move, moved, hasks, hwrites, hedge, rfl⟩ := edge_of_next hprevious h
  rw [after_kind] at hkind
  have hasked : move.kind = .waiting := (hwrites.kind_of_ne (by rw [hkind]; decide)).symm.trans hkind
  have hmem : ∀ value, (Member.join, value) ∈ moved.frame.members →
      (Member.join, value) ∈ move.frame.members := fun value => hwrites.mem_waiting hkind
  rw [after_frame]
  cases hstep : a.fst with
  | apply world files =>
    rw [hstep] at hasks
    obtain ⟨hfrom, outcome, generation, houtcome, hmove⟩ := hasks
    obtain ⟨join, labels, hjoin, hentries⟩ := outcomeMove_waiting hmove hasked
    exact Or.inr ⟨hfrom, world, files, outcome, join, labels, rfl, houtcome, hjoin,
      fun value hvalue => hentries value (hmem value hvalue)⟩
  | evaluate world =>
    rw [hstep] at hasks
    exact Or.inl ⟨hasks.1, fun value hvalue => joinAsks_waiting hasks.2 hasked (hmem value hvalue)⟩
  | request asked =>
    rw [hstep] at hasks
    obtain ⟨hfrom, hentries⟩ := requestAsks_waiting (requestAsks_of_apply hasks) hasked
    exact Or.inl ⟨hfrom, fun value hvalue => hentries value (hmem value hvalue)⟩
  | _ =>
    rw [hstep, hasked] at hedge
    simp [JobStep.edges] at hedge

theorem eq_of_readOutcome {document outcome : List (PyStr × Json)}
    (h : readOutcome (.ok (.obj document)) jobId frame = .ok outcome) : outcome = document := by
  unfold readOutcome at h
  obtain ⟨value, hvalue, h⟩ := bind_eq_ok.mp h
  rw [← Except.ok.inj hvalue] at h
  simp only at h
  split_ifs at h
  · cases h
  · cases h
  · cases h
  · split at h
    · exact (Except.ok.inj h).symm
    · cases h
  · cases h

end Transitions

namespace JoinedWorkspace

section Safety

variable {env : JoinEnv} {job : PyStr → JobDefinition} {s s' : JoinedWorkspace}
variable {id parent childId : PyStr} {st : JobState}

/-! ## A job that moves -/

@[simp] theorem get_withJob : (s.withJob id st).jobs.get parent
    = if parent = id then some st else s.jobs.get parent :=
  Dict.get_set _ _ _ _

theorem detached_of_withJob (h : (s.withJob id st).Detached childId) :
    s.Detached childId ∨ (childId = id ∧ st.kind = .transferring) := by
  rcases h with hbundled | ⟨st', hget, hkind⟩
  · exact Or.inl (Or.inl hbundled)
  · rw [get_withJob] at hget
    split_ifs at hget with heq
    · exact Or.inr ⟨heq, Option.some.inj hget ▸ hkind⟩
    · exact Or.inl (Or.inr ⟨st', hget, hkind⟩)

theorem mem_withJob {d : Detaching} (h : some d ∈ (s.withJob id st).detaching) :
    ∃ before, some before ∈ s.detaching ∧ d = before.forget id := by
  obtain ⟨slot, hslot, heq⟩ := List.mem_map.mp h
  obtain ⟨before, rfl, rfl⟩ := Option.map_eq_some_iff.mp heq
  exact ⟨before, hslot, rfl⟩

theorem underWay_of_withJob (h : (s.withJob id st).UnderWay childId) : s.UnderWay childId := by
  obtain ⟨d, hd, hbatch⟩ := h
  obtain ⟨before, hbefore, rfl⟩ := mem_withJob hd
  exact ⟨before, hbefore, by rwa [Detaching.batch_forget] at hbatch⟩

theorem covers_forget {d : Detaching} (h : d.covers parent childId) (hne : parent ≠ id) :
    (d.forget id).covers parent childId := by
  cases d with
  | scanning batch there => exact List.mem_filter.mpr ⟨h, by simpa using hne⟩
  | looked batch joined => exact h

/-! ## The invariant -/

/-- **No join is overlooked.** What a waiting parent names stays in the workspace, and each
process that could detach it has seen the parent or will; what a committing parent names is
not about to be detached. -/
structure Watched (s : JoinedWorkspace) : Prop where
  claimed : ∀ id st, s.jobs.get id = some st → st.previousState.isSome = true → st.kind = .claimed
  waits : ∀ parent st, s.jobs.get parent = some st → st.kind = .waiting →
    JoinsOnce st.frame ∧ spelled s.workspaceId (st.frame.get .join) = true
      ∧ ∀ childId, namesChild (st.frame.get .join) childId = true → ¬s.Detached childId
        ∧ ∀ d, some d ∈ s.detaching → childId ∈ d.batch → d.covers parent childId
  commits : ∀ parent st outcome, s.jobs.get parent = some st → st.kind = .committing →
    s.published.get parent = some outcome →
      spelled s.workspaceId (outcomeJoin outcome) = true
        ∧ ∀ childId, namesChild (outcomeJoin outcome) childId = true →
          ¬s.Detached childId ∧ ¬s.UnderWay childId

theorem Watched.withJob {published : Dict PyStr (List (PyStr × Json))} (hs : Watched s)
    (hclaimed : st.previousState.isSome = true → st.kind = .claimed)
    (hpublished : ∀ parent, parent ≠ id → published.get parent = s.published.get parent)
    (hfenced : st.kind = .transferring → ∀ parent, ¬s.WaitsFor parent id ∧ ¬s.CommitsFor parent id)
    (hwaits : st.kind = .waiting → JoinsOnce st.frame ∧ spelled s.workspaceId (st.frame.get .join) = true
      ∧ ∀ childId, namesChild (st.frame.get .join) childId = true → ¬s.Detached childId
        ∧ ∀ d, some d ∈ s.detaching → childId ∈ d.batch → (d.forget id).covers id childId)
    (hcommits : st.kind = .committing → ∀ outcome, published.get id = some outcome →
      spelled s.workspaceId (outcomeJoin outcome) = true
        ∧ ∀ childId, namesChild (outcomeJoin outcome) childId = true → ¬s.Detached childId ∧ ¬s.UnderWay childId) :
    Watched { s.withJob id st with published := published } := by
  have hdetached : ∀ childId, Detached { s.withJob id st with published := published } childId →
      s.Detached childId ∨ (childId = id ∧ st.kind = .transferring) := fun childId h =>
    detached_of_withJob (show (s.withJob id st).Detached childId from h)
  have hstays : st.kind ≠ .transferring → ∀ childId, ¬s.Detached childId →
      ¬Detached { s.withJob id st with published := published } childId := fun hne childId hnot h =>
    (hdetached childId h).elim hnot fun h => hne h.2
  have hunder : ∀ childId, UnderWay { s.withJob id st with published := published } childId →
      s.UnderWay childId := fun childId h =>
    underWay_of_withJob (show (s.withJob id st).UnderWay childId from h)
  have hmem : ∀ d, some d ∈ (s.withJob id st).detaching →
      ∃ before, some before ∈ s.detaching ∧ d = before.forget id := fun d hd => mem_withJob hd
  constructor
  · intro other st' hget hprevious
    replace hget : (s.withJob id st).jobs.get other = some st' := hget
    rw [get_withJob] at hget
    split_ifs at hget with heq
    · obtain rfl := Option.some.inj hget
      exact hclaimed hprevious
    · exact hs.claimed other st' hget hprevious
  · intro parent st' hget hkind
    replace hget : (s.withJob id st).jobs.get parent = some st' := hget
    rw [get_withJob] at hget
    split_ifs at hget with heq
    · obtain rfl := Option.some.inj hget
      obtain ⟨honce, hspelled, hnames⟩ := hwaits hkind
      refine ⟨honce, hspelled, fun childId hchild => ⟨?_, fun d hd hbatch => ?_⟩⟩
      · exact hstays (by rw [hkind]; decide) childId (hnames childId hchild).1
      · obtain ⟨before, hbefore, rfl⟩ := hmem d hd
        rw [Detaching.batch_forget] at hbatch
        rw [heq]
        exact (hnames childId hchild).2 before hbefore hbatch
    · obtain ⟨honce, hspelled, hnames⟩ := hs.waits parent st' hget hkind
      refine ⟨honce, hspelled, fun childId hchild => ⟨fun h => ?_, fun d hd hbatch => ?_⟩⟩
      · rcases hdetached childId h with h | ⟨rfl, htransferring⟩
        · exact (hnames childId hchild).1 h
        · exact (hfenced htransferring parent).1 ⟨st', hget, hkind, hchild⟩
      · obtain ⟨before, hbefore, rfl⟩ := hmem d hd
        rw [Detaching.batch_forget] at hbatch
        exact covers_forget ((hnames childId hchild).2 before hbefore hbatch) heq
  · intro parent st' outcome hget hkind houtcome
    replace hget : (s.withJob id st).jobs.get parent = some st' := hget
    replace houtcome : published.get parent = some outcome := houtcome
    rw [get_withJob] at hget
    split_ifs at hget with heq
    · obtain rfl := Option.some.inj hget
      rw [heq] at houtcome
      obtain ⟨hspelled, hnames⟩ := hcommits hkind outcome houtcome
      exact ⟨hspelled, fun childId hchild =>
        ⟨hstays (by rw [hkind]; decide) childId (hnames childId hchild).1,
          fun h => (hnames childId hchild).2 (hunder childId h)⟩⟩
    · rw [hpublished parent heq] at houtcome
      obtain ⟨hspelled, hnames⟩ := hs.commits parent st' outcome hget hkind houtcome
      refine ⟨hspelled, fun childId hchild => ⟨fun h => ?_, fun h =>
        (hnames childId hchild).2 (hunder childId h)⟩⟩
      rcases hdetached childId h with h | ⟨rfl, htransferring⟩
      · exact (hnames childId hchild).1 h
      · exact (hfenced htransferring parent).2 ⟨st', outcome, hget, hkind, houtcome, hchild⟩

/-! ## The steps -/

theorem Watched.move {step : JobStep σ} {reread : Bool} {st' : JobState} (hs : Watched s)
    (hforeseen : Foreseen env job s (.move id step reread)) (hget : s.jobs.get id = some st)
    (hreads : s.readsPublished id step = true)
    (hnext : jobNext env (job id) id st (step, reread) = some st') :
    Watched { s.withJob id st' with published := s.publishes id st step } := by
  obtain ⟨hpublishes, hrenamed⟩ := hforeseen
  have hprevious := hs.claimed id st hget
  refine hs.withJob ?_ ?_ ?_ ?_ ?_
  · intro h
    obtain ⟨-, moved, -, rfl⟩ := jobNext_eq_some.mp hnext
    exact (previousState_after h).2
  · intro parent hne
    unfold publishes
    split
    · split
      · rw [Dict.get_set, if_neg hne]
      · rfl
    · rfl
  · exact fun htransferring => absurd htransferring (not_transferring_of_next hprevious hnext)
  · intro hkind
    rcases waiting_of_next hprevious hnext hkind with
      ⟨hwaiting, hentries⟩ | ⟨hcommitting, world, files, outcome, join, labels, rfl, hread, hjoin, hentries⟩
    · obtain ⟨honce, hspelled, hnames⟩ := hs.waits id st hget hwaiting
      obtain ⟨honce', hsame⟩ := honce.of_entries hentries
      refine ⟨honce', spelled_of_absent_or hsame hspelled, fun childId hchild => ?_⟩
      have hnamed := names_of_absent_or hsame hchild
      obtain ⟨hdetached, hcovers⟩ := hnames childId hnamed
      refine ⟨hdetached, fun d hd hbatch => ?_⟩
      cases d with
      | scanning batch there =>
        exact absurd hkind (hrenamed st hget hwaiting batch there hd childId hbatch hnamed st' hnext)
      | looked batch joined => exact hcovers _ hd hbatch
    · obtain ⟨document, hpublished, hdocument⟩ : ∃ document, s.published.get id = some document
          ∧ world.document files = .ok (.obj document) := by
        unfold readsPublished at hreads
        simp only at hreads
        split at hreads
        · rename_i document document' hpublished hdocument
          exact ⟨document, hpublished, by rw [hdocument, of_decide_eq_true hreads]⟩
        · cases hreads
      rw [hdocument] at hread
      obtain rfl := eq_of_readOutcome hread
      obtain ⟨hspelled, hnames⟩ := hs.commits id st outcome hget hcommitting hpublished
      rw [hjoin] at hspelled hnames
      obtain ⟨honce, hsame⟩ := joinsOnce_of_eq hentries
      refine ⟨honce, spelled_of_absent_or hsame ((spelled_labeled _ _).trans hspelled), fun childId hchild => ?_⟩
      have hnamed := names_of_absent_or hsame hchild
      rw [namesChild_labeled] at hnamed
      obtain ⟨hdetached, hunder⟩ := hnames childId hnamed
      exact ⟨hdetached, fun d hd hbatch => absurd ⟨d, hd, hbatch⟩ hunder⟩
  · intro hkind outcome houtcome
    rcases committing_of_next hprevious hnext hkind with
      ⟨hcommitting, hfence⟩ | ⟨world, document, outcome', rfl, hread⟩
    · have hsame : s.publishes id st step = s.published := by
        cases step with
        | fence world document => cases hfence
        | _ => rfl
      rw [hsame] at houtcome
      exact hs.commits id st outcome hget hcommitting houtcome
    · simp only [publishes, hread, Dict.get_set, if_true] at houtcome
      obtain rfl := Option.some.inj houtcome
      exact hpublishes world document st outcome' rfl hget hread

theorem mem_waiting (hget : s.jobs.get parent = some st) (hkind : st.kind = .waiting) : parent ∈ s.waiting :=
  List.mem_map_of_mem (f := Prod.fst) (List.mem_filter.mpr ⟨Dict.mem_of_get hget, by simpa using hkind⟩)

theorem Watched.withDetaching {i : ℕ} {slot : Option Detaching} (hs : Watched s)
    (hslot : ∀ d, slot = some d → ∀ parent childId, childId ∈ d.batch →
      (s.WaitsFor parent childId → d.covers parent childId) ∧ ¬s.CommitsFor parent childId) :
    Watched { s with detaching := s.detaching.set i slot } := by
  have hmem : ∀ d, some d ∈ s.detaching.set i slot → some d ∈ s.detaching ∨ slot = some d := by
    intro d hd
    rcases List.mem_or_eq_of_mem_set hd with hd | hd
    · exact Or.inl hd
    · exact Or.inr hd.symm
  refine ⟨hs.claimed, fun parent st hget hkind => ?_, fun parent st outcome hget hkind houtcome => ?_⟩
  · obtain ⟨honce, hspelled, hnames⟩ := hs.waits parent st hget hkind
    refine ⟨honce, hspelled, fun childId hchild => ⟨(hnames childId hchild).1, fun d hd hbatch => ?_⟩⟩
    rcases hmem d hd with hd | hd
    · exact (hnames childId hchild).2 d hd hbatch
    · exact (hslot d hd parent childId hbatch).1 ⟨st, hget, hkind, hchild⟩
  · obtain ⟨hspelled, hnames⟩ := hs.commits parent st outcome hget hkind houtcome
    refine ⟨hspelled, fun childId hchild => ⟨(hnames childId hchild).1, fun hunder => ?_⟩⟩
    obtain ⟨d, hd, hbatch⟩ := hunder
    rcases hmem d hd with hd | hd
    · exact (hnames childId hchild).2 ⟨d, hd, hbatch⟩
    · exact (hslot d hd parent childId hbatch).2 ⟨st, outcome, hget, hkind, houtcome, hchild⟩

theorem mem_waitingParentMap {seen : List PyStr} {others : List StateFrame} (hparent : parent ∈ seen)
    (hget : s.jobs.get parent = some st)
    (hspelled : spelled s.workspaceId (st.frame.get .join) = true)
    (hchild : namesChild (st.frame.get .join) childId = true) :
    childId ∈ waitingParentMap s.workspaceId
      (seen.filterMap (fun id => (s.jobs.get id).map JobState.frame) ++ others) :=
  List.mem_flatMap.mpr ⟨st.frame, List.mem_append_left _ (List.mem_filterMap.mpr
    ⟨parent, hparent, by rw [hget, Option.map_some]⟩), mem_localChild hspelled hchild⟩

theorem Watched.seen (hs : Watched s) (h : s.WaitsFor parent childId) :
    ¬s.Detached childId ∧ ∀ d, some d ∈ s.detaching → childId ∈ d.batch → d.covers parent childId := by
  obtain ⟨st, hget, hkind, hchild⟩ := h
  exact (hs.waits parent st hget hkind).2.2 childId hchild

theorem Watched.unseen (hs : Watched s) (h : s.CommitsFor parent childId) :
    ¬s.Detached childId ∧ ¬s.UnderWay childId := by
  obtain ⟨st, outcome, hget, hkind, houtcome, hchild⟩ := h
  exact (hs.commits parent st outcome hget hkind houtcome).2 childId hchild

theorem Watched.unjoined {i : ℕ} {batch joined : List PyStr} (hs : Watched s)
    (hslot : s.detaching[i]? = some (some (.looked batch joined))) (hbatch : id ∈ batch)
    (hnot : id ∉ joined) (parent : PyStr) : ¬s.WaitsFor parent id ∧ ¬s.CommitsFor parent id :=
  have hmem : some (.looked batch joined) ∈ s.detaching := List.mem_of_getElem? hslot
  ⟨fun h => hnot ((hs.seen h).2 _ hmem hbatch), fun h => (hs.unseen h).2 ⟨_, hmem, hbatch⟩⟩

theorem Watched.embed (hs : Watched s) (hget : s.jobs.get id = some st)
    (hkind : st.kind = .transferring) :
    Watched { s with jobs := s.jobs.without [id], bundled := id :: s.bundled } := by
  have hjobs : ∀ other st', Dict.get (s.jobs.without [id]) other = some st' →
      s.jobs.get other = some st' := by
    intro other st' h
    rw [Dict.get_without] at h
    split_ifs at h
    exact h
  have hdetached : ∀ childId, Detached { s with
      jobs := s.jobs.without [id], bundled := id :: s.bundled } childId → s.Detached childId := by
    rintro childId (hbundled | ⟨st', hget', hkind'⟩)
    · rcases List.mem_cons.mp hbundled with rfl | hbundled
      · exact Or.inr ⟨st, hget, hkind⟩
      · exact Or.inl hbundled
    · exact Or.inr ⟨st', hjobs _ _ hget', hkind'⟩
  refine ⟨fun other st' h => hs.claimed other st' (hjobs _ _ h), fun parent st' h hkind' => ?_,
    fun parent st' outcome h hkind' houtcome => ?_⟩
  · obtain ⟨honce, hspelled, hnames⟩ := hs.waits parent st' (hjobs _ _ h) hkind'
    exact ⟨honce, hspelled, fun childId hchild =>
      ⟨fun hd => (hnames childId hchild).1 (hdetached _ hd), (hnames childId hchild).2⟩⟩
  · obtain ⟨hspelled, hnames⟩ := hs.commits parent st' outcome (hjobs _ _ h) hkind' houtcome
    exact ⟨hspelled, fun childId hchild =>
      ⟨fun hd => (hnames childId hchild).1 (hdetached _ hd), (hnames childId hchild).2⟩⟩

/-- **No step that was foreseen lets a join be overlooked.** -/
theorem Watched.next {a : JoinedStep σ} (hs : Watched s) (hforeseen : Foreseen env job s a)
    (h : s.next env job a = some s') : Watched s' := by
  cases a with
  | submit id priority =>
    obtain ⟨-, h⟩ := Option.ite_none_right_eq_some.mp h
    rw [← Option.some.inj h]
    exact hs.withJob (fun h => by cases h) (fun _ _ => rfl) (fun h => by cases h)
      (fun h => by cases h) (fun h => by cases h)
  | move id step reread =>
    simp only [JoinedWorkspace.next] at h
    cases hget : s.jobs.get id with
    | none =>
      simp only [hget] at h
      cases h
    | some st =>
      simp only [hget] at h
      obtain ⟨hreads, h⟩ := Option.ite_none_right_eq_some.mp h
      obtain ⟨st', hnext, rfl⟩ := Option.map_eq_some_iff.mp h
      exact hs.move hforeseen hget hreads hnext
  | look i batch =>
    obtain ⟨-, h⟩ := Option.ite_none_right_eq_some.mp h
    rw [← Option.some.inj h]
    refine hs.withDetaching fun d hd parent childId hbatch => ?_
    obtain rfl := Option.some.inj hd
    refine ⟨fun hwaits => ?_, fun hcommits => hforeseen parent childId hcommits hbatch⟩
    obtain ⟨st, hget, hkind, -⟩ := hwaits
    exact mem_waiting hget hkind
  | map i seen others =>
    simp only [JoinedWorkspace.next] at h
    split at h
    · rename_i batch there hslot
      obtain ⟨hseen, h⟩ := Option.ite_none_right_eq_some.mp h
      rw [← Option.some.inj h]
      refine hs.withDetaching fun d hd parent childId hbatch => ?_
      obtain rfl := Option.some.inj hd
      have hmem : some (.scanning batch there) ∈ s.detaching := List.mem_of_getElem? hslot
      refine ⟨fun hwaits => ?_, fun hcommits => (hs.unseen hcommits).2 ⟨_, hmem, hbatch⟩⟩
      have hthere : parent ∈ there := (hs.seen hwaits).2 _ hmem hbatch
      obtain ⟨st, hget, hkind, hchild⟩ := hwaits
      exact mem_waitingParentMap (hseen hthere) hget (hs.waits parent st hget hkind).2.1 hchild
    · cases h
  | fence i id members =>
    simp only [JoinedWorkspace.next] at h
    split at h
    · rename_i batch joined st hslot hget
      obtain ⟨⟨hbatch, -, -, hnot⟩, h⟩ := Option.ite_none_right_eq_some.mp h
      rw [← Option.some.inj h]
      exact hs.withJob (fun h => by cases h) (fun _ _ => rfl)
        (fun _ parent => hs.unjoined hslot hbatch hnot parent) (fun h => by cases h)
        (fun h => by cases h)
    · cases h
  | embed id =>
    simp only [JoinedWorkspace.next] at h
    split at h
    · rename_i st hget
      obtain ⟨hkind, h⟩ := Option.ite_none_right_eq_some.mp h
      rw [← Option.some.inj h]
      exact hs.embed hget hkind
    · cases h
  | leave i =>
    rw [← Option.some.inj h]
    exact hs.withDetaching fun d hd => by cases hd

/-- **No parent waits for a job that is detached**, and none has a child that could be fenced, as
long as every step was foreseen. -/
theorem joins_attached (h : ((joinedRuns (σ := σ) env job).guarded (Foreseen env job)).Reachable s) :
    Attached env job s := by
  have hs : Watched s := by
    refine h.invariant (fun s hinit => ?_) fun s a s' _ hs hstep => hs.next hstep.2 hstep.1
    obtain ⟨hjobs, -, -⟩ := hinit
    have hnone : ∀ id, s.jobs.get id = none := fun id => by rw [hjobs, Dict.get_nil]
    have habsent : ∀ id st, s.jobs.get id ≠ some st := fun id st hget => by
      rw [hnone] at hget
      cases hget
    exact ⟨fun id st hget => absurd hget (habsent id st), fun id st hget => absurd hget (habsent id st),
      fun id st outcome hget => absurd hget (habsent id st)⟩
  refine ⟨fun parent childId hwaits => (hs.seen hwaits).1, fun i childId members hfence parent => ?_⟩
  obtain ⟨s', hfence⟩ := Option.isSome_iff_exists.mp hfence
  simp only [JoinedWorkspace.next] at hfence
  split at hfence
  · rename_i batch joined st hslot hget
    obtain ⟨⟨hbatch, -, -, hnot⟩, -⟩ := Option.ite_none_right_eq_some.mp hfence
    exact hs.unjoined hslot hbatch hnot parent
  · cases hfence

end Safety

/-! ## A child that is detached nevertheless -/

def quiet : JoinedWorkspace where
  workspaceId := "w"
  jobs := []
  published := []
  detaching := [none]
  bundled := []

def parentMoves (steps : List (JobStep PUnit)) : List (JoinedStep PUnit) :=
  .submit "child" 100 :: .submit "job" 100 :: steps.map fun step => .move "job" step true

def detaches (seen : List PyStr) : List (JoinedStep PUnit) :=
  [.look 0 ["child"], .map 0 seen [], .fence 0 "child" []]

def joinedRun (steps : List (JoinedStep PUnit)) : Option JoinedWorkspace :=
  System.follow (JoinedWorkspace.next secondsEnv fun _ => plainJob) quiet steps

theorem reachable_of_joinedRun {steps : List (JoinedStep PUnit)} {s : JoinedWorkspace}
    (h : joinedRun steps = some s) :
    (joinedRuns (σ := PUnit) secondsEnv fun _ => plainJob).Reachable s :=
  (System.run_of_follow h).reachable (System.Reachable.init ⟨rfl, rfl, by decide⟩)

def joinAndChild (s : JoinedWorkspace) : Option (StateKind × Bool) × Option StateKind :=
  ((s.jobs.get "job").map fun st => (st.kind, namesChild (st.frame.get .join) "child"),
    (s.jobs.get "child").map JobState.kind)

/-- **A child that is fenced while its parent waits**: the reference has no workspace id, so that
the map does not have the child. -/
theorem detached_while_joined : ¬∀ s : JoinedWorkspace,
    (joinedRuns (σ := PUnit) secondsEnv fun _ => plainJob).Reachable s →
      Attached secondsEnv (fun _ => plainJob) s := by
  intro hall
  have hrun : (joinedRun (parentMoves waitingForChild ++ detaches ["job"])).map joinAndChild
      = some (some (.waiting, true), some .transferring) := by decide +kernel
  obtain ⟨s, hs, hlook⟩ := Option.map_eq_some_iff.mp hrun
  obtain ⟨hjob, hchild⟩ := Prod.mk.inj hlook
  obtain ⟨st, hget, hst⟩ := Option.map_eq_some_iff.mp hjob
  obtain ⟨hkind, hnames⟩ := Prod.mk.inj hst
  obtain ⟨child, hgetChild, hfenced⟩ := Option.map_eq_some_iff.mp hchild
  exact (hall s (reachable_of_joinedRun hs)).waiting "job" "child" ⟨st, hget, hkind, hnames⟩
    (Or.inr ⟨child, hgetChild, hfenced⟩)

/-- A child that nothing names is detached, and its workspace is in order. -/
theorem joins_attached_detached : ∃ s : JoinedWorkspace,
    ((joinedRuns (σ := PUnit) secondsEnv fun _ => plainJob).guarded
        (Foreseen secondsEnv fun _ => plainJob)).Reachable s
      ∧ s.Detached "child" ∧ Attached secondsEnv (fun _ => plainJob) s := by
  have hstart : ((joinedRuns (σ := PUnit) secondsEnv fun _ => plainJob).guarded
      (Foreseen secondsEnv fun _ => plainJob)).Reachable quiet :=
    System.Reachable.init ⟨rfl, rfl, by decide⟩
  have hsubmitted := hstart.next (.submit "child" 100) trivial rfl
  have hquiet : ∀ parent childId, ¬(quiet.withJob "child" (.submitted 100)).CommitsFor parent childId := by
    rintro parent childId ⟨st, outcome, hget, hkind, -⟩
    rw [get_withJob] at hget
    split_ifs at hget
    · rw [← Option.some.inj hget] at hkind
      cases hkind
    · cases hget
  have hlooked := hsubmitted.next (.look 0 ["child"]) (fun parent childId h => absurd h (hquiet _ _)) rfl
  have hmapped := hlooked.next (.map 0 [] []) trivial rfl
  have hfenced := hmapped.next (.fence 0 "child" []) trivial rfl
  exact ⟨_, hfenced, Or.inr ⟨_, rfl, rfl⟩, joins_attached hfenced⟩

end JoinedWorkspace
