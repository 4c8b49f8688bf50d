import HttkWorkflow.GarbageCollection

/-!
# Marker repair

`check_workspace` reads the frame each marker names and compares it with the
marker. Where that fails, the frame that holds `previous_record_ref` is the
one that cannot be read, so a repair does not follow the chain of the job. It
walks the segments instead, collects the intact frames that name the job, and
adopts the newest one older than the marker: its members are written into a
new frame under the marker's own kind, and the marker moves onto that.

What every repair gives is a marker that is loaded again, from a frame of an
earlier generation. Whether the manager can go on with it is another matter.
The adopted frame was written for the state the job had then, and the members
a state needs are not those of the state before it: the frame before a
waiting one is that of the commit, which has no join. So a repaired marker is
usable exactly if the adopted frame has what the marker's kind needs and the
payload is there (`repair_usable`).
-/

open Numerals Journal SegmentStore

namespace Journal

def FrameProblem.code : FrameProblem → PyStr
  | .missingSegment => "missing_segment"
  | .shortRead => "short_read"
  | .invalidHeader => "invalid_header"
  | .lengthMismatch => "length_mismatch"
  | .trailerMismatch => "trailer_mismatch"
  | .checksumMismatch => "checksum_mismatch"
  | .referenceMismatch => "reference_mismatch"
  | .undecodableFrame => "undecodable_frame"
  | .notAnObject => "not_an_object"

end Journal

/-- `LIVE_KINDS`. -/
def StateKind.isLive (kind : StateKind) : Bool :=
  kind = .claimed || kind = .running || kind = .committing || kind = .cancelling

/-- **An intact frame** that was found in a segment, and the reference to it. -/
abbrev FoundFrame := HwRef × Record

/-- What a check did about a marker. -/
inductive FsckAction where
  | reported
  /-- The marker was moved onto a new frame, made from one that was found. -/
  | repaired (marker : StateMarker) (recovered : FoundFrame)
  | quarantined
  | skippedLive

/-- **What a check found wrong with a marker.** -/
structure FsckFinding where
  marker : StateMarker
  problem : PyStr
  /-- What was done about it. -/
  action : FsckAction

/-- **What a check is asked for.** -/
structure FsckOptions (journal : SegmentStore) where
  repair : Bool
  /-- `quarantine_unrepairable`, which needs a repair. -/
  quarantineUnrepairable : Bool
  quarantine_repair : quarantineUnrepairable = true → repair = true
  /-- `time.time()`. -/
  now : Rat
  /-- `utc_now()`. -/
  utcNow : PyStr
  /-- The UUID of the writer it opens. -/
  freshWriter : FreshWriter journal
  /-- `policy.journal_segment_bytes`. -/
  maximumSegmentBytes : ℕ

/-- The state of a check between two markers. -/
structure FsckState where
  workspace : StoredWorkspace
  /-- The writer, once it is open. -/
  writer : Option JournalWriter
  /-- What was found so far. -/
  findings : List FsckFinding

namespace StoredWorkspace

section Definitions

variable (env : JournalEnv Record)

/-! ## Inspecting a marker -/

/-- **`verify_record`**: the frame, or the code of the problem. -/
def verifyRecord (s : SegmentStore) (text : PyStr) : Except PyStr Record :=
  match parseReference text with
  | .error _ => .error "invalid_record_ref"
  | .ok r =>
    match readFrame env ((s.file r.key).map SegmentFile.bytes) r.offset r.length r.checksum with
    | .ok record => .ok record
    | .error problem => .error problem.code

/-- **`_identity_problem`**, where there is none. -/
def identityAgrees (w : StoredWorkspace) (m : StateMarker) (frame : Record) : Bool :=
  w.frameAgrees m frame && Json.optEqStr (Json.get frame "job_id") m.jobId

def payloadServed (w : StoredWorkspace) (m : StateMarker) : Bool :=
  m.kind.isRemovable || m.kind = .relocating || m.kind = .transferring
    || (m.placement, m.jobKey.text) ∈ w.payloads

/-- **`_inspect`**: the code of the problem of a marker, if it has one. -/
def inspect (w : StoredWorkspace) (m : StateMarker) : Option PyStr :=
  let payloadProblem : Option PyStr := if w.payloadServed m then none else some "payload_missing"
  if m.recordRef = "init" then
    if m.kind ≠ .submitted ∨ m.generation ≠ 0 then some "identity_mismatch" else payloadProblem
  else
    match verifyRecord env w.journal m.recordRef with
    | .error code => some code
    | .ok frame => if w.identityAgrees m frame then payloadProblem else some "identity_mismatch"

/-! ## The frames of a job -/

/-- Where a segment lies below `journal/`. -/
def segmentPath (key : SegmentKey) : List ℕ :=
  (key.writer ++ '/' :: toBase36 key.number ++ ".hwj".toList).map Char.toNat

/-- **`iter_journal_frames`**: the intact frames of all segments, in the order of their
paths. -/
def iterJournalFrames (s : SegmentStore) : List FoundFrame :=
  (s.files.insertionSort fun a b => segmentPath a.fst ≤ segmentPath b.fst).flatMap fun e =>
    iterSegmentFrames env e.fst.writer e.fst.number e.snd.bytes

def isFrameOf (w : StoredWorkspace) (jobId : PyStr) (frame : Record) : Bool :=
  Json.optEqStr (Json.get frame "format") "httk-workflow-state"
    && Json.optEqInt (Json.get frame "format_version") 2
    && Json.optEqStr (Json.get frame "workspace_id") w.workspaceId
    && Json.optEqStr (Json.get frame "job_id") jobId

def framesFor (w : StoredWorkspace) (jobId : PyStr) : List FoundFrame :=
  (iterJournalFrames env w.journal).filter fun e => w.isFrameOf jobId e.snd

def frameGeneration (frame : Record) : Option ℕ :=
  match Json.get frame "state_generation" with
  | some (.int n) => if 0 ≤ n then some n.toNat else none
  | _ => none

def candidateGeneration (m : StateMarker) (frame : Record) : Option ℕ :=
  if Json.optEqStr (Json.get frame "job_key") m.jobKey.text
      && stateKinds.any (fun kind => Json.optEqStr (Json.get frame "kind") kind.word) then
    (frameGeneration frame).filter fun generation => generation < m.generation
  else none

/-- One round of the search: a frame at least as new as the best one is better. -/
def newer (m : StateMarker) (best : Option (ℕ × FoundFrame)) (e : FoundFrame) :
    Option (ℕ × FoundFrame) :=
  match candidateGeneration m e.snd with
  | none => best
  | some generation =>
    match best with
    | none => some (generation, e)
    | some (bestGeneration, _) => if bestGeneration ≤ generation then some (generation, e) else best

def lastGoodFrame (frames : List FoundFrame) (m : StateMarker) : Option FoundFrame :=
  (frames.foldl (newer m) none).map Prod.snd

/-! ## Owners -/

def withinLease (age : Rat) : PyFloat → Bool
  | .finite q => age ≤ q
  | .inf negative => !negative
  | .nan => false

/-- `lease_seconds` of a frame, the policy's where it is no number. -/
def leaseOf (w : StoredWorkspace) (frame : Record) : PyFloat :=
  match Json.get frame "lease_seconds" with
  | some (.int n) => .finite n
  | some (.float x) => x
  | _ => .finite w.leaseSeconds

def managerIsLive (w : StoredWorkspace) (now : Rat) (managerId : PyStr) (lease : PyFloat) : Bool :=
  w.managers.any fun d => d.name = managerId &&
    match d.updatedAt with
    | some updated => withinLease (now - updated) lease
    | none => false

def namesLiveManager (w : StoredWorkspace) (now : Rat) (frame : Record) : Bool :=
  match Json.get frame "manager_id" with
  | some (.str managerId) =>
    managerId.codes ≠ [] && w.managerIsLive now managerId (w.leaseOf frame)
  | _ => false

/-- **`_live_owner`**, as whether there is one. -/
def hasLiveOwner (w : StoredWorkspace) (now : Rat) (frames : List FoundFrame) (m : StateMarker) : Bool :=
  m.kind.isLive && frames.any fun e => w.namesLiveManager now e.snd

/-! ## The repair -/

def repairFrame (w : StoredWorkspace) (utcNow : PyStr) (m : StateMarker) (recovered : FoundFrame)
    (problem : PyStr) : Record :=
  Dict.update recovered.snd
    [(PyStr.ofString "format", .str "httk-workflow-state"),
      (PyStr.ofString "format_version", .int 2),
      (PyStr.ofString "workspace_id", .str w.workspaceId),
      (PyStr.ofString "job_id", .str m.jobId),
      (PyStr.ofString "job_key", .str m.jobKey.text),
      (PyStr.ofString "placement", .str (asPosix m.placement)),
      (PyStr.ofString "state_generation", .int (m.generation + 1 : ℕ)),
      (PyStr.ofString "kind", .str m.kind.word),
      (PyStr.ofString "previous_record_ref", .str recovered.fst.reference),
      (PyStr.ofString "created_at", .str utcNow),
      (PyStr.ofString "priority", .int m.priority),
      (PyStr.ofString "reason", .str "fsck_repair"),
      (PyStr.ofString "fsck_repair", .obj
        [(PyStr.ofString "replaced_record_ref", .str m.recordRef),
          (PyStr.ofString "problem", .str problem),
          (PyStr.ofString "recovered_record_ref", .str recovered.fst.reference),
          (PyStr.ofString "recovered_generation",
            ((frameGeneration recovered.snd).map fun n => Json.int n).getD .null),
          (PyStr.ofString "repaired_at", .str utcNow)])]

/-- The marker on its new frame. -/
def repointed (m : StateMarker) (reference : PyStr) : StateMarker :=
  { m with generation := m.generation + 1, recordRef := reference }

/-- What `marker_basename` refuses. -/
def checkBasename (m : StateMarker) : Except Exc Unit :=
  if 999 < m.priority then raiseFormat [.lit "priority must be 0 through 999"]
  else if 2 ^ 64 - 1 < m.generation then raiseFormat [.lit "generation exceeds unsigned 64-bit range"]
  else if 213 < m.basename.codes.length then
    raiseFormat [.lit "marker exceeds the core profile 213-byte budget"]
  else .ok ()

/-- **`repoint_marker`**: the frame is appended, and the marker renamed onto it. -/
def repointMarker (w : StoredWorkspace) (writer : JournalWriter) (clock : Rat) (m : StateMarker)
    (frame : Record) : Except Exc (StoredWorkspace × JournalWriter × StateMarker) :=
  if !(Json.optEqStr (Json.get frame "workspace_id") w.workspaceId
      && Json.optEqStr (Json.get frame "job_id") m.jobId
      && Json.optEqStr (Json.get frame "job_key") m.jobKey.text
      && Json.optEqStr (Json.get frame "kind") m.kind.word
      && Json.optEqInt (Json.get frame "state_generation") (m.generation + 1 : ℕ)) then
    raiseFormat [.lit "a repair frame must keep the identity of its marker"]
  else do
    let (writer', r) ← writer.append env frame
    checkBasename (repointed m r.reference)
    .ok ({ w with
      journal := published w.journal writer' clock
      markers := w.markers.map fun other => if other = m then repointed m r.reference else other },
      writer', repointed m r.reference)

def withWriter (w : StoredWorkspace) {journal : SegmentStore} (o : FsckOptions journal)
    (writer : Option JournalWriter) : StoredWorkspace × JournalWriter :=
  match writer with
  | some writer => (w, writer)
  | none =>
    let writer := JournalWriter.start o.freshWriter.id o.maximumSegmentBytes
    ({ w with journal := published w.journal writer o.now }, writer)

/-- **One marker of a check**, the frames of its job being given. -/
def checkMarker {journal : SegmentStore} (o : FsckOptions journal) (frames : PyStr → List FoundFrame)
    (st : FsckState) (m : StateMarker) : Except Exc FsckState :=
  let finding := fun problem action => st.findings ++ [⟨m, problem, action⟩]
  match st.workspace.inspect env m with
  | none => .ok st
  | some problem =>
    if problem = "payload_missing" ∨ o.repair = false then
      .ok { st with findings := finding problem .reported }
    else if st.workspace.hasLiveOwner o.now (frames m.jobId) m then
      .ok { st with findings := finding problem .skippedLive }
    else
      match lastGoodFrame (frames m.jobId) m with
      | none =>
        if o.quarantineUnrepairable then
          .ok { st with
            workspace := { st.workspace with
              markers := st.workspace.markers.filter fun other => other ≠ m }
            findings := finding problem .quarantined }
        else .ok { st with findings := finding problem .reported }
      | some recovered => do
        let opened := st.workspace.withWriter o st.writer
        let (workspace, writer, repaired) ← opened.fst.repointMarker env opened.snd o.now m
          (st.workspace.repairFrame o.utcNow m recovered problem)
        .ok ⟨workspace, some writer, finding problem (.repaired repaired recovered)⟩

/-- **`check_workspace`**, with the journal indexed as it was found. -/
def checkWorkspace (w : StoredWorkspace) (o : FsckOptions w.journal) : Except Exc FsckState :=
  w.markers.foldlM (checkMarker env o (w.framesFor env)) ⟨w, none, []⟩

end Definitions

end StoredWorkspace

/-! ## Searching the frames -/

section Search

variable {m : StateMarker} {frames : List FoundFrame}

variable {e : FoundFrame}

variable {best : Option (ℕ × FoundFrame)}

theorem newer_spec {b : ℕ × FoundFrame} (h : StoredWorkspace.newer m best e = some b) :
    best = some b ∨ b.snd = e ∧ StoredWorkspace.candidateGeneration m e.snd = some b.fst := by
  unfold StoredWorkspace.newer at h
  cases hgeneration : StoredWorkspace.candidateGeneration m e.snd with
  | none =>
    rw [hgeneration] at h
    exact Or.inl h
  | some generation =>
    rw [hgeneration] at h
    cases best with
    | none =>
      obtain rfl := Option.some.inj h
      exact Or.inr ⟨rfl, rfl⟩
    | some first =>
      simp only at h
      split_ifs at h
      · obtain rfl := Option.some.inj h
        exact Or.inr ⟨rfl, rfl⟩
      · exact Or.inl h

theorem newer_isSome : (StoredWorkspace.newer m best e).isSome
      ↔ best.isSome ∨ (StoredWorkspace.candidateGeneration m e.snd).isSome := by
  unfold StoredWorkspace.newer
  cases StoredWorkspace.candidateGeneration m e.snd with
  | none => simp
  | some generation =>
    cases best with
    | none => simp
    | some b =>
      simp only [Option.isSome_some, or_self, iff_true]
      split_ifs <;> rfl

theorem lastGoodFrame_spec (h : StoredWorkspace.lastGoodFrame frames m = some e) :
    e ∈ frames ∧ ∃ generation, StoredWorkspace.candidateGeneration m e.snd = some generation := by
  have hfold : ∀ (frames : List FoundFrame) (best : Option (ℕ × FoundFrame)) (b : ℕ × FoundFrame),
      frames.foldl (StoredWorkspace.newer m) best = some b →
      best = some b ∨ b.snd ∈ frames ∧ StoredWorkspace.candidateGeneration m b.snd.snd = some b.fst := by
    intro frames
    induction frames with
    | nil => exact fun _ _ hb => Or.inl hb
    | cons first frames ih =>
      intro best b hb
      rw [List.foldl_cons] at hb
      rcases ih _ _ hb with hbest | ⟨hmem, hgeneration⟩
      · rcases newer_spec hbest with hbest | ⟨hfirst, hgeneration⟩
        · exact Or.inl hbest
        · exact Or.inr ⟨hfirst ▸ List.mem_cons_self, hfirst ▸ hgeneration⟩
      · exact Or.inr ⟨List.mem_cons_of_mem _ hmem, hgeneration⟩
  obtain ⟨b, hb, rfl⟩ := Option.map_eq_some_iff.mp h
  rcases hfold frames none b hb with hnone | ⟨hmem, hgeneration⟩
  · cases hnone
  · exact ⟨hmem, b.fst, hgeneration⟩

/-- **A frame is adopted exactly if there is a candidate.** -/
theorem lastGoodFrame_isSome_iff : (StoredWorkspace.lastGoodFrame frames m).isSome
      ↔ ∃ e ∈ frames, (StoredWorkspace.candidateGeneration m e.snd).isSome := by
  have hfold : ∀ (frames : List FoundFrame) (best : Option (ℕ × FoundFrame)),
      (frames.foldl (StoredWorkspace.newer m) best).isSome
        ↔ best.isSome ∨ ∃ e ∈ frames, (StoredWorkspace.candidateGeneration m e.snd).isSome := by
    intro frames
    induction frames with
    | nil => simp
    | cons first frames ih =>
      intro best
      rw [List.foldl_cons, ih, newer_isSome, or_assoc]
      simp only [List.mem_cons, exists_eq_or_imp]
  unfold StoredWorkspace.lastGoodFrame
  rw [Option.isSome_map, hfold]
  simp only [Option.isSome_none, Bool.false_eq_true, false_or]

/-- **The newest candidate**: none is of a later generation, and none of its own comes after it. -/
def IsNewest (frames : List FoundFrame) (m : StateMarker) (e : FoundFrame) : Prop :=
  ∃ earlier later generation, frames = earlier ++ e :: later
    ∧ StoredWorkspace.candidateGeneration m e.snd = some generation
    ∧ (∀ x ∈ earlier, ∀ g, StoredWorkspace.candidateGeneration m x.snd = some g → g ≤ generation)
    ∧ ∀ x ∈ later, ∀ g, StoredWorkspace.candidateGeneration m x.snd = some g → g < generation

theorem isNewest_of_foldl : ∀ {b : ℕ × FoundFrame}, frames.foldl (StoredWorkspace.newer m) none = some b →
    IsNewest frames m b.snd ∧ StoredWorkspace.candidateGeneration m b.snd.snd = some b.fst := by
  induction frames using List.reverseRecOn with
  | nil => exact fun hb => by cases hb
  | append_singleton frames last ih =>
    intro b hb
    rw [List.foldl_append, List.foldl_cons, List.foldl_nil] at hb
    -- a best frame of before stays the best one, as long as the last one is older
    have hstays : (∀ g, StoredWorkspace.candidateGeneration m last.snd = some g → g < b.fst) →
        frames.foldl (StoredWorkspace.newer m) none = some b → IsNewest (frames ++ [last]) m b.snd
            ∧ StoredWorkspace.candidateGeneration m b.snd.snd = some b.fst := by
      intro hlast hbest
      obtain ⟨⟨earlier, later, generation, rfl, hgeneration, hearlier, hlater⟩, hb'⟩ := ih hbest
      obtain rfl := Option.some.inj (hgeneration.symm.trans hb')
      refine ⟨⟨earlier, later ++ [last], b.fst, by simp, hgeneration, hearlier, fun x hx g hg => ?_⟩, hb'⟩
      rcases List.mem_append.mp hx with hx | hx
      · exact hlater x hx g hg
      · obtain rfl := List.mem_singleton.mp hx
        exact hlast g hg
    generalize hbest : frames.foldl (StoredWorkspace.newer m) none = best at hb
    unfold StoredWorkspace.newer at hb
    cases hlast : StoredWorkspace.candidateGeneration m last.snd with
    | none =>
      rw [hlast] at hb
      exact hstays (fun g hg => by rw [hlast] at hg; cases hg) (hbest.trans hb)
    | some generation =>
      rw [hlast] at hb
      cases best with
      | none =>
        obtain rfl := Option.some.inj hb
        refine ⟨⟨frames, [], generation, rfl, hlast, fun x hx g hg => ?_, by simp⟩, hlast⟩
        have hsome := lastGoodFrame_isSome_iff.mpr ⟨x, hx, by rw [hg]; rfl⟩
        unfold StoredWorkspace.lastGoodFrame at hsome
        rw [hbest] at hsome
        cases hsome
      | some best =>
        simp only at hb
        split_ifs at hb with hle
        · obtain rfl := Option.some.inj hb
          obtain ⟨⟨earlier, later, g₀, rfl, hg₀, hearlier, hlater⟩, hbest'⟩ := ih hbest
          obtain rfl := Option.some.inj (hg₀.symm.trans hbest')
          refine ⟨⟨_, [], generation, rfl, hlast, fun x hx g hg => ?_, by simp⟩, hlast⟩
          rcases List.mem_append.mp hx with hx | hx
          · exact (hearlier x hx g hg).trans hle
          · rcases List.mem_cons.mp hx with rfl | hx
            · exact (Option.some.inj (hg₀.symm.trans hg)).symm.le.trans hle
            · exact (hlater x hx g hg).le.trans hle
        · obtain rfl := Option.some.inj hb
          refine hstays (fun g hg => ?_) hbest
          rw [← Option.some.inj (hlast.symm.trans hg)]
          exact not_le.mp hle

theorem IsNewest.unique {e e' : FoundFrame} (h : IsNewest frames m e) (h' : IsNewest frames m e') : e = e' := by
  obtain ⟨earlier, later, generation, hframes, hgeneration, hearlier, hlater⟩ := h
  obtain ⟨earlier', later', generation', hframes', hgeneration', hearlier', hlater'⟩ := h'
  rcases List.append_eq_append_iff.mp (hframes.symm.trans hframes') with
    ⟨between, hbefore, hbetween⟩ | ⟨between, hbefore, hbetween⟩
  · cases between with
    | nil => exact (List.cons.inj hbetween).1
    | cons first between =>
      obtain ⟨rfl, rfl⟩ := List.cons.inj hbetween
      have hlt := hlater e' (by simp) generation' hgeneration'
      have hle := hearlier' e (hbefore ▸ by simp) generation hgeneration
      omega
  · cases between with
    | nil => exact (List.cons.inj hbetween).1.symm
    | cons first between =>
      obtain ⟨rfl, rfl⟩ := List.cons.inj hbetween
      have hlt := hlater' e (by simp) generation hgeneration
      have hle := hearlier e' (hbefore ▸ by simp) generation' hgeneration'
      omega

theorem lastGoodFrame_eq_some_iff : StoredWorkspace.lastGoodFrame frames m = some e ↔ IsNewest frames m e := by
  constructor
  · intro h
    obtain ⟨b, hb, rfl⟩ := Option.map_eq_some_iff.mp h
    exact (isNewest_of_foldl hb).1
  · intro h
    have hsome : (StoredWorkspace.lastGoodFrame frames m).isSome := by
      obtain ⟨earlier, later, generation, hframes, hgeneration, -⟩ := h
      exact lastGoodFrame_isSome_iff.mpr ⟨e, hframes ▸ by simp, by rw [hgeneration]; rfl⟩
    obtain ⟨e', he'⟩ := Option.isSome_iff_exists.mp hsome
    obtain ⟨b, hb, rfl⟩ := Option.map_eq_some_iff.mp he'
    rw [he', (isNewest_of_foldl hb).1.unique h]

theorem candidateGeneration_lt {frame : Record} {generation : ℕ}
    (h : StoredWorkspace.candidateGeneration m frame = some generation) :
    StoredWorkspace.frameGeneration frame = some generation ∧ generation < m.generation := by
  unfold StoredWorkspace.candidateGeneration at h
  split_ifs at h
  obtain ⟨hgeneration, hlt⟩ := Option.filter_eq_some_iff.mp h
  exact ⟨hgeneration, of_decide_eq_true hlt⟩

end Search

namespace StoredWorkspace

/-! ## The frame of a repair -/

section RepairFrame

variable {w : StoredWorkspace} {utcNow problem : PyStr} {m : StateMarker} {recovered : FoundFrame}

/-- Whether a member is a nonempty text. -/
def namesText (frame : Record) (name : String) : Bool :=
  match Json.get frame name with
  | some (.str text) => !text.codes.isEmpty
  | _ => false

/-- **The members a state needs**: a waiting job its join, a running one its attempt, and a
committing one what names its outcome. -/
def membersServed (kind : StateKind) (frame : Record) : Bool :=
  match kind with
  | .waiting => match Json.get frame "join" with
    | some (.obj _) => true
    | _ => false
  | .running => namesText frame "attempt_id"
  | .committing => namesText frame "attempt_control" || namesText frame "attempt_id"
  | _ => true

def repairMembers : List String :=
  ["format", "format_version", "workspace_id", "job_id", "job_key", "placement", "state_generation",
    "kind", "previous_record_ref", "created_at", "priority", "reason", "fsck_repair"]

theorem get_repairFrame {name : String} (h : name ∉ repairMembers) :
    Json.get (w.repairFrame utcNow m recovered problem) name = Json.get recovered.snd name := by
  unfold repairMembers at h
  simp only [List.mem_cons, List.not_mem_nil, or_false, not_or] at h
  show Dict.get _ _ = Dict.get _ _
  unfold repairFrame
  simp [h]

theorem membersServed_repairFrame (kind : StateKind) : membersServed kind (w.repairFrame utcNow m recovered problem)
      = membersServed kind recovered.snd := by
  unfold membersServed namesText
  have hjoin : "join" ∉ repairMembers := by decide
  have hattempt : "attempt_id" ∉ repairMembers := by decide
  have hcontrol : "attempt_control" ∉ repairMembers := by decide
  rw [get_repairFrame hjoin, get_repairFrame hattempt, get_repairFrame hcontrol]

theorem identityAgrees_repairFrame {reference : PyStr} :
    w.identityAgrees (repointed m reference) (w.repairFrame utcNow m recovered problem) = true := by
  have hget : ∀ name : String, Json.get (w.repairFrame utcNow m recovered problem) name
      = Dict.get (w.repairFrame utcNow m recovered problem) (PyStr.ofString name) := fun _ => rfl
  unfold identityAgrees frameAgrees
  simp only [hget]
  unfold repairFrame
  simp [repointed, Json.optEqInt, Json.eqInt, StateMarker.jobId]

end RepairFrame

/-! ## A check -/

section Run

variable {env : JournalEnv Record} {w : StoredWorkspace} {o : FsckOptions w.journal}

/-- **What a check has done so far**: each marker it repaired names a frame that is read as the
frame of the repair. -/
structure Checked (env : JournalEnv Record) (w : StoredWorkspace) (o : FsckOptions w.journal)
    (st : FsckState) : Prop where
  workspaceId : st.workspace.workspaceId = w.workspaceId
  payloads : st.workspace.payloads = w.payloads
  unopened : st.writer = none → st.workspace.journal = w.journal
  opened : ∀ writer, st.writer = some writer → WriterIn st.workspace.journal writer
  repaired : ∀ f ∈ st.findings, ∀ m' recovered, f.action = .repaired m' recovered →
    ∃ reference, m' = repointed f.marker reference
      ∧ lastGoodFrame (w.framesFor env f.marker.jobId) f.marker = some recovered
      ∧ st.workspace.journal.readRecord env reference
        = .ok (w.repairFrame o.utcNow f.marker recovered f.problem)

variable {st : FsckState} {m : StateMarker}

theorem Checked.finding (h : Checked env w o st) {problem : PyStr}
    {action : FsckAction} (hnot : ∀ m' recovered, action ≠ .repaired m' recovered)
    (markers : List StateMarker) :
    Checked env w o { st with
      workspace := { st.workspace with markers := markers }
      findings := st.findings ++ [⟨m, problem, action⟩] } where
  workspaceId := h.workspaceId
  payloads := h.payloads
  unopened := h.unopened
  opened := h.opened
  repaired := by
    intro f hf m' recovered haction
    rcases List.mem_append.mp hf with hf | hf
    · exact h.repaired f hf m' recovered haction
    · rw [List.mem_singleton.mp hf] at haction
      exact absurd haction (hnot m' recovered)

theorem Checked.withWriter (h : Checked env w o st) :
    (∀ key, ExtendsAt st.workspace.journal (st.workspace.withWriter o st.writer).fst.journal key)
      ∧ WriterIn (st.workspace.withWriter o st.writer).fst.journal (st.workspace.withWriter o st.writer).snd
      ∧ (st.workspace.withWriter o st.writer).fst.workspaceId = w.workspaceId
      ∧ (st.workspace.withWriter o st.writer).fst.payloads = w.payloads := by
  unfold StoredWorkspace.withWriter
  cases hwriter : st.writer with
  | some writer => exact ⟨fun key => extendsAt_refl _ key, h.opened writer hwriter, h.workspaceId, h.payloads⟩
  | none =>
    have hunused : ∀ n, st.workspace.journal.file ⟨o.freshWriter.id, n⟩ = none := by
      rw [h.unopened hwriter]
      exact o.freshWriter.unused
    exact ⟨fun key => extendsAt_start hunused key, writerIn_start o.freshWriter.hex hunused,
      h.workspaceId, h.payloads⟩

theorem repointMarker_eq_ok {v v' : StoredWorkspace} {writer writer' : JournalWriter} {clock : Rat}
    {m m' : StateMarker} {frame : Record}
    (h : v.repointMarker env writer clock m frame = .ok (v', writer', m')) :
    ∃ r, writer.append env frame = .ok (writer', r) ∧ m' = repointed m r.reference
      ∧ v'.journal = published v.journal writer' clock ∧ v'.workspaceId = v.workspaceId
      ∧ v'.payloads = v.payloads := by
  unfold repointMarker at h
  split_ifs at h
  · cases h
  · obtain ⟨⟨writer'', r⟩, happend, h⟩ := bind_eq_ok.mp h
    obtain ⟨-, -, h⟩ := bind_eq_ok.mp h
    obtain ⟨rfl, hrest⟩ := Prod.mk.inj (Except.ok.inj h)
    obtain ⟨rfl, rfl⟩ := Prod.mk.inj hrest
    exact ⟨r, happend, rfl, rfl, rfl, rfl⟩

/-- **One marker of a check.** -/
theorem Checked.step {st st' : FsckState} {m : StateMarker} (h : Checked env w o st)
    (hstep : checkMarker env o (w.framesFor env) st m = .ok st') : Checked env w o st' := by
  unfold checkMarker at hstep
  cases hinspect : st.workspace.inspect env m with
  | none =>
    rw [hinspect] at hstep
    exact Except.ok.inj hstep ▸ h
  | some problem =>
    rw [hinspect] at hstep
    simp only at hstep
    by_cases hreport : problem = "payload_missing" ∨ o.repair = false
    · rw [if_pos hreport] at hstep
      exact Except.ok.inj hstep ▸ h.finding (by simp) st.workspace.markers
    rw [if_neg hreport] at hstep
    by_cases hlive : st.workspace.hasLiveOwner o.now (w.framesFor env m.jobId) m
    · rw [if_pos hlive] at hstep
      exact Except.ok.inj hstep ▸ h.finding (by simp) st.workspace.markers
    · rw [if_neg hlive] at hstep
      cases hgood : lastGoodFrame (w.framesFor env m.jobId) m with
      | none =>
        rw [hgood] at hstep
        simp only at hstep
        split_ifs at hstep
        · exact Except.ok.inj hstep ▸ h.finding (by simp) _
        · exact Except.ok.inj hstep ▸ h.finding (by simp) st.workspace.markers
      | some recovered =>
        rw [hgood] at hstep
        obtain ⟨⟨v, writer, m'⟩, hrepoint, hstep⟩ := bind_eq_ok.mp hstep
        obtain rfl := Except.ok.inj hstep
        obtain ⟨hkept, hopened, hid, hpayloads⟩ := h.withWriter
        obtain ⟨r, happend, rfl, hjournal, hid', hpayloads'⟩ := repointMarker_eq_ok hrepoint
        obtain ⟨hextends, hread, hwriter⟩ :
            (∀ key, ExtendsAt _ (published _ writer o.now) key) ∧ _ ∧ _ := hopened.append happend
        have hframe : st.workspace.repairFrame o.utcNow m recovered problem
            = w.repairFrame o.utcNow m recovered problem := by
          unfold repairFrame
          rw [h.workspaceId]
        refine
          { workspaceId := hid'.trans hid
            payloads := hpayloads'.trans hpayloads
            unopened := fun hnone => by cases hnone
            opened := fun writer' hwriter' => ?_
            repaired := fun f hf m' recovered' haction => ?_ }
        · rw [← Option.some.inj hwriter', hjournal]
          exact hwriter
        · rw [hjournal]
          rcases List.mem_append.mp hf with hf | hf
          · -- an earlier repair is still read, in a journal that has only grown
            obtain ⟨reference, hm', hgood', hread'⟩ := h.repaired f hf m' recovered' haction
            exact ⟨reference, hm', hgood', ExtendsAt.readRecord
              (fun key _ => (hkept key).trans (hextends key)) hread'⟩
          · obtain rfl := List.mem_singleton.mp hf
            obtain ⟨rfl, rfl⟩ := FsckAction.repaired.inj haction
            exact ⟨r.reference, rfl, hgood, hframe ▸ hread⟩

theorem checkWorkspace_checked (h : w.checkWorkspace env o = .ok st) :
    Checked env w o st := by
  refine foldlM_invariant (P := Checked env w o) (fun s m _ s' hs => Checked.step hs) ?_ h
  exact
    { workspaceId := rfl
      payloads := rfl
      unopened := fun _ => rfl
      opened := fun _ hwriter => by cases hwriter
      repaired := fun f hf => by cases hf }

/-- **A marker its manager can go on with**: its frame is read and has what its state needs,
and a check finds nothing wrong with it. -/
structure Usable (env : JournalEnv Record) (w : StoredWorkspace) (m : StateMarker) : Prop where
  state : ∃ frame, w.readState env m = .ok frame ∧ membersServed m.kind frame = true
  clean : w.inspect env m = none

theorem verifyRecord_of_read {s : SegmentStore} {text : PyStr} {record : Record}
    (h : s.readRecord env text = .ok record) : verifyRecord env s text = .ok record := by
  obtain ⟨r, hr, hread⟩ := readRecord_eq_ok.mp h
  unfold verifyRecord
  rw [hr]
  simp only
  rw [hread]

theorem usable_iff {v : StoredWorkspace} {reference problem : PyStr}
    {recovered : FoundFrame} (hid : v.workspaceId = w.workspaceId)
    (hread : v.journal.readRecord env reference = .ok (w.repairFrame o.utcNow m recovered problem)) :
    Usable env v (repointed m reference)
      ↔ membersServed m.kind recovered.snd = true ∧ v.payloadServed m = true := by
  have hframe : v.repairFrame o.utcNow m recovered problem = w.repairFrame o.utcNow m recovered problem := by
    unfold repairFrame
    rw [hid]
  have hagrees : v.identityAgrees (repointed m reference)
      (w.repairFrame o.utcNow m recovered problem) = true := hframe ▸ identityAgrees_repairFrame
  have hinit : (repointed m reference).recordRef ≠ "init" := ne_init_of_read hread
  have hstate : v.readState env (repointed m reference) = .ok (w.repairFrame o.utcNow m recovered problem) := by
    unfold readState
    rw [if_neg hinit]
    refine bind_eq_ok.mpr ⟨_, hread, ?_⟩
    rw [if_pos ((Bool.and_eq_true _ _).mp hagrees).1]
  have hinspect : v.inspect env (repointed m reference)
      = if v.payloadServed m then none else some (PyStr.ofString "payload_missing") := by
    unfold inspect
    rw [if_neg hinit, show (repointed m reference).recordRef = reference from rfl, verifyRecord_of_read hread]
    simp only [hagrees, if_true]
    rfl
  constructor
  · intro h
    obtain ⟨frame, hframe', hserved⟩ := h.state
    rw [← Except.ok.inj (hstate.symm.trans hframe')] at hserved
    refine ⟨membersServed_repairFrame m.kind ▸ hserved, ?_⟩
    by_contra hpayload
    have hclean := h.clean
    rw [hinspect, if_neg hpayload] at hclean
    cases hclean
  · rintro ⟨hserved, hpayload⟩
    refine ⟨⟨_, hstate, ?_⟩, ?_⟩
    · exact (membersServed_repairFrame m.kind).trans hserved
    · rw [hinspect, if_pos hpayload]

end Run

/-! ## A waiting job whose frame is lost -/

def committingFrame : Record :=
  [(PyStr.ofString "format", .str "httk-workflow-state"), (PyStr.ofString "format_version", .int 2),
    (PyStr.ofString "workspace_id", .str removedWorkspace.workspaceId),
    (PyStr.ofString "job_id", .str untaggedKey.id), (PyStr.ofString "job_key", .str untaggedKey.text),
    (PyStr.ofString "kind", .str "committing"), (PyStr.ofString "state_generation", .int 2),
    (PyStr.ofString "attempt_id", .str "44444444-4444-4444-8444-444444444444")]

def committingSegment : SegmentKey × SegmentFile :=
  (⟨oldWriter, 0⟩, ⟨segmentHeader ++ encodeFrame readyEnv (recordBytes committingFrame), 0, true⟩)

def committingReference : HwRef where
  writer := oldWriter
  segment := 0
  offset := 12
  length := 295
  checksum := List.replicate 32 '0'

def lostMarker (kind : StateKind) : StateMarker where
  kind := kind
  placement := (readyMarker untaggedKey).placement
  jobKey := untaggedKey
  priority := 5
  generation := 3
  recordRef := PyStr.ofString
    "w00000000000000000000000000000000-s1-oc-l6r-h00000000000000000000000000000000"

def lostWorkspace (kind : StateKind) : StoredWorkspace :=
  { removedWorkspace with
    markers := [lostMarker kind]
    journal := ⟨[committingSegment], by decide⟩
    payloads := [((lostMarker kind).placement, untaggedKey.text)] }

theorem lost_unused (kind : StateKind) (n : ℕ) :
    (lostWorkspace kind).journal.file ⟨List.replicate 32 '1', n⟩ = none :=
  Dict.get_cons _ _ _

def lostEnv : JournalEnv Record := knownEnv
  [committingFrame,
    removedWorkspace.repairFrame "now" (lostMarker .waiting) (committingReference, committingFrame)
      "missing_segment",
    removedWorkspace.repairFrame "now" (lostMarker .running) (committingReference, committingFrame)
      "missing_segment"] (by decide +kernel)

def repairing (kind : StateKind) : FsckOptions (lostWorkspace kind).journal where
  repair := true
  quarantineUnrepairable := false
  quarantine_repair := by decide
  now := 604800
  utcNow := "now"
  freshWriter := ⟨List.replicate 32 '1', by decide, fun n => Dict.get_cons _ _ _⟩
  maximumSegmentBytes := 65536
def repairedServed (w : StoredWorkspace) (o : FsckOptions w.journal) : Option Bool :=
  (w.checkWorkspace lostEnv o).toOption.bind fun st => st.findings.head?.bind fun f =>
    match f.action with
    | .repaired m' _ =>
      (st.workspace.readState lostEnv m').toOption.map fun frame => membersServed m'.kind frame
    | _ => none

end StoredWorkspace
