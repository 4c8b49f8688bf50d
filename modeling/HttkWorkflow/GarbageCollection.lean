import HttkWorkflow.JoinPass
import HttkWorkflow.MarkerLookup
import HttkWorkflow.SegmentWriter
import HttkWorkflow.TransferBundle

/-!
# Garbage collection and the journal

A collection removes what has aged past the retention of the workspace.
Journal segments are the part of it that other parts of the workspace refer
to: a marker names the frame of its state, and that frame the one before it.
So before a segment goes, `referencedSegments` walks the chains of the
current markers and of the bundles whose ledgers are sealed. A job that is
not terminal keeps its whole chain, a terminal one the segment of its current
frame, and a frame that cannot be read ends the walk, its own segment kept.

Markers go too: `collectRemovedJobs` removes those of terminal and of
unowned quiescent jobs whose payload is absent, and does so before the
journal is looked at, so that what only such a marker referred to goes in the
same run.

Of a `StoredWorkspace` only what these two passes read is modelled. What the
other categories remove is outside it; they count for the report, which a
collection that removed anything appends to the journal.
-/

open Journal SegmentStore

/-- **`RetentionPolicy`**, in days; `none` keeps everything. -/
structure RetentionPolicy where
  attemptControlDays : Option Rat
  journalDays : Option Rat
  trashDays : Option Rat
  nonneg : ∀ d ∈ [attemptControlDays, journalDays, trashDays], ∀ days ∈ d, 0 ≤ days

def RetentionPolicy.default : RetentionPolicy where
  attemptControlDays := none
  journalDays := some 1
  trashDays := some 1
  nonneg := by decide

/-- `GC_CATEGORIES`. -/
inductive GcCategory where
  | attemptControl
  | removedJobs
  | transactionTrash
  | retiredBundles
  | transferRecords
  | tmpEntries
  | retiredRequests
  | journalSegments
  | managerDirectories
  | placementDirectories
deriving DecidableEq, Repr

/-- **The directory of a manager incarnation.** -/
structure ManagerDirectory where
  /-- Its name, the id of the manager. -/
  name : PyStr
  /-- `writer_id`, `none` when `manager.json` names none. -/
  writerId : Option (List Char)
  /-- `updated_at`, `none` when `heartbeat.json` has none. -/
  updatedAt : Option Rat

/-- **A workspace, as far as its journal is collected.** -/
structure StoredWorkspace where
  workspaceId : PyStr
  leaseSeconds : Rat
  retention : RetentionPolicy
  /-- The markers below `state/`. -/
  markers : List StateMarker
  /-- Whether a marker belongs to the user of this process. -/
  owned : StateMarker → Bool
  journal : SegmentStore
  /-- The directories below `managers/`. -/
  managers : List ManagerDirectory
  /-- The ledgers below `transfers/`, `none` for one that cannot be read. -/
  ledgers : List (Option Record)
  payloads : List (List PyStr × PyStr)
  jobSeals : List PyStr

/-- **A writer that is open in a journal.** -/
structure OpenWriter (s : SegmentStore) extends JournalWriter where
  writerIn : WriterIn s toJournalWriter

/-- **The UUID of a writer that is not there yet.** -/
structure FreshWriter (s : SegmentStore) where
  /-- The digits of the UUID. -/
  id : List Char
  hex : id.all Numerals.isHex = true ∧ id.length = 32
  unused : ∀ n, s.file ⟨id, n⟩ = none

/-- **What a collection is asked for.** -/
structure GcOptions (journal : SegmentStore) where
  /-- `now`, against which ages are measured. -/
  now : Rat
  /-- The time at which it writes. -/
  clock : Rat
  dryRun : Bool
  categories : Option (List GcCategory)
  journalWriter : Option (OpenWriter journal)
  /-- The UUID of the writer it opens where it is given none. -/
  freshWriter : FreshWriter journal
  /-- `policy.journal_segment_bytes`, for that writer. -/
  maximumSegmentBytes : ℕ
  /-- How many entries the other categories remove. -/
  removedElsewhere : ℕ
  /-- The members of the report's frame after its format. -/
  report : Record

/-- `REMOVABLE_KINDS`. -/
def StateKind.isRemovable (kind : StateKind) : Bool :=
  kind.isTerminal || kind = .submitted || kind = .ready

def secondsPerDay : Rat := 86400

/-- The frame a collection appends, which is no state frame. -/
def gcFrame (report : Record) : Record :=
  (PyStr.ofString "format", .str "httk-workflow-gc") :: report

/-- `_marker_record_ref`: the last part of a marker's name, unless it is `init`. -/
def markerRecordRef (name : PyStr) : Option PyStr :=
  match (name.split '.').getLast? with
  | some reference => if reference = "init" then none else some reference
  | none => none

namespace StoredWorkspace

section Definitions

variable (env : JournalEnv Record)

/-! ## Reading a state -/

def submittedFrame (w : StoredWorkspace) (m : StateMarker) : Record :=
  [(PyStr.ofString "format", .str "httk-workflow-state"),
    (PyStr.ofString "format_version", .int 2),
    (PyStr.ofString "workspace_id", .str w.workspaceId),
    (PyStr.ofString "job_id", .str m.jobId),
    (PyStr.ofString "job_key", .str m.jobKey.text),
    (PyStr.ofString "placement", .str (asPosix m.placement)),
    (PyStr.ofString "state_generation", .int 0),
    (PyStr.ofString "kind", .str "submitted"),
    (PyStr.ofString "previous_record_ref", .null),
    (PyStr.ofString "created_at", .null),
    (PyStr.ofString "priority", .int m.priority)]

/-- Whether a frame agrees with the marker that names it, as `read_state` checks it. -/
def frameAgrees (w : StoredWorkspace) (m : StateMarker) (frame : Record) : Bool :=
  Json.optEqStr (Json.get frame "format") "httk-workflow-state"
    && Json.optEqInt (Json.get frame "format_version") 2
    && Json.optEqStr (Json.get frame "workspace_id") w.workspaceId
    && Json.optEqStr (Json.get frame "job_key") m.jobKey.text
    && Json.optEqInt (Json.get frame "state_generation") m.generation
    && Json.optEqStr (Json.get frame "kind") m.kind.word

def readState (w : StoredWorkspace) (m : StateMarker) : Except Exc Record :=
  if m.recordRef = "init" then .ok (w.submittedFrame m)
  else do
    let frame ← w.journal.readRecord env m.recordRef
    if w.frameAgrees m frame then .ok frame
    else .error ⟨.workspaceCorruption, [.lit "state frame disagrees with marker ", .path m.placement]⟩

/-! ## Markers whose payload was removed -/

def childId (reference : Json) : Except Exc PyStr :=
  match reference with
  | .obj members =>
    match Json.get members "job_id" with
    | some (.str id) => .ok id
    | _ => .error ⟨.workspaceCorruption, [.lit "state.join.children contains an invalid child reference"]⟩
  | _ => .error ⟨.workspaceCorruption, [.lit "state.join.children contains an invalid child reference"]⟩

def joinedChildren (w : StoredWorkspace) (m : StateMarker) : Except Exc (List PyStr) := do
  let state ← w.readState env m
  match Json.get state "join" with
  | none | some .null => .ok []
  | some (.obj join) => do
    let children ← joinChildren join
    children.mapM childId
  | some _ => .error ⟨.workspaceCorruption, [.lit "state.join is not an object"]⟩

/-- **`join_child_parents`**, as the list of the children that have a parent. -/
def joinChildParents (w : StoredWorkspace) (markers : List StateMarker) : Except Exc (List PyStr) :=
  (markers.mapM (w.joinedChildren env)).map List.flatten

/-- Whether a marker is one `collect_removed_jobs` considers. -/
def isCandidate (w : StoredWorkspace) (m : StateMarker) : Bool :=
  m.kind.isRemovable && (m.placement, m.jobKey.text) ∉ w.payloads

/-- **`collect_removed_jobs`**: the markers it removes, or would remove. -/
def removedJobs (w : StoredWorkspace) : List StateMarker :=
  match w.joinChildParents env (w.markers.filter fun m => !m.kind.isTerminal) with
  | .error _ => []
  | .ok parents =>
    if w.markers.any (fun m => m.kind = .committing) then []
    else w.markers.filter fun m =>
      w.isCandidate m && m.jobId ∉ parents && m.jobKey.text ∉ w.jobSeals && w.owned m

/-! ## Live managers -/

/-- `_heartbeat_within` the lease. -/
def heartbeatWithin (w : StoredWorkspace) (o : GcOptions w.journal) (d : ManagerDirectory) : Bool :=
  match d.updatedAt with
  | none => false
  | some updated => o.now - updated ≤ w.leaseSeconds

/-- **`live_managers`**, the caller's among them. -/
def liveManagers (w : StoredWorkspace) (o : GcOptions w.journal) : List ManagerDirectory :=
  w.managers.filter fun d =>
    (match d.writerId, o.journalWriter with
      | some writer, some caller => writer = caller.writerId
      | _, _ => false) || w.heartbeatWithin o d

/-- The writers that may still be appending. -/
def liveWriters (w : StoredWorkspace) (o : GcOptions w.journal) : List (List Char) :=
  (w.liveManagers o).filterMap ManagerDirectory.writerId
    ++ (o.journalWriter.map fun caller => caller.writerId).toList

/-! ## Protected segments -/

/-- `protect`: the segments kept for one reference, those of its chain if it is walked. -/
def protects (w : StoredWorkspace) (walked : Bool) (reference : PyStr) : List SegmentKey :=
  match segmentOf reference with
  | none => []
  | some key =>
    key :: if walked then
        (w.journal.iterRecordChain env reference).filterMap fun e => segmentOf e.fst
      else []

/-- The reference a ledger keeps, if its transfer is sealed. -/
def ledgerReference (ledger : Option Record) : Option PyStr :=
  match ledger with
  | none => none
  | some ledger =>
    if Json.optEqStr (Json.get ledger "status") "sealed" then
      match Json.get ledger "sealed_marker" with
      | some (.str name) => markerRecordRef name
      | _ => none
    else none

/-- **`referenced_segments`**, for the markers that are left. -/
def referencedSegments (w : StoredWorkspace) (markers : List StateMarker) : List SegmentKey :=
  (markers.flatMap fun m =>
      if m.recordRef = PyStr.ofString "init" then []
      else w.protects env (!m.kind.isTerminal) m.recordRef)
    ++ (w.ledgers.filterMap ledgerReference).flatMap (w.protects env true)

/-! ## The collection -/

/-- `_cutoff`: the time at which the retention of the journal expires. -/
def journalCutoff (w : StoredWorkspace) (o : GcOptions w.journal) : Option Rat :=
  w.retention.journalDays.map fun days => o.now - days * secondsPerDay

/-- Whether `collect_journal_segments` removes a file, the references being given. -/
def collectable (w : StoredWorkspace) (o : GcOptions w.journal) (referenced : List SegmentKey)
    (e : SegmentKey × SegmentFile) : Bool :=
  match w.journalCutoff o with
  | none => false
  | some cutoff =>
    (w.liveManagers o).all (fun d => d.writerId.isSome)
      && e.fst.writer ∉ w.liveWriters o && e.fst ∉ referenced
      && e.snd.modified ≤ cutoff && e.snd.owned

/-- **`collect_journal_segments`**: the segments that are kept. -/
def keptSegments (w : StoredWorkspace) (o : GcOptions w.journal) (markers : List StateMarker) : SegmentStore :=
  w.journal.restrict fun e => !w.collectable o (w.referencedSegments env markers) e

/-- The categories of a run: the manager directories need the count of the segments. -/
def selectedCategories (categories : Option (List GcCategory)) : List GcCategory :=
  let requested := categories.getD
    [.attemptControl, .removedJobs, .transactionTrash, .retiredBundles, .transferRecords,
      .tmpEntries, .retiredRequests, .journalSegments, .managerDirectories, .placementDirectories]
  if .managerDirectories ∈ requested then .journalSegments :: requested else requested

def leftMarkers (w : StoredWorkspace) (o : GcOptions w.journal) : List StateMarker :=
  if .removedJobs ∈ selectedCategories o.categories then
    w.markers.filter fun m => m ∉ w.removedJobs env
  else w.markers

/-- What a run leaves of the journal. -/
def collectedJournal (w : StoredWorkspace) (o : GcOptions w.journal) : SegmentStore :=
  if .journalSegments ∈ selectedCategories o.categories then
    w.keptSegments env o (w.leftMarkers env o)
  else w.journal

/-- **`_journal`**: a journal with a frame appended, by the caller's writer or one opened for it. -/
def reported (s : SegmentStore) {journal : SegmentStore} (o : GcOptions journal) : SegmentStore :=
  match o.journalWriter with
  | some caller => appended env s caller.toJournalWriter (gcFrame o.report) o.clock
  | none =>
    let opened := JournalWriter.start o.freshWriter.id o.maximumSegmentBytes
    appended env (published s opened o.clock) opened (gcFrame o.report) o.clock

/-- How many entries a run removed. -/
def removedCount (w : StoredWorkspace) (o : GcOptions w.journal) (kept : SegmentStore) : ℕ :=
  o.removedElsewhere + (w.markers.length - (w.leftMarkers env o).length)
    + (w.journal.files.length - kept.files.length)

/-- **`collect_garbage`**: the workspace after a run. -/
def collectGarbage (w : StoredWorkspace) (o : GcOptions w.journal) : StoredWorkspace :=
  if o.dryRun then w
  else
    let kept := w.collectedJournal env o
    { w with
      markers := w.leftMarkers env o
      journal := if w.removedCount env o kept = 0 then kept else reported env kept o }

end Definitions

variable {env : JournalEnv Record}

/-! ## What a collection keeps -/

section Kept

variable {w : StoredWorkspace} {o : GcOptions w.journal}

variable {caller : OpenWriter w.journal}

theorem not_collectable_caller {referenced : List SegmentKey}
    (hcaller : o.journalWriter = some caller) (n : ℕ) (f : SegmentFile) :
    w.collectable o referenced (⟨caller.writerId, n⟩, f) = false := by
  have hlive : caller.writerId ∈ w.liveWriters o := by
    unfold liveWriters
    rw [hcaller]
    exact List.mem_append_right _ List.mem_cons_self
  unfold collectable
  cases w.journalCutoff o with
  | none => rfl
  | some cutoff => simp [hlive]

variable {key : SegmentKey}

theorem file_collectedJournal {f : SegmentFile}
    (h : (w.collectedJournal env o).file key = some f) : w.journal.file key = some f := by
  unfold collectedJournal at h
  split_ifs at h
  · exact (file_restrict.mp h).1
  · exact h

theorem writerIn_collectedJournal (hcaller : o.journalWriter = some caller) :
    WriterIn (w.collectedJournal env o) caller.toJournalWriter := by
  unfold collectedJournal
  split_ifs
  · refine caller.writerIn.restrict fun f _ => ?_
    show (!w.collectable o _ _) = true
    rw [not_collectable_caller hcaller]
    rfl
  · exact caller.writerIn

theorem extendsAt_reported (key : SegmentKey) :
    ExtendsAt (w.collectedJournal env o) (reported env (w.collectedJournal env o) o) key := by
  unfold reported
  cases hcaller : o.journalWriter with
  | some caller => exact (writerIn_collectedJournal hcaller).extendsAt_appended key
  | none =>
    have hunused : ∀ n, (w.collectedJournal env o).file ⟨o.freshWriter.id, n⟩ = none := fun n =>
      Option.eq_none_iff_forall_ne_some.mpr fun f hf => by
        have hnone := o.freshWriter.unused n
        rw [file_collectedJournal hf] at hnone
        cases hnone
    exact (extendsAt_start hunused key).trans ((writerIn_start o.freshWriter.hex hunused).extendsAt_appended key)

theorem extendsAt_collect (h : ∀ f, w.journal.file key = some f →
      w.collectable o (w.referencedSegments env (w.leftMarkers env o)) (key, f) = false) :
    ExtendsAt w.journal (w.collectGarbage env o).journal key := by
  have hkept : ExtendsAt w.journal (w.collectedJournal env o) key := by
    unfold collectedJournal
    split_ifs
    · exact extendsAt_restrict fun f hf => by rw [h f hf]; rfl
    · exact extendsAt_refl _ _
  unfold collectGarbage
  split_ifs with hdry
  · exact extendsAt_refl _ _
  · show ExtendsAt w.journal (if _ then _ else _) key
    split_ifs
    · exact hkept
    · exact hkept.trans (extendsAt_reported key)

theorem extendsAt_referenced (h : key ∈ w.referencedSegments env (w.leftMarkers env o)) :
    ExtendsAt w.journal (w.collectGarbage env o).journal key := by
  refine extendsAt_collect fun f _ => ?_
  unfold collectable
  cases w.journalCutoff o with
  | none => rfl
  | some cutoff => simp [h]

variable {reference : PyStr}

theorem mem_protects {walked : Bool}
    (h : segmentOf reference = some key) : key ∈ w.protects env walked reference := by
  unfold protects
  rw [h]
  exact List.mem_cons_self

theorem mem_protects_chain {e : PyStr × Option Record}
    (he : e ∈ w.journal.iterRecordChain env reference) (h : segmentOf e.fst = some key) :
    key ∈ w.protects env true reference := by
  unfold protects
  cases hreference : segmentOf reference with
  | some first => exact List.mem_cons_of_mem _ (List.mem_filterMap.mpr ⟨e, he, h⟩)
  | none =>
    -- a reference that is none leads nowhere, so that the chain is itself alone
    have hinit : reference ≠ "init" := by
      rintro rfl
      cases he
    have hreach := ((mem_iterRecordChain_iff hinit).mp he).1
    rcases hreach.cases_head with heq | ⟨t, ht, -⟩
    · rw [← heq, hreference] at h
      cases h
    · obtain ⟨record, hrecord, -⟩ := Option.bind_eq_some_iff.mp ht
      obtain ⟨r, hr, -⟩ := readRecord_eq_ok.mp (toOption_eq_some.mp hrecord)
      rw [segmentOf, hr] at hreference
      cases hreference

variable {markers : List StateMarker} {m : StateMarker}

theorem mem_referenced_marker (hm : m ∈ markers) (hinit : m.recordRef ≠ "init")
    (h : key ∈ w.protects env (!m.kind.isTerminal) m.recordRef) :
    key ∈ w.referencedSegments env markers := by
  refine List.mem_append_left _ (List.mem_flatMap.mpr ⟨m, hm, ?_⟩)
  rw [if_neg hinit]
  exact h

theorem mem_referenced_ledger {ledger : Option Record} (hledger : ledger ∈ w.ledgers)
    (hreference : ledgerReference ledger = some reference)
    (h : key ∈ w.protects env true reference) : key ∈ w.referencedSegments env markers :=
  List.mem_append_right _ (List.mem_flatMap.mpr ⟨reference, List.mem_filterMap.mpr ⟨ledger, hledger, hreference⟩, h⟩)

theorem mem_markers_collect (h : m ∈ (w.collectGarbage env o).markers) :
    m ∈ w.markers ∧ (o.dryRun = false → m ∈ w.leftMarkers env o) := by
  unfold collectGarbage at h
  split_ifs at h with hdry
  · exact ⟨h, fun hf => by rw [hdry] at hf; cases hf⟩
  · have h : m ∈ w.leftMarkers env o := h
    refine ⟨?_, fun _ => h⟩
    unfold leftMarkers at h
    split_ifs at h
    · exact (List.mem_filter.mp h).1
    · exact h

/-- **What is still read after a collection**, of what was read before: the whole chain of
the markers that are not terminal, the current frame of each marker, and the chains of the
transfers whose ledgers are sealed. -/
structure HistoryKept (env : JournalEnv Record) (w w' : StoredWorkspace) (markers : List StateMarker) :
    Prop where
  chain : ∀ m ∈ markers, m.kind.isTerminal = false →
    ∀ e ∈ w.journal.iterRecordChain env m.recordRef, e.snd.isSome →
      e ∈ w'.journal.iterRecordChain env m.recordRef
  current : ∀ m ∈ markers, ∀ record, w.journal.readRecord env m.recordRef = .ok record →
    w'.journal.readRecord env m.recordRef = .ok record
  transfers : ∀ ledger ∈ w.ledgers, ∀ reference, ledgerReference ledger = some reference →
    ∀ e ∈ w.journal.iterRecordChain env reference, e.snd.isSome →
      e ∈ w'.journal.iterRecordChain env reference

/-- **History is kept**, of the markers a collection leaves and of the sealed transfers; and
the markers it does not leave are those of removable jobs without a payload. -/
theorem history_kept (env : JournalEnv Record) (w : StoredWorkspace) (o : GcOptions w.journal) :
    HistoryKept env w (w.collectGarbage env o) (w.collectGarbage env o).markers
      ∧ ∀ m ∈ w.markers, m ∉ (w.collectGarbage env o).markers →
        m.kind.isRemovable = true ∧ (m.placement, m.jobKey.text) ∉ w.payloads := by
  have hrefl : o.dryRun = true → w.collectGarbage env o = w := fun hdry => by
    unfold collectGarbage
    rw [if_pos hdry]
  refine ⟨⟨fun m hm hkind e he hread => ?_, fun m hm record hrecord => ?_,
    fun ledger hledger reference hreference e he hread => ?_⟩, fun m hm hgone => ?_⟩
  · cases hdry : o.dryRun with
    | true => rwa [hrefl hdry]
    | false =>
      refine mem_chain_of_extends (fun e' he' key hkey => extendsAt_referenced ?_) he hread
      have hinit : m.recordRef ≠ "init" := fun hinit => by
        rw [SegmentStore.iterRecordChain, if_pos hinit] at he'
        cases he'
      refine mem_referenced_marker ((mem_markers_collect hm).2 hdry) hinit ?_
      rw [hkind]
      exact mem_protects_chain he' hkey
  · cases hdry : o.dryRun with
    | true => rwa [hrefl hdry]
    | false =>
      exact ExtendsAt.readRecord (fun key hkey => extendsAt_referenced (mem_referenced_marker
        ((mem_markers_collect hm).2 hdry) (ne_init_of_read hrecord) (mem_protects hkey))) hrecord
  · exact mem_chain_of_extends (fun e' he' key hkey => extendsAt_referenced
      (mem_referenced_ledger hledger hreference (mem_protects_chain he' hkey))) he hread
  · unfold collectGarbage at hgone
    split_ifs at hgone
    · exact absurd hm hgone
    · have hgone : m ∉ w.leftMarkers env o := hgone
      unfold leftMarkers at hgone
      split_ifs at hgone
      · have hremoved : m ∈ w.removedJobs env := by
          by_contra hnot
          exact hgone (List.mem_filter.mpr ⟨hm, decide_eq_true hnot⟩)
        unfold removedJobs at hremoved
        cases hparents : w.joinChildParents env (w.markers.filter fun m => !m.kind.isTerminal) with
        | error e =>
          rw [hparents] at hremoved
          cases hremoved
        | ok parents =>
          rw [hparents] at hremoved
          simp only at hremoved
          split_ifs at hremoved
          · cases hremoved
          · have hp := (List.mem_filter.mp hremoved).2
            simp only [Bool.and_eq_true, isCandidate, decide_eq_true_eq] at hp
            exact hp.1.1.1
      · exact absurd hm hgone

end Kept

/-! ## A job whose payload was removed -/

def readyFrame : Record :=
  [(PyStr.ofString "format", .str "httk-workflow-state"), (PyStr.ofString "format_version", .int 2),
    (PyStr.ofString "workspace_id", .str "33333333-3333-4333-8333-333333333333"),
    (PyStr.ofString "job_key", .str untaggedKey.text), (PyStr.ofString "kind", .str "ready"),
    (PyStr.ofString "state_generation", .int 1)]

def readyEnv : JournalEnv Record := knownEnv [readyFrame, gcFrame []] (by decide +kernel)

def oldWriter : List Char := List.replicate 32 '0'

def oldSegment : SegmentKey × SegmentFile :=
  (⟨oldWriter, 0⟩, ⟨segmentHeader ++ encodeFrame readyEnv (recordBytes readyFrame), 0, true⟩)

def oldReference : PyStr := .ofString
  "w00000000000000000000000000000000-s0-oc-l5a-h00000000000000000000000000000000"

def removedWorkspace : StoredWorkspace where
  workspaceId := "33333333-3333-4333-8333-333333333333"
  leaseSeconds := 60
  retention := .default
  markers := [{ readyMarker untaggedKey with recordRef := oldReference }]
  owned := fun _ => true
  journal := ⟨[oldSegment], by decide⟩
  managers := []
  ledgers := []
  payloads := []
  jobSeals := []

theorem hex_ones : (List.replicate 32 '1').all Numerals.isHex = true ∧ (List.replicate 32 '1').length = 32 := by
  decide

def weekLater (journal : SegmentStore) (h : ∀ n, journal.file ⟨List.replicate 32 '1', n⟩ = none) :
    GcOptions journal where
  now := 604800
  clock := 604800
  dryRun := false
  categories := none
  journalWriter := none
  freshWriter := ⟨List.replicate 32 '1', hex_ones, h⟩
  maximumSegmentBytes := 65536
  removedElsewhere := 0
  report := []

/-- **The chain of a job whose payload was removed** goes in the same run as its marker. -/
theorem history_collected : ¬∀ (env : JournalEnv Record) (w : StoredWorkspace)
    (o : GcOptions w.journal), HistoryKept env w (w.collectGarbage env o) w.markers := by
  intro hall
  let o := weekLater removedWorkspace.journal fun n => Dict.get_cons _ _ _
  have hkept := hall readyEnv removedWorkspace o
  have hbefore : (removedWorkspace.journal.readRecord readyEnv oldReference).toOption.isSome := by
    decide +kernel
  obtain ⟨record, hrecord⟩ := Option.isSome_iff_exists.mp hbefore
  have hafter := hkept.current _ List.mem_cons_self record (toOption_eq_some.mp hrecord)
  have hgone : ((removedWorkspace.collectGarbage readyEnv o).journal.readRecord readyEnv
      oldReference).toOption.isSome = false := by
    decide +kernel
  rw [hafter] at hgone
  cases hgone

end StoredWorkspace
