import HttkWorkflow.MarkerRepair

/-!
# Collections and repairs

A collection keeps the segments it reaches from the markers, by walking the
chains of their frames. A repair does not walk: it looks through all the
segments for the newest intact frame of the job. The two agree on a job whose
frames are read. Where the current frame is damaged the walk ends at it, and
of the job's chain nothing but the segment of that frame is kept
(`protects_unread`), while the repair would still have found what lies in the
others.

So a job with a damaged frame stays repairable only by what keeps its older
frames for other reasons: that the collection does not come to the journal,
that a segment is young or of a writer that may still append, that it is not
the user's own, or that something else refers to it (`repairable_iff`). The
one thing a collection adds to the journal is the frame of its report, which
is no frame of a job. It could only matter where it is appended to a torn
frame and happens to complete it.
-/

open Numerals Journal SegmentStore

namespace Journal

variable {ρ : Type} {env : JournalEnv ρ} {writer : List Char} {segment : ℕ}

variable {e : HwRef × ρ}

theorem mem_walkFrames_append {fuel fuel' offset : ℕ} {rest extra : Bytes}
    (hfuel : fuel ≤ fuel') (he : e ∈ walkFrames env writer segment fuel offset rest) :
    e ∈ walkFrames env writer segment fuel' offset (rest ++ extra) := by
  induction fuel generalizing fuel' offset rest with
  | zero => cases he
  | succ fuel ih =>
    obtain ⟨fuel', rfl⟩ : ∃ n, fuel' = n + 1 := ⟨fuel' - 1, by omega⟩
    rw [walkFrames] at he
    split_ifs at he with hlength hmaximum hfields hsum
    · cases he
    · cases he
    · cases he
    all_goals
      -- the frame is whole, so that its fields are those it had
      have hwhole : 8 + ofBytes (rest.take 8) + 32 + 8 ≤ rest.length := by
        rw [not_or, not_or, not_not, not_not, not_not] at hfields
        have htrailer := congrArg List.length hfields.2.2
        rw [not_not] at hlength
        rw [hlength, List.length_take, List.length_drop] at htrailer
        omega
      have hfirst : (rest ++ extra).take 8 = rest.take 8 := List.take_append_of_le_length (by omega)
      rw [walkFrames]
      simp only [hfirst]
      rw [take_drop_append (show 8 + ofBytes (rest.take 8) ≤ rest.length by omega),
        take_drop_append (show 8 + ofBytes (rest.take 8) + 32 ≤ rest.length by omega),
        take_drop_append (show 8 + ofBytes (rest.take 8) + 32 + 8 ≤ rest.length by omega),
        List.drop_append_of_le_length (show 8 + ofBytes (rest.take 8) + 32 + 8 ≤ rest.length by omega),
        if_neg hlength, if_neg hmaximum, if_neg hfields]
    · rw [if_pos hsum]
      exact ih (by omega) he
    · rw [if_neg hsum]
      split at he
      · rcases List.mem_cons.mp he with rfl | he
        · exact List.mem_cons_self
        · exact List.mem_cons_of_mem _ (ih (by omega) he)
      · exact ih (by omega) he

theorem mem_iterSegmentFrames_append {file extra : Bytes} (he : e ∈ iterSegmentFrames env writer segment file) :
    e ∈ iterSegmentFrames env writer segment (file ++ extra) := by
  unfold iterSegmentFrames at he ⊢
  split_ifs at he with hheader
  · cases he
  · have hlength : segmentHeader.length ≤ file.length := by
      have hlen := congrArg List.length (not_not.mp hheader)
      rw [List.length_take] at hlen
      omega
    rw [List.take_append_of_le_length hlength, if_neg hheader, List.drop_append_of_le_length hlength]
    exact mem_walkFrames_append (by rw [List.length_append]; omega) he

theorem mem_iterSegmentFrames_single {r : ρ} {payload : Bytes}
    (hjson : env.jsonBytes r = .ok payload) (hlength : payload.length < 2 ^ 64)
    (he : e ∈ iterSegmentFrames env writer segment (segmentHeader ++ encodeFrame env payload)) :
    e.snd = r := by
  have hlaid : Laid env writer segment segmentHeader.length
      [(frameRef env writer segment segmentHeader.length payload, r)]
      (encodeFrame env payload ++ []) := Laid.cons hjson hlength (Laid.nil _)
  rw [List.append_nil] at hlaid
  by_cases hmaximum : payload.length ≤ maximumFrameBytes
  · rw [iterSegmentFrames_laid hlaid (by simpa [frameRef] using hmaximum)] at he
    rw [List.mem_singleton.mp he]
  · -- a frame too long to be believed ends the walk
    unfold iterSegmentFrames at he
    rw [List.take_left' rfl, List.drop_left' rfl, if_neg (fun h => h rfl)] at he
    obtain ⟨n, hn⟩ : ∃ n, (segmentHeader ++ encodeFrame env payload).length = n + 1 :=
      ⟨_, rfl⟩
    have hfirst : (encodeFrame env payload).take 8 = beBytes 8 payload.length := by
      have hfield : (encodeFrame env payload ++ []).take 8 = beBytes 8 payload.length :=
        frame_length []
      rwa [List.append_nil] at hfield
    rw [hn, walkFrames] at he
    simp only [hfirst, ofBytes_length hlength] at he
    rw [if_neg (by rw [length_beBytes]; exact fun h => h rfl), if_pos (Nat.lt_of_not_le hmaximum)] at he
    cases he

end Journal

namespace StoredWorkspace

section Definitions

variable (env : JournalEnv Record) (w : StoredWorkspace) (m : StateMarker)

/-- **A segment a repair of a marker could use**: it has an intact frame of the job, of an
earlier generation. -/
def HoldsCandidate (key : SegmentKey) (bytes : Bytes) : Prop :=
  ∃ e ∈ iterSegmentFrames env key.writer key.number bytes,
    w.isFrameOf m.jobId e.snd = true ∧ (candidateGeneration m e.snd).isSome

/-- **What keeps a segment from a collection**, where the current frame of a marker cannot be
read. -/
def Retained (o : GcOptions w.journal) (e : SegmentKey × SegmentFile) : Prop :=
  o.dryRun = true ∨ .journalSegments ∉ selectedCategories o.categories
    ∨ w.retention.journalDays = none
    ∨ (∃ d ∈ w.liveManagers o, d.writerId = none)
    ∨ e.fst.writer ∈ w.liveWriters o
    ∨ segmentOf m.recordRef = some e.fst
    ∨ e.fst ∈ w.referencedSegments env (w.markers.filter fun other => other ≠ m)
    ∨ (∃ days, w.retention.journalDays = some days ∧ o.now - days * secondsPerDay < e.snd.modified)
    ∨ e.snd.owned = false

/-- **The frame of the report completes a frame of the job** that was torn at the end of the
caller's open segment. -/
def ReportCompletes (o : GcOptions w.journal) : Prop :=
  o.dryRun = false ∧ w.removedCount env o (w.collectedJournal env o) ≠ 0 ∧
    ∃ caller writer r, o.journalWriter = some caller
      ∧ caller.append env (gcFrame o.report) = .ok (writer, r)
      ∧ HoldsCandidate env w m ⟨writer.writerId, writer.segmentNumber⟩ writer.current

end Definitions

variable {env : JournalEnv Record} {w : StoredWorkspace} {m : StateMarker}

/-! ## Where a repair finds a frame -/

theorem mem_iterJournalFrames {s : SegmentStore} {e : FoundFrame} :
    e ∈ iterJournalFrames env s ↔ ∃ key f, s.file key = some f
      ∧ e ∈ iterSegmentFrames env key.writer key.number f.bytes := by
  unfold iterJournalFrames
  simp only [List.mem_flatMap, List.mem_insertionSort, Prod.exists, file_eq_some_iff]

theorem lastGoodFrame_framesFor : (lastGoodFrame (w.framesFor env m.jobId) m).isSome
      ↔ ∃ key f, w.journal.file key = some f ∧ HoldsCandidate env w m key f.bytes := by
  rw [lastGoodFrame_isSome_iff]
  constructor
  · rintro ⟨e, he, hcandidate⟩
    obtain ⟨hframe, hof⟩ := List.mem_filter.mp he
    obtain ⟨key, f, hf, hmem⟩ := mem_iterJournalFrames.mp hframe
    exact ⟨key, f, hf, e, hmem, hof, hcandidate⟩
  · rintro ⟨key, f, hf, e, hmem, hof, hcandidate⟩
    exact ⟨e, List.mem_filter.mpr ⟨mem_iterJournalFrames.mpr ⟨key, f, hf, hmem⟩, hof⟩, hcandidate⟩

variable {key : SegmentKey}

theorem HoldsCandidate.append {bytes extra : Bytes}
    (h : HoldsCandidate env w m key bytes) : HoldsCandidate env w m key (bytes ++ extra) := by
  obtain ⟨e, he, hcandidate⟩ := h
  exact ⟨e, mem_iterSegmentFrames_append he, hcandidate⟩

variable {report : Record}

theorem isFrameOf_gcFrame {jobId : PyStr} : w.isFrameOf jobId (gcFrame report) = false := by
  have hformat : Json.get (gcFrame report) "format" = some (.str "httk-workflow-gc") := rfl
  unfold isFrameOf
  rw [hformat]
  rfl

theorem not_holdsCandidate_report {payload : Bytes}
    (hjson : env.jsonBytes (gcFrame report) = .ok payload) (hlength : payload.length < 2 ^ 64) :
    ¬HoldsCandidate env w m key (segmentHeader ++ encodeFrame env payload) := by
  rintro ⟨e, he, hof, -⟩
  rw [mem_iterSegmentFrames_single hjson hlength he, isFrameOf_gcFrame] at hof
  cases hof

theorem not_holdsCandidate_header : ¬HoldsCandidate env w m key segmentHeader := by
  rintro ⟨e, he, -⟩
  cases he

/-! ## What a damaged marker protects -/

section Damaged

variable {code : PyStr}

theorem readRecord_of_unverified {s : SegmentStore} {text : PyStr}
    (h : verifyRecord env s text = .error code) : (s.readRecord env text).toOption = none := by
  cases hread : s.readRecord env text with
  | error e => rfl
  | ok record =>
    rw [verifyRecord_of_read hread] at h
    cases h

theorem protects_unread {reference : PyStr} {walked : Bool} {key : SegmentKey}
    (h : verifyRecord env w.journal reference = .error code) :
    key ∈ w.protects env walked reference ↔ segmentOf reference = some key := by
  refine ⟨fun hkey => ?_, mem_protects⟩
  unfold protects at hkey
  cases hsegment : segmentOf reference with
  | none =>
    rw [hsegment] at hkey
    cases hkey
  | some first =>
    rw [hsegment] at hkey
    rcases List.mem_cons.mp hkey with rfl | hkey
    · rfl
    · split_ifs at hkey
      · obtain ⟨e, he, hkey⟩ := List.mem_filterMap.mp hkey
        have hinit : reference ≠ "init" := fun hinit => by
          rw [SegmentStore.iterRecordChain, if_pos hinit] at he
          cases he
        have hnone : w.journal.previous env reference = none := by
          unfold previous
          rw [readRecord_of_unverified h]
          rfl
        rcases ((mem_iterRecordChain_iff hinit).mp he).1.cases_head with heq | ⟨t, ht, -⟩
        · rw [← hkey, ← heq, hsegment]
        · have ht : w.journal.previous env reference = some t := ht
          rw [hnone] at ht
          cases ht
      · cases hkey

theorem mem_referencedSegments_iff (hm : m ∈ w.markers) (hinit : m.recordRef ≠ "init")
    (h : verifyRecord env w.journal m.recordRef = .error code) {key : SegmentKey} :
    key ∈ w.referencedSegments env w.markers ↔ segmentOf m.recordRef = some key
      ∨ key ∈ w.referencedSegments env (w.markers.filter fun other => other ≠ m) := by
  have hown : ∀ other : StateMarker, (key ∈ if other.recordRef = "init" then []
      else w.protects env (!other.kind.isTerminal) other.recordRef) → other = m →
        segmentOf m.recordRef = some key := by
    rintro other hkey rfl
    rw [if_neg hinit] at hkey
    exact (protects_unread h).mp hkey
  unfold referencedSegments
  simp only [List.mem_append, List.mem_flatMap, List.mem_filter, decide_eq_true_eq]
  constructor
  · rintro (⟨other, hother, hkey⟩ | hledger)
    · by_cases heq : other = m
      · exact Or.inl (hown other hkey heq)
      · exact Or.inr (Or.inl ⟨other, ⟨hother, heq⟩, hkey⟩)
    · exact Or.inr (Or.inr hledger)
  · rintro (hsegment | ⟨other, ⟨hother, -⟩, hkey⟩ | hledger)
    · refine Or.inl ⟨m, hm, ?_⟩
      rw [if_neg hinit]
      exact (protects_unread h).mpr hsegment
    · exact Or.inl ⟨other, hother, hkey⟩
    · exact Or.inr hledger

variable {o : GcOptions w.journal}

theorem leftMarkers_damaged (hm : m ∈ w.markers) (hkind : m.kind.isTerminal = false) (hinit : m.recordRef ≠ "init")
    (h : verifyRecord env w.journal m.recordRef = .error code) : w.leftMarkers env o = w.markers := by
  have hstate : ∀ children, w.joinedChildren env m ≠ .ok children := by
    intro children hchildren
    obtain ⟨frame, hframe, -⟩ := bind_eq_ok.mp hchildren
    unfold readState at hframe
    rw [if_neg hinit] at hframe
    obtain ⟨record, hrecord, -⟩ := bind_eq_ok.mp hframe
    rw [verifyRecord_of_read hrecord] at h
    cases h
  have hremoved : w.removedJobs env = [] := by
    unfold removedJobs joinChildParents
    cases hall : (w.markers.filter fun m => !m.kind.isTerminal).mapM (w.joinedChildren env) with
    | error e => rfl
    | ok all =>
      have hmem : m ∈ w.markers.filter fun m => !m.kind.isTerminal :=
        List.mem_filter.mpr ⟨hm, by rw [hkind]; rfl⟩
      obtain ⟨children, hchildren⟩ := mapM_returns.mp ⟨all, hall⟩ m hmem
      exact absurd hchildren (hstate children)
  unfold leftMarkers
  rw [hremoved]
  split_ifs
  · exact List.filter_eq_self.mpr fun _ _ => by simp
  · rfl

theorem file_collectedJournal_iff (hm : m ∈ w.markers)
    (hkind : m.kind.isTerminal = false) (hinit : m.recordRef ≠ "init")
    (h : verifyRecord env w.journal m.recordRef = .error code) (hdry : o.dryRun = false)
    {key : SegmentKey} {f : SegmentFile} :
    (w.collectedJournal env o).file key = some f
      ↔ w.journal.file key = some f ∧ Retained env w m o (key, f) := by
  have hkept : w.collectable o (w.referencedSegments env w.markers) (key, f) = false
      ↔ w.retention.journalDays = none ∨ (∃ d ∈ w.liveManagers o, d.writerId = none)
        ∨ key.writer ∈ w.liveWriters o ∨ segmentOf m.recordRef = some key
        ∨ key ∈ w.referencedSegments env (w.markers.filter fun other => other ≠ m)
        ∨ (∃ days, w.retention.journalDays = some days ∧ o.now - days * secondsPerDay < f.modified)
        ∨ f.owned = false := by
    rw [← or_assoc (a := segmentOf m.recordRef = some key), ← mem_referencedSegments_iff hm hinit h]
    unfold collectable journalCutoff
    cases hdays : w.retention.journalDays with
    | none => simp
    | some days =>
      simp only [Option.map_some, reduceCtorEq, false_or, Option.some.injEq, exists_eq_left',
        Bool.and_eq_false_iff, decide_eq_false_iff_not, not_not, not_le, List.all_eq_false,
        Bool.not_eq_true, or_assoc]
      simp
  unfold collectedJournal Retained
  rw [leftMarkers_damaged hm hkind hinit h, hdry]
  by_cases hselected : GcCategory.journalSegments ∈ selectedCategories o.categories
  · rw [if_pos hselected]
    unfold keptSegments
    rw [file_restrict, Bool.not_eq_true', hkept]
    simp [hselected]
  · rw [if_neg hselected]
    simp [hselected]

end Damaged

/-! ## What the report adds -/

section Report

variable {o : GcOptions w.journal}

variable {f : SegmentFile}

theorem file_appended {s : SegmentStore} {writer : JournalWriter} {record : Record} {clock : Rat}
    {key : SegmentKey} (h : (appended env s writer record clock).file key = some f) :
    s.file key = some f ∨ ∃ writer' r, writer.append env record = .ok (writer', r)
      ∧ key = ⟨writer'.writerId, writer'.segmentNumber⟩ ∧ f = ⟨writer'.current, clock, true⟩ := by
  unfold appended at h
  cases happend : writer.append env record with
  | error e =>
    rw [happend] at h
    exact Or.inl h
  | ok result =>
    rw [happend] at h
    simp only at h
    rw [file_published] at h
    split_ifs at h with hkey
    · exact Or.inr ⟨result.fst, result.snd, rfl, hkey, (Option.some.inj h).symm⟩
    · exact Or.inl h

theorem holdsCandidate_reported {key : SegmentKey}
    (hfile : (reported env (w.collectedJournal env o) o).file key = some f)
    (h : HoldsCandidate env w m key f.bytes) :
    (∃ f', (w.collectedJournal env o).file key = some f' ∧ HoldsCandidate env w m key f'.bytes)
      ∨ ∃ caller writer r, o.journalWriter = some caller ∧ caller.append env (gcFrame o.report) = .ok (writer, r)
        ∧ HoldsCandidate env w m ⟨writer.writerId, writer.segmentNumber⟩ writer.current := by
  unfold reported at hfile
  cases hcaller : o.journalWriter with
  | some caller =>
    rw [hcaller] at hfile
    rcases file_appended hfile with hfile | ⟨writer, r, happend, rfl, rfl⟩
    · exact Or.inl ⟨f, hfile, h⟩
    · exact Or.inr ⟨caller, writer, r, rfl, happend, h⟩
  | none =>
    rw [hcaller] at hfile
    refine Or.inl ?_
    rcases file_appended hfile with hfile | ⟨writer, r, happend, rfl, rfl⟩
    · rw [file_published] at hfile
      split_ifs at hfile with hkey
      · obtain rfl := Option.some.inj hfile
        exact absurd h not_holdsCandidate_header
      · exact ⟨f, hfile, h⟩
    · -- a new writer has room for the report in its first segment
      obtain ⟨payload, rotated, hjson, hrotate, hsize, rfl, -⟩ := append_eq_ok happend
      have hempty : (JournalWriter.start o.freshWriter.id o.maximumSegmentBytes).current.length
          = segmentHeader.length := rfl
      unfold JournalWriter.rotateIfNeeded at hrotate
      rw [if_pos hempty] at hrotate
      obtain rfl := Except.ok.inj hrotate
      rw [length_encodeFrame] at hsize
      exact absurd h (not_holdsCandidate_report hjson (by omega))

theorem exists_holdsCandidate_collect (hdry : o.dryRun = false) :
    (∃ key f, (w.collectGarbage env o).journal.file key = some f ∧ HoldsCandidate env w m key f.bytes)
      ↔ (∃ key f, (w.collectedJournal env o).file key = some f ∧ HoldsCandidate env w m key f.bytes)
        ∨ ReportCompletes env w m o := by
  have hjournal : (w.collectGarbage env o).journal
      = if w.removedCount env o (w.collectedJournal env o) = 0 then w.collectedJournal env o
        else reported env (w.collectedJournal env o) o := by
    unfold collectGarbage
    rw [if_neg (by rw [hdry]; decide)]
  rw [hjournal]
  unfold ReportCompletes
  split_ifs with hcount
  · simp [hcount]
  constructor
  · rintro ⟨key, f, hfile, h⟩
    rcases holdsCandidate_reported hfile h with ⟨f', hf', h'⟩ | hcompletes
    · exact Or.inl ⟨key, f', hf', h'⟩
    · exact Or.inr ⟨hdry, hcount, hcompletes⟩
  · rintro (⟨key, f, hfile, h⟩ | ⟨-, -, caller, writer, r, hcaller, happend, h⟩)
    · obtain ⟨f', hf', extra, hextra⟩ := extendsAt_reported (o := o) key f hfile
      exact ⟨key, f', hf', hextra ▸ h.append⟩
    · refine ⟨_, ⟨writer.current, o.clock, true⟩, ?_, h⟩
      unfold reported appended
      rw [hcaller]
      simp only [happend]
      rw [file_published, if_pos rfl]

end Report

/-- **A job with a damaged frame stays repairable** exactly if one of the segments with an intact
older frame of it is kept for another reason, or the report completes such a frame. -/
theorem repairable_iff {o : GcOptions w.journal} {code : PyStr} (hm : m ∈ w.markers)
    (hkind : m.kind.isTerminal = false) (hinit : m.recordRef ≠ "init")
    (h : verifyRecord env w.journal m.recordRef = .error code) :
    (lastGoodFrame ((w.collectGarbage env o).framesFor env m.jobId) m).isSome
      ↔ (∃ key f, w.journal.file key = some f ∧ HoldsCandidate env w m key f.bytes
          ∧ Retained env w m o (key, f))
        ∨ ReportCompletes env w m o := by
  have hholds : ∀ key bytes, HoldsCandidate env (w.collectGarbage env o) m key bytes
      ↔ HoldsCandidate env w m key bytes := by
    intro key bytes
    have hid : (w.collectGarbage env o).workspaceId = w.workspaceId := by
      unfold collectGarbage
      split_ifs <;> rfl
    unfold HoldsCandidate isFrameOf
    rw [hid]
  rw [lastGoodFrame_framesFor]
  simp only [hholds]
  cases hdry : o.dryRun with
  | true =>
    have hsame : (w.collectGarbage env o).journal = w.journal := by
      unfold collectGarbage
      rw [if_pos hdry]
    simp [hsame, ReportCompletes, Retained, hdry]
  | false =>
    rw [exists_holdsCandidate_collect hdry]
    refine or_congr_left (exists_congr fun key => exists_congr fun f => ?_)
    rw [file_collectedJournal_iff hm hkind hinit h hdry, and_assoc]
    exact and_congr_right fun _ => and_comm

/-! ## A waiting job whose frame is lost -/

def laterBy (seconds : Rat) : GcOptions (lostWorkspace .waiting).journal :=
  { weekLater (lostWorkspace .waiting).journal (lost_unused .waiting) with now := seconds }

theorem unverified_lost : ∃ code, verifyRecord lostEnv (lostWorkspace .waiting).journal (lostMarker .waiting).recordRef
      = .error code := by
  have hnone : (verifyRecord lostEnv (lostWorkspace .waiting).journal
      (lostMarker .waiting).recordRef).toOption.isSome = false := by
    decide +kernel
  cases hverify : verifyRecord lostEnv (lostWorkspace .waiting).journal
      (lostMarker .waiting).recordRef with
  | error code => exact ⟨code, rfl⟩
  | ok frame =>
    rw [hverify] at hnone
    cases hnone

/-- **A week later** the frame of its commit is gone, and with it what a repair could use. -/
theorem repairable_collected : ¬∀ (env : JournalEnv Record) (w : StoredWorkspace)
    (o : GcOptions w.journal) (m : StateMarker) (code : PyStr), m ∈ w.markers →
    m.kind.isTerminal = false → m.recordRef ≠ "init" →
    verifyRecord env w.journal m.recordRef = .error code →
    (lastGoodFrame (w.framesFor env m.jobId) m).isSome →
    (lastGoodFrame ((w.collectGarbage env o).framesFor env m.jobId) m).isSome := by
  intro hall
  obtain ⟨code, hcode⟩ := unverified_lost
  have hbefore : (lastGoodFrame ((lostWorkspace .waiting).framesFor lostEnv
      (lostMarker .waiting).jobId) (lostMarker .waiting)).isSome := by
    decide +kernel
  have hafter : (lastGoodFrame (((lostWorkspace .waiting).collectGarbage lostEnv
      (laterBy 604800)).framesFor lostEnv (lostMarker .waiting).jobId)
      (lostMarker .waiting)).isSome = false := by
    decide +kernel
  have hsome := hall lostEnv (lostWorkspace .waiting) (laterBy 604800) (lostMarker .waiting) code
    List.mem_cons_self rfl (by decide) hcode hbefore
  rw [hsome] at hafter
  cases hafter

/-- **An hour later** it is still there, as it is young. -/
theorem repairable_young : (lastGoodFrame (((lostWorkspace .waiting).collectGarbage lostEnv
    (laterBy 3600)).framesFor lostEnv (lostMarker .waiting).jobId) (lostMarker .waiting)).isSome := by
  obtain ⟨code, hcode⟩ := unverified_lost
  have hbefore : (lastGoodFrame ((lostWorkspace .waiting).framesFor lostEnv
      (lostMarker .waiting).jobId) (lostMarker .waiting)).isSome := by
    decide +kernel
  obtain ⟨key, f, hf, hholds⟩ := lastGoodFrame_framesFor.mp hbefore
  have hyoung : ∀ x ∈ (lostWorkspace .waiting).journal.files,
      3600 - 1 * secondsPerDay < x.snd.modified := by
    decide +kernel
  refine (repairable_iff List.mem_cons_self rfl (by decide) hcode).mpr (Or.inl ⟨key, f, hf, hholds, ?_⟩)
  have hlater := hyoung _ (file_eq_some_iff.mp hf)
  unfold Retained
  exact Or.inr (Or.inr (Or.inr (Or.inr (Or.inr (Or.inr (Or.inr (Or.inl ⟨1, rfl, hlater⟩)))))))

end StoredWorkspace
