import HttkWorkflow.GarbageCollection

/-!
# Garbage collection and the manager directories

The directory of a manager is the only thing that says which host and which
process a journal writer was, so a collection means to keep it for as long as
a segment of that writer is there. It decides that by a count. The pass over
the journal leaves in `_surviving_segments` how many segments of each writer
survive, and the later pass over `managers/` removes the directory of a
manager that is dead and aged where that count is zero.

The count is taken in the branch that spares a segment: one that is too
young, that a marker still refers to, or whose number cannot be read. A
segment that is past all this goes to `_collect`, whose result the pass does
not look at. So a segment that is another user's, or whose unlink fails,
stays on disk uncounted, and so does every segment of a directory that cannot
be listed.

What the disk answers is an input here: the directories that can be listed,
the segments that can be unlinked, the manager directories whose removal gets
as far as their `manager.json`. `records_follow_segments` says for which of
these answers the directory of a manager outlives the segments of its writer.
-/

open Journal SegmentStore

/-- **What the disk answers to a collection.** -/
structure DiskAnswers where
  /-- Whether the journal directory of a writer can be listed. -/
  listed : List Char → Bool
  /-- How many `.hwj` files of a writer have no number for a name. -/
  unnumbered : List Char → ℕ
  unlinks : SegmentKey → Bool
  /-- `_mtime` of the directory of a manager. -/
  managerModified : PyStr → Option Rat
  /-- Whether `_remove_tree` of that directory takes its `manager.json`. -/
  takesRecord : PyStr → Bool

/-- **The segments of one writer, one after the other**: how many are counted
as surviving, and those that are left. -/
def pruneSegments {α : Type} (spared removed : α → Bool) : List α → ℕ × List α
  | [] => (0, [])
  | e :: rest =>
    let (surviving, left) := pruneSegments spared removed rest
    if spared e then (surviving + 1, e :: left)
    -- what `_collect` returns reaches the disk, and not the count
    else if removed e then (surviving, left)
    else (surviving, e :: left)

theorem pruneSegments_eq {α : Type} (spared removed : α → Bool) (l : List α) : pruneSegments spared removed l
      = ((l.filter spared).length, l.filter fun e => spared e || !removed e) := by
  induction l with
  | nil => rfl
  | cons e rest ih =>
    unfold pruneSegments
    rw [ih]
    cases hs : spared e <;> cases hr : removed e <;> simp [hs, hr]

namespace StoredWorkspace

section Definitions

variable (env : JournalEnv Record)

def standsDown (w : StoredWorkspace) (o : GcOptions w.journal) : Bool :=
  (w.journalCutoff o).isNone || !(w.liveManagers o).all fun d => d.writerId.isSome

/-- Whether a file is older than the retention of the journal. -/
def agedAt (w : StoredWorkspace) (o : GcOptions w.journal) (modified : Rat) : Bool :=
  match w.journalCutoff o with
  | none => false
  | some cutoff => modified ≤ cutoff

def segmentsOf (w : StoredWorkspace) (writer : List Char) : List (SegmentKey × SegmentFile) :=
  w.journal.files.filter fun e => e.fst.writer = writer

/-- Whether `_collect` gets a segment off the disk. -/
def segmentRemoved (w : StoredWorkspace) (o : GcOptions w.journal) (disk : DiskAnswers)
    (e : SegmentKey × SegmentFile) : Bool :=
  !o.dryRun && e.snd.owned && disk.unlinks e.fst

/-- **`collect_journal_segments`** for one writer: what `_surviving_segments`
says of it, and the segments that are left. -/
def collectWriter (w : StoredWorkspace) (o : GcOptions w.journal) (disk : DiskAnswers)
    (writer : List Char) : ℕ × List (SegmentKey × SegmentFile) :=
  let segments := w.segmentsOf writer
  if !disk.listed writer then (0, segments)
  else if w.standsDown o || writer ∈ w.liveWriters o then
    (segments.length + disk.unnumbered writer, segments)
  else
    let referenced := w.referencedSegments env (w.leftMarkers env o)
    let (surviving, left) := pruneSegments
      (fun e => e.fst ∈ referenced || !w.agedAt o e.snd.modified) (w.segmentRemoved o disk) segments
    (surviving + disk.unnumbered writer, left)

/-- The journal when the pass over it is done. -/
def segmentsLeft (w : StoredWorkspace) (o : GcOptions w.journal) (disk : DiskAnswers) : SegmentStore :=
  if .journalSegments ∈ selectedCategories o.categories then
    w.journal.restrict fun e => e.fst ∈ (w.collectWriter env o disk e.fst.writer).2.map Prod.fst
  else w.journal

/-- Whether the pass over `managers/` looks at the writer of a directory, and
the removal then takes its record. -/
def managerDue (w : StoredWorkspace) (o : GcOptions w.journal) (disk : DiskAnswers)
    (d : ManagerDirectory) : Bool :=
  .managerDirectories ∈ selectedCategories o.categories
    && d.name ∉ (w.liveManagers o).map ManagerDirectory.name
    && (disk.managerModified d.name).any (w.agedAt o)
    && !o.dryRun && disk.takesRecord d.name

/-- **`collect_manager_directories`**: whether it removes the record of a manager. -/
def recordRemoved (w : StoredWorkspace) (o : GcOptions w.journal) (disk : DiskAnswers)
    (d : ManagerDirectory) : Bool :=
  w.managerDue o disk d
    && match d.writerId with
      | none => false
      | some writer => (w.collectWriter env o disk writer).1 = 0

/-! ## What is asked -/

/-- **The record of a manager goes after the segments of its writer.** -/
def RecordsFollow (w : StoredWorkspace) (o : GcOptions w.journal) (disk : DiskAnswers) : Prop :=
  ∀ d ∈ w.managers, w.recordRemoved env o disk d = true →
    ∀ key : SegmentKey, some key.writer = d.writerId → (w.segmentsLeft env o disk).file key = none

/-- Whether a segment is kept for its age, for a reference to it or for its writer. -/
def spares (w : StoredWorkspace) (o : GcOptions w.journal) (e : SegmentKey × SegmentFile) : Bool :=
  w.standsDown o || e.fst.writer ∈ w.liveWriters o
    || e.fst ∈ w.referencedSegments env (w.leftMarkers env o) || !w.agedAt o e.snd.modified

/-- **A segment that stays is counted, or another of its writer is.** -/
def StaysCounted (w : StoredWorkspace) (o : GcOptions w.journal) (disk : DiskAnswers) : Prop :=
  ∀ d ∈ w.managers, w.managerDue o disk d = true →
    ∀ e ∈ w.journal.files, some e.fst.writer = d.writerId →
      (disk.listed e.fst.writer && e.snd.owned && disk.unlinks e.fst) = true ∨
      disk.listed e.fst.writer = true ∧ (0 < disk.unnumbered e.fst.writer ∨
        ∃ e' ∈ w.journal.files, e'.fst.writer = e.fst.writer ∧ w.spares env o e' = true)

end Definitions

variable {env : JournalEnv Record} {w : StoredWorkspace} {o : GcOptions w.journal}
  {disk : DiskAnswers}

variable {e : SegmentKey × SegmentFile} {writer : List Char}

theorem mem_segmentsOf : e ∈ w.segmentsOf writer ↔ e ∈ w.journal.files ∧ e.fst.writer = writer := by
  simp only [segmentsOf, List.mem_filter, decide_eq_true_eq]

/-! ## The pass over the segments of one writer -/

theorem mem_collectWriter (he : e ∈ w.journal.files) : e ∈ (w.collectWriter env o disk e.fst.writer).2 ↔
      (disk.listed e.fst.writer = false ∨ w.spares env o e = true ∨
        w.segmentRemoved o disk e = false) := by
  have hof : e ∈ w.segmentsOf e.fst.writer := mem_segmentsOf.mpr ⟨he, rfl⟩
  unfold collectWriter
  by_cases hlisted : disk.listed e.fst.writer = true
  · by_cases hall : (w.standsDown o || e.fst.writer ∈ w.liveWriters o) = true
    · simp [hlisted, hall, hof, spares]
    · simp [hlisted, hall, pruneSegments_eq, hof, spares]
  · simp [hlisted, hof]

theorem mem_of_left (h : e ∈ (w.collectWriter env o disk writer).2) : e ∈ w.journal.files := by
  have hof : e ∈ w.segmentsOf writer := by
    revert h
    unfold collectWriter
    dsimp only
    rw [pruneSegments_eq]
    split_ifs
    · exact id
    · exact id
    · exact fun h => (List.mem_filter.mp h).1
  exact (mem_segmentsOf.mp hof).1

theorem survivors_eq_zero : (w.collectWriter env o disk writer).1 = 0 ↔
      (disk.listed writer = false ∨ disk.unnumbered writer = 0 ∧
        ∀ e ∈ w.journal.files, e.fst.writer = writer → w.spares env o e = false) := by
  have hof : (∀ e ∈ w.journal.files, e.fst.writer = writer → w.spares env o e = false) ↔
      ∀ e ∈ w.segmentsOf writer, w.spares env o e = false :=
    ⟨fun h e he => h e (mem_segmentsOf.mp he).1 (mem_segmentsOf.mp he).2,
      fun h e he hw => h e (mem_segmentsOf.mpr ⟨he, hw⟩)⟩
  rw [hof]
  unfold collectWriter
  by_cases hlisted : disk.listed writer = true
  · by_cases hall : (w.standsDown o || writer ∈ w.liveWriters o) = true
    · have hspared : ∀ e ∈ w.segmentsOf writer, w.spares env o e = true := by
        intro e he
        unfold spares
        rw [(mem_segmentsOf.mp he).2, hall]
        rfl
      have hnone : (∀ e ∈ w.segmentsOf writer, w.spares env o e = false) ↔ w.segmentsOf writer = [] := by
        rw [List.eq_nil_iff_forall_not_mem]
        exact forall₂_congr fun e he => by simp [hspared e he]
      rw [hnone]
      simp [hlisted, hall, and_comm]
    · have hspares : ∀ e ∈ w.segmentsOf writer, w.spares env o e
          = (decide (e.fst ∈ w.referencedSegments env (w.leftMarkers env o))
            || !w.agedAt o e.snd.modified) := by
        intro e he
        unfold spares
        rw [(mem_segmentsOf.mp he).2, Bool.eq_false_of_not_eq_true hall]
        rfl
      have hnone : (∀ e ∈ w.segmentsOf writer, w.spares env o e = false) ↔ (w.segmentsOf writer).filter (fun e =>
            decide (e.fst ∈ w.referencedSegments env (w.leftMarkers env o))
              || !w.agedAt o e.snd.modified) = [] := by
        rw [List.filter_eq_nil_iff]
        exact forall₂_congr fun e he => by rw [hspares e he, Bool.not_eq_true]
      rw [hnone]
      simp [hlisted, hall, pruneSegments_eq, and_comm]
  · simp [hlisted]

/-! ## The pass over the manager directories -/

theorem selected_journal (categories : Option (List GcCategory))
    (h : .managerDirectories ∈ selectedCategories categories) :
    .journalSegments ∈ selectedCategories categories := by
  unfold selectedCategories at h ⊢
  dsimp only at h ⊢
  split
  case isTrue => exact List.mem_cons_self
  case isFalse hnot =>
    rw [if_neg hnot] at h
    exact absurd h hnot

variable {d : ManagerDirectory}

theorem selected_of_due (h : w.managerDue o disk d = true) :
    .journalSegments ∈ selectedCategories o.categories ∧ o.dryRun = false := by
  simp only [managerDue, Bool.and_eq_true, decide_eq_true_eq, Bool.not_eq_true'] at h
  obtain ⟨⟨⟨⟨hselected, -⟩, -⟩, hdry⟩, -⟩ := h
  exact ⟨selected_journal _ hselected, hdry⟩

theorem file_segmentsLeft (hselected : .journalSegments ∈ selectedCategories o.categories)
    {key : SegmentKey} {f : SegmentFile} :
    (w.segmentsLeft env o disk).file key = some f ↔ w.journal.file key = some f ∧ (disk.listed key.writer = false ∨
        w.spares env o (key, f) = true ∨ w.segmentRemoved o disk (key, f) = false) := by
  unfold segmentsLeft
  rw [if_pos hselected, file_restrict]
  refine and_congr_right fun hfile => ?_
  have hmem : (key, f) ∈ w.journal.files := file_eq_some_iff.mp hfile
  rw [decide_eq_true_eq, ← mem_collectWriter hmem, List.mem_map]
  refine ⟨?_, fun h => ⟨_, h, rfl⟩⟩
  rintro ⟨e, he, hkey⟩
  rwa [List.inj_on_of_nodup_map w.journal.nodup (mem_of_left he) hmem hkey] at he

theorem zero_of_recordRemoved (hwriter : some writer = d.writerId) (h : w.recordRemoved env o disk d = true) :
    w.managerDue o disk d = true ∧ (w.collectWriter env o disk writer).1 = 0 := by
  unfold recordRemoved at h
  rw [← hwriter] at h
  simpa only [Bool.and_eq_true, decide_eq_true_eq] using h

/-- **The record of a manager goes after the segments of its writer** where a
segment that stays is counted, or another of its writer is, and nowhere else. -/
theorem records_follow_segments (env : JournalEnv Record) (w : StoredWorkspace)
    (o : GcOptions w.journal) (disk : DiskAnswers) :
    RecordsFollow env w o disk ↔ StaysCounted env w o disk := by
  constructor
  · intro hfollow d hd hdue ⟨key, f⟩ he hwriter
    obtain ⟨hselected, hdry⟩ := selected_of_due hdue
    by_contra hnot
    push Not at hnot
    obtain ⟨hstays, hcounted⟩ := hnot
    have hzero : (w.collectWriter env o disk key.writer).1 = 0 := by
      refine survivors_eq_zero.mpr (or_iff_not_imp_left.mpr fun hlisted => ?_)
      obtain ⟨hunnumbered, hspared⟩ := hcounted (Bool.eq_true_of_not_eq_false hlisted)
      exact ⟨Nat.le_zero.mp hunnumbered,
        fun e' he' hw => Bool.eq_false_of_not_eq_true (hspared e' he' hw)⟩
    have hremoved : w.recordRemoved env o disk d = true := by
      rw [recordRemoved, hdue, ← hwriter]
      simp [hzero]
    have hleft : (w.segmentsLeft env o disk).file key = some f := by
      refine (file_segmentsLeft hselected).mpr ⟨file_eq_some_iff.mpr he, ?_⟩
      by_cases hlisted : disk.listed key.writer = true
      · refine .inr (.inr ?_)
        simpa [segmentRemoved, hdry, hlisted] using hstays
      · exact .inl (Bool.eq_false_of_not_eq_true hlisted)
    have hgone := hfollow d hd hremoved key hwriter
    rw [hleft] at hgone
    cases hgone
  · intro hcounted d hd hremoved key hwriter
    obtain ⟨hdue, hzero⟩ := zero_of_recordRemoved hwriter hremoved
    obtain ⟨hselected, hdry⟩ := selected_of_due hdue
    by_contra hfile
    obtain ⟨f, hleft⟩ := Option.ne_none_iff_exists'.mp hfile
    obtain ⟨hstored, hstays⟩ := (file_segmentsLeft hselected).mp hleft
    have he : (key, f) ∈ w.journal.files := file_eq_some_iff.mp hstored
    -- whichever way the segment came to stay, one of its writer was to be counted
    rcases hcounted d hd hdue (key, f) he hwriter with hgone | ⟨hlisted, hspared⟩
    · simp only [Bool.and_eq_true] at hgone
      obtain ⟨⟨hlisted, howned⟩, hunlinked⟩ := hgone
      rcases hstays with hunseen | hspared | hkept
      · rw [hlisted] at hunseen
        cases hunseen
      · rcases survivors_eq_zero.mp hzero with hunseen | ⟨-, hnone⟩
        · rw [hlisted] at hunseen
          cases hunseen
        · rw [hnone _ he rfl] at hspared
          cases hspared
      · simp [segmentRemoved, hdry, howned, hunlinked] at hkept
    · rcases survivors_eq_zero.mp hzero with hunseen | ⟨hunnumbered, hnone⟩
      · rw [hlisted] at hunseen
        cases hunseen
      · rcases hspared with hpos | ⟨e', he', hw, hspared⟩
        · exact absurd hunnumbered hpos.ne'
        · rw [hnone e' he' hw] at hspared
          cases hspared

/-! ## A segment that cannot be unlinked -/

def deadManager : ManagerDirectory where
  name := "m"
  writerId := some oldWriter
  updatedAt := some 0

def orphanedWorkspace : StoredWorkspace where
  __ := removedWorkspace
  markers := []
  managers := [deadManager]

def readOnlyJournal : DiskAnswers where
  listed := fun _ => true
  unnumbered := fun _ => 0
  unlinks := fun _ => false
  managerModified := fun _ => some 0
  takesRecord := fun _ => true

/-- **The segment stays, and the record of its writer goes.** -/
theorem orphaned_segment : ¬∀ (env : JournalEnv Record) (w : StoredWorkspace)
    (o : GcOptions w.journal) (disk : DiskAnswers), RecordsFollow env w o disk := by
  intro hall
  let o := weekLater orphanedWorkspace.journal fun n => Dict.get_cons _ _ _
  have hremoved : orphanedWorkspace.recordRemoved readyEnv o readOnlyJournal deadManager = true := by
    decide +kernel
  have hgone := hall readyEnv orphanedWorkspace o readOnlyJournal deadManager
    List.mem_cons_self hremoved ⟨oldWriter, 0⟩ rfl
  have hstays : ((orphanedWorkspace.segmentsLeft readyEnv o readOnlyJournal).file
      ⟨oldWriter, 0⟩).isSome = true := by
    decide +kernel
  rw [hgone] at hstays
  cases hstays

end StoredWorkspace
