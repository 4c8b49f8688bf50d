import HttkWorkflow.GarbageCollection
import HttkWorkflow.System

/-!
# A collection beside writers

An import, the detaching of a job and a repair each append a frame to a
journal of their own first, and only then is there a marker that names it. In
between nothing on disk refers to the frame, and none of these processes is a
manager with a heartbeat. A collection that looks at the markers meanwhile
has two reasons left to keep the segment: that it was written after the
cutoff, and that the file is not the user's.

Detaching has a second such moment. The marker is moved into the bundle, and
only then the ledger is written that stands for it.

Here these processes and one collection after another take turns, one step a
file operation. The markers a collection has seen are any that include those
that were there for as long as it scanned. What a run of turns gives is this:
where every frame in flight is younger than the cutoff, nothing is removed
that a marker or a sealed ledger refers to (`referenced_kept`). The cutoff is
the policy's alone, and the smallest it admits is no age at all.
-/

open Journal SegmentStore

/-- **How far a process is** that publishes a frame. -/
inductive Publisher where
  /-- It has a writer, and what it appended has its marker. -/
  | writing (writer : JournalWriter)
  /-- It has appended a frame that no marker names yet. -/
  | appended (writer : JournalWriter) (reference : PyStr)
  /-- It has moved a marker into its bundle, and has yet to write the ledger. -/
  | embedded (marker : StateMarker)
deriving DecidableEq

/-- **How far a collection is.** -/
inductive CollectionPhase where
  | started
  | scanning (there : List StateMarker)
  /-- What `markers` found, without what was removed since. -/
  | listed (markers : List StateMarker)
  /-- What `referenced_segments` came to. -/
  | referenced (segments : List SegmentKey)

/-- **A collection that runs.** -/
structure CollectionRun where
  /-- `_cutoff`, `none` where the journal is kept. -/
  cutoff : Option Rat
  /-- The writers that may still be appending. -/
  liveWriters : List (List Char)
  /-- How far it is. -/
  phase : CollectionPhase

/-- **A workspace with its processes.** -/
structure SharedWorkspace where
  /-- What is on disk. -/
  workspace : StoredWorkspace
  /-- `time.time()`, which is also what files are stamped with. -/
  clock : Rat
  /-- The processes, `none` for one that has no frame to publish. -/
  publishers : List (Option Publisher)
  collection : Option CollectionRun
  removed : List SegmentKey

/-- **What can happen next.** -/
inductive CollectionStep where
  | tick (seconds : Rat)
  | openWriter (i : ℕ) (id : List Char) (maximumSegmentBytes : ℕ)
  | append (i : ℕ) (record : Record)
  | publish (i : ℕ) (marker : StateMarker)
  /-- A repair, or a transition, renames a marker onto the frame. -/
  | repoint (i : ℕ) (marker marker' : StateMarker)
  /-- A check moves a marker into the quarantine. -/
  | quarantine (marker : StateMarker)
  /-- A job that is detached has its marker moved into the bundle. -/
  | embed (i : ℕ) (marker : StateMarker)
  | writeLedger (i : ℕ)
  /-- A process is done with its writer, or fails. -/
  | leave (i : ℕ)
  | collect (liveWriters : List (List Char))
  | scan
  /-- The scan has ended. -/
  | list (seen : List StateMarker)
  /-- The marker of a removed job is removed. -/
  | drop (marker : StateMarker)
  /-- The ledgers and the chains are read. -/
  | consult
  | unlink (key : SegmentKey)
  | finish

namespace Publisher

/-- Its writer, as long as it is open. -/
def writer : Publisher → Option JournalWriter
  | writing writer | appended writer _ => some writer
  | embedded _ => none

/-- The references it has in flight. -/
def held : Publisher → List PyStr
  | writing _ => []
  | appended _ reference => [reference]
  | embedded marker => (markerRecordRef marker.basename).toList

end Publisher

namespace CollectionPhase

def forget (m : StateMarker) : CollectionPhase → CollectionPhase
  | scanning there => scanning (there.filter fun other => other ≠ m)
  | phase => phase

end CollectionPhase

/-- The ledger of a transfer that is sealed, as far as a collection reads it. -/
def sealedLedger (m : StateMarker) : Record :=
  [(PyStr.ofString "status", .str "sealed"), (PyStr.ofString "sealed_marker", .str m.basename)]

namespace SharedWorkspace

def journal (s : SharedWorkspace) : SegmentStore := s.workspace.journal

def withJournal (s : SharedWorkspace) (journal : SegmentStore) : SharedWorkspace :=
  { s with workspace := { s.workspace with journal := journal } }

/-- The state with other markers, one of those of before being gone. -/
def withMarkers (s : SharedWorkspace) (gone : StateMarker) (markers : List StateMarker) :
    SharedWorkspace :=
  { s with
    workspace := { s.workspace with markers := markers }
    collection := s.collection.map fun run => { run with phase := run.phase.forget gone } }

/-- The state with a process elsewhere. -/
def withPublisher (s : SharedWorkspace) (i : ℕ) (p : Option Publisher) : SharedWorkspace :=
  { s with publishers := s.publishers.set i p }

/-- The state with its collection elsewhere. -/
def withPhase (s : SharedWorkspace) (run : CollectionRun) (phase : CollectionPhase) : SharedWorkspace :=
  { s with collection := some { run with phase := phase } }

def knownWriters (s : SharedWorkspace) : List (List Char) :=
  (s.journal.files.map fun e => e.fst.writer) ++ s.removed.map SegmentKey.writer

/-- The cutoff of a collection that starts now. -/
def cutoff (s : SharedWorkspace) : Option Rat :=
  s.workspace.retention.journalDays.map fun days => s.clock - days * secondsPerDay

section Steps

variable (env : JournalEnv Record)

/-- **One step of a process that publishes.** -/
def nextPublisher (s : SharedWorkspace) : CollectionStep → Option SharedWorkspace
  | .openWriter i id maximum =>
    if s.publishers[i]? = some none ∧ (id.all Numerals.isHex = true ∧ id.length = 32)
        ∧ id ∉ s.knownWriters then
      let writer := JournalWriter.start id maximum
      some ((s.withJournal (published s.journal writer s.clock)).withPublisher i (some (.writing writer)))
    else none
  | .append i record =>
    match s.publishers[i]? with
    | some (some (.writing writer)) =>
      match writer.append env record with
      | .ok (writer', r) =>
        -- what is written to a file that was unlinked is nowhere
        let journal :=
          if writer'.segmentNumber = writer.segmentNumber
              ∧ s.journal.file ⟨writer.writerId, writer.segmentNumber⟩ = none then s.journal
          else published s.journal writer' s.clock
        some ((s.withJournal journal).withPublisher i (some (.appended writer' r.reference)))
      | .error _ => none
    | _ => none
  | .publish i m =>
    match s.publishers[i]? with
    | some (some (.appended writer reference)) =>
      if m.recordRef = reference then
        some ({ s with workspace := { s.workspace with markers := m :: s.workspace.markers } }.withPublisher
          i (some (.writing writer)))
      else none
    | _ => none
  | .repoint i m m' =>
    match s.publishers[i]? with
    | some (some (.appended writer reference)) =>
      if m ∈ s.workspace.markers ∧ m'.recordRef = reference then
        some ((s.withMarkers m (s.workspace.markers.map fun other =>
          if other = m then m' else other)).withPublisher i (some (.writing writer)))
      else none
    | _ => none
  | .quarantine m => some (s.withMarkers m (s.workspace.markers.filter fun other => other ≠ m))
  | .embed i m =>
    -- the name of the marker ends in its reference
    if s.publishers[i]? = some none ∧ m ∈ s.workspace.markers ∧ m.kind = .transferring
        ∧ markerRecordRef m.basename = some m.recordRef then
      some ((s.withMarkers m (s.workspace.markers.filter fun other => other ≠ m)).withPublisher i
        (some (.embedded m)))
    else none
  | .writeLedger i =>
    match s.publishers[i]? with
    | some (some (.embedded m)) =>
      some ({ s with workspace := { s.workspace with
        ledgers := some (sealedLedger m) :: s.workspace.ledgers } }.withPublisher i none)
    | _ => none
  | .leave i =>
    match s.publishers[i]? with
    | some (some (.writing _)) | some (some (.appended _ _)) => some (s.withPublisher i none)
    | _ => none
  | _ => none

/-- **One step of a collection.** -/
def nextCollection (s : SharedWorkspace) : CollectionStep → Option SharedWorkspace
  | .collect liveWriters =>
    if s.collection.isNone then
      some { s with collection := some ⟨s.cutoff, liveWriters, .started⟩ }
    else none
  | .scan =>
    match s.collection with
    | some ⟨cutoff, live, .started⟩ => some (s.withPhase ⟨cutoff, live, .started⟩ (.scanning s.workspace.markers))
    | _ => none
  | .list seen =>
    match s.collection with
    | some ⟨cutoff, live, .scanning there⟩ =>
      if there ⊆ seen then some (s.withPhase ⟨cutoff, live, .scanning there⟩ (.listed seen)) else none
    | _ => none
  | .drop m =>
    match s.collection with
    | some ⟨cutoff, live, .listed seen⟩ =>
      if m ∈ seen ∧ s.workspace.isCandidate m = true then
        some ((s.withMarkers m (s.workspace.markers.filter fun other => other ≠ m)).withPhase
          ⟨cutoff, live, .listed seen⟩ (.listed (seen.filter fun other => other ≠ m)))
      else none
    | _ => none
  | .consult =>
    match s.collection with
    | some ⟨cutoff, live, .listed seen⟩ => some (s.withPhase ⟨cutoff, live, .listed seen⟩
        (.referenced (s.workspace.referencedSegments env seen)))
    | _ => none
  | .unlink key =>
    match s.collection with
    | some ⟨some cutoff, live, .referenced segments⟩ =>
      match s.journal.file key with
      | some f =>
        if key.writer ∉ live ∧ key ∉ segments ∧ f.modified ≤ cutoff ∧ f.owned = true then
          some { s.withJournal (s.journal.restrict fun e => e.fst ≠ key) with removed := key :: s.removed }
        else none
      | none => none
    | _ => none
  | .finish => if s.collection.isSome then some { s with collection := none } else none
  | _ => none

/-- **One step.** -/
def next (s : SharedWorkspace) (a : CollectionStep) : Option SharedWorkspace :=
  match a with
  | .tick seconds => if 0 ≤ seconds then some { s with clock := s.clock + seconds } else none
  | .collect _ | .scan | .list _ | .drop _ | .consult | .unlink _ | .finish => s.nextCollection env a
  | _ => s.nextPublisher env a

/-- **The runs**, from any workspace in which nothing goes on. -/
def collectionRuns : System SharedWorkspace CollectionStep :=
  System.ofNext (fun s => (∀ p ∈ s.publishers, p = none) ∧ s.collection = none ∧ s.removed = [])
    (next env)

end Steps

/-! ## What is kept -/

/-- A marker, or the ledger of a sealed transfer, refers to a frame. -/
def Names (s : SharedWorkspace) (reference : PyStr) : Prop :=
  (∃ m ∈ s.workspace.markers, m.recordRef = reference)
    ∨ ∃ ledger ∈ s.workspace.ledgers, StoredWorkspace.ledgerReference ledger = some reference

def Stays (removed : List SegmentKey) (reference : PyStr) : Prop :=
  ∀ key, segmentOf reference = some key → key ∉ removed

/-- **No segment was removed that something refers to.** -/
def Kept (s : SharedWorkspace) : Prop := ∀ reference, s.Names reference → Stays s.removed reference

def Finished (s : SharedWorkspace) : Prop :=
  s.collection = none ∧ ∀ p ∈ s.publishers, p = none

def Young (journal : SegmentStore) (cutoff : Rat) (reference : PyStr) : Prop :=
  ∀ key, segmentOf reference = some key → ∀ f, journal.file key = some f → cutoff < f.modified

/-- **A process is younger than a cutoff**: it wrote to its segment after it, and what it has in
flight lies in such segments. -/
structure Recent (journal : SegmentStore) (cutoff : Rat) (p : Publisher) : Prop where
  writer : ∀ writer, p.writer = some writer →
    ∀ f, journal.file ⟨writer.writerId, writer.segmentNumber⟩ = some f → cutoff < f.modified
  held : ∀ reference ∈ p.held, Young journal cutoff reference

/-- **No step leaves a frame in flight that is older than a cutoff**: a collection starts where
all processes are younger than its cutoff; what is written meanwhile is stamped after it, and
a marker that is moved into a bundle meanwhile has its frame in such a segment. -/
def InFlightYoung (s : SharedWorkspace) : CollectionStep → Prop
  | .collect _ => ∀ c, s.cutoff = some c → ∀ p, some p ∈ s.publishers → Recent s.journal c p
  | .openWriter _ _ _ | .append _ _ =>
    ∀ run c, s.collection = some run → run.cutoff = some c → c < s.clock
  | .embed _ m => ∀ run c, s.collection = some run → run.cutoff = some c →
    Young s.journal c m.recordRef
  | _ => True

instance (journal : SegmentStore) (cutoff : Rat) (reference : PyStr) : Decidable (Young journal cutoff reference) :=
  inferInstanceAs (Decidable (∀ key ∈ segmentOf reference, ∀ f ∈ journal.file key, cutoff < f.modified))

instance (journal : SegmentStore) (cutoff : Rat) (p : Publisher) : Decidable (Recent journal cutoff p) :=
  have : Decidable (∀ writer, p.writer = some writer →
      ∀ f, journal.file ⟨writer.writerId, writer.segmentNumber⟩ = some f → cutoff < f.modified) :=
    inferInstanceAs (Decidable (∀ writer ∈ p.writer,
      ∀ f ∈ journal.file ⟨writer.writerId, writer.segmentNumber⟩, cutoff < f.modified))
  decidable_of_iff _ ⟨fun h => ⟨h.1, h.2⟩, fun h : Recent journal cutoff p => And.intro h.writer h.held⟩

instance (s : SharedWorkspace) : (a : CollectionStep) → Decidable (s.InFlightYoung a)
  | .collect _ =>
    decidable_of_iff (∀ c ∈ s.cutoff, ∀ x ∈ s.publishers, ∀ p ∈ x, Recent s.journal c p)
      ⟨fun h c hc p hp => h c hc _ hp p rfl, fun h c hc _ hx p hp => h c hc p (hp ▸ hx)⟩
  | .openWriter _ _ _ | .append _ _ =>
    decidable_of_iff (∀ run ∈ s.collection, ∀ c ∈ run.cutoff, c < s.clock)
      ⟨fun h run c hrun hc => h run hrun c hc, fun h run hrun c hc => h run c hrun hc⟩
  | .embed _ m =>
    decidable_of_iff (∀ run ∈ s.collection, ∀ c ∈ run.cutoff, Young s.journal c m.recordRef)
      ⟨fun h run c hrun hc => h run hrun c hc, fun h run hrun c hc => h run c hrun hc⟩
  | .tick _ | .publish _ _ | .repoint _ _ _ | .quarantine _ | .writeLedger _ | .leave _ | .scan | .list _ | .drop _
  | .consult | .unlink _ | .finish => isTrue trivial

/-! ## The invariant -/

/-- A process whose writer is where it should be. -/
structure PublisherIn (journal : SegmentStore) (removed : List SegmentKey) (p : Publisher) : Prop where
  writerIn : ∀ writer, p.writer = some writer → WriterIn journal writer
  unremoved : ∀ writer, p.writer = some writer →
    ∀ n, writer.segmentNumber ≤ n → (⟨writer.writerId, n⟩ : SegmentKey) ∉ removed
  stays : ∀ reference ∈ p.held, Stays removed reference
  current : ∀ writer reference, p = .appended writer reference →
    segmentOf reference = some ⟨writer.writerId, writer.segmentNumber⟩

/-- What a collection has not seen is young. -/
def Covered (s : SharedWorkspace) (cutoff : Rat) : CollectionPhase → Prop
  | .started => True
  | .scanning there | .listed there =>
    ∀ m ∈ s.workspace.markers, m ∈ there ∨ Young s.journal cutoff m.recordRef
  | .referenced segments => ∀ reference, s.Names reference →
    (∀ key, segmentOf reference = some key → key ∈ segments) ∨ Young s.journal cutoff reference

/-- **What holds in every state.** -/
structure Sound (s : SharedWorkspace) : Prop where
  kept : s.Kept
  publishers : ∀ (i : ℕ) (p : Publisher), s.publishers[i]? = some (some p) →
    PublisherIn s.journal s.removed p
  distinct : ∀ (i j : ℕ) (p q : Publisher), s.publishers[i]? = some (some p) → s.publishers[j]? = some (some q) → i ≠ j →
    ∀ writer writer', p.writer = some writer → q.writer = some writer' →
      writer.writerId ≠ writer'.writerId
  recent : ∀ run c, s.collection = some run → run.cutoff = some c →
    (∀ (i : ℕ) (p : Publisher), s.publishers[i]? = some (some p) → Recent s.journal c p)
      ∧ s.Covered c run.phase

/-! ## Segments that are written -/

section Written

variable {journal : SegmentStore} {cutoff clock : Rat} {writer : JournalWriter} {reference : PyStr}
variable {removed : List SegmentKey} {p : Publisher}

theorem Young.published (h : Young journal cutoff reference) (hclock : cutoff < clock) :
    Young (published journal writer clock) cutoff reference := by
  intro key hkey f hf
  rw [file_published] at hf
  split_ifs at hf
  · rw [← Option.some.inj hf]
    exact hclock
  · exact h key hkey f hf

theorem Recent.published (h : Recent journal cutoff p) (hclock : cutoff < clock) :
    Recent (published journal writer clock) cutoff p where
  writer := by
    intro writer' hwriter f hf
    rw [file_published] at hf
    split_ifs at hf
    · rw [← Option.some.inj hf]
      exact hclock
    · exact h.writer writer' hwriter f hf
  held := fun reference hreference => (h.held reference hreference).published hclock

theorem Young.restrict (h : Young journal cutoff reference) (keep : SegmentKey × SegmentFile → Bool) :
    Young (journal.restrict keep) cutoff reference :=
  fun key hkey f hf => h key hkey f (file_restrict.mp hf).1

theorem Recent.restrict (h : Recent journal cutoff p) (keep : SegmentKey × SegmentFile → Bool) :
    Recent (journal.restrict keep) cutoff p where
  writer := fun writer hwriter f hf => h.writer writer hwriter f (file_restrict.mp hf).1
  held := fun reference hreference => (h.held reference hreference).restrict keep

theorem PublisherIn.published (h : PublisherIn journal removed p)
    (hother : ∀ writer', p.writer = some writer' → writer'.writerId ≠ writer.writerId) :
    PublisherIn (published journal writer clock) removed p where
  writerIn := by
    intro writer' hwriter'
    have hin := h.writerIn writer' hwriter'
    have hkey : ∀ n m, (⟨writer'.writerId, n⟩ : SegmentKey) ≠ ⟨writer.writerId, m⟩ := fun n m heq =>
      hother writer' hwriter' (congrArg SegmentKey.writer heq)
    obtain ⟨f, hf, hbytes⟩ := hin.held
    refine ⟨hin.id, hin.number, hin.header, ⟨f, ?_, hbytes⟩, fun n hn => ?_⟩
    · rw [file_published, if_neg (hkey _ _), hf]
    · rw [file_published, if_neg (hkey _ _), hin.last n hn]
  unremoved := h.unremoved
  stays := h.stays
  current := h.current

end Written

section Sound

variable {env : JournalEnv Record} {s s' : SharedWorkspace} {cutoff : Rat} {phase : CollectionPhase}

/-! ## What is covered -/

theorem Covered.published {writer : JournalWriter} (h : s.Covered cutoff phase) (hclock : cutoff < s.clock) :
    (s.withJournal (published s.journal writer s.clock)).Covered cutoff phase := by
  cases phase with
  | started => trivial
  | scanning there => exact fun m hm => (h m hm).imp_right fun hyoung => hyoung.published hclock
  | listed there => exact fun m hm => (h m hm).imp_right fun hyoung => hyoung.published hclock
  | referenced segments =>
    exact fun reference hnames => (h reference hnames).imp_right fun hyoung => hyoung.published hclock

theorem Covered.mono (h : s.Covered cutoff phase) (hjournal : s'.journal = s.journal)
    (hmarkers : ∀ m ∈ s'.workspace.markers, m ∈ s.workspace.markers ∨ Young s.journal cutoff m.recordRef)
    (hnames : ∀ reference, s'.Names reference → s.Names reference ∨ Young s.journal cutoff reference) :
    s'.Covered cutoff phase := by
  cases phase with
  | started => trivial
  | scanning there | listed there =>
    intro m hm
    rw [hjournal]
    rcases hmarkers m hm with hold | hyoung
    · exact h m hold
    · exact Or.inr hyoung
  | referenced segments =>
    intro reference hreference
    rw [hjournal]
    rcases hnames reference hreference with hold | hyoung
    · exact h reference hold
    · exact Or.inr hyoung

theorem Covered.forget {gone : StateMarker} (h : s.Covered cutoff phase) (hjournal : s'.journal = s.journal)
    (hmarkers : ∀ m ∈ s'.workspace.markers, m ∈ s.workspace.markers ∧ m ≠ gone ∨ Young s.journal cutoff m.recordRef)
    (hnames : ∀ reference, s'.Names reference → s.Names reference ∨ Young s.journal cutoff reference) :
    s'.Covered cutoff (phase.forget gone) := by
  cases phase with
  | scanning there =>
    intro m hm
    rw [hjournal]
    rcases hmarkers m hm with ⟨hold, hne⟩ | hyoung
    · exact (h m hold).imp_left fun hthere => List.mem_filter.mpr ⟨hthere, decide_eq_true hne⟩
    · exact Or.inr hyoung
  | started | listed there | referenced segments =>
    exact Covered.mono h hjournal (fun m hm => (hmarkers m hm).imp_left And.left) hnames

/-! ## Steps of the processes -/

attribute [local simp] SharedWorkspace.nextPublisher

variable {x : Option Publisher}

theorem slot_set {l : List (Option Publisher)} {i j : ℕ} {p : Publisher}
    (h : (l.set i x)[j]? = some (some p)) : j = i ∧ x = some p ∨ j ≠ i ∧ l[j]? = some (some p) := by
  rw [List.getElem?_set] at h
  split_ifs at h with hi hlength
  · exact Or.inl ⟨hi.symm, Option.some.inj h⟩
  · exact Or.inr ⟨fun heq => hi heq.symm, h⟩

variable {i : ℕ}

theorem Sound.write (hs : s.Sound) {writer : JournalWriter} {p : Publisher} (hwriter : p.writer = some writer)
    (hother : ∀ (j : ℕ) (q : Publisher), s.publishers[j]? = some (some q) → j ≠ i →
      ∀ writer', q.writer = some writer' → writer'.writerId ≠ writer.writerId)
    (hp : PublisherIn (published s.journal writer s.clock) s.removed p)
    (hheld : ∀ reference ∈ p.held, segmentOf reference = some ⟨writer.writerId, writer.segmentNumber⟩)
    (hclock : ∀ run c, s.collection = some run → run.cutoff = some c → c < s.clock) :
    ((s.withJournal (published s.journal writer s.clock)).withPublisher i (some p)).Sound where
  kept := hs.kept
  publishers := by
    intro j q hq
    rcases slot_set hq with ⟨-, hq⟩ | ⟨hne, hq⟩
    · exact Option.some.inj hq ▸ hp
    · exact (hs.publishers j q hq).published (hother j q hq hne)
  distinct := by
    intro j k q r hq hr hjk writer' writer'' hwriter' hwriter''
    rcases slot_set hq with ⟨hj, hq⟩ | ⟨hj, hq⟩ <;> rcases slot_set hr with ⟨hk, hr⟩ | ⟨hk, hr⟩
    · exact absurd (hj.trans hk.symm) hjk
    · obtain rfl := Option.some.inj (hwriter.symm.trans (Option.some.inj hq ▸ hwriter'))
      exact (hother k r hr hk writer'' hwriter'').symm
    · obtain rfl := Option.some.inj (hwriter.symm.trans (Option.some.inj hr ▸ hwriter''))
      exact hother j q hq hj writer' hwriter'
    · exact hs.distinct j k q r hq hr hjk writer' writer'' hwriter' hwriter''
  recent := by
    intro run c hrun hc
    have hlater := hclock run c hrun hc
    obtain ⟨hrecent, hcovered⟩ := hs.recent run c hrun hc
    have hyoung : ∀ f, (published s.journal writer s.clock).file
        ⟨writer.writerId, writer.segmentNumber⟩ = some f → c < f.modified := by
      intro f hf
      rw [file_published, if_pos rfl] at hf
      rw [← Option.some.inj hf]
      exact hlater
    refine ⟨fun j q hq => ?_, hcovered.published hlater⟩
    rcases slot_set hq with ⟨-, hq⟩ | ⟨-, hq⟩
    · obtain rfl := Option.some.inj hq
      refine ⟨fun writer' hwriter' f hf => ?_, fun reference hreference key hkey f hf => ?_⟩
      · obtain rfl := Option.some.inj (hwriter.symm.trans hwriter')
        exact hyoung f hf
      · rw [hheld reference hreference] at hkey
        exact hyoung f (Option.some.inj hkey ▸ hf)
    · exact (hrecent j q hq).published hlater

theorem Sound.move (hs : s.Sound) (hjournal : s'.journal = s.journal)
    (hremoved : s'.removed = s.removed) (hpublishers : s'.publishers = s.publishers.set i x)
    (hnames : ∀ reference, s'.Names reference → Stays s.removed reference)
    (hp : ∀ p, x = some p → PublisherIn s.journal s.removed p ∧ (∀ writer, p.writer = some writer →
        ∃ q, s.publishers[i]? = some (some q) ∧ q.writer = some writer)
      ∧ ∀ run c, s.collection = some run → run.cutoff = some c → Recent s.journal c p)
    (hcovered : ∀ run' c, s'.collection = some run' → run'.cutoff = some c →
      ∃ run, s.collection = some run ∧ run.cutoff = some c
        ∧ (s.Covered c run.phase → s'.Covered c run'.phase)) : s'.Sound where
  kept := by
    intro reference hreference
    rw [hremoved]
    exact hnames reference hreference
  publishers := by
    intro j q hq
    rw [hpublishers] at hq
    rw [hjournal, hremoved]
    rcases slot_set hq with ⟨-, hq⟩ | ⟨-, hq⟩
    · exact (hp q hq).1
    · exact hs.publishers j q hq
  distinct := by
    -- the writers are those of before, in the slots of before
    have hold : ∀ (j : ℕ) (q : Publisher) writer, s'.publishers[j]? = some (some q) →
        q.writer = some writer → ∃ q' : Publisher, s.publishers[j]? = some (some q') ∧ q'.writer = some writer := by
      intro j q writer hq hwriter
      rw [hpublishers] at hq
      rcases slot_set hq with ⟨rfl, hx⟩ | ⟨-, hq⟩
      · exact (hp q hx).2.1 writer hwriter
      · exact ⟨q, hq, hwriter⟩
    intro j k q r hq hr hjk writer writer' hwriter hwriter'
    obtain ⟨q', hq', hwriter⟩ := hold j q writer hq hwriter
    obtain ⟨r', hr', hwriter'⟩ := hold k r writer' hr hwriter'
    exact hs.distinct j k q' r' hq' hr' hjk writer writer' hwriter hwriter'
  recent := by
    intro run' c hrun' hc'
    obtain ⟨run, hrun, hc, hphase⟩ := hcovered run' c hrun' hc'
    obtain ⟨hrecent, hcovers⟩ := hs.recent run c hrun hc
    refine ⟨fun j q hq => ?_, hphase hcovers⟩
    rw [hpublishers] at hq
    rw [hjournal]
    rcases slot_set hq with ⟨-, hq⟩ | ⟨-, hq⟩
    · exact (hp q hq).2.2 run c hrun hc
    · exact hrecent j q hq

variable {reference : PyStr} {run : CollectionRun}

theorem Sound.young_appended (hs : s.Sound) {writer : JournalWriter}
    (hslot : s.publishers[i]? = some (some (.appended writer reference)))
    {c : Rat} (hrun : s.collection = some run) (hc : run.cutoff = some c) :
    Young s.journal c reference :=
  ((hs.recent run c hrun hc).1 i _ hslot).held reference List.mem_cons_self

theorem PublisherIn.published_marker {journal : SegmentStore} {removed : List SegmentKey} {writer : JournalWriter}
    (h : PublisherIn journal removed (.appended writer reference)) :
    PublisherIn journal removed (.writing writer) where
  writerIn := h.writerIn
  unremoved := h.unremoved
  stays := fun _ hreference => by cases hreference
  current := fun _ _ heq => by cases heq

theorem Recent.published_marker {journal : SegmentStore} {writer : JournalWriter}
    (h : Recent journal cutoff (.appended writer reference)) : Recent journal cutoff (.writing writer) where
  writer := h.writer
  held := fun _ hreference => by cases hreference

variable {a : CollectionStep}

/-- What a workspace refers to when a marker is gone it referred to before. -/
theorem names_of_filter {m : StateMarker} {named : PyStr}
    (h : (s.withMarkers m (s.workspace.markers.filter fun other => other ≠ m)).Names named) : s.Names named := by
  rcases h with ⟨m', hm', rfl⟩ | hledger
  · exact Or.inl ⟨m', (List.mem_filter.mp hm').1, rfl⟩
  · exact Or.inr hledger

theorem Sound.openWriter {id : List Char} {maximum : ℕ} (hs : s.Sound) (hyoung : s.InFlightYoung (.openWriter i id maximum))
    (h : s.nextPublisher env (.openWriter i id maximum) = some s') : s'.Sound := by
  rw [SharedWorkspace.nextPublisher] at h
  split_ifs at h with hcond
  obtain ⟨-, hid, hnew⟩ := hcond
  obtain rfl := Option.some.inj h
  rw [knownWriters, List.mem_append, not_or] at hnew
  have hunused : ∀ n, s.journal.file ⟨id, n⟩ = none := fun n =>
    Option.eq_none_iff_forall_ne_some.mpr fun f hf =>
      hnew.1 (List.mem_map.mpr ⟨_, file_eq_some_iff.mp hf, rfl⟩)
  have hwriter : (Publisher.writing (JournalWriter.start id maximum)).writer
      = some (JournalWriter.start id maximum) := rfl
  refine hs.write hwriter (fun j q hq _ writer' hwriter' heq => ?_)
    ⟨?_, ?_, ?_, ?_⟩ (fun _ hreference => by cases hreference) hyoung
  · obtain ⟨f, hf, -⟩ := ((hs.publishers j q hq).writerIn writer' hwriter').held
    rw [heq] at hf
    exact absurd (hf.symm.trans (hunused _)) (Option.some_ne_none f)
  · rintro writer' ⟨⟩
    exact writerIn_start hid hunused
  · rintro writer' ⟨⟩ n - hremoved
    exact hnew.2 (List.mem_map.mpr ⟨_, hremoved, rfl⟩)
  · exact fun _ hreference => by cases hreference
  · exact fun _ _ heq => by cases heq

theorem Sound.append {record : Record} (hs : s.Sound) (hyoung : s.InFlightYoung (.append i record))
    (h : s.nextPublisher env (.append i record) = some s') : s'.Sound := by
  rw [SharedWorkspace.nextPublisher] at h
  split at h
  · rename_i writer hslot
    split at h
    · rename_i writer' r happend
      have hin := hs.publishers i _ hslot
      have hwriter := hin.writerIn writer rfl
      obtain ⟨hid, hle, hsegment⟩ := hwriter.segmentOf_append happend
      obtain ⟨f, hf, -⟩ := hwriter.held
      -- the file is there, as the segment of a process at work is not removed
      rw [if_neg (fun hgone => by rw [hf] at hgone; cases hgone.2)] at h
      obtain rfl := Option.some.inj h
      have hslot' : (Publisher.appended writer' r.reference).writer = some writer' := rfl
      refine hs.write hslot' (fun j q hq hne writer'' hwriter'' => ?_) ⟨?_, ?_, ?_, ?_⟩ ?_ hyoung
      · rw [hid]
        exact hs.distinct j i q _ hq hslot hne writer'' writer hwriter'' rfl
      · rintro writer'' ⟨⟩
        exact (hwriter.append happend).2.2
      · rintro writer'' ⟨⟩ n hn
        rw [hid]
        exact hin.unremoved writer rfl n (hle.trans hn)
      · intro reference hreference key hkey
        rw [List.mem_singleton.mp hreference, hsegment] at hkey
        rw [← Option.some.inj hkey, hid]
        exact hin.unremoved writer rfl _ hle
      · rintro _ _ ⟨⟩
        exact hsegment
      · intro reference hreference
        rw [List.mem_singleton.mp hreference]
        exact hsegment
    · cases h
  · cases h

theorem Sound.publish {m : StateMarker} (hs : s.Sound)
    (h : s.nextPublisher env (.publish i m) = some s') : s'.Sound := by
  rw [SharedWorkspace.nextPublisher] at h
  split at h
  · rename_i writer reference hslot
    split_ifs at h with hreference
    obtain rfl := Option.some.inj h
    have hin := hs.publishers i _ hslot
    refine hs.move (x := some (.writing writer)) rfl rfl rfl ?_ ?_ ?_
    · rintro named (⟨m', hm', rfl⟩ | hledger)
      · rcases List.mem_cons.mp hm' with rfl | hm'
        · exact hreference ▸ hin.stays reference List.mem_cons_self
        · exact hs.kept _ (Or.inl ⟨m', hm', rfl⟩)
      · exact hs.kept named (Or.inr hledger)
    · rintro p ⟨⟩
      exact ⟨hin.published_marker, fun writer' hwriter' => ⟨_, hslot, hwriter'⟩,
        fun run c hrun hc => ((hs.recent run c hrun hc).1 i _ hslot).published_marker⟩
    · intro run c hrun hc
      have hnew := hreference ▸ hs.young_appended hslot hrun hc
      refine ⟨run, hrun, hc, fun hcovered => hcovered.mono rfl (fun m' hm' => ?_) ?_⟩
      · rcases List.mem_cons.mp hm' with rfl | hm'
        · exact Or.inr hnew
        · exact Or.inl hm'
      · rintro named (⟨m', hm', rfl⟩ | hledger)
        · rcases List.mem_cons.mp hm' with rfl | hm'
          · exact Or.inr hnew
          · exact Or.inl (Or.inl ⟨m', hm', rfl⟩)
        · exact Or.inl (Or.inr hledger)
  · cases h

theorem Sound.repoint {m m' : StateMarker} (hs : s.Sound)
    (h : s.nextPublisher env (.repoint i m m') = some s') : s'.Sound := by
  rw [SharedWorkspace.nextPublisher] at h
  split at h
  · rename_i writer reference hslot
    split_ifs at h with hcond
    obtain ⟨-, hreference⟩ := hcond
    obtain rfl := Option.some.inj h
    have hin := hs.publishers i _ hslot
    have hmarkers : ∀ m'' ∈ s.workspace.markers.map (fun other => if other = m then m' else other),
        m'' ∈ s.workspace.markers ∧ m'' ≠ m ∨ m''.recordRef = reference := by
      intro m'' hm''
      obtain ⟨other, hother, rfl⟩ := List.mem_map.mp hm''
      split_ifs with heq
      · exact Or.inr hreference
      · exact Or.inl ⟨hother, heq⟩
    refine hs.move (x := some (.writing writer)) rfl rfl rfl ?_ ?_ ?_
    · rintro named (⟨m'', hm'', rfl⟩ | hledger)
      · rcases hmarkers m'' hm'' with ⟨hold, -⟩ | hnew
        · exact hs.kept _ (Or.inl ⟨m'', hold, rfl⟩)
        · exact hnew ▸ hin.stays reference List.mem_cons_self
      · exact hs.kept named (Or.inr hledger)
    · rintro p ⟨⟩
      exact ⟨hin.published_marker, fun writer' hwriter' => ⟨_, hslot, hwriter'⟩,
        fun run c hrun hc => ((hs.recent run c hrun hc).1 i _ hslot).published_marker⟩
    · intro run' c hrun' hc
      obtain ⟨run, hrun, rfl⟩ := Option.map_eq_some_iff.mp hrun'
      have hnew := hs.young_appended hslot hrun hc
      refine ⟨run, hrun, hc, fun hcovered => hcovered.forget rfl (fun m'' hm'' => ?_) ?_⟩
      · rcases hmarkers m'' hm'' with hold | heq
        · exact Or.inl hold
        · exact Or.inr (heq ▸ hnew)
      · rintro named (⟨m'', hm'', rfl⟩ | hledger)
        · rcases hmarkers m'' hm'' with ⟨hold, -⟩ | heq
          · exact Or.inl (Or.inl ⟨m'', hold, rfl⟩)
          · exact Or.inr (heq ▸ hnew)
        · exact Or.inl (Or.inr hledger)
  · cases h

theorem Sound.quarantine {m : StateMarker} (hs : s.Sound)
    (h : s.nextPublisher env (.quarantine m) = some s') : s'.Sound := by
  rw [SharedWorkspace.nextPublisher] at h
  obtain rfl := Option.some.inj h
  have hset : s.publishers = s.publishers.set s.publishers.length none :=
    (List.set_eq_of_length_le le_rfl).symm
  refine hs.move rfl rfl hset (fun named hnamed => hs.kept named (names_of_filter hnamed))
    (fun p hp => by cases hp) ?_
  intro run' c hrun' hc
  obtain ⟨run, hrun, rfl⟩ := Option.map_eq_some_iff.mp hrun'
  exact ⟨run, hrun, hc, fun hcovered => hcovered.forget rfl
    (fun m' hm' => Or.inl ⟨(List.mem_filter.mp hm').1, of_decide_eq_true (List.mem_filter.mp hm').2⟩)
    fun named hnamed => Or.inl (names_of_filter hnamed)⟩

theorem Sound.embed {m : StateMarker} (hs : s.Sound) (hyoung : s.InFlightYoung (.embed i m))
    (h : s.nextPublisher env (.embed i m) = some s') : s'.Sound := by
  rw [SharedWorkspace.nextPublisher] at h
  split_ifs at h with hcond
  obtain ⟨-, hm, -, hname⟩ := hcond
  obtain rfl := Option.some.inj h
  have hheld : ∀ reference ∈ (Publisher.embedded m).held, reference = m.recordRef := by
    intro reference hreference
    rw [Publisher.held, hname] at hreference
    exact List.mem_singleton.mp hreference
  refine hs.move (x := some (.embedded m)) rfl rfl rfl
    (fun named hnamed => hs.kept named (names_of_filter hnamed)) ?_ ?_
  · rintro p ⟨⟩
    refine ⟨⟨?_, ?_, fun reference hreference => ?_, ?_⟩, ?_, fun run c hrun hc => ⟨?_, ?_⟩⟩
    · exact fun _ hwriter => by cases hwriter
    · exact fun _ hwriter => by cases hwriter
    · exact hheld reference hreference ▸ hs.kept _ (Or.inl ⟨m, hm, rfl⟩)
    · exact fun _ _ heq => by cases heq
    · exact fun _ hwriter => by cases hwriter
    · exact fun _ hwriter => by cases hwriter
    · exact fun reference hreference => hheld reference hreference ▸ hyoung run c hrun hc
  · intro run' c hrun' hc
    obtain ⟨run, hrun, rfl⟩ := Option.map_eq_some_iff.mp hrun'
    exact ⟨run, hrun, hc, fun hcovered => hcovered.forget rfl
      (fun m' hm' => Or.inl ⟨(List.mem_filter.mp hm').1,
        of_decide_eq_true (List.mem_filter.mp hm').2⟩)
      fun named hnamed => Or.inl (names_of_filter hnamed)⟩

theorem Sound.writeLedger (hs : s.Sound)
    (h : s.nextPublisher env (.writeLedger i) = some s') : s'.Sound := by
  rw [SharedWorkspace.nextPublisher] at h
  split at h
  · rename_i m hslot
    obtain rfl := Option.some.inj h
    have hheld : ∀ named, StoredWorkspace.ledgerReference (some (sealedLedger m)) = some named →
        named ∈ (Publisher.embedded m).held := fun named hnamed => Option.mem_toList.mpr hnamed
    have hnames : ∀ named, ({ s with workspace := { s.workspace with
        ledgers := some (sealedLedger m) :: s.workspace.ledgers } } : SharedWorkspace).Names named →
        s.Names named ∨ named ∈ (Publisher.embedded m).held := by
      rintro named (hmarker | ⟨ledger, hledger, hnamed⟩)
      · exact Or.inl (Or.inl hmarker)
      · rcases List.mem_cons.mp hledger with rfl | hledger
        · exact Or.inr (hheld named hnamed)
        · exact Or.inl (Or.inr ⟨ledger, hledger, hnamed⟩)
    refine hs.move (x := none) rfl rfl rfl (fun named hnamed => ?_) (fun p hp => by cases hp) ?_
    · rcases hnames named hnamed with hold | hheld
      · exact hs.kept named hold
      · exact (hs.publishers i _ hslot).stays named hheld
    · intro run c hrun hc
      refine ⟨run, hrun, hc, fun hcovered => hcovered.mono rfl (fun _ => Or.inl) fun named hnamed => ?_⟩
      exact (hnames named hnamed).imp_right fun hheld =>
        ((hs.recent run c hrun hc).1 i _ hslot).held named hheld
  · cases h

theorem Sound.leave (hs : s.Sound)
    (h : s.nextPublisher env (.leave i) = some s') : s'.Sound := by
  have hgone : s' = s.withPublisher i none := by
    rw [SharedWorkspace.nextPublisher] at h
    split at h
    · exact (Option.some.inj h).symm
    · exact (Option.some.inj h).symm
    · cases h
  rw [hgone]
  exact hs.move rfl rfl rfl hs.kept (fun p hp => by cases hp)
    fun run c hrun hc => ⟨run, hrun, hc, id⟩

/-- **A step of a process keeps the invariant.** -/
theorem Sound.nextPublisher (hs : s.Sound) (hyoung : s.InFlightYoung a)
    (h : s.nextPublisher env a = some s') : s'.Sound := by
  cases a with
  | openWriter _ _ _ => exact hs.openWriter hyoung h
  | append _ _ => exact hs.append hyoung h
  | publish _ _ => exact hs.publish h
  | repoint _ _ _ => exact hs.repoint h
  | quarantine _ => exact hs.quarantine h
  | embed _ _ => exact hs.embed hyoung h
  | writeLedger _ => exact hs.writeLedger h
  | leave _ => exact hs.leave h
  | _ => simp at h

/-! ## Steps of a collection -/

theorem Sound.proceed (hs : s.Sound) (hrun : s.collection = some run) {phase : CollectionPhase}
    (hcovered : ∀ c, run.cutoff = some c → s.Covered c run.phase → s.Covered c phase) :
    (s.withPhase run phase).Sound where
  kept := hs.kept
  publishers := hs.publishers
  distinct := hs.distinct
  recent := by
    intro run' c hrun' hc
    obtain rfl := Option.some.inj hrun'
    obtain ⟨hrecent, hcovers⟩ := hs.recent run c hrun hc
    exact ⟨hrecent, hcovered c hc hcovers⟩

variable {key : SegmentKey}

theorem mem_referenced_names {seen : List StateMarker} (hkey : segmentOf reference = some key)
    (h : (∃ m ∈ seen, m.recordRef = reference)
      ∨ ∃ ledger ∈ s.workspace.ledgers, StoredWorkspace.ledgerReference ledger = some reference) :
    key ∈ s.workspace.referencedSegments env seen := by
  rcases h with ⟨m, hm, rfl⟩ | ⟨ledger, hledger, hreference⟩
  · have hinit : m.recordRef ≠ "init" := fun hinit => by
      rw [hinit] at hkey
      cases hkey
    exact StoredWorkspace.mem_referenced_marker hm hinit (StoredWorkspace.mem_protects hkey)
  · exact StoredWorkspace.mem_referenced_ledger hledger hreference (StoredWorkspace.mem_protects hkey)

theorem Sound.unlink (hs : s.Sound) (hrun : s.collection = some run) {c : Rat}
    (hc : run.cutoff = some c) {segments : List SegmentKey} (hphase : run.phase = .referenced segments)
    {f : SegmentFile} (hf : s.journal.file key = some f) (hkey : key ∉ segments)
    (haged : f.modified ≤ c) :
    ({ s.withJournal (s.journal.restrict fun e => e.fst ≠ key) with
      removed := key :: s.removed } : SharedWorkspace).Sound := by
  obtain ⟨hrecent, hcovered⟩ := hs.recent run c hrun hc
  rw [hphase] at hcovered
  have hyoung : ∀ reference, Young s.journal c reference → segmentOf reference ≠ some key :=
    fun reference h hsegment => absurd (h key hsegment f hf) (not_lt.mpr haged)
  have hnamed : ∀ reference, s.Names reference → segmentOf reference ≠ some key := by
    intro reference hnames hsegment
    rcases hcovered reference hnames with hmem | h
    · exact hkey (hmem key hsegment)
    · exact hyoung reference h hsegment
  have hstays : ∀ reference, Stays s.removed reference → segmentOf reference ≠ some key →
      Stays (key :: s.removed) reference := by
    intro reference h hne key' hkey' hmem
    rcases List.mem_cons.mp hmem with rfl | hmem
    · exact hne hkey'
    · exact h key' hkey' hmem
  refine ⟨fun reference hnames => hstays reference (hs.kept reference hnames) (hnamed reference hnames),
    fun i p hp => ?_, hs.distinct, fun run' c' hrun' hc' => ?_⟩
  · have hin := hs.publishers i p hp
    have hpr := hrecent i p hp
    have hcurrent : ∀ writer, p.writer = some writer →
        (⟨writer.writerId, writer.segmentNumber⟩ : SegmentKey) ≠ key := by
      rintro writer hwriter rfl
      exact absurd (hpr.writer writer hwriter f hf) (not_lt.mpr haged)
    refine ⟨fun writer hwriter => ?_, fun writer hwriter n hn hmem => ?_, fun reference hreference => ?_,
      hin.current⟩
    · exact (hin.writerIn writer hwriter).restrict fun _ _ => decide_eq_true (hcurrent writer hwriter)
    · rcases List.mem_cons.mp hmem with heq | hmem
      · -- a file with a later number there is not
        rcases Nat.eq_or_lt_of_le hn with rfl | hlt
        · exact hcurrent writer hwriter heq
        · have hnone := (hin.writerIn writer hwriter).last n hlt
          rw [heq, hf] at hnone
          cases hnone
      · exact hin.unremoved writer hwriter n hn hmem
    · exact hstays reference (hin.stays reference hreference)
        (hyoung reference (hpr.held reference hreference))
  · obtain rfl := Option.some.inj (hrun.symm.trans hrun')
    obtain rfl := Option.some.inj (hc.symm.trans hc')
    refine ⟨fun i p hp => (hrecent i p hp).restrict _, ?_⟩
    rw [hphase]
    exact fun reference hnames => (hcovered reference hnames).imp_right fun h => h.restrict _

theorem Sound.nextCollection (hs : s.Sound) (hyoung : s.InFlightYoung a)
    (h : s.nextCollection env a = some s') : s'.Sound := by
  cases a with
  | collect live =>
    rw [SharedWorkspace.nextCollection] at h
    split_ifs at h
    obtain rfl := Option.some.inj h
    refine ⟨hs.kept, hs.publishers, hs.distinct, fun run c hrun hc => ?_⟩
    obtain rfl := Option.some.inj hrun
    exact ⟨fun i p hp => hyoung c hc p (List.mem_of_getElem? hp), trivial⟩
  | scan =>
    rw [SharedWorkspace.nextCollection] at h
    split at h
    · rename_i hrun
      obtain rfl := Option.some.inj h
      exact hs.proceed hrun fun c _ _ m hm => Or.inl hm
    · cases h
  | list seen =>
    rw [SharedWorkspace.nextCollection] at h
    split at h
    · rename_i hrun
      split_ifs at h with hsub
      obtain rfl := Option.some.inj h
      exact hs.proceed hrun fun c _ hcovered m hm => (hcovered m hm).imp_left fun hm => hsub hm
    · cases h
  | drop m =>
    rw [SharedWorkspace.nextCollection] at h
    split at h
    · rename_i cutoff live seen hrun
      split_ifs at h
      obtain rfl := Option.some.inj h
      have hmarkers : ∀ m' ∈ s.workspace.markers.filter (fun other => other ≠ m),
          m' ∈ s.workspace.markers ∧ m' ≠ m := fun m' hm' =>
        ⟨(List.mem_filter.mp hm').1, of_decide_eq_true (List.mem_filter.mp hm').2⟩
      refine ⟨?_, hs.publishers, hs.distinct, fun run c hrun' hc => ?_⟩
      · rintro named (⟨m', hm', rfl⟩ | hledger)
        · exact hs.kept _ (Or.inl ⟨m', (hmarkers m' hm').1, rfl⟩)
        · exact hs.kept named (Or.inr hledger)
      · obtain rfl := Option.some.inj hrun'
        obtain ⟨hrecent, hcovered⟩ := hs.recent _ c hrun hc
        refine ⟨hrecent, fun m' hm' => ?_⟩
        obtain ⟨hold, hne⟩ := hmarkers m' hm'
        exact (hcovered m' hold).imp_left fun hseen =>
          List.mem_filter.mpr ⟨hseen, decide_eq_true hne⟩
    · cases h
  | consult =>
    rw [SharedWorkspace.nextCollection] at h
    split at h
    · rename_i cutoff live seen hrun
      obtain rfl := Option.some.inj h
      refine hs.proceed hrun fun c _ hcovered reference hnames => ?_
      rcases hnames with ⟨m, hm, rfl⟩ | hledger
      · rcases hcovered m hm with hseen | h
        · exact Or.inl fun key hkey => mem_referenced_names hkey (Or.inl ⟨m, hseen, rfl⟩)
        · exact Or.inr h
      · exact Or.inl fun key hkey => mem_referenced_names hkey (Or.inr hledger)
    · cases h
  | unlink key =>
    rw [SharedWorkspace.nextCollection] at h
    split at h
    · rename_i cutoff live segments hrun
      split at h
      · rename_i f hf
        split_ifs at h with hcond
        obtain ⟨-, hkey, haged, -⟩ := hcond
        obtain rfl := Option.some.inj h
        exact hs.unlink hrun rfl rfl hf hkey haged
      · cases h
    · cases h
  | finish =>
    rw [SharedWorkspace.nextCollection] at h
    split_ifs at h
    obtain rfl := Option.some.inj h
    exact ⟨hs.kept, hs.publishers, hs.distinct, fun run c hrun => by cases hrun⟩
  | _ => cases h

/-- **A step keeps the invariant.** -/
theorem Sound.next (hs : s.Sound) (hyoung : s.InFlightYoung a) (h : s.next env a = some s') : s'.Sound := by
  unfold SharedWorkspace.next at h
  split at h
  · split_ifs at h
    obtain rfl := Option.some.inj h
    exact ⟨hs.kept, hs.publishers, hs.distinct, hs.recent⟩
  all_goals first
    | exact hs.nextCollection hyoung h
    | exact hs.nextPublisher hyoung h

/-- **A collection beside writers**: in every run in which no frame in flight is older than the
cutoff, no segment is removed that a marker or a sealed ledger refers to. -/
theorem referenced_kept (hs : ((collectionRuns env).guarded InFlightYoung).Reachable s) : s.Kept := by
  have hsound : s.Sound := by
    refine hs.invariant ?_ fun s a s' _ hI hstep => hI.next hstep.2 hstep.1
    rintro s ⟨hpublishers, hcollection, hremoved⟩
    have hnone : ∀ (i : ℕ) (p : Publisher), s.publishers[i]? ≠ some (some p) := fun i p hp => by
      cases hpublishers _ (List.mem_of_getElem? hp)
    refine ⟨fun reference _ key _ hmem => ?_, fun i p hp => absurd hp (hnone i p),
      fun i j p q hp => absurd hp (hnone i p), fun run c hrun => ?_⟩
    · rw [hremoved] at hmem
      cases hmem
    · rw [hcollection] at hrun
      cases hrun
  exact hsound.kept

end Sound

/-! ## An import without an age to protect it -/

def ageless : SharedWorkspace where
  workspace := { StoredWorkspace.removedWorkspace with
    retention := ⟨none, some 0, none, by decide⟩
    markers := []
    journal := ⟨[], by decide⟩ }
  clock := 0
  publishers := [none]
  collection := none
  removed := []

def overtaken : List CollectionStep :=
  [.openWriter 0 StoredWorkspace.oldWriter 65536, .append 0 StoredWorkspace.readyFrame, .tick 60, .collect [], .scan, .list [], .consult,
    .unlink ⟨StoredWorkspace.oldWriter, 0⟩, .finish,
    .publish 0 { readyMarker untaggedKey with recordRef := StoredWorkspace.oldReference }, .leave 0]

/-- **An import that is overtaken** publishes a marker whose frame is gone. -/
theorem overtaken_removed : ¬∀ (env : JournalEnv Record) (s : SharedWorkspace),
    (collectionRuns env).Reachable s → s.Finished → s.Kept := by
  intro hall
  have hrun : (System.follow (SharedWorkspace.next StoredWorkspace.readyEnv) ageless overtaken).map
      (fun s => (s.removed, s.workspace.markers, s.collection.isNone, s.publishers))
      = some ([⟨StoredWorkspace.oldWriter, 0⟩], [{ readyMarker untaggedKey with recordRef := StoredWorkspace.oldReference }], true,
        [none]) := by
    decide +kernel
  obtain ⟨s, hs, hstate⟩ := Option.map_eq_some_iff.mp hrun
  obtain ⟨hremoved, hmarkers, hcollection, hpublishers⟩ : _ ∧ _ ∧ _ ∧ _ := by
    simpa only [Prod.mk.injEq] using hstate
  have hreach : (collectionRuns StoredWorkspace.readyEnv).Reachable s :=
    (System.run_of_follow hs).reachable (System.Reachable.init ⟨by decide, rfl, rfl⟩)
  have hfinished : s.Finished :=
    ⟨Option.isNone_iff_eq_none.mp hcollection, by rw [hpublishers]; decide⟩
  have hsegment : segmentOf StoredWorkspace.oldReference = some ⟨StoredWorkspace.oldWriter, 0⟩ := by decide +kernel
  have hnames : s.Names StoredWorkspace.oldReference :=
    Or.inl ⟨_, by rw [hmarkers]; exact List.mem_singleton_self _, rfl⟩
  have hkept := hall StoredWorkspace.readyEnv s hreach hfinished StoredWorkspace.oldReference hnames _ hsegment
  rw [hremoved] at hkept
  exact hkept List.mem_cons_self

def aged : SharedWorkspace where
  workspace := { StoredWorkspace.removedWorkspace with
    journal := ⟨[StoredWorkspace.oldSegment, (⟨List.replicate 32 '1', 0⟩, ⟨segmentHeader, 0, true⟩)], by decide⟩
    payloads := [((readyMarker untaggedKey).placement, untaggedKey.text)] }
  clock := 604800
  publishers := [none]
  collection := none
  removed := []

def youngWriter : List Char := List.replicate 32 '2'

def youngReference : PyStr := .ofString
  "w22222222222222222222222222222222-s0-oc-l5a-h00000000000000000000000000000000"

def laterReference : PyStr := .ofString
  "w22222222222222222222222222222222-s0-o6y-l5a-h00000000000000000000000000000000"

/-- A collection removes the empty segment, and nothing that a job refers to: neither the old frame nor those that
a process has in flight, one when the collection starts and one that it appends meanwhile. -/
theorem referenced_kept_aged : ∃ s : SharedWorkspace, s.removed = [⟨List.replicate 32 '1', 0⟩]
    ∧ s.workspace.markers.map StateMarker.recordRef = [laterReference, youngReference, StoredWorkspace.oldReference]
    ∧ s.Kept := by
  have hinit : ((collectionRuns StoredWorkspace.readyEnv).guarded InFlightYoung).Reachable aged :=
    System.Reachable.init ⟨by decide, rfl, rfl⟩
  have hrun : (System.follow (fun s a => if s.InFlightYoung a then s.next StoredWorkspace.readyEnv a else none) aged
      [.openWriter 0 youngWriter 65536, .append 0 StoredWorkspace.readyFrame, .collect [], .scan,
        .list aged.workspace.markers, .publish 0 { readyMarker untaggedKey with recordRef := youngReference },
        .append 0 StoredWorkspace.readyFrame, .consult, .unlink ⟨List.replicate 32 '1', 0⟩, .finish,
        .publish 0 { readyMarker untaggedKey with recordRef := laterReference }, .leave 0]).map
      (fun s => (s.removed, s.workspace.markers.map StateMarker.recordRef))
      = some ([⟨List.replicate 32 '1', 0⟩], [laterReference, youngReference, StoredWorkspace.oldReference]) := by
    decide +kernel
  obtain ⟨s, hs, hstate⟩ := Option.map_eq_some_iff.mp hrun
  obtain ⟨hremoved, hmarkers⟩ := Prod.mk.inj hstate
  exact ⟨s, hremoved, hmarkers, referenced_kept ((System.run_of_follow_guarded hs).reachable hinit)⟩

end SharedWorkspace
