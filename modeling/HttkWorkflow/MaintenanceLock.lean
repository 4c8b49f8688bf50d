import HttkWorkflow.PyValue
import HttkWorkflow.System
import Mathlib.Algebra.Order.Ring.Rat
import Mathlib.Logic.Function.Basic

/-!
# The maintenance lock

`workspace_maintenance_guard` keeps a project to one process at a time. The
lock is a file that is created exclusively; who finds one reads it, judges
whether it is stale, and if so unlinks the path and tries again, three times
in all. Who leaves the guard unlinks the path.

Creating a file exclusively is atomic, and that alone makes a new holder the
only one. What follows is about the unlinks, which name a path and not a file.
Between the read and the unlink of a reclaim another process may have done the
same and created its own lock, which is then the one removed
(`reclaim_admits_two`); where the read finds nothing the unlink follows
without a judgement; and a lock is also judged stale whose holder has not
written its record yet, or has been inside for more than a day. As long as an
unlink of a reclaim removes the file that was judged, and that file has no
holder any more, no two processes are inside and no file is removed but one's
own or a stale one (`maintenance_exclusive`).
-/

/-! ## Lock files and their judgement -/

/-- **`MaintenanceLock`**: what a reader took from a lock file. -/
structure MaintenanceLock where
  pid : Option ℤ
  hostname : Option PyStr
  created : Option PyStr
  readable : Bool

/-- **What a process judges a lock by**: the name of its host, what `os.kill` with signal 0 answers,
which raises on a number that is none of a process, the time, and how a timestamp is read. -/
structure LockJudge where
  hostname : PyStr
  gone : ℤ → Option Bool
  now : ℚ
  stamp : PyStr → Option ℚ

/-- `MAINTENANCE_LOCK_MAX_AGE_SECONDS`. -/
def maintenanceLockMaxAge : ℚ := 24 * 60 * 60

/-- **`is_stale`**, where it does not raise. -/
def MaintenanceLock.isStale (lock : MaintenanceLock) (judge : LockJudge) : Option Bool :=
  if lock.readable = false then some false
  else
    match lock.pid, lock.hostname, lock.created with
    | some pid, some hostname, some created => do
      let dead ← if hostname = judge.hostname ∧ 0 < pid then judge.gone pid else some false
      if dead = true then some true
      else
        match judge.stamp created with
        | none => some true
        | some time => some (maintenanceLockMaxAge < max 0 (judge.now - time))
    | _, _, _ => some true

def nonemptyMember (members : List (PyStr × Json)) (name : String) : Option PyStr :=
  match Json.get members name with
  | some (.str text) => if text.codes = [] then none else some text
  | _ => none

/-- What a record says, if it is an object. -/
def lockOfValue : Option Json → Option MaintenanceLock
  | some (.obj members) => some
      { pid := match Json.get members "pid" with
          | some (.int pid) => some pid
          | _ => none
        hostname := nonemptyMember members "hostname"
        created := nonemptyMember members "created"
        readable := true }
  | _ => none

/-- The record a holder writes. -/
def lockBody (created hostname : PyStr) (pid : ℤ) : Json :=
  .obj [("created", .str created), ("hostname", .str hostname), ("pid", .int pid)]

/-! ## Processes and the path -/

/-- **A lock file**: the process that created it, and what `json.loads` makes of its text, where it can
be decoded. -/
structure LockFile where
  creator : Option ℕ
  value : Option Json

/-- **Where a process is.** Files are named by numbers, so that a path can come to name another one. -/
inductive LockPhase where
  | outside
  | opening (tries : ℕ)
  | reading (tries reads : ℕ)
  | judging (tries file : ℕ) (lock : MaintenanceLock)
  | reclaiming (tries : ℕ) (judged : Option ℕ)
  | created (file : ℕ)
  | inside (file : ℕ)
  | leaving (file : ℕ)
  | gone

/-- The file a process has created and not released. -/
def LockPhase.holds : LockPhase → Option ℕ
  | .created file => some file
  | .inside file => some file
  | .leaving file => some file
  | _ => none

/-- **The lock of a workspace** and the processes about it. -/
structure LockWorld where
  path : Option ℕ
  files : ℕ → LockFile
  fresh : ℕ
  phase : ℕ → LockPhase

namespace LockWorld

def setPhase (w : LockWorld) (p : ℕ) (phase : LockPhase) : LockWorld :=
  { w with phase := Function.update w.phase p phase }

/-- A file of one's own or of another program appears at the path. -/
def createFile (w : LockWorld) (creator : Option ℕ) (value : Option Json) : LockWorld :=
  { w with path := some w.fresh, files := Function.update w.files w.fresh ⟨creator, value⟩,
           fresh := w.fresh + 1 }

/-- `path.unlink(missing_ok=True)`. -/
def unlink (w : LockWorld) : LockWorld := { w with path := none }

/-- What a process writes is in its file, whatever the path names. -/
def writeFile (w : LockWorld) (file : ℕ) (value : Option Json) : LockWorld :=
  { w with files := Function.update w.files file { w.files file with value := value } }

end LockWorld

/-- How a read of a file that is there ends: with its text, with a refusal, or with another error. -/
inductive LockRead where
  | text
  | denied
  | failed

/-- **The steps.** A write may be cut short, or fail; any process may end anywhere; and another program
may leave a file at the path. -/
inductive LockAction where
  | enter (p : ℕ)
  | create (p : ℕ)
  | read (p : ℕ) (outcome : LockRead)
  | judge (p : ℕ) (judge : LockJudge)
  | reclaim (p : ℕ)
  | write (p : ℕ) (created hostname : PyStr) (pid : ℤ) (whole : Bool)
  | writeFails (p : ℕ)
  | leave (p : ℕ)
  | release (p : ℕ)
  | crash (p : ℕ)
  | appears (value : Option Json)

namespace LockWorld

/-- **`_read_maintenance_lock`**, one read of it. The last of four reads decides that a file without a
record has none. -/
def readLock (w : LockWorld) (p tries reads : ℕ) (outcome : LockRead) : LockWorld :=
  match w.path, outcome with
  | none, _ => w.setPhase p (.reclaiming tries none)
  | some file, .denied => w.setPhase p (.judging tries file ⟨none, none, none, false⟩)
  | some file, outcome =>
    match lockOfValue (if outcome matches .failed then none else (w.files file).value) with
    | some lock => w.setPhase p (.judging tries file lock)
    | none =>
      if reads + 1 < 4 then w.setPhase p (.reading tries (reads + 1))
      else w.setPhase p (.judging tries file ⟨none, none, none, true⟩)

/-- **`workspace_maintenance_guard`**, step by step. -/
def next (w : LockWorld) : LockAction → Option LockWorld
  | .enter p =>
    match w.phase p with
    | .outside => some (w.setPhase p (.opening 0))
    | _ => none
  | .create p =>
    match w.phase p with
    | .opening tries =>
      if tries < 3 then
        match w.path with
        | none => some ((w.createFile (some p) none).setPhase p (.created w.fresh))
        | some _ => some (w.setPhase p (.reading tries 0))
      else some (w.setPhase p .outside)
    | _ => none
  | .read p outcome =>
    match w.phase p with
    | .reading tries reads => some (w.readLock p tries reads outcome)
    | _ => none
  | .judge p judge =>
    match w.phase p with
    | .judging tries file lock =>
      if lock.isStale judge = some true then some (w.setPhase p (.reclaiming tries (some file)))
      else some (w.setPhase p .outside)
    | _ => none
  | .reclaim p =>
    match w.phase p with
    | .reclaiming tries _ => some (w.unlink.setPhase p (.opening (tries + 1)))
    | _ => none
  | .write p created hostname pid whole =>
    match w.phase p with
    | .created file =>
      some ((w.writeFile file (if whole = true then some (lockBody created hostname pid) else none)).setPhase p
        (.inside file))
    | _ => none
  | .writeFails p =>
    match w.phase p with
    | .created _ => some (w.setPhase p .outside)
    | _ => none
  | .leave p =>
    match w.phase p with
    | .inside file => some (w.setPhase p (.leaving file))
    | _ => none
  | .release p =>
    match w.phase p with
    | .leaving _ => some (w.unlink.setPhase p .outside)
    | _ => none
  | .crash p => some (w.setPhase p .gone)
  | .appears value =>
    match w.path with
    | none => some (w.createFile none value)
    | some _ => none

end LockWorld

/-! ## Histories -/

/-- **A removal**: who unlinked the path, the file it named, and the creator of that file. -/
structure LockRemoval where
  remover : ℕ
  file : ℕ
  creator : Option ℕ

/-- **What an observer remembers**: which files a process has judged stale, and what was removed. -/
structure LockLog where
  stale : List (ℕ × ℕ)
  removed : List LockRemoval

namespace LockLog

/-- The file at the path is removed by a process. -/
def removes (log : LockLog) (w : LockWorld) (p : ℕ) : LockLog :=
  match w.path with
  | none => log
  | some file => { log with removed := ⟨p, file, (w.files file).creator⟩ :: log.removed }

def observe (log : LockLog) (w : LockWorld) (a : LockAction) (_ : LockWorld) : LockLog :=
  match a with
  | .judge p judge =>
    match w.phase p with
    | .judging _ file lock =>
      if lock.isStale judge = some true then { log with stale := (p, file) :: log.stale } else log
    | _ => log
  | .reclaim p => log.removes w p
  | .release p => log.removes w p
  | _ => log

/-- A removal that is one's own or of a file one has judged stale. -/
def Entitled (log : LockLog) (r : LockRemoval) : Prop :=
  r.creator = some r.remover ∨ (r.remover, r.file) ∈ log.stale

end LockLog

/-- No process has begun; there may be any file at the path. -/
def LockWorld.Initial (w : LockWorld) : Prop := ∀ p, w.phase p = .outside

/-- **The guard in use**, with its observer. -/
def maintenance : System (LockWorld × LockLog) LockAction :=
  System.observed LockWorld.Initial LockWorld.next ⟨[], []⟩ LockLog.observe

/-- **A step that is safe**: an unlink of a reclaim finds nothing, or the file that was judged, and no
process holds that file. -/
def LockAction.Safe (w : LockWorld) : LockAction → Prop
  | .reclaim p =>
    match w.phase p with
    | .reclaiming _ judged => w.path = none ∨ (w.path = judged ∧ ∀ q, (w.phase q).holds ≠ w.path)
    | _ => True
  | _ => True

namespace LockWorld

variable {w w' : LockWorld} {p q : ℕ} {phase : LockPhase}

@[simp] theorem phase_setPhase (w : LockWorld) (p : ℕ) (phase : LockPhase) : (w.setPhase p phase).phase p = phase := by
  simp [setPhase]

theorem phase_setPhase_of_ne (h : q ≠ p) : (w.setPhase p phase).phase q = w.phase q := by
  simp [setPhase, h]

/-- **What a step can do**: a process moves on without touching a file or unlinking the path; or it has
judged a file stale, creates one, writes its own, or unlinks the path; or a file appears. -/
inductive Moves (w : LockWorld) : LockAction → LockWorld → Prop
  | quiet {a : LockAction} {p : ℕ} {phase : LockPhase}
      (hphase : ∀ tries file, phase ≠ .reclaiming tries (some file))
      (hholds : phase.holds = none ∨ phase.holds = (w.phase p).holds)
      (hlog : ∀ log w', LockLog.observe log w a w' = log) : Moves w a (w.setPhase p phase)
  | judges {p tries file : ℕ} {lock : MaintenanceLock} {judge : LockJudge}
      (hphase : w.phase p = .judging tries file lock) (hstale : lock.isStale judge = some true) :
      Moves w (.judge p judge) (w.setPhase p (.reclaiming tries (some file)))
  | creates (p : ℕ) (hpath : w.path = none) :
      Moves w (.create p) ((w.createFile (some p) none).setPhase p (.created w.fresh))
  | writes {p file : ℕ} {created hostname : PyStr} {pid : ℤ} {whole : Bool} (value : Option Json)
      (hphase : w.phase p = .created file) :
      Moves w (.write p created hostname pid whole) ((w.writeFile file value).setPhase p (.inside file))
  | reclaims {p tries : ℕ} {judged : Option ℕ} (hphase : w.phase p = .reclaiming tries judged) :
      Moves w (.reclaim p) (w.unlink.setPhase p (.opening (tries + 1)))
  | releases {p file : ℕ} (hphase : w.phase p = .leaving file) :
      Moves w (.release p) (w.unlink.setPhase p .outside)
  | appears (value : Option Json) (hpath : w.path = none) :
      Moves w (.appears value) (w.createFile none value)

theorem moves_readLock (w : LockWorld) (p tries reads : ℕ) (outcome : LockRead) :
    w.Moves (.read p outcome) (w.readLock p tries reads outcome) := by
  unfold LockWorld.readLock
  split
  · exact Moves.quiet (by simp) (Or.inl rfl) fun _ _ => rfl
  · exact Moves.quiet (by simp) (Or.inl rfl) fun _ _ => rfl
  · split
    · exact Moves.quiet (by simp) (Or.inl rfl) fun _ _ => rfl
    · split_ifs
      · exact Moves.quiet (by simp) (Or.inl rfl) fun _ _ => rfl
      · exact Moves.quiet (by simp) (Or.inl rfl) fun _ _ => rfl

variable {a : LockAction}

theorem move_of_next (hnext : w.next a = some w') : w.Moves a w' := by
  cases a with
  | enter p =>
    simp only [LockWorld.next] at hnext
    split at hnext
    · obtain rfl := Option.some.inj hnext
      exact Moves.quiet (by simp) (Or.inl rfl) fun _ _ => rfl
    · cases hnext
  | create p =>
    simp only [LockWorld.next] at hnext
    split at hnext
    · split_ifs at hnext
      · split at hnext
        · rename_i hpath
          obtain rfl := Option.some.inj hnext
          exact Moves.creates p hpath
        · obtain rfl := Option.some.inj hnext
          exact Moves.quiet (by simp) (Or.inl rfl) fun _ _ => rfl
      · obtain rfl := Option.some.inj hnext
        exact Moves.quiet (by simp) (Or.inl rfl) fun _ _ => rfl
    · cases hnext
  | read p outcome =>
    simp only [LockWorld.next] at hnext
    split at hnext
    · obtain rfl := Option.some.inj hnext
      exact moves_readLock w p _ _ outcome
    · cases hnext
  | judge p judge =>
    simp only [LockWorld.next] at hnext
    split at hnext
    · rename_i tries file lock hphase
      split_ifs at hnext with hstale
      · obtain rfl := Option.some.inj hnext
        exact Moves.judges hphase hstale
      · obtain rfl := Option.some.inj hnext
        refine Moves.quiet (by simp) (Or.inl rfl) fun log _ => ?_
        simp only [LockLog.observe, hphase, if_neg hstale]
    · cases hnext
  | reclaim p =>
    simp only [LockWorld.next] at hnext
    split at hnext
    · rename_i hphase
      obtain rfl := Option.some.inj hnext
      exact Moves.reclaims hphase
    · cases hnext
  | write p created hostname pid whole =>
    simp only [LockWorld.next] at hnext
    split at hnext
    · rename_i hphase
      obtain rfl := Option.some.inj hnext
      exact Moves.writes _ hphase
    · cases hnext
  | writeFails p =>
    simp only [LockWorld.next] at hnext
    split at hnext
    · obtain rfl := Option.some.inj hnext
      exact Moves.quiet (by simp) (Or.inl rfl) fun _ _ => rfl
    · cases hnext
  | leave p =>
    simp only [LockWorld.next] at hnext
    split at hnext
    · rename_i file hphase
      obtain rfl := Option.some.inj hnext
      refine Moves.quiet (by simp) (Or.inr ?_) fun _ _ => rfl
      rw [hphase]
      rfl
    · cases hnext
  | release p =>
    simp only [LockWorld.next] at hnext
    split at hnext
    · rename_i hphase
      obtain rfl := Option.some.inj hnext
      exact Moves.releases hphase
    · cases hnext
  | crash p =>
    obtain rfl := Option.some.inj hnext
    exact Moves.quiet (by simp) (Or.inl rfl) fun _ _ => rfl
  | appears value =>
    simp only [LockWorld.next] at hnext
    split at hnext
    · rename_i hpath
      obtain rfl := Option.some.inj hnext
      exact Moves.appears value hpath
    · cases hnext

/-! ## What every step keeps -/

/-- **Whoever holds a file** is its creator, and the path names it. -/
def Held (w : LockWorld) : Prop := ∀ p file, (w.phase p).holds = some file →
  w.path = some file ∧ (w.files file).creator = some p

theorem Held.holder_unique (h : w.Held) {file file' : ℕ} (hp : (w.phase p).holds = some file)
    (hq : (w.phase q).holds = some file') : p = q := by
  obtain ⟨hpath, hcreator⟩ := h p file hp
  obtain ⟨hpath', hcreator'⟩ := h q file' hq
  have hfile : file = file' := Option.some.inj (hpath.symm.trans hpath')
  subst hfile
  exact Option.some.inj (hcreator.symm.trans hcreator')

theorem Held.setPhase (h : w.Held) (hphase : phase.holds = none ∨ phase.holds = (w.phase p).holds) :
    (w.setPhase p phase).Held := by
  intro q file hq
  by_cases hqp : q = p
  · subst hqp
    rw [phase_setPhase] at hq
    rcases hphase with hphase | hphase
    · rw [hphase] at hq
      cases hq
    · exact h q file (hphase ▸ hq)
  · rw [phase_setPhase_of_ne hqp] at hq
    exact h q file hq

theorem Held.unlink (hphase : phase.holds = none) (hothers : ∀ q, q ≠ p → (w.phase q).holds = none) :
    (w.unlink.setPhase p phase).Held := by
  intro q file hq
  by_cases hqp : q = p
  · subst hqp
    rw [phase_setPhase, hphase] at hq
    cases hq
  · rw [phase_setPhase_of_ne hqp] at hq
    exact absurd ((hothers q hqp).symm.trans hq) (Option.some_ne_none file).symm

theorem Held.free (h : w.Held) (hpath : w.path = none) (q : ℕ) : (w.phase q).holds = none := by
  cases hq : (w.phase q).holds with
  | none => rfl
  | some file => cases hpath.symm.trans (h q file hq).1

theorem Held.create (h : w.Held) (hpath : w.path = none) :
    ((w.createFile (some p) none).setPhase p (.created w.fresh)).Held := by
  intro q file hq
  by_cases hqp : q = p
  · subst hqp
    rw [phase_setPhase] at hq
    obtain rfl := Option.some.inj hq
    exact ⟨rfl, by simp [createFile, LockWorld.setPhase]⟩
  · rw [phase_setPhase_of_ne hqp] at hq
    exact absurd ((h.free hpath q).symm.trans hq) (Option.some_ne_none file).symm

theorem Held.writeFile (h : w.Held) (file : ℕ) (value : Option Json) : (w.writeFile file value).Held := by
  intro q f hq
  obtain ⟨hpath, hcreator⟩ := h q f hq
  refine ⟨hpath, ?_⟩
  rw [← hcreator]
  by_cases hf : f = file
  · subst hf
    simp [LockWorld.writeFile]
  · simp [LockWorld.writeFile, hf]

/-- **A safe step keeps the holders.** -/
theorem Held.next (h : w.Held) (hsafe : a.Safe w) (hnext : w.next a = some w') : w'.Held := by
  cases move_of_next hnext with
  | quiet _ hholds _ => exact h.setPhase hholds
  | judges _ _ => exact h.setPhase (Or.inl rfl)
  | creates _ hpath => exact h.create hpath
  | @writes p file created hostname pid whole value hphase =>
    have hholds : (w.phase p).holds = some file := by rw [hphase]; rfl
    exact (h.writeFile file _).setPhase (Or.inr hholds.symm)
  | @reclaims p tries judged hphase =>
    have hsafe : w.path = none ∨ (w.path = judged ∧ ∀ q, (w.phase q).holds ≠ w.path) := by
      simpa only [LockAction.Safe, hphase] using hsafe
    refine Held.unlink rfl fun q _ => ?_
    -- who holds a file holds the one at the path, and that one is not held
    cases hq : (w.phase q).holds with
    | none => rfl
    | some file =>
      have hpath := (h q file hq).1
      rcases hsafe with hnone | ⟨-, hfree⟩
      · cases hnone.symm.trans hpath
      · exact absurd (hq.trans hpath.symm) (hfree q)
  | @releases p file hphase =>
    have hholds : (w.phase p).holds = some file := by rw [hphase]; rfl
    refine Held.unlink rfl fun q hqp => ?_
    cases hq : (w.phase q).holds with
    | none => rfl
    | some file' => exact absurd (h.holder_unique hq hholds) hqp
  | appears value hpath =>
    intro q file hq
    exact absurd ((h.free hpath q).symm.trans hq) (Option.some_ne_none file).symm

/-! ## What every step removes -/

/-- **What was judged is remembered**, and every removal was one's own or of a stale file. -/
structure Accounted (w : LockWorld) (log : LockLog) : Prop where
  judged : ∀ p tries file, w.phase p = .reclaiming tries (some file) → (p, file) ∈ log.stale
  entitled : ∀ r ∈ log.removed, log.Entitled r

variable {log : LockLog}

theorem Accounted.setPhase (h : w.Accounted log)
    (hphase : ∀ tries file, phase ≠ .reclaiming tries (some file)) : (w.setPhase p phase).Accounted log := by
  refine ⟨fun q tries file hq => ?_, h.entitled⟩
  by_cases hqp : q = p
  · subst hqp
    rw [phase_setPhase] at hq
    exact absurd hq (hphase tries file)
  · rw [phase_setPhase_of_ne hqp] at hq
    exact h.judged q tries file hq

theorem Accounted.of_phase (h : w.Accounted log) (hphase : w'.phase = w.phase) :
    w'.Accounted log := ⟨hphase ▸ h.judged, h.entitled⟩

theorem Accounted.removes (h : w.Accounted log)
    (hentitled : ∀ file, w.path = some file → log.Entitled ⟨p, file, (w.files file).creator⟩) :
    w.Accounted (log.removes w p) := by
  unfold LockLog.removes
  split
  · exact h
  · rename_i file hpath
    exact ⟨h.judged, List.forall_mem_cons.mpr ⟨hentitled file hpath, h.entitled⟩⟩

/-- **A safe step removes what it may.** -/
theorem Accounted.next (h : w.Accounted log) (hheld : w.Held)
    (hsafe : a.Safe w) (hnext : w.next a = some w') : w'.Accounted (log.observe w a w') := by
  cases move_of_next hnext with
  | quiet hphase hholds hlog =>
    rw [hlog]
    exact h.setPhase hphase
  | @judges p tries file lock judge hphase hstale =>
    have hlog : log.observe w (.judge p judge) (w.setPhase p (.reclaiming tries (some file)))
        = { log with stale := (p, file) :: log.stale } := by
      simp only [LockLog.observe, hphase, hstale, if_true]
    rw [hlog]
    refine ⟨fun q tries' file' hq => ?_, fun r hr => (h.entitled r hr).imp_right (List.mem_cons_of_mem _)⟩
    by_cases hqp : q = p
    · subst hqp
      rw [phase_setPhase] at hq
      cases hq
      exact List.mem_cons_self
    · rw [phase_setPhase_of_ne hqp] at hq
      exact List.mem_cons_of_mem _ (h.judged q tries' file' hq)
  | creates p hpath =>
    have hsame : (w.createFile (some p) none).Accounted log := h.of_phase rfl
    exact hsame.setPhase (by simp)
  | @writes p file created hostname pid whole value hphase =>
    have hsame : (w.writeFile file value).Accounted log := h.of_phase rfl
    exact hsame.setPhase (by simp)
  | @reclaims p tries judged hphase =>
    have hsafe : w.path = none ∨ (w.path = judged ∧ ∀ q, (w.phase q).holds ≠ w.path) := by
      simpa only [LockAction.Safe, hphase] using hsafe
    have hremoves : w.Accounted (log.removes w p) := h.removes fun file hpath => by
      rcases hsafe with hnone | ⟨hjudged, -⟩
      · cases hnone.symm.trans hpath
      · exact Or.inr (h.judged p tries file (hphase.trans (congrArg _ (hjudged.symm.trans hpath))))
    have hsame : w.unlink.Accounted (log.removes w p) := hremoves.of_phase rfl
    exact hsame.setPhase (by simp)
  | @releases p file hphase =>
    have hholds : (w.phase p).holds = some file := by rw [hphase]; rfl
    obtain ⟨hpath, hcreator⟩ := hheld p file hholds
    have hremoves : w.Accounted (log.removes w p) := h.removes fun file' hpath' => by
      obtain rfl := Option.some.inj (hpath'.symm.trans hpath)
      exact Or.inl hcreator
    have hsame : w.unlink.Accounted (log.removes w p) := hremoves.of_phase rfl
    exact hsame.setPhase (by simp)
  | appears value hpath => exact h.of_phase rfl

end LockWorld

/-- The guard in use, by safe steps. -/
def safeMaintenance : System (LockWorld × LockLog) LockAction :=
  maintenance.guarded fun s a => a.Safe s.fst

/-- **At most one process is inside, and files are removed by those who may**, in every run of safe
steps. -/
theorem maintenance_exclusive {w : LockWorld} {log : LockLog} (h : safeMaintenance.Reachable (w, log)) :
    (∀ p q file file', w.phase p = .inside file → w.phase q = .inside file' → p = q)
      ∧ ∀ r ∈ log.removed, log.Entitled r := by
  have hinvariant : ∀ s, safeMaintenance.Reachable s → s.fst.Held ∧ s.fst.Accounted s.snd := by
    intro s hs
    refine System.Reachable.invariant (I := fun s => s.fst.Held ∧ s.fst.Accounted s.snd)
      (fun s hinit => ?_) (fun s a s' _ hinv hstep => ?_) hs
    · obtain ⟨hinit, hlog⟩ := hinit
      refine ⟨fun p file hp => ?_, fun p tries file hp => ?_, hlog ▸ List.forall_mem_nil _⟩
      · rw [hinit p] at hp
        cases hp
      · cases (hinit p).symm.trans hp
    · obtain ⟨hheld, haccounted⟩ := hinv
      obtain ⟨hstep, hsafe⟩ := hstep
      obtain ⟨hnext, hlog⟩ := System.watching_eq_some.mp hstep
      exact ⟨hheld.next hsafe hnext, hlog ▸ haccounted.next hheld hsafe hnext⟩
  obtain ⟨hheld, haccounted⟩ := hinvariant _ h
  refine ⟨fun p q file file' hp hq => ?_, haccounted.entitled⟩
  have hholds : (w.phase p).holds = some file := by
    rw [hp]
    rfl
  have hholds' : (w.phase q).holds = some file' := by
    rw [hq]
    rfl
  exact hheld.holder_unique hholds hholds'

def abandonedLock : LockWorld where
  path := some 0
  files _ := ⟨none, none⟩
  fresh := 1
  phase _ := .outside

/-- A judge for whom every process lives. -/
def livingJudge : LockJudge := ⟨"host", fun _ => some false, 0, fun _ => some 0⟩

/-- A process finds the file and judges it. -/
def findsLock (p : ℕ) : List LockAction :=
  [.enter p, .create p, .read p .text, .read p .text, .read p .text, .read p .text, .judge p livingJudge]

/-- A process creates the file and enters. -/
def takesLock (p : ℕ) : List LockAction := [.create p, .write p "now" "host" 7 true]

theorem isStale_taken : MaintenanceLock.isStale ⟨some 7, some "host", some "now", true⟩ livingJudge = some false := by
  decide +kernel

/-- **A reclaim beside a second process**: the first one judges the file, removes it and enters; the second one
finds the new file, judges it live, and stays outside. -/
theorem maintenance_exclusive_reclaim : ∃ (w : LockWorld) (log : LockLog), w.phase 0 = .inside 1
    ∧ w.phase 1 = .outside ∧ log.removed = [⟨0, 0, none⟩]
    ∧ (∀ p q file file', w.phase p = .inside file → w.phase q = .inside file' → p = q)
    ∧ ∀ r ∈ log.removed, log.Entitled r := by
  let next := System.watching LockWorld.next LockLog.observe
  have hrun : ∃ s t u, System.follow next (abandonedLock, ⟨[], []⟩) (findsLock 0 ++ [.enter 1]) = some s
      ∧ s.fst.path = some 0 ∧ s.fst.phase 0 = .reclaiming 0 (some 0) ∧ (∀ q, (s.fst.phase q).holds = none)
      ∧ next s (.reclaim 0) = some t ∧ System.follow next t (takesLock 0 ++ [.create 1, .read 1 .text]) = some u
      ∧ u.fst.phase 0 = .inside 1 ∧ u.fst.phase 1 = .judging 0 1 ⟨some 7, some "host", some "now", true⟩
      ∧ u.snd.removed = [⟨0, 0, none⟩] := by
    refine ⟨_, _, _, rfl, rfl, rfl, fun q => ?_, rfl, rfl, rfl, rfl, rfl⟩
    rcases q with _ | _ | q <;> rfl
  obtain ⟨s, t, u, hs, hpath, hphase, hfree, ht, hu, h0, h1, hremoved⟩ := hrun
  have hinit : safeMaintenance.Reachable (abandonedLock, ⟨[], []⟩) := System.Reachable.init ⟨fun _ => rfl, rfl⟩
  have hjudged := ((System.run_of_follow hs).guarded (by simp [LockAction.Safe, findsLock])).reachable hinit
  have hsafe : LockAction.Safe s.fst (.reclaim 0) := by
    simp only [LockAction.Safe, hphase, hpath]
    exact Or.inr ⟨trivial, fun q => (hfree q).trans_ne (Option.some_ne_none 0).symm⟩
  have hreclaimed := hjudged.next (.reclaim 0) hsafe ht
  have hread := ((System.run_of_follow hu).guarded (by simp [LockAction.Safe, takesLock])).reachable hreclaimed
  have hleft : next u (.judge 1 livingJudge) = some (u.fst.setPhase 1 .outside, u.snd) := by
    simp only [next, System.watching, LockWorld.next, LockLog.observe, h1, isStale_taken]
    rfl
  have h0' : (u.fst.setPhase 1 .outside).phase 0 = .inside 1 := (LockWorld.phase_setPhase_of_ne Nat.zero_ne_one).trans h0
  exact ⟨_, _, h0', LockWorld.phase_setPhase _ _ _, hremoved,
    maintenance_exclusive (hread.next (.judge 1 livingJudge) trivial hleft)⟩

/-! ## A stale file that two processes find -/

/-- Two processes find the file and judge it, the first one reclaims it and enters, and the second one
removes the new file then. -/
def reclaimTwice : List LockAction :=
  findsLock 0 ++ findsLock 1 ++ .reclaim 0 :: takesLock 0 ++ .reclaim 1 :: takesLock 1

/-- **Two processes are inside**, and the second one has removed the file of the first, which it had not
judged. -/
theorem reclaim_admits_two : ∃ (w : LockWorld) (log : LockLog), maintenance.Reachable (w, log)
    ∧ (∃ file, w.phase 0 = .inside file) ∧ (∃ file, w.phase 1 = .inside file)
    ∧ ∃ r ∈ log.removed, ¬log.Entitled r := by
  have hrun : ∃ s, System.follow (System.watching LockWorld.next LockLog.observe) (abandonedLock, ⟨[], []⟩)
      reclaimTwice = some s ∧ s.fst.phase 0 = .inside 1 ∧ s.fst.phase 1 = .inside 2
        ∧ s.snd.removed = [⟨1, 1, some 0⟩, ⟨0, 0, none⟩] ∧ s.snd.stale = [(1, 0), (0, 0)] :=
    ⟨_, rfl, rfl, rfl, rfl, rfl⟩
  obtain ⟨⟨w, log⟩, hfollow, h0, h1, hremoved, hstale⟩ := hrun
  have hinit : maintenance.Reachable (abandonedLock, ⟨[], []⟩) := System.Reachable.init ⟨fun _ => rfl, rfl⟩
  refine ⟨w, log, (System.run_of_follow hfollow).reachable hinit, ⟨1, h0⟩, ⟨2, h1⟩, ⟨1, 1, some 0⟩, ?_, ?_⟩
  · rw [show log.removed = _ from hremoved]
    exact List.mem_cons_self
  · rw [LockLog.Entitled, show log.stale = _ from hstale]
    simp
