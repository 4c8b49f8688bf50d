import HttkWorkflow.CancellationProof
import HttkWorkflow.RestartEvidence

/-!
# The takeover of a persistent workdir

The workdir of a persistent job is the same for all its attempts, so that a
running attempt may be replaced only once nothing of it writes there any
more. The takeover asks whether the writer is dead, and what it probes is one
process, the leader of the recorded group. A process group outlives its
leader: the runner of a step may start others and exit.

So the takeover is right where the leader is the last of its group to go
(`takeover_safe`), and with a leader that went first the workdir has two
writers (`takeover_survived`). Cancellations probe the whole group.
-/

variable {σ : Type} {env : JoinEnv} {job : JobDefinition} {jobId : PyStr}
variable {state : StateFrame}

/-- **The processes of all hosts**: the group of each pid that is alive. -/
abbrev Processes := PyStr → Int → Option Int

def Processes.gone (processes : Processes) (hostname : PyStr) (group : Int) : Prop :=
  ∀ pid, processes hostname pid ≠ some group

def hostedRuns (env : JoinEnv) (job : JobDefinition) (jobId : PyStr) :
    System (JobState × Option LaunchedAttempt) ((JobStep σ × Bool) × Processes) :=
  (launchedRuns env job jobId).relabelled Prod.fst

/-- **A takeover without the unsafe policy** whose probes tell the truth. -/
def Truthful (_ : JobState × Option LaunchedAttempt) (step : (JobStep σ × Bool) × Processes) : Prop :=
  match step.fst.fst with
  | .takeover world => world.unsafePersistentTakeover = false
      ∧ ∀ pid, world.kill pid = .noProcess ↔ step.snd world.hostname pid = none
  | _ => True

/-- The runs in which takeovers are so. -/
def truthfulRuns (env : JoinEnv) (job : JobDefinition) (jobId : PyStr) :
    System (JobState × Option LaunchedAttempt) ((JobStep σ × Bool) × Processes) :=
  (hostedRuns env job jobId).guarded Truthful

/-- **A step that finds the leader last**: where a takeover finds the leader of the
recorded group gone from its own host, the whole group is gone. -/
def LeaderLast (p : JobState × Option LaunchedAttempt) (step : (JobStep σ × Bool) × Processes) :
    Prop :=
  match step.fst.fst with
  | .takeover world => ∀ process, validateProcess (p.fst.frame.get .process) = some process →
      process.hostname = world.hostname → step.snd process.hostname process.pid = none →
      step.snd.gone process.hostname process.processGroup
  | _ => True

theorem leader_of_attemptWriterDead {hostname : PyStr} {kill : Int → SignalResult}
    (h : attemptWriterDead hostname kill state = .ok true) :
    ∃ process, validateProcess (state.get .process) = some process
      ∧ process.hostname = hostname ∧ kill process.pid = .noProcess := by
  unfold attemptWriterDead at h
  split at h
  · cases h
  · rename_i process hvalid
    split_ifs at h with hhost
    · cases h
    · refine ⟨process, hvalid, not_not.mp hhost, ?_⟩
      split at h
      · assumption
      · cases h
      · cases h
      · cases h

theorem writerDead_of_takeover {cenv : CommitEnv} {world : TakeoverWorld} {move : Move}
    (h : takeoverMove cenv world job state = .ok (some move)) (hmode : job.workdirMode = .persistent)
    (hsafe : world.unsafePersistentTakeover = false) :
    attemptWriterDead world.hostname world.kill state = .ok true := by
  obtain ⟨evidence, hevidence, -⟩ := failure_of_takeover h
  unfold takeoverEvidence at hevidence
  obtain ⟨dead, hdead, hevidence⟩ := bind_eq_ok.mp hevidence
  cases dead with
  | true => exact hdead
  | false =>
    simp only [Bool.false_eq_true, if_false, hmode, if_true, hsafe] at hevidence
    cases Except.ok.inj hevidence

/-- **A takeover of a persistent workdir is safe exactly where the leader is last**,
in every run: the process group of the attempt launched last is gone from its
host just where the takeover finds its leader to be the last of them. -/
theorem takeover_safe {p p' : JobState × Option LaunchedAttempt} {world : TakeoverWorld}
    {reread : Bool} {processes : Processes} (hmode : job.workdirMode = .persistent)
    (hs : (truthfulRuns (σ := σ) env job jobId).Reachable p)
    (hstep : (truthfulRuns env job jobId).step p
      (((.takeover world : JobStep σ), reread), processes) p') :
    (∃ launched, p.snd = some launched
        ∧ processes.gone launched.launcher.hostname launched.launcher.pid)
      ↔ LeaderLast p (((.takeover world : JobStep σ), reread), processes) := by
  obtain ⟨hstep, hsafe, htruth⟩ := hstep
  have hreachable : (launchedRuns (σ := σ) env job jobId).Reachable p :=
    hs.of_guarded.of_relabelled
  obtain ⟨hnext, -⟩ := System.watching_eq_some.mp hstep
  obtain ⟨move, moved, -, ⟨hrunning, hmove⟩, -⟩ := effect_of_next hreachable.of_observed hnext
  obtain ⟨launched, hlaunched, hidentifies⟩ :=
    identified_of_reachable hreachable (by simp [hrunning, processKinds])
  -- a valid identity in the frame is that of the launch
  have hidentity : ∀ process, validateProcess (p.fst.frame.get .process) = some process →
      process.processGroup = launched.launcher.pid
        ∧ process.hostname = launched.launcher.hostname := by
    intro process hvalid
    rw [hidentifies.process] at hvalid
    exact validateProcess_launched hvalid
  constructor
  · rintro ⟨launched', hlaunched', hgone⟩ process hvalid - -
    obtain rfl : launched = launched' := Option.some.inj (hlaunched.symm.trans hlaunched')
    obtain ⟨hgroup, hhostname⟩ := hidentity process hvalid
    rw [hgroup, hhostname]
    exact hgone
  · intro hlast
    obtain ⟨process, hvalid, hhost, hkill⟩ :=
      leader_of_attemptWriterDead (writerDead_of_takeover hmove hmode hsafe)
    have hleader : processes process.hostname process.pid = none :=
      hhost ▸ (htruth process.pid).mp hkill
    obtain ⟨hgroup, hhostname⟩ := hidentity process hvalid
    refine ⟨launched, hlaunched, ?_⟩
    rw [← hgroup, ← hhostname]
    exact hlast process hvalid hhost hleader

/-! ## A group that is gone, and one that outlives its leader -/

def launchedAttempt (processes : Processes) : List ((JobStep PUnit × Bool) × Processes) :=
  [((.register "a1", true), processes), ((plainClaim "t1", true), processes),
    ((plainLaunch, true), processes)]

theorem reachable_launched {p : JobState × Option LaunchedAttempt} (processes : Processes)
    (h : System.follow (System.watching (jobNext plainJoinEnv retriedJob "job") watchLaunch)
      (JobState.submitted 100, none) ((launchedAttempt processes).map Prod.fst) = some p) :
    (truthfulRuns (σ := PUnit) plainJoinEnv retriedJob "job").Reachable p := by
  have hrun := (System.run_of_follow h).relabelled (S := launchedRuns plainJoinEnv retriedJob "job")
  refine (hrun.guarded ?_).reachable (System.Reachable.init ⟨⟨100, rfl⟩, rfl⟩)
  simp [launchedAttempt, Truthful, plainClaim, plainLaunch]

def nothingAlive : Processes := fun _ _ => none

/-- A takeover of an attempt of which nothing is alive is safe. -/
theorem takeover_safe_gone : ∃ p p',
    (truthfulRuns (σ := PUnit) plainJoinEnv retriedJob "job").Reachable p
      ∧ (truthfulRuns plainJoinEnv retriedJob "job").step p
        (((.takeover plainTakeover : JobStep PUnit), true), nothingAlive) p'
      ∧ p'.fst.kind = .ready
      ∧ ∃ launched, p.snd = some launched
        ∧ nothingAlive.gone launched.launcher.hostname launched.launcher.pid := by
  have hrun : (System.follow (System.watching (jobNext plainJoinEnv retriedJob "job") watchLaunch)
      (JobState.submitted 100, none) ((launchedAttempt nothingAlive).map Prod.fst)).bind (fun p =>
        (System.watching (jobNext plainJoinEnv retriedJob "job") watchLaunch p
          ((.takeover plainTakeover : JobStep PUnit), true)).map fun p' => p'.fst.kind)
      = some .ready := by
    decide +kernel
  obtain ⟨p, hp, hrun⟩ := Option.bind_eq_some_iff.mp hrun
  obtain ⟨p', hp', hready⟩ := Option.map_eq_some_iff.mp hrun
  have hreachable := reachable_launched nothingAlive hp
  have hstep : (truthfulRuns (σ := PUnit) plainJoinEnv retriedJob "job").step p
      ((.takeover plainTakeover, true), nothingAlive) p' :=
    ⟨hp', rfl, fun pid => ⟨fun _ => rfl, fun _ => rfl⟩⟩
  exact ⟨p, p', hreachable, hstep, hready,
    (takeover_safe rfl hreachable hstep).mpr fun _ _ _ _ _ h => by cases h⟩

def survivor : Processes := fun hostname pid => if hostname = "host" ∧ pid = 8 then some 7 else none

def survivedTakeover : TakeoverWorld :=
  { plainTakeover with kill := fun pid => if pid = 8 then .delivered else .noProcess }

/-- **A process of the group survives its leader**: the job is taken over, and the
next attempt may be launched into the workdir it writes to. -/
theorem takeover_survived : ∃ p p' launched,
    (truthfulRuns (σ := PUnit) plainJoinEnv retriedJob "job").Reachable p
      ∧ (truthfulRuns plainJoinEnv retriedJob "job").step p
        (((.takeover survivedTakeover : JobStep PUnit), true), survivor) p'
      ∧ p'.fst.kind = .ready ∧ p.snd = some launched
      ∧ ¬survivor.gone launched.launcher.hostname launched.launcher.pid := by
  have hrun : (System.follow (System.watching (jobNext plainJoinEnv retriedJob "job") watchLaunch)
      (JobState.submitted 100, none) ((launchedAttempt survivor).map Prod.fst)).bind (fun p =>
        (System.watching (jobNext plainJoinEnv retriedJob "job") watchLaunch p
          ((.takeover survivedTakeover : JobStep PUnit), true)).bind fun p' =>
            p.snd.map fun launched => (p'.fst.kind, launched.launcher.hostname, launched.launcher.pid))
      = some (StateKind.ready, PyStr.ofString "host", 7) := by
    decide +kernel
  obtain ⟨p, hp, hrun⟩ := Option.bind_eq_some_iff.mp hrun
  obtain ⟨p', hp', hrun⟩ := Option.bind_eq_some_iff.mp hrun
  obtain ⟨launched, hlaunched, hfacts⟩ := Option.map_eq_some_iff.mp hrun
  simp only [Prod.mk.injEq] at hfacts
  obtain ⟨hready, hhostname, hpid⟩ := hfacts
  have htruth : ∀ pid, survivedTakeover.kill pid = .noProcess
      ↔ survivor survivedTakeover.hostname pid = none := by
    intro pid
    by_cases hpid : pid = 8 <;> simp [survivedTakeover, survivor, plainTakeover, hpid]
  refine ⟨p, p', launched, reachable_launched survivor hp, ⟨hp', rfl, htruth⟩, hready, hlaunched, ?_⟩
  rw [hhostname, hpid]
  exact fun hgone => hgone 8 rfl
