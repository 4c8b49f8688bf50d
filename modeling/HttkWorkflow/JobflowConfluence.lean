import HttkWorkflow.JobflowProgress

/-!
# The order of results does not matter

In a flow whose responses add no jobs and never stop the whole flow, each job
has a *fate* that the flow and the answers of its jobs decide together: it is
stopped if a parent was, else poisoned if a parent failed and missing
references are errors, else it runs. A fate looks at the fates of the parents,
so that the flow's depth leaves no choice (`exists_fate`).

The driver follows the fates in any order. Stopping is eager and looks at
the keys of the parents, poisoning is lazy and looks at their UUIDs, and a
job with several bad ancestors may be reached along different paths; but a
stopped parent decides, and all parents are settled before the driver looks
for one that failed. `Agrees` says that the status sets hold of each settled
job what its fate says, and every step keeps it.
-/

open Dict (assign)

namespace DriverState

/-! ## Fates -/

/-- **How a job answers** when it is run. -/
inductive JobOutcome where
  | success
  | error
  | stopChildren
deriving DecidableEq

/-- **What becomes of a job.** -/
inductive Fate where
  | runs
  | stopped
  | poisoned
deriving DecidableEq

section Fates

variable (outcome : PyStr → JobOutcome) (fate : PyStr → Fate)

/-- A job ends up stopped: it is popped, or it runs and stops its children. -/
def Stops (k : PyStr) : Prop := fate k = .stopped ∨ (fate k = .runs ∧ outcome k = .stopChildren)

def Fails (k : PyStr) : Prop := fate k = .poisoned ∨ (fate k = .runs ∧ outcome k = .error)

instance (k : PyStr) : Decidable (Stops outcome fate k) := inferInstanceAs (Decidable (_ ∨ _))

instance (k : PyStr) : Decidable (Fails outcome fate k) := inferInstanceAs (Decidable (_ ∨ _))

def nextFate (record : PendingJob) : Fate :=
  if ∃ p ∈ record.parents, Stops outcome fate p then .stopped
  else if (∃ p ∈ record.parents, Fails outcome fate p) ∧ record.job.missingIsError.toOption = some true then
    .poisoned
  else .runs

/-- **The fates of a flow's jobs**: each is decided by those of the parents. -/
def IsFate (root : DriverState) : Prop :=
  ∀ e ∈ root.pending, fate e.fst = nextFate outcome fate e.snd

/-- The fates up to a depth. -/
def fateAt (root : DriverState) : ℕ → PyStr → Fate
  | 0, _ => .runs
  | n + 1, k =>
    match root.pending.lookup k with
    | none => .runs
    | some record => nextFate outcome (fateAt root n) record

end Fates

variable {outcome : PyStr → JobOutcome} {fate fate' : PyStr → Fate} {root s s' : DriverState}

theorem nextFate_congr {record : PendingJob} (h : ∀ p ∈ record.parents, fate p = fate' p) :
    nextFate outcome fate record = nextFate outcome fate' record := by
  have hstops : (∃ p ∈ record.parents, Stops outcome fate p) ↔ ∃ p ∈ record.parents, Stops outcome fate' p :=
    exists_congr fun p => and_congr_right fun hp => by rw [Stops, Stops, h p hp]
  have hfails : (∃ p ∈ record.parents, Fails outcome fate p) ↔ ∃ p ∈ record.parents, Fails outcome fate' p :=
    exists_congr fun p => and_congr_right fun hp => by rw [Fails, Fails, h p hp]
  unfold nextFate
  simp only [hstops, hfails]

theorem exists_fate (outcome : PyStr → JobOutcome) (hbooks : root.Consistent) (hranked : root.Ranked)
    (hfresh : root.settled = ∅) : ∃ fate, IsFate outcome fate root := by
  obtain ⟨rank, hrank⟩ := hranked
  have hparents : ∀ e ∈ root.pending, ∀ p ∈ e.snd.parents, rank p < rank e.fst := by
    intro e he p hp
    have hwaits : p ∈ e.snd.waits := Finset.mem_union_left _ hp
    refine hrank e he p hwaits (((hbooks.known p).mp (hbooks.waits e he p hwaits)).resolve_right ?_)
    rw [hfresh]
    exact Finset.notMem_empty p
  -- deep enough is deep enough
  have hstable : ∀ n m k, rank k < n → rank k < m → fateAt outcome root n k = fateAt outcome root m k := by
    intro n
    induction n with
    | zero => exact fun m k h => absurd h (Nat.not_lt_zero _)
    | succ n ih =>
      intro m k hn hm
      cases m with
      | zero => exact absurd hm (Nat.not_lt_zero _)
      | succ m =>
        rw [fateAt, fateAt]
        cases hlookup : root.pending.lookup k with
        | none => rfl
        | some record =>
          refine nextFate_congr fun p hp => ?_
          have hlt : rank p < rank k := hparents _ (lookup_mem hlookup) p hp
          exact ih m p (by omega) (by omega)
  refine ⟨fun k => fateAt outcome root (rank k + 1) k, fun e he => ?_⟩
  have hlookup := lookup_of_mem hbooks.pendingNodup he
  show fateAt outcome root (rank e.fst + 1) e.fst = _
  rw [fateAt, hlookup]
  refine nextFate_congr fun p hp => ?_
  have hlt := hparents e he p hp
  exact hstable _ _ p hlt (Nat.lt_succ_self _)

/-! ## The driver follows the fates -/

/-- **Distinct jobs have distinct UUIDs.** -/
def UuidsDistinct (s : DriverState) : Prop :=
  ∀ k ∈ s.known, ∀ k' ∈ s.known, s.uuidOf k = s.uuidOf k' → k = k'

/-- **The status sets hold of each settled job what its fate says.** -/
structure Agrees (outcome : PyStr → JobOutcome) (fate : PyStr → Fate) (root s : DriverState) : Prop where
  books : s.Consistent
  going : s.stopJobflow = false
  identities : s.identities = root.identities
  records : ∀ e ∈ s.pending, e ∈ root.pending
  completed : ∀ k ∈ s.settled, (k ∈ s.completed ↔ fate k = .runs)
  skipped : ∀ k ∈ s.settled, (k ∈ s.skipped ↔ fate k ≠ .runs)
  stopped : ∀ k ∈ s.settled, (k ∈ s.stopped ↔ Stops outcome fate k)
  errored : ∀ k ∈ s.settled, (k ∈ s.errored ↔ Fails outcome fate k)
  running : ∀ k ∈ s.running, k ∈ s.keys ∧ fate k = .runs

theorem statuses_subset (s : DriverState) : s.completed ⊆ s.settled ∧ s.errored ⊆ s.settled
    ∧ s.stopped ⊆ s.settled ∧ s.skipped ⊆ s.settled := by
  refine ⟨fun k hk => ?_, fun k hk => ?_, fun k hk => ?_, fun k hk => ?_⟩
  all_goals simp [DriverState.settled, hk]

namespace Agrees

variable {key : PyStr}

/-- **Settling one job as its fate says.** -/
theorem settle (h : Agrees outcome fate root s) (hsettling : Settling s s' {key}) (hgoing : s'.stopJobflow = false)
    (hcompleted : ∀ k, k ∈ s'.completed ↔ k ∈ s.completed ∨ (k = key ∧ fate key = .runs))
    (hskipped : ∀ k, k ∈ s'.skipped ↔ k ∈ s.skipped ∨ (k = key ∧ fate key ≠ .runs))
    (hstopped : ∀ k, k ∈ s'.stopped ↔ k ∈ s.stopped ∨ (k = key ∧ Stops outcome fate key))
    (herrored : ∀ k, k ∈ s'.errored ↔ k ∈ s.errored ∨ (k = key ∧ Fails outcome fate key))
    (hrunning : key ∉ s'.running) : Agrees outcome fate root s' := by
  have hkey : key ∉ s.settled := h.books.apart key (hsettling.inKeys key (Finset.mem_singleton_self key))
  have hstatus : ∀ {c c' : Finset PyStr} {P : PyStr → Prop}, c ⊆ s.settled →
      (∀ k, k ∈ c' ↔ k ∈ c ∨ (k = key ∧ P key)) → (∀ k ∈ s.settled, (k ∈ c ↔ P k)) →
      ∀ k ∈ s'.settled, (k ∈ c' ↔ P k) := by
    intro c c' P hsub hc' hc k hk
    rw [hsettling.settled] at hk
    rcases Finset.mem_union.mp hk with hk | hk
    · have hne : k ≠ key := fun heq => hkey (heq ▸ hk)
      rw [hc', hc k hk]
      simp [hne]
    · obtain rfl := Finset.mem_singleton.mp hk
      rw [hc']
      simp [show k ∉ c from fun hmem => hkey (hsub hmem)]
  obtain ⟨hcompletedSub, herroredSub, hstoppedSub, hskippedSub⟩ := statuses_subset s
  constructor
  case books => exact h.books.settling hsettling
  case going => exact hgoing
  case identities => exact hsettling.identities.trans h.identities
  case records =>
    intro e he
    rw [hsettling.pending] at he
    exact h.records e (List.mem_of_mem_filter he)
  case completed => exact hstatus hcompletedSub hcompleted h.completed
  case skipped => exact hstatus hskippedSub hskipped h.skipped
  case stopped => exact hstatus hstoppedSub hstopped h.stopped
  case errored => exact hstatus herroredSub herrored h.errored
  case running =>
    intro k hk
    obtain ⟨hkeys, hfate⟩ := h.running k (hsettling.running hk)
    refine ⟨hsettling.mem_keys.mpr ⟨hkeys, fun hpopped => hrunning ?_⟩, hfate⟩
    rwa [← Finset.mem_singleton.mp hpopped]

variable {record : PendingJob}

theorem fate_eq (h : Agrees outcome fate root s) (hfate : IsFate outcome fate root)
    (hmem : (key, record) ∈ s.pending) : fate key = nextFate outcome fate record :=
  hfate _ (h.records _ hmem)

theorem status_iff (h : Agrees outcome fate root s) (huuids : root.UuidsDistinct)
    (hwaits : record.waits ⊆ s.settled) {c : Finset PyStr} {P : PyStr → Prop}
    (hsub : c ⊆ s.settled) (hc : ∀ k ∈ s.settled, (k ∈ c ↔ P k)) :
    (s.statusUuids record.parents ∩ s.statusUuids c).Nonempty ↔ ∃ p ∈ record.parents, P p := by
  have hparents : ∀ p ∈ record.parents, p ∈ s.settled := fun p hp =>
    hwaits (Finset.mem_union_left _ hp)
  have hknown : ∀ k ∈ s.settled, k ∈ root.known := by
    intro k hk
    unfold known
    rw [← h.identities]
    exact (h.books.known k).mpr (Or.inr hk)
  have huuidOf : ∀ k, s.uuidOf k = root.uuidOf k := by
    intro k
    unfold uuidOf
    rw [h.identities]
  constructor
  · rintro ⟨uuid, huuid⟩
    obtain ⟨hparent, hstatus⟩ := Finset.mem_inter.mp huuid
    obtain ⟨p, hp, rfl⟩ := Finset.mem_image.mp hparent
    obtain ⟨k, hk, hsame⟩ := Finset.mem_image.mp hstatus
    rw [huuidOf, huuidOf] at hsame
    obtain rfl := huuids k (hknown k (hsub hk)) p (hknown p (hparents p hp)) hsame
    exact ⟨k, hp, (hc k (hsub hk)).mp hk⟩
  · rintro ⟨p, hp, hP⟩
    refine ⟨s.uuidOf p, Finset.mem_inter.mpr ⟨Finset.mem_image_of_mem _ hp, Finset.mem_image_of_mem _ ?_⟩⟩
    exact (hc p (hparents p hp)).mpr hP

theorem stopsNext_iff (h : Agrees outcome fate root s) (huuids : root.UuidsDistinct)
    (hwaits : record.waits ⊆ s.settled) :
    s.StopsNext record ↔ ∃ p ∈ record.parents, Stops outcome fate p :=
  h.status_iff huuids hwaits (statuses_subset s).2.2.1 h.stopped

theorem failsNext_iff (h : Agrees outcome fate root s) (huuids : root.UuidsDistinct)
    (hwaits : record.waits ⊆ s.settled) :
    s.FailsNext record ↔ ∃ p ∈ record.parents, Fails outcome fate p :=
  h.status_iff huuids hwaits (statuses_subset s).2.1 h.errored

theorem notMem_running (h : Agrees outcome fate root s) (hfate : fate key ≠ .runs) : key ∉ s.running :=
  fun hk => hfate (h.running key hk).2

theorem stop (h : Agrees outcome fate root s) (hkey : key ∈ s.keys) (hfate : fate key = .stopped) :
    Agrees outcome fate root (s.stop key) := by
  have hruns : fate key ≠ .runs := by rw [hfate]; decide
  refine h.settle (settling_stop hkey) h.going ?_ ?_ ?_ ?_ (h.notMem_running hruns)
  · simp [DriverState.stop, hruns]
  · simp [DriverState.stop, hruns, or_comm]
  · simp [DriverState.stop, Stops, hfate, or_comm]
  · simp [DriverState.stop, Fails, hfate]

theorem poison (h : Agrees outcome fate root s) (hkey : key ∈ s.keys) (hfate : fate key = .poisoned) :
    Agrees outcome fate root (s.poison key) := by
  have hruns : fate key ≠ .runs := by rw [hfate]; decide
  refine h.settle (settling_poison hkey) h.going ?_ ?_ ?_ ?_ (h.notMem_running hruns)
  · simp [DriverState.poison, hruns]
  · simp [DriverState.poison, hruns, or_comm]
  · simp [DriverState.poison, Stops, hfate]
  · simp [DriverState.poison, Fails, hfate, or_comm]

/-- **One job of a pass** is settled as its fate says. -/
theorem skipped_step (h : Agrees outcome fate root s) (hfate : IsFate outcome fate root)
    (huuids : root.UuidsDistinct) (hskipped : Skipped s key true s') : Agrees outcome fate root s' := by
  cases hskipped with
  | @stops record hlookup hwaits hstops =>
    have hmem := lookup_mem hlookup
    refine h.stop (DriverState.mem_keys.mpr ⟨record, hmem⟩) ?_
    rw [h.fate_eq hfate hmem, nextFate, if_pos ((h.stopsNext_iff huuids hwaits).mp hstops)]
  | @fails record hlookup hwaits hstops hfails herror =>
    have hmem := lookup_mem hlookup
    refine h.poison (DriverState.mem_keys.mpr ⟨record, hmem⟩) ?_
    have hnone := fun hex => hstops ((h.stopsNext_iff huuids hwaits).mpr hex)
    have hsome := (h.failsNext_iff huuids hwaits).mp hfails
    rw [h.fate_eq hfate hmem, nextFate, if_neg hnone, if_pos ⟨hsome, by rw [herror]; rfl⟩]

theorem fate_of_goes (h : Agrees outcome fate root s) (hfate : IsFate outcome fate root)
    (huuids : root.UuidsDistinct) (hmem : (key, record) ∈ s.pending)
    (hwaits : record.waits ⊆ s.settled) (hskipped : Skipped s key false s) : fate key = .runs := by
  have hlookup := lookup_of_mem h.books.pendingNodup hmem
  cases hskipped with
  | absent hnone =>
    rw [hlookup] at hnone
    cases hnone
  | waits hsome hnot =>
    rw [hlookup] at hsome
    obtain rfl := Option.some.inj hsome
    exact absurd hwaits hnot
  | goes hsome _ hstops hgoes =>
    rw [hlookup] at hsome
    obtain rfl := Option.some.inj hsome
    have hnone := fun hex => hstops ((h.stopsNext_iff huuids hwaits).mpr hex)
    rw [h.fate_eq hfate hmem, nextFate, if_neg hnone, if_neg]
    rintro ⟨hfails, herror⟩
    rw [hgoes ((h.failsNext_iff huuids hwaits).mpr hfails)] at herror
    exact absurd herror (by decide)

theorem settleSkips (h : Agrees outcome fate root s) (hfate : IsFate outcome fate root)
    (huuids : root.UuidsDistinct) {u : Unit} (hsettle : DriverState.settleSkips s = .ok u s') :
    Agrees outcome fate root s' ∧ ∀ k ∈ s'.keys, Skipped s' k false s' := by
  obtain ⟨hagrees, -, -, hquiet⟩ := settleSkips_ok (fun t key t' ht hstep => Agrees.skipped_step ht hfate huuids hstep)
    (fun t ht hstop => absurd (ht.going.symm.trans hstop) (by decide)) hsettle h
  exact ⟨hagrees, hquiet h.going⟩

theorem stopDescendants (h : Agrees outcome fate root s) (hfate : IsFate outcome fate root)
    {queue : List PyStr} (hqueue : ∀ k ∈ queue, k ∈ s.keys → fate k = .stopped) :
    Agrees outcome fate root (s.stopDescendants queue) := by
  induction s, queue using DriverState.stopDescendants.induct with
  | case1 s =>
    rw [DriverState.stopDescendants]
    exact h
  | case2 s key queue hkey stopped ih =>
    rw [DriverState.stopDescendants, dif_pos hkey]
    obtain ⟨hfirst, hrest⟩ := List.forall_mem_cons.mp hqueue
    have hstopped := hfirst hkey
    have hagrees := h.stop hkey hstopped
    have hsettling := settling_stop hkey
    have herase : (s.stop key).running.erase key = (s.stop key).running :=
      Finset.erase_eq_of_notMem (h.notMem_running (by rw [hstopped]; decide))
    have hsame : stopped = s.stop key := by
      show { s.stop key with running := s.running.erase key } = _
      rw [show s.running.erase key = s.running from herase]
      rfl
    show Agrees outcome fate root
      (stopped.stopDescendants ((stopped.dependents PendingJob.parents key).reverse ++ queue))
    rw [hsame] at ih ⊢
    refine ih hagrees fun k hk hpending => ?_
    rcases List.mem_append.mp hk with hk | hk
    · obtain ⟨e, he, rfl⟩ := List.mem_map.mp (List.mem_reverse.mp hk)
      obtain ⟨hmem, hparent⟩ := List.mem_filter.mp he
      rw [hagrees.fate_eq hfate hmem, nextFate, if_pos]
      exact ⟨key, of_decide_eq_true hparent, Or.inl hstopped⟩
    · exact hrest k hk (hsettling.mem_keys.mp hpending).1
  | case3 s key queue hkey ih =>
    rw [DriverState.stopDescendants, dif_neg hkey]
    exact ih h fun k hk => hqueue k (List.mem_cons_of_mem _ hk)

theorem result (h : Agrees outcome fate root s) (hkey : key ∈ s.running) (hgoing : s'.stopJobflow = false)
    (hsettling : Settling s s' {key}) (hcompleted : s'.completed = insert key s.completed)
    (hskipped : s'.skipped = s.skipped) (hrunning : s'.running = s.running.erase key)
    (hstopped : ∀ k, k ∈ s'.stopped ↔ k ∈ s.stopped ∨ (k = key ∧ outcome key = .stopChildren))
    (herrored : ∀ k, k ∈ s'.errored ↔ k ∈ s.errored ∨ (k = key ∧ outcome key = .error)) :
    Agrees outcome fate root s' := by
  have hruns : fate key = .runs := (h.running key hkey).2
  refine h.settle hsettling hgoing ?_ ?_ ?_ ?_ ?_
  · simp [hcompleted, hruns, or_comm]
  · simp [hskipped, hruns]
  · simpa [Stops, hruns] using hstopped
  · simpa [Fails, hruns] using herrored
  · rw [hrunning]
    exact Finset.notMem_erase key _

theorem responded (h : Agrees outcome fate root s) (hfate : IsFate outcome fate root)
    (hkey : key ∈ s.running) {response : JobResponse} (hgo : response.stopJobflow = false)
    (hanswer : outcome key ≠ .error)
    (hchildren : response.stopChildren = true ↔ outcome key = .stopChildren) :
    Agrees outcome fate root (s.responded key response) := by
  obtain ⟨hpending, hruns⟩ := h.running key hkey
  have hstored : Settling s ((s.finish key).storeData key response.storedData) {key} :=
    (settling_finish hpending).congr rfl rfl rfl rfl (Finset.Subset.refl _)
  unfold DriverState.responded
  dsimp only
  rw [if_neg (by rw [hgo]; exact Bool.false_ne_true)]
  by_cases hstops : response.stopChildren = true
  · rw [if_pos hstops]
    have houtcome := hchildren.mp hstops
    have hmarked : Agrees outcome fate root
        { (s.finish key).storeData key response.storedData with
          stopped := insert key ((s.finish key).storeData key response.storedData).stopped } := by
      refine h.result hkey h.going (hstored.congr rfl ?_ rfl rfl (Finset.Subset.refl _)) rfl rfl rfl ?_ ?_
      · ext k
        simp only [DriverState.settled, storeData, finish, Finset.mem_union, Finset.mem_insert]
        tauto
      · simp [storeData, finish, houtcome, or_comm]
      · simp [storeData, finish, houtcome]
    refine hmarked.stopDescendants hfate fun k hk _ => ?_
    obtain ⟨e, he, rfl⟩ := List.mem_map.mp (List.mem_of_mem_filter (List.mem_reverse.mp hk))
    obtain ⟨hmem, hparent⟩ := List.mem_filter.mp he
    rw [h.fate_eq hfate hmem, nextFate, if_pos]
    exact ⟨key, of_decide_eq_true hparent, Or.inr ⟨hruns, houtcome⟩⟩
  · rw [if_neg hstops]
    have houtcome : outcome key ≠ .stopChildren := fun heq => hstops (hchildren.mpr heq)
    refine h.result hkey h.going hstored rfl rfl rfl ?_ ?_
    · simp [storeData, finish, houtcome]
    · simp [storeData, finish, hanswer]

theorem failed (h : Agrees outcome fate root s) (hkey : key ∈ s.running) (hanswer : outcome key = .error)
    (message : Message) : Agrees outcome fate root (s.failed key message) := by
  refine h.result hkey h.going (settling_failed (h.running key hkey).1 message) rfl rfl rfl ?_ ?_
  · simp [DriverState.failed, finish, hanswer]
  · simp [DriverState.failed, hanswer, or_comm]

end Agrees

/-! ## Static runs -/

/-- A response that adds no jobs and does not stop the whole flow. -/
structure StaticResponse (response : JobResponse) : Prop where
  going : response.stopJobflow = false
  replace : response.replace = none
  detour : response.detour = none
  addition : response.addition = none

/-- **A run of a static flow** with given answers: ready jobs are dispatched, some or all that are
ready at a time, dispatched jobs may be returned to the pending ones, results of running jobs are
applied in any order, and checkpoints are taken and restored. -/
inductive StaticRun (root : DriverState) (outcome : PyStr → JobOutcome) : DriverState → Prop where
  | start : StaticRun root outcome root
  | dispatch {s t t' : DriverState} (h : StaticRun root outcome s) {jobs selected : List FlowJob}
      (hready : ready s = .ok jobs t) (hselected : ∀ job ∈ selected, job ∈ jobs)
      (hmark : (selected.forM fun job => markRunning job.key) t = .ok () t') : StaticRun root outcome t'
  | returned {s t : DriverState} (h : StaticRun root outcome s) {key : PyStr} (hkey : key ∈ s.running)
      (hmark : markPending key s = .ok () t) : StaticRun root outcome t
  | success {s t : DriverState} (h : StaticRun root outcome s) {key : PyStr} (hkey : key ∈ s.running)
      {response : JobResponse} (hstatic : StaticResponse response) (hanswer : outcome key ≠ .error)
      (hchildren : response.stopChildren = true ↔ outcome key = .stopChildren)
      (happly : applySuccess key response s = .ok () t) : StaticRun root outcome t
  | failure {s t : DriverState} (h : StaticRun root outcome s) {key : PyStr} (hkey : key ∈ s.running)
      (hanswer : outcome key = .error) {message : Message}
      (happly : applyError key message s = .ok () t) : StaticRun root outcome t
  | checkpoint {s : DriverState} (h : StaticRun root outcome s) :
      StaticRun root outcome (fromMapping s.toMapping)

variable {flow : JobFlow} {rootOutput : Json}

theorem known_fromFlow (hroot : fromFlow flow rootOutput = .ok root) : root.known = flow.keys := by
  obtain ⟨-, rfl⟩ := fromFlow_ok hroot
  show ((blank rootOutput).introduced flow.jobs).known = _
  rw [known_introduced]
  rfl

theorem uuidsDistinct_fromFlow (hroot : fromFlow flow rootOutput = .ok root) (hbooks : root.Consistent) :
    root.UuidsDistinct := by
  intro k hk k' hk' hsame
  have hknown := known_fromFlow hroot
  obtain ⟨e, he, rfl⟩ := List.mem_map.mp (hknown ▸ hk)
  obtain ⟨e', he', rfl⟩ := List.mem_map.mp (hknown ▸ hk')
  have huuid : e.fst.uuid = e'.fst.uuid := by
    calc e.fst.uuid = root.uuidOf e.fst.key := (hbooks.uuidOf_jobKey hk).symm
      _ = root.uuidOf e'.fst.key := hsame
      _ = e'.fst.uuid := hbooks.uuidOf_jobKey hk'
  rw [List.inj_on_of_nodup_map flow.nodup he he' huuid]

theorem agrees_fromFlow (hroot : fromFlow flow rootOutput = .ok root) : Agrees outcome fate root root := by
  have hbooks := (BackRun.start hroot).ranked.1
  obtain ⟨haddable, rfl⟩ := fromFlow_ok hroot
  have hnone : ∀ k, k ∉ ((blank rootOutput).added flow).settled := fun k => by
    simp [DriverState.settled, added, introduced, blank]
  exact
    { books := hbooks
      going := rfl
      identities := rfl
      records := fun _ he => he
      completed := fun k hk => absurd hk (hnone k)
      skipped := fun k hk => absurd hk (hnone k)
      stopped := fun k hk => absurd hk (hnone k)
      errored := fun k hk => absurd hk (hnone k)
      running := fun k hk => absurd hk (Finset.notMem_empty k) }

theorem Agrees.marked (h : Agrees outcome fate root s) {running : Finset PyStr}
    (hrunning : ∀ k ∈ running, k ∈ s.keys ∧ fate k = .runs) :
    Agrees outcome fate root { s with running := running } :=
  { books := h.books.marked running
    going := h.going
    identities := h.identities
    records := h.records
    completed := h.completed
    skipped := h.skipped
    stopped := h.stopped
    errored := h.errored
    running := hrunning }

theorem Agrees.dispatch (h : Agrees outcome fate root s) {selected : List FlowJob} {u : PUnit}
    (hselected : ∀ job ∈ selected, job.key ∈ s.keys ∧ fate job.key = .runs)
    (hmark : (selected.forM fun job => markRunning job.key) s = .ok u s') :
    Agrees outcome fate root s' := by
  induction selected generalizing s with
  | nil =>
    obtain rfl := Driving.forM_nil.mp hmark
    exact h
  | cons job selected ih =>
    obtain ⟨hfirst, hrest⟩ := List.forall_mem_cons.mp hselected
    obtain ⟨_, t, hone, hothers⟩ := Driving.forM_cons.mp hmark
    obtain ⟨key, t', hkey, hmodify⟩ := Driving.bind_ok.mp hone
    rw [pendingKey_of_mem hfirst.1] at hkey
    cases hkey
    obtain rfl := Driving.modify_ok.mp hmodify
    have hmarked : Agrees outcome fate root { s with running := insert job.key s.running } := by
      refine h.marked fun k hk => ?_
      obtain rfl | hk := Finset.mem_insert.mp hk
      · exact hfirst
      · exact h.running k hk
    exact ih hmarked hrest hothers

theorem StaticRun.agrees (h : StaticRun root outcome s) (hroot : fromFlow flow rootOutput = .ok root)
    (hfate : IsFate outcome fate root) : Agrees outcome fate root s := by
  have huuids := uuidsDistinct_fromFlow hroot (BackRun.start hroot).ranked.1
  induction h with
  | start => exact agrees_fromFlow hroot
  | @dispatch s t t' _ jobs selected hready hselected hmark ih =>
    obtain ⟨hsettle, rfl⟩ := ready_ok hready
    obtain ⟨hagrees, hquiet⟩ := ih.settleSkips hfate huuids hsettle
    refine hagrees.dispatch (fun job hjob => ?_) hmark
    obtain ⟨e, he, rfl⟩ := List.mem_map.mp (hselected job hjob)
    obtain ⟨hmem, hready⟩ := List.mem_filter.mp he
    have hkeys : e.fst ∈ t.keys := List.mem_map_of_mem hmem
    have hwaits : e.snd.waits ⊆ t.settled := (of_decide_eq_true hready).2
    rw [← hagrees.books.jobs e hmem]
    exact ⟨hkeys, hagrees.fate_of_goes hfate huuids hmem hwaits (hquiet e.fst hkeys)⟩
  | returned _ hkey hmark ih =>
    obtain ⟨key, t', hpending, hmodify⟩ := Driving.bind_ok.mp hmark
    obtain ⟨rfl, -⟩ := pendingKey_ok hpending
    obtain rfl := Driving.modify_ok.mp hmodify
    exact ih.marked fun k hk => ih.running k (Finset.mem_of_mem_erase hk)
  | @success s t _ key hkey response hstatic hanswer hchildren happly ih =>
    obtain ⟨key', hpending, ⟨hstop, -⟩ | ⟨-, t', hadds, hsettle⟩⟩ := (applySuccess_ok ih.books).mp happly
    · exact absurd (hstatic.going.symm.trans hstop) (by decide)
    · rw [pendingKey_of_mem (ih.running key hkey).1] at hpending
      cases hpending
      have hnone : s.flowsOf key response = [] := by
        simp [flowsOf, responseFlows, hstatic.replace, hstatic.detour, hstatic.addition]
      rw [hnone] at hadds
      cases hadds
      exact ((ih.responded hfate hkey hstatic.going hanswer hchildren).settleSkips hfate huuids hsettle).1
  | @failure s t _ key hkey hanswer message happly ih =>
    obtain ⟨key', hpending, hsettle⟩ := applyError_ok.mp happly
    rw [pendingKey_of_mem (ih.running key hkey).1] at hpending
    cases hpending
    exact ((ih.failed hkey hanswer message).settleSkips hfate huuids hsettle).1
  | checkpoint _ ih =>
    rw [fromMapping_toMapping ih.books.pendingNodup]
    exact ih

/-- **The results of a static flow do not depend on their order.** Two runs with the same answers,
in which no job is left pending, end with the same status sets. -/
theorem static_flow_confluent (hroot : fromFlow flow rootOutput = .ok root)
    (h : StaticRun root outcome s) (h' : StaticRun root outcome s') (hdone : s.pending = [])
    (hdone' : s'.pending = []) :
    s.completed = s'.completed ∧ s.errored = s'.errored ∧ s.stopped = s'.stopped
      ∧ s.skipped = s'.skipped := by
  have hranked := (BackRun.start hroot).ranked
  obtain ⟨fate, hfate⟩ := exists_fate outcome hranked.1 hranked.2 (by
    obtain ⟨-, rfl⟩ := fromFlow_ok hroot
    rfl)
  have hagrees := h.agrees hroot hfate
  have hagrees' := h'.agrees hroot hfate
  have hall : ∀ {t}, Agrees outcome fate root t → t.pending = [] → ∀ k, k ∈ t.settled ↔ k ∈ root.known := by
    intro t ht hpending k
    have hkeys : k ∉ t.keys := by
      unfold keys
      rw [hpending]
      exact List.not_mem_nil
    have hknown := ht.books.known k
    unfold known at hknown ⊢
    rw [← ht.identities, hknown]
    exact ⟨Or.inr, fun hk => hk.resolve_left hkeys⟩
  have hsame : ∀ {c c' : Finset PyStr} {P : PyStr → Prop}, c ⊆ s.settled → c' ⊆ s'.settled →
      (∀ k ∈ s.settled, (k ∈ c ↔ P k)) → (∀ k ∈ s'.settled, (k ∈ c' ↔ P k)) → c = c' := by
    intro c c' P hsub hsub' hc hc'
    ext k
    have hsettled : k ∈ s.settled ↔ k ∈ s'.settled := by
      rw [hall hagrees hdone, hall hagrees' hdone']
    constructor
    · intro hk
      exact (hc' k (hsettled.mp (hsub hk))).mpr ((hc k (hsub hk)).mp hk)
    · intro hk
      exact (hc k (hsettled.mpr (hsub' hk))).mpr ((hc' k (hsub' hk)).mp hk)
  obtain ⟨hc, he, hs, hk⟩ := statuses_subset s
  obtain ⟨hc', he', hs', hk'⟩ := statuses_subset s'
  exact ⟨hsame hc hc' hagrees.completed hagrees'.completed, hsame he he' hagrees.errored hagrees'.errored,
    hsame hs hs' hagrees.stopped hagrees'.stopped, hsame hk hk' hagrees.skipped hagrees'.skipped⟩

namespace ReusedFlow

def failing (k : PyStr) : JobOutcome := if k = (job "relax").key then .error else .success

/-- The pair, and a job that has nothing to do with it. -/
def trio : JobFlow where
  jobs := [(job "relax", []), (job "other", []), (job "static", [(job "relax").uuid])]
  nodup := by decide
  acyclic := ⟨fun uuid => if uuid = (job "static").uuid then 1 else 0, by decide⟩

def trioPlanned : DriverState := (blank .null).added trio

theorem fromFlow_trio : fromFlow trio .null = .ok trioPlanned :=
  fromFlow_of_addable ⟨by decide, by simp [trio, job]⟩

theorem plain_static : StaticResponse plain := ⟨rfl, rfl, rfl, rfl⟩

/-- Both of the first jobs run at once, and the one that fails is the first to end. -/
def errorFirst : DriverState :=
  (DriverOp.applySuccess (job "other").key plain).after
    ((DriverOp.applyError (job "relax").key [.lit "no convergence"]).after
      ((DriverOp.markRunning (job "other").key).after ((DriverOp.markRunning (job "relax").key).after trioPlanned)))

/-- The other job is dispatched alone, and ends before the one that fails is dispatched. -/
def errorLast : DriverState :=
  (DriverOp.applyError (job "relax").key [.lit "no convergence"]).after
    ((DriverOp.markRunning (job "relax").key).after ((DriverOp.applySuccess (job "other").key plain).after
      ((DriverOp.markRunning (job "other").key).after trioPlanned)))

theorem errorFirst_staticRun : StaticRun trioPlanned failing errorFirst := by
  have hready : ready trioPlanned = .ok [job "relax", job "other"] trioPlanned := rfl
  have hrunning : StaticRun trioPlanned failing _ := .dispatch .start hready (fun _ h => h) rfl
  have hfailed : StaticRun trioPlanned failing _ := .failure hrunning (show (job "relax").key ∈ _ by decide) (by decide)
    (show applyError _ [.lit "no convergence"] _ = _ from rfl)
  exact .success hfailed (show (job "other").key ∈ _ by decide) plain_static (by decide) (by decide) rfl

theorem errorLast_staticRun : StaticRun trioPlanned failing errorLast := by
  have hready : ready trioPlanned = .ok [job "relax", job "other"] trioPlanned := rfl
  have hother : ∀ j ∈ [job "other"], j ∈ [job "relax", job "other"] := fun j hj => List.mem_cons_of_mem _ hj
  have halone : StaticRun trioPlanned failing _ := .dispatch .start hready hother rfl
  have hdone : StaticRun trioPlanned failing _ :=
    .success halone (show (job "other").key ∈ _ by decide) plain_static (by decide) (by decide) rfl
  have hrelax : ∀ j ∈ [job "relax"], j ∈ [job "relax"] := fun _ h => h
  have hrunning : StaticRun trioPlanned failing _ := .dispatch hdone rfl hrelax rfl
  exact .failure hrunning (show (job "relax").key ∈ _ by decide) (by decide)
    (show applyError _ [.lit "no convergence"] _ = _ from rfl)

end ReusedFlow

/-- A flow whose first job fails, with two orders of dispatch. -/
theorem static_flow_confluent_orders : ReusedFlow.errorFirst.completed = ReusedFlow.errorLast.completed
    ∧ ReusedFlow.errorFirst.errored = ReusedFlow.errorLast.errored
    ∧ ReusedFlow.errorFirst.stopped = ReusedFlow.errorLast.stopped
    ∧ ReusedFlow.errorFirst.skipped = ReusedFlow.errorLast.skipped :=
  static_flow_confluent ReusedFlow.fromFlow_trio ReusedFlow.errorFirst_staticRun ReusedFlow.errorLast_staticRun
    (by decide) (by decide)

end DriverState
