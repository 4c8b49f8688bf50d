import Mathlib.Data.Finset.Lattice.Fold
import Mathlib.Data.Finset.Max
import HttkWorkflow.JobflowRuns

/-!
# No flow is stalled

The jobs that wait for each other would stall a flow. A response adds jobs
with parents of their own, and puts them as barriers before jobs that were
there, so that what a job waits for grows while the flow runs.

It never grows into a circle. The pending jobs can be ranked so that each
waits for jobs of lower rank only (`Ranked`). A flow that is added comes
below everything that is pending: its jobs keep their depth in the flow, and
all others are lifted above them. Its own jobs wait for nothing else, since
their references lead to the flow or to what is settled
(`RefersBack`). A job of least rank is then ready.
-/

open Dict (assign)

namespace DriverState

variable {s s' : DriverState} {flow : JobFlow}

/-! ## References -/

/-- **The references of a flow lead to its own jobs or to settled ones.** -/
def RefersBack (s : DriverState) (flow : JobFlow) : Prop :=
  ∀ e ∈ flow.jobs, ∀ uuid ∈ e.fst.references, uuid ∉ flow.uuids →
    ∀ k ∈ s.known, s.uuidOf k = uuid → k ∈ s.settled

/-- The same of flows that are added one after the other. -/
def FlowsReferBack (s : DriverState) : List (Except Exc JobFlow × List PyStr) → Prop
  | [] => True
  | (.error _, _) :: _ => True
  | (.ok flow, dependents) :: flows => s.RefersBack flow ∧
    FlowsReferBack ((s.added flow).addBarriers dependents flow.keys.toFinset) flows

/-- **The key of a job names its UUID.** -/
theorem Consistent.uuidOf_jobKey (hs : s.Consistent) {uuid : PyStr} {index : ℕ}
    (hk : jobKey uuid index ∈ s.known) : s.uuidOf (jobKey uuid index) = uuid := by
  obtain ⟨value, hlookup⟩ : ∃ value, s.identities.lookup (jobKey uuid index) = some value := by
    cases h : s.identities.lookup (jobKey uuid index) with
    | some value => exact ⟨value, rfl⟩
    | none =>
      obtain ⟨e, he, hkey⟩ := List.mem_map.mp hk
      have := List.lookup_eq_none_iff.mp h e he
      simp [hkey] at this
  obtain ⟨before, after, hsplit, -⟩ := List.lookup_eq_some_iff.mp hlookup
  have hmem : (jobKey uuid index, value) ∈ s.identities := by
    rw [hsplit]
    exact List.mem_append_right _ List.mem_cons_self
  have huuid := jobKey_uuid (hs.named _ hmem)
  unfold uuidOf
  rw [hlookup]
  exact huuid.symm

variable {k : PyStr}

theorem Consistent.exists_jobKey (hs : s.Consistent) (hk : k ∈ s.known) : ∃ uuid index, k = jobKey uuid index := by
  obtain ⟨e, he, rfl⟩ := List.mem_map.mp hk
  exact ⟨e.snd.fst, e.snd.snd, hs.named e he⟩

theorem Consistent.uuidOf_eq (hs : s.Consistent) (hs' : s'.Consistent) (hk : k ∈ s.known)
    (hk' : k ∈ s'.known) : s'.uuidOf k = s.uuidOf k := by
  obtain ⟨uuid, index, rfl⟩ := hs.exists_jobKey hk
  rw [hs.uuidOf_jobKey hk, hs'.uuidOf_jobKey hk']

theorem parentsOf_of_refersBack (hs : s.Consistent) (hadd : s.Addable flow) (hback : s.RefersBack flow)
    {e : FlowJob × List PyStr} (he : e ∈ flow.jobs)
    (hk : k ∈ (s.introduced flow.jobs).parentsOf flow e) :
    ∃ e' ∈ flow.jobs, e'.fst.uuid ∈ e.snd ∧ k = e'.fst.key := by
  have hadded := hs.added hadd
  unfold parentsOf at hk
  rcases Finset.mem_union.mp hk with hk | hk
  · obtain ⟨uuid, huuid, hlookup⟩ := List.mem_filterMap.mp (List.mem_toFinset.mp hk)
    obtain ⟨e', he', rfl, rfl⟩ := flow.of_lookup hlookup
    exact ⟨e', he', huuid, rfl⟩
  · obtain ⟨uuid, huuid, hlatest⟩ := List.mem_filterMap.mp (List.mem_toFinset.mp hk)
    obtain ⟨hreference, houtside⟩ := List.mem_filter.mp huuid
    have hcondition := List.find?_some hlatest
    obtain ⟨hname, hunsettled⟩ := of_decide_eq_true hcondition
    have hmem : k ∈ s.order ++ flow.jobs.map fun e => e.fst.key :=
      List.mem_reverse.mp (List.mem_of_find?_eq_some hlatest)
    have hnew : k ∈ (s.added flow).known := (hadded.order k).mp hmem
    rcases List.mem_append.mp hmem with hold | hown
    · have hold := (hs.order k).mp hold
      have hsame := hs.uuidOf_eq hadded hold hnew
      exact absurd (hback e he uuid hreference (of_decide_eq_true houtside) k hold
        (hsame.symm.trans hname)) hunsettled
    · -- the flow's own UUIDs are not external
      obtain ⟨e', he', rfl⟩ := List.mem_map.mp hown
      have hsame : (s.added flow).uuidOf e'.fst.key = e'.fst.uuid := hadded.uuidOf_jobKey hnew
      refine absurd (List.mem_map.mpr ⟨e', he', ?_⟩) (of_decide_eq_true houtside)
      exact hsame.symm.trans hname

/-! ## Ranks -/

/-- **The pending jobs wait for jobs of lower rank.** -/
def Ranked (s : DriverState) : Prop :=
  ∃ rank : PyStr → ℕ, ∀ e ∈ s.pending, ∀ k ∈ e.snd.waits, k ∈ s.keys → rank k < rank e.fst

theorem Ranked.settling {popped : Finset PyStr} (h : s.Ranked) (hs : Settling s s' popped) : s'.Ranked := by
  obtain ⟨rank, hrank⟩ := h
  refine ⟨rank, fun e he k hk hkey => ?_⟩
  rw [hs.pending] at he
  exact hrank e (List.mem_of_mem_filter he) k hk (hs.mem_keys.mp hkey).1

theorem keys_added (s : DriverState) (flow : JobFlow) : (s.added flow).keys = s.keys ++ flow.keys := by
  show (s.pending ++ (s.introduced flow.jobs).records flow flow.jobs).map Prod.fst = _
  rw [List.map_append]
  unfold records
  rw [List.map_map]
  rfl

theorem Ranked.addedBefore (h : s.Ranked) (hs : s.Consistent) (hadd : s.Addable flow)
    (hback : s.RefersBack flow) {dependents : List PyStr} (hdependents : ∀ k ∈ dependents, k ∈ s.known) :
    ((s.added flow).addBarriers dependents flow.keys.toFinset).Ranked := by
  obtain ⟨rank, hrank⟩ := h
  obtain ⟨depth, hdepth⟩ := flow.acyclic
  have hadded := hs.added hadd
  have hdeepest : ∀ e ∈ flow.jobs, depth e.fst.uuid ≤ flow.uuids.toFinset.sup depth := fun e he =>
    Finset.le_sup (List.mem_toFinset.mpr (List.mem_map_of_mem he))
  have huuid : ∀ e ∈ flow.jobs, (s.added flow).uuidOf e.fst.key = e.fst.uuid := fun e he =>
    hadded.uuidOf_jobKey (mem_known_added s flow _ (List.mem_toFinset.mpr (List.mem_map_of_mem he)))
  have hfresh : ∀ k ∈ s.known, k ∉ flow.keys := fun k hk hk' => hadd.fresh k hk' hk
  let lifted : PyStr → ℕ := fun k =>
    if k ∈ flow.keys then depth ((s.added flow).uuidOf k)
    else rank k + flow.uuids.toFinset.sup depth + 1
  have hnew : ∀ e ∈ flow.jobs, lifted e.fst.key = depth e.fst.uuid := fun e he => by
    have hkey : e.fst.key ∈ flow.keys := List.mem_map_of_mem he
    show (if e.fst.key ∈ flow.keys then _ else _) = _
    rw [if_pos hkey, huuid e he]
  have hold : ∀ k ∈ s.known, lifted k = rank k + flow.uuids.toFinset.sup depth + 1 := fun k hk =>
    if_neg (hfresh k hk)
  have hbelow : ∀ k ∈ flow.keys, ∀ k' ∈ s.known, lifted k < lifted k' := by
    intro k hk k' hk'
    obtain ⟨e, he, rfl⟩ := List.mem_map.mp hk
    rw [hnew e he, hold k' hk']
    have := hdeepest e he
    omega
  refine ⟨lifted, fun e he k hk hkey => ?_⟩
  rw [Consistent.keys_addBarriers, keys_added] at hkey
  obtain ⟨record, hrecord, -, hparents, hbarriers⟩ := Consistent.mem_addBarriers he
  have hcases : k ∈ record.waits ∨ (e.fst ∈ dependents ∧ k ∈ flow.keys) := by
    unfold PendingJob.waits at hk ⊢
    rw [hparents] at hk
    rcases hbarriers with hbarriers | ⟨hdependent, hbarriers⟩
    · rw [hbarriers] at hk
      exact Or.inl hk
    · rw [hbarriers, ← Finset.union_assoc] at hk
      exact (Finset.mem_union.mp hk).imp id fun hk => ⟨hdependent, List.mem_toFinset.mp hk⟩
  rcases hcases with hk | ⟨hdependent, hk⟩
  · rcases List.mem_append.mp hrecord with hrecord | hrecord
    · have he' : e.fst ∈ s.known := hs.keys_known (mem_keys.mpr ⟨record, hrecord⟩)
      have hk' := hs.waits _ hrecord k hk
      rcases List.mem_append.mp hkey with hkey | hkey
      · rw [hold k hk', hold e.fst he']
        have hlt : rank k < rank e.fst := hrank _ hrecord k hk hkey
        omega
      · exact absurd hkey (hfresh k hk')
    · obtain ⟨e', he', heq⟩ := List.mem_map.mp hrecord
      obtain ⟨hfst, rfl⟩ := Prod.mk.inj heq
      have hparent : k ∈ (s.introduced flow.jobs).parentsOf flow e' := by
        simpa [PendingJob.waits] using hk
      obtain ⟨e'', he'', hmem, rfl⟩ := parentsOf_of_refersBack hs hadd hback he' hparent
      rw [← hfst, hnew e' he', hnew e'' he'']
      exact hdepth e' he' _ hmem (List.mem_map_of_mem he'')
  · exact hbelow k hk e.fst (hdependents _ hdependent)

theorem Adds.ranked {flows : List (Except Exc JobFlow × List PyStr)} (hadds : Adds s flows s')
    (h : s.Ranked) (hs : s.Consistent) (hback : s.FlowsReferBack flows)
    (hdependents : ∀ e ∈ flows, ∀ k ∈ e.snd, k ∈ s.known) : s'.Ranked := by
  induction hadds with
  | none => exact h
  | @flow s t flow dependents flows hadd _ ih =>
    obtain ⟨hfirst, hrest⟩ := List.forall_mem_cons.mp hdependents
    refine ih (h.addedBefore hs hadd hback.1 hfirst) (hs.addedBefore hadd _) hback.2 fun e he k hk => ?_
    show k ∈ (s.introduced flow.jobs).known
    rw [known_introduced]
    exact List.mem_append_left _ (hrest e he k hk)

theorem mem_flowsOf {key : PyStr} {response : JobResponse} :
    ∀ e ∈ s.flowsOf key response, ∀ k ∈ e.snd, k ∈ s.keys := by
  intro e he k hk
  have hdependents : ∀ among, k ∈ (s.dependents among key).filter (· ≠ key) → k ∈ s.keys := by
    intro among hmem
    obtain ⟨e', he', rfl⟩ := List.mem_map.mp (List.mem_of_mem_filter hmem)
    exact List.mem_map_of_mem (List.mem_of_mem_filter he')
  rcases List.mem_append.mp he with he | he
  · obtain ⟨flow, -, rfl⟩ := List.mem_map.mp he
    exact (List.mem_append.mp hk).elim (hdependents _) (hdependents _)
  · obtain ⟨flow, -, rfl⟩ := List.mem_map.mp he
    exact hdependents _ hk

theorem addBarriers_nil (s : DriverState) (added : Finset PyStr) : s.addBarriers [] added = s := by
  unfold addBarriers
  simp

/-! ## Runs that refer back -/

/-- **The flows of a call's response refer back.** -/
def DriverOp.RefersBack (s : DriverState) : DriverOp → Prop
  | .applySuccess identifier response => ∀ key, pendingKey identifier s = .ok key s →
      (s.responded key response).FlowsReferBack (s.flowsOf key response)
  | _ => True

/-- **A run of calls that return**, whose added flows refer back. -/
inductive BackRun : DriverState → Prop where
  | start {t : DriverState} {root : JobFlow} {rootOutput : Json}
      (h : fromFlow root rootOutput = .ok t) : BackRun t
  | call {t t' : DriverState} (h : BackRun t) (op : DriverOp) (hback : op.RefersBack t)
      (hreturns : op.run t = .ok () t') : BackRun t'

theorem ready_ok {jobs : List FlowJob} (h : ready s = .ok jobs s') :
    settleSkips s = .ok () s' ∧ jobs = s'.readyKeys.map fun e => e.snd.job := by
  unfold ready at h
  obtain ⟨_, t, hsettle, h⟩ := Driving.bind_ok.mp h
  rw [Driving.get_bind] at h
  have hdecoded : ∀ (entries : List (PyStr × PendingJob)) jobs,
      (entries.mapM fun e => e.snd.job.missingIsError.map fun _ => e.snd.job) = Except.ok jobs →
      jobs = entries.map fun e => e.snd.job := by
    intro entries
    induction entries with
    | nil =>
      intro jobs h
      cases h
      rfl
    | cons e entries ih =>
      intro jobs h
      rw [List.mapM_cons] at h
      cases hfirst : e.snd.job.missingIsError with
      | error exc =>
        rw [hfirst] at h
        cases h
      | ok isError =>
        rw [hfirst] at h
        cases hrest : entries.mapM fun e => e.snd.job.missingIsError.map fun _ => e.snd.job with
        | error exc =>
          rw [hrest] at h
          cases h
        | ok rest =>
          rw [hrest] at h
          cases h
          rw [List.map_cons, ← ih rest hrest]
  generalize hmap : (t.readyKeys.mapM fun e => e.snd.job.missingIsError.map fun _ => e.snd.job) = decoded at h
  cases decoded with
  | error exc => exact absurd h Driving.throw_ok
  | ok decoded =>
    obtain ⟨rfl, rfl⟩ := Driving.pure_ok.mp h
    exact ⟨hsettle, hdecoded _ _ hmap⟩

theorem DriverOp.run_ranked {op : DriverOp} (h : op.run s = .ok () s') (hback : op.RefersBack s)
    (hs : s.Consistent) (hranked : s.Ranked) : s'.Consistent ∧ s'.Ranked := by
  have hsettles : ∀ {t popped}, Settling s t popped → t.Consistent ∧ t.Ranked := fun hsettling =>
    ⟨hs.settling hsettling, hranked.settling hsettling⟩
  cases op with
  | markRunning identifier =>
    obtain ⟨key, t, hkey, hmark⟩ := Driving.bind_ok.mp h
    obtain ⟨rfl, -⟩ := pendingKey_ok hkey
    obtain rfl := Driving.modify_ok.mp hmark
    exact ⟨hs.marked _, hranked⟩
  | markPending identifier =>
    obtain ⟨key, t, hkey, hmark⟩ := Driving.bind_ok.mp h
    obtain ⟨rfl, -⟩ := pendingKey_ok hkey
    obtain rfl := Driving.modify_ok.mp hmark
    exact ⟨hs.marked _, hranked⟩
  | applySuccess identifier response =>
    obtain ⟨key, hkey, ⟨-, rfl⟩ | ⟨-, t, hadds, hsettle⟩⟩ := (applySuccess_ok hs).mp h
    · obtain ⟨popped, hsettling⟩ := settling_responded (pendingKey_ok hkey).2 response
      exact hsettles hsettling
    · obtain ⟨popped, hsettling⟩ := settling_responded (pendingKey_ok hkey).2 response
      obtain ⟨hs', hranked'⟩ := hsettles hsettling
      have hdependents : ∀ e ∈ s.flowsOf key response, ∀ k ∈ e.snd, k ∈ (s.responded key response).known := by
        intro e he k hk
        unfold known
        rw [hsettling.identities]
        exact hs.keys_known (mem_flowsOf e he k hk)
      have ht := hadds.ranked hranked' hs' (hback key hkey) hdependents
      obtain ⟨popped', hsettling'⟩ := settleSkips_settling hsettle
      exact ⟨(hadds.consistent hs').settling hsettling', ht.settling hsettling'⟩
  | applyError identifier message =>
    obtain ⟨key, hkey, hsettle⟩ := applyError_ok.mp h
    obtain ⟨popped, hsettling⟩ := settleSkips_settling hsettle
    exact hsettles ((settling_failed (pendingKey_ok hkey).2 message).trans hsettling)
  | ready =>
    obtain ⟨jobs, t, hready, hret⟩ := Driving.bind_ok.mp h
    obtain ⟨-, rfl⟩ := Driving.pure_ok.mp hret
    obtain ⟨popped, hsettling⟩ := settleSkips_settling (ready_ok hready).1
    exact hsettles hsettling
  | checkpoint =>
    obtain rfl := Driving.modify_ok.mp h
    rw [fromMapping_toMapping hs.pendingNodup]
    exact ⟨hs, hranked⟩

theorem BackRun.ranked (h : BackRun s) : s.Consistent ∧ s.Ranked := by
  induction h with
  | @start t root rootOutput h =>
    obtain ⟨haddable, rfl⟩ := fromFlow_ok h
    have hblank := Consistent.blank rootOutput
    have hranked : (blank rootOutput).Ranked := ⟨fun _ => 0, fun e he => absurd he List.not_mem_nil⟩
    have hback : (blank rootOutput).RefersBack root :=
      fun e he uuid huuid hout k hk => absurd hk List.not_mem_nil
    have hadded := hranked.addedBefore hblank haddable hback fun k hk => absurd hk List.not_mem_nil
    rw [addBarriers_nil] at hadded
    exact ⟨hblank.added haddable, hadded⟩
  | call h op hback hreturns ih => exact op.run_ranked hreturns hback ih.1 ih.2

theorem Ranked.exists_ready (h : s.Ranked) (hs : s.Consistent) (hidle : s.running = ∅)
    (hpending : s.pending ≠ []) : s.readyKeys ≠ [] := by
  obtain ⟨rank, hrank⟩ := h
  obtain ⟨e, he⟩ := List.exists_mem_of_ne_nil _ hpending
  have hnonempty : s.keys.toFinset.Nonempty := ⟨e.fst, List.mem_toFinset.mpr (List.mem_map_of_mem he)⟩
  obtain ⟨k, hk, hleast⟩ := Finset.exists_min_image s.keys.toFinset rank hnonempty
  obtain ⟨record, hrecord⟩ := mem_keys.mp (List.mem_toFinset.mp hk)
  have hwaits : record.waits ⊆ s.settled := by
    intro k' hk'
    refine ((hs.known k').mp (hs.waits _ hrecord k' hk')).resolve_left fun hkey => ?_
    have hlt : rank k' < rank k := hrank _ hrecord k' hk' hkey
    exact absurd (hleast k' (List.mem_toFinset.mpr hkey)) (not_le.mpr hlt)
  refine List.ne_nil_of_mem (a := (k, record)) (List.mem_filter.mpr ⟨hrecord, ?_⟩)
  simp [hidle, hwaits]

/-- **A flow makes progress.** In a run whose added flows refer back, a state in which no job runs
and some job is pending has a ready job, or settling leaves no job pending, and `advance` does not
report a stalled flow. `ready` returns if the pending jobs can be decoded. -/
theorem flow_progresses (h : BackRun s) (hidle : s.running = ∅) :
    (s.pending ≠ [] → ∀ jobs t, ready s = .ok jobs t → jobs ≠ [] ∨ t.pending = [])
      ∧ (∀ priorLive stalled t, stalls priorLive s = .ok stalled t → stalled = false)
      ∧ ((∀ e ∈ s.pending, ∃ isError, e.snd.job.missingIsError = .ok isError) →
        ∃ jobs t, ready s = .ok jobs t) := by
  obtain ⟨hbooks, hranked⟩ := h.ranked
  have hready : ∀ jobs t, ready s = .ok jobs t → jobs ≠ [] ∨ (t.pending = [] ∧ t.running = ∅) := by
    intro jobs t hready
    obtain ⟨hsettle, rfl⟩ := ready_ok hready
    obtain ⟨popped, hsettling⟩ := settleSkips_settling hsettle
    have hidle' : t.running = ∅ := Finset.subset_empty.mp (hidle ▸ hsettling.running)
    by_cases hpending : t.pending = []
    · exact Or.inr ⟨hpending, hidle'⟩
    · refine Or.inl fun hnone => ?_
      exact (hranked.settling hsettling).exists_ready (hbooks.settling hsettling) hidle' hpending
        (List.map_eq_nil_iff.mp hnone)
  refine ⟨fun _ jobs t h => (hready jobs t h).imp id And.left, ?_, ?_⟩
  · intro priorLive stalled t hstalls
    obtain ⟨jobs, dispatched, hjobs, hloop⟩ := Driving.bind_ok.mp hstalls
    obtain ⟨_, marked, hdispatch, hrest⟩ := Driving.bind_ok.mp hloop
    by_cases hlive : priorLive ++ jobs.map FlowJob.key ≠ []
    · rw [if_pos hlive] at hrest
      exact (Driving.pure_ok.mp hrest).1.symm
    · rw [if_neg hlive] at hrest
      obtain ⟨-, hnone⟩ := List.append_eq_nil_iff.mp (not_not.mp hlive)
      obtain rfl := List.map_eq_nil_iff.mp hnone
      obtain rfl := Driving.forM_nil.mp hdispatch
      obtain ⟨hpending, hrunning⟩ := (hready [] marked hjobs).resolve_left fun h => h rfl
      obtain ⟨complete, final, hcomplete, hret⟩ := Driving.bind_ok.mp hrest
      obtain ⟨_, u, hsettle, hlook⟩ := Driving.bind_ok.mp hcomplete
      obtain ⟨popped, hsettling⟩ := settleSkips_settling hsettle
      have hdone : u.pending = [] ∧ u.running = ∅ := by
        refine ⟨?_, Finset.subset_empty.mp (hrunning ▸ hsettling.running)⟩
        rw [hsettling.pending, hpending]
        rfl
      rw [Driving.get_bind] at hlook
      obtain ⟨rfl, rfl⟩ := Driving.pure_ok.mp hlook
      obtain ⟨rfl, -⟩ := Driving.pure_ok.mp hret
      simp [hdone]
  · intro hdecodes
    have hrunning : s.RunningPending := fun k hk => by simp [hidle] at hk
    obtain ⟨jobs, t, hreturns, -⟩ := (calm_of_idle hidle hdecodes).ready hrunning hdecodes
    exact ⟨jobs, t, hreturns⟩

namespace ReusedFlow

theorem detoured_backRun : BackRun detoured := by
  have hrunning : BackRun running := .call (.start fromFlow_pair) (.markRunning (job "relax").key) trivial rfl
  refine .call hrunning (.applySuccess (job "relax").key { plain with detour := some (.ok detour) }) ?_ rfl
  rintro key -
  refine ⟨fun e he uuid huuid => ?_, trivial⟩
  obtain rfl := List.mem_singleton.mp he
  exact absurd huuid List.not_mem_nil

end ReusedFlow

/-- A detour before the second of two jobs. -/
theorem flow_progresses_detour : ∃ jobs t, ready ReusedFlow.detoured = .ok jobs t ∧ (jobs ≠ [] ∨ t.pending = []) := by
  obtain ⟨hready, -, hreturns⟩ := flow_progresses ReusedFlow.detoured_backRun (by decide)
  obtain ⟨jobs, t, h⟩ := hreturns (decodes_of_all (by decide))
  exact ⟨jobs, t, h, hready (by decide) jobs t h⟩

end DriverState
