import HttkWorkflow.JobflowInvariant

/-!
# Runs of the jobflow driver

A run starts with a root flow and calls the driver's methods in any order.
Whether a call returns or raises, it leaves a state, and the next call is
made on it.

The books stay in agreement, and every running job stays pending, as long as
two branches are not taken. One is an exception after the responder was
finished: `apply_success` finishes first and looks at the response's flows
then, so that a flow it cannot add costs the responder, and the
`apply_error` that is to report it finds no pending job
(`reused_flow_loses_job`). The other is a running job that `_settle_skips`
poisons: `_stop_descendants` discards what it pops from the running jobs,
and `_settle_skips` does not. `DriverOp.Sound` says of a call that it takes
neither, and `driver_invariant` what holds in a run of such calls.
-/

open Dict (assign)

namespace DriverState

variable {s s' : DriverState}

/-! ## The methods one by one -/

/-- **What `_pending_key` finds is pending**, and it changes nothing. -/
theorem pendingKey_ok {identifier key : PyStr} (h : pendingKey identifier s = .ok key s') :
    s' = s ∧ key ∈ s.keys := by
  unfold pendingKey at h
  rw [Driving.get_bind] at h
  by_cases hkey : identifier ∈ s.keys
  · rw [if_pos hkey] at h
    obtain ⟨rfl, rfl⟩ := Driving.pure_ok.mp h
    exact ⟨rfl, hkey⟩
  · rw [if_neg hkey] at h
    generalize hmatches :
      (s.identities.filter fun e => e.snd.fst = identifier ∧ e.fst ∈ s.keys).map Prod.fst = found at h
    match found, h with
    | [], h => exact absurd h Driving.throw_ok
    | _ :: _ :: _, h => exact absurd h Driving.throw_ok
    | [only], h =>
      obtain ⟨rfl, rfl⟩ := Driving.pure_ok.mp h
      have hmem := hmatches ▸ List.mem_singleton_self only
      obtain ⟨e, he, rfl⟩ := List.mem_map.mp hmem
      have hboth := of_decide_eq_true (List.mem_filter.mp he).2
      exact ⟨rfl, hboth.2⟩

variable {key : PyStr}

theorem pendingKey_of_mem (hkey : key ∈ s.keys) : pendingKey key s = .ok key s := by
  unfold pendingKey
  rw [Driving.get_bind, if_pos hkey]
  rfl

variable {identifier : PyStr}

theorem pendingKey_error {error : DriverError}
    (h : pendingKey identifier s = .error error s') :
    error = .noPendingJob identifier ∧ s' = s := by
  unfold pendingKey at h
  rw [Driving.get_bind] at h
  by_cases hkey : identifier ∈ s.keys
  · rw [if_pos hkey] at h
    cases h
  · rw [if_neg hkey] at h
    generalize (s.identities.filter fun e => e.snd.fst = identifier ∧ e.fst ∈ s.keys).map Prod.fst
      = found at h
    match found, h with
    | [], h =>
      cases h
      exact ⟨rfl, rfl⟩
    | _ :: _ :: _, h =>
      cases h
      exact ⟨rfl, rfl⟩
    | [only], h => cases h

theorem pendingKey_cases (s : DriverState) (identifier : PyStr) :
    (∃ key ∈ s.keys, pendingKey identifier s = .ok key s)
      ∨ pendingKey identifier s = .error (.noPendingJob identifier) s := by
  cases h : pendingKey identifier s with
  | ok key t =>
    obtain ⟨rfl, hkey⟩ := pendingKey_ok h
    exact Or.inl ⟨key, hkey, rfl⟩
  | error error t =>
    obtain ⟨rfl, rfl⟩ := pendingKey_error h
    exact Or.inr rfl

/-- **What finishing the responder settles**, with all that its response stops. -/
theorem settling_responded (hkey : key ∈ s.keys) (response : JobResponse) :
    ∃ popped, Settling s (s.responded key response) popped := by
  have hstored : Settling s ((s.finish key).storeData key response.storedData) {key} :=
    (settling_finish hkey).congr rfl rfl rfl rfl (Finset.Subset.refl _)
  have hcompleted : key ∈ ((s.finish key).storeData key response.storedData).completed :=
    Finset.mem_insert_self key s.completed
  unfold responded
  dsimp only
  generalize (s.finish key).storeData key response.storedData = stored at hstored hcompleted ⊢
  by_cases hall : response.stopJobflow = true
  · rw [if_pos hall]
    have hmarked : Settling s { stored with stopJobflow := true } {key} :=
      hstored.congr rfl rfl rfl rfl (Finset.Subset.refl _)
    exact ⟨_, hmarked.trans (settling_stopAllPending _)⟩
  · rw [if_neg hall]
    by_cases hchildren : response.stopChildren = true
    · rw [if_pos hchildren]
      have hmarked : Settling s { stored with stopped := insert key stored.stopped } {key} := by
        refine hstored.congr rfl ?_ rfl rfl (Finset.Subset.refl _)
        ext k
        simp only [settled, Finset.mem_union, Finset.mem_insert]
        constructor
        · rintro (((hk | hk) | rfl | hk) | hk)
          all_goals tauto
        · tauto
      obtain ⟨popped, hrest⟩ := settling_stopDescendants { stored with stopped := insert key stored.stopped }
        ((s.dependents PendingJob.parents key).filter (· ≠ key)).reverse
      exact ⟨_, hmarked.trans hrest⟩
    · rw [if_neg hchildren]
      exact ⟨_, hstored⟩

/-! ### Adding the flows of a response -/

/-- **All flows of a response can be added**, one after the other. -/
inductive Adds : DriverState → List (Except Exc JobFlow × List PyStr) → DriverState → Prop where
  | none (s : DriverState) : Adds s [] s
  | flow {s t : DriverState} {flow : JobFlow} {dependents : List PyStr}
      {flows : List (Except Exc JobFlow × List PyStr)} (h : s.Addable flow)
      (rest : Adds ((s.added flow).addBarriers dependents flow.keys.toFinset) flows t) :
      Adds s ((.ok flow, dependents) :: flows) t

theorem mem_known_added (s : DriverState) (flow : JobFlow) : ∀ k ∈ flow.keys.toFinset, k ∈ (s.added flow).known := by
  intro k hk
  show k ∈ (s.introduced flow.jobs).known
  rw [known_introduced]
  exact List.mem_append_right _ (List.mem_toFinset.mp hk)

theorem Consistent.addedBefore {flow : JobFlow} (h : Consistent s) (hadd : s.Addable flow) (dependents : List PyStr) :
    Consistent ((s.added flow).addBarriers dependents flow.keys.toFinset) :=
  (h.added hadd).addBarriers dependents (mem_known_added s flow)

variable {flows : List (Except Exc JobFlow × List PyStr)}

theorem Adds.consistent (h : Adds s flows s') (hs : Consistent s) : Consistent s' := by
  induction h with
  | none => exact hs
  | flow hadd _ ih => exact ih (hs.addedBefore hadd _)

theorem addResponseFlows_ok {u : PUnit} (hs : Consistent s) :
    (List.forM flows fun e => addResponseFlow e.fst e.snd) s = .ok u s' ↔ Adds s flows s' := by
  induction flows generalizing s with
  | nil =>
    rw [Driving.forM_nil]
    constructor
    · rintro rfl
      exact .none _
    · intro h
      cases h
      rfl
  | cons e flows ih =>
    obtain ⟨flow, dependents⟩ := e
    rw [Driving.forM_cons]
    cases flow with
    | error exc =>
      constructor
      · rintro ⟨_, t, hfirst, -⟩
        exact absurd hfirst Driving.throw_ok
      · intro h
        cases h
    | ok flow =>
      have hstep : ∀ t v, addResponseFlow (.ok flow) dependents s = .ok v t ↔ s.Addable flow
          ∧ t = (s.added flow).addBarriers dependents flow.keys.toFinset := by
        intro t v
        show (addFlow flow >>= fun added => modify fun s => s.addBarriers dependents added) s = _ ↔ _
        rw [Driving.bind_ok]
        constructor
        · rintro ⟨keys, t', hadd, hmodify⟩
          obtain ⟨haddable, rfl, rfl⟩ := (addFlow_ok fun k => hs.keys_known).mp hadd
          exact ⟨haddable, (Driving.modify_ok.mp hmodify).symm⟩
        · rintro ⟨haddable, rfl⟩
          exact ⟨_, _, (addFlow_ok fun k => hs.keys_known).mpr ⟨haddable, rfl, rfl⟩, rfl⟩
      constructor
      · rintro ⟨v, t, hfirst, hrest⟩
        obtain ⟨haddable, rfl⟩ := (hstep t v).mp hfirst
        exact .flow haddable ((ih (hs.addedBefore haddable _)).mp hrest)
      · intro h
        cases h with
        | flow haddable hrest =>
          exact ⟨⟨⟩, _, (hstep _ _).mpr ⟨haddable, rfl⟩, (ih (hs.addedBefore haddable _)).mpr hrest⟩

/-! ### The methods -/

theorem settling_failed (hkey : key ∈ s.keys) (message : Message) : Settling s (s.failed key message) {key} := by
  refine (settling_finish hkey).congr rfl ?_ rfl rfl (Finset.Subset.refl _)
  ext k
  simp only [settled, failed, finish, Finset.mem_union, Finset.mem_insert]
  tauto

variable {response : JobResponse} {u : Unit}

theorem applyResponse_ok (hs : Consistent s) (hkey : key ∈ s.keys) : applyResponse key response s = .ok u s' ↔
      (response.stopJobflow = true ∧ s' = s.responded key response)
        ∨ (response.stopJobflow = false ∧ ∃ t, Adds (s.responded key response) (s.flowsOf key response) t
          ∧ settleSkips t = .ok u s') := by
  obtain ⟨popped, hsettling⟩ := settling_responded hkey response
  have hconsistent := hs.settling hsettling
  unfold applyResponse
  rw [Driving.get_bind, Driving.bind_ok]
  by_cases hstop : response.stopJobflow = true
  · simp [hstop, eq_comm]
  · have hloop : ∀ u t, (List.forM (s.flowsOf key response) fun e => addResponseFlow e.fst e.snd)
        (s.responded key response) = .ok u t ↔ Adds (s.responded key response) (s.flowsOf key response) t :=
      fun u t => addResponseFlows_ok hconsistent
    simp only [hstop, false_and, false_or, if_false, Driving.set_ok, Bool.false_eq_true, true_and]
    constructor
    · rintro ⟨_, t, rfl, h⟩
      obtain ⟨_, t', hadds, h⟩ := Driving.bind_ok.mp h
      exact ⟨t', (hloop _ t').mp hadds, h⟩
    · rintro ⟨t', hadds, h⟩
      exact ⟨⟨⟩, _, rfl, Driving.bind_ok.mpr ⟨⟨⟩, t', (hloop _ t').mpr hadds, h⟩⟩

/-- **When `apply_success` returns.** -/
theorem applySuccess_ok (hs : Consistent s) :
    applySuccess identifier response s = .ok u s' ↔ ∃ key, pendingKey identifier s = .ok key s
      ∧ ((response.stopJobflow = true ∧ s' = s.responded key response)
        ∨ (response.stopJobflow = false ∧ ∃ t, Adds (s.responded key response) (s.flowsOf key response) t
          ∧ settleSkips t = .ok u s')) := by
  unfold applySuccess
  rw [Driving.bind_ok]
  constructor
  · rintro ⟨key, t, hkey, h⟩
    obtain ⟨rfl, hmem⟩ := pendingKey_ok hkey
    exact ⟨key, hkey, (applyResponse_ok hs hmem).mp h⟩
  · rintro ⟨key, hkey, h⟩
    exact ⟨key, s, hkey, (applyResponse_ok hs (pendingKey_ok hkey).2).mpr h⟩

/-- **When `apply_error` returns.** -/
theorem applyError_ok {message : Message} :
    applyError identifier message s = .ok u s' ↔ ∃ key, pendingKey identifier s = .ok key s
      ∧ settleSkips (s.failed key message) = .ok u s' := by
  unfold applyError
  rw [Driving.bind_ok]
  constructor
  · rintro ⟨key, t, hkey, h⟩
    obtain ⟨rfl, hmem⟩ := pendingKey_ok hkey
    obtain ⟨_, t', hmodify, h⟩ := Driving.bind_ok.mp h
    obtain rfl := Driving.modify_ok.mp hmodify
    exact ⟨key, hkey, h⟩
  · rintro ⟨key, hkey, h⟩
    exact ⟨key, s, hkey, Driving.bind_ok.mpr ⟨⟨⟩, _, rfl, h⟩⟩

/-! ### Settling without disturbance -/

/-- What passes can make of a state, whichever jobs they look at first. -/
inductive Passes (s : DriverState) : DriverState → Prop where
  | start : Passes s s
  | next {t t' : DriverState} {key : PyStr} (h : Passes s t) (hstep : Skipped t key true t') :
      Passes s t'

/-- **No running job is to be settled**, and the jobs that are looked at can be decoded. -/
structure Undisturbed (s : DriverState) : Prop where
  spares : ∀ key s', Skipped s key true s' → key ∉ s.running
  decodes : ∀ key record, s.pending.lookup key = some record → record.waits ⊆ s.settled →
    ¬s.StopsNext record → s.FailsNext record → ∃ isError, record.job.missingIsError = .ok isError

/-- **Settling disturbs no running job.** -/
def Calm (s : DriverState) : Prop := s.stopJobflow = false → ∀ t, Passes s t → Undisturbed t

theorem Undisturbed.settleSkip (h : Undisturbed s) (key : PyStr) :
    ∃ changed s', settleSkip key s = .ok changed s' := by
  unfold DriverState.settleSkip
  rw [Driving.get_bind]
  cases hlookup : s.pending.lookup key with
  | none => exact ⟨_, _, rfl⟩
  | some record =>
    dsimp only
    by_cases hwaits : record.waits ⊆ s.settled
    · rw [if_neg (not_not.mpr hwaits)]
      by_cases hstops : (s.statusUuids record.parents ∩ s.statusUuids s.stopped).Nonempty
      · rw [if_pos hstops]
        exact ⟨_, _, rfl⟩
      · rw [if_neg hstops]
        by_cases hfails : (s.statusUuids record.parents ∩ s.statusUuids s.errored).Nonempty
        · rw [if_pos hfails]
          obtain ⟨isError, hdecodes⟩ := h.decodes key record hlookup hwaits hstops hfails
          rw [hdecodes]
          cases isError with
          | true => exact ⟨_, _, rfl⟩
          | false => exact ⟨_, _, rfl⟩
        · rw [if_neg hfails]
          exact ⟨_, _, rfl⟩
    · rw [if_pos hwaits]
      exact ⟨_, _, rfl⟩

theorem Skipped.passes {t t' : DriverState} {changed : Bool} (h : Passes s t)
    (hstep : Skipped t key changed t') : Passes s t' := by
  cases changed with
  | true => exact .next h hstep
  | false => exact hstep.same ▸ h

variable {t : DriverState}

theorem settlePass_returns (hcalm : ∀ t, Passes s t → Undisturbed t) {keys : List PyStr} (ht : Passes s t) :
    ∃ changed t', settlePass keys t = .ok changed t' ∧ Passes s t' := by
  induction keys generalizing t with
  | nil => exact ⟨_, _, rfl, ht⟩
  | cons key keys ih =>
    obtain ⟨first, t', hfirst⟩ := (hcalm t ht).settleSkip key
    obtain ⟨later, t'', hlater, ht''⟩ := ih (Skipped.passes ht (settleSkip_ok hfirst))
    refine ⟨first || later, t'', Driving.bind_ok.mpr ⟨first, t', hfirst, ?_⟩, ht''⟩
    exact Driving.bind_ok.mpr ⟨later, t'', hlater, rfl⟩

theorem settleLoop_returns (hcalm : ∀ t, Passes s t → Undisturbed t) {n : ℕ}
    (ht : Passes s t) : ∃ t', settleLoop n t = .ok () t' := by
  induction n generalizing t with
  | zero => exact ⟨t, rfl⟩
  | succ n ih =>
    obtain ⟨changed, t', hpass, ht'⟩ : ∃ changed t', settlePass t.keys t = .ok changed t' ∧ Passes s t' :=
      settlePass_returns hcalm ht
    rw [settleLoop, Driving.get_bind]
    cases changed with
    | false => exact ⟨t', Driving.bind_ok.mpr ⟨false, t', hpass, rfl⟩⟩
    | true =>
      obtain ⟨t'', hloop⟩ := ih ht'
      exact ⟨t'', Driving.bind_ok.mpr ⟨true, t', hpass, hloop⟩⟩

theorem Calm.settleSkips (hcalm : s.Calm) (hrunning : s.RunningPending) :
    ∃ s', settleSkips s = .ok () s' ∧ s'.RunningPending := by
  have hstopAll : s.stopAllPending.RunningPending := by
    intro k hk
    refine (settling_stopAllPending s).mem_keys.mpr ⟨hrunning k hk, fun hpopped => ?_⟩
    exact (Finset.mem_sdiff.mp hpopped).2 hk
  by_cases hstop : s.stopJobflow = true
  · refine ⟨s.stopAllPending, ?_, hstopAll⟩
    unfold DriverState.settleSkips
    rw [Driving.get_bind, if_pos hstop]
    rfl
  · have hgo : s.stopJobflow = false := Bool.eq_false_iff.mpr hstop
    have hundisturbed := hcalm hgo
    obtain ⟨s', hloop⟩ := settleLoop_returns hundisturbed (n := s.pending.length + 1) .start
    have hreturns : DriverState.settleSkips s = .ok () s' := by
      unfold DriverState.settleSkips
      rw [Driving.get_bind, if_neg hstop]
      exact hloop
    refine ⟨s', hreturns, ?_⟩
    have hstep : ∀ t key t', (Passes s t ∧ t.stopJobflow = false ∧ t.RunningPending) →
        Skipped t key true t' → Passes s t' ∧ t'.stopJobflow = false ∧ t'.RunningPending := by
      rintro t key t' ⟨hpasses, ht, hrun⟩ hskipped
      refine ⟨.next hpasses hskipped, ?_, fun k hk => ?_⟩
      · cases hskipped with
        | stops => exact ht
        | fails => exact ht
      · have hsettling := hskipped.settling
        have hk' := hsettling.running hk
        refine hsettling.mem_keys.mpr ⟨hrun k hk', fun hpopped => ?_⟩
        rw [Finset.mem_singleton.mp hpopped] at hk'
        exact (hundisturbed t hpasses).spares key t' hskipped hk'
    exact (settleSkips_ok hstep (fun t ht hstop => absurd (ht.2.1.symm.trans hstop) (by decide))
      hreturns ⟨.start, hgo, hrunning⟩).1.2.2

/-! ### Running jobs -/

theorem RunningPending.finish (h : s.RunningPending) (key : PyStr) : (s.finish key).RunningPending := by
  intro k hk
  obtain ⟨hne, hk⟩ := Finset.mem_erase.mp hk
  obtain ⟨record, hrecord⟩ := mem_keys.mp (h k hk)
  exact mem_keys.mpr ⟨record, List.mem_filter.mpr ⟨hrecord, decide_eq_true hne⟩⟩

theorem RunningPending.stopAllPending (h : s.RunningPending) : s.stopAllPending.RunningPending := by
  intro k hk
  obtain ⟨record, hrecord⟩ := mem_keys.mp (h k hk)
  exact mem_keys.mpr ⟨record, List.mem_filter.mpr ⟨hrecord, decide_eq_true hk⟩⟩

theorem RunningPending.stopDescendants (h : s.RunningPending) (queue : List PyStr) :
    (s.stopDescendants queue).RunningPending := by
  induction s, queue using stopDescendants.induct with
  | case1 s =>
    rw [DriverState.stopDescendants]
    exact h
  | case2 s key queue hkey stopped ih =>
    rw [DriverState.stopDescendants, dif_pos hkey]
    exact ih (h.finish key)
  | case3 s key queue hkey ih =>
    rw [DriverState.stopDescendants, dif_neg hkey]
    exact ih h

theorem RunningPending.responded (h : s.RunningPending) (key : PyStr) (response : JobResponse) :
    (s.responded key response).RunningPending := by
  have hfinish := h.finish key
  unfold DriverState.responded
  dsimp only
  split_ifs
  · exact RunningPending.stopAllPending hfinish
  · refine RunningPending.stopDescendants ?_ _
    exact hfinish
  · exact hfinish

theorem RunningPending.addedBefore (h : s.RunningPending) (flow : JobFlow) (dependents : List PyStr) :
    ((s.added flow).addBarriers dependents flow.keys.toFinset).RunningPending := by
  intro k hk
  rw [Consistent.keys_addBarriers]
  unfold keys
  show k ∈ (s.pending ++ _).map Prod.fst
  rw [List.map_append]
  exact List.mem_append_left _ (h k hk)

theorem RunningPending.adds (hadds : Adds s flows s') (h : s.RunningPending) : s'.RunningPending := by
  induction hadds with
  | none => exact h
  | flow _ _ ih => exact ih (h.addedBefore _ _)

/-! ### Checkpoints -/

theorem foldl_assign {ε : Type} {key : ε → PyStr} {value : ε → PendingJob} {items : List ε}
    {d : List (PyStr × PendingJob)} (hnodup : (items.map key).Nodup)
    (hnew : ∀ e ∈ items, key e ∉ d.map Prod.fst) :
    items.foldl (fun d e => assign d (key e) (value e)) d
      = d ++ items.map fun e => (key e, value e) := by
  induction items generalizing d with
  | nil => simp
  | cons e items ih =>
    obtain ⟨hfirst, hnews⟩ := List.forall_mem_cons.mp hnew
    obtain ⟨hnot, hnodup⟩ := List.nodup_cons.mp hnodup
    rw [List.foldl_cons, show assign d (key e) (value e) = d ++ [(key e, value e)] from if_neg hfirst,
      ih hnodup, List.map_cons, List.append_assoc]
    · rfl
    · intro e' he' hk
      rw [List.map_append] at hk
      rcases List.mem_append.mp hk with hk | hk
      · exact hnews e' he' hk
      · exact hnot (List.mem_map.mpr ⟨e', he', List.mem_singleton.mp hk⟩)

/-- **A checkpoint is the state.** -/
theorem fromMapping_toMapping (h : s.keys.Nodup) : fromMapping s.toMapping = s := by
  have hpending : (fromMapping s.toMapping).pending = s.pending := by
    unfold fromMapping toMapping
    rw [foldl_assign (by rw [List.map_map]; exact h) (fun _ _ => List.not_mem_nil), List.map_map, List.nil_append]
    refine (List.map_congr_left fun e _ => ?_).trans (List.map_id _)
    simp
  have hsets : ∀ c : Finset PyStr, (c.sort (· ≤ ·)).toFinset = c := fun c => Finset.sort_toFinset c _
  cases s
  unfold fromMapping toMapping at *
  simp only [hsets, mk.injEq, and_true] at hpending ⊢
  exact hpending

/-! ## Runs -/

/-- **A call of the driver.** -/
inductive DriverOp where
  | markRunning (identifier : PyStr)
  | markPending (identifier : PyStr)
  | applySuccess (identifier : PyStr) (response : JobResponse)
  | applyError (identifier : PyStr) (message : Message)
  | ready
  | checkpoint

/-- What a call does. -/
def DriverOp.run : DriverOp → Driving Unit
  | .markRunning identifier => DriverState.markRunning identifier
  | .markPending identifier => DriverState.markPending identifier
  | .applySuccess identifier response => DriverState.applySuccess identifier response
  | .applyError identifier message => DriverState.applyError identifier message
  | .ready => do
    let _ ← DriverState.ready
    pure ()
  | .checkpoint => modify fun s => fromMapping s.toMapping

/-- The state a call leaves, whether it returns or raises. -/
def DriverOp.after (op : DriverOp) (s : DriverState) : DriverState :=
  match op.run s with
  | .ok _ t => t
  | .error _ t => t

/-- **A call that neither loses the responder nor disturbs a running job.** -/
def DriverOp.Sound (s : DriverState) : DriverOp → Prop
  | .markRunning _ => True
  | .markPending _ => True
  | .applySuccess identifier response => ∀ key, pendingKey identifier s = .ok key s →
      response.stopJobflow = true ∨
        ∃ t, Adds (s.responded key response) (s.flowsOf key response) t ∧ t.Calm
  | .applyError identifier message => ∀ key, pendingKey identifier s = .ok key s →
      (s.failed key message).Calm
  | .ready => s.Calm ∧ ∀ e ∈ s.pending, ∃ isError, e.snd.job.missingIsError = .ok isError
  | .checkpoint => True

/-- **A run**: a root flow and any calls. -/
inductive DriverRun : DriverState → Prop where
  | start {t : DriverState} {root : JobFlow} {rootOutput : Json}
      (h : fromFlow root rootOutput = .ok t) : DriverRun t
  | call {t : DriverState} (h : DriverRun t) (op : DriverOp) : DriverRun (op.after t)

/-- A run all of whose calls are sound. -/
inductive SoundRun : DriverState → Prop where
  | start {t : DriverState} {root : JobFlow} {rootOutput : Json}
      (h : fromFlow root rootOutput = .ok t) : SoundRun t
  | call {t : DriverState} (h : SoundRun t) (op : DriverOp) (hop : op.Sound t) : SoundRun (op.after t)

theorem Passes.settling {t : DriverState} (h : Passes s t) : ∃ popped, Settling s t popped := by
  induction h with
  | start => exact ⟨∅, settling_refl s⟩
  | next _ hstep ih =>
    obtain ⟨popped, hpopped⟩ := ih
    exact ⟨_, hpopped.trans hstep.settling⟩

theorem calm_of_idle (hidle : s.running = ∅)
    (hdecodes : ∀ e ∈ s.pending, ∃ isError, e.snd.job.missingIsError = .ok isError) : s.Calm := by
  intro _ t hpasses
  obtain ⟨popped, hsettling⟩ := hpasses.settling
  refine ⟨fun key t' _ hrunning => ?_, fun key record hlookup _ _ _ => ?_⟩
  · have hrun := hsettling.running hrunning
    rw [hidle] at hrun
    exact absurd hrun (Finset.notMem_empty key)
  · have hmem := lookup_mem hlookup
    rw [hsettling.pending] at hmem
    exact hdecodes _ (List.mem_of_mem_filter hmem)

theorem decodes_of_all (h : s.pending.all (fun e => e.snd.job.missingIsError.isOk) = true) :
    ∀ e ∈ s.pending, ∃ isError, e.snd.job.missingIsError = .ok isError := by
  intro e he
  cases hmissing : e.snd.job.missingIsError with
  | ok isError => exact ⟨isError, rfl⟩
  | error exc =>
    have hok := List.all_eq_true.mp h e he
    rw [hmissing] at hok
    cases hok

theorem Calm.ready (hcalm : s.Calm) (hrunning : s.RunningPending)
    (hdecodes : ∀ e ∈ s.pending, ∃ isError, e.snd.job.missingIsError = .ok isError) :
    ∃ jobs s', DriverState.ready s = .ok jobs s' ∧ DriverState.settleSkips s = .ok () s' ∧ s'.RunningPending := by
  obtain ⟨s', hsettle, hrunning'⟩ := hcalm.settleSkips hrunning
  obtain ⟨popped, hsettling⟩ := settleSkips_settling hsettle
  have hpending : ∀ e ∈ s'.readyKeys, ∃ isError, e.snd.job.missingIsError = .ok isError := by
    intro e he
    have hmem := List.mem_of_mem_filter he
    rw [hsettling.pending] at hmem
    exact hdecodes e (List.mem_of_mem_filter hmem)
  have hjobs : ∀ entries : List (PyStr × PendingJob),
      (∀ e ∈ entries, ∃ isError, e.snd.job.missingIsError = .ok isError) →
      (entries.mapM fun e => e.snd.job.missingIsError.map fun _ => e.snd.job)
        = .ok (entries.map fun e => e.snd.job) := by
    intro entries hentries
    induction entries with
    | nil => rfl
    | cons e entries ih =>
      obtain ⟨hfirst, hrest⟩ := List.forall_mem_cons.mp hentries
      obtain ⟨isError, hfirst⟩ := hfirst
      rw [List.mapM_cons, ih hrest, hfirst]
      rfl
  refine ⟨s'.readyKeys.map fun e => e.snd.job, s', ?_, hsettle, hrunning'⟩
  unfold DriverState.ready
  refine Driving.bind_ok.mpr ⟨(), s', hsettle, ?_⟩
  rw [Driving.get_bind, hjobs _ hpending]
  rfl

theorem DriverOp.Sound.spec {op : DriverOp} (hop : op.Sound s) (hs : s.Consistent) (hrunning : s.RunningPending) :
    (∃ t, op.run s = .ok () t ∧ t.Consistent ∧ t.RunningPending)
      ∨ ∃ identifier, op.run s = .error (.noPendingJob identifier) s := by
  have hsettles : ∀ t : DriverState, t.Consistent → t.RunningPending → t.Calm →
      ∃ t', settleSkips t = .ok () t' ∧ t'.Consistent ∧ t'.RunningPending := by
    intro t ht hrun hcalm
    obtain ⟨t', hsettle, hrun'⟩ := hcalm.settleSkips hrun
    obtain ⟨popped, hsettling⟩ := settleSkips_settling hsettle
    exact ⟨t', hsettle, ht.settling hsettling, hrun'⟩
  cases op with
  | markRunning identifier =>
    obtain ⟨key, hkey, h⟩ | h := pendingKey_cases s identifier
    · refine Or.inl ⟨{ s with running := insert key s.running },
        Driving.bind_ok.mpr ⟨key, s, h, rfl⟩, hs.marked _, fun k hk => ?_⟩
      obtain rfl | hk := Finset.mem_insert.mp hk
      · exact hkey
      · exact hrunning k hk
    · exact Or.inr ⟨identifier, Driving.bind_error.mpr (Or.inl h)⟩
  | markPending identifier =>
    obtain ⟨key, hkey, h⟩ | h := pendingKey_cases s identifier
    · exact Or.inl ⟨{ s with running := s.running.erase key }, Driving.bind_ok.mpr ⟨key, s, h, rfl⟩,
        hs.marked _, fun k hk => hrunning k (Finset.mem_of_mem_erase hk)⟩
    · exact Or.inr ⟨identifier, Driving.bind_error.mpr (Or.inl h)⟩
  | applySuccess identifier response =>
    obtain ⟨key, hkey, h⟩ | h := pendingKey_cases s identifier
    · have hresponded := hrunning.responded key response
      obtain ⟨popped, hsettling⟩ := settling_responded hkey response
      have hbooks := hs.settling hsettling
      by_cases hstop : response.stopJobflow = true
      · exact Or.inl ⟨_, (applySuccess_ok hs).mpr ⟨key, h, Or.inl ⟨hstop, rfl⟩⟩, hbooks, hresponded⟩
      · obtain ⟨t, hadds, hcalm⟩ := (hop key h).resolve_left hstop
        obtain ⟨t', hsettle, hbooks', hrunning'⟩ :=
          hsettles t (hadds.consistent hbooks) (hresponded.adds hadds) hcalm
        have hgo : response.stopJobflow = false := Bool.eq_false_iff.mpr hstop
        exact Or.inl ⟨t', (applySuccess_ok hs).mpr ⟨key, h, Or.inr ⟨hgo, t, hadds, hsettle⟩⟩, hbooks', hrunning'⟩
    · exact Or.inr ⟨identifier, Driving.bind_error.mpr (Or.inl h)⟩
  | applyError identifier message =>
    obtain ⟨key, hkey, h⟩ | h := pendingKey_cases s identifier
    · obtain ⟨t, hsettle, hbooks, hrunning'⟩ := hsettles _ (hs.settling (settling_failed hkey message))
        (hrunning.finish key) (hop key h)
      exact Or.inl ⟨t, applyError_ok.mpr ⟨key, h, hsettle⟩, hbooks, hrunning'⟩
    · exact Or.inr ⟨identifier, Driving.bind_error.mpr (Or.inl h)⟩
  | ready =>
    obtain ⟨jobs, t, hready, hsettle, hrunning'⟩ := hop.1.ready hrunning hop.2
    obtain ⟨popped, hsettling⟩ := settleSkips_settling hsettle
    exact Or.inl ⟨t, Driving.bind_ok.mpr ⟨jobs, t, hready, rfl⟩, hs.settling hsettling, hrunning'⟩
  | checkpoint =>
    have hsame : DriverOp.checkpoint.run s = .ok () s := by
      show EStateM.Result.ok () (fromMapping s.toMapping) = _
      rw [fromMapping_toMapping hs.pendingNodup]
    exact Or.inl ⟨s, hsame, hs, hrunning⟩

theorem fromFlow_ok {root : JobFlow} {rootOutput : Json} (h : fromFlow root rootOutput = .ok s) :
    (blank rootOutput).Addable root ∧ s = (blank rootOutput).added root := by
  unfold fromFlow at h
  split at h
  · rename_i keys t hadd
    cases h
    obtain ⟨haddable, -, rfl⟩ :=
      (addFlow_ok fun k => (Consistent.blank rootOutput).keys_known).mp hadd
    exact ⟨haddable, rfl⟩
  · cases h

theorem fromFlow_of_addable {root : JobFlow} {rootOutput : Json} (h : (blank rootOutput).Addable root) :
    fromFlow root rootOutput = .ok ((blank rootOutput).added root) := by
  unfold fromFlow
  rw [(addFlow_ok fun k => (Consistent.blank rootOutput).keys_known).mpr ⟨h, rfl, rfl⟩]

theorem SoundRun.spec (h : SoundRun s) : s.Consistent ∧ s.RunningPending := by
  induction h with
  | start h =>
    obtain ⟨haddable, rfl⟩ := fromFlow_ok h
    exact ⟨(Consistent.blank _).added haddable, fun k hk => absurd hk (Finset.notMem_empty k)⟩
  | call h op hop ih =>
    unfold DriverOp.after
    obtain ⟨t, hrun, hbooks, hrunning⟩ | ⟨identifier, hrun⟩ := hop.spec ih.1 ih.2
    · rw [hrun]
      exact ⟨hbooks, hrunning⟩
    · rw [hrun]
      exact ih

/-- **The driver's invariant**, in a run of sound calls: the books agree, running jobs are pending,
and a sound call that raises changes nothing, so that every pending job is still found. -/
theorem driver_invariant (h : SoundRun s) :
    s.Consistent ∧ s.RunningPending ∧ ∀ op : DriverOp, op.Sound s → ∀ error t,
      op.run s = .error error t → t = s ∧ ∀ key ∈ s.keys, pendingKey key t = .ok key t := by
  obtain ⟨hbooks, hrunning⟩ := h.spec
  refine ⟨hbooks, hrunning, fun op hop error t herror => ?_⟩
  obtain ⟨t', hrun, -⟩ | ⟨identifier, hrun⟩ := hop.spec hbooks hrunning
  · rw [hrun] at herror
    cases herror
  · rw [hrun] at herror
    cases herror
    exact ⟨rfl, fun key hkey => pendingKey_of_mem hkey⟩

namespace ReusedFlow

def job (name : String) : FlowJob where
  uuid := name
  index := 1
  references := []
  spooled := .ok ()
  missingIsError := .ok true

def pair : JobFlow where
  jobs := [(job "relax", []), (job "static", [(job "relax").uuid])]
  nodup := by decide
  acyclic := ⟨fun uuid => if uuid = (job "static").uuid then 1 else 0, by decide⟩

def again : JobFlow where
  jobs := [(job "static", [])]
  nodup := by decide
  acyclic := ⟨fun _ => 0, by decide⟩

def plain : JobResponse where
  storedData := none
  stopJobflow := false
  stopChildren := false
  replace := none
  detour := none
  addition := none

def planned : DriverState := (blank .null).added pair

theorem fromFlow_pair : fromFlow pair .null = .ok planned := rfl

def running : DriverState := (DriverOp.markRunning (job "relax").key).after planned

def detour : JobFlow where
  jobs := [(job "check", [])]
  nodup := by decide
  acyclic := ⟨fun _ => 0, by decide⟩

def detoured : DriverState :=
  (DriverOp.applySuccess (job "relax").key { plain with detour := some (.ok detour) }).after running

theorem detoured_calm : detoured.Calm := calm_of_idle (by decide) (decodes_of_all (by decide))

/-- The first of two jobs has a job put between them, which is dispatched. -/
def dispatched : DriverState := (DriverOp.markRunning (job "check").key).after (DriverOp.ready.after detoured)

theorem dispatched_soundRun : SoundRun dispatched := by
  have hrunning : SoundRun running := .call (.start fromFlow_pair) _ trivial
  have hdetoured : SoundRun detoured := by
    refine .call hrunning (.applySuccess (job "relax").key { plain with detour := some (.ok detour) }) fun key hkey => ?_
    obtain rfl : (job "relax").key = key := by cases hkey; rfl
    exact Or.inr ⟨_, .flow ⟨by decide, List.forall_mem_singleton.mpr rfl⟩ (.none _),
      calm_of_idle (by decide) (decodes_of_all (by decide))⟩
  have hready : SoundRun (DriverOp.ready.after detoured) :=
    .call hdetoured .ready ⟨detoured_calm, decodes_of_all (by decide)⟩
  exact .call hready (.markRunning (job "check").key) trivial

end ReusedFlow

/-- The job between fails, and a checkpoint is taken of what that leaves. -/
theorem driver_invariant_detour :
    let s := DriverOp.checkpoint.after
      ((DriverOp.applyError (ReusedFlow.job "check").key [.lit "no convergence"]).after ReusedFlow.dispatched)
    s.Consistent ∧ s.RunningPending := by
  have hsound : DriverOp.Sound ReusedFlow.dispatched
      (.applyError (ReusedFlow.job "check").key [.lit "no convergence"]) := by
    intro key hkey
    obtain rfl : (ReusedFlow.job "check").key = key := by cases hkey; rfl
    exact calm_of_idle (by decide) (decodes_of_all (by decide))
  have h := driver_invariant (.call (.call ReusedFlow.dispatched_soundRun _ hsound) .checkpoint trivial)
  exact ⟨h.1, h.2.1⟩

/-- **A flow that reuses a job loses the responder.** The call raises, and after it no pending job is
found under the responder's key, so that its failure cannot be recorded either. -/
theorem reused_flow_loses_job :
    ¬∀ s, DriverRun s → ∀ (op : DriverOp) error t, op.run s = .error error t →
      t = s ∧ ∀ key ∈ s.keys, pendingKey key t = .ok key t := by
  intro h
  have hrun : DriverRun ReusedFlow.running := .call (.start ReusedFlow.fromFlow_pair) _
  have hraises : ∀ r, r = (DriverOp.applySuccess (ReusedFlow.job "relax").key
      { ReusedFlow.plain with replace := some (.ok ReusedFlow.again) }).run ReusedFlow.running →
      ∃ error t, r = .error error t ∧ (ReusedFlow.job "relax").key ∉ t.keys := by
    rintro r rfl
    exact ⟨.reusedJob (ReusedFlow.job "static").key, _, rfl, by decide⟩
  obtain ⟨error, t, hr, hlost⟩ := hraises _ rfl
  obtain ⟨rfl, -⟩ := h _ hrun _ error t hr
  exact hlost (by decide)

end DriverState
