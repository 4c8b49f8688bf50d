import HttkWorkflow.PwdRunner
import Mathlib.Logic.Relation

/-!
# Restarts of a PWD job

The functions are pure, so that an attempt that computes a node again gets the
value it had. What can differ after a restart is the checkpoint: a value that
was written as JSON and read back need not be the value it was – a tuple comes
back as a list, the keys of a dictionary as strings – and the nodes that read
it get the other one.

The attempt also skips every node it finds in the checkpoint, whatever that
node was computed from. The comment in the source says that the consumers of a
node that cannot be stored are computed again with it; they are not, if their
own results were stored (`reused_over_recomputed`). With pure functions this
alone changes no value, but it is what the comment promises against.

A restart is sound where each stored result reads back as it was, and where a
stored node is fed by stored nodes only. In a run whose restarts are sound,
every attempt has the values of an uninterrupted one, and publishes what that
one publishes (`restarts_equivalent`).
-/

/-! ## The order of the nodes -/

theorem readyNodes_perm (remaining : List (ℕ × List ℕ)) :
    (readyNodes remaining).Perm ((remaining.filter fun e => e.snd = []).map Prod.fst) :=
  List.perm_insertionSort _ _

theorem orderRounds_nodup {rounds : ℕ} {remaining : List (ℕ × List ℕ)} {ordered order : List ℕ}
    (h : orderRounds rounds remaining ordered = some order)
    (hnodup : (ordered ++ remaining.map Prod.fst).Nodup) : order.Nodup := by
  induction rounds generalizing remaining ordered with
  | zero =>
    cases remaining with
    | nil =>
      obtain rfl := Option.some.inj h
      exact (List.append_nil ordered) ▸ hnodup
    | cons e remaining => cases h
  | succ rounds ih =>
    cases remaining with
    | nil =>
      obtain rfl := Option.some.inj h
      exact (List.append_nil ordered) ▸ hnodup
    | cons e remaining =>
      rw [orderRounds.eq_3 _ _ _ (List.cons_ne_nil e remaining)] at h
      split_ifs at h with hready
      refine ih h ?_
      generalize e :: remaining = nodes at hnodup ⊢
      obtain ⟨hordered, hnames, hdisjoint⟩ := List.nodup_append'.mp hnodup
      have hsub : ∀ n ∈ readyNodes nodes, n ∈ nodes.map Prod.fst := fun n hn => by
        obtain ⟨e, he, rfl⟩ := List.mem_map.mp ((readyNodes_perm nodes).mem_iff.mp hn)
        exact List.mem_map_of_mem (List.mem_filter.mp he).1
      have hnodes : ((nodes.filter fun e => e.fst ∉ readyNodes nodes).map fun e =>
          (e.fst, e.snd.filter (· ∉ readyNodes nodes))).map Prod.fst
            = (nodes.map Prod.fst).filter (· ∉ readyNodes nodes) := by
        rw [List.map_map, List.filter_map]
        rfl
      have hreadyNodup : (readyNodes nodes).Nodup :=
        (readyNodes_perm nodes).nodup_iff.mpr (hnames.sublist (List.Sublist.map Prod.fst List.filter_sublist))
      rw [hnodes, List.append_assoc]
      refine List.nodup_append'.mpr ⟨hordered, List.nodup_append'.mpr ⟨hreadyNodup, hnames.filter _, ?_⟩, ?_⟩
      · exact fun n hn hn' => (of_decide_eq_true (List.mem_filter.mp hn').2) hn
      · intro n hn hn'
        rcases List.mem_append.mp hn' with hn' | hn'
        · exact hdisjoint hn (hsub n hn')
        · exact hdisjoint hn (List.mem_filter.mp hn').1

/-- **The order of a document names each node once.** -/
theorem PwdDocument.order_nodup {V : Type} (document : PwdDocument V) : document.order.Nodup := by
  refine orderRounds_nodup document.ordered ?_
  rw [List.nil_append, List.map_map]
  exact document.distinct

theorem rest_unique {α : Type} {before before' rest rest' : List α} {a : α}
    (hnodup : (before ++ a :: rest).Nodup) (h : before ++ a :: rest = before' ++ a :: rest') : rest = rest' := by
  induction before generalizing before' with
  | nil =>
    cases before' with
    | nil => exact (List.cons.inj h).2
    | cons b before' =>
      obtain ⟨rfl, hrest⟩ := List.cons.inj h
      rw [List.nil_append] at hnodup
      refine absurd ?_ (List.nodup_cons.mp hnodup).1
      rw [hrest]
      exact List.mem_append_right _ List.mem_cons_self
  | cons b before ih =>
    cases before' with
    | nil =>
      obtain ⟨rfl, -⟩ := List.cons.inj h
      exact absurd (List.mem_append_right _ List.mem_cons_self) (List.nodup_cons.mp hnodup).1
    | cons b' before' =>
      obtain ⟨-, hrest⟩ := List.cons.inj h
      exact ih (List.nodup_cons.mp hnodup).2 hrest

namespace PwdRun

variable {V : Type} {run : PwdRun V}

/-! ## What a node reads -/

section Reads

variable {results results' : Dict ℕ V} (h : ∀ n, results.get n = results'.get n)

variable (run)

include h

theorem nodeArguments_congr (node : ℕ) : run.nodeArguments results node = run.nodeArguments results' node := by
  unfold nodeArguments
  simp only [h]

theorem executeNode_congr (node : ℕ) : run.executeNode results node = run.executeNode results' node := by
  unfold executeNode
  simp only [nodeArguments_congr run h]

theorem publishOutputs_congr : run.publishOutputs results = run.publishOutputs results' := by
  have houtput : run.output results = run.output results' := by
    funext node
    unfold output
    simp only [h]
  unfold publishOutputs
  rw [houtput]

end Reads

/-! ## The checkpoint and the state file -/

theorem storeAll_cons (e : ℕ × V) (checkpoint : Dict ℕ V) : run.storeAll (e :: checkpoint)
    = (run.values.store e.snd).bind fun value => (run.storeAll checkpoint).map ((e.fst, value) :: ·) := by
  unfold storeAll
  rw [List.mapM_cons]
  cases run.values.store e.snd with
  | none => rfl
  | some value =>
    cases checkpoint.mapM fun e => (run.values.store e.snd).map fun value => (e.fst, value) with
    | none => rfl
    | some rest => rfl

variable {checkpoint : Dict ℕ V}

theorem storeAll_isSome : (run.storeAll checkpoint).isSome = true
    ↔ ∀ e ∈ checkpoint, (run.values.store e.snd).isSome = true := by
  induction checkpoint with
  | nil => simp [storeAll]
  | cons e checkpoint ih =>
    rw [storeAll_cons, List.forall_mem_cons, ← ih]
    cases run.values.store e.snd with
    | none => simp
    | some value => simp

theorem load_storeAll {disk : Dict ℕ Json} (h : run.storeAll checkpoint = some disk)
    (hload : ∀ e ∈ checkpoint, (run.values.store e.snd).map run.values.load = some e.snd) :
    disk.map (fun e => (e.fst, run.values.load e.snd)) = checkpoint := by
  induction checkpoint generalizing disk with
  | nil =>
    obtain rfl := Option.some.inj h
    rfl
  | cons e checkpoint ih =>
    rw [storeAll_cons] at h
    obtain ⟨value, hvalue, hrest⟩ := Option.bind_eq_some_iff.mp h
    obtain ⟨rest, hstored, rfl⟩ := Option.map_eq_some_iff.mp hrest
    obtain ⟨he, hall⟩ := List.forall_mem_cons.mp hload
    rw [hvalue] at he
    rw [List.map_cons, ih hstored hall, show run.values.load value = e.snd from Option.some.inj he]

/-! ## One node -/

/-- A value with which a node is complete: one that is not JSON, or that a merge can store. -/
def Completes (run : PwdRun V) (value : V) : Prop :=
  run.values.jsonable value = some false
    ∨ (run.values.jsonable value = some true ∧ (run.values.store value).isSome = true)

/-- **A node that is completed** with a value. -/
structure Completed (run : PwdRun V) (job : PwdJob V) (node : ℕ) (rest : List ℕ) (value : V) (job' : PwdJob V) :
    Prop where
  ended : job'.ended = job.ended
  todo : job'.todo = rest
  results : job'.results = job.results.set node value
  stored : job'.stored = job.stored
  disk : run.storeAll job'.checkpoint = some job'.disk
  checkpoint : ∀ e ∈ job'.checkpoint, e ∈ job.checkpoint ∨ e = (node, value)

variable {job : PwdJob V}

/-- **What a node comes to** that is not in the checkpoint: it completes with its value, or the attempt
ends. -/
theorem runNode_spec {node : ℕ} (rest : List ℕ)
    (hdisk : run.storeAll job.checkpoint = some job.disk) (hnone : job.checkpoint.get node = none) :
    (∃ value, run.executeNode job.results node = .ok value ∧ run.Completes value
      ∧ run.Completed job node rest value (run.runNode job node rest))
    ∨ ((∀ value, run.executeNode job.results node = .ok value → ¬run.Completes value)
      ∧ ∃ failure, run.runNode job node rest = job.fails failure) := by
  have hstorable := storeAll_isSome.mp (Option.isSome_iff_exists.mpr ⟨_, hdisk⟩)
  unfold runNode
  rw [hnone]
  cases hvalue : run.executeNode job.results node with
  | error failure => exact Or.inr ⟨fun value h => (by cases h), failure, rfl⟩
  | ok value =>
    simp only
    unfold complete
    cases hjson : run.values.jsonable value with
    | none =>
      refine Or.inr ⟨fun value' h => ?_, .raised, rfl⟩
      obtain rfl := Except.ok.inj h
      rintro (hfalse | ⟨htrue, -⟩)
      · cases hjson.symm.trans hfalse
      · cases hjson.symm.trans htrue
    | some json =>
      cases json with
      | false =>
        exact Or.inl ⟨value, rfl, Or.inl hjson, ⟨rfl, rfl, rfl, rfl, hdisk, fun e he => Or.inl he⟩⟩
      | true =>
        simp only
        have hset : run.storeAll (job.checkpoint.set node value) ≠ none ↔ (run.values.store value).isSome = true := by
          rw [← Option.isSome_iff_ne_none, storeAll_isSome]
          refine ⟨fun h => h (node, value) List.mem_cons_self, fun h => List.forall_mem_cons.mpr ⟨h, ?_⟩⟩
          exact fun e he => hstorable e (List.mem_filter.mp he).1
        cases hstored : run.storeAll (job.checkpoint.set node value) with
        | none =>
          refine Or.inr ⟨fun value' h => ?_, .raised, rfl⟩
          obtain rfl := Except.ok.inj h
          rintro (hfalse | ⟨-, hstore⟩)
          · cases hjson.symm.trans hfalse
          · exact hset.mpr hstore hstored
        | some disk =>
          have hstore := hset.mp (by rw [hstored]; exact Option.some_ne_none disk)
          refine Or.inl ⟨value, rfl, Or.inr ⟨hjson, hstore⟩, ⟨rfl, rfl, rfl, rfl, hstored, fun e he => ?_⟩⟩
          rcases List.mem_cons.mp he with rfl | he
          · exact Or.inr rfl
          · exact Or.inl (List.mem_filter.mp he).1

variable {rest : List ℕ}

theorem runNode_todo (job : PwdJob V) {node : ℕ}
    (hended : (run.runNode job node rest).ended = none) : (run.runNode job node rest).todo = rest := by
  unfold runNode complete at hended ⊢
  split
  · rfl
  · split
    · simp_all [PwdJob.fails]
    · split
      · simp_all [PwdJob.fails]
      · split
        · simp_all [PwdJob.fails]
        · rfl
      · rfl

/-! ## The uninterrupted run -/

/-- **The states of the uninterrupted run** in which its attempt goes on. -/
inductive Fresh (run : PwdRun V) : PwdJob V → Prop
  | start : Fresh run (run.begin [] [])
  | node {job : PwdJob V} {node : ℕ} {rest : List ℕ} (h : Fresh run job) (htodo : job.todo = node :: rest)
      (hended : (run.runNode job node rest).ended = none) : Fresh run (run.runNode job node rest)

/-- **The value a node has** in the uninterrupted run. -/
def Made (run : PwdRun V) (node : ℕ) (value : V) : Prop :=
  ∃ job rest, run.Fresh job ∧ job.todo = node :: rest ∧ run.executeNode job.results node = .ok value
    ∧ run.Completes value

/-- **What the uninterrupted run is like** while it goes on: its checkpoint and its results are of the
nodes before the next one. -/
structure Underway (run : PwdRun V) (job : PwdJob V) (done : List ℕ) : Prop where
  ended : job.ended = none
  order : run.document.order = done ++ job.todo
  disk : run.storeAll job.checkpoint = some job.disk
  checkpoint : ∀ e ∈ job.checkpoint, e.fst ∈ done

theorem Underway.get_none {done rest : List ℕ} {node : ℕ} (h : run.Underway job done)
    (htodo : job.todo = node :: rest) : job.checkpoint.get node = none := by
  have hnodup := run.document.order_nodup
  rw [h.order, htodo] at hnodup
  cases hget : job.checkpoint.get node with
  | none => rfl
  | some value =>
    have hdone := h.checkpoint _ (Dict.mem_of_get hget)
    exact absurd List.mem_cons_self ((List.nodup_append'.mp hnodup).2.2 hdone)

theorem Fresh.underway (h : run.Fresh job) : ∃ done, run.Underway job done := by
  induction h with
  | start => exact ⟨[], rfl, rfl, rfl, List.forall_mem_nil _⟩
  | @node job node rest _ htodo hended ih =>
    obtain ⟨done, hdone⟩ := ih
    rcases runNode_spec rest hdone.disk (hdone.get_none htodo) with ⟨value, -, -, hcompleted⟩ | ⟨-, failure, hfails⟩
    · refine ⟨done ++ [node], hended, ?_, hcompleted.disk, fun e he => ?_⟩
      · rw [hdone.order, htodo, hcompleted.todo, List.append_assoc]
        rfl
      · rcases hcompleted.checkpoint e he with he | rfl
        · exact List.mem_append_left _ (hdone.checkpoint e he)
        · exact List.mem_append_right _ (List.mem_singleton_self _)
    · rw [hfails] at hended
      cases hended

theorem Fresh.step {job : PwdJob V} {node : ℕ} {rest : List ℕ} (h : run.Fresh job) (htodo : job.todo = node :: rest) :
    (∃ value, run.executeNode job.results node = .ok value ∧ run.Completes value
      ∧ run.Completed job node rest value (run.runNode job node rest)
      ∧ run.Fresh (run.runNode job node rest))
    ∨ ((∀ value, run.executeNode job.results node = .ok value → ¬run.Completes value)
      ∧ ∃ failure, run.runNode job node rest = job.fails failure) := by
  obtain ⟨done, hdone⟩ := h.underway
  refine (runNode_spec rest hdone.disk (hdone.get_none htodo)).imp_left ?_
  rintro ⟨value, hvalue, hcompletes, hcompleted⟩
  exact ⟨value, hvalue, hcompletes, hcompleted, h.node htodo (hcompleted.ended.trans hdone.ended)⟩

theorem Fresh.todo_ne_order {node : ℕ} (h : run.Fresh job)
    (htodo : job.todo = node :: rest) : rest ≠ run.document.order := by
  obtain ⟨done, hdone⟩ := h.underway
  intro heq
  have hlength := congrArg List.length hdone.order
  rw [htodo, ← heq, List.length_append, List.length_cons] at hlength
  omega

theorem Fresh.unique {job job' : PwdJob V} (h : run.Fresh job) (h' : run.Fresh job')
    (htodo : job.todo = job'.todo) : job = job' := by
  induction h generalizing job' with
  | start =>
    cases h' with
    | start => rfl
    | @node before node rest hbefore hnode hended =>
      exact absurd (htodo.trans (runNode_todo before hended)).symm (hbefore.todo_ne_order hnode)
  | @node before node rest hbefore hnode hended ih =>
    cases h' with
    | start => exact absurd ((runNode_todo before hended).symm.trans htodo) (hbefore.todo_ne_order hnode)
    | @node before' node' rest' hbefore' hnode' hended' =>
      rw [runNode_todo before hended, runNode_todo before' hended'] at htodo
      obtain ⟨done, hdone⟩ := hbefore.underway
      obtain ⟨done', hdone'⟩ := hbefore'.underway
      have horder : done ++ node :: rest = done' ++ node' :: rest' := by
        rw [← hnode, ← hnode', ← hdone.order, ← hdone'.order]
      subst htodo
      obtain ⟨-, hheads⟩ := List.append_inj' horder rfl
      obtain ⟨rfl, -⟩ := List.cons.inj hheads
      rw [ih hbefore' (hnode.trans hnode'.symm)]

theorem Made.at {node : ℕ} {value : V} (hmade : run.Made node value)
    (h : run.Fresh job) (htodo : job.todo = node :: rest) :
    run.executeNode job.results node = .ok value ∧ run.Completes value := by
  obtain ⟨job', rest', h', htodo', hvalue, hcompletes⟩ := hmade
  obtain ⟨done, hdone⟩ := h.underway
  obtain ⟨done', hdone'⟩ := h'.underway
  have hrest : rest' = rest := by
    have hnodup := run.document.order_nodup
    have horder : done ++ node :: rest = done' ++ node :: rest' := by
      rw [← htodo, ← htodo', ← hdone.order, ← hdone'.order]
    rw [hdone.order, htodo] at hnodup
    exact (rest_unique hnodup horder).symm
  subst hrest
  rw [h.unique h' (htodo.trans htodo'.symm)]
  exact ⟨hvalue, hcompletes⟩

/-- **The end of the uninterrupted run** is that of each of its states. -/
theorem Fresh.finish_eq (h : run.Fresh job) : run.finish job = run.finish (run.begin [] []) := by
  induction h with
  | start => rfl
  | @node job node rest hjob htodo hended ih =>
    obtain ⟨done, hdone⟩ := hjob.underway
    rw [← ih]
    unfold finish
    rw [hended, hdone.ended, runNode_todo job hended, htodo]
    simp only [runNodes, hended]

/-! ## Runs with restarts -/

/-- **A restart that is sound**: each stored result reads back as it was, and a stored node is fed by
stored nodes only. -/
structure SoundCheckpoint (run : PwdRun V) (job : PwdJob V) : Prop where
  loads : ∀ e ∈ job.checkpoint, (run.values.store e.snd).map run.values.load = some e.snd
  closed : ∀ e ∈ job.checkpoint, ∀ edge ∈ run.document.edges, edge.target = e.fst →
    (job.checkpoint.get edge.source).isSome = true

def SoundStep (run : PwdRun V) (job : PwdJob V) : Action → Prop
  | .restart => run.SoundCheckpoint job
  | _ => True

/-- **What holds after sound restarts**: what is stored has the values of the uninterrupted run; an
attempt that goes on is where that run is; and one that has ended has published what it publishes. -/
structure Kept (run : PwdRun V) (job : PwdJob V) : Prop where
  disk : run.storeAll job.checkpoint = some job.disk
  made : ∀ e ∈ job.checkpoint, run.Made e.fst e.snd
  stored : ∀ e ∈ job.stored, run.Made e.fst e.snd
  closed : ∀ e ∈ job.stored, ∀ edge ∈ run.document.edges, edge.target = e.fst →
    (job.stored.get edge.source).isSome = true
  running : job.ended = none → ∃ fresh, run.Fresh fresh ∧ fresh.todo = job.todo
    ∧ ∀ n, job.results.get n = fresh.results.get n
  ended : job.ended ≠ none → job.outputs = (run.finish (run.begin [] [])).outputs

theorem Kept.restart (h : run.Kept job) (hsound : run.SoundCheckpoint job) :
    run.Kept (run.begin job.disk job.diskCompleted) := by
  have hload := load_storeAll h.disk hsound.loads
  refine ⟨?_, ?_, ?_, ?_, fun _ => ⟨run.begin [] [], Fresh.start, rfl, fun n => rfl⟩, fun hended => absurd rfl hended⟩
  · show run.storeAll (job.disk.map fun e => (e.fst, run.values.load e.snd)) = some job.disk
    rw [hload]
    exact h.disk
  · show ∀ e ∈ job.disk.map (fun e => (e.fst, run.values.load e.snd)), run.Made e.fst e.snd
    rw [hload]
    exact h.made
  · show ∀ e ∈ job.disk.map (fun e => (e.fst, run.values.load e.snd)), run.Made e.fst e.snd
    rw [hload]
    exact h.made
  · show ∀ e ∈ job.disk.map (fun e => (e.fst, run.values.load e.snd)), ∀ edge ∈ run.document.edges,
      edge.target = e.fst → (Dict.get (job.disk.map fun e => (e.fst, run.values.load e.snd)) edge.source).isSome = true
    rw [hload]
    exact hsound.closed

theorem outputs_fails (job : PwdJob V) (failure : PwdFailure) : (job.fails failure).outputs = none := rfl

theorem Fresh.outputs_none {node : ℕ} {failure : PwdFailure}
    (h : run.Fresh job) (htodo : job.todo = node :: rest) (hfails : run.runNode job node rest = job.fails failure) :
    (run.finish (run.begin [] [])).outputs = none := by
  obtain ⟨done, hdone⟩ := h.underway
  rw [← h.finish_eq]
  unfold finish
  rw [hdone.ended, htodo]
  simp only [runNodes, hfails]
  rfl

theorem Kept.node {job : PwdJob V} (h : run.Kept job) {node : ℕ} {rest : List ℕ} (hended : job.ended = none)
    (htodo : job.todo = node :: rest) : run.Kept (run.runNode job node rest) := by
  obtain ⟨fresh, hfresh, hsame, hresults⟩ := h.running hended
  have htodo' : fresh.todo = node :: rest := hsame.trans htodo
  cases hget : job.checkpoint.get node with
  | some value =>
    obtain ⟨hvalue, hcompletes⟩ := (h.made _ (Dict.mem_of_get hget)).at hfresh htodo'
    have hrun : run.runNode job node rest = { job with results := job.results.set node value, todo := rest } := by
      unfold runNode
      rw [hget]
    rw [hrun]
    refine ⟨h.disk, h.made, h.stored, h.closed, fun _ => ?_, fun hne => absurd hended hne⟩
    rcases hfresh.step htodo' with ⟨value', hvalue', -, hcompleted, hnext⟩ | ⟨hnot, -⟩
    · obtain rfl := Except.ok.inj (hvalue.symm.trans hvalue')
      refine ⟨_, hnext, hcompleted.todo, fun n => ?_⟩
      rw [hcompleted.results]
      show (job.results.set node value).get n = _
      rw [Dict.get_set, Dict.get_set, hresults n]
    · exact absurd hcompletes (hnot value hvalue)
  | none =>
    have hsameValue := run.executeNode_congr hresults node
    rcases runNode_spec rest h.disk hget with ⟨value, hvalue, hcompletes, hcompleted⟩ | ⟨hnot, failure, hfails⟩
    · have hmade : run.Made node value := ⟨fresh, rest, hfresh, htodo', hsameValue.symm.trans hvalue, hcompletes⟩
      have hrunning := hcompleted.ended.trans hended
      refine ⟨hcompleted.disk, fun e he => ?_, hcompleted.stored ▸ h.stored, ?_, fun _ => ?_,
        fun hne => absurd hrunning hne⟩
      · rcases hcompleted.checkpoint e he with he | rfl
        · exact h.made e he
        · exact hmade
      · rw [hcompleted.stored]
        exact h.closed
      · rcases hfresh.step htodo' with ⟨value', hvalue', -, hcompleted', hnext⟩ | ⟨hnot, -⟩
        · obtain rfl := Except.ok.inj ((hsameValue.symm.trans hvalue).symm.trans hvalue')
          refine ⟨_, hnext, hcompleted'.todo.trans hcompleted.todo.symm, fun n => ?_⟩
          rw [hcompleted.results, hcompleted'.results, Dict.get_set, Dict.get_set, hresults n]
        · exact absurd hcompletes (hnot value (hsameValue.symm.trans hvalue))
    · rw [hfails]
      refine ⟨h.disk, h.made, h.stored, h.closed, fun hnone => (by cases hnone), fun _ => ?_⟩
      rcases hfresh.step htodo' with ⟨value', hvalue', hcompletes, -⟩ | ⟨-, failure', hfails'⟩
      · exact absurd hcompletes (hnot value' (hsameValue.trans hvalue'))
      · rw [outputs_fails, hfresh.outputs_none htodo' hfails']

theorem Kept.publish (h : run.Kept job) (hended : job.ended = none) (htodo : job.todo = []) :
    run.Kept (run.publish job) := by
  obtain ⟨fresh, hfresh, hsame, hresults⟩ := h.running hended
  obtain ⟨done, hdone⟩ := hfresh.underway
  have hpublished := run.publishOutputs_congr hresults
  have hfinish : run.finish (run.begin [] []) = run.publish fresh := by
    rw [← hfresh.finish_eq]
    unfold finish
    rw [hdone.ended, hsame, htodo]
    simp only [runNodes, hdone.ended]
  have houtputs : (run.publish job).outputs = (run.publish fresh).outputs := by
    unfold PwdRun.publish
    rw [hpublished]
    cases run.publishOutputs fresh.results with
    | none => rfl
    | some outputs => rfl
  have hframe : (run.publish job).disk = job.disk ∧ (run.publish job).checkpoint = job.checkpoint
      ∧ (run.publish job).stored = job.stored ∧ (run.publish job).ended ≠ none := by
    unfold PwdRun.publish
    cases run.publishOutputs job.results with
    | none => exact ⟨rfl, rfl, rfl, Option.some_ne_none _⟩
    | some outputs => exact ⟨rfl, rfl, rfl, Option.some_ne_none _⟩
  obtain ⟨hdisk, hcheckpoint, hstored, hne⟩ := hframe
  refine ⟨?_, hcheckpoint ▸ h.made, hstored ▸ h.stored, hstored ▸ h.closed, fun hnone => absurd hnone hne, fun _ => ?_⟩
  · rw [hcheckpoint, hdisk]
    exact h.disk
  · rw [houtputs, hfinish]

/-! ## What the attempts come to -/

theorem runNode_results (job : PwdJob V) {node n : ℕ} (rest : List ℕ) (hne : n ≠ node) :
    (run.runNode job node rest).results.get n = job.results.get n := by
  have hset : ∀ value : V, (job.results.set node value).get n = job.results.get n := fun value => by
    rw [Dict.get_set, if_neg hne]
  unfold runNode
  split
  · exact hset _
  · split
    · rfl
    · rename_i value _
      unfold complete
      split
      · rfl
      · split
        · rfl
        · exact hset value
      · exact hset value

theorem runNodes_results (job : PwdJob V) {n : ℕ} {todo : List ℕ} (hn : n ∉ todo) :
    (run.runNodes job todo).results.get n = job.results.get n := by
  induction todo generalizing job with
  | nil => rfl
  | cons node rest ih =>
    obtain ⟨hne, hrest⟩ := not_or.mp (mt List.mem_cons.mpr hn)
    rw [runNodes]
    split
    · rw [ih _ hrest, runNode_results job rest hne]
    · exact runNode_results job rest hne

theorem publish_results (job : PwdJob V) : (run.publish job).results = job.results := by
  unfold PwdRun.publish
  split
  · rfl
  · rfl

theorem Made.result {node : ℕ} {value : V} (h : run.Made node value) :
    (run.finish (run.begin [] [])).results.get node = some value := by
  obtain ⟨job, rest, hfresh, htodo, hvalue, hcompletes⟩ := h
  obtain ⟨done, hdone⟩ := hfresh.underway
  have hnodup := run.document.order_nodup
  rw [hdone.order, htodo] at hnodup
  have hrest : node ∉ rest := (List.nodup_cons.mp (List.nodup_append'.mp hnodup).2.1).1
  rcases hfresh.step htodo with ⟨value', hvalue', -, hcompleted, hnext⟩ | ⟨hnot, -⟩
  · obtain rfl := Except.ok.inj (hvalue.symm.trans hvalue')
    have hset : (run.runNode job node rest).results.get node = some value := by
      rw [hcompleted.results, Dict.get_set, if_pos rfl]
    have hended := hcompleted.ended.trans hdone.ended
    rw [← hnext.finish_eq]
    unfold finish
    rw [hended, hcompleted.todo]
    simp only
    split
    · rw [publish_results, runNodes_results _ hrest, hset]
    · rw [runNodes_results _ hrest, hset]
  · exact absurd hcompletes (hnot value hvalue)

theorem outputs_runNodes (todo : List ℕ) : ∀ job : PwdJob V, run.Kept job → job.ended = none → job.todo = todo →
    (match (run.runNodes job todo).ended with
      | none => run.publish (run.runNodes job todo)
      | some _ => run.runNodes job todo).outputs = (run.finish (run.begin [] [])).outputs := by
  induction todo with
  | nil =>
    intro job h hended htodo
    simp only [runNodes, hended]
    refine (h.publish hended htodo).ended ?_
    unfold PwdRun.publish
    split <;> exact Option.some_ne_none _
  | cons node rest ih =>
    intro job h hended htodo
    have hnext := h.node hended htodo
    cases hrun : (run.runNode job node rest).ended with
    | none =>
      simp only [runNodes, hrun]
      exact ih _ hnext hrun (runNode_todo job hrun)
    | some ending =>
      simp only [runNodes, hrun]
      exact hnext.ended (by rw [hrun]; exact Option.some_ne_none ending)

theorem Kept.outputs_finish (h : run.Kept job) :
    (run.finish job).outputs = (run.finish (run.begin [] [])).outputs := by
  unfold finish
  cases hended : job.ended with
  | none => exact outputs_runNodes job.todo job h hended rfl
  | some ending => exact h.ended (by rw [hended]; exact Option.some_ne_none ending)

/-- A node is computed from another one, directly or through others. -/
def DependsOn (run : PwdRun V) : ℕ → ℕ → Prop :=
  Relation.TransGen fun node source => ∃ edge ∈ run.document.edges, edge.target = node ∧ edge.source = source

/-- **Restarts change nothing**: in every run whose restarts are sound, an attempt publishes what the
uninterrupted run publishes, a result that is read back is the value its node has there, and with a node
every node it depends on is read back. -/
theorem restarts_equivalent (run : PwdRun V) {job : PwdJob V}
    (h : (run.system.guarded run.SoundStep).Reachable job) :
    (run.finish job).outputs = (run.finish (run.begin [] [])).outputs
      ∧ (∀ n value, job.stored.get n = some value →
        (run.finish (run.begin [] [])).results.get n = some value)
      ∧ ∀ n m, (job.stored.get n).isSome = true → run.DependsOn n m → (job.stored.get m).isSome = true := by
  have hkept : run.Kept job := by
    refine System.Reachable.invariant (I := run.Kept) (fun s hinit => ?_) (fun s a s' _ hinv hstep => ?_) h
    · obtain rfl : s = run.begin [] [] := hinit
      exact ⟨rfl, List.forall_mem_nil _, List.forall_mem_nil _, List.forall_mem_nil _,
        fun _ => ⟨_, Fresh.start, rfl, fun _ => rfl⟩, fun hne => absurd rfl hne⟩
    · obtain ⟨hnext, hsound⟩ := hstep
      have hnext : run.next s a = some s' := hnext
      cases a with
      | node =>
        simp only [next] at hnext
        split at hnext
        · rename_i node rest hended htodo
          obtain rfl := Option.some.inj hnext
          exact hinv.node hended htodo
        · cases hnext
      | publish =>
        simp only [next] at hnext
        split at hnext
        · rename_i hended htodo
          obtain rfl := Option.some.inj hnext
          exact hinv.publish hended htodo
        · cases hnext
      | restart =>
        obtain rfl := Option.some.inj hnext
        exact hinv.restart hsound
  refine ⟨hkept.outputs_finish, fun n value hget => (hkept.stored _ (Dict.mem_of_get hget)).result, ?_⟩
  intro n m hn hdepends
  induction hdepends with
  | single hedge =>
    obtain ⟨edge, hedge, rfl, rfl⟩ := hedge
    obtain ⟨value, hget⟩ := Option.isSome_iff_exists.mp hn
    exact hkept.closed _ (Dict.mem_of_get hget) edge hedge rfl
  | tail _ hedge ih =>
    obtain ⟨edge, hedge, rfl, rfl⟩ := hedge
    obtain ⟨value, hget⟩ := Option.isSome_iff_exists.mp ih
    exact hkept.closed _ (Dict.mem_of_get hget) edge hedge rfl

end PwdRun

/-! ## A result that is read back as another one -/

section Reread

/-- Some values: an object, an empty tuple, an empty list, and texts. -/
inductive SampleValue where
  | token
  | tuple
  | list
  | text (text : PyStr)

def sampleValues : PythonValues SampleValue where
  null := .text "None"
  items _ := none
  keyTexts _ := []
  getattr _ _ := none
  typeName _ := "object"
  repr _ := "<object>"
  jsonable
    | .token => some false
    | _ => some true
  store
    | .token => none
    | .tuple => some (.arr [])
    | .list => some (.arr [])
    | .text text => some (.str text)
  load
    | .arr _ => .list
    | .str text => .text text
    | _ => .token

def rereadDocument : PwdDocument SampleValue where
  nodes := [(0, .function "m.token"), (1, .function "m.tuple"), (2, .function "m.kind"), (3, .output "kind")]
  edges := [⟨0, 1, none, some "x"⟩, ⟨1, 2, none, some "x"⟩, ⟨2, 3, none, none⟩]
  order := [0, 1, 2, 3]
  distinct := by decide
  declared := by decide
  ordered := by decide

def rereadRun : PwdRun SampleValue where
  values := sampleValues
  document := rereadDocument
  overrides := []
  call reference arguments :=
    if reference = "m.token" then .ok .token
    else if reference = "m.tuple" then .ok .tuple
    else match arguments.get "x" with
      | some .tuple => .ok (.text "tuple")
      | some .list => .ok (.text "list")
      | _ => .ok (.text "other")

/-- **A stored result is read back as another value, and reused over a node that is computed again**: the
attempt after an interruption publishes the list it has read, and the uninterrupted run the tuple. -/
theorem reused_over_recomputed : ∃ job, rereadRun.system.Reachable job
    ∧ (rereadRun.finish job).outputs ≠ (rereadRun.finish (rereadRun.begin [] [])).outputs
    ∧ (job.stored.get 1).isSome = true ∧ rereadRun.DependsOn 1 0 ∧ job.stored.get 0 = none := by
  have hrun : ∃ job, System.follow rereadRun.next (rereadRun.begin [] []) [.node, .node, .restart] = some job
      ∧ (rereadRun.finish job).outputs = some [(PyStr.ofString "kind", PwdOutput.value (.text "list"))]
      ∧ job.stored = [(1, .list)] := ⟨_, rfl, rfl, rfl⟩
  obtain ⟨job, hfollow, houtputs, hstored⟩ := hrun
  have hfresh : (rereadRun.finish (rereadRun.begin [] [])).outputs
      = some [(PyStr.ofString "kind", PwdOutput.value (.text "tuple"))] := rfl
  refine ⟨job, (System.run_of_follow hfollow).reachable (System.Reachable.init rfl), ?_, ?_, ?_, ?_⟩
  · rw [houtputs, hfresh]
    simp
  · rw [hstored]
    rfl
  · exact Relation.TransGen.single ⟨⟨0, 1, none, some "x"⟩, List.mem_cons_self, rfl, rfl⟩
  · rw [hstored]
    rfl

def textRun : PwdRun SampleValue where
  values := sampleValues
  document := rereadDocument
  overrides := []
  call _ _ := .ok (.text "value")

/-- Restarts of a graph of texts: one node is read back, and the next one is computed. -/
theorem restarts_equivalent_texts : ∃ job, (textRun.system.guarded textRun.SoundStep).Reachable job
    ∧ job.stored.get 0 = some (.text "value")
    ∧ (textRun.finish job).outputs = (textRun.finish (textRun.begin [] [])).outputs
    ∧ (∀ n value, job.stored.get n = some value →
      (textRun.finish (textRun.begin [] [])).results.get n = some value)
    ∧ ∀ n m, (job.stored.get n).isSome = true → textRun.DependsOn n m → (job.stored.get m).isSome = true := by
  have hfirst : ∃ job, System.follow textRun.next (textRun.begin [] []) [.node] = some job
      ∧ job.checkpoint = [(0, .text "value")] := ⟨_, rfl, rfl⟩
  obtain ⟨first, hfollow, hcheckpoint⟩ := hfirst
  have hreachable : (textRun.system.guarded textRun.SoundStep).Reachable first :=
    ((System.run_of_follow hfollow).guarded (by simp [PwdRun.SoundStep])).reachable (System.Reachable.init rfl)
  have hsound : textRun.SoundCheckpoint first := by
    constructor
    · simp [hcheckpoint, textRun, sampleValues]
    · simp [hcheckpoint, textRun, rereadDocument]
  have hsecond : ∃ job, textRun.next first .restart = some job ∧ job.stored.get 0 = some (.text "value") := by
    obtain rfl := Option.some.inj hfollow
    exact ⟨_, rfl, rfl⟩
  obtain ⟨second, hrestart, hstored⟩ := hsecond
  have hreachable' := hreachable.next .restart hsound hrestart
  exact ⟨second, hreachable', hstored, PwdRun.restarts_equivalent textRun hreachable'⟩

end Reread
