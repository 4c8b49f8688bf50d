import HttkWorkflow.AttemptDraft
import HttkWorkflow.CrashTriples

/-!
# What an attempt publishes

An outcome should hold what the step has staged: the operation of each `put`
and `remove` that returned and the child of each `spawn` that returned, once
and in the order of the calls. A call that raised should have left nothing.

Three calls do not keep to that. A publication that raises removes the draft
with everything that was staged on it, and the next one publishes an outcome
without it. A `spawn` that fails to write `spawn.json` has already added its
child to the list, from where the next `spawn` writes it. And `put` and
`remove` do not look whether an outcome is published once there is a
transaction: they return, and nothing comes of them.

In a run in which no step does one of these, what is published is what was
staged (`published_as_staged`). Whatever the step does, a second outcome is
never published over the first one.
-/

/-! ## What the calls have staged -/

/-- **What a `put` or `remove` that returned this id has staged.** -/
def AttemptCall.staged (files : CallFiles) (id : PyStr) : AttemptCall → Option StagedOperation
  | .put _ destination =>
    match relativeTarget destination "transaction target", files.copy with
    | .ok target, .ok sha256 => some (.install id files.installKind target sha256)
    | _, _ => none
  | .remove destination missingOk =>
    match relativeTarget destination "transaction target" with
    | .ok target => some (.remove id target missingOk)
    | .error _ => none
  | _ => none

/-- **The child of a `spawn` that returned this reference.** -/
def AttemptCall.spawned (files : CallFiles) (reference : ChildReference) : AttemptCall → Option SpawnEntry
  | .spawn _ label _ => some ⟨reference, label, files.spawnId⟩
  | _ => none

/-- **What the calls of a run have staged** that returned, in order. -/
structure CallLog where
  operations : List (Option StagedOperation)
  children : List (Option SpawnEntry)

def CallLog.add (log : CallLog) (files : CallFiles) (call : AttemptCall) : Except SdkError CallResult → CallLog
  | .ok (.operation id) => { log with operations := log.operations ++ [call.staged files id] }
  | .ok (.child reference) => { log with children := log.children ++ [call.spawned files reference] }
  | _ => log

/-- **The calls of a step**, one after the other, whether they raise or not. -/
def attemptNext (env : AttemptEnv) (s : AttemptState) (a : AttemptCall × CallFiles) : Option AttemptState :=
  some ((a.fst.run env a.snd).final s)

def observeCall (env : AttemptEnv) (log : CallLog) (s : AttemptState) (a : AttemptCall × CallFiles)
    (_ : AttemptState) : CallLog :=
  log.add a.snd a.fst ((a.fst.run env a.snd) s).snd

def attemptRuns (env : AttemptEnv) : System (AttemptState × CallLog) (AttemptCall × CallFiles) :=
  System.observed (· = AttemptState.initial) (attemptNext env) ⟨[], []⟩ (observeCall env)

/-! ## The condition -/

def OutcomeDraft.operations (draft : OutcomeDraft) : List StagedOperation :=
  (draft.transaction.map (·.operations)).getD []

def AttemptState.staged (s : AttemptState) : List StagedOperation := (s.draft.map (·.operations)).getD []

def AttemptState.children (s : AttemptState) : List SpawnEntry := (s.draft.map (·.children)).getD []

/-- **A publication that cannot fail**: its arguments and the registered steps are valid, the transaction
was made if its directory was, and the file operations up to the rename succeed. -/
structure Publishable (env : AttemptEnv) (files : CallFiles) (s : AttemptState) (request : PublishRequest) : Prop where
  arguments : (checkRequest s.children request).isOk = true
  steps : ∀ step ∈ env.steps, (checked (validateStep (some (.str step)) "step")).isOk = true
  transaction : ∀ draft, s.draft = some draft → draft.transaction = none → draft.transactionDirectory = false
  files : files.sealing = none ∧ files.manifest = none ∧ files.outcome = none ∧ files.sync = none ∧ files.rename = none

/-- **The condition on a call**: after the publication nothing is put or removed on its transaction;
`spawn.json` is written; and where something is staged, a publication that is asked for does not fail. -/
def Steady (env : AttemptEnv) (s : AttemptState) (files : CallFiles) : AttemptCall → Prop
  | .put _ _ | .remove _ _ => s.ready = none ∨ (s.published.isSome = true ∧ s.builder = none)
  | .spawn _ _ _ => s.published.isSome = true ∨ (s.ready = none ∧ files.spawn = none)
  | call => s.ready.isSome = true ∨ (s.staged = [] ∧ s.children = [])
    ∨ ∀ request, call.request env s = some (.ok request) → Publishable env files s request

def SteadyCall (env : AttemptEnv) (p : AttemptState × CallLog) (a : AttemptCall × CallFiles) : Prop :=
  Steady env p.fst a.snd a.fst

/-! ## Before the publication -/

/-- **A draft that holds** what the calls have staged. -/
structure DraftHolds (env : AttemptEnv) (log : CallLog) (draft : OutcomeDraft) : Prop where
  operations : draft.operations.map some = log.operations
  children : draft.children.map some = log.children
  spawnFile : draft.spawnFile.getD [] = draft.children
  generation : ∀ builder, draft.transaction = some builder → some builder.expectedGeneration = env.dataGeneration

/-- **An attempt that has published nothing**: its draft holds what the calls have staged. -/
structure Composing (env : AttemptEnv) (log : CallLog) (s : AttemptState) : Prop where
  ready : s.ready = none
  published : s.published = none
  empty : s.draft = none → log.operations = [] ∧ log.children = []
  draft : ∀ draft, s.draft = some draft → DraftHolds env log draft

/-- **An attempt that has published** what the calls have staged. -/
def Ended (log : CallLog) (s : AttemptState) : Prop :=
  ∃ outcome, s.ready = some outcome ∧ outcome.operations.map some = log.operations
    ∧ outcome.children.map some = log.children

open Effects

variable {env : AttemptEnv} {files : CallFiles} {log : CallLog}

variable {draft : OutcomeDraft}

theorem operations_of_transaction_none (h : draft.transaction = none) : draft.operations = [] := by
  rw [OutcomeDraft.operations, h]
  rfl

variable {s : AttemptState}

variable {log' : CallLog}

theorem Composing.replace (h : Composing env log s)
    (hdraft : DraftHolds env log' draft) : Composing env log' { s with draft := some draft } := by
  refine ⟨h.ready, h.published, fun hnone => (by cases hnone), fun d hd => ?_⟩
  obtain rfl := Option.some.inj hd
  exact hdraft

theorem ending_requireDraft (builder : Option TransactionBuilder) :
    Ending (fun s => Composing env log s ∧ s.builder = builder) (requireDraft files)
      (fun _ s => (Composing env log s ∧ s.draft.isSome = true) ∧ s.builder = builder) (Composing env log) := by
  refine Ending.look fun s hs => Ending.seq (R := fun _ => (· = s)) (Ending.check ?_ ?_) fun _ => ?_
  · exact fun _ _ _ heq => heq
  · rintro e _ - rfl
    exact hs.1
  · cases hdraft : s.draft with
    | some draft =>
      refine Ending.ret ?_
      rintro _ rfl
      exact ⟨⟨hs.1, by rw [hdraft]; rfl⟩, hs.2⟩
    | none =>
      refine Ending.seq (R := fun _ => (· = s)) (Ending.check (fun _ _ _ heq => heq) ?_) fun _ => Ending.once ?_
      · rintro e _ - rfl
        exact hs.1
      · rintro _ rfl
        obtain ⟨hcomposing, hbuilder⟩ := hs
        obtain ⟨hoperations, hchildren⟩ := hcomposing.empty hdraft
        rw [AttemptState.builder, hdraft] at hbuilder
        refine ⟨⟨hcomposing.replace ⟨hoperations.symm, hchildren.symm, rfl, fun b hb => ?_⟩, rfl⟩, hbuilder⟩
        cases hb

theorem ending_draftTransaction {generation : ℤ} (hgeneration : env.dataGeneration = some generation) :
    Ending (fun s => Composing env log s ∧ ∃ draft, s.draft = some draft ∧ draft.transaction = none)
      (draftTransaction generation files)
      (fun _ s => Composing env log s ∧ s.builder.isSome = true) (Composing env log) := by
  refine Ending.look fun s hs => ?_
  obtain ⟨hcomposing, draft, hdraft, hnone⟩ := hs
  have hholds := hcomposing.draft draft hdraft
  have hoperations : log.operations = [] := by
    rw [← hholds.operations, operations_of_transaction_none hnone]
    rfl
  have hcompose : ∀ f, AttemptState.compose f s = { s with draft := some (f draft) } := fun f => by
    rw [AttemptState.compose, hdraft]
    rfl
  split
  · refine Ending.throw ?_
    rintro _ rfl
    exact hcomposing
  · cases files.transaction with
    | some fault =>
      refine Ending.seq (R := fun _ => Composing env log) (Ending.once ?_) fun _ => Ending.throw fun _ h => h
      rintro _ rfl
      rw [hcompose]
      exact hcomposing.replace ⟨hholds.operations, hholds.children, hholds.spawnFile, hholds.generation⟩
    | none =>
      refine Ending.once ?_
      rintro _ rfl
      rw [hcompose]
      refine ⟨hcomposing.replace ⟨hoperations.symm, hholds.children, hholds.spawnFile, fun b hb => ?_⟩, rfl⟩
      obtain rfl := Option.some.inj hb
      exact hgeneration.symm

theorem ending_dataTransaction : Ending (Composing env log) (dataTransaction env files)
    (fun _ s => Composing env log s ∧ s.builder.isSome = true) (Composing env log) := by
  unfold dataTransaction
  cases hgeneration : env.dataGeneration with
  | none => exact Ending.check (fun _ _ h _ => (by cases h)) fun _ _ _ h => h
  | some generation =>
    refine Ending.look fun s hs => ?_
    cases hbuilder : s.builder with
    | some builder =>
      refine Ending.ret ?_
      rintro _ rfl
      exact ⟨hs, by rw [hbuilder]; rfl⟩
    | none =>
      refine ((ending_requireDraft none).conseq ?_ ?_ fun _ h => h).seq fun _ => ending_draftTransaction hgeneration
      · rintro _ rfl
        exact ⟨hs, hbuilder⟩
      · rintro _ s ⟨⟨hcomposing, hdraft⟩, hnone⟩
        obtain ⟨draft, hdraft⟩ := Option.isSome_iff_exists.mp hdraft
        rw [AttemptState.builder, hdraft] at hnone
        exact ⟨hcomposing, draft, hdraft, hnone⟩

/-! ## Data operations -/

theorem Composing.build (f : TransactionBuilder → TransactionBuilder)
    (h : Composing env log s ∧ s.builder.isSome = true)
    (hoperations : ∀ b, b.operations.map some = log.operations → (f b).operations.map some = log'.operations)
    (hgeneration : ∀ b, (f b).expectedGeneration = b.expectedGeneration) (hchildren : log'.children = log.children) :
    Composing env log' (s.build f) ∧ (s.build f).builder.isSome = true := by
  obtain ⟨hcomposing, hbuilder⟩ := h
  obtain ⟨builder, hbuilder⟩ := Option.isSome_iff_exists.mp hbuilder
  obtain ⟨draft, hdraft, htransaction⟩ := Option.bind_eq_some_iff.mp hbuilder
  have hholds := hcomposing.draft draft hdraft
  have hbuild : s.build f = { s with draft := some { draft with transaction := some (f builder) } } := by
    rw [AttemptState.build, hdraft, Option.map_some, htransaction, Option.map_some]
  rw [hbuild]
  refine ⟨hcomposing.replace ⟨?_, ?_, hholds.spawnFile, fun b hb => ?_⟩, rfl⟩
  · refine hoperations builder ?_
    rw [← hholds.operations, OutcomeDraft.operations, htransaction]
    rfl
  · rw [hchildren]
    exact hholds.children
  · obtain rfl := Option.some.inj hb
    rw [hgeneration]
    exact hholds.generation builder htransaction

theorem ending_nextOperation : Ending (fun s => Composing env log s ∧ s.builder.isSome = true) nextOperation
    (fun _ s => Composing env log s ∧ s.builder.isSome = true) (Composing env log) := by
  refine Ending.look fun s hs => Ending.once ?_
  rintro _ rfl
  exact ⟨⟨hs.1.ready, hs.1.published, hs.1.empty, hs.1.draft⟩, hs.2⟩

variable {destination : PyStr}

theorem ending_builderOperation {id : PyStr} :
    Ending (fun s => Composing env log s ∧ s.builder.isSome = true) (builderOperation id destination)
      (fun target s => (Composing env log s ∧ s.builder.isSome = true)
        ∧ relativeTarget destination "transaction target" = .ok target) (Composing env log) := by
  refine Ending.seq (R := fun _ s => Composing env log s ∧ s.builder.isSome = true)
    (Ending.check (fun _ _ _ h => h) fun _ _ _ h => h.1) fun _ => Ending.look fun s hs => ?_
  split
  · refine Ending.check (fun _ _ h _ => (by cases h)) ?_
    rintro e _ - rfl
    exact hs.1
  · refine Ending.seq (R := fun target t => t = s ∧ relativeTarget destination "transaction target" = .ok target)
      (Ending.check (fun _ _ h heq => ⟨heq, h⟩) ?_) fun target => ?_
    · rintro e _ - rfl
      exact hs.1
    · split
      · refine Ending.check (fun _ _ h _ => (by cases h)) ?_
        rintro e _ - ⟨rfl, -⟩
        exact hs.1
      · refine Ending.once ?_
        rintro _ ⟨rfl, htarget⟩
        exact ⟨Composing.build _ hs (fun b h => h) (fun b => rfl) rfl, htarget⟩

def CallLog.staging (log : CallLog) (operation : StagedOperation) : CallLog :=
  { log with operations := log.operations ++ [some operation] }

variable {operation : StagedOperation}

theorem ending_addOperation : Ending (fun s => Composing env log s ∧ s.builder.isSome = true) (addOperation operation)
      (fun _ => Composing env (log.staging operation)) (Composing env log) := by
  refine Ending.once fun s hs => And.left (Composing.build _ hs (fun b hb => ?_) (fun b => rfl) rfl)
  show (b.operations ++ [operation]).map some = log.operations ++ [some operation]
  rw [List.map_append, hb]
  rfl

/-- **A call that has staged** what it says. -/
def Staged (env : AttemptEnv) (log : CallLog) (files : CallFiles) (call : AttemptCall) (id : PyStr)
    (s : AttemptState) : Prop :=
  Composing env { log with operations := log.operations ++ [call.staged files id] } s

theorem ending_stage {call : AttemptCall} {id : PyStr} (hstaged : call.staged files id = some operation) :
    Ending (fun s => Composing env log s ∧ s.builder.isSome = true)
      (addOperation operation >>= fun _ => pure id) (Staged env log files call) (Composing env log) := by
  refine ending_addOperation.seq fun _ => Ending.ret fun s hs => ?_
  show Composing env _ s
  rw [hstaged]
  exact hs

theorem ending_putCall {source : PyStr} : Ending (Composing env log) (putCall env files source destination)
      (Staged env log files (.put source destination)) (Composing env log) := by
  refine ending_dataTransaction.seq fun _ => ending_nextOperation.seq fun id =>
    ending_builderOperation.seq fun target => ?_
  split
  · exact Ending.check (fun _ _ h _ => (by cases h)) fun _ _ _ h => h.1.1
  · refine Ending.seq (R := fun sha256 s => (Composing env log s ∧ s.builder.isSome = true)
        ∧ (AttemptCall.put source destination).staged files id = some (.install id files.installKind target sha256))
      (Ending.check (fun sha256 s h hs => ⟨hs.1, ?_⟩) fun _ _ _ h => h.1.1) fun sha256 => ?_
    · have hcopy : files.copy = .ok sha256 := by
        cases hcopy : files.copy with
        | error e =>
          rw [hcopy] at h
          cases h
        | ok value =>
          rw [hcopy] at h
          exact congrArg Except.ok (Except.ok.inj h)
      rw [AttemptCall.staged, hs.2, hcopy]
    · intro s hs
      exact ending_stage hs.2 s hs.1

theorem ending_removeCall {missingOk : Bool} : Ending (Composing env log) (removeCall env files destination missingOk)
      (Staged env log files (.remove destination missingOk)) (Composing env log) := by
  refine ending_dataTransaction.seq fun _ => ending_nextOperation.seq fun id =>
    ending_builderOperation.seq fun target => ?_
  intro s hs
  have hstaged : (AttemptCall.remove destination missingOk).staged files id = some (.remove id target missingOk) := by
    rw [AttemptCall.staged, hs.2]
  exact ending_stage hstaged s hs.1

/-! ## Children -/

theorem label_of_validateLabel {label text : PyStr} {name : String}
    (h : checked (validateLabel (some (.str label)) name) = .ok text) : text = label := by
  cases hlabel : validateLabel (some (.str label)) name with
  | error e =>
    rw [hlabel] at h
    cases h
  | ok value =>
    rw [hlabel] at h
    obtain rfl : value = text := Except.ok.inj h
    unfold validateLabel at hlabel
    obtain ⟨required, hrequired, hvalue⟩ := bind_eq_ok.mp hlabel
    have hsame : some (Json.str label) = some (.str required) := by
      have hensures : Ensures (requireString (some (.str label)) name) fun t => some (Json.str label) = some (.str t) :=
        ensures_requireString
      rw [hrequired] at hensures
      exact hensures
    split_ifs at hvalue
    · obtain rfl := Except.ok.inj hvalue
      exact (Json.str.inj (Option.some.inj hsame)).symm
    · cases hvalue

variable {members : List (PyStr × Json)} {label placement : PyStr}

theorem childEntry_spec {children : List SpawnEntry}
    {entry : SpawnEntry} (h : childEntry env files children members label placement = .ok entry) :
    entry.label = label ∧ entry.spawnId = files.spawnId := by
  unfold childEntry at h
  obtain ⟨child, -, h⟩ := bind_eq_ok.mp h
  obtain ⟨text, htext, h⟩ := bind_eq_ok.mp h
  split_ifs at h
  · cases h
  · obtain ⟨parts, -, h⟩ := bind_eq_ok.mp h
    obtain rfl := Except.ok.inj h
    exact ⟨label_of_validateLabel htext, rfl⟩

/-- The log with one child more. -/
def CallLog.spawning (log : CallLog) (entry : SpawnEntry) : CallLog :=
  { log with children := log.children ++ [some entry] }

theorem ending_registerChild (hspawn : files.spawn = none) :
    Ending (fun s => Composing env log s ∧ s.draft.isSome = true) (registerChild env files members label placement)
      (fun reference => Composing env (log.spawning ⟨reference, label, files.spawnId⟩)) (Composing env log) := by
  refine Ending.look fun s hs => ?_
  obtain ⟨hcomposing, hdraft⟩ := hs
  obtain ⟨draft, hdraft⟩ := Option.isSome_iff_exists.mp hdraft
  have hholds := hcomposing.draft draft hdraft
  refine Ending.seq (R := fun entry t => t = s ∧ entry = ⟨entry.reference, label, files.spawnId⟩)
    (Ending.check (fun entry t h heq => ⟨heq, ?_⟩) ?_) fun entry => ?_
  · obtain ⟨hlabel, hid⟩ := childEntry_spec h
    rw [← hlabel, ← hid]
  · rintro e _ - rfl
    exact hcomposing
  · refine Ending.seq (R := fun _ t => t = s ∧ entry = ⟨entry.reference, label, files.spawnId⟩)
      (Ending.check (fun _ _ _ h => h) ?_) fun _ => ?_
    · rintro e _ - ⟨rfl, -⟩
      exact hcomposing
    · refine Ending.seq (R := fun _ t => t = { s with draft := some { draft with children := draft.children ++ [entry] } }
          ∧ entry = ⟨entry.reference, label, files.spawnId⟩) (Ending.once ?_) fun _ => ?_
      · rintro _ ⟨rfl, hentry⟩
        refine ⟨?_, hentry⟩
        rw [AttemptState.compose, hdraft]
        rfl
      · rw [hspawn]
        refine Ending.seq (R := fun _ t => t = { s with draft := some { draft with children := draft.children ++ [entry] } }
          ∧ entry = ⟨entry.reference, label, files.spawnId⟩)
          (Ending.check (fun _ _ _ h => h) fun _ _ h _ => (by cases h)) fun _ => ?_
        refine Ending.seq (R := fun _ t => Composing env (log.spawning entry) t
          ∧ entry = ⟨entry.reference, label, files.spawnId⟩) (Ending.once ?_) fun _ => Ending.ret ?_
        · rintro _ ⟨rfl, hentry⟩
          refine ⟨?_, hentry⟩
          refine hcomposing.replace ⟨hholds.operations, ?_, rfl, hholds.generation⟩
          show (draft.children ++ [entry]).map some = log.children ++ [some entry]
          rw [List.map_append, hholds.children]
          rfl
        · rintro t ⟨ht, hentry⟩
          rw [hentry] at ht
          exact ht

theorem ending_requireDraft_any : Ending (Composing env log) (requireDraft files)
    (fun _ s => Composing env log s ∧ s.draft.isSome = true) (Composing env log) := fun s hs =>
  ((ending_requireDraft s.builder).conseq (fun _ h => h) (fun _ _ h => h.1) fun _ h => h) s ⟨hs, rfl⟩

theorem ending_spawnCall {child : SpawnedChild} {label : PyStr} {placement : Option PyStr}
    (hspawn : files.spawn = none) :
    Ending (Composing env log) (spawnCall env files child label placement)
      (fun reference => Composing env (log.spawning ⟨reference, label, files.spawnId⟩)) (Composing env log) := by
  refine Ending.look fun s hs => ?_
  refine Ending.seq (R := fun _ => Composing env log) (Ending.check ?_ ?_) fun _ => ?_
  · rintro _ _ - rfl
    exact hs
  · rintro _ _ - rfl
    exact hs
  · refine Ending.seq (R := fun text s => Composing env log s ∧ text = label)
      (Ending.check (fun text _ h hs => ⟨hs, label_of_validateLabel h⟩) fun _ _ _ h => h) fun text => ?_
    intro t ht
    obtain ⟨hcomposing, rfl⟩ := ht
    cases child with
    | payload =>
      refine (ending_requireDraft_any.seq fun _ => Ending.seq
        (Ending.check (fun _ _ _ h => h) fun _ _ _ h => h.1) fun _ => ending_registerChild hspawn) t hcomposing
    | spec step inherits job =>
      refine (Ending.seq (R := fun _ => Composing env log) (Ending.check (fun _ _ _ h => h) fun _ _ _ h => h) fun _ =>
        Ending.seq (R := fun _ => Composing env log) (Ending.check (fun _ _ _ h => h) fun _ _ _ h => h) fun _ =>
          ending_requireDraft_any.seq fun _ => ending_registerChild hspawn) t hcomposing

/-! ## The publication -/

variable {request : PublishRequest}

theorem outcome_spec {outcome : Outcome} (h : draft.outcome env files request = .ok outcome) :
    outcome.manifest = draft.transaction.map (·.operations) ∧ outcome.spawn = draft.spawnFile := by
  unfold OutcomeDraft.outcome at h
  obtain ⟨body, -, h⟩ := bind_eq_ok.mp h
  obtain ⟨manifest, hmanifest, h⟩ := bind_eq_ok.mp h
  obtain ⟨steps, -, h⟩ := bind_eq_ok.mp h
  obtain ⟨-, -, h⟩ := bind_eq_ok.mp h
  obtain ⟨-, -, h⟩ := bind_eq_ok.mp h
  obtain rfl := Except.ok.inj h
  refine ⟨?_, rfl⟩
  show manifest.snd = _
  unfold OutcomeDraft.manifest at hmanifest
  split at hmanifest
  · rename_i builder htransaction
    obtain ⟨-, -, hmanifest⟩ := bind_eq_ok.mp hmanifest
    obtain ⟨-, -, hmanifest⟩ := bind_eq_ok.mp hmanifest
    split_ifs at hmanifest
    · cases hmanifest
    · rw [← Except.ok.inj hmanifest, htransaction]
      rfl
  · rename_i htransaction
    split_ifs at hmanifest
    rw [← Except.ok.inj hmanifest, htransaction]
    rfl

theorem mapM_isOk {α β : Type} {f : α → Except SdkError β} {l : List α} (h : ∀ a ∈ l, (f a).isOk = true) :
    ∃ bs, l.mapM f = .ok bs := by
  induction l with
  | nil => exact ⟨[], rfl⟩
  | cons a l ih =>
    obtain ⟨ha, hl⟩ := List.forall_mem_cons.mp h
    obtain ⟨bs, hbs⟩ := ih hl
    cases hb : f a with
    | error e =>
      rw [hb] at ha
      cases ha
    | ok b =>
      refine ⟨b :: bs, ?_⟩
      rw [List.mapM_cons, hb, hbs]
      rfl

theorem Publishable.outcome (h : Publishable env files s request) (hdraft : s.draft = some draft)
    (hholds : DraftHolds env log draft) :
    ∃ outcome, draft.outcome env files request = .ok outcome := by
  obtain ⟨hsealing, hmanifest, houtcome, hsync, -⟩ := h.files
  have harguments := h.arguments
  rw [AttemptState.children, hdraft] at harguments
  obtain ⟨body, hbody⟩ : ∃ body, checkRequest draft.children request = .ok body := by
    cases hcheck : checkRequest draft.children request with
    | error e =>
      have herror : (checkRequest draft.children request).isOk = true := harguments
      rw [hcheck] at herror
      cases herror
    | ok body => exact ⟨body, rfl⟩
  obtain ⟨steps, hsteps⟩ := mapM_isOk h.steps
  have hmade : ∃ manifest, draft.manifest env files = .ok manifest := by
    unfold OutcomeDraft.manifest
    cases htransaction : draft.transaction with
    | some builder =>
      refine ⟨(env.dataGeneration, some builder.operations), ?_⟩
      rw [hsealing, hmanifest]
      exact if_neg fun hne => hne (hholds.generation builder htransaction)
    | none =>
      refine ⟨(none, none), ?_⟩
      rw [h.transaction draft hdraft htransaction]
      rfl
  obtain ⟨manifest, hmade⟩ := hmade
  refine ⟨{ body with expectedDataGeneration := manifest.fst, manifest := manifest.snd, runnerSteps := steps,
                      spawn := draft.spawnFile }, ?_⟩
  unfold OutcomeDraft.outcome
  rw [hbody, hmade, hsteps, houtcome, hsync, ite_self]
  rfl

theorem ending_draftPublish (hready : s.ready = none) (hdraft : s.draft = some draft)
    (hholds : DraftHolds env log draft) :
    Ending (· = s) (draftPublish env files request) (fun _ => Ended log)
      (fun t => Ended log t ∨ (t = s ∧ ¬Publishable env files s request)) := by
  refine Ending.look fun d hd => ?_
  subst hd
  rw [if_neg (by rw [hready]; exact Bool.false_ne_true), hdraft]
  refine Ending.seq (R := fun outcome t => t = d ∧ draft.outcome env files request = .ok outcome)
    (Ending.check (fun outcome _ h heq => ⟨heq, h⟩) ?_) fun outcome => ?_
  · rintro e _ herror rfl
    refine Or.inr ⟨rfl, fun h => ?_⟩
    obtain ⟨outcome, houtcome⟩ := h.outcome hdraft hholds
    cases herror.symm.trans houtcome
  · refine Ending.seq (R := fun _ t => t = d ∧ draft.outcome env files request = .ok outcome)
      (Ending.check (fun _ _ _ h => h) ?_) fun _ => Ending.seq (R := fun _ => Ended log) (Ending.once ?_) fun _ =>
        Ending.check (fun _ _ _ h => h) fun _ _ _ h => Or.inl h
    · rintro e _ herror ⟨rfl, -⟩
      refine Or.inr ⟨rfl, fun h => ?_⟩
      rw [h.files.2.2.2.2] at herror
      cases herror
    · rintro _ ⟨rfl, houtcome⟩
      obtain ⟨hmanifest, hspawn⟩ := outcome_spec houtcome
      refine ⟨outcome, rfl, ?_, ?_⟩
      · rw [Outcome.operations, hmanifest]
        exact hholds.operations
      · rw [Outcome.children, hspawn, hholds.spawnFile]
        exact hholds.children

theorem ending_publishCall (hs : Composing env log s)
    (hguard : (s.staged = [] ∧ s.children = []) ∨ Publishable env files s request) :
    Ending (· = s) (publishCall env files request) (fun _ => Ended log)
      (fun t => Composing env log t ∨ Ended log t) := by
  have hcase : (log.operations = [] ∧ log.children = []) ∨ (s.draft.isSome = true ∧ Publishable env files s request) := by
    cases hdraft : s.draft with
    | none => exact Or.inl (hs.empty hdraft)
    | some draft =>
      refine hguard.imp (fun h => ?_) fun h => ⟨rfl, h⟩
      rw [AttemptState.staged, AttemptState.children, hdraft] at h
      obtain ⟨hoperations, hchildren⟩ := h
      have hholds := hs.draft draft hdraft
      rw [← hholds.operations, ← hholds.children, show draft.operations = [] from hoperations,
        show draft.children = [] from hchildren]
      exact ⟨rfl, rfl⟩
  have hrequire : Ending (· = s) (requireDraft files) (fun _ t => (Composing env log t ∧ t.draft.isSome = true)
        ∧ ((log.operations = [] ∧ log.children = []) ∨ Publishable env files t request))
      (fun t => Composing env log t ∨ Ended log t) := by
    rcases hcase with hempty | ⟨hdraft, hpublishable⟩
    · refine ending_requireDraft_any.conseq ?_ (fun _ t h => ⟨h, Or.inl hempty⟩) fun _ h => Or.inl h
      rintro _ rfl
      exact hs
    · obtain ⟨draft, hdraft⟩ := Option.isSome_iff_exists.mp hdraft
      refine Ending.look fun d hd => ?_
      subst hd
      refine Ending.seq (R := fun _ => (· = d)) (Ending.check (fun _ _ _ heq => heq) ?_) fun _ => ?_
      · rintro e _ - rfl
        exact Or.inl hs
      · rw [hdraft]
        refine Ending.ret ?_
        rintro _ rfl
        exact ⟨⟨hs, by rw [hdraft]; rfl⟩, Or.inr hpublishable⟩
  refine hrequire.seq fun _ t ht => ?_
  obtain ⟨⟨hcomposing, hdraft⟩, hright⟩ := ht
  obtain ⟨draft, hdraft⟩ := Option.isSome_iff_exists.mp hdraft
  refine ((ending_draftPublish hcomposing.ready hdraft (hcomposing.draft draft hdraft)).tried.seq fun r => ?_) t rfl
  cases r with
  | ok _ =>
    refine Ending.seq (R := fun _ => Ended log) (Ending.once fun t h => h) fun _ =>
      Ending.check (fun _ _ _ h => h) fun _ _ _ h => Or.inr h
  | error error =>
    refine Ending.seq (R := fun _ t => Composing env log t ∨ Ended log t) (Ending.once ?_) fun _ =>
      Ending.throw fun _ h => h
    rintro t (hended | ⟨rfl, hnot⟩)
    · exact Or.inr hended
    · have hempty := hright.resolve_right hnot
      exact Or.inl ⟨hcomposing.ready, hcomposing.published, fun _ => hempty, fun d hd => (by cases hd)⟩

/-! ## After the publication -/

section Ready

variable {outcome : Outcome}

theorem keeping_requireDraft : Keeping (·.ready = some outcome) (requireDraft files) := by
  refine Keeping.look fun s _ => Keeping.check.seq fun _ => ?_
  cases s.draft with
  | some _ => exact Keeping.ret
  | none => exact Keeping.check.seq fun _ => Keeping.once fun _ h => h

theorem keeping_dataTransaction : Keeping (·.ready = some outcome) (dataTransaction env files) := by
  unfold dataTransaction
  cases env.dataGeneration with
  | none => exact Keeping.check
  | some generation =>
    refine Keeping.look fun s _ => ?_
    cases s.builder with
    | some _ => exact Keeping.ret
    | none =>
      refine keeping_requireDraft.seq fun _ => Keeping.look fun t _ => ?_
      split
      · exact Keeping.throw
      · cases files.transaction with
        | some _ => exact Keeping.seq (Keeping.once fun _ h => h) fun _ => Keeping.throw
        | none => exact Keeping.once fun _ h => h

theorem keeping_builderOperation {id destination : PyStr} :
    Keeping (·.ready = some outcome) (builderOperation id destination) := by
  refine Keeping.check.seq fun _ => Keeping.look fun s _ => ?_
  split
  · exact Keeping.check
  · refine Keeping.check.seq fun target => ?_
    split
    · exact Keeping.check
    · exact Keeping.once fun _ h => h

theorem keeping_nextOperation : Keeping (·.ready = some outcome) nextOperation :=
  Keeping.look fun _ _ => Keeping.once fun _ h => h

theorem keeping_registerChild {members : List (PyStr × Json)} {label placement : PyStr} :
    Keeping (·.ready = some outcome) (registerChild env files members label placement) :=
  Keeping.look fun _ _ => Keeping.check.seq fun _ => Keeping.check.seq fun _ =>
    Keeping.seq (Keeping.once fun _ h => h) fun _ => Keeping.check.seq fun _ =>
      Keeping.seq (Keeping.once fun _ h => h) fun _ => Keeping.ret

theorem keeping_draftPublish {request : PublishRequest} :
    Keeping (·.ready = some outcome) (draftPublish env files request) := by
  refine Keeping.look fun s hs => ?_
  rw [if_pos (by rw [hs]; rfl)]
  exact Keeping.throw

theorem keeping_publishCall {request : PublishRequest} :
    Keeping (·.ready = some outcome) (publishCall env files request) := by
  refine keeping_requireDraft.seq fun _ => keeping_draftPublish.tried.seq fun r => ?_
  cases r with
  | ok _ => exact Keeping.seq (Keeping.once fun _ h => h) fun _ => Keeping.check
  | error error => exact Keeping.seq (Keeping.once fun _ h => h) fun _ => Keeping.throw

/-- **No call replaces an outcome.** -/
theorem keeping_run {call : AttemptCall} : Keeping (·.ready = some outcome) (call.run env files) := by
  have hpublish : ∀ request, Keeping (·.ready = some outcome) (do
      let request ← Effects.ofExcept request
      Effects.ofExcept (fileOperation (if call.mergesState = true then files.state else none))
      publishCall env files request
      pure CallResult.published) := fun request =>
    Keeping.check.seq fun _ => Keeping.check.seq fun _ => keeping_publishCall.seq fun _ => Keeping.ret
  cases call with
  | put source destination =>
    refine Keeping.seq (keeping_dataTransaction.seq fun _ => keeping_nextOperation.seq fun _ =>
      keeping_builderOperation.seq fun _ => ?_) fun _ => Keeping.ret
    split
    · exact Keeping.check
    · exact Keeping.check.seq fun _ => Keeping.seq (Keeping.once fun _ h => h) fun _ => Keeping.ret
  | remove destination missingOk =>
    exact Keeping.seq (keeping_dataTransaction.seq fun _ => keeping_nextOperation.seq fun _ =>
      keeping_builderOperation.seq fun _ => Keeping.seq (Keeping.once fun _ h => h) fun _ => Keeping.ret) fun _ => Keeping.ret
  | spawn child label placement =>
    refine Keeping.seq (Keeping.look fun _ _ => Keeping.check.seq fun _ => Keeping.check.seq fun _ => ?_)
      fun _ => Keeping.ret
    cases child with
    | payload => exact keeping_requireDraft.seq fun _ => Keeping.check.seq fun _ => keeping_registerChild
    | spec step inherits job =>
      exact Keeping.check.seq fun _ => Keeping.check.seq fun _ => keeping_requireDraft.seq fun _ =>
        keeping_registerChild
  | _ => exact Keeping.look fun s _ => hpublish _

end Ready

/-! ## Runs -/

/-- **What holds between two calls.** -/
def Accounted (env : AttemptEnv) (log : CallLog) (s : AttemptState) : Prop := Composing env log s ∨ Ended log s

theorem Ended.ready (h : Ended log s) : s.ready ≠ none := by
  obtain ⟨outcome, hready, -⟩ := h
  rw [hready]
  exact Option.some_ne_none outcome

theorem ending_dataTransaction_refused (hpublished : s.published.isSome = true)
    (hbuilder : s.builder = none) : Ending (· = s) (dataTransaction env files) (fun _ _ => False) (· = s) := by
  obtain ⟨action, hpublished⟩ := Option.isSome_iff_exists.mp hpublished
  unfold dataTransaction
  cases env.dataGeneration with
  | none => exact Ending.check (fun _ _ h _ => (by cases h)) fun _ _ _ h => h
  | some generation =>
    refine Ending.look fun d hd => ?_
    subst hd
    rw [hbuilder]
    refine Ending.seq (R := fun _ _ => False) ?_ fun _ s hs => hs.elim
    refine Ending.look fun t ht => Ending.seq (R := fun _ _ => False) (Ending.check ?_ ?_) fun _ s hs => hs.elim
    · rintro _ _ hreject -
      rw [ht, rejectPublished, hpublished] at hreject
      cases hreject
    · rintro _ _ - rfl
      exact ht

theorem ending_refused {α β : Type} {x : AttemptStep α} {f : α → AttemptStep β}
    {Q : β → AttemptState → Prop} (hx : Ending (· = s) x (fun _ _ => False) (· = s)) (hs : Accounted env log s) :
    Ending (· = s) (x >>= f) Q (Accounted env log) := by
  refine Ending.seq (hx.conseq (fun _ h => h) (fun _ _ h => h) fun t ht => ?_) fun _ _ h => h.elim
  rw [show t = s from ht]
  exact hs

theorem ending_asked {call : AttemptCall} {request : Except SdkError PublishRequest} (hs : Accounted env log s)
    (hguard : s.ready.isSome = true ∨ (s.staged = [] ∧ s.children = [])
      ∨ ∀ asked, request = .ok asked → Publishable env files s asked) :
    Ending (· = s) (do
      let request ← Effects.ofExcept request
      Effects.ofExcept (fileOperation (if call.mergesState = true then files.state else none))
      publishCall env files request
      pure CallResult.published)
      (fun r t => Accounted env (log.add files call (.ok r)) t) (Accounted env log) := by
  refine Ending.seq (R := fun asked t => t = s ∧ request = .ok asked) (Ending.check (fun _ _ h heq => ⟨heq, h⟩) ?_)
    fun asked => Ending.seq (R := fun _ t => t = s ∧ request = .ok asked) (Ending.check (fun _ _ _ h => h) ?_)
      fun _ => ?_
  · rintro _ _ - rfl
    exact hs
  · rintro _ _ - ⟨rfl, -⟩
    exact hs
  · rintro _ ⟨rfl, hrequest⟩
    rcases hs with hcomposing | ⟨outcome, hready, hoperations, hchildren⟩
    · have hguard := (hguard.resolve_left (by rw [hcomposing.ready]; exact Bool.false_ne_true)).imp_right
        fun h => h asked hrequest
      exact ((ending_publishCall hcomposing hguard).seq fun _ =>
        Ending.ret fun _ h => Or.inr h) _ rfl
    · have hended : ∀ t : AttemptState, t.ready = some outcome → Accounted env log t := fun t ht =>
        Or.inr ⟨outcome, ht, hoperations, hchildren⟩
      have hpublish : Ending (·.ready = some outcome) (publishCall env files asked) (fun _ => Accounted env log)
          (Accounted env log) := keeping_publishCall.conseq (fun _ h => h) (fun _ => hended) hended
      have hcall : Ending (·.ready = some outcome) (publishCall env files asked >>= fun _ => pure CallResult.published)
          (fun r t => Accounted env (log.add files call (.ok r)) t) (Accounted env log) :=
        hpublish.seq fun _ => Ending.ret fun _ h => h
      exact hcall _ hready

/-- **A call that meets the condition** keeps it. -/
theorem ending_run {call : AttemptCall} (hs : Accounted env log s) (hsteady : Steady env s files call) :
    Ending (· = s) (call.run env files) (fun r t => Accounted env (log.add files call (.ok r)) t)
      (Accounted env log) := by
  have hof : ∀ {α : Type} {x : AttemptStep α} {Q : α → AttemptState → Prop}, Composing env log s →
      Ending (Composing env log) x Q (Composing env log) → Ending (· = s) x Q (Accounted env log) := by
    intro α x Q hcomposing h
    refine h.conseq ?_ (fun _ _ h => h) fun _ h => Or.inl h
    rintro _ rfl
    exact hcomposing
  have hdata : (s.ready = none ∨ (s.published.isSome = true ∧ s.builder = none)) →
      Composing env log s ∨ Ending (· = s) (dataTransaction env files) (fun _ _ => False) (· = s) := by
    intro h
    rcases hs with hcomposing | hended
    · exact Or.inl hcomposing
    · obtain ⟨hpublished, hbuilder⟩ := h.resolve_left hended.ready
      exact Or.inr (ending_dataTransaction_refused hpublished hbuilder)
  cases call with
  | put source destination =>
    rcases hdata hsteady with hcomposing | hrefused
    · exact (hof hcomposing ending_putCall).seq fun id => Ending.ret fun _ h => Or.inl h
    · exact Ending.seq (R := fun _ _ => False) (ending_refused hrefused hs) fun _ _ h => h.elim
  | remove destination missingOk =>
    rcases hdata hsteady with hcomposing | hrefused
    · exact (hof hcomposing ending_removeCall).seq fun id => Ending.ret fun _ h => Or.inl h
    · exact Ending.seq (R := fun _ _ => False) (ending_refused hrefused hs) fun _ _ h => h.elim
  | spawn child label placement =>
    rcases hsteady with hpublished | ⟨hready, hspawn⟩
    · obtain ⟨action, hpublished⟩ := Option.isSome_iff_exists.mp hpublished
      refine Ending.seq (R := fun _ _ => False) (Ending.look fun d hd => ?_) fun _ _ h => h.elim
      subst hd
      refine ending_refused (Ending.check ?_ fun _ _ _ h => h) hs
      rintro _ _ hreject -
      rw [rejectPublished, hpublished] at hreject
      cases hreject
    · have hcomposing := hs.resolve_right fun hended => hended.ready hready
      exact (hof hcomposing (ending_spawnCall hspawn)).seq fun reference => Ending.ret fun _ h => Or.inl h
  | _ =>
    -- The calls that publish.
    refine Ending.look fun d hd => ?_
    subst hd
    exact ending_asked hs (hsteady.imp_right fun h => h.imp_right fun h asked hasked => h asked (congrArg some hasked))

theorem Accounted.call (hs : Accounted env log s) (call : AttemptCall) (hsteady : Steady env s files call) :
    Accounted env (log.add files call ((call.run env files) s).snd) ((call.run env files).final s) := by
  have hresult := (ending_run hs hsteady).result rfl
  split at hresult
  · rename_i r hr
    rw [hr]
    exact hresult
  · rename_i e he
    rw [he]
    exact hresult

theorem ready_of_run {p q : AttemptState × CallLog} {calls : List (AttemptCall × CallFiles)} {outcome : Outcome}
    (h : (attemptRuns env).Run p calls q) (hready : p.fst.ready = some outcome) : q.fst.ready = some outcome := by
  induction h with
  | nil => exact hready
  | @cons p a p' as q hstep _ ih =>
    refine ih ?_
    obtain ⟨hnext, -⟩ := System.watching_eq_some.mp hstep
    rw [← Option.some.inj hnext]
    have hkeeping : Keeping (·.ready = some outcome) (a.fst.run env a.snd) := keeping_run
    have hresult := hkeeping.result hready
    split at hresult
    · exact hresult
    · exact hresult

/-- **What an attempt publishes is what it staged**: in every run whose calls meet the condition, the
outcome that is published has the operations and children of the calls that returned, in order; and no
call, whatever it does, publishes another one. -/
theorem published_as_staged (env : AttemptEnv) {p : AttemptState × CallLog}
    (h : ((attemptRuns env).guarded (SteadyCall env)).Reachable p) :
    (∀ outcome, p.fst.ready = some outcome →
      outcome.operations.map some = p.snd.operations ∧ outcome.children.map some = p.snd.children)
    ∧ ∀ outcome calls q, p.fst.ready = some outcome → (attemptRuns env).Run p calls q →
      q.fst.ready = some outcome := by
  have haccounted : Accounted env p.snd p.fst := by
    refine System.Reachable.invariant (I := fun p => Accounted env p.snd p.fst) (fun p hinit => ?_)
      (fun p a p' _ hinv hstep => ?_) h
    · obtain ⟨hstart, hlog⟩ := hinit
      rw [hstart, hlog]
      exact Or.inl ⟨rfl, rfl, fun _ => ⟨rfl, rfl⟩, fun d hd => (by cases hd)⟩
    · obtain ⟨hnext, hsteady⟩ := hstep
      obtain ⟨hnext, hlog⟩ := System.watching_eq_some.mp hnext
      rw [hlog, ← Option.some.inj hnext]
      exact hinv.call a.fst hsteady
  refine ⟨fun outcome hready => ?_, fun outcome calls q hready hrun => ready_of_run hrun hready⟩
  rcases haccounted with hcomposing | ⟨published, hpublished, hoperations, hchildren⟩
  · cases hcomposing.ready.symm.trans hready
  · obtain rfl := Option.some.inj (hready.symm.trans hpublished)
    exact ⟨hoperations, hchildren⟩

/-! ## What is lost, and what nobody asked for -/

def sampleEnv : AttemptEnv where
  workspaceId := "w"
  jobId := "j"
  jobKey := "k"
  placement := "project"
  activationId := "a"
  dataGeneration := some 0
  durable := false
  runner := none
  observed := []
  definition members :=
    match Json.get members "id" with
    | some (.str id) => .ok ⟨id, id⟩
    | _ => raiseFormat [.lit "id must be a nonempty string"]

/-- Two removals and a child are staged, and then published. -/
theorem published_as_staged_removals : ∃ p outcome, ((attemptRuns sampleEnv).guarded (SteadyCall sampleEnv)).Reachable p
    ∧ p.fst.ready = some outcome ∧ p.snd.operations.length = 2 ∧ p.snd.children.length = 1
    ∧ outcome.operations.map some = p.snd.operations ∧ outcome.children.map some = p.snd.children
    ∧ ∀ calls q, (attemptRuns sampleEnv).Run p calls q → q.fst.ready = some outcome := by
  have h₀ : ((attemptRuns sampleEnv).guarded (SteadyCall sampleEnv)).Reachable (AttemptState.initial, ⟨[], []⟩) :=
    System.Reachable.init ⟨rfl, rfl⟩
  have h₁ := h₀.next (.remove "a" false, {}) (Or.inl rfl) rfl
  have h₂ := h₁.next (.remove "b" false, {}) (Or.inl rfl) rfl
  have h₃ := h₂.next (.spawn .payload "one" none, { document := .ok [("id", .str "c1")] }) (Or.inr ⟨rfl, rfl⟩) rfl
  have h₄ := h₃.next (.succeed, {}) (Or.inr (Or.inr fun request hrequest => by
    obtain rfl := Except.ok.inj (Option.some.inj hrequest)
    refine ⟨rfl, fun step hstep => (by cases hstep), fun draft hdraft hnone => ?_, rfl, rfl, rfl, rfl, rfl⟩
    obtain rfl := Option.some.inj hdraft
    cases hnone)) rfl
  obtain ⟨hall, hstays⟩ := published_as_staged sampleEnv h₄
  obtain ⟨hoperations, hchildren⟩ := hall _ rfl
  exact ⟨_, _, h₄, rfl, rfl, rfl, hoperations, hchildren, fun calls q => hstays _ calls q rfl⟩

/-- **Three runs whose outcome is not what was staged.** A removal is lost with the draft, when a
publication with a priority that is out of range raises and is caught. A child is published whose `spawn`
raised. And a removal returns after the publication. -/
theorem staged_not_published :
    (∃ p outcome, (attemptRuns sampleEnv).Reachable p ∧ p.fst.ready = some outcome
      ∧ outcome.operations.length = 0 ∧ p.snd.operations.length = 1)
    ∧ (∃ p outcome, (attemptRuns sampleEnv).Reachable p ∧ p.fst.ready = some outcome
      ∧ outcome.children.length = 2 ∧ p.snd.children.length = 1)
    ∧ ∃ p outcome, (attemptRuns sampleEnv).Reachable p ∧ p.fst.ready = some outcome
      ∧ outcome.operations.length = 1 ∧ p.snd.operations.length = 2 := by
  have hreach : ∀ {calls p}, System.follow (System.watching (attemptNext sampleEnv) (observeCall sampleEnv))
      (AttemptState.initial, ⟨[], []⟩) calls = some p → (attemptRuns sampleEnv).Reachable p := fun hfollow =>
    (System.run_of_follow hfollow).reachable (System.Reachable.init ⟨rfl, rfl⟩)
  refine ⟨?_, ?_, ?_⟩
  · have hrun : ∃ p outcome, System.follow (System.watching (attemptNext sampleEnv) (observeCall sampleEnv))
        (AttemptState.initial, ⟨[], []⟩) [(.remove "a" false, {}), (.advance "next" [] (some (.int 1000)) none, {}),
          (.succeed, {})] = some p ∧ p.fst.ready = some outcome
        ∧ outcome.operations.length = 0 ∧ p.snd.operations.length = 1 := ⟨_, _, rfl, rfl, rfl, rfl⟩
    obtain ⟨p, outcome, hfollow, hrest⟩ := hrun
    exact ⟨p, outcome, hreach hfollow, hrest⟩
  · have hrun : ∃ p outcome, System.follow (System.watching (attemptNext sampleEnv) (observeCall sampleEnv))
        (AttemptState.initial, ⟨[], []⟩) [
          (.spawn .payload "one" none, { document := .ok [("id", .str "c1")], spawn := some ⟨.osError, []⟩ }),
          (.spawn .payload "two" none, { document := .ok [("id", .str "c2")] }), (.succeed, {})] = some p ∧ p.fst.ready = some outcome
        ∧ outcome.children.length = 2 ∧ p.snd.children.length = 1 := ⟨_, _, rfl, rfl, rfl, rfl⟩
    obtain ⟨p, outcome, hfollow, hrest⟩ := hrun
    exact ⟨p, outcome, hreach hfollow, hrest⟩
  · have hrun : ∃ p outcome, System.follow (System.watching (attemptNext sampleEnv) (observeCall sampleEnv))
        (AttemptState.initial, ⟨[], []⟩) [(.remove "a" false, {}), (.succeed, {}), (.remove "b" false, {})] = some p
        ∧ p.fst.ready = some outcome ∧ outcome.operations.length = 1 ∧ p.snd.operations.length = 2 :=
      ⟨_, _, rfl, rfl, rfl, rfl⟩
    obtain ⟨p, outcome, hfollow, hrest⟩ := hrun
    exact ⟨p, outcome, hreach hfollow, hrest⟩
