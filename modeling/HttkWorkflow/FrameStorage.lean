import HttkWorkflow.Commit

/-!
# Frames that can be stored

A transition writes its frame as one JSON record, and a string with a lone
surrogate, or a value nested too deep, cannot be written. Whether a frame can
be stored is decided member by member (`StateFrame.storable`), so that a
frame made from stored ones has to be asked about the members it adds and no
others.

Most of what a commit adds is its own. What it takes from the outcome of a
runner is collected in `OutcomeStores`, and an outcome that meets it is
followed to a frame that can be stored or to an exception that is handled
(`ensures_outcomeMove`).
-/

variable {env : CommitEnv} {job : JobDefinition} {state progress frame : StateFrame}
variable {move moved : Move} {outcome : List (PyStr × Json)}

namespace StateFrame

theorem storable_empty : empty.storable env := fun e he => by cases he

theorem storable_of_subset (h : frame.storable env) (hsub : progress.members ⊆ frame.members) :
    progress.storable env := fun e he => h e (hsub he)

theorem storable_carried (h : frame.storable env) : frame.carried.storable env :=
  storable_of_subset h (List.filter_sublist.subset)

theorem storable_select (h : frame.storable env) (names : List Member) : (frame.select names).storable env :=
  storable_of_subset h (List.filter_sublist.subset)

theorem storable_without (h : frame.storable env) (names : List Member) : (frame.without names).storable env :=
  storable_of_subset h (List.filter_sublist.subset)

variable {written : List (Member × Json)}

theorem forall_replace {P : Json → Prop} (h : ∀ e ∈ frame.members, P e.snd) (hwritten : ∀ e ∈ written, P e.snd) :
    ∀ e ∈ (frame.replace written).members, P e.snd := by
  induction written generalizing frame with
  | nil => exact h
  | cons e written ih =>
    refine @ih ⟨frame.members.set e.fst e.snd⟩ ?_ fun d hd => hwritten d (List.mem_cons_of_mem _ hd)
    intro d hd
    rcases List.mem_cons.mp hd with rfl | hd
    · exact hwritten e List.mem_cons_self
    · exact h d (List.mem_filter.mp hd).1

/-- **An update can be stored** where the frame and the new members can. -/
theorem storable_replace (h : frame.storable env) (hwritten : ∀ e ∈ written, e.snd.storable env.depth = true) :
    (frame.replace written).storable env :=
  forall_replace (P := fun value => value.storable env.depth = true) h hwritten

variable {m : Member}

theorem storable_of_get {value : Json} (h : frame.storable env)
    (hget : frame.get m = some value) : value.storable env.depth = true := by
  obtain ⟨before, after, hsplit, -⟩ := List.lookup_eq_some_iff.mp hget
  refine h (m, value) ?_
  show (m, value) ∈ frame.members
  rw [hsplit]
  exact List.mem_append_right _ List.mem_cons_self

theorem encodable_of_string {t : PyStr} (h : frame.storable env)
    (hget : frame.string m = some t) : t.encodable = true :=
  Json.storable_str.mp (storable_of_get h (get_of_string hget).1)

theorem storable_of_mapping {members : List (PyStr × Json)} (h : frame.storable env)
    (hget : frame.mapping m = some members) : (Json.obj members).storable env.depth = true := by
  unfold mapping at hget
  split at hget
  · rename_i hvalue
    rw [← Option.some.inj hget]
    exact storable_of_get h hvalue
  · cases hget

end StateFrame

/-! ## The values a manager writes -/

theorem storable_orNull {value : Option PyStr} (h : ∀ t, value = some t → t.encodable = true) :
    (orNull value).storable env.depth = true := by
  cases value with
  | none => rfl
  | some t => exact Json.storable_str.mpr (h t rfl)

theorem storable_getD {members : List (PyStr × Json)} {name : String}
    (h : (Json.obj members).storable env.depth = true) :
    ((Json.get members name).getD .null).storable env.depth = true := by
  obtain ⟨hdepth, hmembers⟩ := Json.storable_obj.mp h
  cases hget : Json.get members name with
  | none => rfl
  | some value =>
    have hvalue := Json.storable_succ (Json.storable_get hmembers hget)
    rw [Nat.sub_add_cancel (Nat.one_le_iff_ne_zero.mpr hdepth)] at hvalue
    exact hvalue

theorem storable_asMapping {failure : Failure} (hcode : failure.code.encodable = true)
    (hmessage : failure.message.encodable = true)
    (hdetails : ∀ d, failure.details = some d → (Json.obj d).storable (env.depth - 1) = true) :
    failure.asMapping.storable env.depth = true := by
  have hdepth : env.depth ≠ 0 := by
    have := env.three_le_depth
    omega
  obtain ⟨code, message, details, retryable⟩ := failure
  unfold Failure.asMapping
  refine Json.storable_obj.mpr ⟨hdepth, ?_⟩
  simp only [List.forall_mem_cons, List.forall_mem_append, PyStr.encodable_ofString, true_and, Json.storable_str]
  refine ⟨hcode, hmessage, ?_, ?_⟩
  · cases details with
    | none => exact fun e he => by cases he
    | some d =>
      intro e he
      rw [List.mem_singleton.mp he]
      exact ⟨PyStr.encodable_ofString _, hdetails d rfl⟩
  · cases retryable with
    | false => exact fun e he => by cases he
    | true =>
      intro e he
      rw [List.mem_singleton.mp he]
      exact ⟨PyStr.encodable_ofString _, rfl⟩

theorem storable_logPaths {details : List (PyStr × Json)}
    (h : ∀ e ∈ details, e.fst.encodable = true ∧ e.snd.storable (env.depth - 2) = true) :
    (Json.obj (("log_paths", .arr [.str "logs/stdio.out"]) :: details)).storable (env.depth - 1)
      = true := by
  have hdepth := env.three_le_depth
  refine Json.storable_obj.mpr ⟨by omega, List.forall_mem_cons.mpr ⟨⟨?_, ?_⟩, h⟩⟩
  · exact PyStr.encodable_ofString _
  · refine Json.storable_arr.mpr ⟨by omega, fun item hitem => ?_⟩
    rw [List.mem_singleton.mp hitem]
    exact Json.storable_str.mpr (PyStr.encodable_ofString _)

theorem storable_failure {code : PyStr} {message : Message} {exitStatus : Option Int}
    (hcode : code.encodable = true) (hmessage : message.encodable = true) :
    (failure env code message exitStatus).storable env.depth = true := by
  refine storable_asMapping hcode (by rw [env.encodable_render, hmessage]) fun d hd => ?_
  rw [← Option.some.inj hd]
  cases exitStatus with
  | none => exact storable_logPaths fun e he => by cases he
  | some n =>
    refine storable_logPaths fun e he => ?_
    rw [List.mem_singleton.mp he]
    exact ⟨PyStr.encodable_ofString _, rfl⟩

/-! ## What the steps of a commit ensure -/

theorem ensures_retainDeferredPauseProcess (hstate : state.storable env) (hprogress : progress.storable env) :
    Ensures (retainDeferredPauseProcess state progress) (·.storable env) := by
  unfold retainDeferredPauseProcess
  cases state.pauseRequested with
  | none => exact hprogress
  | some requested =>
    cases hprocess : state.get .process with
    | none => exact ensures_raiseFormat rfl
    | some process =>
      refine StateFrame.storable_replace hprogress fun e he => ?_
      rw [List.mem_singleton.mp he]
      exact StateFrame.storable_of_get hstate hprocess

theorem storable_withProcess (hstate : state.storable env) (hprogress : progress.storable env) :
    (withProcess state progress).storable env := by
  unfold withProcess
  cases hprocess : state.get .process with
  | none => exact hprogress
  | some process =>
    refine StateFrame.storable_replace hprogress fun e he => ?_
    rw [List.mem_singleton.mp he]
    exact StateFrame.storable_of_get hstate hprocess

theorem ensures_advance {nextStep freshId : PyStr} {reason : String} {joinSummary resources : Json}
    {priority : Option Int} (hstate : state.storable env) (hprogress : progress.storable env)
    (hstep : nextStep.encodable = true) (hfresh : freshId.encodable = true)
    (hsummary : joinSummary.storable env.depth = true)
    (hresources : resources.storable env.depth = true) :
    Ensures (advance env job state progress nextStep freshId reason joinSummary resources priority)
      (·.frame.storable env) := by
  unfold advance
  refine (ensures_retainDeferredPauseProcess hstate hprogress).bind fun retained hretained => ?_
  simp only
  split_ifs
  · refine StateFrame.storable_replace hretained ?_
    simp only [List.forall_mem_cons, List.not_mem_nil, false_imp_iff, implies_true, and_true]
    exact ⟨storable_failure (PyStr.encodable_ofString _) rfl, Json.storable_str.mpr (PyStr.encodable_ofString _)⟩
  · refine StateFrame.storable_replace hretained ?_
    simp only [List.forall_mem_cons, List.not_mem_nil, false_imp_iff, implies_true, and_true,
      Json.storable_str, Json.storable_int, PyStr.encodable_ofString, true_and]
    exact ⟨hstep, hfresh, hsummary, hresources, storable_orNull fun t ht =>
      StateFrame.encodable_of_string hstate ht⟩

/-- **`retry` leaves with a frame that can be stored.** -/
theorem ensures_retry {reason : PyStr} {unclean : Bool}
    {takeoverEvidence : Option (List (PyStr × Json))} {priority : Option Int}
    (hstate : state.storable env) (hprogress : progress.storable env)
    (hreason : reason.encodable = true)
    (hevidence : ∀ evidence, takeoverEvidence = some evidence → (Json.obj evidence).storable env.depth = true) :
    Ensures (retry env job state progress reason unclean takeoverEvidence priority)
      (·.frame.storable env) := by
  unfold retry
  refine (ensures_retainDeferredPauseProcess hstate hprogress).bind fun retained hretained => ?_
  simp only
  split_ifs
  · refine StateFrame.storable_replace hretained ?_
    simp only [List.forall_mem_cons, List.not_mem_nil, false_imp_iff, implies_true, and_true]
    refine ⟨storable_failure (PyStr.encodable_ofString _) ?_, Json.storable_str.mpr (PyStr.encodable_ofString _)⟩
    simp [Message.encodable, MessagePart.encodable, hreason]
  · have hretried : (retained.replace [(.reason, .str reason), (.uncleanRestart, .bool unclean),
          (.unsafePersistentTakeover, .bool (Json.optEqStr
            (Json.get (takeoverEvidence.getD []) "evidence") "unsafe_persistent_takeover")),
          (.previousAttemptId, orNull state.attemptId)]).storable env := by
      refine StateFrame.storable_replace hretained ?_
      simp only [List.forall_mem_cons, List.not_mem_nil, false_imp_iff, implies_true, and_true,
        Json.storable_str, Json.storable_bool, true_and]
      exact ⟨hreason, storable_orNull fun t ht => StateFrame.encodable_of_string hstate ht⟩
    cases takeoverEvidence with
    | none => exact hretried
    | some evidence =>
      refine StateFrame.storable_replace hretried fun e he => ?_
      rw [List.mem_singleton.mp he]
      exact hevidence evidence rfl

variable {reread : Option StateFrame}

theorem ensures_settle {source kind : StateKind}
    (hprogress : progress.storable env) (hreread : ∀ f, reread = some f → f.storable env) :
    Ensures (settle reread source kind progress) (·.snd.storable env) := by
  cases hsettle : settle reread source kind progress with
  | error e =>
    unfold settle at hsettle
    simp only at hsettle
    split_ifs at hsettle
    all_goals
      split at hsettle
      · try split_ifs at hsettle
        all_goals try cases hsettle
        all_goals exact ⟨Or.inl rfl, rfl⟩
      · cases hsettle
  | ok written =>
    obtain ⟨kind', frame⟩ := written
    have hwithout := StateFrame.storable_without hprogress [.pauseRequested]
    rcases settle_cases hsettle with ⟨-, rfl | rfl⟩ | ⟨-, -, holder, requested, hholder, hrequested, rfl⟩
    · exact hprogress
    · exact hwithout
    · have hstored : holder.storable env := by
        rcases hholder with rfl | rfl
        · exact hprogress
        · cases reread with
          | none => exact StateFrame.storable_empty
          | some f => exact hreread f rfl
      have hmembers := StateFrame.storable_of_mapping hstored hrequested
      refine StateFrame.storable_replace hwithout ?_
      simp only [List.forall_mem_cons, List.not_mem_nil, false_imp_iff, implies_true, and_true,
        Json.storable_str, PyStr.encodable_ofString]
      exact ⟨storable_getD hmembers, storable_getD hmembers, storable_getD hmembers⟩

variable {source : StateKind}

variable {moves : Except Exc PUnit}

/-- **A transition** to a frame that can be stored raises only what its rename
raises, or what its caller handles. -/
theorem ensures_transition (hframe : move.frame.storable env)
    (hreread : ∀ f, reread = some f → f.storable env) (hmoves : Ensures moves fun _ => True) :
    Ensures (transition env reread source moves move) (·.frame.storable env) := by
  refine (ensures_settle hframe hreread).bind fun written hwritten => ?_
  obtain ⟨kind, frame⟩ := written
  simp only
  rw [if_pos hwritten]
  exact hmoves.bind fun _ _ => hwritten

theorem transition_failed {records : Except Exc PUnit} {priority : Option Int} (hframe : frame.storable env)
    (hrecords : ∀ e, records = .error e → e.cls = .transitionLost) :
    (∃ moved, transition env reread source records ⟨.failed, frame, priority⟩ = .ok moved)
      ∨ ∃ e, transition env reread source records ⟨.failed, frame, priority⟩ = .error e
        ∧ e.cls = .transitionLost := by
  have hsettle : ∃ written, settle reread source .failed frame = .ok (.failed, written) ∧ written.storable env := by
    unfold settle
    simp only [reduceCtorEq, false_or, false_and, if_false]
    split_ifs
    · exact ⟨_, rfl, StateFrame.storable_without hframe _⟩
    · exact ⟨_, rfl, hframe⟩
  obtain ⟨written, hsettle, hwritten⟩ := hsettle
  have htransition : transition env reread source records ⟨.failed, frame, priority⟩
      = records >>= fun _ => .ok ⟨.failed, written, priority⟩ := by
    unfold transition
    simp only [hsettle]
    exact if_pos hwritten
  rw [htransition]
  cases hrecord : records with
  | ok u => exact Or.inl ⟨_, rfl⟩
  | error e => exact Or.inr ⟨e, rfl, hrecords e hrecord⟩

theorem storable_of_transition (h : transition env reread source moves move = .ok moved) :
    moved.frame.storable env := by
  unfold transition at h
  obtain ⟨⟨kind, frame⟩, -, h⟩ := bind_eq_ok.mp h
  simp only at h
  split_ifs at h with hframe
  obtain ⟨u, -, h⟩ := bind_eq_ok.mp h
  rw [← Except.ok.inj h]
  exact hframe

/-! ## What an outcome stores -/

/-- **The step set of an outcome encodes** as far as it is read, which is to
its first item that is no step. -/
def StepsEncode (items : List Json) : Prop :=
  ∀ before item after, items = before ++ item :: after →
    (∀ b ∈ before, ∃ t, validateStep (some b) "runner_steps item" = .ok t) → Encodes (some item)

/-- **A failure of an outcome can be stored**: it is accepted and its record
can be stored, or only its code is, or the text of its refusal. -/
def FailureStores (env : CommitEnv) (job : JobDefinition) (state : StateFrame)
    (value : Option Json) : Prop :=
  match validateFailure value "failure" with
  | .ok record => record.asMapping.storable env.depth = true
      ∨ (record.retryable = true ∧ retryBudgetAvailable job state = true)
  | .error e => e.cls = .formatError ∧ Message.encodable e.message = true

def Checked (state : StateFrame) (priority : Int) (outcome : List (PyStr × Json)) (action : PyStr) :
    Prop :=
  (∃ resources, outcomeResources outcome action = .ok resources)
    ∧ (∃ p, outcomePriority outcome priority = .ok p)
    ∧ (state.pauseRequested = none ∨ state.has .process = true)

/-- **The members of an outcome that its action stores** or validates in
their encoding can be stored, if the checks before get there. -/
structure OutcomeStores (env : CommitEnv) (job : JobDefinition) (state : StateFrame) (priority : Int)
    (outcome : List (PyStr × Json)) : Prop where
  runnerSteps : ∀ action items, Json.get outcome "action" = some (.str action) →
    (∃ resources, outcomeResources outcome action = .ok resources) →
    Json.get outcome "runner_steps" = some (.arr items) → StepsEncode items
  nextStep : ∀ action, Json.get outcome "action" = some (.str action) →
    Checked state priority outcome action → action = "advance" ∨ action = "wait" →
    Encodes (Json.get outcome "next_step")
  retryReason : Json.get outcome "action" = some (.str "retry") →
    Checked state priority outcome "retry" →
    ∀ reason, nestedReason outcome "retry" = .ok reason → reason.encodable = true
  join : Json.get outcome "action" = some (.str "wait") → Checked state priority outcome "wait" →
    ∀ join, Json.get outcome "join" = some (.obj join) → (Json.obj join).storable env.depth = true
  failure : Json.get outcome "action" = some (.str "fail") → Checked state priority outcome "fail" →
    FailureStores env job state (Json.get outcome "failure")
  pause : Json.get outcome "action" = some (.str "pause") →
    Checked state priority outcome "pause" →
    ∀ value, Json.get outcome "pause" = some value → value.storable env.depth = true

theorem ensures_validateSteps {items : List Json} (h : StepsEncode items) :
    Ensures (items.mapM fun item => validateStep (some item) "runner_steps item")
      fun steps => ∀ t ∈ steps, t.encodable = true := by
  induction items with
  | nil => exact fun t ht => by cases ht
  | cons item items ih =>
    rw [List.mapM_cons]
    have hitem : Encodes (some item) := h [] item items rfl fun b hb => by cases hb
    cases hstep : validateStep (some item) "runner_steps item" with
    | error e => exact (ensures_validateStep hitem).of_error hstep
    | ok t =>
      have ht := (ensures_validateStep hitem).of_ok hstep
      refine (ih ?_).bind fun ts hts => List.forall_mem_cons.mpr ⟨ht, hts⟩
      rintro before item' after rfl hbefore
      refine h (item :: before) item' after rfl ?_
      exact List.forall_mem_cons.mpr ⟨⟨t, hstep⟩, hbefore⟩

variable (env) in
theorem ensures_declaredRunnerSteps
    (h : ∀ items, Json.get outcome "runner_steps" = some (.arr items) → StepsEncode items) :
    Ensures (declaredRunnerSteps outcome)
      fun steps => ∀ value, steps = some value → value.storable env.depth = true := by
  have hdepth := env.three_le_depth
  unfold declaredRunnerSteps
  split
  · rename_i items hitems
    have hsteps := ensures_validateSteps (h items hitems)
    split
    · rename_i steps hok
      intro value hvalue
      rw [← Option.some.inj hvalue]
      refine Json.storable_arr.mpr ⟨by omega, fun item hitem => ?_⟩
      obtain ⟨t, ht, rfl⟩ := List.mem_map.mp hitem
      exact Json.storable_str.mpr (hsteps.of_ok hok t ht)
    · rename_i e herror
      split_ifs
      · exact fun value hvalue => by cases hvalue
      · exact hsteps.of_error herror
  · exact fun value hvalue => by cases hvalue

variable (env) in
theorem ensures_outcomeResources {action : PyStr} : Ensures (outcomeResources outcome action)
    fun resources => ((resources.map Json.obj).getD .null).storable env.depth = true := by
  have hdepth := env.three_le_depth
  unfold outcomeResources
  split
  · rfl
  · split_ifs
    · exact ensures_raiseFormat rfl
    · exact (ensures_validateResources (env.depth - 1)).map fun resources hresources =>
        Json.storable_obj.mpr ⟨by omega, hresources⟩

theorem ensures_outcomePriority {priority : Int} : Ensures (outcomePriority outcome priority) fun _ => True := by
  unfold outcomePriority
  split
  · trivial
  · trivial
  · exact ensures_requireInt.imp fun _ _ => trivial

theorem storable_progressOf {generation : Option Int} {steps : Option Json} (hstate : state.storable env)
    (hsteps : ∀ value, steps = some value → value.storable env.depth = true) :
    (progressOf state generation steps).storable env := by
  have hbase : (state.carried.replace [(.dataGeneration, (generation.map Json.int).getD .null)]).storable env := by
    refine StateFrame.storable_replace (StateFrame.storable_carried hstate) fun e he => ?_
    rw [List.mem_singleton.mp he]
    cases generation <;> rfl
  unfold progressOf
  cases steps with
  | none => exact hbase
  | some value =>
    refine StateFrame.storable_replace hbase fun e he => ?_
    rw [List.mem_singleton.mp he]
    exact hsteps value rfl

variable {labels : List (PyStr × PyStr)}

theorem storable_setLabel {depth : Nat} {key label : PyStr}
    {reference : List (PyStr × Json)} (hlabels : ∀ e ∈ labels, e.snd.encodable = true)
    (hlookup : labels.lookup key = some label) (h : (Json.obj reference).storable depth = true) :
    (Json.obj (Dict.set reference "label" (.str label))).storable depth = true := by
  obtain ⟨before, after, hsplit, -⟩ := List.lookup_eq_some_iff.mp hlookup
  have hlabel : label.encodable = true :=
    hlabels (key, label) (by rw [hsplit]; exact List.mem_append_right _ List.mem_cons_self)
  obtain ⟨hdepth, hmembers⟩ := Json.storable_obj.mp h
  refine Json.storable_obj.mpr ⟨hdepth, List.forall_mem_cons.mpr ⟨?_, fun e he => ?_⟩⟩
  · exact ⟨PyStr.encodable_ofString _, Json.storable_str.mpr hlabel⟩
  · exact hmembers e (List.mem_filter.mp he).1

theorem storable_labeledReference {depth : Nat} {raw : Json}
    (hlabels : ∀ e ∈ labels, e.snd.encodable = true) (h : raw.storable depth = true) :
    (labeledReference env labels raw).storable depth = true := by
  unfold labeledReference
  split
  · split
    · split
      · rename_i hlookup
        exact storable_setLabel hlabels hlookup h
      · exact h
    · split
      · rename_i hlookup
        exact storable_setLabel hlabels hlookup h
      · exact h
    · exact h
  · exact h

theorem storable_labeledJoin {join : List (PyStr × Json)} (hlabels : ∀ e ∈ labels, e.snd.encodable = true)
    (h : (Json.obj join).storable env.depth = true) :
    (Json.obj (labeledJoin env labels join)).storable env.depth = true := by
  obtain ⟨hdepth, hmembers⟩ := Json.storable_obj.mp h
  unfold labeledJoin
  split
  · rename_i children hchildren
    obtain ⟨hinner, hitems⟩ := Json.storable_arr.mp (Json.storable_get hmembers hchildren)
    refine Json.storable_obj.mpr ⟨hdepth, List.forall_mem_cons.mpr ⟨?_, fun e he => ?_⟩⟩
    · refine ⟨PyStr.encodable_ofString _, Json.storable_arr.mpr ⟨hinner, fun item hitem => ?_⟩⟩
      obtain ⟨raw, hraw, rfl⟩ := List.mem_map.mp hitem
      exact storable_labeledReference hlabels (hitems raw hraw)
    · exact hmembers e (List.mem_filter.mp he).1
  · exact h

/-! ## The action of an outcome -/

section Action

variable {priority next : Int} {generation : Option Int}

theorem ensures_failMove (hstate : state.storable env) (hprogress : progress.storable env)
    (hfailure : FailureStores env job state (Json.get outcome "failure")) :
    Ensures (failMove env job state progress outcome next) (·.frame.storable env) := by
  unfold FailureStores at hfailure
  unfold failMove
  split
  · rename_i record hrecord
    rw [hrecord] at hfailure
    split_ifs with hretry
    · refine ensures_retry hstate hprogress ?_ fun evidence h => by cases h
      exact encodable_of_validateFailure hrecord
    · refine StateFrame.storable_replace hprogress ?_
      simp only [List.forall_mem_cons, List.not_mem_nil, false_imp_iff, implies_true, and_true,
        Json.storable_str, PyStr.encodable_ofString]
      exact hfailure.resolve_right hretry
  · rename_i e herror
    rw [herror] at hfailure
    rw [if_pos hfailure.1]
    refine StateFrame.storable_replace hprogress ?_
    simp only [List.forall_mem_cons, List.not_mem_nil, false_imp_iff, implies_true, and_true,
      Json.storable_str, PyStr.encodable_ofString]
    refine storable_asMapping (PyStr.encodable_ofString _) ?_ fun d hd => ?_
    · show (env.render _).encodable = true
      rw [env.encodable_render]
      simpa [Message.encodable, MessagePart.encodable] using hfailure.2
    · rw [← Option.some.inj hd]
      exact storable_logPaths fun e he => by cases he

theorem ensures_nestedReason {key : String}
    (h : ∀ reason, nestedReason outcome key = .ok reason → reason.encodable = true) :
    Ensures (nestedReason outcome key) (·.encodable = true) := by
  unfold nestedReason at h ⊢
  split
  · split
    · rename_i _ members hobject _ reason hreason
      rw [hobject] at h
      simp only [hreason] at h
      exact h _ rfl
    · exact ensures_raiseFormat rfl
  · exact ensures_raiseFormat rfl

theorem process_of_retained (h : retainDeferredPauseProcess state progress = .ok frame) :
    state.pauseRequested = none ∨ state.has .process = true := by
  unfold retainDeferredPauseProcess at h
  cases hrequested : state.pauseRequested with
  | none => exact Or.inl rfl
  | some requested =>
    rw [hrequested] at h
    cases hprocess : state.get .process with
    | none =>
      rw [hprocess] at h
      cases h
    | some process => exact Or.inr (by rw [StateFrame.has, hprocess]; rfl)

theorem ensures_outcomeMove {labels : Except Exc (List (PyStr × PyStr))} {freshId : PyStr}
    (hstate : state.storable env) (hstores : OutcomeStores env job state priority outcome)
    (hlabels : Ensures labels fun labels => ∀ e ∈ labels, e.snd.encodable = true)
    (hfresh : freshId.encodable = true) {action : PyStr}
    (haction : Json.get outcome "action" = some (.str action)) :
    Ensures (outcomeMove env job priority state outcome generation labels freshId)
      (·.frame.storable env) := by
  unfold outcomeMove
  rw [haction]
  simp only
  cases hresources : outcomeResources outcome action with
  | error e => exact (ensures_outcomeResources env).of_error hresources
  | ok resources =>
    have hstored := (ensures_outcomeResources env).of_ok hresources
    have hsteps := ensures_declaredRunnerSteps env fun items hitems =>
      hstores.runnerSteps action items haction ⟨resources, hresources⟩ hitems
    refine hsteps.bind fun steps hsteps => ?_
    have hbase : (progressOf state generation steps).storable env := storable_progressOf hstate hsteps
    cases hretained : retainDeferredPauseProcess state (progressOf state generation steps) with
    | error e => exact (ensures_retainDeferredPauseProcess hstate hbase).of_error hretained
    | ok progress =>
      have hprogress := (ensures_retainDeferredPauseProcess hstate hbase).of_ok hretained
      cases hpriority : outcomePriority outcome priority with
      | error e => exact ensures_outcomePriority.of_error hpriority
      | ok next =>
        have hchecked : Checked state priority outcome action :=
          ⟨⟨resources, hresources⟩, ⟨next, hpriority⟩, process_of_retained hretained⟩
        show Ensures (if _ then _ else _) _
        split_ifs with hadvance hretry hwait hsucceed hfail hpause
        · have hencodes := hstores.nextStep action haction hchecked (Or.inl hadvance)
          refine (ensures_validateStep hencodes).bind fun nextStep hnext => ?_
          exact ensures_advance hstate hprogress hnext hfresh rfl hstored
        · subst hretry
          have hreasons := ensures_nestedReason (hstores.retryReason haction hchecked)
          refine hreasons.bind fun reason hreason => ?_
          refine ensures_retry hstate hprogress hreason ?_
          exact fun evidence h => by cases h
        · have hencodes := hstores.nextStep action haction hchecked (Or.inr hwait)
          subst hwait
          refine (ensures_validateStep hencodes).bind fun nextStep hnext => ?_
          split
          · rename_i join hjoin
            refine hlabels.bind fun labels hlabels => ?_
            refine StateFrame.storable_replace hprogress ?_
            simp only [List.forall_mem_cons, List.not_mem_nil, false_imp_iff, implies_true, and_true,
              Json.storable_str, PyStr.encodable_ofString]
            exact ⟨hnext, hstored, storable_labeledJoin hlabels (hstores.join haction hchecked join hjoin)⟩
          · exact ensures_raiseFormat rfl
        · refine StateFrame.storable_replace hprogress fun e he => ?_
          rw [List.mem_singleton.mp he]
          exact Json.storable_str.mpr (PyStr.encodable_ofString _)
        · subst hfail
          exact ensures_failMove hstate hprogress (hstores.failure haction hchecked)
        · subst hpause
          refine StateFrame.storable_replace (storable_withProcess hstate hprogress) ?_
          simp only [List.forall_mem_cons, List.not_mem_nil, false_imp_iff, implies_true, and_true,
            Json.storable_str, PyStr.encodable_ofString]
          cases hvalue : Json.get outcome "pause" with
          | none => rfl
          | some value => exact hstores.pause haction hchecked value hvalue
        · exact ensures_raiseFormat rfl

end Action
