import HttkWorkflow.CollectSweep

/-!
# One result a job

A sweep goes on after a job fails where the failure is caught, and that
depends on where it comes from. A collector, the resolution of one, an
executable and its responses are called under handlers, and any exception but
those they are to let through, with a text, makes a job degrade. A registry
that fails, the directory of an executable collector that is not known or not
resolved, and a request that cannot be written are under no handler and end
the sweep.

`QuietRecord` and `QuietGroup` say of a record and of a group that nothing
escapes. Where that is so of every window, and only there, a sweep has one
result for each record, in the order of the scan, and what outputs it has are
those that the record's own collector returned or the line of the output at
its own place gave it (`collect_one_per_job_iff`).
-/

section Quiet

variable {ε β γ : Type}

/-- **It returns.** -/
def Returns (x : Except ε β) : Prop := ∃ b, x = .ok b

@[simp] theorem returns_ok {b : β} : Returns (.ok b : Except ε β) := ⟨b, rfl⟩

@[simp] theorem not_returns_error {e : ε} : ¬Returns (.error e : Except ε β) := fun ⟨_, h⟩ => by cases h

@[simp] theorem returns_map {x : Except ε β} {f : β → γ} : Returns (x.map f) ↔ Returns x := by
  cases x with
  | ok b => exact iff_of_true ⟨f b, rfl⟩ ⟨b, rfl⟩
  | error e => exact iff_of_false not_returns_error not_returns_error

/-- **A handler takes an exception**: it is of a class it names, and has a text. -/
def Raised.Handled (e : Raised) (caught : RaisedClass → Bool) : Prop := caught e.cls = true ∧ Returns e.text

/-- **A call under a handler**: it returns, or the handler takes what it raises. -/
def Guarded (caught : RaisedClass → Bool) (x : Except Raised β) : Prop := ∀ e, x = .error e → e.Handled caught

variable {caught : RaisedClass → Bool}

theorem guarded_ok {b : β} : Guarded caught (.ok b : Except Raised β) :=
  fun _ h => by cases h

theorem guarded_error {e : Raised} : Guarded caught (.error e : Except Raised β) ↔ e.Handled caught :=
  ⟨fun h => h e rfl, fun h _ he => Except.error.inj he ▸ h⟩

@[simp] theorem returns_handled {e : Raised} {reason : PyStr → Message} :
    Returns (e.handled caught reason) ↔ e.Handled caught := by
  unfold Raised.handled Raised.Handled
  split_ifs with hcaught
  · rw [returns_map]
    exact ⟨fun h => ⟨hcaught, h⟩, fun h => h.2⟩
  · exact iff_of_false not_returns_error fun h => hcaught h.1

end Quiet

section Sweep

variable {Adapter Run Value : Type} (c : CollectCalls Adapter Run Value) (allow : Bool)

/-! ## What may not escape -/

/-- An executable collector has a directory, which is resolved. -/
def QuietQueue (provider : WorkflowProvider Adapter) : Prop :=
  ∃ directory, provider.directory = some directory ∧ Returns (c.resolve directory)

/-- A collector, and the assembly of what it returns. -/
def QuietCall (record : JobRecord) (provider : Option (WorkflowProvider Adapter)) (run : Run) (adapter : Adapter) :
    Prop :=
  Guarded RaisedClass.isCollectorFailure (calledAdapter c record provider run adapter)

def QuietPinned (record : JobRecord) (run : Run) : Prop :=
  allow = true → ∃ found, c.jobCollector record (recordWorkflow record) = .ok found
    ∧ ∀ fallback, found.provider = some fallback →
      (fallback.collectorExec.isSome = true → QuietQueue c fallback)
      ∧ (fallback.collectorExec = none → ∀ adapter, found.adapter = some adapter →
          QuietCall c record (some fallback) run adapter)

def QuietWithout (record : JobRecord) (provider : Option (WorkflowProvider Adapter)) (run : Run) : Prop :=
  match recourse record provider.isSome with
  | .pinned => QuietPinned c allow record run
  | .package => True
  | .language name => Guarded RaisedClass.isFailure (c.language name)
      ∧ ∀ adapter, c.language name = .ok (some adapter) → QuietCall c record provider run adapter

def QuietKnown (record : JobRecord) (known : WorkflowProvider Adapter) (run : Run) : Prop :=
  (known.collectorExec.isSome = true → QuietQueue c known)
  ∧ (known.collectorExec = none → Guarded RaisedClass.isFailure known.collector
    ∧ (∀ adapter, known.collector = .ok (some adapter) → QuietCall c record (some known) run adapter)
    ∧ (known.collector = .ok none → QuietWithout c allow record (some known) run))

/-- **Of this record, nothing escapes.** -/
def QuietRecord (record : JobRecord) : Prop :=
  ∃ provider, c.provider (recordWorkflow record) = .ok provider
    ∧ Guarded RaisedClass.isValueError (c.runRecord record)
    ∧ ∀ run, c.runRecord record = .ok run →
      match provider with
      | none => QuietWithout c allow record none run
      | some known => QuietKnown c allow record known run

def QuietResponse (provider : WorkflowProvider Adapter) (request : QueuedRecord Adapter Run) (line : List ℕ) : Prop :=
  Guarded RaisedClass.isCollectorFailure (parseResponse c request.record provider line)
    ∧ ∀ outputs, parseResponse c request.record provider line = .ok outputs →
      Guarded RaisedClass.isCollectorFailure
        (assembleCollected c request.record (some request.provider) request.run outputs)

/-- **Of this group, nothing escapes.** -/
def QuietGroup (requests : List (ℕ × QueuedRecord Adapter Run)) : Prop :=
  ∀ first, requests.head? = some first →
    ∃ root, c.resolve (first.snd.provider.directory.getD ⟨[]⟩) = .ok root
      ∧ Guarded RaisedClass.isUnresolved (c.executable first.snd.provider root)
      ∧ ∀ executable, c.executable first.snd.provider root = .ok executable →
        ∃ payload, requests.mapM (fun e => c.encode e.snd.record) = .ok payload
          ∧ Guarded (fun cls => decide (cls = .osError)) (c.launch executable payload)
          ∧ ∀ child, c.launch executable payload = .ok child →
            ∀ responses, child.responses requests.length = .ok responses →
              ∀ e ∈ requests.zipIdx, ∀ line, responses[e.snd]? = some line →
                QuietResponse c first.snd.provider e.fst.snd line

/-! ## Nothing escapes exactly if it returns -/

variable {c allow} {record : JobRecord} {provider : Option (WorkflowProvider Adapter)} {run : Run}

variable {adapter : Adapter} {fallback : Bool}

theorem callAdapter_returns :
    Returns (callAdapter c record provider run fallback adapter) ↔ QuietCall c record provider run adapter := by
  unfold callAdapter QuietCall
  cases calledAdapter c record provider run adapter with
  | ok job => exact iff_of_true returns_ok guarded_ok
  | error e => rw [returns_map, returns_handled, guarded_error]

variable {known : WorkflowProvider Adapter}

variable {member : PyStr}

theorem queueRecord_returns :
    Returns (queueRecord c record known member run : Except RaisedClass (Classified Adapter Run Value))
      ↔ QuietQueue c known := by
  unfold queueRecord QuietQueue
  cases known.directory with
  | none => exact iff_of_false not_returns_error fun ⟨_, h, _⟩ => by cases h
  | some directory =>
    simp only
    cases hresolve : c.resolve directory with
    | error e =>
      refine iff_of_false not_returns_error ?_
      rintro ⟨d, hd, hreturns⟩
      rw [← Option.some.inj hd, hresolve] at hreturns
      exact not_returns_error hreturns
    | ok path => exact iff_of_true returns_ok ⟨directory, rfl, ⟨path, hresolve⟩⟩

theorem callJobCollector_returns :
    Returns (callJobCollector c allow record provider run) ↔ QuietPinned c allow record run := by
  unfold callJobCollector QuietPinned
  cases allow with
  | false => exact iff_of_true returns_ok fun h => by cases h
  | true =>
    rw [if_neg (by decide)]
    cases hfound : c.jobCollector record (recordWorkflow record) with
    | error e =>
      refine iff_of_false not_returns_error fun h => ?_
      obtain ⟨_, hfound, -⟩ := h rfl
      cases hfound
    | ok found =>
      simp only [true_implies, Except.ok.injEq, exists_eq_left']
      cases hprovider : found.provider with
      | none => exact iff_of_true returns_ok fun _ h => by cases h
      | some fallback =>
        simp only [Option.some.injEq, forall_eq']
        cases hexec : fallback.collectorExec with
        | some member => simp [queueRecord_returns]
        | none =>
          cases hadapter : found.adapter with
          | none => simp
          | some adapter => simp [callAdapter_returns]

theorem withoutAdapter_returns :
    Returns (withoutAdapter c allow record provider run) ↔ QuietWithout c allow record provider run := by
  unfold withoutAdapter QuietWithout
  cases recourse record provider.isSome with
  | pinned => exact callJobCollector_returns
  | package => exact iff_of_true returns_ok trivial
  | language name =>
    simp only
    cases hlanguage : c.language name with
    | error e =>
      simp only
      rw [returns_map, returns_handled, guarded_error]
      exact ⟨fun h => ⟨h, fun _ h => by cases h⟩, fun h => h.1⟩
    | ok found =>
      cases found with
      | none => exact iff_of_true returns_ok ⟨guarded_ok, fun _ h => by cases h⟩
      | some adapter =>
        simp only
        rw [callAdapter_returns]
        refine ⟨fun h => ⟨guarded_ok, fun a ha => ?_⟩, fun h => h.2 adapter rfl⟩
        obtain rfl := Option.some.inj (Except.ok.inj ha)
        exact h

theorem classifyRecord_returns : Returns (classifyRecord c allow record) ↔ QuietRecord c allow record := by
  unfold classifyRecord QuietRecord
  cases hprovider : c.provider (recordWorkflow record) with
  | error e => exact iff_of_false not_returns_error fun ⟨_, h, _⟩ => by cases h
  | ok provider =>
    simp only [Except.ok.injEq, exists_eq_left']
    cases hrun : c.runRecord record with
    | error e =>
      simp only
      rw [returns_map, returns_handled, guarded_error]
      exact ⟨fun h => ⟨h, fun _ h => by cases h⟩, fun h => h.1⟩
    | ok run =>
      simp only [Except.ok.injEq, forall_eq', guarded_ok, true_and]
      cases provider with
      | none => exact withoutAdapter_returns
      | some known =>
        unfold QuietKnown
        cases hexec : known.collectorExec with
        | some member => simp [queueRecord_returns, hexec]
        | none =>
          simp only [hexec, Option.isSome_none, Bool.false_eq_true, false_implies, true_implies, true_and]
          cases hcollector : known.collector with
          | error e =>
            simp only
            rw [returns_map, returns_handled, guarded_error]
            exact ⟨fun h => ⟨h, ⟨fun _ h => (by cases h), fun h => (by cases h)⟩⟩, fun h => h.1⟩
          | ok found =>
            cases found with
            | none => simp [withoutAdapter_returns, guarded_ok]
            | some adapter => simp [callAdapter_returns, guarded_ok]

variable {ε β γ : Type}

variable {f : β → Except ε γ}

theorem returns_bind {x : Except ε β} : Returns (x >>= f) ↔ ∃ b, x = .ok b ∧ Returns (f b) := by
  cases x with
  | error e => exact iff_of_false not_returns_error fun ⟨_, h, _⟩ => by cases h
  | ok b => exact ⟨fun h => ⟨b, rfl, h⟩, fun ⟨b', hb, h⟩ => Except.ok.inj hb ▸ h⟩

theorem returns_mapM {items : List β} : Returns (items.mapM f) ↔ ∀ item ∈ items, Returns (f item) := mapM_returns

variable {line : Option (List ℕ)}

theorem readResponse_returns : Returns (readResponse c record known line)
      ↔ ∀ text, line = some text → Guarded RaisedClass.isCollectorFailure (parseResponse c record known text) := by
  unfold readResponse
  cases line with
  | none => exact iff_of_true returns_ok fun _ h => by cases h
  | some text =>
    simp only [Option.some.injEq, forall_eq']
    cases parseResponse c record known text with
    | ok outputs => exact iff_of_true returns_ok guarded_ok
    | error e => rw [returns_map, returns_handled, guarded_error]

variable {request : QueuedRecord Adapter Run} {exitStatus : Option Int}
variable {response : Except Message (List (PyStr × Value))}

theorem groupResult_returns : Returns (groupResult c request exitStatus response)
      ↔ ∀ outputs, response = .ok outputs → Guarded RaisedClass.isCollectorFailure
          (assembleCollected c request.record (some request.provider) request.run outputs) := by
  unfold groupResult
  simp only
  rw [returns_map]
  cases response with
  | error reason => exact iff_of_true returns_ok fun _ h => by cases h
  | ok outputs =>
    simp only [Except.ok.injEq, forall_eq']
    cases assembleCollected c request.record (some request.provider) request.run outputs with
    | ok job => exact iff_of_true returns_ok guarded_ok
    | error e => rw [returns_map, returns_handled, guarded_error]

variable {outputs : List (PyStr × Value)}

theorem readResponse_eq_ok : readResponse c record known line = .ok (.ok outputs)
      ↔ ∃ text, line = some text ∧ parseResponse c record known text = .ok outputs := by
  unfold readResponse
  cases line with
  | none => exact ⟨fun h => (by cases h), fun ⟨_, h, _⟩ => (by cases h)⟩
  | some text =>
    simp only [Option.some.injEq, exists_eq_left']
    cases parseResponse c record known text with
    | ok found => simp
    | error e =>
      refine ⟨fun h => ?_, fun h => by cases h⟩
      obtain ⟨reason, -, h⟩ := map_eq_ok.mp h
      cases h

theorem response_returns : (∃ response, readResponse c request.record known line = .ok response
        ∧ Returns (groupResult c request exitStatus response))
      ↔ ∀ text, line = some text → QuietResponse c known request text := by
  constructor
  · rintro ⟨response, hresponse, hresult⟩ text rfl
    refine ⟨readResponse_returns.mp ⟨response, hresponse⟩ text rfl, fun outputs houtputs => ?_⟩
    have hread := readResponse_eq_ok.mpr ⟨text, rfl, houtputs⟩
    obtain rfl := Except.ok.inj (hresponse.symm.trans hread)
    exact groupResult_returns.mp hresult outputs rfl
  · intro h
    obtain ⟨response, hresponse⟩ := readResponse_returns.mpr fun text htext => (h text htext).1
    refine ⟨response, hresponse, groupResult_returns.mpr fun outputs houtputs => ?_⟩
    subst houtputs
    obtain ⟨text, htext, hparsed⟩ := readResponse_eq_ok.mp hresponse
    exact (h text htext).2 outputs hparsed

variable {requests : List (ℕ × QueuedRecord Adapter Run)}

theorem answerGroup_returns : Returns (answerGroup c requests) ↔ QuietGroup c requests := by
  unfold answerGroup QuietGroup
  cases requests with
  | nil => exact iff_of_true returns_ok fun _ h => by cases h
  | cons first rest =>
    simp only [List.head?_cons, Option.some.injEq, forall_eq']
    cases hroot : c.resolve (first.snd.provider.directory.getD ⟨[]⟩) with
    | error e => exact iff_of_false not_returns_error fun ⟨_, h, _⟩ => by cases h
    | ok root =>
      simp only [Except.ok.injEq, exists_eq_left']
      cases hexecutable : c.executable first.snd.provider root with
      | error e =>
        simp only
        rw [returns_map, returns_handled, guarded_error]
        exact ⟨fun h => ⟨h, fun _ h => by cases h⟩, fun h => h.1⟩
      | ok executable =>
        simp only [guarded_ok, true_and, Except.ok.injEq, forall_eq']
        cases hpayload : (first :: rest).mapM fun e => c.encode e.snd.record with
        | error e => exact iff_of_false not_returns_error fun ⟨_, h, _⟩ => by cases h
        | ok payload =>
          simp only [Except.ok.injEq, exists_eq_left']
          cases hlaunch : c.launch executable payload with
          | error e =>
            simp only
            rw [returns_map, returns_handled, guarded_error]
            exact ⟨fun h => ⟨h, fun _ h => by cases h⟩, fun h => h.1⟩
          | ok child =>
            simp only [guarded_ok, true_and, Except.ok.injEq, forall_eq']
            cases child.responses (first :: rest).length with
            | error reason => exact iff_of_true returns_ok fun _ h => by cases h
            | ok responses =>
              simp only [Except.ok.injEq, forall_eq']
              rw [returns_mapM]
              refine forall₂_congr fun e _ => ?_
              have hresponse : (∃ response, readResponse c e.fst.snd.record first.snd.provider responses[e.snd]?
                    = .ok response ∧ Returns (groupResult c e.fst.snd
                      (child.exitStatus (first :: rest).length responses) response))
                  ↔ ∀ text, responses[e.snd]? = some text → QuietResponse c first.snd.provider e.fst.snd text :=
                response_returns
              rw [← hresponse, returns_bind]
              refine exists_congr fun response => and_congr_right fun _ => ?_
              rw [returns_bind]
              exact ⟨fun ⟨job, hjob, _⟩ => ⟨job, hjob⟩, fun ⟨job, hjob⟩ => ⟨job, hjob, returns_ok⟩⟩

/-! ## Where the outputs of a result are from -/

variable (c) in
/-- **What an executable collector answered a record**: the line of its output at the place at which the
record was sent, which names the job. -/
def AnsweredBy (record : JobRecord) (outputs : List (PyStr × Value)) : Prop :=
  ∃ known executable payload child request line response, ∃ rank : ℕ,
    c.launch executable payload = .ok child
      ∧ payload[rank]? = some request ∧ c.encode record = .ok request
      ∧ (LineSplitting.lines newlineByte child.chunks.flatten)[rank]? = some line
      ∧ c.decode line = .ok (.obj response) ∧ Json.get response "job_id" = some (.str record.jobId)
      ∧ parseResponse c record known line = .ok outputs

variable (c) in
/-- **A result of a record**: it has degraded, and has no outputs, or its outputs are assembled from those
its own collector returned or answered. -/
def OwnResult (record : JobRecord) (job : CollectedJob Run Value) : Prop :=
  job.record = record
    ∧ ((job.missingCollector.isSome = true ∧ job.outputs = [])
      ∨ ∃ provider run outputs assembled,
          ((∃ adapter, c.call adapter record = .ok (some outputs)) ∨ AnsweredBy c record outputs)
            ∧ assembleCollected c record provider run outputs = .ok assembled
            ∧ job = { assembled with exitStatus := job.exitStatus })

theorem ownResult_degradedJob (reason : Message) : OwnResult c record (degradedJob record provider run reason) :=
  ⟨rfl, Or.inl ⟨rfl, rfl⟩⟩

variable {job : CollectedJob Run Value}

theorem record_assembleCollected (h : assembleCollected c record provider run outputs = .ok job) :
    job.record = record ∧ job.exitStatus = none := by
  unfold assembleCollected at h
  simp only at h
  split at h
  · cases h
  · obtain ⟨outputs', -, h⟩ := bind_eq_ok.mp h
    obtain ⟨owned, -, h⟩ := bind_eq_ok.mp h
    obtain ⟨collected, -, h⟩ := bind_eq_ok.mp h
    exact Except.ok.inj h ▸ ⟨rfl, rfl⟩

theorem ownResult_assembled (hown : (∃ adapter, c.call adapter record = .ok
    (some outputs)) ∨ AnsweredBy c record outputs)
    (h : assembleCollected c record provider run outputs = .ok job) (exitStatus : Option Int) :
    OwnResult c record { job with exitStatus := exitStatus.or job.exitStatus } :=
  ⟨(record_assembleCollected h).1, Or.inr ⟨provider, run, outputs, job, hown, h, rfl⟩⟩

variable {classified : Classified Adapter Run Value}

theorem ownResult_callAdapter (h : callAdapter c record provider run fallback adapter = .ok classified) :
    ∃ job, classified = .collected job ∧ OwnResult c record job := by
  unfold callAdapter at h
  split at h
  · rename_i job hcalled
    unfold calledAdapter at hcalled
    obtain ⟨returned, hcall, hcalled⟩ := bind_eq_ok.mp hcalled
    cases returned with
    | none => cases hcalled
    | some outputs =>
      have hown := ownResult_assembled (Or.inl ⟨adapter, hcall⟩) hcalled none
      exact ⟨job, (Except.ok.inj h).symm, hown⟩
  · obtain ⟨reason, -, rfl⟩ := map_eq_ok.mp h
    exact ⟨_, rfl, ownResult_degradedJob reason⟩

/-- **What the first pass makes of a record is of that record**: a result of it, or it is queued. -/
def OwnClassified (c : CollectCalls Adapter Run Value) (record : JobRecord) : Classified Adapter Run Value → Prop
  | .collected job => OwnResult c record job
  | .queued _ request => request.record = record

theorem ownClassified_callAdapter (h : callAdapter c record provider run fallback adapter = .ok classified) : OwnClassified c record classified := by
  obtain ⟨job, rfl, hown⟩ := ownResult_callAdapter h
  exact hown

theorem ownClassified_queueRecord (h : queueRecord c record known member run = .ok classified) :
    OwnClassified c record classified := by
  unfold queueRecord at h
  split at h
  · cases h
  · split at h
    · cases h
    · exact Except.ok.inj h ▸ rfl

theorem ownClassified_degraded {reason : Message}
    (h : Except.ok (ε := RaisedClass) (.collected (degradedJob record provider run reason)) = .ok classified) :
    OwnClassified c record classified :=
  Except.ok.inj h ▸ ownResult_degradedJob reason

theorem ownClassified_handled {e : Raised} {caught : RaisedClass → Bool} {reason : PyStr → Message}
    (h : (e.handled caught reason).map (fun reason => .collected (degradedJob record provider run reason))
      = .ok classified) : OwnClassified c record classified := by
  obtain ⟨reason, -, rfl⟩ := map_eq_ok.mp h
  exact ownResult_degradedJob reason

theorem ownClassified_callJobCollector
    (h : callJobCollector c allow record provider run = .ok classified) : OwnClassified c record classified := by
  unfold callJobCollector at h
  split_ifs at h
  · exact ownClassified_degraded h
  · exact ownClassified_degraded h
  · split at h
    · cases h
    · split at h
      · exact ownClassified_degraded h
      · split at h
        · exact ownClassified_queueRecord h
        · exact ownClassified_degraded h
        · exact ownClassified_callAdapter h

theorem ownClassified_withoutAdapter
    (h : withoutAdapter c allow record provider run = .ok classified) : OwnClassified c record classified := by
  unfold withoutAdapter at h
  split at h
  · exact ownClassified_callJobCollector h
  · exact ownClassified_degraded h
  · split at h
    · exact ownClassified_callAdapter h
    · exact ownClassified_degraded h
    · exact ownClassified_handled h

theorem ownClassified (h : classifyRecord c allow record = .ok classified) : OwnClassified c record classified := by
  unfold classifyRecord at h
  split at h
  · cases h
  · split at h
    · exact ownClassified_handled h
    · split at h
      · exact ownClassified_withoutAdapter h
      · split at h
        · exact ownClassified_queueRecord h
        · split at h
          · exact ownClassified_handled h
          · exact ownClassified_callAdapter h
          · exact ownClassified_withoutAdapter h

theorem getElem?_of_forall₂ {β γ : Type} {R : β → γ → Prop} {items : List β} {results : List γ}
    (h : List.Forall₂ R items results) {i : ℕ} {item : β} (hi : items[i]? = some item) :
    ∃ result, results[i]? = some result ∧ R item result := by
  induction h generalizing i with
  | nil => cases hi
  | cons hfirst hrest ih =>
    cases i with
    | zero => exact ⟨_, rfl, Option.some.inj hi ▸ hfirst⟩
    | succ i => exact ih hi

/-- **A result of a queued record**, in its place. -/
def OwnPlaced (c : CollectCalls Adapter Run Value) (request : ℕ × QueuedRecord Adapter Run)
    (answer : ℕ × CollectedJob Run Value) : Prop :=
  answer.fst = request.fst ∧ OwnResult c request.snd.record answer.snd

theorem ownPlaced_groupFailures (requests : List (ℕ × QueuedRecord Adapter Run)) (reason : Message) :
    List.Forall₂ (OwnPlaced c) requests (groupFailures requests reason) := by
  unfold groupFailures
  rw [List.forall₂_map_right_iff, List.forall₂_same]
  exact fun request _ => ⟨rfl, ownResult_degradedJob reason⟩

theorem ownResult_groupResult (hown : ∀ outputs, response = .ok outputs → AnsweredBy c request.record outputs)
    (h : groupResult c request exitStatus response = .ok job) : OwnResult c request.record job := by
  unfold groupResult at h
  obtain ⟨built, hbuilt, rfl⟩ := map_eq_ok.mp h
  split at hbuilt
  · exact Except.ok.inj hbuilt ▸ ⟨rfl, Or.inl ⟨rfl, rfl⟩⟩
  · rename_i outputs
    split at hbuilt
    · rename_i assembled hassembled
      rw [← Except.ok.inj hbuilt]
      exact ownResult_assembled (Or.inr (hown outputs rfl)) hassembled exitStatus
    · obtain ⟨reason, -, rfl⟩ := map_eq_ok.mp hbuilt
      exact ⟨rfl, Or.inl ⟨rfl, rfl⟩⟩

theorem parseResponse_names {line : List ℕ} (h : parseResponse c record known line = .ok outputs) :
    ∃ response, c.decode line = .ok (.obj response) ∧ Json.get response "job_id" = some (.str record.jobId) := by
  unfold parseResponse at h
  obtain ⟨decoded, hdecode, h⟩ := bind_eq_ok.mp h
  cases decoded with
  | obj response =>
    refine ⟨response, hdecode, ?_⟩
    simp only at h
    split_ifs at h with hnamed
    · cases h
    · exact Json.optEqStr_iff.mp (eq_true_of_ne_false hnamed)
  | _ => cases h

theorem ownPlaced_answerGroup {answers : List (ℕ × CollectedJob Run Value)} (h : answerGroup c requests = .ok answers) :
    List.Forall₂ (OwnPlaced c) requests answers := by
  unfold answerGroup at h
  split at h
  · exact Except.ok.inj h ▸ List.Forall₂.nil
  · rename_i first rest
    simp only at h
    split at h
    · cases h
    · split at h
      · obtain ⟨reason, -, rfl⟩ := map_eq_ok.mp h
        exact ownPlaced_groupFailures _ reason
      · rename_i executable _
        split at h
        · cases h
        · rename_i payload hpayload
          split at h
          · obtain ⟨reason, -, rfl⟩ := map_eq_ok.mp h
            exact ownPlaced_groupFailures _ reason
          · rename_i child hlaunch
            split at h
            · exact Except.ok.inj h ▸ ownPlaced_groupFailures _ _
            · rename_i responses hresponses
              have hlines : responses
                  = (LineSplitting.lines newlineByte child.chunks.flatten).take (first :: rest).length := by
                unfold ChildRun.responses at hresponses
                split_ifs at hresponses
                split at hresponses
                · cases hresponses
                · cases hdrained : drainStdout (first :: rest).length child.chunks with
                  | error breach =>
                    rw [hdrained] at hresponses
                    cases hresponses
                  | ok found =>
                    rw [hdrained] at hresponses
                    rw [← Except.ok.inj hresponses]
                    exact drained_eq_take hdrained
              have hanswers := forall₂_of_mapM_ok h
              have hrequests : (first :: rest).zipIdx.map Prod.fst = first :: rest := List.zipIdx_map_fst 0 _
              rw [← hrequests, List.forall₂_map_left_iff]
              refine (List.forall₂_and_left _ _ |>.mpr ⟨fun e he => he, hanswers⟩).imp ?_
              rintro e answer ⟨he, hanswer⟩
              obtain ⟨response, hread, hanswer⟩ := bind_eq_ok.mp hanswer
              obtain ⟨job, hjob, hanswer⟩ := bind_eq_ok.mp hanswer
              obtain rfl := Except.ok.inj hanswer
              refine ⟨rfl, ownResult_groupResult ?_ hjob⟩
              rintro outputs rfl
              obtain ⟨line, hline, hparsed⟩ := readResponse_eq_ok.mp hread
              obtain ⟨named, hdecode, hid⟩ := parseResponse_names hparsed
              obtain ⟨request, hrequest, hencode⟩ :=
                getElem?_of_forall₂ (forall₂_of_mapM_ok hpayload) (List.mem_zipIdx_iff_getElem?.mp he)
              have hline' : (LineSplitting.lines newlineByte child.chunks.flatten)[e.snd]? = some line := by
                rw [hlines, List.getElem?_take] at hline
                split_ifs at hline
                exact hline
              exact ⟨_, executable, payload, child, request, line, named, e.snd, hlaunch, hrequest, hencode, hline',
                hdecode, hid, hparsed⟩

/-! ## Windows -/

variable {window : List JobRecord}

theorem places_firstPass {classified : List (ℕ × Classified Adapter Run Value)}
    (h : firstPass c allow window = .ok classified) : classified.map Prod.fst = List.range window.length := by
  have hplaces : List.Forall₂ (fun e result => result.fst = e.snd) window.zipIdx classified := by
    refine (forall₂_of_mapM_ok h).imp fun e result hresult => ?_
    obtain ⟨found, -, rfl⟩ := map_eq_ok.mp hresult
    rfl
  have hmap : classified.map Prod.fst = window.zipIdx.map Prod.snd := by
    refine List.forall₂_eq_eq_eq ▸ ?_
    rw [List.forall₂_map_left_iff, List.forall₂_map_right_iff]
    exact hplaces.flip
  rw [hmap, List.zipIdx_map_snd, List.range_eq_range']

theorem ownClassified_firstPass {classified : List (ℕ × Classified Adapter Run Value)}
    (h : firstPass c allow window = .ok classified) :
    ∀ e ∈ classified, ∃ record, window[e.fst]? = some record ∧ OwnClassified c record e.snd := by
  intro e he
  obtain ⟨i, hi⟩ := List.mem_iff_getElem?.mp he
  obtain ⟨⟨record, place⟩, hrecord, hresult⟩ := getElem?_of_forall₂ (forall₂_of_mapM_ok h).flip hi
  obtain ⟨found, hfound, rfl⟩ := map_eq_ok.mp hresult
  exact ⟨record, List.mem_zipIdx_iff_getElem?.mp (List.mem_of_getElem? hrecord), ownClassified hfound⟩

theorem mem_immediateResults {classified : List (ℕ × Classified Adapter Run Value)} {place : ℕ} :
    (place, job) ∈ immediateResults classified ↔ (place, Classified.collected job) ∈ classified := by
  refine List.mem_filterMap.trans ⟨?_, fun h => ⟨_, h, rfl⟩⟩
  rintro ⟨⟨place', found⟩, hfound, heq⟩
  cases found with
  | queued key request => cases heq
  | collected job' =>
    obtain ⟨rfl, rfl⟩ := Prod.mk.inj (Option.some.inj heq)
    exact hfound

theorem mem_queuedRecords {classified : List (ℕ × Classified Adapter Run Value)} {key : PyStr} {place : ℕ} :
    (key, (place, request)) ∈ queuedRecords classified ↔ (place, Classified.queued key request) ∈ classified := by
  refine List.mem_filterMap.trans ⟨?_, fun h => ⟨_, h, rfl⟩⟩
  rintro ⟨⟨place', found⟩, hfound, heq⟩
  cases found with
  | collected job => cases heq
  | queued key' request' =>
    obtain ⟨rfl, hpair⟩ := Prod.mk.inj (Option.some.inj heq)
    obtain ⟨rfl, rfl⟩ := Prod.mk.inj hpair
    exact hfound

theorem places_perm (classified : List (ℕ × Classified Adapter Run Value)) :
    List.Perm ((immediateResults classified).map Prod.fst ++ (queuedRecords classified).map fun e => e.snd.fst)
      (classified.map Prod.fst) := by
  induction classified with
  | nil => exact List.Perm.refl _
  | cons e classified ih =>
    obtain ⟨place, result⟩ := e
    cases result with
    | collected job => exact ih.cons place
    | queued key request => exact List.perm_middle.trans (ih.cons place)

variable (c allow) in
/-- **The groups of a window.** -/
def windowGroups (window : List JobRecord) : List (List (ℕ × QueuedRecord Adapter Run)) :=
  match firstPass c allow window with
  | .ok classified => (GroupedAnswers.group (queuedRecords classified)).map Prod.snd
  | .error _ => []

variable (c allow) in
/-- **Of this window, nothing escapes.** -/
def QuietWindow (window : List JobRecord) : Prop :=
  (∀ record ∈ window, QuietRecord c allow record) ∧ ∀ requests ∈ windowGroups c allow window, QuietGroup c requests

theorem collectWindow_returns : Returns (collectWindow c allow window) ↔ QuietWindow c allow window := by
  have hpass : Returns (firstPass c allow window) ↔ ∀ record ∈ window, QuietRecord c allow record := by
    unfold firstPass
    rw [returns_mapM]
    simp only [returns_map, classifyRecord_returns]
    constructor
    · intro h record hrecord
      obtain ⟨i, hi⟩ := List.mem_iff_getElem?.mp hrecord
      exact h (record, i) (List.mem_zipIdx_iff_getElem?.mpr hi)
    · exact fun h e he => h e.fst (List.mem_of_getElem? (List.mem_zipIdx_iff_getElem?.mp he))
  unfold collectWindow QuietWindow windowGroups
  rw [returns_bind, ← hpass]
  cases hclassified : firstPass c allow window with
  | error e => exact iff_of_false (fun ⟨_, h, _⟩ => by cases h) fun h => not_returns_error h.1
  | ok classified =>
    simp only [Except.ok.injEq, exists_eq_left', returns_ok, true_and]
    rw [returns_bind, List.forall_mem_map]
    simp only [← answerGroup_returns]
    rw [← returns_mapM]
    exact ⟨fun ⟨answers, h, _⟩ => ⟨answers, h⟩, fun ⟨answers, h⟩ => ⟨answers, h, returns_ok⟩⟩

variable {results : ℕ → Option (CollectedJob Run Value)}

theorem ownResult_collectWindow (h : collectWindow c allow window = .ok results) {i : ℕ}
    {record : JobRecord} (hi : window[i]? = some record) :
    ∃ job, results i = some job ∧ OwnResult c record job := by
  unfold collectWindow at h
  obtain ⟨classified, hclassified, h⟩ := bind_eq_ok.mp h
  obtain ⟨answers, hanswers, h⟩ := bind_eq_ok.mp h
  obtain rfl := Except.ok.inj h
  have hpass := ownClassified_firstPass hclassified
  -- the places are those of the window, each once
  have hperm := (places_perm classified).trans (List.Perm.of_eq (places_firstPass hclassified))
  obtain ⟨himmediate, hqueued, hdisjoint⟩ := List.nodup_append'.mp (hperm.nodup_iff.mpr List.nodup_range)
  -- the answers are to the queued records, group by group
  have hplaced : List.Forall₂ (OwnPlaced c)
      ((GroupedAnswers.group (queuedRecords classified)).flatMap Prod.snd) answers.flatten := by
    refine List.rel_flatten ?_
    rw [List.forall₂_map_left_iff]
    exact (forall₂_of_mapM_ok hanswers).imp fun _ _ hgroup => ownPlaced_answerGroup hgroup
  have hgroups := GroupedAnswers.flatMap_group (queuedRecords classified)
  have hplaces : answers.flatten.map Prod.fst
      = ((GroupedAnswers.group (queuedRecords classified)).flatMap Prod.snd).map Prod.fst := by
    refine List.forall₂_eq_eq_eq ▸ ?_
    rw [List.forall₂_map_left_iff, List.forall₂_map_right_iff]
    exact hplaced.flip.imp fun _ _ hanswer => hanswer.1
  have hplaces' : List.Perm (answers.flatten.map Prod.fst) ((queuedRecords classified).map fun e => e.snd.fst) := by
    rw [hplaces]
    have hmap := hgroups.map Prod.fst
    rwa [List.map_map] at hmap
  have hmem : i ∈ (immediateResults classified).map Prod.fst ++ (queuedRecords classified).map fun e => e.snd.fst :=
    hperm.mem_iff.mpr (List.mem_range.mpr (List.getElem?_eq_some_iff.mp hi).1)
  rcases List.mem_append.mp hmem with hfirst | hlater
  · obtain ⟨⟨place, job⟩, hjob, rfl⟩ := List.mem_map.mp hfirst
    have hnot : place ∉ answers.flatten.map Prod.fst := fun hanswered =>
      hdisjoint hfirst (hplaces'.mem_iff.mp hanswered)
    refine ⟨job, ?_, ?_⟩
    · rw [GroupedAnswers.assign_of_notMem hnot]
      exact GroupedAnswers.assign_of_mem himmediate hjob
    · obtain ⟨record', hrecord', hown⟩ := hpass _ (mem_immediateResults.mp hjob)
      obtain rfl := Option.some.inj (hi.symm.trans hrecord')
      exact hown
  · have hanswered : i ∈ answers.flatten.map Prod.fst := hplaces'.mem_iff.mpr hlater
    obtain ⟨⟨place, job⟩, hjob, rfl⟩ := List.mem_map.mp hanswered
    refine ⟨job, GroupedAnswers.assign_of_mem (hplaces'.nodup_iff.mpr hqueued) hjob, ?_⟩
    obtain ⟨k, hk⟩ := List.mem_iff_getElem?.mp hjob
    obtain ⟨⟨place', request⟩, hrequest, hplace, hown⟩ := getElem?_of_forall₂ hplaced.flip hk
    obtain rfl : place = place' := hplace
    obtain ⟨⟨key, e⟩, hqueuedAt, rfl⟩ := List.mem_map.mp (hgroups.mem_iff.mp (List.mem_of_getElem? hrequest))
    obtain ⟨record', hrecord', hrequest'⟩ := hpass _ (mem_queuedRecords.mp hqueuedAt)
    obtain rfl := Option.some.inj (hi.symm.trans hrecord')
    obtain rfl : request.record = record := hrequest'
    exact hown

/-! ## Sweeps -/

/-- **The windows of a scan.** -/
def SweepOptions.windows (options : SweepOptions) (records : List JobRecord) : List (List JobRecord) :=
  if _h : records = [] then []
  else records.take options.windowSize :: windows options (records.drop options.windowSize)
termination_by records.length
decreasing_by
  have hlength := List.length_pos_of_ne_nil _h
  have hpos := options.windowSize_pos
  rw [List.length_drop]
  omega

theorem yieldResults_own {records : List JobRecord} {results : List (Option (CollectedJob Run Value))}
    (h : List.Forall₂ (fun record result => ∃ job, result = some job ∧ OwnResult c record job) records results) :
    (yieldResults false results).raised = none
      ∧ List.Forall₂ (OwnResult c) records (yieldResults false results).yielded := by
  induction h with
  | nil => exact ⟨rfl, List.Forall₂.nil⟩
  | cons hfirst hrest ih =>
    obtain ⟨job, rfl, hown⟩ := hfirst
    exact ⟨ih.1, List.Forall₂.cons hown ih.2⟩

theorem ownResult_window (h : collectWindow c allow window = .ok results) :
    List.Forall₂ (fun record result => ∃ job, result = some job ∧ OwnResult c record job) window
      ((List.range window.length).map results) := by
  rw [List.forall₂_iff_get]
  refine ⟨by simp, fun i hi hi' => ?_⟩
  simp only [List.get_eq_getElem, List.getElem_map, List.getElem_range]
  exact ownResult_collectWindow h (List.getElem?_eq_getElem hi)

theorem collect_cases {options : SweepOptions} (hfast : options.failFast = false) (records : List JobRecord) :
    ((∀ window ∈ options.windows records, QuietWindow c options.allowJobCollector window)
        ∧ (collect c options records).raised = none
        ∧ List.Forall₂ (OwnResult c) records (collect c options records).yielded)
      ∨ ((¬∀ window ∈ options.windows records, QuietWindow c options.allowJobCollector window)
        ∧ (collect c options records).raised ≠ none) := by
  induction hn : records.length using Nat.strongRecOn generalizing records with
  | ind n ih =>
    subst hn
    rw [collect, SweepOptions.windows]
    by_cases hnil : records = []
    · subst hnil
      exact Or.inl ⟨List.forall_mem_nil _, rfl, List.Forall₂.nil⟩
    · rw [dif_neg hnil, dif_neg hnil]
      have hlt : (records.drop options.windowSize).length < records.length := by
        have hlength := List.length_pos_of_ne_nil hnil
        have hpos := options.windowSize_pos
        rw [List.length_drop]
        omega
      simp only [hfast]
      cases hwindow : collectWindow c options.allowJobCollector (records.take options.windowSize) with
      | error cls =>
        refine Or.inr ⟨fun hall => ?_, fun h => by cases h⟩
        have hreturns := collectWindow_returns.mpr (hall _ List.mem_cons_self)
        rw [hwindow] at hreturns
        exact not_returns_error hreturns
      | ok results =>
        have hquiet := collectWindow_returns.mp ⟨results, hwindow⟩
        obtain ⟨hraised, hyielded⟩ := yieldResults_own (ownResult_window hwindow)
        simp only [Swept.andThen, hraised]
        rcases ih _ hlt _ rfl with ⟨hall, hrest, hothers⟩ | ⟨hnot, hrest⟩
        · refine Or.inl ⟨List.forall_mem_cons.mpr ⟨hquiet, hall⟩, hrest, ?_⟩
          have hboth : List.Forall₂ (OwnResult c)
              (records.take options.windowSize ++ records.drop options.windowSize) _ :=
            List.rel_append hyielded hothers
          rwa [List.take_append_drop] at hboth
        · exact Or.inr ⟨fun hall => hnot fun w hw => hall w (List.mem_cons_of_mem _ hw), hrest⟩

/-- **One result a job, in the order of the scan, exactly if nothing escapes.** -/
theorem collect_one_per_job_iff {options : SweepOptions} (hfast : options.failFast = false)
    (records : List JobRecord) :
    ((collect c options records).raised = none
        ∧ List.Forall₂ (OwnResult c) records (collect c options records).yielded)
      ↔ ∀ window ∈ options.windows records, QuietWindow c options.allowJobCollector window := by
  rcases collect_cases (c := c) hfast records with ⟨hall, hraised, hresults⟩ | ⟨hnot, hraised⟩
  · exact iff_of_true ⟨hraised, hresults⟩ hall
  · exact iff_of_false (fun h => hraised h.1) hnot

end Sweep

/-! ## Jobs that end a sweep -/

namespace SharedName

def calls : CollectCalls Unit Unit Unit where
  provider name :=
    if name = "shared" then .error ⟨.valueError, .ok "workflow name 'shared' is bundled by multiple plugins"⟩
    else if name = "exits" then .ok (some ⟨[], [], .ok (some ()), none, none⟩)
    else .ok none
  runRecord _ := .ok ()
  emptyRun _ := ()
  inputs _ := []
  artifacts _ := []
  outputs _ := []
  rebuilt _ _ _ := .ok ()
  resolve path := .ok path
  language _ := .error ⟨.valueError, .ok "unknown workflow language"⟩
  jobCollector _ _ := .ok ⟨none, none, none⟩
  call _ _ := .error ⟨.exit, .ok "1"⟩
  executable _ _ := .error ⟨.valueError, .ok "executable collector has no member"⟩
  encode _ := .ok []
  launch _ _ := .error ⟨.osError, .ok "not found"⟩
  decode _ := .error ⟨.valueError, .ok "Expecting value"⟩
  resolveOutput _ _ _ _ := .ok ()
  entryEdge role _ _ := .ok ⟨role, role, role⟩
  productOf _ := none
  withEdge value _ := value
  render _ := ⟨[]⟩

def options : SweepOptions := ⟨64, false, false, by decide⟩

def record (workflow : String) : JobRecord where
  workspaceRoot := .ofText "/work"
  workspaceId := "22222222-2222-4222-8222-222222222222"
  jobId := "11111111-1111-4111-8111-111111111111"
  jobKey := "11111111-1111-4111-8111-111111111111"
  job := [("workflow", .str workflow)]
  runnerProvenance := none
  state := "succeeded"
  failure := none
  placement := ["project"]
  payloadPath := .ofText "project/11111111-1111-4111-8111-111111111111"
  workdirPath := none
  dataPath := none
  dataGeneration := none
  provenance := []
  runnerSteps := none
  children := []
  declarations := []
  runnerDescription := none

def groupedProvider : WorkflowProvider Unit := ⟨[], [], .ok none, some "collect", some "/packages/grouped"⟩

/-- `calls`, with an executable collector that answers its first record and garbles the second answer. -/
def groupedCalls : CollectCalls Unit Unit Unit where
  __ := calls
  provider name := .ok (if name = "grouped" then some groupedProvider else none)
  executable _ root := .ok root
  launch _ _ := .ok ⟨[[0x31, 0x0A], [0x32, 0x0A]], none, false, 0⟩
  decode line :=
    if line = [0x31] then .ok (.obj [("job_id", .str (record "grouped").jobId), ("outputs", .obj [])])
    else .error ⟨.valueError, .ok "Expecting value"⟩

def otherGrouped : JobRecord := { record "grouped" with jobId := "44444444-4444-4444-8444-444444444444" }

def mixedRecords : List JobRecord := [record "grouped", record "known", otherGrouped, record "other"]

def threeAtOnce : SweepOptions := ⟨3, false, false, by decide⟩

theorem windows_mixed : threeAtOnce.windows mixedRecords = [mixedRecords.take 3, mixedRecords.drop 3] := by
  have hwhole : mixedRecords ≠ [] := List.cons_ne_nil _ _
  have hrest : mixedRecords.drop 3 ≠ [] := List.cons_ne_nil _ _
  rw [SweepOptions.windows, dif_neg hwhole, show threeAtOnce.windowSize = 3 from rfl, SweepOptions.windows,
    dif_neg hrest, SweepOptions.windows]
  rfl

theorem parseResponse_grouped (record : JobRecord) (line : List ℕ) :
    parseResponse groupedCalls record groupedProvider line = .ok []
      ∨ ∃ text, parseResponse groupedCalls record groupedProvider line = raiseValueError text := by
  by_cases hline : line = [0x31]
  · subst hline
    by_cases hid : Json.optEqStr (some (.str (SharedName.record "grouped").jobId)) record.jobId = false
    · exact Or.inr ⟨_, if_pos hid⟩
    · exact Or.inl (if_neg hid)
  · have hdecode : groupedCalls.decode line = raiseValueError "Expecting value" := if_neg hline
    refine Or.inr ⟨"Expecting value", ?_⟩
    rw [parseResponse, hdecode]
    rfl

theorem quiet_response (record : JobRecord) (line : List ℕ) :
    QuietResponse groupedCalls groupedProvider ⟨record, groupedProvider, ()⟩ line := by
  rcases parseResponse_grouped record line with h | ⟨text, h⟩
  · refine ⟨h ▸ guarded_ok, fun outputs houtputs => ?_⟩
    obtain rfl := Except.ok.inj (h.symm.trans houtputs)
    exact guarded_ok
  · exact ⟨h ▸ guarded_error.mpr ⟨rfl, returns_ok⟩, fun outputs houtputs => by cases h.symm.trans houtputs⟩

theorem quiet_group : QuietGroup groupedCalls
    [(0, ⟨record "grouped", groupedProvider, ()⟩), (2, ⟨otherGrouped, groupedProvider, ()⟩)] := by
  rintro _ ⟨⟩
  refine ⟨_, rfl, guarded_ok, fun executable _ => ⟨_, rfl, guarded_ok, fun child _ responses _ e he line _ => ?_⟩⟩
  rcases List.mem_pair.mp he with rfl | rfl
  · exact quiet_response _ line
  · exact quiet_response _ line

end SharedName

/-- Two jobs of one executable collector, and two without a collector, have a result each. -/
theorem collect_one_per_job_iff_grouped :
    (collect SharedName.groupedCalls SharedName.threeAtOnce SharedName.mixedRecords).raised = none
    ∧ List.Forall₂ (OwnResult SharedName.groupedCalls) SharedName.mixedRecords
        (collect SharedName.groupedCalls SharedName.threeAtOnce SharedName.mixedRecords).yielded := by
  refine (collect_one_per_job_iff rfl _).mpr fun window hwindow => ?_
  rw [SharedName.windows_mixed] at hwindow
  have hquiet : ∀ record ∈ SharedName.mixedRecords, QuietRecord SharedName.groupedCalls false record := by
    intro record hrecord
    simp only [SharedName.mixedRecords, List.mem_cons, List.not_mem_nil, or_false] at hrecord
    rcases hrecord with rfl | rfl | rfl | rfl <;> exact classifyRecord_returns.mp ⟨_, rfl⟩
  rcases List.mem_cons.mp hwindow with rfl | hwindow
  · refine ⟨fun record hrecord => hquiet record (List.mem_of_mem_take hrecord), fun requests hrequests => ?_⟩
    obtain rfl := List.mem_singleton.mp hrequests
    exact SharedName.quiet_group
  · obtain rfl := List.mem_singleton.mp hwindow
    exact ⟨fun record hrecord => hquiet record (List.mem_of_mem_drop hrecord),
      fun requests hrequests => absurd hrequests List.not_mem_nil⟩

/-- **One job ends the sweep of all**: one whose workflow has a name that two plugins bundle, and one whose
collector exits. The job before it has no result either. -/
theorem sweep_ended :
    collect SharedName.calls SharedName.options [SharedName.record "known", SharedName.record "shared"]
        = ⟨[], some .valueError⟩
      ∧ collect SharedName.calls SharedName.options [SharedName.record "known", SharedName.record "exits"]
        = ⟨[], some .exit⟩ := by
  constructor
  · rw [collect, dif_neg (List.cons_ne_nil _ _)]
    rfl
  · rw [collect, dif_neg (List.cons_ne_nil _ _)]
    rfl
