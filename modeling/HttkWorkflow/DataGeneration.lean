import HttkWorkflow.CommitChecks
import HttkWorkflow.ReplayAtomic

/-!
# The data generation of a committed job

The data generation of a job counts the contents its data tree has had, and
a commit is where it may advance. The pass replays the transaction first,
and validates most of the outcome afterwards. What the replay changed stays
changed when a later check fails, and the frame of that failure is made from
what the committing frame carried, the old generation included
(`generation_behind`). The generation also advances for a transaction whose
operations were all done before they started.

`generation_inStep_iff` says exactly when the two agree, in terms of what the
pass finds: `Passes` is the list of the checks a commit with operations has
to meet, and `Changes` says that the operations it carries out, which are
those before the first one that is refused, change the data.
-/

variable {env : CommitEnv} {job : JobDefinition} {state progress : StateFrame} {move moved : Move}
variable {generation : Option Int}

/-! ## The generation a frame is left with -/

theorem dataGeneration_progressOf (state : StateFrame) (generation : Option Int) (steps : Option Json) :
    (progressOf state generation steps).dataGeneration = generation := by
  have hbase : (state.carried.replace
      [(.dataGeneration, (generation.map Json.int).getD .null)]).dataGeneration = generation := by
    unfold StateFrame.dataGeneration StateFrame.integer
    rw [StateFrame.get_replace_cons, StateFrame.replace_nil, StateFrame.get_mk_set, if_pos rfl]
    cases generation <;> rfl
  unfold progressOf
  cases steps with
  | none => exact hbase
  | some steps =>
    have hother : Member.dataGeneration ∉ [(Member.runnerSteps, steps)].map Prod.fst := by simp
    exact (StateFrame.integer_congr (StateFrame.get_replace_other hother _)).trans hbase

variable {outcome : List (PyStr × Json)}

theorem outcomeMove_dataGeneration {priority : Int} {labels : Except Exc (List (PyStr × PyStr))} {freshId : PyStr}
    (h : outcomeMove env job priority state outcome generation labels freshId = .ok move) :
    move.frame.dataGeneration = generation := by
  obtain ⟨steps, progress, hretained, hasks⟩ := asks_of_outcomeMove h
  have hbase : progress.dataGeneration = generation := by
    rw [← dataGeneration_progressOf state generation steps]
    exact StateFrame.integer_congr (get_retained (by decide) hretained)
  refine (StateFrame.integer_congr ?_).trans hbase
  cases hasks with
  | advances _ _ h => exact advance_keeps (by decide) h
  | retries _ h => exact retry_keeps (by decide) h
  | waits => exact StateFrame.get_replace_other (by simp) progress
  | ends _ _ _ hother => exact StateFrame.get_replace_other (hother _ (by decide)) progress
  | pauses => exact (StateFrame.get_replace_other (by simp) _).trans (get_withProcess (by decide))

theorem transition_dataGeneration {reread : Option StateFrame} {source : StateKind}
    {moves : Except Exc PUnit} (h : transition env reread source moves move = .ok moved) :
    moved.frame.dataGeneration = move.frame.dataGeneration := by
  unfold transition at h
  obtain ⟨⟨kind, frame⟩, hsettle, h⟩ := bind_eq_ok.mp h
  simp only at h
  split_ifs at h
  · obtain ⟨u, -, h⟩ := bind_eq_ok.mp h
    rw [← Except.ok.inj h]
    exact StateFrame.integer_congr (settle_get (by decide) hsettle)

theorem commitFailed_dataGeneration {e : Exc} :
    (commitFailed env state e).frame.dataGeneration = state.dataGeneration := by
  refine StateFrame.integer_congr ?_
  unfold commitFailed
  rw [StateFrame.get_replace_other (by simp), get_withProcess (by decide), StateFrame.get_carried, if_pos (by decide)]

/-! ## The pass and the data tree -/

variable {ν : Type} {renv : ReplayEnv ν} {dirs : ReplayDirs} {f g t : FileTree PyStr ν}
variable {world : CommitWorld (FileTree PyStr ν)} {c : Committing}

/-! ## What a refused replay leaves -/

/-- **What an operation that is refused leaves**: a `replace-tree` moves the
old tree aside before it asks. -/
def Operation.Aside (env : ReplayEnv ν) (dirs : ReplayDirs) : Operation → FileTree PyStr ν → FileTree PyStr ν → Prop
  | replaceTree operationId path _ _, f, g =>
      if f.present (dirs.target path) = true ∧ f.present (dirs.trash operationId "old") = false
      then Installs env f (dirs.target path) (dirs.trash operationId "old") g else g = f
  | _, f, g => g = f

/-- **What the objects of a manifest do**: what they say, one after the other,
up to the first one that does not decode or does not apply. -/
inductive CarriedOut (env : ReplayEnv ν) (dirs : ReplayDirs) :
    List (List (PyStr × Json)) → FileTree PyStr ν → FileTree PyStr ν → Prop where
  | done (f : FileTree PyStr ν) : CarriedOut env dirs [] f f
  | applies {raw : List (PyStr × Json)} {raws : List (List (PyStr × Json))} {o : Operation} {f m g : FileTree PyStr ν}
      (hraw : decodeOperation raw = .ok o) (happlies : o.Applies env dirs f m) (hrest : CarriedOut env dirs raws m g) :
      CarriedOut env dirs (raw :: raws) f g
  | undecoded {raw : List (PyStr × Json)} {e : Exc} (raws : List (List (PyStr × Json))) (f : FileTree PyStr ν)
      (hraw : decodeOperation raw = .error e) : CarriedOut env dirs (raw :: raws) f f
  | refused {raw : List (PyStr × Json)} {o : Operation} {f g : FileTree PyStr ν} (raws : List (List (PyStr × Json)))
      (hraw : decodeOperation raw = .ok o) (hrefused : ∀ m, ¬o.Applies env dirs f m)
      (haside : o.Aside env dirs f g) : CarriedOut env dirs (raw :: raws) f g

variable {u : PUnit} {o : Operation} {raws : List (List (PyStr × Json))}

theorem Operation.aside_of_raises {e : Exc} (h : (applyOperation renv dirs o).Raises f e g) (he : e.Refusal) :
    o.Aside renv dirs f g := by
  cases o with
  | makeDir path =>
    exfalso
    rw [applyOperation] at h
    rcases Effects.raises_bind.mp h with h | ⟨u, m, hm, h⟩
    · exact (mkdirs_raises h).not_refusal he
    · obtain ⟨-, -, hm⟩ := mkdirs_returns.mp hm
      have hdir : m.isDir (dirs.target path) = true := by
        rw [FileTree.isDir_iff, hm, if_pos (List.prefix_refl _)]
      rw [Effects.raises_current_bind, if_pos hdir] at h
      exact Effects.raises_pure h
  | putFile path source expected =>
    rw [applyOperation, Effects.raises_current_bind] at h
    split_ifs at h with hin hsrc
    · exact absurd h Effects.raises_pure
    · rcases Effects.raises_bind.mp h with h | ⟨u, m, hm, h⟩
      · exact absurd he (renameVerified_raises h)
      · have hm := (renameVerified_returns (isFile_present hsrc.1) (dirs.staged_apart source path)).mp hm
        rw [Effects.raises_current_bind, if_pos (hm.digestMatches.trans hsrc.2)] at h
        exact absurd h Effects.raises_pure
    · exact (Effects.raises_raise.mp h).2.symm
  | putTree path source expected =>
    rw [applyOperation, Effects.raises_current_bind] at h
    split_ifs at h
    · exact absurd h Effects.raises_pure
    · exact (Effects.raises_raise.mp h).2.symm
    · exact absurd he (renameVerified_raises h)
    · exact (Effects.raises_raise.mp h).2.symm
  | remove operationId path missingOk =>
    rw [applyOperation, Effects.raises_current_bind] at h
    split_ifs at h
    · exact absurd h Effects.raises_pure
    · exact absurd h Effects.raises_pure
    · exact (Effects.raises_raise.mp h).2.symm
    · exact absurd he (renameVerified_raises h)
  | replaceTree operationId path source expected =>
    rw [applyOperation, Effects.raises_current_bind] at h
    split_ifs at h
    · exact absurd h Effects.raises_pure
    · rcases Effects.raises_bind.mp h with h | ⟨u, m, hm, h⟩
      · unfold moveAside at h
        rw [Effects.raises_current_bind] at h
        split_ifs at h
        · exact absurd he (renameVerified_raises h)
        · exact absurd h Effects.raises_pure
      · rw [Effects.raises_current_bind] at h
        split_ifs at h
        · exact absurd he (renameVerified_raises h)
        · rw [← (Effects.raises_raise.mp h).2]
          exact moveAside_returns.mp hm

theorem Operation.Aside.unique (h : o.Aside renv dirs f g) (h' : o.Aside renv dirs f t) : g = t := by
  cases o with
  | replaceTree operationId path source expected =>
    have hg : (moveAside renv dirs operationId path).Returns f ⟨⟩ g := moveAside_returns.mpr h
    have ht : (moveAside renv dirs operationId path).Returns f ⟨⟩ t := moveAside_returns.mpr h'
    exact (hg.unique ht).2
  | _ => exact Eq.trans h (Eq.symm h')

theorem Operation.Applies.unique (h : o.Applies renv dirs f g) (h' : o.Applies renv dirs f t) : g = t := by
  have hg : (applyOperation renv dirs o).Returns f ⟨⟩ g := applyOperation_returns.mpr h
  have ht : (applyOperation renv dirs o).Returns f ⟨⟩ t := applyOperation_returns.mpr h'
  exact (hg.unique ht).2

theorem CarriedOut.unique (h : CarriedOut renv dirs raws f g) (h' : CarriedOut renv dirs raws f t) : g = t := by
  induction h with
  | done f =>
    cases h'
    rfl
  | applies hraw happlies _ ih =>
    cases h' with
    | applies hraw' happlies' hrest' =>
      obtain rfl := Except.ok.inj (hraw.symm.trans hraw')
      obtain rfl := happlies.unique happlies'
      exact ih hrest'
    | undecoded _ _ hraw' => cases hraw.symm.trans hraw'
    | refused _ hraw' hrefused =>
      obtain rfl := Except.ok.inj (hraw.symm.trans hraw')
      exact absurd happlies (hrefused _)
  | undecoded raws f hraw =>
    cases h' with
    | applies hraw' => cases hraw.symm.trans hraw'
    | undecoded => rfl
    | refused _ hraw' => cases hraw.symm.trans hraw'
  | refused raws hraw hrefused haside =>
    cases h' with
    | applies hraw' happlies =>
      obtain rfl := Except.ok.inj (hraw.symm.trans hraw')
      exact absurd happlies (hrefused _)
    | undecoded _ _ hraw' => cases hraw.symm.trans hraw'
    | refused _ hraw' _ haside' =>
      obtain rfl := Except.ok.inj (hraw.symm.trans hraw')
      exact haside.unique haside'

theorem carriedOut_of_returns (h : (Effects.execAll (replayOne renv dirs) raws).Returns f u g) :
    CarriedOut renv dirs raws f g := by
  induction raws generalizing f with
  | nil =>
    obtain ⟨-, rfl⟩ := Effects.returns_pure.mp h
    exact .done f
  | cons raw raws ih =>
    obtain ⟨v, m, hone, hrest⟩ := Effects.returns_bind.mp h
    obtain ⟨o, m', hdecode, hop⟩ := Effects.returns_bind.mp hone
    obtain ⟨hraw, rfl⟩ := Effects.returns_ofExcept.mp hdecode
    exact .applies hraw (applyOperation_returns.mp hop) (ih hrest)

theorem carriedOut_of_raises {e : Exc} (h : (Effects.execAll (replayOne renv dirs) raws).Raises f e g)
    (he : e.Refusal) : CarriedOut renv dirs raws f g := by
  induction raws generalizing f with
  | nil => exact absurd h Effects.raises_pure
  | cons raw raws ih =>
    rcases Effects.raises_bind.mp h with hone | ⟨v, m, hone, hrest⟩
    · rcases Effects.raises_bind.mp hone with hdecode | ⟨o, m', hdecode, hop⟩
      · obtain ⟨hraw, rfl⟩ := Effects.raises_ofExcept.mp hdecode
        exact .undecoded raws f hraw
      · obtain ⟨hraw, rfl⟩ := Effects.returns_ofExcept.mp hdecode
        refine .refused raws hraw (fun m happlies => ?_) (Operation.aside_of_raises hop he)
        exact ((applyOperation_returns (u := ⟨⟩)).mpr happlies).not_raises hop
    · obtain ⟨o, m', hdecode, hop⟩ := Effects.returns_bind.mp hone
      obtain ⟨hraw, rfl⟩ := Effects.returns_ofExcept.mp hdecode
      exact .applies hraw (applyOperation_returns.mp hop) (ih hrest)

/-- **All of some operations are carried out.** -/
def CarriesAll (env : ReplayEnv ν) (dirs : ReplayDirs) : List Operation → FileTree PyStr ν → FileTree PyStr ν → Prop
  | [], f, g => g = f
  | o :: ops, f, g => ∃ m, o.Applies env dirs f m ∧ CarriesAll env dirs ops m g

theorem carriesAll_iff {ops : List Operation} :
    (Effects.execAll (applyOperation renv dirs) ops).Returns f u g ↔ CarriesAll renv dirs ops f g := by
  induction ops generalizing f with
  | nil =>
    rw [CarriesAll, Effects.execAll_nil, Effects.returns_pure, and_iff_right rfl, eq_comm]
  | cons o ops ih =>
    rw [CarriesAll, Effects.execAll_cons, Effects.returns_bind]
    constructor
    · rintro ⟨v, m, hone, hrest⟩
      exact ⟨m, applyOperation_returns.mp hone, ih.mp hrest⟩
    · rintro ⟨m, hone, hrest⟩
      exact ⟨⟨⟩, m, applyOperation_returns.mpr hone, ih.mpr hrest⟩

/-- The transaction of an outcome, where its directory is there. -/
def publishedTransaction (renv : ReplayEnv ν) (dirs : ReplayDirs) (f : FileTree PyStr ν) :
    Option (Int → Effects (FileTree PyStr ν) Exc Bool) :=
  if f.isDir dirs.transaction = true then some (replayTransaction renv dirs) else none

/-- A world whose transactions are replayed by `replay_transaction`. -/
def replaying (renv : ReplayEnv ν) (dirs : ReplayDirs) (world : CommitWorld (FileTree PyStr ν)) :
    CommitWorld (FileTree PyStr ν) :=
  { world with transaction := publishedTransaction renv dirs }

/-- **The replay of a pass**, as far as it gets: the outcome is read, and its
transaction replayed. -/
def replayPass (world : CommitWorld (FileTree PyStr ν)) (c : Committing) :
    Effects (FileTree PyStr ν) Exc (List (PyStr × Json) × Option Int) := do
  let f ← Effects.current
  let outcome ← Effects.ofExcept (readOutcome (world.document f) c.jobId c.state)
  let generation ← commitTransaction world c outcome
  pure (outcome, generation)

/-- **The data and the generation are in step**: the frame has the generation
of the committing one, plus one if the replay changed the data tree since the
job entered `committing` with `entry`. -/
def InStep (dirs : ReplayDirs) (c : Committing) (entry : FileTree PyStr ν)
    (replayed : FileTree PyStr ν) (frame : StateFrame) : Prop :=
  (replayed.subtree dirs.data ≠ entry → frame.dataGeneration = c.state.dataGeneration.map (· + 1))
    ∧ (replayed.subtree dirs.data = entry → frame.dataGeneration = c.state.dataGeneration)

/-- **A transaction that is replayed**: the outcome is one of the attempt and
expects the generation of a transactional job. -/
structure Replays (dirs : ReplayDirs) (world : CommitWorld (FileTree PyStr ν)) (c : Committing) (f : FileTree PyStr ν)
    (outcome : List (PyStr × Json)) (generation : Int) : Prop where
  read : readOutcome (world.document f) c.jobId c.state = .ok outcome
  published : f.isDir dirs.transaction = true
  fenced : c.state.dataGeneration = some generation
  mode : c.job.dataMode = .transactional
  expected : Json.optEqInt (Json.get outcome "expected_data_generation") generation = true

/-- The tree a transaction leaves, as far as it is carried out. -/
def ReplayLeaves (renv : ReplayEnv ν) (dirs : ReplayDirs) (world : CommitWorld (FileTree PyStr ν)) (c : Committing)
    (f t : FileTree PyStr ν) : Prop :=
  (∃ outcome n raws m, Replays dirs world c f outcome n ∧ publishedOperations renv dirs n f = .ok raws
      ∧ (Operation.makeDir []).Applies renv dirs f m ∧ CarriedOut renv dirs raws m t)
    ∨ ((∀ outcome n raws, Replays dirs world c f outcome n → publishedOperations renv dirs n f ≠ .ok raws) ∧ t = f)

/-- **The transaction changes the data** the job entered `committing` with. -/
def Changes (renv : ReplayEnv ν) (dirs : ReplayDirs) (world : CommitWorld (FileTree PyStr ν)) (c : Committing)
    (entry f : FileTree PyStr ν) : Prop :=
  ∃ t, ReplayLeaves renv dirs world c f t ∧ t.subtree dirs.data ≠ entry

/-- **A commit with operations that passes**: they are all carried out, the
children are registered, the executor goes along, the outcome meets its
checks, no pause came in too late, and the marker moves. -/
def Passes (renv : ReplayEnv ν) (dirs : ReplayDirs) (world : CommitWorld (FileTree PyStr ν)) (c : Committing)
    (f : FileTree PyStr ν) : Prop :=
  ∃ outcome n raws ops t registered, Replays dirs world c f outcome n
    ∧ publishedOperations renv dirs n f = .ok raws ∧ raws ≠ [] ∧ Decoded raws ops
    ∧ CarriesAll renv dirs (.makeDir [] :: ops) f t
    ∧ world.children.Returns t ⟨⟩ registered ∧ world.executor = some (.ok ⟨⟩)
    ∧ OutcomeChecks c.priority c.state outcome world.labels
    ∧ ¬LatePause c.job c.state outcome world.reread ∧ world.moves = .ok ⟨⟩

/-- The run of such a commit. -/
def Completes (env : CommitEnv) (world : CommitWorld (FileTree PyStr ν)) (c : Committing)
    (f : FileTree PyStr ν) : Prop :=
  ∃ outcome generation replayed registered move moved,
    c.state.dataGeneration = some generation
    ∧ (replayPass world c).Returns f (outcome, some (generation + 1)) replayed
    ∧ world.children.Returns replayed ⟨⟩ registered
    ∧ world.executor = some (.ok ⟨⟩)
    ∧ outcomeMove env c.job c.priority c.state outcome (some (generation + 1)) world.labels
      world.freshId = .ok move
    ∧ transition env world.reread .committing world.moves move = .ok moved

theorem replayPass_generation {generation : Option Int} (h : (replayPass world c).Returns f (outcome, generation) t) :
    generation = c.state.dataGeneration ∨ generation = c.state.dataGeneration.map (· + 1) := by
  unfold replayPass at h
  rw [Effects.returns_current_bind] at h
  obtain ⟨outcome', f', -, h⟩ := Effects.returns_bind.mp h
  obtain ⟨generation', f'', htransaction, h⟩ := Effects.returns_bind.mp h
  obtain ⟨heq, -⟩ := Effects.returns_pure.mp h
  obtain ⟨rfl, rfl⟩ := Prod.mk.inj heq
  unfold commitTransaction at htransaction
  rw [Effects.returns_current_bind] at htransaction
  split at htransaction
  · exact Or.inl (Effects.returns_pure.mp htransaction).1.symm
  · split at htransaction
    · rename_i n hn
      split_ifs at htransaction
      · exact absurd htransaction Effects.returns_raise
      · exact absurd htransaction Effects.returns_raise
      · obtain ⟨changed, m, -, h⟩ := Effects.returns_bind.mp htransaction
        rw [hn, ← (Effects.returns_pure.mp h).1]
        split_ifs
        · exact Or.inr rfl
        · exact Or.inl rfl
    · exact absurd htransaction Effects.returns_raise

theorem resume_moved (h : (resume env world c).Returns f (.moved moved) g) :
    (∃ outcome generation replayed registered move, (replayPass world c).Returns f (outcome, generation) replayed
        ∧ world.children.Returns replayed ⟨⟩ registered ∧ world.executor = some (.ok ⟨⟩)
        ∧ outcomeMove env c.job c.priority c.state outcome generation world.labels world.freshId = .ok move
        ∧ transition env world.reread .committing world.moves move = .ok moved)
      ∨ ∃ e, (processCommitting env world c).Raises f e g ∧ e.Refusal
        ∧ transition env world.reread .committing world.records (commitFailed env c.state e)
          = .ok moved := by
  unfold resume at h
  split_ifs at h with hserved
  · cases (Effects.returns_pure.mp h).1
  · obtain ⟨r, f', htry, h⟩ := Effects.returns_bind.mp h
    rcases Effects.returns_attempt.mp htry with ⟨done, rfl, hprocess⟩ | ⟨e, rfl, hprocess⟩
    · left
      cases done with
      | none => cases (Effects.returns_pure.mp h).1
      | some moved' =>
        have hmoved : moved' = moved := PassResult.moved.inj (Effects.returns_pure.mp h).1
        subst hmoved
        obtain ⟨outcome, generation, replayed, registered, move, hread, htransaction, hchildren,
          hexecutor, hmove, hmoved⟩ := processCommitting_moved hprocess
        refine ⟨outcome, generation, replayed, registered, move, ?_, hchildren, hexecutor, hmove, hmoved⟩
        unfold replayPass
        rw [Effects.returns_current_bind]
        exact Effects.returns_bind.mpr ⟨outcome, f, ⟨hread, rfl⟩, Effects.returns_bind.mpr
          ⟨generation, replayed, htransaction, Effects.returns_pure.mpr ⟨rfl, rfl⟩⟩⟩
    · right
      obtain ⟨herror, rfl⟩ := Effects.returns_ofExcept.mp h
      unfold commitError at herror
      split_ifs at herror with hlost hrefusal
      · cases herror
      · refine ⟨e, hprocess, hrefusal, ?_⟩
        split at herror
        · rename_i moved' hmoved
          rw [hmoved, PassResult.moved.inj (Except.ok.inj herror)]
        · split_ifs at herror
          cases herror
      · cases herror

/-- **A pass ends as its transition does**, once it got so far. -/
theorem processCommitting_ends {replayed registered : FileTree PyStr ν}
    (hreplay : (replayPass world c).Returns f (outcome, generation) replayed)
    (hchildren : world.children.Returns replayed ⟨⟩ registered) (hexecutor : world.executor = some (.ok ⟨⟩))
    (hmove : outcomeMove env c.job c.priority c.state outcome generation world.labels world.freshId = .ok move) :
    (∀ moved, transition env world.reread .committing world.moves move = .ok moved →
        (processCommitting env world c).Returns f (some moved) registered)
      ∧ ∀ e, transition env world.reread .committing world.moves move = .error e →
        (processCommitting env world c).Raises f e registered := by
  unfold replayPass at hreplay
  rw [Effects.returns_current_bind] at hreplay
  obtain ⟨outcome', f₁, hread, hreplay⟩ := Effects.returns_bind.mp hreplay
  obtain ⟨generation', f₂, htransaction, hreplay⟩ := Effects.returns_bind.mp hreplay
  obtain ⟨heq, rfl⟩ := Effects.returns_pure.mp hreplay
  obtain ⟨rfl, rfl⟩ := Prod.mk.inj heq
  unfold processCommitting
  rw [hexecutor]
  refine ⟨fun moved hmoved => ?_, fun e hfails => ?_⟩
  · rw [Effects.returns_current_bind]
    refine Effects.returns_bind.mpr ⟨outcome', f₁, hread, ?_⟩
    refine Effects.returns_bind.mpr ⟨_, f₂, htransaction, ?_⟩
    refine Effects.returns_bind.mpr ⟨⟨⟩, registered, hchildren, ?_⟩
    refine Effects.returns_bind.mpr ⟨⟨⟩, registered, ⟨rfl, rfl⟩, ?_⟩
    refine Effects.returns_bind.mpr ⟨move, registered, ⟨hmove, rfl⟩, ?_⟩
    refine Effects.returns_bind.mpr ⟨moved, registered, ⟨hmoved, rfl⟩, ?_⟩
    exact Effects.returns_pure.mpr ⟨rfl, rfl⟩
  · rw [Effects.raises_current_bind]
    refine Effects.raises_bind.mpr (Or.inr ⟨outcome', f₁, hread, ?_⟩)
    refine Effects.raises_bind.mpr (Or.inr ⟨_, f₂, htransaction, ?_⟩)
    refine Effects.raises_bind.mpr (Or.inr ⟨⟨⟩, registered, hchildren, ?_⟩)
    refine Effects.raises_bind.mpr (Or.inr ⟨⟨⟩, registered, ⟨rfl, rfl⟩, ?_⟩)
    refine Effects.raises_bind.mpr (Or.inr ⟨move, registered, ⟨hmove, rfl⟩, ?_⟩)
    exact Effects.raises_bind.mpr (Or.inl ⟨hfails, rfl⟩)

theorem Completes.not_raises {e : Exc} (h : Completes env world c f) :
    ¬(processCommitting env world c).Raises f e g := by
  obtain ⟨outcome, generation, replayed, registered, move, moved, -, hreplay, hchildren, hexecutor,
    hmove, hmoved⟩ := h
  exact ((processCommitting_ends hreplay hchildren hexecutor hmove).1 moved hmoved).not_raises

theorem resume_generation (h : (resume env world c).Returns f (.moved moved) g) :
    (Completes env world c f ∧ moved.frame.dataGeneration = c.state.dataGeneration.map (· + 1))
      ∨ (¬Completes env world c f ∧ moved.frame.dataGeneration = c.state.dataGeneration) := by
  rcases resume_moved h with ⟨outcome, generation, replayed, registered, move, hreplay, hchildren,
    hexecutor, hmove, htransition⟩ | ⟨e, hraises, -, htransition⟩
  · have hgeneration : moved.frame.dataGeneration = generation := by
      rw [transition_dataGeneration htransition, outcomeMove_dataGeneration hmove]
    by_cases hold : generation = c.state.dataGeneration
    · right
      refine ⟨?_, hgeneration.trans hold⟩
      rintro ⟨outcome', n, replayed', -, -, -, hn, hreplay', -⟩
      have hsame : generation = some (n + 1) := (Prod.mk.inj (hreplay.unique hreplay').1).2
      rw [hold, hn] at hsame
      have hn' : n = n + 1 := Option.some.inj hsame
      omega
    · left
      have hnext := (replayPass_generation hreplay).resolve_left hold
      refine ⟨?_, hgeneration.trans hnext⟩
      cases hstate : c.state.dataGeneration with
      | none =>
        rw [hstate] at hold hnext
        exact absurd hnext hold
      | some n =>
        rw [hnext, hstate] at hreplay hmove
        exact ⟨outcome, n, replayed, registered, move, moved, hstate, hreplay, hchildren, hexecutor,
          hmove, htransition⟩
  · right
    refine ⟨fun hcompletes => hcompletes.not_raises hraises, ?_⟩
    rw [transition_dataGeneration htransition, commitFailed_dataGeneration]

/-! ## The replay of a pass -/

variable {n : Int}

theorem Replays.unique {outcome' : List (PyStr × Json)} {n' : Int} (h : Replays dirs world c f outcome n)
    (h' : Replays dirs world c f outcome' n') : outcome = outcome' ∧ n = n' :=
  ⟨Except.ok.inj (h.read.symm.trans h'.read), Option.some.inj (h.fenced.symm.trans h'.fenced)⟩

theorem Replays.commitTransaction_run (h : Replays dirs world c f outcome n) :
    commitTransaction (replaying renv dirs world) c outcome f
      = (replayTransaction renv dirs n >>= fun changed => pure (some (if changed = true then n + 1 else n))) f := by
  have htransaction : (replaying renv dirs world).transaction f = some (replayTransaction renv dirs) := if_pos h.published
  unfold commitTransaction
  rw [Effects.run_current_bind, htransaction, h.fenced]
  dsimp only
  rw [if_neg (not_not.mpr h.mode), if_neg (by rw [h.expected]; exact Bool.noConfusion)]

theorem Replays.replayPass_run (h : Replays dirs world c f outcome n) : replayPass (replaying renv dirs world) c f
    = (commitTransaction (replaying renv dirs world) c outcome >>= fun generation => pure (outcome, generation)) f := by
  have hread : readOutcome ((replaying renv dirs world).document f) c.jobId c.state = .ok outcome := h.read
  unfold replayPass
  rw [Effects.run_current_bind, hread, Effects.run_ok_bind]

theorem Replays.returns (h : Replays dirs world c f outcome n) {p : List (PyStr × Json) × Option Int} :
    (replayPass (replaying renv dirs world) c).Returns f p t
      ↔ ∃ b, (replayTransaction renv dirs n).Returns f b t ∧ (outcome, some (if b = true then n + 1 else n)) = p := by
  rw [Effects.returns_congr h.replayPass_run, Effects.returns_bind]
  simp only [Effects.returns_congr h.commitTransaction_run, Effects.returns_bind, Effects.returns_pure]
  constructor
  · rintro ⟨generation, t', ⟨b, t'', hb, rfl, rfl⟩, rfl, rfl⟩
    exact ⟨b, hb, rfl⟩
  · rintro ⟨b, hb, rfl⟩
    exact ⟨_, t, ⟨b, t, hb, rfl, rfl⟩, rfl, rfl⟩

theorem Replays.raises (h : Replays dirs world c f outcome n) {e : Exc} :
    (replayPass (replaying renv dirs world) c).Raises f e t ↔ (replayTransaction renv dirs n).Raises f e t := by
  rw [Effects.raises_congr h.replayPass_run, Effects.raises_bind]
  simp only [Effects.raises_congr h.commitTransaction_run, Effects.raises_bind, Effects.raises_pure, and_false,
    exists_false, or_false]

theorem final_bind_pure {α β : Type} {x : Effects (FileTree PyStr ν) Exc α} (k : α → β) :
    (x >>= fun a => pure (k a)).final f = x.final f := by
  rw [Effects.final_bind]
  cases (x f).snd <;> rfl

theorem final_of_not_replays (h : ∀ outcome n, ¬Replays dirs world c f outcome n) :
    (replayPass (replaying renv dirs world) c).final f = f := by
  unfold replayPass Effects.final
  rw [Effects.run_current_bind]
  cases hread : readOutcome ((replaying renv dirs world).document f) c.jobId c.state with
  | error e => rfl
  | ok outcome =>
    rw [Effects.run_ok_bind]
    refine (final_bind_pure (x := commitTransaction (replaying renv dirs world) c outcome) _).trans ?_
    unfold commitTransaction Effects.final
    rw [Effects.run_current_bind]
    by_cases hdir : f.isDir dirs.transaction = true
    · rw [show (replaying renv dirs world).transaction f = some (replayTransaction renv dirs) from if_pos hdir]
      cases hfenced : c.state.dataGeneration with
      | none => rfl
      | some n =>
        dsimp only
        split_ifs with hmode hexpected
        · rfl
        · rfl
        · exact absurd ⟨hread, hdir, hfenced, not_not.mp hmode, eq_true_of_ne_false hexpected⟩ (h outcome n)
    · rw [show (replaying renv dirs world).transaction f = none from if_neg hdir]
      rfl

theorem ReplayLeaves.unique (h : ReplayLeaves renv dirs world c f g) (h' : ReplayLeaves renv dirs world c f t) :
    g = t := by
  rcases h with ⟨outcome, n, raws, m, hreplays, hpub, hroot, hcarried⟩ | ⟨hnone, rfl⟩
  · rcases h' with ⟨outcome', n', raws', m', hreplays', hpub', hroot', hcarried'⟩ | ⟨hnone, -⟩
    · obtain ⟨rfl, rfl⟩ := hreplays.unique hreplays'
      obtain rfl := Except.ok.inj (hpub.symm.trans hpub')
      obtain rfl := hroot.unique hroot'
      exact hcarried.unique hcarried'
    · exact absurd hpub (hnone outcome n raws hreplays)
  · rcases h' with ⟨outcome', n', raws', m', hreplays', hpub', -⟩ | ⟨-, rfl⟩
    · exact absurd hpub' (hnone outcome' n' raws' hreplays')
    · rfl

theorem replayLeaves_of_returns {b : Bool} (hreplays : Replays dirs world c f outcome n)
    (h : (replayTransaction renv dirs n).Returns f b t) : ReplayLeaves renv dirs world c f t := by
  obtain ⟨raws, ops, hpub, hdec, -, hall⟩ := replayTransaction_returns.mp h
  obtain ⟨v, m, hroot, hall⟩ := Effects.returns_bind.mp hall
  exact Or.inl ⟨outcome, n, raws, m, hreplays, hpub, applyOperation_returns.mp hroot,
    carriedOut_of_returns (execAll_replayOne.mpr ⟨ops, hdec, hall⟩)⟩

theorem replayLeaves_of_raises {e : Exc} (hreplays : Replays dirs world c f outcome n)
    (h : (replayTransaction renv dirs n).Raises f e t) (he : e.Refusal) : ReplayLeaves renv dirs world c f t := by
  rcases replayTransaction_raises.mp h with ⟨hpub, rfl⟩ | ⟨raws, hpub, h⟩
  · refine Or.inr ⟨fun outcome' n' raws' hreplays' hpub' => ?_, rfl⟩
    obtain ⟨-, rfl⟩ := hreplays.unique hreplays'
    cases hpub.symm.trans hpub'
  · rcases Effects.raises_bind.mp h with h | ⟨v, m, hroot, hall⟩
    · exact absurd he (mkdirs_raises h).not_refusal
    · exact Or.inl ⟨outcome, n, raws, m, hreplays, hpub, applyOperation_returns.mp (makeRoot_returns.mpr hroot),
        carriedOut_of_raises hall he⟩

/-- **What the replay of a pass leaves**, where the exception it may raise is a refusal. -/
theorem replayLeaves_final (hraises : ∀ e, (replayPass (replaying renv dirs world) c f).snd = .error e → e.Refusal) :
    ReplayLeaves renv dirs world c f ((replayPass (replaying renv dirs world) c).final f) := by
  by_cases hreplays : ∃ outcome n, Replays dirs world c f outcome n
  · obtain ⟨outcome, n, hreplays⟩ := hreplays
    cases hsnd : (replayPass (replaying renv dirs world) c f).snd with
    | ok p =>
      obtain ⟨b, hreturns, -⟩ := hreplays.returns.mp ⟨hsnd, rfl⟩
      exact replayLeaves_of_returns hreplays hreturns
    | error e => exact replayLeaves_of_raises hreplays (hreplays.raises.mp ⟨hsnd, rfl⟩) (hraises e hsnd)
  · rw [final_of_not_replays fun outcome n h => hreplays ⟨outcome, n, h⟩]
    exact Or.inr ⟨fun outcome n raws h => absurd ⟨outcome, n, h⟩ hreplays, rfl⟩

theorem not_refusal_unstorable (frame : StateFrame) : ¬(frame.unstorable env).Refusal := by
  unfold StateFrame.unstorable Exc.Refusal
  split_ifs <;> simp

theorem transition_ok {reread : Option StateFrame} {source : StateKind} {moves : Except Exc PUnit}
    (h : transition env reread source moves move = .ok moved) :
    (∃ settled, settle reread source move.kind move.frame = .ok settled) ∧ moves = .ok ⟨⟩ := by
  unfold transition at h
  obtain ⟨settled, hsettle, h⟩ := bind_eq_ok.mp h
  simp only at h
  split_ifs at h
  · obtain ⟨u, hmoves, -⟩ := bind_eq_ok.mp h
    exact ⟨⟨settled, hsettle⟩, hmoves⟩

theorem transition_of_settles {reread : Option StateFrame} {source : StateKind}
    (h : ∃ settled, settle reread source move.kind move.frame = .ok settled) :
    (∃ moved, transition env reread source (.ok ⟨⟩) move = .ok moved)
      ∨ ∃ e, transition env reread source (.ok ⟨⟩) move = .error e ∧ ¬e.Refusal := by
  obtain ⟨settled, hsettle⟩ := h
  unfold transition
  rw [hsettle, ok_bind]
  dsimp only
  split_ifs
  · exact Or.inl ⟨_, rfl⟩
  · exact Or.inr ⟨_, rfl, not_refusal_unstorable _⟩

theorem replays_of_next (h : (replayPass (replaying renv dirs world) c).Returns f (outcome, some (n + 1)) t)
    (hn : c.state.dataGeneration = some n) : Replays dirs world c f outcome n := by
  unfold replayPass at h
  rw [Effects.returns_current_bind] at h
  obtain ⟨outcome', f', hdecoded, h⟩ := Effects.returns_bind.mp h
  obtain ⟨hread, rfl⟩ := Effects.returns_ofExcept.mp hdecoded
  obtain ⟨generation, f'', htransaction, h⟩ := Effects.returns_bind.mp h
  obtain ⟨heq, rfl⟩ := Effects.returns_pure.mp h
  obtain ⟨rfl, rfl⟩ := Prod.mk.inj heq
  unfold commitTransaction at htransaction
  rw [Effects.returns_current_bind, hn] at htransaction
  have hne : some n ≠ some (n + 1) := by
    intro h
    have hn' : n = n + 1 := Option.some.inj h
    omega
  by_cases hdir : f.isDir dirs.transaction = true
  · rw [show (replaying renv dirs world).transaction f = some (replayTransaction renv dirs) from if_pos hdir]
      at htransaction
    dsimp only at htransaction
    split_ifs at htransaction with hmode hexpected
    · exact absurd htransaction Effects.returns_raise
    · exact absurd htransaction Effects.returns_raise
    · exact ⟨hread, hdir, hn, not_not.mp hmode, eq_true_of_ne_false hexpected⟩
  · rw [show (replaying renv dirs world).transaction f = none from if_neg hdir] at htransaction
    exact absurd (Effects.returns_pure.mp htransaction).1 hne

theorem Completes.passes (h : Completes env (replaying renv dirs world) c f) : Passes renv dirs world c f := by
  obtain ⟨outcome, n, replayed, registered, move, moved, hn, hreplay, hchildren, hexecutor, hmove, hmoved⟩ := h
  have hreplays := replays_of_next hreplay hn
  obtain ⟨b, hreturns, hpair⟩ := hreplays.returns.mp hreplay
  have hb : b = true := by
    by_contra hfalse
    rw [if_neg hfalse] at hpair
    have hn' : n = n + 1 := Option.some.inj (Prod.mk.inj hpair).2
    omega
  subst hb
  obtain ⟨raws, ops, hpub, hdec, hraws, hall⟩ := replayTransaction_returns.mp hreturns
  have hne : raws ≠ [] := by
    rintro rfl
    cases hraws
  obtain ⟨hsettles, hmoves⟩ := transition_ok hmoved
  exact ⟨outcome, n, raws, ops, replayed, registered, hreplays, hpub, hne, hdec, carriesAll_iff.mp hall, hchildren,
    hexecutor, .of_ok hmove, (transition_settles hmove).mp hsettles, hmoves⟩

theorem processCommitting_raises_of_replayPass {e : Exc} (h : (replayPass world c).Raises f e t) :
    (processCommitting env world c).Raises f e t := by
  unfold replayPass at h
  unfold processCommitting
  rw [Effects.raises_current_bind] at h ⊢
  rcases Effects.raises_bind.mp h with h | ⟨outcome, m, hread, h⟩
  · exact Effects.raises_bind.mpr (Or.inl h)
  · refine Effects.raises_bind.mpr (Or.inr ⟨outcome, m, hread, ?_⟩)
    rcases Effects.raises_bind.mp h with h | ⟨generation, m', -, h⟩
    · exact Effects.raises_bind.mpr (Or.inl h)
    · exact absurd h Effects.raises_pure

theorem refusal_of_moved {e : Exc} (hmoved : (resume env world c).Returns f (.moved moved) g)
    (h : (processCommitting env world c).Raises f e t) : e.Refusal := by
  rcases resume_moved hmoved with ⟨outcome, generation, replayed, registered, move, hreplay, hchildren,
    hexecutor, hmove, htransition⟩ | ⟨e', hraises, hrefusal, -⟩
  · exact absurd h ((processCommitting_ends hreplay hchildren hexecutor hmove).1 moved htransition).not_raises
  · rw [(h.unique hraises).1]
    exact hrefusal

theorem Passes.completes (h : Passes renv dirs world c f)
    (hmoved : (resume env (replaying renv dirs world) c).Returns f (.moved moved) g) :
    Completes env (replaying renv dirs world) c f := by
  obtain ⟨outcome, n, raws, ops, t, registered, hreplays, hpub, hne, hdec, hall, hchildren, hexecutor, hchecks,
    hlate, hmoves⟩ := h
  have hreturns : (replayTransaction renv dirs n).Returns f true t :=
    replayTransaction_returns.mpr ⟨raws, ops, hpub, hdec, by simpa using hne, carriesAll_iff.mpr hall⟩
  have hreplay : (replayPass (replaying renv dirs world) c).Returns f (outcome, some (n + 1)) t :=
    hreplays.returns.mpr ⟨true, hreturns, rfl⟩
  obtain ⟨move, hmove⟩ : ∃ move, outcomeMove env c.job c.priority c.state outcome (some (n + 1)) world.labels
      world.freshId = .ok move := hchecks.ok
  have hends : (∃ moved, transition env world.reread .committing (.ok ⟨⟩) move = .ok moved)
      ∨ ∃ e, transition env world.reread .committing (.ok ⟨⟩) move = .error e ∧ ¬e.Refusal :=
    transition_of_settles ((transition_settles hmove).mpr hlate)
  rcases hends with ⟨left, hleft⟩ | ⟨e, he, hrefusal⟩
  · exact ⟨outcome, n, t, registered, move, left, hreplays.fenced, hreplay, hchildren, hexecutor, hmove,
      by rw [← hleft, ← hmoves]; rfl⟩
  · have hraises := (processCommitting_ends hreplay hchildren hexecutor hmove).2 e (by rw [← he, ← hmoves]; rfl)
    exact absurd (refusal_of_moved hmoved hraises) hrefusal

theorem changes_iff {entry : FileTree PyStr ν}
    (hmoved : (resume env (replaying renv dirs world) c).Returns f (.moved moved) g) :
    Changes renv dirs world c entry f
      ↔ ((replayPass (replaying renv dirs world) c).final f).subtree dirs.data ≠ entry := by
  have hleaves : ReplayLeaves renv dirs world c f ((replayPass (replaying renv dirs world) c).final f) :=
    replayLeaves_final fun e h => refusal_of_moved hmoved (processCommitting_raises_of_replayPass ⟨h, rfl⟩)
  constructor
  · rintro ⟨t, ht, hne⟩
    rwa [hleaves.unique ht]
  · exact fun hne => ⟨_, hleaves, hne⟩

/-- **The data and the generation are in step exactly when** the commit
passes with operations that change the data, or does not pass and the data is
as it was. A job without a generation never gets one. -/
theorem generation_inStep_iff {entry : FileTree PyStr ν}
    (hmoved : (resume env (replaying renv dirs world) c).Returns f (.moved moved) g) :
    InStep dirs c entry ((replayPass (replaying renv dirs world) c).final f) moved.frame
      ↔ c.state.dataGeneration = none
        ∨ (Passes renv dirs world c f ∧ Changes renv dirs world c entry f)
        ∨ (¬Passes renv dirs world c f ∧ ¬Changes renv dirs world c entry f) := by
  rw [changes_iff hmoved]
  have hpasses : Passes renv dirs world c f ↔ Completes env (replaying renv dirs world) c f :=
    ⟨fun h => h.completes hmoved, Completes.passes⟩
  rw [hpasses]
  set data := ((replayPass (replaying renv dirs world) c).final f).subtree dirs.data with hdata
  unfold InStep
  rw [← hdata]
  cases hstate : c.state.dataGeneration with
  | none =>
    have hnone : moved.frame.dataGeneration = none := by
      rcases resume_generation hmoved with ⟨-, hframe⟩ | ⟨-, hframe⟩
      · rw [hframe, hstate]
        rfl
      · rw [hframe, hstate]
    simp [hnone]
  | some n =>
    have hnext : n + 1 ≠ n := by omega
    rcases resume_generation hmoved with ⟨hcompletes, hframe⟩ | ⟨hcompletes, hframe⟩
    · rw [hframe, hstate]
      simp [hcompletes, hnext]
    · rw [hframe, hstate]
      simp [hcompletes, hnext.symm]

/-! ## A job that is left behind its data -/

def fencedJob : Committing where
  jobId := "job"
  priority := 100
  job := ⟨.transactional, .isolated, "first", "digest", "default", [], RetryPolicy.unlimited []⟩
  state := StateFrame.empty.replace
    [(.step, .str "first"), (.activationId, .str "a1"), (.attemptId, .str "t1"),
      (.dataGeneration, .int 0)]

def fencedOutcome (members : List (PyStr × Json)) : Json :=
  .obj (("format", .str "httk-workflow-outcome") :: ("format_version", .int 2)
    :: ("job_id", .str "job") :: ("activation_id", .str "a1") :: ("attempt_id", .str "t1")
    :: ("expected_data_generation", .int 0) :: members)

/-- A world where that outcome is published, with the removal of `a`, and
everything else goes through. -/
def fencedWorld (members : List (PyStr × Json)) : CommitWorld (FileTree PyStr Unit) :=
  replaying (plainEnv (removing ["a"])) plainDirs
    { document := fun _ => .ok (fencedOutcome members)
      transaction := fun _ => none
      children := pure ⟨⟩
      executor := some (.ok ⟨⟩)
      labels := .ok []
      freshId := "a2"
      reread := none
      moves := .ok ⟨⟩
      records := .ok ⟨⟩ }

def fencedPass (members : List (PyStr × Json)) : Effects (FileTree PyStr Unit) Exc PassResult :=
  resume plainCommitEnv (fencedWorld members) fencedJob

def PassResult.recorded : PassResult → Option Int
  | .moved move => move.frame.dataGeneration
  | _ => none

theorem returns_of_recorded {x : Effects (FileTree PyStr ν) Exc PassResult} {n : Int}
    (h : (x f).snd.toOption.map PassResult.recorded = some (some n)) :
    ∃ moved, x.Returns f (.moved moved) (x.final f) ∧ moved.frame.dataGeneration = some n := by
  cases hx : (x f).snd with
  | error e =>
    rw [hx] at h
    cases h
  | ok result =>
    rw [hx] at h
    have hn : result.recorded = some n := Option.some.inj h
    cases result with
    | moved moved => exact ⟨moved, ⟨hx, rfl⟩, hn⟩
    | _ => cases hn

/-- **A generation that stays behind the data**: an `advance` without a
`next_step` is refused after the replay removed `a`, and the job fails with
the generation it had. -/
theorem generation_behind :
    ∃ moved g, (fencedPass [("action", .str "advance")]).Returns filledTree (.moved moved) g
      ∧ ¬InStep plainDirs fencedJob (filledTree.subtree plainDirs.data)
        ((replayPass (fencedWorld [("action", .str "advance")]) fencedJob).final filledTree)
        moved.frame := by
  obtain ⟨moved, hmoved, hgeneration⟩ := returns_of_recorded
    (x := fencedPass [("action", .str "advance")]) (f := filledTree) (n := 0) (by decide +kernel)
  refine ⟨moved, _, hmoved, fun hstep => ?_⟩
  have hnext := hstep.1 (subtree_ne_of_removed (by decide +kernel))
  rw [hgeneration] at hnext
  cases hnext

/-- The same removal with a `succeed` keeps the two in step. -/
theorem generation_inStep_succeed : ∃ moved g,
    (fencedPass [("action", .str "succeed")]).Returns filledTree (.moved moved) g
      ∧ InStep plainDirs fencedJob (filledTree.subtree plainDirs.data)
        ((replayPass (fencedWorld [("action", .str "succeed")]) fencedJob).final filledTree)
        moved.frame := by
  obtain ⟨moved, hmoved, hgeneration⟩ := returns_of_recorded
    (x := fencedPass [("action", .str "succeed")]) (f := filledTree) (n := 1) (by decide +kernel)
  have hcompletes : Completes plainCommitEnv (fencedWorld [("action", .str "succeed")]) fencedJob filledTree := by
    rcases resume_generation hmoved with ⟨hcompletes, -⟩ | ⟨-, hframe⟩
    · exact hcompletes
    · rw [hgeneration] at hframe
      cases hframe
  have hchanges := (changes_iff hmoved).mpr (subtree_ne_of_removed (by decide +kernel))
  exact ⟨moved, _, hmoved, (generation_inStep_iff hmoved).mpr (Or.inr (Or.inl ⟨hcompletes.passes, hchanges⟩))⟩
