import HttkWorkflow.RemedyLadder
import Mathlib.Algebra.BigOperators.Group.List.Basic
import Mathlib.Data.List.Perm.Subperm

/-!
# A ladder is climbed once

What keeps a job from being restarted for ever on one edit is that the history
is ahead of the inputs. Where it lies outside the directory it is replaced
before the batch is sealed: a crash in between loses the edit, and the next plan
is of a later step. Where it lies inside, it is put after the inputs and by the
same batch, so a crash leaves it behind them for a while; but then the batch is
ready, and no plan is made before it was recovered.

So at every moment there are two readings of the ladder (`Ladder`). `level` is
what the history file has, and `next` what it will have once the batch that is
ready is recovered. They differ while a batch with a history waits, and both
only rise. What was published is below `next`, and a plan, which is made only
where the readings agree, is at or above it. Hence no step of a problem is
published twice, and all that is published fits into the sequences of the
policy.

A batch may be replayed again and again until it is retired. But a file of it
is put only by moving the staged one, which is then gone: what was put of a step
is no longer staged, so that no edit of a step takes effect twice.
-/

section Ladder

variable {β : Type} {env : RemedyEnv β} {policy : RemedyPolicy} {s c : RemedyState β} {level next : PyStr → ℕ}

/-! ## Plans -/

variable {d : VaspRemedyDecision}

theorem climb_spec {obstacle : List RemedyChange → Except Exc (Option Message)} {name problem : PyStr}
    {sequence : List (List RemedyChange)} {last : ℤ} {steps : List ℤ} {skipped : List Message}
    (h : climb obstacle name problem sequence last steps skipped = .ok d) (hgive : d.giveUp = false) :
    d.problem = problem ∧ d.step ∈ steps := by
  induction steps generalizing skipped with
  | nil =>
    obtain rfl := Except.ok.inj h
    cases hgive
  | cons step steps ih =>
    rw [climb] at h
    obtain ⟨changes, -, h⟩ := bind_eq_ok.mp h
    obtain ⟨found, -, h⟩ := bind_eq_ok.mp h
    cases found with
    | none =>
      obtain rfl := Except.ok.inj h
      exact ⟨rfl, List.mem_cons_self⟩
    | some why =>
      obtain ⟨hproblem, hmem⟩ := ih h
      exact ⟨hproblem, List.mem_cons_of_mem _ hmem⟩

variable {codes : List PyStr}

theorem planVaspRemedy_spec (hplan : planVaspRemedy env policy codes s = .ok d) (hgive : d.giveUp = false)
    (hrecorded : ∀ p, recordedStep env s p = .ok (level p : ℤ)) :
    ∃ k : ℕ, d.step = k ∧ level d.problem ≤ k ∧ k < (policy.sequence d.problem).length := by
  unfold planVaspRemedy at hplan
  obtain ⟨step, hstep, hplan⟩ := bind_eq_ok.mp hplan
  obtain rfl := Except.ok.inj ((hrecorded _).symm.trans hstep)
  split at hplan
  · obtain rfl := Except.ok.inj hplan
    cases hgive
  · obtain ⟨hproblem, hmem⟩ := climb_spec hplan hgive
    obtain ⟨j, hj, hstep⟩ := List.mem_map.mp hmem
    have hbelow := List.mem_range.mp hj
    rw [hproblem]
    exact ⟨level (policy.problem codes) + j, by omega, by omega, by omega⟩

/-! ## The history -/

variable {changed : List (PyStr × β)} {k : ℕ}

theorem recordedIn_recordRemedy {history : List (PyStr × Json)}
    (h : recordRemedy env s d changed = .ok history) (hrecorded : ∀ p, recordedStep env s p = .ok (level p : ℤ))
    (hk : d.step = k) (p : PyStr) :
    recordedIn history p = .ok ((Function.update level d.problem (k + 1) p : ℕ) : ℤ) := by
  unfold recordRemedy at h
  obtain ⟨before, hbefore, h⟩ := bind_eq_ok.mp h
  obtain ⟨attempts, hattempts, h⟩ := bind_eq_ok.mp h
  obtain ⟨events, -, h⟩ := bind_eq_ok.mp h
  obtain rfl := Except.ok.inj h
  have hread : recordedIn before p = .ok (level p : ℤ) := by
    have hp := hrecorded p
    unfold recordedStep at hp
    rwa [hbefore] at hp
  have hget : Dict.get (Dict.update before
      [(PyStr.ofString "attempts", .obj (Dict.set attempts d.problem (.int (d.step + 1)))),
        (PyStr.ofString "events", .arr (events ++ [remedyEvent env s.files d changed]))]) "attempts"
      = some (.obj (Dict.set attempts d.problem (.int (d.step + 1)))) := by
    have hother : PyStr.ofString "attempts" ≠ PyStr.ofString "events" := by decide
    rw [Dict.update_cons, Dict.update_cons, Dict.update_nil, Dict.get_set, if_neg hother, Dict.get_set, if_pos rfl]
  unfold recordedIn at hread ⊢
  rw [hget]
  unfold historyAttempts at hattempts
  split at hread
  · rename_i attempts' hobject
    rw [hobject] at hattempts
    obtain rfl := Except.ok.inj hattempts
    simp only [Dict.get_set]
    by_cases hp : p = d.problem
    · rw [if_pos hp, hp, Function.update_self, hk]
      rfl
    · rw [if_neg hp, Function.update_of_ne hp]
      exact hread
  · cases hread

theorem recordedStep_congr (h : historyFile env c = historyFile env s) (p : PyStr) :
    recordedStep env c p = recordedStep env s p := by
  unfold recordedStep readRemedyHistory
  rw [h]

variable {e : PyStr × β}

theorem recordedStep_move {b : RemedyBatch β} {o : List PyStr × RemedyFile β} (h : env.place ≠ some o.fst)
    (p : PyStr) : recordedStep env (moveStaged b o s) p = recordedStep env s p := by
  refine recordedStep_congr ?_ p
  unfold historyFile moveStaged
  cases hplace : env.place with
  | none => rfl
  | some path => exact Function.update_of_ne (fun heq => h (hplace.trans (congrArg some heq))) _ _

/-- **A history that is the history file** is what is recorded. -/
theorem recordedStep_of_historyFile {members : List (PyStr × Json)}
    (h : historyFile env s = some (.history members)) (p : PyStr) : recordedStep env s p = recordedIn members p := by
  unfold recordedStep readRemedyHistory
  rw [h]
  rfl

/-! ## The invariant -/

/-- **A batch that is ready** leaves the history alone until it puts it, and has not put what is still
staged. -/
structure Pending (env : RemedyEnv β) (b : RemedyBatch β) (level next : PyStr → ℕ) (s : RemedyState β) : Prop where
  inputs : ∀ e ∈ b.inputs, env.place ≠ some [e.fst]
  history : match b.history with
    | some e => env.place = some e.fst ∧ (∀ p, recordedIn e.snd p = .ok (next p : ℤ))
        ∧ ((b.id, e.fst) ∈ s.staged ∨ next = level)
    | none => next = level
  fresh : ∀ target, (b.id, target) ∈ s.staged → (b.problem, b.step, target) ∉ s.applied

/-- **The ladder**: the history has `level`, and will have `next` once what is ready is recovered. -/
structure Ladder (env : RemedyEnv β) (policy : RemedyPolicy) (level next : PyStr → ℕ) (s : RemedyState β) : Prop where
  recorded : ∀ p, recordedStep env s p = .ok (level p : ℤ)
  rises : level ≤ next
  ready : (s.ready = [] ∧ next = level) ∨ ∃ b, s.ready = [b] ∧ Pending env b level next s
  sealed : ∀ b ∈ s.ready, (b.problem, b.step) ∈ s.published
  nodup : s.published.Nodup
  climbed : ∀ e ∈ s.published, ∃ k : ℕ, e.snd = k ∧ k < (policy.sequence e.fst).length ∧ k < next e.fst
  once : s.applied.Nodup
  effects : ∀ a ∈ s.applied, (a.fst, a.snd.fst) ∈ s.published

/-- What a crash may leave: a ladder that is no lower. -/
def Risen (env : RemedyEnv β) (policy : RemedyPolicy) (level : PyStr → ℕ) (c : RemedyState β) : Prop :=
  ∃ level' next', Ladder env policy level' next' c ∧ level ≤ level'

/-- A ladder while a batch is ready. -/
def Waiting (env : RemedyEnv β) (policy : RemedyPolicy) (b : RemedyBatch β) (level next : PyStr → ℕ)
    (s : RemedyState β) : Prop :=
  Ladder env policy level next s ∧ s.ready = [b] ∧ Pending env b level next s

/-- A ladder with nothing to recover. -/
def Settled (env : RemedyEnv β) (policy : RemedyPolicy) (level : PyStr → ℕ) (s : RemedyState β) : Prop :=
  Ladder env policy level level s ∧ s.ready = []

variable {b : RemedyBatch β}

variable {o : List PyStr × RemedyFile β}

/-- **A move** of a staged file keeps the ladder, with the history as it leaves it. -/
theorem Waiting.move (h : Waiting env policy b level next s) (hstaged : (b.id, o.fst) ∈ s.staged)
    {level' : PyStr → ℕ} (hrecorded : ∀ p, recordedStep env (moveStaged b o s) p = .ok (level' p : ℤ))
    (hrises : level' ≤ next)
    (hhistory : match b.history with
      | some e => (b.id, e.fst) ∈ (moveStaged b o s).staged ∨ next = level'
      | none => next = level') : Waiting env policy b level' next (moveStaged b o s) := by
  obtain ⟨hladder, hready, hpending⟩ := h
  have hb : b ∈ s.ready := hready ▸ List.mem_cons_self
  have hpending' : Pending env b level' next (moveStaged b o s) := by
    refine ⟨hpending.inputs, ?_, fun target htarget => ?_⟩
    · have hbefore := hpending.history
      cases hfile : b.history with
      | none =>
        rw [hfile] at hhistory
        exact hhistory
      | some e =>
        rw [hfile] at hbefore hhistory
        exact ⟨hbefore.1, hbefore.2.1, hhistory⟩
    · obtain ⟨hin, hother⟩ := List.mem_filter.mp htarget
      refine List.not_mem_cons_of_ne_of_not_mem (fun heq => of_decide_eq_true hother ?_) (hpending.fresh target hin)
      have hsame : target = o.fst := congrArg (fun a : PyStr × ℤ × List PyStr => a.snd.snd) heq
      rw [hsame]
  exact ⟨⟨hrecorded, hrises, Or.inr ⟨b, hready, hpending'⟩, hladder.sealed, hladder.nodup, hladder.climbed,
    List.nodup_cons.mpr ⟨hpending.fresh o.fst hstaged, hladder.once⟩,
    List.forall_mem_cons.mpr ⟨hladder.sealed b hb, hladder.effects⟩⟩, hready, hpending'⟩

theorem Waiting.move_input (h : Waiting env policy b level next s) (hstaged : (b.id, o.fst) ∈ s.staged)
    (ho : env.place ≠ some o.fst) : Waiting env policy b level next (moveStaged b o s) := by
  refine h.move hstaged (fun p => (recordedStep_move ho p).trans (h.1.recorded p)) h.1.rises ?_
  have hhistory := h.2.2.history
  cases hfile : b.history with
  | none =>
    rw [hfile] at hhistory
    exact hhistory
  | some e =>
    rw [hfile] at hhistory
    obtain ⟨hplace, -, hwaits⟩ := hhistory
    refine hwaits.imp_left fun hin => List.mem_filter.mpr ⟨hin, decide_eq_true fun heq => ho ?_⟩
    have hsame : e.fst = o.fst := congrArg Prod.snd heq
    rw [hplace, hsame]

/-- **The history is put**: the readings agree. -/
theorem Waiting.move_history (h : Waiting env policy b level next s) {e : List PyStr × List (PyStr × Json)}
    (he : b.history = some e) (hstaged : (b.id, e.fst) ∈ s.staged) :
    Waiting env policy b next next (moveStaged b (e.fst, .history e.snd) s) := by
  have hhistory := h.2.2.history
  rw [he] at hhistory
  obtain ⟨hplace, hnext, -⟩ := hhistory
  have hfile : historyFile env (moveStaged b (e.fst, .history e.snd) s) = some (.history e.snd) := by
    unfold historyFile
    rw [hplace]
    exact Function.update_self ..
  refine h.move hstaged (fun p => (recordedStep_of_historyFile hfile p).trans (hnext p)) le_rfl ?_
  rw [he]
  exact Or.inr rfl

theorem Waiting.retire (h : Waiting env policy b next next s) : Settled env policy next (retireBatch b s) := by
  have hready : (retireBatch b s).ready = [] := by
    unfold retireBatch
    rw [h.2.1]
    simp
  refine ⟨⟨h.1.recorded, le_rfl, Or.inl ⟨hready, rfl⟩, fun b hb => ?_, h.1.nodup, h.1.climbed, h.1.once,
    h.1.effects⟩, hready⟩
  rw [hready] at hb
  cases hb

/-- **A `put-file`** moves what is staged, or finds it in its place, or raises. -/
theorem crashing_putFile {P Q C : RemedyState β → Prop} (hC : ∀ s, P s → C s)
    (hskip : ∀ s, P s → (b.id, o.fst) ∉ s.staged → Q s)
    (hmove : ∀ s, P s → (b.id, o.fst) ∈ s.staged → Q (moveStaged b o s) ∧ C (moveStaged b o s)) :
    Effects.Crashing P (putFile env b o) (fun _ => Q) C := by
  refine Effects.Crashing.look fun d hd => ?_
  split_ifs with hthere hstaged
  · exact Effects.Crashing.ret (fun s hs => hs ▸ hC d hd) fun s hs => hs ▸ hskip d hd hthere.2
  · have hmoved := hmove d hd hstaged
    exact Effects.Crashing.once (fun s hs => hs ▸ hC d hd) (fun s hs => hs ▸ hmoved.2) fun s hs => hs ▸ hmoved.1
  · exact Effects.Crashing.throw fun s hs => hs ▸ hC d hd

/-- **The operations of a batch** bring the history to where it will be. -/
theorem crashing_operations (b : RemedyBatch β) : Effects.Crashing (Waiting env policy b level next)
    (Effects.execAll (putFile env b) b.operations) (fun _ => Waiting env policy b next next)
    (Risen env policy level) := by
  intro s hs
  have hstay : ∀ s, Waiting env policy b level next s → Risen env policy level s :=
    fun s hs => ⟨level, next, hs.1, le_rfl⟩
  have hinput : ∀ o ∈ b.inputs.map (fun e => ([e.fst], RemedyFile.data e.snd)),
      Effects.Crashing (Waiting env policy b level next) (putFile env b o)
        (fun _ => Waiting env policy b level next) (Waiting env policy b level next) := by
    intro o ho
    obtain ⟨e, he, rfl⟩ := List.mem_map.mp ho
    refine crashing_putFile (fun s hs => hs) (fun s hs _ => hs) fun s hs hstaged => ?_
    have hmoved := hs.move_input hstaged (hs.2.2.inputs e he)
    exact ⟨hmoved, hmoved⟩
  have hhistory := hs.2.2.history
  unfold RemedyBatch.operations
  cases hfile : b.history with
  | none =>
    rw [hfile] at hhistory
    subst hhistory
    rw [Option.toList_none, List.map_nil, List.append_nil]
    exact ((Effects.Crashing.all hinput).conseq (fun _ h => h) (fun _ _ h => h) hstay) s hs
  | some e =>
    have hlast : Effects.Crashing (Waiting env policy b level next) (putFile env b (e.fst, .history e.snd))
        (fun _ => Waiting env policy b next next) (Risen env policy level) := by
      refine crashing_putFile hstay (fun s hs hgone => ?_) fun s hs hstaged => ?_
      · have hplaced := hs.2.2.history
        rw [hfile] at hplaced
        have hnext : next = level := hplaced.2.2.resolve_left hgone
        rw [← hnext] at hs
        exact hs
      · have hmoved := hs.move_history hfile hstaged
        exact ⟨hmoved, next, next, hmoved.1, hs.1.rises⟩
    exact (Effects.Crashing.last (fun o ho => (hinput o ho).conseq (fun _ h => h) (fun _ _ h => h) hstay) hlast) s hs

theorem crashing_commitRemedy (b : RemedyBatch β) : Effects.Crashing (Waiting env policy b level next)
    (commitRemedy env b) (fun _ => Settled env policy next) (Risen env policy level) := by
  intro s hs
  have hrises := hs.1.rises
  refine ((crashing_operations b).seq fun _ => ?_) s hs
  exact Effects.Crashing.once (fun s hs => ⟨next, next, hs.1, hrises⟩) (fun s hs => ⟨next, next, hs.retire.1, hrises⟩)
    fun s hs => hs.retire

/-! ## Rounds -/

theorem crashing_recoverRemedies : Effects.Crashing (Ladder env policy level next) (recoverRemedies env)
    (fun _ => Settled env policy next) (Risen env policy level) := by
  refine Effects.Crashing.look fun d hd => ?_
  rcases hd.ready with ⟨hready, rfl⟩ | ⟨b, hready, hpending⟩
  · rw [hready]
    refine Effects.Crashing.ret (fun s hs => ?_) fun s hs => ?_
    · exact hs ▸ ⟨next, next, hd, le_rfl⟩
    · exact hs ▸ ⟨hd, hready⟩
  · rw [hready]
    refine Effects.Crashing.seq ((crashing_commitRemedy b).conseq (fun s hs => ?_) (fun _ s hs => hs) fun s hs => hs)
      fun _ => Effects.Crashing.ret (fun s hs => ⟨next, next, hs.1, hd.rises⟩) fun s hs => hs
    exact hs ▸ ⟨hd, hready, hpending⟩

theorem inputs_of_stageTargets (h : stageTargets env ((changed.map fun e => [e.fst]) ++ env.place.toList) = .ok ()) :
    ∀ e ∈ changed, env.place ≠ some [e.fst] := by
  intro e he hplace
  unfold stageTargets at h
  split_ifs at h with hapart
  have hoverlap := (List.pairwise_append.mp hapart).2.2 [e.fst] (List.mem_map_of_mem he) [e.fst] (by rw [hplace]; simp)
  revert hoverlap
  unfold pathsOverlap
  simp

variable {problem : PyStr}

theorem le_update (hle : level problem ≤ k) : level ≤ Function.update level problem (k + 1) := fun p => by
  by_cases hp : p = problem
  · rw [hp, Function.update_self]
    exact hle.trans (Nat.le_succ k)
  · rw [Function.update_of_ne hp]

/-- **A history that is written with the state** is recorded at once. -/
theorem Settled.record {history : List (PyStr × Json)} (hs : Settled env policy level s) (hplace : env.place = none)
    (hrises : level ≤ next) (hhistory : ∀ p, recordedIn history p = .ok (next p : ℤ)) :
    Settled env policy next (writeHistory history s) := by
  have hfile : historyFile env (writeHistory history s) = some (.history history) := by
    unfold historyFile
    rw [hplace]
    rfl
  have hready : (writeHistory history s).ready = [] := hs.2
  refine ⟨⟨fun p => (recordedStep_of_historyFile hfile p).trans (hhistory p), le_rfl, Or.inl ⟨hready, rfl⟩,
    fun b hb => ?_, hs.1.nodup, fun e he => ?_, hs.1.once, hs.1.effects⟩, hready⟩
  · rw [hready] at hb
    cases hb
  · obtain ⟨j, hj, hlength, hbelow⟩ := hs.1.climbed e he
    exact ⟨j, hj, hlength, hbelow.trans_le (hrises e.fst)⟩

theorem Ladder.seal (hle : level problem ≤ k) (hlt : k < (policy.sequence problem).length)
    {level' : PyStr → ℕ} (hs : Ladder env policy level level c)
    (hrecorded : ∀ p, recordedStep env s p = .ok (level' p : ℤ))
    (hrises : level' ≤ Function.update level problem (k + 1)) (hpublished : s.published = c.published)
    (happlied : s.applied = c.applied) (hready : s.ready = []) (hproblem : b.problem = problem) (hstep : b.step = k)
    (hinputs : ∀ e ∈ b.inputs, env.place ≠ some [e.fst])
    (hhistory : match b.history with
      | some e => env.place = some e.fst
          ∧ ∀ p, recordedIn e.snd p = .ok ((Function.update level problem (k + 1) p : ℕ) : ℤ)
      | none => Function.update level problem (k + 1) = level') :
    Waiting env policy b level' (Function.update level problem (k + 1)) (sealBatch b s) := by
  have hbatch : (sealBatch b s).ready = [b] := by
    unfold sealBatch
    rw [hready]
  have hnew : (b.problem, b.step) ∉ s.published := by
    intro hmem
    obtain ⟨j, hj, -, hbelow⟩ := hs.climbed _ (hpublished ▸ hmem)
    have hjk : (j : ℤ) = k := hj.symm.trans hstep
    simp only [hproblem] at hbelow
    omega
  have heffects : ∀ a ∈ s.applied, (a.fst, a.snd.fst) ∈ s.published := fun a ha =>
    hpublished ▸ hs.effects a (happlied ▸ ha)
  have hpending : Pending env b level' (Function.update level problem (k + 1)) (sealBatch b s) := by
    refine ⟨hinputs, ?_, fun target _ hmem => hnew (heffects _ hmem)⟩
    cases hfile : b.history with
    | none =>
      rw [hfile] at hhistory
      exact hhistory
    | some e =>
      rw [hfile] at hhistory
      refine ⟨hhistory.1, hhistory.2, Or.inl (List.mem_append_left _ (List.mem_map.mpr ⟨(e.fst, .history e.snd), ?_, rfl⟩))⟩
      unfold RemedyBatch.operations
      rw [hfile]
      exact List.mem_append_right _ List.mem_cons_self
  refine ⟨⟨fun p => (recordedStep_congr rfl p).trans (hrecorded p), hrises, Or.inr ⟨b, hbatch, hpending⟩,
    fun b' hb' => ?_, List.nodup_cons.mpr ⟨hnew, hpublished ▸ hs.nodup⟩, ?_, happlied ▸ hs.once,
    fun a ha => List.mem_cons_of_mem _ (heffects a ha)⟩, hbatch, hpending⟩
  · rw [hbatch] at hb'
    exact List.mem_singleton.mp hb' ▸ List.mem_cons_self
  · refine List.forall_mem_cons.mpr ⟨⟨k, hstep, by rw [hproblem]; exact hlt, ?_⟩, fun e he => ?_⟩
    · simp only [hproblem, Function.update_self]
      omega
    · obtain ⟨j, hj, hlength, hbelow⟩ := hs.climbed e (hpublished ▸ he)
      exact ⟨j, hj, hlength, hbelow.trans_le (le_update hle e.fst)⟩

theorem crashing_applyVaspRemedy {id : PyStr} (hk : d.step = k)
    (hle : level d.problem ≤ k) (hlt : k < (policy.sequence d.problem).length) :
    Effects.Crashing (Settled env policy level) (applyVaspRemedy env id d)
      (fun _ => Risen env policy level) (Risen env policy level) := by
  have hstay : ∀ s, Settled env policy level s → Risen env policy level s := fun s hs => ⟨level, level, hs.1, le_rfl⟩
  have hrises : level ≤ Function.update level d.problem (k + 1) := le_update hle
  have hcommit : ∀ {b : RemedyBatch β} {level' : PyStr → ℕ}, level ≤ level' →
      Effects.Crashing (Waiting env policy b level' (Function.update level d.problem (k + 1))) (commitRemedy env b)
        (fun _ => Risen env policy level) (Risen env policy level) := fun hlevel =>
    (crashing_commitRemedy _).conseq (fun s hs => hs) (fun _ s hs => ⟨_, _, hs.1, hrises⟩)
      fun s ⟨l, n, hladder, hl⟩ => ⟨l, n, hladder, hlevel.trans hl⟩
  unfold applyVaspRemedy
  split_ifs
  · exact Effects.Crashing.throw hstay
  refine Effects.Crashing.look fun s₀ hs₀ => ?_
  have hstart : ∀ s, s = s₀ → Risen env policy level s := fun s hs => hs ▸ hstay s₀ hs₀
  refine Effects.Crashing.seq (R := fun _ s => s = s₀)
    (Effects.Crashing.check hstart fun _ s _ hs => hs) fun obstacle => ?_
  cases obstacle with
  | some why => exact Effects.Crashing.throw hstart
  | none =>
    refine Effects.Crashing.seq (R := fun _ s => s = s₀)
      (Effects.Crashing.check hstart fun _ s _ hs => hs) fun changed => ?_
    refine Effects.Crashing.seq (R := fun history s => s = s₀ ∧ recordRemedy env s₀ d changed = .ok history)
      (Effects.Crashing.check hstart fun _ s hrecord hs => ⟨hs, hrecord⟩) fun history => ?_
    refine Effects.Crashing.seq (R := fun _ s => s = s₀ ∧ recordRemedy env s₀ d changed = .ok history ∧
      ∀ e ∈ changed, env.place ≠ some [e.fst]) (Effects.Crashing.check (fun s hs => hstart s hs.1)
        fun _ s hstage hs => ⟨hs.1, hs.2, inputs_of_stageTargets hstage⟩) fun _ => ?_
    intro s ⟨hs, hrecord, hinputs⟩
    subst hs
    have hhistory := recordedIn_recordRemedy hrecord hs₀.1.recorded hk
    cases hplace : env.place with
    | some path =>
      refine (Effects.Crashing.seq (P := (· = s)) (R := fun _ => Waiting env policy
        ⟨id, d.problem, d.step, changed, some (path, history)⟩ level (Function.update level d.problem (k + 1))) ?_
        fun _ => hcommit le_rfl) s rfl
      have hsealed := Ladder.seal (b := ⟨id, d.problem, d.step, changed, some (path, history)⟩) hle hlt hs₀.1
        hs₀.1.recorded hrises rfl rfl hs₀.2 rfl hk hinputs ⟨hplace, hhistory⟩
      exact Effects.Crashing.once hstart (fun s' hs' => hs' ▸ ⟨_, _, hsealed.1, le_rfl⟩) fun s' hs' => hs' ▸ hsealed
    | none =>
      have hwritten := hs₀.record hplace hrises hhistory
      have hsealed := Ladder.seal (b := ⟨id, d.problem, d.step, changed, none⟩) (s := writeHistory history s) hle hlt
        hs₀.1 hwritten.1.recorded le_rfl rfl rfl hwritten.2 rfl hk hinputs rfl
      refine (Effects.Crashing.seq (P := (· = s)) (R := fun _ s' => s' = writeHistory history s)
        (Effects.Crashing.once hstart (fun s' hs' => hs' ▸ ⟨_, _, hwritten.1, hrises⟩) fun s' hs' => hs' ▸ rfl)
        fun _ => Effects.Crashing.seq (R := fun _ => Waiting env policy ⟨id, d.problem, d.step, changed, none⟩
          (Function.update level d.problem (k + 1)) (Function.update level d.problem (k + 1)))
          (Effects.Crashing.once (fun s' hs' => hs' ▸ ⟨_, _, hwritten.1, hrises⟩)
            (fun s' hs' => hs' ▸ ⟨_, _, hsealed.1, hrises⟩) fun s' hs' => hs' ▸ hsealed) fun _ => hcommit hrises) s rfl

theorem crashing_remedyRound {id : PyStr} : Effects.Crashing (Ladder env policy level next)
    (remedyRound env policy codes id) (fun _ => Risen env policy level) (Risen env policy level) := by
  intro s hs
  have hrises := hs.rises
  have hrisen : ∀ {c : RemedyState β}, Risen env policy next c → Risen env policy level c :=
    fun ⟨l, n, hladder, hl⟩ => ⟨l, n, hladder, hrises.trans hl⟩
  refine (Effects.Crashing.seq crashing_recoverRemedies fun _ => Effects.Crashing.look fun d hd => ?_) s hs
  have hstart : ∀ c, c = d → Risen env policy level c := fun c hc => hc ▸ ⟨next, next, hd.1, hrises⟩
  refine Effects.Crashing.seq (R := fun decision c => c = d ∧ planVaspRemedy env policy codes d = .ok decision)
    (Effects.Crashing.check hstart fun _ c hplan hc => ⟨hc, hplan⟩) fun decision => ?_
  split_ifs with hgive
  · exact Effects.Crashing.ret (fun c hc => hstart c hc.1) fun c hc => hstart c hc.1
  · intro c ⟨hc, hplan⟩
    subst hc
    obtain ⟨k, hk, hle, hlt⟩ := planVaspRemedy_spec hplan (Bool.eq_false_of_not_eq_true hgive) hd.1.recorded
    have happly : (applyVaspRemedy env id decision).Crashing (Settled env policy next)
        (fun _ => Risen env policy level) (Risen env policy level) :=
      (crashing_applyVaspRemedy hk hle hlt).conseq (fun s hs => hs) (fun _ s hs => hrisen hs) fun s hs => hrisen hs
    refine (Effects.Crashing.seq (Q := fun _ => Risen env policy level) happly
      fun _ => Effects.Crashing.ret (fun s hs => hs) fun s hs => hs) c hd

/-! ## Runs -/

/-- **Every step keeps a ladder**, and lowers none. -/
theorem risen_of_step {a : LadderStep β} (hs : Ladder env policy level next s)
    (h : (remedyRuns env policy).step s a c) :
    Risen env policy level c := by
  cases a with
  | round codes id => exact (crashing_remedyRound s hs).1 c h
  | work files =>
    obtain ⟨hplace, rfl⟩ := h
    have hready : (s.ready = [] ∧ next = level) ∨ ∃ b, s.ready = [b] ∧ Pending env b level next { s with files := files } :=
      hs.ready.imp_right fun ⟨b, hb, hpending⟩ => ⟨b, hb, { hpending with }⟩
    refine ⟨level, next, { hs with
      ready := hready
      recorded := fun p => (recordedStep_congr ?_ p).trans (hs.recorded p) }, le_rfl⟩
    unfold historyFile
    cases hpath : env.place with
    | none => rfl
    | some path => exact hplace path hpath

theorem ladder_of_reachable (h : (remedyRuns env policy).Reachable s) :
    ∃ level next, Ladder env policy level next s := by
  refine System.Reachable.invariant (I := fun s => ∃ level next, Ladder env policy level next s) ?_ ?_ h
  · rintro s ⟨hready, hpublished, happlied, hrecorded⟩
    choose level hlevel using hrecorded
    refine ⟨level, level, hlevel, le_rfl, Or.inl ⟨hready, rfl⟩, ?_, ?_, ?_, ?_, ?_⟩
    · rw [hready]
      exact fun b hb => by cases hb
    · rw [hpublished]
      exact List.nodup_nil
    · rw [hpublished]
      exact fun e he => by cases he
    · rw [happlied]
      exact List.nodup_nil
    · rw [happlied]
      exact fun a ha => by cases ha
  · rintro s a s' - ⟨level, next, hs⟩ hstep
    obtain ⟨level', next', hs', -⟩ := risen_of_step hs hstep
    exact ⟨level', next', hs'⟩

theorem Ladder.length_published (h : Ladder env policy level next s) :
    s.published.length ≤ (policy.sequences.map fun e => e.snd.length).sum := by
  let steps : List (PyStr × ℤ) := policy.sequences.flatMap fun e =>
    (List.range e.snd.length).map fun k : ℕ => (e.fst, (k : ℤ))
  have hsubset : s.published ⊆ steps := by
    intro e he
    obtain ⟨k, hk, hlength, -⟩ := h.climbed e he
    unfold RemedyPolicy.sequence at hlength
    cases hsequence : policy.sequences.get e.fst with
    | none =>
      rw [hsequence] at hlength
      exact absurd hlength (Nat.not_lt_zero k)
    | some sequence =>
      rw [hsequence] at hlength
      refine List.mem_flatMap.mpr ⟨(e.fst, sequence), Dict.mem_of_get hsequence, List.mem_map.mpr ⟨k, ?_, ?_⟩⟩
      · exact List.mem_range.mpr hlength
      · rw [← hk]
  calc s.published.length ≤ steps.length := (h.nodup.subperm hsubset).length_le
    _ = (policy.sequences.map fun e => e.snd.length).sum := by
      rw [List.length_flatMap]
      simp only [List.length_map, List.length_range]

/-- **The remedy ladder is bounded and never repeats**: in every reached state every step leaves the recorded step of
each problem where it was or higher, no step of a problem was published twice, no target was put twice for one step,
and only for a step that was published, and at most as many steps were published as the policy has. -/
theorem remedies_bounded (env : RemedyEnv β) (policy : RemedyPolicy) (s : RemedyState β)
    (h : (remedyRuns env policy).Reachable s) :
    (∀ a s', (remedyRuns env policy).step s a s' → ∀ problem, ∃ n n' : ℕ, recordedStep env s problem = .ok (n : ℤ) ∧
        recordedStep env s' problem = .ok (n' : ℤ) ∧ n ≤ n')
      ∧ s.published.Nodup ∧ (∀ b ∈ s.ready, (b.problem, b.step) ∈ s.published)
      ∧ s.applied.Nodup ∧ (∀ a ∈ s.applied, (a.fst, a.snd.fst) ∈ s.published)
      ∧ s.published.length ≤ (policy.sequences.map fun e => e.snd.length).sum := by
  obtain ⟨level, next, hs⟩ := ladder_of_reachable h
  refine ⟨fun a s' hstep problem => ?_, hs.nodup, hs.sealed, hs.once, hs.effects, hs.length_published⟩
  obtain ⟨level', next', hs', hle⟩ := risen_of_step hs hstep
  exact ⟨level problem, level' problem, hs.recorded problem, hs'.recorded problem, hle problem⟩

end Ladder

/-! ## A crash between two inputs -/

def plainRemedies : RemedyEnv ℕ where
  place := some ["history.json"]
  readJson _ := .ok []
  obstacle _ _ := .ok none
  edit _ changes := .ok [(PyStr.ofString "INCAR", changes.length), (PyStr.ofString "KPOINTS", changes.length)]
  sha256 file := match file with
    | .data content => ⟨[content]⟩
    | .history members => ⟨members.map fun e => e.fst.codes.length⟩
  utcNow := "now"
  render _ := "text"
  refusedTarget _ := none

/-- One problem with two steps. -/
def twoPolicy : RemedyPolicy where
  name := "two"
  sequences := [(PyStr.ofString "rotation_matrix", [[(PyStr.ofString "incar.ISYM", .int 0)], []])]
  precedence := ["rotation_matrix"]
  refusals := []

def untried : RemedyState ℕ := ⟨fun _ => none, none, [], [], [], []⟩

def rotationRound (id : PyStr) : Climbing ℕ VaspRemedyDecision :=
  remedyRound plainRemedies twoPolicy ["rotation_matrix"] id

/-- The first round, killed when it had sealed its batch and put one of the inputs. -/
def halfTried : RemedyState ℕ := (rotationRound "a").stopped untried 2

/-- A second round, which recovers that batch and applies the next step. -/
def triedTwice : RemedyState ℕ := (rotationRound "b").final halfTried

theorem remedies_bounded_crash : halfTried.applied.map (fun a => a.snd.snd) = [[PyStr.ofString "INCAR"]]
    ∧ triedTwice.published.map Prod.snd = [1, 0] ∧ triedTwice.applied.length = 6 ∧ triedTwice.applied.Nodup
    ∧ triedTwice.published.length ≤ (twoPolicy.sequences.map fun e => e.snd.length).sum := by
  have huntried : (remedyRuns plainRemedies twoPolicy).Reachable untried :=
    .init ⟨rfl, rfl, rfl, fun problem => ⟨0, rfl⟩⟩
  have hkilled : (remedyRuns plainRemedies twoPolicy).step untried
      (.round ["rotation_matrix"] "a") halfTried :=
    Effects.visits_stopped (rotationRound "a") untried 2
  have hround : (remedyRuns plainRemedies twoPolicy).step halfTried
      (.round ["rotation_matrix"] "b") triedTwice :=
    Effects.visits_final (rotationRound "b") halfTried
  have htwice : (remedyRuns plainRemedies twoPolicy).Reachable triedTwice := (huntried.step hkilled).step hround
  have hbounded := remedies_bounded plainRemedies twoPolicy triedTwice htwice
  exact ⟨by decide +kernel, by decide +kernel, by decide +kernel, hbounded.2.2.2.1, hbounded.2.2.2.2.2⟩
