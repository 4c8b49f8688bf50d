import HttkWorkflow.JobflowDriver
import HttkWorkflow.System

/-!
# What the jobflow driver keeps

Every method of the driver does two kinds of things to its jobs: it settles
some that are pending, and it adds new ones. `Settling` says the first in
one relation – the jobs that were popped, and nothing else, moved from the
pending ones to the settled ones – and `Adding` the second. What is known
of a driver follows from these two, whichever method it was and whichever
way a job was settled.

Both keep the books of the driver in agreement (`Consistent`): every known
job is either pending or settled, and what a job waits for is known.
-/

open Dict (assign)

namespace Driving

variable {α β : Type} {s s' : DriverState} {a : α} {b : β}

variable {x : Driving α}

theorem bind_ok {f : α → Driving β} : (x >>= f) s = .ok b s' ↔ ∃ a t, x s = .ok a t ∧ f a t = .ok b s' := by
  show EStateM.bind x f s = _ ↔ _
  unfold EStateM.bind
  cases x s with
  | ok a t =>
    refine ⟨fun h => ⟨a, t, rfl, h⟩, fun ⟨a', t', h, h'⟩ => ?_⟩
    cases h
    exact h'
  | error e t =>
    refine ⟨fun h => ?_, fun ⟨a', t', h, _⟩ => ?_⟩
    · cases h
    · cases h

variable {e : DriverError}

theorem bind_error {f : α → Driving β} :
    (x >>= f) s = .error e s' ↔ x s = .error e s' ∨ ∃ a t, x s = .ok a t ∧ f a t = .error e s' := by
  show EStateM.bind x f s = _ ↔ _
  unfold EStateM.bind
  cases x s with
  | ok a t =>
    refine ⟨fun h => Or.inr ⟨a, t, rfl, h⟩, fun h => ?_⟩
    rcases h with h | ⟨a', t', h, h'⟩
    · cases h
    · cases h
      exact h'
  | error e' t =>
    refine ⟨fun h => Or.inl (by cases h; rfl), fun h => ?_⟩
    rcases h with h | ⟨a', t', h, -⟩
    · cases h
      rfl
    · cases h

@[simp] theorem get_bind {f : DriverState → Driving β} : ((get : Driving DriverState) >>= f) s = f s s := rfl

@[simp] theorem pure_ok : (pure a : Driving α) s = .ok b' t' ↔ a = b' ∧ s = t' := by
  show EStateM.Result.ok a s = _ ↔ _
  rw [EStateM.Result.ok.injEq]

variable {u : PUnit}

@[simp] theorem set_ok {t : DriverState} : (set t : Driving PUnit) s = .ok u s' ↔ t = s' := by
  show EStateM.Result.ok PUnit.unit t = _ ↔ _
  rw [EStateM.Result.ok.injEq]
  exact ⟨fun h => h.2, fun h => ⟨rfl, h⟩⟩

@[simp] theorem modify_ok {f : DriverState → DriverState} : (modify f : Driving PUnit) s = .ok u s' ↔ f s = s' := by
  show EStateM.Result.ok PUnit.unit (f s) = _ ↔ _
  rw [EStateM.Result.ok.injEq]
  exact ⟨fun h => h.2, fun h => ⟨rfl, h⟩⟩

variable {f : α → Driving PUnit}

theorem forM_nil : (List.forM [] f : Driving PUnit) s = .ok u s' ↔ s' = s := by
  show (pure ⟨⟩ : Driving PUnit) s = .ok u s' ↔ _
  rw [pure_ok]
  exact ⟨fun h => h.2.symm, fun h => ⟨rfl, h.symm⟩⟩

theorem forM_cons {items : List α} : (List.forM (a :: items) f : Driving PUnit) s = .ok u s'
      ↔ ∃ v t, f a s = .ok v t ∧ (List.forM items f : Driving PUnit) t = .ok u s' := by
  show (f a >>= fun _ => List.forM items f) s = .ok u s' ↔ _
  exact bind_ok

@[simp] theorem throw_ok : ¬(throw e : Driving α) s = .ok a s' := fun h => by cases h

end Driving

theorem JobFlow.of_lookup (flow : JobFlow) {uuid k : PyStr}
    (h : (flow.jobs.map fun e => (e.fst.uuid, e.fst.key)).lookup uuid = some k) :
    ∃ e ∈ flow.jobs, e.fst.uuid = uuid ∧ e.fst.key = k := by
  obtain ⟨before, after, hsplit, -⟩ := List.lookup_eq_some_iff.mp h
  have hmem : (uuid, k) ∈ flow.jobs.map fun e => (e.fst.uuid, e.fst.key) := by
    rw [hsplit]
    exact List.mem_append_right _ List.mem_cons_self
  obtain ⟨e, he, heq⟩ := List.mem_map.mp hmem
  exact ⟨e, he, congrArg Prod.fst heq, congrArg Prod.snd heq⟩

namespace DriverState

/-! ## Settling -/

/-- **Some pending jobs are settled**, and nothing else happens to the jobs. -/
structure Settling (s s' : DriverState) (popped : Finset PyStr) : Prop where
  pending : s'.pending = s.pending.filter fun e => e.fst ∉ popped
  inKeys : ∀ k ∈ popped, k ∈ s.keys
  settled : s'.settled = s.settled ∪ popped
  identities : s'.identities = s.identities
  order : s'.order = s.order
  running : s'.running ⊆ s.running

theorem mem_keys {s : DriverState} {k : PyStr} : k ∈ s.keys ↔ ∃ record, (k, record) ∈ s.pending := by
  unfold keys
  rw [List.mem_map]
  exact ⟨fun ⟨e, he, hk⟩ => ⟨e.snd, hk ▸ he⟩, fun ⟨record, h⟩ => ⟨_, h, rfl⟩⟩

variable {popped : Finset PyStr}

theorem Settling.mem_keys {s s' : DriverState} (h : Settling s s' popped)
    {k : PyStr} : k ∈ s'.keys ↔ k ∈ s.keys ∧ k ∉ popped := by
  unfold keys
  rw [h.pending]
  simp only [List.mem_map, List.mem_filter, decide_eq_true_eq]
  exact ⟨fun ⟨e, he, hk⟩ => ⟨⟨e, he.1, hk⟩, hk ▸ he.2⟩, fun ⟨⟨e, he, hk⟩, hp⟩ => ⟨e, ⟨he, hk ▸ hp⟩, hk⟩⟩

theorem settling_refl (s : DriverState) : Settling s s ∅ where
  pending := by simp
  inKeys _ hk := absurd hk (Finset.notMem_empty _)
  settled := (Finset.union_empty _).symm
  identities := rfl
  order := rfl
  running := Finset.Subset.refl _

theorem Settling.trans {s s' s'' : DriverState} {popped popped' : Finset PyStr}
    (h : Settling s s' popped) (h' : Settling s' s'' popped') : Settling s s'' (popped ∪ popped') where
  pending := by
    rw [h'.pending, h.pending, List.filter_filter]
    refine List.filter_congr fun e _ => ?_
    simp [Bool.and_comm]
  inKeys k hk := by
    rcases Finset.mem_union.mp hk with hk | hk
    · exact h.inKeys k hk
    · exact (h.mem_keys.mp (h'.inKeys k hk)).1
  settled := by rw [h'.settled, h.settled, Finset.union_assoc]
  identities := h'.identities.trans h.identities
  order := h'.order.trans h.order
  running := h'.running.trans h.running

variable {key : PyStr}

theorem settling_single {s s' : DriverState} (hkey : key ∈ s.keys)
    (hpending : s'.pending = s.pending.filter fun e => e.fst ≠ key)
    (hsettled : s'.settled = insert key s.settled) (hidentities : s'.identities = s.identities)
    (horder : s'.order = s.order) (hrunning : s'.running ⊆ s.running) : Settling s s' {key} where
  pending := by
    rw [hpending]
    refine List.filter_congr fun e _ => ?_
    simp
  inKeys k hk := by rwa [Finset.mem_singleton.mp hk]
  settled := by rw [hsettled, Finset.union_comm, Finset.insert_eq]
  identities := hidentities
  order := horder
  running := hrunning

theorem settling_finish {s : DriverState} (hkey : key ∈ s.keys) : Settling s (s.finish key) {key} :=
  settling_single hkey rfl (by ext k; simp only [settled, finish, Finset.mem_union, Finset.mem_insert]; tauto)
    rfl rfl (Finset.erase_subset _ _)

theorem settling_stop {s : DriverState} (hkey : key ∈ s.keys) : Settling s (s.stop key) {key} :=
  settling_single hkey rfl (by ext k; simp only [settled, stop, Finset.mem_union, Finset.mem_insert]; tauto)
    rfl rfl (Finset.Subset.refl _)

theorem settling_poison {s : DriverState} (hkey : key ∈ s.keys) : Settling s (s.poison key) {key} :=
  settling_single hkey rfl (by ext k; simp only [settled, poison, Finset.mem_union, Finset.mem_insert]; tauto)
    rfl rfl (Finset.Subset.refl _)

theorem settling_stopAllPending (s : DriverState) : Settling s s.stopAllPending (s.keys.toFinset \ s.running) where
  pending := by
    refine List.filter_congr fun e he => ?_
    have hkey : e.fst ∈ s.keys := List.mem_map.mpr ⟨e, he, rfl⟩
    simp [hkey]
  inKeys k hk := List.mem_toFinset.mp (Finset.mem_sdiff.mp hk).1
  settled := by
    ext k
    simp only [settled, stopAllPending, Finset.mem_union]
    tauto
  identities := rfl
  order := rfl
  running := Finset.Subset.refl _

theorem Settling.congr {s s' t : DriverState} (h : Settling s s' popped)
    (hpending : t.pending = s'.pending) (hsettled : t.settled = s'.settled)
    (hidentities : t.identities = s'.identities) (horder : t.order = s'.order)
    (hrunning : t.running ⊆ s'.running) : Settling s t popped where
  pending := hpending.trans h.pending
  inKeys := h.inKeys
  settled := hsettled.trans h.settled
  identities := hidentities.trans h.identities
  order := horder.trans h.order
  running := hrunning.trans h.running

theorem settling_stopDescendants (s : DriverState) (queue : List PyStr) :
    ∃ popped, Settling s (s.stopDescendants queue) popped := by
  induction s, queue using stopDescendants.induct with
  | case1 s =>
    rw [stopDescendants]
    exact ⟨∅, settling_refl s⟩
  | case2 s key queue h stopped ih =>
    rw [stopDescendants, dif_pos h]
    obtain ⟨popped, hrest⟩ := ih
    have hfirst : Settling s stopped {key} :=
      (settling_stop h).congr rfl rfl rfl rfl (Finset.erase_subset _ _)
    exact ⟨_, hfirst.trans hrest⟩
  | case3 s key queue h ih =>
    rw [stopDescendants, dif_neg h]
    exact ih

/-! ### Skipping -/

def StopsNext (s : DriverState) (record : PendingJob) : Prop :=
  (s.statusUuids record.parents ∩ s.statusUuids s.stopped).Nonempty

def FailsNext (s : DriverState) (record : PendingJob) : Prop :=
  (s.statusUuids record.parents ∩ s.statusUuids s.errored).Nonempty

instance (s : DriverState) (record : PendingJob) : Decidable (s.StopsNext record) :=
  inferInstanceAs (Decidable (Finset.Nonempty _))

instance (s : DriverState) (record : PendingJob) : Decidable (s.FailsNext record) :=
  inferInstanceAs (Decidable (Finset.Nonempty _))

/-- **What one job of a pass becomes.** -/
inductive Skipped (s : DriverState) (key : PyStr) : Bool → DriverState → Prop where
  | absent (h : s.pending.lookup key = none) : Skipped s key false s
  | waits {record : PendingJob} (h : s.pending.lookup key = some record)
      (hwaits : ¬record.waits ⊆ s.settled) : Skipped s key false s
  | stops {record : PendingJob} (h : s.pending.lookup key = some record)
      (hwaits : record.waits ⊆ s.settled) (hstops : s.StopsNext record) :
      Skipped s key true (s.stop key)
  | fails {record : PendingJob} (h : s.pending.lookup key = some record)
      (hwaits : record.waits ⊆ s.settled) (hstops : ¬s.StopsNext record) (hfails : s.FailsNext record)
      (herror : record.job.missingIsError = .ok true) : Skipped s key true (s.poison key)
  | goes {record : PendingJob} (h : s.pending.lookup key = some record)
      (hwaits : record.waits ⊆ s.settled) (hstops : ¬s.StopsNext record)
      (hgoes : s.FailsNext record → record.job.missingIsError = .ok false) : Skipped s key false s

theorem settleSkip_ok {s s' : DriverState} {changed : Bool}
    (h : settleSkip key s = .ok changed s') : Skipped s key changed s' := by
  unfold settleSkip at h
  rw [Driving.get_bind] at h
  cases hlookup : s.pending.lookup key with
  | none =>
    rw [hlookup] at h
    obtain ⟨rfl, rfl⟩ := Driving.pure_ok.mp h
    exact .absent hlookup
  | some record =>
    rw [hlookup] at h
    simp only at h
    by_cases hwaits : record.waits ⊆ s.settled
    · rw [if_neg (not_not.mpr hwaits)] at h
      by_cases hstops : (s.statusUuids record.parents ∩ s.statusUuids s.stopped).Nonempty
      · rw [if_pos hstops] at h
        obtain ⟨_, t, hset, hret⟩ := Driving.bind_ok.mp h
        obtain rfl := Driving.set_ok.mp hset
        obtain ⟨rfl, rfl⟩ := Driving.pure_ok.mp hret
        exact .stops hlookup hwaits hstops
      · rw [if_neg hstops] at h
        by_cases hfails : (s.statusUuids record.parents ∩ s.statusUuids s.errored).Nonempty
        · rw [if_pos hfails] at h
          cases herror : record.job.missingIsError with
          | error exc =>
            rw [herror] at h
            exact absurd h Driving.throw_ok
          | ok isError =>
            rw [herror] at h
            cases isError with
            | false =>
              obtain ⟨rfl, rfl⟩ := Driving.pure_ok.mp h
              exact .goes hlookup hwaits hstops fun _ => herror
            | true =>
              obtain ⟨_, t, hset, hret⟩ := Driving.bind_ok.mp h
              obtain rfl := Driving.set_ok.mp hset
              obtain ⟨rfl, rfl⟩ := Driving.pure_ok.mp hret
              exact .fails hlookup hwaits hstops hfails herror
        · rw [if_neg hfails] at h
          obtain ⟨rfl, rfl⟩ := Driving.pure_ok.mp h
          exact .goes hlookup hwaits hstops fun hf => absurd hf hfails
    · rw [if_pos hwaits] at h
      obtain ⟨rfl, rfl⟩ := Driving.pure_ok.mp h
      exact .waits hlookup hwaits

variable {d : List (PyStr × PendingJob)} {record : PendingJob}

theorem lookup_mem (h : d.lookup key = some record) : (key, record) ∈ d := by
  obtain ⟨before, after, hsplit, -⟩ := List.lookup_eq_some_iff.mp h
  rw [hsplit]
  exact List.mem_append_right _ List.mem_cons_self

theorem lookup_of_mem (hnodup : (d.map Prod.fst).Nodup) (h : (key, record) ∈ d) : d.lookup key = some record := by
  cases hlookup : d.lookup key with
  | some record' =>
    obtain ⟨-, rfl⟩ := Prod.mk.inj (List.inj_on_of_nodup_map hnodup h (lookup_mem hlookup) rfl)
    rfl
  | none => exact absurd (List.lookup_eq_none_iff.mp hlookup _ h) (by simp)

theorem Skipped.settling {s s' : DriverState} (h : Skipped s key true s') : Settling s s' {key} := by
  cases h with
  | stops h => exact settling_stop (mem_keys.mpr ⟨_, lookup_mem h⟩)
  | fails h => exact settling_poison (mem_keys.mpr ⟨_, lookup_mem h⟩)

theorem Skipped.same {s s' : DriverState} (h : Skipped s key false s') : s' = s := by
  cases h with
  | absent => rfl
  | waits => rfl
  | goes => rfl

theorem Settling.length_lt {s s' : DriverState} (h : Settling s s' {key}) : s'.pending.length < s.pending.length := by
  obtain ⟨record, hrecord⟩ := DriverState.mem_keys.mp (h.inKeys key (Finset.mem_singleton_self key))
  rw [h.pending]
  exact List.length_filter_lt_length_iff_exists.mpr ⟨_, hrecord, by simp⟩

section Skips

variable {P : DriverState → Prop}

variable {s s' : DriverState}

theorem settlePass_ok (hstep : ∀ t key t', P t → Skipped t key true t' → P t') {keys : List PyStr}
    {changed : Bool} (h : settlePass keys s = .ok changed s') (hs : P s) :
    P s' ∧ s'.pending.length ≤ s.pending.length ∧ s'.stopJobflow = s.stopJobflow
      ∧ (changed = true → s'.pending.length < s.pending.length)
      ∧ (changed = false → s' = s ∧ ∀ key ∈ keys, Skipped s key false s) := by
  induction keys generalizing s changed with
  | nil =>
    obtain ⟨rfl, rfl⟩ := Driving.pure_ok.mp h
    exact ⟨hs, le_refl _, rfl, fun h => absurd h Bool.false_ne_true,
      fun _ => ⟨rfl, fun _ h => absurd h List.not_mem_nil⟩⟩
  | cons key keys ih =>
    rw [settlePass] at h
    obtain ⟨first, t, hfirst, h⟩ := Driving.bind_ok.mp h
    obtain ⟨later, t', hlater, h⟩ := Driving.bind_ok.mp h
    obtain ⟨rfl, rfl⟩ := Driving.pure_ok.mp h
    have hskipped := settleSkip_ok hfirst
    cases first with
    | false =>
      obtain rfl := hskipped.same
      obtain ⟨hP, hle, hstop, hlt, hquiet⟩ := ih hlater hs
      refine ⟨hP, hle, hstop, hlt, fun hchanged => ?_⟩
      obtain ⟨hsame, hall⟩ := hquiet hchanged
      exact ⟨hsame, List.forall_mem_cons.mpr ⟨hskipped, hall⟩⟩
    | true =>
      have hless := hskipped.settling.length_lt
      have hstop' : t.stopJobflow = s.stopJobflow := by
        cases hskipped with
        | stops => rfl
        | fails => rfl
      obtain ⟨hP, hle, hstop, -, -⟩ := ih hlater (hstep s key t hs hskipped)
      exact ⟨hP, hle.trans hless.le, hstop.trans hstop', fun _ => hle.trans_lt hless,
        fun h => absurd h Bool.true_eq_false.mp⟩

theorem settleLoop_ok (hstep : ∀ t key t', P t → Skipped t key true t' → P t') {n : ℕ}
    {u : Unit} (h : settleLoop n s = .ok u s') (hs : P s)
    (hn : s.pending.length < n) :
    P s' ∧ s'.stopJobflow = s.stopJobflow ∧ ∀ key ∈ s'.keys, Skipped s' key false s' := by
  induction n generalizing s with
  | zero => exact absurd hn (Nat.not_lt_zero _)
  | succ n ih =>
    rw [settleLoop, Driving.get_bind] at h
    obtain ⟨changed, t, hpass, h⟩ := Driving.bind_ok.mp h
    obtain ⟨hP, -, hstop, hlt, hquiet⟩ := settlePass_ok hstep hpass hs
    cases changed with
    | false =>
      obtain ⟨-, rfl⟩ := Driving.pure_ok.mp h
      obtain ⟨rfl, hall⟩ := hquiet rfl
      exact ⟨hP, rfl, hall⟩
    | true =>
      obtain ⟨hP', hstop', hall⟩ := ih h hP (by have := hlt rfl; omega)
      exact ⟨hP', hstop'.trans hstop, hall⟩

/-- **What settling keeps**: what every single job's settling keeps, and stopping all. -/
theorem settleSkips_ok (hstep : ∀ t key t', P t → Skipped t key true t' → P t')
    (hall : ∀ t, P t → t.stopJobflow = true → P t.stopAllPending) {u : Unit}
    (h : settleSkips s = .ok u s') (hs : P s) :
    P s' ∧ s'.stopJobflow = s.stopJobflow ∧ (s.stopJobflow = true → s' = s.stopAllPending)
      ∧ (s.stopJobflow = false → ∀ key ∈ s'.keys, Skipped s' key false s') := by
  unfold settleSkips at h
  rw [Driving.get_bind] at h
  by_cases hstop : s.stopJobflow = true
  · rw [if_pos hstop] at h
    obtain rfl := Driving.set_ok.mp h
    exact ⟨hall s hs hstop, rfl, fun _ => rfl, fun h => absurd (hstop.symm.trans h) (by decide)⟩
  · rw [if_neg hstop] at h
    obtain ⟨hP, hsame, hquiet⟩ := settleLoop_ok hstep h hs (Nat.lt_succ_self _)
    exact ⟨hP, hsame, fun h => absurd h hstop, fun _ => hquiet⟩

end Skips

/-- **Settling skips settles jobs.** -/
theorem settleSkips_settling {s s' : DriverState} {u : Unit} (h : settleSkips s = .ok u s') :
    ∃ popped, Settling s s' popped := by
  refine (settleSkips_ok (P := fun t => ∃ popped, Settling s t popped) ?_ ?_ h ⟨∅, settling_refl s⟩).1
  · rintro t key t' ⟨popped, hpopped⟩ hskipped
    exact ⟨_, hpopped.trans hskipped.settling⟩
  · rintro t ⟨popped, hpopped⟩ -
    exact ⟨_, hpopped.trans (settling_stopAllPending t)⟩

/-! ## Adding -/

theorem append_cons_inj {x : ℕ} {a b c d : List ℕ} (hc : x ∉ c) (hd : x ∉ d)
    (h : a ++ x :: c = b ++ x :: d) : a = b := by
  obtain ⟨t, rfl, ht⟩ | ⟨t, rfl, ht⟩ := List.append_eq_append_iff.mp h
  · cases t with
    | nil => exact (List.append_nil a).symm
    | cons y t =>
      obtain ⟨rfl, rfl⟩ := List.cons.inj ht
      exact absurd (List.mem_append_right t List.mem_cons_self) hc
  · cases t with
    | nil => exact List.append_nil b
    | cons y t =>
      obtain ⟨rfl, rfl⟩ := List.cons.inj ht
      exact absurd (List.mem_append_right t List.mem_cons_self) hd

theorem jobKey_uuid {uuid uuid' : PyStr} {index index' : ℕ}
    (h : jobKey uuid index = jobKey uuid' index') : uuid = uuid' := by
  have hdigits : ∀ n : ℕ, ∀ c ∈ (toString n).toList.map Char.toNat, c ≠ ':'.toNat := by
    intro n c hc
    obtain ⟨d, hd, rfl⟩ := List.mem_map.mp hc
    have hdigit : d.isDigit = true := by
      refine Nat.isDigit_of_mem_toDigits (b := 10) (n := n) (by decide) (by decide) ?_
      simpa using hd
    intro hcolon
    have : d = ':' := Char.ext (UInt32.toNat_inj.mp hcolon)
    rw [this] at hdigit
    exact absurd hdigit (by decide)
  have hcodes : ∀ (u : PyStr) (n : ℕ), (jobKey u n).codes
      = u.codes ++ ':'.toNat :: (toString n).toList.map Char.toNat := by
    intro u n
    show u.codes ++ (":" ++ toString n).toList.map Char.toNat = _
    rw [String.toList_append, List.map_append]
    rfl
  have hboth := congrArg PyStr.codes h
  rw [hcodes, hcodes] at hboth
  have hsame := append_cons_inj (fun hc => hdigits _ _ hc rfl) (fun hc => hdigits _ _ hc rfl) hboth
  cases uuid
  cases uuid'
  exact congrArg PyStr.mk hsame

theorem nodup_keys (flow : JobFlow) : flow.keys.Nodup := by
  have huuids := List.pairwise_map.mp flow.nodup
  exact List.pairwise_map.mpr (huuids.imp fun hne hkey => hne (jobKey_uuid hkey))

def introduced (s : DriverState) (jobs : List (FlowJob × List PyStr)) : DriverState :=
  { s with
    identities := s.identities ++ jobs.map fun e => (e.fst.key, e.fst.uuid, e.fst.index)
    order := s.order ++ jobs.map fun e => e.fst.key }

def records (s : DriverState) (flow : JobFlow) (jobs : List (FlowJob × List PyStr)) :
    List (PyStr × PendingJob) :=
  jobs.map fun e => (e.fst.key, ⟨e.fst, s.parentsOf flow e, ∅⟩)

/-- **The jobs of a flow are known and pending.** -/
def added (s : DriverState) (flow : JobFlow) : DriverState :=
  { s.introduced flow.jobs with
    pending := s.pending ++ (s.introduced flow.jobs).records flow flow.jobs }

/-- **A flow that can be added**: its jobs are new, and can be encoded. -/
structure Addable (s : DriverState) (flow : JobFlow) : Prop where
  fresh : ∀ k ∈ flow.keys, k ∉ s.known
  spooled : ∀ e ∈ flow.jobs, e.fst.spooled = .ok ()

theorem known_introduced (s : DriverState) (jobs : List (FlowJob × List PyStr)) :
    (s.introduced jobs).known = s.known ++ jobs.map fun e => e.fst.key := by
  unfold known introduced
  rw [List.map_append, List.map_map]
  rfl

theorem introduce_ok {s s' : DriverState} {job : FlowJob} {u : Unit} :
    introduce job s = .ok u s' ↔ job.key ∉ s.known ∧ s' = s.introduced [(job, [])] := by
  unfold introduce
  rw [Driving.get_bind]
  by_cases h : job.key ∈ s.known
  · rw [if_pos h]
    exact ⟨fun h' => absurd h' Driving.throw_ok, fun h' => absurd h h'.1⟩
  · rw [if_neg h, Driving.set_ok]
    exact ⟨fun h' => ⟨h, h'.symm⟩, fun h' => h'.2.symm⟩

variable {jobs : List (FlowJob × List PyStr)}

theorem introduceAll_ok {s s' : DriverState} {u : PUnit} : (jobs.forM fun e => introduce e.fst) s = .ok u s'
      ↔ (∀ e ∈ jobs, e.fst.key ∉ s.known) ∧ (jobs.map fun e => e.fst.key).Nodup
        ∧ s' = s.introduced jobs := by
  induction jobs generalizing s with
  | nil =>
    have hnone : s.introduced [] = s := by
      unfold introduced
      simp
    rw [Driving.forM_nil, hnone]
    simp
  | cons e jobs ih =>
    have hsplit : (s.introduced [(e.fst, [])]).introduced jobs = s.introduced (e :: jobs) := by
      unfold introduced
      simp
    rw [Driving.forM_cons]
    constructor
    · rintro ⟨_, t, hfirst, hrest⟩
      obtain ⟨hnew, rfl⟩ := introduce_ok.mp hfirst
      obtain ⟨hnews, hnodup, rfl⟩ := ih.mp hrest
      rw [known_introduced] at hnews
      refine ⟨List.forall_mem_cons.mpr ⟨hnew, fun e' he' hk => hnews e' he' ?_⟩, ?_, hsplit⟩
      · exact List.mem_append_left _ hk
      · refine List.nodup_cons.mpr ⟨fun hmem => ?_, hnodup⟩
        obtain ⟨e', he', hk⟩ := List.mem_map.mp hmem
        exact hnews e' he' (List.mem_append_right _ (List.mem_singleton.mpr hk))
    · rintro ⟨hnews, hnodup, rfl⟩
      obtain ⟨hnew, hnews⟩ := List.forall_mem_cons.mp hnews
      obtain ⟨hnot, hnodup⟩ := List.nodup_cons.mp hnodup
      refine ⟨(), _, introduce_ok.mpr ⟨hnew, rfl⟩, ih.mpr ⟨fun e' he' hk => ?_, hnodup, hsplit.symm⟩⟩
      rw [known_introduced] at hk
      rcases List.mem_append.mp hk with hk | hk
      · exact hnews e' he' hk
      · exact hnot (List.mem_map.mpr ⟨e', he', List.mem_singleton.mp hk⟩)

variable {flow : JobFlow}

theorem scheduleAll_ok {s s' : DriverState} {u : PUnit} (hnodup : (jobs.map fun e => e.fst.key).Nodup)
    (hnew : ∀ e ∈ jobs, e.fst.key ∉ s.keys) :
    jobs.forM (schedule flow) s = .ok u s' ↔ (∀ e ∈ jobs, e.fst.spooled = .ok ())
        ∧ s' = { s with pending := s.pending ++ s.records flow jobs } := by
  induction jobs generalizing s with
  | nil =>
    rw [Driving.forM_nil]
    simp [records]
  | cons e jobs ih =>
    obtain ⟨hfirst, hnews⟩ := List.forall_mem_cons.mp hnew
    obtain ⟨hnot, hnodup⟩ := List.nodup_cons.mp hnodup
    have hassign : assign s.pending e.fst.key ⟨e.fst, s.parentsOf flow e, ∅⟩
        = s.pending ++ s.records flow [e] := if_neg hfirst
    have hstep : ∀ t u, schedule flow e s = .ok u t ↔ e.fst.spooled = .ok ()
        ∧ t = { s with pending := s.pending ++ s.records flow [e] } := by
      intro t u
      unfold schedule
      rw [Driving.get_bind]
      cases hspooled : e.fst.spooled with
      | error exc =>
        exact ⟨fun h => absurd h Driving.throw_ok, fun h => by cases h.1⟩
      | ok _ =>
        simp only [Driving.set_ok, hassign]
        exact ⟨fun h => ⟨trivial, h.symm⟩, fun h => h.2.symm⟩
    have hlater : ∀ e' ∈ jobs,
        e'.fst.key ∉ DriverState.keys { s with pending := s.pending ++ s.records flow [e] } := by
      intro e' he' hk
      unfold keys at hk
      rw [List.map_append, List.mem_append] at hk
      rcases hk with hk | hk
      · exact hnews e' he' hk
      · exact hnot (List.mem_map.mpr ⟨e', he', List.mem_singleton.mp hk⟩)
    have hsplit : ∀ t : DriverState, t = { s with pending := s.pending ++ s.records flow [e] } →
        { t with pending := t.pending ++ t.records flow jobs }
          = { s with pending := s.pending ++ s.records flow (e :: jobs) } := by
      rintro t rfl
      show ({ s with pending := s.pending ++ s.records flow [e] ++ s.records flow jobs } : DriverState) = _
      rw [List.append_assoc]
      rfl
    rw [Driving.forM_cons]
    constructor
    · rintro ⟨_, t, hscheduled, hrest⟩
      obtain ⟨hspooled, rfl⟩ := (hstep _ _).mp hscheduled
      obtain ⟨hspooleds, rfl⟩ := (ih hnodup hlater).mp hrest
      exact ⟨List.forall_mem_cons.mpr ⟨hspooled, hspooleds⟩, hsplit _ rfl⟩
    · rintro ⟨hspooled, rfl⟩
      obtain ⟨hspooled, hspooleds⟩ := List.forall_mem_cons.mp hspooled
      exact ⟨_, _, (hstep _ ()).mpr ⟨hspooled, rfl⟩, (ih hnodup hlater).mpr ⟨hspooleds, (hsplit _ rfl).symm⟩⟩

theorem addFlow_ok {s s' : DriverState} {keys : Finset PyStr} (hs : ∀ k ∈ s.keys, k ∈ s.known) :
    addFlow flow s = .ok keys s'
      ↔ s.Addable flow ∧ keys = flow.keys.toFinset ∧ s' = s.added flow := by
  have hnodup : (flow.jobs.map fun e => e.fst.key).Nodup := nodup_keys flow
  have hnew : (∀ e ∈ flow.jobs, e.fst.key ∉ s.known) → ∀ e ∈ flow.jobs, e.fst.key ∉ (s.introduced flow.jobs).keys :=
    fun h e he hk => h e he (hs _ hk)
  unfold addFlow
  rw [Driving.bind_ok]
  constructor
  · rintro ⟨_, t, hintroduced, hrest⟩
    obtain ⟨hfresh, -, rfl⟩ := introduceAll_ok.mp hintroduced
    obtain ⟨_, t', hscheduled, hret⟩ := Driving.bind_ok.mp hrest
    obtain ⟨hspooled, rfl⟩ := (scheduleAll_ok hnodup (hnew hfresh)).mp hscheduled
    obtain ⟨rfl, rfl⟩ := Driving.pure_ok.mp hret
    refine ⟨⟨fun k hk => ?_, hspooled⟩, rfl, rfl⟩
    obtain ⟨e, he, rfl⟩ := List.mem_map.mp hk
    exact hfresh e he
  · rintro ⟨⟨hfresh, hspooled⟩, rfl, rfl⟩
    have hnews : ∀ e ∈ flow.jobs, e.fst.key ∉ s.known :=
      fun e he => hfresh _ (List.mem_map_of_mem he)
    refine ⟨⟨⟩, _, introduceAll_ok.mpr ⟨hnews, hnodup, rfl⟩, Driving.bind_ok.mpr ?_⟩
    exact ⟨⟨⟩, _, (scheduleAll_ok hnodup (hnew hnews)).mpr ⟨hspooled, rfl⟩, rfl⟩

/-! ## Consistency -/

/-- **The books of the driver agree with each other.** -/
structure Consistent (s : DriverState) : Prop where
  pendingNodup : s.keys.Nodup
  identitiesNodup : s.known.Nodup
  orderNodup : s.order.Nodup
  order : ∀ k, k ∈ s.order ↔ k ∈ s.known
  known : ∀ k, k ∈ s.known ↔ k ∈ s.keys ∨ k ∈ s.settled
  apart : ∀ k ∈ s.keys, k ∉ s.settled
  waits : ∀ e ∈ s.pending, ∀ k ∈ e.snd.waits, k ∈ s.known
  named : ∀ e ∈ s.identities, e.fst = jobKey e.snd.fst e.snd.snd
  jobs : ∀ e ∈ s.pending, e.fst = e.snd.job.key

/-- **Every running job is pending.** -/
def RunningPending (s : DriverState) : Prop := ∀ k ∈ s.running, k ∈ s.keys

namespace Consistent

variable {s s' : DriverState}

theorem keys_known (h : Consistent s) {k : PyStr} (hk : k ∈ s.keys) : k ∈ s.known :=
  (h.known k).mpr (Or.inl hk)

theorem settling {popped : Finset PyStr} (h : Consistent s) (hs : Settling s s' popped) : Consistent s' where
  pendingNodup := by
    have hsub : s'.keys.Sublist s.keys := by
      unfold keys
      rw [hs.pending]
      exact List.filter_sublist.map _
    exact hsub.nodup h.pendingNodup
  identitiesNodup := by
    unfold DriverState.known
    rw [hs.identities]
    exact h.identitiesNodup
  orderNodup := hs.order ▸ h.orderNodup
  order k := by
    unfold DriverState.known
    rw [hs.order, hs.identities]
    exact h.order k
  known k := by
    have hknown : k ∈ s'.known ↔ k ∈ s.known := by
      unfold DriverState.known
      rw [hs.identities]
    rw [hknown, h.known, hs.mem_keys, hs.settled, Finset.mem_union]
    by_cases hk : k ∈ popped
    · simp [hk, hs.inKeys k hk]
    · simp [hk]
  apart k hk hk' := by
    obtain ⟨hkeys, hpopped⟩ := hs.mem_keys.mp hk
    rw [hs.settled, Finset.mem_union] at hk'
    rcases hk' with hk' | hk'
    · exact h.apart k hkeys hk'
    · exact hpopped hk'
  waits e he k hk := by
    rw [hs.pending] at he
    unfold DriverState.known
    rw [hs.identities]
    exact h.waits e (List.mem_filter.mp he).1 k hk
  named := hs.identities ▸ h.named
  jobs e he := by
    rw [hs.pending] at he
    exact h.jobs e (List.mem_filter.mp he).1

theorem marked (h : Consistent s) (running : Finset PyStr) : Consistent { s with running := running } :=
  ⟨h.pendingNodup, h.identitiesNodup, h.orderNodup, h.order, h.known, h.apart, h.waits, h.named, h.jobs⟩

theorem parentsOf_known (h : Consistent s) (flow : JobFlow) (e : FlowJob × List PyStr) {k : PyStr}
    (hk : k ∈ (s.introduced flow.jobs).parentsOf flow e) : k ∈ (s.introduced flow.jobs).known := by
  rw [known_introduced]
  unfold parentsOf at hk
  rcases Finset.mem_union.mp hk with hk | hk
  · obtain ⟨uuid, -, hlookup⟩ := List.mem_filterMap.mp (List.mem_toFinset.mp hk)
    obtain ⟨e', he', -, hkey⟩ := flow.of_lookup hlookup
    exact List.mem_append_right _ (List.mem_map.mpr ⟨e', he', hkey⟩)
  · obtain ⟨uuid, -, hlatest⟩ := List.mem_filterMap.mp (List.mem_toFinset.mp hk)
    have hmem : k ∈ s.order ++ flow.jobs.map fun e => e.fst.key :=
      List.mem_reverse.mp (List.mem_of_find?_eq_some hlatest)
    rcases List.mem_append.mp hmem with hk | hk
    · exact List.mem_append_left _ ((h.order k).mp hk)
    · exact List.mem_append_right _ hk

theorem added {flow : JobFlow} (h : Consistent s) (hadd : s.Addable flow) : Consistent (s.added flow) := by
  have hknown : (s.added flow).known = s.known ++ flow.keys := known_introduced s flow.jobs
  have hkeys : (s.added flow).keys = s.keys ++ flow.keys := by
    show (s.pending ++ (s.introduced flow.jobs).records flow flow.jobs).map Prod.fst = _
    rw [List.map_append]
    unfold records
    rw [List.map_map]
    rfl
  have hsettled : (s.added flow).settled = s.settled := rfl
  have horder : (s.added flow).order = s.order ++ flow.keys := rfl
  have hfresh : ∀ k ∈ flow.keys, k ∉ s.keys ∧ k ∉ s.settled := fun k hk =>
    ⟨fun hk' => hadd.fresh k hk (h.keys_known hk'), fun hk' => hadd.fresh k hk ((h.known k).mpr (Or.inr hk'))⟩
  constructor
  case pendingNodup =>
    rw [hkeys]
    exact h.pendingNodup.append (nodup_keys flow) fun k hk hk' => (hfresh k hk').1 hk
  case identitiesNodup =>
    rw [hknown]
    exact h.identitiesNodup.append (nodup_keys flow) fun k hk hk' => hadd.fresh k hk' hk
  case orderNodup =>
    rw [horder]
    exact h.orderNodup.append (nodup_keys flow) fun k hk hk' =>
      hadd.fresh k hk' ((h.order k).mp hk)
  case order =>
    intro k
    rw [horder, hknown, List.mem_append, List.mem_append, h.order]
  case known =>
    intro k
    rw [hknown, hkeys, hsettled, List.mem_append, List.mem_append, h.known]
    tauto
  case apart =>
    intro k hk
    rw [hkeys] at hk
    rcases List.mem_append.mp hk with hk | hk
    · exact h.apart k hk
    · exact (hfresh k hk).2
  case waits =>
    intro e he k hk
    rcases List.mem_append.mp he with he | he
    · rw [hknown]
      exact List.mem_append_left _ (h.waits e he k hk)
    · obtain ⟨e', -, rfl⟩ := List.mem_map.mp he
      refine h.parentsOf_known flow e' ?_
      simpa [PendingJob.waits] using hk
  case named =>
    intro e he
    rcases List.mem_append.mp he with he | he
    · exact h.named e he
    · obtain ⟨e', -, rfl⟩ := List.mem_map.mp he
      rfl
  case jobs =>
    intro e he
    rcases List.mem_append.mp he with he | he
    · exact h.jobs e he
    · obtain ⟨e', -, rfl⟩ := List.mem_map.mp he
      rfl

theorem mem_addBarriers {dependents : List PyStr} {added : Finset PyStr} {e : PyStr × PendingJob}
    (he : e ∈ (s.addBarriers dependents added).pending) :
    ∃ record, (e.fst, record) ∈ s.pending ∧ e.snd.job = record.job ∧ e.snd.parents = record.parents
      ∧ (e.snd.barriers = record.barriers
        ∨ (e.fst ∈ dependents ∧ e.snd.barriers = record.barriers ∪ added)) := by
  obtain ⟨e', he', rfl⟩ := List.mem_map.mp he
  by_cases hd : e'.fst ∈ dependents
  · rw [if_pos hd]
    exact ⟨e'.snd, he', rfl, rfl, Or.inr ⟨hd, rfl⟩⟩
  · rw [if_neg hd]
    exact ⟨e'.snd, he', rfl, rfl, Or.inl rfl⟩

theorem keys_addBarriers (s : DriverState) (dependents : List PyStr) (added : Finset PyStr) :
    (s.addBarriers dependents added).keys = s.keys := by
  unfold keys addBarriers
  rw [List.map_map]
  refine List.map_congr_left fun e _ => ?_
  show (if e.fst ∈ dependents then _ else e).fst = e.fst
  split_ifs
  · rfl
  · rfl

theorem addBarriers (h : Consistent s) (dependents : List PyStr) {added : Finset PyStr}
    (hadded : ∀ k ∈ added, k ∈ s.known) : Consistent (s.addBarriers dependents added) where
  pendingNodup := keys_addBarriers s dependents added ▸ h.pendingNodup
  identitiesNodup := h.identitiesNodup
  orderNodup := h.orderNodup
  order := h.order
  known k := by
    rw [keys_addBarriers]
    exact h.known k
  apart k hk := h.apart k (keys_addBarriers s dependents added ▸ hk)
  waits e he k hk := by
    obtain ⟨record, hrecord, -, hparents, hbarriers⟩ := mem_addBarriers he
    have hwaits := h.waits _ hrecord k
    unfold PendingJob.waits at hk hwaits
    rcases hbarriers with hbarriers | ⟨-, hbarriers⟩
    · rw [hparents, hbarriers] at hk
      exact hwaits hk
    · rw [hparents, hbarriers, ← Finset.union_assoc] at hk
      rcases Finset.mem_union.mp hk with hk | hk
      · exact hwaits hk
      · exact hadded k hk
  named := h.named
  jobs e he := by
    obtain ⟨record, hrecord, hjob, -, -⟩ := mem_addBarriers he
    rw [hjob]
    exact h.jobs _ hrecord

theorem blank (rootOutput : Json) : Consistent (blank rootOutput) where
  pendingNodup := List.nodup_nil
  identitiesNodup := List.nodup_nil
  orderNodup := List.nodup_nil
  order _ := Iff.rfl
  known k := by simp [DriverState.known, DriverState.blank, keys, DriverState.settled]
  apart _ hk := absurd hk List.not_mem_nil
  waits _ he := absurd he List.not_mem_nil
  named _ he := absurd he List.not_mem_nil
  jobs _ he := absurd he List.not_mem_nil

end Consistent

end DriverState
