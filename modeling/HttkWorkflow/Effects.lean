/-!
# Computations that leave a trace of states

A program that crashes stops between two of its effects, so what a crash can
leave behind is the list of the states its effects produced one after the
other. `Effects σ ε α` is a computation that returns that list beside its
result, `Returns` and `Visits` are the two questions asked of it, and the
rules of this module answer them for a sequence from the answers for its
parts.

The last section is about a program that applies a list of operations and,
after a crash, applies the same list again from the start. It converges if
every operation that is over recognises itself, and every crash of the one
that was under way leaves a state from which it still reaches its end,
whatever the operations before it do once more (`Recoverable`).
-/

universe u

/-- **A computation with effects**: from a state, the states its effects
produced, in order, and what it returned or raised. -/
def Effects (σ ε α : Type u) := σ → List σ × Except ε α

namespace Effects

variable {σ ε α β : Type u}

/-- The state a computation leaves. -/
def final (x : Effects σ ε α) (s : σ) : σ := (x s).fst.getLastD s

/-- Return a value without an effect. -/
protected def pure (a : α) : Effects σ ε α := fun _ => ([], .ok a)

/-- Do one computation and, unless it raised, another. -/
protected def bind (x : Effects σ ε α) (f : α → Effects σ ε β) : Effects σ ε β := fun s =>
  match (x s).snd with
  | .ok a => ((x s).fst ++ (f a (x.final s)).fst, (f a (x.final s)).snd)
  | .error e => ((x s).fst, .error e)

instance : Monad (Effects σ ε) where
  pure := Effects.pure
  bind := Effects.bind

/-- Look at the state. -/
def current : Effects σ ε σ := fun s => ([], .ok s)

def raise (e : ε) : Effects σ ε α := fun _ => ([], .error e)

def emit (f : σ → σ) (a : α) : Effects σ ε α := fun s => ([f s], .ok a)

/-- A pure computation that may raise. -/
def ofExcept (r : Except ε α) : Effects σ ε α := fun _ => ([], r)

/-- `try … except`: go on when one of some exceptions was raised. -/
def suppress (caught : ε → Bool) (x : Effects σ ε PUnit) : Effects σ ε PUnit := fun s =>
  match (x s).snd with
  | .ok _ => x s
  | .error e => if caught e then ((x s).fst, .ok ⟨⟩) else x s

/-- `try`: what a computation returned or raised, as a value. -/
def attempt (x : Effects σ ε α) : Effects σ ε (Except ε α) := fun s => ((x s).fst, .ok (x s).snd)

/-- **The computation returns** a value and leaves a state. -/
def Returns (x : Effects σ ε α) (s : σ) (a : α) (s' : σ) : Prop :=
  (x s).snd = .ok a ∧ x.final s = s'

/-- **The computation raises** and leaves a state. -/
def Raises (x : Effects σ ε α) (s : σ) (e : ε) (s' : σ) : Prop :=
  (x s).snd = .error e ∧ x.final s = s'

/-- **A crash can leave this state**: it is the first one or one an effect
produced. -/
def Visits (x : Effects σ ε α) (s c : σ) : Prop := c ∈ s :: (x s).fst

variable {x : Effects σ ε α}

theorem Returns.unique {s s' t : σ} {a b : α} (h : x.Returns s a s') (h' : x.Returns s b t) : a = b ∧ s' = t :=
  ⟨Except.ok.inj (h.1.symm.trans h'.1), h.2.symm.trans h'.2⟩

theorem Raises.unique {s s' t : σ} {e e' : ε} (h : x.Raises s e s') (h' : x.Raises s e' t) : e = e' ∧ s' = t :=
  ⟨Except.error.inj (h.1.symm.trans h'.1), h.2.symm.trans h'.2⟩

variable {e : ε} {a : α}

theorem Returns.not_raises {s s' t : σ} (h : x.Returns s a s') : ¬x.Raises s e t := by
  rintro ⟨h', -⟩
  rw [h.1] at h'
  cases h'

/-! What is asked of a computation is asked of it from one state. -/

variable {s s' : σ}

theorem returns_congr {x y : Effects σ ε α} (h : x s = y s) : x.Returns s a s' ↔ y.Returns s a s' := by
  show (x s).snd = .ok a ∧ (x s).fst.getLastD s = s' ↔ (y s).snd = .ok a ∧ (y s).fst.getLastD s = s'
  rw [h]

theorem raises_congr {x y : Effects σ ε α} (h : x s = y s) : x.Raises s e s' ↔ y.Raises s e s' := by
  show (x s).snd = .error e ∧ (x s).fst.getLastD s = s' ↔ (y s).snd = .error e ∧ (y s).fst.getLastD s = s'
  rw [h]

theorem visits_congr {x y : Effects σ ε α} {s c : σ} (h : x s = y s) : x.Visits s c ↔ y.Visits s c := by
  show c ∈ s :: (x s).fst ↔ c ∈ s :: (y s).fst
  rw [h]

theorem visits_start (x : Effects σ ε α) (s : σ) : x.Visits s s := List.mem_cons_self

theorem visits_take (x : Effects σ ε α) (s : σ) (n : Nat) : x.Visits s (((x s).fst.take n).getLastD s) := by
  show _ ∈ s :: (x s).fst
  cases htake : (x s).fst.take n with
  | nil => exact List.mem_cons_self
  | cons v taken =>
    refine List.mem_cons_of_mem _ (List.mem_of_mem_take (i := n) ?_)
    rw [List.getLastD_cons, htake]
    exact List.getLastD_mem_cons

theorem visits_final (x : Effects σ ε α) (s : σ) : x.Visits s (x.final s) := by
  show (x s).fst.getLastD s ∈ s :: (x s).fst
  cases h : (x s).fst with
  | nil => exact List.mem_cons_self
  | cons c l =>
    rw [List.getLastD_cons]
    exact List.mem_cons_of_mem _ (List.getLastD_mem_cons)

/-! ## The rules for sequences -/

theorem bind_ok {s : σ} (h : (x s).snd = .ok a) (f : α → Effects σ ε β) :
    (x >>= f) s = ((x s).fst ++ (f a (x.final s)).fst, (f a (x.final s)).snd) := by
  show Effects.bind x f s = _
  unfold Effects.bind
  rw [h]

theorem bind_error {s : σ} (h : (x s).snd = .error e) (f : α → Effects σ ε β) :
    (x >>= f) s = ((x s).fst, .error e) := by
  show Effects.bind x f s = _
  unfold Effects.bind
  rw [h]

theorem final_bind (x : Effects σ ε α) (f : α → Effects σ ε β) (s : σ) :
    (x >>= f).final s = match (x s).snd with
      | .ok a => (f a).final (x.final s)
      | .error _ => x.final s := by
  show List.getLastD ((x >>= f) s).fst s = _
  cases h : (x s).snd with
  | ok a =>
    rw [bind_ok h]
    show ((x s).fst ++ (f a (x.final s)).fst).getLastD s = (f a (x.final s)).fst.getLastD (x.final s)
    cases hf : (f a (x.final s)).fst with
    | nil => rw [List.append_nil]; rfl
    | cons c l => simp [List.getLastD_eq_getLast?, List.getLast?_cons]
  | error e =>
    rw [bind_error h]
    rfl

variable {f : α → Effects σ ε β}

/-- **A sequence returns** when both parts do. -/
@[simp] theorem returns_bind {s s'' : σ} {b : β} :
    (x >>= f).Returns s b s'' ↔ ∃ a s', x.Returns s a s' ∧ (f a).Returns s' b s'' := by
  show ((x >>= f) s).snd = .ok b ∧ (x >>= f).final s = s'' ↔ _
  rw [final_bind]
  cases h : (x s).snd with
  | ok a =>
    rw [bind_ok h]
    constructor
    · rintro ⟨h₁, h₂⟩
      exact ⟨a, x.final s, ⟨h, rfl⟩, h₁, h₂⟩
    · rintro ⟨a', s', ⟨h₁, rfl⟩, h₂⟩
      obtain rfl := Except.ok.inj (h.symm.trans h₁)
      exact h₂
  | error e =>
    rw [bind_error h]
    constructor
    · rintro ⟨h₁, -⟩
      cases h₁
    · rintro ⟨a', s', ⟨h₁, -⟩, -⟩
      cases h.symm.trans h₁

/-- **A sequence raises** when one part does. -/
@[simp] theorem raises_bind {s s'' : σ} : (x >>= f).Raises s e s''
      ↔ x.Raises s e s'' ∨ ∃ a s', x.Returns s a s' ∧ (f a).Raises s' e s'' := by
  show ((x >>= f) s).snd = .error e ∧ (x >>= f).final s = s'' ↔ _
  rw [final_bind]
  cases h : (x s).snd with
  | ok a =>
    rw [bind_ok h]
    constructor
    · rintro ⟨h₁, h₂⟩
      exact Or.inr ⟨a, x.final s, ⟨h, rfl⟩, h₁, h₂⟩
    · rintro (⟨h₁, -⟩ | ⟨a', s', ⟨h₁, rfl⟩, h₂⟩)
      · cases h.symm.trans h₁
      · obtain rfl := Except.ok.inj (h.symm.trans h₁)
        exact h₂
  | error e' =>
    rw [bind_error h]
    constructor
    · rintro ⟨h₁, h₂⟩
      obtain rfl := Except.error.inj h₁
      exact Or.inl ⟨h, h₂⟩
    · rintro (⟨h₁, h₂⟩ | ⟨a', s', ⟨h₁, -⟩, -⟩)
      · exact ⟨congrArg Except.error (Except.error.inj (h.symm.trans h₁)), h₂⟩
      · cases h.symm.trans h₁

/-- **A crash of a sequence** is one of its first part, or one of its second
part after the first returned. -/
theorem Visits.bind {s c : σ} (h : (x >>= f).Visits s c) :
    x.Visits s c ∨ ∃ a s', x.Returns s a s' ∧ (f a).Visits s' c := by
  have h : c ∈ s :: ((x >>= f) s).fst := h
  cases hx : (x s).snd with
  | ok a =>
    rw [bind_ok hx] at h
    have h : c ∈ s :: ((x s).fst ++ (f a (x.final s)).fst) := h
    rw [← List.cons_append, List.mem_append] at h
    rcases h with h | h
    · exact Or.inl h
    · exact Or.inr ⟨a, x.final s, ⟨hx, rfl⟩, List.mem_cons_of_mem _ h⟩
  | error e =>
    rw [bind_error hx] at h
    exact Or.inl h

theorem visits_bind {s c : σ} : (x >>= f).Visits s c
      ↔ x.Visits s c ∨ ∃ a s', x.Returns s a s' ∧ (f a).Visits s' c := by
  refine ⟨Visits.bind, fun h => ?_⟩
  show c ∈ s :: ((x >>= f) s).fst
  cases hx : (x s).snd with
  | ok a =>
    rw [bind_ok hx]
    show c ∈ s :: ((x s).fst ++ (f a (x.final s)).fst)
    rcases h with h | ⟨a', s', ⟨ha, rfl⟩, h⟩
    · rw [← List.cons_append]
      exact List.mem_append_left _ h
    · obtain rfl := Except.ok.inj (hx.symm.trans ha)
      rcases List.mem_cons.mp h with rfl | h
      · have hf := x.visits_final s
        rw [← List.cons_append]
        exact List.mem_append_left _ hf
      · exact List.mem_cons_of_mem _ (List.mem_append_right _ h)
  | error e =>
    rw [bind_error hx]
    rcases h with h | ⟨a', s', ⟨ha, -⟩, -⟩
    · exact h
    · cases hx.symm.trans ha

@[simp] theorem returns_pure {a b : α} : (pure a : Effects σ ε α).Returns s b s' ↔ a = b ∧ s = s' := by
  show (Except.ok a = Except.ok b ∧ s = s') ↔ _
  rw [Except.ok.injEq]

@[simp] theorem returns_emit {f : σ → σ} {a b : α} :
    (emit f a : Effects σ ε α).Returns s b s' ↔ a = b ∧ f s = s' := by
  show (Except.ok a = Except.ok b ∧ f s = s') ↔ _
  rw [Except.ok.injEq]

@[simp] theorem returns_raise {b : α} : ¬(raise e : Effects σ ε α).Returns s b s' := by
  rintro ⟨h, -⟩
  cases h

variable {r : Except ε α}

@[simp] theorem returns_ofExcept {b : α} : (ofExcept r : Effects σ ε α).Returns s b s' ↔ r = .ok b ∧ s = s' := Iff.rfl

@[simp] theorem raises_pure : ¬(pure a : Effects σ ε α).Raises s e s' := by
  rintro ⟨h, -⟩
  cases h

@[simp] theorem raises_emit {f : σ → σ} : ¬(emit f a : Effects σ ε α).Raises s e s' := by
  rintro ⟨h, -⟩
  cases h

@[simp] theorem raises_raise {e e' : ε} : (raise e : Effects σ ε α).Raises s e' s' ↔ e = e' ∧ s = s' := by
  show (Except.error e = Except.error e' ∧ s = s') ↔ _
  rw [Except.error.injEq]

@[simp] theorem raises_ofExcept : (ofExcept r : Effects σ ε α).Raises s e s' ↔ r = .error e ∧ s = s' := Iff.rfl

/-! Looking first only passes on what was seen. -/

theorem returns_current {s a s' : σ} : (current : Effects σ ε σ).Returns s a s' ↔ a = s ∧ s' = s :=
  ⟨fun h => ⟨(Except.ok.inj h.1).symm, h.2.symm⟩, fun h => ⟨congrArg Except.ok h.1.symm, h.2.symm⟩⟩

theorem not_raises_current : ¬(current : Effects σ ε σ).Raises s e s' :=
  fun h => by cases h.1

variable {k : σ → Effects σ ε β}

@[simp] theorem returns_current_bind {b : β} :
    ((current : Effects σ ε σ) >>= k).Returns s b s' ↔ (k s).Returns s b s' := Iff.rfl

@[simp] theorem raises_current_bind : ((current : Effects σ ε σ) >>= k).Raises s e s' ↔ (k s).Raises s e s' := Iff.rfl

@[simp] theorem visits_current_bind {s c : σ} :
    ((current : Effects σ ε σ) >>= k).Visits s c ↔ (k s).Visits s c := Iff.rfl

/-! Where a computation is run from one state, its parts are run in their order. -/

theorem run_current_bind (k : σ → Effects σ ε β) (s : σ) : ((current : Effects σ ε σ) >>= k) s = k s s := rfl

theorem run_ok_bind (a : α) (k : α → Effects σ ε β) (s : σ) :
    ((ofExcept (.ok a) : Effects σ ε α) >>= k) s = k a s := rfl

theorem run_emit_bind (f : σ → σ) (a : α) (k : α → Effects σ ε β) (s : σ) :
    ((emit f a : Effects σ ε α) >>= k) s = (f s :: (k a (f s)).fst, (k a (f s)).snd) := rfl

theorem run_bind_ok {s : σ} {l : List σ} (hx : x s = (l, .ok a))
    (k : α → Effects σ ε β) : (x >>= k) s = (l ++ (k a (l.getLastD s)).fst, (k a (l.getLastD s)).snd) := by
  rw [bind_ok (congrArg Prod.snd hx), final, hx]

theorem run_bind_error {s : σ} {l : List σ} (hx : x s = (l, .error e))
    (k : α → Effects σ ε β) : (x >>= k) s = (l, .error e) := by
  rw [bind_error (congrArg Prod.snd hx), hx]

variable {caught : ε → Bool}

section Suppress

variable {x : Effects σ ε PUnit}

theorem suppress_ok {u : PUnit} (h : (x s).snd = .ok u) (caught : ε → Bool) : (suppress caught x) s = x s := by
  unfold suppress
  rw [h]

theorem suppress_error (h : (x s).snd = .error e) (caught : ε → Bool) :
    (suppress caught x) s = if caught e = true then ((x s).fst, .ok ⟨⟩) else x s := by
  unfold suppress
  rw [h]

theorem fst_suppress (x : Effects σ ε PUnit) (s : σ) : ((suppress caught x) s).fst = (x s).fst := by
  cases h : (x s).snd with
  | ok v => rw [suppress_ok h]
  | error e =>
    rw [suppress_error h]
    split <;> rfl

theorem final_suppress (x : Effects σ ε PUnit) (s : σ) : (suppress caught x).final s = x.final s :=
  congrArg (List.getLastD · s) (fst_suppress x s)

theorem returns_suppress {u : PUnit} : (suppress caught x).Returns s u s'
      ↔ x.Returns s u s' ∨ ∃ e, caught e = true ∧ x.Raises s e s' := by
  show ((suppress caught x) s).snd = .ok u ∧ (suppress caught x).final s = s' ↔ _
  rw [final_suppress]
  cases h : (x s).snd with
  | ok v =>
    rw [suppress_ok h]
    refine ⟨Or.inl, ?_⟩
    rintro (h' | ⟨e, -, h', -⟩)
    · exact h'
    · cases h.symm.trans h'
  | error e =>
    rw [suppress_error h]
    by_cases hc : caught e = true
    · rw [if_pos hc]
      refine ⟨fun h' => Or.inr ⟨e, hc, h, h'.2⟩, ?_⟩
      rintro (⟨h', -⟩ | ⟨e', -, -, h'⟩)
      · cases h.symm.trans h'
      · exact ⟨rfl, h'⟩
    · rw [if_neg hc]
      refine ⟨Or.inl, ?_⟩
      rintro (h' | ⟨e', hc', h', -⟩)
      · exact h'
      · exact absurd (Except.error.inj (h.symm.trans h') ▸ hc') hc

theorem raises_suppress : (suppress caught x).Raises s e s' ↔ x.Raises s e s' ∧ caught e = false := by
  show ((suppress caught x) s).snd = .error e ∧ (suppress caught x).final s = s' ↔ _
  rw [final_suppress]
  cases h : (x s).snd with
  | ok v =>
    rw [suppress_ok h]
    exact ⟨fun h' => (by cases h.symm.trans h'.1), fun h' => h'.1⟩
  | error e' =>
    rw [suppress_error h]
    by_cases hc : caught e' = true
    · rw [if_pos hc]
      refine ⟨fun h' => (by cases h'.1), ?_⟩
      rintro ⟨⟨h', -⟩, hf⟩
      rw [← Except.error.inj (h.symm.trans h'), hc] at hf
      cases hf
    · rw [if_neg hc]
      refine ⟨fun h' => ⟨h', ?_⟩, fun h' => h'.1⟩
      rw [← Except.error.inj (h.symm.trans h'.1)]
      exact eq_false_of_ne_true hc

theorem visits_suppress {s c : σ} : (suppress caught x).Visits s c ↔ x.Visits s c := by
  show c ∈ s :: ((suppress caught x) s).fst ↔ c ∈ s :: (x s).fst
  rw [fst_suppress]

end Suppress

theorem returns_attempt : x.attempt.Returns s r s'
      ↔ (∃ a, r = .ok a ∧ x.Returns s a s') ∨ ∃ e, r = .error e ∧ x.Raises s e s' := by
  show Except.ok (x s).snd = .ok r ∧ x.final s = s' ↔ _
  rw [Except.ok.injEq]
  constructor
  · rintro ⟨rfl, h⟩
    cases hx : (x s).snd with
    | ok a => exact Or.inl ⟨a, rfl, hx, h⟩
    | error e => exact Or.inr ⟨e, rfl, hx, h⟩
  · rintro (⟨a, rfl, hx, h⟩ | ⟨e, rfl, hx, h⟩)
    · exact ⟨hx, h⟩
    · exact ⟨hx, h⟩

theorem raises_attempt : ¬x.attempt.Raises s e s' := by
  rintro ⟨h, -⟩
  cases h

theorem visits_pure {s c : σ} (h : (pure a : Effects σ ε α).Visits s c) : c = s :=
  List.mem_singleton.mp h

theorem visits_raise {s c : σ} (h : (raise e : Effects σ ε α).Visits s c) : c = s :=
  List.mem_singleton.mp h

theorem visits_ofExcept {s c : σ} (h : (ofExcept r : Effects σ ε α).Visits s c) : c = s :=
  List.mem_singleton.mp h

theorem visits_emit {f : σ → σ} {s c : σ} (h : (emit f a : Effects σ ε α).Visits s c) : c = s ∨ c = f s := by
  rcases List.mem_cons.mp h with h | h
  · exact Or.inl h
  · exact Or.inr (List.mem_singleton.mp h)

/-! ## A crash after some of the effects -/

/-- **The state a crash leaves** that comes after some number of the effects. -/
def stopped (x : Effects σ ε α) (s : σ) (n : Nat) : σ := ((x s).fst.take n).getLastD s

theorem visits_stopped (x : Effects σ ε α) (s : σ) (n : Nat) : x.Visits s (x.stopped s n) := visits_take x s n

theorem stopped_bind_of_le {s : σ} {n : Nat} (h : n ≤ (x s).fst.length) : (x >>= f).stopped s n = x.stopped s n := by
  show (((x >>= f) s).fst.take n).getLastD s = ((x s).fst.take n).getLastD s
  cases hx : (x s).snd with
  | ok a =>
    rw [bind_ok hx]
    exact congrArg (List.getLastD · s) (List.take_append_of_le_length h)
  | error e => rw [bind_error hx]

theorem visits_stopped_bind {n : Nat}
    (hx : x.Returns s a s') (h : (x s).fst.length ≤ n) : (f a).Visits s' ((x >>= f).stopped s n) := by
  obtain ⟨ha, rfl⟩ := hx
  have hx : x s = ((x s).fst, .ok a) := Prod.ext rfl ha
  have hrun : (x >>= f) s = ((x s).fst ++ (f a (x.final s)).fst, (f a (x.final s)).snd) := run_bind_ok hx f
  have hstop : (x >>= f).stopped s n = (f a).stopped (x.final s) (n - (x s).fst.length) := by
    unfold stopped
    rw [hrun, List.take_append, List.take_of_length_le h]
    show ((x s).fst ++ _).getLastD s = List.getLastD _ ((x s).fst.getLastD s)
    cases (f a (x.final s)).fst.take (n - (x s).fst.length) with
    | nil => rw [List.append_nil]; rfl
    | cons c l => simp [List.getLastD_eq_getLast?, List.getLast?_cons]
  rw [hstop]
  exact visits_stopped _ _ _

/-! ## Applying a list of operations, twice -/

section Redo

variable {ο : Type} (exec : ο → Effects σ ε PUnit)

/-- Apply a list of operations, in order. -/
def execAll : List ο → Effects σ ε PUnit
  | [] => pure ⟨⟩
  | o :: os => exec o >>= fun _ => execAll os

theorem execAll_nil : execAll exec [] = pure ⟨⟩ := rfl

theorem execAll_cons (o : ο) (os : List ο) : execAll exec (o :: os) = exec o >>= fun _ => execAll exec os := rfl

/-- **A set of states an operation recovers from**: the operations before it
stay inside it, and from all of it the operation reaches one state. -/
structure Recovers (before : List ο) (o : ο) (s' : σ) (S : σ → Prop) : Prop where
  closed : ∀ p ∈ before, ∀ t, S t → ∃ t', S t' ∧ (exec p).Returns t ⟨⟩ t'
  reaches : ∀ t, S t → (exec o).Returns t ⟨⟩ s'

/-- **An operation recoverable after others**, which have settled: whenever
it returns, it and they are settled, and every state a crash of it leaves
lies in a set it recovers from. -/
structure Recoverable (Settled : ο → σ → Prop) (before : List ο) (o : ο) : Prop where
  settles : ∀ s s', (exec o).Returns s ⟨⟩ s' → (∀ p ∈ before, Settled p s) →
    Settled o s' ∧ ∀ p ∈ before, Settled p s'
  recovers : ∀ s s' c, (exec o).Returns s ⟨⟩ s' → (∀ p ∈ before, Settled p s) →
    (exec o).Visits s c → ∃ S, S c ∧ Recovers exec before o s' S

variable {exec}

variable {os ps : List ο}

theorem returns_execAll_append {s s'' : σ} : (execAll exec (os ++ ps)).Returns s ⟨⟩ s''
      ↔ ∃ s', (execAll exec os).Returns s ⟨⟩ s' ∧ (execAll exec ps).Returns s' ⟨⟩ s'' := by
  induction os generalizing s with
  | nil =>
    constructor
    · exact fun h => ⟨s, returns_pure.mpr ⟨rfl, rfl⟩, h⟩
    · rintro ⟨s', h, h'⟩
      rw [(returns_pure.mp h).2]
      exact h'
  | cons o os ih =>
    rw [List.cons_append, execAll_cons, returns_bind]
    constructor
    · rintro ⟨u, t, ho, h⟩
      obtain ⟨s', h, h'⟩ := ih.mp h
      exact ⟨s', returns_bind.mpr ⟨u, t, ho, h⟩, h'⟩
    · rintro ⟨s', h, h'⟩
      obtain ⟨u, t, ho, h⟩ := returns_bind.mp h
      exact ⟨u, t, ho, ih.mpr ⟨s', h, h'⟩⟩

theorem raises_execAll_append {s s'' : σ} {e : ε} : (execAll exec (os ++ ps)).Raises s e s''
      ↔ (execAll exec os).Raises s e s''
        ∨ ∃ s', (execAll exec os).Returns s ⟨⟩ s' ∧ (execAll exec ps).Raises s' e s'' := by
  induction os generalizing s with
  | nil =>
    constructor
    · exact fun h => Or.inr ⟨s, returns_pure.mpr ⟨rfl, rfl⟩, h⟩
    · rintro (h | ⟨s', h, h'⟩)
      · exact absurd h raises_pure
      · rw [(returns_pure.mp h).2]
        exact h'
  | cons o os ih =>
    rw [List.cons_append, execAll_cons, raises_bind]
    constructor
    · rintro (h | ⟨u, t, ho, h⟩)
      · exact Or.inl (raises_bind.mpr (Or.inl h))
      · rcases ih.mp h with h | ⟨s', h, h'⟩
        · exact Or.inl (raises_bind.mpr (Or.inr ⟨u, t, ho, h⟩))
        · exact Or.inr ⟨s', returns_bind.mpr ⟨u, t, ho, h⟩, h'⟩
    · rintro (h | ⟨s', h, h'⟩)
      · rcases raises_bind.mp h with h | ⟨u, t, ho, h⟩
        · exact Or.inl h
        · exact Or.inr ⟨u, t, ho, ih.mpr (Or.inl h)⟩
      · obtain ⟨u, t, ho, h⟩ := returns_bind.mp h
        exact Or.inr ⟨u, t, ho, ih.mpr (Or.inr ⟨s', h, h'⟩)⟩

theorem Recovers.execAll {before : List ο} {o : ο} {s' : σ} {S : σ → Prop}
    (h : Recovers exec before o s' S) {t : σ} (ht : S t) :
    ∃ t', S t' ∧ (execAll exec before).Returns t ⟨⟩ t' := by
  have hsub : ∀ ps : List ο, (∀ p ∈ ps, p ∈ before) → ∀ t, S t →
      ∃ t', S t' ∧ (Effects.execAll exec ps).Returns t ⟨⟩ t' := by
    intro ps hps
    induction ps with
    | nil => exact fun t ht => ⟨t, ht, returns_pure.mpr ⟨rfl, rfl⟩⟩
    | cons p ps ih =>
      intro t ht
      obtain ⟨t₁, ht₁, hp⟩ := h.closed p (hps p List.mem_cons_self) t ht
      obtain ⟨t₂, ht₂, hrest⟩ := ih (fun q hq => hps q (List.mem_cons_of_mem _ hq)) t₁ ht₁
      refine ⟨t₂, ht₂, ?_⟩
      rw [execAll_cons, returns_bind]
      exact ⟨⟨⟩, t₁, hp, hrest⟩
  exact hsub before (fun _ hp => hp) t ht

theorem execAll_visits {P : σ → Prop} {os : List ο} {s s' c : σ}
    (hstep : ∀ o ∈ os, ∀ t t' d, P t → (exec o).Returns t ⟨⟩ t' → (exec o).Visits t d → P d)
    (hret : (execAll exec os).Returns s ⟨⟩ s') (hs : P s)
    (hc : (execAll exec os).Visits s c) : P c := by
  induction os generalizing s with
  | nil =>
    rw [visits_pure hc]
    exact hs
  | cons o os ih =>
    rw [execAll_cons, returns_bind] at hret
    obtain ⟨u, t, ho, hos⟩ := hret
    have hkeep := hstep o List.mem_cons_self s t
    rcases Visits.bind hc with hc | ⟨u', t', ho', hc⟩
    · exact hkeep c hs ho hc
    · obtain ⟨-, rfl⟩ := ho.unique ho'
      have ht : P t := by
        have hfin := (exec o).visits_final s
        rw [ho.2] at hfin
        exact hkeep t hs ho hfin
      exact ih (fun p hp => hstep p (List.mem_cons_of_mem _ hp)) hos ht hc

theorem execAll_redo {Settled : ο → σ → Prop}
    (hredo : ∀ o s, Settled o s → (exec o).Returns s ⟨⟩ s) {os : List ο} {s : σ}
    (hset : ∀ p ∈ os, Settled p s) : (execAll exec os).Returns s ⟨⟩ s := by
  induction os with
  | nil => exact returns_pure.mpr ⟨rfl, rfl⟩
  | cons p ps ih =>
    rw [execAll_cons, returns_bind]
    exact ⟨⟨⟩, s, hredo p s (hset p List.mem_cons_self), ih (fun q hq => hset q (List.mem_cons_of_mem _ hq))⟩

variable {rest : List ο}

theorem execAll_settles (Settled : ο → σ → Prop) (before : List ο) {s s' : σ}
    (hrec : ∀ l o r, rest = l ++ o :: r → Recoverable exec Settled (before ++ l) o)
    (hset : ∀ p ∈ before, Settled p s) (hret : (execAll exec rest).Returns s ⟨⟩ s') :
    ∀ p ∈ before ++ rest, Settled p s' := by
  induction rest generalizing before s with
  | nil =>
    obtain ⟨-, rfl⟩ := returns_pure.mp hret
    rwa [List.append_nil]
  | cons o os ih =>
    obtain ⟨u, t, ho, hos⟩ := returns_bind.mp hret
    have hthis := hrec [] o os rfl
    rw [List.append_nil] at hthis
    obtain ⟨hself, hothers⟩ := hthis.settles s t ho hset
    rw [← List.singleton_append, ← List.append_assoc]
    refine ih _ ?_ ?_ hos
    · intro l p r hsplit
      have hlater := hrec (o :: l) p r (by rw [hsplit, List.cons_append])
      rwa [List.append_assoc, List.singleton_append]
    · intro p hp
      rcases List.mem_append.mp hp with hp | hp
      · exact hothers p hp
      · exact List.mem_singleton.mp hp ▸ hself

theorem execAll_resumes (Settled : ο → σ → Prop) (before : List ο)
    (hredo : ∀ o s, Settled o s → (exec o).Returns s ⟨⟩ s) {s s' c : σ}
    (hrec : ∀ l o r, rest = l ++ o :: r → Recoverable exec Settled (before ++ l) o)
    (hset : ∀ p ∈ before, Settled p s) (hret : (execAll exec rest).Returns s ⟨⟩ s')
    (hc : (execAll exec rest).Visits s c) :
    (execAll exec (before ++ rest)).Returns c ⟨⟩ s' := by
  induction rest generalizing before s with
  | nil =>
    rw [visits_pure hc, List.append_nil]
    rw [execAll_nil, returns_pure] at hret
    rw [← hret.2]
    exact execAll_redo hredo hset
  | cons o os ih =>
    rw [execAll_cons, returns_bind] at hret
    obtain ⟨u, t, ho, hos⟩ := hret
    have hthis := hrec [] o os rfl
    rw [List.append_nil] at hthis
    rcases Visits.bind hc with hc | ⟨u', t', ho', hc⟩
    · -- the crash is inside the operation under way
      obtain ⟨S, hSc, hS⟩ := hthis.recovers s t c ho hset hc
      obtain ⟨w, hw, hbefore⟩ := hS.execAll hSc
      refine returns_execAll_append.mpr ⟨w, hbefore, ?_⟩
      rw [execAll_cons, returns_bind]
      exact ⟨⟨⟩, t, hS.reaches w hw, hos⟩
    · -- the operation is over, and one of those before the crash
      obtain ⟨-, rfl⟩ := ho.unique ho'
      obtain ⟨hself, hothers⟩ := hthis.settles s t ho hset
      have hcons : before ++ o :: os = (before ++ [o]) ++ os := by
        rw [List.append_assoc, List.singleton_append]
      rw [hcons]
      refine ih _ ?_ ?_ hos hc
      · intro l p r hsplit
        have := hrec (o :: l) p r (by rw [hsplit, List.cons_append])
        rw [List.append_assoc, List.singleton_append]
        exact this
      · intro p hp
        rcases List.mem_append.mp hp with hp | hp
        · exact hothers p hp
        · rw [List.mem_singleton.mp hp]
          exact hself

end Redo

/-! ## A list of plain effects -/

section Puts

variable {ο : Type} (put : ο → σ → σ)

def puts (os : List ο) : Effects σ ε PUnit := execAll (fun o => emit (put o) ⟨⟩) os

theorem run_puts_cons (o : ο) (os : List ο) (s : σ) : (puts put (o :: os) : Effects σ ε PUnit) s
    = (put o s :: (puts put os (put o s) : List σ × Except ε PUnit).fst, (puts put os (put o s)).snd) := rfl

theorem length_puts (os : List ο) (s : σ) : ((puts put os : Effects σ ε PUnit) s).fst.length = os.length := by
  induction os generalizing s with
  | nil => rfl
  | cons o os ih => rw [run_puts_cons, List.length_cons, List.length_cons, ih]

theorem stopped_puts (os : List ο) (s : σ) (n : Nat) :
    (puts put os : Effects σ ε PUnit).stopped s n = (os.take n).foldl (fun s o => put o s) s := by
  induction os generalizing s n with
  | nil => rw [List.take_nil]; cases n <;> rfl
  | cons o os ih =>
    cases n with
    | zero => rfl
    | succ n =>
      rw [List.take_succ_cons, List.foldl_cons, ← ih]
      unfold stopped
      rw [run_puts_cons, List.take_succ_cons, List.getLastD_cons]

theorem returns_puts (os : List ο) (s : σ) :
    (puts put os : Effects σ ε PUnit).Returns s ⟨⟩ (os.foldl (fun s o => put o s) s) := by
  induction os generalizing s with
  | nil => exact returns_pure.mpr ⟨rfl, rfl⟩
  | cons o os ih => exact returns_bind.mpr ⟨⟨⟩, put o s, returns_emit.mpr ⟨rfl, rfl⟩, ih (put o s)⟩

end Puts

end Effects
