/-!
# Labelled transition systems

Every component verified here is a set of actors taking turns on one shared
state: managers, operators, importers and the processes they start. A
`System` is that shape with nothing else in it – which states a history may
start in, and which labelled steps it may take – and this module holds the
induction every safety proof uses.

Three notions are enough. `Reachable` is what some history ends in.
`guarded` keeps only the steps that meet a condition on the state before
them, which is how "in every run whose steps all meet the condition" is
said. `Run` keeps the labels, for the statements that are about a whole
history rather than about its last state. Beside these, `observed` adds what
an observer remembers of a history, for the statements that refer back to
earlier steps.
-/

universe u v w

/-- **A labelled transition system.** -/
structure System (σ : Type u) (α : Type v) where
  /-- The states a history may start in. -/
  init : σ → Prop
  step : σ → α → σ → Prop

namespace System

variable {σ : Type u} {α : Type v}

/-- **The states some history ends in.** -/
inductive Reachable (S : System σ α) : σ → Prop where
  | init {s : σ} (h : S.init s) : Reachable S s
  | step {s : σ} {a : α} {s' : σ} (hs : Reachable S s) (h : S.step s a s') :
      Reachable S s'

/-- **A run**: the labels taken from one state to another, first one first. -/
inductive Run (S : System σ α) : σ → List α → σ → Prop where
  | nil (s : σ) : Run S s [] s
  | cons {s : σ} {a : α} {s' : σ} {as : List α} {s'' : σ}
      (h : S.step s a s') (t : Run S s' as s'') : Run S s (a :: as) s''

/-- **The system whose steps all meet a condition** on the state before the
step and the label taken there. -/
def guarded (S : System σ α) (C : σ → α → Prop) : System σ α where
  init := S.init
  step s a s' := S.step s a s' ∧ C s a

/-- **The system under other labels**, each of which stands for one of its own. -/
def relabelled {β : Type w} (S : System σ α) (label : β → α) : System σ β where
  init := S.init
  step s b s' := S.step s (label b) s'

/-- **The system of a transition function**, `none` where a label does not
apply. -/
def ofNext (init : σ → Prop) (next : σ → α → Option σ) : System σ α where
  init := init
  step s a s' := next s a = some s'

/-- A transition function and an observer, which sees every step and takes part
in none. -/
def watching {μ : Type w} (next : σ → α → Option σ) (observe : μ → σ → α → σ → μ) (p : σ × μ)
    (a : α) : Option (σ × μ) :=
  (next p.fst a).map fun s' => (s', observe p.snd p.fst a s')

/-- **The system of a transition function with an observer**, which knows nothing
at first. -/
def observed {μ : Type w} (init : σ → Prop) (next : σ → α → Option σ) (start : μ)
    (observe : μ → σ → α → σ → μ) : System (σ × μ) α :=
  ofNext (fun p => init p.fst ∧ p.snd = start) (watching next observe)

def follow (next : σ → α → Option σ) : σ → List α → Option σ
  | s, [] => some s
  | s, a :: as => (next s a).bind (follow next · as)

variable {S : System σ α}

/-- **The invariant rule**: what holds initially and is kept by every step
from a reachable state holds in every reachable state. -/
theorem Reachable.invariant {I : σ → Prop} (h₀ : ∀ s, S.init s → I s)
    (h₁ : ∀ s a s', S.Reachable s → I s → S.step s a s' → I s') {s : σ}
    (hs : S.Reachable s) : I s := by
  induction hs with
  | init h => exact h₀ _ h
  | step hs h ih => exact h₁ _ _ _ hs ih h

variable {s s' : σ}

variable {as : List α}

theorem Run.reachable (h : S.Run s as s') (hs : S.Reachable s) : S.Reachable s' := by
  induction h with
  | nil s => exact hs
  | cons h _ ih => exact ih (hs.step h)

/-- **Following a transition function** is taking a run of its system. -/
theorem run_of_follow {init : σ → Prop} {next : σ → α → Option σ}
    (h : follow next s as = some s') : (ofNext init next).Run s as s' := by
  induction as generalizing s with
  | nil =>
    rw [follow] at h
    obtain rfl := Option.some.inj h
    exact Run.nil s
  | cons a as ih =>
    rw [follow] at h
    obtain ⟨t, ht, h⟩ := Option.bind_eq_some_iff.mp h
    exact Run.cons ht (ih h)

variable {C : σ → α → Prop}

theorem Run.guarded (h : S.Run s as s') (hC : ∀ a ∈ as, ∀ t, C t a) : (S.guarded C).Run s as s' := by
  induction h with
  | nil s => exact Run.nil s
  | cons h _ ih =>
    obtain ⟨ha, has⟩ := List.forall_mem_cons.mp hC
    exact Run.cons ⟨h, ha _⟩ (ih has)

/-- A run whose guard is checked at each step. -/
theorem run_of_follow_guarded {init : σ → Prop} {next : σ → α → Option σ} [∀ s a, Decidable (C s a)]
    (h : follow (fun s a => if C s a then next s a else none) s as = some s') :
    ((ofNext init next).guarded C).Run s as s' := by
  induction as generalizing s with
  | nil =>
    rw [follow] at h
    obtain rfl := Option.some.inj h
    exact Run.nil s
  | cons a as ih =>
    rw [follow] at h
    obtain ⟨t, ht, h⟩ := Option.bind_eq_some_iff.mp h
    obtain ⟨hC, ht⟩ := Option.ite_none_right_eq_some.mp ht
    exact Run.cons ⟨ht, hC⟩ (ih h)

theorem Reachable.next {init : σ → Prop} {next : σ → α → Option σ}
    (hs : ((ofNext init next).guarded C).Reachable s) (a : α) (hC : C s a)
    (h : next s a = some s') : ((ofNext init next).guarded C).Reachable s' :=
  hs.step ⟨h, hC⟩

section Observed

variable {μ : Type w} {init : σ → Prop} {next : σ → α → Option σ} {start : μ}
variable {observe : μ → σ → α → σ → μ}

theorem watching_eq_some {p p' : σ × μ} {a : α} : watching next observe p a = some p'
      ↔ next p.fst a = some p'.fst ∧ p'.snd = observe p.snd p.fst a p'.fst := by
  unfold watching
  constructor
  · intro h
    obtain ⟨s', hs', rfl⟩ := Option.map_eq_some_iff.mp h
    exact ⟨hs', rfl⟩
  · rintro ⟨hs', hm⟩
    rw [hs', Option.map_some, ← hm]

theorem Reachable.of_observed {p : σ × μ} (hs : (observed init next start observe).Reachable p) :
    (ofNext init next).Reachable p.fst := by
  induction hs with
  | init h => exact Reachable.init h.1
  | step _ h ih => exact ih.step (watching_eq_some.mp h).1

end Observed

theorem Reachable.of_relabelled {β : Type w} {label : β → α} {s : σ}
    (hs : (S.relabelled label).Reachable s) : S.Reachable s := by
  induction hs with
  | init h => exact Reachable.init h
  | step _ h ih => exact ih.step h

theorem Run.relabelled {β : Type w} {label : β → α} {bs : List β}
    (h : S.Run s (bs.map label) s') : (S.relabelled label).Run s bs s' := by
  induction bs generalizing s with
  | nil =>
    cases h
    exact Run.nil s'
  | cons b bs ih =>
    cases h with
    | cons h t => exact Run.cons h (ih t)

theorem Reachable.of_guarded {s : σ} (hs : (S.guarded C).Reachable s) : S.Reachable s := by
  induction hs with
  | init h => exact Reachable.init h
  | step _ h ih => exact ih.step h.1

end System
