import HttkWorkflow.Effects

/-!
# Rules of crash triples

A program that may stop between any two effects is specified by three
conditions: what holds before it, what holds after it returned, and what
holds of every state a crash can leave. `Crashing P x Q C` says all three
of a computation with effects, and `Total P x` that it returns. Each has
one rule for each way a computation is put together, so that a proof about
a program follows the program.

Both kinds of triple are about every state that meets the precondition. A
look at the state is therefore passed on by fixing the state that was seen
(`Crashing.look`, `Total.look`).

A program whose exceptions its caller may catch goes on from the state it
raised in. `Ending P x Q E` says what holds there, too.
-/

universe u

namespace Effects

variable {σ ε α β : Type u}

/-- **The crash triple**: from a state with `P`, every state a crash can leave has
`C`, and a value is returned in a state with `Q` only. -/
def Crashing (P : σ → Prop) (x : Effects σ ε α) (Q : α → σ → Prop) (C : σ → Prop) : Prop :=
  ∀ s, P s → (∀ c, x.Visits s c → C c) ∧ ∀ a s', x.Returns s a s' → Q a s'

/-- **The total triple**: from a state with `P`, the computation returns. What holds then
is for the crash triple to say. -/
def Total (P : σ → Prop) (x : Effects σ ε α) : Prop := ∀ s, P s → ∃ a s', x.Returns s a s'

variable {P S C C' : σ → Prop} {Q Q' : α → σ → Prop} {R : β → σ → Prop}

namespace Crashing

theorem conseq {x : Effects σ ε α} (h : Crashing P x Q C) (hP : ∀ s, S s → P s)
    (hQ : ∀ a s, Q a s → Q' a s) (hC : ∀ s, C s → C' s) : Crashing S x Q' C' := by
  intro s hs
  obtain ⟨hvisits, hreturns⟩ := h s (hP s hs)
  exact ⟨fun c hc => hC c (hvisits c hc), fun a s' ha => hQ a s' (hreturns a s' ha)⟩

theorem ret {a : α} (hC : ∀ s, P s → C s) (hQ : ∀ s, P s → Q a s) : Crashing P (pure a : Effects σ ε α) Q C := by
  intro s hs
  refine ⟨fun c hc => visits_pure hc ▸ hC s hs, fun b s' hb => ?_⟩
  obtain ⟨rfl, rfl⟩ := returns_pure.mp hb
  exact hQ s hs

theorem throw {e : ε} (hC : ∀ s, P s → C s) : Crashing P (raise e : Effects σ ε α) Q C := by
  intro s hs
  exact ⟨fun c hc => visits_raise hc ▸ hC s hs, fun b s' hb => absurd hb returns_raise⟩

theorem check {r : Except ε α} (hC : ∀ s, P s → C s) (hQ : ∀ a s, r = .ok a → P s → Q a s) :
    Crashing P (ofExcept r : Effects σ ε α) Q C := by
  intro s hs
  refine ⟨fun c hc => visits_ofExcept hc ▸ hC s hs, fun a s' ha => ?_⟩
  obtain ⟨hr, rfl⟩ := returns_ofExcept.mp ha
  exact hQ a s hr hs

/-- **One effect**: a crash comes before it or after it. -/
theorem once {f : σ → σ} {a : α} (hC : ∀ s, P s → C s) (hC' : ∀ s, P s → C (f s))
    (hQ : ∀ s, P s → Q a (f s)) : Crashing P (emit f a : Effects σ ε α) Q C := by
  intro s hs
  refine ⟨fun c hc => ?_, fun b s' hb => ?_⟩
  · rcases visits_emit hc with rfl | rfl
    · exact hC c hs
    · exact hC' s hs
  · obtain ⟨rfl, rfl⟩ := returns_emit.mp hb
    exact hQ s hs

/-- **The rule for sequences.** -/
theorem seq {x : Effects σ ε β} {f : β → Effects σ ε α} (hx : Crashing P x R C)
    (hf : ∀ b, Crashing (R b) (f b) Q C) : Crashing P (x >>= f) Q C := by
  intro s hs
  obtain ⟨hvisits, hreturns⟩ := hx s hs
  refine ⟨fun c hc => ?_, fun a s'' ha => ?_⟩
  · rcases Visits.bind hc with hc | ⟨b, s', hb, hc⟩
    · exact hvisits c hc
    · exact (hf b s' (hreturns b s' hb)).1 c hc
  · obtain ⟨b, s', hb, ha⟩ := returns_bind.mp ha
    exact (hf b s' (hreturns b s' hb)).2 a s'' ha

theorem look {k : σ → Effects σ ε α} (hk : ∀ d, P d → Crashing (· = d) (k d) Q C) :
    Crashing P ((current : Effects σ ε σ) >>= k) Q C := by
  intro s hs
  obtain ⟨hvisits, hreturns⟩ := hk s hs s rfl
  exact ⟨fun c hc => hvisits c (visits_current_bind.mp hc), fun a s' ha => hreturns a s' (returns_current_bind.mp ha)⟩

/-- **Operations that keep a property** keep it in a list of them. -/
theorem all {ο : Type} {exec : ο → Effects σ ε PUnit} {os : List ο}
    (h : ∀ o ∈ os, Crashing P (exec o) (fun _ => P) P) :
    Crashing P (execAll exec os) (fun _ => P) P := by
  induction os with
  | nil => exact ret (fun _ hs => hs) (fun _ hs => hs)
  | cons o os ih =>
    exact (h o List.mem_cons_self).seq fun _ => ih fun p hp => h p (List.mem_cons_of_mem _ hp)

end Crashing

namespace Total

theorem weaken {x : Effects σ ε α} (h : Total P x) (hP : ∀ s, S s → P s) : Total S x :=
  fun s hs => h s (hP s hs)

variable {a : α}

theorem ret : Total P (pure a : Effects σ ε α) :=
  fun s _ => ⟨a, s, returns_pure.mpr ⟨rfl, rfl⟩⟩

theorem check {r : Except ε α} (hr : r = .ok a) : Total P (ofExcept r : Effects σ ε α) :=
  fun s _ => ⟨a, s, returns_ofExcept.mpr ⟨hr, rfl⟩⟩

theorem once {f : σ → σ} : Total P (emit f a : Effects σ ε α) :=
  fun s _ => ⟨a, f s, returns_emit.mpr ⟨rfl, rfl⟩⟩

/-- **The rule for sequences**: the crash triple of the first part tells where the second
one starts. -/
theorem seq {x : Effects σ ε β} {f : β → Effects σ ε α} (hx : Total P x) (hc : Crashing P x R C)
    (hf : ∀ b, Total (R b) (f b)) : Total P (x >>= f) := by
  intro s hs
  obtain ⟨b, s', hb⟩ := hx s hs
  obtain ⟨a, s'', ha⟩ := hf b s' ((hc s hs).2 b s' hb)
  exact ⟨a, s'', returns_bind.mpr ⟨b, s', hb, ha⟩⟩

theorem look {k : σ → Effects σ ε α} (hk : ∀ d, P d → Total (· = d) (k d)) :
    Total P ((current : Effects σ ε σ) >>= k) := by
  intro s hs
  obtain ⟨a, s', ha⟩ := hk s hs s rfl
  exact ⟨a, s', returns_current_bind.mpr ha⟩

/-- **Operations that keep a property** can be done one after the other. -/
theorem all {ο : Type} {exec : ο → Effects σ ε PUnit} {os : List ο}
    (h : ∀ o ∈ os, Total P (exec o)) (hc : ∀ o ∈ os, Crashing P (exec o) (fun _ => P) C) :
    Total P (execAll exec os) := by
  induction os with
  | nil => exact ret
  | cons o os ih =>
    exact (h o List.mem_cons_self).seq (hc o List.mem_cons_self) fun _ =>
      ih (fun p hp => h p (List.mem_cons_of_mem _ hp)) fun p hp => hc p (List.mem_cons_of_mem _ hp)

theorem effects {ο : Type} {put : ο → σ → σ} {os : List ο} :
    Total P (execAll (fun o => emit (put o) ⟨⟩ : ο → Effects σ ε PUnit) os) := fun s _ =>
  all (P := fun _ => True) (C := fun _ => True) (fun _ _ => once)
    (fun _ _ => Crashing.once (fun _ _ => trivial) (fun _ _ => trivial) fun _ _ => trivial) s trivial

end Total

/-- **A list of operations that ends with one** establishes what that one establishes. -/
theorem Crashing.last {ο : Type} {exec : ο → Effects σ ε PUnit} {os : List ο} {o : ο}
    {Q : PUnit → σ → Prop} (h : ∀ p ∈ os, Crashing P (exec p) (fun _ => P) C)
    (ho : Crashing P (exec o) Q C) :
    Crashing P (execAll exec (os ++ [o])) Q C := by
  induction os with
  | nil =>
    rw [List.nil_append, execAll_cons]
    intro s hs
    obtain ⟨hvisits, hreturns⟩ := ho s hs
    refine ⟨fun c hc => ?_, fun a s' ha => ?_⟩
    · rcases Visits.bind hc with hc | ⟨u, t, hu, hc⟩
      · exact hvisits c hc
      · rw [visits_pure hc]
        exact hvisits t (hu.2 ▸ (exec o).visits_final s)
    · obtain ⟨u, t, hu, ha⟩ := returns_bind.mp ha
      obtain ⟨-, rfl⟩ := returns_pure.mp ha
      exact hreturns u t hu
  | cons p os ih =>
    exact (h p List.mem_cons_self).seq fun _ => ih fun q hq => h q (List.mem_cons_of_mem _ hq)

/-! ## Exceptions that are caught -/

/-- **The triple of a computation that may be caught**: from a state with `P`, a value is returned in a
state with `Q` only, and an exception is raised in one with `E` only. -/
def Ending (P : σ → Prop) (x : Effects σ ε α) (Q : α → σ → Prop) (E : σ → Prop) : Prop :=
  ∀ s, P s → (∀ a s', x.Returns s a s' → Q a s') ∧ ∀ e s', x.Raises s e s' → E s'

namespace Ending

variable {E E' : σ → Prop}

variable {x : Effects σ ε α}

theorem conseq (h : Ending P x Q E) (hP : ∀ s, S s → P s) (hQ : ∀ a s, Q a s → Q' a s)
    (hE : ∀ s, E s → E' s) : Ending S x Q' E' := by
  intro s hs
  obtain ⟨hreturns, hraises⟩ := h s (hP s hs)
  exact ⟨fun a s' ha => hQ a s' (hreturns a s' ha), fun e s' he => hE s' (hraises e s' he)⟩

theorem ret {a : α} (hQ : ∀ s, P s → Q a s) : Ending P (pure a : Effects σ ε α) Q E := by
  intro s hs
  refine ⟨fun b s' hb => ?_, fun e s' he => absurd he raises_pure⟩
  obtain ⟨rfl, rfl⟩ := returns_pure.mp hb
  exact hQ s hs

theorem throw {e : ε} (hE : ∀ s, P s → E s) : Ending P (raise e : Effects σ ε α) Q E := by
  intro s hs
  refine ⟨fun b s' hb => absurd hb returns_raise, fun e' s' he => ?_⟩
  obtain ⟨rfl, rfl⟩ := raises_raise.mp he
  exact hE s hs

theorem check {r : Except ε α} (hQ : ∀ a s, r = .ok a → P s → Q a s)
    (hE : ∀ e s, r = .error e → P s → E s) : Ending P (ofExcept r : Effects σ ε α) Q E := by
  intro s hs
  refine ⟨fun a s' ha => ?_, fun e s' he => ?_⟩
  · obtain ⟨hr, rfl⟩ := returns_ofExcept.mp ha
    exact hQ a s hr hs
  · obtain ⟨hr, rfl⟩ := raises_ofExcept.mp he
    exact hE e s hr hs

theorem once {f : σ → σ} {a : α} (hQ : ∀ s, P s → Q a (f s)) : Ending P (emit f a : Effects σ ε α) Q E := by
  intro s hs
  refine ⟨fun b s' hb => ?_, fun e s' he => absurd he raises_emit⟩
  obtain ⟨rfl, rfl⟩ := returns_emit.mp hb
  exact hQ s hs

/-- **The rule for sequences.** -/
theorem seq {x : Effects σ ε β} {f : β → Effects σ ε α} (hx : Ending P x R E)
    (hf : ∀ b, Ending (R b) (f b) Q E) : Ending P (x >>= f) Q E := by
  intro s hs
  obtain ⟨hreturns, hraises⟩ := hx s hs
  refine ⟨fun a s'' ha => ?_, fun e s'' he => ?_⟩
  · obtain ⟨b, s', hb, ha⟩ := returns_bind.mp ha
    exact (hf b s' (hreturns b s' hb)).1 a s'' ha
  · rcases raises_bind.mp he with he | ⟨b, s', hb, he⟩
    · exact hraises e s'' he
    · exact (hf b s' (hreturns b s' hb)).2 e s'' he

theorem look {k : σ → Effects σ ε α} (hk : ∀ d, P d → Ending (· = d) (k d) Q E) :
    Ending P ((current : Effects σ ε σ) >>= k) Q E := fun s hs => hk s hs s rfl

/-- **Catching** turns what holds where it raised into what holds of the exception. -/
theorem tried (h : Ending P x Q E) : Ending P x.attempt
    (fun r s => match r with
      | .ok a => Q a s
      | .error _ => E s) E' := by
  intro s hs
  obtain ⟨hreturns, hraises⟩ := h s hs
  refine ⟨fun r s' hr => ?_, fun e s' he => absurd he raises_attempt⟩
  rcases returns_attempt.mp hr with ⟨a, rfl, ha⟩ | ⟨e, rfl, he⟩
  · exact hreturns a s' ha
  · exact hraises e s' he

theorem result {s : σ} (h : Ending P x Q E) (hs : P s) :
    match (x s).snd with
    | .ok a => Q a (x.final s)
    | .error _ => E (x.final s) := by
  obtain ⟨hreturns, hraises⟩ := h s hs
  split
  · rename_i a ha
    exact hreturns a _ ⟨ha, rfl⟩
  · rename_i e he
    exact hraises e _ ⟨he, rfl⟩

end Ending

/-- **A property that is kept**, whether the computation returns or raises. -/
def Keeping (P : σ → Prop) (x : Effects σ ε α) : Prop := Ending P x (fun _ => P) P

namespace Keeping

theorem ret {a : α} : Keeping P (pure a : Effects σ ε α) := Ending.ret fun _ h => h

theorem throw {e : ε} : Keeping P (raise e : Effects σ ε α) := Ending.throw fun _ h => h

theorem check {r : Except ε α} : Keeping P (ofExcept r : Effects σ ε α) :=
  Ending.check (fun _ _ _ h => h) fun _ _ _ h => h

theorem once {f : σ → σ} {a : α} (hf : ∀ s, P s → P (f s)) : Keeping P (emit f a : Effects σ ε α) := Ending.once hf

theorem seq {x : Effects σ ε β} {f : β → Effects σ ε α} (hx : Keeping P x) (hf : ∀ b, Keeping P (f b)) :
    Keeping P (x >>= f) := Ending.seq hx hf

theorem look {k : σ → Effects σ ε α} (hk : ∀ d, P d → Keeping P (k d)) :
    Keeping P ((current : Effects σ ε σ) >>= k) := fun s hs => hk s hs s hs

variable {x : Effects σ ε α}

theorem final {s : σ} (h : Keeping P x) (hs : P s) : P (x.final s) := by
  have hresult := Ending.result h hs
  split at hresult <;> exact hresult

theorem tried (h : Keeping P x) : Keeping P x.attempt := by
  refine (Ending.tried h).conseq (fun _ hs => hs) (fun r s hr => ?_) fun _ hs => hs
  cases r with
  | ok a => exact hr
  | error e => exact hr

end Keeping

end Effects
