import HttkWorkflow.PyValue

/-!
# Exceptions

What a pass over the workspace survives is decided by the classes its
`except` clauses name, so an exception is modelled by its class and the
message it carries. The classes are those of `errors.py` together with
the built-in ones its code can meet; `isWorkflowError`, `isOSError` and
`isValueError` are the subclass tests the clauses make.

A message is kept as the pieces it is formatted from. That is enough to
compare texts, and it says whether the text can be encoded once it is
stored in a record: a piece interpolated with `!r` always can, a piece
interpolated as it stands only if its own string can.
-/

/-- **One piece of a formatted message.** -/
inductive MessagePart where
  /-- Literal text of the format string. -/
  | lit (s : String)
  /-- A string interpolated as it stands. -/
  | raw (s : PyStr)
  /-- A value interpolated with `!r`; an absent member reads as `None`. -/
  | repr (value : Option Json)
  /-- A number. -/
  | num (n : Int)
  | path (parts : List PyStr)
deriving Repr

/-- **A formatted message**, as its pieces in order. -/
abbrev Message := List MessagePart

/-- Whether a message piece encodes: `repr` escapes what does not print. -/
def MessagePart.encodable : MessagePart → Bool
  | .lit _ => true
  | .raw s => s.encodable
  | .repr _ => true
  | .num _ => true
  | .path parts => parts.all PyStr.encodable

/-- **Whether a message can be stored**, that is, encoded to UTF-8. -/
def Message.encodable (m : Message) : Bool := m.all MessagePart.encodable

/-- The exception classes of `errors.py` and the built-in ones met here. -/
inductive ExcClass where
  | formatError
  | workspaceUnavailable
  | workspaceCorruption
  | transitionLost
  | unsupportedExtension
  | transaction
  | runnerResolution
  | sealed
  | osError
  | valueError
  | unicodeEncode
  | typeError
  | overflow
  | recursion
  | notImplemented
deriving DecidableEq, Repr

namespace ExcClass

/-- `except WorkflowError`. -/
def isWorkflowError : ExcClass → Bool
  | formatError | workspaceUnavailable | workspaceCorruption | transitionLost
  | unsupportedExtension | transaction | runnerResolution => true
  | _ => false

/-- `except OSError`. -/
def isOSError : ExcClass → Bool
  | osError => true
  | _ => false

/-- `except ValueError`: a `FormatError` is also a `ValueError`. -/
def isValueError : ExcClass → Bool
  | formatError | valueError | unicodeEncode => true
  | _ => false

end ExcClass

/-- **A raised exception.** -/
structure Exc where
  cls : ExcClass
  /-- Its text. -/
  message : Message
deriving Repr

/-- `raise FormatError(…)`. -/
def raiseFormat {β : Type} (m : Message) : Except Exc β := .error ⟨.formatError, m⟩

/-- `raise TransactionError(…)`. -/
def raiseTransaction {β : Type} (m : Message) : Except Exc β :=
  .error ⟨.transaction, m⟩

theorem bind_eq_ok {ε β γ : Type} {x : Except ε β} {f : β → Except ε γ} {c : γ} :
    (x >>= f) = .ok c ↔ ∃ b, x = .ok b ∧ f b = .ok c := by
  cases x with
  | error e => exact ⟨fun h => (by cases h), fun ⟨b, h, _⟩ => (by cases h)⟩
  | ok b => exact ⟨fun h => ⟨b, rfl, h⟩, fun ⟨b', h, h'⟩ => Except.ok.inj h ▸ h'⟩

theorem map_eq_ok {ε β γ : Type} {x : Except ε β} {f : β → γ} {c : γ} :
    x.map f = .ok c ↔ ∃ b, x = .ok b ∧ f b = c := by
  cases x with
  | error e => exact ⟨fun h => (by cases h), fun ⟨b, h, _⟩ => (by cases h)⟩
  | ok b => exact ⟨fun h => ⟨b, rfl, Except.ok.inj h⟩, fun ⟨b', h, h'⟩ => congrArg Except.ok (Except.ok.inj h ▸ h')⟩

theorem forM_eq_ok {ε α : Type} {check : α → Except ε Unit} {l : List α} :
    l.forM check = .ok () ↔ ∀ a ∈ l, check a = .ok () := by
  induction l with
  | nil => exact iff_of_true rfl fun a ha => absurd ha List.not_mem_nil
  | cons b l ih =>
    refine bind_eq_ok.trans ⟨?_, fun h => ⟨(), h b List.mem_cons_self, ih.mpr fun a ha => h a (List.mem_cons_of_mem _ ha)⟩⟩
    rintro ⟨u, hb, hl⟩ a ha
    rcases List.mem_cons.mp ha with rfl | ha
    · exact hb
    · exact ih.mp hl a ha

theorem guard_eq_ok {β : Type} {p : Prop} [Decidable p] {m : Message} {x : Except Exc β} {b : β} :
    (if p then raiseFormat m else x) = .ok b ↔ ¬p ∧ x = .ok b := by
  split_ifs with hp
  · exact ⟨fun h => (by cases h), fun h => absurd hp h.1⟩
  · exact ⟨fun h => ⟨hp, h⟩, fun h => h.2⟩

@[simp] theorem toOption_eq_some {ε β : Type} {x : Except ε β} {b : β} : x.toOption = some b ↔ x = .ok b := by
  cases x with
  | error e => exact ⟨fun h => (by cases h), fun h => (by cases h)⟩
  | ok b' => exact ⟨fun h => congrArg Except.ok (Option.some.inj h), fun h => congrArg some (Except.ok.inj h)⟩

@[simp] theorem toOption_join_eq_some {ε β : Type} {x : Except ε (Option β)} {b : β} :
    x.toOption.join = some b ↔ x = .ok (some b) := by
  rw [Option.join_eq_some_iff, toOption_eq_some]

/-- **The invariant rule of a loop** that may raise: what each round keeps holds after it. -/
theorem foldlM_invariant {β σ : Type} {f : σ → β → Except Exc σ} {P : σ → Prop} {items : List β}
    (hround : ∀ s, ∀ item ∈ items, ∀ s', P s → f s item = .ok s' → P s') {s s' : σ} (hs : P s)
    (h : items.foldlM f s = .ok s') : P s' := by
  induction items generalizing s with
  | nil => exact Except.ok.inj h ▸ hs
  | cons item items ih =>
    rw [List.foldlM_cons] at h
    obtain ⟨t, ht, h⟩ := bind_eq_ok.mp h
    refine ih (fun u other hother => hround u other (List.mem_cons_of_mem _ hother)) ?_ h
    exact hround s item List.mem_cons_self t hs ht

/-! ## What a caller handles -/

/-- **An exception its caller handles**: a `WorkflowError` or an `OSError`,
with a text that can be stored in the record made of it. -/
def Exc.Handled (e : Exc) : Prop :=
  (e.cls.isWorkflowError = true ∨ e.cls.isOSError = true) ∧ Message.encodable e.message = true

/-- **A check that ensures a postcondition**: what it returns meets it, and it
raises only what its caller handles. -/
def Ensures {β : Type} (x : Except Exc β) (P : β → Prop) : Prop :=
  match x with
  | .ok b => P b
  | .error e => e.Handled

section Ensures

variable {β γ : Type} {x : Except Exc β} {P P' : β → Prop} {Q : γ → Prop}

@[simp] theorem ensures_ok {b : β} : Ensures (.ok b) P ↔ P b := Iff.rfl

@[simp] theorem ensures_error {e : Exc} : Ensures (.error e) P ↔ e.Handled := Iff.rfl

theorem ensures_raiseFormat {m : Message} (hm : m.encodable = true) :
    Ensures (raiseFormat m : Except Exc β) P := ⟨Or.inl rfl, hm⟩

theorem Ensures.of_ok {b : β} (h : Ensures x P) (hx : x = .ok b) : P b := by
  rw [hx] at h
  exact h

theorem Ensures.of_error {e : Exc} (h : Ensures x P) (hx : x = .error e) : e.Handled := by
  rw [hx] at h
  exact h

theorem Ensures.imp (h : Ensures x P) (himp : ∀ b, P b → P' b) : Ensures x P' := by
  cases x with
  | ok b => exact himp b h
  | error e => exact h

variable {f : β → Except Exc γ}

/-- **The rule of sequence**: each part ensures what the next one needs. -/
theorem Ensures.bind (hx : Ensures x P) (hf : ∀ b, P b → Ensures (f b) Q) : Ensures (x >>= f) Q := by
  cases x with
  | ok b => exact hf b hx
  | error e => exact hx

theorem Ensures.map {f : β → γ} (hx : Ensures x P) (hf : ∀ b, P b → Q (f b)) : Ensures (x.map f) Q := by
  cases x with
  | ok b => exact hf b hx
  | error e => exact hx

theorem ensures_mapM {items : List β}
    (h : ∀ item ∈ items, Ensures (f item) Q) : Ensures (items.mapM f) fun bs => ∀ b ∈ bs, Q b := by
  induction items with
  | nil => exact fun b hb => by cases hb
  | cons item items ih =>
    rw [List.mapM_cons]
    refine (h item List.mem_cons_self).bind fun b hb => ?_
    refine (ih fun item hitem => h item (List.mem_cons_of_mem _ hitem)).bind fun bs hbs => ?_
    exact List.forall_mem_cons.mpr ⟨hb, hbs⟩

end Ensures

/-! ## What a computation raises -/

/-- **What a computation may raise**: nothing that does not meet a condition. -/
def Raises {β : Type} (x : Except Exc β) (P : Exc → Prop) : Prop := ∀ e, x = .error e → P e

section Raises

variable {β γ : Type} {x : Except Exc β} {P P' : Exc → Prop}

@[simp] theorem raises_ok {b : β} : Raises (.ok b) P := fun e he => by cases he

variable {e : Exc}

@[simp] theorem raises_error : Raises (.error e : Except Exc β) P ↔ P e := by
  refine ⟨fun h => h e rfl, fun h e' he => ?_⟩
  rw [← Except.error.inj he]
  exact h

theorem Raises.imp (h : Raises x P) (himp : ∀ e, P e → P' e) : Raises x P' :=
  fun e he => himp e (h e he)

variable {f : β → Except Exc γ}

/-- **The rule of sequence**, where the second part may use what the first one came to. -/
theorem Raises.bind (hx : Raises x P) (hf : ∀ b, x = .ok b → Raises (f b) P) : Raises (x >>= f) P := by
  cases hx' : x with
  | ok b => exact hf b hx'
  | error e =>
    intro e' he
    rw [← Except.error.inj he]
    exact hx e hx'

theorem Raises.map {f : β → γ} (hx : Raises x P) : Raises (x.map f) P := by
  intro e he
  cases hx' : x with
  | ok b =>
    rw [hx'] at he
    cases he
  | error e' =>
    rw [hx'] at he
    rw [← Except.error.inj he]
    exact hx e' hx'

theorem Ensures.raises {Q : β → Prop} (h : Ensures x Q) : Raises x Exc.Handled :=
  fun _ he => h.of_error he

/-- **Where a sequence fails**: in one of its parts. -/
theorem bind_eq_error : (x >>= f) = .error e ↔ x = .error e ∨ ∃ b, x = .ok b ∧ f b = .error e := by
  cases x with
  | error e' => exact ⟨fun h => Or.inl (congrArg Except.error (Except.error.inj h)),
      fun h => h.elim (fun h => congrArg Except.error (Except.error.inj h)) fun ⟨b, hb, _⟩ => (by cases hb)⟩
  | ok b => exact ⟨fun h => Or.inr ⟨b, rfl, h⟩,
      fun h => h.elim (fun h => by cases h) fun ⟨b', hb, h⟩ => Except.ok.inj hb ▸ h⟩

variable {items : List β}

theorem mapM_returns {ε : Type} {f : β → Except ε γ} :
    (∃ cs, items.mapM f = .ok cs) ↔ ∀ item ∈ items, ∃ c, f item = .ok c := by
  induction items with
  | nil => simp [pure, Except.pure]
  | cons first items ih =>
    rw [List.forall_mem_cons, ← ih, List.mapM_cons]
    constructor
    · rintro ⟨cs, h⟩
      obtain ⟨c, hfirst, h⟩ := bind_eq_ok.mp h
      obtain ⟨rest, hrest, -⟩ := bind_eq_ok.mp h
      exact ⟨⟨c, hfirst⟩, rest, hrest⟩
    · rintro ⟨⟨c, hfirst⟩, rest, hrest⟩
      exact ⟨c :: rest, bind_eq_ok.mpr ⟨c, hfirst, bind_eq_ok.mpr ⟨rest, hrest, rfl⟩⟩⟩

theorem forall₂_of_mapM_ok {ε : Type} {f : β → Except ε γ} {cs : List γ}
    (h : items.mapM f = .ok cs) : List.Forall₂ (fun item c => f item = .ok c) items cs := by
  induction items generalizing cs with
  | nil => exact Except.ok.inj h ▸ List.Forall₂.nil
  | cons item items ih =>
    rw [List.mapM_cons] at h
    obtain ⟨c, hc, h⟩ := bind_eq_ok.mp h
    obtain ⟨rest, hrest, h⟩ := bind_eq_ok.mp h
    exact Except.ok.inj h ▸ List.Forall₂.cons hc (ih hrest)

/-- **The results of an iteration** are what its calls return. -/
theorem mem_of_mapM_ok {cs : List γ}
    (h : items.mapM f = .ok cs) {c : γ} : c ∈ cs ↔ ∃ item ∈ items, f item = .ok c := by
  induction items generalizing cs with
  | nil =>
    obtain rfl := Except.ok.inj h
    simp
  | cons first items ih =>
    rw [List.mapM_cons] at h
    obtain ⟨b, hfirst, h⟩ := bind_eq_ok.mp h
    obtain ⟨rest, hrest, h⟩ := bind_eq_ok.mp h
    rw [← Except.ok.inj h, List.mem_cons, ih hrest, List.exists_mem_cons_iff, hfirst, Except.ok.injEq, eq_comm]

theorem mapM_eq_error : items.mapM f = .error e ↔ ∃ before item after, items = before ++ item :: after
      ∧ (∀ b ∈ before, ∃ c, f b = .ok c) ∧ f item = .error e := by
  induction items with
  | nil => simp [pure, Except.pure]
  | cons first items ih =>
    rw [List.mapM_cons, bind_eq_error]
    constructor
    · rintro (hfirst | ⟨c, hfirst, h⟩)
      · exact ⟨[], first, items, rfl, List.forall_mem_nil _, hfirst⟩
      · have hrest : items.mapM f = .error e :=
          (bind_eq_error.mp h).resolve_right fun ⟨cs, _, hcs⟩ => by cases hcs
        obtain ⟨before, item, after, rfl, hbefore, hitem⟩ := ih.mp hrest
        exact ⟨first :: before, item, after, rfl, List.forall_mem_cons.mpr ⟨⟨c, hfirst⟩, hbefore⟩, hitem⟩
    · rintro ⟨before, item, after, hitems, hbefore, hitem⟩
      cases before with
      | nil =>
        obtain ⟨rfl, -⟩ := List.cons.inj hitems
        exact Or.inl hitem
      | cons b before =>
        obtain ⟨rfl, rfl⟩ := List.cons.inj hitems
        obtain ⟨⟨c, hfirst⟩, hbefore⟩ := List.forall_mem_cons.mp hbefore
        exact Or.inr ⟨c, hfirst, bind_eq_error.mpr (Or.inl (ih.mpr ⟨before, item, after, rfl, hbefore, hitem⟩))⟩

end Raises
