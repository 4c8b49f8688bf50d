import HttkWorkflow.Futures
import HttkWorkflow.JoinPass

/-!
# What a join means

A join names a set of children and a condition on how they end. It is
satisfied when the condition holds of their present states, and impossible
when there is no way left for it to hold, whatever the children that are still
open come to (`JoinRule.Holds`, `Futures.Impossible`).

`classify` decides both with a test of its own, over the states of the
references. The tests are exact for a join that names each child once. Where a
child is named twice, `at_least` counts it twice, and the verdict is another
one if the threshold lies between the number of the children and that of the
references (`join_decided_iff`). A join without children is not evaluated, and
`any_terminal` would leave it waiting for ever.
-/

open Futures

/-- **The conditions of a join**, the threshold with its count. -/
inductive JoinRule where
  | allSucceeded
  | allTerminal
  | anySucceeded
  | anyTerminal
  | atLeast (count : ℤ)

namespace JoinRule

def word : JoinRule → PyStr
  | allSucceeded => "all_succeeded"
  | allTerminal => "all_terminal"
  | anySucceeded => "any_succeeded"
  | anyTerminal => "any_terminal"
  | atLeast _ => "at_least"

def CountIn (join : List (PyStr × Json)) : JoinRule → Prop
  | atLeast count => joinCount join = .ok count
  | _ => True

variable {ι : Type}

/-- **What a condition says** of the states of a set of children. -/
def Holds (children : Finset ι) : JoinRule → (ι → StateKind) → Prop
  | allSucceeded, kinds => ∀ c ∈ children, kinds c = .succeeded
  | allTerminal, kinds => ∀ c ∈ children, (kinds c).isTerminal = true
  | anySucceeded, kinds => ∃ c ∈ children, kinds c = .succeeded
  | anyTerminal, kinds => ∃ c ∈ children, (kinds c).isTerminal = true
  | atLeast count, kinds => count ≤ (children.filter fun c => kinds c = .succeeded).card

/-- **A condition can no longer hold.** -/
def CannotHold (children : Finset ι) (kinds : ι → StateKind) (condition : JoinRule) : Prop :=
  Impossible (fun kind : StateKind => kind.isTerminal = true) children kinds (condition.Holds children)

/-- A child that has succeeded, or may still. -/
def Hopeful (kinds : ι → StateKind) (c : ι) : Prop := kinds c = .succeeded ∨ ¬(kinds c).isTerminal = true

instance (kinds : ι → StateKind) : DecidablePred (Hopeful kinds) :=
  fun _ => inferInstanceAs (Decidable (_ ∨ _))

/-- **The references count as the children do**: there are some if the condition asks for any at all, and a
threshold lies on the same side of the number of the children and of that of the references. -/
def Counted [DecidableEq ι] (references : List ι) (kinds : ι → StateKind) : JoinRule → Prop
  | anyTerminal => references ≠ []
  | atLeast count =>
    ¬(((references.toFinset.filter fun c => kinds c = .succeeded).card : ℤ) < count
        ∧ count ≤ references.countP fun c => decide (kinds c = .succeeded))
      ∧ ¬(((references.toFinset.filter (Hopeful kinds)).card : ℤ) < count
        ∧ count ≤ references.countP fun c => decide (Hopeful kinds c))
  | _ => True

/-- **A join is decided as it is meant.** -/
structure DecidedAsMeant [DecidableEq ι] (condition : JoinRule) (join : List (PyStr × Json)) (references : List ι)
    (kinds : ι → StateKind) : Prop where
  satisfied : classify condition.word join (references.map kinds) = .ok .satisfied
    ↔ condition.Holds references.toFinset kinds
  impossible : classify condition.word join (references.map kinds) = .ok .impossible
    ↔ condition.CannotHold references.toFinset kinds
  apart : ¬(joinSatisfied condition.word join (references.map kinds) = .ok true
    ∧ joinImpossible condition.word join (references.map kinds) = .ok true)
  terminal : (∀ c ∈ references, (kinds c).isTerminal = true) →
    classify condition.word join (references.map kinds) ≠ .ok .blocked
  order : ∀ references' : List ι, references'.Perm references →
    classify condition.word join (references'.map kinds) = classify condition.word join (references.map kinds)
  once : classify condition.word join (references.dedup.map kinds)
    = classify condition.word join (references.map kinds)

/-! ## The best future -/

section Best

variable {children : Finset ι} {kinds : ι → StateKind}

/-- The future in which all open children succeed. -/
def bestKinds (kinds : ι → StateKind) : ι → StateKind :=
  best (fun kind : StateKind => kind.isTerminal = true) kinds .succeeded

theorem isTerminal_bestKinds (c : ι) : (bestKinds kinds c).isTerminal = true := by
  unfold bestKinds best
  split_ifs with h
  · exact h
  · rfl

theorem bestKinds_eq {c : ι} : bestKinds kinds c = .succeeded ↔ Hopeful kinds c := best_eq_iff

/-- **It decides what can still hold.** -/
theorem cannotHold_iff (condition : JoinRule) :
    condition.CannotHold children kinds ↔ ¬condition.Holds children (bestKinds kinds) := by
  refine impossible_iff_best rfl fun future hfuture h => ?_
  have hsucceeded : ∀ c ∈ children, future c = .succeeded → bestKinds kinds c = .succeeded :=
    fun c hc => best_eq_of_future hfuture hc
  cases condition with
  | allSucceeded => exact fun c hc => hsucceeded c hc (h c hc)
  | allTerminal => exact fun c _ => isTerminal_bestKinds c
  | anySucceeded =>
    obtain ⟨c, hc, h⟩ := h
    exact ⟨c, hc, hsucceeded c hc h⟩
  | anyTerminal =>
    obtain ⟨c, hc, -⟩ := h
    exact ⟨c, hc, isTerminal_bestKinds c⟩
  | atLeast count =>
    have hcard : (children.filter fun c => future c = .succeeded).card
        ≤ (children.filter fun c => bestKinds kinds c = .succeeded).card := by
      refine Finset.card_le_card fun c hc => ?_
      obtain ⟨hc, hfuture⟩ := Finset.mem_filter.mp hc
      exact Finset.mem_filter.mpr ⟨hc, hsucceeded c hc hfuture⟩
    have hcount : count ≤ ((children.filter fun c => future c = .succeeded).card : ℤ) := h
    show count ≤ ((children.filter fun c => bestKinds kinds c = .succeeded).card : ℤ)
    omega

end Best

/-! ## The two tests -/

section Tests

variable {references : List ι} {kinds : ι → StateKind}

/-- What `satisfied` computes. -/
def satisfiedBy (references : List ι) (kinds : ι → StateKind) : JoinRule → Bool
  | allSucceeded => references.all fun c => kinds c = .succeeded
  | allTerminal => references.all fun c => (kinds c).isTerminal
  | anySucceeded => references.any fun c => kinds c = .succeeded
  | anyTerminal => references.any fun c => (kinds c).isTerminal
  | atLeast count => decide (count ≤ references.countP fun c => decide (kinds c = .succeeded))

/-- What `impossible` computes. -/
def ruledOut (references : List ι) (kinds : ι → StateKind) : JoinRule → Bool
  | allSucceeded => references.any fun c => kinds c = .failed ∨ kinds c = .cancelled
  | allTerminal | anyTerminal => false
  | anySucceeded => (references.all fun c => (kinds c).isTerminal) && !references.any fun c => kinds c = .succeeded
  | atLeast count => decide (((references.countP fun c => decide (Hopeful kinds c) : ℕ) : ℤ) < count)

theorem countP_hopeful (references : List ι) (kinds : ι → StateKind) : references.countP (fun c => decide (Hopeful kinds c))
    = references.countP (fun c => decide (kinds c = .succeeded))
      + references.countP fun c => !(kinds c).isTerminal := by
  induction references with
  | nil => rfl
  | cons c references ih =>
    have hone : (if decide (Hopeful kinds c) = true then 1 else 0)
        = (if decide (kinds c = .succeeded) = true then 1 else 0) + if (!(kinds c).isTerminal) = true then 1 else 0 := by
      by_cases hsucceeded : kinds c = .succeeded
      · simp [Hopeful, hsucceeded, StateKind.isTerminal]
      · by_cases hterminal : (kinds c).isTerminal = true
        · simp [Hopeful, hsucceeded, hterminal]
        · simp [Hopeful, hsucceeded, hterminal]
    simp only [List.countP_cons, ih, hone]
    omega

theorem classify_eq {condition : JoinRule} {join : List (PyStr × Json)} (hcount : condition.CountIn join)
    (references : List ι) (kinds : ι → StateKind) :
    joinSatisfied condition.word join (references.map kinds) = .ok (condition.satisfiedBy references kinds)
      ∧ joinImpossible condition.word join (references.map kinds) = .ok (condition.ruledOut references kinds)
      ∧ classify condition.word join (references.map kinds) = .ok
        (if condition.satisfiedBy references kinds = true then .satisfied
          else if condition.ruledOut references kinds = true then .impossible else .blocked) := by
  have htests : joinSatisfied condition.word join (references.map kinds) = .ok (condition.satisfiedBy references kinds)
      ∧ joinImpossible condition.word join (references.map kinds) = .ok (condition.ruledOut references kinds) := by
    cases condition with
    | allSucceeded =>
      constructor
      · show Except.ok ((references.map kinds).all _) = _
        rw [List.all_map]
        rfl
      · show Except.ok ((references.map kinds).any _) = _
        rw [List.any_map]
        rfl
    | allTerminal =>
      refine ⟨?_, rfl⟩
      show Except.ok ((references.map kinds).all _) = _
      rw [List.all_map]
      rfl
    | anySucceeded =>
      constructor
      · show Except.ok ((references.map kinds).any _) = _
        rw [List.any_map]
        rfl
      · show Except.ok ((references.map kinds).all _ && !(references.map kinds).any _) = _
        rw [List.all_map, List.any_map]
        rfl
    | anyTerminal =>
      refine ⟨?_, rfl⟩
      show Except.ok ((references.map kinds).any _) = _
      rw [List.any_map]
      rfl
    | atLeast count =>
      have hcount : joinCount join = .ok count := hcount
      constructor
      · show (joinCount join).map _ = _
        rw [hcount]
        simp only [Except.map, List.countP_map]
        rfl
      · show (joinCount join).map _ = _
        rw [hcount]
        simp only [Except.map, List.countP_map, ruledOut, countP_hopeful, Int.natCast_add]
        rfl
  refine ⟨htests.1, htests.2, ?_⟩
  unfold classify
  rw [htests.1, htests.2]
  show (if _ then _ else if _ then _ else _) = _
  split_ifs <;> rfl

end Tests

/-! ## The tests and the meaning -/

section Meaning

variable [DecidableEq ι] {condition : JoinRule} {references references' : List ι} {kinds kinds' : ι → StateKind}

omit [DecidableEq ι] in
theorem Holds.congr {children : Finset ι} (hsame : ∀ c ∈ children, kinds c = kinds' c)
    (h : condition.Holds children kinds) : condition.Holds children kinds' := by
  cases condition with
  | allSucceeded => exact fun c hc => hsame c hc ▸ h c hc
  | allTerminal => exact fun c hc => hsame c hc ▸ h c hc
  | anySucceeded =>
    obtain ⟨c, hc, h⟩ := h
    exact ⟨c, hc, hsame c hc ▸ h⟩
  | anyTerminal =>
    obtain ⟨c, hc, h⟩ := h
    exact ⟨c, hc, hsame c hc ▸ h⟩
  | atLeast count =>
    have hfilter : children.filter (fun c => kinds c = .succeeded) = children.filter fun c => kinds' c = .succeeded :=
      Finset.filter_congr fun c hc => by rw [hsame c hc]
    show count ≤ ((children.filter fun c => kinds' c = .succeeded).card : ℤ)
    rw [← hfilter]
    exact h

theorem satisfiedBy_iff (hcounted : condition.Counted references kinds) :
    condition.satisfiedBy references kinds = true ↔ condition.Holds references.toFinset kinds := by
  cases condition with
  | allSucceeded => simp [satisfiedBy, Holds]
  | allTerminal => simp [satisfiedBy, Holds]
  | anySucceeded => simp [satisfiedBy, Holds]
  | anyTerminal => simp [satisfiedBy, Holds]
  | atLeast count =>
    have hle : (references.toFinset.filter fun c => kinds c = .succeeded).card
        ≤ references.countP fun c => decide (kinds c = .succeeded) := card_filter_le_countP
    have hside := hcounted.1
    simp only [satisfiedBy, Holds, decide_eq_true_eq]
    omega

theorem ruledOut_iff (hcounted : condition.Counted references kinds) :
    condition.ruledOut references kinds = true ∧ condition.satisfiedBy references kinds = false
      ↔ condition.CannotHold references.toFinset kinds := by
  rw [cannotHold_iff]
  cases condition with
  | allSucceeded =>
    simp only [ruledOut, satisfiedBy, Holds, bestKinds_eq, Hopeful, List.mem_toFinset, List.any_eq_true,
      List.all_eq_false, decide_eq_true_eq, not_forall]
    have hkind : ∀ kind : StateKind, (kind = .failed ∨ kind = .cancelled)
        ↔ ¬(kind = .succeeded ∨ ¬kind.isTerminal = true) := by
      intro kind
      cases kind <;> decide
    constructor
    · rintro ⟨⟨c, hc, hfailed⟩, -⟩
      exact ⟨c, hc, (hkind _).mp hfailed⟩
    · rintro ⟨c, hc, hnot⟩
      exact ⟨⟨c, hc, (hkind _).mpr hnot⟩, c, hc, fun h => hnot (Or.inl h)⟩
  | allTerminal =>
    refine iff_of_false (fun h => ?_) (not_not.mpr fun c _ => isTerminal_bestKinds c)
    cases h.1
  | anySucceeded =>
    simp only [ruledOut, satisfiedBy, Holds, bestKinds_eq, Hopeful, List.mem_toFinset, Bool.and_eq_true,
      List.all_eq_true, Bool.not_eq_true', not_exists, not_and, not_or, not_not]
    constructor
    · rintro ⟨⟨hterminal, hnone⟩, -⟩ c hc
      refine ⟨fun hsucceeded => ?_, hterminal c hc⟩
      exact List.any_eq_false.mp hnone c hc (decide_eq_true hsucceeded)
    · intro h
      have hnone : (references.any fun c => decide (kinds c = .succeeded)) = false :=
        List.any_eq_false.mpr fun c hc hsucceeded => (h c hc).1 (of_decide_eq_true hsucceeded)
      exact ⟨⟨fun c hc => (h c hc).2, hnone⟩, hnone⟩
  | anyTerminal =>
    refine iff_of_false (fun h => ?_) (not_not.mpr ?_)
    · cases h.1
    · obtain ⟨c, hc⟩ := List.exists_mem_of_ne_nil references hcounted
      exact ⟨c, List.mem_toFinset.mpr hc, isTerminal_bestKinds c⟩
  | atLeast count =>
    have hle : (references.toFinset.filter (Hopeful kinds)).card
        ≤ references.countP fun c => decide (Hopeful kinds c) := card_filter_le_countP
    have hbest : references.toFinset.filter (fun c => bestKinds kinds c = .succeeded)
        = references.toFinset.filter (Hopeful kinds) := Finset.filter_congr fun c _ => bestKinds_eq
    have hfewer := countP_hopeful references kinds
    have hside := hcounted.2
    simp only [ruledOut, satisfiedBy, Holds, decide_eq_true_eq, decide_eq_false_iff_not, hbest]
    omega

omit [DecidableEq ι] in
theorem not_both : ¬(condition.satisfiedBy references kinds = true ∧ condition.ruledOut references kinds = true) := by
  rintro ⟨hsatisfied, hruled⟩
  cases condition with
  | allSucceeded =>
    obtain ⟨c, hc, hfailed⟩ := List.any_eq_true.mp hruled
    have hsucceeded := of_decide_eq_true (List.all_eq_true.mp hsatisfied c hc)
    rw [hsucceeded] at hfailed
    cases hfailed
  | allTerminal => cases hruled
  | anySucceeded =>
    obtain ⟨-, hnone⟩ := Bool.and_eq_true_iff.mp hruled
    rw [show (references.any fun c => decide (kinds c = .succeeded)) = true from hsatisfied] at hnone
    cases hnone
  | anyTerminal => cases hruled
  | atLeast count =>
    have hfewer := countP_hopeful references kinds
    simp only [satisfiedBy, ruledOut, decide_eq_true_eq] at hsatisfied hruled
    omega

omit [DecidableEq ι] in
theorem tests_perm (condition : JoinRule) (kinds : ι → StateKind) (h : references'.Perm references) :
    condition.satisfiedBy references' kinds = condition.satisfiedBy references kinds
      ∧ condition.ruledOut references' kinds = condition.ruledOut references kinds := by
  cases condition with
  | allSucceeded => exact ⟨h.all_eq, h.any_eq⟩
  | allTerminal => exact ⟨h.all_eq, rfl⟩
  | anySucceeded =>
    refine ⟨h.any_eq, ?_⟩
    show (references'.all _ && !references'.any _) = (references.all _ && !references.any _)
    rw [h.all_eq, h.any_eq]
  | anyTerminal => exact ⟨h.any_eq, rfl⟩
  | atLeast count =>
    unfold satisfiedBy ruledOut
    rw [h.countP_eq, h.countP_eq]
    exact ⟨rfl, rfl⟩

theorem counted_dedup (hcounted : condition.Counted references kinds) : condition.Counted references.dedup kinds := by
  cases condition with
  | allSucceeded => trivial
  | allTerminal => trivial
  | anySucceeded => trivial
  | anyTerminal => exact fun hnil => hcounted (List.dedup_eq_nil _ |>.mp hnil)
  | atLeast count =>
    have hsucceeded := card_filter_of_nodup (p := fun c => kinds c = .succeeded) references.nodup_dedup
    have hhopeful := card_filter_of_nodup (p := Hopeful kinds) references.nodup_dedup
    unfold Counted
    rw [hsucceeded, hhopeful]
    omega

end Meaning

section Decided

variable {join : List (PyStr × Json)} {condition : JoinRule} {references : List ι} {kinds : ι → StateKind}

theorem verdict_iff (hcount : condition.CountIn join) (references : List ι) (kinds : ι → StateKind) :
    (classify condition.word join (references.map kinds) = .ok .satisfied
        ↔ condition.satisfiedBy references kinds = true)
      ∧ (classify condition.word join (references.map kinds) = .ok .impossible
        ↔ condition.ruledOut references kinds = true ∧ condition.satisfiedBy references kinds = false)
      ∧ (classify condition.word join (references.map kinds) = .ok .blocked
        ↔ condition.satisfiedBy references kinds = false ∧ condition.ruledOut references kinds = false) := by
  obtain ⟨-, -, hverdict⟩ := classify_eq hcount references kinds
  rw [hverdict]
  cases condition.satisfiedBy references kinds <;> cases condition.ruledOut references kinds <;> simp

variable [DecidableEq ι]

theorem DecidedAsMeant.counted (hcount : condition.CountIn join)
    (h : condition.DecidedAsMeant join references kinds) : condition.Counted references kinds := by
  obtain ⟨hsatisfied, himpossible, -⟩ := verdict_iff hcount references kinds
  cases condition with
  | allSucceeded => trivial
  | allTerminal => trivial
  | anySucceeded => trivial
  | anyTerminal =>
    rintro rfl
    have hcannot : anyTerminal.CannotHold ([] : List ι).toFinset kinds := by
      rw [cannotHold_iff]
      rintro ⟨c, hc, -⟩
      exact absurd hc (Finset.notMem_empty c)
    cases (himpossible.mp (h.impossible.mpr hcannot)).1
  | atLeast count =>
    refine ⟨fun hbetween => ?_, fun hbetween => ?_⟩
    · have hholds := h.satisfied.mp (hsatisfied.mpr (decide_eq_true hbetween.2))
      have hcard : count ≤ ((references.toFinset.filter fun c => kinds c = .succeeded).card : ℤ) := hholds
      omega
    · have hcannot : (atLeast count).CannotHold references.toFinset kinds := by
        rw [cannotHold_iff]
        intro hbest
        have hcard : count ≤ ((references.toFinset.filter fun c => bestKinds kinds c = .succeeded).card : ℤ) := hbest
        have hfilter : references.toFinset.filter (fun c => bestKinds kinds c = .succeeded)
            = references.toFinset.filter (Hopeful kinds) := Finset.filter_congr fun c _ => bestKinds_eq
        rw [hfilter] at hcard
        omega
      have hruled := of_decide_eq_true (himpossible.mp (h.impossible.mpr hcannot)).1
      omega

theorem Counted.decidedAsMeant (hcount : condition.CountIn join) (hcounted : condition.Counted references kinds) :
    condition.DecidedAsMeant join references kinds := by
  obtain ⟨hsatisfied, himpossible, hblocked⟩ := verdict_iff hcount references kinds
  have hmeans := satisfiedBy_iff hcounted
  have hmeans' := ruledOut_iff hcounted
  refine ⟨hsatisfied.trans hmeans, himpossible.trans hmeans', ?_, ?_, ?_, ?_⟩
  · rintro ⟨hs, hr⟩
    obtain ⟨hs', hr', -⟩ := classify_eq hcount references kinds
    exact not_both ⟨Except.ok.inj (hs'.symm.trans hs), Except.ok.inj (hr'.symm.trans hr)⟩
  · intro hterminal hwaits
    obtain ⟨hs, hr⟩ := hblocked.mp hwaits
    have hnot : ¬condition.Holds references.toFinset kinds := fun hholds => by
      rw [hmeans.mpr hholds] at hs
      cases hs
    -- everybody has ended, so that the best future is the present
    have hcannot : condition.CannotHold references.toFinset kinds := by
      rw [cannotHold_iff]
      refine fun hbest => hnot (hbest.congr fun c hc => ?_)
      exact if_pos (hterminal c (List.mem_toFinset.mp hc))
    rw [(hmeans'.mpr hcannot).1] at hr
    cases hr
  · intro references' hperm
    obtain ⟨-, -, hverdict⟩ := classify_eq hcount references kinds
    obtain ⟨-, -, hverdict'⟩ := classify_eq hcount references' kinds
    obtain ⟨hs, hr⟩ := tests_perm condition kinds hperm
    rw [hverdict, hverdict', hs, hr]
  · have hsame : references.dedup.toFinset = references.toFinset := by
      ext c
      simp
    have hdedup := satisfiedBy_iff (counted_dedup hcounted)
    have hdedup' := ruledOut_iff (counted_dedup hcounted)
    rw [hsame, ← hmeans] at hdedup
    rw [hsame, ← hmeans'] at hdedup'
    obtain ⟨-, -, hverdict⟩ := classify_eq hcount references kinds
    obtain ⟨-, -, hverdict'⟩ := classify_eq hcount references.dedup kinds
    rw [hverdict, hverdict']
    revert hdedup hdedup'
    cases condition.satisfiedBy references kinds <;> cases condition.ruledOut references kinds <;>
      cases condition.satisfiedBy references.dedup kinds <;> cases condition.ruledOut references.dedup kinds <;> simp

end Decided

/-- **The meaning of a join.** A join with its count is decided as it is meant if and only if its references count as
its children do. -/
theorem join_decided_iff {ι : Type} [DecidableEq ι] (condition : JoinRule) (join : List (PyStr × Json))
    (references : List ι) (kinds : ι → StateKind) (hcount : condition.CountIn join) :
    condition.DecidedAsMeant join references kinds ↔ condition.Counted references kinds :=
  ⟨DecidedAsMeant.counted hcount, Counted.decidedAsMeant hcount⟩

/-- A join on two children, one of which has succeeded. -/
theorem join_decided_any : anySucceeded.DecidedAsMeant [] [0, 1] (fun c : ℕ => if c = 0 then .succeeded else .running) :=
  (join_decided_iff anySucceeded [] [0, 1] _ trivial).mpr trivial

/-- **A child that is named twice counts twice**: two successes are asked for, and one child has succeeded. -/
theorem named_twice_counts_twice : ¬∀ (condition : JoinRule) (join : List (PyStr × Json)) (references : List ℕ)
    (kinds : ℕ → StateKind), condition.CountIn join → references ≠ [] →
    condition.DecidedAsMeant join references kinds := by
  intro h
  have hmeant := h (atLeast 2) [(PyStr.ofString "count", .int 2)] [0, 0] (fun _ => .succeeded) rfl (List.cons_ne_nil _ _)
  have honce : Except.ok JoinVerdict.impossible = Except.ok JoinVerdict.satisfied := hmeant.once
  cases honce

end JoinRule
