import HttkWorkflow.LayeredOrder
import HttkWorkflow.PwdRestart

/-!
# The order of a PWD document

`_topological_order` keeps, for each node it has not ordered, the sources of
the edges into it that it has not ordered either. Each round takes the nodes
without such sources, smallest first, and strikes them out of the others; a
round that finds none refuses the document.

`orderNodes` is that loop with what it raises. Each of its rounds takes away
at least one node, so it ends, and `topologicalOrder` is it with a bound on the
rounds that is never reached (`topologicalOrder_eq`). What the loop holds
stands for a set of nodes under the edges among them (`Remaining`), and a
round for taking off the first layer of that set (`Remaining.next`): the
loop computes the layered order of the nodes, of which the listing of the
nodes and of the edges is no part.
-/

/-! ## The loop -/

/-- `PwdFormatError` of the nodes that are left, in order. -/
def cycleError (source : PyStr) (left : List ℕ) : Exc :=
  ⟨.valueError, [.raw source, .lit " has a cycle through nodes "]
    ++ (left.map MessagePart.num).intersperse (.lit ", ") ++ [.lit ", so it is not a workflow"]⟩

/-- What is left after a round: the other nodes, without the sources that are ordered now. -/
def nextRemaining (remaining : List (ℕ × List ℕ)) : List (ℕ × List ℕ) :=
  (remaining.filter fun e => e.fst ∉ readyNodes remaining).map fun e =>
    (e.fst, e.snd.filter (· ∉ readyNodes remaining))

theorem length_nextRemaining {remaining : List (ℕ × List ℕ)} (h : readyNodes remaining ≠ []) :
    (nextRemaining remaining).length < remaining.length := by
  obtain ⟨n, hn⟩ := List.exists_mem_of_ne_nil _ h
  obtain ⟨e, he, rfl⟩ := List.mem_map.mp ((readyNodes_perm remaining).mem_iff.mp hn)
  unfold nextRemaining
  rw [List.length_map, List.length_filter_lt_length_iff_exists]
  exact ⟨e, (List.mem_filter.mp he).1, by simpa using hn⟩

/-- `while remaining`. -/
def orderRemaining (source : PyStr) (remaining : List (ℕ × List ℕ)) (ordered : List ℕ) :
    Except Exc (List ℕ) :=
  if remaining = [] then .ok ordered
  else if _hready : readyNodes remaining = [] then
    .error (cycleError source ((remaining.map Prod.fst).insertionSort (· ≤ ·)))
  else orderRemaining source (nextRemaining remaining) (ordered ++ readyNodes remaining)
termination_by remaining.length
decreasing_by exact length_nextRemaining _hready

/-- `incoming`: the sources of the edges into each node. -/
def incomingSources {V : Type} (nodes : List (ℕ × PwdNode V)) (edges : List PwdEdge) : List (ℕ × List ℕ) :=
  nodes.map fun e => (e.fst, (edges.filter fun edge => edge.target = e.fst).map PwdEdge.source)

/-- **`_topological_order`**, with what it raises. -/
def orderNodes {V : Type} (source : PyStr) (nodes : List (ℕ × PwdNode V)) (edges : List PwdEdge) :
    Except Exc (List ℕ) :=
  orderRemaining source (incomingSources nodes edges) []

theorem orderRounds_eq (source : PyStr) {rounds : ℕ} {remaining : List (ℕ × List ℕ)} (ordered : List ℕ)
    (h : remaining.length ≤ rounds) :
    orderRounds rounds remaining ordered = (orderRemaining source remaining ordered).toOption := by
  induction rounds generalizing remaining ordered with
  | zero =>
    obtain rfl := List.length_eq_zero_iff.mp (Nat.le_zero.mp h)
    rw [orderRemaining, if_pos rfl]
    rfl
  | succ rounds ih =>
    by_cases hnil : remaining = []
    · subst hnil
      rw [orderRemaining, if_pos rfl]
      rfl
    · rw [orderRounds.eq_3 _ _ _ hnil, orderRemaining, if_neg hnil]
      by_cases hready : readyNodes remaining = []
      · rw [if_pos hready, dif_pos hready]
        rfl
      · rw [if_neg hready, dif_neg hready]
        exact ih _ (Nat.le_of_lt_succ ((length_nextRemaining hready).trans_le h))

theorem topologicalOrder_eq {V : Type} (source : PyStr) (nodes : List (ℕ × PwdNode V)) (edges : List PwdEdge) :
    topologicalOrder nodes edges = (orderNodes source nodes edges).toOption :=
  orderRounds_eq source [] (by rw [List.length_map])

/-! ## What the loop holds -/

open LayeredOrder

/-- **What is left stands for a set of nodes**: each has the members of the set that come before it. -/
structure Remaining (r : ℕ → ℕ → Prop) (s : Finset ℕ) (remaining : List (ℕ × List ℕ)) : Prop where
  nodup : (remaining.map Prod.fst).Nodup
  keys : ∀ v, v ∈ remaining.map Prod.fst ↔ v ∈ s
  sources : ∀ e ∈ remaining, ∀ u, u ∈ e.snd ↔ u ∈ s ∧ r u e.fst

section Rounds

variable {r : ℕ → ℕ → Prop} {s : Finset ℕ} {remaining : List (ℕ × List ℕ)}

theorem insertionSort_eq_sort {l : List ℕ} (hnodup : l.Nodup) (hmem : ∀ v, v ∈ l ↔ v ∈ s) :
    l.insertionSort (· ≤ ·) = s.sort (· ≤ ·) := by
  have hperm : (l.insertionSort (· ≤ ·)).Perm (s.sort (· ≤ ·)) := by
    refine (List.perm_insertionSort _ l).trans ((List.perm_ext_iff_of_nodup hnodup (Finset.sort_nodup _ _)).mpr ?_)
    intro v
    rw [Finset.mem_sort]
    exact hmem v
  exact hperm.eq_of_pairwise' (List.pairwise_insertionSort _ l) (Finset.pairwise_sort s _)

namespace Remaining

theorem ready_iff (h : Remaining r s remaining) (v : ℕ) :
    v ∈ (remaining.filter fun e => e.snd = []).map Prod.fst ↔ v ∈ first r s := by
  rw [mem_first, ← h.keys]
  constructor
  · intro hv
    obtain ⟨e, he, rfl⟩ := List.mem_map.mp hv
    obtain ⟨he, hnone⟩ := List.mem_filter.mp he
    refine ⟨List.mem_map_of_mem he, fun u hu hr => ?_⟩
    have hsource := (h.sources e he u).mpr ⟨hu, hr⟩
    rw [of_decide_eq_true hnone] at hsource
    exact List.not_mem_nil hsource
  · rintro ⟨hv, hfirst⟩
    obtain ⟨e, he, rfl⟩ := List.mem_map.mp hv
    refine List.mem_map_of_mem (List.mem_filter.mpr ⟨he, decide_eq_true ?_⟩)
    refine List.eq_nil_iff_forall_not_mem.mpr fun u hu => ?_
    obtain ⟨hu, hr⟩ := (h.sources e he u).mp hu
    exact hfirst u hu hr

theorem readyNodes_eq (h : Remaining r s remaining) : readyNodes remaining = (first r s).sort (· ≤ ·) :=
  insertionSort_eq_sort (h.nodup.sublist (List.filter_sublist.map _)) h.ready_iff

theorem mem_readyNodes (h : Remaining r s remaining) {v : ℕ} : v ∈ readyNodes remaining ↔ v ∈ first r s := by
  rw [h.readyNodes_eq, Finset.mem_sort]

theorem keys_eq (h : Remaining r s remaining) : (remaining.map Prod.fst).insertionSort (· ≤ ·) = s.sort (· ≤ ·) :=
  insertionSort_eq_sort h.nodup h.keys

/-- **A round takes off the first layer.** -/
theorem next (h : Remaining r s remaining) : Remaining r (s \ first r s) (nextRemaining remaining) := by
  have hkeys : (nextRemaining remaining).map Prod.fst = (remaining.map Prod.fst).filter (· ∉ readyNodes remaining) := by
    unfold nextRemaining
    rw [List.map_map, List.filter_map]
    rfl
  constructor
  · rw [hkeys]
    exact h.nodup.filter _
  · intro v
    rw [hkeys, List.mem_filter, h.keys, decide_eq_true_iff, h.mem_readyNodes, Finset.mem_sdiff]
  · intro e he u
    obtain ⟨e, hin, rfl⟩ := List.mem_map.mp he
    show u ∈ e.snd.filter (· ∉ readyNodes remaining) ↔ _
    rw [List.mem_filter, decide_eq_true_iff, h.mem_readyNodes, h.sources e (List.mem_filter.mp hin).1, Finset.mem_sdiff]
    exact ⟨fun ⟨⟨hu, hr⟩, hnot⟩ => ⟨⟨hu, hnot⟩, hr⟩, fun ⟨⟨hu, hnot⟩, hr⟩ => ⟨⟨hu, hr⟩, hnot⟩⟩

end Remaining

theorem orderRemaining_eq (source : PyStr) (h : Remaining r s remaining) (ordered : List ℕ) :
    orderRemaining source remaining ordered = match order r s with
      | .ok l => .ok (ordered ++ l)
      | .error t => .error (cycleError source (t.sort (· ≤ ·))) := by
  induction s using induction_on_layers r generalizing remaining ordered with
  | hempty =>
    have hnil : remaining = [] := by
      refine List.eq_nil_iff_forall_not_mem.mpr fun e he => ?_
      exact Finset.notMem_empty _ ((h.keys e.fst).mp (List.mem_map_of_mem he))
    rw [hnil, orderRemaining, if_pos rfl, order_empty]
    exact congrArg Except.ok (List.append_nil ordered).symm
  | hstuck s hs hfirst =>
    have hready : readyNodes remaining = [] := by rw [h.readyNodes_eq, hfirst, Finset.sort_empty]
    have hne : remaining ≠ [] := by
      rintro rfl
      exact hs (Finset.eq_empty_iff_forall_notMem.mpr fun v hv => List.not_mem_nil ((h.keys v).mpr hv))
    rw [orderRemaining, if_neg hne, dif_pos hready, order_error hs hfirst, h.keys_eq]
  | hlayer s hfirst ih =>
    have hready : readyNodes remaining ≠ [] := by
      obtain ⟨v, hv⟩ := Finset.nonempty_iff_ne_empty.mpr hfirst
      exact List.ne_nil_of_mem (h.mem_readyNodes.mpr hv)
    have hne : remaining ≠ [] := by
      rintro rfl
      exact hready rfl
    rw [orderRemaining, if_neg hne, dif_neg hready, ih h.next, order_layer hfirst, h.readyNodes_eq]
    cases order r (s \ first r s) with
    | ok l => exact congrArg Except.ok (List.append_assoc _ _ _)
    | error t => rfl

end Rounds

/-! ## The order of a document -/

/-- **The edge relation.** -/
def FeedsNode (edges : List PwdEdge) (u v : ℕ) : Prop := ∃ edge ∈ edges, edge.source = u ∧ edge.target = v

section Documents

variable {V : Type} {nodes : List (ℕ × PwdNode V)} {edges : List PwdEdge}

theorem remaining_incoming (hdistinct : (nodes.map Prod.fst).Nodup)
    (hdeclared : ∀ edge ∈ edges, edge.source ∈ nodes.map Prod.fst ∧ edge.target ∈ nodes.map Prod.fst) :
    Remaining (FeedsNode edges) (nodes.map Prod.fst).toFinset (incomingSources nodes edges) := by
  have hkeys : (incomingSources nodes edges).map Prod.fst = nodes.map Prod.fst := by
    unfold incomingSources
    rw [List.map_map]
    rfl
  constructor
  · rw [hkeys]
    exact hdistinct
  · intro v
    rw [hkeys, List.mem_toFinset]
  · intro e he u
    obtain ⟨node, -, rfl⟩ := List.mem_map.mp he
    rw [List.mem_toFinset, List.mem_map]
    constructor
    · rintro ⟨edge, hedge, rfl⟩
      obtain ⟨hedge, htarget⟩ := List.mem_filter.mp hedge
      exact ⟨(hdeclared edge hedge).1, edge, hedge, rfl, of_decide_eq_true htarget⟩
    · rintro ⟨-, edge, hedge, rfl, htarget⟩
      exact ⟨edge, List.mem_filter.mpr ⟨hedge, decide_eq_true htarget⟩, rfl⟩

theorem orderNodes_eq (source : PyStr) (hdistinct : (nodes.map Prod.fst).Nodup)
    (hdeclared : ∀ edge ∈ edges, edge.source ∈ nodes.map Prod.fst ∧ edge.target ∈ nodes.map Prod.fst) :
    orderNodes source nodes edges = match order (FeedsNode edges) (nodes.map Prod.fst).toFinset with
      | .ok l => .ok l
      | .error t => .error (cycleError source (t.sort (· ≤ ·))) :=
  orderRemaining_eq source (remaining_incoming hdistinct hdeclared) []

end Documents

/-- **The order of a document.** For nodes of distinct ids and edges between them, an order is refused
exactly where the edges have a cycle; otherwise it has each node once and each edge's source before
its target; and however the nodes and the edges are listed, it is the same. -/
theorem orderNodes_topological {V : Type} (source : PyStr) (nodes : List (ℕ × PwdNode V)) (edges : List PwdEdge)
    (hdistinct : (nodes.map Prod.fst).Nodup)
    (hdeclared : ∀ edge ∈ edges, edge.source ∈ nodes.map Prod.fst ∧ edge.target ∈ nodes.map Prod.fst) :
    ((∃ e, orderNodes source nodes edges = .error e) ↔ ∃ v, Relation.TransGen (FeedsNode edges) v v)
      ∧ (∀ l, orderNodes source nodes edges = .ok l →
          l.Perm (nodes.map Prod.fst) ∧ ∀ edge ∈ edges, l.idxOf edge.source < l.idxOf edge.target)
      ∧ ∀ nodes' edges', nodes'.Perm nodes → edges'.Perm edges →
          orderNodes source nodes' edges' = orderNodes source nodes edges := by
  have hends : ∀ u v, FeedsNode edges u v →
      u ∈ (nodes.map Prod.fst).toFinset ∧ v ∈ (nodes.map Prod.fst).toFinset := by
    rintro u v ⟨edge, hedge, rfl, rfl⟩
    rw [List.mem_toFinset, List.mem_toFinset]
    exact hdeclared edge hedge
  have heq := orderNodes_eq source hdistinct hdeclared
  refine ⟨?_, fun l hl => ?_, fun nodes' edges' hnodes hedges => ?_⟩
  · rw [← order_isError_iff hends, heq]
    cases order (FeedsNode edges) (nodes.map Prod.fst).toFinset with
    | ok l => exact iff_of_false (fun ⟨_, h⟩ => by cases h) fun ⟨_, h⟩ => by cases h
    | error t => exact iff_of_true ⟨_, rfl⟩ ⟨t, rfl⟩
  · rcases order_spec (r := FeedsNode edges) (nodes.map Prod.fst).toFinset with ⟨l', hl', hord⟩ | ⟨t, ht, -⟩
    · rw [heq, hl'] at hl
      obtain rfl := Except.ok.inj hl
      refine ⟨(List.perm_ext_iff_of_nodup hord.nodup hdistinct).mpr fun v => ?_, fun edge hedge => ?_⟩
      · rw [hord.mem, List.mem_toFinset]
      · have hfeeds : FeedsNode edges edge.source edge.target := ⟨edge, hedge, rfl, rfl⟩
        exact hord.idxOf_lt_idxOf (hends _ _ hfeeds).1 (hends _ _ hfeeds).2 hfeeds
    · rw [heq, ht] at hl
      cases hl
  · have hnames := hnodes.map Prod.fst
    have hset : (nodes'.map Prod.fst).toFinset = (nodes.map Prod.fst).toFinset := List.toFinset_eq_of_perm _ _ hnames
    have hrel : FeedsNode edges' = FeedsNode edges := by
      funext u v
      exact propext (exists_congr fun edge => and_congr_left' hedges.mem_iff)
    have heq' := @orderNodes_eq V nodes' edges' source (hnames.nodup_iff.mpr hdistinct) fun edge hedge =>
      ⟨hnames.mem_iff.mpr (hdeclared edge (hedges.mem_iff.mp hedge)).1,
        hnames.mem_iff.mpr (hdeclared edge (hedges.mem_iff.mp hedge)).2⟩
    rw [heq', heq, hset, hrel]

/-- Two inputs of one function, listed in either order. -/
theorem orderNodes_topological_join :
    ([(7, PwdNode.input (V := Unit) (.ofString "x") ()), (3, .input (.ofString "y") ()),
        (5, .function (.ofString "m.f"))].map Prod.fst).Nodup
      ∧ orderNodes (.ofString "d") [(3, PwdNode.input (V := Unit) (.ofString "y") ()), (7, .input (.ofString "x") ()),
          (5, .function (.ofString "m.f"))]
          [⟨7, 5, none, some (.ofString "a")⟩, ⟨3, 5, none, some (.ofString "b")⟩]
        = orderNodes (.ofString "d") [(7, .input (.ofString "x") ()), (3, .input (.ofString "y") ()),
          (5, .function (.ofString "m.f"))]
          [⟨3, 5, none, some (.ofString "b")⟩, ⟨7, 5, none, some (.ofString "a")⟩] :=
  ⟨by decide, (orderNodes_topological (.ofString "d") _ _ (by decide) (by decide)).2.2 _ _
    (List.Perm.swap _ _ _) (List.Perm.swap _ _ _)⟩
