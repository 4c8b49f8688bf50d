import HttkWorkflow.Forest
import Mathlib.Algebra.Group.Action.Defs
import Mathlib.Algebra.Order.BigOperators.Group.List
import Mathlib.Data.Char
import Mathlib.Data.List.Duplicate
import Mathlib.Data.List.NodupEquivFin
import Mathlib.Data.List.Rotate

/-!
# The marker stream

A scheduling pass takes its markers from a stream: each call walks the
directories it is assigned, one root after the other, until it has collected
enough markers or visited enough entries, and remembers for each root the
position it stopped after. The next call begins with the root after the last
one it served, so that a large root does not starve a small one.

A walk that is resumed after a position skips what lies before it without
reading it, and visits exactly the entries of the full walk that come later
(`filter_iterStateSubtree`). Each service of a root therefore gets it closer to
any entry, and the rotation comes to every root – unless a root is assigned
twice. The root after the last one is looked up by its value, and that of a
root that is there twice is the same root again: while its entries use up the
budget, no other root is served. The stream returns every marker, within a
number of calls that depends on the sizes alone, if and only if a root that is
assigned twice and has entries leaves out no marker of another
(`stream_covers`).
-/

variable {ν : Type} [LinearOrder ν]

/-! ## The walk -/

/-- **The state tree of a kind**: the names in each directory are different, and
they are listed in their order. -/
structure StateDirectory (ν : Type) [LinearOrder ν] where
  forest : Forest ν
  sorted : forest.Sorted

/-- What `_cursor_relation` answers. -/
inductive CursorRelation where
  | skip
  | descend
  | resume

def cursorRelation (position : List ν) : Option (List ν) → CursorRelation
  | none => .descend
  | some after =>
    let head := after.take position.length
    if position < head then .skip else if head < position then .descend else .resume

def isPast (after : Option (List ν)) (position : List ν) : Bool :=
  match after with
  | none => true
  | some after => after < position

/-- **`_iter_state_subtree`**: the entries below a directory, those that were
consumed earlier without their marker. -/
def iterStateSubtree (rel : List ν) (after : Option (List ν)) : Forest ν → List (List ν × Bool)
  | .nil => []
  | .leaf name marked rest =>
    (rel ++ [name], isPast after (rel ++ [name]) && marked) :: iterStateSubtree rel after rest
  | .branch name entries rest =>
    match cursorRelation (rel ++ [name]) after with
    | .skip => iterStateSubtree rel after rest
    | .descend =>
      (rel ++ [name], false) :: (iterStateSubtree (rel ++ [name]) none entries
        ++ iterStateSubtree rel after rest)
    | .resume =>
      (rel ++ [name], false) :: (iterStateSubtree (rel ++ [name]) after entries
        ++ iterStateSubtree rel after rest)

/-! ## The stream -/

/-- **The budgets of a call**, each at least one. -/
structure StreamBudget where
  processing : ℕ
  discovery : ℕ
  processing_pos : 0 < processing
  discovery_pos : 0 < discovery

/-- **What a call has done so far.** -/
structure StreamWindow (ν : Type) where
  collected : List (List ν)
  visited : ℕ

/-- Whether a budget is used up. -/
def StreamWindow.full (budget : StreamBudget) (w : StreamWindow ν) : Bool :=
  budget.processing ≤ w.collected.length || budget.discovery ≤ w.visited

/-- The window with one more entry. -/
def StreamWindow.visit (w : StreamWindow ν) (e : List ν × Bool) : StreamWindow ν :=
  ⟨if e.snd = true then w.collected ++ [e.fst] else w.collected, w.visited + 1⟩

/-- **What the service of a root leaves**: its cursor, the window, and whether
the end of the root was reached. -/
structure StreamService (ν : Type) where
  cursor : Option (List ν)
  window : StreamWindow ν
  ended : Bool

/-- **The service of one root**: its entries past the cursor are visited until a
budget is used up. -/
def serveEntries (budget : StreamBudget) (after cursor : Option (List ν)) (w : StreamWindow ν) :
    List (List ν × Bool) → StreamService ν
  | [] => ⟨cursor, w, true⟩
  | e :: entries =>
    if isPast after e.fst = false then serveEntries budget after cursor w entries
    else if (w.visit e).full budget = true then ⟨some e.fst, w.visit e, false⟩
    else serveEntries budget after (some e.fst) (w.visit e) entries

/-- **The stream**: the position in each root it stopped after, and the root the
next call begins with. -/
structure MarkerStream (ν : Type) where
  cursors : List ν → Option (List ν)
  rotation : Option (List ν)

def MarkerStream.fresh : MarkerStream ν := ⟨fun _ => none, none⟩

/-- One root is served, and its cursor dropped if its end was reached. -/
def serveRoot (tree : StateDirectory ν) (budget : StreamBudget)
    (cursors : List ν → Option (List ν)) (w : StreamWindow ν) (root : List ν) :
    (List ν → Option (List ν)) × StreamWindow ν :=
  let after := cursors root
  let service := serveEntries budget after after w
    (iterStateSubtree root after (tree.forest.subforest root))
  (Function.update cursors root (if service.ended = true then none else service.cursor),
    service.window)

/-- **Roots are served in their order** until a budget is used up. The last one
served is returned. -/
def serveRoots (tree : StateDirectory ν) (budget : StreamBudget) (last : Option (List ν))
    (cursors : List ν → Option (List ν)) (w : StreamWindow ν) :
    List (List ν) → (List ν → Option (List ν)) × StreamWindow ν × Option (List ν)
  | [] => (cursors, w, last)
  | root :: order =>
    if w.full budget = true then (cursors, w, last)
    else
      serveRoots tree budget (some root) (serveRoot tree budget cursors w root).fst
        (serveRoot tree budget cursors w root).snd order

/-- **`_roots`**: the assigned prefixes, or the directories of the first level. -/
def streamRoots (tree : StateDirectory ν) (prefixes : List (List ν)) : List (List ν) :=
  (if prefixes = [] then tree.forest.branches.map fun name => [name] else prefixes).mergeSort
    fun a b => a ≤ b

/-- **`bisect_left`** in a sorted list. -/
def bisectLeft (roots : List (List ν)) (root : List ν) : ℕ :=
  (roots.takeWhile fun r => r < root).length

/-- Where the rotation of a call begins. -/
def streamStart (roots : List (List ν)) (rotation : Option (List ν)) : ℕ :=
  let start := match rotation with
    | some root => bisectLeft roots root
    | none => 0
  if roots.length ≤ start then 0 else start

/-- **The round of a call**: the roots are served from where the rotation
stands. Cursors of roots that are no longer there are dropped. -/
def MarkerStream.round (tree : StateDirectory ν) (prefixes : List (List ν)) (budget : StreamBudget)
    (s : MarkerStream ν) : (List ν → Option (List ν)) × StreamWindow ν × Option (List ν) :=
  let roots := streamRoots tree prefixes
  let start := streamStart roots s.rotation
  let order := roots.drop start ++ roots.take start
  let known := fun root => if root ∈ roots then s.cursors root else none
  serveRoots tree budget order.head? known ⟨[], 0⟩ order

/-- **`advance`**, with the positions of the markers it returns. -/
def MarkerStream.advance (tree : StateDirectory ν) (prefixes : List (List ν)) (budget : StreamBudget)
    (s : MarkerStream ν) : MarkerStream ν × List (List ν) :=
  let roots := streamRoots tree prefixes
  if roots = [] then (.fresh, [])
  else
    let (cursors, window, last) := s.round tree prefixes budget
    (⟨cursors, last.bind fun root => roots[(roots.idxOf root + 1) % roots.length]?⟩,
      window.collected)

def streamAfter (tree : StateDirectory ν) (prefixes : List (List ν)) (budgets : ℕ → StreamBudget) :
    ℕ → MarkerStream ν
  | 0 => .fresh
  | n + 1 => ((streamAfter tree prefixes budgets n).advance tree prefixes (budgets n)).fst

/-- **What a call returns.** -/
def streamReturned (tree : StateDirectory ν) (prefixes : List (List ν)) (budgets : ℕ → StreamBudget)
    (n : ℕ) : List (List ν) :=
  ((streamAfter tree prefixes budgets n).advance tree prefixes (budgets n)).snd

namespace StateDirectory

variable (tree : StateDirectory ν)

def entries (root : List ν) : List (List ν × Bool) := (tree.forest.subforest root).preorder root

/-- **A marker is below a root.** -/
def Below (root marker : List ν) : Prop := (marker, true) ∈ tree.entries root

instance (root marker : List ν) : Decidable (tree.Below root marker) :=
  inferInstanceAs (Decidable (_ ∈ _))

end StateDirectory

/-- **How many calls it takes** to come to any marker: a bound by the number of
roots and the number of entries. -/
def callBound (tree : StateDirectory ν) (prefixes : List (List ν)) : ℕ :=
  let roots := (streamRoots tree prefixes).length
  roots * (2 * tree.forest.size + 1) * roots + roots

/-! ## Resuming the walk -/

theorem append_lt_of_lt_take {position after : List ν} (rest : List ν)
    (h : position < after.take position.length) : position ++ rest < after := by
  induction position generalizing after with
  | nil => exact absurd h (lt_irrefl _)
  | cons n position ih =>
    cases after with
    | nil => exact absurd h (by simp)
    | cons n' after =>
      rcases List.cons_lt_cons_iff.mp h with hname | ⟨rfl, hrest⟩
      · exact List.Lex.rel hname
      · exact List.Lex.cons (ih hrest)

omit [LinearOrder ν] in
theorem mem_branch {position : List ν} {entries : Forest ν} {e : List ν × Bool}
    (h : e = (position, false) ∨ e ∈ entries.preorder position) :
    ∃ rest, e.fst = position ++ rest := by
  rcases h with rfl | h
  · exact ⟨[], (List.append_nil _).symm⟩
  · obtain ⟨n, -, rest, hrest⟩ := Forest.mem_preorder h
    exact ⟨n :: rest, hrest⟩

@[simp] theorem iterStateSubtree_none (rel : List ν) (f : Forest ν) :
    iterStateSubtree rel none f = f.preorder rel := by
  induction f generalizing rel with
  | nil => rfl
  | leaf name marked rest ih => simp [iterStateSubtree, Forest.preorder, isPast, ih]
  | branch name entries rest ihe ih =>
    simp [iterStateSubtree, Forest.preorder, cursorRelation, ihe, ih]

theorem filter_iterStateSubtree (after : Option (List ν)) (rel : List ν) (f : Forest ν) :
    (iterStateSubtree rel after f).filter (fun e => isPast after e.fst)
      = (f.preorder rel).filter fun e => isPast after e.fst := by
  cases after with
  | none => rw [iterStateSubtree_none]
  | some after =>
    induction f generalizing rel with
    | nil => rfl
    | leaf name marked rest ih =>
      rw [iterStateSubtree, Forest.preorder, List.filter_cons, List.filter_cons, ih]
      by_cases hpast : isPast (some after) (rel ++ [name]) = true
      · simp only [hpast, Bool.true_and]
      · simp only [if_neg hpast]
    | branch name entries rest ihe ih =>
      have hbranch : ((rel ++ [name], false) :: (entries.preorder (rel ++ [name])
          ++ rest.preorder rel)).filter (fun e => isPast (some after) e.fst)
          = ((rel ++ [name], false) :: entries.preorder (rel ++ [name])).filter (fun e => isPast (some after) e.fst)
            ++ (rest.preorder rel).filter fun e => isPast (some after) e.fst := by
        rw [← List.cons_append, List.filter_append]
      rw [iterStateSubtree, Forest.preorder, hbranch]
      unfold cursorRelation
      simp only
      split_ifs with hskip hdescend
      · have hnone : ((rel ++ [name], false) :: entries.preorder (rel ++ [name])).filter
            (fun e => isPast (some after) e.fst) = [] := by
          refine List.filter_eq_nil_iff.mpr fun e he => ?_
          obtain ⟨below, hbelow⟩ := mem_branch (List.mem_cons.mp he)
          rw [hbelow]
          exact fun h => absurd (of_decide_eq_true h) (append_lt_of_lt_take below hskip).not_gt
        rw [hnone, List.nil_append]
        exact ih rel
      · rw [← List.cons_append, List.filter_append, iterStateSubtree_none, ih]
      · show ((rel ++ [name], false) :: (iterStateSubtree (rel ++ [name]) (some after) entries
          ++ iterStateSubtree rel (some after) rest)).filter (fun e => isPast (some after) e.fst) = _
        rw [← List.cons_append, List.filter_append, List.filter_cons, List.filter_cons, ihe, ih]

/-! ## One root is served -/

def markersOf (entries : List (List ν × Bool)) : List (List ν) := (entries.filter Prod.snd).map Prod.fst

variable {m : List ν}

omit [LinearOrder ν] in
theorem mem_markersOf {entries : List (List ν × Bool)} : m ∈ markersOf entries ↔ (m, true) ∈ entries := by
  unfold markersOf
  simp only [List.mem_map, List.mem_filter]
  constructor
  · rintro ⟨⟨m, marked⟩, ⟨he, hmarked⟩, rfl⟩
    obtain rfl : marked = true := hmarked
    exact he
  · exact fun h => ⟨(m, true), ⟨h, rfl⟩, rfl⟩

omit [LinearOrder ν] in
theorem markersOf_cons (e : List ν × Bool) (entries : List (List ν × Bool)) :
    markersOf (e :: entries) = (if e.snd = true then [e.fst] else []) ++ markersOf entries := by
  unfold markersOf
  rw [List.filter_cons]
  split_ifs <;> rfl

omit [LinearOrder ν] in
theorem markersOf_append (entries entries' : List (List ν × Bool)) :
    markersOf (entries ++ entries') = markersOf entries ++ markersOf entries' := by
  unfold markersOf
  rw [List.filter_append, List.map_append]

/-- **What a service does**: it visits the new entries in their order, and
stops at the end or after the one that used up a budget. -/
structure Serves (budget : StreamBudget) (w : StreamWindow ν) (news : List (List ν × Bool))
    (service : StreamService ν) (seen rest : List (List ν × Bool)) : Prop where
  split : news = seen ++ rest
  collected : service.window.collected = w.collected ++ markersOf seen
  visited : service.window.visited = w.visited + seen.length
  stops : service.ended = true ∧ rest = [] ∧
      (w.full budget = false → service.window.full budget = false)
    ∨ service.ended = false ∧ service.window.full budget = true ∧
      ∃ before last, seen = before ++ [last] ∧ service.cursor = some last.fst

theorem serveEntries_serves (budget : StreamBudget) (after cursor : Option (List ν))
    (w : StreamWindow ν) (entries : List (List ν × Bool)) :
    ∃ seen rest, Serves budget w (entries.filter fun e => isPast after e.fst)
      (serveEntries budget after cursor w entries) seen rest := by
  induction entries generalizing cursor w with
  | nil =>
    refine ⟨[], [], rfl, ?_, rfl, Or.inl ⟨rfl, rfl, id⟩⟩
    exact (List.append_nil _).symm
  | cons e entries ih =>
    cases hpast : isPast after e.fst with
    | false =>
      rw [serveEntries, if_pos hpast, List.filter_cons_of_neg (by simp [hpast])]
      exact ih cursor w
    | true =>
      rw [serveEntries, if_neg (by simp [hpast]), List.filter_cons_of_pos (by simpa using hpast)]
      have hvisit : (w.visit e).collected = w.collected ++ markersOf [e] := by
        show (if e.snd = true then w.collected ++ [e.fst] else w.collected) = _
        rw [markersOf_cons]
        split_ifs <;> simp [markersOf]
      cases hfull : (w.visit e).full budget with
      | true =>
        rw [if_pos rfl]
        exact ⟨[e], _, rfl, hvisit, rfl, Or.inr ⟨rfl, hfull, [], e, rfl, rfl⟩⟩
      | false =>
        rw [if_neg Bool.false_ne_true]
        obtain ⟨seen, rest, hserves⟩ := ih (some e.fst) (w.visit e)
        refine ⟨e :: seen, rest, ?_, ?_, ?_, ?_⟩
        · rw [List.cons_append, ← hserves.split]
        · rw [hserves.collected, hvisit, List.append_assoc, ← markersOf_append]
          rfl
        · rw [hserves.visited, List.length_cons]
          show w.visited + 1 + seen.length = _
          omega
        · refine hserves.stops.imp (fun ⟨hended, hrest, hkept⟩ => ⟨hended, hrest, fun _ => ?_⟩)
            fun ⟨hended, hfull', before, last, hseen, hcursor⟩ =>
              ⟨hended, hfull', e :: before, last, congrArg (e :: ·) hseen, hcursor⟩
          exact hkept hfull

/-! ## How far a marker is -/

/-- **How many entries a root is away from a marker**: those up to it, and if
the cursor is past it, those to the end first. -/
def remaining (entries : List (List ν × Bool)) (m : List ν) (cursor : Option (List ν)) : ℕ :=
  if isPast cursor m = true then
    (entries.filter fun e => isPast cursor e.fst ∧ e.fst ≤ m).length
  else
    (entries.filter fun e => isPast cursor e.fst).length + 1
      + (entries.filter fun e => e.fst ≤ m).length

theorem remaining_le (entries : List (List ν × Bool)) (m : List ν) (cursor : Option (List ν)) :
    remaining entries m cursor ≤ 2 * entries.length + 1 := by
  have hpast := List.length_filter_le (fun e => isPast cursor e.fst) entries
  have hboth := List.length_filter_le (fun e => decide (isPast cursor e.fst ∧ e.fst ≤ m)) entries
  have hupto := List.length_filter_le (fun e => decide (e.fst ≤ m)) entries
  unfold remaining
  split_ifs <;> omega

theorem length_filter_lt {α : Type} {l : List α} {p q : α → Bool} {x : α}
    (himp : ∀ a ∈ l, p a = true → q a = true) (hx : x ∈ l) (hq : q x = true) (hp : p x = false) :
    (l.filter p).length < (l.filter q).length := by
  have hfilter : l.filter p = (l.filter q).filter p := by
    rw [List.filter_filter]
    refine List.filter_congr fun a ha => ?_
    cases hpa : p a with
    | false => rfl
    | true => simp [himp a ha hpa]
  rw [hfilter]
  refine List.length_filter_lt_length_iff_exists.mpr ⟨x, List.mem_filter.mpr ⟨hx, hq⟩, ?_⟩
  rw [hp]
  exact Bool.false_ne_true

variable {w : StreamWindow ν} {service : StreamService ν}

theorem remaining_served {budget : StreamBudget} {entries seen rest : List (List ν × Bool)} {after : Option (List ν)}
    (hsorted : entries.Pairwise fun e e' => e.fst < e'.fst) (hm : (m, true) ∈ entries)
    (hserves : Serves budget w (entries.filter fun e => isPast after e.fst) service seen rest)
    (hmissed : m ∉ markersOf seen) :
    remaining entries m (if service.ended = true then none else service.cursor)
      < remaining entries m after := by
  have hnews : ∀ e ∈ seen ++ rest, e ∈ entries ∧ isPast after e.fst = true := by
    intro e he
    rw [← hserves.split] at he
    exact List.mem_filter.mp he
  have hlater : isPast after m = true → (m, true) ∈ rest := by
    intro hpast
    have hmem : (m, true) ∈ seen ++ rest := by
      rw [← hserves.split]
      exact List.mem_filter.mpr ⟨hm, hpast⟩
    exact (List.mem_append.mp hmem).resolve_left fun h => hmissed (mem_markersOf.mpr h)
  rcases hserves.stops with ⟨hended, rfl, -⟩ | ⟨hended, -, before, last, rfl, hcursor⟩
  · -- the end was reached, and the marker is behind the cursor
    have hpast : isPast after m = false := by
      by_contra hpast
      exact absurd (hlater (by simpa using hpast)) List.not_mem_nil
    rw [if_pos hended]
    unfold remaining
    rw [if_pos (show isPast none m = true from rfl), if_neg (by rw [hpast]; exact Bool.false_ne_true)]
    have hsame : (entries.filter fun e => decide (isPast none e.fst ∧ e.fst ≤ m))
        = entries.filter fun e => decide (e.fst ≤ m) := by
      refine List.filter_congr fun e _ => ?_
      simp [isPast]
    rw [hsame]
    omega
  · rw [hended, if_neg Bool.false_ne_true, hcursor]
    obtain ⟨hlast, hlastpast⟩ := hnews last (by simp)
    have hself : isPast (some last.fst) last.fst = false := decide_eq_false (lt_irrefl _)
    -- what is past the last visited entry was past the cursor
    have hmono : ∀ x : List ν, isPast (some last.fst) x = true → isPast after x = true := by
      intro x hx
      cases after with
      | none => rfl
      | some a => exact decide_eq_true ((of_decide_eq_true hlastpast).trans (of_decide_eq_true hx))
    unfold remaining
    by_cases hpast : isPast after m = true
    · have hlt : last.fst < m := by
        have hpairwise := hsorted.filter fun e => isPast after e.fst
        rw [hserves.split] at hpairwise
        exact (List.pairwise_append.mp hpairwise).2.2 last (by simp) (m, true) (hlater hpast)
      rw [if_pos (show isPast (some last.fst) m = true from decide_eq_true hlt), if_pos hpast]
      refine length_filter_lt (fun e _ he => ?_) hlast ?_ ?_
      · obtain ⟨he, hle⟩ := of_decide_eq_true he
        exact decide_eq_true ⟨hmono _ he, hle⟩
      · exact decide_eq_true ⟨hlastpast, hlt.le⟩
      · exact decide_eq_false fun h => by
          rw [hself] at h
          exact Bool.false_ne_true h.1
    · rw [if_neg fun h => hpast (hmono m h), if_neg hpast]
      have hlt : (entries.filter fun e => isPast (some last.fst) e.fst).length
          < (entries.filter fun e => isPast after e.fst).length :=
        length_filter_lt (fun e _ he => hmono e.fst he) hlast hlastpast hself
      omega

/-! ## Roots are served in turn -/

variable {tree : StateDirectory ν} {budget : StreamBudget}

/-- **One root is served**: what its service does to its cursor and to the
window. -/
theorem serveRoot_serves (tree : StateDirectory ν) (budget : StreamBudget)
    (cursors : List ν → Option (List ν)) (w : StreamWindow ν) (root : List ν) :
    ∃ service seen rest, Serves budget w
      ((tree.entries root).filter fun e => isPast (cursors root) e.fst) service seen rest
      ∧ (serveRoot tree budget cursors w root).snd = service.window
      ∧ (serveRoot tree budget cursors w root).fst
        = Function.update cursors root (if service.ended = true then none else service.cursor) := by
  obtain ⟨seen, rest, hserves⟩ := serveEntries_serves budget (cursors root) (cursors root) w
    (iterStateSubtree root (cursors root) (tree.forest.subforest root))
  rw [filter_iterStateSubtree] at hserves
  exact ⟨_, seen, rest, hserves, rfl, rfl⟩

theorem Serves.below {cursor : Option (List ν)} {seen rest : List (List ν × Bool)} {root m : List ν}
    (hserves : Serves budget w ((tree.entries root).filter fun e => isPast cursor e.fst) service seen rest)
    (hm : m ∈ service.window.collected) : m ∈ w.collected ∨ tree.Below root m := by
  rw [hserves.collected] at hm
  refine (List.mem_append.mp hm).imp id fun hm => ?_
  have hnews : (m, true) ∈ (tree.entries root).filter fun e => isPast cursor e.fst := by
    rw [hserves.split]
    exact List.mem_append_left _ (mem_markersOf.mp hm)
  exact List.mem_of_mem_filter hnews

theorem serveRoots_below (last : Option (List ν)) (cursors : List ν → Option (List ν))
    (w : StreamWindow ν) (order : List (List ν))
    (hm : m ∈ (serveRoots tree budget last cursors w order).snd.fst.collected) :
    m ∈ w.collected ∨ ∃ root ∈ order, tree.Below root m := by
  induction order generalizing last cursors w with
  | nil => exact Or.inl hm
  | cons root order ih =>
    rw [serveRoots] at hm
    split_ifs at hm with hfull
    · exact Or.inl hm
    · obtain ⟨service, seen, left, hserves, hwindow, -⟩ := serveRoot_serves tree budget cursors w root
      rcases ih _ _ _ hm with hm | ⟨r, hr, hbelow⟩
      · rw [hwindow] at hm
        exact (hserves.below hm).imp id fun hbelow => ⟨root, List.mem_cons_self, hbelow⟩
      · exact Or.inr ⟨r, List.mem_cons_of_mem _ hr, hbelow⟩

/-- **What a round over some roots does**: it serves the first ones, of which
the last has entries if it used up the budget, and gets closer to every marker
it does not return. -/
structure Round (tree : StateDirectory ν) (budget : StreamBudget) (last : Option (List ν))
    (cursors : List ν → Option (List ν)) (w : StreamWindow ν) (order : List (List ν))
    (result : (List ν → Option (List ν)) × StreamWindow ν × Option (List ν))
    (served rest : List (List ν)) : Prop where
  split : order = served ++ rest
  idle : w.full budget = true → served = []
  begins : w.full budget = false → order ≠ [] → served ≠ []
  last : result.snd.snd = served.getLast?.or last
  stops : rest ≠ [] → w.full budget = false →
    ∃ root, served.getLast? = some root ∧ tree.entries root ≠ []
  others : ∀ root, root ∉ served → result.fst root = cursors root
  kept : ∀ m ∈ w.collected, m ∈ result.snd.fst.collected
  nearer : ∀ root m, tree.Below root m → m ∉ result.snd.fst.collected →
    remaining (tree.entries root) m (result.fst root)
        ≤ remaining (tree.entries root) m (cursors root)
      ∧ (root ∈ served → remaining (tree.entries root) m (result.fst root)
        < remaining (tree.entries root) m (cursors root))

theorem serveRoots_round (last : Option (List ν)) (cursors : List ν → Option (List ν))
    (w : StreamWindow ν) (order : List (List ν)) :
    ∃ served rest, Round tree budget last cursors w order
      (serveRoots tree budget last cursors w order) served rest := by
  induction order generalizing last cursors w with
  | nil =>
    exact ⟨[], [], rfl, fun _ => rfl, fun _ h => absurd rfl h, (Option.none_or).symm,
      fun h => absurd rfl h, fun _ _ => rfl, fun _ h => h,
      fun _ _ _ _ => ⟨le_rfl, fun h => absurd h List.not_mem_nil⟩⟩
  | cons root order ih =>
    cases hfull : w.full budget with
    | true =>
      rw [serveRoots, if_pos hfull]
      exact ⟨[], root :: order, rfl, fun _ => rfl, fun h => absurd (h.symm.trans hfull) (by simp),
        (Option.none_or).symm, fun _ h => absurd (h.symm.trans hfull) (by simp), fun _ _ => rfl,
        fun _ h => h, fun _ _ _ _ => ⟨le_rfl, fun h => absurd h List.not_mem_nil⟩⟩
    | false =>
      rw [serveRoots, if_neg (by simp [hfull])]
      obtain ⟨service, seen, left, hserves, hwindow, hcursors⟩ :=
        serveRoot_serves tree budget cursors w root
      rw [hwindow, hcursors]
      obtain ⟨served, rest, hround⟩ := ih (some root)
        (Function.update cursors root (if service.ended = true then none else service.cursor))
        service.window
      have hkept : ∀ m ∈ service.window.collected,
          m ∈ (serveRoots tree budget (some root) (Function.update cursors root
            (if service.ended = true then none else service.cursor)) service.window
            order).snd.fst.collected := hround.kept
      refine ⟨root :: served, rest, ?_, ?_, ?_, ?_, ?_, ?_, ?_, ?_⟩
      · rw [List.cons_append, ← hround.split]
      · exact fun h => absurd (h.symm.trans hfull) (by simp)
      · exact fun _ _ => List.cons_ne_nil _ _
      · rw [hround.last, List.getLast?_cons]
        cases served.getLast? <;> rfl
      · intro hrest _
        cases hwfull : service.window.full budget with
        | false =>
          obtain ⟨l, hl, hentries⟩ := hround.stops hrest hwfull
          refine ⟨l, ?_, hentries⟩
          rw [List.getLast?_cons, hl]
          rfl
        | true =>
          obtain rfl := hround.idle hwfull
          refine ⟨root, rfl, fun hempty => ?_⟩
          rcases hserves.stops with ⟨-, -, hnot⟩ | ⟨-, -, before, l, hseen, -⟩
          · exact absurd ((hnot hfull).symm.trans hwfull) (by simp)
          · have hsplit := hserves.split
            rw [hempty, hseen] at hsplit
            simp at hsplit
      · intro r hr
        rw [hround.others r fun h => hr (List.mem_cons_of_mem _ h)]
        refine Function.update_of_ne (fun h => hr ?_) _ _
        rw [h]
        exact List.mem_cons_self
      · intro m hm
        refine hkept m ?_
        rw [hserves.collected]
        exact List.mem_append_left _ hm
      · intro r m hbelow hmissed
        obtain ⟨hle, hlt⟩ := hround.nearer r m hbelow hmissed
        by_cases hr : r = root
        · subst hr
          have hserved := remaining_served (tree.sorted.subforest r |>.pairwise_preorder r) hbelow
            hserves fun h => hmissed (hkept m (by
              rw [hserves.collected]
              exact List.mem_append_right _ h))
          rw [Function.update_self] at hle
          exact ⟨(hle.trans_lt hserved).le, fun _ => hle.trans_lt hserved⟩
        · rw [Function.update_of_ne hr] at hle hlt
          exact ⟨hle, fun h => hlt ((List.mem_cons.mp h).resolve_left hr)⟩

/-! ## The rotation -/

variable {root : List ν}

theorem bisectLeft_append {before : List (List ν)} (after : List (List ν))
    (h : ∀ r ∈ before, r < root) : bisectLeft (before ++ root :: after) root = before.length := by
  unfold bisectLeft
  rw [List.takeWhile_append_of_pos fun r hr => decide_eq_true (h r hr),
    List.takeWhile_cons_of_neg (by simp), List.append_nil]

theorem getElem_unique {roots : List (List ν)} (honce : roots.count root ≤ 1)
    {i j : ℕ} (hi : i < roots.length) (hj : j < roots.length) (hroot : roots[i] = root)
    (hroot' : roots[j] = root) : i = j := by
  by_contra hne
  have hduplicate : List.Duplicate root roots := by
    rcases Nat.lt_or_gt_of_ne hne with hlt | hlt
    · exact List.duplicate_iff_exists_distinct_get.mpr ⟨⟨i, hi⟩, ⟨j, hj⟩, hlt, hroot.symm, hroot'.symm⟩
    · exact List.duplicate_iff_exists_distinct_get.mpr ⟨⟨j, hj⟩, ⟨i, hi⟩, hlt, hroot'.symm, hroot.symm⟩
  have hcount := (List.duplicate_iff_sublist.mp hduplicate).count_le root
  rw [List.count_cons_self, List.count_singleton_self] at hcount
  omega

theorem rotate_streamStart {roots : List (List ν)} (hsorted : roots.Pairwise (· ≤ ·)) {i : ℕ}
    {before rest : List (List ν)} {last : List ν}
    (hsplit : roots.rotate i = before ++ last :: rest) (honce : roots.count last ≤ 1) :
    roots.rotate (streamStart roots roots[(roots.idxOf last + 1) % roots.length]?)
      = rest ++ (before ++ [last]) := by
  have hlength : before.length < (roots.rotate i).length := by
    rw [hsplit]
    simp
  have hpos : 0 < roots.length := by
    rw [List.length_rotate] at hlength
    omega
  have hat : (roots.rotate i)[before.length] = last := by
    simp [hsplit]
  rw [List.getElem_rotate] at hat
  have hplace : (before.length + i) % roots.length < roots.length := Nat.mod_lt _ hpos
  have hmem : last ∈ roots := hat ▸ List.getElem_mem hplace
  have hindex : roots.idxOf last = (before.length + i) % roots.length :=
    getElem_unique honce (List.idxOf_lt_length_of_mem hmem) hplace (List.getElem_idxOf _) hat
  have hstart : streamStart roots roots[(roots.idxOf last + 1) % roots.length]?
      = (roots.idxOf last + 1) % roots.length := by
    have hnext : (roots.idxOf last + 1) % roots.length < roots.length := Nat.mod_lt _ hpos
    rw [List.getElem?_eq_getElem hnext]
    have hbisect : bisectLeft roots roots[(roots.idxOf last + 1) % roots.length]
        = (roots.idxOf last + 1) % roots.length := by
      have hlower : ∀ r ∈ roots.take ((roots.idxOf last + 1) % roots.length),
          r < roots[(roots.idxOf last + 1) % roots.length] := by
        intro r hr
        obtain ⟨a, ha, rfl⟩ := List.mem_take_iff_getElem.mp hr
        -- what is before the next root is no later than the last one
        have hmod : (roots.idxOf last + 1) % roots.length = roots.idxOf last + 1 := by
          rcases Nat.lt_or_ge (roots.idxOf last + 1) roots.length with hlt | hge
          · exact Nat.mod_eq_of_lt hlt
          · have heq : roots.idxOf last + 1 = roots.length := by
              have := List.idxOf_lt_length_of_mem hmem
              omega
            rw [heq, Nat.mod_self] at ha
            simp at ha
        have hle : ∀ x y (hx : x < roots.length) (hy : y < roots.length), x ≤ y → roots[x] ≤ roots[y] := by
          intro x y hx hy hxy
          rcases Nat.eq_or_lt_of_le hxy with rfl | hlt
          · exact le_rfl
          · exact List.pairwise_iff_getElem.mp hsorted x y hx hy hlt
        have hidx := List.idxOf_lt_length_of_mem hmem
        refine (hle a _ (by omega) hidx (by omega)).trans_lt
          (lt_of_le_of_ne (hle _ _ hidx hnext (by omega)) fun heq => ?_)
        rw [List.getElem_idxOf hidx] at heq
        have := getElem_unique honce hnext hidx heq.symm (List.getElem_idxOf hidx)
        omega
      have hsplit' := bisectLeft_append (roots.drop ((roots.idxOf last + 1) % roots.length + 1)) hlower
      rw [← List.drop_eq_getElem_cons hnext, List.take_append_drop] at hsplit'
      rw [hsplit', List.length_take]
      omega
    show (if roots.length ≤ bisectLeft roots _ then 0 else bisectLeft roots _) = _
    rw [hbisect, if_neg (by omega)]
  rw [hstart, List.rotate_mod, hindex, ← List.rotate_rotate, List.rotate_mod, List.rotate_rotate]
  have hmove : before.length + i + 1 = i + (before ++ [last]).length := by
    rw [List.length_append, List.length_singleton]
    omega
  rw [hmove, ← List.rotate_rotate, hsplit, List.append_cons]
  exact List.rotate_append_length_eq _ _

/-! ## The roots -/

variable {prefixes : List (List ν)}

theorem pairwise_streamRoots (tree : StateDirectory ν) (prefixes : List (List ν)) :
    (streamRoots tree prefixes).Pairwise (· ≤ ·) := by
  refine (List.pairwise_mergeSort (fun a b c hab hbc => ?_) (fun a b => ?_) _).imp of_decide_eq_true
  · exact decide_eq_true ((of_decide_eq_true hab).trans (of_decide_eq_true hbc))
  · simpa using le_total a b

theorem perm_streamRoots (tree : StateDirectory ν) (h : prefixes ≠ []) : (streamRoots tree prefixes).Perm prefixes := by
  unfold streamRoots
  rw [if_neg h]
  exact List.mergeSort_perm _ _

theorem nodup_streamRoots_nil (tree : StateDirectory ν) : (streamRoots tree []).Nodup := by
  unfold streamRoots
  rw [if_pos rfl, (List.mergeSort_perm _ _).nodup_iff]
  refine List.Nodup.map (fun a b h => (List.cons.inj h).1) ?_
  exact (Forest.branches_sublist _).nodup tree.sorted.nodup_names

/-- **Repeated prefixes leave nothing out**: one that occurs twice and has
entries has all the markers of the others below it. -/
def RepeatsCover (tree : StateDirectory ν) (prefixes : List (List ν)) : Prop :=
  ∀ root, 2 ≤ prefixes.count root → tree.entries root ≠ [] →
    ∀ other ∈ prefixes, ∀ m, tree.Below other m → tree.Below root m

/-- **A marker is not left out** if every root that occurs twice and has entries
has it below. -/
def NotLeftOut (tree : StateDirectory ν) (prefixes : List (List ν)) (m : List ν) : Prop :=
  ∀ root, 2 ≤ prefixes.count root → tree.entries root ≠ [] → tree.Below root m

theorem NotLeftOut.roots (h : NotLeftOut tree prefixes m) : NotLeftOut tree (streamRoots tree prefixes) m := by
  by_cases hprefixes : prefixes = []
  · subst hprefixes
    intro root hcount
    have := List.nodup_iff_count_le_one.mp (nodup_streamRoots_nil tree) root
    omega
  · intro root hcount
    rw [(perm_streamRoots tree hprefixes).count_eq] at hcount
    exact h root hcount

theorem RepeatsCover.notLeftOut (h : RepeatsCover tree prefixes) {root m : List ν}
    (hroot : root ∈ streamRoots tree prefixes) (hbelow : tree.Below root m) :
    NotLeftOut tree prefixes m := by
  intro repeated hcount hentries
  have hprefixes : prefixes ≠ [] :=
    List.ne_nil_of_mem (List.count_pos_iff.mp (show 0 < prefixes.count repeated by omega))
  exact h repeated hcount hentries root ((perm_streamRoots tree hprefixes).mem_iff.mp hroot) m hbelow

theorem streamStart_lt {roots : List (List ν)} (h : roots ≠ []) (rotation : Option (List ν)) :
    streamStart roots rotation < roots.length := by
  have := List.length_pos_iff.mpr h
  unfold streamStart
  simp only
  split_ifs
  · exact this
  · omega

/-! ## One call -/

/-- **How far a stream is from a marker**: the entries its roots are away from
it, and the roots before the next one that has it. -/
def MarkerStream.distance (tree : StateDirectory ν) (prefixes : List (List ν)) (m : List ν)
    (s : MarkerStream ν) : ℕ :=
  let roots := streamRoots tree prefixes
  ((roots.filter fun root => tree.Below root m).map fun root =>
      remaining (tree.entries root) m (s.cursors root)).sum * roots.length
    + (roots.rotate (streamStart roots s.rotation)).findIdx fun root => tree.Below root m

theorem drop_append_take_eq {roots : List (List ν)} (h : roots ≠ []) (rotation : Option (List ν)) :
    roots.drop (streamStart roots rotation) ++ roots.take (streamStart roots rotation)
      = roots.rotate (streamStart roots rotation) :=
  (List.rotate_eq_drop_append_take (streamStart_lt h rotation).le).symm

theorem advance_eq (hroots : streamRoots tree prefixes ≠ []) (s : MarkerStream ν) :
    s.advance tree prefixes budget = (⟨(s.round tree prefixes budget).fst,
      (s.round tree prefixes budget).snd.snd.bind fun root => (streamRoots tree prefixes)[
        ((streamRoots tree prefixes).idxOf root + 1) % (streamRoots tree prefixes).length]?⟩,
      (s.round tree prefixes budget).snd.fst.collected) := by
  unfold MarkerStream.advance
  rw [if_neg hroots]

omit [LinearOrder ν] in
theorem empty_not_full : (⟨[], 0⟩ : StreamWindow ν).full budget = false := by
  have hprocessing := budget.processing_pos
  have hdiscovery := budget.discovery_pos
  unfold StreamWindow.full
  simp only [List.length_nil, Bool.or_eq_false_iff, decide_eq_false_iff_not]
  omega

theorem distance_advance {root m : List ν} (hkept : NotLeftOut tree prefixes m)
    (hroot : root ∈ streamRoots tree prefixes) (hbelow : tree.Below root m) (s : MarkerStream ν)
    (hmissed : m ∉ (s.advance tree prefixes budget).snd) :
    (s.advance tree prefixes budget).fst.distance tree prefixes m < s.distance tree prefixes m := by
  have hroots : streamRoots tree prefixes ≠ [] := List.ne_nil_of_mem hroot
  obtain ⟨served, rest, hround⟩ : ∃ served rest, Round tree budget _ _ _ _
      (s.round tree prefixes budget) served rest := serveRoots_round _ _ _ _
  rw [drop_append_take_eq hroots] at hround
  have hcover := hkept.roots
  have hsorted := pairwise_streamRoots tree prefixes
  rw [advance_eq hroots] at hmissed
  unfold MarkerStream.distance
  rw [advance_eq hroots]
  generalize s.round tree prefixes budget = result at *
  generalize streamRoots tree prefixes = roots at *
  simp only
  have hknown : ∀ r ∈ roots, (if r ∈ roots then s.cursors r else none) = s.cursors r :=
    fun r hr => if_pos hr
  -- no root with the marker is farther from it than before
  have hle : ∀ r ∈ roots.filter (fun root => tree.Below root m),
      remaining (tree.entries r) m (result.fst r) ≤ remaining (tree.entries r) m (s.cursors r) := by
    intro r hr
    obtain ⟨hr, hrbelow⟩ := List.mem_filter.mp hr
    have := (hround.nearer r m (of_decide_eq_true hrbelow) hmissed).1
    rwa [hknown r hr] at this
  by_cases hserved : ∃ r ∈ served, tree.Below r m
  · obtain ⟨r, hr, hrbelow⟩ := hserved
    have hrmem : r ∈ roots := by
      have : r ∈ roots.rotate (streamStart roots s.rotation) := by
        rw [hround.split]
        exact List.mem_append_left _ hr
      exact List.mem_rotate.mp this
    have hlt := (hround.nearer r m hrbelow hmissed).2 hr
    rw [hknown r hrmem] at hlt
    have hsum := List.sum_lt_sum _ _ hle ⟨r, List.mem_filter.mpr ⟨hrmem, decide_eq_true hrbelow⟩, hlt⟩
    have hfind : ∀ n, (roots.rotate n).findIdx (fun root => decide (tree.Below root m)) < roots.length := by
      intro n
      rw [← List.length_rotate roots n]
      exact List.findIdx_lt_length_of_exists ⟨root, List.mem_rotate.mpr hroot, decide_eq_true hbelow⟩
    have hnext := hfind (streamStart roots (result.snd.snd.bind fun root =>
      roots[(roots.idxOf root + 1) % roots.length]?))
    have hmul := Nat.mul_le_mul_right roots.length (Nat.succ_le_of_lt hsum)
    rw [Nat.succ_mul] at hmul
    omega
  · have hunserved : ∀ r ∈ served, ¬ tree.Below r m := fun r hr h => hserved ⟨r, hr, h⟩
    have hrootrest : root ∈ rest := by
      have hmem : root ∈ served ++ rest := by
        rw [← hround.split]
        exact List.mem_rotate.mpr hroot
      exact (List.mem_append.mp hmem).resolve_left fun h => hunserved root h hbelow
    obtain ⟨last, hlast, hentries⟩ := hround.stops (List.ne_nil_of_mem hrootrest) empty_not_full
    obtain ⟨before, rfl⟩ := List.getLast?_eq_some_iff.mp hlast
    have hlastmem : last ∈ before ++ [last] := by simp
    -- the budget was used up in a root without the marker, which is there once
    have honce : roots.count last ≤ 1 := by
      by_contra hcount
      exact hunserved last hlastmem (hcover last (by omega) hentries)
    have hsplit : roots.rotate (streamStart roots s.rotation) = before ++ last :: rest := by
      rw [hround.split, List.append_assoc]
      rfl
    have hnext : (result.snd.snd.bind fun root => roots[(roots.idxOf root + 1) % roots.length]?)
        = roots[(roots.idxOf last + 1) % roots.length]? := by
      rw [hround.last, hlast]
      rfl
    rw [hnext, rotate_streamStart hsorted hsplit honce, hround.split]
    have hsum := List.sum_le_sum hle
    have hmul := Nat.mul_le_mul_right roots.length hsum
    have hfound : rest.findIdx (fun root => decide (tree.Below root m)) < rest.length :=
      List.findIdx_lt_length_of_exists ⟨root, hrootrest, decide_eq_true hbelow⟩
    have hnone : (before ++ [last]).findIdx (fun root => decide (tree.Below root m)) = (before ++ [last]).length :=
      List.findIdx_eq_length_of_false fun r hr => decide_eq_false (hunserved r hr)
    rw [List.findIdx_append, if_pos hfound, List.findIdx_append, if_neg (by omega)]
    have hpos : 0 < (before ++ [last]).length := by simp
    omega

variable {s : MarkerStream ν}

theorem advance_below (hm : m ∈ (s.advance tree prefixes budget).snd) :
    ∃ root ∈ streamRoots tree prefixes, tree.Below root m := by
  by_cases hroots : streamRoots tree prefixes = []
  · unfold MarkerStream.advance at hm
    rw [if_pos hroots] at hm
    exact absurd hm List.not_mem_nil
  · rw [advance_eq hroots] at hm
    rcases serveRoots_below _ _ _ _ hm with hm | ⟨root, hroot, hbelow⟩
    · exact absurd hm List.not_mem_nil
    · rw [drop_append_take_eq hroots] at hroot
      exact ⟨root, List.mem_rotate.mp hroot, hbelow⟩

/-! ## Coverage -/

theorem distance_lt {m root : List ν} (hroot : root ∈ streamRoots tree prefixes)
    (hbelow : tree.Below root m) (s : MarkerStream ν) :
    s.distance tree prefixes m < callBound tree prefixes := by
  have hfind : ((streamRoots tree prefixes).rotate (streamStart (streamRoots tree prefixes)
      s.rotation)).findIdx (fun root => decide (tree.Below root m))
      < (streamRoots tree prefixes).length := by
    rw [← List.length_rotate (streamRoots tree prefixes)]
    exact List.findIdx_lt_length_of_exists ⟨root, List.mem_rotate.mpr hroot, decide_eq_true hbelow⟩
  have hsum : (((streamRoots tree prefixes).filter fun root => tree.Below root m).map fun root =>
      remaining (tree.entries root) m (s.cursors root)).sum
      ≤ (streamRoots tree prefixes).length * (2 * tree.forest.size + 1) := by
    have hlength := List.length_filter_le (fun root => decide (tree.Below root m)) (streamRoots tree prefixes)
    refine (List.sum_le_card_nsmul _ (2 * tree.forest.size + 1) fun n hn => ?_).trans ?_
    · obtain ⟨r, -, rfl⟩ := List.mem_map.mp hn
      have hsize := Forest.size_subforest_le r tree.forest
      have := remaining_le (tree.entries r) m (s.cursors r)
      have hentries : (tree.entries r).length = (tree.forest.subforest r).size :=
        Forest.length_preorder _ _
      omega
    · rw [List.length_map, smul_eq_mul]
      exact Nat.mul_le_mul_right _ hlength
  have hmul := Nat.mul_le_mul_right (streamRoots tree prefixes).length hsum
  unfold MarkerStream.distance callBound
  simp only
  omega

theorem returned_within {root m : List ν} (hkept : NotLeftOut tree prefixes m)
    (budgets : ℕ → StreamBudget) (hroot : root ∈ streamRoots tree prefixes) (hbelow : tree.Below root m) (n : ℕ) :
    ∃ k, k ≤ (streamAfter tree prefixes budgets n).distance tree prefixes m
      ∧ m ∈ streamReturned tree prefixes budgets (n + k) := by
  induction hdistance : (streamAfter tree prefixes budgets n).distance tree prefixes m
    using Nat.strong_induction_on generalizing n with
  | _ d ih =>
    by_cases hreturned : m ∈ streamReturned tree prefixes budgets n
    · exact ⟨0, Nat.zero_le _, hreturned⟩
    · have hlt : (streamAfter tree prefixes budgets (n + 1)).distance tree prefixes m < d := by
        rw [← hdistance]
        exact distance_advance hkept hroot hbelow _ hreturned
      obtain ⟨k, hk, hmem⟩ := ih _ hlt (n + 1) rfl
      refine ⟨k + 1, by omega, ?_⟩
      rwa [Nat.add_right_comm] at hmem

/-! ## Starvation -/

omit [LinearOrder ν] in
theorem serves_stops {news seen rest : List (List ν × Bool)} (hserves : Serves budget w news service seen rest)
    (hnews : news ≠ []) (hbudget : budget.discovery ≤ w.visited + 1) :
    service.window.full budget = true := by
  rcases hserves.stops with ⟨-, rfl, -⟩ | ⟨-, hfull, -⟩
  · have hvisited := hserves.visited
    have hsplit := hserves.split
    rw [List.append_nil] at hsplit
    have hpos := List.length_pos_iff.mpr (hsplit ▸ hnews)
    have hfull : service.window.full budget = true := by
      unfold StreamWindow.full
      rw [Bool.or_eq_true]
      exact Or.inr (decide_eq_true (by omega))
    exact hfull
  · exact hfull

theorem serveRoots_full {last : Option (List ν)} {cursors : List ν → Option (List ν)}
    (h : w.full budget = true) (order : List (List ν)) :
    serveRoots tree budget last cursors w order = (cursors, w, last) := by
  cases order with
  | nil => rfl
  | cons root order => rw [serveRoots, if_pos h]

theorem serveRoots_repeated (hentries : tree.entries root ≠ [])
    (hbudget : budget.discovery = 1) (last : Option (List ν)) (cursors : List ν → Option (List ν))
    (order : List (List ν)) :
    (serveRoots tree budget last cursors ⟨[], 0⟩ (root :: root :: order)).snd.snd = some root
      ∧ ∀ m ∈ (serveRoots tree budget last cursors ⟨[], 0⟩
        (root :: root :: order)).snd.fst.collected, tree.Below root m := by
  have hcollected : ∀ (w : StreamWindow ν) (cursor : Option (List ν)) (service : StreamService ν)
      (seen rest : List (List ν × Bool)), (∀ m ∈ w.collected, tree.Below root m) →
      Serves budget w ((tree.entries root).filter fun e => isPast cursor e.fst) service seen rest →
      ∀ m ∈ service.window.collected, tree.Below root m :=
    fun w cursor service seen rest hw hserves m hm => (hserves.below hm).elim (hw m) id
  rw [serveRoots, if_neg (by simp [empty_not_full])]
  obtain ⟨service, seen, rest, hserves, hwindow, hcursors⟩ :=
    serveRoot_serves tree budget cursors ⟨[], 0⟩ root
  have hfirst := hcollected _ _ _ _ _ (fun m hm => absurd hm List.not_mem_nil) hserves
  rw [hwindow]
  cases hfull : service.window.full budget with
  | true =>
    rw [serveRoots_full hfull]
    exact ⟨rfl, hfirst⟩
  | false =>
    -- the end was reached without an entry, and the root is served again from its beginning
    rcases hserves.stops with ⟨hended, rfl, -⟩ | ⟨-, hnot, -⟩
    · rw [serveRoots, if_neg (by simp [hfull])]
      obtain ⟨service', seen', rest', hserves', hwindow', -⟩ := serveRoot_serves tree budget
        (serveRoot tree budget cursors ⟨[], 0⟩ root).fst service.window root
      have hcursor : (serveRoot tree budget cursors ⟨[], 0⟩ root).fst root = none := by
        rw [hcursors, hended, if_pos rfl, Function.update_self]
      have hall : ((tree.entries root).filter fun e =>
          isPast ((serveRoot tree budget cursors ⟨[], 0⟩ root).fst root) e.fst) ≠ [] := by
        rw [hcursor]
        simpa [isPast] using hentries
      have hvisited : service.window.visited = 0 := by
        have hlt : service.window.visited < budget.discovery := by
          unfold StreamWindow.full at hfull
          have := (Bool.or_eq_false_iff.mp hfull).2
          simpa using this
        omega
      have hstop := serves_stops hserves' hall (by omega)
      rw [hwindow', serveRoots_full hstop]
      exact ⟨rfl, hcollected _ _ _ _ _ hfirst hserves'⟩
    · exact absurd (hfull.symm.trans hnot) (by simp)

theorem split_repeated {roots : List (List ν)} (hsorted : roots.Pairwise (· ≤ ·))
    (hcount : 2 ≤ roots.count root) :
    ∃ before after, roots = before ++ root :: root :: after ∧ ∀ r ∈ before, r < root := by
  induction roots with
  | nil => simp at hcount
  | cons x roots ih =>
    obtain ⟨hle, hsorted⟩ := List.pairwise_cons.mp hsorted
    by_cases hx : x = root
    · subst hx
      rw [List.count_cons_self] at hcount
      have hmem : x ∈ roots := List.count_pos_iff.mp (by omega)
      match roots, hle, hsorted, hmem with
      | y :: after, hle, hsorted, hmem =>
        have hy : y = x := by
          refine le_antisymm ?_ (hle y List.mem_cons_self)
          rcases List.mem_cons.mp hmem with rfl | hmem
          · exact le_rfl
          · exact (List.pairwise_cons.mp hsorted).1 x hmem
        exact ⟨[], after, by rw [hy]; rfl, fun r hr => absurd hr List.not_mem_nil⟩
    · rw [List.count_cons_of_ne hx] at hcount
      obtain ⟨before, after, rfl, hbefore⟩ := ih hsorted hcount
      refine ⟨x :: before, after, rfl, fun r hr => ?_⟩
      rcases List.mem_cons.mp hr with rfl | hr
      · exact lt_of_le_of_ne (hle root (by simp)) hx
      · exact hbefore r hr

variable {before after : List (List ν)}

theorem next_repeated (hbefore : ∀ r ∈ before, r < root) :
    (before ++ root :: root :: after)[((before ++ root :: root :: after).idxOf root + 1)
      % (before ++ root :: root :: after).length]? = some root := by
  have hnot : root ∉ before := fun h => lt_irrefl root (hbefore root h)
  have hindex : (before ++ root :: root :: after).idxOf root = before.length := by
    rw [List.idxOf_append_of_notMem hnot, List.idxOf_cons_self, Nat.add_zero]
  rw [hindex, Nat.mod_eq_of_lt (by simp), List.getElem?_append_right (by omega)]
  simp

theorem rotate_repeated (hbefore : ∀ r ∈ before, r < root) : (before ++ root :: root :: after).rotate
        (streamStart (before ++ root :: root :: after) (some root))
      = root :: root :: (after ++ before) := by
  have hstart : streamStart (before ++ root :: root :: after) (some root) = before.length := by
    unfold streamStart
    simp only [bisectLeft_append (root :: after) hbefore]
    exact if_neg (by simp)
  rw [hstart, List.rotate_append_length_eq]
  rfl

theorem advance_repeated (hcount : 2 ≤ (streamRoots tree prefixes).count root)
    (hentries : tree.entries root ≠ []) (hbudget : budget.discovery = 1)
    (hstart : streamStart (streamRoots tree prefixes) s.rotation
      = streamStart (streamRoots tree prefixes) (some root)) :
    (s.advance tree prefixes budget).fst.rotation = some root
      ∧ ∀ m ∈ (s.advance tree prefixes budget).snd, tree.Below root m := by
  obtain ⟨before, after, hroots, hbefore⟩ := split_repeated (pairwise_streamRoots tree prefixes) hcount
  have hne : streamRoots tree prefixes ≠ [] := by simp [hroots]
  rw [advance_eq hne]
  unfold MarkerStream.round
  simp only
  rw [drop_append_take_eq hne, hstart, hroots, rotate_repeated hbefore]
  obtain ⟨hlast, hcollected⟩ := serveRoots_repeated hentries hbudget (root :: root :: (after ++ before)).head?
    (fun r => if r ∈ before ++ root :: root :: after then s.cursors r else none) (after ++ before)
  refine ⟨?_, hcollected⟩
  rw [hlast]
  exact next_repeated hbefore

theorem serveRoots_through (budget : StreamBudget) (before order : List (List ν)) (last : Option (List ν))
    (hcollected : w.collected.length ≤ w.visited)
    (hprocessing : budget.discovery ≤ budget.processing)
    (hbudget : w.visited + (before.map fun root => (tree.entries root).length).sum < budget.discovery) :
    ∃ last' w', serveRoots tree budget last (fun _ => none) w (before ++ order)
        = serveRoots tree budget last' (fun _ => none) w' order
      ∧ w'.visited = w.visited + (before.map fun root => (tree.entries root).length).sum
      ∧ w'.collected.length ≤ w'.visited := by
  induction before generalizing last w with
  | nil => exact ⟨last, w, rfl, rfl, hcollected⟩
  | cons root before ih =>
    rw [List.map_cons, List.sum_cons] at hbudget
    have hfull : w.full budget = false := by
      unfold StreamWindow.full
      simp only [Bool.or_eq_false_iff, decide_eq_false_iff_not]
      omega
    obtain ⟨service, seen, rest, hserves, hwindow, hcursors⟩ :=
      serveRoot_serves tree budget (fun _ => none) w root
    have hnews : ((tree.entries root).filter fun e => isPast none e.fst) = tree.entries root :=
      List.filter_eq_self.mpr fun e _ => rfl
    rw [hnews] at hserves
    have hlength : seen.length ≤ (tree.entries root).length := by
      rw [hserves.split, List.length_append]
      omega
    have hmarkers : (markersOf seen).length ≤ seen.length := by
      unfold markersOf
      rw [List.length_map]
      exact List.length_filter_le _ _
    have hvisited := hserves.visited
    have hcollected' : service.window.collected.length ≤ service.window.visited := by
      rw [hserves.collected, List.length_append]
      omega
    rcases hserves.stops with ⟨hended, rfl, -⟩ | ⟨-, hstop, -⟩
    · have hseen : seen = tree.entries root := by
        rw [hserves.split, List.append_nil]
      subst hseen
      obtain ⟨last', w', hrun, hw', hw''⟩ := ih (some root) hcollected' (by omega)
      refine ⟨last', w', ?_, ?_, hw''⟩
      · rw [List.cons_append, serveRoots, if_neg (by simp [hfull]), hwindow, hcursors, hended,
          if_pos rfl, Function.update_eq_self]
        exact hrun
      · rw [hw', hvisited, List.map_cons, List.sum_cons, Nat.add_assoc]
    · unfold StreamWindow.full at hstop
      rw [Bool.or_eq_true, decide_eq_true_eq, decide_eq_true_eq] at hstop
      omega

def oneEntry : StreamBudget := ⟨1, 1, Nat.one_pos, Nat.one_pos⟩

theorem reaches_repeated (hcount : 2 ≤ (streamRoots tree prefixes).count root) (hentries : tree.entries root ≠ []) :
    ∃ budget, (MarkerStream.fresh.advance tree prefixes budget).fst.rotation = some root := by
  obtain ⟨before, after, hroots, hbefore⟩ := split_repeated (pairwise_streamRoots tree prefixes) hcount
  have hne : streamRoots tree prefixes ≠ [] := by simp [hroots]
  let total := (before.map fun root => (tree.entries root).length).sum
  let budget : StreamBudget := ⟨total + 1, total + 1, Nat.succ_pos _, Nat.succ_pos _⟩
  refine ⟨budget, ?_⟩
  rw [advance_eq hne]
  unfold MarkerStream.round
  simp only
  rw [drop_append_take_eq hne]
  have hstart : streamStart (streamRoots tree prefixes) (MarkerStream.fresh : MarkerStream ν).rotation = 0 := by
    unfold streamStart
    exact ite_self 0
  have hknown : (fun r => if r ∈ streamRoots tree prefixes then
      (MarkerStream.fresh : MarkerStream ν).cursors r else none) = fun _ => none :=
    funext fun r => ite_self none
  rw [hstart, hknown, List.rotate_zero, hroots]
  have hbudget : (⟨[], 0⟩ : StreamWindow ν).visited
      + (before.map fun root => (tree.entries root).length).sum < budget.discovery := by
    show 0 + total < total + 1
    omega
  obtain ⟨last, w, hrun, hvisited, hcollected⟩ := serveRoots_through budget before
    (root :: root :: after) (before ++ root :: root :: after).head? (Nat.zero_le _) le_rfl hbudget
  have hvisited : w.visited = total := hvisited.trans (Nat.zero_add _)
  rw [hrun]
  have hfull : w.full budget = false := by
    unfold StreamWindow.full
    simp only [Bool.or_eq_false_iff, decide_eq_false_iff_not]
    show ¬ total + 1 ≤ w.collected.length ∧ ¬ total + 1 ≤ w.visited
    omega
  obtain ⟨service, seen, rest, hserves, hwindow, -⟩ :=
    serveRoot_serves tree budget (fun _ => none) w root
  have hstop := serves_stops hserves (by simpa [isPast] using hentries) (by
    show total + 1 ≤ w.visited + 1
    omega)
  rw [serveRoots, if_neg (by simp [hfull]), hwindow, serveRoots_full hstop]
  exact next_repeated hbefore

theorem starves (hcount : 2 ≤ (streamRoots tree prefixes).count root) (hentries : tree.entries root ≠ []) :
    ∃ budgets, ∀ n, ∀ m ∈ streamReturned tree prefixes budgets (n + 1), tree.Below root m := by
  obtain ⟨budget, hreached⟩ := reaches_repeated hcount hentries
  let budgets : ℕ → StreamBudget := fun n => if n = 0 then budget else oneEntry
  have hrotation : ∀ n, (streamAfter tree prefixes budgets (n + 1)).rotation = some root := by
    intro n
    induction n with
    | zero => exact hreached
    | succ n ih => exact (advance_repeated hcount hentries rfl (by rw [ih])).1
  exact ⟨budgets, fun n => (advance_repeated hcount hentries rfl (by rw [hrotation n])).2⟩

/-- **The stream covers its roots, unless a repeated one leaves something out**:
every marker below a root is returned within a bounded number of calls, from
any moment on and whatever the budgets, if and only if each prefix that is
assigned twice has no entries or the markers of all the others. -/
theorem stream_covers (tree : StateDirectory ν) (prefixes : List (List ν)) :
    (∀ (budgets : ℕ → StreamBudget) (n : ℕ), ∀ root ∈ streamRoots tree prefixes, ∀ m,
        tree.Below root m → ∃ k < callBound tree prefixes,
          m ∈ streamReturned tree prefixes budgets (n + k))
      ↔ RepeatsCover tree prefixes := by
  constructor
  · intro hcovered root hcount hentries other hother m hbelow
    have hprefixes : prefixes ≠ [] := List.ne_nil_of_mem hother
    have hperm := perm_streamRoots tree hprefixes
    rw [← hperm.count_eq] at hcount
    obtain ⟨budgets, hstarves⟩ := starves hcount hentries
    obtain ⟨k, -, hmem⟩ := hcovered budgets 1 other (hperm.mem_iff.mpr hother) m hbelow
    rw [Nat.add_comm] at hmem
    exact hstarves k m hmem
  · intro hrepeats budgets n root hroot m hbelow
    have hkept := hrepeats.notLeftOut hroot hbelow
    obtain ⟨k, hk, hmem⟩ := returned_within hkept budgets hroot hbelow n
    exact ⟨k, hk.trans_lt (distance_lt hroot hbelow _), hmem⟩

/-! ## A prefix that is assigned twice -/

def siblings : StateDirectory Char :=
  ⟨.branch 'a' (.leaf 'm' true .nil) (.branch 'b' (.leaf 'm' true .nil) .nil), by
    simp [Forest.Sorted, Forest.names]⟩

theorem streamRoots_siblings : streamRoots siblings [['a'], ['a'], ['b']] = [['a'], ['a'], ['b']] := by
  have hab : ['a'] < ['b'] := List.Lex.rel (by decide)
  exact List.mergeSort_of_pairwise (by simp [hab.le])

theorem siblings_served (n : ℕ) :
    ∀ m ∈ streamReturned siblings [['a'], ['a'], ['b']] (fun _ => oneEntry) n, siblings.Below ['a'] m := by
  have hcount : 2 ≤ (streamRoots siblings [['a'], ['a'], ['b']]).count ['a'] := by
    rw [streamRoots_siblings]
    decide
  have hentries : siblings.entries ['a'] ≠ [] := by decide +kernel
  have hstart : ∀ n, streamStart (streamRoots siblings [['a'], ['a'], ['b']])
      (streamAfter siblings [['a'], ['a'], ['b']] (fun _ => oneEntry) n).rotation
      = streamStart (streamRoots siblings [['a'], ['a'], ['b']]) (some ['a']) := by
    intro n
    cases n with
    | zero =>
      rw [streamRoots_siblings]
      simp [streamAfter, MarkerStream.fresh, streamStart, bisectLeft]
    | succ n =>
      induction n with
      | zero =>
        refine congrArg _ (advance_repeated hcount hentries rfl ?_).1
        rw [streamRoots_siblings]
        simp [streamAfter, MarkerStream.fresh, streamStart, bisectLeft]
      | succ n ih => exact congrArg _ (advance_repeated hcount hentries rfl ih).1
  exact (advance_repeated hcount hentries rfl (hstart n)).2

/-- **A directory starves beside one that is assigned twice**: with a budget of
one marker, no call ever returns the marker of the other. -/
theorem sibling_starves :
    ['b'] ∈ streamRoots siblings [['a'], ['a'], ['b']] ∧ siblings.Below ['b'] ['b', 'm']
      ∧ ∀ n, ['b', 'm'] ∉ streamReturned siblings [['a'], ['a'], ['b']] (fun _ => oneEntry) n := by
  have hoffside : ¬ siblings.Below ['a'] ['b', 'm'] := by decide +kernel
  refine ⟨by rw [streamRoots_siblings]; decide, by decide +kernel, fun n hmem => hoffside ?_⟩
  exact siblings_served n _ hmem
