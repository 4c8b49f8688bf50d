import Mathlib.Data.List.Lex
import Mathlib.Data.List.Basic
import Mathlib.Algebra.Order.Ring.Nat

/-!
# Ordered forests

A directory is a list of named entries, and an entry that is a directory again
holds such a list. A `Forest` is that, read as it is walked: the entries of one
directory by name, each branch before what is below it. The position of an
entry is the list of names that leads to it, and the walk in preorder visits
positions in their lexicographic order, which is what lets a walk be resumed
after a position instead of at a state.
-/

universe u

/-- **A forest**: the entries of a directory. A leaf is marked or not. -/
inductive Forest (ν : Type u) where
  | nil
  | leaf (name : ν) (marked : Bool) (rest : Forest ν)
  | branch (name : ν) (entries rest : Forest ν)
deriving DecidableEq

namespace Forest

variable {ν : Type u}

def names : Forest ν → List ν
  | nil => []
  | leaf name _ rest => name :: rest.names
  | branch name _ rest => name :: rest.names

/-- **The walk in preorder**, of a directory at a position: the positions of the
entries, and which are marked. -/
def preorder (position : List ν) : Forest ν → List (List ν × Bool)
  | nil => []
  | leaf name marked rest => (position ++ [name], marked) :: rest.preorder position
  | branch name entries rest =>
    (position ++ [name], false) :: (entries.preorder (position ++ [name]) ++ rest.preorder position)

/-- How many entries there are. -/
def size : Forest ν → ℕ
  | nil => 0
  | leaf _ _ rest => rest.size + 1
  | branch _ entries rest => entries.size + rest.size + 1

/-- **Names increase** in every directory. -/
def Sorted [LT ν] : Forest ν → Prop
  | nil => True
  | leaf name _ rest => (∀ n ∈ rest.names, name < n) ∧ rest.Sorted
  | branch name entries rest => (∀ n ∈ rest.names, name < n) ∧ entries.Sorted ∧ rest.Sorted

def branches : Forest ν → List ν
  | nil => []
  | leaf _ _ rest => rest.branches
  | branch name _ rest => name :: rest.branches

section Child

variable [DecidableEq ν]

/-- The entries of a branch, none where there is none. -/
def child (name : ν) : Forest ν → Forest ν
  | nil => nil
  | leaf _ _ rest => rest.child name
  | branch n entries rest => if n = name then entries else rest.child name

/-- What is below a position. -/
def subforest : List ν → Forest ν → Forest ν
  | [], f => f
  | name :: position, f => (f.child name).subforest position

theorem size_child_le (name : ν) (f : Forest ν) : (f.child name).size ≤ f.size := by
  induction f with
  | nil => exact le_rfl
  | leaf n marked rest ih => exact ih.trans (Nat.le_succ _)
  | branch n entries rest _ ih =>
    show (if n = name then entries else rest.child name).size ≤ entries.size + rest.size + 1
    split_ifs
    · omega
    · omega

theorem size_subforest_le (position : List ν) (f : Forest ν) : (f.subforest position).size ≤ f.size := by
  induction position generalizing f with
  | nil => exact le_rfl
  | cons name position ih => exact (ih (f.child name)).trans (size_child_le name f)

variable {f : Forest ν}

theorem Sorted.child [LT ν] (h : f.Sorted) (name : ν) : (f.child name).Sorted := by
  induction f with
  | nil => exact h
  | leaf n marked rest ih => exact ih h.2
  | branch n entries rest _ ih =>
    show (if n = name then entries else rest.child name).Sorted
    split_ifs
    · exact h.2.1
    · exact ih h.2.2

theorem Sorted.subforest [LT ν] (h : f.Sorted) (position : List ν) : (f.subforest position).Sorted := by
  induction position generalizing f with
  | nil => exact h
  | cons name position ih => exact ih (h.child name)

theorem subforest_append (f : Forest ν) (above below : List ν) :
    f.subforest (above ++ below) = (f.subforest above).subforest below := by
  induction above generalizing f with
  | nil => rfl
  | cons name above ih => exact ih (f.child name)

@[simp] theorem subforest_nil (position : List ν) : (nil : Forest ν).subforest position = nil := by
  induction position with
  | nil => rfl
  | cons name position ih => exact ih

@[simp] theorem child_branch_self (name : ν) (entries rest : Forest ν) :
    (branch name entries rest).child name = entries := if_pos rfl

theorem child_branch_of_ne {n name : ν} (h : n ≠ name) (entries rest : Forest ν) :
    (branch n entries rest).child name = rest.child name := if_neg h

theorem child_eq_nil {name : ν} (h : name ∉ f.names) : f.child name = nil := by
  induction f with
  | nil => rfl
  | leaf n marked rest ih => exact ih fun hmem => h (List.mem_cons_of_mem _ hmem)
  | branch n entries rest _ ih =>
    have hne : n ≠ name := by
      rintro rfl
      exact h List.mem_cons_self
    rw [child_branch_of_ne hne]
    exact ih fun hmem => h (List.mem_cons_of_mem _ hmem)

end Child

@[simp] theorem length_preorder (position : List ν) (f : Forest ν) : (f.preorder position).length = f.size := by
  induction f generalizing position with
  | nil => rfl
  | leaf name marked rest ih => exact congrArg (· + 1) (ih position)
  | branch name entries rest ihe ih =>
    rw [preorder, List.length_cons, List.length_append, ihe, ih, size]

theorem mem_preorder {position : List ν} {f : Forest ν} {e : List ν × Bool}
    (h : e ∈ f.preorder position) : ∃ name ∈ f.names, ∃ rest, e.fst = position ++ name :: rest := by
  induction f generalizing position with
  | nil => exact absurd h List.not_mem_nil
  | leaf name marked rest ih =>
    rcases List.mem_cons.mp h with rfl | h
    · exact ⟨name, List.mem_cons_self, [], rfl⟩
    · obtain ⟨n, hn, below, hbelow⟩ := ih h
      exact ⟨n, List.mem_cons_of_mem _ hn, below, hbelow⟩
  | branch name entries rest ihe ih =>
    rcases List.mem_cons.mp h with rfl | h
    · exact ⟨name, List.mem_cons_self, [], rfl⟩
    · rcases List.mem_append.mp h with h | h
      · obtain ⟨n, -, below, hbelow⟩ := ihe h
        refine ⟨name, List.mem_cons_self, n :: below, ?_⟩
        rw [hbelow, List.append_assoc]
        rfl
      · obtain ⟨n, hn, below, hbelow⟩ := ih h
        exact ⟨n, List.mem_cons_of_mem _ hn, below, hbelow⟩

theorem branches_sublist (f : Forest ν) : f.branches.Sublist f.names := by
  induction f with
  | nil => exact List.Sublist.slnil
  | leaf name marked rest ih => exact ih.cons name
  | branch name entries rest _ ih => exact ih.cons_cons name

section Order

variable [LinearOrder ν]

variable {f : Forest ν} {position : List ν} {e : List ν × Bool}

variable {name : ν}

theorem mem_preorder_of_child (h : e ∈ (f.child name).preorder (position ++ [name])) : e ∈ f.preorder position := by
  induction f with
  | nil => exact h
  | leaf n marked rest ih => exact List.mem_cons_of_mem _ (ih h)
  | branch n entries rest _ ih =>
    refine List.mem_cons_of_mem _ (List.mem_append.mpr ?_)
    by_cases hname : n = name
    · rw [hname, child_branch_self] at h
      rw [hname]
      exact Or.inl h
    · rw [child_branch_of_ne hname] at h
      exact Or.inr (ih h)

theorem Sorted.exists_child (hsorted : f.Sorted)
    (h : e ∈ f.preorder position) (hdeep : position.length + 2 ≤ e.fst.length) :
    ∃ name ∈ f.branches, e ∈ (f.child name).preorder (position ++ [name]) := by
  induction f with
  | nil => exact absurd h List.not_mem_nil
  | leaf n marked rest ih =>
    rcases List.mem_cons.mp h with rfl | h
    · simp at hdeep
    · exact ih hsorted.2 h
  | branch n entries rest _ ih =>
    obtain ⟨hnames, -, hrest⟩ := hsorted
    rcases List.mem_cons.mp h with rfl | h
    · simp at hdeep
    · rcases List.mem_append.mp h with h | h
      · refine ⟨n, List.mem_cons_self, ?_⟩
        rwa [child_branch_self]
      · obtain ⟨name, hname, hmem⟩ := ih hrest h
        refine ⟨name, List.mem_cons_of_mem _ hname, ?_⟩
        have hne : n ≠ name := (hnames name ((branches_sublist rest).subset hname)).ne
        rwa [child_branch_of_ne hne]

theorem Sorted.nodup_names (h : f.Sorted) : f.names.Nodup := by
  induction f with
  | nil => exact List.nodup_nil
  | leaf name marked rest ih =>
    exact List.nodup_cons.mpr ⟨fun hmem => lt_irrefl name (h.1 name hmem), ih h.2⟩
  | branch name entries rest _ ih =>
    exact List.nodup_cons.mpr ⟨fun hmem => lt_irrefl name (h.1 name hmem), ih h.2.2⟩

theorem append_cons_lt {n : ν} (h : name < n) (rest rest' : List ν) :
    position ++ name :: rest < position ++ n :: rest' :=
  List.append_left_lt (List.Lex.rel h)

theorem lt_append_cons (position : List ν) (n : ν) (rest : List ν) : position < position ++ n :: rest := by
  have h : position ++ [] < position ++ n :: rest := List.append_left_lt List.Lex.nil
  rwa [List.append_nil] at h

theorem lt_of_mem_preorder (hnames : ∀ n ∈ f.names, name < n) (rest : List ν)
    (he : e ∈ f.preorder position) : position ++ name :: rest < e.fst := by
  obtain ⟨n, hn, rest', hrest'⟩ := mem_preorder he
  rw [hrest']
  exact append_cons_lt (hnames n hn) rest rest'

theorem Sorted.pairwise_preorder (h : f.Sorted) (position : List ν) :
    (f.preorder position).Pairwise fun e e' => e.fst < e'.fst := by
  induction f generalizing position with
  | nil => exact List.Pairwise.nil
  | leaf name marked rest ih =>
    refine List.pairwise_cons.mpr ⟨fun e he => ?_, ih h.2 position⟩
    exact lt_of_mem_preorder h.1 [] he
  | branch name entries rest ihe ih =>
    obtain ⟨hnames, hentries, hsorted⟩ := h
    refine List.pairwise_cons.mpr ⟨fun e he => ?_, List.pairwise_append.mpr
      ⟨ihe hentries _, ih hsorted position, fun e he e' he' => ?_⟩⟩
    · rcases List.mem_append.mp he with he | he
      · obtain ⟨n, -, rest, hrest⟩ := mem_preorder he
        rw [hrest]
        exact lt_append_cons _ n rest
      · exact lt_of_mem_preorder hnames [] he
    · obtain ⟨n, -, rest, hrest⟩ := mem_preorder he
      rw [hrest, List.append_assoc]
      exact lt_of_mem_preorder hnames (n :: rest) he'

end Order

end Forest
