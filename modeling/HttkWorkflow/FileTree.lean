import Mathlib.Data.Finset.Image
import Mathlib.Data.List.Infix

/-!
# Directory trees

A directory tree is read at paths: nothing is there, or a directory, or a
file with its contents. `FileTree` is that reading together with the finite
set of paths that carry something, so that questions about everything below
a directory can be computed, and with the proof that whatever has an entry
below it is a directory. Both fields are determined by the reading
(`FileTree.ext_look`), so two trees are equal when they read equal.

The two system calls that change a tree are `mkdir` and `rename`, and both
are partial: `rename` replaces a file by a file and an empty directory by a
directory, and fails otherwise, as POSIX has it.
-/

universe u v

/-- **What a path can carry.** -/
inductive Node (ν : Type v) where
  | dir
  | file (content : ν)
deriving DecidableEq, Repr

/-- **A directory tree** over names `κ` and file contents `ν`. -/
structure FileTree (κ : Type u) [DecidableEq κ] (ν : Type v) where
  /-- What each path carries. -/
  look : List κ → Option (Node ν)
  /-- The paths that carry something. -/
  support : Finset (List κ)
  mem_support : ∀ p, p ∈ support ↔ (look p).isSome = true
  rooted : ∀ p q, q ≠ [] → (look (p ++ q)).isSome = true → look p = some .dir

namespace FileTree

variable {κ : Type u} [DecidableEq κ] {ν : Type v}

/-- **Trees that read equal are equal.** -/
theorem ext_look {f g : FileTree κ ν} (h : ∀ p, f.look p = g.look p) : f = g := by
  obtain ⟨l, S, hS, hr⟩ := f
  obtain ⟨l', S', hS', hr'⟩ := g
  obtain rfl : l = l' := funext h
  obtain rfl : S = S' := Finset.ext fun p => (hS p).trans (hS' p).symm
  rfl

/-- A tree from its reading and a finite set of paths that bounds it. -/
def ofLook (look : List κ → Option (Node ν)) (bound : Finset (List κ))
    (hbound : ∀ p, (look p).isSome = true → p ∈ bound)
    (hrooted : ∀ p q, q ≠ [] → (look (p ++ q)).isSome = true → look p = some .dir) :
    FileTree κ ν where
  look := look
  support := bound.filter (fun p => (look p).isSome = true)
  mem_support p := by
    rw [Finset.mem_filter]
    exact ⟨fun h => h.2, fun h => ⟨hbound p h, h⟩⟩
  rooted := hrooted

/-- A tree from a list of its entries, the directories above each included. -/
def ofEntries (entries : List (List κ × Node ν))
    (h : ∀ e ∈ entries, ∀ q ∈ e.fst.inits, q ≠ e.fst → (entries.lookup q matches some .dir) = true) :
    FileTree κ ν :=
  ofLook (fun p => entries.lookup p) (entries.map Prod.fst).toFinset
    (fun p hp => by
      rw [List.mem_toFinset, List.mem_map]
      obtain ⟨n, hn⟩ := Option.isSome_iff_exists.mp hp
      obtain ⟨l, r, rfl, -⟩ := List.lookup_eq_some_iff.mp hn
      exact ⟨(p, n), by simp, rfl⟩)
    (fun p q hq hpq => by
      obtain ⟨n, hn⟩ := Option.isSome_iff_exists.mp hpq
      obtain ⟨l, r, hl, -⟩ := List.lookup_eq_some_iff.mp hn
      have := h (p ++ q, n) (by rw [hl]; simp) p ((List.mem_inits _ _).mpr (List.prefix_append p q))
        (fun heq => hq (List.append_right_eq_self.mp heq.symm))
      split at this
      · assumption
      · cases this)

/-- Whether something is at a path. -/
def present (f : FileTree κ ν) (p : List κ) : Bool := (f.look p).isSome

/-- Whether a path is a directory. -/
def isDir (f : FileTree κ ν) (p : List κ) : Bool :=
  match f.look p with
  | some .dir => true
  | _ => false

def isFile (f : FileTree κ ν) (p : List κ) : Bool :=
  match f.look p with
  | some (.file _) => true
  | _ => false

def content (f : FileTree κ ν) (p : List κ) : Option ν :=
  match f.look p with
  | some (.file c) => some c
  | _ => none

variable {f : FileTree κ ν} {p : List κ}

@[simp] theorem isDir_iff : f.isDir p = true ↔ f.look p = some .dir := by
  unfold isDir
  split
  · rename_i h
    exact ⟨fun _ => h, fun _ => rfl⟩
  · rename_i h
    exact ⟨fun h' => (by cases h'), fun h' => absurd h' h⟩

theorem isFile_iff : f.isFile p = true ↔ ∃ c, f.look p = some (.file c) := by
  unfold isFile
  split
  · rename_i c h
    exact ⟨fun _ => ⟨c, h⟩, fun _ => rfl⟩
  · rename_i h
    exact ⟨fun h' => (by cases h'), fun ⟨c, h'⟩ => absurd h' (h c)⟩

theorem present_iff : f.present p = true ↔ f.look p ≠ none := by
  unfold present
  rw [Option.isSome_iff_ne_none]

theorem present_eq_false : f.present p = false ↔ f.look p = none := by
  unfold present
  rw [Option.isSome_eq_false_iff, Option.isNone_iff_eq_none]

theorem look_above {p q : List κ} (hpq : p <+: q) (hne : p ≠ q) (hq : f.look q ≠ none) : f.look p = some .dir := by
  obtain ⟨r, rfl⟩ := hpq
  refine f.rooted p r ?_ (Option.isSome_iff_ne_none.mpr hq)
  rintro rfl
  exact hne (List.append_nil p).symm

theorem look_below {p q : List κ} (hpq : p <+: q) (hp : f.look p = none) : f.look q = none := by
  by_contra hq
  by_cases hne : p = q
  · exact hq (hne ▸ hp)
  · rw [look_above hpq hne hq] at hp
    cases hp

/-- **The tree below a path**, read from that path. -/
def subtree (f : FileTree κ ν) (p : List κ) : FileTree κ ν :=
  ofLook (fun q => f.look (p ++ q)) (f.support.image (fun q => q.drop p.length))
    (fun q hq => Finset.mem_image.mpr
      ⟨p ++ q, (f.mem_support _).mpr hq, List.drop_left⟩)
    (fun q r hr hqr => f.rooted (p ++ q) r hr (by rw [List.append_assoc]; exact hqr))

@[simp] theorem look_subtree (f : FileTree κ ν) (p q : List κ) : (f.subtree p).look q = f.look (p ++ q) := rfl

/-- Whether every directory above a path is there. -/
def parented (f : FileTree κ ν) (p : List κ) : Prop := ∀ q ∈ p.inits, q ≠ p → f.isDir q = true

instance (f : FileTree κ ν) (p : List κ) : Decidable (f.parented p) :=
  inferInstanceAs (Decidable (∀ q ∈ p.inits, q ≠ p → f.isDir q = true))

theorem parented_iff : f.parented p ↔ ∀ q, q <+: p → q ≠ p → f.look q = some .dir := by
  unfold parented
  refine forall_congr' fun q => ?_
  rw [List.mem_inits, isDir_iff]

/-- **`os.mkdir`**: a new directory below directories. -/
def mkdir (f : FileTree κ ν) (p : List κ) (h : f.look p = none ∧ f.parented p) : FileTree κ ν :=
  ofLook (fun q => if q = p then some .dir else f.look q) (insert p f.support)
    (fun q hq => by
      rw [Finset.mem_insert]
      by_cases hqp : q = p
      · exact Or.inl hqp
      · rw [if_neg hqp] at hq
        exact Or.inr ((f.mem_support q).mpr hq))
    (fun q r hr hqr => by
      by_cases hqp : q = p
      · exact if_pos hqp
      · rw [if_neg hqp]
        by_cases hqrp : q ++ r = p
        · exact parented_iff.mp h.2 q ⟨r, hqrp⟩ hqp
        · rw [if_neg hqrp] at hqr
          exact f.rooted q r hr hqr)

@[simp] theorem look_mkdir (f : FileTree κ ν) (p q : List κ) (h : f.look p = none ∧ f.parented p) :
    (f.mkdir p h).look q = if q = p then some .dir else f.look q := rfl

/-- Whether a directory has no entry. -/
def isEmptyDir (f : FileTree κ ν) (p : List κ) : Prop :=
  f.isDir p = true ∧ ∀ q ∈ f.support, p <+: q → q = p

instance (f : FileTree κ ν) (p : List κ) : Decidable (f.isEmptyDir p) :=
  inferInstanceAs (Decidable (_ ∧ _))

theorem isEmptyDir_iff : f.isEmptyDir p ↔ f.look p = some .dir ∧ ∀ q, p <+: q → q ≠ p → f.look q = none := by
  unfold isEmptyDir
  rw [isDir_iff]
  refine and_congr_right fun _ => forall_congr' fun q => ?_
  rw [f.mem_support, ← Option.ne_none_iff_isSome]
  tauto

/-- **When `rename(2)` succeeds**, for two paths neither of which is above
the other: the source is there and so are the directories above the
destination, and what is at the destination may be replaced. -/
def Renamable (f : FileTree κ ν) (s d : List κ) : Prop :=
  f.present s = true ∧ ¬s <+: d ∧ f.parented d ∧
    (f.present d = false ∨ (f.isFile s = true ∧ f.isFile d = true)
      ∨ (f.isDir s = true ∧ f.isEmptyDir d))

instance (f : FileTree κ ν) (s d : List κ) : Decidable (f.Renamable s d) :=
  inferInstanceAs (Decidable (_ ∧ _ ∧ _ ∧ _))

/-- What the paths carry after a rename. -/
def moved (look : List κ → Option (Node ν)) (s d q : List κ) : Option (Node ν) :=
  if d <+: q then look (s ++ q.drop d.length)
  else if s <+: q then none else look q

/-- **`os.rename`**: the tree below the source is at the destination. -/
def rename (f : FileTree κ ν) (s d : List κ) (h : f.Renamable s d) : FileTree κ ν :=
  ofLook (moved f.look s d)
    (f.support ∪ f.support.image (fun q => d ++ q.drop s.length))
    (fun q hq => by
      unfold moved at hq
      rw [Finset.mem_union]
      split_ifs at hq with hd hs
      · obtain ⟨r, rfl⟩ := hd
        rw [List.drop_left] at hq
        exact Or.inr (Finset.mem_image.mpr
          ⟨s ++ r, (f.mem_support _).mpr hq, by rw [List.drop_left]⟩)
      · cases hq
      · exact Or.inl ((f.mem_support q).mpr hq))
    (fun p q hq hpq => by
      unfold moved at hpq ⊢
      by_cases hdp : d <+: p
      · -- both are below the destination
        obtain ⟨r, rfl⟩ := hdp
        rw [if_pos (List.prefix_append d r), List.drop_left]
        rw [if_pos ((List.prefix_append d r).trans (List.prefix_append _ q)),
          List.append_assoc, List.drop_left, ← List.append_assoc] at hpq
        exact f.rooted (s ++ r) q hq hpq
      · rw [if_neg hdp]
        have hsp : d <+: p ++ q → ¬s <+: p := by
          intro hd hs
          have hpd : p <+: d := by
            rcases List.prefix_or_prefix_of_prefix hd (List.prefix_append p q) with h' | h'
            · exact absurd h' hdp
            · exact h'
          exact h.2.1 (hs.trans hpd)
        by_cases hd : d <+: p ++ q
        · -- the path is one of the directories above the destination
          have hpd : p <+: d := by
            rcases List.prefix_or_prefix_of_prefix hd (List.prefix_append p q) with h' | h'
            · exact absurd h' hdp
            · exact h'
          rw [if_neg (hsp hd)]
          refine parented_iff.mp h.2.2.1 p hpd ?_
          rintro rfl
          exact hdp (List.prefix_refl _)
        · rw [if_neg hd] at hpq
          split_ifs at hpq with hs
          · cases hpq
          · have hsp' : ¬s <+: p := fun h' => hs (h'.trans (List.prefix_append p q))
            rw [if_neg hsp']
            exact f.rooted p q hq hpq)

@[simp] theorem look_rename (f : FileTree κ ν) (s d q : List κ) (h : f.Renamable s d) :
    (f.rename s d h).look q = moved f.look s d q := rfl

variable {look : List κ → Option (Node ν)} {s d q : List κ}

theorem moved_of_not (hd : ¬d <+: q) (hs : ¬s <+: q) : moved look s d q = look q := by
  unfold moved
  rw [if_neg hd, if_neg hs]

theorem moved_source (hd : ¬d <+: q) (hs : s <+: q) : moved look s d q = none := by
  unfold moved
  rw [if_neg hd, if_pos hs]

/-! ## A tree that comes from elsewhere -/

/-- Whether a directory and those above it are there or can be made. -/
def makeable (f : FileTree κ ν) (p : List κ) : Prop :=
  ∀ q ∈ p.inits, f.present q = false ∨ f.isDir q = true

instance (f : FileTree κ ν) (p : List κ) : Decidable (f.makeable p) :=
  inferInstanceAs (Decidable (∀ q ∈ p.inits, f.present q = false ∨ f.isDir q = true))

/-- **`mkdir -p`**: a directory and those above it, where they are not there. -/
def makedirs (f : FileTree κ ν) (p : List κ) (_ : f.makeable p) : FileTree κ ν :=
  ofLook (fun q => if q <+: p then some .dir else f.look q) (f.support ∪ p.inits.toFinset)
    (fun q hq => by
      rw [Finset.mem_union, List.mem_toFinset, List.mem_inits]
      split_ifs at hq with hqp
      · exact Or.inr hqp
      · exact Or.inl ((f.mem_support q).mpr hq))
    (fun q r hr hqr => by
      by_cases hqp : q <+: p
      · exact if_pos hqp
      · rw [if_neg hqp]
        rw [if_neg fun h' => hqp ((List.prefix_append q r).trans h')] at hqr
        exact f.rooted q r hr hqr)

@[simp] theorem look_makedirs (f : FileTree κ ν) (p q : List κ) (h : f.makeable p) :
    (f.makedirs p h).look q = if q <+: p then some .dir else f.look q := rfl

theorem isDir_makedirs {p q : List κ} (h : f.makeable p) (hq : f.isDir q = true) :
    (f.makedirs p h).isDir q = true := by
  rw [isDir_iff, look_makedirs]
  split_ifs
  · rfl
  · exact isDir_iff.mp hq

/-- **Whether a directory can be moved to a path** from outside the tree: the
directories above are there, and nothing or an empty directory is at it. -/
def Vacant (f : FileTree κ ν) (p : List κ) : Prop :=
  f.parented p ∧ (f.present p = false ∨ f.isEmptyDir p)

instance (f : FileTree κ ν) (p : List κ) : Decidable (f.Vacant p) :=
  inferInstanceAs (Decidable (_ ∧ _))

/-- **`os.rename`** of a directory from outside the tree. -/
def graft (f : FileTree κ ν) (p : List κ) (g : FileTree κ ν) (h : f.Vacant p) : FileTree κ ν :=
  ofLook (fun q => if p <+: q then g.look (q.drop p.length) else f.look q)
    (f.support ∪ g.support.image (p ++ ·))
    (fun q hq => by
      rw [Finset.mem_union]
      split_ifs at hq with hpq
      · obtain ⟨r, rfl⟩ := hpq
        rw [List.drop_left] at hq
        exact Or.inr (Finset.mem_image.mpr ⟨r, (g.mem_support _).mpr hq, rfl⟩)
      · exact Or.inl ((f.mem_support q).mpr hq))
    (fun q r hr hqr => by
      by_cases hpq : p <+: q
      · obtain ⟨t, rfl⟩ := hpq
        rw [if_pos (List.prefix_append p t), List.drop_left]
        rw [if_pos ((List.prefix_append p t).trans (List.prefix_append _ r)), List.append_assoc,
          List.drop_left] at hqr
        exact g.rooted t r hr hqr
      · rw [if_neg hpq]
        by_cases hpqr : p <+: q ++ r
        · have hqp : q <+: p :=
            (List.prefix_or_prefix_of_prefix hpqr (List.prefix_append q r)).resolve_left hpq
          refine parented_iff.mp h.1 q hqp ?_
          rintro rfl
          exact hpq (List.prefix_refl _)
        · rw [if_neg hpqr] at hqr
          exact f.rooted q r hr hqr)

@[simp] theorem look_graft (f : FileTree κ ν) (p q : List κ) (g : FileTree κ ν) (h : f.Vacant p) :
    (f.graft p g h).look q = if p <+: q then g.look (q.drop p.length) else f.look q := rfl

theorem subtree_graft (f : FileTree κ ν) (p : List κ) (g : FileTree κ ν) (h : f.Vacant p) :
    (f.graft p g h).subtree p = g :=
  ext_look fun q => by
    rw [look_subtree, look_graft, if_pos (List.prefix_append p q), List.drop_left]

theorem isDir_graft {f g : FileTree κ ν} {p q : List κ} (h : f.Vacant p) (hg : g.isDir [] = true)
    (hq : f.isDir q = true) : (f.graft p g h).isDir q = true := by
  rw [isDir_iff] at hg hq ⊢
  rw [look_graft]
  split_ifs with hpq
  · -- nothing was below the path, so the directory is at it
    have hqp : q = p := by
      by_contra hne
      rcases h.2 with habsent | hempty
      · exact absurd (look_below hpq (present_eq_false.mp habsent)) (by rw [hq]; simp)
      · exact absurd ((isEmptyDir_iff.mp hempty).2 q hpq hne) (by rw [hq]; simp)
    rw [hqp, List.drop_length]
    exact hg
  · exact hq

end FileTree
