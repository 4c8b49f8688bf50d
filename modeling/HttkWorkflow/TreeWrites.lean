import HttkWorkflow.FileTree

/-!
# Files written one after another

A program that fills a directory makes the directories above a file and then
writes the file, over what is there if that is a file. What is in the tree
after such a run is said by the list of what was written, the last first: at a
path is the content its last entry has (`Holds`), and where no entry is, no
file is. Directories that are made do not count.

Two things can go wrong between two files, and a file system refuses only one
of them. A file has nothing below it, so of two written files neither is
inside the other (`Holds.eq_of_within`): the second write fails. But a file
that is written twice has its last content, so each entry is what is at its
path exactly if the paths are different (`Holds.content_eq`), and nothing fails.
-/

universe u v

namespace FileTree

variable {κ : Type u} [DecidableEq κ] {ν : Type v}

variable {p : List κ}

theorem content_eq_some_iff {f : FileTree κ ν} {c : ν} : f.content p = some c ↔ f.look p = some (.file c) := by
  unfold content
  split
  · rename_i d h
    rw [h]
    exact ⟨fun heq => congrArg (some ∘ Node.file) (Option.some.inj heq), fun heq => by cases heq; rfl⟩
  · rename_i h
    exact ⟨fun heq => (by cases heq), fun heq => absurd heq (h c)⟩

theorem content_congr {f g : FileTree κ ν} (h : f.look p = g.look p) : f.content p = g.content p := by
  unfold content
  rw [h]

theorem content_of_not_file {f : FileTree κ ν} (h : f.present p = false ∨ f.isDir p = true) : f.content p = none := by
  unfold content
  rcases h with h | h
  · rw [present_eq_false.mp h]
  · rw [isDir_iff.mp h]

theorem content_makedirs {f : FileTree κ ν} (h : f.makeable p) (q : List κ) :
    (f.makedirs p h).content q = f.content q := by
  by_cases hq : q <+: p
  · rw [content_of_not_file (h q ((List.mem_inits q p).mpr hq))]
    exact content_of_not_file (Or.inr (isDir_iff.mpr (if_pos hq)))
  · exact content_congr (if_neg hq)

/-- **Whether a file can be written**: the directories above are there, and it is none itself. -/
def Writable (f : FileTree κ ν) (p : List κ) : Prop := f.parented p ∧ f.isDir p = false

instance (f : FileTree κ ν) (p : List κ) : Decidable (f.Writable p) := inferInstanceAs (Decidable (_ ∧ _))

/-- **`open(path, "wb")`** and a write: a file that is there is overwritten. -/
def write (f : FileTree κ ν) (p : List κ) (c : ν) (h : f.Writable p) : FileTree κ ν :=
  ofLook (fun q => if q = p then some (.file c) else f.look q) (insert p f.support)
    (fun q hq => by
      rw [Finset.mem_insert]
      split_ifs at hq with hqp
      · exact Or.inl hqp
      · exact Or.inr ((f.mem_support q).mpr hq))
    (fun q r hr hqr => by
      have hbelow : f.look q = some .dir := by
        by_cases hqrp : q ++ r = p
        · exact parented_iff.mp h.1 q (hqrp ▸ List.prefix_append q r)
            fun heq => hr (List.append_right_eq_self.mp (hqrp.trans heq.symm))
        · rw [if_neg hqrp] at hqr
          exact f.rooted q r hr hqr
      have hne : q ≠ p := fun heq => by
        rw [heq] at hbelow
        exact Bool.false_ne_true (h.2.symm.trans (isDir_iff.mpr hbelow))
      rw [if_neg hne, hbelow])

theorem content_write {f : FileTree κ ν} (c : ν) (h : f.Writable p) (q : List κ) :
    (f.write p c h).content q = if q = p then some c else f.content q := by
  split_ifs with hq
  · exact content_eq_some_iff.mpr (if_pos hq)
  · exact content_congr (if_neg hq)

theorem eq_of_within {f : FileTree κ ν} {p q : List κ} {c d : ν} (hp : f.content p = some c) (hq : f.content q = some d)
    (hpq : p <+: q) : p = q := by
  by_contra hne
  have hfile := content_eq_some_iff.mp hq
  have hdir : f.look p = some .dir := look_above hpq hne (by rw [hfile]; exact Option.some_ne_none _)
  rw [content_eq_some_iff.mp hp] at hdir
  cases hdir

/-! ## A run of writes -/

/-- **What a tree holds after a run of writes**, the last entry first. -/
def Holds (f : FileTree κ ν) (entries : List (List κ × ν)) : Prop := ∀ p, f.content p = entries.lookup p

namespace Holds

variable {f g : FileTree κ ν} {entries : List (List κ × ν)}

theorem makedirs (h : f.Holds entries) {p : List κ} (hp : f.makeable p) : (f.makedirs p hp).Holds entries := fun q =>
  (content_makedirs hp q).trans (h q)

theorem write (h : f.Holds entries) {p : List κ} (c : ν) (hp : f.Writable p) :
    (f.write p c hp).Holds ((p, c) :: entries) := fun q => by
  rw [content_write, List.lookup_cons, h q]
  by_cases hq : q = p
  · rw [if_pos hq, beq_iff_eq.mpr hq]
  · rw [if_neg hq, beq_false_of_ne hq]

variable {e : List κ × ν}

theorem exists_content (h : f.Holds entries) (he : e ∈ entries) : ∃ c, f.content e.fst = some c := by
  cases hlookup : entries.lookup e.fst with
  | some c => exact ⟨c, (h _).trans hlookup⟩
  | none => exact absurd (beq_self_eq_true e.fst) (by simpa using List.lookup_eq_none_iff.mp hlookup e he)

theorem exists_entry (h : f.Holds entries) {p : List κ} {c : ν} (hc : f.content p = some c) : (p, c) ∈ entries := by
  obtain ⟨l, r, hl, -⟩ := List.lookup_eq_some_iff.mp ((h p).symm.trans hc)
  exact hl ▸ List.mem_append_right _ List.mem_cons_self

theorem eq_of_within (h : f.Holds entries) {e e' : List κ × ν} (he : e ∈ entries) (he' : e' ∈ entries)
    (hwithin : e.fst <+: e'.fst) : e.fst = e'.fst := by
  obtain ⟨c, hc⟩ := h.exists_content he
  obtain ⟨d, hd⟩ := h.exists_content he'
  exact FileTree.eq_of_within hc hd hwithin

theorem content_eq (h : f.Holds entries) (hnodup : (entries.map Prod.fst).Nodup) (he : e ∈ entries) :
    f.content e.fst = some e.snd := by
  obtain ⟨c, hc⟩ := h.exists_content he
  have hmem : (e.fst, c) ∈ entries := h.exists_entry hc
  have heq : (e.fst, c) = e := List.inj_on_of_nodup_map hnodup hmem he rfl
  rw [hc, ← heq]

end Holds

end FileTree
