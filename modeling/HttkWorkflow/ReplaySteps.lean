import HttkWorkflow.Replay

/-!
# What one step of a replay does

The specifications of the system calls and of the operations, as relations
between the tree before and the tree after. `Opened` is a chain of
directories made, `Installs` a rename with the directories above its
destination made first, and `Operation.Applies` is what an operation does
when it returns. A crash inside one of them leaves a tree that is only
`Between`: some of the missing directories exist already.
-/

variable {ν : Type} {env : ReplayEnv ν} {f g c : FileTree PyStr ν} {u : PUnit}
variable {p q s d : List PyStr}

/-! ## Chains of directories -/

/-- No file is in the way of a chain of directories. -/
def Clear (f : FileTree PyStr ν) (p : List PyStr) : Prop :=
  ∀ q, q <+: p → ∀ content, f.look q ≠ some (.file content)

/-- One tree is another with all the directories down to a path. -/
def Opened (f : FileTree PyStr ν) (p : List PyStr) (g : FileTree PyStr ν) : Prop :=
  ∀ q, g.look q = if q <+: p then some .dir else f.look q

/-- **A crash on the way**: one tree is another with some of the missing
directories down to a path. -/
def Between (f : FileTree PyStr ν) (p : List PyStr) (c : FileTree PyStr ν) : Prop :=
  ∀ q, c.look q = f.look q ∨ (q <+: p ∧ f.look q = none ∧ c.look q = some .dir)

theorem Between.refl (f : FileTree PyStr ν) (p : List PyStr) : Between f p f :=
  fun _ => Or.inl rfl

theorem Between.trans (h : Between f p g) (h' : Between g p c) : Between f p c := by
  intro q
  rcases h q with hq | ⟨hqp, hf, hg⟩
  · rcases h' q with hq' | ⟨hqp', hg', hc⟩
    · exact Or.inl (hq'.trans hq)
    · exact Or.inr ⟨hqp', hq ▸ hg', hc⟩
  · rcases h' q with hq' | ⟨-, hg', -⟩
    · exact Or.inr ⟨hqp, hf, hq'.trans hg⟩
    · rw [hg] at hg'
      cases hg'

theorem Between.look_of_not (h : Between f p c) (hq : ¬q <+: p) : c.look q = f.look q := by
  rcases h q with h | ⟨h, -⟩
  · exact h
  · exact absurd h hq

theorem Between.look_of_ne (h : Between f p c) (hq : f.look q ≠ none) : c.look q = f.look q := by
  rcases h q with h | ⟨-, h, -⟩
  · exact h
  · exact absurd h hq

theorem Between.clear (h : Between f p c) : Clear c p ↔ Clear f p := by
  refine forall_congr' fun q => forall_congr' fun _ => forall_congr' fun content => ?_
  rcases h q with h | ⟨-, hf, hc⟩
  · rw [h]
  · rw [hf, hc]
    exact ⟨fun _ hno => (by cases hno), fun _ hno => (by cases hno)⟩

theorem Between.opened (h : Between f p c) : Opened c p g ↔ Opened f p g := by
  refine forall_congr' fun q => ?_
  by_cases hq : q <+: p
  · rw [if_pos hq, if_pos hq]
  · rw [if_neg hq, if_neg hq, h.look_of_not hq]

theorem Opened.between (h : Opened f p g) (hf : Clear f p) : Between f p g := by
  intro q
  rw [h q]
  split_ifs with hq
  · cases hlook : f.look q with
    | none => exact Or.inr ⟨hq, rfl, rfl⟩
    | some n =>
      cases n with
      | dir => exact Or.inl rfl
      | file content => exact absurd hlook (hf q hq content)
  · exact Or.inl rfl

theorem Opened.unique (h : Opened f p g) (h' : Opened f p c) : g = c :=
  FileTree.ext_look fun q => (h q).trans (h' q).symm

theorem Opened.self (h : f.look p = some .dir) : Opened f p f := by
  intro q
  split_ifs with hq
  · by_cases hqp : q = p
    · rw [hqp, h]
    · exact FileTree.look_above hq hqp (by rw [h]; exact Option.some_ne_none _)
  · rfl

theorem clear_of_dir (h : f.look p = some .dir) : Clear f p := by
  intro q hq content hfile
  by_cases hqp : q = p
  · rw [hqp, h] at hfile
    cases hfile
  · rw [FileTree.look_above hq hqp (by rw [h]; exact Option.some_ne_none _)] at hfile
    cases hfile

theorem mkdirOne_returns (hq : f.parented q) : (mkdirOne q).Returns f u g
    ↔ (∀ content, f.look q ≠ some (.file content))
      ∧ ∀ x, g.look x = if x = q then some .dir else f.look x := by
  unfold mkdirOne
  rw [Effects.returns_current_bind]
  split_ifs with hdir hnone
  · rw [FileTree.isDir_iff] at hdir
    rw [Effects.returns_pure]
    constructor
    · rintro ⟨-, rfl⟩
      refine ⟨fun content hfile => ?_, fun x => ?_⟩
      · rw [hdir] at hfile
        cases hfile
      · split_ifs with hx
        · rw [hx, hdir]
        · rfl
    · rintro ⟨-, hg⟩
      refine ⟨rfl, FileTree.ext_look fun x => ?_⟩
      rw [hg x]
      split_ifs with hx
      · rw [hx]
        exact hdir
      · rfl
  · rw [Effects.returns_emit]
    constructor
    · rintro ⟨-, rfl⟩
      refine ⟨fun content hfile => ?_, fun x => rfl⟩
      rw [hnone.1] at hfile
      cases hfile
    · rintro ⟨-, hg⟩
      exact ⟨rfl, FileTree.ext_look fun x => (hg x).symm⟩
  · refine ⟨fun h => absurd h Effects.returns_raise, fun h => ?_⟩
    exfalso
    cases hlook : f.look q with
    | none => exact hnone ⟨hlook, hq⟩
    | some n =>
      cases n with
      | dir => exact hdir (FileTree.isDir_iff.mpr hlook)
      | file content => exact h.1 content hlook

theorem exists_made (hq : f.parented q) (hfile : ∀ content, f.look q ≠ some (.file content)) :
    ∃ m : FileTree PyStr ν, ∀ x, m.look x = if x = q then some .dir else f.look x := by
  cases hlook : f.look q with
  | none => exact ⟨f.mkdir q ⟨hlook, hq⟩, fun x => rfl⟩
  | some n =>
    cases n with
    | file content => exact absurd hlook (hfile content)
    | dir =>
      refine ⟨f, fun x => ?_⟩
      split_ifs with hx
      · rw [hx, hlook]
      · rfl

theorem mkdirOne_visits (h : (mkdirOne q).Visits f c) : Between f q c := by
  unfold mkdirOne at h
  rw [Effects.visits_current_bind] at h
  split_ifs at h with hdir hnone
  · rw [Effects.visits_pure h]
    exact Between.refl _ q
  · rcases Effects.visits_emit h with rfl | rfl
    · exact Between.refl _ q
    · intro x
      rw [FileTree.look_mkdir]
      split_ifs with hx
      · exact Or.inr ⟨hx ▸ List.prefix_refl _, hx ▸ hnone.1, rfl⟩
      · exact Or.inl rfl
  · rw [Effects.visits_raise h]
    exact Between.refl _ q

theorem chain_cons {n : PyStr} {rest x : List PyStr} : (q <+: x ∧ x <+: q ++ n :: rest)
      ↔ x = q ∨ ((q ++ [n]) <+: x ∧ x <+: (q ++ [n]) ++ rest) := by
  constructor
  · rintro ⟨⟨t, rfl⟩, hx⟩
    rw [List.prefix_append_right_inj] at hx
    cases t with
    | nil => exact Or.inl (List.append_nil q)
    | cons a t =>
      obtain ⟨rfl, ht⟩ := List.cons_prefix_cons.mp hx
      refine Or.inr ⟨⟨t, by rw [List.append_assoc, List.singleton_append]⟩, ?_⟩
      rw [List.append_assoc, List.singleton_append, List.prefix_append_right_inj]
      exact List.cons_prefix_cons.mpr ⟨rfl, ht⟩
  · rintro (rfl | ⟨hq, hx⟩)
    · exact ⟨List.prefix_refl _, List.prefix_append _ _⟩
    · rw [List.append_assoc, List.singleton_append] at hx
      exact ⟨(List.prefix_append q [n]).trans hq, hx⟩

theorem parented_snoc {n : PyStr} (hq : f.parented q)
    (hg : ∀ x, g.look x = if x = q then some .dir else f.look x) : g.parented (q ++ [n]) := by
  rw [FileTree.parented_iff] at hq ⊢
  intro x hx hne
  rw [hg x]
  split_ifs with hxq
  · rfl
  · refine hq x ?_ hxq
    rcases List.prefix_concat_iff.mp hx with h | h
    · exact absurd h hne
    · exact h

variable {rest : List PyStr}

theorem mkdirsFrom_returns (hq : f.parented q) : (mkdirsFrom q rest).Returns f u g
      ↔ (∀ t, t <+: rest → ∀ content, f.look (q ++ t) ≠ some (.file content))
        ∧ ∀ x, g.look x = if q <+: x ∧ x <+: q ++ rest then some .dir else f.look x := by
  induction rest generalizing q f with
  | nil =>
    unfold mkdirsFrom
    rw [mkdirOne_returns hq, List.append_nil]
    refine and_congr ?_ (forall_congr' fun x => ?_)
    · simp only [List.prefix_nil, forall_eq, List.append_nil]
    · have hx : (q <+: x ∧ x <+: q) ↔ x = q :=
        ⟨fun h => (h.1.eq_of_length (Nat.le_antisymm h.1.length_le h.2.length_le)).symm,
          fun h => h ▸ ⟨List.prefix_refl _, List.prefix_refl _⟩⟩
      rw [if_congr hx rfl rfl]
  | cons n rest ih =>
    unfold mkdirsFrom
    rw [Effects.returns_bind]
    -- the tree after the first directory differs at that directory alone
    have hlook : ∀ {m : FileTree PyStr ν}, (∀ x, m.look x = if x = q then some .dir else f.look x) →
        ((mkdirsFrom (q ++ [n]) rest).Returns m u g
          ↔ (∀ t, t <+: rest → ∀ content, f.look (q ++ n :: t) ≠ some (.file content))
            ∧ ∀ x, g.look x = if q <+: x ∧ x <+: q ++ n :: rest then some .dir else f.look x) := by
      intro m hm
      rw [ih (parented_snoc hq hm)]
      refine and_congr (forall_congr' fun t => forall_congr' fun _ => forall_congr' fun content => ?_)
        (forall_congr' fun x => ?_)
      · rw [List.append_assoc, List.singleton_append, hm, if_neg]
        intro h
        exact absurd (List.append_right_eq_self.mp h) (List.cons_ne_nil n t)
      · rw [if_congr chain_cons rfl rfl, hm x]
        by_cases hxq : x = q <;> by_cases hx : (q ++ [n]) <+: x ∧ x <+: (q ++ [n]) ++ rest <;>
          simp only [hxq, hx, if_true, if_false, true_or, false_or]
        all_goals simp_all
    constructor
    · rintro ⟨v, m, hone, hrest⟩
      rw [mkdirOne_returns hq] at hone
      obtain ⟨hfiles, hg⟩ := (hlook hone.2).mp hrest
      refine ⟨fun t ht => ?_, hg⟩
      cases t with
      | nil =>
        rw [List.append_nil]
        exact hone.1
      | cons a t =>
        obtain ⟨rfl, ht'⟩ := List.cons_prefix_cons.mp ht
        exact hfiles t ht'
    · rintro ⟨hfiles, hg⟩
      have hself := hfiles [] List.nil_prefix
      rw [List.append_nil] at hself
      obtain ⟨m, hm⟩ := exists_made hq hself
      refine ⟨⟨⟩, m, (mkdirOne_returns hq).mpr ⟨hself, hm⟩, (hlook hm).mpr ⟨?_, hg⟩⟩
      intro t ht
      exact hfiles (n :: t) (List.cons_prefix_cons.mpr ⟨rfl, ht⟩)

theorem mkdirsFrom_visits (h : (mkdirsFrom q rest).Visits f c) : Between f (q ++ rest) c := by
  induction rest generalizing q f with
  | nil =>
    rw [List.append_nil]
    exact mkdirOne_visits h
  | cons n rest ih =>
    have hwiden : ∀ {m : FileTree PyStr ν}, Between f q m → Between f (q ++ n :: rest) m := by
      intro m hm x
      rcases hm x with hx | ⟨hxq, hf, hx⟩
      · exact Or.inl hx
      · exact Or.inr ⟨hxq.trans (List.prefix_append _ _), hf, hx⟩
    unfold mkdirsFrom at h
    rcases Effects.Visits.bind h with h | ⟨v, m, hone, h⟩
    · exact hwiden (mkdirOne_visits h)
    · have hm : Between f q m := by
        have := (mkdirOne q : Replay ν PUnit).visits_final f
        rw [hone.2] at this
        exact mkdirOne_visits this
      have hrest := ih h
      rw [List.append_assoc, List.singleton_append] at hrest
      exact (hwiden hm).trans hrest

/-- **`mkdir(parents=True, exist_ok=True)`** returns when the file system
takes the path and no file is in the way, and makes the whole chain. -/
theorem mkdirs_returns : (mkdirs env p).Returns f u g ↔ env.refusal p = none ∧ Clear f p ∧ Opened f p g := by
  unfold mkdirs
  cases hr : env.refusal p with
  | some e => exact ⟨fun h => absurd h Effects.returns_raise, fun h => by cases h.1⟩
  | none =>
    have hroot : f.parented [] := by
      rw [FileTree.parented_iff]
      intro x hx hne
      exact absurd (List.prefix_nil.mp hx) hne
    rw [mkdirsFrom_returns hroot]
    simp only [List.nil_append, List.nil_prefix, true_and]
    exact Iff.rfl

theorem mkdirs_visits (h : (mkdirs env p).Visits f c) : Between f p c := by
  unfold mkdirs at h
  cases hr : env.refusal p with
  | some e =>
    rw [hr] at h
    rw [Effects.visits_raise h]
    exact Between.refl f p
  | none =>
    rw [hr] at h
    exact mkdirsFrom_visits h

/-! ## The verified rename -/

/-- Neither path is the other or lies inside it. -/
def Apart (s d : List PyStr) : Prop := ¬s <+: d ∧ ¬d <+: s

/-- What is at a destination may be replaced by what is at a source. -/
def Replaceable (f : FileTree PyStr ν) (s d : List PyStr) : Prop :=
  f.look d = none
    ∨ ((∃ content, f.look s = some (.file content)) ∧ ∃ content, f.look d = some (.file content))
    ∨ (f.look s = some .dir ∧ f.look d = some .dir ∧ ∀ x, d <+: x → x ≠ d → f.look x = none)

/-- **A rename that took effect**, with the directories above its
destination made first. -/
structure Installs (env : ReplayEnv ν) (f : FileTree PyStr ν) (s d : List PyStr)
    (g : FileTree PyStr ν) : Prop where
  accepted : env.refusal d.dropLast = none ∧ env.refusal d = none
  clear : Clear f d.dropLast
  replaceable : Replaceable f s d
  result : ∀ x, g.look x = if d <+: x then f.look (s ++ x.drop d.length)
    else if s <+: x then none else if x <+: d.dropLast then some .dir else f.look x

theorem Apart.not_prefix_dropLast (h : Apart s d) {r : List PyStr} : ¬(s ++ r) <+: d.dropLast :=
  fun hp => h.1 (((List.prefix_append s r).trans hp).trans (List.dropLast_prefix d))

theorem Apart.ne_nil (h : Apart s d) : d ≠ [] := by
  rintro rfl
  exact h.2 List.nil_prefix

theorem Apart.below_not_prefix (h : Apart s d) {x : List PyStr} (hx : d <+: x) : ¬x <+: d.dropLast := by
  intro hp
  have hlen := (hx.trans hp).length_le
  have hpos := List.length_pos_iff.mpr h.ne_nil
  rw [List.length_dropLast] at hlen
  omega

theorem Between.look_source (h : Between f d.dropLast c) (ha : Apart s d) (r : List PyStr) :
    c.look (s ++ r) = f.look (s ++ r) :=
  h.look_of_not ha.not_prefix_dropLast

theorem Between.replaceable (h : Between f d.dropLast c) (ha : Apart s d) :
    Replaceable c s d ↔ Replaceable f s d := by
  have hs : c.look s = f.look s := by
    have := h.look_source ha []
    rwa [List.append_nil] at this
  have hd : ∀ x, d <+: x → c.look x = f.look x := fun x hx =>
    h.look_of_not (ha.below_not_prefix hx)
  unfold Replaceable
  rw [hs, hd d (List.prefix_refl d)]
  refine or_congr_right (or_congr_right (and_congr_right fun _ => and_congr_right fun _ =>
    forall_congr' fun x => forall_congr' fun hx => ?_))
  rw [hd x hx]

/-- **From everywhere on the way to the rename it ends the same.** -/
theorem Between.installs (h : Between f d.dropLast c) (ha : Apart s d) :
    Installs env c s d g ↔ Installs env f s d g := by
  have hres : (∀ x, g.look x = if d <+: x then c.look (s ++ x.drop d.length)
        else if s <+: x then none else if x <+: d.dropLast then some .dir else c.look x)
      ↔ ∀ x, g.look x = if d <+: x then f.look (s ++ x.drop d.length)
        else if s <+: x then none else if x <+: d.dropLast then some .dir else f.look x := by
    refine forall_congr' fun x => ?_
    rw [h.look_source ha]
    by_cases hx : x <+: d.dropLast
    · rw [if_pos hx, if_pos hx]
    · rw [if_neg hx, if_neg hx, h.look_of_not hx]
  constructor
  · rintro ⟨h₁, h₂, h₃, h₄⟩
    exact ⟨h₁, h.clear.mp h₂, (h.replaceable ha).mp h₃, hres.mp h₄⟩
  · rintro ⟨h₁, h₂, h₃, h₄⟩
    exact ⟨h₁, h.clear.mpr h₂, (h.replaceable ha).mpr h₃, hres.mpr h₄⟩

theorem exists_opened (f : FileTree PyStr ν) (p : List PyStr) : ∃ m, Opened f p m := by
  refine ⟨FileTree.ofLook (fun q => if q <+: p then some .dir else f.look q)
    (f.support ∪ p.inits.toFinset) ?_ ?_, fun q => rfl⟩
  · intro q hq
    rw [Finset.mem_union, List.mem_toFinset, List.mem_inits]
    by_cases hp : q <+: p
    · exact Or.inr hp
    · rw [if_neg hp] at hq
      exact Or.inl ((f.mem_support q).mpr hq)
  · intro q r hr hqr
    by_cases hp : q <+: p
    · exact if_pos hp
    · rw [if_neg hp]
      rw [if_neg (fun h => hp ((List.prefix_append q r).trans h))] at hqr
      exact f.rooted q r hr hqr

theorem Opened.renamable (h : Opened f d.dropLast g) (ha : Apart s d) :
    g.Renamable s d ↔ g.look s ≠ none ∧ Replaceable g s d := by
  have hpar : g.parented d := by
    rw [FileTree.parented_iff]
    intro x hx hne
    have hd := List.dropLast_append_getLast ha.ne_nil
    rw [← hd] at hx
    rcases List.prefix_concat_iff.mp hx with hx | hx
    · rw [hd] at hx
      exact absurd hx hne
    · rw [h x, if_pos hx]
  unfold FileTree.Renamable Replaceable
  rw [FileTree.present_iff, FileTree.present_eq_false, FileTree.isFile_iff, FileTree.isFile_iff,
    FileTree.isDir_iff, FileTree.isEmptyDir_iff]
  exact ⟨fun h' => ⟨h'.1, h'.2.2.2⟩, fun h' => ⟨h'.1, ha.1, hpar, h'.2⟩⟩

theorem osRename_returns : (osRename env s d).Returns f u g
    ↔ env.refusal d = none ∧ ∃ h : f.Renamable s d, g = f.rename s d h := by
  unfold osRename
  rw [Effects.returns_current_bind]
  cases hr : env.refusal d with
  | some e => exact ⟨fun h => absurd h Effects.returns_raise, fun h => by cases h.1⟩
  | none =>
    simp only [true_and]
    split_ifs with h
    · rw [Effects.returns_emit]
      exact ⟨fun h' => ⟨h, h'.2.symm⟩, fun ⟨_, h'⟩ => ⟨rfl, h'.symm⟩⟩
    · exact ⟨fun h' => absurd h' Effects.returns_raise, fun ⟨h', _⟩ => absurd h' h⟩

theorem osRename_visits (h : (osRename env s d).Visits f c) : c = f ∨ (osRename env s d).Returns f ⟨⟩ c := by
  rw [osRename_returns]
  unfold osRename at h
  rw [Effects.visits_current_bind] at h
  cases hr : env.refusal d with
  | some e =>
    rw [hr] at h
    exact Or.inl (Effects.visits_raise h)
  | none =>
    rw [hr] at h
    simp only at h
    split_ifs at h with hf
    · rcases Effects.visits_emit h with h | h
      · exact Or.inl h
      · exact Or.inr ⟨rfl, hf, h⟩
    · exact Or.inl (Effects.visits_raise h)

/-- **The system calls of one round** do what they are to do, or fail. -/
theorem renameOnce_returns (hs : f.look s ≠ none) (ha : Apart s d) :
    (renameOnce env s d).Returns f u g ↔ Installs env f s d g := by
  unfold renameOnce
  rw [Effects.returns_bind]
  -- the tree with the directories made, and what is renamed in it
  have key : ∀ {m : FileTree PyStr ν}, Opened f d.dropLast m → Clear f d.dropLast →
      ((∃ h : m.Renamable s d, g = m.rename s d h)
        ↔ Replaceable f s d ∧ ∀ x, g.look x = if d <+: x then f.look (s ++ x.drop d.length)
          else if s <+: x then none else if x <+: d.dropLast then some .dir else f.look x) := by
    intro m hm hclear
    have hb := hm.between hclear
    have hms : m.look s ≠ none := by
      have := hb.look_source ha []
      rw [List.append_nil] at this
      rwa [this]
    have hren : m.Renamable s d ↔ Replaceable f s d := by
      rw [hm.renamable ha, hb.replaceable ha]
      exact ⟨fun h => h.2, fun h => ⟨hms, h⟩⟩
    have hlook : ∀ x, FileTree.moved m.look s d x = if d <+: x then f.look (s ++ x.drop d.length)
          else if s <+: x then none else if x <+: d.dropLast then some .dir else f.look x := by
      intro x
      unfold FileTree.moved
      rw [hb.look_source ha, hm x]
    constructor
    · rintro ⟨h, rfl⟩
      exact ⟨hren.mp h, hlook⟩
    · rintro ⟨h, hg⟩
      exact ⟨hren.mpr h, FileTree.ext_look fun x => (hg x).trans (hlook x).symm⟩
  constructor
  · rintro ⟨v, m, hmk, hrn⟩
    obtain ⟨hr, hclear, hm⟩ := mkdirs_returns.mp hmk
    obtain ⟨hr', hren⟩ := osRename_returns.mp hrn
    obtain ⟨h₃, h₄⟩ := (key hm hclear).mp hren
    exact ⟨⟨hr, hr'⟩, hclear, h₃, h₄⟩
  · rintro ⟨⟨hr, hr'⟩, hclear, h₃, h₄⟩
    obtain ⟨m, hm⟩ := exists_opened f d.dropLast
    exact ⟨⟨⟩, m, mkdirs_returns.mpr ⟨hr, hclear, hm⟩, osRename_returns.mpr ⟨hr', (key hm hclear).mpr ⟨h₃, h₄⟩⟩⟩

theorem renameOnce_visits (hs : f.look s ≠ none) (ha : Apart s d)
    (h : (renameOnce env s d).Visits f c) : Between f d.dropLast c ∨ Installs env f s d c := by
  have h' := h
  unfold renameOnce at h'
  rcases Effects.Visits.bind h' with h' | ⟨v, m, hmk, h'⟩
  · exact Or.inl (mkdirs_visits h')
  · obtain ⟨-, hclear, hm⟩ := mkdirs_returns.mp hmk
    rcases osRename_visits h' with rfl | hrn
    · exact Or.inl (hm.between hclear)
    · refine Or.inr ((renameOnce_returns (u := ⟨⟩) hs ha).mp ?_)
      unfold renameOnce
      exact Effects.returns_bind.mpr ⟨v, m, hmk, hrn⟩

theorem Installs.moved (h : Installs env f s d g) (ha : Apart s d) : g.look d = f.look s ∧ g.look s = none := by
  constructor
  · rw [h.result d, if_pos (List.prefix_refl d), List.drop_length, List.append_nil]
  · rw [h.result s, if_neg ha.2, if_pos (List.prefix_refl s)]

theorem installs_unique (h : Installs env f s d g) (h' : Installs env f s d c) : g = c :=
  FileTree.ext_look fun x => (h.result x).trans (h'.result x).symm

theorem renameRounds_returns {n : Nat} (hs : f.look s ≠ none) (ha : Apart s d) :
    (renameRounds env s d n).Returns f u g ↔ n ≠ 0 ∧ Installs env f s d g := by
  induction n generalizing f with
  | zero => exact ⟨fun h => absurd h Effects.returns_raise, fun h => absurd rfl h.1⟩
  | succ n ih =>
    unfold renameRounds
    rw [Effects.returns_bind]
    constructor
    · rintro ⟨v, m, hround, hrest⟩
      refine ⟨Nat.succ_ne_zero n, ?_⟩
      rw [Effects.returns_current_bind] at hrest
      rcases Effects.returns_suppress.mp hround with hround | ⟨e, -, hround⟩
      · have hin := (renameOnce_returns hs ha).mp hround
        obtain ⟨hd, hgone⟩ := hin.moved ha
        rw [if_pos ⟨FileTree.present_iff.mpr (hd ▸ hs), FileTree.present_eq_false.mpr hgone⟩,
          Effects.returns_pure] at hrest
        exact hrest.2 ▸ hin
      · -- the round failed, so it left the source where it was, and so will every other
        have hvis := (renameOnce env s d).visits_final f
        rw [hround.2] at hvis
        rcases renameOnce_visits hs ha hvis with hb | hin
        · have hms : m.look s ≠ none := by rwa [hb.look_of_ne hs]
          rw [if_neg (fun h => hms (FileTree.present_eq_false.mp h.2))] at hrest
          exact (hb.installs ha).mp ((ih hms).mp hrest).2
        · have := (renameOnce_returns (u := ⟨⟩) hs ha).mpr hin
          rw [Effects.Returns, hround.1] at this
          cases this.1
    · rintro ⟨-, hin⟩
      refine ⟨⟨⟩, g, Effects.returns_suppress.mpr (Or.inl ((renameOnce_returns hs ha).mpr hin)), ?_⟩
      obtain ⟨hd, hgone⟩ := hin.moved ha
      rw [Effects.returns_current_bind, if_pos ⟨FileTree.present_iff.mpr (hd ▸ hs),
        FileTree.present_eq_false.mpr hgone⟩, Effects.returns_pure]
      exact ⟨rfl, rfl⟩

theorem renameRounds_visits {n : Nat} (hs : f.look s ≠ none) (ha : Apart s d)
    (h : (renameRounds env s d n).Visits f c) :
    Between f d.dropLast c ∨ Installs env f s d c := by
  induction n generalizing f with
  | zero =>
    rw [Effects.visits_raise h]
    exact Or.inl (Between.refl f _)
  | succ n ih =>
    unfold renameRounds at h
    rcases Effects.Visits.bind h with h | ⟨v, m, hround, h⟩
    · exact renameOnce_visits hs ha (Effects.visits_suppress.mp h)
    · rw [Effects.visits_current_bind] at h
      have hvis : (renameOnce env s d).Visits f m := by
        have := (renameOnce env s d).visits_final f
        rcases Effects.returns_suppress.mp hround with hround | ⟨e, -, hround⟩
        · rwa [hround.2] at this
        · rwa [hround.2] at this
      rcases renameOnce_visits hs ha hvis with hb | hin
      · have hms : m.look s ≠ none := by rwa [hb.look_of_ne hs]
        rw [if_neg (fun h => hms (FileTree.present_eq_false.mp h.2))] at h
        rcases ih hms h with h | h
        · exact Or.inl (hb.trans h)
        · exact Or.inr ((hb.installs ha).mp h)
      · obtain ⟨hd, hgone⟩ := hin.moved ha
        rw [if_pos ⟨FileTree.present_iff.mpr (hd ▸ hs), FileTree.present_eq_false.mpr hgone⟩] at h
        rw [Effects.visits_pure h]
        exact Or.inr hin

theorem renameVerified_returns (hs : f.look s ≠ none) (ha : Apart s d) :
    (renameVerified env s d).Returns f u g ↔ Installs env f s d g := by
  unfold renameVerified
  rw [renameRounds_returns hs ha]
  exact ⟨fun h => h.2, fun h => ⟨by decide, h⟩⟩
