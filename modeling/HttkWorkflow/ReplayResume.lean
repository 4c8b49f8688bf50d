import HttkWorkflow.ReplayOperations

/-!
# A crashed replay, run again

`replay_transaction` is meant to be run again after a crash, from the start
and by anybody, and to end where it would have ended. This module proves it
for the transactions whose operations do not undo each other
(`replay_resumes`), and shows that the validation does not make sure of
that (`replay_not_resumed`): a removal followed by a `make-dir` of the same
path passes it, and the second run removes the directory the first one made.

An operation under way leaves one of few states behind, `Midway`, and from
each of them it ends as it would have. All the operations before it are
settled there and do nothing, with one exception: between the two renames
of a `replace-tree` its target is missing, and a `make-dir` of that very
target makes it again, empty, which the second rename replaces.
-/

variable {ν : Type} {env : ReplayEnv ν} {dirs : ReplayDirs} {f g c : FileTree PyStr ν}
variable {u : PUnit}

namespace Operation

/-- **What a crash of an operation leaves**, beside the tree before it and
the tree after it. -/
def Midway (env : ReplayEnv ν) (dirs : ReplayDirs) :
    Operation → FileTree PyStr ν → FileTree PyStr ν → Prop
  | makeDir path, f, c => Between f (dirs.target path) c
  | putFile path source expected, f, c | putTree path source expected, f, c =>
      installed env f (dirs.target path) (dirs.staged source) expected = false
        ∧ Between f (dirs.target path).dropLast c
  | remove operationId path _, f, c => f.present (dirs.target path) = true
      ∧ Between f (dirs.trash operationId "removed").dropLast c
  | replaceTree operationId path source expected, f, c =>
      installed env f (dirs.target path) (dirs.staged source) expected = false
      ∧ ((f.present (dirs.target path) = true
            ∧ f.present (dirs.trash operationId "old") = false
            ∧ Between f (dirs.trash operationId "old").dropLast c)
          ∨ ∃ m, (moveAside env dirs operationId path).Returns f ⟨⟩ m
            ∧ Between m (dirs.target path).dropLast c)

end Operation

variable {s d : List PyStr}

theorem renameVerified_visits (hs : f.look s ≠ none) (ha : Apart s d) (h : (renameVerified env s d).Visits f c) :
    Between f d.dropLast c ∨ (renameVerified env s d).Returns f ⟨⟩ c := by
  rcases renameRounds_visits hs ha h with h | h
  · exact Or.inl h
  · exact Or.inr ((renameVerified_returns hs ha).mpr h)

variable {operationId : PyStr}

theorem moveAside_visits {path : List PyStr} (h : (moveAside env dirs operationId path).Visits f c) :
    (f.present (dirs.target path) = true ∧ f.present (dirs.trash operationId "old") = false
        ∧ Between f (dirs.trash operationId "old").dropLast c)
      ∨ (moveAside env dirs operationId path).Returns f ⟨⟩ c := by
  have h' := h
  unfold moveAside at h' ⊢
  rw [Effects.visits_current_bind] at h'
  rw [Effects.returns_current_bind]
  split_ifs at h' ⊢ with hcond
  · rcases renameVerified_visits (FileTree.present_iff.mp hcond.1)
        (dirs.target_apart path operationId "old") h' with h' | h'
    · exact Or.inl ⟨hcond.1, hcond.2, h'⟩
    · exact Or.inr h'
  · rw [Effects.visits_pure h']
    exact Or.inr (Effects.returns_pure.mpr ⟨rfl, rfl⟩)

variable {o : Operation}

theorem applyOperation_visits (h : o.Applies env dirs f g)
    (hc : (applyOperation env dirs o).Visits f c) : c = f ∨ c = g ∨ o.Midway env dirs f c := by
  cases o with
  | makeDir path =>
    rw [applyOperation] at hc
    rcases Effects.Visits.bind hc with hc | ⟨v, m, hmk, hc⟩
    · exact Or.inr (Or.inr (mkdirs_visits hc))
    · obtain ⟨-, -, hm⟩ := mkdirs_returns.mp hmk
      have hdir : m.isDir (dirs.target path) = true := by
        rw [FileTree.isDir_iff, hm, if_pos (List.prefix_refl _)]
      rw [Effects.visits_current_bind, if_pos hdir] at hc
      rw [Effects.visits_pure hc]
      exact Or.inr (Or.inl (hm.unique h.2.2))
  | putFile path source expected =>
    rw [applyOperation, Effects.visits_current_bind] at hc
    rcases h with ⟨hin, -⟩ | ⟨hin, hsrc, hg⟩
    · rw [if_pos hin] at hc
      exact Or.inl (Effects.visits_pure hc)
    · have ha := dirs.staged_apart source path
      rw [hin, if_neg Bool.false_ne_true, if_pos hsrc] at hc
      rcases Effects.Visits.bind hc with hc | ⟨v, m, hm, hc⟩
      · rcases renameVerified_visits (isFile_present hsrc.1) ha hc with hc | hc
        · exact Or.inr (Or.inr ⟨hin, hc⟩)
        · have hc := (renameVerified_returns (isFile_present hsrc.1) ha).mp hc
          exact Or.inr (Or.inl (installs_unique hc hg))
      · have hm := (renameVerified_returns (isFile_present hsrc.1) ha).mp hm
        rw [Effects.visits_current_bind, if_pos (hm.digestMatches.trans hsrc.2)] at hc
        rw [Effects.visits_pure hc]
        exact Or.inr (Or.inl (installs_unique hm hg))
  | putTree path source expected =>
    rw [applyOperation, Effects.visits_current_bind] at hc
    rcases h with ⟨hin, -⟩ | ⟨hin, hdest, hsrc, hg⟩
    · rw [if_pos hin] at hc
      exact Or.inl (Effects.visits_pure hc)
    · have ha := dirs.staged_apart source path
      rw [hin, hdest, if_neg Bool.false_ne_true, if_neg Bool.false_ne_true, if_pos hsrc] at hc
      rcases renameVerified_visits (isDir_present hsrc.1) ha hc with hc | hc
      · exact Or.inr (Or.inr ⟨hin, hc⟩)
      · have hc := (renameVerified_returns (isDir_present hsrc.1) ha).mp hc
        exact Or.inr (Or.inl (installs_unique hc hg))
  | remove operationId path missingOk =>
    rw [applyOperation, Effects.visits_current_bind] at hc
    rcases h with ⟨hdest, hok, -⟩ | ⟨hdest, hg⟩
    · left
      by_cases htrash : f.present (dirs.trash operationId "removed") = true
      · rw [if_pos ⟨hdest, htrash⟩] at hc
        exact Effects.visits_pure hc
      · rw [if_neg (fun h => htrash h.2), if_pos ⟨hdest, hok.resolve_left htrash⟩] at hc
        exact Effects.visits_pure hc
    · have ha := dirs.target_apart path operationId "removed"
      have hs := FileTree.present_iff.mp hdest
      rw [hdest, if_neg (fun h => by cases h.1), if_neg (fun h => by cases h.1), if_neg (fun h => by cases h)] at hc
      rcases renameVerified_visits hs ha hc with hc | hc
      · exact Or.inr (Or.inr ⟨hdest, hc⟩)
      · exact Or.inr (Or.inl (installs_unique ((renameVerified_returns hs ha).mp hc) hg))
  | replaceTree operationId path source expected =>
    rw [applyOperation, Effects.visits_current_bind] at hc
    rcases h with ⟨hin, -⟩ | ⟨hin, m, hm, hsrc, hg⟩
    · rw [if_pos hin] at hc
      exact Or.inl (Effects.visits_pure hc)
    · rw [hin, if_neg Bool.false_ne_true] at hc
      rcases Effects.Visits.bind hc with hc | ⟨v, m', hm', hc⟩
      · rcases moveAside_visits hc with hc | hc
        · exact Or.inr (Or.inr ⟨hin, Or.inl hc⟩)
        · exact Or.inr (Or.inr ⟨hin, Or.inr ⟨c, hc, Between.refl _ _⟩⟩)
      · obtain ⟨-, rfl⟩ := hm'.unique (moveAside_returns (u := ⟨⟩) |>.mpr hm)
        rw [Effects.visits_current_bind, if_pos hsrc] at hc
        have ha := dirs.staged_apart source path
        rcases renameVerified_visits (isDir_present hsrc.1) ha hc with hc | hc
        · exact Or.inr (Or.inr ⟨hin, Or.inr ⟨_, hm', hc⟩⟩)
        · have hc := (renameVerified_returns (isDir_present hsrc.1) ha).mp hc
          exact Or.inr (Or.inl (installs_unique hc hg))

/-! ## Every state midway leads to the end -/

theorem not_installed {path source : List PyStr} {expected : Option PyStr} (h : f.look (dirs.staged source) ≠ none) :
    installed env f (dirs.target path) (dirs.staged source) expected = false := by
  unfold installed
  rw [FileTree.present_iff.mpr h, Bool.not_true, Bool.and_false]

theorem Between.staged {path : List PyStr} (source : List PyStr)
    (h : Between f (dirs.target path).dropLast c) (x : List PyStr) : c.look (dirs.staged source ++ x) = f.look (dirs.staged source ++ x) :=
  h.look_source (dirs.staged_apart source path) x

theorem Between.staged_self {path : List PyStr} (source : List PyStr) (h : Between f (dirs.target path).dropLast c) :
    c.look (dirs.staged source) = f.look (dirs.staged source) := by
  have := h.staged source []
  rwa [List.append_nil] at this

theorem Between.look_end {p : List PyStr} (h : Between f p.dropLast c) (hp : p ≠ []) : c.look p = f.look p := by
  refine h.look_of_not fun hpre => ?_
  have hlen := hpre.length_le
  have hpos := List.length_pos_iff.mpr hp
  rw [List.length_dropLast] at hlen
  omega

variable {p q : List PyStr}

theorem isFile_congr (h : g.look q = f.look p) : g.isFile q = f.isFile p := by
  unfold FileTree.isFile
  rw [h]

theorem isDir_congr (h : g.look q = f.look p) : g.isDir q = f.isDir p := by
  unfold FileTree.isDir
  rw [h]

theorem present_congr (h : g.look q = f.look p) : g.present q = f.present p := by
  unfold FileTree.present
  rw [h]

variable (dirs) in
theorem Operation.Payload.apart_trash {source : List PyStr} (h : o.Payload)
    (hs : o.source = some source) (i : PyStr) (name : String) :
    Apart (dirs.staged source) (dirs.trash i name) :=
  ⟨h.not_prefix_trash hs, h.trash_not_prefix hs⟩

theorem Installs.staged {path source : List PyStr} {i : PyStr} {name : String}
    (h : Installs env f (dirs.target path) (dirs.trash i name) g) (hpay : o.Payload)
    (hsource : o.source = some source) (x : List PyStr) :
    g.look (dirs.staged source ++ x) = f.look (dirs.staged source ++ x) := by
  have ha := hpay.apart_trash dirs hsource i name
  rcases Operation.installs_cases h (dirs.staged source ++ x) with h | h | ⟨h, -⟩ | ⟨h, -⟩
  · exact h
  · rcases List.prefix_or_prefix_of_prefix h (List.prefix_append _ x) with h | h
    · exact absurd h ha.2
    · exact absurd h ha.1
  · exact (dirs.not_both (List.prefix_append _ x) h).elim
  · exact absurd h ha.not_prefix_dropLast

theorem moveAside_midway {path : List PyStr} {m : FileTree PyStr ν}
    (hm : (moveAside env dirs operationId path).Returns f u m)
    (hb : Between m (dirs.target path).dropLast c) :
    (moveAside env dirs operationId path).Returns c ⟨⟩ c := by
  have hat := dirs.target_apart path operationId "old"
  have hne := (dirs.staged_apart [] path).ne_nil
  have hend := hb.look_end hne
  rw [moveAside_returns] at hm ⊢
  rw [if_neg]
  rintro ⟨hdest, htrash⟩
  rw [present_congr hend] at hdest
  split_ifs at hm with hcond
  · -- the old tree went to the trash, and nothing is at the target
    rw [FileTree.present_iff, (hm.moved hat).2] at hdest
    exact hdest rfl
  · rw [hm] at hdest hb
    refine hcond ⟨hdest, ?_⟩
    rw [← htrash, present_congr (hb.look_of_not fun h => hat.2 ?_).symm]
    exact h.trans (List.dropLast_prefix _)

theorem Operation.Applies.resumes (h : o.Applies env dirs f g)
    (hpay : o.Payload) (hc : o.Midway env dirs f c) : o.Applies env dirs c g := by
  cases o with
  | makeDir path => exact ⟨h.1, hc.clear.mpr h.2.1, hc.opened.mpr h.2.2⟩
  | putFile path source expected =>
    obtain ⟨hin, hb⟩ := hc
    rcases h with ⟨hin', -⟩ | ⟨-, hsrc, hg⟩
    · rw [hin] at hin'
      cases hin'
    · have hs := hb.staged_self source
      refine Or.inr ⟨not_installed ?_, ⟨?_, ?_⟩, ?_⟩
      · rw [hs]
        exact isFile_present hsrc.1
      · rw [isFile_congr hs]
        exact hsrc.1
      · rw [digestMatches_congr (hb.staged source)]
        exact hsrc.2
      · exact (hb.installs (dirs.staged_apart source path)).mpr hg
  | putTree path source expected =>
    obtain ⟨hin, hb⟩ := hc
    rcases h with ⟨hin', -⟩ | ⟨-, hdest, hsrc, hg⟩
    · rw [hin] at hin'
      cases hin'
    · have hs := hb.staged_self source
      refine Or.inr ⟨not_installed ?_, ?_, ⟨?_, ?_⟩, ?_⟩
      · rw [hs]
        exact isDir_present hsrc.1
      · rw [present_congr (hb.look_end (dirs.staged_apart source path).ne_nil)]
        exact hdest
      · rw [isDir_congr hs]
        exact hsrc.1
      · rw [digestMatches_congr (hb.staged source)]
        exact hsrc.2
      · exact (hb.installs (dirs.staged_apart source path)).mpr hg
  | remove operationId path missingOk =>
    obtain ⟨hdest, hb⟩ := hc
    rcases h with ⟨hdest', -⟩ | ⟨-, hg⟩
    · rw [hdest] at hdest'
      cases hdest'
    · refine Or.inr ⟨?_, (hb.installs (dirs.target_apart path operationId "removed")).mpr hg⟩
      rw [present_congr (hb.look_of_ne (FileTree.present_iff.mp hdest))]
      exact hdest
  | replaceTree operationId path source expected =>
    obtain ⟨hin, hc⟩ := hc
    rcases h with ⟨hin', -⟩ | ⟨-, m, hm, hsrc, hg⟩
    · rw [hin] at hin'
      cases hin'
    · rcases hc with ⟨hdest, htrash, hb⟩ | ⟨m', hm', hb⟩
      · -- the old tree is still in its place
        have hat := dirs.target_apart path operationId "old"
        rw [if_pos ⟨hdest, htrash⟩] at hm
        have hsm := hm.staged hpay rfl []
        have hsc := hb.look_of_not (fun h => (hpay.apart_trash dirs rfl operationId "old").not_prefix_dropLast
            (r := []) (by rwa [List.append_nil]))
        rw [List.append_nil] at hsm
        refine Or.inr ⟨not_installed ?_, m, ?_, hsrc, hg⟩
        · rw [hsc, ← hsm]
          exact isDir_present hsrc.1
        · rw [if_pos]
          · exact (hb.installs hat).mpr hm
          · rw [present_congr (hb.look_of_ne (FileTree.present_iff.mp hdest)), present_congr (hb.look_end hat.ne_nil)]
            exact ⟨hdest, htrash⟩
      · obtain ⟨-, rfl⟩ := hm'.unique (moveAside_returns (u := ⟨⟩) |>.mpr hm)
        have hs := hb.staged_self source
        refine Or.inr ⟨not_installed ?_, c, ?_, ⟨?_, ?_⟩, ?_⟩
        · rw [hs]
          exact isDir_present hsrc.1
        · exact moveAside_returns.mp (moveAside_midway hm' hb)
        · rw [isDir_congr hs]
          exact hsrc.1
        · rw [digestMatches_congr (hb.staged source)]
          exact hsrc.2
        · exact (hb.installs (dirs.staged_apart source path)).mpr hg

/-! ## What is settled stays settled -/

namespace Operation

theorem visited_touches {o : Operation} (h : o.Applies env dirs f g) (hc : c = f ∨ c = g ∨ o.Midway env dirs f c) :
    ∃ m, o.Touches dirs f m ∧ o.Touches dirs m c := by
  have hrefl : ∀ t : FileTree PyStr ν, o.Touches dirs t t := fun t x => Or.inl rfl
  have haside : ∀ {i : PyStr} {path source : List PyStr} {e : Option PyStr} {m : FileTree PyStr ν},
      o = replaceTree i path source e → (moveAside env dirs i path).Returns f ⟨⟩ m →
      o.Touches dirs f m := by
    rintro i path source e m rfl hm
    rw [moveAside_returns] at hm
    split_ifs at hm
    · exact touches_discards rfl rfl hm
    · rw [hm]
      exact hrefl f
  rcases hc with rfl | rfl | hc
  · exact ⟨c, hrefl c, hrefl c⟩
  · cases o with
    | makeDir path => exact ⟨f, hrefl f, touches_between (h.2.2.between h.2.1)⟩
    | putFile path source expected =>
      rcases h with ⟨-, rfl⟩ | ⟨-, -, hg⟩
      · exact ⟨c, hrefl c, hrefl c⟩
      · exact ⟨f, hrefl f, touches_installs rfl rfl hg⟩
    | putTree path source expected =>
      rcases h with ⟨-, rfl⟩ | ⟨-, -, -, hg⟩
      · exact ⟨c, hrefl c, hrefl c⟩
      · exact ⟨f, hrefl f, touches_installs rfl rfl hg⟩
    | remove i path missingOk =>
      rcases h with ⟨-, -, rfl⟩ | ⟨-, hg⟩
      · exact ⟨c, hrefl c, hrefl c⟩
      · exact ⟨f, hrefl f, touches_discards rfl rfl hg⟩
    | replaceTree i path source expected =>
      rcases h with ⟨-, rfl⟩ | ⟨-, m, hm, -, hg⟩
      · exact ⟨c, hrefl c, hrefl c⟩
      · exact ⟨m, haside rfl (moveAside_returns.mpr hm), touches_installs rfl rfl hg⟩
  · cases o with
    | makeDir path => exact ⟨f, hrefl f, touches_between hc⟩
    | putFile path source expected => exact ⟨f, hrefl f, touches_between_dropLast hc.2⟩
    | putTree path source expected => exact ⟨f, hrefl f, touches_between_dropLast hc.2⟩
    | remove i path missingOk => exact ⟨f, hrefl f, touches_between_trash rfl hc.2⟩
    | replaceTree i path source expected =>
      rcases hc with ⟨-, ⟨-, -, hb⟩ | ⟨m, hm, hb⟩⟩
      · exact ⟨f, hrefl f, touches_between_trash rfl hb⟩
      · exact ⟨m, haside rfl hm, touches_between_dropLast hb⟩

/-- **Between the two renames of a `replace-tree`** its target is missing. -/
structure Missing (env : ReplayEnv ν) (dirs : ReplayDirs) (i : PyStr) (path source : List PyStr)
    (expected : Option PyStr) (f m c : FileTree PyStr ν) : Prop where
  taken : Installs env f (dirs.target path) (dirs.trash i "old") m
  present : f.look (dirs.target path) = some .dir
  between : Between m (dirs.target path).dropLast c
  uninstalled : installed env f (dirs.target path) (dirs.staged source) expected = false

section Missing

variable {i : PyStr} {path source : List PyStr} {expected : Option PyStr}
variable {m : FileTree PyStr ν}

theorem Missing.target (h : Missing env dirs i path source expected f m c) : c.look (dirs.target path) = none := by
  rw [h.between.look_end (dirs.staged_apart [] path).ne_nil]
  exact (h.taken.moved (dirs.target_apart path i "old")).2

theorem Missing.trash (h : Missing env dirs i path source expected f m c) :
    c.look (dirs.trash i "old") = some .dir := by
  have hm := (h.taken.moved (dirs.target_apart path i "old")).1
  rw [h.present] at hm
  rw [h.between.look_of_ne (by rw [hm]; simp), hm]

theorem Missing.second (h : Missing env dirs i path source expected f m c)
    (happ : (replaceTree i path source expected).Applies env dirs c g) :
    (c.isDir (dirs.staged source) = true ∧ digestMatches env c (dirs.staged source) expected = true)
      ∧ Installs env c (dirs.staged source) (dirs.target path) g := by
  rcases happ with ⟨hin, -⟩ | ⟨-, m', hm', hsrc, hg⟩
  · have hp := h.target
    unfold installed at hin
    rw [FileTree.present_eq_false.mpr hp] at hin
    cases hin
  · rw [if_neg (fun hcond => by
      rw [FileTree.present_eq_false.mpr h.target] at hcond
      cases hcond.1)] at hm'
    rw [hm'] at hsrc hg
    exact ⟨hsrc, hg⟩

end Missing

theorem dir_visited {o : Operation} {path : List PyStr} (h : o.Applies env dirs f g)
    (hc : c = f ∨ c = g ∨ o.Midway env dirs f c) (hf : f.look (dirs.target path) = some .dir)
    (hsep : Separate (makeDir path) o) :
    c.look (dirs.target path) = some .dir ∨ ∃ i source expected m, o = replaceTree i path source expected
        ∧ Missing env dirs i path source expected f m c := by
  by_cases hbelow : o.moves = true → ¬o.path <+: path
  · obtain ⟨m, hm, hmc⟩ := visited_touches h hc
    exact Or.inl (hmc.dir_stays (hm.dir_stays hf hbelow) hbelow)
  · simp only [not_forall, not_not] at hbelow
    obtain ⟨hmoves, hbelow⟩ := hbelow
    -- the directory of the target is there, so a put of it does nothing
    have htarget : f.look (dirs.target o.path) = some .dir := by
      by_cases heq : o.path = path
      · rw [heq, hf]
      · refine FileTree.look_above (target_below_iff.mpr hbelow) (fun h => heq ?_) (by rw [hf]; simp)
        exact List.append_cancel_left h
    cases o with
    | makeDir path => cases hmoves
    | remove i target missingOk => exact absurd hbelow hsep
    | putFile target source expected =>
      rcases h with ⟨hin, rfl⟩ | ⟨-, hsrc, hg⟩
      · rcases hc with rfl | rfl | ⟨hin', -⟩
        · exact Or.inl hf
        · exact Or.inl hf
        · rw [hin] at hin'
          cases hin'
      · obtain ⟨content, hfile⟩ := FileTree.isFile_iff.mp hsrc.1
        rcases hg.replaceable with hr | ⟨-, content', hr⟩ | ⟨hr, -⟩
        · cases htarget.symm.trans hr
        · cases htarget.symm.trans hr
        · cases hfile.symm.trans hr
    | putTree target source expected =>
      rcases h with ⟨hin, rfl⟩ | ⟨-, hdest, -⟩
      · rcases hc with rfl | rfl | ⟨hin', -⟩
        · exact Or.inl hf
        · exact Or.inl hf
        · rw [hin] at hin'
          cases hin'
      · cases htarget.symm.trans (FileTree.present_eq_false.mp hdest)
    | replaceTree i target source expected =>
      obtain rfl : path = target := hsep hbelow
      rcases h with ⟨hin, rfl⟩ | ⟨-, m, -, hsrc, hg⟩
      · rcases hc with rfl | rfl | ⟨hin', -⟩
        · exact Or.inl hf
        · exact Or.inl hf
        · rw [hin] at hin'
          cases hin'
      · rcases hc with rfl | rfl | ⟨hin, ⟨-, -, hb⟩ | ⟨m', hm', hb⟩⟩
        · exact Or.inl hf
        · refine Or.inl ?_
          rw [(hg.moved (dirs.staged_apart source path)).1]
          exact FileTree.isDir_iff.mp hsrc.1
        · refine Or.inl ?_
          rw [hb.look_of_ne (by rw [hf]; simp), hf]
        · have hend := hb.look_end (dirs.staged_apart [] path).ne_nil
          have hm := moveAside_returns.mp hm'
          split_ifs at hm with hcond
          · exact Or.inr ⟨i, source, expected, m', rfl, hm, hf, hb, hin⟩
          · refine Or.inl ?_
            rw [hend, hm, hf]

theorem settled_visited {p o : Operation} (h : o.Applies env dirs f g)
    (hc : c = f ∨ c = g ∨ o.Midway env dirs f c) (hp : p.Settled env dirs f)
    (hcompat : Compatible p o) (hpay : p.Payload) (hpay' : o.Payload)
    (hdir : ∀ path, p = makeDir path → c.look (dirs.target path) = some .dir) :
    p.Settled env dirs c := by
  by_cases hmake : ∃ path, p = makeDir path
  · obtain ⟨path, rfl⟩ := hmake
    exact ⟨hp.1, hdir path rfl⟩
  · obtain ⟨m, hm, hmc⟩ := visited_touches h hc
    have hno := fun path (heq : p = makeDir path) => hmake ⟨path, heq⟩
    exact (hp.stays hm hcompat hpay hpay' (fun path heq => (hno path heq).elim)).stays hmc hcompat
      hpay hpay' (fun path heq => (hno path heq).elim)

end Operation

/-! ## The replay -/

theorem Installs.reopened {t : FileTree PyStr ν} (h : Installs env c s d g)
    (ha : Apart s d) (hs : c.look s = some .dir) (hd : c.look d = none) (ht : Opened c d t) :
    Installs env t s d g := by
  have hbelow : ∀ x, d <+: x → x ≠ d → t.look x = none := by
    intro x hx hne
    rw [ht x, if_neg]
    · exact FileTree.look_below hx hd
    · exact fun h => hne (h.eq_of_length (Nat.le_antisymm h.length_le hx.length_le))
  have hsrc : ∀ r, t.look (s ++ r) = c.look (s ++ r) := by
    intro r
    rw [ht, if_neg (fun h => ha.1 ((List.prefix_append s r).trans h))]
  have hs' := hsrc []
  rw [List.append_nil] at hs'
  refine ⟨h.accepted, ?_, ?_, ?_⟩
  · intro x hx content
    rw [ht x, if_pos (hx.trans (List.dropLast_prefix d))]
    exact fun h => by cases h
  · refine Or.inr (Or.inr ⟨hs'.trans hs, ?_, hbelow⟩)
    rw [ht d, if_pos (List.prefix_refl d)]
  · intro x
    rw [h.result x, hsrc, ht x]
    by_cases hdx : d <+: x
    · rw [if_pos hdx, if_pos hdx]
    · rw [if_neg hdx, if_neg hdx]
      by_cases hsx : s <+: x
      · rw [if_pos hsx, if_pos hsx]
      · rw [if_neg hsx, if_neg hsx]
        by_cases hx : x <+: d.dropLast
        · rw [if_pos hx, if_pos hx]
        · -- above the target, and not the target, is above the last step to it
          have hxd : ¬x <+: d := by
            intro hxd
            have hcat := List.dropLast_append_getLast ha.ne_nil
            rw [← hcat] at hxd
            rcases List.prefix_concat_iff.mp hxd with heq | hpre
            · exact hdx (by rw [heq, hcat])
            · exact hx hpre
          rw [if_neg hx, if_neg hx, if_neg hxd]

open Operation in
theorem recoverable {before : List Operation} (hpay : o.Payload)
    (hbefore : ∀ p ∈ before, p.Payload ∧ Compatible p o) :
    Effects.Recoverable (applyOperation env dirs) (Settled env dirs) before o where
  settles s s' hret hset := by
    have h := applyOperation_returns.mp hret
    refine ⟨h.settled, fun p hp => ?_⟩
    obtain ⟨hpp, hcompat⟩ := hbefore p hp
    refine settled_visited h (Or.inr (Or.inl rfl)) (hset p hp) hcompat hpp hpay ?_
    rintro path rfl
    rcases dir_visited h (Or.inr (Or.inl rfl)) (hset _ hp).2 hcompat.separate with hdir | hmiss
    · exact hdir
    · -- after the second rename the target is there
      obtain ⟨i, source, expected, m, rfl, hmiss⟩ := hmiss
      have hnone := hmiss.target
      have hin := hmiss.uninstalled
      rcases h with ⟨hin', -⟩ | ⟨-, m', -, hsrc, hg⟩
      · rw [hin] at hin'
        cases hin'
      · rw [(hg.moved (dirs.staged_apart source path)).1, FileTree.isDir_iff.mp hsrc.1] at hnone
        cases hnone
  recovers s s' c hret hset hvis := by
    have h := applyOperation_returns.mp hret
    have hc := applyOperation_visits h hvis
    have hresume : o.Applies env dirs c s' := by
      rcases hc with rfl | rfl | hmid
      · exact h
      · exact h.settled.applies
      · exact h.resumes hpay hmid
    have hother : ∀ p ∈ before, (∀ path, p = makeDir path →
        c.look (dirs.target path) = some .dir) → Settled env dirs p c := fun p hp hdir =>
      settled_visited h hc (hset p hp) (hbefore p hp).2 (hbefore p hp).1 hpay hdir
    by_cases hmiss : ∃ i path source expected m, o = replaceTree i path source expected
        ∧ Missing env dirs i path source expected s m c
    · obtain ⟨i, path, source, expected, m, rfl, hmiss⟩ := hmiss
      obtain ⟨hsrc, hg⟩ := hmiss.second hresume
      have ha := dirs.staged_apart source path
      have hclear : Clear c (dirs.target path) := by
        intro x hx content
        rw [← List.dropLast_append_getLast ha.ne_nil] at hx
        rcases List.prefix_concat_iff.mp hx with heq | hx
        · rw [heq, List.dropLast_append_getLast ha.ne_nil, hmiss.target]
          exact fun h => by cases h
        · exact hg.clear x hx content
      -- the target is missing, or made again and empty
      refine ⟨fun t => t = c ∨ Opened c (dirs.target path) t, Or.inl rfl, ?_, ?_⟩
      · intro p hp t ht
        by_cases hmake : p = makeDir path
        · subst hmake
          have hr := (hset _ hp).1
          rcases ht with rfl | ht
          · obtain ⟨t', ht'⟩ := exists_opened t (dirs.target path)
            exact ⟨t', Or.inr ht', applyOperation_returns.mpr ⟨hr, hclear, ht'⟩⟩
          · refine ⟨t, Or.inr ht, applyOperation_returns.mpr (Settled.applies ⟨hr, ?_⟩)⟩
            rw [ht, if_pos (List.prefix_refl _)]
        · have hdir : ∀ q, p = makeDir q → c.look (dirs.target q) = some .dir := by
            rintro q rfl
            rcases dir_visited h hc (hset _ hp).2 (hbefore _ hp).2.separate with hdir | hm
            · exact hdir
            · obtain ⟨i', source', expected', m', heq, -⟩ := hm
              cases heq
              exact absurd rfl hmake
          have hpc := hother p hp hdir
          refine ⟨t, ht, applyOperation_returns.mpr (Settled.applies ?_)⟩
          rcases ht with rfl | ht
          · exact hpc
          · have htouch : (replaceTree i path source expected).Touches dirs c t :=
              touches_between (ht.between hclear)
            refine hpc.stays htouch (hbefore p hp).2 (hbefore p hp).1 hpay ?_
            rintro q rfl
            rw [ht]
            split_ifs
            · rfl
            · exact hdir q rfl
      · rintro t (rfl | ht)
        · exact applyOperation_returns.mpr hresume
        · have hstaged : ∀ x, t.look (dirs.staged source ++ x) = c.look (dirs.staged source ++ x) := by
            intro x
            rw [ht, if_neg (fun h => ha.1 ((List.prefix_append _ x).trans h))]
          have hs' := hstaged []
          rw [List.append_nil] at hs'
          refine applyOperation_returns.mpr (Or.inr ⟨not_installed ?_, t, ?_, ⟨?_, ?_⟩, ?_⟩)
          · rw [hs']
            exact isDir_present hsrc.1
          · rw [if_neg]
            rintro ⟨-, htrash⟩
            rw [FileTree.present_eq_false, ht, hmiss.trash] at htrash
            split_ifs at htrash
          · rw [isDir_congr hs']
            exact hsrc.1
          · rw [digestMatches_congr hstaged]
            exact hsrc.2
          · exact hg.reopened ha (FileTree.isDir_iff.mp hsrc.1) hmiss.target ht
    · -- every operation before is settled, and nothing but this one happens
      refine ⟨fun t => t = c, rfl, ?_, ?_⟩
      · rintro p hp t rfl
        refine ⟨t, rfl, applyOperation_returns.mpr (Settled.applies (hother p hp ?_))⟩
        rintro path rfl
        refine (dir_visited h hc (hset _ hp).2 (hbefore _ hp).2.separate).resolve_right ?_
        rintro ⟨i, source, expected, m, heq, hm⟩
        exact hmiss ⟨i, path, source, expected, m, heq, hm⟩
      · rintro t rfl
        exact applyOperation_returns.mpr hresume

/-- **A transaction whose operations do not undo each other**: what is put
comes from the payload, and no `make-dir`, the one of the data directory
itself included, undoes another operation or is undone by it. -/
def Orderly (env : ReplayEnv ν) (dirs : ReplayDirs) (expectedGeneration : Int)
    (f : FileTree PyStr ν) : Prop :=
  ∀ raws ops, publishedOperations env dirs expectedGeneration f = .ok raws → Decoded raws ops →
    (∀ o ∈ ops, o.Payload) ∧ (Operation.makeDir [] :: ops).Pairwise Operation.Separate

theorem Decoded.unique {raws : List (List (PyStr × Json))} {ops ops' : List Operation}
    (h : Decoded raws ops) (h' : Decoded raws ops') : ops = ops' := by
  induction h generalizing ops' with
  | nil =>
    cases h'
    rfl
  | cons ho _ ih =>
    cases h' with
    | cons ho' hops' => rw [Except.ok.inj (ho.symm.trans ho'), ih hops']

theorem execAll_replayOne {raws : List (List (PyStr × Json))} :
    (Effects.execAll (replayOne env dirs) raws).Returns f u g
      ↔ ∃ ops, Decoded raws ops ∧ (Effects.execAll (applyOperation env dirs) ops).Returns f u g := by
  induction raws generalizing f with
  | nil => exact ⟨fun h => ⟨[], List.Forall₂.nil, h⟩, fun ⟨ops, hdec, h⟩ => by cases hdec; exact h⟩
  | cons raw raws ih =>
    rw [Effects.execAll_cons, Effects.returns_bind]
    constructor
    · rintro ⟨v, m, hone, hrest⟩
      obtain ⟨o, m', hdec, hop⟩ := Effects.returns_bind.mp hone
      obtain ⟨ho, rfl⟩ := Effects.returns_ofExcept.mp hdec
      obtain ⟨ops, hops, hall⟩ := ih.mp hrest
      exact ⟨o :: ops, List.Forall₂.cons ho hops, Effects.returns_bind.mpr ⟨v, m, hop, hall⟩⟩
    · rintro ⟨ops, hdec, h⟩
      cases hdec with
      | cons ho hops =>
        obtain ⟨v, m, hop, hall⟩ := Effects.returns_bind.mp h
        exact ⟨v, m, Effects.returns_bind.mpr ⟨_, f, Effects.returns_ofExcept.mpr ⟨ho, rfl⟩, hop⟩,
          ih.mpr ⟨_, hops, hall⟩⟩

theorem execAll_replayOne_visits {raws : List (List (PyStr × Json))} {ops : List Operation}
    (hdec : Decoded raws ops) (h : (Effects.execAll (replayOne env dirs) raws).Visits f c) :
    (Effects.execAll (applyOperation env dirs) ops).Visits f c := by
  induction hdec generalizing f with
  | nil => exact h
  | cons ho _ ih =>
    rw [Effects.execAll_cons, Effects.visits_bind] at h ⊢
    rcases h with h | ⟨v, m, hone, h⟩
    · left
      rcases Effects.Visits.bind h with h | ⟨o, m', hdec, h⟩
      · rw [Effects.visits_ofExcept h]
        exact Effects.visits_start _ _
      · obtain ⟨ho', rfl⟩ := Effects.returns_ofExcept.mp hdec
        obtain rfl := Except.ok.inj (ho.symm.trans ho')
        exact h
    · right
      obtain ⟨o, m', hdec, hop⟩ := Effects.returns_bind.mp hone
      obtain ⟨ho', rfl⟩ := Effects.returns_ofExcept.mp hdec
      obtain rfl := Except.ok.inj (ho.symm.trans ho')
      exact ⟨v, m, hop, ih h⟩

theorem makeRoot_returns : (applyOperation env dirs (.makeDir [])).Returns f u g
    ↔ (mkdirs env dirs.data).Returns f u g := by
  rw [applyOperation_returns, mkdirs_returns, Operation.Applies, ReplayDirs.target, List.append_nil]

variable {b : Bool}

/-- **What a whole replay does**, as one list of operations. -/
theorem replayTransaction_returns {expectedGeneration : Int} :
    (replayTransaction env dirs expectedGeneration).Returns f b g
      ↔ ∃ raws ops, publishedOperations env dirs expectedGeneration f = .ok raws
        ∧ Decoded raws ops ∧ (!raws.isEmpty) = b
        ∧ (Effects.execAll (applyOperation env dirs) (.makeDir [] :: ops)).Returns f ⟨⟩ g := by
  unfold replayTransaction
  rw [Effects.returns_current_bind, Effects.returns_bind]
  constructor
  · rintro ⟨raws, f', hread, h⟩
    obtain ⟨hpub, rfl⟩ := Effects.returns_ofExcept.mp hread
    obtain ⟨v, m, hroot, h⟩ := Effects.returns_bind.mp h
    obtain ⟨w, m', hall, h⟩ := Effects.returns_bind.mp h
    obtain ⟨hb, rfl⟩ := Effects.returns_pure.mp h
    obtain ⟨ops, hdec, hall⟩ := execAll_replayOne.mp hall
    exact ⟨raws, ops, hpub, hdec, hb, Effects.returns_bind.mpr ⟨v, m, makeRoot_returns.mpr hroot, hall⟩⟩
  · rintro ⟨raws, ops, hpub, hdec, hb, hall⟩
    obtain ⟨v, m, hroot, hall⟩ := Effects.returns_bind.mp hall
    refine ⟨raws, f, Effects.returns_ofExcept.mpr ⟨hpub, rfl⟩, ?_⟩
    refine Effects.returns_bind.mpr ⟨v, m, makeRoot_returns.mp hroot, ?_⟩
    exact Effects.returns_bind.mpr ⟨⟨⟩, g, execAll_replayOne.mpr ⟨ops, hdec, hall⟩,
      Effects.returns_pure.mpr ⟨hb, rfl⟩⟩

theorem replayTransaction_visits {expectedGeneration : Int} {raws : List (List (PyStr × Json))}
    {ops : List Operation} (hpub : publishedOperations env dirs expectedGeneration f = .ok raws)
    (hdec : Decoded raws ops) (h : (replayTransaction env dirs expectedGeneration).Visits f c) :
    (Effects.execAll (applyOperation env dirs) (.makeDir [] :: ops)).Visits f c := by
  unfold replayTransaction at h
  rw [Effects.visits_current_bind] at h
  rw [Effects.execAll_cons, Effects.visits_bind]
  rcases Effects.Visits.bind h with h | ⟨raws', f', hpub', h⟩
  · rw [Effects.visits_ofExcept h]
    exact Or.inl (Effects.visits_start _ _)
  · obtain ⟨hread, rfl⟩ := Effects.returns_ofExcept.mp hpub'
    obtain rfl := Except.ok.inj (hpub.symm.trans hread)
    rcases Effects.Visits.bind h with h | ⟨v, m, hroot, h⟩
    · left
      rw [applyOperation, Effects.visits_bind, ReplayDirs.target, List.append_nil]
      exact Or.inl h
    · refine Or.inr ⟨v, m, makeRoot_returns.mpr hroot, ?_⟩
      rcases Effects.Visits.bind h with h | ⟨w, m', hall, h⟩
      · exact execAll_replayOne_visits hdec h
      · rw [Effects.visits_pure h]
        obtain ⟨ops', hdec', hall⟩ := execAll_replayOne.mp hall
        obtain rfl := hdec.unique hdec'
        have := (Effects.execAll (applyOperation env dirs) ops).visits_final m
        rw [hall.2] at this
        exact this

theorem publishedOperations_congr {expectedGeneration : Int} (h : c.look dirs.manifest = f.look dirs.manifest) :
    publishedOperations env dirs expectedGeneration c = publishedOperations env dirs expectedGeneration f := by
  unfold publishedOperations readJson FileTree.content
  rw [h]

theorem Orderly.congr {expectedGeneration : Int} (hord : Orderly env dirs expectedGeneration f)
    (h : c.look dirs.manifest = f.look dirs.manifest) : Orderly env dirs expectedGeneration c :=
  fun raws ops hpub hdec => hord raws ops (publishedOperations_congr h ▸ hpub) hdec

section Orderly

variable {expectedGeneration : Int} {raws : List (List (PyStr × Json))} {ops : List Operation}

theorem Orderly.compatible (hord : Orderly env dirs expectedGeneration f)
    (hpub : publishedOperations env dirs expectedGeneration f = .ok raws) (hdec : Decoded raws ops) :
    (∀ o ∈ Operation.makeDir [] :: ops, o.Payload)
      ∧ (Operation.makeDir [] :: ops).Pairwise Operation.Compatible := by
  obtain ⟨hpayload, hseparate⟩ := hord raws ops hpub hdec
  refine ⟨fun o ho => ?_, ?_⟩
  · rcases List.mem_cons.mp ho with rfl | ho
    · intro source hs
      cases hs
    · exact hpayload o ho
  · -- what the validation requires holds of the list with the data directory in front
    have hvalid : (Operation.makeDir [] :: ops).Pairwise (fun p o =>
        (∀ i j, p.trashId = some i → o.trashId = some j → i ≠ j)
        ∧ (p.moves = true → o.moves = true → ¬Overlap p.path o.path)) :=
      List.Pairwise.cons (fun o _ => ⟨fun i j hi => (by cases hi), fun h => (by cases h)⟩)
        (publishedOperations_spec hpub (List.prefix_refl _) hdec)
    exact (hvalid.and hseparate).imp fun h => ⟨h.1.2, h.1.1, h.2⟩

theorem Orderly.recovers (hord : Orderly env dirs expectedGeneration f)
    (hpub : publishedOperations env dirs expectedGeneration f = .ok raws) (hdec : Decoded raws ops)
    (l : List Operation) (o : Operation) (r : List Operation) (hsplit : Operation.makeDir [] :: ops = l ++ o :: r) :
    Effects.Recoverable (applyOperation env dirs) (Operation.Settled env dirs) ([] ++ l) o := by
  obtain ⟨hpay, hcompat⟩ := hord.compatible hpub hdec
  rw [hsplit, List.pairwise_append] at hcompat
  rw [List.nil_append]
  refine recoverable (hpay o (by rw [hsplit]; simp)) fun p hp => ⟨?_, ?_⟩
  · exact hpay p (by rw [hsplit]; exact List.mem_append_left _ hp)
  · exact hcompat.2.2 p hp o List.mem_cons_self

end Orderly

theorem replayTransaction_keeps {expectedGeneration : Int} {x : List PyStr}
    (hret : (replayTransaction env dirs expectedGeneration).Returns f b g)
    (hord : Orderly env dirs expectedGeneration f)
    (hx : ∀ (o : Operation) (s t : FileTree PyStr ν), o.Payload → o.Touches dirs s t → s.look x = f.look x →
      t.look x = f.look x)
    (hc : (replayTransaction env dirs expectedGeneration).Visits f c) : c.look x = f.look x := by
  obtain ⟨raws, ops, hpub, hdec, hb, hall⟩ := replayTransaction_returns.mp hret
  obtain ⟨hpay, -⟩ := hord.compatible hpub hdec
  refine Effects.execAll_visits (P := fun t => t.look x = f.look x) ?_ hall rfl
    (replayTransaction_visits hpub hdec hc)
  intro o ho s s' d hs hone hd
  have happ := applyOperation_returns.mp hone
  obtain ⟨m, hm, hmd⟩ := Operation.visited_touches happ (applyOperation_visits happ hd)
  exact hx o m d (hpay o ho) hmd (hx o s m (hpay o ho) hm hs)

/-- **No operation of an orderly transaction touches its manifest.** -/
theorem replay_manifest {expectedGeneration : Int}
    (hret : (replayTransaction env dirs expectedGeneration).Returns f b g)
    (hord : Orderly env dirs expectedGeneration f)
    (hc : (replayTransaction env dirs expectedGeneration).Visits f c) :
    c.look dirs.manifest = f.look dirs.manifest ∧ c.look dirs.manifest ≠ none := by
  obtain ⟨raws, ops, hpub, -⟩ := replayTransaction_returns.mp hret
  have hthere : f.look dirs.manifest ≠ none := by
    intro hnone
    unfold publishedOperations readJson FileTree.content at hpub
    rw [hnone] at hpub
    cases hpub
  have hkeep := replayTransaction_keeps hret hord
    (fun o s t hpay htouch hs => (htouch.manifest hpay (hs ▸ hthere)).trans hs) hc
  exact ⟨hkeep, hkeep ▸ hthere⟩

/-- **A crashed replay of an orderly transaction, run again, returns the
same result and leaves the same tree.** -/
theorem replay_resumes {expectedGeneration : Int} {b : Bool}
    (hret : (replayTransaction env dirs expectedGeneration).Returns f b g)
    (hord : Orderly env dirs expectedGeneration f)
    (hc : (replayTransaction env dirs expectedGeneration).Visits f c) :
    (replayTransaction env dirs expectedGeneration).Returns c b g := by
  obtain ⟨raws, ops, hpub, hdec, hb, hall⟩ := replayTransaction_returns.mp hret
  have hresume : (Effects.execAll (applyOperation env dirs) (.makeDir [] :: ops)).Returns c ⟨⟩ g :=
    Effects.execAll_resumes (Operation.Settled env dirs) []
      (fun o s hset => applyOperation_returns.mpr hset.applies) (hord.recovers hpub hdec)
      (fun p hp => (by cases hp)) hall (replayTransaction_visits hpub hdec hc)
  -- no operation touches the manifest, so the second run reads the same one
  have hmanifest := (publishedOperations_congr (replay_manifest hret hord hc).1).trans hpub
  exact replayTransaction_returns.mpr ⟨raws, ops, hmanifest, hdec, hb, hresume⟩

theorem replay_redo {expectedGeneration : Int} (hret : (replayTransaction env dirs expectedGeneration).Returns f b g)
    (hord : Orderly env dirs expectedGeneration f)
    (hlook : ∀ x, dirs.data <+: x ∨ dirs.transaction <+: x → c.look x = g.look x) :
    (replayTransaction env dirs expectedGeneration).Returns c b c := by
  obtain ⟨raws, ops, hpub, hdec, hb, hall⟩ := replayTransaction_returns.mp hret
  have hsettled := Effects.execAll_settles (Operation.Settled env dirs) [] (hord.recovers hpub hdec)
    (fun p hp => (by cases hp)) hall
  have hfinal := (replayTransaction env dirs expectedGeneration).visits_final f
  rw [hret.2] at hfinal
  have hmanifest : publishedOperations env dirs expectedGeneration c = .ok raws := by
    rw [← hpub]
    refine publishedOperations_congr ?_
    exact (hlook dirs.manifest (Or.inr (List.prefix_append _ _))).trans (replay_manifest hret hord hfinal).1
  refine replayTransaction_returns.mpr ⟨raws, ops, hmanifest, hdec, hb, ?_⟩
  exact Effects.execAll_redo
    (fun o s (hset : Operation.Settled env dirs o s) => applyOperation_returns.mpr hset.applies)
    fun o ho => (hsettled o ho).congr hlook

/-! ## A removal that is undone -/

def plainEnv (manifest : Json) : ReplayEnv Unit where
  sha256 _ := "0"
  treeDigest _ := "1"
  loads _ := .ok manifest
  refusal _ := none
  refusal_cls _ _ h := by cases h

def plainDirs : ReplayDirs where
  transaction := ["t"]
  data := ["d"]
  apart := by decide
  apart' := by decide

def manifestOf (operations : List Json) : Json :=
  .obj [("format", .str "httk-workflow-transaction"), ("format_version", .int 2),
    ("expected_data_generation", .int 0), ("operations", .arr operations)]

/-- A transaction without payload, and a data tree with one directory `a`
that is not empty. -/
def filledTree : FileTree PyStr Unit :=
  FileTree.ofEntries
    [([], .dir), (["t"].map PyStr.ofString, .dir),
      (["t", "manifest.json"].map PyStr.ofString, .file ()), (["d"].map PyStr.ofString, .dir),
      (["d", "a"].map PyStr.ofString, .dir), (["d", "a", "x"].map PyStr.ofString, .file ())]
    (by decide)

def removeThenMake (made : String) : List Json :=
  [.obj [("id", .str "1"), ("op", .str "remove"), ("path", .str "a")],
    .obj [("id", .str "2"), ("op", .str "make-dir"), ("path", .str made)]]

def plainReplay (made : String) : Replay Unit Bool :=
  replayTransaction (plainEnv (manifestOf (removeThenMake made))) plainDirs 0

theorem returns_of_toOption {α : Type} {x : Replay ν α} {a : α}
    (h : (x f).snd.toOption = some a) : x.Returns f a (x.final f) := by
  refine ⟨?_, rfl⟩
  cases hx : (x f).snd with
  | error e =>
    rw [hx] at h
    cases h
  | ok b =>
    rw [hx] at h
    rw [Option.some.inj h]

/-- **A replay that does not converge**: removing a directory with an entry
and making it anew returns, and a second run raises, because it moves the
new directory onto the one in the trash. -/
theorem replay_not_resumed :
    ∃ c g : FileTree PyStr Unit, (plainReplay "a").Returns filledTree true g
      ∧ (plainReplay "a").Visits filledTree c ∧ ∀ b g', ¬(plainReplay "a").Returns c b g' := by
  refine ⟨(plainReplay "a").final filledTree, (plainReplay "a").final filledTree,
    returns_of_toOption (by decide +kernel), Effects.visits_final _ _, ?_⟩
  rintro b g' ⟨h, -⟩
  have hfail : ((plainReplay "a") ((plainReplay "a").final filledTree)).snd.toOption = none := by
    decide +kernel
  rw [h] at hfail
  cases hfail

theorem orderly_elsewhere : Orderly (plainEnv (manifestOf (removeThenMake "b"))) plainDirs 0 filledTree := by
  intro raws ops hpub hdec
  have hpub' : publishedOperations (plainEnv (manifestOf (removeThenMake "b"))) plainDirs 0
      filledTree = .ok [[("id", .str "1"), ("op", .str "remove"), ("path", .str "a")],
        [("id", .str "2"), ("op", .str "make-dir"), ("path", .str "b")]] := rfl
  obtain rfl := Except.ok.inj (hpub'.symm.trans hpub)
  have hops : ops = [.remove "1" ["a"] false, .makeDir ["b"]] :=
    hdec.unique (List.Forall₂.cons rfl (List.Forall₂.cons rfl List.Forall₂.nil))
  rw [hops]
  refine ⟨?_, ?_⟩
  · intro o ho source hs
    rcases List.mem_pair.mp ho with rfl | rfl <;> cases hs
  · refine List.Pairwise.cons ?_ (List.pairwise_pair.mpr ?_)
    · intro o ho
      rcases List.mem_pair.mp ho with rfl | rfl
      · show ¬[PyStr.ofString "a"] <+: []
        decide
      · trivial
    · show ¬[PyStr.ofString "a"] <+: [PyStr.ofString "b"]
      decide

/-- A removal beside a directory made elsewhere converges from every crash,
here from the one after the last effect. -/
theorem replay_resumes_elsewhere :
    (plainReplay "b").Returns ((plainReplay "b").final filledTree) true
      ((plainReplay "b").final filledTree) :=
  replay_resumes (f := filledTree) (returns_of_toOption (by decide +kernel)) orderly_elsewhere
    (Effects.visits_final _ _)

theorem replay_again {expectedGeneration : Int} {b : Bool}
    (hret : (replayTransaction env dirs expectedGeneration).Returns f b g) (hord : Orderly env dirs expectedGeneration f)
    (hc : (replayTransaction env dirs expectedGeneration).Visits f c) :
    (replayTransaction env dirs expectedGeneration).Returns c b g ∧ Orderly env dirs expectedGeneration c := by
  have hmanifest := (replay_manifest hret hord hc).1
  obtain ⟨raws, ops, hpub, hdec, hb, hall⟩ := replayTransaction_returns.mp hret
  have hresume := Effects.execAll_resumes (Operation.Settled env dirs) []
    (fun o s hset => applyOperation_returns.mpr hset.applies) (hord.recovers hpub hdec) (fun p hp => (by cases hp))
    hall (replayTransaction_visits hpub hdec hc)
  exact ⟨replayTransaction_returns.mpr ⟨raws, ops, (publishedOperations_congr hmanifest).trans hpub, hdec, hb, hresume⟩,
    hord.congr hmanifest⟩

/-- **A replay survives any number of crashes**: from what is left after any of them, in a run of what was left
after the one before, it returns the same result and leaves the same tree. -/
theorem replay_survives {expectedGeneration : Int} {b : Bool}
    (hret : (replayTransaction env dirs expectedGeneration).Returns f b g) (hord : Orderly env dirs expectedGeneration f)
    (hc : Relation.ReflTransGen (fun s t => (replayTransaction env dirs expectedGeneration).Visits s t) f c) :
    (replayTransaction env dirs expectedGeneration).Returns c b g := by
  suffices h : (replayTransaction env dirs expectedGeneration).Returns c b g ∧ Orderly env dirs expectedGeneration c from h.1
  induction hc with
  | refl => exact ⟨hret, hord⟩
  | tail _ hvisit ih => exact replay_again ih.1 ih.2 hvisit

/-- What is left of a replay that is killed after some effects. -/
def killedAfter (n : ℕ) (f : FileTree PyStr Unit) : FileTree PyStr Unit :=
  ((plainReplay "b" f).fst.take n).getLastD f

/-- Killed when the trash was made, and again before `b` was, the replay still ends with `a` gone and `b` there. -/
theorem replay_survives_twice :
    ((killedAfter 2 (killedAfter 1 filledTree)).look ["d", "a"]).isNone = true
      ∧ ((killedAfter 2 (killedAfter 1 filledTree)).look ["d", "b"]).isNone = true
      ∧ (plainReplay "b").Returns (killedAfter 2 (killedAfter 1 filledTree)) true ((plainReplay "b").final filledTree) :=
  ⟨by decide +kernel, by decide +kernel,
    replay_survives (f := filledTree) (returns_of_toOption (by decide +kernel)) orderly_elsewhere
      (.tail (.single (Effects.visits_take _ _ 1)) (Effects.visits_take _ _ 2))⟩
