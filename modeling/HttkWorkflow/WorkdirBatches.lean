import HttkWorkflow.ReplayResume
import Mathlib.Data.Finset.Sort
import Mathlib.Logic.Relation

/-!
# Batches of workdir changes, recovered

A `ReplayableWorkdirBatch` is a transaction on the workdir of an attempt.
Sealing it renames its directory into `workdir-ready`, and committing it
replays the transaction and renames the directory on into `workdir-applied`.
What a process left sealed and not applied, `recover` commits when the next
one starts, one directory of `workdir-ready` after the other.

A crash inside `recover` does no harm to an orderly batch. A replay under way
is run again and ends as it would have, a replay that is over does nothing
once more, and a batch whose directory was renamed is not found again. What
the batches come to depends on their order though, and the names of their
directories are drawn at random: `recover` goes through them in the order of
the names, and not in the order in which they were sealed.

The directory `.httk-runner` of the workdir, where the batches lie, is kept
beside the workdir here. No operation of a batch can tell the difference: the
builder of a batch takes no target with that name in it.
-/

variable {ν : Type} {env : ReplayEnv ν} {f g c m : FileTree PyStr ν}

/-! ## Entries of a directory -/

section Listing

local instance : IsTrans PyStr (· ≤ ·) := inferInstance
local instance : Std.Antisymm ((· ≤ ·) : PyStr → PyStr → Prop) := inferInstance

/-- **`sorted(path.iterdir())`**, as the names. -/
def FileTree.listing (f : FileTree PyStr ν) (p : List PyStr) : List PyStr :=
  ((f.support.filter fun q => q ≠ [] ∧ q.dropLast = p).image fun q => q.getLastD ⟨[]⟩).sort (· ≤ ·)

end Listing

theorem FileTree.mem_listing {p : List PyStr} {n : PyStr} : n ∈ f.listing p ↔ f.look (p ++ [n]) ≠ none := by
  unfold FileTree.listing
  rw [Finset.mem_sort, Finset.mem_image]
  constructor
  · rintro ⟨q, hq, rfl⟩
    obtain ⟨hmem, hne, rfl⟩ := Finset.mem_filter.mp hq
    have hq : q.dropLast ++ [q.getLastD ⟨[]⟩] = q := by
      rw [List.getLastD_eq_getLast?, List.getLast?_eq_some_getLast hne, Option.getD_some,
        List.dropLast_append_getLast hne]
    rw [hq]
    exact Option.isSome_iff_ne_none.mp ((f.mem_support q).mp hmem)
  · intro hn
    refine ⟨p ++ [n], Finset.mem_filter.mpr ⟨(f.mem_support _).mpr (Option.isSome_iff_ne_none.mpr hn), ?_, ?_⟩, ?_⟩
    · exact List.append_ne_nil_of_right_ne_nil _ (List.cons_ne_nil n [])
    · exact List.dropLast_concat
    · rw [List.getLastD_eq_getLast?, List.getLast?_concat, Option.getD_some]

theorem FileTree.pairwise_listing (p : List PyStr) : (f.listing p).Pairwise (· < ·) :=
  (Finset.sortedLT_sort _).pairwise

theorem FileTree.nodup_listing (p : List PyStr) : (f.listing p).Nodup :=
  (f.pairwise_listing p).imp fun h => ne_of_lt h

/-! ## The batches -/

/-- **The places of a workdir**: the workdir, and `workdir-ready` and `workdir-applied` of its runner. -/
structure WorkdirPlaces where
  workdir : List PyStr
  ready : List PyStr
  applied : List PyStr
  workdir_ready : Apart workdir ready
  workdir_applied : Apart workdir applied
  ready_applied : Apart ready applied

def WorkdirPlaces.sealedBatch (places : WorkdirPlaces) (name : PyStr) : List PyStr := places.ready ++ [name]

def WorkdirPlaces.appliedBatch (places : WorkdirPlaces) (name : PyStr) : List PyStr := places.applied ++ [name]

variable {s d : List PyStr}

theorem Apart.append (h : Apart s d) (t e : List PyStr) : Apart (s ++ t) (d ++ e) := by
  constructor
  · intro hle
    rcases List.prefix_or_prefix_of_prefix ((List.prefix_append s t).trans hle) (List.prefix_append d e) with h' | h'
    · exact h.1 h'
    · exact h.2 h'
  · intro hle
    rcases List.prefix_or_prefix_of_prefix ((List.prefix_append d e).trans hle) (List.prefix_append s t) with h' | h'
    · exact h.2 h'
    · exact h.1 h'

theorem Apart.append_right (h : Apart s d) (e : List PyStr) : Apart s (d ++ e) := by
  have happend := h.append [] e
  rwa [List.append_nil] at happend

def WorkdirPlaces.batch (places : WorkdirPlaces) (name : PyStr) : ReplayDirs where
  transaction := places.sealedBatch name
  data := places.workdir
  apart := (places.workdir_ready.append_right [name]).2
  apart' := (places.workdir_ready.append_right [name]).1

/-- **`commit`** of a sealed batch: it is replayed, and retired. -/
def commitBatch (env : ReplayEnv ν) (places : WorkdirPlaces) (name : PyStr) : Replay ν (List PyStr) := do
  let _ ← replayTransaction env (places.batch name) 0
  mkdirs env places.applied
  osRename env (places.sealedBatch name) (places.appliedBatch name)
  pure (places.appliedBatch name)

/-- The loop of `recover`. -/
def recoverBatches (env : ReplayEnv ν) (places : WorkdirPlaces) : List PyStr → Replay ν (List (List PyStr))
  | [] => pure []
  | name :: names => do
    let f ← Effects.current
    if f.isDir (places.sealedBatch name) = true then do
      let applied ← commitBatch env places name
      let recovered ← recoverBatches env places names
      pure (applied :: recovered)
    else recoverBatches env places names

/-- **`recover`**: every ready batch is replayed and retired. -/
def recover (env : ReplayEnv ν) (places : WorkdirPlaces) : Replay ν (List (List PyStr)) := do
  let f ← Effects.current
  if f.isDir places.ready = true then recoverBatches env places (f.listing places.ready)
  else pure []

/-- **The batches, committed in an order.** -/
def commitBatches (env : ReplayEnv ν) (places : WorkdirPlaces) : List PyStr → Replay ν (List (List PyStr))
  | [] => pure []
  | name :: names => do
    let applied ← commitBatch env places name
    let others ← commitBatches env places names
    pure (applied :: others)

/-! ## Where a batch reaches -/

/-- **Out of reach of a batch**: neither in the workdir nor in the batch nor among the applied ones, and on the
way to none of them where nothing is yet. -/
structure OutOfReach (places : WorkdirPlaces) (name : PyStr) (f : FileTree PyStr ν) (x : List PyStr) : Prop where
  workdir : ¬places.workdir <+: x
  batch : ¬places.sealedBatch name <+: x
  applied : ¬places.applied <+: x
  above : x <+: places.workdir ∨ x <+: places.sealedBatch name ∨ x <+: places.applied → f.look x ≠ none

theorem Operation.Touches.out_of_reach {dirs : ReplayDirs} {o : Operation} (h : o.Touches dirs f c) {x : List PyStr}
    (hdata : ¬dirs.data <+: x) (htransaction : ¬dirs.transaction <+: x)
    (habove : x <+: dirs.data ∨ x <+: dirs.transaction → f.look x ≠ none) : c.look x = f.look x := by
  have hside : ∀ {p y : List PyStr}, ¬p <+: x → x <+: p ++ y → x <+: p := fun hp hx =>
    (List.prefix_or_prefix_of_prefix hx (List.prefix_append _ _)).resolve_right hp
  rcases h x with h | ⟨-, h⟩ | ⟨src, -, h, -⟩ | ⟨t, ht, h⟩ | ⟨h, hnone, -⟩ | ⟨t, ht, h, hnone, -⟩
  · exact h
  · exact absurd ((List.prefix_append _ _).trans h) hdata
  · exact absurd ((List.prefix_append _ _).trans h) htransaction
  · obtain ⟨i, name, -, rfl⟩ := trash_eq ht
    exact absurd ((List.prefix_append _ _).trans h) htransaction
  · exact absurd hnone (habove (Or.inl (hside hdata h)))
  · obtain ⟨i, name, -, rfl⟩ := trash_eq ht
    exact absurd hnone (habove (Or.inr (hside htransaction (h.trans (List.dropLast_prefix _)))))

section Commit

variable {places : WorkdirPlaces} {name : PyStr} {a : List PyStr}

theorem commitBatch_returns : (commitBatch env places name).Returns f a g
    ↔ a = places.appliedBatch name ∧ ∃ b m m', (replayTransaction env (places.batch name) 0).Returns f b m
      ∧ (mkdirs env places.applied).Returns m ⟨⟩ m'
      ∧ (osRename env (places.sealedBatch name) (places.appliedBatch name)).Returns m' ⟨⟩ g := by
  unfold commitBatch
  rw [Effects.returns_bind]
  constructor
  · rintro ⟨b, m, hreplay, hrest⟩
    obtain ⟨u, m', hmake, hrest⟩ := Effects.returns_bind.mp hrest
    obtain ⟨v, g', hrename, hrest⟩ := Effects.returns_bind.mp hrest
    obtain ⟨rfl, rfl⟩ := Effects.returns_pure.mp hrest
    exact ⟨rfl, b, m, m', hreplay, hmake, hrename⟩
  · rintro ⟨rfl, b, m, m', hreplay, hmake, hrename⟩
    refine ⟨b, m, hreplay, Effects.returns_bind.mpr ⟨⟨⟩, m', hmake, Effects.returns_bind.mpr ?_⟩⟩
    exact ⟨⟨⟩, g, hrename, Effects.returns_pure.mpr ⟨rfl, rfl⟩⟩

theorem commitBatch_visits (hret : (commitBatch env places name).Returns f a g)
    (hc : (commitBatch env places name).Visits f c) :
    (replayTransaction env (places.batch name) 0).Visits f c
      ∨ (∃ b m, (replayTransaction env (places.batch name) 0).Returns f b m ∧ Between m places.applied c)
      ∨ c = g := by
  obtain ⟨-, b, m, m', hreplay, hmake, hrename⟩ := commitBatch_returns.mp hret
  unfold commitBatch at hc
  rcases Effects.Visits.bind hc with hc | ⟨b', t, hreplay', hc⟩
  · exact Or.inl hc
  · obtain ⟨rfl, rfl⟩ := hreplay.unique hreplay'
    refine Or.inr ?_
    rcases Effects.Visits.bind hc with hc | ⟨u, t, hmake', hc⟩
    · exact Or.inl ⟨b, m, hreplay, mkdirs_visits hc⟩
    · obtain ⟨-, rfl⟩ := hmake.unique hmake'
      rcases Effects.Visits.bind hc with hc | ⟨v, t, hrename', hc⟩
      · rcases osRename_visits hc with rfl | hc
        · obtain ⟨-, hclear, hopened⟩ := mkdirs_returns.mp hmake
          exact Or.inl ⟨b, m, hreplay, hopened.between hclear⟩
        · exact Or.inr (hc.unique hrename).2
      · obtain ⟨-, rfl⟩ := hrename.unique hrename'
        exact Or.inr (Effects.visits_pure hc)

variable {x : List PyStr}

theorem replay_out_of_reach {b : Bool} (hret : (replayTransaction env (places.batch name) 0).Returns f b g)
    (hord : Orderly env (places.batch name) 0 f) (hc : (replayTransaction env (places.batch name) 0).Visits f c)
    (hx : OutOfReach places name f x) : c.look x = f.look x := by
  refine replayTransaction_keeps hret hord (fun o s t _ htouch hs => ?_) hc
  refine (htouch.out_of_reach hx.workdir hx.batch fun habove => ?_).trans hs
  rw [hs]
  exact hx.above (habove.imp_right Or.inl)

theorem Between.out_of_reach (h : Between m places.applied c) (hx : OutOfReach places name f x)
    (hm : m.look x = f.look x) : c.look x = f.look x := by
  by_cases habove : x <+: places.applied
  · rw [h.look_of_ne (hm ▸ hx.above (Or.inr (Or.inr habove))), hm]
  · rw [h.look_of_not habove, hm]

theorem Between.look_batch (h : Between m places.applied c)
    (hx : places.workdir <+: x ∨ places.sealedBatch name <+: x) : c.look x = m.look x := by
  refine h.look_of_not fun habove => ?_
  rcases hx with hx | hx
  · exact places.workdir_applied.1 (hx.trans habove)
  · exact places.ready_applied.1 (((List.prefix_append _ _).trans hx).trans habove)

theorem commitBatch_resumes (hret : (commitBatch env places name).Returns f a g)
    (hord : Orderly env (places.batch name) 0 f) (hc : (commitBatch env places name).Visits f c) :
    c = g ∨ (commitBatch env places name).Returns c a g
      ∧ c.look (places.batch name).manifest = f.look (places.batch name).manifest
      ∧ c.look (places.batch name).manifest ≠ none := by
  obtain ⟨ha, b, m, m', hreplay, hmake, hrename⟩ := commitBatch_returns.mp hret
  rcases commitBatch_visits hret hc with hc | ⟨b', t, hreplay', hbetween⟩ | rfl
  · exact Or.inr ⟨commitBatch_returns.mpr ⟨ha, b, m, m', (replay_again hreplay hord hc).1, hmake, hrename⟩,
      replay_manifest hreplay hord hc⟩
  · obtain ⟨rfl, rfl⟩ := hreplay.unique hreplay'
    have hlook : ∀ x, (places.batch name).data <+: x ∨ (places.batch name).transaction <+: x → c.look x = m.look x :=
      fun x hx => hbetween.look_batch hx
    have hfinal := (replayTransaction env (places.batch name) 0).visits_final f
    rw [hreplay.2] at hfinal
    have hmanifest := hlook (places.batch name).manifest (Or.inr (List.prefix_append _ _))
    rw [hmanifest]
    refine Or.inr ⟨commitBatch_returns.mpr ⟨ha, b, c, m', replay_redo hreplay hord hlook, ?_, hrename⟩,
      replay_manifest hreplay hord hfinal⟩
    obtain ⟨hrefusal, hclear, hopened⟩ := mkdirs_returns.mp hmake
    exact mkdirs_returns.mpr ⟨hrefusal, hbetween.clear.mpr hclear, hbetween.opened.mpr hopened⟩
  · exact Or.inl rfl

theorem commitBatch_out_of_reach (hret : (commitBatch env places name).Returns f a g)
    (hord : Orderly env (places.batch name) 0 f) (hc : (commitBatch env places name).Visits f c)
    (hx : OutOfReach places name f x) : c.look x = f.look x := by
  obtain ⟨-, b, m, m', hreplay, hmake, hrename⟩ := commitBatch_returns.mp hret
  have hfinal := (replayTransaction env (places.batch name) 0).visits_final f
  rw [hreplay.2] at hfinal
  have hm := replay_out_of_reach hreplay hord hfinal hx
  rcases commitBatch_visits hret hc with hc | ⟨b', t, hreplay', hbetween⟩ | rfl
  · exact replay_out_of_reach hreplay hord hc hx
  · obtain ⟨-, rfl⟩ := hreplay.unique hreplay'
    exact hbetween.out_of_reach hx hm
  · obtain ⟨-, hclear, hopened⟩ := mkdirs_returns.mp hmake
    obtain ⟨-, hrenamable, rfl⟩ := osRename_returns.mp hrename
    have happlied : ¬places.appliedBatch name <+: x := fun h => hx.applied ((List.prefix_append _ _).trans h)
    rw [FileTree.look_rename, FileTree.moved_of_not happlied hx.batch]
    exact (hopened.between hclear).out_of_reach hx hm

theorem commitBatch_retires (hret : (commitBatch env places name).Returns f a g) :
    g.look (places.sealedBatch name) = none := by
  obtain ⟨-, b, m, m', -, -, hrename⟩ := commitBatch_returns.mp hret
  obtain ⟨-, hrenamable, rfl⟩ := osRename_returns.mp hrename
  rw [FileTree.look_rename]
  exact FileTree.moved_source (places.ready_applied.append [name] [name]).2 (List.prefix_refl _)

end Commit

section Reach

variable {name other : PyStr}

theorem apart_batches (places : WorkdirPlaces) (hne : other ≠ name) (x : List PyStr) :
    Apart (places.sealedBatch name) (places.sealedBatch other ++ x) := by
  unfold WorkdirPlaces.sealedBatch
  rw [List.append_assoc]
  constructor
  · intro hle
    exact hne (List.cons_prefix_cons.mp ((List.prefix_append_right_inj _).mp hle)).1.symm
  · intro hle
    exact hne (List.cons_prefix_cons.mp ((List.prefix_append_right_inj _).mp hle)).1

theorem outOfReach_batch (places : WorkdirPlaces) (hne : other ≠ name) (x : List PyStr) :
    OutOfReach places name f (places.sealedBatch other ++ x) := by
  have hworkdir := (places.workdir_ready.append_right [other]).append_right x
  have happlied : Apart (places.sealedBatch other ++ x) places.applied := by
    have happend := places.ready_applied.append ([other] ++ x) []
    rwa [List.append_nil, ← List.append_assoc] at happend
  have hbatch := apart_batches places hne x
  exact ⟨hworkdir.1, hbatch.1, happlied.2, fun habove =>
    (habove.elim hworkdir.2 fun h => h.elim hbatch.2 happlied.1).elim⟩

theorem outOfReach_ready {places : WorkdirPlaces} (hf : f.look places.ready ≠ none) : OutOfReach places name f places.ready where
  workdir := places.workdir_ready.1
  batch hle := by
    have hlength := hle.length_le
    simp only [WorkdirPlaces.sealedBatch, List.length_append, List.length_singleton] at hlength
    omega
  applied := places.ready_applied.2
  above _ := hf

end Reach

/-! ## The loop -/

section Loop

variable {places : WorkdirPlaces} {names : List PyStr} {l : List (List PyStr)}

/-- **Batches that are orderly**: those of some names that are ready. -/
def OrderlyBatches (env : ReplayEnv ν) (places : WorkdirPlaces) (names : List PyStr) (f : FileTree PyStr ν) : Prop :=
  ∀ name ∈ names, f.isDir (places.sealedBatch name) = true → Orderly env (places.batch name) 0 f

theorem OrderlyBatches.congr (h : OrderlyBatches env places names f)
    (hlook : ∀ name ∈ names, c.isDir (places.sealedBatch name) = true → f.isDir (places.sealedBatch name) = true
        ∧ c.look (places.batch name).manifest = f.look (places.batch name).manifest) :
    OrderlyBatches env places names c := fun name hname hdir =>
  (h name hname (hlook name hname hdir).1).congr (hlook name hname hdir).2

variable {name : PyStr}

theorem recoverBatches_cons_ready (hdir : f.isDir (places.sealedBatch name) = true) :
    (recoverBatches env places (name :: names)) f = (do
      let applied ← commitBatch env places name
      let recovered ← recoverBatches env places names
      pure (applied :: recovered) : Replay ν (List (List PyStr))) f := by
  show (if f.isDir (places.sealedBatch name) = true then _ else _ : Replay ν (List (List PyStr))) f = _
  rw [if_pos hdir]

theorem recoverBatches_cons_not (hdir : f.isDir (places.sealedBatch name) = false) :
    (recoverBatches env places (name :: names)) f = (recoverBatches env places names) f := by
  show (if f.isDir (places.sealedBatch name) = true then _ else _ : Replay ν (List (List PyStr))) f = _
  rw [if_neg (by rw [hdir]; exact Bool.false_ne_true)]

/-- **The loop, at a ready batch.** -/
theorem returns_cons_ready (hdir : f.isDir (places.sealedBatch name) = true) :
    (recoverBatches env places (name :: names)).Returns f l g ↔ ∃ a m l', (commitBatch env places name).Returns f a m
      ∧ (recoverBatches env places names).Returns m l' g ∧ a :: l' = l := by
  rw [Effects.returns_congr (recoverBatches_cons_ready hdir), Effects.returns_bind]
  constructor
  · rintro ⟨a, m, hcommit, hrest⟩
    obtain ⟨l', t, hrecover, hrest⟩ := Effects.returns_bind.mp hrest
    obtain ⟨rfl, rfl⟩ := Effects.returns_pure.mp hrest
    exact ⟨a, m, l', hcommit, hrecover, rfl⟩
  · rintro ⟨a, m, l', hcommit, hrecover, rfl⟩
    exact ⟨a, m, hcommit, Effects.returns_bind.mpr ⟨l', g, hrecover, Effects.returns_pure.mpr ⟨rfl, rfl⟩⟩⟩

variable {a : List PyStr}

theorem visits_cons_ready (hdir : f.isDir (places.sealedBatch name) = true)
    (hcommit : (commitBatch env places name).Returns f a m)
    (hc : (recoverBatches env places (name :: names)).Visits f c) :
    (commitBatch env places name).Visits f c ∨ (recoverBatches env places names).Visits m c := by
  rw [Effects.visits_congr (recoverBatches_cons_ready hdir)] at hc
  rcases Effects.Visits.bind hc with hc | ⟨a', t, hcommit', hc⟩
  · exact Or.inl hc
  · obtain ⟨-, rfl⟩ := hcommit.unique hcommit'
    rcases Effects.Visits.bind hc with hc | ⟨l', t, hrest, hc⟩
    · exact Or.inr hc
    · rw [Effects.visits_pure hc]
      have hfinal := (recoverBatches env places names).visits_final m
      rw [hrest.2] at hfinal
      exact Or.inr hfinal

theorem commitBatch_other {name other : PyStr} (hcommit : (commitBatch env places name).Returns f a g)
    (hord : Orderly env (places.batch name) 0 f) (hc : (commitBatch env places name).Visits f c) (hne : other ≠ name)
    (x : List PyStr) : c.look (places.sealedBatch other ++ x) = f.look (places.sealedBatch other ++ x) :=
  commitBatch_out_of_reach hcommit hord hc (outOfReach_batch places hne x)

theorem commitBatch_other_dir {name other : PyStr}
    (hcommit : (commitBatch env places name).Returns f a g) (hord : Orderly env (places.batch name) 0 f)
    (hc : (commitBatch env places name).Visits f c) (hne : other ≠ name) :
    c.isDir (places.sealedBatch other) = f.isDir (places.sealedBatch other) := by
  have hlook := commitBatch_other hcommit hord hc hne []
  rw [List.append_nil] at hlook
  exact isDir_congr hlook

theorem commitBatch_final (hcommit : (commitBatch env places name).Returns f a m) :
    (commitBatch env places name).Visits f m := by
  have hfinal := (commitBatch env places name).visits_final f
  rwa [hcommit.2] at hfinal

theorem OrderlyBatches.rest (h : OrderlyBatches env places (name :: names) f)
    (hnew : name ∉ names) (hdir : f.isDir (places.sealedBatch name) = true)
    (hcommit : (commitBatch env places name).Returns f a g) (hc : (commitBatch env places name).Visits f c) :
    OrderlyBatches env places names c := by
  have hord := h name List.mem_cons_self hdir
  refine OrderlyBatches.congr (fun other hother => h other (List.mem_cons_of_mem _ hother)) fun other hother hother' => ?_
  have hne : other ≠ name := fun heq => hnew (heq ▸ hother)
  rw [commitBatch_other_dir hcommit hord hc hne] at hother'
  exact ⟨hother', commitBatch_other hcommit hord hc hne _⟩

variable {x : List PyStr}

theorem OutOfReach.congr (h : OutOfReach places name f x) (hc : c.look x = f.look x) : OutOfReach places name c x :=
  { h with above := fun habove => hc ▸ h.above habove }

theorem recoverBatches_out_of_reach (hnodup : names.Nodup) (hord : OrderlyBatches env places names f)
    (hret : (recoverBatches env places names).Returns f l g) (hc : (recoverBatches env places names).Visits f c)
    (hx : ∀ name ∈ names, OutOfReach places name f x) : c.look x = f.look x := by
  induction names generalizing f l with
  | nil => rw [Effects.visits_pure hc]
  | cons name names ih =>
    obtain ⟨hnew, hnodup⟩ := List.nodup_cons.mp hnodup
    cases hdir : f.isDir (places.sealedBatch name) with
    | false =>
      rw [Effects.returns_congr (recoverBatches_cons_not hdir)] at hret
      rw [Effects.visits_congr (recoverBatches_cons_not hdir)] at hc
      exact ih hnodup (fun other hother => hord other (List.mem_cons_of_mem _ hother)) hret hc
        fun other hother => hx other (List.mem_cons_of_mem _ hother)
    | true =>
      obtain ⟨a, m, l', hcommit, hrest, rfl⟩ := (returns_cons_ready hdir).mp hret
      have hname := hord name List.mem_cons_self hdir
      have hreach := hx name List.mem_cons_self
      rcases visits_cons_ready hdir hcommit hc with hc | hc
      · exact commitBatch_out_of_reach hcommit hname hc hreach
      · have hm := commitBatch_out_of_reach hcommit hname (commitBatch_final hcommit) hreach
        refine (ih hnodup (hord.rest hnew hdir hcommit (commitBatch_final hcommit)) hrest hc fun other hother => ?_).trans hm
        exact (hx other (List.mem_cons_of_mem _ hother)).congr hm

theorem recoverBatches_passes (hnew : name ∉ names) (hnodup : names.Nodup)
    (hord : OrderlyBatches env places names f) (hret : (recoverBatches env places names).Returns f l g)
    (hc : (recoverBatches env places names).Visits f c) :
    c.look (places.sealedBatch name) = f.look (places.sealedBatch name) := by
  refine recoverBatches_out_of_reach hnodup hord hret hc fun other hother => ?_
  have hreach := outOfReach_batch (f := f) places (fun heq : name = other => hnew (heq ▸ hother)) []
  rwa [List.append_nil] at hreach

theorem recoverBatches_resumes (hnodup : names.Nodup) (hord : OrderlyBatches env places names f)
    (hret : (recoverBatches env places names).Returns f l g) (hc : (recoverBatches env places names).Visits f c) :
    ∃ l', (recoverBatches env places names).Returns c l' g := by
  induction names generalizing f l with
  | nil => exact ⟨l, Effects.visits_pure hc ▸ hret⟩
  | cons name names ih =>
    obtain ⟨hnew, hnodup⟩ := List.nodup_cons.mp hnodup
    -- a name that is no batch any more is passed over
    have hskip : ∀ {t l'}, t.look (places.sealedBatch name) ≠ some .dir →
        (recoverBatches env places names).Returns t l' g → ∃ l', (recoverBatches env places (name :: names)).Returns t l' g := by
      intro t l' hnot hrest
      refine ⟨l', (Effects.returns_congr (recoverBatches_cons_not ?_)).mpr hrest⟩
      exact Bool.eq_false_iff.mpr (mt FileTree.isDir_iff.mp hnot)
    cases hdir : f.isDir (places.sealedBatch name) with
    | false =>
      rw [Effects.returns_congr (recoverBatches_cons_not hdir)] at hret
      rw [Effects.visits_congr (recoverBatches_cons_not hdir)] at hc
      have hrest : OrderlyBatches env places names f := fun other hother => hord other (List.mem_cons_of_mem _ hother)
      obtain ⟨l', hl'⟩ := ih hnodup hrest hret hc
      refine hskip ?_ hl'
      rw [recoverBatches_passes hnew hnodup hrest hret hc, Ne, ← FileTree.isDir_iff, hdir]
      exact Bool.false_ne_true
    | true =>
      obtain ⟨a, m, l', hcommit, hrest, rfl⟩ := (returns_cons_ready hdir).mp hret
      have hretired : m.look (places.sealedBatch name) ≠ some .dir := by
        rw [commitBatch_retires hcommit]
        exact (Option.some_ne_none _).symm
      rcases visits_cons_ready hdir hcommit hc with hc | hc
      · rcases commitBatch_resumes hcommit (hord name List.mem_cons_self hdir) hc with rfl | ⟨hagain, -, hthere⟩
        · exact hskip hretired hrest
        · have hdir' : c.isDir (places.sealedBatch name) = true :=
            FileTree.isDir_iff.mpr (FileTree.look_above (List.prefix_append _ _) (by simp) hthere)
          exact ⟨_, (returns_cons_ready hdir').mpr ⟨a, m, l', hagain, hrest, rfl⟩⟩
      · have hord' := hord.rest hnew hdir hcommit (commitBatch_final hcommit)
        obtain ⟨l'', hl''⟩ := ih hnodup hord' hrest hc
        exact hskip (recoverBatches_passes hnew hnodup hord' hrest hc ▸ hretired) hl''

theorem recoverBatches_ready (hnodup : names.Nodup) (hord : OrderlyBatches env places names f)
    (hret : (recoverBatches env places names).Returns f l g) (hc : (recoverBatches env places names).Visits f c) :
    ∀ name ∈ names, c.isDir (places.sealedBatch name) = true → f.isDir (places.sealedBatch name) = true
      ∧ c.look (places.batch name).manifest = f.look (places.batch name).manifest := by
  induction names generalizing f l with
  | nil => exact fun name hname => absurd hname List.not_mem_nil
  | cons name names ih =>
    obtain ⟨hnew, hothers⟩ := List.nodup_cons.mp hnodup
    cases hdir : f.isDir (places.sealedBatch name) with
    | false =>
      rw [Effects.returns_congr (recoverBatches_cons_not hdir)] at hret
      rw [Effects.visits_congr (recoverBatches_cons_not hdir)] at hc
      have hrest : OrderlyBatches env places names f := fun other hother => hord other (List.mem_cons_of_mem _ hother)
      intro other hother hother'
      rcases List.mem_cons.mp hother with rfl | hother
      · rw [isDir_congr (recoverBatches_passes hnew hothers hrest hret hc), hdir] at hother'
        cases hother'
      · exact ih hothers hrest hret hc other hother hother'
    | true =>
      obtain ⟨a, m, l', hcommit, hrest, rfl⟩ := (returns_cons_ready hdir).mp hret
      have hname := hord name List.mem_cons_self hdir
      have hretired : m.isDir (places.sealedBatch name) = false := by
        unfold FileTree.isDir
        rw [commitBatch_retires hcommit]
      have hother : ∀ {t} other, other ∈ names → (commitBatch env places name).Visits f t →
          t.isDir (places.sealedBatch other) = true → f.isDir (places.sealedBatch other) = true
            ∧ t.look (places.batch other).manifest = f.look (places.batch other).manifest := by
        intro t other hmem ht hdir'
        have hne : other ≠ name := fun heq => hnew (heq ▸ hmem)
        rw [commitBatch_other_dir hcommit hname ht hne] at hdir'
        exact ⟨hdir', commitBatch_other hcommit hname ht hne _⟩
      intro other hmem hother'
      rcases visits_cons_ready hdir hcommit hc with hc' | hc'
      · rcases List.mem_cons.mp hmem with rfl | hmem
        · rcases commitBatch_resumes hcommit hname hc' with rfl | ⟨-, hmanifest, -⟩
          · rw [hretired] at hother'
            cases hother'
          · exact ⟨hdir, hmanifest⟩
        · exact hother other hmem hc' hother'
      · have hord' := hord.rest hnew hdir hcommit (commitBatch_final hcommit)
        rcases List.mem_cons.mp hmem with rfl | hmem
        · rw [isDir_congr (recoverBatches_passes hnew hothers hord' hrest hc'), hretired] at hother'
          cases hother'
        · obtain ⟨hdir', hmanifest⟩ := ih hothers hord' hrest hc' other hmem hother'
          obtain ⟨hdir'', hmanifest'⟩ := hother other hmem (commitBatch_final hcommit) hdir'
          exact ⟨hdir'', hmanifest.trans hmanifest'⟩

end Loop

/-! ## Recovery -/

section Recover

variable {places : WorkdirPlaces} {names : List PyStr} {l : List (List PyStr)}

theorem bind_eq_of_returns {α β : Type} {x : Replay ν α} {k k' : α → Replay ν β}
    (h : ∀ a m, x.Returns f a m → k a m = k' a m) : (x >>= k) f = (x >>= k') f := by
  rcases hx : x f with ⟨states, result⟩
  cases result with
  | error e => rw [Effects.run_bind_error hx, Effects.run_bind_error hx]
  | ok a =>
    have hreturns : x.Returns f a (states.getLastD f) := by
      refine ⟨by rw [hx], ?_⟩
      unfold Effects.final
      rw [hx]
    rw [Effects.run_bind_ok hx, Effects.run_bind_ok hx, h a _ hreturns]

theorem bind_eq_of_eq {α β : Type} {x y : Replay ν α} {k : α → Replay ν β} (h : x f = y f) :
    (x >>= k) f = (y >>= k) f := by
  show Effects.bind x k f = Effects.bind y k f
  unfold Effects.bind Effects.final
  rw [h]

theorem recoverBatches_filter (hnodup : names.Nodup) (hord : OrderlyBatches env places names f) :
    (recoverBatches env places names) f
      = (recoverBatches env places (names.filter fun name => f.isDir (places.sealedBatch name))) f := by
  induction names generalizing f with
  | nil => rfl
  | cons name names ih =>
    obtain ⟨hnew, hothers⟩ := List.nodup_cons.mp hnodup
    cases hdir : f.isDir (places.sealedBatch name) with
    | false =>
      rw [recoverBatches_cons_not hdir, List.filter_cons_of_neg (by rw [hdir]; exact Bool.false_ne_true)]
      exact ih hothers fun other hother => hord other (List.mem_cons_of_mem _ hother)
    | true =>
      have hfilter : ((name :: names).filter fun name => f.isDir (places.sealedBatch name))
          = name :: names.filter fun name => f.isDir (places.sealedBatch name) := List.filter_cons_of_pos hdir
      rw [hfilter, recoverBatches_cons_ready hdir, recoverBatches_cons_ready hdir]
      refine bind_eq_of_returns fun a m hcommit => ?_
      have hvisit := commitBatch_final hcommit
      have hsame : (names.filter fun other => m.isDir (places.sealedBatch other))
          = names.filter fun other => f.isDir (places.sealedBatch other) := by
        refine List.filter_congr fun other hother => ?_
        exact commitBatch_other_dir hcommit (hord name List.mem_cons_self hdir) hvisit fun heq => hnew (heq ▸ hother)
      have hrest := ih hothers (hord.rest hnew hdir hcommit hvisit)
      rw [hsame] at hrest
      exact bind_eq_of_eq hrest

theorem recoverBatches_eq_commitBatches (hnodup : names.Nodup) (hord : OrderlyBatches env places names f)
    (hready : ∀ name ∈ names, f.isDir (places.sealedBatch name) = true) :
    (recoverBatches env places names) f = (commitBatches env places names) f := by
  induction names generalizing f with
  | nil => rfl
  | cons name names ih =>
    obtain ⟨hnew, hothers⟩ := List.nodup_cons.mp hnodup
    have hdir := hready name List.mem_cons_self
    rw [recoverBatches_cons_ready hdir]
    refine bind_eq_of_returns fun a m hcommit => bind_eq_of_eq ?_
    have hvisit := commitBatch_final hcommit
    refine ih hothers (hord.rest hnew hdir hcommit hvisit) fun other hother => ?_
    have hsame := commitBatch_other_dir hcommit (hord name List.mem_cons_self hdir) hvisit
      fun heq : other = name => hnew (heq ▸ hother)
    exact hsame.trans (hready other (List.mem_cons_of_mem _ hother))

/-- **The batches in the order in which they were sealed**, which are the directories of `workdir-ready`. -/
def SealedInOrder (places : WorkdirPlaces) (f : FileTree PyStr ν) (names : List PyStr) : Prop :=
  names.Nodup ∧ ∀ name, name ∈ names ↔ f.isDir (places.sealedBatch name) = true

theorem ready_of_batch {name : PyStr} (h : f.isDir (places.sealedBatch name) = true) : f.isDir places.ready = true := by
  have hthere : f.look (places.ready ++ [name]) ≠ none := isDir_present h
  refine FileTree.isDir_iff.mpr (FileTree.look_above (List.prefix_append places.ready [name]) (fun heq => ?_) hthere)
  have hlength := congrArg List.length heq
  simp at hlength

theorem listing_filter (hsealed : SealedInOrder places f names) (hsorted : names.Pairwise (· < ·)) :
    ((f.listing places.ready).filter fun name => f.isDir (places.sealedBatch name)) = names := by
  refine List.Pairwise.eq_of_mem_iff ((f.pairwise_listing places.ready).filter _) hsorted fun name => ?_
  rw [List.mem_filter, hsealed.2 name, FileTree.mem_listing]
  refine ⟨fun h => h.2, fun h => ⟨?_, h⟩⟩
  exact isDir_present h

theorem recover_eq (hsealed : SealedInOrder places f names) (hsorted : names.Pairwise (· < ·))
    (hord : OrderlyBatches env places names f) : (recover env places) f = (commitBatches env places names) f := by
  have hall : OrderlyBatches env places (f.listing places.ready) f := fun name _ hdir =>
    hord name ((hsealed.2 name).mpr hdir) hdir
  show (if f.isDir places.ready = true then _ else _ : Replay ν (List (List PyStr))) f = _
  by_cases hready : f.isDir places.ready = true
  · rw [if_pos hready, recoverBatches_filter (f.nodup_listing places.ready) hall, listing_filter hsealed hsorted]
    exact recoverBatches_eq_commitBatches hsealed.1 hord fun name hname => (hsealed.2 name).mp hname
  · have hnone : names = [] := List.eq_nil_iff_forall_not_mem.mpr fun name hname =>
      hready (ready_of_batch ((hsealed.2 name).mp hname))
    rw [if_neg hready, hnone]
    rfl

/-- **All that is ready is orderly.** -/
def OrderlyReady (env : ReplayEnv ν) (places : WorkdirPlaces) (f : FileTree PyStr ν) : Prop :=
  ∀ name, f.isDir (places.sealedBatch name) = true → Orderly env (places.batch name) 0 f

theorem OrderlyReady.batches (h : OrderlyReady env places f) (names : List PyStr) : OrderlyBatches env places names f :=
  fun name _ hdir => h name hdir

theorem recover_resumes (hord : OrderlyReady env places f) (hret : (recover env places).Returns f l g)
    (hc : (recover env places).Visits f c) :
    OrderlyReady env places c ∧ ∃ l', (recover env places).Returns c l' g := by
  by_cases hready : f.isDir places.ready = true
  · have hlisted : (recover env places) f = (recoverBatches env places (f.listing places.ready)) f := by
      show (if f.isDir places.ready = true then _ else _ : Replay ν (List (List PyStr))) f = _
      rw [if_pos hready]
    rw [Effects.returns_congr hlisted] at hret
    rw [Effects.visits_congr hlisted] at hc
    have hbatches := hord.batches (f.listing places.ready)
    have hnodup := f.nodup_listing places.ready
    -- what is ready at the crash is among what was listed
    have hthere : ∀ name, c.look (places.sealedBatch name) ≠ none → name ∈ f.listing places.ready := by
      intro name hname
      by_contra hnew
      rw [recoverBatches_passes hnew hnodup hbatches hret hc] at hname
      exact hnew (FileTree.mem_listing.mpr hname)
    have hord' : OrderlyReady env places c := by
      intro name hdir
      obtain ⟨hdir', hmanifest⟩ := recoverBatches_ready hnodup hbatches hret hc name (hthere name (isDir_present hdir)) hdir
      exact (hord name hdir').congr hmanifest
    obtain ⟨l', hagain⟩ := recoverBatches_resumes hnodup hbatches hret hc
    have hready' : c.isDir places.ready = true := by
      refine (isDir_congr (recoverBatches_out_of_reach hnodup hbatches hret hc fun name _ => ?_)).trans hready
      exact outOfReach_ready (isDir_present hready)
    have hsame : ((c.listing places.ready).filter fun name => c.isDir (places.sealedBatch name))
        = (f.listing places.ready).filter fun name => c.isDir (places.sealedBatch name) := by
      refine List.Pairwise.eq_of_mem_iff ((c.pairwise_listing places.ready).filter _)
        ((f.pairwise_listing places.ready).filter _) fun name => ?_
      rw [List.mem_filter, List.mem_filter]
      refine and_congr_left fun hdir => iff_of_true ?_ (hthere name (isDir_present hdir))
      exact FileTree.mem_listing.mpr (isDir_present hdir)
    refine ⟨hord', l', (Effects.returns_congr ?_).mpr hagain⟩
    show (if c.isDir places.ready = true then _ else _ : Replay ν (List (List PyStr))) c = _
    rw [if_pos hready', recoverBatches_filter (c.nodup_listing places.ready) (hord'.batches _), hsame,
      ← recoverBatches_filter hnodup (hord'.batches _)]
  · have hnone : (recover env places) f = (pure [] : Replay ν (List (List PyStr))) f := by
      show (if f.isDir places.ready = true then _ else _ : Replay ν (List (List PyStr))) f = _
      rw [if_neg hready]
    rw [Effects.visits_congr hnone] at hc
    obtain rfl := Effects.visits_pure hc
    exact ⟨hord, l, hret⟩

/-- **Crashes**: the batches were being committed in the order in which they were sealed, and any number of
recoveries were tried since. -/
def CrashedTo (env : ReplayEnv ν) (places : WorkdirPlaces) (names : List PyStr) (f c : FileTree PyStr ν) : Prop :=
  ∃ m, (commitBatches env places names).Visits f m
    ∧ Relation.ReflTransGen (fun s t => (recover env places).Visits s t) m c

/-- **Batches recover in order**, if their names are in the order in which they were sealed and each of them is
orderly: recovery does what committing them in that order does, and it leaves the same tree after any crashes. -/
theorem recovers_in_order (env : ReplayEnv ν) (places : WorkdirPlaces) (f : FileTree PyStr ν) (names : List PyStr)
    (hsealed : SealedInOrder places f names) (hsorted : names.Pairwise (· < ·)) (hord : OrderlyReady env places f) :
    (recover env places) f = (commitBatches env places names) f
      ∧ ∀ l g c, (commitBatches env places names).Returns f l g → CrashedTo env places names f c →
        ∃ l', (recover env places).Returns c l' g := by
  have heq := recover_eq hsealed hsorted (hord.batches names)
  refine ⟨heq, ?_⟩
  rintro l g c hret ⟨m, hm, hcrashes⟩
  rw [← Effects.returns_congr heq] at hret
  rw [← Effects.visits_congr heq] at hm
  have hrun : OrderlyReady env places c ∧ ∃ l', (recover env places).Returns c l' g := by
    induction hcrashes with
    | refl => exact recover_resumes hord hret hm
    | tail _ hstep ih =>
      obtain ⟨hord', l', hret'⟩ := ih
      exact recover_resumes hord' hret' hstep
  exact hrun.2

end Recover

/-! ## Two batches of one file -/

/-- Every file of the two batches: their manifests, and what they put. -/
inductive BatchFile where
  | manifest (content : ℕ)
  | content (content : ℕ)
deriving DecidableEq

def putX (content : ℕ) : List (PyStr × Json) :=
  [("id", .str "x"), ("op", .str "put-file"), ("path", .str "x"), ("source", .str "payload/x"),
    ("sha256", .str ⟨[content]⟩)]

def batchEnv : ReplayEnv BatchFile where
  sha256
    | .manifest n => ⟨[0, n]⟩
    | .content n => ⟨[n]⟩
  treeDigest _ := ⟨[]⟩
  loads
    | .manifest n => .ok (manifestOf [.obj (putX n)])
    | .content _ => raiseFormat [.lit "expected JSON object"]
  refusal _ := none
  refusal_cls := (plainEnv .null).refusal_cls

def batchPlaces : WorkdirPlaces where
  workdir := ["run"]
  ready := ["ready"]
  applied := [PyStr.ofString "applied"]
  workdir_ready := by unfold Apart; decide
  workdir_applied := by unfold Apart; decide
  ready_applied := by unfold Apart; decide

def twoBatches : FileTree PyStr BatchFile :=
  FileTree.ofEntries
    ([([], .dir), (["run"], .dir), (["ready"], .dir), (["ready", "a"], .dir),
      (["ready", "a", "manifest.json"], .file (.manifest 2)), (["ready", "a", "payload"], .dir),
      (["ready", "a", "payload", "x"], .file (.content 2)), (["ready", "b"], .dir),
      (["ready", "b", "manifest.json"], .file (.manifest 1)), (["ready", "b", "payload"], .dir),
      (["ready", "b", "payload", "x"], .file (.content 1))].map fun e => (e.fst.map PyStr.ofString, e.snd))
    (by decide)

theorem listing_twoBatches : twoBatches.listing batchPlaces.ready = [PyStr.ofString "a", PyStr.ofString "b"] := by
  refine List.Pairwise.eq_of_mem_iff (twoBatches.pairwise_listing _) (by decide) fun name => ?_
  rw [FileTree.mem_listing]
  constructor
  · intro hname
    have hentries : ∀ p ∈ twoBatches.support, p.dropLast = batchPlaces.ready → p ≠ [] →
        p.getLastD ⟨[]⟩ ∈ [PyStr.ofString "a", PyStr.ofString "b"] := by decide +kernel
    exact hentries _ ((twoBatches.mem_support _).mpr (Option.isSome_iff_ne_none.mpr hname)) rfl (List.cons_ne_nil _ _)
  · intro hname
    rcases List.mem_pair.mp hname with rfl | rfl <;> decide +kernel

theorem ready_twoBatches (name : PyStr) : name ∈ [PyStr.ofString "a", PyStr.ofString "b"]
    ↔ twoBatches.isDir (batchPlaces.sealedBatch name) = true := by
  constructor
  · intro hname
    rcases List.mem_pair.mp hname with rfl | rfl <;> decide +kernel
  · intro hdir
    exact listing_twoBatches ▸ FileTree.mem_listing.mpr (isDir_present hdir)

/-- **The batches are not recovered in order**: the content that was sealed last is put first. -/
theorem recovered_by_name : ¬∀ (env : ReplayEnv BatchFile) (places : WorkdirPlaces) (f : FileTree PyStr BatchFile)
    (names : List PyStr), SealedInOrder places f names → ∀ l g, (commitBatches env places names).Returns f l g →
      ∃ l', (recover env places).Returns f l' g := by
  intro h
  have hsealed : SealedInOrder batchPlaces twoBatches [PyStr.ofString "b", PyStr.ofString "a"] := by
    refine ⟨by decide, fun name => ?_⟩
    rw [← ready_twoBatches, List.mem_pair, List.mem_pair, or_comm]
  have hcommit : (commitBatches batchEnv batchPlaces [PyStr.ofString "b", PyStr.ofString "a"]).Returns twoBatches
      [[PyStr.ofString "applied", PyStr.ofString "b"], [PyStr.ofString "applied", PyStr.ofString "a"]] _ :=
    returns_of_toOption (by decide +kernel)
  obtain ⟨l', hrecover⟩ := h batchEnv batchPlaces twoBatches _ hsealed _ _ hcommit
  have heq : (recover batchEnv batchPlaces) twoBatches
      = (recoverBatches batchEnv batchPlaces [PyStr.ofString "a", PyStr.ofString "b"]) twoBatches := by
    rw [← listing_twoBatches]
    rfl
  have hfinal := ((Effects.returns_congr heq).mp hrecover).2
  have hlook := congrArg (fun t => t.look [PyStr.ofString "run", PyStr.ofString "x"]) hfinal
  exact absurd hlook (by decide +kernel)

theorem orderly_putX {name : PyStr} (content : ℕ)
    (hpub : publishedOperations batchEnv (batchPlaces.batch name) 0 twoBatches = .ok [putX content]) :
    Orderly batchEnv (batchPlaces.batch name) 0 twoBatches := by
  intro raws ops hraws hdec
  obtain rfl := Except.ok.inj (hpub.symm.trans hraws)
  have hops : ops = [.putFile [PyStr.ofString "x"] [PyStr.ofString "payload", PyStr.ofString "x"] (some ⟨[content]⟩)] :=
    hdec.unique (List.Forall₂.cons rfl List.Forall₂.nil)
  rw [hops]
  refine ⟨?_, List.pairwise_pair.mpr trivial⟩
  intro o ho source hsource
  rw [List.mem_singleton.mp ho] at hsource
  obtain rfl := Option.some.inj hsource
  decide

/-- In the order of their names the two batches recover, here from a crash in the replay of the first one. -/
theorem recovers_in_order_crashed : ∃ l', (recover batchEnv batchPlaces).Returns
    ((((commitBatches batchEnv batchPlaces [PyStr.ofString "a", PyStr.ofString "b"]) twoBatches).fst.take 1).getLastD
      twoBatches) l'
    ((commitBatches batchEnv batchPlaces [PyStr.ofString "a", PyStr.ofString "b"]).final twoBatches) := by
  refine (recovers_in_order batchEnv batchPlaces twoBatches ["a", "b"] ?_ (by decide) ?_).2
    [["applied", "a"], ["applied", "b"]] _ _
    (returns_of_toOption (by decide +kernel)) ⟨_, Effects.visits_take _ _ 1, Relation.ReflTransGen.refl⟩
  · exact ⟨by decide, ready_twoBatches⟩
  · intro name hdir
    rcases List.mem_pair.mp ((ready_twoBatches name).mpr hdir) with rfl | rfl
    · exact orderly_putX 2 rfl
    · exact orderly_putX 1 rfl
