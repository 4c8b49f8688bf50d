import Mathlib.Logic.Function.Basic
import HttkWorkflow.System
import HttkWorkflow.Validators

/-!
# Where payload directories lie

A job's payload directory is its placement and, below that, its job key. A
placement is any relative path `normalize_placement` lets through; nothing
else is asked of it. Submission, child registration and import all end in
the same rename of a staged directory onto that path (`publishPath`), after
checks of their own.

The workspace tree is modelled by its files and by the directories made for
placements, each with everything above it. A rename of a directory replaces
an empty directory, and fails on anything else that is there. What a run may
interleave are the checks of a creation, its publication, and removals,
which delete a payload directory with all that lies below it.
-/

/-- **How a payload comes into the workspace.** -/
inductive PayloadSource where
  /-- `submit`. -/
  | submission
  /-- `register_children`. -/
  | registration
  /-- `_import_bundle`. -/
  | transfer
deriving DecidableEq, Repr

/-- **A payload to be published**, with the files it consists of. -/
structure PayloadRequest where
  /-- The path it takes. -/
  source : PayloadSource
  placement : PyStr
  /-- `job_key`, one component. -/
  jobKey : PyStr
  /-- Its files, from its own directory. -/
  files : List (List PyStr)
  /-- There is a `job.json`. -/
  files_ne_nil : files ≠ [] ∧ ∀ f ∈ files, f ≠ []
deriving Repr

/-- **The workspace tree**, but for its control directory. -/
structure WorkspaceTree where
  /-- The directories that were made, those above them left out. -/
  directories : List (List PyStr)
  files : List (List PyStr)
  /-- The payload directories of the jobs. -/
  payloads : List (List PyStr)
deriving DecidableEq, Repr

namespace WorkspaceTree

/-- `path.exists()`. -/
def present (t : WorkspaceTree) (p : List PyStr) : Prop :=
  p = [] ∨ ∃ q ∈ t.directories ++ t.files, p <+: q

instance (t : WorkspaceTree) (p : List PyStr) : Decidable (t.present p) :=
  inferInstanceAs (Decidable (p = [] ∨ ∃ q ∈ t.directories ++ t.files, p <+: q))

/-- Whether a directory can be renamed to a path: nothing is there, or a directory with
nothing in it. -/
def replaceable (t : WorkspaceTree) (p : List PyStr) : Prop :=
  p ∉ t.files ∧ ∀ q ∈ t.directories ++ t.files, p <+: q → q = p

instance (t : WorkspaceTree) (p : List PyStr) : Decidable (t.replaceable p) :=
  inferInstanceAs (Decidable (p ∉ t.files ∧ ∀ q ∈ t.directories ++ t.files, p <+: q → q = p))

/-- **What a creation checks** before it publishes at a path. -/
def admits (t : WorkspaceTree) (r : PayloadRequest) : Except Exc (List PyStr) := do
  let placement ← normalizePlacement r.placement
  match r.source with
  | .registration => .ok (placement ++ [r.jobKey])
  | .submission | .transfer =>
    if t.present (placement ++ [r.jobKey]) then
      .error ⟨.osError, [.path (placement ++ [r.jobKey])]⟩
    else .ok (placement ++ [r.jobKey])

/-- `ensure_directory`, unless a file is in the way. -/
def ensureDirectory (t : WorkspaceTree) (p : List PyStr) : Option WorkspaceTree :=
  if ∃ f ∈ t.files, f <+: p then none else some { t with directories := p :: t.directories }

/-- **`_publish_path`** of a payload. What was made above the path stays there when the
rename fails. -/
def publishPath (t : WorkspaceTree) (target : List PyStr) (files : List (List PyStr)) :
    WorkspaceTree :=
  match t.ensureDirectory target.dropLast with
  | none => t
  | some made =>
    if made.replaceable target then
      { made with
        files := files.map (target ++ ·) ++ made.files
        payloads := target :: made.payloads }
    else made

/-- **`shutil.rmtree`** of a payload directory. -/
def remove (t : WorkspaceTree) (p : List PyStr) : WorkspaceTree where
  directories := t.directories.filter fun q => ¬p <+: q
  files := t.files.filter fun q => ¬p <+: q
  payloads := t.payloads.filter fun q => ¬p <+: q

end WorkspaceTree

/-- **The workspace and the creations under way**: the path each was let through to, and
its files. -/
structure PlacementState where
  tree : WorkspaceTree
  /-- The creations, by a number of their own. -/
  admitted : ℕ → Option (List PyStr × PayloadRequest)

/-- **The steps.** -/
inductive PlacementLabel where
  /-- A creation makes its checks. -/
  | create (i : ℕ) (r : PayloadRequest)
  | publish (i : ℕ)
  /-- A job is removed, or retired after a transfer. -/
  | remove (p : List PyStr)
deriving Repr

namespace PlacementState

/-- **One step.** -/
def next (s : PlacementState) : PlacementLabel → Option PlacementState
  | .create i r =>
    match s.tree.admits r with
    | .ok target => some { s with admitted := Function.update s.admitted i (some (target, r)) }
    | .error _ => none
  | .publish i =>
    match s.admitted i with
    | some (target, r) => some
      { tree := s.tree.publishPath target r.files
        admitted := Function.update s.admitted i none }
    | none => none
  | .remove p => if p ∈ s.tree.payloads then some { s with tree := s.tree.remove p } else none

/-- **The system of creations and removals**, from a workspace with no job in it. -/
abbrev placementSystem : System PlacementState PlacementLabel :=
  System.ofNext (fun s => s.tree.payloads = [] ∧ ∀ i, s.admitted i = none) next

/-- **A placement outside of all payloads**: what no creation checks. -/
def Outside (s : PlacementState) : PlacementLabel → Prop
  | .publish i => ∀ target r, s.admitted i = some (target, r) →
      ∀ d ∈ s.tree.payloads, ¬d <+: target.dropLast
  | _ => True

/-- **No payload directory lies in another, and none is empty.** -/
structure Apart (t : WorkspaceTree) : Prop where
  filled : ∀ d ∈ t.payloads, ∃ f ∈ t.files, d <+: f ∧ f ≠ d
  apart : ∀ d ∈ t.payloads, ∀ d' ∈ t.payloads, d <+: d' → d = d'

variable {t : WorkspaceTree}

variable {target : List PyStr}

theorem Apart.publishPath {files : List (List PyStr)}
    (h : Apart t) (hne : target ≠ []) (hfiles : files ≠ [] ∧ ∀ f ∈ files, f ≠ [])
    (houtside : ∀ d ∈ t.payloads, ¬d <+: target.dropLast) :
    Apart (t.publishPath target files) := by
  unfold WorkspaceTree.publishPath WorkspaceTree.ensureDirectory
  split_ifs with hblocked
  · exact h
  show Apart (if _ then _ else _)
  split_ifs with hreplaceable
  · -- a payload at or below the target would make it a directory with something in it
    have hbelow : ∀ d ∈ t.payloads, ¬target <+: d := by
      intro d hd htarget
      obtain ⟨f, hf, hdf, hfd⟩ := h.filled d hd
      have heq : f = target :=
        hreplaceable.2 f (List.mem_append_right _ hf) (htarget.trans hdf)
      subst heq
      exact hfd (htarget.eq_of_length_le hdf.length_le)
    have habove : ∀ d ∈ t.payloads, ¬d <+: target := by
      intro d hd hprefix
      rw [← List.dropLast_append_getLast hne, List.prefix_concat_iff] at hprefix
      rcases hprefix with heq | hprefix
      · rw [List.dropLast_append_getLast hne] at heq
        exact hbelow d hd (heq ▸ List.prefix_refl _)
      · exact houtside d hd hprefix
    refine ⟨fun d hd => ?_, fun d hd d' hd' hprefix => ?_⟩
    · rcases List.mem_cons.mp hd with rfl | hd
      · obtain ⟨f, hf⟩ := List.exists_mem_of_ne_nil _ hfiles.1
        refine ⟨d ++ f, List.mem_append_left _ (List.mem_map.mpr ⟨f, hf, rfl⟩),
          List.prefix_append d f, fun heq => hfiles.2 f hf ?_⟩
        exact List.append_right_eq_self.mp heq
      · obtain ⟨f, hf, hdf⟩ := h.filled d hd
        exact ⟨f, List.mem_append_right _ hf, hdf⟩
    · rcases List.mem_cons.mp hd with rfl | hd
      · rcases List.mem_cons.mp hd' with rfl | hd'
        · rfl
        · exact absurd hprefix (hbelow d' hd')
      · rcases List.mem_cons.mp hd' with rfl | hd'
        · exact absurd hprefix (habove d hd)
        · exact h.apart d hd d' hd' hprefix
  · exact ⟨h.filled, h.apart⟩

theorem Apart.mem_remove (h : Apart t) {p d f : List PyStr}
    (hp : p ∈ t.payloads) (hd : d ∈ t.payloads) (hne : p ≠ d) (hf : f ∈ t.files) (hdf : d <+: f) :
    f ∈ (t.remove p).files := by
  refine List.mem_filter.mpr ⟨hf, decide_eq_true fun hpf => hne ?_⟩
  rcases List.prefix_or_prefix_of_prefix hpf hdf with hprefix | hprefix
  · exact h.apart p hp d hd hprefix
  · exact (h.apart d hd p hp hprefix).symm

theorem Apart.remove (h : Apart t) {p : List PyStr} (hp : p ∈ t.payloads) : Apart (t.remove p) := by
  refine ⟨fun d hd => ?_, fun d hd d' hd' => ?_⟩
  · obtain ⟨hd, hnot⟩ := List.mem_filter.mp hd
    obtain ⟨f, hf, hdf, hfd⟩ := h.filled d hd
    have hne : p ≠ d := fun heq => of_decide_eq_true hnot (heq ▸ List.prefix_refl d)
    exact ⟨f, h.mem_remove hp hd hne hf hdf, hdf, hfd⟩
  · exact h.apart d (List.mem_filter.mp hd).1 d' (List.mem_filter.mp hd').1

theorem admit_ne_nil {r : PayloadRequest} (h : t.admits r = .ok target) : target ≠ [] := by
  unfold WorkspaceTree.admits at h
  obtain ⟨placement, -, h⟩ := bind_eq_ok.mp h
  have htarget : placement ++ [r.jobKey] = target := by
    split at h
    · exact Except.ok.inj h
    all_goals
      split_ifs at h
      exact Except.ok.inj h
  rw [← htarget]
  exact List.append_ne_nil_of_right_ne_nil _ (List.cons_ne_nil _ _)

/-- **What holds of every history.** -/
structure Kept (s : PlacementState) : Prop where
  tree : Apart s.tree
  targets : ∀ i target r, s.admitted i = some (target, r) → target ≠ []

/-- **One step** whose placement is outside of all payloads. -/
theorem Kept.next {s s' : PlacementState} {l : PlacementLabel} (hs : Kept s) (hl : Outside s l)
    (h : s.next l = some s') : Kept s' := by
  cases l with
  | create i r =>
    simp only [PlacementState.next] at h
    split at h
    · rename_i target htarget
      obtain rfl := Option.some.inj h
      refine ⟨hs.tree, fun j target' r' hj => ?_⟩
      have hj : Function.update s.admitted i (some (target, r)) j = some (target', r') := hj
      rw [Function.update_apply] at hj
      split_ifs at hj
      · obtain ⟨rfl, rfl⟩ := Prod.mk.inj (Option.some.inj hj)
        exact admit_ne_nil htarget
      · exact hs.targets j target' r' hj
    · cases h
  | publish i =>
    simp only [PlacementState.next] at h
    split at h
    · rename_i target r hadmitted
      obtain rfl := Option.some.inj h
      refine ⟨hs.tree.publishPath (hs.targets i target r hadmitted) r.files_ne_nil
        (hl target r hadmitted), fun j target' r' hj => ?_⟩
      have hj : Function.update s.admitted i none j = some (target', r') := hj
      rw [Function.update_apply] at hj
      split_ifs at hj
      exact hs.targets j target' r' hj
    · cases h
  | remove p =>
    simp only [PlacementState.next] at h
    split_ifs at h with hp
    obtain rfl := Option.some.inj h
    exact ⟨hs.tree.remove hp, hs.targets⟩

/-- **Payload directories are disjoint** in every history whose placements lie outside of
the payloads that are there: none lies in another, and removing one deletes no file of
another. -/
theorem payloads_disjoint {s : PlacementState} (hs : (placementSystem.guarded Outside).Reachable s) :
    (∀ d ∈ s.tree.payloads, ∀ d' ∈ s.tree.payloads, d ≠ d' → ¬d <+: d')
      ∧ ∀ d ∈ s.tree.payloads, ∀ d' ∈ s.tree.payloads, d ≠ d' → ∀ f ∈ s.tree.files, d' <+: f →
        f ∈ (s.tree.remove d).files := by
  have hkept : Kept s := by
    refine System.Reachable.invariant (I := Kept) ?_ ?_ hs
    · rintro s ⟨hnone, hadmitted⟩
      refine ⟨⟨fun d hd => ?_, fun d hd => ?_⟩, fun i target r hi => ?_⟩
      · rw [hnone] at hd
        exact absurd hd List.not_mem_nil
      · rw [hnone] at hd
        exact absurd hd List.not_mem_nil
      · rw [hadmitted] at hi
        cases hi
    · rintro s l s' - ih ⟨hstep, hl⟩
      exact ih.next hl hstep
  refine ⟨fun d hd d' hd' hne hprefix => hne (hkept.tree.apart d hd d' hd' hprefix), ?_⟩
  exact fun d hd d' hd' hne f hf hdf => hkept.tree.mem_remove hd hd' hne hf hdf

/-! ## A job placed in another -/

def noJobs : PlacementState := ⟨⟨[], [], []⟩, fun _ => none⟩

def bareSubmission (placement jobKey : String) : PayloadRequest where
  source := .submission
  placement := PyStr.ofString placement
  jobKey := PyStr.ofString jobKey
  files := [[PyStr.ofString "job.json"]]
  files_ne_nil := ⟨List.cons_ne_nil _ _, fun _ hf => by
    rw [List.mem_singleton.mp hf]
    exact List.cons_ne_nil _ _⟩

theorem noJobs_init : placementSystem.init noJobs := ⟨rfl, fun _ => rfl⟩

def outerPath : List PyStr := ["a", "7d444840-9dc0-11d1-b245-5ffdce74fad2"]

def innerPath : List PyStr :=
  outerPath ++ [PyStr.ofString "1c9dfa10-9dc1-11d1-b245-5ffdce74fad2"]

def nestedSubmissions : List PlacementLabel :=
  [.create 0 (bareSubmission "a" "7d444840-9dc0-11d1-b245-5ffdce74fad2"), .publish 0,
    .create 1 (bareSubmission "a/7d444840-9dc0-11d1-b245-5ffdce74fad2"
      "1c9dfa10-9dc1-11d1-b245-5ffdce74fad2"), .publish 1]

/-- **A submission at a placement that runs through another job** is published in it. -/
theorem payloads_nested :
    ¬∀ s, placementSystem.Reachable s → ∀ d ∈ s.tree.payloads, ∀ d' ∈ s.tree.payloads,
      d ≠ d' → ¬d <+: d' := by
  intro hall
  have hrun : (System.follow next noJobs nestedSubmissions).map (fun s => s.tree.payloads)
      = some [innerPath, outerPath] := by
    decide +kernel
  obtain ⟨s, hs, hpayloads⟩ := Option.map_eq_some_iff.mp hrun
  have hreach : placementSystem.Reachable s :=
    (System.run_of_follow hs).reachable (System.Reachable.init noJobs_init)
  have houter : outerPath ∈ s.tree.payloads := by
    rw [hpayloads]
    exact List.mem_cons_of_mem _ List.mem_cons_self
  have hinner : innerPath ∈ s.tree.payloads := by
    rw [hpayloads]
    exact List.mem_cons_self
  exact hall s hreach outerPath houter innerPath hinner (by decide +kernel) (List.prefix_append _ _)

/-- A payload directory beside the first. -/
def siblingPath : List PyStr := ["a", "b", "1c9dfa10-9dc1-11d1-b245-5ffdce74fad2"]

/-- **Two jobs below one directory**, the second at a placement beside the payload of the first. -/
theorem payloads_disjoint_two :
    ∃ s : PlacementState, s.tree.payloads = [siblingPath, outerPath]
      ∧ (∀ d ∈ s.tree.payloads, ∀ d' ∈ s.tree.payloads, d ≠ d' → ¬d <+: d')
      ∧ ∀ d ∈ s.tree.payloads, ∀ d' ∈ s.tree.payloads, d ≠ d' → ∀ f ∈ s.tree.files, d' <+: f →
        f ∈ (s.tree.remove d).files := by
  have h₀ : (placementSystem.guarded Outside).Reachable noJobs := System.Reachable.init noJobs_init
  have h₁ := h₀.next (.create 0 (bareSubmission "a" "7d444840-9dc0-11d1-b245-5ffdce74fad2")) trivial
    rfl
  have h₂ := h₁.next (.create 1 (bareSubmission "a/b" "1c9dfa10-9dc1-11d1-b245-5ffdce74fad2")) trivial
    rfl
  have h₃ := h₂.next (.publish 0) (fun target r _ d hd => absurd hd List.not_mem_nil) rfl
  have houtside : ∀ d ∈ [outerPath], ¬d <+: (["a", "b"] : List PyStr) := by decide
  have h₄ := h₃.next (.publish 1) (fun target r h d hd => by
    obtain ⟨rfl, -⟩ := Prod.mk.inj (Option.some.inj h)
    exact houtside d hd) rfl
  exact ⟨_, by decide +kernel, payloads_disjoint h₄⟩

end PlacementState
