import HttkWorkflow.CrashTriples
import HttkWorkflow.FileTree
import HttkWorkflow.MarkerLookup

/-!
# Registering the children of an outcome

Before a parent leaves `committing`, each child of its outcome becomes a job of
its own: the child's directory is moved from the outcome to the place it chose,
and a marker is made for it among the submitted. A commit can stop between any
two of these effects, and is begun again from the first child. What it finds
tells it how far it came: a child whose directory is no longer in the outcome
was moved, and one with a marker is done.

The state is the workspace as registration sees it – the payload tree, the
directories of the children that are still in the outcome, and the state tree.
In it other actors move the children that have a marker, and do what they like
to other jobs. `Resumable` holds of what any number of stopped attempts leave,
whatever else is in the workspace, and an attempt that meets a child in a state
that is `ClearFor` for it registers it, with one marker (`registration_resumes`).

A state that is not clear is one in which another job, or only its directory,
has the identity or the place of a child. The attempt then raises an error of
the file system, which a resumed commit takes for one that may pass: the parent
stays in `committing`, and every attempt ends in the same way
(`occupied_for_ever`).
-/

variable {ν : Type}

/-! ## The workspace -/

/-- **What the `job.json` of a child says**, as far as registration reads it. -/
structure ChildDocument where
  jobKey : ValidJobKey
  priority : ℕ

/-- **An entry of `spawn.json`**. -/
structure SpawnRecord where
  jobKey : PyStr
  placement : PyStr
  workspaceId : Option PyStr

/-- **What a commit reads besides the workspace**: its id, the digests the parent's
frame recorded, the digest of a directory, and the definition in one. -/
structure RegistrationEnv (ν : Type) where
  workspaceId : PyStr
  childDigests : Dict PyStr PyStr
  digest : FileTree PyStr ν → PyStr
  document : FileTree PyStr ν → Except Exc ChildDocument

/-- The digest a child was recorded with. -/
def RegistrationEnv.expected (env : RegistrationEnv ν) (jobKey : PyStr) : PyStr :=
  (env.childDigests.get jobKey).getD ""

/-- **The workspace**, and the directories below `children/jobs`. -/
structure RegistrationWorld (ν : Type) where
  tree : FileTree PyStr ν
  staged : PyStr → Option (FileTree PyStr ν)
  state : StateTree

/-- A marker is made, unless there is an entry at its path. -/
def StateTree.enter (tree : StateTree) (m : StateMarker) : StateTree :=
  if h : m ∈ tree.entries.map StateEntry.marker then tree
  else ⟨⟨m, true⟩ :: tree.entries, List.nodup_cons.mpr ⟨h, tree.paths⟩⟩

namespace RegistrationWorld

variable (w : RegistrationWorld ν)

def ofJob (jobId : PyStr) : List StateEntry := w.state.entries.filter fun e => e.marker.jobId = jobId

/-- The directories above a payload are made. -/
def withParents (placement : List PyStr) (h : w.tree.makeable placement) : RegistrationWorld ν :=
  { w with tree := w.tree.makedirs placement h }

/-- A child is moved to its place. -/
def published (jobKey : PyStr) (target : List PyStr) (bundle : FileTree PyStr ν) (h : w.tree.Vacant target) :
    RegistrationWorld ν :=
  { w with
    tree := w.tree.graft target bundle h
    staged := Function.update w.staged jobKey none }

/-- A child gets its marker. -/
def entered (m : StateMarker) : RegistrationWorld ν := { w with state := w.state.enter m }

end RegistrationWorld

/-! ## Registration -/

def validJobKey (text : PyStr) : Except Exc ValidJobKey :=
  match h : parseJobKey text with
  | .ok (tag, id) => .ok ⟨text, tag, id, h⟩
  | .error e => .error e

namespace RegistrationEnv

variable (env : RegistrationEnv ν)

/-- **`_publish_path`** of a child's directory. What is at the target is replaced if it
is an empty directory. -/
def publishChild (jobKey : PyStr) (placement : List PyStr) (bundle : FileTree PyStr ν) :
    Effects (RegistrationWorld ν) Exc PUnit := do
  let w ← Effects.current
  if h : w.tree.makeable placement then
    Effects.emit (fun _ => w.withParents placement h) ⟨⟩
    let made := w.withParents placement h
    if h' : made.tree.Vacant (placement ++ [jobKey]) then
      Effects.emit (fun _ => made.published jobKey (placement ++ [jobKey]) bundle h') ⟨⟩
    else
      Effects.raise ⟨.osError, [.lit "publication destination already exists: ",
        .path (placement ++ [jobKey])]⟩
  else Effects.raise ⟨.osError, [.path placement]⟩

/-- **The marker of a child**, unless there is one. -/
def enterChild (jobKey : ValidJobKey) (placement : List PyStr) (publishedHere : Bool) :
    Effects (RegistrationWorld ν) Exc PUnit := do
  let w ← Effects.current
  let target := placement ++ [jobKey.text]
  if w.tree.isDir target = false then
    Effects.raise ⟨.formatError, [.lit "registered child bundle does not match: ", .raw jobKey.text]⟩
  else
    match ← Effects.ofExcept (w.state.sweep jobKey placement) with
    | some _ => pure ⟨⟩
    | none =>
      if publishedHere = false ∧ env.digest (w.tree.subtree target) ≠ env.expected jobKey.text then
        Effects.raise ⟨.formatError, [.lit "registered child bundle does not match: ", .raw jobKey.text]⟩
      else
        let child ← Effects.ofExcept (env.document (w.tree.subtree target))
        Effects.emit (·.entered ⟨.submitted, placement, jobKey, child.priority, 0, "init"⟩) ⟨⟩

/-- **`register_children`**, one child of the set. -/
def registerChild (record : Option SpawnRecord) : Effects (RegistrationWorld ν) Exc PUnit := do
  let record ← Effects.ofExcept <| match record with
    | some record => .ok record
    | none => raiseFormat [.lit "spawn child must be an object"]
  let placement ← Effects.ofExcept (normalizePlacement record.placement)
  if record.workspaceId.getD env.workspaceId ≠ env.workspaceId then
    Effects.raise ⟨.unsupportedExtension, [.lit "cross-workspace spawn children are not supported"]⟩
  else
    let jobKey ← Effects.ofExcept (validJobKey record.jobKey)
    let w ← Effects.current
    match w.staged jobKey.text with
    | some bundle =>
      let child ← Effects.ofExcept (env.document bundle)
      if child.jobKey ≠ jobKey then
        Effects.raise ⟨.formatError, [.lit "spawn job_key disagrees with child job.json"]⟩
      else if env.digest bundle ≠ env.expected jobKey.text then
        Effects.raise ⟨.formatError, [.lit "spawn child changed after outcome publication"]⟩
      else
        publishChild jobKey.text placement bundle
        env.enterChild jobKey placement true
    | none => env.enterChild jobKey placement false

end RegistrationEnv

/-! ## Attempts to commit -/

/-- **A child of the set**: an entry that can be read. -/
structure SpawnChild (env : RegistrationEnv ν) where
  record : SpawnRecord
  jobKey : ValidJobKey
  placement : List PyStr
  parsed : validJobKey record.jobKey = .ok jobKey
  normalized : normalizePlacement record.placement = .ok placement
  here : record.workspaceId.getD env.workspaceId = env.workspaceId

/-- Where its payload comes to lie. -/
def SpawnChild.target {env : RegistrationEnv ν} (c : SpawnChild env) : List PyStr :=
  c.placement ++ [c.jobKey.text]

/-- **The set of children** of an outcome, each with a UUID of its own. -/
structure SpawnSet (env : RegistrationEnv ν) where
  children : List (SpawnChild env)
  distinct : (children.map fun c => c.jobKey.id).Nodup

/-- **A parent that is committing**: the children the attempt under way has not come
to yet, and what the last attempt raised. -/
structure CommittingParent (env : RegistrationEnv ν) where
  world : RegistrationWorld ν
  pending : Option (List (SpawnChild env))
  raised : Option Exc

/-- **What can happen**: an attempt begins, registers the next child, or is killed after
some effects; others act. -/
inductive RegistrationStep (ν : Type) where
  | begins
  | registers
  | killed (effects : ℕ)
  | others (w : RegistrationWorld ν)

section Attempts

variable {env : RegistrationEnv ν}

/-- **One step of an attempt.** -/
def registrationNext (spawned : SpawnSet env) (s : CommittingParent env) :
    RegistrationStep ν → Option (CommittingParent env)
  | .begins => if s.pending.isNone then some ⟨s.world, some spawned.children, none⟩ else none
  | .registers =>
    match s.pending with
    | some (c :: rest) =>
      let x := env.registerChild (some c.record)
      match (x s.world).snd with
      | .ok _ => some ⟨x.final s.world, some rest, none⟩
      | .error e => some ⟨x.final s.world, none, some e⟩
    | _ => none
  | .killed effects =>
    match s.pending with
    | some (c :: _) =>
      some ⟨((env.registerChild (some c.record) s.world).fst.take effects).getLastD s.world, none, none⟩
    | some [] => some ⟨s.world, none, none⟩
    | none => none
  | .others w => some { s with world := w }

/-- **What has become of a child that is registered**: its directory is in its place,
and it has one marker, there. -/
structure SpawnChild.Registered (c : SpawnChild env) (w : RegistrationWorld ν) : Prop where
  moved : w.staged c.jobKey.text = none
  directory : w.tree.isDir c.target = true
  marker : ∃ e, w.ofJob c.jobKey.id = [e] ∧ e.marker.jobKey = c.jobKey ∧ e.marker.placement = c.placement

/-- The child's own directory, as it was recorded. -/
structure SpawnChild.Whole (c : SpawnChild env) (bundle : FileTree PyStr ν) : Prop where
  directory : bundle.isDir [] = true
  document : ∃ priority, env.document bundle = .ok ⟨c.jobKey, priority⟩
  digest : env.digest bundle = env.expected c.jobKey.text

/-- **What stopped attempts leave**: each child is whole where it is, in the outcome or,
as long as it has no marker, in its place. -/
structure Resumable (spawned : SpawnSet env) (w : RegistrationWorld ν) : Prop where
  staged : ∀ c ∈ spawned.children, ∀ bundle, w.staged c.jobKey.text = some bundle → c.Whole bundle
  moved : ∀ c ∈ spawned.children, w.staged c.jobKey.text = none → w.tree.isDir c.target = true
  unmarked : ∀ c ∈ spawned.children, w.staged c.jobKey.text = none → w.ofJob c.jobKey.id = [] →
    c.Whole (w.tree.subtree c.target)

/-- **What others may do**: anything to other jobs, and to a registered child whatever
leaves it its directory and its one marker. -/
structure Respects (spawned : SpawnSet env) (w w' : RegistrationWorld ν) : Prop where
  staged : w'.staged = w.staged
  directory : ∀ c ∈ spawned.children, w.staged c.jobKey.text = none → w.tree.isDir c.target = true →
    w'.tree.isDir c.target = true
  unmarked : ∀ c ∈ spawned.children, w.staged c.jobKey.text = none → w'.ofJob c.jobKey.id = [] →
    w.ofJob c.jobKey.id = [] ∧ w'.tree.subtree c.target = w.tree.subtree c.target
  registered : ∀ c ∈ spawned.children, c.Registered w → c.Registered w'

/-- **A parent's commits**, from any workspace stopped attempts can leave. -/
def registrationRuns (spawned : SpawnSet env) : System (CommittingParent env) (RegistrationStep ν) where
  init s := Resumable spawned s.world ∧ s.pending = none ∧ s.raised = none
  step s a s' := registrationNext spawned s a = some s'
    ∧ ∀ w, a = .others w → Respects spawned s.world w

/-- **The workspace is clear for a child**: no other job has its identity or its
place. -/
structure ClearFor (spawned : SpawnSet env) (c : SpawnChild env) (w : RegistrationWorld ν) : Prop where
  vacant : w.staged c.jobKey.text ≠ none →
    w.tree.makeable c.placement ∧ (w.tree.present c.target = false ∨ w.tree.isEmptyDir c.target)
  alone : w.staged c.jobKey.text ≠ none → w.ofJob c.jobKey.id = []
  apart : w.staged c.jobKey.text ≠ none → ∀ d ∈ spawned.children, w.staged d.jobKey.text = none →
    w.ofJob d.jobKey.id = [] → ¬ d.target <+: c.placement
  own : w.staged c.jobKey.text = none → ∀ e ∈ w.ofJob c.jobKey.id, w.ofJob c.jobKey.id = [e]
    ∧ e.marker.jobKey = c.jobKey ∧ e.marker.placement = c.placement ∧ e.marker.kind.isCore = true
  named : ∀ e ∈ w.state.entries, e.marker.kind.isCore = true → e.marker.placement = c.placement →
    matchesKey c.jobKey e.marker.basename = true → e.marker.jobKey = c.jobKey

/-- A step meets the condition if the workspace is clear for the child whose turn it
is. -/
def ClearStep (spawned : SpawnSet env) (s : CommittingParent env) : RegistrationStep ν → Prop
  | .registers | .killed _ => ∀ c rest, s.pending = some (c :: rest) → ClearFor spawned c s.world
  | .begins | .others _ => True

end Attempts

/-! ## One child -/

section OneChild

variable {env : RegistrationEnv ν} {spawned : SpawnSet env} {c d : SpawnChild env} {w : RegistrationWorld ν}

def SpawnChild.marker (c : SpawnChild env) (priority : ℕ) : StateMarker :=
  ⟨.submitted, c.placement, c.jobKey, priority, 0, "init"⟩

theorem registerChild_run (c : SpawnChild env) (w : RegistrationWorld ν) :
    env.registerChild (some c.record) w = match w.staged c.jobKey.text with
      | some bundle => (do
          let child ← Effects.ofExcept (env.document bundle)
          if child.jobKey ≠ c.jobKey then
            Effects.raise ⟨.formatError, [.lit "spawn job_key disagrees with child job.json"]⟩
          else if env.digest bundle ≠ env.expected c.jobKey.text then
            Effects.raise ⟨.formatError, [.lit "spawn child changed after outcome publication"]⟩
          else
            RegistrationEnv.publishChild c.jobKey.text c.placement bundle
            env.enterChild c.jobKey c.placement true : Effects (RegistrationWorld ν) Exc PUnit) w
      | none => env.enterChild c.jobKey c.placement false w := by
  unfold RegistrationEnv.registerChild
  rw [Effects.run_ok_bind, c.normalized, Effects.run_ok_bind, if_neg (not_not.mpr c.here), c.parsed,
    Effects.run_ok_bind, Effects.run_current_bind]
  cases w.staged c.jobKey.text <;> rfl

/-! ### The state tree -/

theorem mem_ofJob {jobId : PyStr} {e : StateEntry} :
    e ∈ w.ofJob jobId ↔ e ∈ w.state.entries ∧ e.marker.jobId = jobId := by
  unfold RegistrationWorld.ofJob
  rw [List.mem_filter, decide_eq_true_iff]

variable {m : StateMarker}

theorem entries_enter (h : w.ofJob m.jobId = []) : (w.entered m).state.entries = ⟨m, true⟩ :: w.state.entries := by
  have hnot : m ∉ w.state.entries.map StateEntry.marker := by
    intro hmem
    obtain ⟨e, he, rfl⟩ := List.mem_map.mp hmem
    exact List.not_mem_nil (h ▸ mem_ofJob.mpr ⟨he, rfl⟩)
  unfold RegistrationWorld.entered StateTree.enter
  rw [dif_neg hnot]

theorem ofJob_enter (h : w.ofJob m.jobId = []) (jobId : PyStr) :
    (w.entered m).ofJob jobId = if m.jobId = jobId then ⟨m, true⟩ :: w.ofJob jobId else w.ofJob jobId := by
  unfold RegistrationWorld.ofJob
  rw [entries_enter h, List.filter_cons]
  simp only [decide_eq_true_eq]

namespace ClearFor

variable (hclear : ClearFor spawned c w)

include hclear

theorem mem_ofJob_of_glob {m : StateMarker} (hm : m ∈ w.state.glob c.placement (matchesKey c.jobKey)) :
    ∃ e ∈ w.ofJob c.jobKey.id, e.marker = m := by
  obtain ⟨hcore, hplacement, hmatch, hmem⟩ := StateTree.mem_glob.mp hm
  obtain ⟨e, he, rfl⟩ := List.mem_map.mp hmem
  have hkey := hclear.named e he hcore hplacement hmatch
  exact ⟨e, mem_ofJob.mpr ⟨he, congrArg ValidJobKey.id hkey⟩, rfl⟩

theorem sweep_none (h : w.ofJob c.jobKey.id = []) : w.state.sweep c.jobKey c.placement = .ok none := by
  have hglob : w.state.glob c.placement (matchesKey c.jobKey) = [] := by
    refine List.eq_nil_iff_forall_not_mem.mpr fun m hm => ?_
    obtain ⟨e, he, -⟩ := hclear.mem_ofJob_of_glob hm
    exact List.not_mem_nil (h ▸ he)
  unfold StateTree.sweep
  rw [hglob]
  rfl

theorem sweep_some {e : StateEntry} (hmoved : w.staged c.jobKey.text = none) (he : e ∈ w.ofJob c.jobKey.id) :
    w.state.sweep c.jobKey c.placement = .ok (some e.marker) := by
  obtain ⟨hone, hkey, hplacement, hcore⟩ := hclear.own hmoved e he
  have hglob : w.state.glob c.placement (matchesKey c.jobKey) = [e.marker] := by
    refine eq_singleton StateTree.nodup_glob (StateTree.mem_glob.mpr ⟨hcore, hplacement, ?_, ?_⟩) fun m hm => ?_
    · rw [← hkey]
      exact matchesKey_basename e.marker
    · exact List.mem_map_of_mem (mem_ofJob.mp he).1
    · obtain ⟨e', he', rfl⟩ := hclear.mem_ofJob_of_glob hm
      rw [hone] at he'
      rw [List.mem_singleton.mp he']
  unfold StateTree.sweep
  rw [hglob]
  rfl

/-- **Its place is free** once the directories above are made. -/
theorem vacant_withParents (hstaged : w.staged c.jobKey.text ≠ none) :
    (w.withParents c.placement (hclear.vacant hstaged).1).tree.Vacant c.target := by
  obtain ⟨hmakeable, hfree⟩ := hclear.vacant hstaged
  have hbelow : ∀ q, c.target <+: q → ¬ q <+: c.placement := by
    intro q hq hqp
    have hlength := (hq.trans hqp).length_le
    unfold SpawnChild.target at hlength
    simp at hlength
  refine ⟨FileTree.parented_iff.mpr fun q hq hne => ?_, ?_⟩
  · have hqp : q <+: c.placement := (List.prefix_concat_iff.mp hq).resolve_left hne
    show (w.tree.makedirs c.placement hmakeable).look q = _
    rw [FileTree.look_makedirs, if_pos hqp]
  · rcases hfree with habsent | hempty
    · refine Or.inl (FileTree.present_eq_false.mpr ?_)
      show (w.tree.makedirs c.placement hmakeable).look c.target = _
      rw [FileTree.look_makedirs, if_neg (hbelow _ (List.prefix_refl _))]
      exact FileTree.present_eq_false.mp habsent
    · obtain ⟨hdir, hnone⟩ := FileTree.isEmptyDir_iff.mp hempty
      refine Or.inr (FileTree.isEmptyDir_iff.mpr ⟨?_, fun q hq hne => ?_⟩)
      · show (w.tree.makedirs c.placement hmakeable).look c.target = _
        rw [FileTree.look_makedirs, if_neg (hbelow _ (List.prefix_refl _))]
        exact hdir
      · show (w.tree.makedirs c.placement hmakeable).look q = _
        rw [FileTree.look_makedirs, if_neg (hbelow q hq)]
        exact hnone q hq hne

end ClearFor

/-! ### The effects of a registration -/

theorem enterChild_of_directory {publishedHere : Bool} (hdirectory : w.tree.isDir c.target = true) :
    env.enterChild c.jobKey c.placement publishedHere w
      = (do
          match ← Effects.ofExcept (w.state.sweep c.jobKey c.placement) with
          | some _ => pure ⟨⟩
          | none =>
            if publishedHere = false ∧ env.digest (w.tree.subtree c.target) ≠ env.expected c.jobKey.text then
              Effects.raise ⟨.formatError,
                [.lit "registered child bundle does not match: ", .raw c.jobKey.text]⟩
            else
              let child ← Effects.ofExcept (env.document (w.tree.subtree c.target))
              Effects.emit (·.entered (c.marker child.priority)) ⟨⟩ :
                Effects (RegistrationWorld ν) Exc PUnit) w := by
  have hnot : ¬ w.tree.isDir (c.placement ++ [c.jobKey.text]) = false := fun h => by
    rw [show c.placement ++ [c.jobKey.text] = c.target from rfl, hdirectory] at h
    cases h
  unfold RegistrationEnv.enterChild
  rw [Effects.run_current_bind]
  exact congrFun (if_neg hnot) w

theorem enterChild_run (publishedHere : Bool) (hclear : ClearFor spawned c w) (hdirectory : w.tree.isDir c.target = true)
    (hunmarked : w.ofJob c.jobKey.id = []) (hwhole : c.Whole (w.tree.subtree c.target)) :
    ∃ priority, env.enterChild c.jobKey c.placement publishedHere w = ([w.entered (c.marker priority)], .ok ⟨⟩) := by
  obtain ⟨priority, hdocument⟩ := hwhole.document
  refine ⟨priority, ?_⟩
  have hdigest : ¬ (publishedHere = false ∧ env.digest (w.tree.subtree c.target) ≠ env.expected c.jobKey.text) :=
    fun h => h.2 hwhole.digest
  rw [enterChild_of_directory hdirectory, hclear.sweep_none hunmarked, Effects.run_ok_bind]
  show (if publishedHere = false ∧ env.digest (w.tree.subtree c.target) ≠ env.expected c.jobKey.text then _
    else Effects.ofExcept (env.document (w.tree.subtree c.target)) >>= _ : Effects (RegistrationWorld ν) Exc PUnit) w = _
  rw [if_neg hdigest, hdocument, Effects.run_ok_bind]
  rfl

theorem registerChild_marked (hclear : ClearFor spawned c w) (hmoved : w.staged c.jobKey.text = none)
    (hdirectory : w.tree.isDir c.target = true) (hmarked : w.ofJob c.jobKey.id ≠ []) :
    env.registerChild (some c.record) w = ([], .ok ⟨⟩) := by
  obtain ⟨e, he⟩ := List.exists_mem_of_ne_nil _ hmarked
  rw [registerChild_run, hmoved]
  simp only
  rw [enterChild_of_directory hdirectory, hclear.sweep_some hmoved he, Effects.run_ok_bind]
  rfl

theorem registerChild_moved (hclear : ClearFor spawned c w) (hmoved : w.staged c.jobKey.text = none)
    (hdirectory : w.tree.isDir c.target = true) (hunmarked : w.ofJob c.jobKey.id = [])
    (hwhole : c.Whole (w.tree.subtree c.target)) :
    ∃ priority, env.registerChild (some c.record) w = ([w.entered (c.marker priority)], .ok ⟨⟩) := by
  obtain ⟨priority, hrun⟩ := enterChild_run false hclear hdirectory hunmarked hwhole
  exact ⟨priority, by rw [registerChild_run, hmoved]; exact hrun⟩

/-- The workspace after a child of the outcome was moved. -/
def ClearFor.moved (hclear : ClearFor spawned c w) (hstaged : w.staged c.jobKey.text ≠ none)
    (bundle : FileTree PyStr ν) : RegistrationWorld ν :=
  (w.withParents c.placement (hclear.vacant hstaged).1).published c.jobKey.text c.target bundle
    (hclear.vacant_withParents hstaged)

theorem ClearFor.after_move (hclear : ClearFor spawned c w) (hstaged : w.staged c.jobKey.text ≠ none)
    (bundle : FileTree PyStr ν) : ClearFor spawned c (hclear.moved hstaged bundle) := by
  have hgone : (hclear.moved hstaged bundle).staged c.jobKey.text = none := Function.update_self _ _ _
  have hnone : (hclear.moved hstaged bundle).ofJob c.jobKey.id = [] := hclear.alone hstaged
  exact ⟨fun h => absurd hgone h, fun h => absurd hgone h, fun h => absurd hgone h,
    fun _ e he => absurd (hnone ▸ he) List.not_mem_nil, hclear.named⟩

theorem registerChild_staged (hclear : ClearFor spawned c w) {bundle : FileTree PyStr ν}
    (hstaged : w.staged c.jobKey.text = some bundle) (hwhole : c.Whole bundle) :
    ∃ (hne : w.staged c.jobKey.text ≠ none) (priority : ℕ), env.registerChild (some c.record) w
      = ([w.withParents c.placement (hclear.vacant hne).1, hclear.moved hne bundle,
        (hclear.moved hne bundle).entered (c.marker priority)], .ok ⟨⟩) := by
  have hne : w.staged c.jobKey.text ≠ none := by rw [hstaged]; simp
  obtain ⟨priority, hdocument⟩ := hwhole.document
  have hsubtree : (hclear.moved hne bundle).tree.subtree c.target = bundle :=
    FileTree.subtree_graft _ _ _ (hclear.vacant_withParents hne)
  have hdirectory : (hclear.moved hne bundle).tree.isDir c.target = true := by
    rw [FileTree.isDir_iff]
    show ((w.withParents c.placement (hclear.vacant hne).1).tree.graft c.target bundle
      (hclear.vacant_withParents hne)).look c.target = _
    rw [FileTree.look_graft, if_pos (List.prefix_refl _), List.drop_length]
    exact FileTree.isDir_iff.mp hwhole.directory
  obtain ⟨priority', hentered⟩ := enterChild_run true (hclear.after_move hne bundle) hdirectory
    (hclear.alone hne) (by rw [hsubtree]; exact hwhole)
  have hpublish : RegistrationEnv.publishChild c.jobKey.text c.placement bundle w
      = ([w.withParents c.placement (hclear.vacant hne).1, hclear.moved hne bundle], .ok ⟨⟩) := by
    unfold RegistrationEnv.publishChild
    rw [Effects.run_current_bind, dif_pos (hclear.vacant hne).1, Effects.run_emit_bind]
    rw [dif_pos (show (w.withParents c.placement (hclear.vacant hne).1).tree.Vacant (c.placement ++ [c.jobKey.text])
      from hclear.vacant_withParents hne)]
    rfl
  refine ⟨hne, priority', ?_⟩
  rw [registerChild_run, hstaged]
  simp only
  rw [hdocument, Effects.run_ok_bind, if_neg (not_not.mpr rfl), if_neg (not_not.mpr hwhole.digest),
    Effects.run_bind_ok hpublish]
  show (_ ++ (env.enterChild c.jobKey c.placement true (hclear.moved hne bundle)).fst, _) = _
  rw [show List.getLastD [w.withParents c.placement (hclear.vacant hne).1, hclear.moved hne bundle] w
    = hclear.moved hne bundle from rfl, hentered]
  rfl

/-! ### What an effect keeps -/

/-- **What an effect keeps**: the workspace can be resumed from, and what is registered
stays so. -/
structure KeepsChildren (spawned : SpawnSet env) (w v : RegistrationWorld ν) : Prop where
  resumable : Resumable spawned v
  registered : ∀ d : SpawnChild env, d.Registered w → d.Registered v

theorem KeepsChildren.refl (h : Resumable spawned w) : KeepsChildren spawned w w := ⟨h, fun _ hd => hd⟩

theorem KeepsChildren.trans {v u : RegistrationWorld ν} (h : KeepsChildren spawned w v) (h' : KeepsChildren spawned v u) :
    KeepsChildren spawned w u :=
  ⟨h'.resumable, fun d hd => h'.registered d (h.registered d hd)⟩

theorem SpawnSet.eq_of_text (hc : c ∈ spawned.children) (hd : d ∈ spawned.children)
    (h : d.jobKey.text = c.jobKey.text) : d = c :=
  List.inj_on_of_nodup_map spawned.distinct hd hc (congrArg ValidJobKey.id (ValidJobKey.eq_of_text h))

theorem ClearFor.keeps_withParents (hclear : ClearFor spawned c w) (hresumable : Resumable spawned w)
    (hne : w.staged c.jobKey.text ≠ none) :
    KeepsChildren spawned w (w.withParents c.placement (hclear.vacant hne).1) := by
  refine ⟨⟨hresumable.staged, fun d hd hmoved => ?_, fun d hd hmoved hunmarked => ?_⟩, fun d hregistered => ?_⟩
  · exact FileTree.isDir_makedirs (hclear.vacant hne).1 (hresumable.moved d hd hmoved)
  · have hsubtree : (w.tree.makedirs c.placement (hclear.vacant hne).1).subtree d.target = w.tree.subtree d.target := by
      refine FileTree.ext_look fun q => ?_
      rw [FileTree.look_subtree, FileTree.look_makedirs, FileTree.look_subtree, if_neg]
      exact fun h => hclear.apart hne d hd hmoved hunmarked ((List.prefix_append _ q).trans h)
    show d.Whole ((w.tree.makedirs c.placement (hclear.vacant hne).1).subtree d.target)
    rw [hsubtree]
    exact hresumable.unmarked d hd hmoved hunmarked
  · exact ⟨hregistered.moved, FileTree.isDir_makedirs (hclear.vacant hne).1 hregistered.directory, hregistered.marker⟩

theorem ClearFor.keeps_moved (hclear : ClearFor spawned c w) (hresumable : Resumable spawned w)
    (hc : c ∈ spawned.children) {bundle : FileTree PyStr ν} (hstaged : w.staged c.jobKey.text = some bundle)
    (hne : w.staged c.jobKey.text ≠ none) : KeepsChildren spawned w (hclear.moved hne bundle) := by
  have hwhole := hresumable.staged c hc bundle hstaged
  have hparents := hclear.keeps_withParents hresumable hne
  have hvacant := hclear.vacant_withParents hne
  refine hparents.trans ?_
  generalize hw : w.withParents c.placement (hclear.vacant hne).1 = made at hparents hvacant
  have hmoved : hclear.moved hne bundle = made.published c.jobKey.text c.target bundle hvacant := by
    subst hw
    rfl
  have hsame : made.staged = w.staged ∧ ∀ jobId, made.ofJob jobId = w.ofJob jobId := by
    subst hw
    exact ⟨rfl, fun _ => rfl⟩
  rw [hmoved]
  have hgone : ∀ d : SpawnChild env, (made.published c.jobKey.text c.target bundle hvacant).staged d.jobKey.text
      = if d.jobKey.text = c.jobKey.text then none else made.staged d.jobKey.text :=
    fun d => Function.update_apply _ _ _ _
  have hdirectory : (made.tree.graft c.target bundle hvacant).isDir c.target = true := by
    rw [FileTree.isDir_iff, FileTree.look_graft, if_pos (List.prefix_refl _), List.drop_length]
    exact FileTree.isDir_iff.mp hwhole.directory
  refine ⟨⟨fun d hd bundle' hd' => ?_, fun d hd hd' => ?_, fun d hd hd' hunmarked => ?_⟩, fun d hd => ?_⟩
  · rw [hgone] at hd'
    split_ifs at hd' with htext
    exact hparents.resumable.staged d hd bundle' hd'
  · rw [hgone] at hd'
    by_cases htext : d.jobKey.text = c.jobKey.text
    · rw [SpawnSet.eq_of_text hc hd htext]
      exact hdirectory
    · rw [if_neg htext] at hd'
      exact FileTree.isDir_graft hvacant hwhole.directory (hparents.resumable.moved d hd hd')
  · rw [hgone] at hd'
    by_cases htext : d.jobKey.text = c.jobKey.text
    · rw [SpawnSet.eq_of_text hc hd htext]
      show c.Whole ((made.tree.graft c.target bundle hvacant).subtree c.target)
      rw [FileTree.subtree_graft]
      exact hwhole
    · rw [if_neg htext] at hd'
      have hpresent := FileTree.isDir_iff.mp (hparents.resumable.moved d hd hd')
      have hsubtree : (made.tree.graft c.target bundle hvacant).subtree d.target = made.tree.subtree d.target := by
        refine FileTree.ext_look fun q => ?_
        rw [FileTree.look_subtree, FileTree.look_graft, FileTree.look_subtree, if_neg]
        intro hprefix
        have hapart := hclear.apart hne d hd (hsame.1 ▸ hd') ((hsame.2 _).symm.trans hunmarked)
        have hdifferent : d.target ≠ c.target := fun h =>
          htext (List.cons.inj (List.append_inj' h rfl).2).1
        rcases List.prefix_or_prefix_of_prefix hprefix (List.prefix_append d.target q) with h | h
        · -- nothing is below a vacant place
          rcases hvacant.2 with habsent | hempty
          · exact absurd (FileTree.look_below h (FileTree.present_eq_false.mp habsent)) (by rw [hpresent]; simp)
          · exact absurd ((FileTree.isEmptyDir_iff.mp hempty).2 _ h hdifferent) (by rw [hpresent]; simp)
        · exact (List.prefix_concat_iff.mp h).elim hdifferent hapart
      show d.Whole ((made.tree.graft c.target bundle hvacant).subtree d.target)
      rw [hsubtree]
      exact hparents.resumable.unmarked d hd hd' hunmarked
  · refine ⟨?_, FileTree.isDir_graft hvacant hwhole.directory hd.directory, hd.marker⟩
    rw [hgone]
    split_ifs
    · rfl
    · exact hd.moved

theorem keeps_entered (hresumable : Resumable spawned w) (hunmarked : w.ofJob c.jobKey.id = []) (priority : ℕ) :
    KeepsChildren spawned w (w.entered (c.marker priority)) := by
  have hofJob := ofJob_enter (w := w) (m := c.marker priority) hunmarked
  refine ⟨⟨hresumable.staged, hresumable.moved, fun d hd hmoved hnone => ?_⟩, fun d hd => ?_⟩
  · rw [hofJob] at hnone
    split_ifs at hnone
    exact hresumable.unmarked d hd hmoved hnone
  · refine ⟨hd.moved, hd.directory, ?_⟩
    obtain ⟨e, he, hmarker⟩ := hd.marker
    refine ⟨e, ?_, hmarker⟩
    rw [hofJob, if_neg, he]
    intro hid
    rw [show (c.marker priority).jobId = c.jobKey.id from rfl] at hid
    rw [← hid, hunmarked] at he
    cases he

theorem registered_entered (hmoved : w.staged c.jobKey.text = none) (hdirectory : w.tree.isDir c.target = true)
    (hunmarked : w.ofJob c.jobKey.id = []) (priority : ℕ) : c.Registered (w.entered (c.marker priority)) := by
  refine ⟨hmoved, hdirectory, ⟨c.marker priority, true⟩, ?_, rfl, rfl⟩
  have hofJob := ofJob_enter (w := w) (m := c.marker priority) hunmarked
  rw [hofJob, if_pos (show (c.marker priority).jobId = c.jobKey.id from rfl), hunmarked]

theorem registerChild_spec (hclear : ClearFor spawned c w) (hresumable : Resumable spawned w)
    (hc : c ∈ spawned.children) :
    ∃ l, env.registerChild (some c.record) w = (l, .ok ⟨⟩) ∧ (∀ v ∈ w :: l, KeepsChildren spawned w v)
      ∧ c.Registered (l.getLastD w)
      ∧ ((∃ priority, w.ofJob c.jobKey.id = []
          ∧ (l.getLastD w).state.entries = ⟨c.marker priority, true⟩ :: w.state.entries)
        ∨ w.ofJob c.jobKey.id ≠ [] ∧ (l.getLastD w).state.entries = w.state.entries) := by
  have hrefl := KeepsChildren.refl hresumable
  cases hstaged : w.staged c.jobKey.text with
  | none =>
    have hdirectory := hresumable.moved c hc hstaged
    by_cases hmarked : w.ofJob c.jobKey.id = []
    · have hwhole := hresumable.unmarked c hc hstaged hmarked
      obtain ⟨priority, hrun⟩ := registerChild_moved hclear hstaged hdirectory hmarked hwhole
      refine ⟨_, hrun, fun v hv => ?_, registered_entered hstaged hdirectory hmarked priority,
        Or.inl ⟨priority, hmarked, entries_enter hmarked⟩⟩
      rcases List.mem_cons.mp hv with rfl | hv
      · exact hrefl
      · rw [List.mem_singleton.mp hv]
        exact keeps_entered hresumable hmarked priority
    · refine ⟨[], registerChild_marked hclear hstaged hdirectory hmarked, fun v hv => ?_, ?_, Or.inr ⟨hmarked, rfl⟩⟩
      · rw [List.mem_singleton.mp hv]
        exact hrefl
      · obtain ⟨e, he⟩ := List.exists_mem_of_ne_nil _ hmarked
        obtain ⟨hone, hkey, hplacement, -⟩ := hclear.own hstaged e he
        exact ⟨hstaged, hdirectory, e, hone, hkey, hplacement⟩
  | some bundle =>
    obtain ⟨hne, priority, hrun⟩ := registerChild_staged hclear hstaged (hresumable.staged c hc bundle hstaged)
    have hkept := hclear.keeps_moved hresumable hc hstaged hne
    have hmoved : (hclear.moved hne bundle).staged c.jobKey.text = none := Function.update_self _ _ _
    have hunmarked : (hclear.moved hne bundle).ofJob c.jobKey.id = [] := hclear.alone hne
    have hdirectory := hkept.resumable.moved c hc hmoved
    refine ⟨_, hrun, fun v hv => ?_, registered_entered hmoved hdirectory hunmarked priority,
      Or.inl ⟨priority, hclear.alone hne, entries_enter hunmarked⟩⟩
    simp only [List.mem_cons, List.not_mem_nil, or_false] at hv
    rcases hv with rfl | rfl | rfl | rfl
    · exact hrefl
    · exact hclear.keeps_withParents hresumable hne
    · exact hkept
    · exact hkept.trans (keeps_entered hkept.resumable hunmarked priority)

end OneChild

/-! ## Every attempt goes on -/

section Runs

variable {env : RegistrationEnv ν} {spawned : SpawnSet env} {s s' : CommittingParent env}

/-- **What holds between the steps**: the next attempt can go on, none has raised, and
the children the attempt under way has come to are registered. -/
structure CommittingParent.Steady (spawned : SpawnSet env) (s : CommittingParent env) : Prop where
  resumable : Resumable spawned s.world
  quiet : s.raised = none
  registered : ∀ rest, s.pending = some rest →
    ∃ done, spawned.children = done ++ rest ∧ ∀ c ∈ done, c.Registered s.world

variable {c : SpawnChild env}

theorem CommittingParent.Steady.registers (hs : s.Steady spawned) {rest : List (SpawnChild env)}
    (hpending : s.pending = some (c :: rest)) (hclear : ClearFor spawned c s.world) :
    ∃ s', registrationNext spawned s .registers = some s' ∧ s'.Steady spawned ∧ s'.pending = some rest
      ∧ c.Registered s'.world
      ∧ ((∃ priority, s.world.ofJob c.jobKey.id = []
          ∧ s'.world.state.entries = ⟨c.marker priority, true⟩ :: s.world.state.entries)
        ∨ s.world.ofJob c.jobKey.id ≠ [] ∧ s'.world.state.entries = s.world.state.entries) := by
  obtain ⟨done, hchildren, hdone⟩ := hs.registered _ hpending
  have hc : c ∈ spawned.children := hchildren ▸ List.mem_append_right done List.mem_cons_self
  obtain ⟨l, hrun, hkeeps, hregistered, hentries⟩ := registerChild_spec hclear hs.resumable hc
  have hkept : KeepsChildren spawned s.world (l.getLastD s.world) := by
    have hvisits := Effects.visits_final (env.registerChild (some c.record)) s.world
    unfold Effects.Visits Effects.final at hvisits
    rw [hrun] at hvisits
    exact hkeeps _ hvisits
  refine ⟨⟨l.getLastD s.world, some rest, none⟩, ?_, ⟨hkept.resumable, rfl, ?_⟩, rfl, hregistered, hentries⟩
  · unfold registrationNext Effects.final
    rw [hpending]
    simp only [hrun]
  · rintro _ ⟨⟩
    refine ⟨done ++ [c], by rw [hchildren, List.append_assoc]; rfl, fun d hd => ?_⟩
    rcases List.mem_append.mp hd with hd | hd
    · exact hkept.registered d (hdone d hd)
    · rw [List.mem_singleton.mp hd]
      exact hregistered

theorem CommittingParent.Steady.next (hs : s.Steady spawned) {a : RegistrationStep ν}
    (hstep : (registrationRuns spawned).step s a s') (hclear : ClearStep spawned s a) : s'.Steady spawned := by
  obtain ⟨hnext, hothers⟩ := hstep
  cases a with
  | begins =>
    unfold registrationNext at hnext
    simp only [Option.ite_none_right_eq_some] at hnext
    rw [← Option.some.inj hnext.2]
    refine ⟨hs.resumable, rfl, fun rest hrest => ⟨[], ?_, fun c hc => absurd hc List.not_mem_nil⟩⟩
    exact Option.some.inj hrest
  | registers =>
    cases hpending : s.pending with
    | none => simp [registrationNext, hpending] at hnext
    | some pending =>
      cases pending with
      | nil => simp [registrationNext, hpending] at hnext
      | cons c rest =>
        obtain ⟨s'', hs'', hsteady, -⟩ := hs.registers hpending (hclear c rest hpending)
        rw [← Option.some.inj (hs''.symm.trans hnext)]
        exact hsteady
  | killed effects =>
    unfold registrationNext at hnext
    cases hpending : s.pending with
    | none => simp [hpending] at hnext
    | some pending =>
      cases pending with
      | nil =>
        simp only [hpending, Option.some.injEq] at hnext
        rw [← hnext]
        exact ⟨hs.resumable, rfl, fun _ h => by cases h⟩
      | cons c rest =>
        simp only [hpending, Option.some.injEq] at hnext
        rw [← hnext]
        obtain ⟨done, hchildren, -⟩ := hs.registered _ hpending
        have hc : c ∈ spawned.children := hchildren ▸ List.mem_append_right done List.mem_cons_self
        obtain ⟨l, hrun, hkeeps, -⟩ := registerChild_spec (hclear c rest hpending) hs.resumable hc
        have hvisits := Effects.visits_take (env.registerChild (some c.record)) s.world effects
        unfold Effects.Visits at hvisits
        rw [hrun] at hvisits ⊢
        exact ⟨(hkeeps _ hvisits).resumable, rfl, fun _ h => by cases h⟩
  | others w =>
    have hrespects := hothers w rfl
    rw [← Option.some.inj hnext]
    refine ⟨⟨?_, fun c hc hmoved => ?_, fun c hc hmoved hunmarked => ?_⟩, hs.quiet, fun rest hrest => ?_⟩
    · exact fun c hc bundle hstaged => hs.resumable.staged c hc bundle (hrespects.staged ▸ hstaged)
    · have hmoved : s.world.staged c.jobKey.text = none := hrespects.staged ▸ hmoved
      exact hrespects.directory c hc hmoved (hs.resumable.moved c hc hmoved)
    · have hmoved : s.world.staged c.jobKey.text = none := hrespects.staged ▸ hmoved
      obtain ⟨hbefore, hsubtree⟩ := hrespects.unmarked c hc hmoved hunmarked
      show c.Whole (w.tree.subtree c.target)
      rw [hsubtree]
      exact hs.resumable.unmarked c hc hmoved hbefore
    · obtain ⟨done, hchildren, hdone⟩ := hs.registered rest hrest
      have hmem : ∀ c ∈ done, c ∈ spawned.children := fun c hc => hchildren ▸ List.mem_append_left rest hc
      exact ⟨done, hchildren, fun c hc => hrespects.registered c (hmem c hc) (hdone c hc)⟩

/-- **Child registration is resumable.** Whatever was registered by attempts that stopped, and wherever they stopped:
as long as the workspace is clear for each child whose turn comes, no attempt raises, an attempt that comes to its end
has every child registered with one marker, and the next child is registered with a new marker if and only if it had
none. -/
theorem registration_resumes
    (hs : ((registrationRuns spawned).guarded (ClearStep spawned)).Reachable s) :
    s.raised = none
      ∧ (s.pending = some [] → ∀ c ∈ spawned.children, c.Registered s.world)
      ∧ ∀ c rest, s.pending = some (c :: rest) → ClearFor spawned c s.world →
        ∃ s', registrationNext spawned s .registers = some s' ∧ s'.raised = none ∧ s'.pending = some rest
          ∧ c.Registered s'.world
          ∧ ((∃ priority, s.world.ofJob c.jobKey.id = []
              ∧ s'.world.state.entries = ⟨c.marker priority, true⟩ :: s.world.state.entries)
            ∨ s.world.ofJob c.jobKey.id ≠ [] ∧ s'.world.state.entries = s.world.state.entries) := by
  have hsteady : s.Steady spawned := by
    refine hs.invariant (I := CommittingParent.Steady spawned) ?_ ?_
    · rintro s ⟨hresumable, hpending, hraised⟩
      exact ⟨hresumable, hraised, fun rest hrest => by rw [hpending] at hrest; cases hrest⟩
    · rintro s a s' - hsteady ⟨hstep, hclear⟩
      exact hsteady.next hstep hclear
  refine ⟨hsteady.quiet, fun hdone c hc => ?_, fun c rest hpending hclear => ?_⟩
  · obtain ⟨done, hchildren, hregistered⟩ := hsteady.registered [] hdone
    rw [List.append_nil] at hchildren
    exact hregistered c (hchildren ▸ hc)
  · obtain ⟨s', hnext, hsteady', hrest⟩ := hsteady.registers hpending hclear
    exact ⟨s', hnext, hsteady'.quiet, hrest⟩

theorem own_step (hs : ((registrationRuns spawned).guarded (ClearStep spawned)).Reachable s)
    (a : RegistrationStep ν) {t : CommittingParent env} (hnext : registrationNext spawned s a = some t)
    (hown : ∀ w, a ≠ .others w) (hclear : ClearStep spawned s a) :
    ((registrationRuns spawned).guarded (ClearStep spawned)).Reachable t :=
  hs.step ⟨⟨hnext, fun w h => absurd h (hown w)⟩, hclear⟩

/-! ## A place that is taken -/

/-- **A child whose place is taken**: it is whole in the outcome, and a directory with
something in it is where it is to go. -/
structure SpawnChild.Occupied (c : SpawnChild env) (w : RegistrationWorld ν) : Prop where
  staged : ∃ bundle, w.staged c.jobKey.text = some bundle ∧ c.Whole bundle
  makeable : w.tree.makeable c.placement
  taken : ∃ q, c.target <+: q ∧ q ≠ c.target ∧ w.tree.look q ≠ none

theorem SpawnChild.Occupied.raises {w : RegistrationWorld ν} (h : c.Occupied w) :
    (env.registerChild (some c.record) w).snd = .error ⟨.osError,
        [.lit "publication destination already exists: ", .path c.target]⟩
      ∧ ∀ v ∈ w :: (env.registerChild (some c.record) w).fst, c.Occupied v := by
  obtain ⟨bundle, hstaged, hwhole⟩ := h.staged
  obtain ⟨priority, hdocument⟩ := hwhole.document
  obtain ⟨q, hq, hne, hthere⟩ := h.taken
  have hoccupied : c.Occupied (w.withParents c.placement h.makeable) := by
    refine ⟨⟨bundle, hstaged, hwhole⟩, fun p hp => Or.inr ?_, q, hq, hne, ?_⟩
    · rw [FileTree.isDir_iff]
      exact if_pos ((List.mem_inits _ _).mp hp)
    · have hbelow : ¬ q <+: c.placement := fun hqp => by
        have hlength := (hq.trans hqp).length_le
        unfold SpawnChild.target at hlength
        simp at hlength
      show (w.tree.makedirs c.placement h.makeable).look q ≠ none
      rw [FileTree.look_makedirs, if_neg hbelow]
      exact hthere
  have hnot : ¬ (w.withParents c.placement h.makeable).tree.Vacant (c.placement ++ [c.jobKey.text]) := by
    rintro ⟨-, hfree⟩
    obtain ⟨q, hq, hne, hthere⟩ := hoccupied.taken
    rcases hfree with habsent | hempty
    · exact hthere (FileTree.look_below hq (FileTree.present_eq_false.mp habsent))
    · exact hthere ((FileTree.isEmptyDir_iff.mp hempty).2 q hq hne)
  have hpublish : RegistrationEnv.publishChild c.jobKey.text c.placement bundle w
      = ([w.withParents c.placement h.makeable], .error ⟨.osError,
        [.lit "publication destination already exists: ", .path c.target]⟩) := by
    unfold RegistrationEnv.publishChild
    rw [Effects.run_current_bind, dif_pos h.makeable, Effects.run_emit_bind]
    rw [dif_neg hnot]
    rfl
  have hrun : env.registerChild (some c.record) w = ([w.withParents c.placement h.makeable], .error ⟨.osError,
      [.lit "publication destination already exists: ", .path c.target]⟩) := by
    rw [registerChild_run, hstaged]
    simp only
    rw [hdocument, Effects.run_ok_bind, if_neg (not_not.mpr rfl), if_neg (not_not.mpr hwhole.digest),
      Effects.run_bind_error hpublish]
  rw [hrun]
  refine ⟨rfl, fun v hv => ?_⟩
  simp only [List.mem_cons, List.not_mem_nil, or_false] at hv
  rcases hv with rfl | rfl
  · exact h
  · exact hoccupied

theorem SpawnChild.Occupied.stays (hspawned : spawned.children = [c])
    {as : List (RegistrationStep ν)} (hrun : (registrationRuns spawned).Run s as s')
    (halone : ∀ w, .others w ∉ as) (hs : c.Occupied s.world ∧ (s.pending = none ∨ s.pending = some [c])
      ∧ ∀ e, s.raised = some e → e.cls = .osError) :
    c.Occupied s'.world ∧ (s'.pending = none ∨ s'.pending = some [c])
      ∧ ∀ e, s'.raised = some e → e.cls = .osError := by
  induction hrun with
  | nil s => exact hs
  | @cons s a t as s' hstep _ ih =>
    refine ih (fun w hw => halone w (List.mem_cons_of_mem _ hw)) ?_
    obtain ⟨hoccupied, hpending, hraised⟩ := hs
    obtain ⟨herror, hvisits⟩ := hoccupied.raises
    have hnext := hstep.1
    cases a with
    | begins =>
      unfold registrationNext at hnext
      simp only [Option.ite_none_right_eq_some] at hnext
      rw [← Option.some.inj hnext.2]
      exact ⟨hoccupied, Or.inr (congrArg some hspawned), fun _ h => by cases h⟩
    | registers =>
      unfold registrationNext at hnext
      rcases hpending with hpending | hpending
      · simp [hpending] at hnext
      · simp only [hpending, herror, Option.some.injEq] at hnext
        rw [← hnext]
        refine ⟨hvisits _ (Effects.visits_final _ _), Or.inl rfl, fun e he => ?_⟩
        rw [← Option.some.inj he]
    | killed effects =>
      unfold registrationNext at hnext
      rcases hpending with hpending | hpending
      · simp [hpending] at hnext
      · simp only [hpending, Option.some.injEq] at hnext
        rw [← hnext]
        exact ⟨hvisits _ (Effects.visits_take _ _ effects), Or.inl rfl, fun _ h => by cases h⟩
    | others w => exact absurd List.mem_cons_self (halone w)

end Runs

/-! ## One child -/

namespace OneChild

def key : ValidJobKey where
  text := "22222222-2222-4222-8222-222222222222"
  tag := none
  id := "22222222-2222-4222-8222-222222222222"
  parsed := rfl

def bundle (content : Bool) : FileTree PyStr Bool :=
  .ofEntries [([], .dir), (["job.json"], .file content)] (by cases content <;> decide)

def env : RegistrationEnv Bool where
  workspaceId := "w1"
  childDigests := [(key.text, "ours")]
  digest t := if t.content ["job.json"] = some true then "ours" else "foreign"
  document _ := .ok ⟨key, 500⟩

def child : SpawnChild env where
  record := ⟨key.text, "p", none⟩
  jobKey := key
  placement := ["p"]
  parsed := rfl
  normalized := rfl
  here := rfl

def spawned : SpawnSet env := ⟨[child], List.nodup_singleton _⟩

def vacantWorld : RegistrationWorld Bool where
  tree := .ofEntries [([], .dir)] (by decide)
  staged name := if name = key.text then some (bundle true) else none
  state := ⟨[], List.nodup_nil⟩

def takenWorld : RegistrationWorld Bool where
  tree := .ofEntries [([], .dir), (["p"], .dir), (["p", key.text], .dir),
    (["p", key.text, "job.json"], .file false)] (by decide)
  staged name := if name = key.text then some (bundle true) else none
  state := ⟨[⟨⟨.succeeded, ["p"], key, 500, 7, "r7"⟩, true⟩], List.nodup_singleton _⟩

theorem whole : child.Whole (bundle true) := ⟨by decide, ⟨500, rfl⟩, by decide⟩

theorem resumable_of_staged {w : RegistrationWorld Bool} (h : w.staged key.text = some (bundle true)) :
    Resumable spawned w := by
  have hne : w.staged key.text ≠ none := by rw [h]; simp
  refine ⟨fun c hc b hb => ?_, fun c hc hmoved => ?_, fun c hc hmoved => ?_⟩
  all_goals obtain rfl := List.mem_singleton.mp hc
  · rw [← Option.some.inj (h.symm.trans hb)]
    exact whole
  · exact absurd hmoved hne
  · exact absurd hmoved hne

theorem clear_vacantWorld : ClearFor spawned child vacantWorld where
  vacant _ := by decide
  alone _ := rfl
  apart _ d hd hmoved := by
    obtain rfl := List.mem_singleton.mp hd
    cases hmoved
  own h := by cases h
  named _ he := absurd he List.not_mem_nil

theorem occupied_takenWorld : child.Occupied takenWorld where
  staged := ⟨bundle true, rfl, whole⟩
  makeable := by decide
  taken := ⟨["p", key.text, "job.json"], ⟨["job.json"], rfl⟩, by decide, by decide⟩

end OneChild

/-- **A commit that stopped after the child was moved** is resumed: the second attempt comes to its end, and the child
has its marker. -/
theorem registration_resumes_moved : ∃ s : CommittingParent OneChild.env,
    ((registrationRuns OneChild.spawned).guarded (ClearStep OneChild.spawned)).Reachable s
      ∧ s.pending = some [] ∧ OneChild.child.Registered s.world := by
  obtain ⟨hne, priority, hrun⟩ := registerChild_staged OneChild.clear_vacantWorld rfl OneChild.whole
  let moved := OneChild.clear_vacantWorld.moved hne (OneChild.bundle true)
  have hclear : ClearFor OneChild.spawned OneChild.child moved := OneChild.clear_vacantWorld.after_move hne _
  have hfirst : ((registrationRuns OneChild.spawned).guarded (ClearStep OneChild.spawned)).Reachable
      ⟨OneChild.vacantWorld, none, none⟩ :=
    System.Reachable.init ⟨OneChild.resumable_of_staged rfl, rfl, rfl⟩
  have hbegun := own_step hfirst .begins (t := ⟨OneChild.vacantWorld, some [OneChild.child], none⟩) rfl
    (by simp) trivial
  have hkilled := own_step hbegun (.killed 2) (t := ⟨moved, none, none⟩) (by
      unfold registrationNext
      simp only [hrun]
      rfl) (by simp) fun c rest h => by
    cases h
    exact OneChild.clear_vacantWorld
  have hagain := own_step hkilled .begins (t := ⟨moved, some [OneChild.child], none⟩) rfl (by simp) trivial
  obtain ⟨s', hnext, -, hpending, hregistered, -⟩ := (registration_resumes hagain).2.2 _ _ rfl hclear
  refine ⟨s', own_step hagain .registers hnext (by simp) fun c rest h => ?_, hpending, hregistered⟩
  cases h
  exact hclear

/-- **A parent that is retried for ever**: another job has the UUID and the place of its child. No attempt comes to its
end, and none raises an error for which a resumed commit fails the parent. -/
theorem occupied_for_ever :
    Resumable OneChild.spawned OneChild.takenWorld
      ∧ (OneChild.takenWorld.ofJob OneChild.child.jobKey.id).length = 1
      ∧ OneChild.env.digest (OneChild.takenWorld.tree.subtree OneChild.child.target)
        ≠ OneChild.env.expected OneChild.child.jobKey.text
      ∧ ∀ as s, (registrationRuns OneChild.spawned).Run ⟨OneChild.takenWorld, none, none⟩ as s →
        (∀ w, .others w ∉ as) → s.pending ≠ some [] ∧ ∀ e, s.raised = some e → e.cls = .osError := by
  refine ⟨OneChild.resumable_of_staged rfl, by decide, by decide, fun as s hrun halone => ?_⟩
  obtain ⟨-, hpending, hraised⟩ := SpawnChild.Occupied.stays (show OneChild.spawned.children = _ from rfl) hrun halone
    ⟨OneChild.occupied_takenWorld, Or.inl rfl, fun _ h => by cases h⟩
  refine ⟨fun hdone => ?_, hraised⟩
  rcases hpending with h | h <;> rw [h] at hdone <;> cases hdone
