import HttkWorkflow.Listing
import HttkWorkflow.MarkerLookup
import HttkWorkflow.System

/-!
# The sweep of local attempts

In each tick a manager walks the running markers, reads the frame of each and
notes which attempts they name. An attempt of its own that none of them named
is an orphan, and its process is terminated: the job has been committed,
cancelled or taken over, and the process runs for nobody.

That a marker was not met is taken for its absence. The walk lists one
directory after the other, tests each listed path and then its owner, and only
what it took is read afterwards, by the reference in its name. Another manager
that defers a pause of a running job writes a new frame and renames its
marker, in the same directory: a listing under way may report neither name,
and a name that was listed is gone when it is tested. The job then has a
running marker at every moment, and its process is terminated. Where such
renames keep apart from the walk – a marker is renamed before its directory is
opened, or after it was taken – the sweep spares every attempt that a marker
names throughout (`sweep_spares`).
-/

/-- **An attempt a manager keeps track of**: whether it belongs to another
user, a cancellation owns it, or its process has exited. -/
structure LocalAttempt where
  attempt : PyStr
  jobKey : ValidJobKey
  foreign : Bool
  cancelling : Bool
  exited : Bool
deriving DecidableEq

/-- **What stays the same during a pass**: the attempt each frame names, the
placements the manager is assigned to, and the jobs it owns and whose executor
it serves. -/
structure PollEnv where
  attemptOf : PyStr → PyStr
  assigned : List PyStr → Bool
  owned : ValidJobKey → Bool
  served : ValidJobKey → Bool

/-- **The running markers**, at most one of a job. -/
structure RunningTree where
  markers : List StateMarker
  distinct : (markers.map StateMarker.jobKey).Nodup

namespace RunningTree

def inDirectory (tree : RunningTree) (placement : List PyStr) : List StateMarker :=
  tree.markers.filter fun m => m.placement = placement

def rename (tree : RunningTree) (old new : StateMarker) (h : new.jobKey = old.jobKey) :
    RunningTree where
  markers := tree.markers.map fun m => if m = old then new else m
  distinct := by
    have hkeys : (tree.markers.map fun m => if m = old then new else m).map StateMarker.jobKey
        = tree.markers.map StateMarker.jobKey := by
      rw [List.map_map]
      refine List.map_congr_left fun m _ => ?_
      show (if m = old then new else m).jobKey = m.jobKey
      by_cases hm : m = old
      · rw [if_pos hm, h, hm]
      · rw [if_neg hm]
    rw [hkeys]
    exact tree.distinct

/-- A marker goes to another kind. -/
def leave (tree : RunningTree) (m : StateMarker) : RunningTree where
  markers := tree.markers.filter (· ≠ m)
  distinct := (List.filter_sublist.map _).nodup tree.distinct

/-- A marker comes from another kind. -/
def arrive (tree : RunningTree) (m : StateMarker) (h : m.jobKey ∉ tree.markers.map StateMarker.jobKey) :
    RunningTree where
  markers := m :: tree.markers
  distinct := List.nodup_cons.mpr ⟨h, tree.distinct⟩

end RunningTree

/-- **Where the walk is in a directory**: listing it, at the next listed path,
or at the owner of a path that was there. -/
inductive WalkPhase where
  | listing (placement : List PyStr) (listing : Listing StateMarker)
  | testing (listed : List StateMarker)
  | owning (m : StateMarker) (listed : List StateMarker)

/-- **The walk of the running markers**: the directories it has not come to,
the markers it took, and the jobs whose ownership it could not tell. -/
structure Walk where
  todo : List (List PyStr)
  phase : WalkPhase
  taken : List StateMarker
  indeterminate : List ValidJobKey

/-- **The reading of what the walk took**: the attempts found, and the jobs
that could not be read. -/
structure Reading where
  todo : List StateMarker
  current : List PyStr
  unreadable : List ValidJobKey

/-- **Where a pass is.** -/
inductive PollPhase where
  | idle
  | walking (walk : Walk)
  | reading (reading : Reading)

/-- **The state of a manager and the running markers**: its attempts, and
those the last sweep terminated. -/
structure PollState where
  tree : RunningTree
  attempts : List LocalAttempt
  phase : PollPhase
  terminated : List LocalAttempt

/-- **The steps**: a marker is renamed in its directory, leaves or comes; a pass
starts with some directories and attempts; the walk opens the next directory,
closes it with a report, tests the next path and its owner, and ends; the next
marker is read; and the attempts are swept. -/
inductive PollStep where
  | renames (old new : StateMarker)
  | leaves (m : StateMarker)
  | arrives (m : StateMarker)
  | starts (placements : List (List PyStr)) (attempts : List LocalAttempt)
  | opens
  | closes (listed : List StateMarker)
  | tests
  | owns (legible : Bool)
  | walked
  | reads (legible : Bool)
  | sweeps

namespace WalkPhase

def changed (tree : RunningTree) : WalkPhase → WalkPhase
  | .listing placement l => .listing placement (l.changed (tree.inDirectory placement))
  | phase => phase

end WalkPhase

namespace Walk

/-- The next directory is opened. -/
def opens (tree : RunningTree) (w : Walk) : Option Walk :=
  match w.todo, w.phase with
  | placement :: todo, .testing [] =>
    some { w with todo, phase := .listing placement (.opened (tree.inDirectory placement)) }
  | _, _ => none

/-- The directory is closed with a report. -/
def closes (listed : List StateMarker) (w : Walk) : Option Walk :=
  match w.phase with
  | .listing _ l => if l.Reports listed then some { w with phase := .testing listed } else none
  | _ => none

/-- **`is_file`** of the next listed path. -/
def tests (tree : RunningTree) (w : Walk) : Option Walk :=
  match w.phase with
  | .testing (m :: listed) =>
    some { w with phase := if m ∈ tree.markers then .owning m listed else .testing listed }
  | _ => none

/-- **`_owns`**: a path that is gone is passed over, one whose payload cannot be
examined makes its job indeterminate, and one of the manager's own is taken. -/
def owns (env : PollEnv) (tree : RunningTree) (legible : Bool) (w : Walk) : Option Walk :=
  match w.phase with
  | .owning m listed =>
    if m ∉ tree.markers then some { w with phase := .testing listed }
    else if legible = false then
      some { w with phase := .testing listed, indeterminate := m.jobKey :: w.indeterminate }
    else if env.owned m.jobKey = true then
      some { w with phase := .testing listed, taken := w.taken ++ [m] }
    else some { w with phase := .testing listed }
  | _ => none

def walked (w : Walk) : Option Reading :=
  match w.todo, w.phase with
  | [], .testing [] => some ⟨w.taken, [], w.indeterminate⟩
  | _, _ => none

end Walk

namespace Reading

/-- **One marker is read**, by the reference in its name: what cannot be read
is set aside, and a job whose executor is not served is skipped. -/
def reads (env : PollEnv) (legible : Bool) (r : Reading) : Option Reading :=
  match r.todo with
  | [] => none
  | m :: todo =>
    if legible = false then some { r with todo, unreadable := m.jobKey :: r.unreadable }
    else if env.served m.jobKey = true then
      some { r with todo, current := env.attemptOf m.recordRef :: r.current }
    else some { r with todo }

/-- **`_sweep_untracked_attempts`**: the attempts whose process is terminated. -/
def orphans (r : Reading) (attempts : List LocalAttempt) : List LocalAttempt :=
  attempts.filter fun a => a.attempt ∉ r.current ∧ a.jobKey ∉ r.unreadable ∧ a.foreign = false
    ∧ a.cancelling = false ∧ a.exited = false

end Reading

namespace PollPhase

/-- A pass goes on while the tree changes. -/
def changed (tree : RunningTree) : PollPhase → PollPhase
  | .walking w => .walking { w with phase := w.phase.changed tree }
  | phase => phase

end PollPhase

def PollState.changed (s : PollState) (tree : RunningTree) : PollState :=
  { s with tree, phase := s.phase.changed tree }

def PollState.walks (s : PollState) (f : Walk → Option Walk) : Option PollState :=
  match s.phase with
  | .walking w => (f w).map fun w => { s with phase := .walking w }
  | _ => none

/-- **The attempts of a manager** are of jobs it claimed: it owns them, serves
their executors, and their markers are where it is assigned. -/
def PollEnv.Launched (env : PollEnv) (tree : RunningTree) (a : LocalAttempt) : Prop :=
  env.owned a.jobKey = true ∧ env.served a.jobKey = true
    ∧ ∀ m ∈ tree.markers, m.jobKey = a.jobKey → env.assigned m.placement = true

instance (env : PollEnv) (tree : RunningTree) (a : LocalAttempt) : Decidable (env.Launched tree a) :=
  inferInstanceAs (Decidable (_ ∧ _ ∧ _))

/-- **One step.** -/
def pollNext (env : PollEnv) (s : PollState) : PollStep → Option PollState
  | .renames old new =>
    if h : new.jobKey = old.jobKey ∧ new.placement = old.placement
        ∧ old.generation < new.generation ∧ old ∈ s.tree.markers then
      some (s.changed (s.tree.rename old new h.1))
    else none
  | .leaves m => some (s.changed (s.tree.leave m))
  | .arrives m =>
    if h : m.jobKey ∉ s.tree.markers.map StateMarker.jobKey then
      some (s.changed (s.tree.arrive m h))
    else none
  | .starts placements attempts =>
    match s.phase with
    | .idle =>
      if (∀ m ∈ s.tree.markers, env.assigned m.placement = true → m.placement ∈ placements)
          ∧ ∀ a ∈ attempts, env.Launched s.tree a then
        some ⟨s.tree, attempts, .walking ⟨placements, .testing [], [], []⟩, []⟩
      else none
    | _ => none
  | .opens => s.walks (Walk.opens s.tree)
  | .closes listed => s.walks (Walk.closes listed)
  | .tests => s.walks (Walk.tests s.tree)
  | .owns legible => s.walks (Walk.owns env s.tree legible)
  | .walked =>
    match s.phase with
    | .walking w => w.walked.map fun r => { s with phase := .reading r }
    | _ => none
  | .reads legible =>
    match s.phase with
    | .reading r => (r.reads env legible).map fun r => { s with phase := .reading r }
    | _ => none
  | .sweeps =>
    match s.phase with
    | .reading r =>
      if r.todo = [] then
        some { s with phase := .idle, terminated := r.orphans s.attempts }
      else none
    | _ => none

/-! ## What is named throughout a pass -/

/-- **A marker names an attempt**: it is of its job, and its frame is of that
attempt. -/
def PollEnv.Names (env : PollEnv) (m : StateMarker) (a : LocalAttempt) : Prop :=
  m.jobKey = a.jobKey ∧ env.attemptOf m.recordRef = a.attempt

instance (env : PollEnv) (m : StateMarker) (a : LocalAttempt) : Decidable (env.Names m a) :=
  inferInstanceAs (Decidable (_ ∧ _))

def PollEnv.named (env : PollEnv) (tree : RunningTree) (attempts : List LocalAttempt) :
    List LocalAttempt :=
  attempts.filter fun a => ∃ m ∈ tree.markers, env.Names m a

/-- **The attempts that were named at every moment of the pass**, after a
step. -/
def watchNamed (env : PollEnv) (kept : List LocalAttempt) (_ : PollState) (step : PollStep)
    (s' : PollState) : List LocalAttempt :=
  match step with
  | .starts _ attempts => env.named s'.tree attempts
  | _ => env.named s'.tree kept

/-- **The histories of a manager's passes**, with the attempts that some running
marker named at every moment since the last pass began. -/
def pollRuns (env : PollEnv) : System (PollState × List LocalAttempt) PollStep :=
  System.observed (fun s => s.phase = .idle ∧ s.attempts = [] ∧ s.terminated = []) (pollNext env) []
    (watchNamed env)

/-! ## The condition -/

/-- Whether the walk has dealt with an attempt: it took a marker that names it,
or set its job aside. -/
def Walk.Settled (env : PollEnv) (w : Walk) (a : LocalAttempt) : Prop :=
  (∃ m ∈ w.taken, env.Names m a) ∨ a.jobKey ∈ w.indeterminate

/-- **A rename keeps apart from the walk**: the directory of the marker is still
to be opened, or the attempt the marker names is dealt with. -/
def RenamesApart (env : PollEnv) (p : PollState × List LocalAttempt) : PollStep → Prop
  | .renames old _ =>
    match p.fst.phase with
    | .walking w => ∀ a ∈ p.fst.attempts, env.Names old a →
        old.placement ∈ w.todo ∨ w.Settled env a
    | _ => True
  | _ => True

/-! ## What a pass accounts for -/

/-- A marker is still to be taken from the directory that is read. -/
def WalkPhase.Pending (m : StateMarker) : WalkPhase → Prop
  | .listing placement l => m.placement = placement ∧ m ∈ l.must
  | .testing listed => m ∈ listed
  | .owning x listed => m = x ∨ m ∈ listed

/-- **A pass accounts for an attempt** that a marker names: the walk will come
to the marker or has dealt with the attempt, and what it took will be read or
has been. -/
def PollPhase.Accounts (env : PollEnv) (m : StateMarker) (a : LocalAttempt) : PollPhase → Prop
  | .idle => True
  | .walking w => m.placement ∈ w.todo ∨ w.phase.Pending m ∨ w.Settled env a
  | .reading r =>
    (∃ y ∈ r.todo, env.Names y a) ∨ a.attempt ∈ r.current ∨ a.jobKey ∈ r.unreadable

/-- **The invariant of a pass.** -/
structure PollState.Sound (env : PollEnv) (s : PollState) (kept : List LocalAttempt) : Prop where
  launched : ∀ a ∈ kept, a ∈ s.attempts ∧ env.owned a.jobKey = true ∧ env.served a.jobKey = true
  named : ∀ a ∈ kept, ∃ m ∈ s.tree.markers, env.Names m a
  accounted : ∀ a ∈ kept, ∀ m ∈ s.tree.markers, env.Names m a → s.phase.Accounts env m a
  spared : ∀ a ∈ kept, a ∉ s.terminated

variable {env : PollEnv} {s s' : PollState} {kept : List LocalAttempt} {a : LocalAttempt}
variable {m : StateMarker} {tree tree' : RunningTree}

theorem PollEnv.mem_named : a ∈ env.named tree kept ↔ a ∈ kept ∧ ∃ m ∈ tree.markers, env.Names m a := by
  unfold PollEnv.named
  rw [List.mem_filter, decide_eq_true_eq]

theorem RunningTree.eq_of_jobKey {m m' : StateMarker} (hm : m ∈ tree.markers)
    (hm' : m' ∈ tree.markers) (h : m.jobKey = m'.jobKey) : m = m' :=
  List.inj_on_of_nodup_map tree.distinct hm hm' h

theorem RunningTree.mem_inDirectory {placement : List PyStr} :
    m ∈ tree.inDirectory placement ↔ m ∈ tree.markers ∧ m.placement = placement := by
  unfold RunningTree.inDirectory
  rw [List.mem_filter, decide_eq_true_eq]

theorem PollPhase.Accounts.changed {phase : PollPhase} (h : phase.Accounts env m a)
    (hm : m ∈ tree'.markers) : (phase.changed tree').Accounts env m a := by
  cases phase with
  | idle => exact h
  | reading r => exact h
  | walking w =>
    refine h.imp_right (Or.imp_left fun hpending => ?_)
    obtain ⟨todo, phase, taken, indeterminate⟩ := w
    cases phase with
    | testing listed => exact hpending
    | owning x listed => exact hpending
    | listing placement l =>
      obtain ⟨hplacement, hmust⟩ := hpending
      exact ⟨hplacement, Listing.mem_must_changed.mpr ⟨hmust, RunningTree.mem_inDirectory.mpr ⟨hm, hplacement⟩⟩⟩

/-- **The tree becomes another**: markers that were not there before are
accounted for. -/
theorem PollState.Sound.changed (h : s.Sound env kept) (hnew : ∀ a ∈ kept, ∀ m ∈ tree'.markers, env.Names m a →
      m ∈ s.tree.markers ∨ (s.phase.changed tree').Accounts env m a) :
    (s.changed tree').Sound env (env.named tree' kept) where
  launched a ha := h.launched a (PollEnv.mem_named.mp ha).1
  named a ha := (PollEnv.mem_named.mp ha).2
  accounted a ha m hm hnames := by
    have hkept := (PollEnv.mem_named.mp ha).1
    obtain hold | haccounts := hnew a hkept m hm hnames
    · exact (h.accounted a hkept m hold hnames).changed hm
    · exact haccounts
  spared a ha := h.spared a (PollEnv.mem_named.mp ha).1

theorem PollState.Sound.renames {old new : StateMarker} (h : s.Sound env kept)
    (hkey : new.jobKey = old.jobKey) (hplacement : new.placement = old.placement)
    (hold : old ∈ s.tree.markers) (hapart : RenamesApart env (s, kept) (.renames old new)) :
    (s.changed (s.tree.rename old new hkey)).Sound env
      (env.named (s.tree.rename old new hkey) kept) := by
  refine h.changed fun a ha m hm hnames => ?_
  obtain ⟨x, hx, hxm⟩ := List.mem_map.mp hm
  by_cases hxold : x = old
  · rw [if_pos hxold] at hxm
    subst hxm
    -- the attempt was named before the rename, and by the marker that is renamed
    obtain ⟨y, hy, hynames⟩ := h.named a ha
    obtain rfl : y = old :=
      s.tree.eq_of_jobKey hy hold (hynames.1.trans (hnames.1.symm.trans hkey))
    have haccounts := h.accounted a ha y hy hynames
    refine Or.inr ?_
    unfold RenamesApart at hapart
    revert hapart haccounts
    cases s.phase with
    | idle => exact fun _ _ => trivial
    | reading r => exact fun _ haccounts => haccounts
    | walking w =>
      intro hapart _
      refine (hapart a (h.launched a ha).1 hynames).imp (fun htodo => ?_) Or.inr
      rw [hplacement]
      exact htodo
  · rw [if_neg hxold] at hxm
    exact Or.inl (hxm ▸ hx)

theorem PollState.Sound.leaves (h : s.Sound env kept) :
    (s.changed (s.tree.leave m)).Sound env (env.named (s.tree.leave m) kept) :=
  h.changed fun _ _ _ hm _ => Or.inl (List.mem_of_mem_filter hm)

theorem PollState.Sound.arrives (h : s.Sound env kept) (hfresh : m.jobKey ∉ s.tree.markers.map StateMarker.jobKey) :
    (s.changed (s.tree.arrive m hfresh)).Sound env (env.named (s.tree.arrive m hfresh) kept) := by
  refine h.changed fun a ha x hx hnames => ?_
  rcases List.mem_cons.mp hx with rfl | hx
  · obtain ⟨y, hy, hynames⟩ := h.named a ha
    exact absurd (List.mem_map.mpr ⟨y, hy, hynames.1.trans hnames.1.symm⟩) hfresh
  · exact Or.inl hx

theorem PollState.Sound.proceeds (h : s.Sound env kept) (htree : s'.tree = s.tree)
    (hattempts : s'.attempts = s.attempts)
    (haccounts : ∀ a ∈ kept, ∀ m ∈ s.tree.markers, env.Names m a → s.phase.Accounts env m a → s'.phase.Accounts env m a)
    (hspared : ∀ a ∈ kept, a ∉ s'.terminated) :
    s'.Sound env (env.named s'.tree kept) where
  launched a ha := by
    rw [hattempts]
    exact h.launched a (PollEnv.mem_named.mp ha).1
  named a ha := (PollEnv.mem_named.mp ha).2
  accounted a ha m hm hnames := by
    have hkept := (PollEnv.mem_named.mp ha).1
    rw [htree] at hm
    exact haccounts a hkept m hm hnames (h.accounted a hkept m hm hnames)
  spared a ha := hspared a (PollEnv.mem_named.mp ha).1

/-! ## The steps of a pass -/

def Walk.Accounts (env : PollEnv) (w : Walk) (m : StateMarker) (a : LocalAttempt) : Prop :=
  m.placement ∈ w.todo ∨ w.phase.Pending m ∨ w.Settled env a

namespace Walk

variable {w w' : Walk}

theorem Accounts.opens (hm : m ∈ tree.markers) (h : w.Accounts env m a)
    (hstep : w.opens tree = some w') : w'.Accounts env m a := by
  obtain ⟨todo, phase, taken, indeterminate⟩ := w
  unfold Walk.opens at hstep
  split at hstep
  · rename_i placement todo htodo hphase
    obtain rfl : _ = placement :: todo := htodo
    obtain rfl : _ = WalkPhase.testing [] := hphase
    obtain rfl := Option.some.inj hstep
    rcases h with hmem | hmem | hsettled
    · rcases List.mem_cons.mp hmem with heq | hmem
      · exact Or.inr (Or.inl ⟨heq, RunningTree.mem_inDirectory.mpr ⟨hm, heq⟩⟩)
      · exact Or.inl hmem
    · exact absurd hmem List.not_mem_nil
    · exact Or.inr (Or.inr hsettled)
  · cases hstep

theorem Accounts.closes {listed : List StateMarker} (h : w.Accounts env m a)
    (hstep : w.closes listed = some w') : w'.Accounts env m a := by
  obtain ⟨todo, phase, taken, indeterminate⟩ := w
  cases phase with
  | testing _ => cases hstep
  | owning _ _ => cases hstep
  | listing placement l =>
    obtain ⟨⟨-, -, hmust⟩, hstep⟩ := Option.ite_none_right_eq_some.mp hstep
    obtain rfl := Option.some.inj hstep
    exact h.imp_right (Or.imp_left fun hpending => hmust m hpending.2)

theorem Accounts.tests (hm : m ∈ tree.markers) (h : w.Accounts env m a)
    (hstep : w.tests tree = some w') : w'.Accounts env m a := by
  obtain ⟨todo, phase, taken, indeterminate⟩ := w
  unfold Walk.tests at hstep
  split at hstep
  · rename_i x listed hphase
    obtain rfl : _ = WalkPhase.testing (x :: listed) := hphase
    obtain rfl := Option.some.inj hstep
    refine h.imp_right (Or.imp_left fun hpending => ?_)
    by_cases hx : x ∈ tree.markers
    · simp only [if_pos hx]
      exact List.mem_cons.mp hpending
    · simp only [if_neg hx]
      exact (List.mem_cons.mp hpending).resolve_left fun heq => hx (heq ▸ hm)
  · cases hstep

theorem Accounts.owns {legible : Bool} (hm : m ∈ tree.markers) (hnames : env.Names m a)
    (howned : env.owned a.jobKey = true) (h : w.Accounts env m a)
    (hstep : w.owns env tree legible = some w') : w'.Accounts env m a := by
  obtain ⟨todo, phase, taken, indeterminate⟩ := w
  unfold Walk.owns at hstep
  split at hstep
  · rename_i x listed hphase
    obtain rfl : _ = WalkPhase.owning x listed := hphase
    rcases h with htodo | hpending | hsettled
    · split_ifs at hstep <;> obtain rfl := Option.some.inj hstep <;> exact Or.inl htodo
    · rcases hpending with rfl | hlisted
      · rw [if_neg (not_not.mpr hm)] at hstep
        split_ifs at hstep with hlegible hown
        · obtain rfl := Option.some.inj hstep
          exact Or.inr (Or.inr (Or.inr (hnames.1 ▸ List.mem_cons_self)))
        · obtain rfl := Option.some.inj hstep
          exact Or.inr (Or.inr (Or.inl ⟨m, List.mem_append_right _ (List.mem_singleton_self m), hnames⟩))
        · exact absurd (hnames.1 ▸ howned) hown
      · split_ifs at hstep <;> obtain rfl := Option.some.inj hstep <;>
          exact Or.inr (Or.inl hlisted)
    · have hkept : ∀ y ∈ taken, y ∈ taken ++ [x] := fun y hy => List.mem_append_left _ hy
      split_ifs at hstep <;> obtain rfl := Option.some.inj hstep
      · exact Or.inr (Or.inr (hsettled.imp_right (List.mem_cons_of_mem _)))
      · exact Or.inr (Or.inr (hsettled.imp_left fun ⟨y, hy, hynames⟩ => ⟨y, hkept y hy, hynames⟩))
      · exact Or.inr (Or.inr hsettled)
      · exact Or.inr (Or.inr hsettled)
  · cases hstep

theorem Accounts.walked {r : Reading} (h : w.Accounts env m a) (hstep : w.walked = some r) :
    (PollPhase.reading r).Accounts env m a := by
  obtain ⟨todo, phase, taken, indeterminate⟩ := w
  unfold Walk.walked at hstep
  split at hstep
  · rename_i htodo hphase
    obtain rfl : _ = [] := htodo
    obtain rfl : _ = WalkPhase.testing [] := hphase
    obtain rfl := Option.some.inj hstep
    rcases h with hmem | hmem | hsettled
    · exact absurd hmem List.not_mem_nil
    · exact absurd hmem List.not_mem_nil
    · exact hsettled.imp_right Or.inr
  · cases hstep

end Walk

theorem Reading.accounts_reads {r r' : Reading} {legible : Bool}
    (hserved : env.served a.jobKey = true) (h : (PollPhase.reading r).Accounts env m a)
    (hstep : r.reads env legible = some r') : (PollPhase.reading r').Accounts env m a := by
  obtain ⟨todo, current, unreadable⟩ := r
  cases todo with
  | nil => cases hstep
  | cons x todo =>
    unfold Reading.reads at hstep
    simp only at hstep
    rcases h with ⟨y, hy, hnames⟩ | hcurrent | hunreadable
    · rcases List.mem_cons.mp hy with rfl | hy
      · split_ifs at hstep with hlegible hserve
        · obtain rfl := Option.some.inj hstep
          exact Or.inr (Or.inr (hnames.1 ▸ List.mem_cons_self))
        · obtain rfl := Option.some.inj hstep
          exact Or.inr (Or.inl (hnames.2 ▸ List.mem_cons_self))
        · exact absurd (hnames.1 ▸ hserved) hserve
      · split_ifs at hstep <;> obtain rfl := Option.some.inj hstep <;>
          exact Or.inl ⟨y, hy, hnames⟩
    · split_ifs at hstep <;> obtain rfl := Option.some.inj hstep
      · exact Or.inr (Or.inl hcurrent)
      · exact Or.inr (Or.inl (List.mem_cons_of_mem _ hcurrent))
      · exact Or.inr (Or.inl hcurrent)
    · split_ifs at hstep <;> obtain rfl := Option.some.inj hstep
      · exact Or.inr (Or.inr (List.mem_cons_of_mem _ hunreadable))
      · exact Or.inr (Or.inr hunreadable)
      · exact Or.inr (Or.inr hunreadable)

/-! ## Runs -/

theorem PollState.Sound.walks {f : Walk → Option Walk} (h : s.Sound env kept) (hstep : s.walks f = some s')
    (haccounts : ∀ a ∈ kept, ∀ m ∈ s.tree.markers, env.Names m a → ∀ w w', w.Accounts env m a →
      f w = some w' → w'.Accounts env m a) :
    s'.Sound env (env.named s'.tree kept) := by
  unfold PollState.walks at hstep
  split at hstep
  · rename_i w hphase
    obtain ⟨w', hw', rfl⟩ := Option.map_eq_some_iff.mp hstep
    refine h.proceeds rfl rfl (fun a ha m hm hnames hold => ?_) h.spared
    rw [hphase] at hold
    exact haccounts a ha m hm hnames w w' hold hw'
  · cases hstep

theorem PollState.sound_starts {placements : List (List PyStr)} {attempts : List LocalAttempt}
    (hplacements : ∀ m ∈ s.tree.markers, env.assigned m.placement = true → m.placement ∈ placements)
    (hlaunched : ∀ a ∈ attempts, env.Launched s.tree a) :
    PollState.Sound env ⟨s.tree, attempts, .walking ⟨placements, .testing [], [], []⟩, []⟩
      (env.named s.tree attempts) where
  launched a ha := by
    have hmem := (PollEnv.mem_named.mp ha).1
    exact ⟨hmem, (hlaunched a hmem).1, (hlaunched a hmem).2.1⟩
  named a ha := (PollEnv.mem_named.mp ha).2
  accounted a ha m hm hnames := by
    obtain ⟨-, -, hassigned⟩ := hlaunched a (PollEnv.mem_named.mp ha).1
    exact Or.inl (hplacements m hm (hassigned m hm hnames.1))
  spared a _ := List.not_mem_nil

/-- **What one step keeps.** -/
theorem PollState.Sound.next {step : PollStep} (h : s.Sound env kept)
    (hapart : RenamesApart env (s, kept) step) (hstep : pollNext env s step = some s') :
    s'.Sound env (watchNamed env kept s step s') := by
  cases step with
  | renames old new =>
    obtain ⟨hrename, hstep⟩ := Option.dite_none_right_eq_some.mp hstep
    obtain rfl := Option.some.inj hstep
    exact h.renames hrename.1 hrename.2.1 hrename.2.2.2 hapart
  | leaves m =>
    obtain rfl := Option.some.inj hstep
    exact h.leaves
  | arrives m =>
    obtain ⟨hfresh, hstep⟩ := Option.dite_none_right_eq_some.mp hstep
    obtain rfl := Option.some.inj hstep
    exact h.arrives hfresh
  | starts placements attempts =>
    unfold pollNext at hstep
    simp only at hstep
    split at hstep
    · obtain ⟨⟨hplacements, hlaunched⟩, hstep⟩ := Option.ite_none_right_eq_some.mp hstep
      obtain rfl := Option.some.inj hstep
      exact PollState.sound_starts hplacements hlaunched
    · cases hstep
  | opens => exact h.walks hstep fun a ha m hm hnames w w' hw hw' => hw.opens hm hw'
  | closes listed => exact h.walks hstep fun a ha m hm hnames w w' hw hw' => hw.closes hw'
  | tests => exact h.walks hstep fun a ha m hm hnames w w' hw hw' => hw.tests hm hw'
  | owns legible =>
    exact h.walks hstep fun a ha m hm hnames w w' hw hw' =>
      hw.owns hm hnames (h.launched a ha).2.1 hw'
  | walked =>
    unfold pollNext at hstep
    simp only at hstep
    split at hstep
    · rename_i w hphase
      obtain ⟨r, hr, rfl⟩ := Option.map_eq_some_iff.mp hstep
      refine h.proceeds rfl rfl (fun a ha m hm hnames hold => ?_) h.spared
      rw [hphase] at hold
      exact Walk.Accounts.walked hold hr
    · cases hstep
  | reads legible =>
    unfold pollNext at hstep
    simp only at hstep
    split at hstep
    · rename_i r hphase
      obtain ⟨r', hr', rfl⟩ := Option.map_eq_some_iff.mp hstep
      refine h.proceeds rfl rfl (fun a ha m hm hnames hold => ?_) h.spared
      rw [hphase] at hold
      exact Reading.accounts_reads (h.launched a ha).2.2 hold hr'
    · cases hstep
  | sweeps =>
    unfold pollNext at hstep
    simp only at hstep
    split at hstep
    · rename_i r hphase
      obtain ⟨htodo, hstep⟩ := Option.ite_none_right_eq_some.mp hstep
      obtain rfl := Option.some.inj hstep
      refine h.proceeds rfl rfl (fun a ha m hm hnames _ => trivial) fun a ha horphan => ?_
      obtain ⟨m, hm, hnames⟩ := h.named a ha
      have haccounts := h.accounted a ha m hm hnames
      rw [hphase] at haccounts
      obtain ⟨hcurrent, hunreadable, -⟩ := of_decide_eq_true (List.mem_filter.mp horphan).2
      obtain ⟨y, hy, -⟩ | hmem | hmem := haccounts
      · rw [htodo] at hy
        exact absurd hy List.not_mem_nil
      · exact hcurrent hmem
      · exact hunreadable hmem
    · cases hstep

/-- **The sweep spares what is named**: in every run in which the renames of
running markers keep apart from the walk, no attempt that a running marker of
its job named at every moment of a pass is terminated by it. -/
theorem sweep_spares {p : PollState × List LocalAttempt}
    (hs : ((pollRuns env).guarded (RenamesApart env)).Reachable p) :
    ∀ a ∈ p.snd, a ∉ p.fst.terminated := by
  have hsound : p.fst.Sound env p.snd := by
    refine System.Reachable.invariant (I := fun p => p.fst.Sound env p.snd) ?_ ?_ hs
    · rintro ⟨s, kept⟩ ⟨-, rfl⟩
      exact ⟨nofun, nofun, nofun, nofun⟩
    · rintro ⟨s, kept⟩ step ⟨s', kept'⟩ - h ⟨hstep, hapart⟩
      obtain ⟨hnext, hkept⟩ := System.watching_eq_some.mp hstep
      obtain rfl : kept' = watchNamed env kept s step s' := hkept
      exact h.next hapart hnext
  exact hsound.spared

/-! ## A deferred pause -/

/-- A manager that is assigned everything, and whose jobs have the same attempt
in every frame. -/
def plainPollEnv : PollEnv := ⟨fun _ => .ofString "a1", fun _ => true, fun _ => true, fun _ => true⟩

def polledMarker (generation : Nat) : StateMarker :=
  { readyMarker untaggedKey with kind := .running, generation }

def polledAttempt : LocalAttempt := ⟨.ofString "a1", untaggedKey, false, false, false⟩

def polledTree (generation : Nat) : RunningTree :=
  ⟨[polledMarker generation], List.nodup_singleton _⟩

def passUntilListed : List PollStep :=
  [.starts [(polledMarker 3).placement] [polledAttempt], .opens, .closes [polledMarker 3]]

/-- **A pause that is deferred while the directory is listed**: the listed name
is gone when it is tested, and the process of the attempt is terminated. A
running marker named the attempt all the time. -/
theorem sweep_terminates : ∃ p, (pollRuns plainPollEnv).Reachable p
    ∧ polledAttempt ∈ p.snd ∧ polledAttempt ∈ p.fst.terminated := by
  have hinit : (pollRuns plainPollEnv).Reachable (⟨polledTree 3, [], .idle, []⟩, []) :=
    .init ⟨⟨rfl, rfl, rfl⟩, rfl⟩
  have hrun : System.follow (System.watching (pollNext plainPollEnv) (watchNamed plainPollEnv))
      (⟨polledTree 3, [], .idle, []⟩, [])
      (passUntilListed ++ [.renames (polledMarker 3) (polledMarker 4), .tests, .walked, .sweeps])
      = some (⟨polledTree 4, [polledAttempt], .idle, [polledAttempt]⟩, [polledAttempt]) := by
    rfl
  exact ⟨_, (System.run_of_follow hrun).reachable hinit, List.mem_singleton_self _,
    List.mem_singleton_self _⟩

/-- A pause that is deferred once the marker was taken leaves the attempt
alone. -/
theorem sweep_spares_taken : ∃ p,
    ((pollRuns plainPollEnv).guarded (RenamesApart plainPollEnv)).Reachable p
      ∧ polledAttempt ∈ p.snd ∧ polledAttempt ∉ p.fst.terminated := by
  have hinit : ((pollRuns plainPollEnv).guarded (RenamesApart plainPollEnv)).Reachable
      (⟨polledTree 3, [], .idle, []⟩, []) := .init ⟨⟨rfl, rfl, rfl⟩, rfl⟩
  let taken : PollState := ⟨polledTree 3, [polledAttempt],
    .walking ⟨[], .testing [], [polledMarker 3], []⟩, []⟩
  have hbefore : System.follow (System.watching (pollNext plainPollEnv) (watchNamed plainPollEnv))
      (⟨polledTree 3, [], .idle, []⟩, []) (passUntilListed ++ [.tests, .owns true])
      = some (taken, [polledAttempt]) := rfl
  have htaken := ((System.run_of_follow hbefore).guarded (by
    simp [passUntilListed, RenamesApart])).reachable hinit
  have hmoved := htaken.next (.renames (polledMarker 3) (polledMarker 4))
    (show RenamesApart plainPollEnv (taken, _) (.renames (polledMarker 3) (polledMarker 4)) from
      fun a _ hnames => Or.inr (Or.inl ⟨_, List.mem_singleton_self _, hnames⟩)) rfl
  have hafter : System.follow (System.watching (pollNext plainPollEnv) (watchNamed plainPollEnv))
      (⟨polledTree 4, [polledAttempt], .walking ⟨[], .testing [], [polledMarker 3], []⟩, []⟩,
        [polledAttempt]) [.walked, .reads true, .sweeps]
      = some (⟨polledTree 4, [polledAttempt], .idle, []⟩, [polledAttempt]) := rfl
  have hswept := ((System.run_of_follow hafter).guarded (by
    simp [RenamesApart])).reachable hmoved
  exact ⟨_, hswept, List.mem_singleton_self _, sweep_spares hswept _ (List.mem_singleton_self _)⟩
