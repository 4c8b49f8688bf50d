import HttkWorkflow.Listing
import HttkWorkflow.MarkerLookup
import HttkWorkflow.System

/-!
# Lookups while the marker moves

A job has one marker, and other actors rename it from kind to kind while a
lookup goes through the directories of the kinds one after the other. The
lookup looks at the path its index names, then, asked for the id, at the kinds
at the placement the index names, and then at the whole tree; asked for the
key at a placement, it sweeps the kinds there. Each of these passes lists one
directory after the other and tests each listed name once more before it
counts it, and takes what it counted for all there is: nothing is absence, and
two are a corruption.

The marker is where it is at every moment, and the directories are read at
different ones. A marker that moves back to a kind already read is missed, and
one that moves on after it was counted is counted again. Only a pass through
the placement of a stale index entry survives the first, since the whole tree
is read after it. Where each rename goes to a kind still to be read if the
marker is not yet counted, and to one already read if it is, every lookup
finds the marker (`lookup_found`).
-/

/-- **The two lookups of one job**: by its id, and by its key at the placement
of its marker. -/
inductive SeekCall where
  | byId
  | atPlacement
deriving DecidableEq

/-- **What a pass goes through**: the kinds at the placement of a stale index
entry, the whole tree, or the kinds at the placement asked for. -/
inductive SeekScope where
  | probe (placement : List PyStr)
  | tree
  | sweep (placement : List PyStr)
deriving DecidableEq

/-- **Where a pass is in a directory**: it is listing one, or testing what was
listed. -/
inductive SeekPhase where
  | listing (kind : StateKind) (listing : Listing StateMarker)
  | testing (listed : List StateMarker)

/-- **A pass**: the kinds it has not come to, and what it has counted. -/
structure SeekPass where
  scope : SeekScope
  todo : List StateKind
  phase : SeekPhase
  found : List StateMarker

/-- **The state of a lookup.** -/
inductive Seek where
  | idle
  | confirming (call : SeekCall) (entry : StateMarker)
  | passing (pass : SeekPass)
  | done (result : Except Exc (Option StateMarker))

/-- **A job and a lookup of it**: where its one marker is, and how far the
lookup has come. -/
structure SeekState where
  marker : StateMarker
  seek : Seek

/-- **The steps**: another actor renames the marker; a lookup is asked for by a
process with some memory; it confirms the index entry, opens the next
directory, closes it with a report, tests the next name, and ends a pass. -/
inductive SeekStep (capacity : Nat) where
  | moves (marker : StateMarker)
  | asks (call : SeekCall) (memory : LookupMemory capacity)
  | confirms
  | opens
  | closes (listed : List StateMarker)
  | tests
  | finishes

namespace SeekScope

/-- Whether a marker is below the directories of a pass. -/
def covers : SeekScope → StateMarker → Bool
  | .probe placement, m => m.placement = placement
  | .tree, _ => true
  | .sweep placement, m => m.placement = placement

/-- What a pass finds in the directory of a kind. -/
def contents (scope : SeekScope) (kind : StateKind) (m : StateMarker) : List StateMarker :=
  if m.kind = kind ∧ scope.covers m = true then [m] else []

end SeekScope

def SeekPass.start (scope : SeekScope) : SeekPass := ⟨scope, coreKinds, .testing [], []⟩

/-- **What a pass that counted some markers leads to.** -/
def SeekScope.conclude (jobKey : ValidJobKey) (scope : SeekScope) (found : List StateMarker) : Seek :=
  match scope with
  | .probe _ =>
    match StateTree.oneOf found
        [.lit "job ", .raw jobKey.id, .lit " has more than one state marker"] with
    | .ok none => .passing (.start .tree)
    | result => .done result
  | .tree => .done (StateTree.oneOf found
      [.lit "job ", .raw jobKey.id, .lit " has more than one state marker"])
  | .sweep placement => .done (StateTree.oneOf found
      [.lit "job ", .raw jobKey.text, .lit " has multiple markers at ", .path placement])

/-- A listing goes on while the marker is renamed. -/
def SeekPhase.moved (scope : SeekScope) (m : StateMarker) : SeekPhase → SeekPhase
  | .listing kind l => .listing kind (l.changed (scope.contents kind m))
  | .testing listed => .testing listed

namespace Seek

/-- A lookup while the marker is renamed. -/
def moved (m : StateMarker) : Seek → Seek
  | .passing p => .passing { p with phase := p.phase.moved p.scope m }
  | seek => seek

/-- **The beginning of a lookup**: an index entry is confirmed first. -/
def asked {capacity : Nat} (m : StateMarker) (memory : LookupMemory capacity) : SeekCall → Seek
  | .byId =>
    match memory.index.bind (·.get m.jobId) with
    | some entry =>
      if m.jobId ∈ memory.duplicates then .passing (.start .tree) else .confirming .byId entry
    | none => .passing (.start .tree)
  | .atPlacement =>
    match memory.index.bind (·.get m.jobId) with
    | some entry =>
      if entry.placement = m.placement then .confirming .atPlacement entry
      else .passing (.start (.sweep m.placement))
    | none => .passing (.start (.sweep m.placement))

/-- The test of the path an index entry names. -/
def confirmed (m entry : StateMarker) (call : SeekCall) : Seek :=
  if entry = m then .done (.ok (some entry))
  else
    match call with
    | .byId => .passing (.start (.probe entry.placement))
    | .atPlacement => .passing (.start (.sweep m.placement))

end Seek

namespace SeekPass

/-- The next directory is opened. -/
def opens (m : StateMarker) (p : SeekPass) : Option SeekPass :=
  match p.todo, p.phase with
  | kind :: todo, .testing [] =>
    some { p with todo, phase := .listing kind (.opened (p.scope.contents kind m)) }
  | _, _ => none

/-- The directory is closed with a report. -/
def closes (listed : List StateMarker) (p : SeekPass) : Option SeekPass :=
  match p.phase with
  | .listing _ l => if l.Reports listed then some { p with phase := .testing listed } else none
  | .testing _ => none

/-- The next listed name is tested, and counted if it is still there. -/
def tests (m : StateMarker) (p : SeekPass) : Option SeekPass :=
  match p.phase with
  | .testing (x :: listed) =>
    some { p with phase := .testing listed, found := if x = m then p.found ++ [x] else p.found }
  | _ => none

def finishes (jobKey : ValidJobKey) (p : SeekPass) : Option Seek :=
  match p.todo, p.phase with
  | [], .testing [] => some (p.scope.conclude jobKey p.found)
  | _, _ => none

end SeekPass

/-- **One step.** A rename gives the marker a new generation, and leaves its
key and its placement. -/
def seekNext {capacity : Nat} (s : SeekState) (step : SeekStep capacity) : Option SeekState :=
  match step, s.seek with
  | .moves m, seek =>
    if m.jobKey = s.marker.jobKey ∧ m.placement = s.marker.placement
        ∧ s.marker.generation < m.generation then
      some ⟨m, seek.moved m⟩
    else none
  | .asks call memory, .idle => some ⟨s.marker, .asked s.marker memory call⟩
  | .asks call memory, .done _ => some ⟨s.marker, .asked s.marker memory call⟩
  | .confirms, .confirming call entry => some ⟨s.marker, .confirmed s.marker entry call⟩
  | .opens, .passing p => (p.opens s.marker).map fun p => ⟨s.marker, .passing p⟩
  | .closes listed, .passing p => (p.closes listed).map fun p => ⟨s.marker, .passing p⟩
  | .tests, .passing p => (p.tests s.marker).map fun p => ⟨s.marker, .passing p⟩
  | .finishes, .passing p => (p.finishes s.marker.jobKey).map fun seek => ⟨s.marker, seek⟩
  | _, _ => none

/-- **The histories of a lookup and a marker**, which begins in a core kind. -/
def seekRuns (capacity : Nat) : System SeekState (SeekStep capacity) :=
  System.ofNext (fun s => s.marker.kind.isCore = true ∧ s.seek = .idle) seekNext

/-! ## The condition -/

namespace SeekPass

/-- Whether a kind has been read: it was opened, and is no longer open. -/
def read (p : SeekPass) (kind : StateKind) : Prop :=
  kind.isCore = true ∧ kind ∉ p.todo ∧ ∀ l, p.phase ≠ .listing kind l

/-- **Whether a pass admits a rename to a kind**: to one still to be read as
long as the marker is not counted, and to one read when it is. A pass through
the placement of a stale entry demands only the second. -/
def admits (p : SeekPass) (kind : StateKind) : Prop :=
  if p.found = [] then
    match p.scope with
    | .probe _ => kind.isCore = true
    | _ => kind ∈ p.todo
  else p.read kind

end SeekPass

/-- **Renames keep out of the way of a lookup**: the marker stays in the core
kinds, and during a pass it goes only where the pass admits it. -/
def RenamesAdmitted {capacity : Nat} (s : SeekState) : SeekStep capacity → Prop
  | .moves m =>
    match s.seek with
    | .passing p => p.admits m.kind
    | _ => m.kind.isCore = true
  | _ => True

/-! ## The invariant -/

namespace SeekPhase

/-- What may still be counted of a directory. -/
def names : SeekPhase → List StateMarker
  | .listing _ l => l.may
  | .testing listed => listed

/-- What will be counted of it, if it stays. -/
def sure : SeekPhase → List StateMarker
  | .listing _ l => l.must
  | .testing listed => listed

/-- What is known of a phase: the kind that is open is no more to come, its
names are of it, and names are tested once. -/
def Sound (todo : List StateKind) : SeekPhase → Prop
  | .listing kind l => kind ∉ todo ∧ (∀ x ∈ l.may, x.kind = kind) ∧ ∀ x ∈ l.must, x ∈ l.may
  | .testing listed => (∀ x ∈ listed, x.kind ∉ todo) ∧ listed.Nodup

end SeekPhase

/-- **What holds during a pass**: the marker is counted and in a kind that was
read, or it is not counted and still to be met. -/
structure SeekPass.Sound (p : SeekPass) (m : StateMarker) : Prop where
  distinct : p.todo.Nodup
  core : ∀ kind ∈ p.todo, kind.isCore = true
  phase : p.phase.Sound p.todo
  older : ∀ x ∈ p.phase.names, x.generation ≤ m.generation
  scope : (∃ placement, p.scope = .probe placement) ∨ p.scope.covers m = true
  met : p.found = [] ∧ ((∃ placement, p.scope = .probe placement) ∨ m.kind ∈ p.todo
      ∨ m ∈ p.phase.sure)
    ∨ (∃ x, p.found = [x]) ∧ p.read m.kind ∧ m ∉ p.phase.names

/-- **What holds in every state.** -/
def SeekState.Sound (s : SeekState) : Prop :=
  s.marker.kind.isCore = true ∧
    match s.seek with
    | .passing p => p.Sound s.marker
    | .done result => ∃ m, result = .ok (some m)
    | _ => True

/-! ## What a step keeps -/

namespace SeekPass

variable {scope : SeekScope}

theorem sound_start {m : StateMarker} (hcore : m.kind.isCore = true)
    (hscope : (∃ placement, scope = .probe placement) ∨ scope.covers m = true) :
    (start scope).Sound m where
  distinct := (by decide : coreKinds.Nodup)
  core _ := StateTree.mem_coreKinds.mp
  phase := ⟨fun _ h => absurd h List.not_mem_nil, List.nodup_nil⟩
  older _ h := absurd h List.not_mem_nil
  scope := hscope
  met := Or.inl ⟨rfl, Or.inr (Or.inl (StateTree.mem_coreKinds.mpr hcore))⟩

variable {kind : StateKind}

theorem mem_contents {m x : StateMarker} :
    x ∈ scope.contents kind m ↔ x = m ∧ m.kind = kind ∧ scope.covers m = true := by
  unfold SeekScope.contents
  split_ifs with h
  · simp only [List.mem_singleton, h, and_self, and_true]
  · simp only [List.not_mem_nil, false_iff, not_and]
    exact fun _ hkind hcovers => h ⟨hkind, hcovers⟩

variable {p p' : SeekPass} {m : StateMarker}

theorem Sound.opens (h : p.Sound m) (hstep : p.opens m = some p') : p'.Sound m := by
  obtain ⟨scope, todo, phase, found⟩ := p
  obtain ⟨hdistinct, hcore, -, -, hscope, hmet⟩ := h
  unfold SeekPass.opens at hstep
  split at hstep
  · rename_i kind todo htodo hphase
    obtain rfl : _ = kind :: todo := htodo
    obtain rfl : _ = SeekPhase.testing [] := hphase
    obtain rfl := Option.some.inj hstep
    obtain ⟨hkind, hdistinct⟩ := List.nodup_cons.mp hdistinct
    refine ⟨hdistinct, fun k hk => hcore k (List.mem_cons_of_mem _ hk),
      ⟨hkind, fun x hx => ?_, fun x hx => hx⟩, fun x hx => ?_, hscope, ?_⟩
    · obtain ⟨rfl, hx, -⟩ := mem_contents.mp hx
      exact hx
    · obtain ⟨rfl, -, -⟩ := mem_contents.mp hx
      exact le_rfl
    · rcases hmet with ⟨hfound, hprobe | hmem | hmem⟩ | ⟨hfound, ⟨hcore, htodo, -⟩, -⟩
      · exact Or.inl ⟨hfound, Or.inl hprobe⟩
      · refine Or.inl ⟨hfound, hscope.imp_right fun hcovers => ?_⟩
        rcases List.mem_cons.mp hmem with heq | hmem
        · exact Or.inr (mem_contents.mpr ⟨rfl, heq, hcovers⟩)
        · exact Or.inl hmem
      · exact absurd hmem List.not_mem_nil
      · have hne := List.ne_of_not_mem_cons htodo
        refine Or.inr ⟨hfound, ⟨hcore, List.not_mem_of_not_mem_cons htodo, fun l hl => hne ?_⟩,
          fun hm => hne (mem_contents.mp hm).2.1⟩
        exact (SeekPhase.listing.inj hl).1.symm
  · cases hstep

theorem Sound.closes {listed : List StateMarker} (h : p.Sound m) (hstep : p.closes listed = some p') : p'.Sound m := by
  obtain ⟨scope, todo, phase, found⟩ := p
  obtain ⟨hdistinct, hcore, hphase, holder, hscope, hmet⟩ := h
  cases phase with
  | testing _ => cases hstep
  | listing kind l =>
    obtain ⟨⟨hnodup, hmay, hmust⟩, hstep⟩ := Option.ite_none_right_eq_some.mp hstep
    obtain rfl := Option.some.inj hstep
    obtain ⟨hkind, hnames, -⟩ := hphase
    refine ⟨hdistinct, hcore, ⟨fun x hx => ?_, hnodup⟩, fun x hx => holder x (hmay x hx), hscope, ?_⟩
    · rw [hnames x (hmay x hx)]
      exact hkind
    · rcases hmet with ⟨hfound, hprobe | hmem | hmem⟩ | ⟨hfound, ⟨hcore, htodo, -⟩, hm⟩
      · exact Or.inl ⟨hfound, Or.inl hprobe⟩
      · exact Or.inl ⟨hfound, Or.inr (Or.inl hmem)⟩
      · exact Or.inl ⟨hfound, Or.inr (Or.inr (hmust m hmem))⟩
      · exact Or.inr ⟨hfound, ⟨hcore, htodo, fun _ h => nomatch h⟩, fun hx => hm (hmay m hx)⟩

theorem Sound.tests (hkind : m.kind.isCore = true) (h : p.Sound m) (hstep : p.tests m = some p') : p'.Sound m := by
  obtain ⟨scope, todo, phase, found⟩ := p
  obtain ⟨hdistinct, hcore, hphase, holder, hscope, hmet⟩ := h
  unfold SeekPass.tests at hstep
  split at hstep
  · rename_i x listed htesting
    obtain rfl : _ = SeekPhase.testing (x :: listed) := htesting
    obtain rfl := Option.some.inj hstep
    obtain ⟨hkinds, hnodup⟩ := hphase
    obtain ⟨hx, hlisted⟩ := List.nodup_cons.mp hnodup
    refine ⟨hdistinct, hcore, ⟨fun y hy => hkinds y (List.mem_cons_of_mem _ hy), hlisted⟩,
      fun y hy => holder y (List.mem_cons_of_mem _ hy), hscope, ?_⟩
    rcases hmet with ⟨hfound, hmet⟩ | ⟨hfound, hread, hm⟩
    · obtain rfl : found = [] := hfound
      by_cases hxm : x = m
      · subst hxm
        refine Or.inr ⟨⟨x, if_pos rfl⟩, ⟨hkind, hkinds x List.mem_cons_self, fun _ h => nomatch h⟩, hx⟩
      · refine Or.inl ⟨if_neg hxm, hmet.imp_right (Or.imp_right fun hmem => ?_)⟩
        exact (List.mem_cons.mp hmem).resolve_left fun heq => hxm heq.symm
    · have hxm : x ≠ m := fun heq => List.ne_of_not_mem_cons hm heq.symm
      obtain ⟨y, rfl⟩ := hfound
      exact Or.inr ⟨⟨y, if_neg hxm⟩, ⟨hread.1, hread.2.1, fun _ h => nomatch h⟩, List.not_mem_of_not_mem_cons hm⟩
  · cases hstep

theorem Sound.moved {m' : StateMarker} (h : p.Sound m)
    (hplacement : m'.placement = m.placement) (hgeneration : m.generation < m'.generation)
    (hadmits : p.admits m'.kind) :
    ({ p with phase := p.phase.moved p.scope m' } : SeekPass).Sound m' := by
  obtain ⟨scope, todo, phase, found⟩ := p
  have hcovers : scope.covers m' = scope.covers m := by
    cases scope <;> simp only [SeekScope.covers, hplacement]
  have hnew : m' ∉ phase.names := fun hx => by
    have := h.older m' hx
    omega
  have hphase : (phase.moved scope m').Sound todo ∧ (∀ x ∈ (phase.moved scope m').names,
      x ∈ phase.names ∨ x = m' ∧ ∃ l, phase = .listing m'.kind l) := by
    have hsound := h.phase
    cases phase with
    | testing listed => exact ⟨hsound, fun x hx => Or.inl hx⟩
    | listing kind l =>
      obtain ⟨hkind, hnames, hmust⟩ := hsound
      have hmay : ∀ x ∈ (l.changed (scope.contents kind m')).may, x ∈ l.may ∨ x = m' ∧ m'.kind = kind := by
        intro x hx
        refine (Listing.mem_may_changed.mp hx).imp_right fun hx => ?_
        obtain ⟨rfl, hx, -⟩ := mem_contents.mp hx
        exact ⟨rfl, hx⟩
      refine ⟨⟨hkind, fun x hx => ?_, fun x hx => ?_⟩, fun x hx => ?_⟩
      · rcases hmay x hx with hx | ⟨rfl, hx⟩
        · exact hnames x hx
        · exact hx
      · exact Listing.mem_may_changed.mpr (Or.inl (hmust x (Listing.mem_must_changed.mp hx).1))
      · refine (hmay x hx).imp_right fun ⟨hx, hkind⟩ => ⟨hx, l, ?_⟩
        rw [hkind]
  refine ⟨h.distinct, h.core, hphase.1, fun x hx => ?_, ?_, ?_⟩
  · rcases hphase.2 x hx with hx | ⟨rfl, -⟩
    · exact (h.older x hx).trans hgeneration.le
    · exact le_rfl
  · exact h.scope.imp_right hcovers.trans
  · unfold admits at hadmits
    rcases h.met with ⟨rfl, -⟩ | ⟨⟨x, rfl⟩, -⟩
    · rw [if_pos rfl] at hadmits
      refine Or.inl ⟨rfl, ?_⟩
      cases scope with
      | probe placement => exact Or.inl ⟨placement, rfl⟩
      | tree => exact Or.inr (Or.inl hadmits)
      | sweep placement => exact Or.inr (Or.inl hadmits)
    · rw [if_neg (List.cons_ne_nil _ _)] at hadmits
      obtain ⟨hcore, htodo, hclosed⟩ := hadmits
      refine Or.inr ⟨⟨x, rfl⟩, ⟨hcore, htodo, fun l hl => ?_⟩, fun hx => ?_⟩
      · cases phase with
        | testing listed => cases hl
        | listing kind l' =>
          obtain ⟨rfl, -⟩ := SeekPhase.listing.inj hl
          exact hclosed l' rfl
      · rcases hphase.2 m' hx with hx | ⟨-, l, hl⟩
        · exact hnew hx
        · exact hclosed l hl

theorem Sound.core_admitted (h : p.Sound m) (hadmits : p.admits kind) : kind.isCore = true := by
  unfold admits at hadmits
  split_ifs at hadmits
  · split at hadmits
    · exact hadmits
    · exact h.core kind hadmits
  · exact hadmits.1

end SeekPass

variable {m : StateMarker}

theorem SeekPass.Sound.finishes {p : SeekPass} {jobKey : ValidJobKey} {seek : Seek}
    (hcore : m.kind.isCore = true) (h : p.Sound m) (hstep : p.finishes jobKey = some seek) :
    SeekState.Sound ⟨m, seek⟩ := by
  obtain ⟨scope, todo, phase, found⟩ := p
  refine ⟨hcore, ?_⟩
  have hmet := h.met
  unfold SeekPass.finishes at hstep
  split at hstep
  · rename_i htodo hphase
    obtain rfl : _ = [] := htodo
    obtain rfl : _ = SeekPhase.testing [] := hphase
    obtain rfl := Option.some.inj hstep
    rcases hmet with ⟨hfound, ⟨placement, hprobe⟩ | hmem | hmem⟩ | ⟨⟨x, hfound⟩, -⟩
    · obtain rfl : _ = SeekScope.probe placement := hprobe
      obtain rfl : _ = [] := hfound
      exact SeekPass.sound_start hcore (Or.inr rfl)
    · exact absurd hmem List.not_mem_nil
    · exact absurd hmem List.not_mem_nil
    · obtain rfl : _ = [x] := hfound
      cases scope <;> exact ⟨x, rfl⟩
  · cases hstep

variable {capacity : Nat}

theorem Seek.sound_asked (memory : LookupMemory capacity) (call : SeekCall) (hcore : m.kind.isCore = true) :
    SeekState.Sound ⟨m, .asked m memory call⟩ := by
  have htree : (SeekPass.start .tree).Sound m := SeekPass.sound_start hcore (Or.inr rfl)
  have hsweep : (SeekPass.start (.sweep m.placement)).Sound m :=
    SeekPass.sound_start hcore (Or.inr (decide_eq_true rfl))
  refine ⟨hcore, ?_⟩
  unfold Seek.asked
  cases call with
  | byId =>
    cases memory.index.bind (·.get m.jobId) with
    | none => exact htree
    | some entry =>
      by_cases hduplicate : m.jobId ∈ memory.duplicates
      · simpa only [if_pos hduplicate] using htree
      · simp only [if_neg hduplicate]
  | atPlacement =>
    cases memory.index.bind (·.get m.jobId) with
    | none => exact hsweep
    | some entry =>
      by_cases hplacement : entry.placement = m.placement
      · simp only [if_pos hplacement]
      · simpa only [if_neg hplacement] using hsweep

theorem Seek.sound_confirmed (entry : StateMarker) (call : SeekCall)
    (hcore : m.kind.isCore = true) : SeekState.Sound ⟨m, .confirmed m entry call⟩ := by
  refine ⟨hcore, ?_⟩
  unfold Seek.confirmed
  by_cases hentry : entry = m
  · rw [if_pos hentry]
    exact ⟨entry, rfl⟩
  · rw [if_neg hentry]
    cases call with
    | byId => exact SeekPass.sound_start hcore (Or.inl ⟨_, rfl⟩)
    | atPlacement => exact SeekPass.sound_start hcore (Or.inr (decide_eq_true rfl))

/-- **What one step keeps.** -/
theorem sound_next {s s' : SeekState} {step : SeekStep capacity} (h : s.Sound)
    (hadmitted : RenamesAdmitted s step) (hstep : seekNext s step = some s') : s'.Sound := by
  obtain ⟨marker, seek⟩ := s
  obtain ⟨hcore, hseek⟩ := h
  cases step with
  | moves m =>
    obtain ⟨hmove, hstep⟩ := Option.ite_none_right_eq_some.mp hstep
    obtain ⟨-, hplacement, hgeneration⟩ := hmove
    obtain rfl := Option.some.inj hstep
    cases seek with
    | passing p =>
      exact ⟨hseek.core_admitted hadmitted, hseek.moved hplacement hgeneration hadmitted⟩
    | idle => exact ⟨hadmitted, trivial⟩
    | confirming call entry => exact ⟨hadmitted, trivial⟩
    | done result => exact ⟨hadmitted, hseek⟩
  | asks call memory =>
    cases seek with
    | idle | done =>
      obtain rfl := Option.some.inj hstep
      exact Seek.sound_asked memory call hcore
    | confirming | passing => cases hstep
  | confirms =>
    cases seek with
    | confirming call entry =>
      obtain rfl := Option.some.inj hstep
      exact Seek.sound_confirmed entry call hcore
    | idle | passing | done => cases hstep
  | opens =>
    cases seek with
    | passing p =>
      obtain ⟨p', hp', rfl⟩ := Option.map_eq_some_iff.mp hstep
      exact ⟨hcore, hseek.opens hp'⟩
    | idle | confirming | done => cases hstep
  | closes listed =>
    cases seek with
    | passing p =>
      obtain ⟨p', hp', rfl⟩ := Option.map_eq_some_iff.mp hstep
      exact ⟨hcore, hseek.closes hp'⟩
    | idle | confirming | done => cases hstep
  | tests =>
    cases seek with
    | passing p =>
      obtain ⟨p', hp', rfl⟩ := Option.map_eq_some_iff.mp hstep
      exact ⟨hcore, hseek.tests hcore hp'⟩
    | idle | confirming | done => cases hstep
  | finishes =>
    cases seek with
    | passing p =>
      obtain ⟨seek', hseek', rfl⟩ := Option.map_eq_some_iff.mp hstep
      exact hseek.finishes hcore hseek'
    | idle | confirming | done => cases hstep

/-- **A lookup finds the marker**, whatever the process remembers and however
its steps and the renames mix: if each rename goes to a kind still to be read
as long as the marker is not counted, and to one read once it is, the lookup
neither reports absence nor a second marker. -/
theorem lookup_found {capacity : Nat} {s : SeekState} {result : Except Exc (Option StateMarker)}
    (hs : ((seekRuns capacity).guarded RenamesAdmitted).Reachable s)
    (hresult : s.seek = .done result) : ∃ m, result = .ok (some m) := by
  have hsound : SeekState.Sound s := by
    refine System.Reachable.invariant ?_ ?_ hs
    · intro t ht
      refine ⟨ht.1, ?_⟩
      rw [ht.2]
      trivial
    · intro t a t' _ h hstep
      exact sound_next h hstep.2 hstep.1
  have hseek := hsound.2
  rw [hresult] at hseek
  exact hseek

/-! ## A marker that moves against the lookup -/

def readKind (listed : List StateMarker) : List (SeekStep 1) :=
  .opens :: .closes listed :: listed.map fun _ => .tests

def runningMarker (generation : Nat) : StateMarker :=
  { readyMarker untaggedKey with kind := .running, generation }

def retriedMarker : StateMarker := { readyMarker untaggedKey with generation := 4 }

def committingMarker : StateMarker :=
  { readyMarker untaggedKey with kind := .committing, generation := 4 }

/-- **A job is missed, and one is counted twice**: the marker goes from
`running` back to `ready` after the scan has read `ready`, and the lookup
returns nothing; it goes on from `running` to `committing` after it was
counted, and the lookup raises. -/
theorem lookup_misses :
    (∃ s, (seekRuns 1).Reachable s ∧ s.seek = .done (.ok none)) ∧
      ∃ s, (seekRuns 1).Reachable s ∧ ∃ message,
        s.seek = .done (.error ⟨.workspaceCorruption, message⟩) := by
  have hinit : (seekRuns 1).Reachable ⟨runningMarker 3, .idle⟩ := .init ⟨rfl, rfl⟩
  constructor
  · have hrun : System.follow seekNext ⟨runningMarker 3, .idle⟩
        (.asks .byId ⟨none, []⟩ :: readKind [] ++ readKind [] ++ .moves retriedMarker
          :: (List.replicate 9 (readKind [])).flatten ++ [.finishes])
        = some ⟨retriedMarker, .done (.ok none)⟩ := by
      rfl
    exact ⟨_, (System.run_of_follow hrun).reachable hinit, rfl⟩
  · have hrun : System.follow seekNext ⟨runningMarker 3, .idle⟩
        (.asks .byId ⟨none, []⟩ :: (List.replicate 3 (readKind [])).flatten
          ++ readKind [runningMarker 3] ++ .moves committingMarker :: readKind [committingMarker]
          ++ (List.replicate 6 (readKind [])).flatten ++ [.finishes])
        = some ⟨committingMarker, .done (.error ⟨.workspaceCorruption,
          [.lit "job ", .raw untaggedKey.id, .lit " has more than one state marker"]⟩)⟩ := by
      rfl
    exact ⟨_, (System.run_of_follow hrun).reachable hinit, _, rfl⟩

/-- A lookup finds the marker of a job that begins to commit ahead of it. -/
theorem lookup_found_ahead : ∃ s, ((seekRuns 1).guarded RenamesAdmitted).Reachable s
    ∧ s.marker = committingMarker ∧ ∃ result, s.seek = .done result ∧ ∃ m, result = .ok (some m) := by
  let begun : SeekPass := ⟨.sweep (runningMarker 3).placement, coreKinds.tail, .testing [], []⟩
  have hadmitted : begun.admits .committing := by
    unfold SeekPass.admits
    rw [if_pos rfl]
    decide
  have hinit : ((seekRuns 1).guarded RenamesAdmitted).Reachable ⟨runningMarker 3, .idle⟩ :=
    .init ⟨rfl, rfl⟩
  have hasked := hinit.next (.asks .atPlacement ⟨none, []⟩) trivial rfl
  have hbefore : System.follow seekNext ⟨runningMarker 3, .passing (.start begun.scope)⟩ (readKind [])
      = some ⟨runningMarker 3, .passing begun⟩ := rfl
  have hbegun := ((System.run_of_follow hbefore).guarded (by
    simp [readKind, RenamesAdmitted])).reachable hasked
  have hmoved := hbegun.next (.moves committingMarker) hadmitted rfl
  have hafter : System.follow seekNext ⟨committingMarker, .passing begun⟩
      (readKind [] ++ readKind [] ++ readKind [] ++ readKind [committingMarker]
        ++ (List.replicate 6 (readKind [])).flatten ++ [.finishes])
      = some ⟨committingMarker, .done (.ok (some committingMarker))⟩ := rfl
  have hdone := ((System.run_of_follow hafter).guarded (by
    simp [readKind, RenamesAdmitted])).reachable hmoved
  exact ⟨_, hdone, rfl, _, rfl, lookup_found hdone rfl⟩
