import HttkWorkflow.RenameVerdict

/-!
# The launch gate

A manager starts the process of an attempt before it moves the marker to
`running`, so that the running frame can name the process. What it starts is
a launcher that waits on a pipe: the manager writes one byte once the
transition has returned, and the launcher executes the command of the runner
only if it reads that byte. Whatever goes wrong before closes the write end,
in the manager or with it, and the launcher reads the end of the file.

The launches here run beside the transitions of all actors on the same
workspace (`TransitionState`), and every step of a launch may be the last one
of its manager. Only the manager has the write end, so that it closes when the
manager dies.
-/

/-! ## The pipe and the launcher -/

/-- **The pipe of a gate**: the bytes that are not read yet, and whether the write
end is open. -/
structure Gate where
  bytes : List Nat
  writeEnd : Bool
deriving DecidableEq

namespace Gate

/-- A pipe that was just made. -/
def opened : Gate := ⟨[], true⟩

/-- `os.read(gate_fd, 1)`: `none` as long as it waits. -/
def read (gate : Gate) : Option (List Nat × Gate) :=
  match gate.bytes with
  | byte :: rest => some ([byte], { gate with bytes := rest })
  | [] => if gate.writeEnd = true then none else some ([], gate)

/-- `os.write(gate_write, b"R")`. -/
def release (gate : Gate) : Gate := { gate with bytes := gate.bytes ++ [0x52] }

/-- `os.close(gate_write)`. -/
def close (gate : Gate) : Gate := { gate with writeEnd := false }

theorem mem_of_read {gate gate' : Gate} {token : List Nat} (h : gate.read = some (token, gate')) :
    token ⊆ gate.bytes ∧ gate'.bytes ⊆ gate.bytes := by
  unfold read at h
  split at h
  · rename_i byte rest hbytes
    obtain ⟨rfl, rfl⟩ := Prod.mk.inj (Option.some.inj h)
    rw [hbytes]
    exact ⟨by simp, List.subset_cons_self byte rest⟩
  · split_ifs at h
    obtain ⟨rfl, rfl⟩ := Prod.mk.inj (Option.some.inj h)
    exact ⟨List.nil_subset _, List.Subset.refl _⟩

end Gate

/-- **What a launcher comes to.** -/
inductive LauncherEnd where
  | executed (command : List PyStr)
  | exited (status : Int)
deriving DecidableEq

/-- **`main`** of the launcher. `gateFd` is `sys.argv[1]` as a number, `token`
what the read gives, and `executes` whether the command can be executed. -/
def launcherMain (argv : List PyStr) (gateFd : Option Nat) (token : Except Exc (List Nat))
    (executes : Bool) : LauncherEnd :=
  if argv.length < 4 ∨ argv[2]? ≠ some (PyStr.ofString "--") then .exited 125
  else
    match gateFd, token with
    | none, _ => .exited 125
    | some _, .error _ => .exited 125
    | some _, .ok token =>
      if token ≠ [0x52] then .exited 125
      else if argv.drop 3 = [] then .exited 125
      else if executes = true then .executed (argv.drop 3) else .exited 127

theorem launcherMain_executed {argv command : List PyStr} {gateFd : Option Nat}
    {token : Except Exc (List Nat)} {executes : Bool}
    (h : launcherMain argv gateFd token executes = .executed command) :
    token = .ok [0x52] ∧ command = argv.drop 3 := by
  unfold launcherMain at h
  split at h
  · cases h
  · split at h
    · cases h
    · cases h
    · split_ifs at h with htoken
      exact ⟨by rw [not_not.mp htoken], (LauncherEnd.executed.inj h).symm⟩

/-! ## The launches -/

/-- **One call of `_launch`**, from the process it started on. -/
structure Launch where
  /-- The transition to `running` it asks for. -/
  request : TransitionRequest
  command : List PyStr
  /-- The call of `transition`, once it is made. -/
  call : Option Nat
  /-- Whether the manager is still in it. -/
  active : Bool
  /-- Whether the byte was written. -/
  released : Bool
  gate : Gate
  /-- What the launcher has come to: `none` as long as it waits. -/
  launcher : Option LauncherEnd

def Launch.argv (launch : Launch) : List PyStr :=
  [PyStr.ofString "_launcher.py", PyStr.ofString "3", PyStr.ofString "--"] ++ launch.command

/-- **The steps of a launch** on its own. -/
inductive LaunchStep where
  /-- `transition` has returned, and the byte is written. -/
  | release
  /-- `_launch` ends: on an exception, or after the byte. -/
  | close
  | die
  /-- The launcher reads, which may fail. -/
  | read (failure : Option Exc) (executes : Bool)
  /-- The launcher is terminated. -/
  | reap

/-- **The workspace and the launches on it.** -/
structure LaunchState where
  workspace : TransitionState
  launches : Nat → Option Launch
  /-- The calls whose manager is dead. -/
  dead : List Nat

/-- **The steps.** -/
inductive LaunchLabel where
  /-- A transition of any actor goes on. -/
  | workspace (l : TransitionLabel)
  | start (n : Nat) (request : TransitionRequest) (command : List PyStr)
  /-- The manager calls `transition`. -/
  | ask (n i : Nat)
  | own (n : Nat) (step : LaunchStep)

namespace LaunchState

def setLaunch (s : LaunchState) (n : Nat) (launch : Launch) : LaunchState :=
  { s with launches := Function.update s.launches n (some launch) }

theorem setLaunch_launches (s : LaunchState) (n m : Nat) (launch : Launch) :
    (s.setLaunch n launch).launches m = if m = n then some launch else s.launches m :=
  Function.update_apply _ _ _ _

def phaseOf (s : LaunchState) (launch : Launch) : Option TransitionPhase :=
  (launch.call.bind s.workspace.calls).map TransitionCall.phase

theorem phaseOf_eq_some {s : LaunchState} {launch : Launch} {phase : TransitionPhase} : s.phaseOf launch = some phase
      ↔ ∃ i c, launch.call = some i ∧ s.workspace.calls i = some c ∧ c.phase = phase := by
  unfold phaseOf
  rw [Option.map_eq_some_iff]
  constructor
  · rintro ⟨c, hc, hphase⟩
    obtain ⟨i, hi, hc⟩ := Option.bind_eq_some_iff.mp hc
    exact ⟨i, c, hi, hc, hphase⟩
  · rintro ⟨i, c, hi, hc, hphase⟩
    exact ⟨c, Option.bind_eq_some_iff.mpr ⟨i, hi, hc⟩, hphase⟩

/-- **What a launch does on its own**, `none` where the step does not apply. -/
def launchNext (s : LaunchState) (launch : Launch) : LaunchStep → Option Launch
  | .release =>
    if launch.active = true ∧ launch.released = false
        ∧ (s.phaseOf launch).any TransitionPhase.isReturned = true then
      some { launch with released := true, gate := launch.gate.release }
    else none
  | .close =>
    -- an exception inside the call has ended it
    if launch.active = true ∧ (s.phaseOf launch).all TransitionPhase.finished = true then
      some { launch with active := false, gate := launch.gate.close }
    else none
  | .die =>
    if launch.active = true then some { launch with active := false, gate := launch.gate.close }
    else none
  | .read failure executes =>
    if launch.launcher.isSome = true then none
    else
      match failure with
      | some e =>
        some { launch with launcher := some (launcherMain launch.argv (some 3) (.error e) executes) }
      | none => launch.gate.read.map fun p =>
          { launch with
            gate := p.snd
            launcher := some (launcherMain launch.argv (some 3) (.ok p.fst) executes) }
  | .reap =>
    if launch.launcher.isSome = true then none
    else some { launch with launcher := some (.exited (-15)) }

/-- **The next state under a label.** -/
def next (workspaceId : String) (attempts : Nat) (s : LaunchState) : LaunchLabel → Option LaunchState
  | .workspace l =>
    if l.index ∈ s.dead then none
    else (s.workspace.next workspaceId attempts l).map fun w => { s with workspace := w }
  | .start n request command =>
    if s.launches n = none ∧ request.kind = .running then
      some (s.setLaunch n ⟨request, command, none, true, false, .opened, none⟩)
    else none
  | .ask n i =>
    match s.launches n with
    | some launch =>
      if launch.active = true ∧ launch.call = none then
        (s.workspace.next workspaceId attempts (.call i launch.request)).map fun w =>
          { s with workspace := w }.setLaunch n { launch with call := some i }
      else none
    | none => none
  | .own n step =>
    match s.launches n with
    | some launch =>
      (s.launchNext launch step).map fun launch' =>
        { s.setLaunch n launch' with
          dead := match step with
            | .die => launch.call.toList ++ s.dead
            | _ => s.dead }
    | none => none

end LaunchState

/-- **The launches of a workspace**: none at first. -/
def launchSystem (workspaceId : String) (attempts : Nat) : System LaunchState LaunchLabel :=
  System.ofNext
    (fun s => (transitionSystem workspaceId attempts).init s.workspace
      ∧ s.launches = (fun _ => none) ∧ s.dead = [])
    (LaunchState.next workspaceId attempts)

/-! ## The gate -/

/-- **The invariant of the gate.** -/
structure Gated (w : TransitionState) (launch : Launch) : Prop where
  running : launch.request.kind = .running
  asked : ∀ i, launch.call = some i →
    ∃ c, w.calls i = some c ∧ c.request = launch.request
  released : launch.released = true →
    ∃ i c d, launch.call = some i ∧ w.calls i = some c ∧ c.phase = .returned d
  bytes : launch.gate.bytes ≠ [] → launch.released = true
  executed : ∀ command, launch.launcher = some (.executed command) →
    launch.released = true ∧ command = launch.command

namespace Gated

variable {w w' : TransitionState} {launch launch' : Launch}

theorem goesOn (h : Gated w launch) (hgoes : GoesOn w w') : Gated w' launch where
  running := h.running
  asked i hi := by
    obtain ⟨c, hc, hrequest⟩ := h.asked i hi
    obtain ⟨c', hc', hsame, -⟩ := hgoes i c hc
    exact ⟨c', hc', hsame.trans hrequest⟩
  released hreleased := by
    obtain ⟨i, c, d, hi, hc, hphase⟩ := h.released hreleased
    obtain ⟨c', hc', -, hover⟩ := hgoes i c hc
    have hsame : c' = c := hover (by rw [hphase]; rfl)
    exact ⟨i, c', d, hi, hc', by rw [hsame, hphase]⟩
  bytes := h.bytes
  executed := h.executed

/-- **A launcher that reads** executes its command on the byte only. -/
theorem read {token : Except Exc (List Nat)} {executes : Bool} {gate : Gate}
    (h : Gated w launch) (hbytes : gate.bytes ⊆ launch.gate.bytes)
    (htoken : token = .ok [0x52] → launch.gate.bytes ≠ []) :
    Gated w { launch with
      gate := gate
      launcher := some (launcherMain launch.argv (some 3) token executes) } where
  running := h.running
  asked := h.asked
  released := h.released
  bytes hne := h.bytes fun hnil => hne (List.subset_nil.mp (hnil ▸ hbytes))
  executed command hexecuted := by
    obtain ⟨hread, hcommand⟩ := launcherMain_executed (Option.some.inj hexecuted)
    exact ⟨h.bytes (htoken hread), hcommand⟩

/-- **A launch keeps its gate.** -/
theorem own {s : LaunchState} {step : LaunchStep} (h : Gated s.workspace launch)
    (hstep : s.launchNext launch step = some launch') : Gated s.workspace launch' := by
  cases step with
  | release =>
    obtain ⟨⟨-, -, hreturned⟩, hlaunch⟩ := Option.ite_none_right_eq_some.mp hstep
    rw [← Option.some.inj hlaunch]
    obtain ⟨phase, hphase, hreturned⟩ := (Option.any_eq_true _ _).mp hreturned
    obtain ⟨i, c, hi, hc, rfl⟩ := LaunchState.phaseOf_eq_some.mp hphase
    refine ⟨h.running, h.asked, fun _ => ?_, fun _ => rfl, fun command hexecuted =>
      ⟨rfl, (h.executed command hexecuted).2⟩⟩
    cases hp : c.phase with
    | returned d => exact ⟨i, c, d, hi, hc, hp⟩
    | _ =>
      rw [hp] at hreturned
      cases hreturned
  | close =>
    obtain ⟨-, hlaunch⟩ := Option.ite_none_right_eq_some.mp hstep
    rw [← Option.some.inj hlaunch]
    exact ⟨h.running, h.asked, h.released, h.bytes, h.executed⟩
  | die =>
    obtain ⟨-, hlaunch⟩ := Option.ite_none_right_eq_some.mp hstep
    rw [← Option.some.inj hlaunch]
    exact ⟨h.running, h.asked, h.released, h.bytes, h.executed⟩
  | read failure executes =>
    obtain ⟨-, hlaunch⟩ := Option.ite_none_left_eq_some.mp hstep
    cases failure with
    | some e =>
      rw [← Option.some.inj hlaunch]
      exact h.read (List.Subset.refl _) fun htoken => by cases htoken
    | none =>
      obtain ⟨⟨token, gate⟩, hread, hlaunch⟩ := Option.map_eq_some_iff.mp hlaunch
      rw [← hlaunch]
      obtain ⟨htoken, hrest⟩ := Gate.mem_of_read hread
      refine h.read hrest fun hbyte hnil => ?_
      have hbyte : token = [0x52] := Except.ok.inj hbyte
      rw [hnil, hbyte] at htoken
      cases List.subset_nil.mp htoken
  | reap =>
    obtain ⟨-, hlaunch⟩ := Option.ite_none_left_eq_some.mp hstep
    rw [← Option.some.inj hlaunch]
    exact ⟨h.running, h.asked, h.released, h.bytes, fun command hexecuted => by
      cases Option.some.inj hexecuted⟩

end Gated

namespace LaunchState

variable {wid : String} {attempts : Nat} {s s' : LaunchState} {n : Nat} {launch launch' : Launch}

variable {a : LaunchLabel}

/-- **What a step does to a launch**: nothing but what the workspace does, or its
call, or a step of its own. -/
theorem launch_next (h : s.next wid attempts a = some s') (hlaunch : s'.launches n = some launch') :
    GoesOn s.workspace s'.workspace ∧ (s.launches n = some launch'
        ∨ (s.launches n = none ∧ ∃ request command, request.kind = .running
          ∧ launch' = ⟨request, command, none, true, false, .opened, none⟩)
        ∨ ∃ launch, s.launches n = some launch
          ∧ ((∃ i, launch.call = none ∧ launch' = { launch with call := some i } ∧ launch.active = true
              ∧ s'.workspace.calls i = some ⟨launch.request, .called⟩)
            ∨ ∃ step, s.launchNext launch step = some launch' ∧ s'.workspace = s.workspace)) := by
  have hsame : GoesOn s.workspace s.workspace := fun i c hc => ⟨c, hc, rfl, fun _ => rfl⟩
  cases a with
  | workspace l =>
    obtain ⟨-, h⟩ := Option.ite_none_left_eq_some.mp h
    obtain ⟨w, hw, rfl⟩ := Option.map_eq_some_iff.mp h
    exact ⟨fun i c hc => TransitionState.calls_next hw hc, Or.inl hlaunch⟩
  | start m request command =>
    obtain ⟨⟨hnone, hkind⟩, h⟩ := Option.ite_none_right_eq_some.mp h
    rw [← Option.some.inj h] at hlaunch ⊢
    rw [setLaunch_launches] at hlaunch
    refine ⟨hsame, ?_⟩
    split_ifs at hlaunch with hnm
    · exact Or.inr (Or.inl ⟨hnm ▸ hnone, request, command, hkind, (Option.some.inj hlaunch).symm⟩)
    · exact Or.inl hlaunch
  | ask m i =>
    rw [next] at h
    split at h
    · rename_i launch hm
      obtain ⟨⟨hactive, hcall⟩, h⟩ := Option.ite_none_right_eq_some.mp h
      obtain ⟨w, hw, rfl⟩ := Option.map_eq_some_iff.mp h
      refine ⟨fun j c hc => TransitionState.calls_next hw hc, ?_⟩
      rw [setLaunch_launches] at hlaunch
      split_ifs at hlaunch with hnm
      · refine Or.inr (Or.inr ⟨launch, hnm ▸ hm, Or.inl ⟨i, hcall, (Option.some.inj hlaunch).symm, hactive, ?_⟩⟩)
        obtain ⟨-, -, rfl⟩ := TransitionState.next_call hw
        exact Function.update_self i _ _
      · exact Or.inl hlaunch
    · cases h
  | own m step =>
    rw [next] at h
    split at h
    · rename_i launch hm
      obtain ⟨launch₁, hstep, rfl⟩ := Option.map_eq_some_iff.mp h
      refine ⟨hsame, ?_⟩
      have hlaunch : (s.setLaunch m launch₁).launches n = some launch' := hlaunch
      rw [setLaunch_launches] at hlaunch
      split_ifs at hlaunch with hnm
      · obtain rfl := Option.some.inj hlaunch
        exact Or.inr (Or.inr ⟨launch, hnm ▸ hm, Or.inr ⟨step, hstep, rfl⟩⟩)
      · exact Or.inl hlaunch
    · cases h

/-- **Every launch is gated.** -/
theorem gated_of_reachable (hs : (launchSystem wid attempts).Reachable s) :
    ∀ n launch, s.launches n = some launch → Gated s.workspace launch := by
  refine hs.invariant (I := fun s => ∀ n launch, s.launches n = some launch → Gated s.workspace launch) ?_ ?_
  · rintro s ⟨-, hnone, -⟩ n launch hlaunch
    rw [hnone] at hlaunch
    cases hlaunch
  · intro s a s' _ hgated h n launch' hlaunch
    obtain ⟨hgoes, hcases⟩ := launch_next h hlaunch
    rcases hcases with hold | ⟨-, request, command, hkind, rfl⟩ | ⟨launch, hold, hcases⟩
    · exact (hgated n launch' hold).goesOn hgoes
    · exact ⟨hkind, fun i hi => (by cases hi), fun h => (by cases h), fun h => absurd rfl h,
        fun command h => (by cases h)⟩
    · have hbefore := hgated n launch hold
      rcases hcases with ⟨i, hcall, rfl, -, hasked⟩ | ⟨step, hstep, hsame⟩
      · refine ⟨hbefore.running, fun j hj => ?_, fun hreleased => ?_, hbefore.bytes, hbefore.executed⟩
        · obtain rfl := Option.some.inj hj
          exact ⟨_, hasked, rfl⟩
        · obtain ⟨j, c, d, hj, -⟩ := hbefore.released hreleased
          rw [hcall] at hj
          cases hj
      · rw [hsame]
        exact hbefore.own hstep

theorem workspace_of_reachable (hs : (launchSystem wid attempts).Reachable s) :
    (transitionSystem wid attempts).Reachable s.workspace := by
  induction hs with
  | init h => exact System.Reachable.init h.1
  | @step s a s' hs h ih =>
    cases a with
    | workspace l =>
      obtain ⟨-, h⟩ := Option.ite_none_left_eq_some.mp h
      obtain ⟨w, hw, rfl⟩ := Option.map_eq_some_iff.mp h
      exact ih.step hw
    | start m request command =>
      obtain ⟨-, h⟩ := Option.ite_none_right_eq_some.mp h
      rw [← Option.some.inj h]
      exact ih
    | ask m i =>
      have h : s.next wid attempts (.ask m i) = some s' := h
      rw [next] at h
      split at h
      · obtain ⟨-, h⟩ := Option.ite_none_right_eq_some.mp h
        obtain ⟨w, hw, rfl⟩ := Option.map_eq_some_iff.mp h
        exact ih.step hw
      · cases h
    | own m step =>
      have h : s.next wid attempts (.own m step) = some s' := h
      rw [next] at h
      split at h
      · obtain ⟨launch, -, rfl⟩ := Option.map_eq_some_iff.mp h
        exact ih
      · cases h

/-- **A gate that stays shut**: the byte was not written, and the manager is out of
`_launch`, or its transition has raised. -/
def Shut (w : TransitionState) (launch : Launch) : Prop :=
  launch.released = false ∧ (launch.active = false
    ∨ ∃ i c error destination, launch.call = some i ∧ w.calls i = some c
      ∧ c.phase = .raised error destination)

theorem Shut.goesOn {w w' : TransitionState} (h : Shut w launch) (hgoes : GoesOn w w') : Shut w' launch := by
  refine ⟨h.1, h.2.imp_right ?_⟩
  rintro ⟨i, c, error, destination, hi, hc, hphase⟩
  obtain ⟨c', hc', -, hover⟩ := hgoes i c hc
  have hsame : c' = c := hover (by rw [hphase]; rfl)
  exact ⟨i, c', error, destination, hi, hc', by rw [hsame, hphase]⟩

theorem Shut.own {step : LaunchStep} (h : Shut s.workspace launch)
    (hstep : s.launchNext launch step = some launch') : Shut s.workspace launch' := by
  cases step with
  | release =>
    obtain ⟨⟨hactive, -, hreturned⟩, -⟩ := Option.ite_none_right_eq_some.mp hstep
    rcases h.2 with hinactive | ⟨i, c, error, destination, hi, hc, hphase⟩
    · rw [hactive] at hinactive
      cases hinactive
    · rw [phaseOf_eq_some.mpr ⟨i, c, hi, hc, hphase⟩] at hreturned
      cases hreturned
  | close =>
    obtain ⟨-, hlaunch⟩ := Option.ite_none_right_eq_some.mp hstep
    rw [← Option.some.inj hlaunch]
    exact ⟨h.1, Or.inl rfl⟩
  | die =>
    obtain ⟨-, hlaunch⟩ := Option.ite_none_right_eq_some.mp hstep
    rw [← Option.some.inj hlaunch]
    exact ⟨h.1, Or.inl rfl⟩
  | read failure executes =>
    obtain ⟨-, hlaunch⟩ := Option.ite_none_left_eq_some.mp hstep
    cases failure with
    | some e =>
      rw [← Option.some.inj hlaunch]
      exact h
    | none =>
      obtain ⟨p, -, hlaunch⟩ := Option.map_eq_some_iff.mp hlaunch
      rw [← hlaunch]
      exact h
  | reap =>
    obtain ⟨-, hlaunch⟩ := Option.ite_none_left_eq_some.mp hstep
    rw [← Option.some.inj hlaunch]
    exact h

theorem launches_next (h : s.next wid attempts a = some s')
    (hlaunch : s.launches n = some launch) : ∃ launch', s'.launches n = some launch' := by
  have hset : ∀ (s₀ : LaunchState) (m : Nat) (launch₀ : Launch), s₀.launches = s.launches →
      ∃ launch', (s₀.setLaunch m launch₀).launches n = some launch' := by
    intro s₀ m launch₀ hsame
    rw [setLaunch_launches, hsame]
    split_ifs
    · exact ⟨_, rfl⟩
    · exact ⟨_, hlaunch⟩
  cases a with
  | workspace l =>
    obtain ⟨-, h⟩ := Option.ite_none_left_eq_some.mp h
    obtain ⟨w, -, rfl⟩ := Option.map_eq_some_iff.mp h
    exact ⟨launch, hlaunch⟩
  | start m request command =>
    obtain ⟨-, h⟩ := Option.ite_none_right_eq_some.mp h
    rw [← Option.some.inj h]
    exact hset s m _ rfl
  | ask m i =>
    rw [next] at h
    split at h
    · obtain ⟨-, h⟩ := Option.ite_none_right_eq_some.mp h
      obtain ⟨w, -, rfl⟩ := Option.map_eq_some_iff.mp h
      exact hset _ m _ rfl
    · cases h
  | own m step =>
    rw [next] at h
    split at h
    · obtain ⟨launch₁, -, rfl⟩ := Option.map_eq_some_iff.mp h
      exact hset s m launch₁ rfl
    · cases h

/-- **A gate that is shut stays shut.** -/
theorem Shut.next (h : Shut s.workspace launch)
    (hlaunch : s.launches n = some launch) (hnext : s.next wid attempts a = some s') :
    ∃ launch', s'.launches n = some launch' ∧ Shut s'.workspace launch' := by
  obtain ⟨launch', hlaunch'⟩ := launches_next hnext hlaunch
  refine ⟨launch', hlaunch', ?_⟩
  obtain ⟨hgoes, hcases⟩ := launch_next hnext hlaunch'
  rcases hcases with hold | ⟨hnone, -⟩ | ⟨launch₀, hold, hcases⟩
  · obtain rfl := Option.some.inj (hlaunch.symm.trans hold)
    exact h.goesOn hgoes
  · rw [hlaunch] at hnone
    cases hnone
  · obtain rfl := Option.some.inj (hlaunch.symm.trans hold)
    rcases hcases with ⟨i, hcall, -, hactive, -⟩ | ⟨step, hstep, hsame⟩
    · rcases h.2 with hinactive | ⟨j, c, error, destination, hj, -⟩
      · rw [hactive] at hinactive
        cases hinactive
      · rw [hcall] at hj
        cases hj
    · rw [hsame]
      exact h.own hstep

/-- **The marker of an attempt was verified** in `running`: `transition` returned
it, it was in the tree, and its frame names the attempt. -/
def Verified (wid : String) (w : TransitionState) (launch : Launch) : Prop :=
  ∃ i c d, launch.call = some i ∧ w.calls i = some c ∧ c.phase = .returned d
    ∧ d ∈ w.history ∧ d.kind = .running
    ∧ ∃ k, d = launch.request.destination (.frame k)
      ∧ w.journal[k]? = some (launch.request.frame wid)

theorem verified_of_released (hs : (launchSystem wid attempts).Reachable s)
    (hlaunch : s.launches n = some launch) (hreleased : launch.released = true) :
    Verified wid s.workspace launch := by
  have hgated := gated_of_reachable hs n launch hlaunch
  have hworkspace := workspace_of_reachable hs
  obtain ⟨i, c, d, hi, hc, hphase⟩ := hgated.released hreleased
  have hrequest : c.request = launch.request := by
    obtain ⟨c', hc', hrequest⟩ := hgated.asked i hi
    rw [← hrequest, Option.some.inj (hc.symm.trans hc')]
  obtain ⟨k, hd, hframe⟩ :=
    (transitionSystem_coherent hworkspace).prepared i c d hc (by rw [hphase]; rfl)
  rw [hrequest] at hd hframe
  refine ⟨i, c, d, hi, hc, hphase, TransitionState.published_of_reachable hworkspace i c d hc hphase, ?_, k, hd, hframe⟩
  rw [hd]
  exact hgated.running

/-- **The gate is safe**: a command is executed only once the marker that names its
attempt was verified in `running`, and it is never executed where the
transition raised or the manager was gone before the byte was written. -/
theorem gate_safety (hs : (launchSystem wid attempts).Reachable s) :
    (∀ a s' n launch launch' command, s.next wid attempts a = some s' →
        s.launches n = some launch → s'.launches n = some launch' → launch.launcher = none →
        launch'.launcher = some (.executed command) →
        Verified wid s.workspace launch ∧ command = launch.command)
      ∧ ∀ n launch, s.launches n = some launch → Shut s.workspace launch →
        ∀ as s', (launchSystem wid attempts).Run s as s' →
        ∃ launch', s'.launches n = some launch'
          ∧ ∀ command, launch'.launcher ≠ some (.executed command) := by
  constructor
  · intro a s' n launch launch' command hnext hlaunch hlaunch' hwaits hexecuted
    have hgated' := gated_of_reachable (hs.step hnext) n launch' hlaunch'
    obtain ⟨hreleased, hcommand⟩ := hgated'.executed command hexecuted
    obtain ⟨-, hcases⟩ := launch_next hnext hlaunch'
    rcases hcases with hold | ⟨hnone, -⟩ | ⟨launch₀, hold, hcases⟩
    · rw [Option.some.inj (hold.symm.trans hlaunch), hwaits] at hexecuted
      cases hexecuted
    · rw [hlaunch] at hnone
      cases hnone
    · obtain rfl := Option.some.inj (hlaunch.symm.trans hold)
      rcases hcases with ⟨i, -, rfl, -⟩ | ⟨step, hstep, -⟩
      · rw [hwaits] at hexecuted
        cases hexecuted
      · -- the step that executes is the read, and it changes nothing else
        cases step with
        | read failure executes =>
          obtain ⟨-, hstep⟩ := Option.ite_none_left_eq_some.mp hstep
          cases failure with
          | some e =>
            rw [← Option.some.inj hstep] at hreleased hcommand
            exact ⟨verified_of_released hs hlaunch hreleased, hcommand⟩
          | none =>
            obtain ⟨p, -, hstep⟩ := Option.map_eq_some_iff.mp hstep
            rw [← hstep] at hreleased hcommand
            exact ⟨verified_of_released hs hlaunch hreleased, hcommand⟩
        | release =>
          obtain ⟨-, hstep⟩ := Option.ite_none_right_eq_some.mp hstep
          rw [← Option.some.inj hstep, hwaits] at hexecuted
          cases hexecuted
        | close =>
          obtain ⟨-, hstep⟩ := Option.ite_none_right_eq_some.mp hstep
          rw [← Option.some.inj hstep, hwaits] at hexecuted
          cases hexecuted
        | die =>
          obtain ⟨-, hstep⟩ := Option.ite_none_right_eq_some.mp hstep
          rw [← Option.some.inj hstep, hwaits] at hexecuted
          cases hexecuted
        | reap =>
          obtain ⟨-, hstep⟩ := Option.ite_none_left_eq_some.mp hstep
          rw [← Option.some.inj hstep] at hexecuted
          cases Option.some.inj hexecuted
  · intro n launch hlaunch hshut as s' hrun
    have hfinal : ∃ launch', s'.launches n = some launch' ∧ Shut s'.workspace launch' := by
      induction hrun generalizing launch with
      | nil s => exact ⟨launch, hlaunch, hshut⟩
      | cons hnext _ ih =>
        obtain ⟨launch₁, hlaunch₁, hshut₁⟩ := hshut.next hlaunch hnext
        exact ih (hs.step hnext) launch₁ hlaunch₁ hshut₁
    obtain ⟨launch', hlaunch', hshut'⟩ := hfinal
    refine ⟨launch', hlaunch', fun command hexecuted => ?_⟩
    have hgated := gated_of_reachable (hrun.reachable hs) n launch' hlaunch'
    exact absurd hshut'.1 (by simp [(hgated.executed command hexecuted).1])

/-! ## A launch that succeeds -/

def launchAfterClaim : TransitionRequest where
  marker := TransitionState.claimAfterRegistration.destination (.frame 1)
  kind := .running
  updates := .empty
  priority := none
  allowSealed := false

def undisturbedCall (i : Nat) : List LaunchLabel :=
  [.workspace (.prepare i none), .workspace (.rename i true), .workspace (.look i)]

def releasedSteps : List LaunchLabel :=
  .workspace (.call 0 TransitionState.registration) :: undisturbedCall 0
    ++ .workspace (.call 1 TransitionState.claimAfterRegistration) :: undisturbedCall 1
    ++ .start 0 launchAfterClaim [PyStr.ofString "run"] :: .ask 0 2 :: undisturbedCall 2
    ++ [.own 0 .release]

/-- The launcher then executes the command, and the marker was verified. -/
theorem gate_safety_launched :
    ∃ s s' launch launch', (launchSystem "w" 8).Reachable s
      ∧ s.next "w" 8 (.own 0 (.read none true)) = some s'
      ∧ s.launches 0 = some launch ∧ s'.launches 0 = some launch'
      ∧ launch'.launcher = some (.executed [PyStr.ofString "run"])
      ∧ Verified "w" s.workspace launch := by
  obtain ⟨s, hs⟩ : ∃ s, System.follow (next "w" 8)
      ⟨TransitionState.oneSubmitted, fun _ => none, []⟩ releasedSteps = some s := ⟨_, rfl⟩
  have hreach : (launchSystem "w" 8).Reachable s := (System.run_of_follow hs).reachable
    (System.Reachable.init ⟨TransitionState.oneSubmitted_init, rfl, rfl⟩)
  obtain ⟨s', launch, launch', hnext, hlaunch, hlaunch', hwaits, hexecuted⟩ :
      ∃ s' launch launch', s.next "w" 8 (.own 0 (.read none true)) = some s'
        ∧ s.launches 0 = some launch ∧ s'.launches 0 = some launch' ∧ launch.launcher = none
        ∧ launch'.launcher = some (.executed [PyStr.ofString "run"]) := by
    obtain rfl := Option.some.inj hs
    exact ⟨_, _, _, rfl, rfl, rfl, rfl, rfl⟩
  exact ⟨s, s', launch, launch', hreach, hnext, hlaunch, hlaunch', hexecuted,
    ((gate_safety hreach).1 _ _ 0 _ _ _ hnext hlaunch hlaunch' hwaits hexecuted).1⟩

/-! ## Two launches -/

/-- **A launch has the call it had**, or makes it. -/
theorem call_next {i : Nat} (h : s.next wid attempts a = some s') (hlaunch : s'.launches n = some launch')
    (hcall : launch'.call = some i) :
    (∃ launch, s.launches n = some launch ∧ launch.call = some i) ∨ (a = .ask n i ∧ s.workspace.calls i = none) := by
  cases a with
  | workspace l =>
    obtain ⟨-, h⟩ := Option.ite_none_left_eq_some.mp h
    obtain ⟨w, -, rfl⟩ := Option.map_eq_some_iff.mp h
    exact Or.inl ⟨launch', hlaunch, hcall⟩
  | start m request command =>
    obtain ⟨-, h⟩ := Option.ite_none_right_eq_some.mp h
    rw [← Option.some.inj h, setLaunch_launches] at hlaunch
    split_ifs at hlaunch
    · rw [← Option.some.inj hlaunch] at hcall
      cases hcall
    · exact Or.inl ⟨launch', hlaunch, hcall⟩
  | ask m j =>
    rw [next] at h
    split at h
    · obtain ⟨-, h⟩ := Option.ite_none_right_eq_some.mp h
      obtain ⟨w, hw, rfl⟩ := Option.map_eq_some_iff.mp h
      rw [setLaunch_launches] at hlaunch
      split_ifs at hlaunch with hnm
      · rw [← Option.some.inj hlaunch] at hcall
        rw [hnm, ← Option.some.inj hcall]
        exact Or.inr ⟨rfl, (TransitionState.next_call hw).1⟩
      · exact Or.inl ⟨launch', hlaunch, hcall⟩
    · cases h
  | own m step =>
    rw [next] at h
    split at h
    · rename_i launch hm
      obtain ⟨launch₁, hstep, rfl⟩ := Option.map_eq_some_iff.mp h
      have hlaunch : (s.setLaunch m launch₁).launches n = some launch' := hlaunch
      rw [setLaunch_launches] at hlaunch
      split_ifs at hlaunch with hnm
      · obtain rfl := Option.some.inj hlaunch
        refine Or.inl ⟨launch, hnm ▸ hm, hcall ▸ ?_⟩
        -- no step of a launch on its own is its call
        cases step with
        | read failure executes =>
          obtain ⟨-, hstep⟩ := Option.ite_none_left_eq_some.mp hstep
          cases failure with
          | some e => rw [← Option.some.inj hstep]
          | none =>
            obtain ⟨p, -, hstep⟩ := Option.map_eq_some_iff.mp hstep
            rw [← hstep]
        | reap => rw [← Option.some.inj (Option.ite_none_left_eq_some.mp hstep).2]
        | _ => rw [← Option.some.inj (Option.ite_none_right_eq_some.mp hstep).2]
      · exact Or.inl ⟨launch', hlaunch, hcall⟩
    · cases h

theorem call_unique (hs : (launchSystem wid attempts).Reachable s) : ∀ n m launch launch' i,
    s.launches n = some launch → s.launches m = some launch' → launch.call = some i → launch'.call = some i →
    n = m := by
  induction hs with
  | init hinit =>
    intro n m launch launch' i hn
    rw [hinit.2.1] at hn
    cases hn
  | step hs hnext ih =>
    intro n m launch launch' i hn hm hcall hcall'
    rcases call_next hnext hn hcall with ⟨l, hn, hcall⟩ | ⟨ha, hnone⟩ <;>
      rcases call_next hnext hm hcall' with ⟨l', hm, hcall'⟩ | ⟨ha', hnone'⟩
    · exact ih n m l l' i hn hm hcall hcall'
    · obtain ⟨c, hc, -⟩ := (gated_of_reachable hs n l hn).asked i hcall
      cases hc.symm.trans hnone'
    · obtain ⟨c, hc, -⟩ := (gated_of_reachable hs m l' hm).asked i hcall'
      cases hc.symm.trans hnone
    · cases ha.symm.trans ha'
      rfl

/-- **Of the launches from one claimed marker one executes its command at most**, whichever managers make them:
while one was released, no other is. -/
theorem launches_exclusive {m : Nat} (hs : (launchSystem wid attempts).Reachable s)
    (hn : s.launches n = some launch) (hm : s.launches m = some launch') (hother : m ≠ n)
    (hsame : launch'.request.marker = launch.request.marker) (hreleased : launch.released = true) :
    launch'.released = false ∧ ∀ command, launch'.launcher ≠ some (.executed command) := by
  have hgated := gated_of_reachable hs n launch hn
  have hgated' := gated_of_reachable hs m launch' hm
  suffices hnot : ¬launch'.released = true from
    ⟨Bool.eq_false_iff.mpr hnot, fun command hexecuted => hnot (hgated'.executed command hexecuted).1⟩
  intro hreleased'
  obtain ⟨i, c, d, hi, hc, hd⟩ := hgated.released hreleased
  obtain ⟨j, c', d', hj, hc', hd'⟩ := hgated'.released hreleased'
  obtain ⟨c₀, hc₀, hrequest⟩ := hgated.asked i hi
  obtain ⟨c₁, hc₁, hrequest'⟩ := hgated'.asked j hj
  obtain rfl := Option.some.inj (hc.symm.trans hc₀)
  obtain rfl := Option.some.inj (hc'.symm.trans hc₁)
  have hij : j = i := TransitionState.returned_unique (workspace_of_reachable hs) hc' hc hd' hd
    (by rw [hrequest, hrequest', hsame])
  exact hother (call_unique hs m n launch' launch i hm hn (hij ▸ hj) hi)

/-- Another launch of the attempt that runs already. -/
theorem launches_exclusive_second : ∃ s launch', (launchSystem "w" 8).Reachable s ∧ s.launches 1 = some launch'
    ∧ launch'.call = some 3 ∧ launch'.released = false := by
  obtain ⟨s, hs⟩ : ∃ s, System.follow (next "w" 8) ⟨TransitionState.oneSubmitted, fun _ => none, []⟩
      (releasedSteps ++ [.start 1 launchAfterClaim ["run"], .ask 1 3]) = some s := ⟨_, rfl⟩
  have hreach : (launchSystem "w" 8).Reachable s := (System.run_of_follow hs).reachable
    (System.Reachable.init ⟨TransitionState.oneSubmitted_init, rfl, rfl⟩)
  obtain rfl := Option.some.inj hs
  exact ⟨_, _, hreach, rfl, rfl, (launches_exclusive hreach (n := 0) (m := 1) rfl rfl (by decide) rfl rfl).1⟩

end LaunchState
