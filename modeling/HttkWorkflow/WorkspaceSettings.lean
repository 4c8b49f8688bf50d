import HttkWorkflow.ChildLabels

/-!
# Workspace settings and the environment of a runner

A setting of the workspace reaches a runner twice. The context of the attempt
holds all of them as they are. And the manager puts every setting that is a
string or a number into the runner's environment as a text, under a name in
which case is lost and dots are underscores. `Attempt.setting` looks into the
environment first.

So a number comes back as a text. Where two settings have one variable, both
come back as the first of them; the workspace refuses to store such a pair,
but reads one. And a setting may be named like a variable of the manager. A
setting that is defined nowhere else comes back as it is, whatever the others
are, exactly if its variable is not exported, or what is found there is the
setting's own text and the setting is a text (`setting_faithful_iff`).
-/

namespace Dict

variable {κ β : Type} [DecidableEq κ]

/-- `d.setdefault(key, value)`. -/
def setdefault (d : Dict κ β) (key : κ) (value : β) : Dict κ β :=
  match d.get key with
  | some _ => d
  | none => d.set key value

theorem get_setdefault (d : Dict κ β) (key key' : κ) (value : β) :
    (d.setdefault key value).get key' = (d.get key').or (if key' = key then some value else none) := by
  unfold setdefault
  split
  · rename_i old hold
    split_ifs with h
    · rw [h, hold]
      rfl
    · exact Option.or_none.symm
  · rename_i hnone
    rw [get_set]
    split_ifs with h
    · rw [h, hnone]
      rfl
    · exact Option.or_none.symm

theorem get_update (d : Dict κ β) (entries : List (κ × β)) (key : κ) :
    (d.update entries).get key = (Dict.get (Dict.update [] entries) key).or (d.get key) := by
  induction entries using List.reverseRecOn with
  | nil => rfl
  | append_singleton entries e ih =>
    have hconcat : ∀ d : Dict κ β, d.update (entries ++ [e]) = (d.update entries).set e.fst e.snd :=
      fun d => List.foldl_concat ..
    rw [hconcat, hconcat, get_set, get_set, ih]
    split_ifs
    · rfl
    · rfl

end Dict

/-! ## Names and texts -/

/-- **What Python makes of texts and numbers**: `str.upper`, and `str` of a float. -/
structure SettingTexts where
  upper : PyStr → PyStr
  floatText : PyFloat → PyStr

/-- `str` of an integer. -/
def intText (n : ℤ) : PyStr := if n < 0 then ⟨hyphen :: (PyStr.decimal n.natAbs).codes⟩ else PyStr.decimal n.natAbs

/-- `[A-Za-z_]`. -/
def isNameHead (c : ℕ) : Bool := (0x41 ≤ c && c ≤ 0x5A) || (0x61 ≤ c && c ≤ 0x7A) || c == 0x5F

/-- `[A-Za-z0-9_]`. -/
def isNameTail (c : ℕ) : Bool := isNameHead c || (0x30 ≤ c && c ≤ 0x39)

/-- `[A-Za-z_][A-Za-z0-9_]*`. -/
def isVariable (text : PyStr) : Bool :=
  match text.codes with
  | [] => false
  | c :: rest => isNameHead c && rest.all isNameTail

/-- The settings of a workspace, by name. -/
abbrev Settings := Dict PyStr Json

section Settings

variable (env : SettingTexts)

/-- **`environment_variable_name`** and `_setting_variable_name`. -/
def settingVariable (key : PyStr) : PyStr :=
  ⟨(PyStr.ofString "HTTK_").codes ++ (env.upper key).codes.map fun c => if c = '.'.toNat then '_'.toNat else c⟩

/-- `str(value)` of a string or a number; a boolean is none. -/
def scalarText : Json → Option PyStr
  | .str text => some text
  | .int n => some (intText n)
  | .float x => some (env.floatText x)
  | _ => none

variable {env} {settings : Settings}

/-! ## What the manager exports -/

section Export

variable (env)

/-- **The variables the declared environment consumes.** -/
def consumedVariables (declared : Json) : List PyStr :=
  match declared with
  | .obj members => members.filterMap fun entry =>
    match entry.snd with
    | .obj metadata =>
      match Json.get metadata "setting" with
      | none => some (settingVariable env entry.fst)
      | some (.str setting) => some (settingVariable env setting)
      | some _ => none
    | _ => none
  | _ => []

/-- `variable.startswith("HTTK_WORKFLOW_")`. -/
def isReserved (target : PyStr) : Bool := (PyStr.ofString "HTTK_WORKFLOW_").codes.isPrefixOf target.codes

/-- Whether a variable is exported for the settings that have it. -/
def isExported (consumed : List PyStr) (target : PyStr) : Bool :=
  target ∉ consumed && isVariable target && !isReserved target

/-- **One setting**, put into the environment of a runner. -/
def exportSetting (consumed : List PyStr) (settings : Settings) (environment : Dict PyStr PyStr) (key : PyStr) :
    Dict PyStr PyStr :=
  match (settings.get key).bind (scalarText env) with
  | none => environment
  | some text =>
    if isExported consumed (settingVariable env key) then environment.setdefault (settingVariable env key) text
    else environment

/-- `sorted(settings)`. -/
def sortedKeys (settings : Settings) : List PyStr := (settings.map Prod.fst).mergeSort fun a b => decide (a ≤ b)

/-- **The variables of the manager**: those it sets before the settings, and those it sets after them. -/
structure LaunchVariables where
  context : PyStr
  controlDir : PyStr
  workspaceDir : PyStr
  jobDir : PyStr
  workdir : PyStr
  isRestart : PyStr
  uncleanRestart : PyStr
  durable : PyStr
  attemptReason : PyStr
  step : PyStr
  python : PyStr
  bashApi : PyStr
  perlApi : PyStr
  vaspBashApi : PyStr
  /-- Of a job with transactional data. -/
  dataDir : Option PyStr
  /-- Of a job whose runner is not in its payload. -/
  runnerRoot : Option PyStr
  runnerArtifacts : Option PyStr

/-- What is set before the settings. -/
def LaunchVariables.before (launch : LaunchVariables) : Dict PyStr PyStr :=
  let values : List (String × PyStr) :=
    [("HTTK_WORKFLOW_CONTEXT", launch.context), ("HTTK_WORKFLOW_CONTROL_DIR", launch.controlDir),
      ("HTTK_WORKFLOW_WORKSPACE_DIR", launch.workspaceDir), ("HTTK_WORKFLOW_JOB_DIR", launch.jobDir),
      ("HTTK_WORKFLOW_WORKDIR", launch.workdir), ("HTTK_WORKFLOW_IS_RESTART", launch.isRestart),
      ("HTTK_WORKFLOW_UNCLEAN_RESTART", launch.uncleanRestart), ("HTTK_WORKFLOW_DURABLE", launch.durable),
      ("HTTK_WORKFLOW_ATTEMPT_REASON", launch.attemptReason), ("HTTK_WORKFLOW_STEP", launch.step),
      ("HTTK_WORKFLOW_PYTHON", launch.python), ("HTTK_WORKFLOW_BASH_API", launch.bashApi),
      ("HTTK_WORKFLOW_PERL_API", launch.perlApi), ("HTTK_WORKFLOW_VASP_BASH_API", launch.vaspBashApi)]
    ++ launch.dataDir.toList.map fun directory => ("HTTK_WORKFLOW_DATA_DIR", directory)
  values.map fun e => (PyStr.ofString e.fst, e.snd)

/-- What is set after the settings. -/
def LaunchVariables.after (launch : LaunchVariables) : Dict PyStr PyStr :=
  (launch.runnerRoot.toList.map fun root => (PyStr.ofString "HTTK_WORKFLOW_RUNNER_ROOT", root))
  ++ launch.runnerArtifacts.toList.map fun artifacts => (PyStr.ofString "HTTK_WORKFLOW_RUNNER_ARTIFACTS", artifacts)

/-- **The environment of an attempt**, of the one the manager inherited. -/
def attemptEnvironment (inherited : Dict PyStr PyStr) (launch : LaunchVariables) (declared : Json)
    (settings : Settings) : Dict PyStr PyStr :=
  let environment := inherited.without
    ["HTTK_WORKFLOW_RUNNER_ARTIFACTS", "HTTK_WORKFLOW_RUNNER_ROOT"]
  let environment := Dict.update environment launch.before
  let consumed := consumedVariables env declared
  let environment := (sortedKeys settings).foldl (exportSetting env consumed settings) environment
  Dict.update environment launch.after

/-- **`Attempt.setting`**: the parameters of the job, the environment, the settings of the context, the default. -/
def attemptSetting (parameters : Dict PyStr Json) (environment : Dict PyStr PyStr) (settings : Settings)
    (name : PyStr) (default : Json) : Json :=
  match parameters.get name with
  | some value => value
  | none =>
    match environment.get (settingVariable env name) with
    | some text => .str text
    | none => (settings.get name).getD default

/-- **An attempt**, without the settings of its workspace. -/
structure AttemptInputs where
  inherited : Dict PyStr PyStr
  launch : LaunchVariables
  declared : Json
  parameters : Dict PyStr Json

/-- **What `Attempt.setting` returns** in the environment that the manager makes. -/
def AttemptInputs.setting (inputs : AttemptInputs) (settings : Settings) (name : PyStr) (default : Json) : Json :=
  attemptSetting env inputs.parameters
    (attemptEnvironment env inputs.inherited inputs.launch inputs.declared settings) settings name default

/-- **A name that only the workspace defines**: no parameter, and its variable is not inherited. -/
structure AttemptInputs.DefinesOnly (inputs : AttemptInputs) (name : PyStr) : Prop where
  parameter : inputs.parameters.get name = none
  environment : inputs.inherited.get (settingVariable env name) = none

/-- What the manager sets a variable to. -/
def LaunchVariables.get (launch : LaunchVariables) (target : PyStr) : Option PyStr :=
  (Dict.get (Dict.update [] launch.after) target).or (Dict.get (Dict.update [] launch.before) target)

/-- **The first text under a variable**: of the settings that have it and are a string or a number, the first by
name. -/
def firstText (settings : Settings) (target : PyStr) : Option PyStr :=
  (sortedKeys settings).findSome? fun key =>
    if settingVariable env key = target then (settings.get key).bind (scalarText env) else none

/-- **A setting that comes back as it is**: the manager has its variable for itself, with that text; or the variable
is not exported; or nothing is under it, or the setting is the text that is. -/
def AttemptInputs.Faithful (inputs : AttemptInputs) (settings : Settings) (name : PyStr) (value : Json) : Prop :=
  match inputs.launch.get (settingVariable env name) with
  | some text => value = .str text
  | none =>
    isExported (consumedVariables env inputs.declared) (settingVariable env name) = true →
      ∀ text ∈ firstText env settings (settingVariable env name), value = .str text

end Export

/-! ## What comes back -/

section Setting

variable {name : PyStr} {value : Json}

theorem get_exportSetting (consumed : List PyStr) (environment : Dict PyStr PyStr) (key target : PyStr) :
    (exportSetting env consumed settings environment key).get target = (environment.get target).or
      (if isExported consumed target = true then
        if settingVariable env key = target then (settings.get key).bind (scalarText env) else none
      else none) := by
  unfold exportSetting
  by_cases htarget : settingVariable env key = target
  · subst htarget
    rw [if_pos rfl]
    cases (settings.get key).bind (scalarText env) with
    | none => rw [ite_self, Option.or_none]
    | some text =>
      dsimp only
      split_ifs
      · rw [Dict.get_setdefault, if_pos rfl]
      · exact Option.or_none.symm
  · rw [if_neg htarget, ite_self, Option.or_none]
    split
    · rfl
    · split_ifs
      · rw [Dict.get_setdefault, if_neg (Ne.symm htarget), Option.or_none]
      · rfl

theorem get_foldl_exportSetting (consumed : List PyStr) (keys : List PyStr) (environment : Dict PyStr PyStr)
    (target : PyStr) :
    (keys.foldl (exportSetting env consumed settings) environment).get target = (environment.get target).or
      (if isExported consumed target = true then
        keys.findSome? fun key =>
          if settingVariable env key = target then (settings.get key).bind (scalarText env) else none
      else none) := by
  induction keys generalizing environment with
  | nil => rw [List.findSome?_nil, ite_self, Option.or_none]; rfl
  | cons key keys ih =>
    rw [List.foldl_cons, ih, get_exportSetting, Option.or_assoc]
    congr 1
    split_ifs
    · rw [List.findSome?_cons, if_pos ‹_›]
      split
      · rename_i h; rw [h]; rfl
      · rename_i h; rw [h]; rfl
    · rw [List.findSome?_cons, if_neg ‹_›]
      rfl
    · rfl

theorem get_attemptEnvironment (inputs : AttemptInputs) (h : inputs.DefinesOnly env name) :
    (attemptEnvironment env inputs.inherited inputs.launch inputs.declared settings).get (settingVariable env name)
      = (inputs.launch.get (settingVariable env name)).or
        (if isExported (consumedVariables env inputs.declared) (settingVariable env name) = true then
          firstText env settings (settingVariable env name)
        else none) := by
  have hbefore : ∀ dropped, (Dict.update (inputs.inherited.without dropped) inputs.launch.before).get
      (settingVariable env name) = Dict.get (Dict.update [] inputs.launch.before) (settingVariable env name) := by
    intro dropped
    rw [Dict.get_update, Dict.get_without, h.environment, ite_self, Option.or_none]
  unfold attemptEnvironment LaunchVariables.get
  dsimp only
  rw [Dict.get_update, get_foldl_exportSetting, hbefore, Option.or_assoc]
  rfl

theorem setting_eq_iff (inputs : AttemptInputs) (h : inputs.DefinesOnly env name)
    (hvalue : settings.get name = some value) (default : Json) :
    inputs.setting env settings name default = value ↔ inputs.Faithful env settings name value := by
  unfold AttemptInputs.setting attemptSetting AttemptInputs.Faithful
  rw [h.parameter, get_attemptEnvironment inputs h]
  dsimp only
  cases inputs.launch.get (settingVariable env name) with
  | some text => exact eq_comm
  | none =>
    rw [Option.none_or]
    split_ifs with hexported
    · cases firstText env settings (settingVariable env name) with
      | none => simp [hvalue]
      | some text => simp [eq_comm, hexported]
    · simp [hvalue, hexported]

def asciiTexts : SettingTexts where
  upper text := ⟨text.codes.map fun c => if 0x61 ≤ c ∧ c ≤ 0x7A then c - 0x20 else c⟩
  floatText _ := "1.0"

def plainVariables : LaunchVariables := ⟨"context", "control", "workspace", "job", "run", "0", "0", "1", "claim",
  "start", "python", "bash", "perl", "vasp", none, none, none⟩

def plainInputs : AttemptInputs := ⟨[], plainVariables, .obj [], []⟩

theorem plainInputs_definesOnly (name : PyStr) : plainInputs.DefinesOnly asciiTexts name := ⟨rfl, rfl⟩

/-- **Settings do not leak into each other**: of two workspaces that agree in one setting, defined nowhere else, that
setting comes back as it is in both, exactly if it is faithful in both. -/
theorem setting_faithful_iff (inputs : AttemptInputs) (h : inputs.DefinesOnly env name) {settings' : Settings}
    (hvalue : settings.get name = some value) (hvalue' : settings'.get name = some value) (default : Json) :
    (inputs.setting env settings name default = value
        ∧ inputs.setting env settings' name default = inputs.setting env settings name default)
      ↔ inputs.Faithful env settings name value ∧ inputs.Faithful env settings' name value := by
  rw [← setting_eq_iff inputs h hvalue default, ← setting_eq_iff inputs h hvalue' default]
  refine and_congr_right fun hsame => ?_
  rw [hsame]

/-- The command of a workspace, beside another setting and without. -/
theorem setting_faithful_iff_command :
    (plainInputs.setting asciiTexts [("vasp.command", .str "vasp")] "vasp.command" .null = .str "vasp"
        ∧ plainInputs.setting asciiTexts [("solver.cores", .int 4), ("vasp.command", .str "vasp")] "vasp.command" .null
          = plainInputs.setting asciiTexts [("vasp.command", .str "vasp")] "vasp.command" .null)
      ↔ plainInputs.Faithful asciiTexts [("vasp.command", .str "vasp")] "vasp.command" (.str "vasp")
        ∧ plainInputs.Faithful asciiTexts [("solver.cores", .int 4), ("vasp.command", .str "vasp")] "vasp.command"
          (.str "vasp") :=
  setting_faithful_iff plainInputs (plainInputs_definesOnly _) rfl rfl .null

/-- **A number comes back as a text**, a setting as another one of the same variable, and a setting as the step. -/
theorem settings_leak : (∀ name, plainInputs.DefinesOnly asciiTexts name)
    ∧ (plainInputs.setting asciiTexts [("solver.cores", .int 4)] "solver.cores" .null = .str "4"
      ∧ plainInputs.setting asciiTexts [("a.b", .str "x"), ("a_b", .str "y")] "a_b" .null = .str "x"
      ∧ plainInputs.setting asciiTexts [("a_b", .str "y")] "a_b" .null = .str "y"
      ∧ plainInputs.setting asciiTexts [("workflow.step", .str "y")] "workflow.step" .null = .str "start") := by
  have hfound : ∀ (settings : Settings) (name text : PyStr),
      (attemptEnvironment asciiTexts [] plainVariables (.obj []) settings).get (settingVariable asciiTexts name)
        = some text → plainInputs.setting asciiTexts settings name .null = .str text := by
    intro settings name text hget
    show attemptSetting _ _ _ _ _ _ = _
    unfold attemptSetting
    rw [show plainInputs.parameters.get name = none from rfl]
    dsimp only [plainInputs]
    rw [hget]
  refine ⟨plainInputs_definesOnly, hfound _ _ _ ?_, hfound _ _ _ ?_, hfound _ _ _ ?_, hfound _ _ _ ?_⟩
  · decide +kernel
  · have hsorted : sortedKeys [("a.b", .str "x"), ("a_b", .str "y")] = ["a.b", "a_b"] :=
      List.mergeSort_of_pairwise (by decide +kernel)
    unfold attemptEnvironment
    rw [hsorted]
    decide +kernel
  · decide +kernel
  · decide +kernel

end Setting

end Settings
