import Mathlib.Data.List.Basic
import HttkWorkflow.PyValue

/-!
# The names of CWL sources

A loaded CWL document names everything by an absolute identifier: the file, a `#`, and
the path of names that leads from the outermost workflow to the thing. A workflow that
is inlined in a step lies below that step's name and the word `run`. The plan names a
source by the last one or two of these names: `step/port` for the output of a step, the
bare name for an input of the workflow.

Which of the two it is, `_source_name` reads off the identifier alone: if the last name
but one is the name of a step of this workflow, the source is taken for an output of
that step. For an output that is always right. For an input the last name but one is not
of this workflow – it is the last name of the path the workflow itself lies at – and
where a step of the workflow bears that name, the input becomes an output of the step.

So the sources of a workflow are named as the document means them exactly if the
workflow has no inputs, or no step of it is called as the last name of its own path
(`sources_resolved`); for an inlined workflow without an identifier of its own, that
name is `run`.
-/

/-- **A name in a CWL document**: not empty, and without the slash that separates names. -/
structure CwlName where
  /-- The name. -/
  text : PyStr
  nonempty : text.codes ≠ []
  plain : '/'.toNat ∉ text.codes
deriving DecidableEq

/-- **The file an identifier begins with**, in which a `#` would be escaped. -/
structure CwlFile where
  /-- The URI. -/
  text : PyStr
  plain : '#'.toNat ∉ text.codes

/-- `"/".join(names)`. -/
def joinNames (names : List PyStr) : PyStr := ⟨List.intercalate ['/'.toNat] (names.map PyStr.codes)⟩

/-- `text.partition("#")[2]`. -/
def fragmentOf (text : PyStr) : PyStr := ⟨(text.codes.dropWhile (· != '#'.toNat)).tail⟩

/-- `PurePosixPath(text).name`. -/
def posixName (text : PyStr) : PyStr :=
  ((text.split '/').filter fun part => part.codes ≠ [] ∧ part ≠ PyStr.ofString ".").getLastD ⟨[]⟩

/-- **`_name`**: the short name of an identifier. -/
def cwlName (text : PyStr) : PyStr :=
  let fragment := if (fragmentOf text).codes = [] then text else fragmentOf text
  (fragment.split '/').getLastD ⟨[]⟩

/-- **`_source_name`** of an identifier, in a workflow with these step names. -/
def sourceName (text : PyStr) (steps : List PyStr) : PyStr :=
  let fragment := if (fragmentOf text).codes = [] then posixName text else fragmentOf text
  let parts := fragment.split '/'
  match parts.reverse with
  | last :: before :: _ => if before ∈ steps then joinNames [before, last] else last
  | [last] => last
  | [] => ⟨[]⟩

/-! ## Documents -/

mutual

/-- **What a step runs**: a tool, a workflow inlined in the step, with or without a name of its own
below it, or a workflow that is read from a file, at a path in it. -/
inductive CwlRun where
  | tool
  | inlined (id : Option CwlName) (workflow : CwlWorkflow)
  | referenced (file : CwlFile) (path : List CwlName) (workflow : CwlWorkflow)

/-- **A workflow**: the names of its inputs, and its steps. -/
inductive CwlWorkflow where
  | mk (inputs : List CwlName) (steps : CwlSteps)

/-- **The steps of a workflow**, each with its name and what it runs. -/
inductive CwlSteps where
  | nil
  | cons (name : CwlName) (run : CwlRun) (rest : CwlSteps)

end

/-- The word below a step at which what is inlined there lies. -/
def runName : CwlName := ⟨"run", by decide, by decide⟩

/-- **A workflow where it lies**: the file and the path of its identifier, its inputs, and the names of
its steps. -/
structure CwlScope where
  file : CwlFile
  path : List CwlName
  inputs : List CwlName
  steps : List CwlName

def CwlSteps.names : CwlSteps → List CwlName
  | .nil => []
  | .cons name _ rest => name :: rest.names

mutual

/-- **The workflows of a document**, however deep they are nested: this one, and those its steps run. -/
def CwlWorkflow.scopes (file : CwlFile) (path : List CwlName) : CwlWorkflow → List CwlScope
  | .mk inputs steps => ⟨file, path, inputs, steps.names⟩ :: steps.scopes file path

def CwlSteps.scopes (file : CwlFile) (path : List CwlName) : CwlSteps → List CwlScope
  | .nil => []
  | .cons name run rest => run.scopes file (path ++ [name]) ++ rest.scopes file path

def CwlRun.scopes (file : CwlFile) (path : List CwlName) : CwlRun → List CwlScope
  | .tool => []
  | .inlined id workflow => workflow.scopes file (path ++ runName :: id.toList)
  | .referenced file path workflow => workflow.scopes file path

end

/-- **A source**, as the document means it. -/
inductive CwlSource where
  | input (name : CwlName)
  | port (step name : CwlName)
deriving DecidableEq

namespace CwlScope

variable (scope : CwlScope)

/-- The identifier of something in the workflow. -/
def identifier (names : List CwlName) : PyStr :=
  ⟨scope.file.text.codes ++ '#'.toNat :: (joinNames ((scope.path ++ names).map CwlName.text)).codes⟩

def sourceId : CwlSource → PyStr
  | .input name => scope.identifier [name]
  | .port step name => scope.identifier [step, name]

/-- **A source of the workflow**: one of its inputs, or a port of one of its steps. -/
def Has : CwlSource → Prop
  | .input name => name ∈ scope.inputs
  | .port step _ => step ∈ scope.steps

/-- `[_name(entry.get("id", "")) for entry in declared]`. -/
def stepNames : List PyStr := scope.steps.map fun step => cwlName (scope.identifier [step])

/-- The sources of one connection or one output, as `_normalize_step` and `_normalize_workflow` have
them. -/
def normalizedSources (sources : List CwlSource) : List PyStr :=
  sources.map fun source => sourceName (scope.sourceId source) scope.stepNames

end CwlScope

/-- **What the plan is to call a source.** -/
def CwlSource.planName : CwlSource → PyStr
  | .input name => name.text
  | .port step name => joinNames [step.text, name.text]

/-- **The sources of a workflow are resolved**: every list of them is normalized to their names in the
plan, and different sources keep different names. -/
def CwlScope.Resolved (scope : CwlScope) : Prop :=
  (∀ sources : List CwlSource, (∀ source ∈ sources, scope.Has source) →
    scope.normalizedSources sources = sources.map CwlSource.planName)
  ∧ ∀ source other, scope.Has source → scope.Has other →
    scope.normalizedSources [source] = scope.normalizedSources [other] → source = other

/-! ## Identifiers read back -/

theorem split_joinNames {names : List CwlName} (hne : names ≠ []) :
    (joinNames (names.map CwlName.text)).split '/' = names.map CwlName.text := by
  have hplain : ∀ codes ∈ (names.map CwlName.text).map PyStr.codes, '/'.toNat ∉ codes := by
    intro codes hcodes
    obtain ⟨text, htext, rfl⟩ := List.mem_map.mp hcodes
    obtain ⟨name, -, rfl⟩ := List.mem_map.mp htext
    exact name.plain
  have hcodes : (names.map CwlName.text).map PyStr.codes ≠ [] := by simpa using hne
  show (List.splitOn '/'.toNat (List.intercalate ['/'.toNat] ((names.map CwlName.text).map PyStr.codes))).map
    PyStr.mk = _
  rw [List.splitOn_intercalate _ hplain hcodes, List.map_map]
  exact List.map_id _

theorem joinNames_ne_nil {names : List CwlName} (hne : names ≠ []) :
    (joinNames (names.map CwlName.text)).codes ≠ [] := by
  intro h
  have hsplit := split_joinNames hne
  cases names with
  | nil => exact hne rfl
  | cons name names =>
    have hempty : joinNames ((name :: names).map CwlName.text) = ⟨[]⟩ := by
      cases hjoin : joinNames ((name :: names).map CwlName.text)
      rw [hjoin] at h
      exact congrArg PyStr.mk h
    rw [hempty] at hsplit
    have hhead : (⟨[]⟩ : PyStr) = name.text := (List.cons.inj hsplit).1
    exact name.nonempty (congrArg PyStr.codes hhead).symm

variable (scope : CwlScope)

theorem fragmentOf_identifier (names : List CwlName) :
    fragmentOf (scope.identifier names) = joinNames ((scope.path ++ names).map CwlName.text) := by
  have hfile : ∀ c ∈ scope.file.text.codes, (c != '#'.toNat) = true := fun c hc =>
    bne_iff_ne.mpr fun heq => scope.file.plain (heq ▸ hc)
  unfold fragmentOf CwlScope.identifier
  rw [List.dropWhile_append_of_pos hfile, List.dropWhile_cons_of_neg (by simp)]
  rfl

/-- **The names of an identifier** are the names of its path. -/
theorem split_fragment {names : List CwlName} (hne : names ≠ []) : (fragmentOf (scope.identifier names)).codes ≠ []
      ∧ (fragmentOf (scope.identifier names)).split '/' = (scope.path ++ names).map CwlName.text := by
  rw [fragmentOf_identifier]
  have hne : scope.path ++ names ≠ [] := by simp [hne]
  exact ⟨joinNames_ne_nil hne, split_joinNames hne⟩

theorem cwlName_identifier (name : CwlName) : cwlName (scope.identifier [name]) = name.text := by
  obtain ⟨hne, hsplit⟩ := split_fragment scope (List.cons_ne_nil name [])
  unfold cwlName
  simp only [if_neg hne, hsplit]
  rw [List.map_append]
  simp

theorem stepNames_eq : scope.stepNames = scope.steps.map CwlName.text :=
  List.map_congr_left fun step _ => cwlName_identifier scope step

theorem CwlName.text_injective : Function.Injective CwlName.text := by
  rintro ⟨a, _, _⟩ ⟨b, _, _⟩ h
  obtain rfl : a = b := h
  rfl

variable {name : CwlName}

theorem mem_stepNames : name.text ∈ scope.stepNames ↔ name ∈ scope.steps := by
  rw [stepNames_eq, List.mem_map_of_injective CwlName.text_injective]

theorem sourceName_two {names : List CwlName} {before last : CwlName} {init : List CwlName}
    (hne : names ≠ []) (hnames : scope.path ++ names = init ++ [before, last]) (steps : List PyStr) :
    sourceName (scope.identifier names) steps
      = if before.text ∈ steps then joinNames [before.text, last.text] else last.text := by
  obtain ⟨hfragment, hsplit⟩ := split_fragment scope hne
  unfold sourceName
  simp only [if_neg hfragment, hsplit, hnames]
  simp

theorem sourceName_one (hpath : scope.path = []) (steps : List PyStr) :
    sourceName (scope.identifier [name]) steps = name.text := by
  obtain ⟨hfragment, hsplit⟩ := split_fragment scope (List.cons_ne_nil name [])
  unfold sourceName
  simp only [if_neg hfragment, hsplit, hpath]
  simp

/-! ## What a source becomes -/

theorem sourceName_port {step name : CwlName} (hstep : step ∈ scope.steps) :
    sourceName (scope.sourceId (.port step name)) scope.stepNames = joinNames [step.text, name.text] := by
  rw [CwlScope.sourceId, sourceName_two scope (List.cons_ne_nil _ _) rfl, if_pos ((mem_stepNames scope).mpr hstep)]

theorem sourceName_input (name : CwlName) :
    sourceName (scope.sourceId (.input name)) scope.stepNames
      = match scope.path.getLast? with
        | some own => if own ∈ scope.steps then joinNames [own.text, name.text] else name.text
        | none => name.text := by
  rw [CwlScope.sourceId]
  rcases List.eq_nil_or_concat scope.path with hpath | ⟨init, own, hpath⟩
  · rw [sourceName_one scope hpath, hpath]
    rfl
  · have hnames : scope.path ++ [name] = init ++ [own, name] := by
      rw [hpath, List.concat_eq_append, List.append_assoc]
      rfl
    rw [sourceName_two scope (List.cons_ne_nil _ _) hnames, hpath, List.concat_eq_append,
      List.getLast?_concat]
    simp only [mem_stepNames]

theorem slash_mem_joinNames (a b : PyStr) : '/'.toNat ∈ (joinNames [a, b]).codes := by
  unfold joinNames
  simp [List.intercalate]

theorem CwlSource.planName_injective : Function.Injective CwlSource.planName := by
  have hne : ∀ name step port : CwlName, name.text ≠ joinNames [step.text, port.text] := by
    intro name step port h
    have hslash := slash_mem_joinNames step.text port.text
    rw [← h] at hslash
    exact name.plain hslash
  intro source other h
  cases source with
  | input name =>
    cases other with
    | input name' => rw [CwlName.text_injective h]
    | port step' name' => exact absurd h (hne name step' name')
  | port step name =>
    cases other with
    | input name' => exact absurd h.symm (hne name' step name)
    | port step' name' =>
      have hsplit := congrArg (PyStr.split · '/') h
      have hpair : ∀ a b : CwlName, (joinNames [a.text, b.text]).split '/' = [a.text, b.text] := fun a b =>
        split_joinNames (List.cons_ne_nil a [b])
      have hnames : [step.text, name.text] = [step'.text, name'.text] :=
        (hpair step name).symm.trans (hsplit.trans (hpair step' name'))
      obtain ⟨hstep, hname⟩ := List.cons.inj hnames
      rw [CwlName.text_injective hstep, CwlName.text_injective (List.cons.inj hname).1]

theorem resolved_iff : scope.Resolved ↔ scope.inputs = [] ∨ ∀ own ∈ scope.path.getLast?, own ∉ scope.steps := by
  constructor
  · rintro ⟨hnames, -⟩
    refine or_iff_not_imp_left.mpr fun hinputs own hown hstep => ?_
    obtain ⟨name, hname⟩ := List.exists_mem_of_ne_nil _ hinputs
    have hone := hnames [.input name] (fun source hsource => by
      rw [List.mem_singleton.mp hsource]
      exact hname)
    have hone : sourceName (scope.sourceId (.input name)) scope.stepNames = name.text := (List.cons.inj hone).1
    have hown : scope.path.getLast? = some own := hown
    rw [sourceName_input, hown] at hone
    simp only [if_pos hstep] at hone
    exact name.plain (hone ▸ slash_mem_joinNames own.text name.text)
  · intro h
    have hall : ∀ source, scope.Has source →
        sourceName (scope.sourceId source) scope.stepNames = source.planName := by
      intro source hsource
      cases source with
      | port step name => exact sourceName_port scope hsource
      | input name =>
        rw [sourceName_input]
        rcases h with hinputs | hpath
        · exact absurd hsource (by rw [CwlScope.Has, hinputs]; exact List.not_mem_nil)
        · split
          · rename_i own hown
            rw [if_neg (hpath own hown)]
            rfl
          · rfl
    refine ⟨fun sources hsources => List.map_congr_left fun source hsource => hall source (hsources source hsource),
      fun source other hsource hother heq => CwlSource.planName_injective ?_⟩
    rw [← hall source hsource, ← hall other hother]
    exact (List.cons.inj heq).1

/-- **The data flow of a plan is the document's**, in every workflow of a document, however deep it is
nested, if and only if each of them has no inputs or no step that is called as the last name of the
workflow's own path. -/
theorem sources_resolved (file : CwlFile) (path : List CwlName) (workflow : CwlWorkflow) :
    (∀ scope ∈ workflow.scopes file path, scope.Resolved)
      ↔ ∀ scope ∈ workflow.scopes file path,
        scope.inputs = [] ∨ ∀ own ∈ scope.path.getLast?, own ∉ scope.steps :=
  forall₂_congr fun scope _ => resolved_iff scope

def plainCwlName (text : String) (h : (PyStr.ofString text).codes ≠ [])
    (h' : '/'.toNat ∉ (PyStr.ofString text).codes) : CwlName := ⟨PyStr.ofString text, h, h'⟩

/-- **A workflow with a step called `run`**, inlined in a step of another one. -/
def nestedRun : CwlWorkflow :=
  .mk [] (.cons (plainCwlName "outer" (by decide) (by decide))
    (.inlined none (.mk [plainCwlName "message" (by decide) (by decide)] (.cons runName .tool .nil))) .nil)

/-- Its input `message` becomes the port `message` of the step `run`. -/
theorem nestedRun_misread :
    ¬∀ (file : CwlFile) (path : List CwlName) (workflow : CwlWorkflow),
      ∀ scope ∈ workflow.scopes file path, scope.Resolved := by
  intro h
  have hfile : '#'.toNat ∉ (PyStr.ofString "w.cwl").codes := by decide
  have hscope : (⟨⟨"w.cwl", hfile⟩, [plainCwlName "outer" (by decide) (by decide), runName],
      [plainCwlName "message" (by decide) (by decide)], [runName]⟩ : CwlScope)
      ∈ nestedRun.scopes ⟨"w.cwl", hfile⟩ [] := by
    refine List.mem_cons_of_mem _ (List.mem_append_left _ ?_)
    exact List.mem_cons_self
  rcases (resolved_iff _).mp (h _ _ _ _ hscope) with hinputs | hown
  · cases hinputs
  · exact hown runName rfl List.mem_cons_self
