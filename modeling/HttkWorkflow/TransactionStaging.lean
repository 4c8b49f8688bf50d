import HttkWorkflow.AttemptDraft
import HttkWorkflow.ChildLabels
import HttkWorkflow.CrashTriples
import HttkWorkflow.JobCursors
import HttkWorkflow.ReplayOperations

/-!
# What a builder seals, and what replay asks of it

A `TransactionBuilder` stages one operation a call and seals them into the
manifest that `replay_transaction` validates before its first effect. Both
sides know the rules of a transaction: identifiers are labels and no two are
the same, paths are relative and none lies above another. The builder keeps
them with a list of operations and a list of targets, replay with one pass
over the manifest.

The first half of the agreement holds after any calls, also after calls that
raised: what is sealed passes the validation, and each of its operations is
decoded. The second half, that a call which raises leaves the builder as it
was, does not hold. `_operation` notes the target, and only then does a put
look at its source and copy it; a put that fails there leaves a target that
no operation has, and the target stays taken.

What a source is found to be, and what copying it comes to, is given with the
call (`StagingFiles`), and so is what writing and reading the manifest comes to.
-/

/-- The name of an operation in a manifest. -/
def InstallKind.text : InstallKind → String
  | .putFile => "put-file"
  | .putTree => "put-tree"
  | .replaceTree => "replace-tree"

/-- **`PurePosixPath`** of a relative text, as its parts. -/
def purePath (text : PyStr) : List PyStr :=
  (text.split '/').filter fun t => t.codes ≠ [] ∧ t ≠ "."

/-- `as_posix`. -/
def posixText (path : List PyStr) : PyStr := PyStr.join "/" path

/-! ## Paths read back -/

/-- **A path that a builder takes**: its parts are names, and none is reserved. -/
def StagedPath (path : List PyStr) : Prop :=
  path ≠ [] ∧ ∀ part ∈ path, part ∉ runnerUnsafePathComponents ∧ 0 ∉ part.codes ∧ '/'.toNat ∉ part.codes

section StagedPath

variable {path : List PyStr} (h : StagedPath path)
include h

theorem StagedPath.plain : ∀ part ∈ path, '/'.toNat ∉ part.codes := fun part hpart => (h.2 part hpart).2.2

theorem StagedPath.no_empty : (⟨[]⟩ : PyStr) ∉ path := fun hmem => (h.2 _ hmem).1 (by decide)

theorem StagedPath.split_posixText : (posixText path).split '/' = path := PyStr.split_join h.plain h.1

theorem StagedPath.filter_parts : path.filter (fun t => t.codes ≠ [] ∧ t ≠ PyStr.ofString ".") = path :=
  PyStr.filter_parts h.no_empty fun hdot => (h.2 _ hdot).1 (by decide)

theorem purePath_posixText : purePath (posixText path) = path := by
  unfold purePath
  rw [h.split_posixText, h.filter_parts]

theorem relativePath_posixText (name : String) : relativePath (some (.str (posixText path))) name = .ok path := by
  obtain ⟨hnonempty, hhead⟩ : (posixText path).codes ≠ [] ∧ (posixText path).codes.head? ≠ some '/'.toNat :=
    PyStr.head_join h.plain h.1 h.no_empty
  have hup : PyStr.ofString ".." ∉ path := fun hmem => (h.2 _ hmem).1 (by decide)
  have hnul : path.any (·.codes.contains 0) = false := by
    rw [List.any_eq_false]
    intro part hpart hcontains
    exact (h.2 part hpart).2.1 (List.contains_iff_mem.mp hcontains)
  unfold relativePath
  simp only [h.split_posixText, h.filter_parts]
  rw [if_neg hnonempty, if_neg (not_or.mpr ⟨hhead, hup⟩), hnul]
  rfl

end StagedPath

theorem stagedPath_of_relativeTarget {value : PyStr} {name : String} {path : List PyStr}
    (h : relativeTarget value name = .ok path) : StagedPath path := by
  unfold relativeTarget at h
  dsimp only at h
  split_ifs at h with hempty hunsafe
  · cases h
  · cases h
  obtain rfl := Except.ok.inj h
  refine ⟨fun hnil => hempty (Or.inr hnil), fun part hpart => ?_⟩
  have hsafe := hunsafe
  simp only [List.any_eq_true, Bool.or_eq_true, decide_eq_true_eq, not_exists, not_and, not_or] at hsafe
  obtain ⟨hname, hnul⟩ := hsafe part hpart
  refine ⟨hname, fun hmem => hnul (List.contains_iff_mem.mpr hmem), ?_⟩
  obtain ⟨codes, hcodes, rfl⟩ := List.mem_map.mp (List.mem_filter.mp hpart).1
  exact separator_not_mem hcodes

theorem label_name {id : PyStr} (h : isLabel id = true) :
    id ∉ runnerUnsafePathComponents ∧ ∀ c ∈ id.codes, isLabelTail c = true := by
  obtain ⟨codes⟩ := id
  cases codes with
  | nil => cases h
  | cons c rest =>
    simp only [isLabel, Bool.and_eq_true] at h
    obtain ⟨⟨⟨hhead, htail⟩, -⟩, -⟩ := h
    constructor
    · intro hmem
      have hreserved : ∀ name ∈ runnerUnsafePathComponents, (name.codes.head?.all fun c => !isLabelHead c) = true := by
        decide
      have hnot := hreserved _ hmem
      simp [hhead] at hnot
    · intro x hx
      rcases List.mem_cons.mp hx with rfl | hx
      · simp [isLabelTail, hhead]
      · exact List.all_eq_true.mp htail x hx

theorem stagedPath_payload {id : PyStr} (h : isLabel id = true) : StagedPath ["payload", id] := by
  obtain ⟨hname, hcodes⟩ := label_name h
  refine ⟨List.cons_ne_nil _ _, fun part hpart => ?_⟩
  rcases List.mem_cons.mp hpart with rfl | hpart
  · decide
  · obtain rfl := List.mem_singleton.mp hpart
    refine ⟨hname, fun hmem => ?_, fun hmem => ?_⟩
    · exact absurd (hcodes _ hmem) (by decide)
    · exact absurd (hcodes _ hmem) (by decide)

namespace RuntimeBuilders

/-! ## The builder -/

/-- **An operation of a manifest.** -/
inductive ManifestOperation where
  | makeDir (id : PyStr) (path : List PyStr)
  | staged (operation : StagedOperation)

namespace ManifestOperation

def id : ManifestOperation → PyStr
  | makeDir id _ => id
  | staged operation => operation.id

def path : ManifestOperation → List PyStr
  | makeDir _ path | staged (.install _ _ path _) | staged (.remove _ path _) => path

/-- Whether its target is noted. -/
def tracked : ManifestOperation → Bool
  | makeDir _ _ => false
  | staged _ => true

/-- The place of a staged payload, `payload/` and the id. -/
def payloadText (id : PyStr) : PyStr := "payload/" ++ id

/-- **The object** in the manifest. -/
def mapping : ManifestOperation → List (PyStr × Json)
  | makeDir id path => [("id", .str id), ("op", .str "make-dir"), ("path", .str (posixText path))]
  | staged (.install id kind path sha256) =>
    [("id", .str id), ("op", .str (PyStr.ofString kind.text)), ("path", .str (posixText path)),
      ("source", .str (payloadText id)), ("sha256", .str sha256)]
  | staged (.remove id path missingOk) =>
    [("id", .str id), ("op", .str "remove"), ("path", .str (posixText path)),
      ("missing_ok", .bool missingOk)]

end ManifestOperation

/-- **A sealed manifest.** -/
structure SealedManifest where
  id : PyStr
  expectedGeneration : ℤ
  operations : List ManifestOperation

/-- The object that is written. -/
def SealedManifest.mapping (manifest : SealedManifest) : List (PyStr × Json) :=
  [("format", .str "httk-workflow-transaction"), ("format_version", .int 2),
    ("id", .str manifest.id), ("expected_data_generation", .int manifest.expectedGeneration),
    ("operations", .arr (manifest.operations.map fun o => .obj o.mapping))]

/-- **`TransactionBuilder`**, with the `manifest.json` below its root. -/
structure TransactionBuilder where
  expectedGeneration : ℤ
  operations : List ManifestOperation
  targets : List (List PyStr)
  manifest : Option SealedManifest

/-- A builder on which nothing has been called. -/
def TransactionBuilder.start (generation : ℤ) : TransactionBuilder := ⟨generation, [], [], none⟩

/-- **What the file system does in one call**: what the source is found to be, what is copied, with its
digest, and what writing or reading the manifest comes to. A manifest that raises may be in place. -/
structure StagingFiles where
  sourceIsFile : Bool := true
  sourceIsDirectory : Bool := true
  irregular : Option PyStr := none
  copy : Except Exc PyStr := .ok ⟨[]⟩
  write : Option (Exc × Bool) := none
  read : Option Exc := none

/-- A call, or a part of it. -/
abbrev BuilderStep (α : Type) := Effects TransactionBuilder SdkError α

/-- **The checks of `_operation`**, which come to the target. -/
def TransactionBuilder.accept (b : TransactionBuilder) (id path : PyStr) (trackTarget : Bool) :
    Except SdkError (List PyStr) := do
  let identifier ← checked (validateLabel (some (.str id)) "transaction operation id")
  if (b.operations.any fun existing => decide (existing.id = identifier)) = true then
    raiseValue [.lit "duplicate transaction operation id: ", .raw identifier]
  else do
    let target ← relativeTarget path "transaction target"
    if trackTarget = true then
      match b.targets.find? fun existing => pathsOverlap existing target with
      | some existing => raiseValue [.lit "transaction paths overlap: ", .path existing, .lit " and ", .path target]
      | none => .ok target
    else .ok target

/-- **`_operation`**: the target is noted although the call may fail later. -/
def transactionOperation (id path : PyStr) (trackTarget : Bool) : BuilderStep (List PyStr) := do
  let b ← Effects.current
  let target ← Effects.ofExcept (b.accept id path trackTarget)
  if trackTarget = true then Effects.emit (fun b => { b with targets := b.targets ++ [target] }) target
  else pure target

/-- `self._operations.append(item)`. -/
def appendOperation (operation : ManifestOperation) : BuilderStep Unit :=
  Effects.emit (fun b => { b with operations := b.operations ++ [operation] }) ()

/-- What `put_file` takes from its source: the digest of the copy. -/
def putFileSource (files : StagingFiles) (source : PyStr) : Except SdkError PyStr :=
  if files.sourceIsFile = false then raiseValue [.lit "put-file source must be a regular file: ", .raw source]
  else checked files.copy

/-- **`_copy_tree`**, and the digest of the copy. -/
def copyTree (files : StagingFiles) (source : PyStr) : Except SdkError PyStr :=
  if files.sourceIsDirectory = false then raiseValue [.lit "tree source is not a regular directory: ", .raw source]
  else match files.irregular with
    | some child => raiseValue [.lit "tree contains a symlink or special file: ", .raw child]
    | none => checked files.copy

/-- An installation: the source comes after the target is noted. -/
def install (id path : PyStr) (kind : InstallKind) (source : Except SdkError PyStr) : BuilderStep Unit := do
  let target ← transactionOperation id path true
  let sha256 ← Effects.ofExcept source
  appendOperation (.staged (.install id kind target sha256))

def makeDir (id path : PyStr) : BuilderStep Unit := do
  let target ← transactionOperation id path false
  appendOperation (.makeDir id target)

def putFile (files : StagingFiles) (id source path : PyStr) : BuilderStep Unit :=
  install id path .putFile (putFileSource files source)

def putTree (files : StagingFiles) (id source path : PyStr) (replace : Bool) : BuilderStep Unit :=
  install id path (if replace = true then .replaceTree else .putTree) (copyTree files source)

def remove (id path : PyStr) (missingOk : Bool) : BuilderStep Unit := do
  let target ← transactionOperation id path true
  appendOperation (.staged (.remove id target missingOk))

/-- **`seal`**, under a new identity. -/
def sealManifest (files : StagingFiles) (manifestId : PyStr) : BuilderStep Unit := do
  let b ← Effects.current
  let manifest : SealedManifest := ⟨manifestId, b.expectedGeneration, b.operations⟩
  match files.write with
  | none => Effects.emit (fun b => { b with manifest := some manifest }) ()
  | some (exception, written) =>
    if written = true then do
      Effects.emit (fun b => { b with manifest := some manifest }) ()
      Effects.raise (.exception exception)
    else Effects.raise (.exception exception)

/-- **`resume`**: the builder that another process makes of a sealed manifest. -/
def resume (files : StagingFiles) (generation : ℤ) : BuilderStep Unit := do
  let b ← Effects.current
  Effects.ofExcept (fileOperation files.read)
  match b.manifest with
  | none => Effects.raise (.exception ⟨.formatError, [.lit "cannot read JSON object ", .lit "manifest.json"]⟩)
  | some manifest => do
    if manifest.expectedGeneration ≠ generation then
      Effects.ofExcept (raiseValue [.lit "transaction expected_data_generation does not match the attempt context"])
    else
      Effects.emit (fun b =>
        { b with
          expectedGeneration := generation
          operations := manifest.operations
          targets := (manifest.operations.filter ManifestOperation.tracked).map fun o =>
            purePath (posixText o.path) }) ()

/-- **The calls on a builder.** -/
inductive BuilderCall where
  | makeDir (id path : PyStr)
  | putFile (id source path : PyStr)
  | putTree (id source path : PyStr) (replace : Bool)
  | remove (id path : PyStr) (missingOk : Bool)
  | sealManifest (manifestId : PyStr)
  | resume (generation : ℤ)

/-- **A call.** -/
def BuilderCall.run (files : StagingFiles) : BuilderCall → BuilderStep Unit
  | .makeDir id path => RuntimeBuilders.makeDir id path
  | .putFile id source path => RuntimeBuilders.putFile files id source path
  | .putTree id source path replace => RuntimeBuilders.putTree files id source path replace
  | .remove id path missingOk => RuntimeBuilders.remove id path missingOk
  | .sealManifest manifestId => RuntimeBuilders.sealManifest files manifestId
  | .resume generation => RuntimeBuilders.resume files generation

/-- **Calls one after the other**, on with what each leaves, whether it returned or raised. -/
def runCalls : List (StagingFiles × BuilderCall) → TransactionBuilder → TransactionBuilder
  | [], b => b
  | (files, call) :: rest, b => runCalls rest ((call.run files).final b)

end RuntimeBuilders

/-! ## The validation of a manifest -/

theorem firstOverlap_eq_none {paths : List (List PyStr)} (h : paths.Pairwise fun left right => ¬Overlap left right) :
    firstOverlap paths = none := by
  induction h with
  | nil => rfl
  | @cons left rest hleft _ ih =>
    have hfind : rest.find? (fun right => Overlap left right) = none :=
      List.find?_eq_none.mpr fun right hright hoverlap => hleft right hright (of_decide_eq_true hoverlap)
    unfold firstOverlap
    rw [hfind]
    exact ih

namespace RuntimeBuilders

/-! ## What is staged -/

/-- **What a builder knows of an operation.** -/
structure ManifestOperation.Staged (o : ManifestOperation) : Prop where
  label : isLabel o.id = true
  path : StagedPath o.path

section Staged

variable {o : ManifestOperation} (h : o.Staged)
include h

theorem ManifestOperation.Staged.id_eq :
    validateLabel (Json.get o.mapping "id") "transaction operation id" = .ok o.id := by
  have hid : Json.get o.mapping "id" = some (.str o.id) := by
    rcases o with _ | ⟨_ | _⟩ <;> rfl
  rw [hid]
  exact validateLabel_eq_ok.mpr ⟨h.label, rfl⟩

theorem ManifestOperation.Staged.path_eq :
    relativePath (Json.get o.mapping "path") "transaction operation path" = .ok o.path := by
  have hpath : Json.get o.mapping "path" = some (.str (posixText o.path)) := by
    rcases o with _ | ⟨_ | _⟩ <;> rfl
  rw [hpath]
  exact relativePath_posixText h.path _

theorem ManifestOperation.Staged.source_eq (name : String) :
    relativePath (some (.str (payloadText o.id))) name = .ok ["payload", o.id] := by
  have htext : payloadText o.id = posixText ["payload", o.id] := by
    refine congrArg PyStr.mk ?_
    show (PyStr.ofString "payload/").codes ++ o.id.codes = _
    rw [List.map_cons, List.map_cons, List.map_nil, List.intercalate_cons_of_ne_nil (List.cons_ne_nil _ _),
      List.intercalate_singleton]
    rfl
  rw [htext]
  exact relativePath_posixText (stagedPath_payload h.label) name

theorem ManifestOperation.Staged.decoded : (decodeOperation o.mapping).isOk = true := by
  have hid := h.id_eq
  have hpath := h.path_eq
  have hsource := h.source_eq
  unfold decodeOperation
  rw [hid, hpath]
  rcases o with _ | ⟨_, kind, _, _⟩ | _
  · rfl
  · cases kind with
    | putFile =>
      show (relativePath (some (.str (payloadText _))) "put-file source" >>= fun _ => _).isOk = true
      exact (hsource _).symm ▸ rfl
    | putTree =>
      show (relativePath (some (.str (payloadText _))) "put-tree source" >>= fun _ => _).isOk = true
      exact (hsource _).symm ▸ rfl
    | replaceTree =>
      show (relativePath (some (.str (payloadText _))) "replace-tree source" >>= fun _ => _).isOk = true
      exact (hsource _).symm ▸ rfl
  · rfl

end Staged

theorem ManifestOperation.makes_dir (o : ManifestOperation) :
    Json.optEqStr (Json.get o.mapping "op") "make-dir" = !o.tracked := by
  rcases o with _ | ⟨_, kind, _, _⟩ | _
  · rfl
  · cases kind <;> rfl
  · rfl

/-- **Operations that make a transaction**: they have different identifiers, and the targets that are noted lie
apart. -/
structure WellStaged (operations : List ManifestOperation) : Prop where
  staged : ∀ o ∈ operations, o.Staged
  ids : (operations.map ManifestOperation.id).Nodup
  apart : ((operations.filter ManifestOperation.tracked).map ManifestOperation.path).Pairwise
    fun left right => ¬Overlap left right

theorem checkOperations_mapping {seen : List PyStr} {operations : List ManifestOperation}
    (hstaged : ∀ o ∈ operations, o.Staged) (hids : (operations.map ManifestOperation.id).Nodup)
    (hseen : ∀ o ∈ operations, o.id ∉ seen) :
    checkOperations seen (operations.map fun o => .obj o.mapping) = .ok (operations.map ManifestOperation.mapping,
        (operations.filter ManifestOperation.tracked).map ManifestOperation.path) := by
  induction operations generalizing seen with
  | nil => rfl
  | cons o operations ih =>
    obtain ⟨hnew, hids⟩ := List.nodup_cons.mp hids
    have ho := hstaged o List.mem_cons_self
    have hseen' : ∀ o' ∈ operations, o'.id ∉ o.id :: seen := by
      intro o' ho' hmem
      rcases List.mem_cons.mp hmem with heq | hmem
      · exact hnew (heq ▸ List.mem_map_of_mem ho')
      · exact hseen o' (List.mem_cons_of_mem _ ho') hmem
    have hrest := ih (fun o' ho' => hstaged o' (List.mem_cons_of_mem _ ho')) hids hseen'
    rw [List.map_cons]
    unfold checkOperations
    rw [ho.id_eq]
    show (if o.id ∈ seen then _ else _) = _
    rw [if_neg (hseen o List.mem_cons_self), o.makes_dir]
    cases htracked : o.tracked with
    | false =>
      rw [Bool.not_false, if_pos rfl, hrest, List.filter_cons_of_neg (by simp [htracked])]
      rfl
    | true =>
      rw [if_neg (by decide), ho.path_eq, hrest, List.filter_cons_of_pos htracked]
      rfl

theorem WellStaged.checkManifest_eq {manifest : SealedManifest} (h : WellStaged manifest.operations) :
    checkManifest manifest.mapping manifest.expectedGeneration
      = .ok (manifest.operations.map ManifestOperation.mapping) := by
  have hgeneration : Json.optEqInt (Json.get manifest.mapping "expected_data_generation") manifest.expectedGeneration
      = true := by
    show (manifest.expectedGeneration == manifest.expectedGeneration) = true
    exact beq_self_eq_true _
  have hoperations : Json.get manifest.mapping "operations"
      = some (.arr (manifest.operations.map fun o => .obj o.mapping)) := rfl
  unfold checkManifest
  rw [if_neg (not_not_intro ⟨rfl, rfl⟩), hgeneration, if_neg Bool.noConfusion, hoperations]
  simp only [checkOperations_mapping h.staged h.ids fun _ _ => List.not_mem_nil, firstOverlap_eq_none h.apart]

/-! ## What the calls keep -/

/-- **A builder that is sound**: every target of an operation is noted, and what is noted lies apart. A call
that raised may have noted more. -/
structure TransactionBuilder.Sound (generation : ℤ) (b : TransactionBuilder) : Prop where
  staged : ∀ o ∈ b.operations, o.Staged
  ids : (b.operations.map ManifestOperation.id).Nodup
  noted : ((b.operations.filter ManifestOperation.tracked).map ManifestOperation.path).Sublist b.targets
  apart : b.targets.Pairwise fun left right => ¬Overlap left right
  generation_eq : b.expectedGeneration = generation
  manifest : ∀ m, b.manifest = some m → m.expectedGeneration = generation ∧ WellStaged m.operations

theorem TransactionBuilder.Sound.wellStaged {generation : ℤ} {b : TransactionBuilder} (h : b.Sound generation) :
    WellStaged b.operations :=
  ⟨h.staged, h.ids, h.apart.sublist h.noted⟩

theorem sound_start (generation : ℤ) : (TransactionBuilder.start generation).Sound generation where
  staged _ h := absurd h List.not_mem_nil
  ids := List.nodup_nil
  noted := List.Sublist.refl _
  apart := List.Pairwise.nil
  generation_eq := rfl
  manifest _ h := by cases h

theorem checked_eq_ok {α : Type} {r : Except Exc α} {a : α} : checked r = .ok a ↔ r = .ok a := by
  cases r with
  | ok value => exact ⟨fun h => congrArg Except.ok (Except.ok.inj h), fun h => congrArg Except.ok (Except.ok.inj h)⟩
  | error e => exact ⟨fun h => (by cases h), fun h => (by cases h)⟩

theorem pathsOverlap_iff {existing target : List PyStr} :
    pathsOverlap existing target = true ↔ Overlap existing target := by
  unfold pathsOverlap Overlap
  rw [Bool.or_eq_true, List.isPrefixOf_iff_prefix, List.isPrefixOf_iff_prefix]

/-- **What `_operation` accepts.** -/
theorem accept_eq_ok {b : TransactionBuilder} {id path : PyStr} {trackTarget : Bool} {target : List PyStr} :
    b.accept id path trackTarget = .ok target
      ↔ isLabel id = true ∧ (∀ o ∈ b.operations, o.id ≠ id) ∧ relativeTarget path "transaction target" = .ok target
        ∧ (trackTarget = true → ∀ existing ∈ b.targets, ¬Overlap existing target) := by
  have hids : (b.operations.any fun existing => decide (existing.id = id)) = true ↔ ¬∀ o ∈ b.operations, o.id ≠ id := by
    simp [List.any_eq_true]
  have hfind : ∀ target', (b.targets.find? fun existing => pathsOverlap existing target') = none
      ↔ ∀ existing ∈ b.targets, ¬Overlap existing target' := by
    intro target'
    rw [List.find?_eq_none]
    simp only [pathsOverlap_iff]
  unfold TransactionBuilder.accept
  constructor
  · intro h
    obtain ⟨identifier, hlabel, hchecks⟩ := bind_eq_ok.mp h
    obtain ⟨hlabel, heq⟩ := validateLabel_eq_ok.mp (checked_eq_ok.mp hlabel)
    rw [heq] at hchecks
    split at hchecks
    · cases hchecks
    rename_i hduplicate
    obtain ⟨target', htarget, hchecks⟩ := bind_eq_ok.mp hchecks
    refine ⟨hlabel, not_not.mp (mt hids.mpr hduplicate), ?_⟩
    split_ifs at hchecks with htrack
    · split at hchecks
      · cases hchecks
      · rename_i hnone
        exact Except.ok.inj hchecks ▸ ⟨htarget, fun _ => (hfind target').mp hnone⟩
    · exact Except.ok.inj hchecks ▸ ⟨htarget, fun h => absurd h htrack⟩
  · rintro ⟨hlabel, hfree, htarget, hapart⟩
    refine bind_eq_ok.mpr ⟨id, checked_eq_ok.mpr (validateLabel_eq_ok.mpr ⟨hlabel, rfl⟩), ?_⟩
    rw [if_neg fun hduplicate => hids.mp hduplicate hfree]
    refine bind_eq_ok.mpr ⟨target, htarget, ?_⟩
    split_ifs with htrack
    · rw [(hfind target).mpr (hapart htrack)]
    · rfl

def TransactionBuilder.noting (b : TransactionBuilder) (trackTarget : Bool) (target : List PyStr) :
    TransactionBuilder :=
  if trackTarget = true then { b with targets := b.targets ++ [target] } else b

section Noting

variable (b : TransactionBuilder) (trackTarget : Bool) (target : List PyStr)

@[simp] theorem noting_operations : (b.noting trackTarget target).operations = b.operations := by
  unfold TransactionBuilder.noting
  split_ifs <;> rfl

@[simp] theorem noting_manifest : (b.noting trackTarget target).manifest = b.manifest := by
  unfold TransactionBuilder.noting
  split_ifs <;> rfl

@[simp] theorem noting_expectedGeneration :
    (b.noting trackTarget target).expectedGeneration = b.expectedGeneration := by
  unfold TransactionBuilder.noting
  split_ifs <;> rfl

theorem noting_targets :
    (b.noting trackTarget target).targets = b.targets ++ if trackTarget = true then [target] else [] := by
  unfold TransactionBuilder.noting
  split_ifs with htrack
  · rfl
  · exact (List.append_nil _).symm

end Noting

theorem returns_transactionOperation {b b' : TransactionBuilder} {id path : PyStr} {trackTarget : Bool}
    {target : List PyStr} : (transactionOperation id path trackTarget).Returns b target b'
      ↔ b.accept id path trackTarget = .ok target ∧ b' = b.noting trackTarget target := by
  unfold transactionOperation TransactionBuilder.noting
  rw [Effects.returns_current_bind, Effects.returns_bind]
  constructor
  · rintro ⟨target', _, hchecks, hrest⟩
    obtain ⟨haccept, rfl⟩ := Effects.returns_ofExcept.mp hchecks
    split_ifs at hrest ⊢ with htrack
    · obtain ⟨rfl, rfl⟩ := Effects.returns_emit.mp hrest
      exact ⟨haccept, rfl⟩
    · obtain ⟨rfl, rfl⟩ := Effects.returns_pure.mp hrest
      exact ⟨haccept, rfl⟩
  · rintro ⟨haccept, rfl⟩
    refine ⟨target, b, Effects.returns_ofExcept.mpr ⟨haccept, rfl⟩, ?_⟩
    split_ifs with htrack
    · exact Effects.returns_emit.mpr ⟨rfl, rfl⟩
    · exact Effects.returns_pure.mpr ⟨rfl, rfl⟩

variable {e : SdkError}

theorem raises_transactionOperation {b b' : TransactionBuilder} {id path : PyStr} {trackTarget : Bool}
    : (transactionOperation id path trackTarget).Raises b e b'
      ↔ b.accept id path trackTarget = .error e ∧ b = b' := by
  unfold transactionOperation
  rw [Effects.raises_current_bind, Effects.raises_bind, Effects.raises_ofExcept]
  refine ⟨?_, Or.inl⟩
  rintro (h | ⟨target, _, -, hrest⟩)
  · exact h
  · split_ifs at hrest
    · exact absurd hrest Effects.raises_emit
    · exact absurd hrest Effects.raises_pure

theorem TransactionBuilder.Sound.noting {generation : ℤ} {b : TransactionBuilder} (h : b.Sound generation)
    {id path : PyStr} {trackTarget : Bool} {target : List PyStr} (haccept : b.accept id path trackTarget = .ok target) :
    (b.noting trackTarget target).Sound generation where
  staged := by simpa using h.staged
  ids := by simpa using h.ids
  noted := by
    rw [noting_operations, noting_targets]
    exact h.noted.trans (List.sublist_append_left _ _)
  apart := by
    obtain ⟨-, -, -, hapart⟩ := accept_eq_ok.mp haccept
    rw [noting_targets]
    split_ifs with htrack
    · refine List.pairwise_append.mpr ⟨h.apart, List.pairwise_singleton _ _, fun existing hexisting target' htarget => ?_⟩
      exact List.mem_singleton.mp htarget ▸ hapart htrack existing hexisting
    · exact (List.append_nil b.targets).symm ▸ h.apart
  generation_eq := by simpa using h.generation_eq
  manifest := by simpa using h.manifest

def TransactionBuilder.append (b : TransactionBuilder) (o : ManifestOperation) : TransactionBuilder :=
  { b with operations := b.operations ++ [o] }

theorem TransactionBuilder.Sound.append {generation : ℤ} {b : TransactionBuilder} (h : b.Sound generation)
    {o : ManifestOperation} {path : PyStr} (haccept : b.accept o.id path o.tracked = .ok o.path) :
    ((b.noting o.tracked o.path).append o).Sound generation := by
  obtain ⟨hlabel, hids, hpath, -⟩ := accept_eq_ok.mp haccept
  have hnoting := h.noting haccept
  refine ⟨?_, ?_, ?_, hnoting.apart, hnoting.generation_eq, hnoting.manifest⟩
  · intro o' ho'
    rcases List.mem_append.mp ho' with ho' | ho'
    · exact hnoting.staged o' ho'
    · exact List.mem_singleton.mp ho' ▸ ⟨hlabel, stagedPath_of_relativeTarget hpath⟩
  · show List.Nodup (List.map _ (_ ++ [o]))
    rw [noting_operations, List.map_append, List.nodup_append]
    refine ⟨h.ids, List.nodup_singleton _, fun i hi j hj heq => ?_⟩
    obtain ⟨o', ho', rfl⟩ := List.mem_map.mp hi
    exact hids o' ho' (heq.trans (List.mem_singleton.mp hj))
  · show List.Sublist (List.map _ (List.filter _ (_ ++ [o]))) (b.noting o.tracked o.path).targets
    rw [noting_operations, noting_targets, List.filter_append, List.map_append]
    refine h.noted.append ?_
    split_ifs with htracked
    · rw [List.filter_cons_of_pos htracked]
      exact List.Sublist.refl _
    · rw [List.filter_cons_of_neg htracked]
      exact List.Sublist.refl _

theorem returns_appendOperation {b b' : TransactionBuilder} {o : ManifestOperation} :
    (appendOperation o).Returns b () b' ↔ b.append o = b' := by
  unfold appendOperation
  rw [Effects.returns_emit]
  exact ⟨fun h => h.2, fun h => ⟨rfl, h⟩⟩

theorem not_raises_appendOperation {b b' : TransactionBuilder} {o : ManifestOperation} :
    ¬(appendOperation o).Raises b e b' := Effects.raises_emit

/-! An operation without a source raises where `_operation` does, and nowhere else. -/

section Plain

variable {id path : PyStr} {trackTarget : Bool} {o : List PyStr → ManifestOperation} {b b' : TransactionBuilder}

theorem returns_plain : (transactionOperation id path trackTarget >>= fun target => appendOperation (o target)).Returns
      b () b' ↔ ∃ target, b.accept id path trackTarget = .ok target
        ∧ (b.noting trackTarget target).append (o target) = b' := by
  rw [Effects.returns_bind]
  constructor
  · rintro ⟨target, _, hchecks, hrest⟩
    obtain ⟨haccept, rfl⟩ := returns_transactionOperation.mp hchecks
    exact ⟨target, haccept, returns_appendOperation.mp hrest⟩
  · rintro ⟨target, haccept, happend⟩
    exact ⟨target, _, returns_transactionOperation.mpr ⟨haccept, rfl⟩, returns_appendOperation.mpr happend⟩

theorem raises_plain {e : SdkError} :
    (transactionOperation id path trackTarget >>= fun target => appendOperation (o target)).Raises b e b'
      ↔ b.accept id path trackTarget = .error e ∧ b = b' := by
  rw [Effects.raises_bind, raises_transactionOperation]
  refine ⟨?_, Or.inl⟩
  rintro (h | ⟨target, _, -, hrest⟩)
  · exact h
  · exact absurd hrest not_raises_appendOperation

end Plain

/-! An installation also raises where its source does, and by then the target is noted. -/

section Install

variable {id path : PyStr} {kind : InstallKind} {source : Except SdkError PyStr} {b b' : TransactionBuilder}

theorem returns_install : (install id path kind source).Returns b () b' ↔ ∃ target sha256,
    b.accept id path true = .ok target ∧ source = .ok sha256
      ∧ (b.noting true target).append (.staged (.install id kind target sha256)) = b' := by
  unfold install
  rw [Effects.returns_bind]
  constructor
  · rintro ⟨target, _, hchecks, hrest⟩
    obtain ⟨haccept, rfl⟩ := returns_transactionOperation.mp hchecks
    obtain ⟨sha256, _, hcopy, happend⟩ := Effects.returns_bind.mp hrest
    obtain ⟨hsource, rfl⟩ := Effects.returns_ofExcept.mp hcopy
    exact ⟨target, sha256, haccept, hsource, returns_appendOperation.mp happend⟩
  · rintro ⟨target, sha256, haccept, hsource, happend⟩
    refine ⟨target, _, returns_transactionOperation.mpr ⟨haccept, rfl⟩, Effects.returns_bind.mpr ?_⟩
    exact ⟨sha256, _, Effects.returns_ofExcept.mpr ⟨hsource, rfl⟩, returns_appendOperation.mpr happend⟩

theorem raises_install {e : SdkError} : (install id path kind source).Raises b e b'
    ↔ b.accept id path true = .error e ∧ b = b'
      ∨ ∃ target, b.accept id path true = .ok target ∧ source = .error e ∧ b.noting true target = b' := by
  unfold install
  rw [Effects.raises_bind, raises_transactionOperation]
  refine or_congr_right ?_
  constructor
  · rintro ⟨target, _, hchecks, hrest⟩
    obtain ⟨haccept, rfl⟩ := returns_transactionOperation.mp hchecks
    rcases Effects.raises_bind.mp hrest with hsource | ⟨sha256, _, -, happend⟩
    · obtain ⟨hsource, hstate⟩ := Effects.raises_ofExcept.mp hsource
      exact ⟨target, haccept, hsource, hstate⟩
    · exact absurd happend not_raises_appendOperation
  · rintro ⟨target, haccept, hsource, hstate⟩
    refine ⟨target, _, returns_transactionOperation.mpr ⟨haccept, rfl⟩, Effects.raises_bind.mpr (Or.inl ?_)⟩
    exact Effects.raises_ofExcept.mpr ⟨hsource, hstate⟩

end Install

section Keeping

variable {generation : ℤ} {id path : PyStr}

theorem keeping_plain {trackTarget : Bool} {o : List PyStr → ManifestOperation}
    (ho : ∀ target, (o target).id = id ∧ (o target).path = target ∧ (o target).tracked = trackTarget) :
    Effects.Keeping (TransactionBuilder.Sound generation)
      (transactionOperation id path trackTarget >>= fun target => appendOperation (o target)) := by
  intro b hb
  refine ⟨fun _ b' h => ?_, fun e b' h => (raises_plain.mp h).2 ▸ hb⟩
  obtain ⟨target, haccept, rfl⟩ := returns_plain.mp h
  obtain ⟨hid, hpath, htracked⟩ := ho target
  have haccept : b.accept (o target).id path (o target).tracked = .ok (o target).path := by
    rw [hid, hpath, htracked]
    exact haccept
  have hsound := hb.append haccept
  rwa [hpath, htracked] at hsound

theorem keeping_install {kind : InstallKind} {source : Except SdkError PyStr} :
    Effects.Keeping (TransactionBuilder.Sound generation) (install id path kind source) := by
  intro b hb
  constructor
  · intro _ b' h
    obtain ⟨target, sha256, haccept, -, rfl⟩ := returns_install.mp h
    exact hb.append (o := .staged (.install id kind target sha256)) haccept
  · intro e b' h
    rcases raises_install.mp h with ⟨-, rfl⟩ | ⟨target, haccept, -, rfl⟩
    · exact hb
    · exact hb.noting haccept

variable {files : StagingFiles}

theorem keeping_sealManifest {manifestId : PyStr} :
    Effects.Keeping (TransactionBuilder.Sound generation) (sealManifest files manifestId) := by
  refine Effects.Ending.look fun b hb => ?_
  have hwrite : (TransactionBuilder.Sound generation)
      { b with manifest := some ⟨manifestId, b.expectedGeneration, b.operations⟩ } := by
    refine { hb with manifest := fun m hm => ?_ }
    obtain rfl := Option.some.inj hm
    exact ⟨hb.generation_eq, hb.wellStaged⟩
  cases files.write with
  | none => exact Effects.Ending.once fun b' hb' => hb' ▸ hwrite
  | some fault =>
    obtain ⟨exception, written⟩ := fault
    show Effects.Ending _ (if written = true then _ else _) _ _
    split_ifs
    · exact Effects.Ending.seq (R := fun _ => TransactionBuilder.Sound generation)
        (Effects.Ending.once fun b' hb' => hb' ▸ hwrite) fun _ => Effects.Ending.throw fun _ h => h
    · exact Effects.Ending.throw fun b' hb' => hb' ▸ hb

theorem keeping_resume {again : ℤ} :
    Effects.Keeping (TransactionBuilder.Sound generation) (resume files again) := by
  refine Effects.Ending.look fun b hb => ?_
  refine Effects.Ending.seq (R := fun _ => (· = b)) (Effects.Ending.check (fun _ _ _ h => h) fun _ _ _ h => h ▸ hb)
    fun _ => ?_
  cases hmanifest : b.manifest with
  | none => exact Effects.Ending.throw fun b' hb' => hb' ▸ hb
  | some manifest =>
    obtain ⟨hgeneration, hwell⟩ := hb.manifest manifest hmanifest
    show Effects.Ending _ (if manifest.expectedGeneration ≠ again then _ else _) _ _
    split_ifs with hagain
    · exact Effects.Ending.check (fun _ _ h _ => (by cases h)) fun _ b' _ hb' => hb' ▸ hb
    · refine Effects.Ending.once fun b' hb' => ?_
      have htargets : ((manifest.operations.filter ManifestOperation.tracked).map fun o =>
          purePath (posixText o.path)) = (manifest.operations.filter ManifestOperation.tracked).map
            ManifestOperation.path :=
        List.map_congr_left fun o ho => purePath_posixText (hwell.staged o (List.mem_filter.mp ho).1).path
      subst hb'
      exact
        { staged := hwell.staged
          ids := hwell.ids
          noted := htargets ▸ List.Sublist.refl _
          apart := htargets ▸ hwell.apart
          generation_eq := (not_not.mp hagain).symm.trans hgeneration
          manifest := hb.manifest }

/-- **A call keeps a builder sound**, whether it returns or raises. -/
theorem keeping_run (call : BuilderCall) : Effects.Keeping (TransactionBuilder.Sound generation) (call.run files) := by
  cases call with
  | makeDir id path => exact keeping_plain fun _ => ⟨rfl, rfl, rfl⟩
  | putFile id source path => exact keeping_install
  | putTree id source path replace => exact keeping_install
  | remove id path missingOk => exact keeping_plain fun _ => ⟨rfl, rfl, rfl⟩
  | sealManifest manifestId => exact keeping_sealManifest
  | resume again => exact keeping_resume

end Keeping

theorem sound_runCalls {generation : ℤ} {b : TransactionBuilder} (h : b.Sound generation)
    (calls : List (StagingFiles × BuilderCall)) : (runCalls calls b).Sound generation := by
  induction calls generalizing b with
  | nil => exact h
  | cons call calls ih =>
    obtain ⟨files, call⟩ := call
    exact ih ((keeping_run call).final h)

/-! ## Calls that raise -/

/-- **What is free for a put**: the identifier is a label that no operation has, and the target is a path
that lies apart from what is noted. -/
def TransactionBuilder.Free (b : TransactionBuilder) (id path : PyStr) : Prop :=
  isLabel id = true ∧ (∀ o ∈ b.operations, o.id ≠ id)
    ∧ ∃ target, relativeTarget path "transaction target" = .ok target ∧ ∀ existing ∈ b.targets, ¬Overlap existing target

/-- **A put that is stranded**: what it puts, and where, is free, but its source is not what it has to be, or
is not copied. -/
def BuilderCall.Strands (files : StagingFiles) (b : TransactionBuilder) : BuilderCall → Prop
  | .putFile id _ path => b.Free id path ∧ (files.sourceIsFile = false ∨ ∃ e, files.copy = .error e)
  | .putTree id _ path _ =>
    b.Free id path
      ∧ (files.sourceIsDirectory = false ∨ files.irregular.isSome = true ∨ ∃ e, files.copy = .error e)
  | _ => False

theorem free_iff {b : TransactionBuilder} {id path : PyStr} :
    b.Free id path ↔ ∃ target, b.accept id path true = .ok target := by
  simp only [accept_eq_ok, TransactionBuilder.Free, true_implies]
  exact ⟨fun ⟨hlabel, hids, target, htarget, hapart⟩ => ⟨target, hlabel, hids, htarget, hapart⟩,
    fun ⟨target, hlabel, hids, htarget, hapart⟩ => ⟨hlabel, hids, target, htarget, hapart⟩⟩

theorem checked_raises {α : Type} {r : Except Exc α} : (∃ e, checked r = .error e) ↔ ∃ e, r = .error e := by
  cases r with
  | ok value => exact ⟨fun ⟨e, h⟩ => (by cases h), fun ⟨e, h⟩ => (by cases h)⟩
  | error e => exact ⟨fun _ => ⟨e, rfl⟩, fun _ => ⟨_, rfl⟩⟩

variable {files : StagingFiles}

variable {source : PyStr}

theorem putFileSource_raises :
    (∃ e, putFileSource files source = .error e) ↔ files.sourceIsFile = false ∨ ∃ e, files.copy = .error e := by
  unfold putFileSource
  split_ifs with hfile
  · exact ⟨fun _ => Or.inl hfile, fun _ => ⟨_, rfl⟩⟩
  · rw [checked_raises]
    exact ⟨Or.inr, fun h => h.resolve_left hfile⟩

theorem copyTree_raises : (∃ e, copyTree files source = .error e)
    ↔ files.sourceIsDirectory = false ∨ files.irregular.isSome = true ∨ ∃ e, files.copy = .error e := by
  unfold copyTree
  split_ifs with hdirectory
  · exact ⟨fun _ => Or.inl hdirectory, fun _ => ⟨_, rfl⟩⟩
  · cases files.irregular with
    | some child => exact ⟨fun _ => Or.inr (Or.inl rfl), fun _ => ⟨_, rfl⟩⟩
    | none =>
      rw [checked_raises]
      exact ⟨fun h => Or.inr (Or.inr h), fun h => (h.resolve_left hdirectory).resolve_left Bool.noConfusion⟩

theorem install_unchanged_iff {b : TransactionBuilder} {id path : PyStr} {kind : InstallKind}
    {source : Except SdkError PyStr} :
    (∀ e b', (install id path kind source).Raises b e b' → b'.operations = b.operations ∧ b'.targets = b.targets)
      ↔ ¬(b.Free id path ∧ ∃ e, source = .error e) := by
  constructor
  · rintro hunchanged ⟨hfree, e, hsource⟩
    obtain ⟨target, haccept⟩ := free_iff.mp hfree
    obtain ⟨-, htargets⟩ := hunchanged e _ (raises_install.mpr (Or.inr ⟨target, haccept, hsource, rfl⟩))
    rw [noting_targets, if_pos rfl] at htargets
    have hlength := congrArg List.length htargets
    simp at hlength
  · intro hnot e b' h
    rcases raises_install.mp h with ⟨-, rfl⟩ | ⟨target, haccept, hsource, -⟩
    · exact ⟨rfl, rfl⟩
    · exact absurd ⟨free_iff.mpr ⟨target, haccept⟩, e, hsource⟩ hnot

theorem sealManifest_unchanged {manifestId : PyStr} {b b' : TransactionBuilder}
    (h : (sealManifest files manifestId).Raises b e b') : b'.operations = b.operations ∧ b'.targets = b.targets := by
  have hkeeps : Effects.Keeping (fun b' : TransactionBuilder =>
      b'.operations = b.operations ∧ b'.targets = b.targets) (sealManifest files manifestId) := by
    refine Effects.Keeping.look fun d hd => ?_
    cases files.write with
    | none => exact Effects.Keeping.once fun _ h => h
    | some fault =>
      obtain ⟨exception, written⟩ := fault
      show Effects.Keeping _ (if written = true then _ else _)
      split_ifs
      · exact Effects.Keeping.seq (Effects.Keeping.once fun _ h => h) fun _ => Effects.Keeping.throw
      · exact Effects.Keeping.throw
  exact (hkeeps b ⟨rfl, rfl⟩).2 e b' h

theorem resume_unchanged {again : ℤ} {b b' : TransactionBuilder}
    (h : (resume files again).Raises b e b') : b'.operations = b.operations ∧ b'.targets = b.targets := by
  have hraises : Effects.Ending (· = b) (resume files again) (fun _ _ => True) (· = b) := by
    refine Effects.Ending.look fun d hd => ?_
    subst hd
    refine Effects.Ending.seq (R := fun _ => (· = d)) (Effects.Ending.check (fun _ _ _ h => h) fun _ _ _ h => h)
      fun _ => ?_
    cases d.manifest with
    | none => exact Effects.Ending.throw fun _ h => h
    | some manifest =>
      show Effects.Ending _ (if manifest.expectedGeneration ≠ again then _ else _) _ _
      split_ifs
      · exact Effects.Ending.check (fun _ _ _ _ => trivial) fun _ _ _ h => h
      · exact Effects.Ending.once fun _ _ => trivial
  obtain rfl := (hraises b rfl).2 e b' h
  exact ⟨rfl, rfl⟩

theorem unchanged_iff (files : StagingFiles) (b : TransactionBuilder) (call : BuilderCall) :
    (∀ e b', (call.run files).Raises b e b' → b'.operations = b.operations ∧ b'.targets = b.targets)
      ↔ ¬call.Strands files b := by
  cases call with
  | makeDir id path => exact iff_of_true (fun e b' h => (raises_plain.mp h).2 ▸ ⟨rfl, rfl⟩) not_false
  | putFile id source path =>
    refine install_unchanged_iff.trans ?_
    rw [putFileSource_raises]
    rfl
  | putTree id source path replace =>
    refine install_unchanged_iff.trans ?_
    rw [copyTree_raises]
    rfl
  | remove id path missingOk => exact iff_of_true (fun e b' h => (raises_plain.mp h).2 ▸ ⟨rfl, rfl⟩) not_false
  | sealManifest manifestId => exact iff_of_true (fun _ _ h => sealManifest_unchanged h) not_false
  | resume again => exact iff_of_true (fun _ _ h => resume_unchanged h) not_false

/-! ## The builder and replay -/

/-- **The builder and replay agree** on what is sealed after any calls, and a call that raises leaves the
builder as it was, unless it is a put that is stranded. -/
theorem builder_agrees_with_replay (generation : ℤ) (calls : List (StagingFiles × BuilderCall)) :
    (∀ manifest, (runCalls calls (.start generation)).manifest = some manifest →
      (checkManifest manifest.mapping generation).isOk = true
        ∧ ∀ o ∈ manifest.operations, (decodeOperation o.mapping).isOk = true)
    ∧ ∀ (files : StagingFiles) (call : BuilderCall),
      (∀ e b', (call.run files).Raises (runCalls calls (.start generation)) e b' →
        b'.operations = (runCalls calls (.start generation)).operations
          ∧ b'.targets = (runCalls calls (.start generation)).targets)
      ↔ ¬call.Strands files (runCalls calls (.start generation)) := by
  have hsound := sound_runCalls (sound_start generation) calls
  refine ⟨fun manifest hmanifest => ?_, fun files call => unchanged_iff files _ call⟩
  obtain ⟨rfl, hwell⟩ := hsound.manifest manifest hmanifest
  exact ⟨by rw [hwell.checkManifest_eq]; rfl, fun o ho => (hwell.staged o ho).decoded⟩

/-- **A file that is not there** takes its target. -/
theorem missing_source : ¬∀ (generation : ℤ) (calls : List (StagingFiles × BuilderCall)),
    (∀ manifest, (runCalls calls (.start generation)).manifest = some manifest →
      (checkManifest manifest.mapping generation).isOk = true
        ∧ ∀ o ∈ manifest.operations, (decodeOperation o.mapping).isOk = true)
    ∧ ∀ (files : StagingFiles) (call : BuilderCall),
      ∀ e b', (call.run files).Raises (runCalls calls (.start generation)) e b' →
        b'.operations = (runCalls calls (.start generation)).operations
          ∧ b'.targets = (runCalls calls (.start generation)).targets := by
  intro h
  refine (unchanged_iff { sourceIsFile := false } (.start 0) (.putFile "result"
    "energy.json" "results/energy.json")).mp ((h 0 []).2 _ _) ?_
  refine ⟨⟨by decide, fun _ h => absurd h List.not_mem_nil, ["results", "energy.json"],
    toOption_eq_some.mp (by decide +kernel), fun _ h => absurd h List.not_mem_nil⟩, Or.inl rfl⟩

end RuntimeBuilders
