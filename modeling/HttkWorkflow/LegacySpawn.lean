import HttkWorkflow.LegacyNames
import HttkWorkflow.JobCursors
import HttkWorkflow.RecordRefs

/-!
# Children made of legacy task directories

`_spawn` makes a child of each task directory that waits to be started. What
the child is called comes from the directory's name: its label and its tag
from the task's id and set, folded; its id by hashing the path; its claim pool
is the task's set as it is. `Attempt.spawn` then validates all of it, and the
first thing that is refused ends the run.

The label and the tag of every child, its placement and its id are accepted,
provided there is room for the label and the path can be encoded. The pool is
not folded, and any set that is not a label already is refused. All children
are spawned exactly if nothing of this happens (`spawnLegacy_iff`).
-/

open Numerals

/-! ## The names -/

/-- The fields of `TASK_PATTERN`. -/
structure TaskFields where
  taskset : PyStr
  taskId : PyStr
  step : PyStr
  restarts : PyStr
  owner : PyStr
  /-- A digit from 1 to 5. -/
  priority : ℕ
  status : PyStr
  deriving DecidableEq

def taskStatuses : List PyStr :=
  ["waitstart", "waitstep", "waitsubtasks", "running", "finished", "broken", "stopped", "timeout"]

/-- **`TASK_PATTERN.fullmatch`**. -/
def taskFields (name : PyStr) : Option TaskFields :=
  match name.split '.' with
  | [ht, task, taskset, taskId, step, restarts, owner, ⟨[priority]⟩, status] =>
    if ht = "ht" ∧ task = "task" ∧ taskset.codes ≠ [] ∧ taskId.codes ≠ []
        ∧ step.codes ≠ [] ∧ (restarts.codes ≠ [] ∧ restarts.codes.all fun c => 0x30 ≤ c && c ≤ 0x39)
        ∧ owner.codes ≠ [] ∧ (0x31 ≤ priority ∧ priority ≤ 0x35) ∧ status ∈ taskStatuses then
      some ⟨taskset, taskId, step, restarts, owner, priority - 0x30, status⟩
    else none
  | _ => none

/-- **A task directory to be spawned**: where it is below the payload, and what its name says. -/
structure TaskDirectory where
  /-- The directories it is in. -/
  parents : List PyStr
  name : PyStr
  fields : TaskFields
  matched : taskFields name = some fields
  waits : fields.status = "waitstart" ∨ fields.status = "waitstep"

/-- `source.relative_to(legacy_root).as_posix()`. -/
def TaskDirectory.relative (source : TaskDirectory) : PyStr :=
  PyStr.join "/" (source.parents ++ [source.name])

/-- `f"{relative}|{fields['taskset']}|{fields['task_id']}"`. -/
def TaskDirectory.idName (source : TaskDirectory) : PyStr :=
  ⟨source.relative.codes ++ '|'.toNat :: source.fields.taskset.codes ++ '|'.toNat :: source.fields.taskId.codes⟩

/-- `"default" if fields["taskset"] == "any" else fields["taskset"]`. -/
def TaskDirectory.pool (source : TaskDirectory) : PyStr :=
  if source.fields.taskset = "any" then "default" else source.fields.taskset

/-- `V1_PRIORITY_MAP`. -/
def v1Priority (priority : ℕ) : Int := 200 * priority - 100

/-! ## The spawn -/

/-- **What a legacy spawn runs in**: `str.lower`, what `uuid.UUID` makes of a text, the hexadecimal digits of
`uuid.uuid5` in the namespace of the job, the digits of the job's own id, and its root placement. -/
structure LegacyEnv where
  lower : PyStr → PyStr
  uuid : PyStr → Option PyStr
  uuid5 : PyStr → List Char
  jobId : List Char
  root : PyStr

/-- `str` of a UUID. -/
def uuidString (digits : List Char) : PyStr := ⟨(uuidText digits).map Char.toNat⟩

/-- **The members of `job.json` that `_spawn` sets.** The others are those of the parent, which passed the same
checks. -/
structure LegacyJob where
  id : PyStr
  tag : PyStr
  name : PyStr
  initialStep : PyStr
  priority : Int
  pool : PyStr

/-- **`JobDefinition.from_mapping`**, of these members. -/
def LegacyJob.check (env : LegacyEnv) (job : LegacyJob) : Except Exc Unit := do
  let _ ← canonicalUuid env.uuid (some (.str job.id)) "id"
  let _ ← validateLabel (some (.str job.tag)) "tag"
  let _ ← requireString (some (.str job.name)) "name"
  let _ ← validateStep (some (.str job.initialStep)) "initial_step"
  let _ ← requireInt (some (.int job.priority)) "priority" 0 (some 999)
  let _ ← validateLabel (some (.str job.pool)) "claim.pool"
  .ok ()

/-- **A registered child.** -/
structure LegacyChild where
  label : PyStr
  job : LegacyJob
  placement : List PyStr

/-- Two characters of an id. -/
def idPart (id : PyStr) (start : ℕ) : PyStr := ⟨(id.codes.drop start).take 2⟩

/-- `PurePosixPath(text).parts`, of a relative path. -/
def pathParts (text : PyStr) : List PyStr := (text.split '/').filter fun t => t.codes ≠ [] ∧ t ≠ "."

def placementParts (env : LegacyEnv) (childId : PyStr) : List PyStr :=
  let jobId := uuidString env.jobId
  pathParts env.root
    ++ [PyStr.ofString "v1-children", idPart jobId 0, idPart jobId 2, idPart childId 0, idPart childId 2]

/-- **`_placement`**; a path that begins with a slash keeps it. -/
def legacyPlacement (env : LegacyEnv) (childId : PyStr) : PyStr :=
  let text := PyStr.join "/" (placementParts env childId)
  if env.root.codes.head? = some '/'.toNat then ⟨'/'.toNat :: text.codes⟩ else text

/-- The mapping of one child. -/
def legacyJob (env : LegacyEnv) (source : TaskDirectory) : LegacyJob where
  id := uuidString (env.uuid5 source.idName)
  tag := safeTag env.lower ⟨source.fields.taskset.codes ++ hyphen :: source.fields.taskId.codes⟩
  name := ⟨(PyStr.ofString "httk v1 subtask ").codes ++ source.fields.taskId.codes⟩
  initialStep := "start"
  priority := v1Priority source.fields.priority
  pool := source.pool

/-- **`Attempt.spawn`**, of a prepared payload, beside the children registered before. -/
def spawnChild (env : LegacyEnv) (children : List LegacyChild) (label : PyStr) (job : LegacyJob) (placement : PyStr) :
    Except Exc LegacyChild := do
  let entry ← validateLabel (some (.str label)) "child label"
  job.check env
  -- the tag is not read where a label is asked for
  let entry ← childLabel (children.map LegacyChild.label) ⟨some entry, none, true, fun _ h => nomatch h⟩
  let normalized ← normalizePlacement placement
  .ok ⟨entry, job, normalized⟩

/-- **One round of `_spawn`.** -/
def spawnSource (env : LegacyEnv) (children : List LegacyChild) (source : TaskDirectory) :
    Except Exc (List LegacyChild) :=
  if source.idName.encodable = false then .error ⟨.unicodeEncode, [.lit "surrogates not allowed"]⟩
  else
    let job := legacyJob env source
    if job.id ∈ children.map fun child => child.job.id then .error ⟨.osError, [.lit "File exists: ", .raw job.id]⟩
    else
      let label := legacyLabel env.lower (children.map LegacyChild.label) source.fields.taskId
      (spawnChild env children label job (legacyPlacement env job.id)).map fun child => children ++ [child]

/-- **`_spawn`**: the children, or what was raised. -/
def spawnLegacy (env : LegacyEnv) (sources : List TaskDirectory) : Except Exc (List LegacyChild) :=
  sources.foldlM (spawnSource env) []

/-! ## What the names of a directory say -/

/-- **What a name that matches is made of.** -/
theorem taskFields_some {name : PyStr} {fields : TaskFields} (h : taskFields name = some fields) :
    fields.taskset ∈ name.split '.' ∧ fields.taskId ∈ name.split '.' ∧ fields.status ∈ name.split '.'
      ∧ (1 ≤ fields.priority ∧ fields.priority ≤ 5)
      ∧ ∃ front, name.codes = front ++ '.'.toNat :: fields.status.codes := by
  unfold taskFields at h
  split at h
  · rename_i ht task taskset taskId step restarts owner priority status hsplit
    split_ifs at h with hall
    obtain ⟨-, -, -, -, -, -, -, ⟨hlow, hhigh⟩, -⟩ := hall
    obtain rfl := Option.some.inj h
    rw [hsplit]
    refine ⟨by simp, by simp, by simp, ⟨by dsimp only; omega, by dsimp only; omega⟩, ?_⟩
    have hwhole : ['.'.toNat].intercalate (name.codes.splitOn '.'.toNat) = name.codes :=
      List.intercalate_splitOn '.'.toNat
    have hcodes : name.codes.splitOn '.'.toNat = (name.split '.').map PyStr.codes := by
      unfold PyStr.split
      rw [List.map_map]
      exact (List.map_id _).symm
    rw [← hwhole, hcodes, hsplit]
    let front := [ht, task, taskset, taskId, step, restarts, owner, ⟨[priority]⟩]
    refine ⟨['.'.toNat].intercalate (front.map PyStr.codes), ?_⟩
    simp [front, List.intercalate]
  · cases h

theorem join_concat (parents : List PyStr) (name : PyStr) :
    ∃ front, (PyStr.join "/" (parents ++ [name])).codes = front ++ name.codes := by
  unfold PyStr.join
  induction parents with
  | nil => exact ⟨[], by simp⟩
  | cons parent parents ih =>
    obtain ⟨front, hfront⟩ := ih
    dsimp only at hfront ⊢
    rw [List.cons_append, List.map_cons, List.intercalate_cons_of_ne_nil (by simp), hfront]
    exact ⟨_, (List.append_assoc _ _ _).symm⟩

namespace TaskDirectory

variable (source : TaskDirectory)

theorem relative_split : ∃ front, source.relative.codes = front ++ '.'.toNat :: source.fields.status.codes := by
  obtain ⟨dir, hdir⟩ := join_concat source.parents source.name
  obtain ⟨-, -, -, -, front, hfront⟩ := taskFields_some source.matched
  exact ⟨dir ++ front, by rw [relative, hdir, hfront, List.append_assoc]⟩

theorem dot_notMem {field : PyStr} (h : field ∈ source.name.split '.') : '.'.toNat ∉ field.codes := by
  obtain ⟨codes, hcodes, rfl⟩ := List.mem_map.mp h
  exact separator_not_mem hcodes

theorem relative_of_idName {first second : TaskDirectory} (h : first.idName = second.idName) :
    first.relative = second.relative := by
  have hsplit : ∀ source : TaskDirectory, ∃ front,
      source.relative.codes = front ++ '.'.toNat :: source.fields.status.codes
      ∧ PyStr.rpartition source.idName '.' = some (⟨front⟩, ⟨source.fields.status.codes ++ '|'.toNat ::
        source.fields.taskset.codes ++ '|'.toNat :: source.fields.taskId.codes⟩) := by
    intro source
    obtain ⟨front, hfront⟩ := source.relative_split
    obtain ⟨htaskset, htaskId, hstatus, -⟩ := taskFields_some source.matched
    refine ⟨front, hfront, ?_⟩
    have hname : source.idName = ⟨front ++ '.'.toNat :: (source.fields.status.codes ++ '|'.toNat ::
        source.fields.taskset.codes ++ '|'.toNat :: source.fields.taskId.codes)⟩ := by
      unfold idName
      rw [hfront]
      simp
    rw [hname]
    refine PyStr.rpartition_append fun hdot => ?_
    simp only [List.mem_append, List.mem_cons] at hdot
    rcases hdot with (hdot | hdot | hdot) | hdot | hdot
    · exact source.dot_notMem hstatus hdot
    · exact absurd hdot (by decide)
    · exact source.dot_notMem htaskset hdot
    · exact absurd hdot (by decide)
    · exact source.dot_notMem htaskId hdot
  obtain ⟨front, hfront, hpart⟩ := hsplit first
  obtain ⟨front', hfront', hpart'⟩ := hsplit second
  rw [h, hpart'] at hpart
  obtain ⟨hfronts, htails⟩ := Prod.mk.inj (Option.some.inj hpart)
  have hfronts : front' = front := congrArg PyStr.codes hfronts
  have hstatus : first.fields.status = second.fields.status := by
    have htails := congrArg PyStr.codes htails
    rcases first.waits with hw | hw <;> rcases second.waits with hw' | hw' <;> rw [hw, hw'] at htails ⊢
    · simp [PyStr.ofString] at htails
    · simp [PyStr.ofString] at htails
  have hcodes : first.relative.codes = second.relative.codes := by rw [hfront, hfront', hfronts, hstatus]
  exact congrArg PyStr.mk hcodes

theorem encodable_codes_append {a b : List ℕ} :
    (⟨a ++ b⟩ : PyStr).encodable = true ↔ (⟨a⟩ : PyStr).encodable = true ∧ (⟨b⟩ : PyStr).encodable = true := by
  unfold PyStr.encodable
  rw [List.all_append, Bool.and_eq_true]

theorem encodable_idName : source.idName.encodable = true ↔ source.relative.encodable = true := by
  unfold idName
  rw [encodable_codes_append]
  refine ⟨fun h => (encodable_codes_append.mp h.1).1, fun h => ?_⟩
  obtain ⟨front, hfront⟩ := join_concat source.parents source.name
  obtain ⟨htaskset, htaskId, -⟩ := taskFields_some source.matched
  have hname : source.name.encodable = true := by
    have hrelative : (⟨front ++ source.name.codes⟩ : PyStr).encodable = true := hfront ▸ h
    exact (encodable_codes_append.mp hrelative).2
  have hbar : ∀ field : PyStr, field.encodable = true → (⟨'|'.toNat :: field.codes⟩ : PyStr).encodable = true :=
    fun field hfield => encodable_codes_append (a := ['|'.toNat]).mpr ⟨by decide, hfield⟩
  exact ⟨encodable_codes_append.mpr ⟨h, hbar _ (encodable_of_mem_split hname htaskset)⟩,
    hbar _ (encodable_of_mem_split hname htaskId)⟩

end TaskDirectory

/-! ## Ids and placements -/

def IsUuid (digits : List Char) : Prop := digits.all isHex = true ∧ digits.length = 32

/-- **What a legacy spawn relies on**: `uuid.UUID` reads the text of a UUID as it is, `uuid5` returns one, the job has
one, and its placement is accepted. -/
structure LegacyEnv.Sound (env : LegacyEnv) : Prop where
  uuid : ∀ digits, IsUuid digits → env.uuid (uuidString digits) = some (uuidString digits)
  uuid5 : ∀ name, IsUuid (env.uuid5 name)
  jobId : IsUuid env.jobId
  root : ∃ parts, normalizePlacement env.root = .ok parts

theorem uuidString_injective {a b : List Char} (ha : IsUuid a) (hb : IsUuid b) (h : uuidString a = uuidString b) :
    a = b := by
  have hchars : uuidText a = uuidText b :=
    List.map_injective_iff.mpr (fun c d hcd => Char.toNat_inj.mp hcd) (congrArg PyStr.codes h)
  rw [← uuidDigits_uuidText ha.1, hchars, uuidDigits_uuidText hb.1]

theorem codes_uuidString (digits : List Char) :
    ∃ rest, (uuidString digits).codes = (digits.take 8).map Char.toNat ++ '-'.toNat :: rest := by
  unfold uuidString uuidText
  exact ⟨_, by simp only [List.intercalate_cons_cons, List.map_append, List.map_cons, List.append_assoc,
    List.singleton_append]; rfl⟩

theorem toNat_of_isHex {c : Char} (h : isHex c = true) : 0x30 ≤ c.toNat ∧ c.toNat ≤ 0x66 := by
  unfold isHex at h
  simp only [Bool.or_eq_true, Bool.and_eq_true, decide_eq_true_eq, Char.le_def, UInt32.le_iff_toNat_le] at h
  simp only [Char.toNat]
  have h0 : '0'.val.toNat = 48 := rfl
  have h9 : '9'.val.toNat = 57 := rfl
  have ha : 'a'.val.toNat = 97 := rfl
  have hf : 'f'.val.toNat = 102 := rfl
  omega

theorem placementPart_hex {a b : Char} (ha : isHex a = true) (hb : isHex b = true) :
    placementPart ⟨[a.toNat, b.toNat]⟩ = .ok ⟨[a.toNat, b.toNat]⟩ := by
  obtain ⟨hla, hua⟩ := toNat_of_isHex ha
  obtain ⟨hlb, hub⟩ := toNat_of_isHex hb
  have hsafe : ¬((⟨[a.toNat, b.toNat]⟩ : PyStr) ∈ unsafePathComponents ∨ [a.toNat, b.toNat].contains 0) := by
    rintro (hmem | hnul)
    · simp [unsafePathComponents, PyStr.ofString] at hmem
      omega
    · simp at hnul
      omega
  have hencodes : (⟨[a.toNat, b.toNat]⟩ : PyStr).encodable = true := by
    simp [PyStr.encodable, PyStr.isSurrogate]
    omega
  have hbytes : (⟨[a.toNat, b.toNat]⟩ : PyStr).utf8Bytes = 2 := by
    simp [PyStr.utf8Bytes, PyStr.codeBytes]
    rw [if_pos (by omega), if_pos (by omega)]
  unfold placementPart utf8Length
  rw [if_neg hsafe, if_pos hencodes, hbytes]
  rfl

variable {digits : List Char}

theorem idPart_spec (h : IsUuid digits) :
    ∃ a b c d, isHex a = true ∧ isHex b = true ∧ isHex c = true ∧ isHex d = true
      ∧ idPart (uuidString digits) 0 = ⟨[a.toNat, b.toNat]⟩ ∧ idPart (uuidString digits) 2 = ⟨[c.toNat, d.toNat]⟩ := by
  obtain ⟨hall, hlength⟩ := h
  obtain ⟨rest, hrest⟩ := codes_uuidString digits
  match digits, hall, hlength, hrest with
  | a :: b :: c :: d :: digits, hall, hlength, hrest =>
    simp only [List.all_cons, Bool.and_eq_true] at hall
    obtain ⟨ha, hb, hc, hd, -⟩ := hall
    refine ⟨a, b, c, d, ha, hb, hc, hd, ?_, ?_⟩
    · unfold idPart
      rw [hrest]
      rfl
    · unfold idPart
      rw [hrest]
      rfl

theorem canonicalUuid_uuidString {env : LegacyEnv} (hs : env.Sound) (h : IsUuid digits) :
    canonicalUuid env.uuid (some (.str (uuidString digits))) "id" = .ok (uuidString digits) := by
  have hne : (uuidString digits).codes ≠ [] := by
    obtain ⟨rest, hrest⟩ := codes_uuidString digits
    rw [hrest]
    exact List.append_ne_nil_of_right_ne_nil _ (List.cons_ne_nil _ _)
  have hstring : requireString (some (.str (uuidString digits))) "id" = .ok (uuidString digits) := if_neg hne
  have hself : ¬uuidString digits ≠ uuidString digits := fun hne => hne rfl
  simp only [canonicalUuid, hstring, bind, Except.bind, hs.uuid digits h, if_neg hself]

theorem mapM_placementPart_append {first second : List PyStr} (h : first.mapM placementPart = .ok first)
    (h' : second.mapM placementPart = .ok second) : (first ++ second).mapM placementPart = .ok (first ++ second) := by
  rw [List.mapM_append, h, h']
  rfl

theorem normalizePlacement_legacyPlacement {env : LegacyEnv} (hs : env.Sound)
    (h : IsUuid digits) : normalizePlacement (legacyPlacement env (uuidString digits))
      = .ok (placementParts env (uuidString digits))
      ∧ (placementParts env (uuidString digits)).mapM placementPart = .ok (placementParts env (uuidString digits)) := by
  obtain ⟨parts, hroot⟩ := hs.root
  unfold normalizePlacement at hroot
  dsimp only at hroot
  split_ifs at hroot with hbad
  · cases hroot
  obtain ⟨hhead, -⟩ := not_or.mp hbad
  have hparts : (pathParts env.root).mapM placementPart = .ok (pathParts env.root) := by
    have hself : parts = pathParts env.root := (mapM_placementPart hroot).1
    rw [hself] at hroot
    exact hroot
  obtain ⟨a, b, c, d, ha, hb, hc, hd, hjob, hjob'⟩ := idPart_spec hs.jobId
  obtain ⟨a', b', c', d', ha', hb', hc', hd', hid, hid'⟩ := idPart_spec h
  have hdigits : [PyStr.ofString "v1-children", idPart (uuidString env.jobId) 0, idPart (uuidString env.jobId) 2,
      idPart (uuidString digits) 0, idPart (uuidString digits) 2].mapM placementPart
      = .ok [PyStr.ofString "v1-children", idPart (uuidString env.jobId) 0, idPart (uuidString env.jobId) 2,
      idPart (uuidString digits) 0, idPart (uuidString digits) 2] := by
    have hname : placementPart "v1-children" = .ok "v1-children" := by rfl
    rw [hjob, hjob', hid, hid']
    simp only [List.mapM_cons, List.mapM_nil, hname, placementPart_hex ha hb, placementPart_hex hc hd,
      placementPart_hex ha' hb', placementPart_hex hc' hd']
    rfl
  have hall := mapM_placementPart_append hparts hdigits
  refine ⟨?_, hall⟩
  have htext : legacyPlacement env (uuidString digits)
      = PyStr.join "/" (placementParts env (uuidString digits)) := if_neg hhead
  rw [htext]
  refine normalizePlacement_join (fun part hpart => ?_) (by simp [placementParts]) hall
  unfold placementParts at hpart
  rcases List.mem_append.mp hpart with hpart | hpart
  · obtain ⟨codes, hcodes, rfl⟩ := List.mem_map.mp (List.mem_filter.mp hpart).1
    exact separator_not_mem hcodes
  · rw [hjob, hjob', hid, hid'] at hpart
    have hslash : ∀ {x y : Char}, isHex x = true → isHex y = true → '/'.toNat ∉ [x.toNat, y.toNat] := by
      intro x y hx hy hmem
      have hslash : '/'.toNat = 0x2F := rfl
      have hlx := (toNat_of_isHex hx).1
      have hly := (toNat_of_isHex hy).1
      simp only [List.mem_cons, List.not_mem_nil, or_false] at hmem
      omega
    simp only [List.mem_cons, List.not_mem_nil, or_false] at hpart
    rcases hpart with rfl | rfl | rfl | rfl | rfl
    · decide
    · exact hslash ha hb
    · exact hslash hc hd
    · exact hslash ha' hb'
    · exact hslash hc' hd'

/-! ## One child -/

/-- **Whether a directory gets a child**, beside the directories before it: its path can be encoded, its pool is a
label, there is room for its label, and its id is new. -/
structure Spawnable (env : LegacyEnv) (children : List LegacyChild) (source : TaskDirectory) : Prop where
  path : source.relative.encodable = true
  pool : isLabel source.pool = true
  label : RoomFor env.lower (children.map LegacyChild.label) source.fields.taskId
  id : uuidString (env.uuid5 source.idName) ∉ children.map fun child => child.job.id

def childOf (env : LegacyEnv) (children : List LegacyChild) (source : TaskDirectory) : LegacyChild where
  label := legacyLabel env.lower (children.map LegacyChild.label) source.fields.taskId
  job := legacyJob env source
  placement := placementParts env (uuidString (env.uuid5 source.idName))

section Spawn

variable {env : LegacyEnv}

theorem check_legacyJob (hs : env.Sound) (source : TaskDirectory) :
    (legacyJob env source).check env = .ok () ↔ isLabel source.pool = true := by
  have htag : validateLabel (some (.str (legacyJob env source).tag)) "tag" = .ok (legacyJob env source).tag :=
    validateLabel_eq_ok.mpr ⟨isLabel_safeTag env.lower _, rfl⟩
  have hname : requireString (some (.str (legacyJob env source).name)) "name" = .ok (legacyJob env source).name := by
    have hne : (legacyJob env source).name.codes ≠ [] := fun hnil =>
      absurd (List.append_eq_nil_iff.mp hnil).1 (by decide)
    unfold requireString
    exact if_neg hne
  have hstep : validateStep (some (.str (legacyJob env source).initialStep)) "initial_step"
      = .ok "start" := by rfl
  have hpriority : requireInt (some (.int (legacyJob env source).priority)) "priority" 0 (some 999)
      = .ok (legacyJob env source).priority := by
    obtain ⟨-, -, -, ⟨hlow, hhigh⟩, -⟩ := taskFields_some source.matched
    have hpriority : (legacyJob env source).priority = 200 * source.fields.priority - 100 := rfl
    refine if_neg ?_
    rintro (hsmall | hbig)
    · omega
    · have hbig : (legacyJob env source).priority > 999 := of_decide_eq_true hbig
      omega
  have hcheck : (legacyJob env source).check env
      = (validateLabel (some (.str source.pool)) "claim.pool" >>= fun _ => .ok ()) := by
    unfold LegacyJob.check
    have hid : canonicalUuid env.uuid (some (.str (legacyJob env source).id)) "id" = .ok (legacyJob env source).id :=
      canonicalUuid_uuidString hs (hs.uuid5 _)
    rw [hid, htag, hname, hstep, hpriority]
    rfl
  rw [hcheck, bind_eq_ok]
  constructor
  · rintro ⟨text, htext, -⟩
    exact (validateLabel_eq_ok.mp htext).1
  · exact fun h => ⟨source.pool, validateLabel_eq_ok.mpr ⟨h, rfl⟩, rfl⟩

theorem childLabel_requested {used : List PyStr} {child : LabelledChild} {label text : PyStr}
    (hrequested : child.requested = some label) :
    childLabel used child = .ok text ↔ isLabel label = true ∧ label ∉ used ∧ text = label := by
  unfold childLabel
  rw [hrequested]
  dsimp only
  rw [bind_eq_ok]
  constructor
  · rintro ⟨given, hgiven, h⟩
    obtain ⟨hlabel, rfl⟩ := validateLabel_eq_ok.mp hgiven
    split_ifs at h with hused
    exact ⟨hlabel, hused, (Except.ok.inj h).symm⟩
  · rintro ⟨hlabel, hused, rfl⟩
    exact ⟨text, validateLabel_eq_ok.mpr ⟨hlabel, rfl⟩, if_neg hused⟩

variable {children : List LegacyChild}

theorem spawnChild_eq_ok {label : PyStr} {job : LegacyJob} {placement : PyStr} {child : LegacyChild} :
    spawnChild env children label job placement = .ok child
      ↔ isLabel label = true ∧ job.check env = .ok () ∧ label ∉ children.map LegacyChild.label
        ∧ ∃ parts, normalizePlacement placement = .ok parts ∧ child = ⟨label, job, parts⟩ := by
  unfold spawnChild
  constructor
  · intro h
    obtain ⟨entry, hentry, hchecked⟩ := bind_eq_ok.mp h
    obtain ⟨⟨⟩, hcheck, hregistered⟩ := bind_eq_ok.mp hchecked
    obtain ⟨given, hgiven, hplaced⟩ := bind_eq_ok.mp hregistered
    obtain ⟨parts, hparts, hchild⟩ := bind_eq_ok.mp hplaced
    obtain ⟨hlabel, rfl⟩ := validateLabel_eq_ok.mp hentry
    obtain ⟨-, hused, rfl⟩ := (childLabel_requested rfl).mp hgiven
    exact ⟨hlabel, hcheck, hused, parts, hparts, (Except.ok.inj hchild).symm⟩
  · rintro ⟨hlabel, hcheck, hused, parts, hparts, rfl⟩
    refine bind_eq_ok.mpr ⟨label, validateLabel_eq_ok.mpr ⟨hlabel, rfl⟩, bind_eq_ok.mpr ⟨(), hcheck, ?_⟩⟩
    refine bind_eq_ok.mpr ⟨label, (childLabel_requested rfl).mpr ⟨hlabel, hused, rfl⟩, ?_⟩
    exact bind_eq_ok.mpr ⟨parts, hparts, rfl⟩

theorem spawnSource_eq_ok (hs : env.Sound) {children result : List LegacyChild} {source : TaskDirectory} :
    spawnSource env children source = .ok result
      ↔ Spawnable env children source ∧ result = children ++ [childOf env children source] := by
  have hplacement : normalizePlacement (legacyPlacement env (legacyJob env source).id)
      = .ok (placementParts env (legacyJob env source).id) :=
    (normalizePlacement_legacyPlacement hs (hs.uuid5 source.idName)).1
  have hnew := legacyLabel_notMem env.lower (children.map LegacyChild.label) source.fields.taskId
  have hroom := isLabel_legacyLabel env.lower (children.map LegacyChild.label) source.fields.taskId
  unfold spawnSource
  dsimp only
  split_ifs with hencodes hid
  · refine iff_of_false (fun h => (by cases h)) fun h => ?_
    rw [source.encodable_idName.mpr h.1.path] at hencodes
    cases hencodes
  · exact iff_of_false (fun h => (by cases h)) fun h => h.1.id hid
  · rw [map_eq_ok]
    constructor
    · rintro ⟨child, hchild, rfl⟩
      obtain ⟨hlabel, hcheck, -, parts, hparts, rfl⟩ := spawnChild_eq_ok.mp hchild
      obtain rfl := Except.ok.inj (hparts.symm.trans hplacement)
      refine ⟨⟨?_, (check_legacyJob hs source).mp hcheck, hroom.mp hlabel, hid⟩, rfl⟩
      exact source.encodable_idName.mp (Bool.of_not_eq_false hencodes)
    · rintro ⟨h, rfl⟩
      refine ⟨childOf env children source, spawnChild_eq_ok.mpr ?_, rfl⟩
      exact ⟨hroom.mpr h.label, (check_legacyJob hs source).mpr h.pool, hnew, _, hplacement, rfl⟩

/-! ## All children -/

/-- **The children of some directories**, if all of them get one. -/
def childrenOf (env : LegacyEnv) (sources : List TaskDirectory) : List LegacyChild :=
  sources.foldl (fun children source => children ++ [childOf env children source]) []

/-- **The labels of some tasks**, in the order they are given. -/
def legacyLabels (lower : PyStr → PyStr) (sources : List TaskDirectory) : List PyStr :=
  sources.foldl (fun used source => used ++ [legacyLabel lower used source.fields.taskId]) []

theorem childrenOf_concat (sources : List TaskDirectory) (source : TaskDirectory) : childrenOf env (sources ++ [source])
      = childrenOf env sources ++ [childOf env (childrenOf env sources) source] := by
  unfold childrenOf
  rw [List.foldl_concat]

theorem labels_childrenOf (sources : List TaskDirectory) :
    (childrenOf env sources).map LegacyChild.label = legacyLabels env.lower sources := by
  induction sources using List.reverseRecOn with
  | nil => rfl
  | append_singleton sources source ih =>
    have hlabels : legacyLabels env.lower (sources ++ [source]) = legacyLabels env.lower sources
        ++ [legacyLabel env.lower (legacyLabels env.lower sources) source.fields.taskId] := by
      unfold legacyLabels
      rw [List.foldl_concat]
    rw [childrenOf_concat, List.map_append, hlabels, ← ih]
    rfl

theorem jobs_childrenOf (sources : List TaskDirectory) :
    (childrenOf env sources).map LegacyChild.job = sources.map (legacyJob env) := by
  induction sources using List.reverseRecOn with
  | nil => rfl
  | append_singleton sources source ih =>
    rw [childrenOf_concat, List.map_append, List.map_append, ih]
    rfl

theorem forall_split_concat {α : Type} {P : List α → α → Prop} {l : List α} {a : α} :
    (∀ before x after, l ++ [a] = before ++ x :: after → P before x)
      ↔ (∀ before x after, l = before ++ x :: after → P before x) ∧ P l a := by
  constructor
  · refine fun h => ⟨fun before x after hsplit => h before x (after ++ [a]) ?_, h l a [] rfl⟩
    rw [hsplit, List.append_assoc, List.cons_append]
  · rintro ⟨hall, hlast⟩ before x after hsplit
    rcases List.eq_nil_or_concat after with rfl | ⟨after, b, rfl⟩
    · obtain ⟨rfl, hx⟩ := List.append_inj' hsplit rfl
      obtain rfl := List.singleton_inj.mp hx
      exact hlast
    · rw [List.concat_eq_append, ← List.cons_append, ← List.append_assoc] at hsplit
      exact hall before x after (List.append_inj' hsplit rfl).1

theorem spawnLegacy_eq_ok (hs : env.Sound) {sources : List TaskDirectory} :
    spawnLegacy env sources = .ok children ↔ (∀ before source after, sources = before ++ source :: after →
          Spawnable env (childrenOf env before) source) ∧ children = childrenOf env sources := by
  induction sources using List.reverseRecOn generalizing children with
  | nil =>
    refine ⟨fun h => ⟨fun before source after hsplit => ?_, (Except.ok.inj h).symm⟩, fun h => h.2 ▸ rfl⟩
    exact absurd hsplit.symm (List.append_ne_nil_of_right_ne_nil _ (List.cons_ne_nil _ _))
  | append_singleton sources source ih =>
    have hrun : spawnLegacy env (sources ++ [source])
        = (spawnLegacy env sources >>= fun children => spawnSource env children source) := by
      unfold spawnLegacy
      rw [List.foldlM_append]
      refine bind_congr fun children => ?_
      rw [List.foldlM_cons]
      exact bind_pure _
    rw [hrun, bind_eq_ok, forall_split_concat, childrenOf_concat]
    constructor
    · rintro ⟨before, hbefore, hlast⟩
      obtain ⟨hall, rfl⟩ := ih.mp hbefore
      obtain ⟨hspawnable, rfl⟩ := (spawnSource_eq_ok hs).mp hlast
      exact ⟨⟨hall, hspawnable⟩, rfl⟩
    · rintro ⟨⟨hall, hspawnable⟩, rfl⟩
      exact ⟨childrenOf env sources, ih.mpr ⟨hall, rfl⟩, (spawnSource_eq_ok hs).mpr ⟨hspawnable, rfl⟩⟩

end Spawn

/-- **The names of a child are valid**: its label, tag, pool, id and placement are accepted. -/
structure LegacyChild.Valid (env : LegacyEnv) (child : LegacyChild) : Prop where
  label : isLabel child.label = true
  tag : isLabel child.job.tag = true
  pool : isLabel child.job.pool = true
  id : canonicalUuid env.uuid (some (.str child.job.id)) "id" = .ok child.job.id
  placement : child.placement ≠ [] ∧ child.placement.mapM placementPart = .ok child.placement

/-- **A spawn that succeeds**: one valid child of each directory, the labels and the ids different. -/
structure LegacySpawned (env : LegacyEnv) (sources : List TaskDirectory) (children : List LegacyChild) : Prop where
  returns : spawnLegacy env sources = .ok children
  jobs : children.map LegacyChild.job = sources.map (legacyJob env)
  valid : ∀ child ∈ children, child.Valid env
  labels : (children.map LegacyChild.label).Nodup
  ids : (children.map fun child => child.job.id).Nodup

theorem nodup_legacyLabels (lower : PyStr → PyStr) (sources : List TaskDirectory) :
    (legacyLabels lower sources).Nodup := by
  induction sources using List.reverseRecOn with
  | nil => exact List.nodup_nil
  | append_singleton sources source ih =>
    unfold legacyLabels at ih ⊢
    rw [List.foldl_concat]
    refine List.nodup_append'.mpr ⟨ih, List.nodup_singleton _, ?_⟩
    exact List.disjoint_singleton.mpr (legacyLabel_notMem lower _ _)

section Ids

variable {env : LegacyEnv} {sources : List TaskDirectory}

theorem ids_childrenOf (sources : List TaskDirectory) : (childrenOf env sources).map (fun child => child.job.id)
    = sources.map fun source => uuidString (env.uuid5 source.idName) := by
  have hjobs : (childrenOf env sources).map (fun child => child.job.id)
      = ((childrenOf env sources).map LegacyChild.job).map LegacyJob.id := by rw [List.map_map]; rfl
  rw [hjobs, jobs_childrenOf, List.map_map]
  rfl

theorem nodup_ids (hs : env.Sound) (hdistinct : (sources.map TaskDirectory.relative).Nodup)
    (hcollision : ∀ first ∈ sources, ∀ second ∈ sources,
      env.uuid5 first.idName = env.uuid5 second.idName → first.idName = second.idName) :
    (sources.map fun source => uuidString (env.uuid5 source.idName)).Nodup := by
  refine List.Nodup.map_on (fun first hfirst second hsecond hid => ?_) (List.Nodup.of_map _ hdistinct)
  have huuid := uuidString_injective (hs.uuid5 _) (hs.uuid5 _) hid
  have hrelative := TaskDirectory.relative_of_idName (hcollision first hfirst second hsecond huuid)
  exact List.inj_on_of_nodup_map hdistinct hfirst hsecond hrelative

theorem valid_childrenOf (hs : env.Sound)
    (h : ∀ before source after, sources = before ++ source :: after → Spawnable env (childrenOf env before) source) :
    ∀ child ∈ childrenOf env sources, child.Valid env := by
  induction sources using List.reverseRecOn with
  | nil => exact fun child hchild => absurd hchild List.not_mem_nil
  | append_singleton sources source ih =>
    obtain ⟨hbefore, hlast⟩ := forall_split_concat.mp h
    rw [childrenOf_concat]
    intro child hchild
    rcases List.mem_append.mp hchild with hchild | hchild
    · exact ih hbefore child hchild
    · obtain rfl := List.mem_singleton.mp hchild
      have huuid := hs.uuid5 source.idName
      exact ⟨(isLabel_legacyLabel _ _ _).mpr hlast.label, isLabel_safeTag _ _, hlast.pool,
        canonicalUuid_uuidString hs huuid, by simp [childOf, placementParts],
        (normalizePlacement_legacyPlacement hs huuid).2⟩

end Ids

theorem isLabel_pool (source : TaskDirectory) : isLabel source.pool = true
      ↔ source.fields.taskset = PyStr.ofString "any" ∨ isLabel source.fields.taskset = true := by
  unfold TaskDirectory.pool
  split_ifs with hany
  · exact iff_of_true (by decide) (Or.inl hany)
  · exact (or_iff_right hany).symm

/-- **Legacy names become valid children** exactly if every path can be encoded, every task set is `any` or a label,
and there is room for every label beside those given before. -/
theorem spawnLegacy_iff {env : LegacyEnv} (hs : env.Sound) {sources : List TaskDirectory}
    (hdistinct : (sources.map TaskDirectory.relative).Nodup)
    (hcollision : ∀ first ∈ sources, ∀ second ∈ sources,
      env.uuid5 first.idName = env.uuid5 second.idName → first.idName = second.idName) :
    (∃ children, LegacySpawned env sources children)
      ↔ (∀ source ∈ sources, source.relative.encodable = true)
        ∧ (∀ source ∈ sources, source.fields.taskset = PyStr.ofString "any" ∨ isLabel source.fields.taskset = true)
        ∧ ∀ before source after, sources = before ++ source :: after →
            RoomFor env.lower (legacyLabels env.lower before) source.fields.taskId := by
  have hids := nodup_ids hs hdistinct hcollision
  constructor
  · rintro ⟨children, h⟩
    obtain ⟨hall, -⟩ := (spawnLegacy_eq_ok hs).mp h.returns
    refine ⟨fun source hsource => ?_, fun source hsource => ?_, fun before source after hsplit => ?_⟩
    · obtain ⟨before, after, hsplit⟩ := List.append_of_mem hsource
      exact (hall before source after hsplit).path
    · obtain ⟨before, after, hsplit⟩ := List.append_of_mem hsource
      exact (isLabel_pool source).mp (hall before source after hsplit).pool
    · exact labels_childrenOf before ▸ (hall before source after hsplit).label
  · rintro ⟨hpath, hpool, hroom⟩
    have hall : ∀ before source after, sources = before ++ source :: after →
        Spawnable env (childrenOf env before) source := by
      intro before source after hsplit
      have hmem : source ∈ sources := hsplit ▸ List.mem_append_right _ List.mem_cons_self
      refine ⟨hpath source hmem, (isLabel_pool source).mpr (hpool source hmem), ?_, ?_⟩
      · rw [labels_childrenOf]
        exact hroom before source after hsplit
      · rw [ids_childrenOf]
        rw [hsplit, List.map_append, List.map_cons] at hids
        intro hmem
        exact List.disjoint_of_nodup_append hids hmem List.mem_cons_self
    refine ⟨childrenOf env sources, (spawnLegacy_eq_ok hs).mpr ⟨hall, rfl⟩, jobs_childrenOf sources,
      valid_childrenOf hs hall, ?_, ?_⟩
    · rw [labels_childrenOf]
      exact nodup_legacyLabels env.lower sources
    · rw [ids_childrenOf]
      exact hids

def plainLegacyEnv : LegacyEnv where
  lower text := ⟨text.codes.map fun c => if 0x41 ≤ c ∧ c ≤ 0x5A then c + 0x20 else c⟩
  uuid := some
  uuid5 name := List.replicate 31 '0' ++ [digitChar (name.codes.length % 16)]
  jobId := List.replicate 32 '0'
  root := PyStr.ofString "jobs"

theorem plainLegacyEnv_sound : plainLegacyEnv.Sound where
  uuid _ _ := rfl
  uuid5 name := by
    refine ⟨?_, rfl⟩
    rw [show plainLegacyEnv.uuid5 name = List.replicate 31 '0' ++ [digitChar (name.codes.length % 16)] from rfl,
      List.all_append, List.all_cons, isHex_digitChar (Nat.mod_lt _ (by decide))]
    rfl
  jobId := ⟨by decide, rfl⟩
  root := ⟨_, rfl⟩

def anyTask : TaskDirectory where
  parents := ["children"]
  name := "ht.task.any.one.child.0.none.4.waitstart"
  fields := ⟨"any", "one", "child", "0",
    "none", 4, "waitstart"⟩
  matched := by decide +kernel
  waits := Or.inl rfl

def upperTask : TaskDirectory where
  parents := ["more"]
  name := "ht.task.any.One.child.0.none.4.waitstart"
  fields := ⟨"any", "One", "child", "0",
    "none", 4, "waitstart"⟩
  matched := by decide +kernel
  waits := Or.inl rfl

/-- Two tasks become children whose labels differ by the number of the second: `one` and `One` fold to one label. -/
theorem spawnLegacy_iff_folded : ∃ children, LegacySpawned plainLegacyEnv [anyTask, upperTask] children := by
  have hdistinct : ([anyTask, upperTask].map TaskDirectory.relative).Nodup := by decide +kernel
  have hcollision : ∀ first ∈ [anyTask, upperTask], ∀ second ∈ [anyTask, upperTask],
      plainLegacyEnv.uuid5 first.idName = plainLegacyEnv.uuid5 second.idName → first.idName = second.idName := by
    have hdiffer : plainLegacyEnv.uuid5 anyTask.idName ≠ plainLegacyEnv.uuid5 upperTask.idName := by decide +kernel
    intro first hfirst second hsecond h
    rcases List.mem_pair.mp hfirst with rfl | rfl <;> rcases List.mem_pair.mp hsecond with rfl | rfl
    · rfl
    · exact absurd h hdiffer
    · exact absurd h.symm hdiffer
    · rfl
  refine (spawnLegacy_iff plainLegacyEnv_sound hdistinct hcollision).mpr ⟨?_, ?_, ?_⟩
  · decide +kernel
  · decide +kernel
  · let P : List TaskDirectory → TaskDirectory → Prop := fun before source =>
      RoomFor plainLegacyEnv.lower (legacyLabels plainLegacyEnv.lower before) source.fields.taskId
    have hfirst : P [] anyTask := Or.inl List.not_mem_nil
    have hsecond : P [anyTask] upperTask :=
      Or.inr ⟨by decide +kernel, 2, le_rfl, by decide +kernel, by decide +kernel⟩
    exact (forall_split_concat (P := P) (l := [anyTask])).mpr ⟨(forall_split_concat (P := P) (l := [])).mpr
      ⟨fun before x after h => absurd h.symm (List.append_ne_nil_of_right_ne_nil _ (List.cons_ne_nil _ _)), hfirst⟩,
      hsecond⟩

/-! ## Names that are refused -/

def mySetTask : TaskDirectory where
  parents := []
  name := "ht.task.My Set.one.child.0.none.4.waitstart"
  fields := ⟨"My Set", "one", "child", "0",
    PyStr.ofString "none", 4, PyStr.ofString "waitstart"⟩
  matched := by decide +kernel
  waits := Or.inl rfl

def longIdTask (step : String) (h : taskFields (PyStr.ofString
    ("ht.task.any.aaaaaaaaaaaaaaaaaaaaaaaaaaaaaaaaaaaaaaaaaaa-b." ++ step ++ ".0.none.4.waitstart"))
      = some ⟨PyStr.ofString "any", PyStr.ofString "aaaaaaaaaaaaaaaaaaaaaaaaaaaaaaaaaaaaaaaaaaa-b", PyStr.ofString step,
        PyStr.ofString "0", PyStr.ofString "none", 4, PyStr.ofString "waitstart"⟩) : TaskDirectory where
  parents := []
  name := _
  fields := _
  matched := h
  waits := Or.inl rfl

/-- **Names that are refused**: the task set `My Set` as a claim pool, and the label of the second of two tasks whose
id has a hyphen as its 44th character. -/
theorem legacyNames_refused : plainLegacyEnv.Sound
    ∧ spawnLegacy plainLegacyEnv [mySetTask]
      = .error ⟨.formatError, [.lit "claim.pool", .lit " has invalid component syntax"]⟩
    ∧ (spawnLegacy plainLegacyEnv [longIdTask "one" (by decide +kernel)]).isOk = true
    ∧ (spawnLegacy plainLegacyEnv
        [longIdTask "one" (by decide +kernel), longIdTask "three" (by decide +kernel)]).isOk = false :=
  ⟨plainLegacyEnv_sound, by rfl, by decide +kernel, by decide +kernel⟩
