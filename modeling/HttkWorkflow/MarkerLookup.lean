import HttkWorkflow.Numerals
import HttkWorkflow.RequestHandling
import Mathlib.Data.List.Infix

/-!
# The marker index

Where a job is right now is asked for by its id, by its key, and by its key at
a placement, and the answer is one marker below `state/`. A scan of the whole
tree would give it. The lookups avoid the scan with an index in memory, which
names the last known path of each active job: a path the index names is
confirmed in the tree before it is returned, a stale one is followed by a
probe of the state kinds at its placement, and absence is only declared by a
scan, which rebuilds the index. Other processes move markers without this
index, so that it may name any path at all; its own invariant is no more than
that the kinds in it are active and its size is bounded.

What a lookup takes for a marker is more than what the scan does. The scan
takes no symbolic link, and the probes do; and the pattern with which
`find_marker_at` looks for a job key is also matched by the name of another
job's marker whose tag begins with that key and goes on like a marker. On
trees without either, and only on those, the lookups are the scan
(`lookups_agree`).
-/

/-! ## Names of markers -/

/-- **A job key** that parses. -/
structure ValidJobKey where
  text : PyStr
  tag : Option PyStr
  id : PyStr
  parsed : parseJobKey text = .ok (tag, id)
deriving DecidableEq

/-- **A state marker**, by its path. -/
structure StateMarker where
  kind : StateKind
  placement : List PyStr
  jobKey : ValidJobKey
  priority : Nat
  generation : Nat
  recordRef : PyStr
deriving DecidableEq

namespace StateMarker

def jobId (m : StateMarker) : PyStr := m.jobKey.id

/-- The three digits of a priority. -/
def priorityText (priority : Nat) : List Nat :=
  [priority / 100 % 10 + 0x30, priority / 10 % 10 + 0x30, priority % 10 + 0x30]

/-- What follows the job key in a basename, after the priority. -/
def generationText (m : StateMarker) : List Nat :=
  (Numerals.toBase36 m.generation).map Char.toNat ++ '.'.toNat :: m.recordRef.codes

/-- **`marker_basename`**. -/
def basename (m : StateMarker) : PyStr :=
  ⟨m.jobKey.text.codes ++ ['.'.toNat, 'p'.toNat] ++ priorityText m.priority
    ++ ['.'.toNat, 'g'.toNat] ++ m.generationText⟩

end StateMarker

def dropLiteral (literal name : List Nat) : Option (List Nat) :=
  if literal.isPrefixOf name then some (name.drop literal.length) else none

/-- Whether a name matches a literal followed by `.p???.g*.*`. -/
def matchesShape (literal name : List Nat) : Bool :=
  match dropLiteral (literal ++ ['.'.toNat, 'p'.toNat]) name with
  | some (_ :: _ :: _ :: rest) =>
    match dropLiteral ['.'.toNat, 'g'.toNat] rest with
    | some rest => rest.contains '.'.toNat
    | none => false
  | _ => false

/-- The pattern of a job key, `{job_key}.p???.g*.*`. -/
def matchesKey (jobKey : ValidJobKey) (name : PyStr) : Bool :=
  matchesShape jobKey.text.codes name.codes

/-- The pattern of a job id, `*{job_id}.p???.g*.*`. -/
def matchesId (jobId name : PyStr) : Bool := name.codes.tails.any (matchesShape jobId.codes)

/-! ## The state tree -/

/-- **What is below `state/` under the name of a marker**: a regular file, or a
symbolic link to one. -/
structure StateEntry where
  marker : StateMarker
  regular : Bool
deriving DecidableEq

/-- **The state tree**, at most one entry at a path. -/
structure StateTree where
  entries : List StateEntry
  paths : (entries.map StateEntry.marker).Nodup

/-- `CORE_STATE_KINDS`. -/
def coreKinds : List StateKind :=
  [.submitted, .ready, .claimed, .running, .committing, .cancelling, .waiting, .paused, .succeeded,
    .failed, .cancelled]

def stateKinds : List StateKind :=
  [.submitted, .ready, .claimed, .running, .committing, .cancelling, .relocating, .transferring,
    .waiting, .paused, .succeeded, .failed, .cancelled]

/-- Whether a kind is in `ACTIVE_STATE_KINDS`. -/
def StateKind.isActive (kind : StateKind) : Bool := kind.isCore && !kind.isTerminal

namespace StateTree

/-- **`scan_markers`**: the regular files of some kinds. -/
def scan (tree : StateTree) (kinds : List StateKind) : List StateMarker :=
  kinds.flatMap fun kind =>
    (tree.entries.filter fun e => e.regular && e.marker.kind = kind).map StateEntry.marker

/-- What a pattern finds in the directory of a kind and a placement. -/
def globAt (tree : StateTree) (kind : StateKind) (placement : List PyStr) (pattern : PyStr → Bool) :
    List StateMarker :=
  (tree.entries.filter fun e => e.marker.kind = kind ∧ e.marker.placement = placement
    ∧ pattern e.marker.basename = true).map StateEntry.marker

/-- What a pattern finds in all core kinds at a placement. -/
def glob (tree : StateTree) (placement : List PyStr) (pattern : PyStr → Bool) : List StateMarker :=
  coreKinds.flatMap fun kind => tree.globAt kind placement pattern

/-- **Markers are unique**: no job has two. -/
def Unique (tree : StateTree) : Prop :=
  ((tree.entries.filter StateEntry.regular).map fun e => e.marker.jobId).Nodup

/-- **Nothing else is taken for a marker**: no symbolic link stands under the
name of one, and no name matches the pattern of another job key. -/
structure Plain (tree : StateTree) : Prop where
  regular : ∀ e ∈ tree.entries, e.marker.kind.isCore = true → e.regular = true
  named : ∀ jobKey : ValidJobKey, ∀ e ∈ tree.entries, e.marker.kind.isCore = true →
    matchesKey jobKey e.marker.basename = true → e.marker.jobKey = jobKey

end StateTree

/-! ## The index -/

/-- **The index**: paths of active jobs, the least recently touched first. -/
structure MarkerIndex (capacity : Nat) where
  entries : List (PyStr × StateMarker)
  active : ∀ e ∈ entries, e.snd.kind.isActive = true
  bounded : entries.length ≤ capacity

/-- **What a process remembers between lookups**: the index, if there is one,
and the jobs of which the last scan saw two markers. -/
structure LookupMemory (capacity : Nat) where
  index : Option (MarkerIndex capacity)
  duplicates : List PyStr

namespace MarkerIndex

variable {capacity : Nat}

/-- `index.get(job_id)`. -/
def get (index : MarkerIndex capacity) (jobId : PyStr) : Option StateMarker :=
  index.entries.lookup jobId

def trimmed (capacity : Nat) (entries : List (PyStr × StateMarker)) : List (PyStr × StateMarker) :=
  entries.drop (entries.length - capacity)

/-- **`_trim_index`**: the least recently touched entries are evicted. -/
def trim (entries : List (PyStr × StateMarker))
    (h : ∀ e ∈ entries, e.snd.kind.isActive = true) : MarkerIndex capacity where
  entries := trimmed capacity entries
  active e he := h e (List.mem_of_mem_drop he)
  bounded := by
    unfold trimmed
    rw [List.length_drop]
    omega

/-- `index.pop(job_id, None)`. -/
def pop (index : MarkerIndex capacity) (jobId : PyStr) : MarkerIndex capacity where
  entries := index.entries.filter fun e => e.fst ≠ jobId
  active e he := index.active e (List.mem_of_mem_filter he)
  bounded := (List.length_filter_le _ _).trans index.bounded

/-- **`_index_note`**: the marker of an active job is recorded as the most
recently touched one, and a job that is not active is dropped. -/
def note (index : MarkerIndex capacity) (m : StateMarker) : MarkerIndex capacity :=
  if h : m.kind.isActive = true then
    trim ((index.pop m.jobId).entries ++ [(m.jobId, m)])
      (List.forall_mem_append.mpr ⟨(index.pop m.jobId).active, List.forall_mem_singleton.mpr h⟩)
  else index.pop m.jobId

/-- `index.move_to_end(job_id)` of an entry. -/
def touch (index : MarkerIndex capacity) (jobId : PyStr) : MarkerIndex capacity :=
  match index.get jobId with
  | some m => index.note m
  | none => index

/-- The entries of the active markers a scan saw. -/
def ofSeen (seen : List StateMarker) : List (PyStr × StateMarker) :=
  (seen.filter fun m => m.kind.isActive).foldl (fun entries m => Dict.assign entries m.jobId m) []

theorem active_ofSeen (seen : List StateMarker) : ∀ e ∈ ofSeen seen, e.snd.kind.isActive = true := by
  have hfold : ∀ markers : List StateMarker, (∀ m ∈ markers, m.kind.isActive = true) →
      ∀ entries : List (PyStr × StateMarker), (∀ e ∈ entries, e.snd.kind.isActive = true) →
        ∀ e ∈ markers.foldl (fun entries m => Dict.assign entries m.jobId m) entries, e.snd.kind.isActive = true := by
    intro markers
    induction markers with
    | nil => exact fun _ entries h => h
    | cons m markers ih =>
      intro hactive entries h
      obtain ⟨hm, hmarkers⟩ := List.forall_mem_cons.mp hactive
      exact ih hmarkers _ (Dict.forall_assign (P := fun m : StateMarker => m.kind.isActive = true) h hm)
  refine hfold _ (fun m hm => ?_) [] fun e he => absurd he List.not_mem_nil
  exact (List.mem_filter.mp hm).2

/-- **`_rebuild_marker_index`**: what a scan that saw these markers leaves. -/
def rebuild (capacity : Nat) (seen : List StateMarker) : LookupMemory capacity where
  index := some (trim (ofSeen seen) (active_ofSeen seen))
  duplicates := (seen.map StateMarker.jobId).filter fun id =>
    2 ≤ (seen.map StateMarker.jobId).count id

end MarkerIndex

/-! ## The lookups -/

namespace StateTree

variable {capacity : Nat} (tree : StateTree)

/-- **`_index_marker`**: the marker an index entry names, if it is still
there. -/
def indexMarker (jobId : PyStr) (entry : StateMarker) : Option StateMarker :=
  if entry ∈ tree.entries.map StateEntry.marker ∧ entry.jobId = jobId then some entry else none

def oneOf (matched : List StateMarker) (message : Message) : Except Exc (Option StateMarker) :=
  match matched with
  | [] => .ok none
  | [m] => .ok (some m)
  | _ => .error ⟨.workspaceCorruption, message⟩

def probePlacement (jobId : PyStr) (placement : List PyStr) : Except Exc (Option StateMarker) :=
  oneOf ((tree.glob placement (matchesId jobId)).filter fun m => m.jobId = jobId)
    [.lit "job ", .raw jobId, .lit " has more than one state marker"]

/-- The scan of a lookup by id, which rebuilds the index. -/
def rescan (capacity : Nat) (jobId : PyStr) :
    Except Exc (Option StateMarker) × LookupMemory capacity :=
  let seen := tree.scan coreKinds
  let memory := MarkerIndex.rebuild capacity seen
  (if jobId ∈ memory.duplicates then
    .error ⟨.workspaceCorruption,
      [.lit "job ", .raw jobId, .lit " has more than one state marker"]⟩
  else .ok (seen.filter fun m => m.jobId = jobId).getLast?, memory)

/-- **`find_marker_by_id`**: the index, the placement it names, and the whole
tree. -/
def findMarkerById (memory : LookupMemory capacity) (jobId : PyStr) :
    Except Exc (Option StateMarker) × LookupMemory capacity :=
  match memory.index with
  | none => tree.rescan capacity jobId
  | some index =>
    match index.get jobId with
    | none => tree.rescan capacity jobId
    | some entry =>
      if jobId ∈ memory.duplicates then tree.rescan capacity jobId
      else
        match tree.indexMarker jobId entry with
        | some m => (.ok (some m), { memory with index := some (index.touch jobId) })
        | none =>
          match tree.probePlacement jobId entry.placement with
          | .error e => (.error e, { memory with index := some (index.pop jobId) })
          | .ok (some m) =>
            (.ok (some m), { memory with index := some ((index.pop jobId).note m) })
          | .ok none => tree.rescan capacity jobId

def sweep (jobKey : ValidJobKey) (placement : List PyStr) : Except Exc (Option StateMarker) :=
  oneOf (tree.glob placement (matchesKey jobKey))
    [.lit "job ", .raw jobKey.text, .lit " has multiple markers at ", .path placement]

def findMarkerAt (memory : LookupMemory capacity) (jobKey : ValidJobKey) (placement : List PyStr) :
    Except Exc (Option StateMarker) × LookupMemory capacity :=
  let confirmed := memory.index.bind fun index => (index.get jobKey.id).bind fun entry =>
    if entry.placement = placement then
      (tree.indexMarker jobKey.id entry).filter fun m => m.jobKey.text = jobKey.text
    else none
  match confirmed with
  | some m => (.ok (some m), memory)
  | none =>
    let result := tree.sweep jobKey placement
    (result, match result with
      | .ok (some m) => { memory with index := memory.index.map (·.note m) }
      | _ => memory)

/-- **`find_markers`**, among some kinds: a key that parses and core kinds are
looked up by id. -/
def findMarkers (memory : LookupMemory capacity) (jobKey : PyStr) (kinds : List StateKind) :
    Except Exc (List StateMarker) × LookupMemory capacity :=
  let selected := if kinds = [] then coreKinds else kinds
  let scanned := (tree.scan selected).filter fun m => m.jobKey.text = jobKey
  if ∀ kind ∈ selected, kind.isCore = true then
    match parseJobKey jobKey with
    | .ok (_, jobId) =>
      let (result, memory) := tree.findMarkerById memory jobId
      (result.map fun
        | some m => if m.jobKey.text = jobKey ∧ m.kind ∈ selected then [m] else []
        | none => [], memory)
    | .error _ => (.ok scanned, memory)
  else (.ok scanned, memory)

end StateTree

/-- **A lookup**, of what each finds. -/
inductive Lookup where
  | byId (jobId : PyStr)
  | atPlacement (jobKey : ValidJobKey) (placement : List PyStr)
  | markers (jobKey : PyStr) (kinds : List StateKind) (distinct : kinds.Nodup)

def Lookup.run {capacity : Nat} (tree : StateTree) (memory : LookupMemory capacity) :
    Lookup → Except Exc (List StateMarker) × LookupMemory capacity
  | .byId jobId => (tree.findMarkerById memory jobId).map (·.map Option.toList) id
  | .atPlacement jobKey placement =>
    (tree.findMarkerAt memory jobKey placement).map (·.map Option.toList) id
  | .markers jobKey kinds _ => tree.findMarkers memory jobKey kinds

/-- **What a full scan returns** for a lookup. -/
def Lookup.scan (tree : StateTree) : Lookup → List StateMarker
  | .byId jobId => (tree.scan coreKinds).filter fun m => m.jobId = jobId
  | .atPlacement jobKey placement => (tree.scan coreKinds).filter fun m =>
      m.jobKey.text = jobKey.text ∧ m.placement = placement
  | .markers jobKey kinds _ => (tree.scan (if kinds = [] then coreKinds else kinds)).filter fun m =>
      m.jobKey.text = jobKey

/-! ## The histories of a process -/

/-- **What happens to a process and its workspace**: markers are moved, by it
or by others; it notes a marker it moved or published, or met in a lookup
under way; it drops a job or the whole index; a scan under concurrent moves
saw some markers; a lookup finds the tree at rest. -/
inductive LookupStep where
  | moves (tree : StateTree)
  | notes (m : StateMarker)
  | forgets (jobId : PyStr)
  | invalidates
  | scans (seen : List StateMarker)
  | lookup (lookup : Lookup)

/-- One step. -/
def lookupNext (capacity : Nat) (s : StateTree × LookupMemory capacity) :
    LookupStep → Option (StateTree × LookupMemory capacity)
  | .moves tree => some (tree, s.snd)
  | .notes m => some (s.fst, { s.snd with index := s.snd.index.map (·.note m) })
  | .forgets jobId => some (s.fst, { s.snd with index := s.snd.index.map (·.pop jobId) })
  | .invalidates => some (s.fst, ⟨none, []⟩)
  | .scans seen => some (s.fst, MarkerIndex.rebuild capacity seen)
  | .lookup lookup => some (s.fst, (lookup.run s.fst s.snd).snd)

/-- **The histories of a process**, which begins without an index. -/
def lookupRuns (capacity : Nat) : System (StateTree × LookupMemory capacity) LookupStep :=
  System.ofNext (fun s => s.snd = ⟨none, []⟩) (lookupNext capacity)

/-! ## Names and their patterns -/

theorem ValidJobKey.eq_of_text {a b : ValidJobKey} (h : a.text = b.text) : a = b := by
  obtain ⟨text, tag, id, hparsed⟩ := a
  obtain ⟨text', tag', id', hparsed'⟩ := b
  obtain rfl : text = text' := h
  obtain ⟨rfl, rfl⟩ := Prod.mk.inj (Except.ok.inj (hparsed.symm.trans hparsed'))
  rfl

@[simp] theorem dropLiteral_append (literal rest : List Nat) : dropLiteral literal (literal ++ rest) = some rest := by
  unfold dropLiteral
  rw [if_pos (List.isPrefixOf_iff_prefix.mpr (List.prefix_append literal rest)), List.drop_left]

theorem matchesShape_append (literal rest : List Nat) (priority : Nat) (h : '.'.toNat ∈ rest) :
    matchesShape literal (literal ++ ['.'.toNat, 'p'.toNat] ++ StateMarker.priorityText priority
      ++ ['.'.toNat, 'g'.toNat] ++ rest) = true := by
  unfold matchesShape
  rw [List.append_assoc, List.append_assoc, dropLiteral_append]
  show (match dropLiteral ['.'.toNat, 'g'.toNat] (['.'.toNat, 'g'.toNat] ++ rest) with
    | some rest => rest.contains '.'.toNat
    | none => false) = true
  rw [dropLiteral_append]
  exact List.contains_iff_mem.mpr h

theorem dot_mem_generationText (m : StateMarker) : '.'.toNat ∈ m.generationText :=
  List.mem_append_right _ List.mem_cons_self

theorem matchesKey_basename (m : StateMarker) : matchesKey m.jobKey m.basename = true :=
  matchesShape_append _ _ _ (dot_mem_generationText m)

theorem ValidJobKey.text_eq (jobKey : ValidJobKey) : ∃ before, jobKey.text.codes = before ++ jobKey.id.codes := by
  have hid : jobKey.id = ⟨jobKey.text.codes.drop (jobKey.text.codes.length - 36)⟩ := by
    have hparsed := jobKey.parsed
    unfold parseJobKey at hparsed
    simp only at hparsed
    split_ifs at hparsed
    · cases hparsed
    · exact (Prod.mk.inj (Except.ok.inj hparsed)).2.symm
    · cases hparsed
    · obtain ⟨tag, -, hparsed⟩ := bind_eq_ok.mp hparsed
      exact (Prod.mk.inj (Except.ok.inj hparsed)).2.symm
  rw [hid]
  exact ⟨_, (List.take_append_drop _ _).symm⟩

theorem matchesId_basename (m : StateMarker) : matchesId m.jobId m.basename = true := by
  obtain ⟨before, htext⟩ := m.jobKey.text_eq
  refine List.any_eq_true.mpr ⟨_, ?_, matchesShape_append m.jobId.codes _ m.priority (dot_mem_generationText m)⟩
  refine (List.mem_tails _ _).mpr ⟨before, ?_⟩
  unfold StateMarker.basename StateMarker.jobId
  rw [htext]
  simp only [List.append_assoc]

/-! ## A tree with unique markers -/

theorem eq_singleton {β : Type} {l : List β} {b : β} (hnodup : l.Nodup) (hb : b ∈ l)
    (h : ∀ a ∈ l, a = b) : l = [b] := by
  have hperm : l.Perm [b] := by
    refine (List.perm_ext_iff_of_nodup hnodup (List.nodup_singleton b)).mpr fun a => ?_
    rw [List.mem_singleton]
    exact ⟨h a, fun heq => heq ▸ hb⟩
  exact List.perm_singleton.mp hperm

namespace StateTree

variable {tree : StateTree} {capacity : Nat}

variable {kind : StateKind}

theorem mem_coreKinds : kind ∈ coreKinds ↔ kind.isCore = true := by
  cases kind <;> decide

variable {kinds : List StateKind} {m : StateMarker}

theorem mem_scan : m ∈ tree.scan kinds ↔ m.kind ∈ kinds ∧ ⟨m, true⟩ ∈ tree.entries := by
  unfold scan
  simp only [List.mem_flatMap, List.mem_map, List.mem_filter, Bool.and_eq_true, decide_eq_true_eq]
  constructor
  · rintro ⟨kind, hkind, ⟨marker, regular⟩, ⟨he, hregular, rfl⟩, rfl⟩
    obtain rfl : regular = true := hregular
    exact ⟨hkind, he⟩
  · rintro ⟨hkind, he⟩
    exact ⟨m.kind, hkind, ⟨m, true⟩, ⟨he, rfl, rfl⟩, rfl⟩

variable {pattern : PyStr → Bool} {placement : List PyStr}

theorem mem_glob : m ∈ tree.glob placement pattern ↔ m.kind.isCore = true ∧ m.placement = placement
      ∧ pattern m.basename = true ∧ m ∈ tree.entries.map StateEntry.marker := by
  unfold glob globAt
  simp only [List.mem_flatMap, List.mem_map, List.mem_filter, decide_eq_true_eq]
  constructor
  · rintro ⟨kind, hkind, e, ⟨he, rfl, rfl, hpattern⟩, rfl⟩
    exact ⟨mem_coreKinds.mp hkind, rfl, hpattern, e, he, rfl⟩
  · rintro ⟨hcore, rfl, hpattern, e, he, rfl⟩
    exact ⟨e.marker.kind, mem_coreKinds.mpr hcore, e, ⟨he, rfl, rfl, hpattern⟩, rfl⟩

theorem nodup_scan (hkinds : kinds.Nodup) : (tree.scan kinds).Nodup := by
  refine List.nodup_flatMap.mpr ⟨fun kind _ => ?_, hkinds.imp fun hne => ?_⟩
  · exact (List.filter_sublist.map _).nodup tree.paths
  · intro m hm hm'
    obtain ⟨e, he, rfl⟩ := List.mem_map.mp hm
    obtain ⟨e', he', hsame⟩ := List.mem_map.mp hm'
    have hkind := (List.mem_filter.mp he).2
    have hkind' := (List.mem_filter.mp he').2
    simp only [Bool.and_eq_true, decide_eq_true_eq] at hkind hkind'
    rw [hsame] at hkind'
    exact hne (hkind.2.symm.trans hkind'.2)

theorem nodup_glob : (tree.glob placement pattern).Nodup := by
  refine List.nodup_flatMap.mpr ⟨fun kind _ => ?_, (by decide : coreKinds.Nodup).imp fun hne => ?_⟩
  · exact (List.filter_sublist.map _).nodup tree.paths
  · intro m hm hm'
    obtain ⟨e, he, rfl⟩ := List.mem_map.mp hm
    obtain ⟨e', he', hsame⟩ := List.mem_map.mp hm'
    have hkind := of_decide_eq_true (List.mem_filter.mp he).2
    have hkind' := of_decide_eq_true (List.mem_filter.mp he').2
    rw [hsame] at hkind'
    exact hne (hkind.1.symm.trans hkind'.1)

/-- **Two markers a scan finds of one job are one.** -/
theorem Unique.eq (hunique : tree.Unique) {kinds kinds' : List StateKind} {m m' : StateMarker}
    (hm : m ∈ tree.scan kinds) (hm' : m' ∈ tree.scan kinds') (hid : m.jobId = m'.jobId) : m = m' := by
  have he : (⟨m, true⟩ : StateEntry) ∈ tree.entries.filter StateEntry.regular :=
    List.mem_filter.mpr ⟨(mem_scan.mp hm).2, rfl⟩
  have he' : (⟨m', true⟩ : StateEntry) ∈ tree.entries.filter StateEntry.regular :=
    List.mem_filter.mpr ⟨(mem_scan.mp hm').2, rfl⟩
  exact congrArg StateEntry.marker (List.inj_on_of_nodup_map hunique he he' hid)

variable {p : StateMarker → Bool}

/-- **What a scan finds of one job** is a marker that is there. -/
theorem Unique.filter_eq (hunique : tree.Unique) (hkinds : kinds.Nodup) (hm : m ∈ tree.scan kinds) (hp : p m = true)
    (hid : ∀ a ∈ tree.scan kinds, p a = true → a.jobId = m.jobId) :
    (tree.scan kinds).filter p = [m] := by
  refine eq_singleton ((nodup_scan hkinds).filter _) (List.mem_filter.mpr ⟨hm, hp⟩) fun a ha => ?_
  obtain ⟨hscan, hpa⟩ := List.mem_filter.mp ha
  exact hunique.eq hscan hm (hid a hscan hpa)

theorem Plain.scanned (hplain : tree.Plain)
    (hm : m ∈ tree.entries.map StateEntry.marker) (hcore : m.kind.isCore = true) :
    m ∈ tree.scan coreKinds := by
  obtain ⟨e, he, rfl⟩ := List.mem_map.mp hm
  have hregular := hplain.regular e he hcore
  refine mem_scan.mpr ⟨mem_coreKinds.mpr hcore, ?_⟩
  rw [← hregular]
  exact he

theorem mem_marker_of_scan (h : m ∈ tree.scan kinds) : m ∈ tree.entries.map StateEntry.marker :=
  List.mem_map_of_mem (f := StateEntry.marker) (mem_scan.mp h).2

theorem core_of_active (h : kind.isActive = true) : kind.isCore = true :=
  ((Bool.and_eq_true _ _).mp h).1

/-! ## The lookups on a plain tree -/

theorem rescan_eq (hunique : tree.Unique) (jobId : PyStr) : (tree.rescan capacity jobId).fst
      = .ok ((tree.scan coreKinds).filter fun m => m.jobId = jobId).getLast? := by
  refine if_neg fun hmem => ?_
  have hcount := of_decide_eq_true (List.mem_filter.mp hmem).2
  have hnodup : ((tree.scan coreKinds).map StateMarker.jobId).Nodup :=
    (nodup_scan (by decide)).map_on fun a ha b hb => hunique.eq ha hb
  have := List.nodup_iff_count_le_one.mp hnodup jobId
  omega

theorem of_indexMarker {jobId : PyStr} {entry m : StateMarker} (h : tree.indexMarker jobId entry = some m) :
    m = entry ∧ m ∈ tree.entries.map StateEntry.marker ∧ m.jobId = jobId := by
  unfold indexMarker at h
  split_ifs at h with hthere
  obtain rfl := Option.some.inj h
  exact ⟨rfl, hthere⟩

theorem findMarkerById_eq (hunique : tree.Unique) (hplain : tree.Plain)
    (memory : LookupMemory capacity) (jobId : PyStr) :
    (tree.findMarkerById memory jobId).fst
      = .ok ((tree.scan coreKinds).filter fun m => m.jobId = jobId).getLast? := by
  have hfound : ∀ m, m ∈ tree.scan coreKinds → m.jobId = jobId →
      ((tree.scan coreKinds).filter fun m => m.jobId = jobId).getLast? = some m := by
    intro m hm hid
    rw [hunique.filter_eq (by decide) hm (by simpa using hid) (by simp [hid])]
    rfl
  unfold findMarkerById
  split
  · exact rescan_eq hunique jobId
  · rename_i index hindex
    split
    · exact rescan_eq hunique jobId
    · rename_i entry hentry
      split_ifs
      · exact rescan_eq hunique jobId
      · split
        · rename_i m hm
          obtain ⟨rfl, hthere, hid⟩ := of_indexMarker hm
          have hactive := index.active (jobId, m) (Dict.mem_of_get hentry)
          exact congrArg Except.ok (hfound m (hplain.scanned hthere (core_of_active hactive)) hid).symm
        · have hmatched : ∀ m ∈ (tree.glob entry.placement (matchesId jobId)).filter
              fun m => m.jobId = jobId, m ∈ tree.scan coreKinds ∧ m.jobId = jobId := by
            intro m hm
            obtain ⟨hglob, hid⟩ := List.mem_filter.mp hm
            obtain ⟨hcore, -, -, hthere⟩ := mem_glob.mp hglob
            exact ⟨hplain.scanned hthere hcore, of_decide_eq_true hid⟩
          have hnodup : ((tree.glob entry.placement (matchesId jobId)).filter
              fun m => m.jobId = jobId).Nodup := nodup_glob.filter _
          cases hprobe : (tree.glob entry.placement (matchesId jobId)).filter
              fun m => m.jobId = jobId with
          | nil =>
            have hnone : tree.probePlacement jobId entry.placement = .ok none := by
              unfold probePlacement
              rw [hprobe]
              rfl
            rw [hnone]
            exact rescan_eq hunique jobId
          | cons m rest =>
            rw [hprobe] at hmatched hnodup
            obtain ⟨hscan, hid⟩ := hmatched m List.mem_cons_self
            have hrest : m :: rest = [m] := by
              refine eq_singleton hnodup List.mem_cons_self fun a ha => ?_
              obtain ⟨hscan', hid'⟩ := hmatched a ha
              exact hunique.eq hscan' hscan (hid'.trans hid.symm)
            have hone : tree.probePlacement jobId entry.placement = .ok (some m) := by
              unfold probePlacement
              rw [hprobe, hrest]
              rfl
            rw [hone]
            exact congrArg Except.ok (hfound m hscan hid).symm

theorem Unique.filter_cases (hunique : tree.Unique) (hkinds : kinds.Nodup) {jobId : PyStr}
    (hid : ∀ a ∈ tree.scan kinds, p a = true → a.jobId = jobId) :
    (tree.scan kinds).filter p = [] ∨ ∃ m, (tree.scan kinds).filter p = [m] := by
  cases hfilter : (tree.scan kinds).filter p with
  | nil => exact Or.inl rfl
  | cons m rest =>
    have hm : m ∈ (tree.scan kinds).filter p := by
      rw [hfilter]
      exact List.mem_cons_self
    obtain ⟨hscan, hp⟩ := List.mem_filter.mp hm
    refine Or.inr ⟨m, hfilter.symm.trans ?_⟩
    exact hunique.filter_eq hkinds hscan hp fun a ha hpa =>
      (hid a ha hpa).trans (hid m hscan hp).symm

theorem findMarkerAt_eq (hunique : tree.Unique) (hplain : tree.Plain)
    (memory : LookupMemory capacity) (jobKey : ValidJobKey) (placement : List PyStr) :
    (tree.findMarkerAt memory jobKey placement).fst.map Option.toList = .ok ((tree.scan coreKinds).filter fun m =>
        m.jobKey.text = jobKey.text ∧ m.placement = placement) := by
  have hid : ∀ a ∈ tree.scan coreKinds,
      decide (a.jobKey.text = jobKey.text ∧ a.placement = placement) = true → a.jobId = jobKey.id :=
    fun a _ ha => congrArg ValidJobKey.id (ValidJobKey.eq_of_text (of_decide_eq_true ha).1)
  unfold findMarkerAt
  simp only
  split
  · rename_i m hconfirmed
    obtain ⟨index, -, hconfirmed⟩ := Option.bind_eq_some_iff.mp hconfirmed
    obtain ⟨entry, hentry, hconfirmed⟩ := Option.bind_eq_some_iff.mp hconfirmed
    split_ifs at hconfirmed with hplacement
    obtain ⟨hmarker, htext⟩ := Option.filter_eq_some_iff.mp hconfirmed
    obtain ⟨rfl, hthere, -⟩ := of_indexMarker hmarker
    have hcore := core_of_active (index.active (jobKey.id, m) (Dict.mem_of_get hentry))
    have hp : decide (m.jobKey.text = jobKey.text ∧ m.placement = placement) = true :=
      decide_eq_true ⟨of_decide_eq_true htext, hplacement⟩
    have hscan := hplain.scanned hthere hcore
    rw [hunique.filter_eq (by decide) hscan hp fun a ha hpa =>
      (hid a ha hpa).trans (hid m hscan hp).symm]
    rfl
  · have hglob : ∀ m, m ∈ tree.glob placement (matchesKey jobKey) ↔ m ∈ (tree.scan coreKinds).filter fun m =>
          m.jobKey.text = jobKey.text ∧ m.placement = placement := by
      intro m
      rw [mem_glob, List.mem_filter, decide_eq_true_eq]
      constructor
      · rintro ⟨hcore, hplacement, hpattern, hthere⟩
        have hscan := hplain.scanned hthere hcore
        have hkey := hplain.named jobKey ⟨m, true⟩ (mem_scan.mp hscan).2 hcore hpattern
        exact ⟨hscan, congrArg ValidJobKey.text hkey, hplacement⟩
      · rintro ⟨hscan, htext, hplacement⟩
        refine ⟨mem_coreKinds.mp (mem_scan.mp hscan).1, hplacement, ?_, mem_marker_of_scan hscan⟩
        rw [← ValidJobKey.eq_of_text htext]
        exact matchesKey_basename m
    unfold sweep
    obtain hnone | ⟨m, hone⟩ := hunique.filter_cases (by decide) hid
    · rw [hnone] at hglob ⊢
      rw [List.eq_nil_iff_forall_not_mem.mpr fun m hm => List.not_mem_nil ((hglob m).mp hm)]
      rfl
    · rw [hone] at hglob ⊢
      rw [eq_singleton nodup_glob ((hglob m).mpr List.mem_cons_self) fun a ha =>
        List.mem_singleton.mp ((hglob a).mp ha)]
      rfl

theorem findMarkers_eq (hunique : tree.Unique) (hplain : tree.Plain) (memory : LookupMemory capacity) (jobKey : PyStr)
    (hkinds : kinds.Nodup) :
    (tree.findMarkers memory jobKey kinds).fst
      = .ok ((tree.scan (if kinds = [] then coreKinds else kinds)).filter fun m =>
        m.jobKey.text = jobKey) := by
  have hselected : (if kinds = [] then coreKinds else kinds).Nodup := by
    split_ifs
    · decide
    · exact hkinds
  unfold findMarkers
  simp only
  generalize (if kinds = [] then coreKinds else kinds) = selected at hselected ⊢
  split_ifs with hcore
  · cases hparsed : parseJobKey jobKey with
    | error e => rfl
    | ok pair =>
      obtain ⟨tag, jobId⟩ := pair
      have hid : ∀ a ∈ tree.scan selected, decide (a.jobKey.text = jobKey) = true →
          a ∈ tree.scan coreKinds ∧ a.jobId = jobId := by
        intro a ha htext
        obtain ⟨hkind, hentry⟩ := mem_scan.mp ha
        refine ⟨mem_scan.mpr ⟨mem_coreKinds.mpr (hcore _ hkind), hentry⟩, ?_⟩
        have hkey := a.jobKey.parsed
        rw [of_decide_eq_true htext] at hkey
        exact (Prod.mk.inj (Except.ok.inj (hkey.symm.trans hparsed))).2
      show (Except.map _ (tree.findMarkerById memory jobId).fst) = _
      rw [findMarkerById_eq hunique hplain]
      obtain hnone | ⟨m, hone⟩ := hunique.filter_cases (by decide : coreKinds.Nodup)
        fun a _ (ha : decide (a.jobId = jobId) = true) => of_decide_eq_true ha
      · rw [hnone]
        refine congrArg Except.ok (List.filter_eq_nil_iff.mpr fun a ha hp => ?_).symm
        obtain ⟨hscan, hjob⟩ := hid a ha hp
        have : a ∈ (tree.scan coreKinds).filter fun m => m.jobId = jobId :=
          List.mem_filter.mpr ⟨hscan, decide_eq_true hjob⟩
        rw [hnone] at this
        exact List.not_mem_nil this
      · have hthe : ∀ a ∈ tree.scan selected, decide (a.jobKey.text = jobKey) = true → a = m := by
          intro a ha hp
          obtain ⟨hscan, hjob⟩ := hid a ha hp
          have : a ∈ (tree.scan coreKinds).filter fun m => m.jobId = jobId :=
            List.mem_filter.mpr ⟨hscan, decide_eq_true hjob⟩
          rw [hone] at this
          exact List.mem_singleton.mp this
        have hm : m ∈ (tree.scan coreKinds).filter fun m => m.jobId = jobId := by
          rw [hone]
          exact List.mem_cons_self
        rw [hone]
        show Except.ok (if m.jobKey.text = jobKey ∧ m.kind ∈ selected then [m] else []) = _
        congr 1
        split_ifs with hmatch
        · have hscan : m ∈ tree.scan selected :=
            mem_scan.mpr ⟨hmatch.2, (mem_scan.mp (List.mem_filter.mp hm).1).2⟩
          refine (hunique.filter_eq hselected hscan (decide_eq_true hmatch.1) fun a ha hp => ?_).symm
          rw [hthe a ha hp]
        · refine (List.filter_eq_nil_iff.mpr fun a ha hp => ?_).symm
          obtain rfl := hthe a ha hp
          exact hmatch ⟨of_decide_eq_true hp, (mem_scan.mp ha).1⟩
  · rfl

end StateTree

theorem Lookup.run_eq {tree : StateTree} {capacity : Nat} (hunique : tree.Unique)
    (hplain : tree.Plain) (memory : LookupMemory capacity) (lookup : Lookup) :
    (lookup.run tree memory).fst = .ok (lookup.scan tree) := by
  cases lookup with
  | byId jobId =>
    show (tree.findMarkerById memory jobId).fst.map Option.toList = _
    rw [StateTree.findMarkerById_eq hunique hplain]
    show _ = Except.ok ((tree.scan coreKinds).filter fun m => m.jobId = jobId)
    obtain hnone | ⟨m, hone⟩ := hunique.filter_cases (by decide : coreKinds.Nodup)
      fun a _ (ha : decide (a.jobId = jobId) = true) => of_decide_eq_true ha
    · rw [hnone]
      rfl
    · rw [hone]
      rfl
  | atPlacement jobKey placement => exact StateTree.findMarkerAt_eq hunique hplain memory jobKey placement
  | markers jobKey kinds distinct => exact StateTree.findMarkers_eq hunique hplain memory jobKey distinct

/-! ## What else is taken for a marker -/

theorem of_oneOf {matched : List StateMarker} {message : Message} {found : Option StateMarker}
    {m : StateMarker} (h : StateTree.oneOf matched message = .ok found) (hm : m ∈ matched) :
    found = some m := by
  match matched, h with
  | [_], h =>
    obtain rfl := List.mem_singleton.mp hm
    exact (Except.ok.inj h).symm

namespace StateTree

variable {tree : StateTree} {capacity : Nat}

theorem entry_eq (tree : StateTree) {e e' : StateEntry} (he : e ∈ tree.entries)
    (he' : e' ∈ tree.entries) (h : e.marker = e'.marker) : e = e' :=
  List.inj_on_of_nodup_map tree.paths he he' h

variable {e : StateEntry}

theorem scan_of_probe {index : MarkerIndex capacity} {entry : StateMarker}
    (hknown : index.get e.marker.jobId = some entry)
    (hplacement : entry.placement = e.marker.placement)
    (hfresh : entry ∉ tree.entries.map StateEntry.marker) (he : e ∈ tree.entries)
    (hcore : e.marker.kind.isCore = true)
    (hfound : ((Lookup.byId e.marker.jobId).run tree ⟨some index, []⟩).fst
      = .ok ((Lookup.byId e.marker.jobId).scan tree)) :
    e.marker ∈ tree.scan coreKinds := by
  have hgone : tree.indexMarker e.marker.jobId entry = none := if_neg fun h => hfresh h.1
  have hmem : e.marker ∈ (tree.glob entry.placement (matchesId e.marker.jobId)).filter
      fun m => m.jobId = e.marker.jobId :=
    List.mem_filter.mpr ⟨mem_glob.mpr ⟨hcore, hplacement.symm, matchesId_basename _,
      List.mem_map_of_mem he⟩, decide_eq_true rfl⟩
  change (tree.findMarkerById ⟨some index, []⟩ e.marker.jobId).fst.map Option.toList
    = .ok ((tree.scan coreKinds).filter fun m => m.jobId = e.marker.jobId) at hfound
  unfold findMarkerById at hfound
  simp only [hknown, List.not_mem_nil, if_false, hgone] at hfound
  cases hprobe : tree.probePlacement e.marker.jobId entry.placement with
  | error exc =>
    rw [hprobe] at hfound
    cases hfound
  | ok found =>
    obtain rfl := of_oneOf hprobe hmem
    rw [hprobe] at hfound
    have hscan : e.marker ∈ (tree.scan coreKinds).filter fun m => m.jobId = e.marker.jobId := by
      rw [← Except.ok.inj hfound]
      exact List.mem_singleton_self _
    exact List.mem_of_mem_filter hscan

theorem scan_of_sweep {jobKey : ValidJobKey} (he : e ∈ tree.entries)
    (hcore : e.marker.kind.isCore = true) (hmatch : matchesKey jobKey e.marker.basename = true)
    (hfound : ((Lookup.atPlacement jobKey e.marker.placement).run tree (⟨none, []⟩ : LookupMemory capacity)).fst
      = .ok ((Lookup.atPlacement jobKey e.marker.placement).scan tree)) :
    e.marker ∈ (Lookup.atPlacement jobKey e.marker.placement).scan tree := by
  have hmem : e.marker ∈ tree.glob e.marker.placement (matchesKey jobKey) :=
    mem_glob.mpr ⟨hcore, rfl, hmatch, List.mem_map_of_mem he⟩
  change (tree.sweep jobKey e.marker.placement).map Option.toList = _ at hfound
  cases hsweep : tree.sweep jobKey e.marker.placement with
  | error exc =>
    rw [hsweep] at hfound
    cases hfound
  | ok found =>
    obtain rfl := of_oneOf hsweep hmem
    rw [hsweep] at hfound
    rw [← Except.ok.inj hfound]
    exact List.mem_singleton_self _

end StateTree

/-- The marker a process knows a job by, before the job was moved. -/
def StateMarker.before (m : StateMarker) (generation : Nat) : StateMarker :=
  { m with kind := .ready, generation }

def StateTree.single (m : StateMarker) : StateTree := ⟨[⟨m, true⟩], List.nodup_singleton m⟩

theorem reachable_known {capacity : Nat} (hcapacity : 0 < capacity) (tree : StateTree)
    (m : StateMarker) (generation : Nat) :
    ∃ index : MarkerIndex capacity, (lookupRuns capacity).Reachable (tree, ⟨some index, []⟩)
      ∧ index.get m.jobId = some (m.before generation) := by
  let known := m.before generation
  have hseen : (StateTree.single known).scan coreKinds = [known] := rfl
  let index : MarkerIndex capacity :=
    MarkerIndex.trim (MarkerIndex.ofSeen [known]) (MarkerIndex.active_ofSeen [known])
  have hentries : index.entries = [(m.jobId, known)] := by
    show [(m.jobId, known)].drop (1 - capacity) = _
    rw [Nat.sub_eq_zero_of_le hcapacity]
    rfl
  have hduplicates : (MarkerIndex.rebuild capacity [known]).duplicates = [] := by
    refine List.filter_eq_nil_iff.mpr fun id _ => ?_
    have := List.count_le_length (a := id) (l := [known.jobId])
    simp only [decide_eq_true_eq, List.map_cons, List.map_nil]
    simp only [List.length_singleton] at this
    omega
  refine ⟨index, ?_, ?_⟩
  · have hinit : (lookupRuns capacity).Reachable (StateTree.single known, ⟨none, []⟩) := .init rfl
    have hlooked : (lookupRuns capacity).Reachable (StateTree.single known, ⟨some index, []⟩) := by
      refine hinit.step (a := .lookup (.byId m.jobId)) ?_
      refine congrArg (fun memory => some (StateTree.single known, memory)) ?_
      show MarkerIndex.rebuild capacity ((StateTree.single known).scan coreKinds) = _
      rw [hseen]
      exact congrArg (LookupMemory.mk (some index)) hduplicates
    exact hlooked.step (show lookupNext capacity _ (.moves tree) = some _ from rfl)
  · unfold MarkerIndex.get
    rw [hentries]
    exact List.lookup_cons_self

/-- **The index is an optimisation exactly on plain trees**: in every history
of a process, its lookups on a tree with unique markers return what a scan
does if and only if no symbolic link is under the name of a marker and no
marker is named like one of another job key. -/
theorem lookups_agree {capacity : Nat} (hcapacity : 0 < capacity) {tree : StateTree}
    (hunique : tree.Unique) :
    (∀ memory, (lookupRuns capacity).Reachable (tree, memory) →
      ∀ lookup : Lookup, (lookup.run tree memory).fst = .ok (lookup.scan tree)) ↔ tree.Plain := by
  refine ⟨fun hagree => ⟨fun e he hcore => ?_, fun jobKey e he hcore hmatch => ?_⟩,
    fun hplain memory _ lookup => lookup.run_eq hunique hplain memory⟩
  · by_contra hlink
    obtain ⟨generation, hfresh⟩ : ∃ generation, e.marker.before generation
        ∉ tree.entries.map StateEntry.marker := by
      obtain ⟨generation, hfresh⟩ := Infinite.exists_notMem_finset
        (tree.entries.map fun e => e.marker.generation).toFinset
      refine ⟨generation, fun hmem => hfresh ?_⟩
      obtain ⟨e', he', heq⟩ := List.mem_map.mp hmem
      refine List.mem_toFinset.mpr (List.mem_map.mpr ⟨e', he', ?_⟩)
      rw [heq]
      rfl
    obtain ⟨index, hreach, hknown⟩ := reachable_known hcapacity tree e.marker generation
    have hfound := hagree _ hreach (.byId e.marker.jobId)
    have hscan := StateTree.scan_of_probe hknown rfl hfresh he hcore hfound
    have hregular := (StateTree.mem_scan.mp hscan).2
    exact hlink (congrArg StateEntry.regular (tree.entry_eq he hregular rfl))
  · have hfound := hagree _ (.init rfl) (.atPlacement jobKey e.marker.placement)
    have hscan := StateTree.scan_of_sweep he hcore hmatch hfound
    exact ValidJobKey.eq_of_text (of_decide_eq_true (List.mem_filter.mp hscan).2).1

/-! ## A tag that looks like a marker -/

def untaggedKey : ValidJobKey :=
  ⟨.ofString "11111111-1111-4111-8111-111111111111", none,
    .ofString "11111111-1111-4111-8111-111111111111", rfl⟩

def taggedKey : ValidJobKey :=
  ⟨.ofString "11111111-1111-4111-8111-111111111111.p100.ga.x--22222222-2222-4222-8222-222222222222",
    some (.ofString "11111111-1111-4111-8111-111111111111.p100.ga.x"),
    .ofString "22222222-2222-4222-8222-222222222222", rfl⟩

def readyMarker (jobKey : ValidJobKey) : StateMarker :=
  ⟨.ready, [.ofString "project", .ofString "00"], jobKey, 500, 1, .ofString "init"⟩

/-- **Another job is found**: the tag of a job begins with the key of another,
and a lookup of that other key returns the marker of the first. A scan returns
nothing. -/
theorem lookup_mistaken :
    (lookupRuns 1).Reachable (StateTree.single (readyMarker taggedKey), ⟨none, []⟩)
      ∧ (StateTree.single (readyMarker taggedKey)).Unique
      ∧ ((Lookup.atPlacement untaggedKey (readyMarker taggedKey).placement).run
          (StateTree.single (readyMarker taggedKey)) (⟨none, []⟩ : LookupMemory 1)).fst
        = .ok [readyMarker taggedKey]
      ∧ (Lookup.atPlacement untaggedKey (readyMarker taggedKey).placement).scan
          (StateTree.single (readyMarker taggedKey)) = [] := by
  refine ⟨.init rfl, List.nodup_singleton _, ?_, by decide +kernel⟩
  have hmatch : (StateTree.single (readyMarker taggedKey)).glob (readyMarker taggedKey).placement
      (matchesKey untaggedKey) = [readyMarker taggedKey] := by
    decide +kernel
  have hsweep : (StateTree.single (readyMarker taggedKey)).sweep untaggedKey
      (readyMarker taggedKey).placement = .ok (some (readyMarker taggedKey)) := by
    unfold StateTree.sweep
    rw [hmatch]
    rfl
  exact congrArg (Except.map Option.toList) hsweep

theorem of_matchesShape {literal name : List Nat} (h : matchesShape literal name = true) :
    literal.length ≤ name.length ∧ name.take literal.length = literal := by
  unfold matchesShape dropLiteral at h
  split_ifs at h with hprefix
  obtain ⟨rest, rfl⟩ := List.isPrefixOf_iff_prefix.mp hprefix
  refine ⟨by simp, ?_⟩
  rw [List.append_assoc, List.take_left]

/-- **A tree is plain** if no name of it begins with another text that is followed as a key is. -/
theorem StateTree.plain_of_names {tree : StateTree} (hregular : ∀ e ∈ tree.entries, e.regular = true)
    (hname : ∀ e ∈ tree.entries, ∀ n ≤ e.marker.basename.codes.length,
      matchesShape (e.marker.basename.codes.take n) e.marker.basename.codes = true →
        e.marker.basename.codes.take n = e.marker.jobKey.text.codes) : tree.Plain where
  regular e he _ := hregular e he
  named jobKey e he _ hmatch := by
    obtain ⟨hlength, htake⟩ := of_matchesShape hmatch
    have htext := hname e he _ hlength (by rw [htake]; exact hmatch)
    exact ValidJobKey.eq_of_text (congrArg PyStr.mk (htake.symm.trans htext)) |>.symm

def otherKey : ValidJobKey :=
  ⟨.ofString "33333333-3333-4333-8333-333333333333", none,
    .ofString "33333333-3333-4333-8333-333333333333", rfl⟩

/-- A job that runs by now, beside another one that is ready. -/
def movedTree : StateTree :=
  ⟨[⟨{ readyMarker untaggedKey with kind := .running, generation := 3 }, true⟩, ⟨readyMarker otherKey, true⟩],
    by decide⟩

/-- **A stale index**: a process that knows a job where it was ready finds it where it runs. -/
theorem lookups_agree_stale : ∃ index : MarkerIndex 1, (lookupRuns 1).Reachable (movedTree, ⟨some index, []⟩)
    ∧ index.get untaggedKey.id = some (readyMarker untaggedKey)
    ∧ readyMarker untaggedKey ∉ movedTree.entries.map StateEntry.marker
    ∧ ((Lookup.byId untaggedKey.id).run movedTree ⟨some index, []⟩).fst
      = .ok ((Lookup.byId untaggedKey.id).scan movedTree) := by
  have hunique : movedTree.Unique := by unfold StateTree.Unique; decide
  have hplain : movedTree.Plain := StateTree.plain_of_names (by decide) (by decide +kernel)
  obtain ⟨index, hreach, hknown⟩ := reachable_known Nat.one_pos movedTree
    { readyMarker untaggedKey with kind := .running, generation := 3 } 1
  exact ⟨index, hreach, hknown, by decide +kernel,
    (lookups_agree Nat.one_pos hunique).mpr hplain _ hreach _⟩
