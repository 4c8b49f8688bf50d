import HttkWorkflow.Forest
import HttkWorkflow.Journal
import HttkWorkflow.JoinPass
import HttkWorkflow.MarkerLookup

/-!
# Listing jobs by pages

`list_jobs` walks the state directories of some kinds and gives the jobs it
meets as rows, a page at a time. A page ends with a cursor, the text
`kind:placement/job_key` of a marker, and the next page is what the walk gives
after that marker. The walk takes the markers of a directory before the
directories in it, both by name, keeps the first of the markers of one job
key, and skips the directories that lie before the cursor.

The documented order is the order of the cursors: by kind, by placement and by
job key. The walk follows it, except that the markers of one directory come by
file name, and the cursor that is written is not always the cursor that is
read: `iter_markers` takes a kind before a colon off a second time.
-/

/-! ## Texts -/

namespace PyStr

/-- `str.partition`, where the separator occurs. -/
def partition (s : PyStr) (c : Char) : Option (PyStr × PyStr) :=
  match s.codes.dropWhile (· ≠ c.toNat) with
  | [] => none
  | _ :: rest => some (⟨s.codes.takeWhile (· ≠ c.toNat)⟩, ⟨rest⟩)

/-- `str.rpartition`, where the separator occurs. -/
def rpartition (s : PyStr) (c : Char) : Option (PyStr × PyStr) :=
  match (⟨s.codes.reverse⟩ : PyStr).partition c with
  | none => none
  | some (after, before) => some (⟨before.codes.reverse⟩, ⟨after.codes.reverse⟩)

/-- `sub in s`. -/
def hasSubstring (s sub : PyStr) : Bool := s.codes.tails.any sub.codes.isPrefixOf

/-- `separator.join(parts)`. -/
def join (separator : PyStr) (parts : List PyStr) : PyStr :=
  ⟨separator.codes.intercalate (parts.map codes)⟩

/-- The characters of a text, as the patterns of names see them. -/
def letters (s : PyStr) : List Char := s.codes.map Char.ofNat

end PyStr

def kindNamed (name : PyStr) : Option StateKind := stateKinds.find? fun kind => kind.word = name

/-! ## Markers by name -/

/-- `record_ref` in `_MARKER_PATTERN`. -/
def isMarkerRecord (record : PyStr) : Bool :=
  let group := fun letter (text : List Char) => refGroup letter Numerals.isBase36 1 text.length text
  match record.letters.splitOn '-' with
  | [init] => init = "init".toList
  | [w, s, o, l, h] => (refGroup 'w' Numerals.isHex 32 32 w).isSome && (group 's' s).isSome
      && (group 'o' o).isSome && (group 'l' l).isSome && (refGroup 'h' Numerals.isHex 32 32 h).isSome
  | _ => false

/-- The groups of `_MARKER_PATTERN`, which the dots from the last one on separate. -/
def markerGroups (name : PyStr) : Option (PyStr × List Char × List Char × PyStr) :=
  match (name.split '.').reverse with
  | record :: generation :: priority :: part :: parts => do
    let generation ← refGroup 'g' Numerals.isBase36 1 generation.codes.length generation.letters
    let priority ← refGroup 'p' Char.isDigit 3 3 priority.letters
    if isMarkerRecord record = true then
      some (PyStr.join "." (part :: parts).reverse, priority, generation, record)
    else none
  | _ => none

/-- **`Marker.from_path`**, of a name in a directory of a kind. -/
def markerFromPath (kind : StateKind) (placement : List PyStr) (name : PyStr) : Option StateMarker :=
  if placement = [] then none
  else
    match placement.mapM placementPart, markerGroups name with
    | .ok placement, some (jobKey, priority, generation, record) =>
      match h : parseJobKey jobKey with
      | .ok (tag, id) =>
        if 2 ^ 64 - 1 < Numerals.ofBase36 generation then none
        else some ⟨kind, placement, ⟨jobKey, tag, id, h⟩,
          Nat.ofDigits 10 (priority.reverse.map Numerals.digitValue), Numerals.ofBase36 generation,
          record⟩
      | .error _ => none
    | _, _ => none

def keepFirst (seen : List PyStr) : List StateMarker → List StateMarker
  | [] => []
  | m :: markers =>
    if m.jobKey.text ∈ seen then keepFirst seen markers
    else m :: keepFirst (m.jobKey.text :: seen) markers

/-- The names of the marked leaves of a directory. -/
def Forest.leaves {ν : Type} : Forest ν → List ν
  | .nil => []
  | .leaf name marked rest => if marked = true then name :: rest.leaves else rest.leaves
  | .branch _ _ rest => rest.leaves

def Forest.EachName {ν : Type} (p : ν → Prop) : Forest ν → Prop
  | .nil => True
  | .leaf name _ rest => p name ∧ rest.EachName p
  | .branch name entries rest => p name ∧ entries.EachName p ∧ rest.EachName p

/-- **The markers of a directory**, one for each job key. -/
def ownMarkers (kind : StateKind) (rel : List PyStr) (directory : Forest PyStr) : List StateMarker :=
  keepFirst [] (directory.leaves.filterMap (markerFromPath kind rel))

/-! ## The walk -/

/-- What `_directory_after_relation` answers. -/
inductive AfterRelation where
  | all
  | equal
  | ancestor
  | skip
deriving DecidableEq

def directoryAfterRelation (rel : List PyStr) : Option (List PyStr) → AfterRelation
  | none => .all
  | some after =>
    if rel = after then .equal
    else if rel.length < after.length ∧ after.take rel.length = rel then .ancestor
    else if rel < after then .skip
    else .all

/-- A place to go on after: a placement and a job key. -/
abbrev MarkerCursor := List PyStr × PyStr

def visibleMarkers (rel : List PyStr) (after : Option MarkerCursor) (own : List StateMarker) :
    List StateMarker :=
  match directoryAfterRelation rel (after.map Prod.fst), after with
  | .skip, _ => []
  | .ancestor, _ => []
  | .equal, some cursor => own.filter fun m => cursor.snd < m.jobKey.text
  | _, _ => own

/-- The markers below the directories in a directory. -/
def childMarkers (kind : StateKind) (rel : List PyStr) (after : Option MarkerCursor) :
    Forest PyStr → List StateMarker
  | .nil => []
  | .leaf _ _ rest => childMarkers kind rel after rest
  | .branch name entries rest =>
    (if directoryAfterRelation (rel ++ [name]) (after.map Prod.fst) = .skip then []
      else visibleMarkers (rel ++ [name]) after (ownMarkers kind (rel ++ [name]) entries)
        ++ childMarkers kind (rel ++ [name]) after entries)
      ++ childMarkers kind rel after rest

/-- **`_iter_ordered_marker_directory`**. -/
def orderedMarkers (kind : StateKind) (rel : List PyStr) (after : Option MarkerCursor)
    (directory : Forest PyStr) : List StateMarker :=
  visibleMarkers rel after (ownMarkers kind rel directory) ++ childMarkers kind rel after directory

/-- **A static workspace**: what stands below the state directory of each kind, by name, and the
members of the frames that can be read. A leaf is marked if it is a regular file; no name holds a
slash. -/
structure ListedWorkspace where
  tree : StateKind → Forest PyStr
  sorted : ∀ kind, (tree kind).Sorted
  plain : ∀ kind, (tree kind).EachName fun name => '/'.toNat ∉ name.codes
  state : StateMarker → List (PyStr × Json)

/-! ## Cursors -/

def parseMarkerCursor (cursor : PyStr) : Except Exc MarkerCursor :=
  match cursor.rpartition '/' with
  | some (placementText, jobKey) =>
    if placementText.codes = [] ∨ jobKey.codes = [] then
      .error ⟨.valueError, [.lit "marker cursor must be '<placement>/<job_key>'"]⟩
    else do
      let placement ← normalizePlacement placementText
      let _ ← parseJobKey jobKey
      .ok (placement, jobKey)
  | none => .error ⟨.valueError, [.lit "marker cursor must be '<placement>/<job_key>'"]⟩

def cursorKindError (kind : StateKind) (selected : List StateKind) : Exc :=
  ⟨.valueError, [.lit "job list cursor kind ", .repr (some (.str kind.word)),
    .lit " is not among the selected kinds (",
    .raw (if selected = [] then "none"
      else PyStr.join ", " (selected.map StateKind.word)), .lit ")"]⟩

/-- Where `iter_markers` goes on: in a kind, if the cursor names one, and after a marker. -/
def iterCursor (selected : List StateKind) (after : PyStr) :
    Except Exc (Option StateKind × MarkerCursor) :=
  match (after.partition ':').bind fun e => (kindNamed e.fst).map (·, e.snd) with
  | some (kind, rest) =>
    if kind ∈ selected then (parseMarkerCursor rest).map (some kind, ·)
    else .error (cursorKindError kind selected)
  | none => (parseMarkerCursor after).map (none, ·)

/-- `selected`: the requested kinds in their order. -/
def selectedKinds (kinds : List StateKind) : List StateKind :=
  stateKinds.filter (· ∈ if kinds = [] then stateKinds else kinds)

def kindsFrom (kind : Option StateKind) (selected : List StateKind) : List StateKind :=
  match kind with
  | none => selected
  | some first => selected.filter fun k => stateKinds.idxOf first ≤ stateKinds.idxOf k

/-- **`iter_markers`**. No prefix is the empty one. -/
def iterMarkers (w : ListedWorkspace) (kinds : List StateKind) (placementPrefix : List PyStr)
    (after : Option PyStr) : Except Exc (List StateMarker) := do
  let selected := selectedKinds kinds
  match after with
  | none => .ok (selected.flatMap fun kind =>
      orderedMarkers kind placementPrefix none ((w.tree kind).subforest placementPrefix))
  | some after => do
    let (first, cursor) ← iterCursor selected after
    .ok ((kindsFrom first selected).flatMap fun kind =>
      orderedMarkers kind placementPrefix (if first = none ∨ first = some kind then some cursor else none)
        ((w.tree kind).subforest placementPrefix))

/-! ## Pages -/

/-- **What is asked for**: kinds, a placement prefix and a part of the tag. -/
structure JobSelection where
  kinds : List StateKind
  placementPrefix : List PyStr
  tagContains : Option PyStr

/-- Whether the tag of a marker has the part asked for. -/
def JobSelection.wants (sel : JobSelection) (m : StateMarker) : Bool :=
  match sel.tagContains with
  | none => true
  | some part =>
    match m.jobKey.tag with
    | none => false
    | some tag => tag.hasSubstring part

/-- **A row of the listing.** -/
structure JobRow where
  jobKey : PyStr
  jobId : PyStr
  state : PyStr
  step : Option Json
  placement : PyStr
  priority : ℕ
  generation : ℕ
  reason : Option Json

def ListedWorkspace.row (w : ListedWorkspace) (m : StateMarker) : JobRow where
  jobKey := m.jobKey.text
  jobId := m.jobId
  state := m.kind.word
  step := Json.get (w.state m) "step"
  placement := PyStr.join "/" m.placement
  priority := m.priority
  generation := m.generation
  reason := Json.get (w.state m) "reason"

/-- **The cursor of a marker.** -/
def cursorText (m : StateMarker) : PyStr :=
  m.kind.word ++ ":" ++ PyStr.join "/" m.placement
    ++ "/" ++ m.jobKey.text

/-- `scan_limit`: how many markers a page of a tag may examine. -/
def JobSelection.scanLimit (sel : JobSelection) (limit : ℕ) : Option ℕ :=
  sel.tagContains.map fun _ => max (limit * 100) 10000

/-- Whether the scan budget is used up. -/
def spent (scanLimit : Option ℕ) (examined : ℕ) : Bool :=
  match scanLimit with
  | none => false
  | some bound => bound ≤ examined

/-- **The look-ahead of a full page**: whether another row follows its last one. The marker to go on
after is returned. -/
def lookAhead (sel : JobSelection) (scanLimit : Option ℕ) (last : StateMarker) :
    ℕ → List StateMarker → Option StateMarker
  | _, [] => none
  | examined, candidate :: stream =>
    if sel.wants candidate = true then some last
    else if spent scanLimit (examined + 1) = true then some candidate
    else lookAhead sel scanLimit last (examined + 1) stream

/-- **The loop of `list_jobs`**: the markers of a page, and the one to go on after. -/
def scanPage (sel : JobSelection) (limit : ℕ) (scanLimit : Option ℕ) (rows : List StateMarker) :
    ℕ → List StateMarker → List StateMarker × Option StateMarker
  | _, [] => (rows, none)
  | examined, m :: stream =>
    if sel.wants m = false then
      if spent scanLimit (examined + 1) = true then (rows, some m)
      else scanPage sel limit scanLimit rows (examined + 1) stream
    else if limit ≤ (rows ++ [m]).length then
      if spent scanLimit (examined + 1) = true then (rows ++ [m], some m)
      else (rows ++ [m], lookAhead sel scanLimit m (examined + 1) stream)
    else if spent scanLimit (examined + 1) = true then (rows ++ [m], some m)
    else scanPage sel limit scanLimit (rows ++ [m]) (examined + 1) stream

/-- Where `list_jobs` goes on: in a kind, after the rest of the cursor. -/
def listCursor (selected : List StateKind) (after : PyStr) : Except Exc (StateKind × PyStr) :=
  match (after.partition ':').bind fun e => (kindNamed e.fst).map (·, e.snd) with
  | some (kind, rest) =>
    if rest.codes = [] then
      .error ⟨.valueError, [.lit "job list cursor must be '<kind>:<placement>/<job_key>'"]⟩
    else if kind ∈ selected then do
      let _ ← parseMarkerCursor rest
      .ok (kind, rest)
    else .error (cursorKindError kind selected)
  | none => .error ⟨.valueError, [.lit "job list cursor must be '<kind>:<placement>/<job_key>'"]⟩

def selectedStream (w : ListedWorkspace) (sel : JobSelection) (after : Option PyStr) :
    Except Exc (List StateMarker) := do
  let selected := selectedKinds sel.kinds
  match after with
  | none =>
    let streams ← selected.mapM fun kind => iterMarkers w [kind] sel.placementPrefix none
    .ok streams.flatten
  | some after => do
    let (first, rest) ← listCursor selected after
    let streams ← (kindsFrom (some first) selected).mapM fun kind =>
      iterMarkers w [kind] sel.placementPrefix (if kind = first then some rest else none)
    .ok streams.flatten

/-- **`list_jobs`**, with a limit. -/
def listJobs (w : ListedWorkspace) (sel : JobSelection) (limit : ℕ) (after : Option PyStr) :
    Except Exc (List JobRow × Option PyStr) :=
  if limit < 1 then .error ⟨.valueError, [.lit "--limit must be positive"]⟩
  else do
    let stream ← selectedStream w sel after
    let (markers, next) := scanPage sel limit (sel.scanLimit limit) [] 0 stream
    .ok (markers.map w.row, next.map cursorText)
