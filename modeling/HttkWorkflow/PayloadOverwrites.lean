import HttkWorkflow.PayloadMembers
import Mathlib.Data.Set.Finite.Lemmas

/-!
# Which members of a payload overwrite each other

A payload that is built has at every place what was written there last. So
two members never end up one inside the other, which the file system refuses,
but two with one place do: the later one is what is there. Prepared members
are compared with each other and with user files, and what is written for an
executable hook is written where nothing is; user files are not compared with
each other, nor declared inputs with anything.

There is a second way to lose a member. An input whose value is a path is
staged under the text of its place, and that text is normalised again: a
place whose text begins or ends with a blank is another one then. Each such
input is at the wrong place. That nothing else is at the right one, so that
the payload is wrong whatever the other inputs are, is seen from an input
whose place has the most blanks: a second normalisation takes some away, so
no misplaced input ends up there, and a well-placed one has another place.
-/

/-! ## Normalised places -/

/-- How many blanks the parts of a path have. -/
def blanks (parts : List PyStr) : ℕ := (parts.map fun part => part.codes.countP isSpace).sum

theorem blanks_partsOf (text : PyStr) : blanks (PosixPath.partsOf text) = text.codes.countP isSpace := by
  have hsplit : text.codes.countP isSpace = blanks (text.split '/') := by
    unfold blanks PyStr.split
    rw [List.map_map]
    have hwhole : ['/'.toNat].intercalate (text.codes.splitOn '/'.toNat) = text.codes := List.intercalate_splitOn _
    conv_lhs => rw [← hwhole]
    exact countP_intercalate rfl _
  rw [hsplit]
  unfold PosixPath.partsOf
  generalize text.split '/' = parts
  induction parts with
  | nil => rfl
  | cons part parts ih =>
    unfold blanks at ih ⊢
    rw [List.filter_cons]
    split_ifs with hkept
    · rw [List.map_cons, List.sum_cons, List.map_cons, List.sum_cons, ih]
    · -- what is dropped is empty or a dot
      have hnone : part.codes.countP isSpace = 0 := by
        by_contra hcount
        refine hkept (decide_eq_true ⟨fun hnil => hcount (by rw [hnil]; rfl), fun hdot => hcount ?_⟩)
        rw [hdot]
        decide
      rw [List.map_cons, List.sum_cons, ih, hnone, Nat.zero_add]

theorem blanks_asPosix (p : PosixPath) : p.asPosix.codes.countP isSpace = blanks p.parts := by
  rw [← blanks_partsOf]
  exact congrArg (fun q : PosixPath => blanks q.parts) p.ofText_asPosix

/-- **A place in a payload.** -/
structure MemberPlace (p : PosixPath) : Prop where
  relative : p.root = .relative
  deep : p.parts.length ≠ 1
  plain : refusedPart p.parts = none

variable {p : PosixPath}

theorem payloadRelative_eq_ok {name : PyStr} (h : payloadRelative name = .ok p) :
    MemberPlace p ∧ blanks p.parts = (stripEnds isSpace name.codes).countP isSpace := by
  unfold payloadRelative at h
  simp only at h
  split_ifs at h with hempty hroot hone
  all_goals
    have hrelative : (PosixPath.ofText ⟨stripEnds isSpace name.codes⟩).root = .relative := by simpa using hroot
    have hblanks := blanks_partsOf ⟨stripEnds isSpace name.codes⟩
    split at h
    · cases h
    rename_i hplain
    obtain rfl := Except.ok.inj h
  · have hparts : (filesDirectory.append (PosixPath.ofText ⟨stripEnds isSpace name.codes⟩)).parts
        = PyStr.ofString "files" :: PosixPath.partsOf ⟨stripEnds isSpace name.codes⟩ := by
      unfold PosixPath.append
      rw [if_pos hrelative]
      rfl
    refine ⟨⟨?_, ?_, hplain⟩, ?_⟩
    · unfold PosixPath.append
      rw [if_pos hrelative]
      rfl
    · rw [hparts, List.length_cons]
      intro hlength
      exact absurd (hone.symm.trans (Nat.succ_injective hlength)) (by decide)
    · rw [hparts, ← hblanks]
      exact Nat.zero_add _
  · exact ⟨⟨hrelative, hone, hplain⟩, hblanks⟩

theorem payloadRelative_asPosix (hp : MemberPlace p)
    (htrimmed : stripEnds isSpace p.asPosix.codes = p.asPosix.codes) : payloadRelative p.asPosix = .ok p := by
  unfold payloadRelative
  simp only [htrimmed, p.ofText_asPosix]
  rw [if_neg p.asPosix_ne_nil, if_neg (not_not.mpr hp.relative), if_neg hp.deep, hp.plain]

theorem blanks_lt_of_untrimmed {p q : PosixPath} (hq : payloadRelative p.asPosix = .ok q)
    (htrimmed : stripEnds isSpace p.asPosix.codes ≠ p.asPosix.codes) : blanks q.parts < blanks p.parts := by
  rw [(payloadRelative_eq_ok hq).2, ← blanks_asPosix]
  exact countP_stripEnds_lt htrimmed

theorem MemberPlace.ne_jobJson (hp : MemberPlace p) : p.parts ≠ jobJsonPath.parts := fun heq =>
  hp.deep (congrArg List.length heq)

/-! ## The members of a request -/

/-- Where a member comes from. -/
inductive MemberOrigin where
  | prepared
  | userFile
  | inputPath
  | inputObject
  | hookInput
deriving DecidableEq

/-- **A supplied member**: the name it is given, and its content. -/
structure PayloadMember (β : Type) where
  origin : MemberOrigin
  name : PyStr
  content : Except Exc β

section Members

variable {ω β : Type} (world : PayloadWorld ω β)

/-- What a file that is copied has. -/
def sourceContent (source : PyStr) : Except Exc β := (stagedSource world source source).bind id

def placedInput (declared : Dict PyStr (Option PyStr)) (input : PyStr × InputValue ω) : List (PayloadMember β) :=
  match declared.get input.fst with
  | some (some destinationName) =>
    match input.snd.asPath with
    | some source => [⟨.inputPath, destinationName, sourceContent world source⟩]
    | none => [⟨.inputObject, destinationName, (payloadRelative destinationName).bind (world.save input.snd)⟩]
  | _ => []

/-- The member that is saved for a hook: what the first writer that succeeds writes. -/
def savedMember (input : PyStr) (value : InputValue ω) : List PyStr → List (PayloadMember β)
  | [] => []
  | key :: keys =>
    let name := hookInputName input (dispatchName input key)
    match (payloadRelative name).bind (world.save value) with
    | .ok content => [⟨.hookInput, name, .ok content⟩]
    | .error _ => savedMember input value keys

def hookMember (declared : Dict PyStr (Option PyStr)) (input : PyStr × InputValue ω) : List (PayloadMember β) :=
  if declared.get input.fst ≠ some none then []
  else
    match input.snd.sourceFile world with
    | some (fileName, copied) => [⟨.hookInput, hookInputName input.fst fileName, copied⟩]
    | none => if input.snd.isNative world = true then [] else savedMember world input.fst input.snd world.writers

def hookMembers (request : BuildRequest ω β) : List (PayloadMember β) :=
  match request.hook with
  | .executable _ => request.inputs.flatMap (hookMember world request.declared)
  | _ => []

def preparedMembers (request : BuildRequest ω β) : List (PayloadMember β) :=
  (request.documents.map fun e => ⟨.prepared, e.fst, e.snd.content world⟩)
    ++ request.files.map fun e => ⟨.prepared, e.fst, sourceContent world e.snd⟩

/-- **Every member a request supplies**, in the order they are written. -/
def suppliedMembers (request : BuildRequest ω β) : List (PayloadMember β) :=
  (request.userFiles.map fun e => ⟨.userFile, e.fst, sourceContent world e.snd⟩) ++ preparedMembers world request
    ++ request.inputs.flatMap (placedInput world request.declared) ++ hookMembers world request

/-- **The members of a payload are all there**: each at its place with its own
content, and no two with one place or one inside the other. -/
structure MembersKept (members : List (PayloadMember β)) (payload : Payload β) : Prop where
  own : ∀ m ∈ members, ∃ d c, payloadRelative m.name = .ok d ∧ m.content = .ok c ∧ payload.content d.parts = some c
  apart : members.Pairwise fun m n => ∀ d e, payloadRelative m.name = .ok d → payloadRelative n.name = .ok e →
    ¬d.parts <+: e.parts ∧ ¬e.parts <+: d.parts

/-- Whether two members are kept apart before they are written. -/
def MemberOrigin.compared : MemberOrigin → MemberOrigin → Bool
  | .prepared, .prepared => true
  | .prepared, .userFile => true
  | .userFile, .prepared => true
  | .hookInput, _ => true
  | _, .hookInput => true
  | _, _ => false

/-- **What the build does not look at**: members that it does not compare have different
places, and the place of an input whose value is a path has no blanks at its ends. -/
structure UncomparedApart (members : List (PayloadMember β)) : Prop where
  places : members.Pairwise fun m n =>
    m.origin.compared n.origin = false → payloadRelative m.name ≠ payloadRelative n.name
  trimmed : ∀ m ∈ members, m.origin = .inputPath → ∀ d, payloadRelative m.name = .ok d →
    stripEnds isSpace d.asPosix.codes = d.asPosix.codes

/-- **A hook that leaves the members as they are.** -/
def LeavesMembers (members : List (PayloadMember β)) (run : Payload β → Except Exc (Payload β)) : Prop :=
  ∀ payload payload', run payload = .ok payload' → ∀ m ∈ members, ∀ d, payloadRelative m.name = .ok d →
    payload'.content d.parts = payload.content d.parts

/-- The same of the hook of a workflow; what is staged for an executable one is staged before it runs. -/
def InstantiateHook.Leaves (members : List (PayloadMember β)) : InstantiateHook β → Prop
  | .absent => True
  | .python run => LeavesMembers members run
  | .executable run => LeavesMembers members run

/-! ## What is staged -/

def PayloadMember.writtenAt (m : PayloadMember β) : Except Exc PosixPath :=
  if m.origin = .inputPath then (payloadRelative m.name).bind fun d => payloadRelative d.asPosix
  else payloadRelative m.name

/-- **A payload into which members were written**, the last first. -/
structure Written (payload : Payload β) (written : List (PayloadMember β × (List PyStr × β))) : Prop where
  holds : payload.Holds (written.map Prod.snd)
  place : ∀ w ∈ written, ∃ d, w.fst.writtenAt = .ok d ∧ d.parts = w.snd.fst
  content : ∀ w ∈ written, w.fst.content = .ok w.snd.snd
  fresh : written.Pairwise fun later earlier => later.fst.origin = .hookInput → later.snd.fst ≠ earlier.snd.fst

def StagedAs (payload : Payload β) (members : List (PayloadMember β)) : Prop :=
  ∃ written, Written payload written ∧ written.map Prod.fst = members

theorem stagedAs_empty : StagedAs (emptyPayload : Payload β) [] := by
  refine ⟨[], ⟨fun p => ?_, by simp, by simp, List.Pairwise.nil⟩, rfl⟩
  refine FileTree.content_of_not_file ?_
  by_cases hp : p = []
  · exact Or.inr (FileTree.isDir_iff.mpr (by rw [hp]; rfl))
  · refine Or.inl (FileTree.present_eq_false.mpr ?_)
    show ([([], Node.dir)] : List (List PyStr × Node β)).lookup p = none
    rw [List.lookup_cons, beq_false_of_ne hp]
    rfl

variable {world} {payload payload' : Payload β} {members : List (PayloadMember β)} {m : PayloadMember β}

variable {path : PosixPath}

theorem StagedAs.parents (h : StagedAs payload members)
    (hmake : makeParents world payload path = .ok payload') : StagedAs payload' members := by
  obtain ⟨written, hwritten, hmembers⟩ := h
  unfold makeParents at hmake
  split_ifs at hmake with hmakeable
  obtain rfl := Except.ok.inj hmake
  exact ⟨written, ⟨hwritten.holds.makedirs hmakeable.1, hwritten.place, hwritten.content, hwritten.fresh⟩, hmembers⟩

theorem StagedAs.write (h : StagedAs payload members) {c : β}
    (hwrite : writeMember world payload path c = .ok payload') (hplace : m.writtenAt = .ok path)
    (hcontent : m.content = .ok c) (hfresh : m.origin = .hookInput → payload.content path.parts = none) : StagedAs payload' (m :: members) := by
  obtain ⟨written, hwritten, hmembers⟩ := h
  unfold writeMember at hwrite
  split_ifs at hwrite with hwritable
  obtain rfl := Except.ok.inj hwrite
  refine ⟨(m, (path.parts, c)) :: written, ⟨hwritten.holds.write c hwritable.1, ?_, ?_, ?_⟩,
    by rw [List.map_cons, hmembers]⟩
  · exact List.forall_mem_cons.mpr ⟨⟨path, hplace, rfl⟩, hwritten.place⟩
  · exact List.forall_mem_cons.mpr ⟨hcontent, hwritten.content⟩
  · refine List.pairwise_cons.mpr ⟨fun w hw horigin heq => ?_, hwritten.fresh⟩
    obtain ⟨d, hd⟩ := hwritten.holds.exists_content (List.mem_map_of_mem (f := Prod.snd) hw)
    have hnone : payload.content w.snd.fst = none := heq ▸ hfresh horigin
    rw [hd] at hnone
    cases hnone

theorem sourceContent_of_stagedSource {name source : PyStr} {copied : Except Exc β}
    (h : stagedSource world name source = .ok copied) : sourceContent world source = copied := by
  unfold sourceContent
  unfold stagedSource at h ⊢
  split at h
  · cases h
  · exact Except.ok.inj h
  · cases h

theorem StagedAs.file (h : StagedAs payload members) {file : PyStr × PyStr}
    (hstage : stageFile world payload file = .ok payload') (hplace : m.writtenAt = payloadRelative file.fst)
    (hcontent : m.content = sourceContent world file.snd) (horigin : m.origin ≠ .hookInput) :
    StagedAs payload' (m :: members) := by
  unfold stageFile at hstage
  obtain ⟨copied, hcopied, hstage⟩ := bind_eq_ok.mp hstage
  obtain ⟨destination, hdestination, hstage⟩ := bind_eq_ok.mp hstage
  obtain ⟨made, hmade, hstage⟩ := bind_eq_ok.mp hstage
  obtain ⟨c, hc, hstage⟩ := bind_eq_ok.mp hstage
  refine (h.parents hmade).write hstage (hplace.trans hdestination) ?_ fun hhook => absurd hhook horigin
  rw [hcontent, sourceContent_of_stagedSource hcopied, hc]

/-- **The rule of a loop** that stages the members of one item after those of another. -/
theorem staged_foldlM {α : Type} {f : Payload β → α → Except Exc (Payload β)} {supplied : α → List (PayloadMember β)}
    {items : List α} (hround : ∀ item ∈ items, ∀ payload payload' members, StagedAs payload members →
      f payload item = .ok payload' → StagedAs payload' ((supplied item).reverse ++ members))
    (h : StagedAs payload members) (hloop : items.foldlM f payload = .ok payload') :
    StagedAs payload' ((items.flatMap supplied).reverse ++ members) := by
  induction items generalizing payload members with
  | nil =>
    obtain rfl := Except.ok.inj hloop
    exact h
  | cons item items ih =>
    rw [List.foldlM_cons] at hloop
    obtain ⟨next, hnext, hloop⟩ := bind_eq_ok.mp hloop
    have hstaged := ih (fun other hother => hround other (List.mem_cons_of_mem _ hother))
      (hround item List.mem_cons_self payload next members h hnext) hloop
    rwa [List.flatMap_cons, List.reverse_append, List.append_assoc]

/-! ## The four sources -/

variable {request : BuildRequest ω β}

theorem StagedAs.files (h : StagedAs payload members) {files : List (PyStr × PyStr)}
    (hstage : stageFiles world payload files = .ok payload') {origin : MemberOrigin} (hpath : origin ≠ .inputPath)
    (hhook : origin ≠ .hookInput) : StagedAs payload'
      ((files.map fun e => ⟨origin, e.fst, sourceContent world e.snd⟩).reverse ++ members) := by
  rw [List.map_eq_flatMap]
  refine staged_foldlM (fun file _ payload payload' members h hfile => ?_) h hstage
  exact h.file hfile (if_neg hpath) rfl hhook

theorem StagedAs.documents (h : StagedAs payload members) {documents : List (PyStr × Document β)}
    (hstage : documents.foldlM (stageDocument world) payload = .ok payload') : StagedAs payload'
      ((documents.map fun e => ⟨.prepared, e.fst, e.snd.content world⟩).reverse ++ members) := by
  rw [List.map_eq_flatMap]
  refine staged_foldlM (fun document _ payload payload' members h hdocument => ?_) h hstage
  unfold stageDocument at hdocument
  obtain ⟨destination, hdestination, hdocument⟩ := bind_eq_ok.mp hdocument
  obtain ⟨made, hmade, hdocument⟩ := bind_eq_ok.mp hdocument
  obtain ⟨c, hc, hdocument⟩ := bind_eq_ok.mp hdocument
  exact (h.parents hmade).write hdocument hdestination hc fun hhook => by cases hhook

theorem StagedAs.inputs (h : StagedAs payload members) (hstage : stageInputs world request payload = .ok payload') :
    StagedAs payload' ((request.inputs.flatMap (placedInput world request.declared)).reverse ++ members) := by
  refine staged_foldlM (fun input _ payload payload' members h hinput => ?_) h hstage
  unfold stageInput at hinput
  unfold placedInput
  split at hinput
  · cases hinput
  · rename_i hdeclared
    rw [hdeclared]
    split_ifs at hinput
    obtain rfl := Except.ok.inj hinput
    exact h
  · rename_i destinationName hdeclared
    rw [hdeclared]
    obtain ⟨destination, hdestination, hinput⟩ := bind_eq_ok.mp hinput
    cases hpath : input.snd.asPath with
    | some source =>
      simp only [hpath] at hinput ⊢
      unfold stageFiles at hinput
      rw [List.foldlM_cons] at hinput
      obtain ⟨next, hnext, hinput⟩ := bind_eq_ok.mp hinput
      obtain rfl := Except.ok.inj hinput
      refine h.file hnext ?_ rfl (by simp)
      show (payloadRelative destinationName).bind _ = _
      rw [hdestination]
      rfl
    | none =>
      simp only [hpath] at hinput ⊢
      split_ifs at hinput
      obtain ⟨made, hmade, hinput⟩ := bind_eq_ok.mp hinput
      obtain ⟨c, hc, hinput⟩ := bind_eq_ok.mp hinput
      refine (h.parents hmade).write hinput hdestination ?_ fun hhook => by cases hhook
      show (payloadRelative destinationName).bind _ = _
      rw [hdestination]
      exact hc

theorem StagedAs.fresh (h : StagedAs payload members) {made : Payload β} {c : β}
    (habsent : ¬payload.present path.parts = true) (hmake : makeParents world payload path = .ok made)
    (hwrite : writeMember world made path c = .ok payload') (hplace : m.writtenAt = .ok path)
    (hcontent : m.content = .ok c) : StagedAs payload' (m :: members) := by
  refine (h.parents hmake).write hwrite hplace hcontent fun _ => ?_
  unfold makeParents at hmake
  split_ifs at hmake with hmakeable
  obtain rfl := Except.ok.inj hmake
  rw [FileTree.content_makedirs]
  exact FileTree.content_of_not_file (Or.inl (by simpa using habsent))

variable {keys : List PyStr}

theorem StagedAs.saved (input : PyStr) (value : InputValue ω) (h : StagedAs payload members)
    (hsave : saveExecutableInput world input value keys payload = .ok payload') :
    StagedAs payload' ((savedMember world input value keys).reverse ++ members) := by
  induction keys generalizing payload with
  | nil => cases hsave
  | cons key keys ih =>
    unfold saveExecutableInput at hsave
    unfold savedMember
    generalize hookInputName input (dispatchName input key) = name at hsave ⊢
    obtain ⟨relative, hrelative, hsave⟩ := bind_eq_ok.mp hsave
    split_ifs at hsave with hpresent
    obtain ⟨made, hmade, hsave⟩ := bind_eq_ok.mp hsave
    simp only [hrelative, Except.bind]
    cases hsaved : world.save value relative with
    | ok content =>
      rw [hsaved] at hsave
      exact h.fresh hpresent hmade hsave hrelative rfl
    | error e =>
      rw [hsaved] at hsave
      exact ih (h.parents hmade) hsave

theorem StagedAs.serialized (h : StagedAs payload members)
    (hstage : request.inputs.foldlM (serializeInput world request.declared) payload = .ok payload') :
    StagedAs payload' ((request.inputs.flatMap (hookMember world request.declared)).reverse ++ members) := by
  refine staged_foldlM (fun input _ payload payload' members h hinput => ?_) h hstage
  unfold serializeInput at hinput
  unfold hookMember
  by_cases hdeclared : request.declared.get input.fst ≠ some none
  · rw [if_pos hdeclared] at hinput ⊢
    obtain rfl := Except.ok.inj hinput
    exact h
  · rw [if_neg hdeclared] at hinput ⊢
    cases hfile : input.snd.sourceFile world with
    | some file =>
      simp only [hfile] at hinput ⊢
      generalize hookInputName input.fst file.fst = name at hinput ⊢
      obtain ⟨relative, hrelative, hinput⟩ := bind_eq_ok.mp hinput
      split_ifs at hinput with hpresent
      obtain ⟨made, hmade, hinput⟩ := bind_eq_ok.mp hinput
      obtain ⟨c, hc, hinput⟩ := bind_eq_ok.mp hinput
      exact h.fresh hpresent hmade hinput hrelative hc
    | none =>
      simp only [hfile] at hinput ⊢
      obtain ⟨-, -, hinput⟩ := bind_eq_ok.mp hinput
      by_cases hnative : input.snd.isNative world = true
      · rw [if_pos hnative] at hinput ⊢
        obtain rfl := Except.ok.inj hinput
        exact h
      · rw [if_neg hnative] at hinput ⊢
        exact h.saved input.fst input.snd hinput

/-! ## What is compared -/

def Noted (members : Dict PyStr PyStr) (names : List PyStr) : Prop :=
  ∀ name ∈ names, ∃ d, payloadRelative name = .ok d ∧ members.get d.asPosix ≠ none

variable {names : List PyStr} {table : Dict PyStr PyStr}

variable {d : PosixPath} {name : PyStr}

theorem not_noted (h : Noted table names) (hd : payloadRelative name = .ok d) (hnone : table.get d.asPosix = none) :
    ∀ other ∈ names, payloadRelative other ≠ payloadRelative name := by
  intro other hother heq
  obtain ⟨e, he, hsome⟩ := h other hother
  obtain rfl : e = d := Except.ok.inj (he.symm.trans (heq.trans hd))
  exact hsome hnone

theorem noted_preparedMember {table table' : Dict PyStr PyStr} (h : Noted table names)
    (hname : preparedMember table name = .ok table') :
    Noted table' (names ++ [name]) ∧ ∀ other ∈ names, payloadRelative other ≠ payloadRelative name := by
  unfold preparedMember at hname
  obtain ⟨d, hd, hname⟩ := bind_eq_ok.mp hname
  split at hname
  · cases hname
  · rename_i hnone
    obtain rfl := Except.ok.inj hname
    refine ⟨fun other hother => ?_, not_noted h hd hnone⟩
    rcases List.mem_append.mp hother with hother | hother
    · obtain ⟨e, he, hsome⟩ := h other hother
      refine ⟨e, he, ?_⟩
      rw [Dict.get_set]
      split_ifs
      · exact Option.some_ne_none _
      · exact hsome
    · obtain rfl := List.mem_singleton.mp hother
      refine ⟨d, hd, ?_⟩
      rw [Dict.get_set, if_pos rfl]
      exact Option.some_ne_none _

theorem prepared_apart (h : names.foldlM preparedMember [] = .ok table) : names.Pairwise
    (fun a b => payloadRelative a ≠ payloadRelative b) ∧ Noted table names := by
  induction names using List.reverseRecOn generalizing table with
  | nil => exact ⟨List.Pairwise.nil, fun name hname => by cases hname⟩
  | append_singleton names name ih =>
    rw [List.foldlM_append] at h
    obtain ⟨before, hbefore, h⟩ := bind_eq_ok.mp h
    obtain ⟨after, hafter, h⟩ := bind_eq_ok.mp h
    obtain rfl := Except.ok.inj h
    obtain ⟨hpairwise, hnoted⟩ := ih hbefore
    obtain ⟨hnoted', hnew⟩ := noted_preparedMember hnoted hafter
    refine ⟨List.pairwise_append.mpr ⟨hpairwise, List.pairwise_singleton _ _, fun other hother last hlast => ?_⟩,
      hnoted'⟩
    exact List.mem_singleton.mp hlast ▸ hnew other hother

theorem userMember_apart (h : Noted table names)
    (hname : userMember table name = .ok ()) : ∀ other ∈ names, payloadRelative other ≠ payloadRelative name := by
  unfold userMember at hname
  obtain ⟨d, hd, hname⟩ := bind_eq_ok.mp hname
  split at hname
  · cases hname
  · rename_i hnone
    exact not_noted h hd hnone

/-! ## The payload that is built -/

/-- **What a payload that was built was staged as**, and what the comparison left. -/
structure BuiltAs (world : PayloadWorld ω β) (request : BuildRequest ω β) (staged payload : Payload β) : Prop where
  written : StagedAs staged (suppliedMembers world request).reverse
  kept : ∀ m ∈ suppliedMembers world request, ∀ d, payloadRelative m.name = .ok d →
    payload.content d.parts = staged.content d.parts
  prepared : (preparedMembers world request).Pairwise fun m n => payloadRelative m.name ≠ payloadRelative n.name
  users : ∀ e ∈ request.userFiles, ∀ m ∈ preparedMembers world request, payloadRelative e.fst ≠ payloadRelative m.name

theorem map_name_preparedMembers (world : PayloadWorld ω β) (request : BuildRequest ω β) :
    (preparedMembers world request).map PayloadMember.name
      = request.documents.map Prod.fst ++ request.files.map Prod.fst := by
  unfold preparedMembers
  rw [List.map_append, List.map_map, List.map_map]
  rfl

theorem content_prepareJobPayload (h : prepareJobPayload world request payload = .ok payload')
    (hd : MemberPlace d) : payload'.content d.parts = payload.content d.parts := by
  unfold prepareJobPayload at h
  split_ifs at h
  obtain ⟨c, -, h⟩ := bind_eq_ok.mp h
  unfold writeMember at h
  split_ifs at h with hwritable
  obtain rfl := Except.ok.inj h
  rw [FileTree.content_write, if_neg hd.ne_jobJson]

theorem builtAs_of_build (h : buildPayload world request = .ok payload)
    (hhook : request.hook.Leaves (suppliedMembers world request)) : ∃ staged, BuiltAs world request staged payload := by
  unfold buildPayload at h
  obtain ⟨table, htable, h⟩ := bind_eq_ok.mp h
  obtain ⟨⟨⟩, hcompared, h⟩ := bind_eq_ok.mp h
  obtain ⟨users, hstageUsers, h⟩ := bind_eq_ok.mp h
  obtain ⟨documents, hdocuments, h⟩ := bind_eq_ok.mp h
  obtain ⟨files, hfiles, h⟩ := bind_eq_ok.mp h
  obtain ⟨inputs, hinputs, h⟩ := bind_eq_ok.mp h
  obtain ⟨-, -, h⟩ := bind_eq_ok.mp h
  obtain ⟨instantiated, hinstantiated, h⟩ := bind_eq_ok.mp h
  have hstaged := (((stagedAs_empty.files hstageUsers (by decide : MemberOrigin.userFile ≠ _) (by decide)).documents
    hdocuments).files hfiles (by decide : MemberOrigin.prepared ≠ _) (by decide)).inputs hinputs
  obtain ⟨hpairwise, hnoted⟩ := prepared_apart htable
  rw [← map_name_preparedMembers world request] at hpairwise hnoted
  have hprepared : (preparedMembers world request).Pairwise fun m n =>
      payloadRelative m.name ≠ payloadRelative n.name := by
    rwa [List.pairwise_map] at hpairwise
  have husersApart : ∀ e ∈ request.userFiles, ∀ m ∈ preparedMembers world request,
      payloadRelative e.fst ≠ payloadRelative m.name := fun e he m hm heq =>
    userMember_apart hnoted (forM_eq_ok.mp hcompared e.fst (List.mem_map_of_mem he)) m.name (List.mem_map_of_mem hm)
      heq.symm
  have hsupplied : ∀ hooked : List (PayloadMember β), hooked = hookMembers world request →
      hooked.reverse ++ ((request.inputs.flatMap (placedInput world request.declared)).reverse
        ++ ((request.files.map fun e => ⟨.prepared, e.fst, sourceContent world e.snd⟩).reverse
        ++ ((request.documents.map fun e => ⟨.prepared, e.fst, e.snd.content world⟩).reverse
        ++ ((request.userFiles.map fun e => ⟨.userFile, e.fst, sourceContent world e.snd⟩).reverse ++ []))))
        = (suppliedMembers world request).reverse := by
    rintro _ rfl
    unfold suppliedMembers preparedMembers
    simp only [List.reverse_append, List.append_assoc, List.append_nil]
  have hjob : ∀ m ∈ suppliedMembers world request, ∀ d, payloadRelative m.name = .ok d →
      payload.content d.parts = instantiated.content d.parts := fun m _ d hd =>
    content_prepareJobPayload h (payloadRelative_eq_ok hd).1
  unfold instantiatePayload at hinstantiated
  cases hkind : request.hook with
  | absent =>
    rw [hkind] at hinstantiated
    obtain rfl := Except.ok.inj hinstantiated
    exact ⟨inputs, hsupplied [] (by rw [hookMembers, hkind]) ▸ hstaged, hjob, hprepared, husersApart⟩
  | python run =>
    rw [hkind] at hinstantiated hhook
    refine ⟨inputs, hsupplied [] (by rw [hookMembers, hkind]) ▸ hstaged, fun m hm d hd => ?_, hprepared, husersApart⟩
    exact (hjob m hm d hd).trans (hhook _ _ hinstantiated m hm d hd)
  | executable run =>
    rw [hkind] at hinstantiated hhook
    obtain ⟨serialized, hserialized, hrun⟩ := bind_eq_ok.mp hinstantiated
    refine ⟨serialized, hsupplied _ (by rw [hookMembers, hkind]) ▸ hstaged.serialized hserialized, fun m hm d hd => ?_,
      hprepared, husersApart⟩
    exact (hjob m hm d hd).trans (hhook _ _ hrun m hm d hd)

section Origins

variable {n : PayloadMember β}

theorem origin_of_mem_prepared (h : n ∈ preparedMembers world request) : n.origin = .prepared := by
  rcases List.mem_append.mp h with h | h
  all_goals
    obtain ⟨e, -, rfl⟩ := List.mem_map.mp h
    rfl

theorem origin_of_mem_placed (h : n ∈ request.inputs.flatMap (placedInput world request.declared)) :
    n.origin = .inputPath ∨ n.origin = .inputObject := by
  obtain ⟨input, -, h⟩ := List.mem_flatMap.mp h
  unfold placedInput at h
  split at h
  · split at h
    · exact Or.inl (List.mem_singleton.mp h ▸ rfl)
    · exact Or.inr (List.mem_singleton.mp h ▸ rfl)
  · cases h

end Origins

variable {staged : Payload β}

theorem BuiltAs.distinct (h : BuiltAs world request staged payload)
    (hhooked : ∀ n ∈ hookMembers world request, n.origin = .hookInput)
    (hapart : UncomparedApart (suppliedMembers world request)) : (suppliedMembers world request).Pairwise fun m n =>
      n.origin = .hookInput ∨ payloadRelative m.name ≠ payloadRelative n.name := by
  have husers : ∀ n ∈ request.userFiles.map fun e => (⟨.userFile, e.fst, sourceContent world e.snd⟩ : PayloadMember β),
      n.origin = .userFile ∧ ∀ m ∈ preparedMembers world request, payloadRelative n.name ≠ payloadRelative m.name := by
    intro n hn
    obtain ⟨e, he, rfl⟩ := List.mem_map.mp hn
    exact ⟨rfl, h.users e he⟩
  have hplaces := hapart.places
  unfold suppliedMembers at hplaces ⊢
  simp only [List.pairwise_append] at hplaces ⊢
  obtain ⟨⟨⟨huu, -, -⟩, hii, hupi⟩, -, -⟩ := hplaces
  refine ⟨⟨⟨?_, h.prepared.imp Or.inr, fun m hm n hn => Or.inr ((husers m hm).2 n hn)⟩, ?_, fun m hm n hn => Or.inr ?_⟩,
    List.pairwise_of_forall_mem_list fun _ _ n hn => Or.inl (hhooked n hn), fun _ _ n hn => Or.inl (hhooked n hn)⟩
  · refine huu.imp_of_mem fun {m n} hm hn hmn => Or.inr (hmn ?_)
    rw [(husers m hm).1, (husers n hn).1]
    rfl
  · refine hii.imp_of_mem fun {m n} hm hn hmn => Or.inr (hmn ?_)
    rcases origin_of_mem_placed hm with hm | hm <;> rcases origin_of_mem_placed hn with hn | hn <;> rw [hm, hn] <;> rfl
  · refine hupi m hm n hn ?_
    have hm' : m.origin = .userFile ∨ m.origin = .prepared :=
      (List.mem_append.mp hm).imp (fun hm => (husers m hm).1) origin_of_mem_prepared
    rcases hm' with hm' | hm' <;> rcases origin_of_mem_placed hn with hn | hn <;> rw [hm', hn] <;> rfl

theorem origin_of_mem_saved {input : PyStr} {value : InputValue ω}
    (h : m ∈ savedMember world input value keys) : m.origin = .hookInput := by
  induction keys with
  | nil => cases h
  | cons key keys ih =>
    unfold savedMember at h
    generalize hookInputName input (dispatchName input key) = name at h
    simp only at h
    split at h
    · rw [List.mem_singleton.mp h]
    · exact ih h

theorem origin_of_mem_hooked (h : m ∈ hookMembers world request) : m.origin = .hookInput := by
  unfold hookMembers at h
  split at h
  · obtain ⟨input, -, h⟩ := List.mem_flatMap.mp h
    unfold hookMember at h
    by_cases hdeclared : request.declared.get input.fst ≠ some none
    · rw [if_pos hdeclared] at h
      cases h
    · rw [if_neg hdeclared] at h
      split at h
      · rw [List.mem_singleton.mp h]
      · split_ifs at h
        · cases h
        · exact origin_of_mem_saved h
  · cases h

/-! ## Exactly when every member is kept -/

theorem place_of_writtenAt (hd : m.writtenAt = .ok d) (htrimmed : m.origin = .inputPath →
    ∀ e, payloadRelative m.name = .ok e → stripEnds isSpace e.asPosix.codes = e.asPosix.codes) :
    payloadRelative m.name = .ok d := by
  unfold PayloadMember.writtenAt at hd
  split_ifs at hd with hpath
  · obtain ⟨e, he, hd⟩ := bind_eq_ok.mp hd
    rw [payloadRelative_asPosix (payloadRelative_eq_ok he).1 (htrimmed hpath e he)] at hd
    rw [he, Except.ok.inj hd]
  · exact hd

theorem eq_of_parts {a b : PyStr} {d e : PosixPath} (hd : payloadRelative a = .ok d) (he : payloadRelative b = .ok e)
    (hparts : d.parts = e.parts) : payloadRelative a = payloadRelative b := by
  have hroot := (payloadRelative_eq_ok hd).1.relative.trans (payloadRelative_eq_ok he).1.relative.symm
  rw [hd, he, PosixPath.ext hroot hparts]

theorem membersKept_of_apart (h : BuiltAs world request staged payload)
    (hapart : UncomparedApart (suppliedMembers world request)) :
    MembersKept (suppliedMembers world request) payload := by
  obtain ⟨written, hwritten, hmembers⟩ := h.written
  have hmem : ∀ w ∈ written, w.fst ∈ suppliedMembers world request := fun w hw =>
    List.mem_reverse.mp (hmembers ▸ List.mem_map_of_mem hw)
  have hplace : ∀ w ∈ written, ∃ d, payloadRelative w.fst.name = .ok d ∧ d.parts = w.snd.fst := fun w hw => by
    obtain ⟨d, hd, hparts⟩ := hwritten.place w hw
    exact ⟨d, place_of_writtenAt hd (hapart.trimmed w.fst (hmem w hw)), hparts⟩
  have hdistinct : written.Pairwise fun later earlier => later.snd.fst ≠ earlier.snd.fst := by
    have hnames := List.pairwise_reverse.mpr (h.distinct (fun n hn => origin_of_mem_hooked hn) hapart)
    rw [← hmembers, List.pairwise_map] at hnames
    refine (hnames.and hwritten.fresh).imp_of_mem fun {later earlier} hlater hearlier ⟨hname, hfresh⟩ => ?_
    rcases hname with hhook | hne
    · exact hfresh hhook
    · obtain ⟨d, hd, hparts⟩ := hplace later hlater
      obtain ⟨e, he, hparts'⟩ := hplace earlier hearlier
      exact fun heq => hne (eq_of_parts he hd (hparts'.trans (heq.symm.trans hparts.symm)))
  have hnodup : ((written.map Prod.snd).map Prod.fst).Nodup := by
    rw [List.map_map]
    exact List.pairwise_map.mpr hdistinct
  constructor
  · intro m hm
    obtain ⟨w, hw, rfl⟩ := List.mem_map.mp (hmembers ▸ List.mem_reverse.mpr hm : m ∈ written.map Prod.fst)
    obtain ⟨d, hd, hparts⟩ := hplace w hw
    refine ⟨d, w.snd.snd, hd, hwritten.content w hw, ?_⟩
    rw [h.kept w.fst hm d hd, hparts]
    exact hwritten.holds.content_eq hnodup (List.mem_map_of_mem hw)
  · have hpairs : (suppliedMembers world request).reverse.Pairwise fun n m => ∀ d e, payloadRelative m.name = .ok d →
        payloadRelative n.name = .ok e → ¬d.parts <+: e.parts ∧ ¬e.parts <+: d.parts := by
      rw [← hmembers, List.pairwise_map]
      refine hdistinct.imp_of_mem fun {later earlier} hlater hearlier hne d e hd he => ?_
      obtain ⟨d', hd', hparts⟩ := hplace earlier hearlier
      obtain ⟨e', he', hparts'⟩ := hplace later hlater
      obtain rfl := Except.ok.inj (hd'.symm.trans hd)
      obtain rfl := Except.ok.inj (he'.symm.trans he)
      have hentry := List.mem_map_of_mem (f := Prod.snd) hearlier
      have hentry' := List.mem_map_of_mem (f := Prod.snd) hlater
      rw [hparts, hparts']
      exact ⟨fun hbelow => hne (hwritten.holds.eq_of_within hentry hentry' hbelow).symm,
        fun hbelow => hne (hwritten.holds.eq_of_within hentry' hentry hbelow)⟩
    exact List.pairwise_reverse.mp hpairs

theorem trimmed_of_kept (h : BuiltAs world request staged payload)
    (hkept : MembersKept (suppliedMembers world request) payload) :
    ∀ m ∈ suppliedMembers world request, m.origin = .inputPath → ∀ d, payloadRelative m.name = .ok d →
      stripEnds isSpace d.asPosix.codes = d.asPosix.codes := by
  intro m₀ hm₀ hpath₀ d₀ hd₀
  by_contra huntrimmed₀
  let misplaced : Set (PayloadMember β) := {m | m ∈ suppliedMembers world request ∧ m.origin = .inputPath ∧
    ∃ d, payloadRelative m.name = .ok d ∧ stripEnds isSpace d.asPosix.codes ≠ d.asPosix.codes}
  have hfinite : misplaced.Finite := (List.finite_toSet (suppliedMembers world request)).subset fun m hm => hm.1
  obtain ⟨m, ⟨hm, hpath, d, hd, huntrimmed⟩, hmost⟩ := Set.exists_max_image misplaced
    (fun m => match payloadRelative m.name with
      | .ok d => blanks d.parts
      | .error _ => 0) hfinite ⟨m₀, hm₀, hpath₀, d₀, hd₀, huntrimmed₀⟩
  obtain ⟨written, hwritten, hmembers⟩ := h.written
  obtain ⟨d', c, hd', -, hcontent⟩ := hkept.own m hm
  obtain rfl : d = d' := Except.ok.inj (hd.symm.trans hd')
  rw [h.kept m hm d hd] at hcontent
  obtain ⟨w, hw, hentry⟩ := List.mem_map.mp (hwritten.holds.exists_entry hcontent)
  obtain ⟨e, he, hparts⟩ := hwritten.place w hw
  have hn : w.fst ∈ suppliedMembers world request := List.mem_reverse.mp (hmembers ▸ List.mem_map_of_mem hw)
  rw [hentry] at hparts
  by_cases hwrong : w.fst ∈ misplaced
  · obtain ⟨-, hpath', f, hf, huntrimmed'⟩ := hwrong
    unfold PayloadMember.writtenAt at he
    rw [if_pos hpath', hf] at he
    have hfewer := blanks_lt_of_untrimmed he huntrimmed'
    have hmost' := hmost w.fst ⟨hn, hpath', f, hf, huntrimmed'⟩
    simp only [hf, hd] at hmost'
    rw [hparts] at hfewer
    exact absurd hmost' (Nat.not_le.mpr hfewer)
  · have hright : payloadRelative w.fst.name = .ok e := place_of_writtenAt he fun hpath' f hf => by
      by_contra huntrimmed'
      exact hwrong ⟨hn, hpath', f, hf, huntrimmed'⟩
    have hne : m ≠ w.fst := fun heq => hwrong (heq ▸ ⟨hm, hpath, d, hd, huntrimmed⟩)
    have hsymm : Std.Symm fun m n : PayloadMember β => ∀ d e, payloadRelative m.name = .ok d →
        payloadRelative n.name = .ok e → ¬d.parts <+: e.parts ∧ ¬e.parts <+: d.parts :=
      ⟨fun m n hmn d e hd he => (hmn e d he hd).symm⟩
    exact (hkept.apart.forall hm hn hne d e hd hright).1 (hparts ▸ List.prefix_refl _)

end Members

/-! ## A structure and its other spelling -/

def measuredWorld : PayloadWorld ℕ ℕ where
  expanduser := PosixPath.ofText
  stat path := .file (.ok path.asPosix.codes.length)
  encode text := .ok text.codes.length
  takes _ := true
  hasWriterFor _ := true
  save _ _ := .ok 0
  writers := []
  isJsonNative _ := true

def twoFiles (first second : String) : BuildRequest ℕ ℕ where
  documents := []
  files := []
  userFiles := [(PyStr.ofString first, "relaxed"), (PyStr.ofString second, "initial")]
  inputs := []
  declared := []
  hint := []
  hook := .python .ok
  settings := .ok ()
  definition _ := .ok 0

theorem twoFiles_leaves (first second : String) (members : List (PayloadMember ℕ)) :
    (twoFiles first second).hook.Leaves members := fun _ _ h _ _ _ _ => by rw [Except.ok.inj h]
