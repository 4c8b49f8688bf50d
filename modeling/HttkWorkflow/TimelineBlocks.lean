import HttkWorkflow.Detach
import HttkWorkflow.Timeline

/-!
# What the timeline is of a chain

The journal has the frames of a job as a chain, and `timeline` reads it as raw
objects. `ChainFrame` is a frame of a chain with what its transition supplied
(`Stamp`), and `ChainFrame.document` is the object the reader of the journal
returns for it.

A chain falls into blocks, one for each activation, and in a block the
`claimed` frames open the attempts. `TimelineOf` says what a timeline is of a
chain in these terms: each block is an activation, its claims are the attempts
in their order, and what is said of the end of an attempt is read off the
frames of the attempt from the first after it stopped running
(`stoppedFrom`).

`FrameFollows` is what a frame has to do with the chain before it for the
regrouping to be right: it begins another activation, or it claims an attempt
whose id is new, or it goes on with the attempt there is. The theorem of this
module is that a chain in which every frame follows so has its timeline.
-/

/-! ## The frames of a chain -/

/-- **What a transition supplies of a frame** besides its kind and its members. -/
structure Stamp where
  workspaceId : String
  jobKey : JobKey
  placement : List String
  stateGeneration : ℕ
  priority : ℕ
  previousRecordRef : Option PyStr
  createdAt : PyStr
  /-- `utc_now` returns no empty string. -/
  createdAt_ne : createdAt.codes ≠ []
  /-- Where the journal has the frame, which its reader adds. -/
  recordRef : PyStr

/-- **A frame of a chain.** -/
structure ChainFrame where
  stamp : Stamp
  kind : StateKind
  members : StateFrame

namespace ChainFrame

variable (f : ChainFrame)

def attemptId : Option PyStr := f.members.attemptId

def activationId : Option PyStr := f.members.activationId

def failure : Option (List (PyStr × Json)) := f.members.mapping .failure

/-- The envelope of a frame, as `transition` writes it. -/
def envelope : List (PyStr × Json) :=
  [("format", .str "httk-workflow-state"), ("format_version", .int 2),
    ("workspace_id", .str f.stamp.workspaceId), ("job_id", .str f.stamp.jobKey.id),
    ("job_key", .str (f.stamp.jobKey.tag.elim f.stamp.jobKey.id (· ++ "--" ++ f.stamp.jobKey.id))),
    ("placement", .str (placementText f.stamp.placement)),
    ("state_generation", .int f.stamp.stateGeneration), ("kind", .str f.kind.word),
    ("previous_record_ref", orNull f.stamp.previousRecordRef), ("created_at", .str f.stamp.createdAt),
    ("priority", .int f.stamp.priority)]

/-- **The object `job_frames` returns for a frame.** -/
def document : List (PyStr × Json) :=
  f.envelope ++ f.members.members.map (fun e => (e.fst.word, e.snd))
    ++ [(PyStr.ofString "record_ref", .str f.stamp.recordRef)]

end ChainFrame

def envelopeNames : List PyStr :=
  ["format", "format_version", "workspace_id", "job_id", "job_key", "placement", "state_generation",
    "kind", "previous_record_ref", "created_at", "priority"]

namespace Member

theorem word_notMem (m : Member) : m.word ∉ PyStr.ofString "record_ref" :: envelopeNames := by
  cases m <;> decide +kernel

theorem word_ne_error (m : Member) : m.word ≠ "error" := by
  cases m <;> decide +kernel

theorem word_injective : Function.Injective word := by
  intro m m' h
  have hnamed := congrArg named h
  rw [named_word, named_word] at hnamed
  exact Option.some.inj hnamed

end Member

/-! ## What the regrouping reads of a frame -/

section Reads

variable (f : ChainFrame)

theorem lookup_append_of_notMem {name : PyStr} {front back : List (PyStr × Json)}
    (h : name ∉ front.map Prod.fst) : (front ++ back).lookup name = back.lookup name := by
  rw [List.lookup_append, List.lookup_eq_none_iff.mpr]
  · rfl
  · intro e he
    have hne : name ≠ e.fst := fun hname => h (List.mem_map.mpr ⟨e, he, hname.symm⟩)
    simpa using hne

theorem lookup_members (d : Dict Member Json) (m : Member) :
    (d.map fun e => (e.fst.word, e.snd)).lookup m.word = d.get m := by
  induction d with
  | nil => rfl
  | cons e d ih =>
    rw [List.map_cons, Dict.get_cons, List.lookup_cons, ih]
    by_cases hm : m = e.fst
    · subst hm
      simp
    · have hword : m.word ≠ e.fst.word := fun h => hm (Member.word_injective h)
      rw [beq_eq_false_iff_ne.mpr hword, if_neg hm]

/-- **A member of a frame** is read as it was written. -/
theorem lookup_document (m : Member) : f.document.lookup m.word = f.members.get m := by
  have hother := Member.word_notMem m
  have henvelope : m.word ∉ f.envelope.map Prod.fst := fun h => hother (List.mem_cons_of_mem _ h)
  have href : m.word ∉ [(PyStr.ofString "record_ref", Json.str f.stamp.recordRef)].map Prod.fst := by
    intro h
    exact hother (List.mem_singleton.mp h ▸ List.mem_cons_self)
  unfold ChainFrame.document
  rw [List.append_assoc, lookup_append_of_notMem henvelope, List.lookup_append, lookup_members]
  show (f.members.get m).or _ = f.members.get m
  cases f.members.get m with
  | some value => rfl
  | none =>
    rw [Option.none_or, ← List.append_nil [_], lookup_append_of_notMem href]
    rfl

@[simp] theorem frameString_attempt : frameString f.document "attempt_id" = f.attemptId :=
  congrArg optionalString (lookup_document f .attemptId)

@[simp] theorem frameString_activation : frameString f.document "activation_id" = f.activationId :=
  congrArg optionalString (lookup_document f .activationId)

@[simp] theorem frameString_created : frameString f.document "created_at" = some f.stamp.createdAt := by
  show optionalString (some (.str f.stamp.createdAt)) = some f.stamp.createdAt
  exact if_neg f.stamp.createdAt_ne

@[simp] theorem frameString_kind : frameString f.document "kind" = some f.kind.word := by
  show optionalString (some (.str f.kind.word)) = some f.kind.word
  refine if_neg ?_
  cases f.kind <;> decide

@[simp] theorem frameFailure_document : frameFailure f.document = f.failure := by
  have hget : Json.get f.document "failure" = f.members.get .failure := lookup_document f .failure
  unfold frameFailure
  rw [hget]
  rfl

@[simp] theorem frameUnreadable_document : frameUnreadable f.document = false := by
  have hnone : Json.get f.document "error" = none := by
    refine List.lookup_eq_none_iff.mpr fun e he => ?_
    rcases List.mem_append.mp he with he | he
    · rcases List.mem_append.mp he with he | he
      · have hname : e.fst ∈ f.envelope.map Prod.fst := List.mem_map_of_mem he
        have hnames : ∀ name ∈ envelopeNames, "error" ≠ name := by decide +kernel
        simpa using hnames e.fst hname
      · obtain ⟨e', -, rfl⟩ := List.mem_map.mp he
        simpa using (Member.word_ne_error e'.fst).symm
    · rw [List.mem_singleton.mp he]
      simp
  unfold frameUnreadable
  rw [hnone]

variable {kind : StateKind}

theorem word_eq_claimed : some kind.word = some "claimed" ↔ kind = .claimed := by
  cases kind <;> decide

theorem word_eq_running : some kind.word = some "running" ↔ kind = .running := by
  cases kind <;> decide

end Reads

/-! ## The timeline of a chain -/

/-- **The frames of an attempt from the first after it stopped running.** -/
def stoppedFrom (block : List ChainFrame) (attemptId : Option PyStr) : List ChainFrame :=
  (block.filter fun f => f.attemptId = attemptId).dropWhile fun f => f.kind = .claimed ∨ f.kind = .running

def claimsOf (block : List ChainFrame) : List ChainFrame := block.filter fun f => f.kind = .claimed

/-- **What is said of the end of an attempt**: when it stopped running, and the first failure that a
frame has from there on. -/
structure EndSaid (block : List ChainFrame) (attempt : AttemptEntry) : Prop where
  finishedAt : attempt.finishedAt = (stoppedFrom block attempt.attemptId).head?.map (·.stamp.createdAt)
  failure : attempt.failure = (stoppedFrom block attempt.attemptId).findSome? ChainFrame.failure

/-- **An activation is listed** with the frames of a block: its attempts are those that are claimed in it,
each of them once and in this order. -/
structure Listed (block : List ChainFrame) (entry : ActivationEntry) : Prop where
  nonempty : block ≠ []
  activation : ∀ f ∈ block, f.activationId = entry.activationId
  attempts : entry.attempts.map AttemptEntry.attemptId = (claimsOf block).map ChainFrame.attemptId
  once : (entry.attempts.map AttemptEntry.attemptId).Nodup
  ended : ∀ attempt ∈ entry.attempts, EndSaid block attempt

/-- **The timeline of a chain**: it falls into blocks that are the activations, each of which is listed
once. A job has no activation before it is registered, and none in the frame it leaves with. -/
structure TimelineOf (frames : List ChainFrame) (activations : List ActivationEntry) : Prop where
  blocks : ∃ blocks : List (List ChainFrame), blocks.flatten = frames ∧ List.Forall₂ Listed blocks activations
  once : (activations.filterMap ActivationEntry.activationId).Nodup

/-! ## How a frame follows a chain -/

def ReadsOrdinal (value : Option Json) : Prop := ∃ n, optionalInt value = .ok n

/-- **What a frame has to do with the chain before it.** -/
inductive FrameFollows (frames : List ChainFrame) (f : ChainFrame) : Prop where
  | opens (hother : ∀ last ∈ frames.getLast?, last.activationId ≠ f.activationId)
      (hnew : ∀ id, f.activationId = some id → ∀ g ∈ frames, g.activationId ≠ some id)
      (hkind : f.kind ≠ .claimed) (hordinal : ReadsOrdinal (f.members.get .activationOrdinal))
  | claims (last : ChainFrame) (hlast : last ∈ frames.getLast?) (hsame : f.activationId = last.activationId)
      (id : PyStr) (hid : f.attemptId = some id) (hnew : ∀ g ∈ frames, g.attemptId ≠ some id)
      (hkind : f.kind = .claimed) (hordinal : ReadsOrdinal (f.members.get .attemptOrdinal))
  | continues (last : ChainFrame) (hlast : last ∈ frames.getLast?) (hsame : f.activationId = last.activationId)
      (hattempt : f.attemptId = last.attemptId ∨ f.attemptId = none) (hkind : f.kind ≠ .claimed)
      (hrunning : f.kind = .running → last.kind = .claimed ∨ last.kind = .running)

/-- **A chain in which every frame follows.** -/
inductive FollowedChain : List ChainFrame → Prop where
  | nil : FollowedChain []
  | snoc {frames : List ChainFrame} {f : ChainFrame} (h : FollowedChain frames) (hf : FrameFollows frames f) :
      FollowedChain (frames ++ [f])

/-! ## The end of an attempt -/

section EndSaid

variable {block : List ChainFrame} {f : ChainFrame} {attempt : AttemptEntry} {id : Option PyStr}

theorem stoppedFrom_other (h : f.attemptId ≠ id) : stoppedFrom (block ++ [f]) id = stoppedFrom block id := by
  unfold stoppedFrom
  rw [List.filter_append, List.filter_singleton, decide_eq_false h]
  simp

theorem stoppedFrom_active (hkind : f.kind = .claimed ∨ f.kind = .running) (hblock : stoppedFrom block id = []) :
    stoppedFrom (block ++ [f]) id = [] := by
  unfold stoppedFrom at hblock ⊢
  rw [List.filter_append, List.dropWhile_append, hblock, List.filter_singleton]
  by_cases h : f.attemptId = id <;> simp [h, hkind]

theorem stoppedFrom_stopped (h : f.attemptId = id) (hkind : ¬(f.kind = .claimed ∨ f.kind = .running)) :
    stoppedFrom (block ++ [f]) id = stoppedFrom block id ++ [f] := by
  unfold stoppedFrom
  rw [List.filter_append, List.dropWhile_append, List.filter_singleton, decide_eq_true h]
  split_ifs with hempty
  · rw [List.isEmpty_iff.mp hempty, List.nil_append]
    simp [hkind]
  · rfl

theorem stoppedFrom_unnamed (h : ∀ g ∈ block, g.attemptId ≠ id) : stoppedFrom block id = [] := by
  unfold stoppedFrom
  rw [List.filter_eq_nil_iff.mpr fun g hg => by simpa using h g hg, List.dropWhile_nil]

theorem EndSaid.other (h : EndSaid block attempt) (hother : f.attemptId ≠ attempt.attemptId) :
    EndSaid (block ++ [f]) attempt := by
  constructor
  · rw [stoppedFrom_other hother]
    exact h.finishedAt
  · rw [stoppedFrom_other hother]
    exact h.failure

theorem ended_of_nil (hblock : stoppedFrom block attempt.attemptId = []) (hfinished : attempt.finishedAt = none)
    (hfailure : attempt.failure = none) : EndSaid block attempt := by
  constructor
  · rw [hblock, hfinished]
    rfl
  · rw [hblock, hfailure]
    rfl

@[simp] theorem told_attemptId (attempt : AttemptEntry) (frame : List (PyStr × Json)) :
    (attempt.told frame).attemptId = attempt.attemptId := by
  unfold AttemptEntry.told
  split_ifs <;> rfl

theorem told_running (attempt : AttemptEntry) (h : f.kind = .running) :
    (attempt.told f.document).finishedAt = attempt.finishedAt
      ∧ (attempt.told f.document).failure = attempt.failure := by
  have htold : attempt.told f.document = { attempt with
      startedAt := (frameString f.document "started_at").or (frameString f.document "created_at") } :=
    if_pos (by rw [frameString_kind]; exact word_eq_running.mpr h)
  rw [htold]
  exact ⟨rfl, rfl⟩

theorem told_stopped (attempt : AttemptEntry) (h : f.kind ≠ .running) :
    (attempt.told f.document).finishedAt = attempt.finishedAt.or (some f.stamp.createdAt)
      ∧ (attempt.told f.document).failure = attempt.failure.or f.failure := by
  have hnot : ¬frameString f.document "kind" = some "running" := by
    rw [frameString_kind]
    exact fun hword => h (word_eq_running.mp hword)
  have htold : attempt.told f.document = { attempt with
      outcomeAction := if frameString f.document "kind" = some "committing" then
        frameString f.document "outcome_action" else attempt.outcomeAction
      failure := attempt.failure.or (frameFailure f.document)
      finishedAt := attempt.finishedAt.or (frameString f.document "created_at") } := if_neg hnot
  rw [htold, frameFailure_document, frameString_created]
  exact ⟨rfl, rfl⟩

theorem EndSaid.told (h : EndSaid block attempt) (hname : f.attemptId = attempt.attemptId) (hkind : f.kind ≠ .claimed)
    (hrunning : f.kind = .running → stoppedFrom block attempt.attemptId = []) :
    EndSaid (block ++ [f]) (attempt.told f.document) := by
  by_cases hruns : f.kind = .running
  · have hnone := hrunning hruns
    have hstill : stoppedFrom (block ++ [f]) attempt.attemptId = [] := stoppedFrom_active (Or.inr hruns) hnone
    obtain ⟨hfinished, hfailure⟩ := told_running attempt hruns
    refine ended_of_nil (by rw [told_attemptId]; exact hstill) ?_ ?_
    · rw [hfinished, h.finishedAt, hnone]
      rfl
    · rw [hfailure, h.failure, hnone]
      rfl
  · have hmore : stoppedFrom (block ++ [f]) attempt.attemptId = stoppedFrom block attempt.attemptId ++ [f] :=
      stoppedFrom_stopped hname (not_or.mpr ⟨hkind, hruns⟩)
    obtain ⟨hfinished, hfailure⟩ := told_stopped attempt hruns
    constructor
    · rw [told_attemptId, hmore, hfinished, h.finishedAt, List.head?_append]
      cases (stoppedFrom block attempt.attemptId).head? <;> rfl
    · rw [told_attemptId, hmore, hfailure, h.failure, List.findSome?_append, List.findSome?_singleton]

end EndSaid

/-! ## The regrouping of a chain -/

/-- **The activation the regrouping is at**: the frames of the chain before it are of the activations before,
and those of its block are of this one. -/
structure OpenBlock (r : Regrouping) (earlier block : List ChainFrame) (entry : ActivationEntry) : Prop where
  current : r.current = some entry
  before : ∃ blocks : List (List ChainFrame), blocks.flatten = earlier ∧ List.Forall₂ Listed blocks r.before
  listed : Listed block { entry with attempts := entry.attempts ++ r.attempt.toList }
  idle : r.attempt = none → entry.attempts = []
  named : ∀ attempt ∈ entry.attempts ++ r.attempt.toList, attempt.attemptId.isSome = true
  attempt : ∀ attempt ∈ r.attempt, ∀ last ∈ block.getLast?,
    last.attemptId = attempt.attemptId ∨ last.attemptId = none
  active : ∀ attempt ∈ r.attempt, ∀ last ∈ block.getLast?,
    last.kind = .claimed ∨ last.kind = .running → stoppedFrom block attempt.attemptId = []

/-- **How far the regrouping is with a chain.** -/
structure Regrouped (frames : List ChainFrame) (r : Regrouping) : Prop where
  gaps : r.gaps = false
  once : (r.activations.filterMap ActivationEntry.activationId).Nodup
  place : (frames = [] ∧ r = Regrouping.start)
    ∨ ∃ earlier block entry, earlier ++ block = frames ∧ OpenBlock r earlier block entry

section Regrouped

variable {frames earlier block : List ChainFrame} {r : Regrouping} {entry : ActivationEntry} {f : ChainFrame}

theorem OpenBlock.activations (h : OpenBlock r earlier block entry) :
    r.activations = r.before ++ [{ entry with attempts := entry.attempts ++ r.attempt.toList }] := by
  unfold Regrouping.activations Regrouping.opened
  rw [h.current]
  rfl

theorem Regrouped.listed (h : Regrouped frames r) :
    ∃ blocks : List (List ChainFrame), blocks.flatten = frames ∧ List.Forall₂ Listed blocks r.activations := by
  rcases h.place with ⟨rfl, rfl⟩ | ⟨earlier, block, entry, rfl, hopen⟩
  · exact ⟨[], rfl, List.Forall₂.nil⟩
  · obtain ⟨blocks, rfl, hblocks⟩ := hopen.before
    refine ⟨blocks ++ [block], by simp, ?_⟩
    rw [hopen.activations]
    exact List.rel_append hblocks (List.Forall₂.cons hopen.listed List.Forall₂.nil)

theorem exists_of_listed {blocks : List (List ChainFrame)} {activations : List ActivationEntry}
    (h : List.Forall₂ Listed blocks activations) (hentry : entry ∈ activations) :
    ∃ g ∈ blocks.flatten, g.activationId = entry.activationId := by
  induction h with
  | nil => cases hentry
  | cons hlisted _ ih =>
    rcases List.mem_cons.mp hentry with rfl | hentry
    · obtain ⟨g, hg⟩ := List.exists_mem_of_ne_nil _ hlisted.nonempty
      exact ⟨g, List.mem_append_left _ hg, hlisted.activation g hg⟩
    · obtain ⟨g, hg, hid⟩ := ih hentry
      exact ⟨g, List.mem_append_right _ hg, hid⟩

theorem OpenBlock.last (h : OpenBlock r earlier block entry) : (earlier ++ block).getLast? = block.getLast? := by
  rw [List.getLast?_append, List.getLast?_eq_some_getLast h.listed.nonempty]
  rfl

theorem OpenBlock.continues (h : OpenBlock r earlier block entry) {last : ChainFrame}
    (hlast : last ∈ block.getLast?) :
    r.continues f.document = true ↔ f.activationId = last.activationId := by
  have hid := h.listed.activation last (List.mem_of_getLast? hlast)
  unfold Regrouping.continues
  rw [h.current, frameString_activation]
  simp only [decide_eq_true_eq]
  rw [hid]
  exact eq_comm

/-! ### A frame that opens an activation -/

theorem openActivation_document (h : ReadsOrdinal (f.members.get .activationOrdinal)) :
    ∃ entry, openActivation f.document = .ok entry ∧ entry.activationId = f.activationId ∧ entry.attempts = [] := by
  obtain ⟨n, hn⟩ := h
  have hread : optionalInt (Json.get f.document "activation_ordinal") = .ok n :=
    (congrArg optionalInt (lookup_document f .activationOrdinal)).trans hn
  unfold openActivation
  rw [hread]
  exact ⟨_, rfl, frameString_activation f, rfl⟩

theorem listed_singleton (hkind : f.kind ≠ .claimed) (hid : entry.activationId = f.activationId)
    (hattempts : entry.attempts = []) : Listed [f] { entry with attempts := entry.attempts ++ [] } where
  nonempty := List.cons_ne_nil _ _
  activation g hg := by
    rw [List.mem_singleton.mp hg]
    exact hid.symm
  attempts := by simp [hattempts, claimsOf, hkind]
  once := by simp [hattempts]
  ended attempt hattempt := by simp [hattempts] at hattempt

theorem Regrouped.opens (h : Regrouped frames r)
    (hother : ∀ last ∈ frames.getLast?, last.activationId ≠ f.activationId)
    (hnew : ∀ id, f.activationId = some id → ∀ g ∈ frames, g.activationId ≠ some id) (hkind : f.kind ≠ .claimed)
    (hordinal : ReadsOrdinal (f.members.get .activationOrdinal)) :
    ∃ r', r.step f.document = .ok r' ∧ Regrouped (frames ++ [f]) r' := by
  obtain ⟨blocks, hflat, hblocks⟩ := h.listed
  obtain ⟨entry, hopened, hid, hattempts⟩ := openActivation_document hordinal
  have hcontinues : r.continues f.document = false := by
    rcases h.place with ⟨-, rfl⟩ | ⟨earlier, block, entry', rfl, hopen⟩
    · rfl
    · have hlast := List.getLast?_eq_some_getLast hopen.listed.nonempty
      rw [Bool.eq_false_iff]
      intro hsame
      exact hother _ (hopen.last.trans hlast) ((hopen.continues hlast).mp hsame).symm
  have hstep : r.step f.document = .ok ⟨r.activations, some entry, none, r.gaps⟩ := by
    have hnot : ¬frameString f.document "kind" = some "claimed" := by
      rw [frameString_kind]
      exact fun hword => hkind (word_eq_claimed.mp hword)
    unfold Regrouping.step Regrouping.entered
    rw [frameUnreadable_document, if_neg Bool.false_ne_true, if_neg (by simp [hcontinues]), hopened]
    exact if_neg hnot
  have hopen : OpenBlock ⟨r.activations, some entry, none, r.gaps⟩ frames [f] entry := {
    current := rfl
    before := ⟨blocks, hflat, hblocks⟩
    listed := listed_singleton hkind hid hattempts
    idle := fun _ => hattempts
    named := by simp [hattempts]
    attempt := by simp
    active := by simp }
  refine ⟨_, hstep, h.gaps, ?_, Or.inr ⟨frames, [f], entry, rfl, hopen⟩⟩
  rw [hopen.activations, List.filterMap_append, List.nodup_append']
  refine ⟨h.once, ?_, ?_⟩
  · cases entry.activationId <;> simp [List.filterMap]
  · -- an activation before this one is named by a frame of the chain, and so has another id
    intro id hmem hmem'
    obtain ⟨entry', hentry', hid'⟩ := List.mem_filterMap.mp hmem
    obtain ⟨g, hg, hgid⟩ := exists_of_listed hblocks hentry'
    obtain ⟨_, hsingle, hid''⟩ := List.mem_filterMap.mp hmem'
    rw [List.mem_singleton.mp hsingle] at hid''
    rw [hflat] at hg
    exact hnew id (hid.symm.trans hid'') g hg (hgid.trans hid')

/-! ### A frame that claims an attempt -/

theorem openAttempt_document (h : ReadsOrdinal (f.members.get .attemptOrdinal)) :
    ∃ attempt, openAttempt f.document = .ok attempt ∧ attempt.attemptId = f.attemptId
      ∧ attempt.finishedAt = none ∧ attempt.failure = none := by
  obtain ⟨n, hn⟩ := h
  have hread : optionalInt (Json.get f.document "attempt_ordinal") = .ok n :=
    (congrArg optionalInt (lookup_document f .attemptOrdinal)).trans hn
  unfold openAttempt
  rw [hread]
  exact ⟨_, rfl, frameString_attempt f, rfl, rfl⟩

theorem claimsOf_claim (hkind : f.kind = .claimed) : claimsOf (block ++ [f]) = claimsOf block ++ [f] := by
  unfold claimsOf
  rw [List.filter_append, List.filter_singleton, decide_eq_true hkind]
  rfl

theorem claimsOf_other (hkind : f.kind ≠ .claimed) : claimsOf (block ++ [f]) = claimsOf block := by
  unfold claimsOf
  rw [List.filter_append, List.filter_singleton, decide_eq_false hkind]
  exact List.append_nil _

variable {attempt : AttemptEntry}

theorem Listed.exists_of_mem (h : Listed block entry) (hattempt : attempt ∈ entry.attempts) :
    ∃ g ∈ block, g.attemptId = attempt.attemptId := by
  have hid : attempt.attemptId ∈ entry.attempts.map AttemptEntry.attemptId := List.mem_map_of_mem hattempt
  rw [h.attempts] at hid
  obtain ⟨g, hg, hgid⟩ := List.mem_map.mp hid
  exact ⟨g, (List.mem_filter.mp hg).1, hgid⟩

theorem Listed.claims (h : Listed block entry) (hsame : f.activationId = entry.activationId) {id : PyStr}
    (hid : f.attemptId = some id) (hnew : ∀ g ∈ block, g.attemptId ≠ some id) (hkind : f.kind = .claimed)
    (hattempt : attempt.attemptId = f.attemptId) (hfinished : attempt.finishedAt = none)
    (hfailure : attempt.failure = none) :
    Listed (block ++ [f]) { entry with attempts := entry.attempts ++ [attempt] } where
  nonempty := by simp
  activation g hg := by
    rcases List.mem_append.mp hg with hg | hg
    · exact h.activation g hg
    · rw [List.mem_singleton.mp hg]
      exact hsame
  attempts := by
    rw [claimsOf_claim hkind, List.map_append, List.map_append, h.attempts, List.map_singleton, hattempt]
    rfl
  once := by
    rw [List.map_append, List.nodup_append']
    refine ⟨h.once, List.nodup_singleton _, fun name hname hname' => ?_⟩
    obtain ⟨attempt', hmem, rfl⟩ := List.mem_map.mp hname
    obtain ⟨g, hg, hgid⟩ := h.exists_of_mem hmem
    rw [List.map_singleton, List.mem_singleton, hattempt, hid] at hname'
    exact hnew g hg (hgid.trans hname')
  ended attempt' hmem := by
    rcases List.mem_append.mp hmem with hmem | hmem
    · refine (h.ended attempt' hmem).other fun hname => ?_
      obtain ⟨g, hg, hgid⟩ := h.exists_of_mem hmem
      exact hnew g hg (hgid.trans (hname.symm.trans hid))
    · rw [List.mem_singleton.mp hmem]
      refine ended_of_nil (stoppedFrom_active (Or.inl hkind) (stoppedFrom_unnamed ?_)) hfinished hfailure
      rw [hattempt, hid]
      exact hnew

theorem Regrouped.claims (h : Regrouped frames r) {last : ChainFrame} (hlast : last ∈ frames.getLast?)
    (hsame : f.activationId = last.activationId) {id : PyStr} (hid : f.attemptId = some id)
    (hnew : ∀ g ∈ frames, g.attemptId ≠ some id) (hkind : f.kind = .claimed)
    (hordinal : ReadsOrdinal (f.members.get .attemptOrdinal)) :
    ∃ r', r.step f.document = .ok r' ∧ Regrouped (frames ++ [f]) r' := by
  obtain ⟨attempt, hopened, hattempt, hfinished, hfailure⟩ := openAttempt_document hordinal
  rcases h.place with ⟨rfl, -⟩ | ⟨earlier, block, entry, rfl, hopen⟩
  · cases hlast
  · rw [hopen.last] at hlast
    have hentry : f.activationId = entry.activationId :=
      hsame.trans (hopen.listed.activation last (List.mem_of_getLast? hlast))
    let entry' : ActivationEntry := { entry with attempts := entry.attempts ++ r.attempt.toList }
    have hstep : r.step f.document = .ok { r with current := some entry', attempt := some attempt } := by
      have hclaimed : frameString f.document "kind" = some "claimed" := by
        rw [frameString_kind]
        exact word_eq_claimed.mpr hkind
      have hnoted : r.noted f.document = .ok { r with current := some entry', attempt := some attempt } := by
        unfold Regrouping.noted
        rw [hopened, hopen.current]
        exact if_pos hclaimed
      unfold Regrouping.step Regrouping.entered
      rw [frameUnreadable_document, if_neg Bool.false_ne_true, if_pos ((hopen.continues hlast).mpr hsame)]
      exact hnoted
    have hlisted : Listed (block ++ [f]) { entry' with attempts := entry'.attempts ++ [attempt] } :=
      hopen.listed.claims hentry hid (fun g hg => hnew g (List.mem_append_right _ hg)) hkind hattempt hfinished hfailure
    have hopen' : OpenBlock { r with current := some entry', attempt := some attempt } earlier (block ++ [f])
        entry' := {
      current := rfl
      before := hopen.before
      listed := hlisted
      idle := fun hnone => nomatch hnone
      named := by
        intro attempt' hmem
        rcases List.mem_append.mp hmem with hmem | hmem
        · exact hopen.named attempt' hmem
        · rw [List.mem_singleton.mp hmem, hattempt, hid]
          rfl
      attempt := by simp [hattempt]
      active := by
        intro attempt' hmem last' hlast' hactive
        obtain rfl := Option.some.inj hmem
        refine stoppedFrom_active (Or.inl hkind) (stoppedFrom_unnamed ?_)
        rw [hattempt, hid]
        exact fun g hg => hnew g (List.mem_append_right _ hg) }
    refine ⟨_, hstep, h.gaps, ?_, Or.inr ⟨earlier, block ++ [f], entry', by simp, hopen'⟩⟩
    have honce := h.once
    rw [hopen.activations, List.filterMap_append] at honce
    rw [hopen'.activations, List.filterMap_append]
    exact honce

/-! ### A frame that goes on -/

theorem Listed.continues {attempts attempts' : List AttemptEntry}
    (h : Listed block { entry with attempts := attempts }) (hsame : f.activationId = entry.activationId)
    (hkind : f.kind ≠ .claimed)
    (hids : attempts'.map AttemptEntry.attemptId = attempts.map AttemptEntry.attemptId)
    (hended : ∀ attempt ∈ attempts', EndSaid (block ++ [f]) attempt) :
    Listed (block ++ [f]) { entry with attempts := attempts' } where
  nonempty := by simp
  activation g hg := by
    rcases List.mem_append.mp hg with hg | hg
    · exact h.activation g hg
    · rw [List.mem_singleton.mp hg]
      exact hsame
  attempts := by
    rw [claimsOf_other hkind]
    exact hids.trans h.attempts
  once := by
    show (attempts'.map AttemptEntry.attemptId).Nodup
    rw [hids]
    exact h.once
  ended := hended

/-- What the current attempt is after a frame that claims nothing. -/
def noteAttempt (f : ChainFrame) (attempt : AttemptEntry) : AttemptEntry :=
  if f.attemptId = attempt.attemptId then attempt.told f.document else attempt

@[simp] theorem noteAttempt_attemptId (attempt : AttemptEntry) :
    (noteAttempt f attempt).attemptId = attempt.attemptId := by
  unfold noteAttempt
  split_ifs
  · exact told_attemptId attempt f.document
  · rfl

theorem Regrouped.continues (h : Regrouped frames r) {last : ChainFrame} (hlast : last ∈ frames.getLast?)
    (hsame : f.activationId = last.activationId) (hattempt : f.attemptId = last.attemptId ∨ f.attemptId = none)
    (hkind : f.kind ≠ .claimed) (hrunning : f.kind = .running → last.kind = .claimed ∨ last.kind = .running) :
    ∃ r', r.step f.document = .ok r' ∧ Regrouped (frames ++ [f]) r' := by
  rcases h.place with ⟨rfl, -⟩ | ⟨earlier, block, entry, rfl, hopen⟩
  · cases hlast
  · rw [hopen.last] at hlast
    have hentry : f.activationId = entry.activationId :=
      hsame.trans (hopen.listed.activation last (List.mem_of_getLast? hlast))
    have hstep : r.step f.document = .ok { r with attempt := r.attempt.map (noteAttempt f) } := by
      have hnot : ¬frameString f.document "kind" = some "claimed" := by
        rw [frameString_kind]
        exact fun hword => hkind (word_eq_claimed.mp hword)
      have hnoted : r.noted f.document = .ok { r with attempt := r.attempt.map (noteAttempt f) } := by
        unfold Regrouping.noted noteAttempt
        rw [frameString_attempt]
        exact if_neg hnot
      unfold Regrouping.step Regrouping.entered
      rw [frameUnreadable_document, if_neg Bool.false_ne_true, if_pos ((hopen.continues hlast).mpr hsame)]
      exact hnoted
    -- the frame names the current attempt or none, and so none of those before it
    have hnames : ∀ attempt ∈ r.attempt, f.attemptId = attempt.attemptId ∨ f.attemptId = none := by
      intro attempt hmem
      rcases hattempt with hattempt | hnone
      · rw [hattempt]
        exact hopen.attempt attempt hmem last hlast
      · exact Or.inr hnone
    have hother : ∀ attempt ∈ entry.attempts, EndSaid (block ++ [f]) attempt := by
      intro attempt hmem
      refine (hopen.listed.ended attempt (List.mem_append_left _ hmem)).other fun hname => ?_
      cases hcurrent : r.attempt with
      | none =>
        rw [hopen.idle hcurrent] at hmem
        cases hmem
      | some current =>
        have honce := hopen.listed.once
        rw [hcurrent, List.map_append, List.nodup_append'] at honce
        have hid : current.attemptId ≠ attempt.attemptId := fun hid =>
          honce.2.2 (List.mem_map_of_mem hmem) (by simp [hid])
        rcases hnames current hcurrent with hname' | hnone
        · exact hid (hname'.symm.trans hname)
        · have hsome := hopen.named attempt (List.mem_append_left _ hmem)
          rw [← hname, hnone] at hsome
          cases hsome
    have hcurrent : ∀ attempt ∈ r.attempt, EndSaid (block ++ [f]) (noteAttempt f attempt) := by
      intro attempt hmem
      have hended := hopen.listed.ended attempt (List.mem_append_right _ (Option.mem_toList.mpr hmem))
      unfold noteAttempt
      split_ifs with hname
      · exact hended.told hname hkind fun hruns => hopen.active attempt hmem last hlast (hrunning hruns)
      · exact hended.other hname
    have hopen' : OpenBlock { r with attempt := r.attempt.map (noteAttempt f) } earlier (block ++ [f]) entry := {
      current := hopen.current
      before := hopen.before
      listed := by
        refine hopen.listed.continues hentry hkind ?_ fun attempt hmem => ?_
        · cases r.attempt <;> simp
        · rcases List.mem_append.mp hmem with hmem | hmem
          · exact hother attempt hmem
          · obtain ⟨attempt', hmem', rfl⟩ := Option.map_eq_some_iff.mp (Option.mem_toList.mp hmem)
            exact hcurrent attempt' hmem'
      idle := fun hnone => hopen.idle (Option.map_eq_none_iff.mp hnone)
      named := by
        intro attempt hmem
        rcases List.mem_append.mp hmem with hmem | hmem
        · exact hopen.named attempt (List.mem_append_left _ hmem)
        · obtain ⟨attempt', hmem', rfl⟩ := Option.map_eq_some_iff.mp (Option.mem_toList.mp hmem)
          rw [noteAttempt_attemptId]
          exact hopen.named attempt' (List.mem_append_right _ (Option.mem_toList.mpr hmem'))
      attempt := by
        intro attempt hmem last' hlast'
        obtain ⟨attempt', hmem', rfl⟩ := Option.map_eq_some_iff.mp hmem
        obtain rfl : f = last' := by simpa using hlast'
        rw [noteAttempt_attemptId]
        exact hnames attempt' hmem'
      active := by
        intro attempt hmem last' hlast' hactive
        obtain ⟨attempt', hmem', rfl⟩ := Option.map_eq_some_iff.mp hmem
        obtain rfl : f = last' := by simpa using hlast'
        rw [noteAttempt_attemptId]
        exact stoppedFrom_active hactive
          (hopen.active attempt' hmem' last hlast (hrunning (hactive.resolve_left hkind))) }
    refine ⟨_, hstep, h.gaps, ?_, Or.inr ⟨earlier, block ++ [f], entry, by simp, hopen'⟩⟩
    have honce := h.once
    rw [hopen.activations, List.filterMap_append] at honce
    rw [hopen'.activations, List.filterMap_append]
    exact honce

/-! ### The whole chain -/

theorem Regrouped.follows (h : Regrouped frames r) (hf : FrameFollows frames f) :
    ∃ r', r.step f.document = .ok r' ∧ Regrouped (frames ++ [f]) r' := by
  cases hf with
  | opens hother hnew hkind hordinal => exact h.opens hother hnew hkind hordinal
  | claims last hlast hsame id hid hnew hkind hordinal => exact h.claims hlast hsame hid hnew hkind hordinal
  | continues last hlast hsame hattempt hkind hrunning => exact h.continues hlast hsame hattempt hkind hrunning

theorem regrouped_of_chained (h : FollowedChain frames) :
    ∃ r, (frames.map ChainFrame.document).foldlM Regrouping.step Regrouping.start = .ok r ∧ Regrouped frames r := by
  induction h with
  | nil => exact ⟨Regrouping.start, rfl, rfl, List.nodup_nil, Or.inl ⟨rfl, rfl⟩⟩
  | snoc _ hf ih =>
    obtain ⟨r, hfold, hr⟩ := ih
    obtain ⟨r', hstep, hr'⟩ := hr.follows hf
    refine ⟨r', ?_, hr'⟩
    rw [List.map_append, List.foldlM_append, hfold]
    exact (bind_pure _).trans hstep

theorem timeline_of_chained (h : FollowedChain frames) : ∃ activations,
    timeline (frames.map ChainFrame.document) = .ok (activations, false) ∧ TimelineOf frames activations := by
  obtain ⟨r, hfold, hr⟩ := regrouped_of_chained h
  refine ⟨r.activations, ?_, hr.listed, hr.once⟩
  unfold timeline
  rw [hfold]
  exact congrArg (fun gaps => Except.ok (r.activations, gaps)) hr.gaps

end Regrouped
