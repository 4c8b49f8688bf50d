import HttkWorkflow.ImportResume
import HttkWorkflow.GarbageCollection

/-!
# Retiring an acknowledged bundle

A source keeps the bundle it sealed until the destination acknowledges it.
Then `_retire_sealed_bundle` renames the bundle aside, below
`transfers/retired/`, writes that to the transfer's ledger, and only then
deletes anything: the bundle that was set aside, the journal segments that
only this job's history needed, and at last the ledger itself. Whether it
deletes at all is for the retention policy to say.

An attempt may be killed between any two of these effects, and garbage
collections under any policy may come before the next one, so a retry has to
recognise how far the others came from what is left. It tells by the ledger
and by where the bundle is. That fails in one way only, which
`acknowledge_lost` describes: a collection takes the bundle that was set
aside before a retry could write so to the ledger.
-/

open SegmentStore Effects

/-- **A reference to a journal record**, with the segment it names. -/
structure JournalReference where
  text : PyStr
  key : SegmentKey
  names : segmentOf text = some key

/-- **`status`** of a ledger. -/
inductive LedgerStatus where
  | sealed
  /-- With `retired_journal_refs`, which older ledgers lack, and the `acknowledgement`. -/
  | retired (journalRefs : Option (List JournalReference)) (acknowledgement : Option Acknowledgement)

/-- **The ledger of a transfer**: its manifest, and how far it is. -/
structure TransferLedger where
  manifest : TransferManifest
  status : LedgerStatus

/-- `transfers/retired/<transfer_id>`, and the `bundle` in it. -/
inductive RetiredDirectory (ν : Type) where
  | absent
  | empty
  | holding (bundle : PayloadTree ν)

/-- **The source workspace**, as the retirement of one transfer sees it. -/
structure RetiringSource (ν : Type) where
  /-- `transfers/<transfer_id>.json`. -/
  ledger : Option TransferLedger
  /-- The sealed bundle, where the ledger says it is. -/
  bundle : Option (PayloadTree ν)
  retired : RetiredDirectory ν
  jobSeal : Option ν
  /-- `transfers/protocol/journal.json`, empty where it is missing. -/
  pendingJournal : Dict SegmentKey JournalReference
  journal : SegmentStore
  retention : RetentionPolicy

/-- **An acknowledgement as it is received**: its `format`, what `verify_document` says of its
signature, if it has one, and its members. -/
structure ReceivedAcknowledgement where
  format : String
  signature : Option (Except String Unit)
  body : Acknowledgement

/-- **What retirement takes from outside.** -/
structure RetireEnv (ν : Type) where
  transfer : TransferEnv ν
  journal : JournalEnv Record
  /-- What an unfinished removal of a directory leaves, step by step. -/
  discarded : PayloadTree ν → List (PayloadTree ν)

/-- A retirement, or a part of it. -/
abbrev Retiring (ν α : Type) := Effects (RetiringSource ν) Exc α

variable {ν : Type}

/-- The status is `retired`. -/
def LedgerStatus.isRetired : LedgerStatus → Bool
  | .sealed => false
  | .retired _ _ => true

/-- `retired.exists()`. -/
def RetiredDirectory.holds : RetiredDirectory ν → Bool
  | .holding _ => true
  | _ => false

namespace RetiringSource

/-- The ledger is written, or removed. -/
def setLedger (s : RetiringSource ν) (ledger : Option TransferLedger) : RetiringSource ν :=
  { s with ledger := ledger }

/-- `transfers/retired/<transfer_id>` changes. -/
def setRetired (s : RetiringSource ν) (retired : RetiredDirectory ν) : RetiringSource ν :=
  { s with retired := retired }

/-- `retired.parent.mkdir(exist_ok=True)`. -/
def makeRetired (s : RetiringSource ν) : RetiringSource ν :=
  match s.retired with
  | .absent => s.setRetired .empty
  | _ => s

/-- `retired.parent.rmdir()`, which fails silently where there is something to keep. -/
def removeRetired (s : RetiringSource ν) : RetiringSource ν :=
  match s.retired with
  | .empty => s.setRetired .absent
  | _ => s

/-- `os.rename(bundle, retired)`. -/
def setAside (s : RetiringSource ν) (t : PayloadTree ν) : RetiringSource ν :=
  { s with bundle := none, retired := .holding t }

def unlinkSeal (s : RetiringSource ν) : RetiringSource ν := { s with jobSeal := none }

/-- The inventory of segments that are to go is written, or unlinked. -/
def setPending (s : RetiringSource ν) (pending : Dict SegmentKey JournalReference) :
    RetiringSource ν :=
  { s with pendingJournal := pending }

def unlinkSegment (s : RetiringSource ν) (key : SegmentKey) : RetiringSource ν :=
  { s with journal := s.journal.restrict fun e => e.fst ≠ key }

end RetiringSource

/-! ## The journal of a retired job -/

/-- The reference of a record that was met, if it names a segment. -/
def journalReference (text : PyStr) : Option JournalReference :=
  match h : segmentOf text with
  | some key => some ⟨text, key, h⟩
  | none => none

/-- **`_retired_journal_refs`**: of each segment of the source's history the oldest reference
that was met, up to a frame that cannot be read. -/
def retiredJournalRefs (env : JournalEnv Record) (journal : SegmentStore) (sealedMarker : PyStr) :
    List JournalReference :=
  match markerRecordRef sealedMarker with
  | none => []
  | some reference =>
    let readable := (iterRecordChain env journal reference).takeWhile fun e => e.snd.isSome
    ((readable.filterMap fun e => journalReference e.fst).foldl
      (fun references r => Dict.set references r.key r) []).map Prod.snd

/-- **`collect_retired_journal`**, which unlinks what nothing protects. -/
def collectRetiredJournal (protects : SegmentKey → Bool) (references : List JournalReference) :
    Retiring ν PUnit := do
  let s ← current
  if s.retention.trashDays.isNone || s.retention.journalDays.isNone || references.isEmpty then
    pure ⟨⟩
  else
    execAll (fun key => emit (·.unlinkSegment key) ⟨⟩)
      ((references.map JournalReference.key).filter fun key => !protects key)

/-- **`_remember_pending_journal`**: the inventory is written before anything in it is unlinked. -/
def rememberPendingJournal (protects : SegmentKey → Bool) (references : List JournalReference) :
    Retiring ν PUnit := do
  let s ← current
  let pending := references.foldl (fun pending r => pending.set r.key r) s.pendingJournal
  if pending.isEmpty then pure ⟨⟩
  else
    emit (·.setPending pending) ⟨⟩
    collectRetiredJournal protects (pending.map Prod.snd)
    let s ← current
    emit (·.setPending (pending.filter fun e => (s.journal.file e.snd.key).isSome)) ⟨⟩

/-! ## Retirement -/

/-- `validate_bundle` of what is at the bundle's path. -/
def validateActive (env : TransferEnv ν) (bundle : Option (PayloadTree ν)) :
    Except Exc (PayloadTree ν) :=
  match bundle with
  | none => raiseFormat [.lit "cannot read JSON object ", .path TransferManifest.path]
  | some t => (validateBundle env t).map fun _ => t

/-- The bundle is renamed aside, unless it was before. -/
def setBundleAside (env : TransferEnv ν) : Retiring ν PUnit := do
  let s ← current
  if s.retired.holds then
    if s.bundle.isSome then
      raise ⟨.workspaceCorruption, [.lit "both active and retired source bundles exist"]⟩
    else pure ⟨⟩
  else
    let t ← ofExcept (validateActive env s.bundle)
    emit (·.makeRetired) ⟨⟩
    emit (·.setAside t) ⟨⟩

/-- The ledger is written with the references of the source's history. -/
def publishRetired (env : JournalEnv Record) (ledger : TransferLedger)
    (acknowledgement : Option Acknowledgement) : Retiring ν (List JournalReference) := do
  let s ← current
  let references := retiredJournalRefs env s.journal ledger.manifest.sealedMarker
  emit (·.setLedger (some ⟨ledger.manifest, .retired (some references) acknowledgement⟩)) references

/-- **The source is declared retired**, unless it was before. -/
def declareRetired (env : RetireEnv ν) (ledger : TransferLedger)
    (provenance : Option Acknowledgement) : Retiring ν (List JournalReference) :=
  match ledger.status with
  | .sealed => do
    setBundleAside env.transfer
    emit (·.unlinkSeal) ⟨⟩
    publishRetired env.journal ledger provenance
  | .retired none acknowledgement => publishRetired env.journal ledger acknowledgement
  | .retired (some references) _ => pure references

/-- `_remove_tree` of the bundle that was set aside. -/
def removeSetAside (env : RetireEnv ν) : Retiring ν PUnit := do
  let s ← current
  match s.retired with
  | .holding t => do
    execAll (fun t' => emit (·.setRetired (.holding t')) ⟨⟩) (env.discarded t)
    emit (·.setRetired .empty) ⟨⟩
  | _ => pure ⟨⟩

def reclaimRetiredTransfer (env : RetireEnv ν) : Retiring ν PUnit := do
  let s ← current
  if s.retention.trashDays.isNone then pure ⟨⟩
  else
    removeSetAside env
    emit (·.removeRetired) ⟨⟩

def unlinkLedger (protects : SegmentKey → Bool) (references : List JournalReference) :
    Retiring ν PUnit := do
  let s ← current
  if s.retention.trashDays.isNone then pure ⟨⟩
  else
    rememberPendingJournal protects references
    emit (·.setLedger none) ⟨⟩

/-- `transfers/retired/<transfer_id>/bundle`, in the control directory. -/
def retiredBundle (transferId : String) : List String := ["transfers", "retired", transferId, "bundle"]

def retireSealedBundle (env : RetireEnv ν) (protects : SegmentKey → Bool) (transferId : String)
    (provenance : Option Acknowledgement) : Retiring ν (List String) := do
  let s ← current
  match s.ledger with
  | none => pure (retiredBundle transferId)
  | some ledger => do
    let references ← declareRetired env ledger provenance
    reclaimRetiredTransfer env
    unlinkLedger protects references
    pure (retiredBundle transferId)

/-- A member of an acknowledgement is compared with the ledger's. -/
def checkMember {β : Type} [DecidableEq β] (name : String) (offered recorded : β) : Except Exc Unit :=
  if offered ≠ recorded then
    raiseFormat [.lit "transfer acknowledgement disagrees on ", .lit name]
  else .ok ()

/-- What an acknowledgement has in common with the ledger it is for. -/
def checkAcknowledgement (ack : Acknowledgement) (m : TransferManifest) : Except Exc Unit := do
  if ack.transferSequence.isSome then
    checkMember "transfer_sequence" ack.transferSequence m.transferSequence
  checkMember "source_workspace_id" ack.sourceWorkspaceId m.sourceWorkspaceId
  checkMember "destination_workspace_id" ack.destinationWorkspaceId m.destinationWorkspaceId
  checkMember "payload_sha256" ack.payloadSha256 m.payloadSha256
  checkMember "job_id" ack.jobKey.id m.jobId
  checkMember "job_key" ack.jobKey m.jobKey
  checkMember "transfer_epoch" ack.transferEpoch m.transferEpoch

/-- What an acknowledgement must be like by itself. -/
def checkReceived (env : TransferEnv ν) (ack : ReceivedAcknowledgement) : Except Exc Unit :=
  if ack.format ≠ "httk-workflow-transfer-acknowledgement" then
    raiseFormat [.lit "invalid transfer acknowledgement format"]
  else
    match ack.signature with
    | some (.error reason) =>
      raiseFormat [.lit "transfer acknowledgement signature is invalid: ", .lit reason]
    | _ => if !env.isUuid ack.body.transferId then raiseFormat [.lit "transfer_id must be a UUID"]
      else .ok ()

def acknowledgeTransfer (env : RetireEnv ν) (protects : SegmentKey → Bool)
    (ack : ReceivedAcknowledgement) : Retiring ν (List String) := do
  ofExcept (checkReceived env.transfer ack)
  let s ← current
  match s.ledger with
  | none => pure (retiredBundle ack.body.transferId)
  | some ledger => do
    ofExcept (checkAcknowledgement ack.body ledger.manifest)
    retireSealedBundle env protects ack.body.transferId (some ack.body)

/-! ## What happens between the retries -/

/-- **What happens to a bundle under retirement.** -/
inductive RetireAction (ν : Type) where
  /-- An attempt, killed at any point or over. -/
  | attempt (protects : SegmentKey → Bool)
  | collect (left : RetiredDirectory ν) (kept : SegmentKey × SegmentFile → Bool)
  | configure (retention : RetentionPolicy)
  /-- Other jobs are worked on, and other transfers retired. -/
  | elsewhere (journal : SegmentStore) (pending : Dict SegmentKey JournalReference)

def RetiredDirectory.Leaves : RetiredDirectory ν → RetiredDirectory ν → Prop
  | .absent, left => left = .absent
  | .empty, left => left.holds = false
  | .holding t, .holding t' => ∀ e ∈ t'.entries, e ∈ t.entries
  | .holding _, _ => True

namespace RetiringSource

/-- **A bundle that is sealed for a manifest**, and in its place. -/
structure Sealed (env : TransferEnv ν) (m : TransferManifest) (s : RetiringSource ν) : Prop where
  ledger : s.ledger = some ⟨m, .sealed⟩
  bundle : ∃ t m', s.bundle = some t ∧ validateBundle env t = .ok m'
  retired : s.retired.holds = false

/-- **What a retirement leaves that returned**: the bundle is gone, the ledger is marked retired
or was reclaimed, and it was reclaimed, with the bundle's copy, unless trash is to be kept. -/
structure Retired (s : RetiringSource ν) : Prop where
  bundle : s.bundle = none
  ledger : ∀ l, s.ledger = some l → l.status.isRetired = true
  reclaimed : s.retention.trashDays ≠ none → s.ledger = none
  copy : s.ledger = none → s.retired.holds = false

end RetiringSource

/-- **The runs of a sealed bundle** that is acknowledged. -/
def retireRuns (env : RetireEnv ν) (m : TransferManifest) (ack : ReceivedAcknowledgement) :
    System (RetiringSource ν) (RetireAction ν) where
  init := RetiringSource.Sealed env.transfer m
  step s a s' :=
    match a with
    | .attempt protects => (acknowledgeTransfer env protects ack).Visits s s'
    | .collect left kept => s.retired.Leaves left ∧ (s.retention.trashDays = none → left = s.retired)
        ∧ s' = { s with retired := left, journal := s.journal.restrict kept }
    | .configure retention => s' = { s with retention := retention }
    | .elsewhere journal pending => s' = { s with journal := journal, pendingJournal := pending }

/-- **A collection leaves the bundle that was set aside** while the ledger says `sealed`. -/
def SparesUndeclared (s : RetiringSource ν) : RetireAction ν → Prop
  | .collect left _ => (∀ l, s.ledger = some l → l.status.isRetired = false) →
      s.retired.holds = true → left.holds = true
  | _ => True

/-! ## One attempt -/

namespace RetiringSource

/-- **What can be recognised**: the bundle is where the ledger says, or set aside, or the ledger
says so. -/
structure Retirable (env : TransferEnv ν) (m : TransferManifest) (s : RetiringSource ν) : Prop where
  manifest : ∀ l, s.ledger = some l → l.manifest = m
  undeclared : ∀ l, s.ledger = some l → l.status.isRetired = false →
    (s.retired.holds = false ∧ ∃ t m', s.bundle = some t ∧ validateBundle env t = .ok m')
      ∨ (s.retired.holds = true ∧ s.bundle = none)
  declared : (∀ l, s.ledger = some l → l.status.isRetired = true) → s.bundle = none
  reclaimed : s.ledger = none → s.retired.holds = false

/-- The bundle is gone from its place, and the copy is there until the ledger says so. -/
structure Gone (m : TransferManifest) (s : RetiringSource ν) : Prop where
  bundle : s.bundle = none
  ledger : ∃ l, s.ledger = some l ∧ l.manifest = m
  copy : ∀ l, s.ledger = some l → l.status.isRetired = false → s.retired.holds = true

/-- **The source is declared retired.** -/
structure Declared (m : TransferManifest) (s : RetiringSource ν) : Prop where
  bundle : s.bundle = none
  ledger : ∃ l, s.ledger = some l ∧ l.manifest = m ∧ l.status.isRetired = true

variable {env : TransferEnv ν} {m : TransferManifest} {s : RetiringSource ν}

theorem Sealed.retirable (h : s.Sealed env m) : s.Retirable env m where
  manifest l hl := by
    rw [h.ledger] at hl
    rw [← Option.some.inj hl]
  undeclared _ _ _ := Or.inl ⟨h.retired, h.bundle⟩
  declared hall := absurd (hall _ h.ledger) Bool.false_ne_true
  reclaimed hnone := absurd (h.ledger.symm.trans hnone) (by simp)

theorem Gone.retirable (h : s.Gone m) : s.Retirable env m where
  manifest l hl := by
    obtain ⟨l', hl', hm⟩ := h.ledger
    rw [← hm, Option.some.inj (hl.symm.trans hl')]
  undeclared l hl hst := Or.inr ⟨h.copy l hl hst, h.bundle⟩
  declared _ := h.bundle
  reclaimed hnone := by
    obtain ⟨l, hl, -⟩ := h.ledger
    rw [hnone] at hl
    cases hl

theorem Declared.gone (h : s.Declared m) : s.Gone m where
  bundle := h.bundle
  ledger := h.ledger.imp fun _ hl => ⟨hl.1, hl.2.1⟩
  copy l hl hst := by
    obtain ⟨l', hl', -, hretired⟩ := h.ledger
    rw [Option.some.inj (hl.symm.trans hl'), hretired] at hst
    cases hst

theorem Declared.retirable (h : s.Declared m) : s.Retirable env m := h.gone.retirable

theorem Retired.retirable (h : s.Retired) (hm : ∀ l, s.ledger = some l → l.manifest = m) : s.Retirable env m where
  manifest := hm
  undeclared l hl hst := by
    rw [h.ledger l hl] at hst
    cases hst
  declared _ := h.bundle
  reclaimed := h.copy

end RetiringSource

open RetiringSource

section Attempt

variable {env : RetireEnv ν} {m : TransferManifest} {protects : SegmentKey → Bool}
variable {references : List JournalReference}

/-- A property that the journal and its inventory have no part in. -/
def BesideJournal (P : RetiringSource ν → Prop) : Prop :=
  ∀ s journal pending, P s → P { s with journal := journal, pendingJournal := pending }

variable {P : RetiringSource ν → Prop} {s : RetiringSource ν}

theorem BesideJournal.setPending (hP : BesideJournal P) (hs : P s) (pending : Dict SegmentKey JournalReference) :
    P (s.setPending pending) := hP s s.journal pending hs

theorem collectRetiredJournal_crashing (hP : BesideJournal P) :
    Crashing P (collectRetiredJournal protects references) (fun _ => P) P := by
  refine Crashing.look fun d hd => ?_
  by_cases hskip : (d.retention.trashDays.isNone || d.retention.journalDays.isNone
      || references.isEmpty) = true
  · rw [if_pos hskip]
    exact Crashing.ret (fun s hs => hs ▸ hd) fun s hs => hs ▸ hd
  · rw [if_neg hskip]
    have hunlink : ∀ s, P s → ∀ key, P (s.unlinkSegment key) :=
      fun s hs key => hP s _ s.pendingJournal hs
    exact Crashing.conseq (Crashing.all fun key _ =>
        Crashing.once (fun _ hs => hs) (fun s hs => hunlink s hs key) fun s hs => hunlink s hs key)
      (fun s hs => hs ▸ hd) (fun _ _ hs => hs) fun _ hs => hs

theorem collectRetiredJournal_total : Total P (collectRetiredJournal protects references) := by
  refine Total.look fun d _ => ?_
  by_cases hskip : (d.retention.trashDays.isNone || d.retention.journalDays.isNone
      || references.isEmpty) = true
  · rw [if_pos hskip]
    exact Total.ret
  · rw [if_neg hskip]
    exact Total.effects

theorem rememberPendingJournal_crashing (hP : BesideJournal P) :
    Crashing P (rememberPendingJournal protects references) (fun _ => P) P := by
  refine Crashing.look fun d hd => ?_
  by_cases hnone : (references.foldl (fun pending r => Dict.set pending r.key r) d.pendingJournal).isEmpty = true
  · simp only [if_pos hnone]
    exact Crashing.ret (fun s hs => hs ▸ hd) fun s hs => hs ▸ hd
  · simp only [if_neg hnone]
    have hwrite : Crashing (· = d) (emit (·.setPending (references.foldl
        (fun pending r => Dict.set pending r.key r) d.pendingJournal)) ⟨⟩ : Retiring ν PUnit)
        (fun _ => P) P :=
      Crashing.once (fun s hs => hs ▸ hd) (fun s hs => hs ▸ hP.setPending hd _) fun s hs => hs ▸ hP.setPending hd _
    refine hwrite.seq fun _ => (collectRetiredJournal_crashing hP).seq fun _ =>
      Crashing.look fun c hc => ?_
    exact Crashing.once (fun s hs => hs ▸ hc) (fun s hs => hs ▸ hP.setPending hc _) fun s hs => hs ▸ hP.setPending hc _

theorem rememberPendingJournal_total : Total P (rememberPendingJournal protects references) := by
  have hfree : BesideJournal (fun _ : RetiringSource ν => True) := fun _ _ _ _ => trivial
  refine Total.look fun d _ => ?_
  by_cases hnone : (references.foldl (fun pending r => Dict.set pending r.key r) d.pendingJournal).isEmpty = true
  · simp only [if_pos hnone]
    exact Total.ret
  · simp only [if_neg hnone]
    have hwrite : Crashing (· = d) (emit (·.setPending (references.foldl
        (fun pending r => Dict.set pending r.key r) d.pendingJournal)) ⟨⟩ : Retiring ν PUnit)
        (fun _ _ => True) fun _ => True :=
      Crashing.once (fun _ _ => trivial) (fun _ _ => trivial) fun _ _ => trivial
    exact Total.once.seq hwrite fun _ => collectRetiredJournal_total.seq
      (collectRetiredJournal_crashing hfree) fun _ => Total.look fun _ _ => Total.once

/-! ### Setting the bundle aside -/

/-- The ledger says `sealed`, and the rest can be recognised. -/
def Undeclared (env : RetireEnv ν) (m : TransferManifest) (s : RetiringSource ν) : Prop :=
  s.Retirable env.transfer m ∧ s.ledger = some ⟨m, .sealed⟩

/-- The bundle was set aside, and the ledger does not say so yet. -/
structure Aside (m : TransferManifest) (s : RetiringSource ν) : Prop where
  ledger : s.ledger = some ⟨m, .sealed⟩
  bundle : s.bundle = none
  retired : s.retired.holds = true

theorem Aside.gone (h : Aside m s) : s.Gone m where
  bundle := h.bundle
  ledger := ⟨_, h.ledger, rfl⟩
  copy _ _ _ := h.retired

theorem Undeclared.cases (h : Undeclared env m s) : s.Sealed env.transfer m ∨ Aside m s := by
  rcases h.1.undeclared _ h.2 rfl with ⟨hretired, hbundle⟩ | ⟨hretired, hbundle⟩
  · exact Or.inl ⟨h.2, hbundle, hretired⟩
  · exact Or.inr ⟨h.2, hbundle, hretired⟩

theorem RetiringSource.Sealed.makeRetired (h : s.Sealed env.transfer m) : s.makeRetired.Sealed env.transfer m := by
  unfold RetiringSource.makeRetired
  cases hretired : s.retired with
  | absent => exact ⟨h.ledger, h.bundle, rfl⟩
  | empty => exact h
  | holding t => exact h

theorem validateActive_ok (h : s.Sealed env.transfer m) : ∃ t, validateActive env.transfer s.bundle = .ok t := by
  obtain ⟨t, m', hbundle, hvalid⟩ := h.bundle
  exact ⟨t, by rw [hbundle, validateActive, hvalid]; rfl⟩

theorem setBundleAside_crashing : Crashing (Undeclared env m) (setBundleAside env.transfer) (fun _ => Aside m)
      (Retirable env.transfer m) := by
  refine Crashing.look fun d hd => ?_
  rcases hd.cases with hsealed | haside
  · rw [if_neg (by rw [hsealed.retired]; exact Bool.false_ne_true)]
    have hcheck : Crashing (· = d) (ofExcept (validateActive env.transfer d.bundle))
        (fun _ => Sealed env.transfer m) (Retirable env.transfer m) :=
      Crashing.check (fun s hs => hs ▸ hd.1) fun _ s _ hs => hs ▸ hsealed
    have hmake : Crashing (Sealed env.transfer m)
        (emit (·.makeRetired) ⟨⟩ : Retiring ν PUnit) (fun _ => Sealed env.transfer m)
        (Retirable env.transfer m) :=
      Crashing.once (fun s hs => hs.retirable) (fun s hs => hs.makeRetired.retirable) fun s hs => hs.makeRetired
    refine hcheck.seq fun t => hmake.seq fun _ => ?_
    have hrename : ∀ s : RetiringSource ν, s.Sealed env.transfer m → Aside m (s.setAside t) :=
      fun s hs => ⟨hs.ledger, rfl, rfl⟩
    exact Crashing.once (fun s hs => hs.retirable) (fun s hs => (hrename s hs).gone.retirable) hrename
  · rw [if_pos haside.retired, if_neg (by rw [haside.bundle]; exact Bool.false_ne_true)]
    exact Crashing.ret (fun s hs => hs ▸ hd.1) fun s hs => hs ▸ haside

theorem setBundleAside_total : Total (Undeclared env m) (setBundleAside env.transfer) := by
  refine Total.look fun d hd => ?_
  rcases hd.cases with hsealed | haside
  · rw [if_neg (by rw [hsealed.retired]; exact Bool.false_ne_true)]
    obtain ⟨t, ht⟩ := validateActive_ok hsealed
    have hcheck : Crashing (· = d) (ofExcept (validateActive env.transfer d.bundle))
        (fun _ _ => True) fun _ => True := Crashing.check (fun _ _ => trivial) fun _ _ _ _ => trivial
    have hmake : Crashing (fun _ => True) (emit (·.makeRetired) ⟨⟩ : Retiring ν PUnit)
        (fun _ _ => True) fun _ => True :=
      Crashing.once (fun _ _ => trivial) (fun _ _ => trivial) fun _ _ => trivial
    exact (Total.check ht).seq hcheck fun t => Total.once.seq hmake fun _ => Total.once
  · rw [if_pos haside.retired, if_neg (by rw [haside.bundle]; exact Bool.false_ne_true)]
    exact Total.ret

/-! ### Declaring the source retired -/

variable {ledger : TransferLedger}

theorem publishRetired_crashing {ack : Option Acknowledgement} (hm : ledger.manifest = m) :
    Crashing (Gone m) (publishRetired env.journal ledger ack) (fun _ => Declared m)
      (Retirable env.transfer m) := by
  refine Crashing.look fun d hd => ?_
  have hdeclared : Declared m (d.setLedger (some ⟨ledger.manifest,
      .retired (some (retiredJournalRefs env.journal d.journal ledger.manifest.sealedMarker)) ack⟩)) :=
    ⟨hd.bundle, _, rfl, hm, rfl⟩
  exact Crashing.once (fun s hs => hs ▸ hd.retirable)
    (fun s hs => by rw [hs]; exact hdeclared.retirable) fun s hs => by rw [hs]; exact hdeclared

theorem publishRetired_total {ack : Option Acknowledgement} : Total P (publishRetired env.journal ledger ack) :=
  Total.look fun _ _ => Total.once

theorem declareRetired_crashing {provenance : Option Acknowledgement} (hm : ledger.manifest = m) :
    Crashing (fun s => s.Retirable env.transfer m ∧ s.ledger = some ledger)
      (declareRetired env ledger provenance) (fun _ => Declared m) (Retirable env.transfer m) := by
  obtain ⟨manifest, status⟩ := ledger
  obtain rfl : manifest = m := hm
  have hretired : ∀ references ack s, s.Retirable env.transfer manifest →
      s.ledger = some ⟨manifest, .retired references ack⟩ → Declared manifest s :=
    fun references ack s hs hl => ⟨hs.declared fun l hl' => by
      rw [Option.some.inj (hl'.symm.trans hl)]; rfl, _, hl, rfl, rfl⟩
  cases status with
  | sealed =>
    refine (setBundleAside_crashing (m := manifest)).seq fun _ => ?_
    have hunlink : Crashing (Aside manifest) (emit (·.unlinkSeal) ⟨⟩ : Retiring ν PUnit)
        (fun _ => Gone manifest) (Retirable env.transfer manifest) :=
      Crashing.once (fun s hs => hs.gone.retirable)
        (fun s hs => (Aside.gone ⟨hs.ledger, hs.bundle, hs.retired⟩ : s.unlinkSeal.Gone manifest).retirable)
        fun s hs => Aside.gone ⟨hs.ledger, hs.bundle, hs.retired⟩
    exact hunlink.seq fun _ => publishRetired_crashing rfl
  | retired references ack =>
    cases references with
    | none =>
      exact (publishRetired_crashing rfl).conseq (fun s hs => (hretired _ _ s hs.1 hs.2).gone)
        (fun _ _ hs => hs) fun _ hs => hs
    | some references =>
      exact Crashing.ret (fun s hs => hs.1) fun s hs => hretired _ _ s hs.1 hs.2

theorem declareRetired_total {provenance : Option Acknowledgement} (hm : ledger.manifest = m) :
    Total (fun s => s.Retirable env.transfer m ∧ s.ledger = some ledger)
      (declareRetired env ledger provenance) := by
  obtain ⟨manifest, status⟩ := ledger
  obtain rfl : manifest = m := hm
  cases status with
  | sealed =>
    have hunlink : Crashing (Aside manifest) (emit (·.unlinkSeal) ⟨⟩ : Retiring ν PUnit)
        (fun _ _ => True) fun _ => True :=
      Crashing.once (fun _ _ => trivial) (fun _ _ => trivial) fun _ _ => trivial
    exact setBundleAside_total.seq setBundleAside_crashing fun _ =>
      Total.once.seq hunlink fun _ => publishRetired_total
  | retired references ack =>
    cases references with
    | none => exact publishRetired_total
    | some references => exact Total.ret

/-! ### Reclaiming -/

/-- Declared retired, without a copy. -/
def Cleared (m : TransferManifest) (s : RetiringSource ν) : Prop :=
  s.Declared m ∧ s.retired.holds = false

/-- Declared retired, without a copy unless trash is to be kept. -/
def Reclaimed (m : TransferManifest) (s : RetiringSource ν) : Prop :=
  s.Declared m ∧ (s.retention.trashDays ≠ none → s.retired.holds = false)

theorem RetiringSource.Declared.setRetired (h : s.Declared m) (r : RetiredDirectory ν) :
    (s.setRetired r).Declared m := ⟨h.bundle, h.ledger⟩

theorem Cleared.removeRetired (h : Cleared m s) : Cleared m s.removeRetired := by
  unfold RetiringSource.removeRetired
  cases hretired : s.retired with
  | absent => exact h
  | empty => exact ⟨h.1.setRetired _, rfl⟩
  | holding t => exact h

theorem removeSetAside_crashing :
    Crashing (Declared m) (removeSetAside env) (fun _ => Cleared m) (Retirable env.transfer m) := by
  refine Crashing.look fun d hd => ?_
  cases hretired : d.retired with
  | absent => exact Crashing.ret (fun s hs => hs ▸ hd.retirable) fun s hs =>
      hs ▸ ⟨hd, by rw [hretired]; rfl⟩
  | empty => exact Crashing.ret (fun s hs => hs ▸ hd.retirable) fun s hs =>
      hs ▸ ⟨hd, by rw [hretired]; rfl⟩
  | holding t =>
    have hremove : Crashing (Declared m) (execAll (fun t' => emit (·.setRetired (.holding t')) ⟨⟩)
        (env.discarded t) : Retiring ν PUnit) (fun _ => Declared m) (Declared m) :=
      Crashing.all fun t' _ => Crashing.once (fun _ hs => hs) (fun s hs => hs.setRetired _) fun s hs => hs.setRetired _
    have hlast : Crashing (Declared m) (emit (·.setRetired .empty) ⟨⟩ : Retiring ν PUnit)
        (fun _ => Cleared m) (Retirable env.transfer m) :=
      Crashing.once (fun s hs => hs.retirable) (fun s hs => (hs.setRetired _).retirable)
        fun s hs => ⟨hs.setRetired _, rfl⟩
    have hstart : Crashing (· = d) (execAll (fun t' => emit (·.setRetired (.holding t')) ⟨⟩)
        (env.discarded t) : Retiring ν PUnit) (fun _ => Declared m) (Retirable env.transfer m) :=
      hremove.conseq (fun s hs => hs ▸ hd) (fun _ _ hs => hs) fun s hs => hs.retirable
    exact hstart.seq fun _ => hlast

theorem removeSetAside_total : Total P (removeSetAside env) := by
  refine Total.look fun d _ => ?_
  cases d.retired with
  | absent => exact Total.ret
  | empty => exact Total.ret
  | holding t =>
    have hremove : Crashing (· = d) (execAll (fun t' => emit (·.setRetired (.holding t')) ⟨⟩)
        (env.discarded t) : Retiring ν PUnit) (fun _ _ => True) fun _ => True :=
      (Crashing.all (P := fun _ => True) fun t' _ => Crashing.once (fun _ _ => trivial)
        (fun _ _ => trivial) fun _ _ => trivial).conseq (fun _ _ => trivial) (fun _ _ _ => trivial)
        fun _ _ => trivial
    exact Total.effects.seq hremove fun _ => Total.once

theorem reclaimRetiredTransfer_crashing : Crashing (Declared m) (reclaimRetiredTransfer env) (fun _ => Reclaimed m)
      (Retirable env.transfer m) := by
  refine Crashing.look fun d hd => ?_
  by_cases htrash : d.retention.trashDays.isNone = true
  · rw [if_pos htrash]
    exact Crashing.ret (fun s hs => hs ▸ hd.retirable) fun s hs =>
      hs ▸ ⟨hd, fun h => absurd (Option.isNone_iff_eq_none.mp htrash) h⟩
  · rw [if_neg htrash]
    have hremove : Crashing (· = d) (removeSetAside env) (fun _ => Cleared m) (Retirable env.transfer m) :=
      removeSetAside_crashing.conseq (fun s hs => hs ▸ hd) (fun _ _ hs => hs) fun _ hs => hs
    refine hremove.seq fun _ => Crashing.once (fun s hs => hs.1.retirable)
      (fun s hs => hs.removeRetired.1.retirable) fun s hs => ?_
    have hcleared := hs.removeRetired
    exact ⟨hcleared.1, fun _ => hcleared.2⟩

theorem reclaimRetiredTransfer_total : Total (Declared m) (reclaimRetiredTransfer env) := by
  refine Total.look fun d hd => ?_
  by_cases htrash : d.retention.trashDays.isNone = true
  · rw [if_pos htrash]
    exact Total.ret
  · rw [if_neg htrash]
    have hremove : Crashing (· = d) (removeSetAside env) (fun _ => Cleared m) (Retirable env.transfer m) :=
      removeSetAside_crashing.conseq (fun s hs => hs ▸ hd) (fun _ _ hs => hs) fun _ hs => hs
    exact removeSetAside_total.seq hremove fun _ => Total.once

theorem besideJournal_cleared : BesideJournal (Cleared (ν := ν) m) :=
  fun _ _ _ hs => ⟨⟨hs.1.bundle, hs.1.ledger⟩, hs.2⟩

theorem Cleared.unlinked (h : Cleared m s) : (s.setLedger none).Retired where
  bundle := h.1.bundle
  ledger _ hl := by cases hl
  reclaimed _ := rfl
  copy _ := h.2

theorem Reclaimed.retired (h : Reclaimed m s) (htrash : s.retention.trashDays = none) : s.Retired where
  bundle := h.1.bundle
  ledger l hl := by
    obtain ⟨l', hl', -, hretired⟩ := h.1.ledger
    rw [Option.some.inj (hl.symm.trans hl'), hretired]
  reclaimed hset := absurd htrash hset
  copy hnone := by
    obtain ⟨l, hl, -⟩ := h.1.ledger
    rw [hnone] at hl
    cases hl

theorem unlinkLedger_crashing : Crashing (Reclaimed m) (unlinkLedger protects references)
      (fun _ s => s.Retired ∧ s.Retirable env.transfer m) (Retirable env.transfer m) := by
  refine Crashing.look fun d hd => ?_
  by_cases htrash : d.retention.trashDays.isNone = true
  · rw [if_pos htrash]
    exact Crashing.ret (fun s hs => hs ▸ hd.1.retirable) fun s hs =>
      hs ▸ ⟨hd.retired (Option.isNone_iff_eq_none.mp htrash), hd.1.retirable⟩
  · rw [if_neg htrash]
    have hcleared : Cleared m d := ⟨hd.1, hd.2 fun h => htrash (Option.isNone_iff_eq_none.mpr h)⟩
    have hpending : Crashing (· = d) (rememberPendingJournal protects references)
        (fun _ => Cleared m) (Retirable env.transfer m) :=
      (rememberPendingJournal_crashing besideJournal_cleared).conseq (fun s hs => hs ▸ hcleared)
        (fun _ _ hs => hs) fun s hs => hs.1.retirable
    have hunlinked : ∀ s, Cleared m s → (s.setLedger none).Retired ∧ (s.setLedger none).Retirable env.transfer m :=
      fun s hs => ⟨hs.unlinked, hs.unlinked.retirable fun l hl => by cases hl⟩
    exact hpending.seq fun _ => Crashing.once (fun s hs => hs.1.retirable) (fun s hs => (hunlinked s hs).2) hunlinked

theorem unlinkLedger_total : Total P (unlinkLedger protects references) := by
  refine Total.look fun d _ => ?_
  by_cases htrash : d.retention.trashDays.isNone = true
  · rw [if_pos htrash]
    exact Total.ret
  · rw [if_neg htrash]
    have hpending : Crashing (· = d) (rememberPendingJournal protects references) (fun _ _ => True) fun _ => True :=
      (rememberPendingJournal_crashing (P := fun _ => True) fun _ _ _ _ => trivial).conseq
        (fun _ _ => trivial) (fun _ _ _ => trivial) fun _ _ => trivial
    exact rememberPendingJournal_total.seq hpending fun _ => Total.once

/-! ### The whole attempt -/

/-- Whether a source accepts an acknowledgement for a transfer of a manifest. -/
def Acknowledges (env : TransferEnv ν) (m : TransferManifest) (ack : ReceivedAcknowledgement) : Prop :=
  checkReceived env ack = .ok () ∧ checkAcknowledgement ack.body m = .ok ()

variable {transferId : String} {provenance : Option Acknowledgement} {ack : ReceivedAcknowledgement}

theorem RetiringSource.Retirable.retired_of_none (h : s.Retirable env.transfer m)
    (hnone : s.ledger = none) : s.Retired where
  bundle := h.declared fun l hl => by
    rw [hnone] at hl
    cases hl
  ledger l hl := by
    rw [hnone] at hl
    cases hl
  reclaimed _ := hnone
  copy := h.reclaimed

theorem retireSealedBundle_crashing :
    Crashing (Retirable env.transfer m) (retireSealedBundle env protects transferId provenance)
      (fun _ s => s.Retired ∧ s.Retirable env.transfer m) (Retirable env.transfer m) := by
  refine Crashing.look fun d hd => ?_
  cases hledger : d.ledger with
  | none =>
    exact Crashing.ret (fun s hs => hs ▸ hd) fun s hs => hs ▸ ⟨hd.retired_of_none hledger, hd⟩
  | some ledger =>
    have hm := hd.manifest ledger hledger
    have hdeclare : Crashing (· = d) (declareRetired env ledger provenance) (fun _ => Declared m)
        (Retirable env.transfer m) :=
      (declareRetired_crashing hm).conseq (fun s hs => hs ▸ ⟨hd, hledger⟩) (fun _ _ hs => hs) fun _ hs => hs
    exact hdeclare.seq fun references => reclaimRetiredTransfer_crashing.seq fun _ =>
      unlinkLedger_crashing.seq fun _ => Crashing.ret (fun _ hs => hs.2) fun _ hs => hs

theorem retireSealedBundle_total :
    Total (Retirable env.transfer m) (retireSealedBundle env protects transferId provenance) := by
  refine Total.look fun d hd => ?_
  cases hledger : d.ledger with
  | none => exact Total.ret
  | some ledger =>
    have hm := hd.manifest ledger hledger
    have hpre : ∀ s, s = d → s.Retirable env.transfer m ∧ s.ledger = some ledger :=
      fun s hs => hs ▸ ⟨hd, hledger⟩
    have hdeclare : Crashing (· = d) (declareRetired env ledger provenance) (fun _ => Declared m)
        (Retirable env.transfer m) :=
      (declareRetired_crashing hm).conseq hpre (fun _ _ hs => hs) fun _ hs => hs
    have hunlink : ∀ references, Crashing (Reclaimed m) (unlinkLedger protects references)
        (fun _ s => s.Retired ∧ s.Retirable env.transfer m) (Retirable env.transfer m) :=
      fun _ => unlinkLedger_crashing
    exact ((declareRetired_total hm).weaken hpre).seq hdeclare fun references =>
      reclaimRetiredTransfer_total.seq reclaimRetiredTransfer_crashing fun _ =>
        unlinkLedger_total.seq (hunlink _) fun _ => Total.ret

theorem acknowledgeTransfer_crashing : Crashing (Retirable env.transfer m) (acknowledgeTransfer env protects ack)
      (fun _ s => s.Retired ∧ s.Retirable env.transfer m) (Retirable env.transfer m) := by
  have hreceived : Crashing (Retirable env.transfer m) (ofExcept (checkReceived env.transfer ack) : Retiring ν Unit)
      (fun _ => Retirable env.transfer m) (Retirable env.transfer m) :=
    Crashing.check (fun _ hs => hs) fun _ _ _ hs => hs
  refine hreceived.seq fun _ => Crashing.look fun d hd => ?_
  cases hledger : d.ledger with
  | none => exact Crashing.ret (fun s hs => hs ▸ hd) fun s hs => hs ▸ ⟨hd.retired_of_none hledger, hd⟩
  | some ledger =>
    have hagree : Crashing (· = d) (ofExcept (checkAcknowledgement ack.body ledger.manifest) : Retiring ν Unit)
        (fun _ => Retirable env.transfer m) (Retirable env.transfer m) :=
      Crashing.check (fun s hs => hs ▸ hd) fun _ s _ hs => hs ▸ hd
    exact hagree.seq fun _ => retireSealedBundle_crashing

theorem acknowledgeTransfer_total (hack : Acknowledges env.transfer m ack) :
    Total (Retirable env.transfer m) (acknowledgeTransfer env protects ack) := by
  have hreceived : Crashing (Retirable env.transfer m) (ofExcept (checkReceived env.transfer ack) : Retiring ν Unit)
      (fun _ => Retirable env.transfer m) (Retirable env.transfer m) :=
    Crashing.check (fun _ hs => hs) fun _ _ _ hs => hs
  refine (Total.check hack.1).seq hreceived fun _ => Total.look fun d hd => ?_
  cases hledger : d.ledger with
  | none => exact Total.ret
  | some ledger =>
    have hagree : Crashing (· = d) (ofExcept (checkAcknowledgement ack.body ledger.manifest) : Retiring ν Unit)
        (fun _ => Retirable env.transfer m) (Retirable env.transfer m) :=
      Crashing.check (fun s hs => hs ▸ hd) fun _ s _ hs => hs ▸ hd
    have hcheck : checkAcknowledgement ack.body ledger.manifest = .ok () := by
      rw [hd.manifest ledger hledger]
      exact hack.2
    exact (Total.check hcheck).seq hagree fun _ => retireSealedBundle_total

end Attempt

/-! ## Whole runs -/

variable {env : RetireEnv ν} {m : TransferManifest} {ack : ReceivedAcknowledgement}

/-- **What can be recognised stays so**, over every step but the one that is guarded against. -/
theorem RetiringSource.Retirable.step {s s' : RetiringSource ν} {a : RetireAction ν} (hs : s.Retirable env.transfer m)
    (hstep : ((retireRuns env m ack).guarded SparesUndeclared).step s a s') :
    s'.Retirable env.transfer m := by
  obtain ⟨hstep, hspares⟩ := hstep
  cases a with
  | attempt protects => exact (acknowledgeTransfer_crashing s hs).1 s' hstep
  | configure retention =>
    obtain rfl := hstep
    exact ⟨hs.manifest, hs.undeclared, hs.declared, hs.reclaimed⟩
  | elsewhere journal pending =>
    obtain rfl := hstep
    exact ⟨hs.manifest, hs.undeclared, hs.declared, hs.reclaimed⟩
  | collect left kept =>
    obtain ⟨hleaves, -, rfl⟩ := hstep
    -- what was not there does not appear
    have hnothing : s.retired.holds = false → left.holds = false := by
      intro hretired
      cases hdir : s.retired with
      | absent =>
        rw [hdir] at hleaves
        rw [show left = .absent from hleaves]
        rfl
      | empty =>
        rw [hdir] at hleaves
        exact hleaves
      | holding t =>
        rw [hdir] at hretired
        cases hretired
    refine ⟨hs.manifest, fun l hl hst => ?_, hs.declared, fun hnone => hnothing (hs.reclaimed hnone)⟩
    have hl : s.ledger = some l := hl
    refine (hs.undeclared l hl hst).imp (fun h => ⟨hnothing h.1, h.2⟩) fun h => ⟨?_, h.2⟩
    exact hspares (fun l' hl' => by rw [Option.some.inj (hl'.symm.trans hl)]; exact hst) h.1

variable {s : RetiringSource ν}

theorem retireRuns_retirable (hs : ((retireRuns env m ack).guarded SparesUndeclared).Reachable s) :
    s.Retirable env.transfer m :=
  hs.invariant (fun _ h => Sealed.retirable h) fun _ _ _ _ hI hstep => hI.step hstep

/-- **Retirement converges**: however often the retirement of an acknowledged bundle was killed and
wherever, and whatever collections came in between that leave a bundle set aside alone until the
ledger says so, the next retry returns, with the bundle gone and the ledger marked retired or
reclaimed. -/
theorem retire_converges (hack : Acknowledges env.transfer m ack) {s : RetiringSource ν}
    (hs : ((retireRuns env m ack).guarded SparesUndeclared).Reachable s)
    (protects : SegmentKey → Bool) :
    ∃ path s', (acknowledgeTransfer env protects ack).Returns s path s' ∧ s'.Retired := by
  have hretirable := retireRuns_retirable hs
  obtain ⟨path, s', hreturns⟩ := acknowledgeTransfer_total hack s hretirable
  exact ⟨path, s', hreturns, ((acknowledgeTransfer_crashing s hretirable).2 path s' hreturns).1⟩

theorem acknowledge_lost (hack : Acknowledges env.transfer m ack)
    (hledger : s.ledger = some ⟨m, .sealed⟩) (hbundle : s.bundle = none)
    (hretired : s.retired.holds = false) (protects : SegmentKey → Bool) :
    (acknowledgeTransfer env protects ack).Raises s
      ⟨.formatError, [.lit "cannot read JSON object ", .path TransferManifest.path]⟩ s := by
  have haside : (setBundleAside env.transfer).Raises s
      ⟨.formatError, [.lit "cannot read JSON object ", .path TransferManifest.path]⟩ s := by
    unfold setBundleAside
    rw [raises_current_bind, if_neg (by rw [hretired]; exact Bool.false_ne_true), raises_bind, hbundle]
    exact Or.inl (raises_ofExcept.mpr ⟨rfl, rfl⟩)
  have hretire : (retireSealedBundle env protects ack.body.transferId (some ack.body)).Raises s
      ⟨.formatError, [.lit "cannot read JSON object ", .path TransferManifest.path]⟩ s := by
    unfold retireSealedBundle
    rw [raises_current_bind, hledger]
    exact raises_bind.mpr (Or.inl (raises_bind.mpr (Or.inl haside)))
  unfold acknowledgeTransfer
  refine raises_bind.mpr (Or.inr ⟨(), s, returns_ofExcept.mpr ⟨hack.1, rfl⟩, ?_⟩)
  rw [raises_current_bind, hledger]
  exact raises_bind.mpr (Or.inr ⟨(), s, returns_ofExcept.mpr ⟨hack.2, rfl⟩, hretire⟩)

theorem acknowledge_reclaimed {s s' : RetiringSource ν} {path : List String}
    {protects : SegmentKey → Bool} (hledger : s.ledger = none)
    (h : (acknowledgeTransfer env protects ack).Returns s path s') : s' = s := by
  unfold acknowledgeTransfer at h
  obtain ⟨u, t, hcheck, h⟩ := returns_bind.mp h
  obtain ⟨-, rfl⟩ := returns_ofExcept.mp hcheck
  rw [returns_current_bind, hledger] at h
  exact (returns_pure.mp h).2.symm

/-! ## A retirement that is over -/

namespace RetiringSource

def retireEnv : RetireEnv String where
  transfer := Importing.copyingEnv
  journal := StoredWorkspace.readyEnv
  discarded := fun _ => []

def detachedAck : ReceivedAcknowledgement where
  format := "httk-workflow-transfer-acknowledgement"
  signature := none
  body := Importing.detachedManifest.sequenceAck Importing.detachedManifest.destinationWorkspaceId

def sealedSource : RetiringSource String where
  ledger := some ⟨Importing.detachedManifest, .sealed⟩
  bundle := some Importing.detachedBundle
  retired := .absent
  jobSeal := none
  pendingJournal := []
  journal := ⟨[], List.nodup_nil⟩
  retention := .default

theorem sealedSource_sealed : sealedSource.Sealed retireEnv.transfer Importing.detachedManifest where
  ledger := rfl
  bundle := ⟨_, _, rfl, Importing.detachedBundle_valid⟩
  retired := rfl

theorem detachedAck_acknowledges : Acknowledges retireEnv.transfer Importing.detachedManifest detachedAck := ⟨rfl, rfl⟩

def Converges (env : RetireEnv ν) (ack : ReceivedAcknowledgement) (s : RetiringSource ν) : Prop :=
  ∃ s', Relation.TransGen (fun t t' => ∃ protects path,
      (acknowledgeTransfer env protects ack).Returns t path t') s s'
    ∧ s'.bundle = none ∧ ∃ l, s'.ledger = some l ∧ l.status.isRetired = true

theorem not_converges_of_reclaimed {s : RetiringSource ν} (hledger : s.ledger = none) : ¬Converges env ack s := by
  have hsame : ∀ s', Relation.TransGen (fun t t' => ∃ protects path,
      (acknowledgeTransfer env protects ack).Returns t path t') s s' → s' = s := by
    intro s' htries
    induction htries with
    | single h =>
      obtain ⟨protects, path, h⟩ := h
      exact acknowledge_reclaimed hledger h
    | tail _ h ih =>
      obtain ⟨protects, path, h⟩ := h
      rw [ih] at h
      exact acknowledge_reclaimed hledger h
  intro ⟨s', htries, hbundle, l, hl, hretired⟩
  rw [hsame s' htries, hledger] at hl
  cases hl

theorem sealedSource_aside : ∃ s : RetiringSource String, s.bundle = none
    ∧ s.ledger = some ⟨Importing.detachedManifest, .sealed⟩
    ∧ (acknowledgeTransfer retireEnv (fun _ => false) detachedAck).Visits sealedSource s
    ∧ s.retention = .default := by
  have hcrash : ∃ s ∈ (acknowledgeTransfer retireEnv (fun _ => false) detachedAck sealedSource).fst,
      s.bundle = none ∧ s.ledger = some ⟨Importing.detachedManifest, .sealed⟩
        ∧ s.retention = .default :=
    ⟨_, List.mem_cons_of_mem _ List.mem_cons_self, rfl, rfl, rfl⟩
  obtain ⟨s, hs, hbundle, hledger, hretention⟩ := hcrash
  exact ⟨s, hbundle, hledger, List.mem_cons_of_mem _ hs, hretention⟩

/-- **Under the default policy** a retirement ends without a ledger, and a collection may take a
bundle that was set aside before the ledger says so. -/
theorem retire_reclaims :
    (¬∀ (env : RetireEnv String) (m : TransferManifest) (ack : ReceivedAcknowledgement),
      Acknowledges env.transfer m ack → ∀ s, (retireRuns env m ack).Reachable s → Converges env ack s)
    ∧ ¬∀ (env : RetireEnv String) (m : TransferManifest) (ack : ReceivedAcknowledgement),
      Acknowledges env.transfer m ack → ∀ s, (retireRuns env m ack).Reachable s →
        ∃ protects path s', (acknowledgeTransfer env protects ack).Returns s path s' := by
  constructor
  · intro hall
    have hstep : (retireRuns retireEnv Importing.detachedManifest detachedAck).step sealedSource
        (.attempt fun _ => false)
        ((acknowledgeTransfer retireEnv (fun _ => false) detachedAck).final sealedSource) :=
      visits_final _ _
    have hreclaimed : ((acknowledgeTransfer retireEnv (fun _ => false) detachedAck).final
        sealedSource).ledger = none := rfl
    exact not_converges_of_reclaimed hreclaimed
      (hall _ _ _ detachedAck_acknowledges _ ((System.Reachable.init sealedSource_sealed).step hstep))
  · intro hall
    obtain ⟨s, hbundle, hledger, hvisits, hretention⟩ := sealedSource_aside
    have hstep : (retireRuns retireEnv Importing.detachedManifest detachedAck).step sealedSource
        (.attempt fun _ => false) s := hvisits
    obtain ⟨c, hc⟩ : ∃ c : RetiringSource String, c =
      { s with retired := .absent, journal := s.journal.restrict fun _ => true } := ⟨_, rfl⟩
    have hcollect : (retireRuns retireEnv Importing.detachedManifest detachedAck).step s
        (.collect .absent fun _ => true) c := by
      refine ⟨?_, fun htrash => absurd htrash (by rw [hretention]; exact Option.some_ne_none _), hc⟩
      cases s.retired with
      | absent => rfl
      | empty => rfl
      | holding t => trivial
    obtain ⟨protects, path, s', hreturns⟩ := hall _ _ _ detachedAck_acknowledges _
      (((System.Reachable.init sealedSource_sealed).step hstep).step hcollect)
    have hlost := acknowledge_lost detachedAck_acknowledges (show c.ledger = _ by rw [hc]; exact hledger)
      (show c.bundle = none by rw [hc]; exact hbundle) (by rw [hc]; rfl) protects
    exact hreturns.not_raises hlost

/-- A retirement killed right after the bundle was renamed, and the next one. -/
theorem retire_converges_aside : ∃ s : RetiringSource String, s.bundle = none
    ∧ s.ledger = some ⟨Importing.detachedManifest, .sealed⟩
    ∧ ∃ path s', (acknowledgeTransfer retireEnv (fun _ => false) detachedAck).Returns s path s'
      ∧ s'.Retired := by
  obtain ⟨s, hbundle, hledger, hvisits, -⟩ := sealedSource_aside
  have hstep : ((retireRuns retireEnv Importing.detachedManifest detachedAck).guarded
      SparesUndeclared).step sealedSource (.attempt fun _ => false) s := ⟨hvisits, trivial⟩
  exact ⟨s, hbundle, hledger, retire_converges detachedAck_acknowledges
    ((System.Reachable.init sealedSource_sealed).step hstep) fun _ => false⟩

end RetiringSource
