import HttkWorkflow.Ranges
import HttkWorkflow.Errors
import Mathlib.Data.List.TakeWhile

/-!
# Compact receipts of transfers

A workspace remembers the transfers it has imported by their numbers. Each
stream – a peer, or a peer and an epoch of its allocator – keeps the numbers
that have arrived as ranges, so that a transfer that is sent again is
recognised and nothing is stored of one that is over.

The question of replay protection is whether the ranges answer exactly: for
the transfers that were remembered, in whatever order and however often, and
for no others. Two transfers are the same here when their manifests name the
same peer, the same epoch and the same number. The file has one key a stream,
which writes the peer and the epoch in one text; that two streams never share
a key is because no id of a workspace has a slash in it.
-/

/-- **What the receipts read of a manifest.** -/
structure ReceiptManifest where
  /-- `str(manifest["source_workspace_id"])`. -/
  sourceWorkspaceId : PyStr
  transferEpoch : Option Json
  transferSequence : Option Json

/-- `received.json`: the ranges of each stream. -/
abbrev ReceivedStreams := Dict PyStr (List (ℕ × ℕ))

/-- `streams.get(peer, [])`. -/
def ReceivedStreams.ranges (streams : ReceivedStreams) (key : PyStr) : List (ℕ × ℕ) :=
  (Dict.get streams key).getD []

namespace ReceiptManifest

/-- **`sequence_of`**: the optional number, which is a positive integer. -/
def sequenceOf (manifest : ReceiptManifest) : Except Exc (Option ℕ) :=
  match manifest.transferSequence with
  | none => .ok none
  | some .null => .ok none
  | some (.int n) =>
    if n < 1 then raiseFormat [.lit "transfer_sequence must be a positive integer"] else .ok (some n.toNat)
  | some _ => raiseFormat [.lit "transfer_sequence must be a positive integer"]

/-- The caller has checked the source: the canonical text of a UUID has no slash in it. -/
def WellSourced (manifest : ReceiptManifest) : Prop := '/'.toNat ∉ manifest.sourceWorkspaceId.codes

instance (manifest : ReceiptManifest) : Decidable manifest.WellSourced :=
  inferInstanceAs (Decidable ('/'.toNat ∉ manifest.sourceWorkspaceId.codes))

section Streams

-- `str(uuid.UUID(text))`, where that parses
variable (uuid : PyStr → Option PyStr)

/-- **`epoch_of`**: the optional epoch, which is a canonical UUID. -/
def epochOf (manifest : ReceiptManifest) : Except Exc (Option PyStr) :=
  match manifest.transferEpoch with
  | none => .ok none
  | some .null => .ok none
  | some (.str epoch) =>
    if uuid epoch = some epoch then .ok (some epoch)
    else raiseFormat [.lit "transfer_epoch must be a canonical UUID"]
  | some _ => raiseFormat [.lit "transfer_epoch must be a canonical UUID"]

def keyOf (peer : PyStr) : Option PyStr → PyStr
  | none => peer
  | some epoch => peer ++ "/" ++ epoch

def streamKey (manifest : ReceiptManifest) : Except Exc PyStr := do
  let epoch ← epochOf uuid manifest
  return keyOf manifest.sourceWorkspaceId epoch

def received (streams : ReceivedStreams) (manifest : ReceiptManifest) : Except Exc Bool := do
  match ← manifest.sequenceOf with
  | none => return false
  | some sequence =>
    let key ← streamKey uuid manifest
    return Ranges.covers (streams.ranges key) sequence

def remember (streams : ReceivedStreams) (manifest : ReceiptManifest) : Except Exc ReceivedStreams := do
  match ← manifest.sequenceOf with
  | none => return streams
  | some sequence =>
    let peer ← streamKey uuid manifest
    return Dict.set streams peer (Ranges.insert (streams.ranges peer) sequence)

/-- **Calls of `remember`**, one after the other. -/
def rememberAll (streams : ReceivedStreams) : List ReceiptManifest → Except Exc ReceivedStreams
  | [] => .ok streams
  | manifest :: manifests => do
    let streams ← remember uuid streams manifest
    rememberAll streams manifests

/-- The manifest has a number, and this is the key of its stream. -/
structure Numbered (manifest : ReceiptManifest) (key : PyStr) (n : ℕ) : Prop where
  sequence : manifest.sequenceOf = .ok (some n)
  stream : streamKey uuid manifest = .ok key

/-- **Two manifests of one transfer**: the same peer, the same epoch and the same number. -/
structure SameTransfer (m m' : ReceiptManifest) : Prop where
  source : m.sourceWorkspaceId = m'.sourceWorkspaceId
  epoch : epochOf uuid m = epochOf uuid m'
  sequence : ∃ n, m.sequenceOf = .ok (some n) ∧ m'.sequenceOf = .ok (some n)

end Streams

variable {uuid : PyStr → Option PyStr}

variable {m : ReceiptManifest}

variable {key : PyStr}

theorem streamKey_eq_ok :
    streamKey uuid m = .ok key ↔ ∃ epoch, epochOf uuid m = .ok epoch ∧ keyOf m.sourceWorkspaceId epoch = key := by
  unfold streamKey
  cases epochOf uuid m with
  | error e => exact ⟨fun h => (by cases h), fun ⟨_, h, _⟩ => (by cases h)⟩
  | ok epoch => exact ⟨fun h => ⟨epoch, rfl, Except.ok.inj h⟩, fun ⟨_, h, h'⟩ => (by rw [Except.ok.inj h, ← h']; rfl)⟩

/-! ## One key a stream -/

theorem takeWhile_keyOf {peer : PyStr} (h : '/'.toNat ∉ peer.codes) (epoch : Option PyStr) :
    (keyOf peer epoch).codes.takeWhile (· ≠ '/'.toNat) = peer.codes := by
  have hpeer : ∀ c ∈ peer.codes, (decide (c ≠ '/'.toNat)) = true := fun c hc =>
    decide_eq_true fun heq => h (heq ▸ hc)
  cases epoch with
  | none => exact List.takeWhile_eq_self_iff.mpr hpeer
  | some epoch =>
    show ((peer.codes ++ ['/'.toNat]) ++ epoch.codes).takeWhile (· ≠ '/'.toNat) = peer.codes
    rw [List.append_assoc, List.takeWhile_append_of_pos hpeer]
    simp

theorem keyOf_inj {peer peer' : PyStr} (h : '/'.toNat ∉ peer.codes) (h' : '/'.toNat ∉ peer'.codes)
    {epoch epoch' : Option PyStr} (heq : keyOf peer epoch = keyOf peer' epoch') : peer = peer' ∧ epoch = epoch' := by
  have hcodes : peer.codes = peer'.codes := by rw [← takeWhile_keyOf h epoch, heq, takeWhile_keyOf h' epoch']
  obtain rfl : peer = peer' := by
    cases peer
    cases peer'
    exact congrArg PyStr.mk hcodes
  have hrest : (keyOf peer epoch).codes = (keyOf peer epoch').codes := congrArg PyStr.codes heq
  have hkey : ∀ e : PyStr, (keyOf peer (some e)).codes = peer.codes ++ '/'.toNat :: e.codes := fun e => by
    show (peer.codes ++ ['/'.toNat]) ++ e.codes = _
    rw [List.append_assoc, List.singleton_append]
  have hnone : (keyOf peer none).codes = peer.codes ++ [] := (List.append_nil _).symm
  refine ⟨rfl, ?_⟩
  cases epoch with
  | none =>
    cases epoch' with
    | none => rfl
    | some e' => rw [hkey, hnone] at hrest; cases List.append_cancel_left hrest
  | some e =>
    cases epoch' with
    | none => rw [hkey, hnone] at hrest; cases List.append_cancel_left hrest
    | some e' =>
      rw [hkey, hkey] at hrest
      have htail := (List.cons.inj (List.append_cancel_left hrest)).2
      cases e
      cases e'
      exact congrArg (fun codes => some (PyStr.mk codes)) htail

theorem sameTransfer_of_numbered {m m' : ReceiptManifest} (hm : m.WellSourced) (hm' : m'.WellSourced)
    {n : ℕ} (h : Numbered uuid m key n) (h' : Numbered uuid m' key n) : SameTransfer uuid m m' := by
  obtain ⟨epoch, hepoch, hkey⟩ := streamKey_eq_ok.mp h.stream
  obtain ⟨epoch', hepoch', hkey'⟩ := streamKey_eq_ok.mp h'.stream
  obtain ⟨hsource, rfl⟩ := keyOf_inj hm hm' (hkey.trans hkey'.symm)
  exact ⟨hsource, hepoch.trans hepoch'.symm, n, h.sequence, h'.sequence⟩

theorem SameTransfer.numbered {m m' : ReceiptManifest} (h : SameTransfer uuid m m') {n : ℕ}
    (hn : Numbered uuid m' key n) : Numbered uuid m key n := by
  obtain ⟨epoch, hepoch, hkey⟩ := streamKey_eq_ok.mp hn.stream
  obtain ⟨k, hk, hk'⟩ := h.sequence
  rw [hn.sequence] at hk'
  refine ⟨?_, streamKey_eq_ok.mpr ⟨epoch, h.epoch.trans hepoch, h.source ▸ hkey⟩⟩
  rw [hk, ← hk']

/-! ## What is remembered -/

@[simp] theorem ranges_nil (key : PyStr) : ReceivedStreams.ranges [] key = [] := rfl

theorem ranges_set (streams : ReceivedStreams) (key key' : PyStr) (l : List (ℕ × ℕ)) :
    ReceivedStreams.ranges (Dict.set streams key l) key' = if key' = key then l else streams.ranges key' := by
  unfold ReceivedStreams.ranges
  rw [Dict.get_set]
  split_ifs <;> rfl

variable {streams streams' : ReceivedStreams}

theorem remember_cases (h : remember uuid streams m = .ok streams') : (m.sequenceOf = .ok none ∧ streams' = streams) ∨
      ∃ key n, Numbered uuid m key n ∧ streams' = Dict.set streams key (Ranges.insert (streams.ranges key) n) := by
  unfold remember at h
  cases hsequence : m.sequenceOf with
  | error e => rw [hsequence] at h; cases h
  | ok sequence =>
    rw [hsequence] at h
    cases sequence with
    | none => exact Or.inl ⟨rfl, (Except.ok.inj h).symm⟩
    | some n =>
      cases hkey : streamKey uuid m with
      | error e => simp only [hkey] at h; cases h
      | ok key =>
        simp only [hkey] at h
        exact Or.inr ⟨key, n, ⟨hsequence, hkey⟩, (Except.ok.inj h).symm⟩

theorem covers_remember (h : remember uuid streams m = .ok streams') (key : PyStr) (n : ℕ) :
    Ranges.covers (streams'.ranges key) n = true
      ↔ Ranges.covers (streams.ranges key) n = true ∨ Numbered uuid m key n := by
  obtain ⟨hnone, rfl⟩ | ⟨key', n', hn', rfl⟩ := remember_cases h
  · have hno : ¬Numbered uuid m key n := fun hn => by
      rw [hn.sequence] at hnone
      cases hnone
    rw [or_iff_left hno]
  · have hunique : Numbered uuid m key n ↔ key = key' ∧ n = n' := by
      constructor
      · intro hn
        have hkeys := hn.stream.symm.trans hn'.stream
        have hnumbers := hn.sequence.symm.trans hn'.sequence
        exact ⟨Except.ok.inj hkeys, Option.some.inj (Except.ok.inj hnumbers)⟩
      · rintro ⟨rfl, rfl⟩
        exact hn'
    rw [ranges_set, hunique]
    split_ifs with hkey
    · subst hkey
      rw [Ranges.covers_insert, and_iff_right rfl]
    · rw [or_iff_left fun hand => hkey hand.1]

theorem apart_remember (h : remember uuid streams m = .ok streams') (hapart : ∀ key, Ranges.Apart
    (streams.ranges key)) (key : PyStr) :
    Ranges.Apart (streams'.ranges key) := by
  obtain ⟨-, rfl⟩ | ⟨key', n', -, rfl⟩ := remember_cases h
  · exact hapart key
  · rw [ranges_set]
    split_ifs
    · exact Ranges.apart_insert (hapart key').nonempty n'
    · exact hapart key

variable {ms : List ReceiptManifest}

theorem rememberAll_cons_ok (h : rememberAll uuid streams (m :: ms) = .ok streams') :
    ∃ next, remember uuid streams m = .ok next ∧ rememberAll uuid next ms = .ok streams' := by
  rw [rememberAll] at h
  cases hm : remember uuid streams m with
  | error e => rw [hm] at h; cases h
  | ok next => exact ⟨next, rfl, by rw [hm] at h; exact h⟩

theorem covers_rememberAll (h : rememberAll uuid streams ms = .ok streams') (key : PyStr) (n : ℕ) :
    Ranges.covers (streams'.ranges key) n = true
      ↔ Ranges.covers (streams.ranges key) n = true ∨ ∃ m ∈ ms, Numbered uuid m key n := by
  induction ms generalizing streams with
  | nil =>
    obtain rfl := Except.ok.inj h
    simp
  | cons m ms ih =>
    obtain ⟨next, hm, hms⟩ := rememberAll_cons_ok h
    rw [ih hms, covers_remember hm, List.exists_mem_cons_iff, or_assoc]

theorem apart_rememberAll (h : rememberAll uuid streams ms = .ok streams')
    (hapart : ∀ key, Ranges.Apart (streams.ranges key)) (key : PyStr) :
    Ranges.Apart (streams'.ranges key) := by
  induction ms generalizing streams with
  | nil =>
    obtain rfl := Except.ok.inj h
    exact hapart key
  | cons m ms ih =>
    obtain ⟨next, hm, hms⟩ := rememberAll_cons_ok h
    exact ih hms (apart_remember hm hapart)

theorem received_eq_ok {streams : ReceivedStreams} {answer : Bool} (h : received uuid streams m = .ok answer) :
    answer = true ↔ ∃ key n, Numbered uuid m key n ∧ Ranges.covers (streams.ranges key) n = true := by
  unfold received at h
  cases hsequence : m.sequenceOf with
  | error e => rw [hsequence] at h; cases h
  | ok sequence =>
    rw [hsequence] at h
    cases sequence with
    | none =>
      obtain rfl : false = answer := Except.ok.inj h
      refine ⟨fun hfalse => (by cases hfalse), ?_⟩
      rintro ⟨key, n, hn, -⟩
      have hnone := hn.sequence.symm.trans hsequence
      cases hnone
    | some n =>
      cases hkey : streamKey uuid m with
      | error e => simp only [hkey] at h; cases h
      | ok key =>
        simp only [hkey] at h
        obtain rfl : Ranges.covers (streams.ranges key) n = answer := Except.ok.inj h
        refine ⟨fun hcovers => ⟨key, n, ⟨hsequence, hkey⟩, hcovers⟩, ?_⟩
        rintro ⟨key', n', hn', hcovers⟩
        obtain rfl : key = key' := Except.ok.inj (hkey.symm.trans hn'.stream)
        obtain rfl : n = n' := Option.some.inj (Except.ok.inj (hsequence.symm.trans hn'.sequence))
        exact hcovers

/-- **Receipts are exact.** After any calls of `remember` on an empty file, a transfer is
received if and only if it was remembered, and the ranges of every stream are sorted, disjoint
and not adjacent. -/
theorem received_iff_remembered {ms : List ReceiptManifest} {streams : ReceivedStreams}
    (hms : ∀ m ∈ ms, m.WellSourced) (hrun : rememberAll uuid [] ms = .ok streams) :
    (∀ m : ReceiptManifest, m.WellSourced → ∀ answer, received uuid streams m = .ok answer →
      (answer = true ↔ ∃ m' ∈ ms, SameTransfer uuid m' m)) ∧
    ∀ key, Ranges.Apart (streams.ranges key) := by
  refine ⟨fun m hm answer hanswer => ?_, apart_rememberAll hrun fun _ => Ranges.apart_nil⟩
  rw [received_eq_ok hanswer]
  constructor
  · rintro ⟨key, n, hn, hcovers⟩
    rcases (covers_rememberAll hrun key n).mp hcovers with hempty | ⟨m', hm', hn'⟩
    · cases hempty
    · exact ⟨m', hm', sameTransfer_of_numbered (hms m' hm') hm hn' hn⟩
  · rintro ⟨m', hm', hsame⟩
    obtain ⟨n, -, hn⟩ := hsame.sequence
    -- the asked manifest has a key, for otherwise the question would have raised
    cases hkey : streamKey uuid m with
    | error e =>
      unfold received at hanswer
      rw [hn] at hanswer
      simp only [hkey] at hanswer
      cases hanswer
    | ok key =>
      have hnumbered : Numbered uuid m key n := ⟨hn, hkey⟩
      exact ⟨key, n, hnumbered,
        (covers_rememberAll hrun key n).mpr (Or.inr ⟨m', hm', hsame.numbered hnumbered⟩)⟩

def numberedOf (n : ℤ) : ReceiptManifest := ⟨"p", none, some (.int n)⟩

/-- Three transfers, the last of which closes the gap between the others. -/
theorem received_iff_remembered_bridged :
    (∃ streams, rememberAll some [] [numberedOf 1, numberedOf 3, numberedOf 1, numberedOf 2] = .ok streams ∧
      streams.ranges "p" = [(1, 3)] ∧
      ∀ key, Ranges.Apart (streams.ranges key)) := by
  have hrun : rememberAll some [] [numberedOf 1, numberedOf 3, numberedOf 1, numberedOf 2]
      = .ok [(PyStr.ofString "p", [(1, 3)])] := rfl
  exact ⟨_, hrun, by decide, (received_iff_remembered (by decide) hrun).2⟩

end ReceiptManifest
