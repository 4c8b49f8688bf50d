import HttkWorkflow.Detach

/-!
# What an import installs

An import of a bundle publishes one marker, if any: the one its manifest tells
of, over a frame of the manifest's state, with a payload of the manifest's
digest (`importBundle_imports`). It may find the payload staged or in place
already, left by an import that stopped, and takes it if the digest is right.

The digest is of the entries that are the job's own (`PayloadTree.covered`), so
that what comes and goes in the transfer directory leaves it.
-/

open Effects

variable {ν : Type}

/-! ## What the digest is of -/

namespace PayloadTree

def covered (t : PayloadTree ν) : List (List PyStr × Entry ν) :=
  t.entries.filter fun e => !excludedFromBundle e.fst

variable {p : List PyStr}

theorem excluded_of_head (h : p.head? = some transferDirectory) : excludedFromBundle p = true := by
  cases p with
  | nil => rfl
  | cons name p =>
    obtain rfl := Option.some.inj h
    show (transferDirectory == transferDirectory || isPayloadPrivate transferDirectory) = true
    rw [beq_self_eq_true, Bool.true_or]

theorem covered_filter {t t' : PayloadTree ν} (keep : List PyStr → Bool)
    (ht : t'.entries = t.entries.filter fun e => keep e.fst)
    (h : ∀ p, keep p = false → excludedFromBundle p = true) : t'.covered = t.covered := by
  unfold covered
  rw [ht, List.filter_filter]
  refine List.filter_congr fun e _ => ?_
  cases hkeep : keep e.fst with
  | true => rw [Bool.and_true]
  | false => rw [h _ hkeep, Bool.and_false, Bool.not_true]

variable {t : PayloadTree ν}

theorem covered_erase (h : excludedFromBundle p = true) : (t.erase p).covered = t.covered := by
  refine covered_filter (fun q => q ≠ p) rfl fun q hq => ?_
  rwa [not_not.mp (of_decide_eq_false hq)]

theorem covered_withoutTransfer (t : PayloadTree ν) : t.withoutTransfer.covered = t.covered := by
  refine covered_filter (fun q => q.head? ≠ some transferDirectory) rfl fun q hq => ?_
  exact excluded_of_head (not_not.mp (of_decide_eq_false hq))

theorem covered_write {e : Entry ν} (h : excludedFromBundle p = true) : (t.write p e).covered = t.covered := by
  have hself : [(p, e)].filter (fun e => !excludedFromBundle e.fst) = [] := by
    rw [List.filter_cons_of_neg (by rw [h]; decide), List.filter_nil]
  show ((t.erase p).entries ++ [(p, e)]).filter _ = _
  rw [List.filter_append, hself, List.append_nil]
  exact covered_erase h

theorem covered_removeTree {name : PyStr}
    (h : name = transferDirectory) : (t.removeTree (name :: p)).covered = t.covered := by
  refine covered_filter (fun q => !(name :: p).isPrefixOf q) rfl fun q hq => ?_
  obtain ⟨rest, rfl⟩ := List.isPrefixOf_iff_prefix.mp (by rwa [Bool.not_eq_eq_eq_not] at hq)
  exact excluded_of_head (congrArg some h)

end PayloadTree

/-- **The digest is of the covered entries.** -/
theorem payloadDigest_congr {env : TransferEnv ν} {t t' : PayloadTree ν}
    (h : t'.covered = t.covered) : payloadDigest env t' = payloadDigest env t := by
  have hentries : (t'.entries.filter fun e => !excludedFromBundle e.fst)
      = t.entries.filter fun e => !excludedFromBundle e.fst := h
  unfold payloadDigest
  rw [hentries]

/-! ## What an import installs -/

/-- The markers, the journal and the identity of a workspace are as before. -/
structure Destination.Unmoved (d f : Destination ν) : Prop where
  workspaceId : f.workspaceId = d.workspaceId
  markers : f.markers = d.markers
  journal : f.journal = d.journal

/-- **The marker of an import is there**, with its frame. -/
structure Destination.Installed (m : TransferManifest) (d f : Destination ν) (n : ℕ) : Prop where
  workspaceId : f.workspaceId = d.workspaceId
  markers : f.markers = d.markers ++ [m.importedMarker (.frame n)]
  frame : f.journal[n]? = some (m.importedFrame d.workspaceId)

/-- An import left the markers as they were, or installed the job's with its payload. -/
def Destination.Imported (env : TransferEnv ν) (m : TransferManifest) (d f : Destination ν) : Prop :=
  d.Unmoved f ∨ ∃ n, Destination.Installed m d f n
    ∧ ∃ t, f.payloads m.payloadKey = some t ∧ payloadDigest env t = .ok m.payloadSha256

namespace Importing

variable {env : TransferEnv ν} {bundle t : PayloadTree ν} {m : TransferManifest}
variable {d f g : Destination ν}

/-- An effect on none of the three keeps what is said of them. -/
structure Beside (P : Destination ν → Prop) : Prop where
  setRunner : ∀ f p digest, P f → P (f.setRunner p digest)
  setStaging : ∀ f id t, P f → P (f.setStaging id t)
  setSeal : ∀ f key c, P f → P (f.setSeal key c)
  setAck : ∀ f id ack, P f → P (f.setAck id ack)
  forget : ∀ f id, P f → P (f.forget id)
  record : ∀ f id, P f → P (f.record id)
  remember : ∀ f received, P f → P { f with received := received }

theorem beside_unmoved : Beside (Destination.Unmoved d) where
  setRunner := fun _ _ _ h => ⟨h.1, h.2, h.3⟩
  setStaging := fun _ _ _ h => ⟨h.1, h.2, h.3⟩
  setSeal := fun _ _ _ h => ⟨h.1, h.2, h.3⟩
  setAck := fun _ _ _ h => ⟨h.1, h.2, h.3⟩
  forget := fun _ _ h => ⟨h.1, h.2, h.3⟩
  record := fun _ _ h => ⟨h.1, h.2, h.3⟩
  remember := fun _ _ h => ⟨h.1, h.2, h.3⟩

/-- What an import installed stays, once the payload is in place. -/
def Delivered (env : TransferEnv ν) (m : TransferManifest) (d f : Destination ν) : Prop :=
  ∃ n, Destination.Installed m d f n
    ∧ ∃ t, f.payloads m.payloadKey = some t ∧ payloadDigest env t = .ok m.payloadSha256

theorem beside_delivered : Beside (Delivered env m d) where
  setRunner := fun _ _ _ ⟨n, h, ht⟩ => ⟨n, ⟨h.1, h.2, h.3⟩, ht⟩
  setStaging := fun _ _ _ ⟨n, h, ht⟩ => ⟨n, ⟨h.1, h.2, h.3⟩, ht⟩
  setSeal := fun _ _ _ ⟨n, h, ht⟩ => ⟨n, ⟨h.1, h.2, h.3⟩, ht⟩
  setAck := fun _ _ _ ⟨n, h, ht⟩ => ⟨n, ⟨h.1, h.2, h.3⟩, ht⟩
  forget := fun _ _ ⟨n, h, ht⟩ => ⟨n, ⟨h.1, h.2, h.3⟩, ht⟩
  record := fun _ _ ⟨n, h, ht⟩ => ⟨n, ⟨h.1, h.2, h.3⟩, ht⟩
  remember := fun _ _ ⟨n, h, ht⟩ => ⟨n, ⟨h.1, h.2, h.3⟩, ht⟩

/-! Effects beside the markers keep what they are beside. -/

section Keeping

variable {P : Destination ν → Prop}

/-- A property that every state of a computation has. -/
abbrev Kept {α : Type} (P : Destination ν → Prop) (x : Importing ν α) : Prop :=
  Crashing P x (fun _ => P) P

theorem kept_once {put : Destination ν → Destination ν} (h : ∀ f, P f → P (put f)) :
    Kept P (effect put) := Crashing.once (fun _ hf => hf) h h

theorem installRunner_kept (hP : Beside P) (r : List PyStr × String) : Kept P (installRunner env bundle r) := by
  refine Crashing.look fun f hf => ?_
  split
  · split_ifs
    · exact Crashing.ret (fun _ h => h ▸ hf) fun _ h => h ▸ hf
    · exact Crashing.throw fun _ h => h ▸ hf
  · split
    case _ | _ =>
      split_ifs
      · exact Crashing.throw fun _ h => h ▸ hf
      · refine Crashing.seq (R := fun _ => P) (Crashing.check (fun _ h => h ▸ hf) fun _ _ _ h => h ▸ hf)
          fun digest => kept_once fun f => hP.setRunner f _ digest
    · exact Crashing.throw fun _ h => h ▸ hf

theorem installSeal_kept (hP : Beside P) : Kept P (installSeal env m t) := by
  unfold installSeal
  split
  · exact Crashing.ret (fun _ h => h) fun _ h => h
  · split
    · exact Crashing.throw fun _ h => h
    · rename_i carried hcarried
      refine Crashing.look fun f hf => ?_
      split
      · split_ifs
        · exact Crashing.ret (fun _ h => h ▸ hf) fun _ h => h ▸ hf
        · exact Crashing.throw fun _ h => h ▸ hf
      · exact (kept_once fun f => hP.setSeal f m.jobKey carried).conseq (fun _ h => h ▸ hf)
          (fun _ _ h => h) fun _ h => h

theorem acknowledge_kept (hP : Beside P) (ack : Acknowledgement) : Kept P (acknowledge ack) :=
  (kept_once fun f => hP.setAck f _ _).seq fun _ => Crashing.ret (fun _ h => h) fun _ h => h

theorem pruneReceipts_kept (hP : Beside P) : Kept P (pruneReceipts m) :=
  (kept_once fun f => hP.setAck f _ _).seq fun _ => kept_once fun f => hP.forget f _

theorem remember_kept (hP : Beside P) : Kept P (effect (ν := ν) (·.remember m)) := by
  refine kept_once fun f hf => ?_
  unfold Destination.remember
  split
  · exact hf
  · exact hP.remember f _ hf

theorem copyTree_kept (hP : Beside P) (id : String) : Kept P (copyTree env id bundle) :=
  Crashing.all fun t _ => kept_once fun f => hP.setStaging f id (some t)

theorem stage_kept (hP : Beside P) : Kept P (stage env bundle m) := by
  refine Crashing.look fun f hf => ?_
  split
  · refine Crashing.seq (R := fun _ => P) (Crashing.check (fun _ h => h ▸ hf) fun _ _ _ h => h ▸ hf) fun m' => ?_
    split_ifs
    · exact Crashing.throw fun _ h => h
    · exact Crashing.ret (fun _ h => h) fun _ h => h
  · exact (copyTree_kept hP m.transferId).conseq (fun _ h => h ▸ hf) (fun _ _ h => h) fun _ h => h

variable {key : List String × JobKey}

theorem unmoved_setPayload (h : d.Unmoved f) : d.Unmoved (f.setPayload key t) := ⟨h.1, h.2, h.3⟩

theorem removeTransfer_kept : Kept (Destination.Unmoved d) (removeTransfer env key t) :=
  Crashing.all fun _ _ => kept_once fun _ h => unmoved_setPayload h

end Keeping

/-- The payload is in place, with the digest the manifest names. -/
def Placing (env : TransferEnv ν) (m : TransferManifest) (d f : Destination ν) : Prop :=
  d.Unmoved f ∧ ∃ t, f.payloads m.payloadKey = some t ∧ payloadDigest env t = .ok m.payloadSha256

theorem publishStaged_places :
    Crashing (Destination.Unmoved d) (publishStaged env m) (fun _ => Placing env m d) fun _ => True := by
  refine Crashing.look fun f hf => ?_
  split
  · exact Crashing.throw fun _ _ => trivial
  · rename_i staged hstaged
    refine Crashing.seq (R := fun digest s => s = f ∧ payloadDigest env staged = .ok digest)
      (Crashing.check (fun _ _ => trivial) fun digest _ hdigest h => ⟨h, hdigest⟩) fun digest => ?_
    show Crashing _ (if digest ≠ m.payloadSha256 then _ else _) _ _
    split_ifs with hne
    · exact Crashing.throw fun _ _ => trivial
    · refine Crashing.once (fun _ _ => trivial) (fun _ _ => trivial) ?_
      rintro s ⟨rfl, hdigest⟩
      obtain rfl : digest = m.payloadSha256 := not_not.mp hne
      exact ⟨⟨hf.1, hf.2, hf.3⟩, staged, Function.update_self _ _ _, hdigest⟩

theorem placeBundle_places : Crashing (Destination.Unmoved d) (placeBundle env bundle m) (fun _ => Placing env m d)
      fun _ => True := by
  refine Crashing.look fun f hf => ?_
  split
  · rename_i target htarget
    refine Crashing.seq (R := fun m' s => s = f ∧ validateBundle env target = .ok m')
      (Crashing.check (fun _ _ => trivial) fun _ _ hm' h => ⟨h, hm'⟩) fun m' => ?_
    split_ifs with hne
    · exact Crashing.throw fun _ _ => trivial
    · refine Crashing.ret (fun _ _ => trivial) ?_
      rintro s ⟨rfl, hm'⟩
      exact ⟨hf, target, htarget, not_not.mp hne ▸ (validateBundle_eq_ok hm').digest⟩
  · exact ((stage_kept beside_unmoved).conseq (fun _ h => h ▸ hf) (fun _ _ h => h) fun _ _ => trivial).seq
      fun _ => publishStaged_places

theorem publishMarker_delivers :
    Crashing (Placing env m d) (publishMarker m) (fun _ => Delivered env m d) fun _ => True := by
  refine Crashing.look fun f hf => ?_
  obtain ⟨hunmoved, t, ht, hdigest⟩ := hf
  refine Crashing.seq (R := fun _ s => s = f.append (m.importedFrame f.workspaceId))
    (Crashing.once (fun _ _ => trivial) (fun _ _ => trivial) fun _ h => by rw [h]) fun _ => ?_
  rw [ht]
  split_ifs
  · exact Crashing.throw fun _ _ => trivial
  · show Crashing _ (if _ then _ else _) _ _
    split_ifs
    · exact Crashing.throw fun _ _ => trivial
    · refine Crashing.once (fun _ _ => trivial) (fun _ _ => trivial) ?_
      rintro s rfl
      have hframe : (f.journal ++ [m.importedFrame f.workspaceId])[f.journal.length]?
          = some (m.importedFrame d.workspaceId) := by
        rw [List.getElem?_append_right (Nat.le_refl _), Nat.sub_self, hunmoved.workspaceId]
        rfl
      have herased : (t.erase m.markerPath).covered = t.covered :=
        PayloadTree.covered_erase (PayloadTree.excluded_of_head rfl)
      exact ⟨f.journal.length, ⟨hunmoved.workspaceId, congrArg (· ++ _) hunmoved.markers, hframe⟩,
        t.erase m.markerPath, Function.update_self _ _ _, (payloadDigest_congr herased).trans hdigest⟩

theorem finishPayload_delivers :
    Crashing (Delivered env m d) (finishPayload env m m.payloadKey true) (fun _ => Delivered env m d)
      fun _ => True := by
  refine Crashing.look fun f hf => ?_
  obtain ⟨n, hinstalled, t, ht, hdigest⟩ := hf
  rw [ht]
  simp only [Bool.true_or, if_true]
  have hput : ∀ t', payloadDigest env t' = .ok m.payloadSha256 → ∀ g,
      Destination.Installed m d g n → Delivered env m d (g.setPayload m.payloadKey t') :=
    fun t' ht' g hg => ⟨n, ⟨hg.1, hg.2, hg.3⟩, t', Function.update_self _ _ _, ht'⟩
  have hbeside : Beside fun g => Destination.Installed m d g n :=
    ⟨fun _ _ _ h => ⟨h.1, h.2, h.3⟩, fun _ _ _ h => ⟨h.1, h.2, h.3⟩, fun _ _ _ h => ⟨h.1, h.2, h.3⟩,
      fun _ _ _ h => ⟨h.1, h.2, h.3⟩, fun _ _ h => ⟨h.1, h.2, h.3⟩, fun _ _ h => ⟨h.1, h.2, h.3⟩,
      fun _ _ h => ⟨h.1, h.2, h.3⟩⟩
  refine Crashing.seq (R := fun _ g => Destination.Installed m d g n) ((installSeal_kept hbeside).conseq
    (S := (· = f)) (fun _ h => h ▸ hinstalled) (fun _ _ h => h) fun _ _ => trivial) fun _ => ?_
  refine Crashing.last (P := fun g => Destination.Installed m d g n) (fun t' _ => ?_) ?_
  · exact Crashing.once (fun _ _ => trivial) (fun _ _ => trivial) fun g hg => ⟨hg.1, hg.2, hg.3⟩
  · exact Crashing.once (fun _ _ => trivial) (fun _ _ => trivial) fun g hg =>
      hput _ ((payloadDigest_congr t.covered_withoutTransfer).trans hdigest) g hg

theorem importAbsent_delivers :
    Crashing (Destination.Unmoved d) (importAbsent env bundle m) (fun _ => Delivered env m d)
      fun _ => True := by
  refine placeBundle_places.seq fun _ => ?_
  split_ifs
  · exact Crashing.throw fun _ _ => trivial
  · refine publishMarker_delivers.seq fun _ => ?_
    refine ((kept_once fun f hf => beside_delivered.record f _ hf).conseq (fun _ h => h) (fun _ _ h => h)
      fun _ _ => trivial).seq fun _ => ?_
    refine finishPayload_delivers.seq fun _ => Crashing.look fun f hf => ?_
    exact (acknowledge_kept beside_delivered _).conseq (fun _ h => h ▸ hf) (fun _ _ h => h) fun _ _ => trivial

theorem acknowledgeDuplicate_unmoved {mk : Marker} : Crashing (Destination.Unmoved d) (acknowledgeDuplicate env m mk)
      (fun _ => Destination.Unmoved d) fun _ => True := by
  refine Crashing.look fun f hf => ?_
  refine Crashing.seq (R := fun _ s => s = f) (Crashing.check (fun _ _ => trivial) fun _ _ _ h => h) fun state => ?_
  split
  · exact Crashing.throw fun _ _ => trivial
  · split_ifs
    · exact Crashing.throw fun _ _ => trivial
    · exact Crashing.throw fun _ _ => trivial
    · have hfinish : Kept (Destination.Unmoved d) (finishPayload env m (mk.placement, mk.jobKey) false) := by
        refine Crashing.look fun g hg => ?_
        split
        · split_ifs
          · exact (((installSeal_kept beside_unmoved).seq fun _ => removeTransfer_kept)).conseq
              (fun _ h => h ▸ hg) (fun _ _ h => h) fun _ h => h
          · exact Crashing.ret (fun _ h => h ▸ hg) fun _ h => h ▸ hg
        · exact Crashing.ret (fun _ h => h ▸ hg) fun _ h => h ▸ hg
      exact (hfinish.seq fun _ => acknowledge_kept beside_unmoved _).conseq (fun _ h => h ▸ hf)
        (fun _ _ h => h) fun _ _ => trivial

theorem importKnown_imports (hbundle : validateBundle env bundle = .ok m) {known : Option Marker} :
    Crashing (Destination.Unmoved d) (importKnown env bundle known) (fun _ => d.Imported env m)
      fun _ => True := by
  refine Crashing.seq (R := fun m' s => d.Unmoved s ∧ m' = m) (Crashing.check (fun _ _ => trivial)
    fun m' s hm' h => ⟨h, Except.ok.inj (hm'.symm.trans hbundle)⟩) fun m' => ?_
  refine Crashing.look ?_
  rintro f ⟨hf, rfl⟩
  split
  · split_ifs
    · exact Crashing.throw fun _ _ => trivial
    · exact Crashing.ret (fun _ _ => trivial) fun _ h => h ▸ Or.inl hf
  · split_ifs
    · exact Crashing.throw fun _ _ => trivial
    · refine Crashing.seq (R := fun _ s => d.Unmoved s)
        (Crashing.check (fun _ _ => trivial) fun _ _ _ h => h ▸ hf) fun _ => ?_
      refine ((Crashing.all fun r _ => installRunner_kept beside_unmoved r).conseq (fun _ h => h)
        (fun _ _ h => h) fun _ _ => trivial).seq fun _ => ?_
      cases known with
      | none => exact importAbsent_delivers.conseq (fun _ h => h) (fun _ _ h => Or.inr h) fun _ h => h
      | some mk =>
        exact acknowledgeDuplicate_unmoved.conseq (fun _ h => h) (fun _ _ h => Or.inl h) fun _ h => h

theorem beside_imported : Beside (d.Imported env m) where
  setRunner := fun f p digest h => h.imp (beside_unmoved.setRunner f p digest) (beside_delivered.setRunner f p digest)
  setStaging := fun f id t h => h.imp (beside_unmoved.setStaging f id t) (beside_delivered.setStaging f id t)
  setSeal := fun f key c h => h.imp (beside_unmoved.setSeal f key c) (beside_delivered.setSeal f key c)
  setAck := fun f id ack h => h.imp (beside_unmoved.setAck f id ack) (beside_delivered.setAck f id ack)
  forget := fun f id h => h.imp (beside_unmoved.forget f id) (beside_delivered.forget f id)
  record := fun f id h => h.imp (beside_unmoved.record f id) (beside_delivered.record f id)
  remember := fun f received h =>
    h.imp (beside_unmoved.remember f received) (beside_delivered.remember f received)

theorem importBundle_imports (hbundle : validateBundle env bundle = .ok m) {ack : Acknowledgement}
    (h : (importBundle env bundle).Returns d ack g) : d.Imported env m g := by
  have hall : Crashing (Destination.Unmoved d) (importBundle env bundle) (fun _ => d.Imported env m)
      fun _ => True := by
    refine Crashing.seq (R := fun m' s => d.Unmoved s ∧ m' = m) (Crashing.check (fun _ _ => trivial)
      fun m' s hm' h => ⟨h, Except.ok.inj (hm'.symm.trans hbundle)⟩) fun m' => ?_
    refine Crashing.look ?_
    rintro f ⟨hf, rfl⟩
    split_ifs
    · exact Crashing.throw fun _ _ => trivial
    · refine Crashing.seq (R := fun _ => d.Unmoved)
        (Crashing.check (fun _ _ => trivial) fun _ _ _ h => h ▸ hf) fun known => ?_
      refine Crashing.seq (R := fun _ => d.Unmoved)
        (Crashing.check (fun _ _ => trivial) fun _ _ _ h => h) fun sequence => ?_
      split
      · exact importKnown_imports hbundle
      · refine Crashing.seq (R := fun _ => d.Unmoved)
          (Crashing.check (fun _ _ => trivial) fun _ _ _ h => h) fun _ => ?_
        refine Crashing.seq (R := fun _ => d.Unmoved)
          (Crashing.check (fun _ _ => trivial) fun _ _ _ h => h) fun _ => ?_
        have hreceive : Crashing d.Unmoved (receive env bundle m' known) (fun _ => d.Imported env m')
            fun _ => True := by
          refine Crashing.look fun f hf => ?_
          split_ifs
          · exact (checkReplay_crashing (P := d.Unmoved)).conseq (fun _ h => h ▸ hf)
              (fun _ _ h => Or.inl h) fun _ _ => trivial
          · refine ((importKnown_imports hbundle).conseq (fun _ h => h ▸ hf) (fun _ _ h => h)
              fun _ h => h).seq fun _ => ?_
            exact (remember_kept beside_imported).conseq (fun _ h => h) (fun _ _ h => h) fun _ _ => trivial
        refine hreceive.seq fun _ => ?_
        refine ((pruneReceipts_kept beside_imported).conseq (fun _ h => h) (fun _ _ h => h)
          fun _ _ => trivial).seq fun _ => ?_
        exact Crashing.ret (fun _ _ => trivial) fun _ h => h
  exact (hall d ⟨rfl, rfl, rfl⟩).2 ack g h

end Importing
