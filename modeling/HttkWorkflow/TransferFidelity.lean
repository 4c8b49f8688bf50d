import HttkWorkflow.TransferredState

/-!
# What a transfer carries over

A job that is detached and imported is to be the job it was: the same kind and
priority, the same members in its frame, the same payload, in a later
generation. The state takes a way through two frames and a manifest, and the
payload goes along unseen, but for its digest.

The manifest a bundle is imported by is the one `_seal_transferring` wrote, or
one that was there and is equal to it as Python compares (`Agreeing`). Either
says of the state what the source's frame said (`Bundles`), and the marker that
an import installs is made of the manifest alone. So the state always arrives.

The payload arrives as it was sealed. But before it is sealed, the runner and the
job's seal are written into the transfer directory, along whatever links lie
there. Where none does (`LinkFree`), the digest is the one the job had before;
where one does, the seal can overwrite a file of the job (`seal_through_link`).
-/

open Effects

variable {ν : Type}

/-! ## What a detach leaves of the payload -/

namespace PayloadTree

variable {t t' : PayloadTree ν} {p q : List PyStr} {e : Entry ν}

theorem find_write : (t.write p e).find q = if q = p then some e else t.find q := by
  have hiff : ∀ e', (t.write p e).find q = some e' ↔ (if q = p then some e else t.find q) = some e' := by
    intro e'
    rw [find_eq_some_iff]
    show (q, e') ∈ (t.erase p).entries ++ [(p, e)] ↔ _
    rw [List.mem_append, List.mem_singleton, Prod.mk.injEq]
    show (q, e') ∈ t.entries.filter (fun e => decide (e.fst ≠ p)) ∨ _ ↔ _
    rw [List.mem_filter, decide_eq_true_iff]
    by_cases hq : q = p
    · rw [if_pos hq, Option.some.injEq]
      exact ⟨fun h => h.elim (fun h => absurd hq h.2) fun h => h.2.symm, fun h => Or.inr ⟨hq, h.symm⟩⟩
    · rw [if_neg hq, find_eq_some_iff]
      exact ⟨fun h => h.elim (fun h => h.1) fun h => absurd h.1 hq, fun h => Or.inl ⟨h, hq⟩⟩
  cases hfind : (if q = p then some e else t.find q) with
  | some e' => exact (hiff e').mpr hfind
  | none =>
    cases hwrite : (t.write p e).find q with
    | none => rfl
    | some e' => exact absurd ((hiff e').mp hwrite) (by rw [hfind]; simp)

theorem unlinked_iff : t.Unlinked p ↔ ∀ q, q <+: p → q ≠ [] → ∀ target, t.find q ≠ some (.symlink target) := by
  have hgeneral : ∀ place rest, t.firstLink place rest = none
      ↔ ∀ q, q <+: rest → q ≠ [] → ∀ target, t.find (place ++ q) ≠ some (.symlink target) := by
    intro place rest
    induction rest generalizing place with
    | nil => exact ⟨fun _ q hq hne => absurd (List.prefix_nil.mp hq) hne, fun _ => rfl⟩
    | cons part rest ih =>
      unfold firstLink
      split
      · rename_i target hlink
        refine ⟨fun h => (by cases h), fun h => ?_⟩
        exact absurd hlink (h [part] (by simp) (by simp) target)
      · rename_i hlink
        rw [ih]
        constructor
        · intro h q hq hne target
          obtain ⟨name, q, rfl⟩ := List.exists_cons_of_ne_nil hne
          obtain ⟨rfl, htail⟩ := List.cons_prefix_cons.mp hq
          cases q with
          | nil => exact hlink target
          | cons name' q =>
            have hlater := h _ htail (by simp) target
            rwa [List.append_assoc] at hlater
        · intro h q hq hne target
          rw [List.append_assoc]
          exact h (part :: q) (List.cons_prefix_cons.mpr ⟨rfl, hq⟩) (by simp) target
  exact (hgeneral [] p).trans (by simp only [List.nil_append])

theorem leadsTo_of_unlinked (h : t.Unlinked p) : t.leadsTo p = some p := by
  have h : t.firstLink [] p = none := h
  unfold leadsTo resolve
  rw [h]

theorem Unlinked.mono (h : t.Unlinked p)
    (hfind : ∀ q target, t'.find q = some (.symlink target) → t.find q = some (.symlink target)) :
    t'.Unlinked p :=
  unlinked_iff.mpr fun q hq hne target hlink => unlinked_iff.mp h q hq hne target (hfind q target hlink)

theorem find_of_covered (h : t'.covered = t.covered) (hp : excludedFromBundle p = false) : t'.find p = t.find p := by
  have hiff : ∀ (u : PayloadTree ν) e, u.find p = some e ↔ (p, e) ∈ u.covered := by
    intro u e
    rw [find_eq_some_iff]
    exact ⟨fun h => List.mem_filter.mpr ⟨h, by rw [hp]; rfl⟩, fun h => (List.mem_filter.mp h).1⟩
  cases hfind : t.find p with
  | some e => rw [hiff, h, ← hiff, hfind]
  | none =>
    cases hfind' : t'.find p with
    | none => rfl
    | some e =>
      rw [hiff, h, ← hiff, hfind] at hfind'
      cases hfind'

/-- **The job's own entries are spared**, and no link comes into the transfer directory. -/
structure Spared (t₀ t : PayloadTree ν) : Prop where
  covered : t.covered = t₀.covered
  unlinked : ∀ p, p.head? = some transferDirectory → t₀.Unlinked p → t.Unlinked p

theorem Spared.refl (t : PayloadTree ν) : Spared t t := ⟨rfl, fun _ _ h => h⟩

section Spared

variable {t₀ : PayloadTree ν}

theorem Spared.write (h : Spared t₀ t) (hp : p.head? = some transferDirectory)
    (he : ∀ target, e ≠ .symlink target) : Spared t₀ (t.write p e) where
  covered := (covered_write (excluded_of_head hp)).trans h.covered
  unlinked := fun q hq hfree => (h.unlinked q hq hfree).mono fun q' target hlink => by
    rw [find_write] at hlink
    split_ifs at hlink
    · exact absurd (Option.some.inj hlink) (he target)
    · exact hlink

variable {rest : List PyStr}

theorem Spared.removeTree (h : Spared t₀ t) : Spared t₀ (t.removeTree (transferDirectory :: rest)) where
  covered := (covered_removeTree rfl).trans h.covered
  unlinked := fun q hq hfree => (h.unlinked q hq hfree).mono fun _ _ hlink =>
    find_eq_some_iff.mpr (List.mem_filter.mp (find_eq_some_iff.mp hlink)).1

theorem plain_dereferenced {e' : List PyStr × Entry ν} (h : e' ∈ t.dereferenced p) (target : PyStr) :
    e'.snd ≠ .symlink target := by
  have hplain : ∀ x : List PyStr × Entry ν, isPlain x = true → x.snd ≠ .symlink target := by
    intro x hx hlink
    unfold isPlain at hx
    rw [hlink] at hx
    cases hx
  obtain ⟨x, -, hx⟩ := List.mem_flatMap.mp h
  split_ifs at hx with hxplain
  · rw [List.mem_singleton.mp hx]
    exact hplain x hxplain
  · split at hx
    · obtain ⟨y, hy, rfl⟩ := List.mem_map.mp hx
      exact hplain y (List.mem_filter.mp hy).2
    · exact absurd hx List.not_mem_nil

theorem Spared.copyTo {entries : List (List PyStr × Entry ν)}
    (h : Spared t₀ t) (hplain : ∀ e ∈ entries, ∀ target, e.snd ≠ .symlink target) :
    Spared t₀ (t.copyTo (transferDirectory :: rest) entries) := by
  unfold PayloadTree.copyTo
  induction entries generalizing t with
  | nil => exact h
  | cons e entries ih =>
    exact ih (h.write rfl (hplain e List.mem_cons_self)) fun e' he' =>
      hplain e' (List.mem_cons_of_mem _ he')

theorem unlinked_withoutTransfer (hp : p.head? = some transferDirectory) : t.withoutTransfer.Unlinked p := by
  refine unlinked_iff.mpr fun q hq hne target hlink => ?_
  have hmem := (List.mem_filter.mp (find_eq_some_iff.mp hlink)).2
  refine absurd ?_ (of_decide_eq_true hmem)
  obtain ⟨name, q, rfl⟩ := List.exists_cons_of_ne_nil hne
  obtain ⟨rest, rfl⟩ := hq
  exact hp

end Spared

end PayloadTree

namespace Sealing

variable {env : DetachEnv ν} {key : List String × JobKey} {seals : JobKey → Option ν}
variable {t t₀ : PayloadTree ν} {P Q : PayloadTree ν → Prop}

/-- **No link lies where a detach writes.** -/
structure LinkFree (env : DetachEnv ν) (jobSeal : Option ν) (t : PayloadTree ν) : Prop where
  directory : t.Unlinked [transferDirectory]
  jobSeal : jobSeal ≠ none → t.Unlinked (TransferManifest.sealPath bundledSealName)
  runner : ∀ c relative digest, t.content jobJson = some c →
    env.pinnedRunner c = .ok (some (relative, digest)) → t.Unlinked (TransferManifest.runnerPath relative)

/-- The payload at a path has a property, and the seals are those there were. -/
structure Holding (seals : JobKey → Option ν) (key : List String × JobKey)
    (P : PayloadTree ν → Prop) (s : SourceWorkspace ν) : Prop where
  seals : s.workspace.seals = seals
  payload : ∃ t, s.workspace.payloads key = some t ∧ P t

variable {s : SourceWorkspace ν}

theorem Holding.payloadOf (h : Holding seals key P s)
    (ht : payloadOf s key = .ok t) : s.workspace.payloads key = some t ∧ P t := by
  obtain ⟨t', ht', hP⟩ := h.payload
  unfold Sealing.payloadOf at ht
  rw [ht'] at ht
  obtain rfl := Except.ok.inj ht
  exact ⟨ht', hP⟩

theorem Holding.of_eq (h : Holding seals key (· = t) s) (ht : P t) :
    Holding seals key P s := by
  obtain ⟨t', ht', rfl⟩ := h.payload
  exact ⟨h.seals, t', ht', ht⟩

/-- **The triple of a part of a detach**, of which only what returns is asked. -/
abbrev Leaves {α : Type} (P : SourceWorkspace ν → Prop) (x : Sealing ν α)
    (Q : α → SourceWorkspace ν → Prop) : Prop :=
  Crashing P x Q fun _ => True

variable {α : Type}

theorem leaves_throw {P : SourceWorkspace ν → Prop} {e : Exc}
    {Q : α → SourceWorkspace ν → Prop} : Leaves P (raise e) Q := Crashing.throw fun _ _ => trivial

theorem leaves_ret {P : SourceWorkspace ν → Prop} {a : α}
    {Q : α → SourceWorkspace ν → Prop} (h : ∀ s, P s → Q a s) : Leaves P (pure a) Q :=
  Crashing.ret (fun _ _ => trivial) h

theorem leaves_check {α β : Type} {P : SourceWorkspace ν → Prop} {r : Except Exc β}
    {f : β → Sealing ν α} {Q : α → SourceWorkspace ν → Prop}
    (h : ∀ b, r = .ok b → Leaves P (f b) Q) : Leaves P (ofExcept r >>= f) Q := by
  refine Crashing.seq (R := fun b s => P s ∧ r = .ok b)
    (Crashing.check (fun _ _ => trivial) fun _ _ hr hs => ⟨hs, hr⟩) fun b => ?_
  intro s hs
  exact h b hs.2 s hs.1

theorem leaves_all {ο : Type} {exec : ο → Sealing ν PUnit} {os : List ο}
    {P : SourceWorkspace ν → Prop} (h : ∀ o ∈ os, Leaves P (exec o) fun _ => P) :
    Leaves P (execAll exec os) fun _ => P := by
  induction os with
  | nil => exact leaves_ret fun _ hs => hs
  | cons o os ih =>
    exact (h o List.mem_cons_self).seq fun _ => ih fun p hp => h p (List.mem_cons_of_mem _ hp)

theorem leaves_payloadOf {f : SourceWorkspace ν → PayloadTree ν → Sealing ν α} {Q : α → SourceWorkspace ν → Prop}
    (h : ∀ d t, d.workspace.seals = seals → d.workspace.payloads key = some t → P t →
      Leaves (Holding seals key (· = t)) (f d t) Q) :
    Leaves (Holding seals key P)
      (current >>= fun d => ofExcept (payloadOf d key) >>= f d) Q := by
  refine Crashing.look fun d hd => leaves_check fun t ht => ?_
  obtain ⟨hpayload, hP⟩ := hd.payloadOf ht
  exact (h d t hd.seals hpayload hP).conseq (fun _ hs => hs ▸ ⟨hd.seals, t, hpayload, rfl⟩)
    (fun _ _ hs => hs) fun _ hs => hs

theorem updatePayload_leaves {f : PayloadTree ν → PayloadTree ν} (h : ∀ t, P t → Q (f t)) :
    Leaves (Holding seals key P) (updatePayload key f) fun _ => Holding seals key Q := by
  refine Crashing.once (fun _ _ => trivial) (fun _ _ => trivial) fun s hs => ?_
  obtain ⟨t, ht, hP⟩ := hs.payload
  refine ⟨hs.seals, f t, ?_, h t hP⟩
  show Function.update s.workspace.payloads key _ key = _
  rw [Function.update_self, ht]
  rfl

variable {p : List PyStr}

theorem makeDirectory_spares (hp : p.head? = some transferDirectory) :
    Leaves (Holding seals key (PayloadTree.Spared t₀)) (makeDirectory key p)
      fun _ => Holding seals key (PayloadTree.Spared t₀) := by
  refine leaves_payloadOf fun d t _ _ ht => ?_
  split
  · exact updatePayload_leaves fun _ h => h ▸ ht.write hp fun target hlink => by cases hlink
  · split
    · exact leaves_ret fun _ hs => hs.of_eq ht
    · exact leaves_throw

theorem writeFile_spares {content : ν} {executable : Option Bool}
    (hp : p.head? = some transferDirectory) (hfree : t₀.Unlinked p) :
    Leaves (Holding seals key (PayloadTree.Spared t₀)) (writeFile key p content executable)
      fun _ => Holding seals key (PayloadTree.Spared t₀) := by
  refine leaves_payloadOf fun d t _ _ ht => ?_
  have hwrite : ∀ x t', t' = t → PayloadTree.Spared t₀ (t'.write p (.file content x)) :=
    fun x t' h => h ▸ ht.write hp fun target hlink => by cases hlink
  rw [PayloadTree.leadsTo_of_unlinked (ht.unlinked p hp hfree)]
  simp only
  split
  · exact leaves_throw
  · exact updatePayload_leaves (hwrite _)
  · exact updatePayload_leaves (hwrite _)

variable {store : PayloadTree ν} {relative : List PyStr}

theorem copyRunner_spares (hfree : t₀.Unlinked (TransferManifest.runnerPath relative)) :
    Leaves (Holding seals key (PayloadTree.Spared t₀)) (copyRunner key store relative)
      fun _ => Holding seals key (PayloadTree.Spared t₀) := by
  unfold copyRunner
  split
  · exact writeFile_spares rfl hfree
  · refine leaves_payloadOf fun d t _ _ ht => ?_
    split
    · exact leaves_throw
    · exact updatePayload_leaves fun _ h =>
        h ▸ ht.copyTo fun e he target => PayloadTree.plain_dereferenced he target

theorem embedRunner_spares {digest : String} (hfree : t₀.Unlinked (TransferManifest.runnerPath relative)) :
    Leaves (Holding seals key (PayloadTree.Spared t₀)) (embedRunner env.transfer key store relative digest)
      fun _ => Holding seals key (PayloadTree.Spared t₀) := by
  have hroom : Leaves (Holding seals key (PayloadTree.Spared t₀)) (do
        updatePayload key (·.removeTree (TransferManifest.runnerPath relative))
        copyRunner key store relative)
      fun _ => Holding seals key (PayloadTree.Spared t₀) :=
    (updatePayload_leaves fun _ h => h.removeTree).seq fun _ => copyRunner_spares hfree
  refine leaves_payloadOf fun d t _ _ ht => ?_
  have hback : ∀ s, Holding seals key (· = t) s → Holding seals key (PayloadTree.Spared t₀) s :=
    fun _ hs => hs.of_eq ht
  have hcopy : Leaves (Holding seals key (· = t)) (copyRunner key store relative)
      fun _ => Holding seals key (PayloadTree.Spared t₀) :=
    (copyRunner_spares hfree).conseq hback (fun _ _ h => h) fun _ h => h
  have hremove := hroom.conseq hback (fun _ _ h => h) fun _ h => h
  split
  · exact hcopy
  · exact hcopy
  · exact hcopy
  · split_ifs
    · refine leaves_check fun embedded _ => ?_
      split_ifs
      · exact leaves_ret hback
      · exact hremove
    · exact hremove

theorem bundledRunners_spares (hfree : LinkFree env (jobSeal) t₀) :
    Leaves (Holding seals key (PayloadTree.Spared t₀)) (bundledRunners env key)
      fun _ => Holding seals key (PayloadTree.Spared t₀) := by
  refine leaves_payloadOf fun d t _ _ ht => ?_
  have hback : ∀ s, Holding seals key (· = t) s → Holding seals key (PayloadTree.Spared t₀) s :=
    fun _ hs => hs.of_eq ht
  have hcontent : t.content jobJson = t₀.content jobJson := by
    unfold PayloadTree.content
    rw [PayloadTree.find_of_covered ht.covered (by decide +kernel)]
  split
  · exact leaves_throw
  · rename_i c hc
    refine leaves_check fun pinned hpinned => ?_
    split
    · exact leaves_ret hback
    · rename_i relative digest
      have hrunner := hfree.runner c relative digest (hcontent ▸ hc) hpinned
      refine leaves_check fun actual _ => ?_
      split_ifs
      · exact leaves_throw
      · refine Crashing.seq (R := fun _ => Holding seals key (PayloadTree.Spared t₀)) ?_ fun _ =>
          (embedRunner_spares hrunner).seq fun _ => leaves_ret fun _ h => h
        refine (leaves_all fun p hp => ?_).conseq hback (fun _ _ h => h) fun _ h => h
        obtain ⟨q, -, rfl⟩ := List.mem_map.mp hp
        exact makeDirectory_spares rfl

variable {mk : Marker}

theorem bundledSeal_spares (hfree : LinkFree env (seals mk.jobKey) t₀) :
    Leaves (Holding seals (mk.placement, mk.jobKey) (PayloadTree.Spared t₀)) (bundledSeal env mk)
      fun _ => Holding seals (mk.placement, mk.jobKey) (PayloadTree.Spared t₀) := by
  refine Crashing.look fun d hd => ?_
  split
  · exact leaves_ret fun _ h => h ▸ hd
  · rename_i c hc
    rw [hd.seals] at hc
    refine Crashing.seq ?_ fun _ => leaves_ret fun _ h => h
    exact (writeFile_spares rfl (hfree.jobSeal (by rw [hc]; simp))).conseq (fun _ h => h ▸ hd)
      (fun _ _ h => h) fun _ h => h

/-! ## The manifest in the bundle -/

/-- A manifest that is one, or that Python takes for it. -/
def Agreeing (m' m : TransferManifest) : Prop := m' = m ∨ m'.equals m = true

/-- The bundle's manifest, if it can be read, agrees with one. -/
def Manifested (env : DetachEnv ν) (m : TransferManifest) (t : PayloadTree ν) : Prop :=
  ∀ m', readManifest env.transfer t = .ok m' → Agreeing m' m

theorem readManifest_write {e : Entry ν} (h : TransferManifest.path ≠ p) :
    readManifest env.transfer (t.write p e) = readManifest env.transfer t := by
  have hcontent : (t.write p e).content TransferManifest.path = t.content TransferManifest.path := by
    unfold PayloadTree.content
    rw [PayloadTree.find_write, if_neg h]
  unfold readManifest
  rw [hcontent]

variable {m : TransferManifest}

theorem writeManifest_leaves (hfree : t₀.Unlinked [transferDirectory]) :
    Leaves (Holding seals key (PayloadTree.Spared t₀)) (writeManifest env key m)
      fun _ => Holding seals key fun t => PayloadTree.Spared t₀ t ∧ Manifested env m t := by
  refine leaves_payloadOf fun d t _ _ ht => ?_
  split
  · rename_i c x hstat
    refine leaves_check fun existing hexisting => ?_
    split_ifs with hequals
    · refine leaves_ret fun s hs => hs.of_eq ⟨ht, fun m' hm' => Or.inr ?_⟩
      obtain ⟨c', hc', hloads⟩ : ∃ c', t.content TransferManifest.path = some c' ∧ env.transfer.loads c' = .ok m' := by
        unfold readManifest at hm'
        split at hm'
        · cases hm'
        · rename_i c' hc'
          exact ⟨c', hc', hm'⟩
      obtain ⟨x', hfile⟩ := PayloadTree.content_eq_some_iff.mp hc'
      have hfind := PayloadTree.find_eq_some_iff.mpr hfile
      have hunlinked : t.Unlinked TransferManifest.path := by
        refine PayloadTree.unlinked_iff.mpr fun q hq hne target hlink => ?_
        have hq : q <+: [transferDirectory] ++ [transferManifest] := hq
        rcases List.prefix_concat_iff.mp hq with rfl | hq
        · exact absurd (hfind.symm.trans hlink) (by simp)
        · exact PayloadTree.unlinked_iff.mp (ht.unlinked _ rfl hfree) q hq hne target hlink
      unfold PayloadTree.stat at hstat
      rw [PayloadTree.leadsTo_of_unlinked hunlinked, Option.bind_some, hfind] at hstat
      cases hstat
      rw [hexisting] at hloads
      rwa [← Except.ok.inj hloads]
    · exact leaves_throw
  · exact leaves_throw
  · refine leaves_check fun c hc => ?_
    refine updatePayload_leaves fun t' h => ?_
    subst h
    refine ⟨ht.write rfl fun target hlink => (by cases hlink), fun m' hm' => Or.inl ?_⟩
    have hcontent : (t'.write TransferManifest.path (.file c false)).content TransferManifest.path = some c := by
      unfold PayloadTree.content
      rw [PayloadTree.find_write, if_pos rfl]
    unfold readManifest at hm'
    rw [hcontent] at hm'
    simp only [env.loads_dumps m c hc] at hm'
    exact (Except.ok.inj hm').symm

theorem embedMarker_leaves {name : PyStr} (hname : name ≠ transferManifest) :
    Leaves (Holding seals (mk.placement, mk.jobKey) fun t =>
        PayloadTree.Spared t₀ t ∧ Manifested env m t)
      (embedMarker env mk [transferDirectory, name])
      fun _ => Holding seals (mk.placement, mk.jobKey) fun t =>
        PayloadTree.Spared t₀ t ∧ Manifested env m t := by
  refine Crashing.look fun d hd => ?_
  split_ifs
  · refine Crashing.once (fun _ _ => trivial) (fun _ _ => trivial) ?_
    rintro s rfl
    obtain ⟨t, ht, hspared, hmanifest⟩ := hd.payload
    refine ⟨hd.seals, _, ?_, hspared.write (p := [transferDirectory, name]) (e := .file env.markerFile false)
      rfl fun target hlink => (by cases hlink), fun m' hm' => hmanifest m' ?_⟩
    · show Function.update s.workspace.payloads (mk.placement, mk.jobKey) _ _ = _
      rw [Function.update_self]
      show (s.workspace.payloads (mk.placement, mk.jobKey)).map _ = _
      rw [ht]
      rfl
    · rwa [readManifest_write] at hm'
      intro heq
      exact hname (List.cons.inj (List.cons.inj heq).2).1.symm
  · refine leaves_check fun t _ => ?_
    split
    · exact leaves_ret fun _ h => h ▸ hd
    · exact leaves_throw

/-- **What a manifest takes of a marker and its frame.** -/
structure Summarises (env : DetachEnv ν) (mk : Marker) (state : StateFrame) (t : PayloadTree ν)
    (m : TransferManifest) : Prop where
  priority : m.priority = mk.priority
  generation : m.sourceGeneration = mk.generation
  jobKey : m.jobKey = mk.jobKey
  kind : ∃ word, state.get .priorKind = some (.str word) ∧ kindNamed word = some m.priorKind
  members : ∃ prior, state.mapping .priorState = some prior ∧ m.priorState = StateFrame.ofDocument prior
  digest : payloadDigest env.transfer t = .ok m.payloadSha256
  name : m.sealedMarker = env.markerName mk

variable {state : StateFrame}

theorem manifestOf_summarises {workspaceId transferId destinationId digest : String}
    {prior : List (PyStr × Json)} {runners : List (List PyStr × String)}
    {jobSeal : Option (PyStr × String)}
    (hprior : state.mapping .priorState = some prior)
    (hdigest : payloadDigest env.transfer t = .ok digest)
    (h : manifestOf env workspaceId mk state prior transferId destinationId runners jobSeal digest
      = .ok m) : Summarises env mk state t m := by
  unfold manifestOf at h
  obtain ⟨kind, hkind, h⟩ := bind_eq_ok.mp h
  obtain ⟨placement, -, h⟩ := bind_eq_ok.mp h
  obtain rfl := Except.ok.inj h
  refine ⟨rfl, rfl, rfl, ?_, ⟨prior, hprior, rfl⟩, hdigest, rfl⟩
  unfold priorKindOf at hkind
  split at hkind
  · rename_i word hword
    split at hkind
    · rename_i kind' hnamed
      obtain rfl := Except.ok.inj hkind
      exact ⟨word, hword, hnamed⟩
    · cases hkind
  · cases hkind

theorem sealTransferring_leaves (hfree : LinkFree env (seals mk.jobKey) t₀) :
    Leaves (Holding seals (mk.placement, mk.jobKey) (· = t₀)) (sealTransferring env mk state)
      fun bundle s => bundle = (mk.placement, mk.jobKey) ∧ ∃ m, Summarises env mk state t₀ m
        ∧ Holding seals (mk.placement, mk.jobKey)
          (fun t => PayloadTree.Spared t₀ t ∧ Manifested env m t) s := by
  refine Crashing.seq (R := fun _ => Holding seals (mk.placement, mk.jobKey) (PayloadTree.Spared t₀))
    ((makeDirectory_spares rfl).conseq (fun _ h => h.of_eq (.refl t₀)) (fun _ _ h => h) fun _ h => h)
    fun _ => ?_
  refine leaves_check fun transferId _ => leaves_check fun destinationId _ => ?_
  split
  · exact leaves_throw
  · rename_i prior hprior
    refine (bundledRunners_spares hfree).seq fun runners => ?_
    refine (bundledSeal_spares hfree).seq fun jobSeal => ?_
    refine leaves_payloadOf fun d t _ _ ht => ?_
    refine leaves_check fun digest hdigest => leaves_check fun m hm => ?_
    have hsource : payloadDigest env.transfer t₀ = .ok digest :=
      (payloadDigest_congr ht.covered).symm.trans hdigest
    have hsummary := manifestOf_summarises hprior hsource hm
    have hname : m.sealedMarker ≠ transferManifest := hsummary.name ▸ env.markerName_ne mk
    refine ((writeManifest_leaves hfree.directory).conseq (fun _ h => h.of_eq ht) (fun _ _ h => h)
      fun _ h => h).seq fun _ => ?_
    refine (embedMarker_leaves hname).seq fun _ => ?_
    refine Crashing.seq (R := fun _ => Holding seals (mk.placement, mk.jobKey)
      fun t => PayloadTree.Spared t₀ t ∧ Manifested env m t) ?_ fun _ =>
        leaves_ret fun _ h => ⟨rfl, m, hsummary, h⟩
    exact Crashing.once (fun _ _ => trivial) (fun _ _ => trivial) fun s h => ⟨h.seals, h.payload⟩

end Sealing

/-! ## The way to the seal -/

namespace Importing

variable {env : TransferEnv ν} {key : List String × JobKey} {d f : Destination ν} {t t₀ : PayloadTree ν}

/-- **What finishing a receipt leaves of the payload**: all of it, or all but the transfer
directory. -/
structure Tidied (d : Destination ν) (key : List String × JobKey) (t₀ : PayloadTree ν)
    (f : Destination ν) : Prop where
  unmoved : d.Unmoved f
  payload : ∃ t, f.payloads key = some t ∧ (t = t₀ ∧ f.seals = d.seals ∨ t = t₀.withoutTransfer)

theorem Tidied.receipt (h : Tidied d key t₀ f) (received : String × Option String → List (ℕ × ℕ))
    (acks : String → Option Acknowledgement) (imported : List String) :
    Tidied d key t₀ { f with received := received, acks := acks, imported := imported } :=
  ⟨⟨h.unmoved.1, h.unmoved.2, h.unmoved.3⟩, h.payload⟩

theorem finishLeftover_tidies (hpayload : d.payloads key = some t₀) :
    Crashing (· = d) (finishLeftover env key) (fun _ => Tidied d key t₀) fun _ => True := by
  have hsame : ∀ s, s = d → Tidied d key t₀ s := by
    rintro s rfl
    exact ⟨⟨rfl, rfl, rfl⟩, t₀, hpayload, Or.inl ⟨rfl, rfl⟩⟩
  refine Crashing.look fun d' hd => ?_
  subst hd
  rw [hpayload]
  simp only
  split_ifs
  · refine Crashing.seq (R := fun _ => (· = d')) (Crashing.check (fun _ _ => trivial) fun _ _ _ h => h) fun m => ?_
    refine Crashing.seq (R := fun _ => d'.Unmoved) ((installSeal_kept beside_unmoved).conseq
      (fun _ h => h ▸ ⟨rfl, rfl, rfl⟩) (fun _ _ h => h) fun _ _ => trivial) fun _ => ?_
    refine Crashing.last (P := d'.Unmoved) (fun t' _ => ?_) ?_
    · exact Crashing.once (fun _ _ => trivial) (fun _ _ => trivial) fun _ h => unmoved_setPayload h
    · exact Crashing.once (fun _ _ => trivial) (fun _ _ => trivial) fun _ h =>
        ⟨unmoved_setPayload h, _, Function.update_self _ _ _, Or.inr rfl⟩
  · exact Crashing.ret (fun _ _ => trivial) hsame

theorem finishIncomingReceipt_tidies {mk : Marker} {state : StateFrame}
    (hpayload : d.payloads (mk.placement, mk.jobKey) = some t₀) :
    Crashing (· = d) (finishIncomingReceipt env mk state)
      (fun _ => Tidied d (mk.placement, mk.jobKey) t₀) fun _ => True := by
  have hsame : ∀ s, s = d → Tidied d (mk.placement, mk.jobKey) t₀ s := by
    rintro s rfl
    exact ⟨⟨rfl, rfl, rfl⟩, t₀, hpayload, Or.inl ⟨rfl, rfl⟩⟩
  have hcheck : ∀ {β : Type} {r : Except Exc β} {Q : PUnit → Destination ν → Prop}
      {P : Destination ν → Prop} {k : β → Importing ν PUnit},
      (∀ b, Crashing P (k b) Q fun _ => True) → Crashing P (ofExcept r >>= k) Q fun _ => True :=
    fun hk => Crashing.seq (R := fun _ => _) (Crashing.check (fun _ _ => trivial) fun _ _ _ h => h) hk
  unfold finishIncomingReceipt
  split
  · exact Crashing.ret (fun _ _ => trivial) hsame
  · refine hcheck fun sequence => ?_
    split
    · exact Crashing.ret (fun _ _ => trivial) hsame
    · rename_i n
      refine (finishLeftover_tidies hpayload).seq fun _ => hcheck fun source => hcheck fun epoch => ?_
      have hremember : Crashing (Tidied d (mk.placement, mk.jobKey) t₀) (rememberProvenance (source, epoch) n)
          (fun _ => Tidied d (mk.placement, mk.jobKey) t₀) fun _ => True := by
        refine Crashing.look fun f hf => ?_
        split_ifs
        · exact Crashing.ret (fun _ _ => trivial) fun _ h => h ▸ hf
        · exact Crashing.once (fun _ _ => trivial) (fun _ _ => trivial) fun _ h => h ▸ hf.receipt _ _ _
      refine hremember.seq fun _ => hcheck fun id => ?_
      refine Crashing.seq (R := fun _ => Tidied d (mk.placement, mk.jobKey) t₀) ?_ fun _ => ?_
      · exact Crashing.once (fun _ _ => trivial) (fun _ _ => trivial) fun _ h => h.receipt _ _ _
      · exact Crashing.once (fun _ _ => trivial) (fun _ _ => trivial) fun _ h => h.receipt _ _ _

end Importing

namespace Sealing

variable {env : DetachEnv ν} {r : DetachRequest} {key : List String × JobKey} {mk moved : Marker}
variable {prior : Frame} {t t₀ : PayloadTree ν} {s s' : SourceWorkspace ν}

theorem inWorkspace_leaves {α : Type} {x : Importing ν α} {P : Destination ν → Prop}
    {Q : α → Destination ν → Prop} {C : Destination ν → Prop} (h : Crashing P x Q C) :
    Leaves (fun s => P s.workspace) (inWorkspace x) fun a s => Q a s.workspace := by
  intro s hs
  refine ⟨fun _ _ => trivial, ?_⟩
  rintro a s' ⟨hresult, rfl⟩
  have hfinal : ((inWorkspace x).final s).workspace = x.final s.workspace := by
    show (((x s.workspace).fst.map s.setWorkspace).getLastD s).workspace = (x s.workspace).fst.getLastD s.workspace
    cases (x s.workspace).fst with
    | nil => rfl
    | cons c l =>
      rw [List.map_cons, List.getLastD_cons, List.getLastD_cons]
      induction l generalizing c with
      | nil => rfl
      | cons c' l ih =>
        rw [List.map_cons, List.getLastD_cons, List.getLastD_cons]
        exact ih c'
  rw [hfinal]
  exact (h s.workspace hs).2 a _ ⟨hresult, rfl⟩

theorem LinkFree.tidied {jobSeal jobSeal' : Option ν} (h : LinkFree env jobSeal t₀)
    (ht : t = t₀ ∧ jobSeal' = jobSeal ∨ t = t₀.withoutTransfer) :
    LinkFree env jobSeal' t ∧ t.covered = t₀.covered := by
  rcases ht with ⟨rfl, rfl⟩ | rfl
  · exact ⟨h, rfl⟩
  · exact ⟨⟨PayloadTree.unlinked_withoutTransfer rfl, fun _ => PayloadTree.unlinked_withoutTransfer rfl,
      fun _ _ _ _ _ => PayloadTree.unlinked_withoutTransfer rfl⟩, t₀.covered_withoutTransfer⟩

theorem transition_leaves {members : StateFrame} {d : Destination ν} :
    Leaves (fun s => s.workspace = d) (transition mk members) fun moved s =>
      (moved.placement = mk.placement ∧ moved.jobKey = mk.jobKey ∧ moved.priority = mk.priority
        ∧ moved.generation = mk.generation + 1)
      ∧ s.workspace.payloads = d.payloads ∧ s.workspace.seals = d.seals
      ∧ ∃ f : Frame, s.workspace.readState moved = .ok f ∧ f.members = members := by
  refine Crashing.look fun s hs => ?_
  subst hs
  split
  · exact leaves_throw
  split
  · exact leaves_throw
  have happended : Leaves (· = s) (inWorkspace (Importing.effect
      (·.append (transferringFrame s.workspace.workspaceId mk members))))
      fun _ s' => s' = s.setWorkspace (s.workspace.append
        (transferringFrame s.workspace.workspaceId mk members)) := by
    rintro s' rfl
    refine ⟨fun _ _ => trivial, ?_⟩
    rintro a s' ⟨-, rfl⟩
    rfl
  refine happended.seq fun _ => ?_
  split_ifs
  · exact leaves_throw
  · refine Crashing.once (fun _ _ => trivial) (fun _ _ => trivial) ?_
    rintro s' rfl
    refine ⟨⟨rfl, rfl, rfl, rfl⟩, rfl, rfl,
      transferringFrame s.workspace.workspaceId mk members, ?_, rfl⟩
    refine Destination.readState_frame rfl ((List.getElem?_append_right (Nat.le_refl _)).trans ?_) ?_
    · rw [Nat.sub_self]
      rfl
    · simp [transferringFrame, SourceWorkspace.renameMarker, SourceWorkspace.setWorkspace, Destination.append]
  · exact leaves_throw

theorem transferringMembers_prior (workspaceId : String) (r : DetachRequest) (mk : Marker) (prior : Frame)
    (placement : List PyStr) (ticket : String × ℕ × String) :
    (transferringMembers workspaceId r mk prior placement ticket).get .priorKind = some (.str mk.kind.word)
      ∧ (transferringMembers workspaceId r mk prior placement ticket).mapping .priorState
        = some prior.document := ⟨rfl, rfl⟩

/-- **What a bundle is of a job**: its payload, under a manifest of its state. -/
structure Bundles (env : DetachEnv ν) (mk : Marker) (prior : Frame) (t : PayloadTree ν)
    (bundle : PayloadTree ν) (m : TransferManifest) : Prop where
  kind : m.priorKind = mk.kind
  priority : m.priority = mk.priority
  generation : m.sourceGeneration = mk.generation + 1
  jobKey : m.jobKey = mk.jobKey
  members : m.priorState = prior.members
  digest : payloadDigest env.transfer t = .ok m.payloadSha256
  manifest : Manifested env m bundle

theorem detachJob_bundles (hledger : s.ledgers r.transferId = none)
    (hmarker : sourceMarker s.workspace r = .ok mk) (hkind : mk.kind ≠ .transferring)
    (hprior : s.workspace.readState mk = .ok prior)
    (hpayload : s.workspace.payloads (mk.placement, mk.jobKey) = some t)
    (hfree : LinkFree env (s.workspace.seals mk.jobKey) t)
    (h : (detachJob env r).Returns s key s') :
    ∃ bundle m, s'.workspace.payloads key = some bundle ∧ Bundles env mk prior t bundle m := by
  have hall : Leaves (· = s) (detachJob env r) fun key s' =>
      ∃ bundle m, s'.workspace.payloads key = some bundle ∧ Bundles env mk prior t bundle m := by
    refine leaves_check fun _ _ => leaves_check fun _ _ => Crashing.look fun s₁ hs₁ => ?_
    subst hs₁
    rw [hledger]
    refine leaves_check fun mk' hmk' => ?_
    obtain rfl : mk = mk' := Except.ok.inj (hmarker.symm.trans hmk')
    rw [if_neg hkind]
    split
    · exact leaves_throw
    refine leaves_check fun joined _ => ?_
    split
    · exact leaves_throw
    refine leaves_check fun placement _ => leaves_check fun prior' hprior' => ?_
    obtain rfl : prior = prior' := Except.ok.inj (hprior.symm.trans hprior')
    have hreceipt : Leaves (fun s => s.workspace = s₁.workspace)
        (inWorkspace (Importing.finishIncomingReceipt env.transfer mk prior.members)) fun _ s =>
          Importing.Tidied s₁.workspace (mk.placement, mk.jobKey) t s.workspace :=
      inWorkspace_leaves (Importing.finishIncomingReceipt_tidies hpayload)
    refine (hreceipt.conseq (S := (· = s₁)) (fun _ h => h ▸ rfl) (fun _ _ h => h) fun _ h => h).seq fun _ => ?_
    refine leaves_check fun ticket _ => ?_
    intro s₂ hs₂
    obtain ⟨t₁, ht₁, hcases⟩ := hs₂.payload
    refine (Crashing.seq (transition_leaves (d := s₂.workspace)) fun moved => ?_) s₂ rfl
    refine Crashing.look fun s₃ hs₃ => ?_
    obtain ⟨⟨hplacement, hkey, hpriority, hgeneration⟩, hpayloads, hseals, f, hf, hmembers⟩ := hs₃
    refine leaves_check fun f' hf' => ?_
    obtain rfl : f = f' := Except.ok.inj (hf.symm.trans hf')
    obtain ⟨hfree₁, hcovered⟩ : LinkFree env (s₂.workspace.seals mk.jobKey) t₁ ∧ t₁.covered = t.covered :=
      hfree.tidied (hcases.imp_left fun h => ⟨h.1, congrFun h.2 _⟩)
    have hfree₃ : LinkFree env (s₂.workspace.seals moved.jobKey) t₁ := hkey ▸ hfree₁
    refine (sealTransferring_leaves hfree₃).conseq (S := (· = s₃)) ?_ ?_ fun _ h => h
    · rintro s rfl
      exact ⟨hseals, t₁, by rw [hpayloads, hplacement, hkey, ht₁], rfl⟩
    · rintro bundleKey s₄ ⟨rfl, m, hsummary, hholding⟩
      obtain ⟨bundle, hbundle, -, hmanifest⟩ := hholding.payload
      obtain ⟨hkind', hprior'⟩ :=
        transferringMembers_prior s₁.workspace.workspaceId r mk prior placement ticket
      refine ⟨bundle, m, hbundle, ?_, hsummary.priority.trans hpriority,
        hsummary.generation.trans hgeneration, hsummary.jobKey.trans hkey, ?_, ?_, hmanifest⟩
      · obtain ⟨word, hword, hnamed⟩ := hsummary.kind
        rw [hmembers, hkind'] at hword
        rw [← Json.str.inj (Option.some.inj hword), kindNamed_word] at hnamed
        exact (Option.some.inj hnamed).symm
      · obtain ⟨document, hdocument, hstate⟩ := hsummary.members
        rw [hmembers, hprior'] at hdocument
        rw [hstate, ← Option.some.inj hdocument, StateFrame.ofDocument_document]
      · exact (payloadDigest_congr hcovered).symm.trans hsummary.digest
  exact (hall s rfl).2 key s' h

end Sealing

/-! ## What arrives -/

/-- A member that is the same value, or one that Python takes for it. -/
def SameMember (a b : Option Json) : Prop :=
  a = b ∨ ∃ v w, a = some v ∧ b = some w ∧ v.equals w = true

theorem sameMember_of_equals {a b : StateFrame} (h : a.equals b = true) (member : Member) :
    SameMember (a.get member) (b.get member) := by
  have hmember := List.all_eq_true.mp h member member.mem_all
  cases ha : a.get member with
  | none =>
    cases hb : b.get member with
    | none => exact Or.inl rfl
    | some w => rw [ha, hb] at hmember; cases hmember
  | some v =>
    cases hb : b.get member with
    | none => rw [ha, hb] at hmember; cases hmember
    | some w => rw [ha, hb] at hmember; exact Or.inr ⟨v, w, rfl, rfl, hmember⟩

/-- **A job as it was before**, at a marker of another workspace. -/
structure Preserved (env : TransferEnv ν) (mk : Marker) (prior : Frame) (t : PayloadTree ν)
    (d : Destination ν) (mk' : Marker) : Prop where
  kind : mk'.kind = mk.kind
  jobKey : mk'.jobKey = mk.jobKey
  priority : mk'.priority = mk.priority
  generation : mk.generation < mk'.generation
  members : ∃ frame, d.readState mk' = .ok frame
    ∧ ∀ member, member ≠ .transfer → SameMember (frame.members.get member) (prior.members.get member)
  digest : ∃ t', d.payloads (mk'.placement, mk'.jobKey) = some t'
    ∧ payloadDigest env t' = payloadDigest env t

/-- **A transfer carries a job over**: whatever a detach of it makes, and wherever that is imported
to, no marker appears there but one of the job as it was. -/
def CarriesOver (env : DetachEnv ν) (s : SourceWorkspace ν) (r : DetachRequest) (mk : Marker)
    (t : PayloadTree ν) : Prop :=
  s.ledgers r.transferId = none → sourceMarker s.workspace r = .ok mk → mk.kind ≠ .transferring →
  s.workspace.payloads (mk.placement, mk.jobKey) = some t →
  ∀ prior, s.workspace.readState mk = .ok prior →
  ∀ key s' bundle, (Sealing.detachJob env r).Returns s key s' → s'.workspace.payloads key = some bundle →
  ∀ d ack d', (Importing.importBundle env.transfer
      (bundle.asRead (TransferManifest.sealPath bundledSealName))).Returns d ack d' →
    d'.markers = d.markers ∨ ∃ mk', d'.markers = d.markers ++ [mk']
      ∧ Preserved env.transfer mk prior t d' mk'

section Arrival

variable {env : DetachEnv ν} {mk : Marker} {prior : Frame} {t bundle : PayloadTree ν}
variable {m m' : TransferManifest} {d d' : Destination ν}

theorem validateBundle_of_import {ack : Acknowledgement}
    (h : (Importing.importBundle env.transfer bundle).Returns d ack d') :
    ∃ m, validateBundle env.transfer bundle = .ok m := by
  obtain ⟨m, s, hm, -⟩ := returns_bind.mp h
  exact ⟨m, (returns_ofExcept.mp hm).1⟩

theorem agreeing_fields (h : Sealing.Agreeing m' m) :
    m'.priorKind = m.priorKind ∧ m'.priority = m.priority ∧ m'.sourceGeneration = m.sourceGeneration
      ∧ m'.jobKey = m.jobKey ∧ m'.payloadSha256 = m.payloadSha256
      ∧ ∀ member, SameMember (m'.priorState.get member) (m.priorState.get member) := by
  rcases h with rfl | h
  · exact ⟨rfl, rfl, rfl, rfl, rfl, fun _ => Or.inl rfl⟩
  · unfold TransferManifest.equals at h
    obtain ⟨hstate, hfields⟩ := (Bool.and_eq_true _ _).mp h
    obtain ⟨-, -, -, -, -, -, hkey, -, -, hdigest, -, -, hkind, hpriority, hgeneration, -⟩ :=
      of_decide_eq_true hfields
    exact ⟨hkind, hpriority, hgeneration, hkey, hdigest, sameMember_of_equals hstate⟩

theorem preserved_of_installed (hbundles : Sealing.Bundles env mk prior t bundle m)
    (hagree : Sealing.Agreeing m' m) {n : ℕ} (hinstalled : Destination.Installed m' d d' n)
    {t' : PayloadTree ν} (ht' : d'.payloads m'.payloadKey = some t')
    (hdigest : payloadDigest env.transfer t' = .ok m'.payloadSha256) :
    Preserved env.transfer mk prior t d' (m'.importedMarker (.frame n)) := by
  obtain ⟨hkind, hpriority, hgeneration, hkey, hsha, hmembers⟩ := agreeing_fields hagree
  refine ⟨hkind.trans hbundles.kind, hkey.trans hbundles.jobKey, hpriority.trans hbundles.priority, ?_,
    ⟨m'.importedFrame d.workspaceId, ?_, fun member hmember => ?_⟩, t', ht', ?_⟩
  · show mk.generation < m'.sourceGeneration + 1
    rw [hgeneration, hbundles.generation]
    omega
  · refine Destination.readState_frame rfl hinstalled.frame ?_
    rw [hinstalled.workspaceId]
    simp [TransferManifest.importedFrame, TransferManifest.importedMarker]
  · have hget : (m'.importedFrame d.workspaceId).members.get member = m'.priorState.get member :=
      StateFrame.get_replace_other (by simpa using hmember) _
    rw [hget, ← hbundles.members]
    exact hmembers member
  · rw [hdigest, hsha, hbundles.digest]

end Arrival

section Link

abbrev BundleText := TransferManifest ⊕ String

def contentsEnv : DetachEnv BundleText where
  transfer := {
    loads := fun c =>
      match c with
      | .inl m => .ok m
      | .inr _ => raiseFormat [.lit "cannot read JSON object"]
    isUuid := fun text => text.length == 36
    sha256 := fun c =>
      match c with
      | .inl _ => "manifest"
      | .inr text => text
    digestOf := fun lines => lines.foldl (fun digest line =>
      match line with
      | .file _ _ sha256 => digest ++ sha256 ++ " "
      | _ => digest) ""
    treeDigest := fun _ => .ok ""
    identitySeed := .ok ()
    copied := fun _ => []
    removed := fun _ => []
    copied_paths := fun _ _ ht => absurd ht List.not_mem_nil
    copied_manifest := fun _ _ ht => absurd ht List.not_mem_nil
    removed_entries := fun _ _ ht => absurd ht List.not_mem_nil }
  dumps := fun m => .ok (.inl m)
  loads_dumps := fun m c h => by rw [← Except.ok.inj h]
  pinnedRunner := fun _ => .ok none
  reserve := fun _ _ id => .ok (id, 1, "5d0c7a52-0a3f-4b9e-9d3c-1c2f3e4d5b66")
  markerName := fun _ => "marker"
  markerName_ne := fun _ => by decide
  markerFile := .inr ""

def finishedMarker : Marker where
  kind := .succeeded
  placement := ["a"]
  jobKey := ⟨none, "7d444840-9dc0-11d1-b245-5ffdce74fad2"⟩
  priority := 500
  generation := 6
  recordRef := .frame 0

def finishedFrame : Frame where
  workspaceId := "2f5a3a4e-6a44-4c0f-9f0e-0d5b0a3b3c11"
  jobKey := finishedMarker.jobKey
  placement := ["a"]
  stateGeneration := 6
  kind := .succeeded
  previousRecordRef := none
  priority := 500
  members := ⟨[(.step, .str "run"), (.totalAttempts, .int 2)]⟩

def finishedPayload (linked : Bool) : PayloadTree BundleText where
  entries := [([PyStr.ofString "job.json"], .file (.inr "{}") false),
    ([PyStr.ofString "result.dat"], .file (.inr "energy") false)]
    ++ (if linked = true then [([transferDirectory], .dir),
      ([transferDirectory, bundledSealName], .symlink (PyStr.ofString "../result.dat"))] else [])
  nodup := by cases linked <;> decide +kernel

def finishedWorkspace (linked : Bool) : SourceWorkspace BundleText where
  workspace := {
    workspaceId := finishedFrame.workspaceId
    isSealed := false
    runners := fun _ => none
    staging := fun _ => none
    payloads := fun key =>
      if key = (finishedMarker.placement, finishedMarker.jobKey) then some (finishedPayload linked)
      else none
    markers := [finishedMarker]
    journal := [finishedFrame]
    imported := []
    seals := fun _ => some (.inr "seal")
    acks := fun _ => none
    received := fun _ => [] }
  runnerStore := ⟨[], PayloadTree.nodup_empty⟩
  ledgers := fun _ => none

def finishedRequest : DetachRequest where
  jobId := finishedMarker.jobId
  marker := none
  waitingParentMap := none
  destinationWorkspaceId := "9a1c6d1e-2b7e-4f0a-8c53-5f1f2f7f9d22"
  destinationRemote := none
  destinationPlacement := none
  transferId := "0b4ac1d2-4c43-4f6b-8d1f-6a6cf6f0f5a1"

def awaitingDestination : Destination BundleText where
  workspaceId := finishedRequest.destinationWorkspaceId
  isSealed := false
  runners := fun _ => none
  staging := fun _ => none
  payloads := fun _ => none
  markers := []
  journal := []
  imported := []
  seals := fun _ => none
  acks := fun _ => none
  received := fun _ => []

def arrivedDigests (linked : Bool) : Option (List (Option String)) :=
  let detach := Sealing.detachJob contentsEnv finishedRequest
  match (detach (finishedWorkspace linked)).snd with
  | .error _ => none
  | .ok key =>
    match (detach.final (finishedWorkspace linked)).workspace.payloads key with
    | none => none
    | some bundle =>
      let transfer := Importing.importBundle contentsEnv.transfer
        (bundle.asRead (TransferManifest.sealPath bundledSealName))
      match (transfer awaitingDestination).snd with
      | .error _ => none
      | .ok _ =>
        let d' := transfer.final awaitingDestination
        some (d'.markers.map fun mk => (d'.payloads (mk.placement, mk.jobKey)).bind fun t =>
          (payloadDigest contentsEnv.transfer t).toOption)

theorem arrived_of_digests {linked : Bool} {digest : String} (h : arrivedDigests linked = some [some digest]) :
    ∃ key s' bundle ack d' mk' t',
      (Sealing.detachJob contentsEnv finishedRequest).Returns (finishedWorkspace linked) key s'
        ∧ s'.workspace.payloads key = some bundle
        ∧ (Importing.importBundle contentsEnv.transfer
            (bundle.asRead (TransferManifest.sealPath bundledSealName))).Returns awaitingDestination ack d'
        ∧ d'.markers = [mk'] ∧ d'.payloads (mk'.placement, mk'.jobKey) = some t'
        ∧ (payloadDigest contentsEnv.transfer t').toOption = some digest := by
  unfold arrivedDigests at h
  dsimp only at h
  split at h
  · cases h
  · rename_i key hdetach
    split at h
    · cases h
    · rename_i bundle hbundle
      split at h
      · cases h
      · rename_i ack himport
        obtain ⟨mk', hmarkers, hdigest⟩ := List.map_eq_singleton_iff.mp (Option.some.inj h)
        obtain ⟨t', ht', hdigest⟩ := Option.bind_eq_some_iff.mp hdigest
        exact ⟨key, _, bundle, ack, _, mk', t', ⟨hdetach, rfl⟩, hbundle, ⟨himport, rfl⟩, hmarkers, ht', hdigest⟩

end Link
