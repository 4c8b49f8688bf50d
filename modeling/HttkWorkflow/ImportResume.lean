import HttkWorkflow.BundleImport
import HttkWorkflow.CrashTriples

/-!
# Importing again after a crash

An import that crashed is begun again with the same bundle. Between the two
the destination's managers may already have run the job: its marker is in
the state tree from the rename in the middle of the import on. What the first
one left behind is how the second import recognises it – the staging
directory, the payload, the marker and the `transfer` member of its frame,
the acknowledgement, the receipt – and each of these can be missing or
half there.

The states between the two imports are those of `importRuns`: imports that
stop at any of their effects, any number of them, and transitions of the
imported job. They come in two kinds, *before* the job is the destination's
and *after*. `import_resumes` says from which of them an import returns its
acknowledgement, with one marker of the job in the tree: those that are
`Resumable`.
-/

variable {ν : Type} {env : TransferEnv ν} {bundle t : PayloadTree ν} {m : TransferManifest}
variable {f g : Destination ν}

/-! ## A valid bundle -/

/-- **What validation establishes.** -/
structure Carries (env : TransferEnv ν) (t : PayloadTree ν) (m : TransferManifest) : Prop where
  manifest : ∃ c, t.content TransferManifest.path = some c ∧ env.loads c = .ok m
  marker : t.content m.markerPath ≠ none
  digest : payloadDigest env t = .ok m.payloadSha256
  runners : ∀ r ∈ m.runners, validateRunner env t r = .ok ()
  jobSeal : validateSeal env t m.jobSeal = .ok ()

theorem validateBundle_eq_ok (h : validateBundle env t = .ok m) : Carries env t m := by
  unfold validateBundle at h
  obtain ⟨m', hm', h⟩ := bind_eq_ok.mp h
  simp only [guard_eq_ok, bind_eq_ok] at h
  obtain ⟨-, -, -, -, -, -, hmarker, digest, hdigest, hne, u, hrunners, u', hseal, h⟩ := h
  obtain rfl := Except.ok.inj h
  refine ⟨?_, hmarker, ?_, forM_eq_ok.mp hrunners, hseal⟩
  · unfold readManifest at hm'
    split at hm'
    · cases hm'
    · rename_i c hc
      exact ⟨c, hc, hm'⟩
  · rw [hdigest, Decidable.not_not.mp hne]

theorem validateRunner_eq_ok {r : List PyStr × String} (h : validateRunner env t r = .ok ()) :
    runnerDigest env t (TransferManifest.runnerPath r.fst) = .ok r.snd
      ∧ ((∃ c x, t.find (TransferManifest.runnerPath r.fst) = some (.file c x))
        ∨ t.find (TransferManifest.runnerPath r.fst) = some .dir) := by
  unfold validateRunner at h
  split at h
  · cases h
  · rename_i e he
    simp only [bind_eq_ok, guard_eq_ok] at h
    obtain ⟨digest, hdigest, hne, -⟩ := h
    rw [Decidable.not_not.mp hne] at hdigest
    refine ⟨hdigest, ?_⟩
    unfold runnerDigest at hdigest
    rw [he] at hdigest ⊢
    cases e with
    | dir => exact Or.inr rfl
    | file c x => exact Or.inl ⟨c, x, rfl⟩
    | symlink target => cases hdigest

/-- **A payload whose seal, if it holds the declared one, is the declared one.** -/
def SealSound (env : TransferEnv ν) (m : TransferManifest) (t : PayloadTree ν) : Prop :=
  ∀ name sha256, m.jobSeal = some (name, sha256) →
    ∀ c, t.content (TransferManifest.sealPath name) = some c → env.sha256 c = sha256

def SealCarried (m : TransferManifest) (t : PayloadTree ν) : Prop :=
  ∀ name sha256, m.jobSeal = some (name, sha256) →
    t.content (TransferManifest.sealPath name) ≠ none

theorem validateSeal_eq_ok (h : validateSeal env t m.jobSeal = .ok ()) : SealSound env m t ∧ SealCarried m t := by
  have hcontent : ∀ name sha256, m.jobSeal = some (name, sha256) →
      ∃ c, t.content (TransferManifest.sealPath name) = some c ∧ env.sha256 c = sha256 := by
    intro name sha256 heq
    rw [heq] at h
    unfold validateSeal at h
    simp only at h
    split at h
    · cases h
    · rename_i c hc
      split_ifs at h with hne
      · cases h
      · exact ⟨c, hc, Decidable.not_not.mp hne⟩
  refine ⟨fun name sha256 heq c hc => ?_, fun name sha256 heq hnone => ?_⟩
  · obtain ⟨c', hc', hsha⟩ := hcontent name sha256 heq
    obtain rfl := Option.some.inj (hc.symm.trans hc')
    exact hsha
  · obtain ⟨c, hc, -⟩ := hcontent name sha256 heq
    rw [hnone] at hc
    cases hc

theorem SealSound.of_subset {t' : PayloadTree ν} (h : SealSound env m t)
    (hsub : ∀ e ∈ t'.entries, e ∈ t.entries) : SealSound env m t' :=
  fun name sha256 heq c hc => h name sha256 heq c (PayloadTree.content_of_subset hsub hc)

theorem PayloadTree.erase_subset (t : PayloadTree ν) (p : List PyStr) :
    ∀ e ∈ (t.erase p).entries, e ∈ t.entries := fun _ he => (List.mem_filter.mp he).1

theorem PayloadTree.withoutTransfer_subset (t : PayloadTree ν) :
    ∀ e ∈ t.withoutTransfer.entries, e ∈ t.entries := fun _ he => (List.mem_filter.mp he).1

/-! ## Before and after -/

/-- What the transfer asks of the destination and of its bundle, whatever the state. -/
structure Takes (env : TransferEnv ν) (m : TransferManifest) : Prop where
  identity : env.identitySeed = .ok ()
  sequence : ∃ n, m.sequenceOf = .ok (some n)
  epoch : ∃ e, m.epochOf env = .ok e
  quiescent : m.priorKind.isQuiescent = true
  nameable : m.nameable = true
  runners : ∀ r ∈ m.runners, ∀ r' ∈ m.runners, r.fst = r'.fst → r.snd = r'.snd
  apart : ∀ name sha256, m.jobSeal = some (name, sha256) → name ≠ m.sealedMarker

/-- The store holds a runner, or takes it. -/
def Destination.Provides (f : Destination ν) (r : List PyStr × String) : Prop :=
  f.runners r.fst = some r.snd ∨ (f.runners r.fst = none ∧ f.isSealed = false)

/-- **The destination of the transfer**, with nothing in it that conflicts. -/
structure Ready (env : TransferEnv ν) (m : TransferManifest) (f : Destination ν) : Prop where
  here : f.workspaceId = m.destinationWorkspaceId
  runners : ∀ r ∈ m.runners, f.Provides r
  jobSeal : ∀ name sha256, m.jobSeal = some (name, sha256) →
    ∀ c, f.seals m.jobKey = some c → env.sha256 c = sha256

/-- **Before the job is the destination's**: no marker, no receipt, and what was copied or
put in place is of this transfer. -/
structure Before (env : TransferEnv ν) (m : TransferManifest) (f : Destination ν) : Prop where
  unmarked : ∀ mk ∈ f.markers, mk.jobId ≠ m.jobId
  unreceived : f.hasReceived m = false
  unacknowledged : f.acks m.transferId = none
  payload : ∀ t, f.payloads m.payloadKey = some t → validateBundle env t = .ok m
  staging : ∀ t, f.staging m.transferId = some t → ∀ m', validateBundle env t = .ok m' → m' = m

def Destination.markersOf (f : Destination ν) (m : TransferManifest) : List Marker :=
  f.markers.filter fun mk => mk.jobId = m.jobId

theorem findMarkerById_markersOf (f : Destination ν) (m : TransferManifest) :
    findMarkerById f.markers m.jobId = findMarkerById (f.markersOf m) m.jobId := by
  have hsame : f.markers.filter (fun x => x.kind.isCore && x.jobId == m.jobId)
      = (f.markersOf m).filter (fun x => x.kind.isCore && x.jobId == m.jobId) := by
    unfold Destination.markersOf
    rw [List.filter_filter]
    refine List.filter_congr fun x _ => ?_
    by_cases hid : x.jobId = m.jobId <;> simp [hid]
  unfold findMarkerById
  rw [hsame]

theorem findMarkerById_singleton {mk : Marker} (hone : f.markersOf m = [mk]) :
    findMarkerById f.markers m.jobId = .ok (if mk.kind.isCore = true then some mk else none) := by
  have hid : mk.jobId = m.jobId := by
    have hmem : mk ∈ f.markersOf m := by rw [hone]; exact List.mem_singleton_self mk
    exact of_decide_eq_true (List.mem_filter.mp hmem).2
  rw [findMarkerById_markersOf, hone]
  unfold findMarkerById
  by_cases hcore : mk.kind.isCore = true <;> simp [hcore, hid]

/-- **After the job became the destination's**: it has one marker, which the managers
know. -/
structure After (env : TransferEnv ν) (m : TransferManifest) (f : Destination ν) : Prop where
  marked : ∃ mk, f.markersOf m = [mk] ∧ mk.kind.isCore = true
    ∧ (mk.placement, mk.jobKey) = m.payloadKey
  payload : ∀ t, f.payloads m.payloadKey = some t → SealSound env m t
  acknowledged : ∀ a, f.acks m.transferId = some a → a.payloadSha256 = m.payloadSha256

/-- **The states of an import**, under way, crashed or over. -/
def Underway (env : TransferEnv ν) (m : TransferManifest) (f : Destination ν) : Prop :=
  Ready env m f ∧ (Before env m f ∨ After env m f)

theorem After.found (h : After env m f) :
    ∃ mk, f.markersOf m = [mk] ∧ findMarkerById f.markers m.jobId = .ok (some mk) ∧ mk ∈ f.markers
      ∧ mk.jobId = m.jobId ∧ (mk.placement, mk.jobKey) = m.payloadKey := by
  obtain ⟨mk, hone, hcore, hkey⟩ := h.marked
  have hmem : mk ∈ f.markers ∧ mk.jobId = m.jobId := by
    have hmem : mk ∈ f.markersOf m := by rw [hone]; exact List.mem_singleton_self mk
    obtain ⟨hmem, hid⟩ := List.mem_filter.mp hmem
    exact ⟨hmem, of_decide_eq_true hid⟩
  refine ⟨mk, hone, ?_, hmem.1, hmem.2, hkey⟩
  rw [findMarkerById_singleton hone, if_pos hcore]

theorem Before.notFound (h : Before env m f) : findMarkerById f.markers m.jobId = .ok none := by
  have hfilter : f.markers.filter (fun x => x.kind.isCore && x.jobId == m.jobId) = [] := by
    rw [List.filter_eq_nil_iff]
    intro mk hmk htrue
    exact h.unmarked mk hmk (beq_iff_eq.mp (Bool.and_eq_true _ _ ▸ htrue).2)
  unfold findMarkerById
  rw [hfilter]

/-! ## The runners -/

theorem Ready.setRunner (htakes : Takes env m) (h : Ready env m f) {r : List PyStr × String} (hr : r ∈ m.runners) :
    Ready env m (f.setRunner r.fst r.snd) := by
  refine ⟨h.here, fun r' hr' => ?_, h.jobSeal⟩
  unfold Destination.Provides Destination.setRunner
  simp only [Function.update_apply]
  split_ifs with hp
  · exact Or.inl (congrArg some (htakes.runners r hr r' hr' hp.symm))
  · exact h.runners r' hr'

namespace Importing

open Effects

variable {r : List PyStr × String}

/-- **One bundled runner** is there, is published, or is refused. -/
theorem installRunner_cases (hr : validateRunner env bundle r = .ok ()) (d : Destination ν) :
    (d.runners r.fst = some r.snd ∧ installRunner env bundle r d = ([], .ok ⟨⟩))
      ∨ ((d.runners r.fst = none ∧ d.isSealed = false)
        ∧ installRunner env bundle r d = ([d.setRunner r.fst r.snd], .ok ⟨⟩))
      ∨ (¬d.Provides r ∧ ∃ e, installRunner env bundle r d = ([], .error e)) := by
  obtain ⟨hdigest, hfind⟩ := validateRunner_eq_ok hr
  have hnone : d.runners r.fst = none → installRunner env bundle r d
      = (if d.isSealed = true then raise ⟨.sealed, [.lit "the workspace is sealed"]⟩
        else ofExcept (runnerDigest env bundle (TransferManifest.runnerPath r.fst))
          >>= fun digest => effect (·.setRunner r.fst digest) : Importing ν PUnit) d := by
    intro hfound
    unfold installRunner
    rw [run_current_bind, hfound]
    rcases hfind with ⟨c, x, hfind⟩ | hfind
    · simp only [hfind]
    · simp only [hfind]
  cases hfound : d.runners r.fst with
  | some existing =>
    unfold installRunner
    rw [run_current_bind, hfound]
    by_cases heq : existing = r.snd
    · subst heq
      refine Or.inl ⟨rfl, ?_⟩
      simp only [if_true]
      rfl
    · refine Or.inr (Or.inr ⟨?_, ?_⟩)
      · rintro (h | ⟨h, -⟩)
        · exact heq (Option.some.inj (hfound.symm.trans h))
        · cases hfound.symm.trans h
      · simp only [if_neg heq]
        exact ⟨_, rfl⟩
  | none =>
    rw [hnone hfound]
    by_cases hsealed : d.isSealed = true
    · refine Or.inr (Or.inr ⟨?_, ?_⟩)
      · rintro (h | ⟨-, h⟩)
        · cases hfound.symm.trans h
        · rw [hsealed] at h
          cases h
      · simp only [if_pos hsealed]
        exact ⟨_, rfl⟩
    · refine Or.inr (Or.inl ⟨⟨rfl, eq_false_of_ne_true hsealed⟩, ?_⟩)
      simp only [if_neg hsealed, hdigest]
      rfl

section Runners

variable {J : Destination ν → Prop} (hcarries : Carries env bundle m) (htakes : Takes env m)
variable (hJ : ∀ s p d, J s → J (s.setRunner p d))

include hcarries htakes hJ

theorem installRunner_crashing (hr : r ∈ m.runners) :
    Crashing (fun s => Ready env m s ∧ J s) (installRunner env bundle r)
      (fun _ s => Ready env m s ∧ J s) (fun s => Ready env m s ∧ J s) := by
  rintro d ⟨hready, hd⟩
  have hset : Ready env m (d.setRunner r.fst r.snd) ∧ J (d.setRunner r.fst r.snd) :=
    ⟨hready.setRunner htakes hr, hJ d _ _ hd⟩
  rcases installRunner_cases (hcarries.runners r hr) d with ⟨-, h⟩ | ⟨-, h⟩ | ⟨hnot, -⟩
  · refine ⟨fun c hc => ?_, fun a s' ha => ?_⟩
    · unfold Visits at hc
      rw [h] at hc
      rw [List.mem_singleton.mp hc]
      exact ⟨hready, hd⟩
    · rw [← ha.2, final, h]
      exact ⟨hready, hd⟩
  · refine ⟨fun c hc => ?_, fun a s' ha => ?_⟩
    · unfold Visits at hc
      rw [h] at hc
      rcases List.mem_cons.mp hc with rfl | hc
      · exact ⟨hready, hd⟩
      · rw [List.mem_singleton.mp hc]
        exact hset
    · rw [← ha.2, final, h]
      exact hset
  · exact absurd (hready.runners r hr) hnot

theorem installRunners_crashing :
    Crashing (fun s => Ready env m s ∧ J s) (execAll (installRunner env bundle) m.runners)
      (fun _ s => Ready env m s ∧ J s) (fun s => Ready env m s ∧ J s) :=
  Crashing.all fun _ hr => installRunner_crashing hcarries htakes hJ hr

theorem installRunners_total :
    Total (fun s => Ready env m s ∧ J s) (execAll (installRunner env bundle) m.runners) := by
  refine Total.all (fun r hr => ?_) fun _ hr => installRunner_crashing hcarries htakes hJ hr
  rintro d ⟨hready, -⟩
  rcases installRunner_cases (hcarries.runners r hr) d with ⟨-, h⟩ | ⟨-, h⟩ | ⟨hnot, -⟩
  · exact ⟨⟨⟩, _, by rw [h], rfl⟩
  · exact ⟨⟨⟩, _, by rw [h], rfl⟩
  · exact absurd (hready.runners r hr) hnot

end Runners

/-! ## Tidying up -/

/-- The job is the destination's, which stays ready for the transfer. -/
def Arrived (env : TransferEnv ν) (m : TransferManifest) (f : Destination ν) : Prop :=
  Ready env m f ∧ After env m f

theorem arrived_setPayload (h : Arrived env m f) (ht : SealSound env m t) :
    Arrived env m (f.setPayload m.payloadKey t) := by
  refine ⟨⟨h.1.here, h.1.runners, h.1.jobSeal⟩, ⟨h.2.marked, fun t' ht' => ?_, h.2.acknowledged⟩⟩
  have ht' : Function.update f.payloads m.payloadKey (some t) m.payloadKey = some t' := ht'
  rw [Function.update_self] at ht'
  exact Option.some.inj ht' ▸ ht

theorem removeTransfer_crashing (ht : SealSound env m t) :
    Crashing (Arrived env m) (removeTransfer env m.payloadKey t) (fun _ => Arrived env m)
      (Arrived env m) := by
  refine Crashing.all fun t' ht' => ?_
  have hsound : SealSound env m t' := by
    rcases List.mem_append.mp ht' with ht' | ht'
    · exact ht.of_subset (env.removed_entries t t' ht')
    · rw [List.mem_singleton.mp ht']
      exact ht.of_subset t.withoutTransfer_subset
  exact Crashing.once (fun _ h => h) (fun _ h => arrived_setPayload h hsound) (fun _ h => arrived_setPayload h hsound)

variable {P : Destination ν → Prop}

variable {key : List String × JobKey}

theorem removeTransfer_total : Total P (removeTransfer env key t) := Total.effects

theorem installSeal_crashing (ht : SealSound env m t) :
    Crashing (Arrived env m) (installSeal env m t) (fun _ => Arrived env m) (Arrived env m) := by
  unfold installSeal
  split
  · exact Crashing.ret (fun _ h => h) (fun _ h => h)
  · rename_i name sha256 heq
    split
    · exact Crashing.throw fun _ h => h
    · rename_i carried hcarried
      refine Crashing.look fun d hd => ?_
      split
      · split_ifs
        · exact Crashing.ret (fun _ h => h ▸ hd) (fun _ h => h ▸ hd)
        · exact Crashing.throw fun _ h => h ▸ hd
      · have hset : Arrived env m (d.setSeal m.jobKey carried) := by
          refine ⟨⟨hd.1.here, hd.1.runners, fun name' sha' heq' c hc => ?_⟩,
            ⟨hd.2.marked, hd.2.payload, hd.2.acknowledged⟩⟩
          have hc : Function.update d.seals m.jobKey (some carried) m.jobKey = some c := hc
          rw [Function.update_self] at hc
          obtain rfl := Option.some.inj hc
          exact ht name' sha' heq' carried (by
            obtain ⟨rfl, rfl⟩ := Prod.mk.inj (Option.some.inj (heq.symm.trans heq'))
            exact hcarried)
        exact Crashing.once (fun _ h => h ▸ hd) (fun _ h => h ▸ hset) (fun _ h => h ▸ hset)

theorem installSeal_total (ht : SealCarried m t) : Total (Arrived env m) (installSeal env m t) := by
  unfold installSeal
  split
  · exact Total.ret
  · rename_i name sha256 heq
    split
    · rename_i hnone
      exact absurd hnone (ht name sha256 heq)
    · refine Total.look fun d hd => ?_
      split
      · rename_i existing hexisting
        rw [if_pos (hd.1.jobSeal name sha256 heq existing hexisting)]
        exact Total.ret
      · exact Total.once

variable {always : Bool}

theorem finishPayload_crashing :
    Crashing (Arrived env m) (finishPayload env m m.payloadKey always) (fun _ => Arrived env m)
      (Arrived env m) := by
  refine Crashing.look fun d hd => ?_
  split
  · rename_i t ht
    have hsound := hd.2.payload t ht
    split_ifs
    · exact ((installSeal_crashing hsound).seq fun _ => removeTransfer_crashing hsound).conseq
        (fun _ h => h ▸ hd) (fun _ _ h => h) fun _ h => h
    · exact Crashing.ret (fun _ h => h ▸ hd) (fun _ h => h ▸ hd)
  · exact Crashing.ret (fun _ h => h ▸ hd) (fun _ h => h ▸ hd)

theorem finishPayload_total : Total (fun s => Arrived env m s ∧ ∀ t, s.payloads m.payloadKey = some t →
        (always || t.hasTransfer) = true → SealCarried m t)
      (finishPayload env m m.payloadKey always) := by
  refine Total.look fun d ⟨hd, hcarried⟩ => ?_
  split
  · rename_i t ht
    split_ifs with htransfer
    · have hseal := (installSeal_total (hcarried t ht htransfer)).weaken (S := (· = d)) fun _ h => h ▸ hd
      refine hseal.seq (R := fun _ => Arrived env m) ((installSeal_crashing
        (hd.2.payload t ht)).conseq (fun _ h => h ▸ hd) (fun _ _ h => h) fun _ h => h) fun _ => ?_
      exact removeTransfer_total
    · exact Total.ret
  · exact Total.ret

/-! ## From the bundle to the marker -/

/-- The job is not the destination's, which is ready for the transfer. -/
def Pending (env : TransferEnv ν) (m : TransferManifest) (f : Destination ν) : Prop :=
  Ready env m f ∧ Before env m f

theorem underway_of_arrived (h : Arrived env m f) : Underway env m f := ⟨h.1, Or.inr h.2⟩

theorem underway_of_pending (h : Pending env m f) : Underway env m f := ⟨h.1, Or.inl h.2⟩

theorem manifest_of_copied (hcarries : Carries env bundle m)
    (ht : t ∈ env.copied bundle ++ [bundle]) {m' : TransferManifest}
    (h : validateBundle env t = .ok m') : m' = m := by
  obtain ⟨c, hc, hloads⟩ := (validateBundle_eq_ok h).manifest
  obtain ⟨c₁, hc₁, hloads₁⟩ := hcarries.manifest
  rcases List.mem_append.mp ht with ht | ht
  · obtain ⟨c₀, hc₀, hsame | ⟨e, herror⟩⟩ := env.copied_manifest bundle t ht c hc
    · obtain rfl : c₀ = c₁ := Option.some.inj (hc₀.symm.trans hc₁)
      rw [hloads, hloads₁] at hsame
      exact Except.ok.inj hsame
    · rw [hloads] at herror
      cases herror
  · rw [List.mem_singleton.mp ht] at hc
    obtain rfl : c = c₁ := Option.some.inj (hc.symm.trans hc₁)
    rw [hloads] at hloads₁
    exact Except.ok.inj hloads₁

theorem pending_setStaging (h : Pending env m f) (ht : ∀ m', validateBundle env t = .ok m' → m' = m) :
    Pending env m (f.setStaging m.transferId (some t)) := by
  refine ⟨⟨h.1.here, h.1.runners, h.1.jobSeal⟩,
    ⟨h.2.unmarked, h.2.unreceived, h.2.unacknowledged, h.2.payload, fun t' ht' => ?_⟩⟩
  have ht' : Function.update f.staging m.transferId (some t) m.transferId = some t' := ht'
  rw [Function.update_self] at ht'
  exact Option.some.inj ht' ▸ ht

/-- A whole copy of the bundle is staged. -/
def Staged (env : TransferEnv ν) (m : TransferManifest) (f : Destination ν) : Prop :=
  Pending env m f ∧ ∃ t, f.staging m.transferId = some t ∧ validateBundle env t = .ok m

def Placed (env : TransferEnv ν) (m : TransferManifest) (f : Destination ν) : Prop :=
  Pending env m f ∧ ∃ t, f.payloads m.payloadKey = some t ∧ validateBundle env t = .ok m

theorem stage_crashing (hbundle : validateBundle env bundle = .ok m) :
    Crashing (Pending env m) (stage env bundle m) (fun _ => Staged env m) (Pending env m) := by
  refine Crashing.look fun d hd => ?_
  split
  · rename_i staged hstaged
    refine Crashing.seq (R := fun m' s => s = d ∧ validateBundle env staged = .ok m')
      (Crashing.check (fun _ h => h ▸ hd) fun m' s hm' hs => ⟨hs, hm'⟩) fun m' => ?_
    split_ifs
    · exact Crashing.throw fun _ h => h.1 ▸ hd
    · refine Crashing.ret (fun _ h => h.1 ▸ hd) ?_
      rintro s ⟨rfl, hm'⟩
      obtain rfl := hd.2.staging staged hstaged m' hm'
      exact ⟨hd, staged, hstaged, hm'⟩
  · have hcarries := validateBundle_eq_ok hbundle
    have hput : ∀ t ∈ env.copied bundle ++ [bundle], ∀ s, Pending env m s →
        Pending env m (s.setStaging m.transferId (some t)) :=
      fun t ht s hs => pending_setStaging hs fun m' => manifest_of_copied hcarries ht
    have hlast : ∀ s, Pending env m s → Staged env m (s.setStaging m.transferId (some bundle)) :=
      fun s hs => ⟨hput bundle (List.mem_append_right _ (List.mem_singleton_self _)) s hs, bundle,
        Function.update_self _ _ _, hbundle⟩
    refine (Crashing.last (P := Pending env m) (fun t ht => ?_) ?_).conseq (fun _ h => h ▸ hd)
      (fun _ _ h => h) fun _ h => h
    · have ht := hput t (List.mem_append_left _ ht)
      exact Crashing.once (fun _ h => h) ht ht
    · exact Crashing.once (fun _ h => h) (fun s h => (hlast s h).1) hlast

theorem publishStaged_crashing :
    Crashing (Staged env m) (publishStaged env m) (fun _ => Placed env m) (Pending env m) := by
  refine Crashing.look fun d hd => ?_
  obtain ⟨hpending, t, ht, hvalid⟩ := hd
  rw [ht]
  refine Crashing.seq (R := fun _ s => s = d)
    (Crashing.check (fun _ h => h ▸ hpending) fun _ _ _ hs => hs) fun digest => ?_
  have hput : Placed env m ((d.setStaging m.transferId none).setPayload m.payloadKey t) := by
    have hkey : ((d.setStaging m.transferId none).setPayload m.payloadKey t).payloads m.payloadKey
        = some t := Function.update_self _ _ _
    refine ⟨⟨⟨hpending.1.here, hpending.1.runners, hpending.1.jobSeal⟩, ⟨hpending.2.unmarked,
      hpending.2.unreceived, hpending.2.unacknowledged, fun t' ht' => ?_, fun t' ht' => ?_⟩⟩,
      t, hkey, hvalid⟩
    · rw [hkey] at ht'
      exact Option.some.inj ht' ▸ hvalid
    · have ht' : Function.update d.staging m.transferId none m.transferId = some t' := ht'
      rw [Function.update_self] at ht'
      cases ht'
  show Crashing _ (if digest ≠ m.payloadSha256 then _ else _) _ _
  split_ifs
  · exact Crashing.throw fun _ h => h ▸ hpending
  · exact Crashing.once (fun _ h => h ▸ hpending) (fun _ h => h ▸ hput.1) fun _ h => h ▸ hput

theorem placeBundle_crashing (hbundle : validateBundle env bundle = .ok m) :
    Crashing (Pending env m) (placeBundle env bundle m) (fun _ => Placed env m) (Pending env m) := by
  refine Crashing.look fun d hd => ?_
  split
  · rename_i target htarget
    have hvalid := hd.2.payload target htarget
    refine Crashing.seq (R := fun _ s => s = d) (Crashing.check (fun _ h => h ▸ hd) fun _ _ _ hs => hs) fun m' => ?_
    split_ifs
    · exact Crashing.throw fun _ h => h ▸ hd
    · exact Crashing.ret (fun _ h => h ▸ hd) fun _ h => h ▸ ⟨hd, target, htarget, hvalid⟩
  · exact ((stage_crashing hbundle).seq fun _ => publishStaged_crashing).conseq (fun _ h => h ▸ hd)
      (fun _ _ h => h) fun _ h => h

theorem isCore_of_isQuiescent {k : StateKind} (h : k.isQuiescent = true) : k.isCore = true := by
  cases k <;> first | rfl | cases h

/-- The job has its marker; what is left of the bundle is its payload. -/
def Marked (env : TransferEnv ν) (m : TransferManifest) (f : Destination ν) : Prop :=
  Arrived env m f ∧ ∃ t, validateBundle env t = .ok m
    ∧ f.payloads m.payloadKey = some (t.erase m.markerPath)

theorem pending_append (h : Pending env m f) (fr : Frame) : Pending env m (f.append fr) :=
  ⟨⟨h.1.here, h.1.runners, h.1.jobSeal⟩, ⟨h.2.unmarked, h.2.unreceived, h.2.unacknowledged, h.2.payload, h.2.staging⟩⟩

theorem marked_addMarker (hquiescent : m.priorKind.isQuiescent = true) (h : Pending env m f)
    (hvalid : validateBundle env t = .ok m) (ref : RecordRef) :
    Marked env m ((f.setPayload m.payloadKey (t.erase m.markerPath)).addMarker
      (m.importedMarker ref)) := by
  have hkey : ((f.setPayload m.payloadKey (t.erase m.markerPath)).addMarker
      (m.importedMarker ref)).payloads m.payloadKey = some (t.erase m.markerPath) :=
    Function.update_self _ _ _
  have hnone : f.markersOf m = [] :=
    List.filter_eq_nil_iff.mpr fun mk hmk htrue => h.2.unmarked mk hmk (of_decide_eq_true htrue)
  have hone : ((f.setPayload m.payloadKey (t.erase m.markerPath)).addMarker
      (m.importedMarker ref)).markersOf m = [m.importedMarker ref] := by
    show (f.markers ++ [m.importedMarker ref]).filter _ = _
    have hself : [m.importedMarker ref].filter (fun mk => mk.jobId = m.jobId)
        = [m.importedMarker ref] := List.filter_cons_of_pos (decide_eq_true rfl)
    rw [List.filter_append, hself]
    exact congrArg (· ++ _) hnone
  refine ⟨⟨⟨h.1.here, h.1.runners, h.1.jobSeal⟩,
    ⟨⟨_, hone, isCore_of_isQuiescent hquiescent, rfl⟩, fun t' ht' => ?_, fun a ha => ?_⟩⟩,
    t, hvalid, hkey⟩
  · rw [hkey] at ht'
    obtain rfl := Option.some.inj ht'
    exact (validateSeal_eq_ok (validateBundle_eq_ok hvalid).jobSeal).1.of_subset (t.erase_subset _)
  · have ha : f.acks m.transferId = some a := ha
    rw [h.2.unacknowledged] at ha
    cases ha

theorem publishMarker_crashing (hquiescent : m.priorKind.isQuiescent = true) :
    Crashing (Placed env m) (publishMarker m) (fun _ => Marked env m) (Underway env m) := by
  refine Crashing.look fun d hd => ?_
  obtain ⟨hpending, t, ht, hvalid⟩ := hd
  have happended := pending_append hpending (m.importedFrame d.workspaceId)
  have hbefore : ∀ s, s = d → Underway env m s := by
    rintro s rfl
    exact underway_of_pending hpending
  have hafter : ∀ s, s = d → Underway env m (s.append (m.importedFrame d.workspaceId)) := by
    rintro s rfl
    exact underway_of_pending happended
  refine Crashing.seq (R := fun _ s => s = d.append (m.importedFrame d.workspaceId))
    (Crashing.once hbefore hafter fun s h => by rw [h]) fun _ => ?_
  rw [ht]
  split_ifs
  · exact Crashing.throw fun _ h => h ▸ ⟨happended.1, Or.inl happended.2⟩
  · show Crashing _ (if _ then _ else _) _ _
    split_ifs
    · exact Crashing.throw fun _ h => h ▸ ⟨happended.1, Or.inl happended.2⟩
    · have hmarked := marked_addMarker hquiescent happended hvalid (.frame d.journal.length)
      exact Crashing.once (fun _ h => h ▸ ⟨happended.1, Or.inl happended.2⟩)
        (fun _ h => h ▸ ⟨hmarked.1.1, Or.inr hmarked.1.2⟩) fun _ h => h ▸ hmarked

variable {ack : Acknowledgement}

theorem acknowledge_crashing (hid : ack.transferId = m.transferId) (hdigest : ack.payloadSha256 = m.payloadSha256) :
    Crashing (Arrived env m) (acknowledge ack) (fun _ => Arrived env m) (Arrived env m) := by
  have hput : ∀ s, Arrived env m s → Arrived env m (s.setAck ack.transferId (some ack)) := by
    intro s hs
    refine ⟨⟨hs.1.here, hs.1.runners, hs.1.jobSeal⟩, ⟨hs.2.marked, hs.2.payload, fun a ha => ?_⟩⟩
    have ha : Function.update s.acks ack.transferId (some ack) m.transferId = some a := ha
    rw [← hid, Function.update_self] at ha
    rw [← Option.some.inj ha, hdigest]
  exact Crashing.seq (Crashing.once (fun _ h => h) hput hput) fun _ =>
    Crashing.ret (fun _ h => h) fun _ h => h

theorem importAbsent_crashing (hbundle : validateBundle env bundle = .ok m) :
    Crashing (Pending env m) (importAbsent env bundle m) (fun _ => Arrived env m)
      (Underway env m) := by
  refine ((placeBundle_crashing hbundle).conseq (fun _ h => h) (fun _ _ h => h)
    fun _ h => underway_of_pending h).seq fun _ => ?_
  split_ifs with hquiescent
  · exact Crashing.throw fun _ h => underway_of_pending h.1
  · refine (publishMarker_crashing (eq_true_of_ne_false hquiescent)).seq fun _ => ?_
    have hrecord : ∀ s, Marked env m s → Arrived env m (s.record m.transferId) := fun s hs =>
      ⟨⟨hs.1.1.here, hs.1.1.runners, hs.1.1.jobSeal⟩, ⟨hs.1.2.marked, hs.1.2.payload, hs.1.2.acknowledged⟩⟩
    refine Crashing.seq (R := fun _ => Arrived env m) (Crashing.once
      (fun _ h => underway_of_arrived h.1) (fun s hs => underway_of_arrived (hrecord s hs)) hrecord) fun _ => ?_
    refine (finishPayload_crashing.conseq (fun _ h => h) (fun _ _ h => h)
      fun _ h => underway_of_arrived h).seq fun _ => ?_
    refine Crashing.look fun d hd => ?_
    exact (acknowledge_crashing rfl rfl).conseq (fun _ h => h ▸ hd) (fun _ _ h => h) fun _ h => underway_of_arrived h

/-! ## An import of a job that is here -/

variable {mk : Marker}

theorem acknowledgeDuplicate_crashing (hkey : (mk.placement, mk.jobKey) = m.payloadKey) :
    Crashing (Arrived env m) (acknowledgeDuplicate env m mk) (fun _ => Arrived env m)
      (Arrived env m) := by
  refine Crashing.look fun d hd => ?_
  refine Crashing.seq (R := fun _ s => s = d) (Crashing.check (fun _ h => h ▸ hd) fun _ _ _ hs => hs) fun state => ?_
  split
  · exact Crashing.throw fun _ h => h ▸ hd
  · split_ifs
    · exact Crashing.throw fun _ h => h ▸ hd
    · exact Crashing.throw fun _ h => h ▸ hd
    · rw [hkey]
      exact (finishPayload_crashing.seq fun _ => acknowledge_crashing rfl rfl).conseq
        (fun _ h => h ▸ hd) (fun _ _ h => h) fun _ h => h

def Knows (env : TransferEnv ν) (m : TransferManifest) (known : Option Marker)
    (f : Destination ν) : Prop :=
  match known with
  | none => Before env m f
  | some mk => After env m f ∧ (mk.placement, mk.jobKey) = m.payloadKey

variable {known : Option Marker}

theorem knows_setRunner (h : Knows env m known f) (p : List PyStr)
    (digest : String) : Knows env m known (f.setRunner p digest) := by
  cases known with
  | none => exact ⟨h.unmarked, h.unreceived, h.unacknowledged, h.payload, h.staging⟩
  | some mk => exact ⟨⟨h.1.marked, h.1.payload, h.1.acknowledged⟩, h.2⟩

theorem underway_of_knows (h : Ready env m f ∧ Knows env m known f) :
    Underway env m f := by
  cases known with
  | none => exact underway_of_pending h
  | some mk => exact underway_of_arrived ⟨h.1, h.2.1⟩

theorem importKnown_crashing (hbundle : validateBundle env bundle = .ok m) (htakes : Takes env m) :
    Crashing (fun s => Ready env m s ∧ Knows env m known s) (importKnown env bundle known)
      (fun _ => Arrived env m) (Underway env m) := by
  refine Crashing.seq (R := fun m' s => (Ready env m s ∧ Knows env m known s) ∧ m' = m)
    (Crashing.check (fun _ h => underway_of_knows h) fun m' s hm' hs =>
      ⟨hs, Except.ok.inj (hm'.symm.trans hbundle)⟩) fun m' => ?_
  refine Crashing.look ?_
  rintro d ⟨hd, rfl⟩
  split
  · rename_i ack hack
    split_ifs
    · exact Crashing.throw fun _ h => h ▸ underway_of_knows hd
    · refine Crashing.ret (fun _ h => h ▸ underway_of_knows hd) fun _ h => h ▸ ?_
      cases known with
      | none => exact absurd (hd.2.unacknowledged.symm.trans hack) (by simp)
      | some mk => exact ⟨hd.1, hd.2.1⟩
  · split_ifs
    · exact Crashing.throw fun _ h => h ▸ underway_of_knows hd
    · refine Crashing.seq (R := fun _ s => Ready env m' s ∧ Knows env m' known s)
        (Crashing.check (fun _ h => h ▸ underway_of_knows hd) fun _ _ _ h => h ▸ hd) fun _ => ?_
      have hrunners := installRunners_crashing (J := Knows env m' known)
        (validateBundle_eq_ok hbundle) htakes fun s p digest hs => knows_setRunner hs p digest
      refine (hrunners.conseq (fun _ h => h) (fun _ _ h => h) fun _ h =>
        underway_of_knows h).seq fun _ => ?_
      cases known with
      | none => exact importAbsent_crashing hbundle
      | some mk =>
        intro s hs
        exact (acknowledgeDuplicate_crashing hs.2.2).conseq (fun _ h => h) (fun _ _ h => h)
          (fun _ h => underway_of_arrived h) s ⟨hs.1, hs.2.1⟩

theorem checkReplay_crashing : Crashing P (checkReplay m known) (fun _ => P) P := by
  unfold checkReplay
  split
  · refine Crashing.look fun d hd => ?_
    refine Crashing.seq (R := fun _ s => s = d)
      (Crashing.check (fun _ h => h ▸ hd) fun _ _ _ hs => hs) fun state => ?_
    split
    · split_ifs
      · exact Crashing.ret (fun _ h => h ▸ hd) fun _ h => h ▸ hd
      · exact Crashing.throw fun _ h => h ▸ hd
    · exact Crashing.throw fun _ h => h ▸ hd
  · split_ifs
    · exact Crashing.throw fun _ h => h
    · exact Crashing.ret (fun _ h => h) fun _ h => h

theorem arrived_remember (h : Arrived env m f) : Arrived env m (f.remember m) := by
  unfold Destination.remember
  split
  · exact h
  · exact ⟨⟨h.1.here, h.1.runners, h.1.jobSeal⟩, ⟨h.2.marked, h.2.payload, h.2.acknowledged⟩⟩

theorem receive_crashing (hbundle : validateBundle env bundle = .ok m) (htakes : Takes env m) :
    Crashing (fun s => Ready env m s ∧ Knows env m known s) (receive env bundle m known)
      (fun _ => Arrived env m) (Underway env m) := by
  refine Crashing.look fun d hd => ?_
  split_ifs with hreceived
  · cases known with
    | none => exact absurd (hd.2.unreceived.symm.trans hreceived) (by simp)
    | some mk =>
      exact (checkReplay_crashing (P := Arrived env m)).conseq (fun _ h => h ▸ ⟨hd.1, hd.2.1⟩)
        (fun _ _ h => h) fun _ h => underway_of_arrived h
  · refine ((importKnown_crashing hbundle htakes).conseq (fun _ h => h ▸ hd) (fun _ _ h => h)
      fun _ h => h).seq fun _ => ?_
    exact Crashing.once (fun _ h => underway_of_arrived h)
      (fun _ h => underway_of_arrived (arrived_remember h)) fun _ h => arrived_remember h

theorem pruneReceipts_crashing :
    Crashing (Arrived env m) (pruneReceipts m) (fun _ => Arrived env m) (Arrived env m) := by
  have hack : ∀ s, Arrived env m s → Arrived env m (s.setAck m.transferId none) := by
    intro s hs
    refine ⟨⟨hs.1.here, hs.1.runners, hs.1.jobSeal⟩, ⟨hs.2.marked, hs.2.payload, fun a ha => ?_⟩⟩
    have ha : Function.update s.acks m.transferId none m.transferId = some a := ha
    rw [Function.update_self] at ha
    cases ha
  have hforget : ∀ s, Arrived env m s → Arrived env m (s.forget m.transferId) := fun s hs =>
    ⟨⟨hs.1.here, hs.1.runners, hs.1.jobSeal⟩, ⟨hs.2.marked, hs.2.payload, hs.2.acknowledged⟩⟩
  exact Crashing.seq (Crashing.once (fun _ h => h) hack hack) fun _ =>
    Crashing.once (fun _ h => h) hforget hforget

theorem knows_of_found (h : Underway env m f) (hknown : findMarkerById f.markers m.jobId = .ok known) :
    Ready env m f ∧ Knows env m known f := by
  refine ⟨h.1, ?_⟩
  rcases h.2 with hbefore | hafter
  · obtain rfl : none = known := Except.ok.inj (hbefore.notFound.symm.trans hknown)
    exact hbefore
  · obtain ⟨mk, -, hfound, -, -, hkey⟩ := hafter.found
    obtain rfl : some mk = known := Except.ok.inj (hfound.symm.trans hknown)
    exact ⟨hafter, hkey⟩

theorem mapError_eq_ok {α ε ε' : Type} {x : Except ε α} {h : ε → ε'} {a : α}
    (hx : x.mapError h = .ok a) : x = .ok a := by
  cases x with
  | error e => cases hx
  | ok b => exact congrArg Except.ok (Except.ok.inj hx)

theorem importBundle_crashing (hbundle : validateBundle env bundle = .ok m) (htakes : Takes env m) :
    Crashing (Underway env m) (importBundle env bundle) (fun _ => Arrived env m)
      (Underway env m) := by
  refine Crashing.seq (R := fun m' s => Underway env m s ∧ m' = m) (Crashing.check (fun _ h => h) fun m' s hm' hs =>
      ⟨hs, Except.ok.inj (hm'.symm.trans hbundle)⟩) fun m' => ?_
  refine Crashing.look ?_
  rintro d ⟨hd, rfl⟩
  split_ifs
  · exact Crashing.throw fun _ h => h ▸ hd
  · refine Crashing.seq (R := fun known s => Ready env m' s ∧ Knows env m' known s)
      (Crashing.check (fun _ h => h ▸ hd) ?_) fun known => ?_
    · rintro known s hknown rfl
      exact knows_of_found hd (mapError_eq_ok hknown)
    · refine Crashing.seq (R := fun _ s => Ready env m' s ∧ Knows env m' known s)
        (Crashing.check (fun _ h => underway_of_knows h) fun _ _ _ h => h) fun n => ?_
      split
      · exact importKnown_crashing hbundle htakes
      · refine Crashing.seq (R := fun _ s => Ready env m' s ∧ Knows env m' known s)
          (Crashing.check (fun _ h => underway_of_knows h) fun _ _ _ h => h) fun _ => ?_
        refine Crashing.seq (R := fun _ s => Ready env m' s ∧ Knows env m' known s)
          (Crashing.check (fun _ h => underway_of_knows h) fun _ _ _ h => h) fun _ => ?_
        refine (receive_crashing hbundle htakes).seq fun _ => ?_
        refine (pruneReceipts_crashing.conseq (fun _ h => h) (fun _ _ h => h)
          fun _ h => underway_of_arrived h).seq fun _ => ?_
        exact Crashing.ret (fun _ h => underway_of_arrived h) fun _ h => h

/-! ## A destination that takes the bundle -/

variable {u : PUnit}

theorem installRunners_returns {l : List (List PyStr × String)} (hl : ∀ r ∈ l, validateRunner env bundle r = .ok ())
    (h : (execAll (installRunner env bundle) l).Returns f u g) :
    (∃ R, g = { f with runners := R }) ∧ (∀ r ∈ l, f.Provides r ∧ g.runners r.fst = some r.snd)
      ∧ ∀ p digest, f.runners p = some digest → g.runners p = some digest := by
  induction l generalizing f with
  | nil =>
    obtain ⟨-, rfl⟩ := returns_pure.mp h
    exact ⟨⟨f.runners, rfl⟩, fun r hr => absurd hr List.not_mem_nil, fun _ _ h => h⟩
  | cons r l ih =>
    obtain ⟨v, s, hr, hrest⟩ := returns_bind.mp h
    obtain ⟨⟨R, rfl⟩, hall, hgrow⟩ := ih (fun r' hr' => hl r' (List.mem_cons_of_mem _ hr')) hrest
    rcases installRunner_cases (hl r List.mem_cons_self) f with
      ⟨hthere, heq⟩ | ⟨⟨hnone, hunsealed⟩, heq⟩ | ⟨-, e, heq⟩
    · have hs : f = s := by rw [← hr.2, final, heq]; rfl
      subst hs
      refine ⟨⟨R, rfl⟩, ?_, hgrow⟩
      intro r' hr'
      rcases List.mem_cons.mp hr' with rfl | hr'
      · exact ⟨Or.inl hthere, hgrow _ _ hthere⟩
      · exact hall r' hr'
    · have hs : f.setRunner r.fst r.snd = s := by rw [← hr.2, final, heq]; rfl
      subst hs
      have hself : (f.setRunner r.fst r.snd).runners r.fst = some r.snd :=
        Function.update_self _ _ _
      have hother : ∀ p, p ≠ r.fst → (f.setRunner r.fst r.snd).runners p = f.runners p :=
        fun p hp => Function.update_of_ne hp _ _
      refine ⟨⟨R, rfl⟩, ?_, ?_⟩
      · intro r' hr'
        rcases List.mem_cons.mp hr' with rfl | hr'
        · exact ⟨Or.inr ⟨hnone, hunsealed⟩, hgrow _ _ hself⟩
        · obtain ⟨hprovides, hset⟩ := hall r' hr'
          refine ⟨?_, hset⟩
          by_cases hp : r'.fst = r.fst
          · exact Or.inr ⟨hp ▸ hnone, hunsealed⟩
          · unfold Destination.Provides at hprovides ⊢
            rwa [hother _ hp] at hprovides
      · intro p digest hp
        refine hgrow p digest ?_
        rw [hother p fun heq => ?_]
        · exact hp
        · rw [heq, hnone] at hp
          cases hp
    · have hok := hr.1
      rw [heq] at hok
      cases hok

theorem placeBundle_seals {F : JobKey → Option ν} :
    Crashing (fun s => s.seals = F) (placeBundle env bundle m) (fun _ s => s.seals = F)
      (fun _ => True) := by
  refine Crashing.look fun d hd => ?_
  split
  · refine Crashing.seq (R := fun _ s => s = d) (Crashing.check (fun _ _ => trivial) fun _ _ _ hs => hs) fun m' => ?_
    split_ifs
    · exact Crashing.throw fun _ _ => trivial
    · exact Crashing.ret (fun _ _ => trivial) fun _ h => h ▸ hd
  · refine Crashing.seq (R := fun _ s => s.seals = F) ?_ fun _ => ?_
    · refine Crashing.look fun d' hd' => ?_
      have hd' : d'.seals = F := hd' ▸ hd
      split
      · refine Crashing.seq (R := fun _ s => s = d') (Crashing.check (fun _ _ => trivial)
          fun _ _ _ hs => hs) fun m' => ?_
        split_ifs
        · exact Crashing.throw fun _ _ => trivial
        · exact Crashing.ret (fun _ _ => trivial) fun _ h => h ▸ hd'
      · have hput : Crashing (fun s => s.seals = F) (copyTree env m.transferId bundle)
            (fun _ s => s.seals = F) (fun s => s.seals = F) :=
          Crashing.all fun t _ => Crashing.once (fun _ h => h) (fun _ h => h) fun _ h => h
        exact hput.conseq (fun _ h => h ▸ hd') (fun _ _ h => h) fun _ _ => trivial
    · refine Crashing.look fun d' hd' => ?_
      split
      · exact Crashing.throw fun _ _ => trivial
      · refine Crashing.seq (R := fun _ s => s = d') (Crashing.check (fun _ _ => trivial)
          fun _ _ _ hs => hs) fun digest => ?_
        split_ifs
        · exact Crashing.throw fun _ _ => trivial
        · exact Crashing.once (fun _ _ => trivial) (fun _ _ => trivial) fun _ h => h ▸ hd'

theorem publishMarker_returns (h : (publishMarker m).Returns f u g) : m.nameable = true ∧ g.seals = f.seals
      ∧ ∃ t : PayloadTree ν, g.payloads m.payloadKey = some (t.erase m.markerPath) := by
  obtain ⟨v, s, hs, h⟩ := returns_bind.mp (returns_current_bind.mp h)
  obtain ⟨-, rfl⟩ := returns_emit.mp hs
  split_ifs at h with hname
  · exact absurd h returns_raise
  · split at h
    · rename_i t ht
      split_ifs at h
      · exact absurd h returns_raise
      · obtain ⟨-, rfl⟩ := returns_emit.mp h
        exact ⟨eq_true_of_ne_false hname, rfl, t, Function.update_self _ _ _⟩
    · exact absurd h returns_raise

theorem finishPayload_returns (h : (finishPayload env m key always).Returns f u g) (ht : f.payloads key = some t)
    (htidy : (always || t.hasTransfer) = true) {name : PyStr} {sha256 : String}
    (hseal : m.jobSeal = some (name, sha256)) :
    t.content (TransferManifest.sealPath name) ≠ none
      ∧ ∀ c, f.seals m.jobKey = some c → env.sha256 c = sha256 := by
  have h := returns_current_bind.mp h
  rw [ht] at h
  simp only [if_pos htidy] at h
  obtain ⟨v, s, h, -⟩ := returns_bind.mp h
  unfold installSeal at h
  rw [hseal] at h
  simp only at h
  split at h
  · exact absurd h returns_raise
  · rename_i carried hcarried
    refine ⟨by rw [hcarried]; simp, fun c hc => ?_⟩
    have h := returns_current_bind.mp h
    rw [hc] at h
    simp only at h
    split_ifs at h with hsha
    · exact hsha
    · exact absurd h returns_raise

theorem importKnown_returns (hbundle : validateBundle env bundle = .ok m)
    (hacks : f.acks m.transferId = none)
    (h : (importKnown env bundle known).Returns f ack g) :
    ∃ s, (execAll (installRunner env bundle) m.runners).Returns f ⟨⟩ s
      ∧ (match known with
        | some mk => acknowledgeDuplicate env m mk
        | none => importAbsent env bundle m).Returns s ack g := by
  obtain ⟨m', s, hm', h⟩ := returns_bind.mp h
  obtain ⟨hvalid, rfl⟩ := returns_ofExcept.mp hm'
  obtain rfl : m = m' := Except.ok.inj (hbundle.symm.trans hvalid)
  have h := returns_current_bind.mp h
  rw [hacks] at h
  simp only at h
  split_ifs at h
  · exact absurd h returns_raise
  · obtain ⟨u, s, hs, h⟩ := returns_bind.mp h
    obtain ⟨-, rfl⟩ := returns_ofExcept.mp hs
    obtain ⟨v, s, hs, h⟩ := returns_bind.mp h
    exact ⟨s, hs, h⟩

theorem receive_returns (h : (receive env bundle m known).Returns f u g) :
    (f.hasReceived m = true ∧ (checkReplay m known).Returns f u g)
      ∨ (f.hasReceived m = false ∧ ∃ ack s, (importKnown env bundle known).Returns f ack s) := by
  have h := returns_current_bind.mp h
  split_ifs at h with hreceived
  · exact Or.inl ⟨hreceived, h⟩
  · obtain ⟨ack, s, hs, -⟩ := returns_bind.mp h
    exact Or.inr ⟨eq_false_of_ne_true hreceived, ack, s, hs⟩

theorem importBundle_returns (hbundle : validateBundle env bundle = .ok m) (hsequence : m.transferSequence ≠ none)
    (h : (importBundle env bundle).Returns f ack g) :
    f.workspaceId = m.destinationWorkspaceId ∧ env.identitySeed = .ok ()
      ∧ (∃ n, m.sequenceOf = .ok (some n)) ∧ (∃ e, m.epochOf env = .ok e)
      ∧ ∃ known s, findMarkerById f.markers m.jobId = .ok known
        ∧ (receive env bundle m known).Returns f ⟨⟩ s := by
  obtain ⟨m', s, hm', h⟩ := returns_bind.mp h
  obtain ⟨hvalid, rfl⟩ := returns_ofExcept.mp hm'
  obtain rfl : m = m' := Except.ok.inj (hbundle.symm.trans hvalid)
  have h := returns_current_bind.mp h
  split_ifs at h with hne
  · exact absurd h returns_raise
  obtain ⟨known, s, hknown, h⟩ := returns_bind.mp h
  obtain ⟨hfound, rfl⟩ := returns_ofExcept.mp hknown
  obtain ⟨n, s, hn, h⟩ := returns_bind.mp h
  obtain ⟨hnumber, rfl⟩ := returns_ofExcept.mp hn
  cases n with
  | none =>
    unfold TransferManifest.sequenceOf at hnumber
    split_ifs at hnumber
    · cases hnumber
    · exact absurd (Except.ok.inj hnumber) hsequence
  | some n =>
    obtain ⟨u, s, hu, h⟩ := returns_bind.mp h
    obtain ⟨hidentity, rfl⟩ := returns_ofExcept.mp hu
    obtain ⟨e, s, he, h⟩ := returns_bind.mp h
    obtain ⟨hepoch, rfl⟩ := returns_ofExcept.mp he
    obtain ⟨v, s, hreceive, -⟩ := returns_bind.mp h
    exact ⟨(Decidable.not_not.mp hne).symm, hidentity, ⟨n, hnumber⟩, ⟨e, hepoch⟩, known, s,
      mapError_eq_ok hfound, hreceive⟩

/-- **A destination that has nothing of the transfer** and takes its bundle, if nothing
interrupts the import. -/
structure Fresh (env : TransferEnv ν) (bundle : PayloadTree ν) (m : TransferManifest)
    (f : Destination ν) : Prop where
  unmarked : ∀ mk ∈ f.markers, mk.jobId ≠ m.jobId
  unreceived : f.hasReceived m = false
  unacknowledged : f.acks m.transferId = none
  payload : f.payloads m.payloadKey = none
  staging : f.staging m.transferId = none
  accepts : ∃ ack g, (importBundle env bundle).Returns f ack g

theorem Fresh.before (h : Fresh env bundle m f) : Before env m f := by
  refine ⟨h.unmarked, h.unreceived, h.unacknowledged, fun t ht => ?_, fun t ht => ?_⟩
  · rw [h.payload] at ht
    cases ht
  · rw [h.staging] at ht
    cases ht

theorem Fresh.accepted (hbundle : validateBundle env bundle = .ok m)
    (hsequence : m.transferSequence ≠ none) (h : Fresh env bundle m f) :
    Takes env m ∧ Pending env m f := by
  obtain ⟨ack, g, hreturns⟩ := h.accepts
  obtain ⟨hhere, hidentity, hn, hepoch, known, s, hknown, hreceive⟩ :=
    importBundle_returns hbundle hsequence hreturns
  obtain rfl : none = known := Except.ok.inj (h.before.notFound.symm.trans hknown)
  obtain ⟨hreceived, -⟩ | ⟨-, ack', s', himport⟩ := receive_returns hreceive
  · rw [h.unreceived] at hreceived
    cases hreceived
  obtain ⟨f₁, hrunners, himport⟩ := importKnown_returns hbundle h.unacknowledged himport
  obtain ⟨⟨R, rfl⟩, hprovides, -⟩ :=
    installRunners_returns (validateBundle_eq_ok hbundle).runners hrunners
  -- the payload, the marker and the record of the import, and then the seal
  obtain ⟨u, f₂, hplace, himport⟩ := returns_bind.mp himport
  have hseals : f₂.seals = f.seals := ((placeBundle_seals : Crashing (fun s => s.seals = f.seals) _ _ _)
    { f with runners := R } rfl).2 u f₂ hplace
  split_ifs at himport with hquiescent
  · exact absurd himport returns_raise
  obtain ⟨v, f₃, hmarker, himport⟩ := returns_bind.mp himport
  obtain ⟨hnameable, hseals', t, ht⟩ := publishMarker_returns hmarker
  obtain ⟨w, f₄, hrecord, himport⟩ := returns_bind.mp himport
  obtain ⟨-, rfl⟩ := returns_emit.mp hrecord
  obtain ⟨x, f₅, hfinish, -⟩ := returns_bind.mp himport
  have hseal := fun name sha256 (heq : m.jobSeal = some (name, sha256)) =>
    finishPayload_returns (t := t.erase m.markerPath) hfinish ht rfl heq
  refine ⟨⟨hidentity, hn, hepoch, eq_true_of_ne_false hquiescent, hnameable, ?_, ?_⟩,
    ⟨hhere, fun r hr => (hprovides r hr).1, fun name sha256 heq c hc => ?_⟩, h.before⟩
  · intro r hr r' hr' hp
    have h₁ := (hprovides r hr).2
    rw [hp, (hprovides r' hr').2] at h₁
    exact (Option.some.inj h₁).symm
  · intro name sha256 heq hname
    refine (hseal name sha256 heq).1 ?_
    subst hname
    cases hcontent : (t.erase m.markerPath).content (TransferManifest.sealPath m.sealedMarker) with
    | none => rfl
    | some c =>
      obtain ⟨y, hy⟩ := PayloadTree.content_eq_some_iff.mp hcontent
      exact absurd rfl (of_decide_eq_true (List.mem_filter.mp hy).2)
  · refine (hseal name sha256 heq).2 c ?_
    show f₃.seals m.jobKey = some c
    rw [hseals', hseals]
    exact hc

/-! ## Which states an import returns from -/

/-- The `transfer` member of the frame a marker refers to. -/
def provenanceAt (f : Destination ν) (mk : Marker) : Option (List (PyStr × Json)) :=
  match f.readState mk with
  | .ok fr => fr.members.mapping .transfer
  | .error _ => none

/-- **The states an import can be taken up from**: a staged copy that will be used is whole;
a frame that tells of the transfer is still the job's, if it will be asked; and a payload
that still has its transfer directory still has the seal in it, if that will be looked for. -/
structure Resumable (env : TransferEnv ν) (m : TransferManifest) (f : Destination ν) : Prop where
  staging : (∀ mk ∈ f.markers, mk.jobId ≠ m.jobId) → f.payloads m.payloadKey = none →
    ∀ t, f.staging m.transferId = some t → ∃ m', validateBundle env t = .ok m'
  received : f.hasReceived m = true → ∀ mk ∈ f.markers, mk.jobId = m.jobId →
    ∃ p, provenanceAt f mk = some p ∧ m.sameTransfer p = true ∧ m.sameDigest p = true
      ∧ m.sameEpoch p = true
  imported : f.hasReceived m = false → f.acks m.transferId = none → ∀ mk ∈ f.markers,
    mk.jobId = m.jobId →
      (∃ p, provenanceAt f mk = some p ∧ m.sameTransfer p = true ∧ m.sameDigest p = true)
        ∧ ∀ t, f.payloads m.payloadKey = some t → t.hasTransfer = true → SealCarried m t

theorem readState_of_provenanceAt {p : List (PyStr × Json)} (h : provenanceAt f mk = some p) :
    ∃ fr, f.readState mk = .ok fr ∧ fr.members.mapping .transfer = some p := by
  unfold provenanceAt at h
  split at h
  · rename_i fr hfr
    exact ⟨fr, hfr, h⟩
  · cases h

theorem stage_returns (h : (stage env bundle m).Returns f u g)
    (ht : f.staging m.transferId = some t) : ∃ m', validateBundle env t = .ok m' := by
  have h := returns_current_bind.mp h
  rw [ht] at h
  obtain ⟨m', s, hvalid, -⟩ := returns_bind.mp h
  exact ⟨m', (returns_ofExcept.mp hvalid).1⟩

theorem checkReplay_returns (h : (checkReplay m (some mk)).Returns f u g) :
    ∃ p, provenanceAt f mk = some p ∧ m.sameTransfer p = true ∧ m.sameDigest p = true
      ∧ m.sameEpoch p = true := by
  have h := returns_current_bind.mp h
  obtain ⟨fr, s, hfr, h⟩ := returns_bind.mp h
  obtain ⟨hstate, rfl⟩ := returns_ofExcept.mp hfr
  split at h
  · rename_i p hp
    split_ifs at h with hsame
    · simp only [Bool.and_eq_true] at hsame
      refine ⟨p, ?_, hsame.1.1, hsame.1.2, hsame.2⟩
      unfold provenanceAt
      rw [hstate]
      exact hp
    · exact absurd h returns_raise
  · exact absurd h returns_raise

theorem acknowledgeDuplicate_returns (hkey : (mk.placement, mk.jobKey) = m.payloadKey)
    (h : (acknowledgeDuplicate env m mk).Returns f ack g) :
    (∃ p, provenanceAt f mk = some p ∧ m.sameTransfer p = true ∧ m.sameDigest p = true)
      ∧ ∀ t, f.payloads m.payloadKey = some t → t.hasTransfer = true → SealCarried m t := by
  have h := returns_current_bind.mp h
  obtain ⟨fr, s, hfr, h⟩ := returns_bind.mp h
  obtain ⟨hstate, rfl⟩ := returns_ofExcept.mp hfr
  split at h
  · exact absurd h returns_raise
  · rename_i p hp
    split_ifs at h with htransfer hdigest
    · exact absurd h returns_raise
    · exact absurd h returns_raise
    · refine ⟨⟨p, ?_, eq_true_of_ne_false htransfer, eq_true_of_ne_false hdigest⟩, ?_⟩
      · unfold provenanceAt
        rw [hstate]
        exact hp
      · intro t ht hdir name sha256 heq
        obtain ⟨u, s, hfinish, -⟩ := returns_bind.mp h
        rw [hkey] at hfinish
        exact (finishPayload_returns hfinish ht hdir heq).1

theorem resumable_of_returns (hbundle : validateBundle env bundle = .ok m)
    (hsequence : m.transferSequence ≠ none) (hf : Underway env m f)
    (h : (importBundle env bundle).Returns f ack g) : Resumable env m f := by
  obtain ⟨-, -, -, -, known, s, hknown, hreceive⟩ := importBundle_returns hbundle hsequence h
  rcases hf.2 with hbefore | hafter
  · obtain rfl : none = known := Except.ok.inj (hbefore.notFound.symm.trans hknown)
    refine ⟨fun _ hnone t ht => ?_, fun _ mk hmk hid => absurd hid (hbefore.unmarked mk hmk),
      fun _ _ mk hmk hid => absurd hid (hbefore.unmarked mk hmk)⟩
    obtain ⟨hreceived, -⟩ | ⟨-, ack', s', himport⟩ := receive_returns hreceive
    · rw [hbefore.unreceived] at hreceived
      cases hreceived
    · obtain ⟨f₁, hrunners, himport⟩ := importKnown_returns hbundle hbefore.unacknowledged himport
      obtain ⟨⟨R, rfl⟩, -⟩ := installRunners_returns (validateBundle_eq_ok hbundle).runners hrunners
      obtain ⟨u, f₂, hplace, -⟩ := returns_bind.mp himport
      have hplace := returns_current_bind.mp hplace
      rw [show (({ f with runners := R } : Destination ν).payloads m.payloadKey) = none from hnone] at hplace
      obtain ⟨v, f₃, hstage, -⟩ := returns_bind.mp hplace
      exact stage_returns hstage ht
  · obtain ⟨mk, hone, hfound, -, -, hkey⟩ := hafter.found
    obtain rfl : some mk = known := Except.ok.inj (hfound.symm.trans hknown)
    -- the marker found is the only one of the job
    have honly : ∀ mk' ∈ f.markers, mk'.jobId = m.jobId → mk' = mk := by
      intro mk' hmk' hid
      have hmem : mk' ∈ f.markersOf m := List.mem_filter.mpr ⟨hmk', decide_eq_true hid⟩
      rw [hone] at hmem
      exact List.mem_singleton.mp hmem
    refine ⟨fun hnone => ?_, fun hreceived mk' hmk' hid => ?_, fun hunreceived hacks mk' hmk' hid =>
      ?_⟩
    · obtain ⟨mk₀, -, -, hmem, hid, -⟩ := hafter.found
      exact absurd hid (hnone mk₀ hmem)
    · obtain rfl := honly mk' hmk' hid
      obtain ⟨-, hreplay⟩ | ⟨hnot, -⟩ := receive_returns hreceive
      · exact checkReplay_returns hreplay
      · rw [hreceived] at hnot
        cases hnot
    · obtain rfl := honly mk' hmk' hid
      obtain ⟨hreceived, -⟩ | ⟨-, ack', s', himport⟩ := receive_returns hreceive
      · rw [hunreceived] at hreceived
        cases hreceived
      · obtain ⟨f₁, hrunners, himport⟩ := importKnown_returns hbundle hacks himport
        obtain ⟨⟨R, rfl⟩, -⟩ :=
          installRunners_returns (validateBundle_eq_ok hbundle).runners hrunners
        exact acknowledgeDuplicate_returns (f := { f with runners := R }) hkey himport

/-! ## An import that is resumable returns -/

theorem stage_total (hbundle : validateBundle env bundle = .ok m) :
    Total (fun s => Pending env m s ∧ ∀ t, s.staging m.transferId = some t →
      ∃ m', validateBundle env t = .ok m') (stage env bundle m) := by
  refine Total.look fun d ⟨hd, hwhole⟩ => ?_
  split
  · rename_i staged hstaged
    obtain ⟨m', hm'⟩ := hwhole staged hstaged
    obtain rfl := hd.2.staging staged hstaged m' hm'
    refine Total.seq (R := fun m₁ _ => m₁ = m') (C := fun _ => True) (Total.check hm')
      (Crashing.check (fun _ _ => trivial) fun m₁ _ hm₁ _ =>
        Except.ok.inj (hm₁.symm.trans hm')) fun m₁ => ?_
    intro s hm₁
    rw [hm₁, if_neg (fun h => h rfl)]
    exact Total.ret (P := fun _ => True) s trivial
  · exact Total.effects

theorem publishStaged_total : Total (Staged env m) (publishStaged env m) := by
  refine Total.look ?_
  rintro d ⟨-, t, ht, hvalid⟩
  rw [ht]
  have hdigest := (validateBundle_eq_ok hvalid).digest
  refine Total.seq (R := fun digest _ => digest = m.payloadSha256) (C := fun _ => True)
    (Total.check hdigest) (Crashing.check (fun _ _ => trivial) fun digest _ h _ =>
      Except.ok.inj (h.symm.trans hdigest)) fun digest => ?_
  intro s hsame
  rw [hsame, if_neg (fun h => h rfl)]
  exact Total.once (P := fun _ => True) s trivial

theorem placeBundle_total (hbundle : validateBundle env bundle = .ok m) :
    Total (fun s => Pending env m s ∧ (s.payloads m.payloadKey = none →
      ∀ t, s.staging m.transferId = some t → ∃ m', validateBundle env t = .ok m'))
      (placeBundle env bundle m) := by
  refine Total.look ?_
  rintro d ⟨hd, hwhole⟩
  split
  · rename_i target htarget
    have hvalid := hd.2.payload target htarget
    refine Total.seq (R := fun m' _ => m' = m) (C := fun _ => True) (Total.check hvalid)
      (Crashing.check (fun _ _ => trivial) fun m' _ h _ => Except.ok.inj (h.symm.trans hvalid))
      fun m' => ?_
    intro s hsame
    rw [hsame, if_neg (fun h => h rfl)]
    exact Total.ret (P := fun _ => True) s trivial
  · rename_i hnone
    refine Total.seq (R := fun _ => Staged env m) (C := Pending env m)
      ((stage_total hbundle).weaken ?_) ((stage_crashing hbundle).conseq ?_ (fun _ _ h => h)
      fun _ h => h) fun _ => publishStaged_total
    · rintro s rfl
      exact ⟨hd, hwhole hnone⟩
    · rintro s rfl
      exact hd

theorem publishMarker_total (hnameable : m.nameable = true) : Total (Placed env m) (publishMarker m) := by
  refine Total.look ?_
  rintro d ⟨-, t, ht, hvalid⟩
  refine Total.seq (R := fun _ _ => True) (C := fun _ => True) Total.once
    (Crashing.once (fun _ _ => trivial) (fun _ _ => trivial) fun _ _ => trivial) fun _ => ?_
  rw [ht, hnameable]
  have hmarker : (t.content m.markerPath).isNone = false :=
    Option.isNone_eq_false_iff.mpr (Option.isSome_iff_ne_none.mpr (validateBundle_eq_ok hvalid).marker)
  show Total _ (if (t.content m.markerPath).isNone = true then _ else _)
  rw [hmarker]
  exact Total.once

theorem sealCarried_of_marked (htakes : Takes env m) (hvalid : validateBundle env t = .ok m) :
    SealCarried m (t.erase m.markerPath) := by
  intro name sha256 heq
  have hapart : TransferManifest.sealPath name ≠ m.markerPath := by
    intro h
    exact htakes.apart name sha256 heq (List.cons.inj (List.cons.inj h).2).1
  rw [PayloadTree.content_erase hapart]
  exact (validateSeal_eq_ok (validateBundle_eq_ok hvalid).jobSeal).2 name sha256 heq

theorem acknowledge_total : Total P (acknowledge ack) := by
  refine Total.seq (R := fun _ _ => True) (C := fun _ => True) Total.once ?_ fun _ => Total.ret
  exact Crashing.once (fun _ _ => trivial) (fun _ _ => trivial) fun _ _ => trivial

theorem importAbsent_total (hbundle : validateBundle env bundle = .ok m) (htakes : Takes env m) :
    Total (fun s => Pending env m s ∧ (s.payloads m.payloadKey = none →
      ∀ t, s.staging m.transferId = some t → ∃ m', validateBundle env t = .ok m'))
      (importAbsent env bundle m) := by
  refine Total.seq (placeBundle_total hbundle)
    ((placeBundle_crashing hbundle).conseq (fun _ h => h.1) (fun _ _ h => h) fun _ h => h)
    fun _ => ?_
  rw [htakes.quiescent]
  refine Total.seq (publishMarker_total htakes.nameable) (publishMarker_crashing htakes.quiescent) fun _ => ?_
  refine Total.seq (R := fun _ => Marked env m) (C := fun _ => True) Total.once
    (Crashing.once (fun _ _ => trivial) (fun _ _ => trivial) fun s hs =>
      ⟨⟨⟨hs.1.1.here, hs.1.1.runners, hs.1.1.jobSeal⟩,
        ⟨hs.1.2.marked, hs.1.2.payload, hs.1.2.acknowledged⟩⟩, hs.2⟩) fun _ => ?_
  refine Total.seq (finishPayload_total.weaken ?_)
    (finishPayload_crashing.conseq (fun _ h => h.1) (fun _ _ h => h) fun _ h => h)
    fun _ => Total.look fun _ _ => acknowledge_total
  rintro s ⟨hs, t, hvalid, ht⟩
  refine ⟨hs, fun t' ht' _ => ?_⟩
  rw [ht] at ht'
  exact Option.some.inj ht' ▸ sealCarried_of_marked htakes hvalid

theorem acknowledgeDuplicate_total (hkey : (mk.placement, mk.jobKey) = m.payloadKey) : Total (fun s => Arrived env m s
        ∧ (∃ p, provenanceAt s mk = some p ∧ m.sameTransfer p = true ∧ m.sameDigest p = true)
        ∧ ∀ t, s.payloads m.payloadKey = some t → t.hasTransfer = true → SealCarried m t)
      (acknowledgeDuplicate env m mk) := by
  refine Total.look ?_
  rintro d ⟨hd, ⟨p, hp, htransfer, hdigest⟩, hcarried⟩
  obtain ⟨fr, hstate, hmember⟩ := readState_of_provenanceAt hp
  refine Total.seq (R := fun fr' s => fr' = fr ∧ s = d) (C := fun _ => True) (Total.check hstate)
    (Crashing.check (fun _ _ => trivial) fun fr' s h hs =>
      ⟨Except.ok.inj (h.symm.trans hstate), hs⟩) fun fr' => ?_
  rintro s ⟨rfl, rfl⟩
  rw [hmember]
  simp only [htransfer, hdigest, Bool.true_eq_false, if_false]
  rw [hkey]
  refine Total.seq (P := (· = s)) (finishPayload_total.weaken ?_)
    (finishPayload_crashing.conseq (S := (· = s)) (fun _ h => h ▸ hd) (fun _ _ h => h)
      fun _ h => h) (fun _ => acknowledge_total) s rfl
  rintro s' rfl
  exact ⟨hd, fun t ht hdir => hcarried t ht hdir⟩

/-- What an import that makes no use of a receipt goes on with. -/
def Continues (env : TransferEnv ν) (m : TransferManifest) (known : Option Marker)
    (f : Destination ν) : Prop :=
  match known with
  | none => f.payloads m.payloadKey = none → ∀ t, f.staging m.transferId = some t →
      ∃ m', validateBundle env t = .ok m'
  | some mk => f.acks m.transferId = none →
      (∃ p, provenanceAt f mk = some p ∧ m.sameTransfer p = true ∧ m.sameDigest p = true)
        ∧ ∀ t, f.payloads m.payloadKey = some t → t.hasTransfer = true → SealCarried m t

theorem continues_setRunner (h : Continues env m known f) (p : List PyStr)
    (digest : String) : Continues env m known (f.setRunner p digest) := by
  cases known with
  | none => exact h
  | some mk => exact h

theorem importKnown_total (hbundle : validateBundle env bundle = .ok m) (htakes : Takes env m) :
    Total (fun s => Ready env m s ∧ Knows env m known s ∧ Continues env m known s)
      (importKnown env bundle known) := by
  refine Total.seq (R := fun m' s => (Ready env m s ∧ Knows env m known s
      ∧ Continues env m known s) ∧ m' = m) (C := fun _ => True) (Total.check hbundle)
    (Crashing.check (fun _ _ => trivial) fun m' s h hs =>
      ⟨hs, Except.ok.inj (h.symm.trans hbundle)⟩) fun m' => ?_
  refine Total.look ?_
  rintro d ⟨⟨hready, hknows, hcontinues⟩, rfl⟩
  split
  · rename_i ack hack
    have hdigest : ack.payloadSha256 = m'.payloadSha256 := by
      cases known with
      | none =>
        have hnone := hknows.unacknowledged
        rw [hack] at hnone
        cases hnone
      | some mk => exact hknows.1.acknowledged ack hack
    rw [if_neg (fun h => h hdigest)]
    exact Total.ret
  · rename_i hack
    rw [if_neg (fun h => h hready.here.symm)]
    have hrunners := installRunners_total
      (J := fun s => (Knows env m' known s ∧ Continues env m' known s) ∧ s.acks m'.transferId = none)
      (validateBundle_eq_ok hbundle) htakes fun s p digest hs =>
        ⟨⟨knows_setRunner hs.1.1 p digest, continues_setRunner hs.1.2 p digest⟩, hs.2⟩
    have hkept := installRunners_crashing
      (J := fun s => (Knows env m' known s ∧ Continues env m' known s) ∧ s.acks m'.transferId = none)
      (validateBundle_eq_ok hbundle) htakes fun s p digest hs =>
        ⟨⟨knows_setRunner hs.1.1 p digest, continues_setRunner hs.1.2 p digest⟩, hs.2⟩
    refine Total.seq (R := fun _ s => Ready env m' s ∧ (Knows env m' known s
        ∧ Continues env m' known s) ∧ s.acks m'.transferId = none) (C := fun _ => True)
      (Total.check htakes.identity) (Crashing.check (fun _ _ => trivial) fun _ _ _ h =>
        h ▸ ⟨hready, ⟨hknows, hcontinues⟩, hack⟩) fun _ => ?_
    refine Total.seq hrunners hkept fun _ => ?_
    cases known with
    | none =>
      exact (importAbsent_total hbundle htakes).weaken fun s hs => ⟨⟨hs.1, hs.2.1.1⟩, hs.2.1.2⟩
    | some mk =>
      intro s hs
      exact acknowledgeDuplicate_total hs.2.1.1.2 s ⟨⟨hs.1, hs.2.1.1.1⟩, hs.2.1.2 hs.2.2⟩

theorem checkReplay_total : Total (fun s : Destination ν => ∃ p, provenanceAt s mk = some p ∧ m.sameTransfer p = true
      ∧ m.sameDigest p = true ∧ m.sameEpoch p = true) (checkReplay m (some mk)) := by
  refine Total.look ?_
  rintro d ⟨p, hp, htransfer, hdigest, hepoch⟩
  obtain ⟨fr, hstate, hmember⟩ := readState_of_provenanceAt hp
  refine Total.seq (R := fun fr' (_ : Destination ν) => fr' = fr) (C := fun _ => True) (Total.check hstate)
    (Crashing.check (fun _ _ => trivial) fun fr' _ h _ => Except.ok.inj (h.symm.trans hstate))
    fun fr' => ?_
  rintro s rfl
  rw [hmember]
  simp only [htransfer, hdigest, hepoch, Bool.and_self, if_true]
  exact Total.ret (P := fun _ => True) s trivial

theorem importBundle_of_receive (hbundle : validateBundle env bundle = .ok m) (htakes : Takes env m)
    (hhere : f.workspaceId = m.destinationWorkspaceId)
    (hknown : findMarkerById f.markers m.jobId = .ok known)
    (hs : (receive env bundle m known).Returns f ⟨⟩ g) :
    (importBundle env bundle).Returns f (m.sequenceAck m.destinationWorkspaceId)
      ((g.setAck m.transferId none).forget m.transferId) := by
  obtain ⟨n, hn⟩ := htakes.sequence
  obtain ⟨e, he⟩ := htakes.epoch
  have hprune : (pruneReceipts m).Returns g ⟨⟩ ((g.setAck m.transferId none).forget m.transferId) :=
    returns_bind.mpr ⟨⟨⟩, _, returns_emit.mpr ⟨rfl, rfl⟩, returns_emit.mpr ⟨rfl, rfl⟩⟩
  refine returns_bind.mpr ⟨m, f, returns_ofExcept.mpr ⟨hbundle, rfl⟩, returns_current_bind.mpr ?_⟩
  rw [if_neg (fun h => h hhere.symm)]
  refine returns_bind.mpr ⟨known, f, returns_ofExcept.mpr ⟨by rw [hknown]; rfl, rfl⟩, ?_⟩
  refine returns_bind.mpr ⟨some n, f, returns_ofExcept.mpr ⟨hn, rfl⟩, ?_⟩
  refine returns_bind.mpr ⟨(), f, returns_ofExcept.mpr ⟨htakes.identity, rfl⟩, ?_⟩
  refine returns_bind.mpr ⟨e, f, returns_ofExcept.mpr ⟨he, rfl⟩, ?_⟩
  refine returns_bind.mpr ⟨⟨⟩, g, hs, ?_⟩
  refine returns_bind.mpr ⟨⟨⟩, _, hprune, ?_⟩
  rw [← hhere]
  exact returns_pure.mpr ⟨rfl, rfl⟩

theorem returns_of_resumable (hbundle : validateBundle env bundle = .ok m)
    (htakes : Takes env m) (hf : Underway env m f) (h : Resumable env m f) :
    ∃ g, (importBundle env bundle).Returns f (m.sequenceAck m.destinationWorkspaceId) g
      ∧ (g.markersOf m).length = 1 := by
  obtain ⟨known, hknown⟩ : ∃ known, findMarkerById f.markers m.jobId = .ok known := by
    rcases hf.2 with hbefore | hafter
    · exact ⟨none, hbefore.notFound⟩
    · obtain ⟨mk, -, hfound, -⟩ := hafter.found
      exact ⟨some mk, hfound⟩
  have hknows := knows_of_found hf hknown
  -- the marker that is found is one of the tree
  have hmember : ∀ mk, known = some mk → mk ∈ f.markers ∧ mk.jobId = m.jobId := by
    rintro mk rfl
    obtain ⟨mk', -, hfound, hmem, hid, -⟩ := hknows.2.1.found
    obtain rfl : mk' = mk := Option.some.inj (Except.ok.inj (hfound.symm.trans hknown))
    exact ⟨hmem, hid⟩
  have hreceive : ∃ s, (receive env bundle m known).Returns f ⟨⟩ s := by
    by_cases hreceived : f.hasReceived m = true
    · cases known with
      | none =>
        rw [hknows.2.unreceived] at hreceived
        cases hreceived
      | some mk =>
        obtain ⟨hmem, hid⟩ := hmember mk rfl
        obtain ⟨u, s, hs⟩ := checkReplay_total f (h.received hreceived mk hmem hid)
        refine ⟨s, returns_current_bind.mpr ?_⟩
        rw [if_pos hreceived]
        exact hs
    · have hcontinues : Continues env m known f := by
        cases known with
        | none => exact h.staging hknows.2.unmarked
        | some mk =>
          obtain ⟨hmem, hid⟩ := hmember mk rfl
          exact fun hacks => h.imported (eq_false_of_ne_true hreceived) hacks mk hmem hid
      obtain ⟨ack, s, hs⟩ :=
        importKnown_total hbundle htakes f ⟨hknows.1, hknows.2, hcontinues⟩
      refine ⟨s.remember m, returns_current_bind.mpr ?_⟩
      rw [if_neg hreceived]
      exact returns_bind.mpr ⟨ack, s, hs, returns_emit.mpr ⟨rfl, rfl⟩⟩
  obtain ⟨s, hs⟩ := hreceive
  have hreturns := importBundle_of_receive hbundle htakes hf.1.here hknown hs
  refine ⟨_, hreturns, ?_⟩
  obtain ⟨mk, hone, -⟩ := ((importBundle_crashing hbundle htakes f hf).2 _ _ hreturns).2.marked
  rw [hone]
  rfl

/-! ## Runs of crashed imports and transitions -/

end Importing

/-- The marker of the job moves on, as `Workspace.transition` moves it. -/
def Destination.transition (f : Destination ν) (r : TransitionRequest) : Destination ν :=
  { f with
    markers := f.markers.map (fun mk =>
      if mk = r.marker then r.destination (.frame f.journal.length) else mk)
    journal := f.journal ++ [r.frame f.workspaceId] }

/-- **What happens to the imported job's workspace.** -/
inductive ImportLabel (ν : Type) where
  /-- The bundle is imported, to the end or to any of its effects. -/
  | attempt
  /-- A manager moves the job. -/
  | transition (r : TransitionRequest)
  /-- The job's processes change its payload. -/
  | work (t : PayloadTree ν)

/-- **Runs of imports** of one bundle that stop anywhere, among which the managers run
the job. -/
def importRuns (env : TransferEnv ν) (bundle : PayloadTree ν) (m : TransferManifest) :
    System (Destination ν) (ImportLabel ν) where
  init := Importing.Fresh env bundle m
  step f l f' :=
    match l with
    | .attempt => (Importing.importBundle env bundle).Visits f f'
    | .transition r =>
      r.marker ∈ f.markers ∧ r.marker.jobId = m.jobId ∧ r.kind.isCore = true ∧ f' = f.transition r
    | .work t =>
      (∃ mk ∈ f.markers, mk.jobId = m.jobId)
        ∧ (∃ t₀, f.payloads m.payloadKey = some t₀
          ∧ ∀ p, p.head? = some transferDirectory → t.find p = t₀.find p)
        ∧ f' = f.setPayload m.payloadKey t

theorem markersOf_transition (f : Destination ν) (r : TransitionRequest) :
    (f.transition r).markersOf m = (f.markersOf m).map fun mk =>
      if mk = r.marker then r.destination (.frame f.journal.length) else mk := by
  -- the job of no marker changes
  have hsame : ∀ mk : Marker, (decide ((if mk = r.marker
      then r.destination (.frame f.journal.length) else mk).jobId = m.jobId))
        = decide (mk.jobId = m.jobId) := by
    intro mk
    split_ifs with hmk
    · rw [hmk]
      rfl
    · rfl
  unfold Destination.markersOf Destination.transition
  rw [List.filter_map]
  exact congrArg _ (List.filter_congr fun mk _ => hsame mk)

theorem After.transition {r : TransitionRequest} (h : After env m f) (hmem : r.marker ∈ f.markers)
    (hid : r.marker.jobId = m.jobId) (hcore : r.kind.isCore = true) :
    After env m (f.transition r) := by
  obtain ⟨mk, hone, -, hkey⟩ := h.marked
  have hmk : r.marker = mk := by
    have hr : r.marker ∈ f.markersOf m := List.mem_filter.mpr ⟨hmem, decide_eq_true hid⟩
    rw [hone] at hr
    exact List.mem_singleton.mp hr
  refine ⟨⟨r.destination (.frame f.journal.length), ?_, hcore, ?_⟩, h.payload, h.acknowledged⟩
  · rw [markersOf_transition, hone, List.map_singleton, if_pos hmk.symm]
  · show (r.marker.placement, r.marker.jobKey) = m.payloadKey
    rw [hmk, hkey]

theorem After.work {t₀ : PayloadTree ν} (h : After env m f) (ht₀ : f.payloads m.payloadKey = some t₀)
    (hsame : ∀ p, p.head? = some transferDirectory → t.find p = t₀.find p) :
    After env m (f.setPayload m.payloadKey t) := by
  refine ⟨h.marked, fun t' ht' name sha256 heq c hc => ?_, h.acknowledged⟩
  have ht' : Function.update f.payloads m.payloadKey (some t) m.payloadKey = some t' := ht'
  rw [Function.update_self] at ht'
  obtain rfl := Option.some.inj ht'
  refine h.payload t₀ ht₀ name sha256 heq c ?_
  unfold PayloadTree.content at hc ⊢
  rwa [← hsame _ rfl]

/-- **The steps of a run keep what an import needs of its destination.** -/
theorem importRuns_step (hbundle : validateBundle env bundle = .ok m) {l : ImportLabel ν}
    (htakes : Takes env m) (hf : Underway env m f) (h : (importRuns env bundle m).step f l g) :
    Underway env m g := by
  cases l with
  | attempt => exact (Importing.importBundle_crashing hbundle htakes f hf).1 g h
  | transition r =>
    obtain ⟨hmem, hid, hcore, rfl⟩ := h
    rcases hf.2 with hbefore | hafter
    · exact absurd hid (hbefore.unmarked _ hmem)
    · exact ⟨⟨hf.1.here, hf.1.runners, hf.1.jobSeal⟩, Or.inr (hafter.transition hmem hid hcore)⟩
  | work t =>
    obtain ⟨⟨mk, hmk, hid⟩, ⟨t₀, ht₀, hsame⟩, rfl⟩ := h
    rcases hf.2 with hbefore | hafter
    · exact absurd hid (hbefore.unmarked mk hmk)
    · exact ⟨⟨hf.1.here, hf.1.runners, hf.1.jobSeal⟩, Or.inr (hafter.work ht₀ hsame)⟩

theorem importRuns_underway (hbundle : validateBundle env bundle = .ok m)
    (hsequence : m.transferSequence ≠ none) (hs : (importRuns env bundle m).Reachable f) :
    Takes env m ∧ Underway env m f := by
  refine System.Reachable.invariant (I := fun s => Takes env m ∧ Underway env m s) ?_ ?_ hs
  · intro s hfresh
    obtain ⟨htakes, hready, hbefore⟩ := Importing.Fresh.accepted hbundle hsequence hfresh
    exact ⟨htakes, hready, Or.inl hbefore⟩
  · intro s l s' _ ih hstep
    exact ⟨ih.1, importRuns_step hbundle ih.1 ih.2 hstep⟩

/-- **After any crashes, and whatever the managers did with the job since**, an import of the
same bundle returns its acknowledgement, with one marker of the job in the tree, exactly if
it is resumable. -/
theorem import_resumes (hbundle : validateBundle env bundle = .ok m)
    (hsequence : m.transferSequence ≠ none) (hs : (importRuns env bundle m).Reachable f) :
    (∃ g, (Importing.importBundle env bundle).Returns f (m.sequenceAck m.destinationWorkspaceId) g
      ∧ (g.markersOf m).length = 1) ↔ Importing.Resumable env m f := by
  obtain ⟨htakes, hunderway⟩ := importRuns_underway hbundle hsequence hs
  constructor
  · rintro ⟨g, hreturns, -⟩
    exact Importing.resumable_of_returns hbundle hsequence hunderway hreturns
  · exact Importing.returns_of_resumable hbundle htakes hunderway


/-! ## A copy cut short -/

namespace Importing

def detachedManifest : TransferManifest where
  format := "httk-workflow-detached-transfer"
  formatVersion := 2
  coreProfile := "core-v2"
  transferId := "0b4ac1d2-4c43-4f6b-8d1f-6a6cf6f0f5a1"
  sourceWorkspaceId := "2f5a3a4e-6a44-4c0f-9f0e-0d5b0a3b3c11"
  destinationWorkspaceId := "9a1c6d1e-2b7e-4f0a-8c53-5f1f2f7f9d22"
  jobKey := ⟨none, "7d444840-9dc0-11d1-b245-5ffdce74fad2"⟩
  sourcePlacement := ["a"]
  destinationPlacement := ["a"]
  payloadSha256 := "job.json: {}"
  runners := []
  jobSeal := none
  priorKind := .submitted
  priorState := .empty
  priority := 500
  sourceGeneration := 1
  sealedMarker := "marker"
  transferSequence := some 1
  transferEpoch := some "5d0c7a52-0a3f-4b9e-9d3c-1c2f3e4d5b66"

def detachedBundle : PayloadTree String where
  entries := [([transferDirectory], .dir),
    ([transferDirectory, transferManifest], .file "manifest" false),
    ([transferDirectory, "marker"], .file "" false),
    (["job.json"], .file "{}" false)]
  nodup := by decide +kernel

def copyingEnv : TransferEnv String where
  loads := fun text =>
    if text = "manifest" then .ok detachedManifest else raiseFormat [.lit "cannot read JSON object"]
  isUuid := fun text => text.length == 36
  sha256 := fun text => text
  digestOf := fun lines =>
    match lines with
    | [.file path _ sha256] => if path = "job.json" then "job.json: " ++ sha256 else ""
    | _ => ""
  treeDigest := fun _ => .ok ""
  identitySeed := .ok ()
  copied := fun _ => [⟨[], PayloadTree.nodup_empty⟩]
  removed := fun _ => []
  copied_paths := fun t t' ht' e he => by
    rw [List.mem_singleton.mp ht'] at he
    exact absurd he List.not_mem_nil
  copied_manifest := fun t t' ht' c hc => by
    rw [List.mem_singleton.mp ht'] at hc
    cases hc
  removed_entries := fun t t' ht' => absurd ht' List.not_mem_nil

def emptyDestination : Destination String where
  workspaceId := detachedManifest.destinationWorkspaceId
  isSealed := false
  runners := fun _ => none
  staging := fun _ => none
  payloads := fun _ => none
  markers := []
  journal := []
  imported := []
  seals := fun _ => none
  acks := fun _ => none
  received := fun _ => []

theorem detachedBundle_valid : validateBundle copyingEnv detachedBundle = .ok detachedManifest := by
  rfl

theorem emptyDestination_fresh : Fresh copyingEnv detachedBundle detachedManifest emptyDestination where
  unmarked := fun _ h => absurd h List.not_mem_nil
  unreceived := by decide +kernel
  unacknowledged := rfl
  payload := rfl
  staging := rfl
  accepts := ⟨_, _, rfl, rfl⟩

/-- **An import that stopped right after it made its staging directory** is not taken up:
the directory is no bundle. -/
theorem import_interrupted :
    ¬∀ f, (importRuns copyingEnv detachedBundle detachedManifest).Reachable f →
      ∃ g, (importBundle copyingEnv detachedBundle).Returns f
          (detachedManifest.sequenceAck detachedManifest.destinationWorkspaceId) g
        ∧ (g.markersOf detachedManifest).length = 1 := by
  intro hall
  have hcrash : ∃ s ∈ (importBundle copyingEnv detachedBundle emptyDestination).fst,
      s.markers = [] ∧ s.payloads detachedManifest.payloadKey = none
        ∧ s.staging detachedManifest.transferId = some ⟨[], List.nodup_nil⟩ :=
    ⟨_, List.mem_cons_self, rfl, rfl, rfl⟩
  obtain ⟨s, hs, hmarkers, hpayload, hstaging⟩ := hcrash
  have hstep : (importRuns copyingEnv detachedBundle detachedManifest).step emptyDestination
      .attempt s := List.mem_cons_of_mem _ hs
  have hreach := (System.Reachable.init emptyDestination_fresh).step hstep
  have hunmarked : ∀ mk ∈ s.markers, mk.jobId ≠ detachedManifest.jobId := by
    rw [hmarkers]
    exact fun _ h => absurd h List.not_mem_nil
  have hunderway := (importRuns_underway detachedBundle_valid (by decide) hreach).2
  obtain ⟨g, hreturns, -⟩ := hall s hreach
  have hresumable := resumable_of_returns detachedBundle_valid (by decide) hunderway hreturns
  obtain ⟨m', hvalid⟩ := hresumable.staging hunmarked hpayload _ hstaging
  cases hvalid

/-- The state an import left that was killed right after it published the marker. -/
def markerPublished : Destination String :=
  (importBundle copyingEnv detachedBundle emptyDestination).fst.getD 4 emptyDestination

theorem markerPublished_reachable :
    (importRuns copyingEnv detachedBundle detachedManifest).Reachable markerPublished := by
  have hmem : markerPublished ∈ (importBundle copyingEnv detachedBundle emptyDestination).fst :=
    List.mem_of_getElem? (i := 4) rfl
  have hstep : (importRuns copyingEnv detachedBundle detachedManifest).step emptyDestination
      .attempt markerPublished := List.mem_cons_of_mem _ hmem
  exact (System.Reachable.init emptyDestination_fresh).step hstep

/-- **An import killed between its marker and its receipt** is taken up again. -/
theorem import_resumes_published :
    markerPublished.markers.length = 1 ∧ markerPublished.hasReceived detachedManifest = false
      ∧ ∃ g, (importBundle copyingEnv detachedBundle).Returns markerPublished
          (detachedManifest.sequenceAck detachedManifest.destinationWorkspaceId) g
        ∧ (g.markersOf detachedManifest).length = 1 := by
  have htold : ∀ mk ∈ markerPublished.markers, ∃ p, provenanceAt markerPublished mk = some p
      ∧ detachedManifest.sameTransfer p = true ∧ detachedManifest.sameDigest p = true := by
    have hall : markerPublished.markers.all (fun mk => (provenanceAt markerPublished mk).any fun p =>
        detachedManifest.sameTransfer p && detachedManifest.sameDigest p) = true := by
      decide +kernel
    intro mk hmk
    obtain ⟨p, hp, hsame⟩ := Option.any_eq_true _ _ |>.mp (List.all_eq_true.mp hall mk hmk)
    exact ⟨p, hp, Bool.and_eq_true _ _ ▸ hsame⟩
  refine ⟨by decide +kernel, by decide +kernel,
    (import_resumes detachedBundle_valid (by decide) markerPublished_reachable).mpr ⟨?_, ?_, ?_⟩⟩
  · intro hunmarked
    have hmarked : markerPublished.markers.any (fun mk => mk.jobId = detachedManifest.jobId) = true := by
      decide +kernel
    obtain ⟨mk, hmk, hid⟩ := List.any_eq_true.mp hmarked
    exact absurd (of_decide_eq_true hid) (hunmarked mk hmk)
  · intro hreceived
    exact absurd hreceived (by decide +kernel)
  · intro _ _ mk hmk _
    exact ⟨htold mk hmk, fun t ht _ => fun name sha h => by cases h⟩

end Importing
