import HttkWorkflow.TransferBundle
import HttkWorkflow.CrashTriples

/-!
# Copies of a bundle that were interrupted

A push or a pull through a local or a mounted remote copies a sealed bundle
to `transfers/incoming/<transfer_id>` of the destination, and the transfer
command that asked for it then imports what is there and discards it. The
copy goes straight to its place: `copytree` makes the directory and writes
one entry after the other, in the order the disk lists them. A command that
is run again finds what the one before left, and `_copy` takes it for the
bundle when its manifest is the one of the source, and refuses it otherwise.

An attempt is run to some number of its effects here (`Attempt.stop`), and
what it leaves is where the next one starts. The import is an outcome that
is given: it reads the staging directory and leaves it as it is. A copy that
fails at one entry and goes on with the others has made what a copy in
another order has made when it is killed.

The directory left by an attempt can be finished by another exactly when
nothing is there or all of the bundle is (`resumable_iff`). Everything else
comes from a copy that was cut (`Attempt.Cut`), as the clean-up renames the
directory away before it removes it (`discardStagedBundle_keeps`).
-/

namespace PayloadTree

variable {ν : Type}

/-- A directory with nothing in it. -/
def bare : PayloadTree ν := ⟨[], List.nodup_nil⟩

variable {t : PayloadTree ν}

theorem mem_erase {p : List PyStr} {e : List PyStr × Entry ν} :
    e ∈ (t.erase p).entries ↔ e ∈ t.entries ∧ e.fst ≠ p := by
  show e ∈ t.entries.filter (fun e => e.fst ≠ p) ↔ _
  rw [List.mem_filter, decide_eq_true_iff]

/-- The directory after an entry was written to it. -/
def put (t : PayloadTree ν) (e : List PyStr × Entry ν) : PayloadTree ν :=
  ⟨(t.erase e.fst).entries ++ [e], by
    rw [List.map_append, List.nodup_append]
    refine ⟨(t.erase e.fst).nodup, List.nodup_singleton _, ?_⟩
    rintro p hp q hq rfl
    obtain ⟨e', he', rfl⟩ := List.mem_map.mp hp
    exact (mem_erase.mp he').2 (List.mem_singleton.mp hq)⟩

theorem mem_put {e e' : List PyStr × Entry ν} :
    e' ∈ (t.put e).entries ↔ (e' ∈ t.entries ∧ e'.fst ≠ e.fst) ∨ e' = e := by
  show e' ∈ (t.erase e.fst).entries ++ [e] ↔ _
  rw [List.mem_append, mem_erase, List.mem_singleton]

@[simp] theorem find_put (t : PayloadTree ν) (e : List PyStr × Entry ν) (p : List PyStr) :
    (t.put e).find p = if p = e.fst then some e.snd else t.find p := by
  refine Option.ext fun e' => ?_
  rw [find_eq_some_iff, mem_put]
  split_ifs with hp
  · subst hp
    constructor
    · rintro (h | h)
      · exact absurd rfl h.2
      · exact congrArg some (congrArg Prod.snd h).symm
    · intro h
      exact Or.inr (Prod.ext rfl (Option.some.inj h).symm)
  · rw [find_eq_some_iff]
    constructor
    · rintro (h | h)
      · exact h.1
      · exact absurd (congrArg Prod.fst h) hp
    · exact fun h => Or.inl ⟨h, hp⟩

/-- **Two directories hold the same.** -/
def Same (t t' : PayloadTree ν) : Prop := ∀ p, t.find p = t'.find p

theorem Same.content {t t' : PayloadTree ν} (h : t.Same t') (p : List PyStr) : t.content p = t'.content p := by
  unfold PayloadTree.content
  rw [h p]

theorem find_of_perm {l : List (List PyStr × Entry ν)} (h : l.Perm t.entries)
    (p : List PyStr) : l.lookup p = t.find p := by
  have hnodup : (l.map Prod.fst).Nodup := (h.map Prod.fst).nodup_iff.mpr t.nodup
  refine Option.ext fun e => ?_
  rw [find_eq_some_iff, ← h.mem_iff]
  exact find_eq_some_iff (t := ⟨l, hnodup⟩)

end PayloadTree

/-! ## A copy -/

/-- **What a place for a bundle holds.** -/
inductive CopyPlace (ν : Type) where
  | absent
  /-- Something that is no directory. -/
  | other
  | tree (t : PayloadTree ν)
deriving DecidableEq, Repr

/-- **What an attempt takes from the disk.** -/
structure CopyDisk (ν : Type) where
  /-- The entries of a directory, in the order they are copied. -/
  listing : PayloadTree ν → List (List PyStr × Entry ν)
  listing_perm : ∀ t, (listing t).Perm t.entries
  /-- What a file holds while it is being written, step by step. -/
  written : ν → Bool → List (ν × Bool)
  /-- What an unfinished removal of a directory leaves, step by step. -/
  removed : PayloadTree ν → List (PayloadTree ν)

/-- **`transfers/incoming/<transfer_id>`**, and what it is renamed to when it is discarded. -/
structure Incoming (ν : Type) where
  /-- `transfers/incoming/<transfer_id>`. -/
  staging : CopyPlace ν
  /-- `tmp/consumed.<transfer_id>`. -/
  consumed : CopyPlace ν
deriving DecidableEq, Repr

/-- A part of a transfer command. -/
abbrev Bringing (ν α : Type) := Effects (Incoming ν) Exc α

namespace Incoming

variable {ν : Type}

/-- The staging directory changes. -/
def setStaging (d : Incoming ν) (place : CopyPlace ν) : Incoming ν := { d with staging := place }

/-- The discarded directory changes. -/
def setConsumed (d : Incoming ν) (place : CopyPlace ν) : Incoming ν := { d with consumed := place }

@[simp] theorem staging_setStaging (d : Incoming ν) (place : CopyPlace ν) : (d.setStaging place).staging = place := rfl

/-- An entry is written below the staging directory. -/
def write (d : Incoming ν) (e : List PyStr × Entry ν) : Incoming ν :=
  match d.staging with
  | .tree t => d.setStaging (.tree (t.put e))
  | _ => d

end Incoming

namespace CopyDisk

variable {ν : Type}

/-- `copy2`, `os.symlink` or `os.mkdir` of one entry: what it looks like, step by step. -/
def entrySteps (disk : CopyDisk ν) (e : List PyStr × Entry ν) : List (List PyStr × Entry ν) :=
  match e.snd with
  | .file c x => (disk.written c x).map (fun w => (e.fst, .file w.fst w.snd)) ++ [e]
  | _ => [e]

def steps (disk : CopyDisk ν) (source : PayloadTree ν) : List (List PyStr × Entry ν) :=
  (disk.listing source).flatMap disk.entrySteps

end CopyDisk

namespace Bringing

variable {ν : Type}

/-- One effect that returns nothing. -/
def effect (f : Incoming ν → Incoming ν) : Bringing ν PUnit := Effects.emit f ⟨⟩

/-- `shutil.copytree(source, destination, symlinks=True)`. -/
def copyTree (disk : CopyDisk ν) (source : PayloadTree ν) : Bringing ν PUnit := do
  effect (·.setStaging (.tree .bare))
  Effects.puts (fun e d => d.write e) (disk.steps source)

/-- `raise FileExistsError(destination)`. -/
def refuse : Bringing ν PUnit := Effects.raise ⟨.osError, [.lit "File exists"]⟩

/-- Whether two directories have a manifest, and the same one. -/
def sameManifest [DecidableEq ν] (source destination : PayloadTree ν) : Bool :=
  match source.content TransferManifest.path, destination.content TransferManifest.path with
  | some c, some c' => c = c'
  | _, _ => false

/-- **`_copy`** of a directory. -/
def copy [DecidableEq ν] (disk : CopyDisk ν) (source : PayloadTree ν) : Bringing ν PUnit := do
  let d ← Effects.current
  match d.staging with
  | .absent => copyTree disk source
  | .other => refuse
  | .tree destination => if sameManifest source destination = true then pure ⟨⟩ else refuse

/-- `_remove_tree` of the discarded directory, if it is there. -/
def removeConsumed (disk : CopyDisk ν) : Bringing ν PUnit := do
  let d ← Effects.current
  match d.consumed with
  | .absent => pure ⟨⟩
  | .other => effect (·.setConsumed .absent)
  | .tree t => do
    Effects.puts (fun t' d => d.setConsumed (.tree t')) (disk.removed t)
    effect (·.setConsumed .absent)

def discardStagedBundle (disk : CopyDisk ν) : Bringing ν PUnit := do
  let d ← Effects.current
  match d.staging with
  | .absent => pure ⟨⟩
  | _ => do
    removeConsumed disk
    effect fun d => ⟨.absent, d.staging⟩
    removeConsumed disk

/-- **One run of the transfer command**, as far as it concerns the staging directory: the
copy, the import with what comes of it, and the clean-up. -/
def transfer [DecidableEq ν] (disk : CopyDisk ν) (imported : Except Exc PUnit)
    (source : PayloadTree ν) : Bringing ν PUnit := do
  copy disk source
  Effects.ofExcept imported
  discardStagedBundle disk

end Bringing

/-! ## Attempts -/

/-- **An attempt at a transfer**: what it takes from the disk, what comes of its import,
and the number of effects after which it is stopped. -/
structure Attempt (ν : Type) where
  disk : CopyDisk ν
  /-- What `import_bundles` returns or raises. -/
  imported : Except Exc PUnit
  /-- The number of effects it comes to. -/
  stop : Nat

variable {ν : Type} [DecidableEq ν]

open Bringing

def Incoming.after (source : PayloadTree ν) (d : Incoming ν) (a : Attempt ν) : Incoming ν :=
  (transfer a.disk a.imported source).stopped d a.stop

/-- The states a run of attempts goes through. -/
def Incoming.reached (source : PayloadTree ν) (d : Incoming ν) : List (Attempt ν) → List (Incoming ν)
  | [] => [d]
  | a :: rest => d :: (d.after source a).reached source rest

/-- **A later attempt finds** what a state leaves to it. -/
def Incoming.Later (source : PayloadTree ν) (d d' : Incoming ν) : Prop :=
  ∃ run : List (Attempt ν), run.foldl (Incoming.after source) d = d'

/-- **A transfer can be finished** by running it again: a copy that returns leaves the
source at the destination, and not every later copy is refused. -/
structure Incoming.Resumable (source : PayloadTree ν) (d : Incoming ν) : Prop where
  copied : ∀ disk d', (copy disk source).Returns d ⟨⟩ d' → ∃ t, d'.staging = .tree t ∧ t.Same source
  goesOn : ¬∀ d', d.Later source d' → ∀ disk, ∃ e d'', (copy disk source).Raises d' e d''

/-- **A copy that is cut**: it has made the staging directory, and not yet everything in it. -/
def Attempt.Cut (source : PayloadTree ν) (d : Incoming ν) (a : Attempt ν) : Prop :=
  d.staging = .absent ∧ 0 < a.stop
    ∧ ¬(((a.disk.steps source).take (a.stop - 1)).foldl PayloadTree.put .bare).Same source

/-- No copy of a run is cut. -/
def Incoming.Uncut (source : PayloadTree ν) (d : Incoming ν) : List (Attempt ν) → Prop
  | [] => True
  | a :: rest => ¬a.Cut source d ∧ (d.after source a).Uncut source rest

/-- **Nothing is staged, or the whole bundle.** -/
def Incoming.Whole (source : PayloadTree ν) (d : Incoming ν) : Prop :=
  d.staging = .absent ∨ ∃ t, d.staging = .tree t ∧ t.Same source

/-! ## What a copy makes -/

namespace CopyDisk

omit [DecidableEq ν]

variable {l : List (List PyStr × Entry ν)}

theorem find_foldl_put_of_ne {p : List PyStr} (h : ∀ e ∈ l, p ≠ e.fst)
    (t : PayloadTree ν) : (l.foldl PayloadTree.put t).find p = t.find p := by
  induction l generalizing t with
  | nil => rfl
  | cons e l ih =>
    rw [List.foldl_cons, ih fun e' he' => h e' (List.mem_cons_of_mem _ he'), PayloadTree.find_put,
      if_neg (h e List.mem_cons_self)]

theorem find_entrySteps (disk : CopyDisk ν) (e : List PyStr × Entry ν) (t : PayloadTree ν) (p : List PyStr) :
    ((disk.entrySteps e).foldl PayloadTree.put t).find p = if p = e.fst then some e.snd else t.find p := by
  have hlast : ∀ l : List (List PyStr × Entry ν), (∀ e' ∈ l, e'.fst = e.fst) →
      ((l ++ [e]).foldl PayloadTree.put t).find p = if p = e.fst then some e.snd else t.find p := by
    intro l hl
    rw [List.foldl_append, List.foldl_cons, List.foldl_nil, PayloadTree.find_put]
    split_ifs with hp
    · rfl
    · exact find_foldl_put_of_ne (fun e' he' => hl e' he' ▸ hp) t
  unfold entrySteps
  split
  · refine hlast _ fun e' he' => ?_
    obtain ⟨w, -, rfl⟩ := List.mem_map.mp he'
    rfl
  · exact hlast [] (fun e' he' => absurd he' List.not_mem_nil)

theorem find_flatMap_steps (disk : CopyDisk ν) (hl : (l.map Prod.fst).Nodup) (t : PayloadTree ν) (p : List PyStr) :
    ((l.flatMap disk.entrySteps).foldl PayloadTree.put t).find p = (l.lookup p).or (t.find p) := by
  induction l generalizing t with
  | nil => rfl
  | cons e l ih =>
    obtain ⟨he, hl⟩ := List.nodup_cons.mp hl
    rw [List.flatMap_cons, List.foldl_append, ih hl, find_entrySteps]
    obtain ⟨q, e⟩ := e
    rw [List.lookup_cons]
    by_cases hp : p = q
    · subst hp
      have hnone : l.lookup p = none :=
        List.lookup_eq_none_iff.mpr fun e' he' => bne_iff_ne.mpr fun hp => he (List.mem_map.mpr ⟨e', he', hp.symm⟩)
      rw [hnone, if_pos rfl, beq_self_eq_true]
      rfl
    · rw [if_neg hp, beq_eq_false_iff_ne.mpr hp]

/-- **A copy that is done holds what the source does**, in whichever order it was made. -/
theorem same_of_steps (disk : CopyDisk ν) (source : PayloadTree ν) :
    ((disk.steps source).foldl PayloadTree.put .bare).Same source := by
  intro p
  have hperm := disk.listing_perm source
  have hbare : (PayloadTree.bare : PayloadTree ν).find p = none := rfl
  show (((disk.listing source).flatMap disk.entrySteps).foldl PayloadTree.put .bare).find p = source.find p
  rw [find_flatMap_steps disk ((hperm.map Prod.fst).nodup_iff.mpr source.nodup), hbare, Option.or_none]
  exact PayloadTree.find_of_perm hperm p

end CopyDisk

namespace Incoming

omit [DecidableEq ν]

theorem foldl_write (d : Incoming ν) (t : PayloadTree ν) (l : List (List PyStr × Entry ν)) :
    l.foldl Incoming.write (d.setStaging (.tree t)) = d.setStaging (.tree (l.foldl PayloadTree.put t)) := by
  induction l generalizing t with
  | nil => rfl
  | cons e l ih => exact ih (t.put e)

end Incoming

namespace Bringing

omit [DecidableEq ν]

theorem copyTree_stopped (disk : CopyDisk ν) (source : PayloadTree ν) (d : Incoming ν) (n : Nat) :
    (copyTree disk source).stopped d (n + 1)
      = d.setStaging (.tree (((disk.steps source).take n).foldl PayloadTree.put .bare)) := by
  have hrun := Effects.run_emit_bind (fun d : Incoming ν => d.setStaging (.tree .bare)) (⟨⟩ : PUnit)
    (fun _ => (Effects.puts (fun e d => d.write e) (disk.steps source) : Bringing ν PUnit)) d
  have hputs := Effects.stopped_puts (ε := Exc) (fun (e : List PyStr × Entry ν) (d : Incoming ν) => d.write e)
    (disk.steps source) (d.setStaging (.tree .bare)) n
  show (((copyTree disk source) d).fst.take (n + 1)).getLastD d = _
  rw [show (copyTree disk source) d = _ from hrun, List.take_succ_cons, List.getLastD_cons]
  exact hputs.trans (Incoming.foldl_write d .bare _)

theorem copyTree_length (disk : CopyDisk ν) (source : PayloadTree ν) (d : Incoming ν) :
    ((copyTree disk source) d).fst.length = (disk.steps source).length + 1 := by
  have hlength := Effects.length_puts (ε := Exc) (fun (e : List PyStr × Entry ν) (d : Incoming ν) => d.write e)
    (disk.steps source) (d.setStaging (.tree .bare))
  exact congrArg Nat.succ hlength

theorem copyTree_returns (disk : CopyDisk ν) (source : PayloadTree ν) (d : Incoming ν) :
    (copyTree disk source).Returns d ⟨⟩
      (d.setStaging (.tree ((disk.steps source).foldl PayloadTree.put .bare))) := by
  refine Effects.returns_bind.mpr ⟨⟨⟩, d.setStaging (.tree .bare), Effects.returns_emit.mpr ⟨rfl, rfl⟩, ?_⟩
  rw [← Incoming.foldl_write]
  exact Effects.returns_puts _ _ _

end Bringing

/-! ## The clean-up -/

namespace Bringing

omit [DecidableEq ν]

variable {source : PayloadTree ν}

theorem removeConsumed_keeps (disk : CopyDisk ν) {P : Incoming ν → Prop}
    (hP : ∀ d place, P d → P (d.setConsumed place)) : Effects.Crashing P (removeConsumed disk) (fun _ => P) P := by
  have heffect : ∀ place, Effects.Crashing P (effect (ν := ν) (·.setConsumed place)) (fun _ => P) P :=
    fun place => Effects.Crashing.once (fun _ h => h) (fun _ h => hP _ place h) fun _ h => hP _ place h
  refine Effects.Crashing.look fun d hd => ?_
  have hhere : ∀ s, s = d → P s := fun _ hs => hs ▸ hd
  split
  · exact Effects.Crashing.ret hhere hhere
  · exact (heffect .absent).conseq hhere (fun _ _ h => h) fun _ h => h
  · rename_i t _
    exact ((Effects.Crashing.all fun t' _ => heffect (.tree t')).conseq hhere (fun _ _ h => h) fun _ h => h).seq
      fun _ => heffect .absent

/-- **The clean-up never leaves a part of the bundle** where a copy would find it. -/
theorem discardStagedBundle_keeps (disk : CopyDisk ν) : Effects.Crashing (Incoming.Whole source)
    (discardStagedBundle disk) (fun _ => Incoming.Whole source) (Incoming.Whole source) := by
  have hconsumed : ∀ (d : Incoming ν) place, d.Whole source → (d.setConsumed place).Whole source :=
    fun d place h => h
  refine Effects.Crashing.look fun d hd => ?_
  have hhere : ∀ s, s = d → Incoming.Whole source s := fun _ hs => hs ▸ hd
  have hrename : Effects.Crashing (Incoming.Whole source) (effect fun d => ⟨.absent, d.staging⟩)
      (fun _ => Incoming.Whole source) (Incoming.Whole source) :=
    Effects.Crashing.once (fun _ h => h) (fun _ _ => Or.inl rfl) fun _ _ => Or.inl rfl
  have hdiscard : Effects.Crashing (· = d) (do
      removeConsumed disk
      effect fun d => ⟨.absent, d.staging⟩
      removeConsumed disk) (fun _ => Incoming.Whole source) (Incoming.Whole source) :=
    ((removeConsumed_keeps disk hconsumed).conseq hhere (fun _ _ h => h) fun _ h => h).seq fun _ =>
      hrename.seq fun _ => removeConsumed_keeps disk hconsumed
  split
  · exact Effects.Crashing.ret hhere hhere
  · exact hdiscard

end Bringing

/-! ## What can be finished -/

section Resuming

variable {source : PayloadTree ν} {d d' : Incoming ν}

variable {t : PayloadTree ν}

theorem Bringing.sameManifest_of_same (ht : t.Same source)
    (hsealed : (source.content TransferManifest.path).isSome = true) : sameManifest source t = true := by
  obtain ⟨c, hc⟩ := Option.isSome_iff_exists.mp hsealed
  unfold sameManifest
  rw [ht.content, hc]
  exact decide_eq_true rfl

theorem Bringing.copy_of_absent (disk : CopyDisk ν) (h : d.staging = .absent) :
    copy disk source d = copyTree disk source d := by
  rw [copy, Effects.run_current_bind, h]

theorem Bringing.copy_of_same (disk : CopyDisk ν) (h : d.staging = .tree t)
    (hmanifest : sameManifest source t = true) : copy disk source d = ([], .ok ⟨⟩) := by
  rw [copy, Effects.run_current_bind, h]
  show (if sameManifest source t = true then _ else refuse : Bringing ν PUnit) d = _
  rw [if_pos hmanifest]
  rfl

theorem Bringing.copy_refused (disk : CopyDisk ν)
    (h : d.staging = .other ∨ ∃ t, d.staging = .tree t ∧ sameManifest source t ≠ true) :
    copy disk source d = ([], .error ⟨.osError, [.lit "File exists"]⟩) := by
  rw [copy, Effects.run_current_bind]
  rcases h with hother | ⟨t, htree, hmanifest⟩
  · rw [hother]
    rfl
  · rw [htree]
    show (if sameManifest source t = true then _ else refuse : Bringing ν PUnit) d = _
    rw [if_neg hmanifest]
    rfl

theorem Bringing.copy_returns (disk : CopyDisk ν)
    (hsealed : (source.content TransferManifest.path).isSome = true) (h : d.Whole source) :
    ∃ d', (copy disk source).Returns d ⟨⟩ d' ∧ ∃ t, d'.staging = .tree t ∧ t.Same source := by
  rcases h with habsent | ⟨t, htree, hsame⟩
  · refine ⟨d.setStaging (.tree ((disk.steps source).foldl PayloadTree.put .bare)), ?_, _, rfl,
      disk.same_of_steps source⟩
    exact (Effects.returns_congr (copy_of_absent disk habsent)).mpr (copyTree_returns disk source d)
  · have hcopy := copy_of_same disk htree (sameManifest_of_same hsame hsealed)
    exact ⟨d, ⟨congrArg Prod.snd hcopy, congrArg (fun r => r.fst.getLastD d) hcopy⟩, t, htree, hsame⟩

theorem Incoming.later_of_refused (h : d.staging = .other ∨ ∃ t, d.staging = .tree t ∧ sameManifest source t ≠ true)
    (hlater : d.Later source d') : d' = d := by
  obtain ⟨run, rfl⟩ := hlater
  induction run with
  | nil => rfl
  | cons a run ih =>
    have hattempt : d.after source a = d := by
      show (((transfer a.disk a.imported source) d).fst.take a.stop).getLastD d = d
      rw [show (transfer a.disk a.imported source) d = _ from
        Effects.run_bind_error (Bringing.copy_refused a.disk h) _, List.take_nil]
      rfl
    rw [List.foldl_cons, hattempt]
    exact ih

theorem Incoming.resumable_iff (hsealed : (source.content TransferManifest.path).isSome = true) :
    d.Resumable source ↔ d.Whole source := by
  constructor
  · intro h
    by_contra hwhole
    have hdisk : CopyDisk ν := ⟨fun t => t.entries, fun _ => List.Perm.refl _, fun _ _ => [], fun _ => []⟩
    have hgoesOn : ¬(d.staging = .other ∨ ∃ t, d.staging = .tree t ∧ sameManifest source t ≠ true) := by
      intro hrefused
      refine h.goesOn fun d' hlater disk => ?_
      rw [Incoming.later_of_refused hrefused hlater]
      exact ⟨_, d, congrArg Prod.snd (Bringing.copy_refused disk hrefused),
        congrArg (fun r => r.fst.getLastD d) (Bringing.copy_refused disk hrefused)⟩
    cases hstaging : d.staging with
    | absent => exact hwhole (Or.inl hstaging)
    | other => exact hgoesOn (Or.inl hstaging)
    | tree t =>
      by_cases hmanifest : sameManifest source t = true
      · have hcopy := Bringing.copy_of_same hdisk hstaging hmanifest
        exact hwhole (Or.inr (h.copied hdisk d ⟨congrArg Prod.snd hcopy, congrArg (fun r => r.fst.getLastD d) hcopy⟩))
      · exact hgoesOn (Or.inr ⟨t, hstaging, hmanifest⟩)
  · intro h
    refine ⟨fun disk d' hreturns => ?_, fun hrefused => ?_⟩
    · obtain ⟨d'', hreturns', ht⟩ := Bringing.copy_returns disk hsealed h
      obtain ⟨-, rfl⟩ := hreturns.unique hreturns'
      exact ht
    · obtain ⟨e, d'', hraises⟩ := hrefused d ⟨[], rfl⟩
        ⟨fun t => t.entries, fun _ => List.Perm.refl _, fun _ _ => [], fun _ => []⟩
      obtain ⟨_, hreturns, -⟩ := Bringing.copy_returns _ hsealed h
      exact hreturns.not_raises hraises

end Resuming

/-! ## Runs -/

section Runs

variable {source : PayloadTree ν} {d : Incoming ν}

theorem Incoming.whole_after (hsealed : (source.content TransferManifest.path).isSome = true)
    (h : d.Whole source) (a : Attempt ν) : (d.after source a).Whole source ↔ ¬a.Cut source d := by
  obtain ⟨d', hreturns, t, hstaging, hsame⟩ := Bringing.copy_returns a.disk hsealed h
  have hcleanup : ((copy a.disk source) d).fst.length ≤ a.stop → (d.after source a).Whole source := by
    intro hle
    have hvisits := Effects.visits_stopped_bind (f := fun _ => do
      Effects.ofExcept a.imported
      discardStagedBundle a.disk) hreturns hle
    have hkeeps : Effects.Crashing (Incoming.Whole source) (do
        Effects.ofExcept a.imported
        discardStagedBundle a.disk) (fun _ => Incoming.Whole source) (Incoming.Whole source) :=
      (Effects.Crashing.check (fun _ h => h) (fun _ _ _ h => h)).seq fun _ => Bringing.discardStagedBundle_keeps a.disk
    exact (hkeeps d' (Or.inr ⟨t, hstaging, hsame⟩)).1 _ hvisits
  rcases h with habsent | ⟨t, htree, hsame⟩
  · have hcopy : copy a.disk source d = copyTree a.disk source d := Bringing.copy_of_absent a.disk habsent
    have hlength : ((copy a.disk source) d).fst.length = (a.disk.steps source).length + 1 := by
      rw [hcopy]
      exact Bringing.copyTree_length a.disk source d
    by_cases hstop : a.stop ≤ (a.disk.steps source).length
    · -- the attempt is stopped in its copy
      have hafter : d.after source a = (copyTree a.disk source).stopped d a.stop := by
        refine (Effects.stopped_bind_of_le (by omega)).trans ?_
        unfold Effects.stopped
        rw [hcopy]
      rw [hafter]
      cases hn : a.stop with
      | zero => exact iff_of_true (Or.inl habsent) fun hcut => absurd hcut.2.1 (by omega)
      | succ n =>
        rw [Bringing.copyTree_stopped]
        unfold Attempt.Cut Incoming.Whole
        rw [hn, Incoming.staging_setStaging, Nat.add_sub_cancel]
        constructor
        · rintro (hnone | ⟨t', ht', hwhole⟩) hcut
          · cases hnone
          · exact hcut.2.2 (CopyPlace.tree.inj ht' ▸ hwhole)
        · exact fun hcut => Or.inr ⟨_, rfl, not_not.mp fun hpart => hcut ⟨habsent, n.succ_pos, hpart⟩⟩
    · refine iff_of_true (hcleanup (by omega)) fun hcut => hcut.2.2 ?_
      rw [List.take_of_length_le (by omega)]
      exact a.disk.same_of_steps source
  · have hcopy := Bringing.copy_of_same a.disk htree (Bringing.sameManifest_of_same hsame hsealed)
    refine iff_of_true (hcleanup (by rw [hcopy]; exact Nat.zero_le _)) fun hcut => ?_
    rw [hcut.1] at htree
    cases htree

/-- **An interrupted transfer is finished by running it again** exactly when no copy in it was cut:
from a destination with nothing staged, and after every attempt of a run. -/
theorem Incoming.interrupted_transfer_resumes (source : PayloadTree ν)
    (hsealed : (source.content TransferManifest.path).isSome = true) (d : Incoming ν) (hd : d.staging = .absent)
    (run : List (Attempt ν)) :
    (∀ d' ∈ d.reached source run, d'.Resumable source) ↔ d.Uncut source run := by
  have hruns : ∀ run : List (Attempt ν), ∀ d : Incoming ν, d.Whole source →
      ((∀ d' ∈ d.reached source run, d'.Resumable source) ↔ d.Uncut source run) := by
    intro run
    induction run with
    | nil =>
      intro d h
      refine iff_of_true (fun d' hd' => ?_) trivial
      rw [List.mem_singleton.mp hd']
      exact (Incoming.resumable_iff hsealed).mpr h
    | cons a run ih =>
      intro d h
      have hstep := Incoming.whole_after hsealed h a
      constructor
      · intro hall
        have hnext : (d.after source a).Resumable source := by
          refine hall _ (List.mem_cons_of_mem _ ?_)
          cases run <;> exact List.mem_cons_self
        have hwhole := (Incoming.resumable_iff hsealed).mp hnext
        exact ⟨hstep.mp hwhole, (ih _ hwhole).mp fun d' hd' => hall d' (List.mem_cons_of_mem _ hd')⟩
      · rintro ⟨huncut, hrest⟩ d' hd'
        rcases List.mem_cons.mp hd' with rfl | hd'
        · exact (Incoming.resumable_iff hsealed).mpr h
        · exact (ih _ (hstep.mpr huncut)).mpr hrest d' hd'
  exact hruns run d (Or.inl hd)

end Runs

def smallBundle : PayloadTree String :=
  ⟨[([transferDirectory], .dir), (TransferManifest.path, .file "manifest" false),
    (["job.json"], .file "job" false)], by decide⟩

def plainAttempt (stop : Nat) : Attempt String :=
  ⟨⟨fun t => t.entries, fun _ => List.Perm.refl _, fun _ _ => [], fun _ => []⟩, .ok ⟨⟩, stop⟩

def Incoming.unstaged : Incoming String := ⟨.absent, .absent⟩

/-- A command that is stopped before its copy and then run to its end. -/
theorem Incoming.interrupted_transfer_resumes_small :
    Incoming.unstaged.Uncut smallBundle [plainAttempt 0, plainAttempt 9]
      ∧ ∀ d' ∈ Incoming.unstaged.reached smallBundle [plainAttempt 0, plainAttempt 9], d'.Resumable smallBundle := by
  have huncut : Incoming.unstaged.Uncut smallBundle [plainAttempt 0, plainAttempt 9] := by
    refine ⟨fun hcut => absurd hcut.2.1 (by decide), fun hcut => hcut.2.2 ?_, trivial⟩
    rw [List.take_of_length_le (by decide)]
    exact CopyDisk.same_of_steps _ smallBundle
  exact ⟨huncut, (Incoming.interrupted_transfer_resumes smallBundle (by decide) Incoming.unstaged rfl _).mpr huncut⟩

/-- **A copy that is cut**: after its manifest was copied, the directory is taken for the
bundle without the rest of it; before that, every later copy is refused. -/
theorem Incoming.cut_copy_stays :
    ((copy (plainAttempt 0).disk smallBundle).Returns (Incoming.unstaged.after smallBundle (plainAttempt 3)) ⟨⟩
        (Incoming.unstaged.after smallBundle (plainAttempt 3))
      ∧ ¬∃ t, (Incoming.unstaged.after smallBundle (plainAttempt 3)).staging = .tree t ∧ t.Same smallBundle)
    ∧ ∀ d', (Incoming.unstaged.after smallBundle (plainAttempt 2)).Later smallBundle d' →
        ∀ disk, ∃ e d'', (copy disk smallBundle).Raises d' e d'' := by
  refine ⟨⟨?_, ?_⟩, ?_⟩
  · exact ⟨toOption_eq_some.mp (by decide), by decide⟩
  · rintro ⟨t, ht, hsame⟩
    have hjob : ∀ t', (Incoming.unstaged.after smallBundle (plainAttempt 3)).staging = .tree t' →
        t'.find ["job.json"] = none := by
      intro t' ht'
      rw [← CopyPlace.tree.inj ht']
      decide
    exact absurd ((hsame _).symm.trans (hjob t ht)) (by decide)
  · intro d' hlater disk
    have hrefused : (Incoming.unstaged.after smallBundle (plainAttempt 2)).staging = .other
        ∨ ∃ t, (Incoming.unstaged.after smallBundle (plainAttempt 2)).staging = .tree t
          ∧ sameManifest smallBundle t ≠ true := Or.inr ⟨_, rfl, by decide⟩
    rw [Incoming.later_of_refused hrefused hlater]
    have hcopy := Bringing.copy_refused disk hrefused
    exact ⟨_, _, congrArg Prod.snd hcopy, rfl⟩
