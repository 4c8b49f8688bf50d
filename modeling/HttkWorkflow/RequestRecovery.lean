import HttkWorkflow.RequestHandling

/-!
# Requests that are not lost

A pass over the requests begins by putting back what lies in the manager's own
claimed directory, and then goes through `ready`. So a request that was claimed
and not decided comes back with the next pass of the same manager – but of
that manager only: its id is made up when it starts, and no other manager looks
into its directory, except for a collection that removes what is left there
after thirty days.

The theorem says that there is no other way to lose a request. It is applied,
retired or quarantined, or lies where a manager that runs or may still start
reads it, unless the manager that claimed it has stopped or was taken for
stopped by a collection.
-/

/-- Whether the pass of a manager reads what lies at a place. -/
def RequestPlace.readBy (m : Nat) : RequestPlace → Bool
  | .ready => true
  | .claimed n => n = m
  | .retired | .quarantined => false

namespace RequestState

variable {env : CommitEnv} {refText : RecordRef → PyStr} {wid : String} {attempts lease : Nat}
variable {s s' : RequestState} {m name : Nat} {p q : RequestManager}

/-- A manager that runs, or may still start. -/
def MayRun (s : RequestState) (m : Nat) : Prop := ∀ p, s.managers m = some p → p.alive = true

/-- **A request some pass will read**: it lies where the pass of a manager that runs or
may still start looks, and that manager does not leave it to others. -/
def Readable (s : RequestState) (name : Nat) : Prop :=
  ∃ m place, s.MayRun m ∧ s.places name = some place ∧ place.readBy m = true
    ∧ ∀ p, s.managers m = some p → name ∉ p.deferred

/-- **A request its manager left behind**: it lies in the directory of a manager that has
stopped. -/
def Orphaned (s : RequestState) (name : Nat) : Prop :=
  ∃ m p, s.places name = some (.claimed m) ∧ s.managers m = some p ∧ p.alive = false

/-- **A request that was swept away**: a collection removed it thirty days after it was
published, from the directory of a manager it did not take for live. -/
def Swept (s : RequestState) (name : Nat) : Prop :=
  ∃ m survey request, s.collected name = some (m, survey) ∧ survey.live m = false
    ∧ s.published name = some request
    ∧ request.publishedAt + retiredRequestMaximumAgeSeconds ≤ survey.time

/-! ## The invariant -/

/-- **The files are where they are looked for.** -/
structure Kept (s : RequestState) : Prop where
  files : ∀ name request, s.published name = some request → s.settled name ≠ none
    ∨ s.collected name ≠ none ∨ s.places name = some .ready
    ∨ ∃ m, s.places name = some (.claimed m)
  claimed : ∀ name m, s.places name = some (.claimed m) →
    ∃ p, s.managers m = some p ∧ name ∉ p.deferred
  preflighted : ∀ m p name verdict, s.managers m = some p →
    p.phase = .preflighted name verdict → name ∉ p.deferred
  collected : ∀ name m survey, s.collected name = some (m, survey) → survey.live m = false
    ∧ ∃ request, s.published name = some request
      ∧ request.publishedAt + retiredRequestMaximumAgeSeconds ≤ survey.time
  few : ∃ n, ∀ m, n ≤ m → s.managers m = none

namespace Kept

theorem setManager (h : s.Kept) (hm : s.managers m = some p)
    (hdeferred : ∀ n, s.places n = some (.claimed m) → n ∉ p.deferred → n ∉ q.deferred)
    (hphase : ∀ n verdict, q.phase = .preflighted n verdict → n ∉ q.deferred) :
    (s.setManager m q).Kept where
  files := h.files
  claimed n k hplace := by
    obtain ⟨r, hr, hnot⟩ := h.claimed n k hplace
    rw [setManager_managers]
    split_ifs with hk
    · subst hk
      obtain rfl := Option.some.inj (hm.symm.trans hr)
      exact ⟨q, rfl, hdeferred n hplace hnot⟩
    · exact ⟨r, hr, hnot⟩
  preflighted k r n verdict hr hpre := by
    rw [setManager_managers] at hr
    split_ifs at hr with hk
    · obtain rfl := Option.some.inj hr
      exact hphase n verdict hpre
    · exact h.preflighted k r n verdict hr hpre
  collected := h.collected
  few := by
    obtain ⟨bound, hbound⟩ := h.few
    refine ⟨bound, fun k hk => ?_⟩
    rw [setManager_managers, if_neg]
    · exact hbound k hk
    · rintro rfl
      rw [hbound k hk] at hm
      cases hm

theorem goOn (h : s.Kept) (hm : s.managers m = some p) (hdeferred : q.deferred = p.deferred)
    (hphase : ∀ n verdict, q.phase ≠ .preflighted n verdict) : (s.setManager m q).Kept :=
  h.setManager hm (fun _ _ hnot => hdeferred ▸ hnot) fun n verdict hpre => absurd hpre (hphase n verdict)

theorem setPlace {place : Option RequestPlace} (h : s.Kept)
    (hplace : s.settled name ≠ none ∨ s.collected name ≠ none ∨ place = some .ready ∨ ∃ m, place = some (.claimed m))
    (hdeferred : ∀ m, place = some (.claimed m) → ∃ p, s.managers m = some p ∧ name ∉ p.deferred) :
    (s.setPlace name place).Kept where
  files n request hr := by
    have hupdate : (s.setPlace name place).places n = if n = name then place else s.places n :=
      Function.update_apply _ _ _ _
    rw [hupdate]
    split_ifs with hn
    · subst hn
      exact hplace
    · exact h.files n request hr
  claimed n k hk := by
    have hupdate : (s.setPlace name place).places n = if n = name then place else s.places n :=
      Function.update_apply _ _ _ _
    rw [hupdate] at hk
    split_ifs at hk with hn
    · exact hn ▸ hdeferred k hk
    · exact h.claimed n k hk
  preflighted := h.preflighted
  collected := h.collected
  few := h.few

theorem renameRequest {source place : RequestPlace} (h : s.Kept) (executed : Bool)
    (hplace : place = .ready ∨ ∃ m, place = .claimed m)
    (hdeferred : ∀ m, place = .claimed m → ∃ p, s.managers m = some p ∧ name ∉ p.deferred) :
    (s.renameRequest name source place executed).Kept := by
  unfold RequestState.renameRequest
  split_ifs
  · refine h.setPlace ?_ fun k hk => hdeferred k (Option.some.inj hk)
    rcases hplace with rfl | ⟨k, rfl⟩
    · exact Or.inr (Or.inr (Or.inl rfl))
    · exact Or.inr (Or.inr (Or.inr ⟨k, rfl⟩))
  · exact h

theorem setSettled (h : s.Kept) (ending : RequestEnd) : (s.setSettled name ending).Kept where
  files n request hr := by
    have hupdate : (s.setSettled name ending).settled n
        = if n = name then some ending else s.settled n := Function.update_apply _ _ _ _
    rw [hupdate]
    split_ifs with hn
    · exact Or.inl (by simp)
    · exact h.files n request hr
  claimed := h.claimed
  preflighted := h.preflighted
  collected := h.collected
  few := h.few

theorem settleFile (h : s.Kept) (executed : Bool) (ending : HandleEnd) :
    (s.settleFile m name executed ending).Kept := by
  -- the end is recorded where the file goes, in one step
  have hends : ∀ (place : Option RequestPlace) (ended : RequestEnd), (∀ k, place ≠ some (.claimed k)) →
      (if executed = true ∧ s.places name = some (.claimed m) then
        (s.setPlace name place).setSettled name ended else s).Kept := by
    intro place ended hplace
    split_ifs
    · show ((s.setSettled name ended).setPlace name place).Kept
      refine (h.setSettled ended).setPlace (Or.inl ?_) fun k hk => absurd hk (hplace k)
      show Function.update s.settled name _ name ≠ none
      rw [Function.update_self]
      exact Option.some_ne_none _
    · exact h
  cases ending with
  | retire reason => exact hends (some .retired) .retired fun k hk => by cases hk
  | quarantine reason => exact hends (some .quarantined) .quarantined fun k hk => by cases hk
  | handled => exact hends none .applied fun k hk => by cases hk
  | leave => exact h
  | propagate e => exact h

theorem handleNext {step : HandleStep} (h : s.Kept) (hm : s.managers m = some p)
    (hstep : s.handleNext env refText wid attempts m p step = some s') : s'.Kept := by
  have hgoOn : ∀ {phase : HandlePhase}, (∀ n verdict, phase ≠ .preflighted n verdict) →
      some (s.setManager m { p with phase := phase }) = some s' → s'.Kept := by
    intro phase hphase hs
    exact Option.some.inj hs ▸ h.goOn hm rfl hphase
  have hmanager : ∀ n a b x, (s.renameRequest n a b x).managers m = some p := by
    intro n a b x
    unfold RequestState.renameRequest
    split_ifs <;> exact hm
  cases step with
  | restore n x =>
    rw [RequestState.handleNext] at hstep
    split at hstep
    · rw [← Option.some.inj hstep]
      exact h.renameRequest x (Or.inl rfl) fun k hk => by cases hk
    · cases hstep
  | preflight n world =>
    rw [RequestState.handleNext] at hstep
    split at hstep
    · rename_i request hidle hrequest
      obtain ⟨⟨hready, hnot, -⟩, hstep⟩ := Option.ite_none_right_eq_some.mp hstep
      split at hstep
      · exact Option.some.inj hstep ▸ h
      · exact Option.some.inj hstep ▸ h
      · rw [← Option.some.inj hstep]
        refine h.setManager hm (fun k hk hkn => ?_) fun k verdict hpre => ?_
        · refine List.not_mem_cons_of_ne_of_not_mem ?_ hkn
          rintro rfl
          rw [hready] at hk
          cases hk
        · cases hidle.symm.trans hpre
      · rw [← Option.some.inj hstep]
        refine h.setManager hm (fun _ _ hkn => hkn) fun k verdict hpre => ?_
        obtain ⟨rfl, -⟩ := HandlePhase.preflighted.inj hpre
        exact hnot
    · cases hstep
  | claim x report =>
    rw [RequestState.handleNext] at hstep
    split at hstep
    · rename_i n verdict hphase
      have hnot := h.preflighted m p n verdict hm hphase
      have hrenamed : (s.renameRequest n .ready (.claimed m) x).Kept := by
        refine h.renameRequest x (Or.inr ⟨m, rfl⟩) fun k hk => ?_
        obtain rfl := RequestPlace.claimed.inj hk
        exact ⟨p, hm, hnot⟩
      have hafter : ∀ {phase : HandlePhase}, (∀ n verdict, phase ≠ .preflighted n verdict) →
          some ((s.renameRequest n .ready (.claimed m) x).setManager m { p with phase := phase })
            = some s' → s'.Kept := by
        intro phase hne hs
        exact Option.some.inj hs ▸ hrenamed.goOn (hmanager _ _ _ _) rfl hne
      split at hstep
      · exact hafter (by simp) (Option.ite_none_right_eq_some.mp hstep).2
      · exact hafter (by simp) (Option.ite_none_right_eq_some.mp hstep).2
      · exact hafter (by simp) (Option.ite_none_left_eq_some.mp hstep).2
      · exact hafter (by simp) hstep
    · cases hstep
  | inspect same x =>
    rw [RequestState.handleNext] at hstep
    split at hstep
    · exact hgoOn (by simp) hstep
    · split at hstep
      · rw [← Option.some.inj hstep]
        refine (h.renameRequest x (Or.inl rfl) fun k hk => ?_).goOn (hmanager _ _ _ _) rfl (by simp)
        cases hk
      · exact hgoOn (by simp) hstep
      · exact hgoOn (by simp) hstep
      · exact hgoOn (by simp) hstep
    · cases hstep
  | apply i world =>
    rw [RequestState.handleNext] at hstep
    split at hstep
    · rename_i n hphase
      split at hstep
      · obtain ⟨-, hstep⟩ := Option.ite_none_right_eq_some.mp hstep
        split at hstep
        · exact hgoOn (by simp) hstep
        · exact hgoOn (by simp) hstep
        · exact hgoOn (by simp) hstep
        · obtain ⟨w, -, rfl⟩ := Option.map_eq_some_iff.mp hstep
          have hw : (s.setManager m { p with phase := .applying n i }).Kept :=
            h.goOn hm rfl (by simp)
          exact ⟨hw.files, hw.claimed, hw.preflighted, hw.collected, hw.few⟩
      · cases hstep
    · cases hstep
  | conclude fault =>
    rw [RequestState.handleNext] at hstep
    split at hstep
    · rename_i n i hphase
      obtain ⟨ending, -, rfl⟩ := Option.map_eq_some_iff.mp hstep
      have hw : (s.setManager m { p with phase := .ending n ending }).Kept :=
        h.goOn hm rfl (by simp)
      exact ⟨hw.files, hw.claimed, hw.preflighted, hw.collected, hw.few⟩
    · cases hstep
  | settle x =>
    rw [RequestState.handleNext] at hstep
    split at hstep
    · rename_i n ending hphase
      have hsame : (s.settleFile m n x ending).managers m = some p := by
        cases ending with
        | leave => exact hm
        | propagate e => exact hm
        | _ =>
          show (ite _ _ _ : RequestState).managers m = some p
          split_ifs <;> exact hm
      rw [← Option.some.inj hstep]
      exact (h.settleFile x ending).goOn hsame rfl (by simp)
    · cases hstep
  | abandon =>
    have hw : (s.setManager m { p with phase := .idle }).Kept := h.goOn hm rfl (by simp)
    rw [← Option.some.inj hstep]
    exact ⟨hw.files, hw.claimed, hw.preflighted, hw.collected, hw.few⟩
  | die =>
    have hw : (s.setManager m { p with alive := false, phase := .idle }).Kept :=
      h.goOn hm rfl (by simp)
    rw [← Option.some.inj hstep]
    exact ⟨hw.files, hw.claimed, hw.preflighted, hw.collected, hw.few⟩

end Kept

/-! ## Whole runs -/

/-- **Every step keeps the files where they are looked for.** -/
theorem Kept.next {a : RequestLabel} (h : s.Kept)
    (hstep : s.next env refText wid attempts lease a = some s') : s'.Kept := by
  cases a with
  | workspace l =>
    obtain ⟨-, hstep⟩ := Option.ite_none_left_eq_some.mp hstep
    obtain ⟨w, -, rfl⟩ := Option.map_eq_some_iff.mp hstep
    exact ⟨h.files, h.claimed, h.preflighted, h.collected, h.few⟩
  | publish n document =>
    obtain ⟨hnew, hstep⟩ := Option.ite_none_right_eq_some.mp hstep
    rw [← Option.some.inj hstep]
    have hupdate : ∀ k, Function.update s.published n (some ⟨document, s.now⟩) k
        = if k = n then some ⟨document, s.now⟩ else s.published k := Function.update_apply _ _ _
    have hplaces : ∀ k, Function.update s.places n (some RequestPlace.ready) k
        = if k = n then some .ready else s.places k := Function.update_apply _ _ _
    refine ⟨fun k request hr => ?_, fun k j hk => ?_, h.preflighted, fun k j survey hk => ?_, h.few⟩
    · have hr : Function.update s.published n (some ⟨document, s.now⟩) k = some request := hr
      show _ ∨ _ ∨ Function.update s.places n _ k = _ ∨ ∃ j, Function.update s.places n _ k = _
      rw [hupdate] at hr
      rw [hplaces]
      split_ifs at hr ⊢ with hkn
      · exact Or.inr (Or.inr (Or.inl rfl))
      · exact h.files k request hr
    · have hk : Function.update s.places n (some RequestPlace.ready) k = _ := hk
      rw [hplaces] at hk
      split_ifs at hk with hkn
      · cases hk
      · exact h.claimed k j hk
    · obtain ⟨hlive, request, hrequest, hage⟩ := h.collected k j survey hk
      refine ⟨hlive, request, ?_, hage⟩
      show Function.update s.published n _ k = _
      rw [hupdate, if_neg]
      · exact hrequest
      · rintro rfl
        rw [hnew] at hrequest
        cases hrequest
  | start n =>
    obtain ⟨hnone, hstep⟩ := Option.ite_none_right_eq_some.mp hstep
    rw [← Option.some.inj hstep]
    obtain ⟨bound, hbound⟩ := h.few
    refine ⟨h.files, fun k j hk => ?_, fun j p k verdict hp hpre => ?_, h.collected,
      ⟨max bound (n + 1), fun j hj => ?_⟩⟩
    · obtain ⟨p, hp, hnot⟩ := h.claimed k j hk
      rw [setManager_managers, if_neg]
      · exact ⟨p, hp, hnot⟩
      · rintro rfl
        rw [hnone] at hp
        cases hp
    · rw [setManager_managers] at hp
      split_ifs at hp with hj
      · obtain rfl := Option.some.inj hp
        cases hpre
      · exact h.preflighted j p k verdict hp hpre
    · rw [setManager_managers, if_neg (by omega)]
      exact hbound j (by omega)
  | handle n step =>
    rw [RequestState.next] at hstep
    split at hstep
    · rename_i p hp
      exact h.handleNext hp (Option.ite_none_right_eq_some.mp hstep).2
    · cases hstep
  | tick time =>
    rw [← Option.some.inj hstep]
    exact ⟨h.files, h.claimed, h.preflighted, h.collected, h.few⟩
  | heartbeat n =>
    rw [RequestState.next] at hstep
    split at hstep
    · rename_i p hp
      obtain ⟨-, hstep⟩ := Option.ite_none_right_eq_some.mp hstep
      rw [← Option.some.inj hstep]
      exact h.setManager hp (fun _ _ hnot => hnot) fun k verdict hpre =>
        h.preflighted n p k verdict hp hpre
    · cases hstep
  | survey c caller =>
    rw [← Option.some.inj hstep]
    exact ⟨h.files, h.claimed, h.preflighted, h.collected, h.few⟩
  | collect c n =>
    rw [RequestState.next] at hstep
    split at hstep
    · rename_i survey j request hsurvey hplace hrequest
      obtain ⟨⟨hlive, hage⟩, hstep⟩ := Option.ite_none_right_eq_some.mp hstep
      rw [← Option.some.inj hstep]
      -- the removal is recorded first
      have hupdate : ∀ k, Function.update s.collected n (some (j, survey)) k
          = if k = n then some (j, survey) else s.collected k := Function.update_apply _ _ _
      have hrecorded : ({ s with
          collected := Function.update s.collected n (some (j, survey)) } : RequestState).Kept := by
        refine ⟨fun k r hr => ?_, h.claimed, h.preflighted, fun k i v hk => ?_, h.few⟩
        · refine (h.files k r hr).imp_right fun hrest => ?_
          show Function.update s.collected n _ k ≠ none ∨ _
          rw [hupdate]
          split_ifs with hkn
          · exact Or.inl (by simp)
          · exact hrest
        · have hk : Function.update s.collected n (some (j, survey)) k = _ := hk
          rw [hupdate] at hk
          split_ifs at hk with hkn
          · obtain ⟨rfl, rfl⟩ := Prod.mk.inj (Option.some.inj hk)
            exact ⟨hlive, request, hkn ▸ hrequest, hage⟩
          · exact h.collected k i v hk
      show (({ s with
        collected := Function.update s.collected n (some (j, survey)) } : RequestState).setPlace
          n none).Kept
      refine hrecorded.setPlace (Or.inr (Or.inl ?_)) fun k hk => by cases hk
      show Function.update s.collected n _ n ≠ none
      rw [Function.update_self]
      exact Option.some_ne_none _
    · cases hstep
  | collectRetired c n =>
    rw [RequestState.next] at hstep
    split at hstep
    · rename_i survey request hsurvey hrequest
      obtain ⟨⟨hretired, -⟩, hstep⟩ := Option.ite_none_right_eq_some.mp hstep
      rw [← Option.some.inj hstep]
      refine h.setPlace ?_ fun k hk => by cases hk
      -- a retired request is settled, or it was collected before
      rcases h.files n request hrequest with hsettled | hcollected | hready | ⟨j, hclaimed⟩
      · exact Or.inl hsettled
      · exact Or.inr (Or.inl hcollected)
      · cases hretired.symm.trans hready
      · cases hretired.symm.trans hclaimed
    · cases hstep

theorem kept_of_reachable (hs : (requestSystem env refText wid attempts lease).Reachable s) : s.Kept := by
  refine hs.invariant ?_ fun s a s' _ hinv h => hinv.next h
  rintro s ⟨-, hpublished, hplaces, hmanagers, -, -, -, -, hcollected⟩
  refine ⟨fun name request hr => ?_, fun name m hk => ?_, fun m p name verdict hp => ?_,
    fun name m survey hk => ?_, ⟨0, fun m _ => by rw [hmanagers]⟩⟩
  · rw [hpublished] at hr
    cases hr
  · rw [hplaces] at hk
    cases hk
  · rw [hmanagers] at hp
    cases hp
  · rw [hcollected] at hk
    cases hk

/-- **No published request is lost**, whatever the managers do: it is applied, retired or
quarantined, or a pass will read it – unless the manager that claimed it has stopped, or
a collection took it for stopped. -/
theorem request_kept (hs : (requestSystem env refText wid attempts lease).Reachable s)
    {request : PublishedRequest} (hrequest : s.published name = some request) :
    s.settled name ≠ none ∨ s.Readable name ∨ s.Orphaned name ∨ s.Swept name := by
  have hkept := kept_of_reachable hs
  rcases hkept.files name request hrequest with hsettled | hcollected | hready | ⟨m, hclaimed⟩
  · exact Or.inl hsettled
  · obtain ⟨⟨m, survey⟩, hcollected⟩ := Option.ne_none_iff_exists'.mp hcollected
    obtain ⟨hlive, r, hr, hage⟩ := hkept.collected name m survey hcollected
    exact Or.inr (Or.inr (Or.inr ⟨m, survey, r, hcollected, hlive, hr, hage⟩))
  · -- any manager that starts reads what is in `ready`
    obtain ⟨m, hm⟩ := hkept.few
    have hnone : s.managers m = none := hm m (Nat.le_refl m)
    refine Or.inr (Or.inl ⟨m, .ready, fun p hp => ?_, hready, rfl, fun p hp => ?_⟩)
    · cases hnone.symm.trans hp
    · cases hnone.symm.trans hp
  · obtain ⟨p, hp, hnot⟩ := hkept.claimed name m hclaimed
    have hsame : ∀ q, s.managers m = some q → q = p :=
      fun q hq => Option.some.inj (hq.symm.trans hp)
    cases halive : p.alive with
    | true =>
      refine Or.inr (Or.inl ⟨m, .claimed m, fun q hq => ?_, hclaimed, decide_eq_true rfl,
        fun q hq => ?_⟩)
      · rw [hsame q hq, halive]
      · rw [hsame q hq]
        exact hnot
    | false => exact Or.inr (Or.inr (Or.inl ⟨m, p, hclaimed, hp, halive⟩))

/-! ## A request that is lost -/

def claimedAndDied : List RequestLabel :=
  [.publish 0 pauseRequest, .start 0, .handle 0 (.preflight 0 plainPreflight),
    .handle 0 (.claim true .returned), .handle 0 .die]

/-- That request is in the directory of a manager that never runs again. -/
theorem request_lost :
    ¬∀ s, (requestSystem plainCommitEnv plainRefText "w" 8 60).Reachable s →
      ∀ name request, s.published name = some request →
        s.settled name ≠ none ∨ ∃ m place, s.MayRun m ∧ s.places name = some place
          ∧ place.readBy m = true := by
  intro hall
  have hrun : (System.follow (next plainCommitEnv plainRefText "w" 8 60) noRequests
      claimedAndDied).map (fun s => (s.published 0 |>.map PublishedRequest.publishedAt,
        s.settled 0, s.places 0, (s.managers 0).map RequestManager.alive))
      = some (some 0, none, some (.claimed 0), some false) := by
    decide
  obtain ⟨s, hs, hfacts⟩ := Option.map_eq_some_iff.mp hrun
  simp only [Prod.mk.injEq] at hfacts
  obtain ⟨hpublished, hsettled, hplace, hdead⟩ := hfacts
  obtain ⟨request, hrequest, -⟩ := Option.map_eq_some_iff.mp hpublished
  obtain ⟨p, hp, hdead⟩ := Option.map_eq_some_iff.mp hdead
  have hreach := (System.run_of_follow hs).reachable (System.Reachable.init noRequests_init)
  rcases hall s hreach 0 request hrequest with hnot | ⟨m, place, hmay, hm, hread⟩
  · exact hnot hsettled
  · obtain rfl := Option.some.inj (hplace.symm.trans hm)
    obtain rfl : 0 = m := of_decide_eq_true hread
    cases hdead.symm.trans (hmay p hp)

/-- A request whose application met an error, which its manager will read again. -/
theorem request_kept_claimed :
    ∃ s, (requestSystem plainCommitEnv plainRefText "w" 8 60).Reachable s
      ∧ s.places 0 = some (.claimed 0)
      ∧ (s.settled 0 ≠ none ∨ s.Readable 0 ∨ s.Orphaned 0 ∨ s.Swept 0) := by
  have hrun : (System.follow (next plainCommitEnv plainRefText "w" 8 60) noRequests
      [.publish 0 pauseRequest, .start 0, .handle 0 (.preflight 0 plainPreflight),
        .handle 0 (.claim true .returned), .handle 0 (.inspect (some true) true),
        .handle 0 (.apply 0 { plainApplyWorld with stateFault := some ⟨.osError, []⟩ }),
        .handle 0 (.settle true)]).map
      (fun s => (s.published 0 |>.map PublishedRequest.publishedAt, s.places 0))
      = some (some 0, some (.claimed 0)) := by
    decide
  obtain ⟨s, hs, hfacts⟩ := Option.map_eq_some_iff.mp hrun
  simp only [Prod.mk.injEq] at hfacts
  obtain ⟨hpublished, hplace⟩ := hfacts
  obtain ⟨request, hrequest, -⟩ := Option.map_eq_some_iff.mp hpublished
  have hreach := (System.run_of_follow hs).reachable (System.Reachable.init noRequests_init)
  exact ⟨s, hreach, hplace, request_kept hreach hrequest⟩

end RequestState
