import HttkWorkflow.ReplayResume

/-!
# A replay that is refused

`replay_transaction` refuses a transaction with a `FormatError` or a
`TransactionError`, and a refused transaction is meant to leave the data
alone: none of it becomes visible, or all of it. The validation before the
first effect refuses only what the manifest itself shows, though. Whether an
operation can be decoded, its source is there and carries its digest, and
its target is free or taken as it should be, is asked when its turn comes,
after the operations before it were applied (`replay_not_atomic`).

So a refusal leaves the data alone when everything before the refused
operation had been done already, or when no operation is refused. The second
can be read off the tree before the run if no operation spoils a later one
(`Operation.Spares`): what is not refused there is not refused when its turn
comes (`Operation.Spares.stays`).
-/

variable {ν : Type} {env : ReplayEnv ν} {dirs : ReplayDirs} {f g m : FileTree PyStr ν}
variable {s d q : List PyStr} {e : Exc}

/-- **A refusal**: the exceptions that fail the job, and not its operation
for the moment. -/
def Exc.Refusal (e : Exc) : Prop := e.cls = .formatError ∨ e.cls = .transaction

/-- A system call fails with an exception of its own. -/
def Exc.Failure (e : Exc) : Prop := e.cls = .osError ∨ e.cls = .unicodeEncode

theorem Exc.Failure.not_refusal (h : e.Failure) : ¬e.Refusal := by
  unfold Exc.Failure at h
  unfold Exc.Refusal
  rcases h with h | h <;> rw [h] <;> decide

/-! ## What the system calls raise -/

theorem mkdirOne_raises {q : List PyStr} (h : (mkdirOne q : Replay ν PUnit).Raises f e g) : e.Failure := by
  unfold mkdirOne at h
  rw [Effects.raises_current_bind] at h
  split_ifs at h
  · exact absurd h Effects.raises_pure
  · exact absurd h Effects.raises_emit
  · rw [← (Effects.raises_raise.mp h).1]
    exact Or.inl rfl

theorem mkdirs_raises (h : (mkdirs env q).Raises f e g) : e.Failure := by
  have hfrom : ∀ (rest q : List PyStr) (t : FileTree PyStr ν),
      (mkdirsFrom q rest : Replay ν PUnit).Raises t e g → e.Failure := by
    intro rest
    induction rest with
    | nil => exact fun q t h => mkdirOne_raises h
    | cons n rest ih =>
      intro q t h
      unfold mkdirsFrom at h
      rcases Effects.raises_bind.mp h with h | ⟨u, t', -, h⟩
      · exact mkdirOne_raises h
      · exact ih _ _ h
  unfold mkdirs at h
  cases hr : env.refusal q with
  | some e' =>
    rw [hr] at h
    rw [← (Effects.raises_raise.mp h).1]
    exact env.refusal_cls q e' hr
  | none =>
    rw [hr] at h
    exact hfrom q [] f h

theorem osRename_raises (h : (osRename env s d).Raises f e g) : e.Failure := by
  unfold osRename at h
  rw [Effects.raises_current_bind] at h
  cases hr : env.refusal d with
  | some e' =>
    rw [hr] at h
    rw [← (Effects.raises_raise.mp h).1]
    exact env.refusal_cls d e' hr
  | none =>
    rw [hr] at h
    simp only at h
    split_ifs at h
    · exact absurd h Effects.raises_emit
    · rw [← (Effects.raises_raise.mp h).1]
      exact Or.inl rfl

theorem renameVerified_raises (h : (renameVerified env s d).Raises f e g) : ¬e.Refusal := by
  have hrounds : ∀ (n : Nat) (t : FileTree PyStr ν), (renameRounds env s d n).Raises t e g → ¬e.Refusal := by
    intro n
    induction n with
    | zero =>
      intro t h
      unfold renameRounds at h
      rw [← (Effects.raises_raise.mp h).1]
      show ¬(ExcClass.workspaceUnavailable = .formatError ∨ ExcClass.workspaceUnavailable = .transaction)
      decide
    | succ n ih =>
      intro t h
      unfold renameRounds at h
      rcases Effects.raises_bind.mp h with h | ⟨u, t', -, h⟩
      · have h := (Effects.raises_suppress.mp h).1
        unfold renameOnce at h
        rcases Effects.raises_bind.mp h with h | ⟨u, t', -, h⟩
        · exact (mkdirs_raises h).not_refusal
        · exact (osRename_raises h).not_refusal
      · rw [Effects.raises_current_bind] at h
        split_ifs at h
        · exact absurd h Effects.raises_pure
        · exact ih t' h
  exact hrounds 7 f h

/-! ## What an operation refuses -/

namespace Operation

/-- **An operation refused**: what it asks of its source and its target does
not hold. -/
def Refused (env : ReplayEnv ν) (dirs : ReplayDirs) : Operation → FileTree PyStr ν → Prop
  | makeDir _, _ => False
  | putFile path source expected, f =>
      installed env f (dirs.target path) (dirs.staged source) expected = false
        ∧ ¬(f.isFile (dirs.staged source) = true
          ∧ digestMatches env f (dirs.staged source) expected = true)
  | putTree path source expected, f =>
      installed env f (dirs.target path) (dirs.staged source) expected = false
        ∧ (f.present (dirs.target path) = true ∨ ¬(f.isDir (dirs.staged source) = true
          ∧ digestMatches env f (dirs.staged source) expected = true))
  | remove operationId path missingOk, f => f.present (dirs.target path) = false
      ∧ f.present (dirs.trash operationId "removed") = false ∧ missingOk = false
  | replaceTree _ path source expected, f =>
      installed env f (dirs.target path) (dirs.staged source) expected = false
        ∧ ¬(f.isDir (dirs.staged source) = true
          ∧ digestMatches env f (dirs.staged source) expected = true)

/-- Whether an operation moves an old tree aside before it asks. -/
def SetsAside (dirs : ReplayDirs) : Operation → FileTree PyStr ν → Prop
  | replaceTree operationId path _ _, f => f.present (dirs.target path) = true
      ∧ f.present (dirs.trash operationId "old") = false
  | _, _ => False

end Operation

theorem refuse_raises (f : FileTree PyStr ν) (message : Message) :
    ∃ e, (refuse message : Replay ν PUnit).Raises f e f :=
  ⟨_, Effects.raises_raise.mpr ⟨rfl, rfl⟩⟩

theorem applyOperation_refuses {o : Operation} (h : o.Refused env dirs f)
    (haside : ¬o.SetsAside dirs f) : ∃ e, (applyOperation env dirs o).Raises f e f := by
  cases o with
  | makeDir path => exact h.elim
  | putFile path source expected =>
    simp only [applyOperation, Effects.raises_current_bind, h.1, Bool.false_eq_true, if_false, if_neg h.2]
    exact refuse_raises f _
  | putTree path source expected =>
    simp only [applyOperation, Effects.raises_current_bind, h.1, Bool.false_eq_true, if_false]
    split_ifs with hdest hsrc
    · exact refuse_raises f _
    · exact absurd hsrc (h.2.resolve_left hdest)
    · exact refuse_raises f _
  | remove operationId path missingOk =>
    simp only [applyOperation, Effects.raises_current_bind, h.1, h.2.1, h.2.2, Bool.false_eq_true,
      and_false, if_false, if_true]
    exact refuse_raises f _
  | replaceTree operationId path source expected =>
    have hm : (moveAside env dirs operationId path).Returns f ⟨⟩ f := by
      refine moveAside_returns.mpr ?_
      rw [if_neg (show ¬(_ ∧ _) from haside)]
    simp only [applyOperation, Effects.raises_current_bind, h.1, Bool.false_eq_true, if_false]
    obtain ⟨e, he⟩ := refuse_raises f [.lit "replace-tree source digest mismatch: ", .path path]
    refine ⟨e, Effects.raises_bind.mpr (Or.inr ⟨⟨⟩, f, hm, ?_⟩)⟩
    rw [Effects.raises_current_bind, if_neg h.2]
    exact he

theorem Operation.refused_of_raises {o : Operation} (hpay : o.Payload)
    (h : (applyOperation env dirs o).Raises f e g) (he : e.Refusal) : o.Refused env dirs f := by
  cases o with
  | makeDir path =>
    exfalso
    rw [applyOperation] at h
    rcases Effects.raises_bind.mp h with h | ⟨u, m, hm, h⟩
    · exact (mkdirs_raises h).not_refusal he
    · obtain ⟨-, -, hm⟩ := mkdirs_returns.mp hm
      have hdir : m.isDir (dirs.target path) = true := by
        rw [FileTree.isDir_iff, hm, if_pos (List.prefix_refl _)]
      rw [Effects.raises_current_bind, if_pos hdir] at h
      exact Effects.raises_pure h
  | putFile path source expected =>
    rw [applyOperation, Effects.raises_current_bind] at h
    split_ifs at h with hin hsrc
    · exact absurd h Effects.raises_pure
    · exfalso
      rcases Effects.raises_bind.mp h with h | ⟨u, m, hm, h⟩
      · exact renameVerified_raises h he
      · have hm := (renameVerified_returns (isFile_present hsrc.1) (dirs.staged_apart source path)).mp hm
        rw [Effects.raises_current_bind, if_pos (hm.digestMatches.trans hsrc.2)] at h
        exact Effects.raises_pure h
    · exact ⟨eq_false_of_ne_true hin, hsrc⟩
  | putTree path source expected =>
    rw [applyOperation, Effects.raises_current_bind] at h
    split_ifs at h with hin hdest hsrc
    · exact absurd h Effects.raises_pure
    · exact ⟨eq_false_of_ne_true hin, Or.inl hdest⟩
    · exact absurd he (renameVerified_raises h)
    · exact ⟨eq_false_of_ne_true hin, Or.inr hsrc⟩
  | remove operationId path missingOk =>
    rw [applyOperation, Effects.raises_current_bind] at h
    split_ifs at h with htrash hmissing hdest
    · exact absurd h Effects.raises_pure
    · exact absurd h Effects.raises_pure
    · exact ⟨hdest, eq_false_of_ne_true fun h => htrash ⟨hdest, h⟩, eq_false_of_ne_true fun h => hmissing ⟨hdest, h⟩⟩
    · exact absurd he (renameVerified_raises h)
  | replaceTree operationId path source expected =>
    rw [applyOperation, Effects.raises_current_bind] at h
    split_ifs at h with hin
    · exact absurd h Effects.raises_pure
    · refine ⟨eq_false_of_ne_true hin, fun hsrc => ?_⟩
      rcases Effects.raises_bind.mp h with h | ⟨u, m, hm, h⟩
      · unfold moveAside at h
        rw [Effects.raises_current_bind] at h
        split_ifs at h
        · exact renameVerified_raises h he
        · exact Effects.raises_pure h
      · -- setting the old tree aside leaves the source alone
        have hstaged : ∀ x, m.look (dirs.staged source ++ x) = f.look (dirs.staged source ++ x) := by
          have hm := moveAside_returns.mp hm
          split_ifs at hm
          · exact hm.staged hpay rfl
          · rw [hm]
            exact fun x => rfl
        have hself := hstaged []
        rw [List.append_nil] at hself
        rw [Effects.raises_current_bind, isDir_congr hself, digestMatches_congr hstaged, if_pos hsrc] at h
        exact renameVerified_raises h he

/-! ## Operations that do not spoil each other -/

namespace Operation

/-- Whether a directory may be made before another operation: not below the
target of a put, nor at that of a `put-tree`, which must be free. -/
def LeavesRoom (made : List PyStr) : Operation → Prop
  | putFile target _ _ | replaceTree _ target _ _ => target <+: made → made = target
  | putTree target _ _ => ¬target <+: made
  | makeDir _ | remove _ _ _ => True

/-- **An operation that does not spoil a later one.** -/
structure Spares (p o : Operation) : Prop where
  disjoint : p.moves = true → o.moves = true → ¬Overlap p.path o.path
  ids : ∀ i j, p.trashId = some i → o.trashId = some j → i ≠ j
  sources : ∀ s t, p.source = some s → o.source = some t → ¬Overlap s t
  room : ∀ path, p = makeDir path → LeavesRoom path o

variable {p o : Operation} {t : List PyStr}

theorem Touches.staged_stays (ht : p.Touches dirs f m) (hpay : o.Payload)
    (ho : o.source = some t) (hsrc : ∀ s, p.source = some s → ¬Overlap s t)
    (x : List PyStr) : m.look (dirs.staged t ++ x) = f.look (dirs.staged t ++ x) := by
  have hx : dirs.staged t <+: dirs.staged t ++ x := List.prefix_append _ x
  rcases ht (dirs.staged t ++ x) with h | ⟨-, h⟩ | ⟨s, hs, h, -⟩ | ⟨r, hr, h⟩ | ⟨h, -⟩
      | ⟨r, hr, h, -⟩
  · exact h
  · exact (dirs.not_both hx h).elim
  · refine absurd ?_ (hsrc s hs)
    rcases List.prefix_or_prefix_of_prefix h hx with h | h
    · exact Or.inl ((List.prefix_append_right_inj _).mp h)
    · exact Or.inr ((List.prefix_append_right_inj _).mp h)
  · obtain ⟨i, name, -, rfl⟩ := trash_eq hr
    rcases List.prefix_or_prefix_of_prefix h hx with h | h
    · exact absurd h (hpay.trash_not_prefix ho)
    · exact absurd h (hpay.not_prefix_trash ho)
  · exact (dirs.transaction_not_prefix hx h).elim
  · obtain ⟨i, name, -, rfl⟩ := trash_eq hr
    exact absurd ((hx.trans h).trans (List.dropLast_prefix _)) (hpay.not_prefix_trash ho)

variable (env) in
theorem Touches.asks (ht : p.Touches dirs f m) (hpay : o.Payload)
    (ho : o.source = some t) (hsrc : ∀ s, p.source = some s → ¬Overlap s t)
    (expected : Option PyStr) :
    m.look (dirs.staged t) = f.look (dirs.staged t) ∧ digestMatches env m (dirs.staged t) expected
        = digestMatches env f (dirs.staged t) expected := by
  refine ⟨?_, digestMatches_congr (ht.staged_stays hpay ho hsrc)⟩
  have := ht.staged_stays hpay ho hsrc []
  rwa [List.append_nil] at this

theorem installs_or {path source : List PyStr} {expected : Option PyStr} {P Q : Prop}
    (hin : installed env f (dirs.target path) (dirs.staged source) expected = true →
      installed env m (dirs.target path) (dirs.staged source) expected = true)
    (hPQ : installed env f (dirs.target path) (dirs.staged source) expected = false → Q → P)
    (h : ¬(installed env f (dirs.target path) (dirs.staged source) expected = false ∧ P)) :
    ¬(installed env m (dirs.target path) (dirs.staged source) expected = false ∧ Q) := by
  rintro ⟨hm, hq⟩
  have hf : installed env f (dirs.target path) (dirs.staged source) expected = false := by
    refine eq_false_of_ne_true fun hf => ?_
    rw [hin hf] at hm
    cases hm
  exact h ⟨hf, hPQ hf hq⟩

theorem Spares.stays (h : Spares p o) (hp : p.Payload) (ho : o.Payload)
    (ht : p.Touches dirs f m) (hready : ¬o.Refused env dirs f) : ¬o.Refused env dirs m := by
  have hdis : o.moves = true → p.moves = true → ¬Overlap o.path p.path :=
    fun ho hp hov => h.disjoint hp ho (Or.symm hov)
  cases o with
  | makeDir path => exact hready
  | putFile path source expected =>
    obtain ⟨hlook, hdig⟩ := ht.asks env ho rfl (fun s hs => h.sources s source hs rfl) expected
    refine installs_or (fun hin => ?_) (fun _ => ?_) hready
    · refine installed_stays (p := putFile path source expected) hin ht (hdis rfl) rfl ho ?_
      exact fun made hmade => h.room made hmade
    · rw [isFile_congr hlook, hdig]
      exact id
  | putTree path source expected =>
    obtain ⟨hlook, hdig⟩ := ht.asks env ho rfl (fun s hs => h.sources s source hs rfl) expected
    refine installs_or (fun hin => ?_) (fun _ => ?_) hready
    · refine installed_stays (p := putTree path source expected) hin ht (hdis rfl) rfl ho ?_
      exact fun made hmade hbelow => absurd hbelow (h.room made hmade)
    · rw [isDir_congr hlook, hdig]
      refine Or.imp_left fun hdest => ?_
      rw [FileTree.present_iff] at hdest ⊢
      rcases ht.below_target (List.prefix_refl _)
          (fun hp => not_below (hdis rfl hp) (List.prefix_refl _)) with hx | ⟨hx, -⟩
      · exact fun hnone => hdest (hx.trans hnone)
      · exfalso
        have hbelow : path <+: p.path := target_below_iff.mp hx
        cases hmoves : p.moves with
        | true => exact hdis rfl hmoves (Or.inl hbelow)
        | false =>
          cases p with
          | makeDir made => exact h.room made rfl hbelow
          | _ => cases hmoves
  | remove operationId path missingOk =>
    rintro ⟨hgone, htrash, hmissing⟩
    refine hready ⟨?_, ?_, hmissing⟩
    · rw [FileTree.present_eq_false] at hgone ⊢
      rcases ht.below_target (List.prefix_refl _)
          (fun hp => not_below (hdis rfl hp) (List.prefix_refl _)) with hx | ⟨-, hx, -⟩
      · exact hx ▸ hgone
      · exact hx
    · rw [FileTree.present_eq_false] at htrash ⊢
      rwa [ht.trash_stays hp (fun j hj heq => h.ids j operationId hj rfl heq.symm) (List.prefix_refl _)] at htrash
  | replaceTree operationId path source expected =>
    obtain ⟨hlook, hdig⟩ := ht.asks env ho rfl (fun s hs => h.sources s source hs rfl) expected
    refine installs_or (fun hin => ?_) (fun _ => ?_) hready
    · refine installed_stays (p := replaceTree operationId path source expected) hin ht (hdis rfl) rfl ho ?_
      exact fun made hmade => h.room made hmade
    · rw [isDir_congr hlook, hdig]
      exact id

end Operation

/-! ## Operations the file system cannot carry out -/

theorem exists_installs (hs : f.look s ≠ none) (ha : Apart s d)
    (haccepted : env.refusal d.dropLast = none ∧ env.refusal d = none)
    (hclear : Clear f d.dropLast) (hrep : Replaceable f s d) : ∃ g, Installs env f s d g := by
  obtain ⟨m, hm⟩ := exists_opened f d.dropLast
  have hb := hm.between hclear
  have hsm : m.look s = f.look s := by
    have := hb.look_source ha []
    rwa [List.append_nil] at this
  have hren : m.Renamable s d :=
    (hm.renamable ha).mpr ⟨by rwa [hsm], (hb.replaceable ha).mpr hrep⟩
  refine ⟨m.rename s d hren, (renameOnce_returns (u := ⟨⟩) hs ha).mp ?_⟩
  unfold renameOnce
  exact Effects.returns_bind.mpr ⟨⟨⟩, m, mkdirs_returns.mpr ⟨haccepted.1, hclear, hm⟩,
    osRename_returns.mpr ⟨haccepted.2, hren, rfl⟩⟩

theorem Replaceable.back (h : Replaceable m s d) (hs : m.look s = f.look s)
    (hd : ∀ x, d <+: x → m.look x = f.look x ∨ (f.look x = none ∧ m.look x = some .dir)) :
    Replaceable f s d := by
  rcases hd d (List.prefix_refl d) with heq | ⟨hnone, -⟩
  · rcases h with h | ⟨hfile, hfile'⟩ | ⟨hdir, hdir', hempty⟩
    · exact Or.inl (heq ▸ h)
    · exact Or.inr (Or.inl ⟨hs ▸ hfile, heq ▸ hfile'⟩)
    · refine Or.inr (Or.inr ⟨hs ▸ hdir, heq ▸ hdir', fun x hx hne => ?_⟩)
      rcases hd x hx with h | ⟨h, -⟩
      · exact h ▸ hempty x hx hne
      · exact h
  · exact Or.inl hnone

namespace Operation

variable {p o : Operation}

theorem Touches.clear_back (ht : p.Touches dirs f m) {q : List PyStr}
    (hq : q <+: dirs.target o.path) (hp : p.moves = true → ¬p.path <+: o.path)
    (h : Clear m q) : Clear f q := by
  intro x hx content hfile
  have hxo := hx.trans hq
  rcases ht x with hlook | ⟨hmoves, hbelow⟩ | ⟨s, -, hbelow, -⟩ | ⟨t, htr, hbelow⟩ | ⟨-, hnone, -⟩
      | ⟨t, -, -, hnone, -⟩
  · exact h x hx content (hlook.trans hfile)
  · exact hp hmoves (target_below_iff.mp (hbelow.trans hxo))
  · exact dirs.transaction_not_prefix hbelow hxo
  · obtain ⟨i, name, -, rfl⟩ := trash_eq htr
    exact dirs.transaction_not_prefix hbelow hxo
  · rw [hnone] at hfile
    cases hfile
  · rw [hnone] at hfile
    cases hfile

theorem Touches.clear_trash_back (ht : p.Touches dirs f m) (hpay : p.Payload) {i : PyStr}
    {name : String} (hids : ∀ j, p.trashId = some j → i ≠ j)
    (h : Clear m (dirs.trash i name).dropLast) : Clear f (dirs.trash i name).dropLast := by
  intro x hx content hfile
  rcases ht.trash_same hpay hids (Or.inr (hx.trans (List.dropLast_prefix _))) with h' | ⟨-, h', -⟩
  · exact h x hx content (h'.trans hfile)
  · rw [h'] at hfile
    cases hfile

theorem Spares.below (h : Spares p o) (ho : o.moves = true) (ht : p.Touches dirs f m)
    {x : List PyStr} (hx : dirs.target o.path <+: x) :
    m.look x = f.look x ∨ (f.look x = none ∧ m.look x = some .dir) := by
  have hdis : p.moves = true → ¬Overlap o.path p.path := fun hp hov =>
    h.disjoint hp ho (Or.symm hov)
  rcases ht.below_target hx (fun hp => not_below (hdis hp) hx) with h | h
  · exact Or.inl h
  · exact Or.inr h.2

theorem Spares.installs_back (h : Spares p o) (ho : o.Payload) (hmoves : o.moves = true)
    (ht : p.Touches dirs f m) {source : List PyStr} (hsource : o.source = some source)
    (hs : f.look (dirs.staged source) ≠ none)
    (hin : Installs env m (dirs.staged source) (dirs.target o.path) g) :
    ∃ g', Installs env f (dirs.staged source) (dirs.target o.path) g' := by
  have hlook := (ht.asks env ho hsource (fun s hs => h.sources s source hs hsource) none).1
  refine exists_installs hs (dirs.staged_apart source o.path) hin.accepted ?_ ?_
  · refine ht.clear_back (List.dropLast_prefix _) (fun hp hov => ?_) hin.clear
    exact h.disjoint hp hmoves (Or.inl hov)
  · exact hin.replaceable.back hlook fun x hx => h.below hmoves ht hx

theorem Spares.discards_back (h : Spares p o) (hp : p.Payload) (hmoves : o.moves = true)
    (ht : p.Touches dirs f m) {i : PyStr} {name : String} (hi : o.trashId = some i)
    (hs : f.look (dirs.target o.path) ≠ none)
    (hin : Installs env m (dirs.target o.path) (dirs.trash i name) g) :
    ∃ g', Installs env f (dirs.target o.path) (dirs.trash i name) g' := by
  have hids : ∀ j, p.trashId = some j → i ≠ j := fun j hj heq => h.ids j i hj hi heq.symm
  refine exists_installs hs (dirs.target_apart o.path i name) hin.accepted ?_ ?_
  · exact ht.clear_trash_back hp hids hin.clear
  · refine hin.replaceable.back ?_ fun x hx => Or.inl (ht.trash_stays hp hids hx)
    rcases h.below hmoves ht (List.prefix_refl _) with h | ⟨h, -⟩
    · exact h
    · exact absurd h hs

end Operation

theorem Installs.clear_target {path : List PyStr} {i : PyStr} {name : String}
    (h : Installs env f (dirs.target path) (dirs.trash i name) g) :
    Clear g (dirs.target path).dropLast ↔ Clear f (dirs.target path).dropLast := by
  have ha := dirs.target_apart path i name
  refine forall_congr' fun x => forall_congr' fun hx => forall_congr' fun content => ?_
  have hself : ¬dirs.target path <+: x := fun hbelow =>
    Apart.below_not_prefix (dirs.staged_apart [] path) hbelow hx
  have htrash : ¬dirs.trash i name <+: x := fun hbelow =>
    ha.2 ((hbelow.trans hx).trans (List.dropLast_prefix _))
  rw [h.result x, if_neg htrash, if_neg hself]
  split_ifs with hway
  · exact ⟨fun _ => h.clear x hway content, fun _ hno => (by cases hno)⟩
  · rfl

namespace Operation

variable {p o : Operation}

theorem Spares.applies_back (h : Spares p o) (hp : p.Payload) (ho : o.Payload)
    (ht : p.Touches dirs f m) (hover : p.moves = true → ¬p.path <+: o.path)
    (hready : ¬o.Refused env dirs f) (happ : o.Applies env dirs m g) :
    ∃ g', o.Applies env dirs f g' := by
  cases o with
  | makeDir path =>
    obtain ⟨hr, hclear, -⟩ := happ
    obtain ⟨g', hg'⟩ := exists_opened f (dirs.target path)
    exact ⟨g', hr, ht.clear_back (List.prefix_refl _) hover hclear, hg'⟩
  | putFile path source expected =>
    cases hin : installed env f (dirs.target path) (dirs.staged source) expected with
    | true => exact ⟨f, Or.inl ⟨hin, rfl⟩⟩
    | false =>
      have hsrc := not_not.mp fun hno => hready ⟨hin, hno⟩
      have hs := isFile_present hsrc.1
      have hlook := (ht.asks env ho rfl (fun s hs => h.sources s source hs rfl) none).1
      rcases happ with ⟨hin', -⟩ | ⟨-, -, hin'⟩
      · rw [not_installed (by rwa [hlook])] at hin'
        cases hin'
      · obtain ⟨g', hg'⟩ := h.installs_back ho rfl ht rfl hs hin'
        exact ⟨g', Or.inr ⟨hin, hsrc, hg'⟩⟩
  | putTree path source expected =>
    cases hin : installed env f (dirs.target path) (dirs.staged source) expected with
    | true => exact ⟨f, Or.inl ⟨hin, rfl⟩⟩
    | false =>
      have hdest := eq_false_of_ne_true fun hdest => hready ⟨hin, Or.inl hdest⟩
      have hsrc := not_not.mp fun hno => hready ⟨hin, Or.inr hno⟩
      have hs := isDir_present hsrc.1
      have hlook := (ht.asks env ho rfl (fun s hs => h.sources s source hs rfl) none).1
      rcases happ with ⟨hin', -⟩ | ⟨-, -, -, hin'⟩
      · rw [not_installed (by rwa [hlook])] at hin'
        cases hin'
      · obtain ⟨g', hg'⟩ := h.installs_back ho rfl ht rfl hs hin'
        exact ⟨g', Or.inr ⟨hin, hdest, hsrc, hg'⟩⟩
  | remove operationId path missingOk =>
    cases hdest : f.present (dirs.target path) with
    | false =>
      refine ⟨f, Or.inl ⟨hdest, ?_, rfl⟩⟩
      by_contra hno
      rw [not_or, Bool.not_eq_true, Bool.not_eq_true] at hno
      exact hready ⟨hdest, hno⟩
    | true =>
      have hs := FileTree.present_iff.mp hdest
      rcases happ with ⟨hgone, -⟩ | ⟨-, hin⟩
      · rw [FileTree.present_eq_false] at hgone
        rcases h.below rfl ht (List.prefix_refl _) with hx | ⟨hx, -⟩
        · exact absurd (hx.symm.trans hgone) hs
        · exact absurd hx hs
      · obtain ⟨g', hg'⟩ := h.discards_back hp rfl ht rfl hs hin
        exact ⟨g', Or.inr ⟨hdest, hg'⟩⟩
  | replaceTree operationId path source expected =>
    cases hin : installed env f (dirs.target path) (dirs.staged source) expected with
    | true => exact ⟨f, Or.inl ⟨hin, rfl⟩⟩
    | false =>
      have hsrc := not_not.mp fun hno => hready ⟨hin, hno⟩
      have hs := isDir_present hsrc.1
      have hlook := (ht.asks env ho rfl (fun s hs => h.sources s source hs rfl) none).1
      rcases happ with ⟨hin', -⟩ | ⟨-, m', hm', -, hin'⟩
      · rw [not_installed (by rwa [hlook])] at hin'
        cases hin'
      · have hids : ∀ j, p.trashId = some j → operationId ≠ j := fun j hj heq =>
          h.ids j operationId hj rfl heq.symm
        have ha := dirs.staged_apart source path
        have htrash : m.look (dirs.trash operationId "old") = f.look (dirs.trash operationId "old") :=
          ht.trash_stays hp hids (List.prefix_refl _)
        have hclear : Clear f (dirs.target path).dropLast := by
          refine ht.clear_back (o := replaceTree operationId path source expected) (List.dropLast_prefix _) hover ?_
          split_ifs at hm'
          · exact hm'.clear_target.mp hin'.clear
          · exact hm' ▸ hin'.clear
        by_cases hcond : f.present (dirs.target path) = true ∧ f.present (dirs.trash operationId "old") = false
        · -- the old tree is set aside in both runs
          have hd := FileTree.present_iff.mp hcond.1
          have hdest : m.look (dirs.target path) = f.look (dirs.target path) := by
            rcases h.below rfl ht (List.prefix_refl _) with hx | ⟨hx, -⟩
            · exact hx
            · exact absurd hx hd
          rw [present_congr hdest, present_congr htrash, if_pos hcond] at hm'
          obtain ⟨t, ht'⟩ := h.discards_back hp rfl ht rfl hd hm'
          have hstaged := ht'.staged ho rfl
          have hself := hstaged []
          rw [List.append_nil] at hself
          obtain ⟨g', hg'⟩ := exists_installs (f := t) (by rwa [hself]) ha hin'.accepted (ht'.clear_target.mpr hclear)
            (Or.inl (ht'.moved (dirs.target_apart path operationId "old")).2)
          refine ⟨g', Or.inr ⟨hin, t, ?_, ?_, hg'⟩⟩
          · rw [if_pos hcond]
            exact ht'
          · rw [isDir_congr hself, digestMatches_congr hstaged]
            exact hsrc
        · obtain ⟨g', hg'⟩ : ∃ g', Installs env f (dirs.staged source) (dirs.target path) g' := by
            refine exists_installs hs ha hin'.accepted hclear ?_
            cases hdest : f.look (dirs.target path) with
            | none => exact Or.inl hdest
            | some n =>
              -- the trash is taken, so nothing is set aside in either run
              have hd : f.present (dirs.target path) = true :=
                FileTree.present_iff.mpr (by rw [hdest]; exact Option.some_ne_none n)
              have hm : m' = m := by
                rwa [if_neg] at hm'
                rintro ⟨-, htr⟩
                exact hcond ⟨hd, by rwa [present_congr htrash] at htr⟩
              exact (hm ▸ hin').replaceable.back hlook fun x hx => h.below rfl ht hx
          exact ⟨g', Or.inr ⟨hin, f, if_neg hcond ▸ rfl, hsrc, hg'⟩⟩

end Operation

theorem Operation.Spares.ready {p o : Operation} (h : p.Spares o) (hp : p.Payload) (ho : o.Payload)
    (happ : p.Applies env dirs f m) (hready : ¬o.Refused env dirs f) : ¬o.Refused env dirs m := by
  obtain ⟨t, hft, htm⟩ := Operation.visited_touches happ (Or.inr (Or.inl rfl))
  exact h.stays hp ho htm (h.stays hp ho hft hready)

variable {ops : List Operation}

theorem execAll_not_refused (hpay : ∀ o ∈ ops, o.Payload)
    (hspare : ops.Pairwise Operation.Spares) (hready : ∀ o ∈ ops, ¬o.Refused env dirs f)
    (h : (Effects.execAll (applyOperation env dirs) ops).Raises f e g) : ¬e.Refusal := by
  induction ops generalizing f with
  | nil => exact absurd h Effects.raises_pure
  | cons o ops ih =>
    intro he
    rw [Effects.execAll_cons] at h
    rcases Effects.raises_bind.mp h with h | ⟨u, m, hm, h⟩
    · exact hready o List.mem_cons_self (Operation.refused_of_raises (hpay o List.mem_cons_self) h he)
    · obtain ⟨hspares, hrest⟩ := List.pairwise_cons.mp hspare
      refine ih (fun p hp => hpay p (List.mem_cons_of_mem _ hp)) hrest (fun p hp => ?_) h he
      exact (hspares p hp).ready (hpay o List.mem_cons_self) (hpay p (List.mem_cons_of_mem _ hp))
        (applyOperation_returns.mp hm) (hready p (List.mem_cons_of_mem _ hp))

theorem execAll_stuck {before : List Operation} {o : Operation} {u : PUnit}
    (hspare : ∀ p ∈ before, p.Spares o ∧ p.Payload) (ho : o.Payload)
    (hover : ∀ p ∈ before, p.moves = true → ¬p.path <+: o.path) (hready : ¬o.Refused env dirs f)
    (hstuck : ∀ g, ¬o.Applies env dirs f g)
    (h : (Effects.execAll (applyOperation env dirs) before).Returns f u m) :
    ∀ g, ¬o.Applies env dirs m g := by
  induction before generalizing f with
  | nil => exact (Effects.returns_pure.mp h).2 ▸ hstuck
  | cons p before ih =>
    obtain ⟨v, t, hp, h⟩ := Effects.returns_bind.mp h
    obtain ⟨hspares, hpay⟩ := hspare p List.mem_cons_self
    have happ := applyOperation_returns.mp hp
    refine ih (fun q hq => hspare q (List.mem_cons_of_mem _ hq))
      (fun q hq => hover q (List.mem_cons_of_mem _ hq)) (hspares.ready hpay ho happ hready) ?_ h
    intro g hg
    obtain ⟨t', hft, htt⟩ := Operation.visited_touches happ (Or.inr (Or.inl rfl))
    have hmid := hspares.stays hpay ho hft hready
    obtain ⟨g', hg'⟩ := hspares.applies_back hpay ho htt (hover p List.mem_cons_self) hmid hg
    obtain ⟨g'', hg''⟩ := hspares.applies_back hpay ho hft (hover p List.mem_cons_self) hready hg'
    exact hstuck g'' hg''

/-! ## All or nothing -/

/-- An object that is refused before it changes anything. -/
def RefusedAtOnce (env : ReplayEnv ν) (dirs : ReplayDirs) (raw : List (PyStr × Json))
    (f : FileTree PyStr ν) : Prop :=
  (∃ e, decodeOperation raw = .error e)
    ∨ ∃ o, decodeOperation raw = .ok o ∧ o.Refused env dirs f ∧ ¬o.SetsAside dirs f

/-- **A transaction refused before it changes anything**: the data directory
is there, and all before the refused operation was applied already. -/
def RefusedFirst (env : ReplayEnv ν) (dirs : ReplayDirs) (raws : List (List (PyStr × Json)))
    (f : FileTree PyStr ν) : Prop :=
  f.isDir dirs.data = true ∧ ∃ done raw rest ops, raws = done ++ raw :: rest ∧ Decoded done ops
    ∧ (∀ o ∈ ops, o.Settled env dirs f) ∧ RefusedAtOnce env dirs raw f

/-- **A list of operations the file system stops**: the last one cannot be
carried out in the tree before the first one, and none of the others moves
what is in its way. -/
def Stuck (env : ReplayEnv ν) (dirs : ReplayDirs) (ops : List Operation) (f : FileTree PyStr ν) :
    Prop :=
  ∃ before o, ops = before ++ [o] ∧ (∀ g, ¬o.Applies env dirs f g)
    ∧ ∀ p ∈ before, p.moves = true → ¬p.path <+: o.path

/-- **A transaction that is not refused**: of the operations that are tried,
which are all of them unless the file system stops them, none is to be
refused before the first effect, and none spoils a later one. -/
def NeverRefused (env : ReplayEnv ν) (dirs : ReplayDirs) (raws : List (List (PyStr × Json)))
    (f : FileTree PyStr ν) : Prop :=
  ∃ tried rest ops, raws = tried ++ rest ∧ Decoded tried ops
    ∧ (∀ o ∈ ops, o.Payload ∧ ¬o.Refused env dirs f)
    ∧ ((Operation.makeDir [] :: ops).Pairwise fun p o =>
      (∀ s t, p.source = some s → o.source = some t → ¬Overlap s t)
        ∧ ∀ path, p = .makeDir path → Operation.LeavesRoom path o)
    ∧ (rest = [] ∨ Stuck env dirs (Operation.makeDir [] :: ops) f)

/-- The two ways for a transaction to leave the data alone when it is
refused. -/
def AllOrNothing (env : ReplayEnv ν) (dirs : ReplayDirs) (expectedGeneration : Int)
    (f : FileTree PyStr ν) : Prop :=
  ∀ raws, publishedOperations env dirs expectedGeneration f = .ok raws →
    RefusedFirst env dirs raws f ∨ NeverRefused env dirs raws f

variable {expectedGeneration : Int}

theorem replayTransaction_raises : (replayTransaction env dirs expectedGeneration).Raises f e g
      ↔ (publishedOperations env dirs expectedGeneration f = .error e ∧ f = g)
        ∨ ∃ raws, publishedOperations env dirs expectedGeneration f = .ok raws
          ∧ (mkdirs env dirs.data >>= fun _ => Effects.execAll (replayOne env dirs) raws).Raises
            f e g := by
  unfold replayTransaction
  rw [Effects.raises_current_bind, Effects.raises_bind]
  refine or_congr Effects.raises_ofExcept ?_
  constructor
  · rintro ⟨raws, t, hpub, h⟩
    obtain ⟨hread, rfl⟩ := Effects.returns_ofExcept.mp hpub
    refine ⟨raws, hread, Effects.raises_bind.mpr ?_⟩
    rcases Effects.raises_bind.mp h with h | ⟨u, t', hroot, h⟩
    · exact Or.inl h
    · rcases Effects.raises_bind.mp h with h | ⟨u', t'', -, h⟩
      · exact Or.inr ⟨u, t', hroot, h⟩
      · exact absurd h Effects.raises_pure
  · rintro ⟨raws, hpub, h⟩
    refine ⟨raws, f, Effects.returns_ofExcept.mpr ⟨hpub, rfl⟩, Effects.raises_bind.mpr ?_⟩
    rcases Effects.raises_bind.mp h with h | ⟨u, t', hroot, h⟩
    · exact Or.inl h
    · exact Or.inr ⟨u, t', hroot, Effects.raises_bind.mpr (Or.inl h)⟩

variable {raws : List (List (PyStr × Json))}

theorem execAll_replayOne_raises (hdec : Decoded raws ops) (h : (Effects.execAll (replayOne env dirs) raws).Raises f e g) :
    (Effects.execAll (applyOperation env dirs) ops).Raises f e g := by
  induction hdec generalizing f with
  | nil => exact h
  | cons ho _ ih =>
    rw [Effects.execAll_cons, Effects.raises_bind] at h ⊢
    rcases h with h | ⟨u, m, hone, h⟩
    · left
      rcases Effects.raises_bind.mp h with h | ⟨o, m', hdec, h⟩
      · rw [(Effects.raises_ofExcept.mp h).1] at ho
        cases ho
      · obtain ⟨ho', rfl⟩ := Effects.returns_ofExcept.mp hdec
        rwa [Except.ok.inj (ho.symm.trans ho')]
    · right
      obtain ⟨o, m', hdec, hop⟩ := Effects.returns_bind.mp hone
      obtain ⟨ho', rfl⟩ := Effects.returns_ofExcept.mp hdec
      rw [Except.ok.inj (ho.symm.trans ho')]
      exact ⟨u, m, hop, ih h⟩

theorem RefusedFirst.unchanged (h : RefusedFirst env dirs raws f) (he : e.Refusal)
    (hraise : (mkdirs env dirs.data >>= fun _ =>
      Effects.execAll (replayOne env dirs) raws).Raises f e g) : g = f := by
  obtain ⟨hdata, done, raw, rest, ops, rfl, hdec, hset, hraw⟩ := h
  rcases Effects.raises_bind.mp hraise with h | ⟨u, m, hroot, h⟩
  · exact absurd he (mkdirs_raises h).not_refusal
  · -- the data directory is there, and what was done is done
    obtain ⟨-, -, hm⟩ := mkdirs_returns.mp hroot
    obtain rfl := hm.unique (Opened.self (FileTree.isDir_iff.mp hdata))
    have hdone : (Effects.execAll (replayOne env dirs) done).Returns m ⟨⟩ m :=
      execAll_replayOne.mpr ⟨ops, hdec, Effects.execAll_redo
        (fun o s hs => applyOperation_returns.mpr hs.applies) hset⟩
    have hrefused : ∃ e', (replayOne env dirs raw).Raises m e' m := by
      rcases hraw with ⟨e', hraw⟩ | ⟨o, ho, hrefused, haside⟩
      · exact ⟨e', Effects.raises_bind.mpr (Or.inl (Effects.raises_ofExcept.mpr ⟨hraw, rfl⟩))⟩
      · obtain ⟨e', hop⟩ := applyOperation_refuses hrefused haside
        exact ⟨e', Effects.raises_bind.mpr (Or.inr ⟨o, m, Effects.returns_ofExcept.mpr ⟨ho, rfl⟩, hop⟩)⟩
    obtain ⟨e', hrefused⟩ := hrefused
    have hall : (Effects.execAll (replayOne env dirs) (done ++ raw :: rest)).Raises m e' m :=
      Effects.raises_execAll_append.mpr (Or.inr ⟨m, hdone, Effects.raises_bind.mpr (Or.inl hrefused)⟩)
    exact (h.unique hall).2

theorem NeverRefused.not_refusal (hpub : publishedOperations env dirs expectedGeneration f = .ok raws)
    (h : NeverRefused env dirs raws f)
    (hraise : (mkdirs env dirs.data >>= fun _ =>
      Effects.execAll (replayOne env dirs) raws).Raises f e g) : ¬e.Refusal := by
  obtain ⟨tried, rest, ops, rfl, hdec, hready, hroom, hrest⟩ := h
  have hvalid : (Operation.makeDir [] :: ops).Pairwise (fun p o =>
      (∀ i j, p.trashId = some i → o.trashId = some j → i ≠ j)
      ∧ (p.moves = true → o.moves = true → ¬Overlap p.path o.path)) :=
    List.Pairwise.cons (fun o _ => ⟨fun i j hi => (by cases hi), fun h => (by cases h)⟩)
      (publishedOperations_spec hpub (List.prefix_append _ _) hdec)
  have hspare : (Operation.makeDir [] :: ops).Pairwise Operation.Spares :=
    (hvalid.and hroom).imp fun h => ⟨h.1.2, h.1.1, h.2.1, h.2.2⟩
  have hall : ∀ o ∈ Operation.makeDir [] :: ops, o.Payload ∧ ¬o.Refused env dirs f := by
    intro o ho
    rcases List.mem_cons.mp ho with rfl | ho
    · exact ⟨fun source hs => (by cases hs), id⟩
    · exact hready o ho
  have htried : ∀ {e : Exc} {t : FileTree PyStr ν},
      (Effects.execAll (applyOperation env dirs) (.makeDir [] :: ops)).Raises f e t → ¬e.Refusal :=
    fun h => execAll_not_refused (fun o ho => (hall o ho).1) hspare (fun o ho => (hall o ho).2) h
  rcases Effects.raises_bind.mp hraise with h | ⟨u, m, hroot, h⟩
  · exact (mkdirs_raises h).not_refusal
  · have hmake := makeRoot_returns.mpr hroot
    rcases Effects.raises_execAll_append.mp h with h | ⟨t, htry, h⟩
    · exact htried (Effects.raises_bind.mpr (Or.inr ⟨u, m, hmake, execAll_replayOne_raises hdec h⟩))
    · exfalso
      obtain ⟨ops', hdec', htry⟩ := execAll_replayOne.mp htry
      obtain rfl := hdec.unique hdec'
      rcases hrest with rfl | ⟨before, o, hsplit, hstuck, hover⟩
      · exact Effects.raises_pure h
      · -- the operation that cannot be carried out would have been
        have hrun : (Effects.execAll (applyOperation env dirs) (.makeDir [] :: ops)).Returns f ⟨⟩ t :=
          Effects.returns_bind.mpr ⟨u, m, hmake, htry⟩
        rw [hsplit] at hrun hspare hall
        obtain ⟨t', hbefore, hlast⟩ := Effects.returns_execAll_append.mp hrun
        obtain ⟨v, g', hlast, -⟩ := Effects.returns_bind.mp hlast
        obtain ⟨hpay, hnot⟩ := hall o (List.mem_append_right _ List.mem_cons_self)
        refine execAll_stuck (fun p hp => ⟨?_, ?_⟩) hpay hover hnot hstuck hbefore g'
          (applyOperation_returns.mp hlast)
        · exact (List.pairwise_append.mp hspare).2.2 p hp o List.mem_cons_self
        · exact (hall p (List.mem_append_left _ hp)).1

/-- **A transaction that is refused leaves the data as it was**, where it is
refused first or not at all. -/
theorem replay_atomic {expectedGeneration : Int}
    (hraise : (replayTransaction env dirs expectedGeneration).Raises f e g) (he : e.Refusal)
    (hcond : AllOrNothing env dirs expectedGeneration f) :
    g.subtree dirs.data = f.subtree dirs.data := by
  rcases replayTransaction_raises.mp hraise with ⟨-, rfl⟩ | ⟨raws, hpub, h⟩
  · rfl
  · rcases hcond raws hpub with hfirst | hnever
    · rw [hfirst.unchanged he h]
    · exact absurd he (hnever.not_refusal hpub h)

def removing (paths : List String) : Json :=
  manifestOf (paths.zipIdx.map fun p =>
    .obj [("id", .str (PyStr.ofString (toString p.2))), ("op", .str "remove"),
      ("path", .str (PyStr.ofString p.1))])

theorem raises_of_cls (x : Replay Unit Bool) (f : FileTree PyStr Unit) (cls : ExcClass)
    (h : (match (x f).snd with | .error e => some e.cls | .ok _ => none) = some cls) :
    ∃ e, x.Raises f e (x.final f) ∧ e.cls = cls := by
  cases hx : (x f).snd with
  | error e =>
    rw [hx] at h
    exact ⟨e, ⟨hx, rfl⟩, Option.some.inj h⟩
  | ok b =>
    rw [hx] at h
    cases h

theorem subtree_ne_of_removed {t : FileTree PyStr Unit} (h : t.look (plainDirs.data ++ [PyStr.ofString "a"]) = none) :
    t.subtree plainDirs.data ≠ filledTree.subtree plainDirs.data := by
  intro heq
  have hlook := congrArg (fun t => t.look ["a"]) heq
  simp only [FileTree.look_subtree] at hlook
  rw [h] at hlook
  cases hlook

/-- **A refused replay that changes the data**: removing `a`, which is there,
and then `b`, which is not. -/
theorem replay_not_atomic :
    ∃ e g, (replayTransaction (plainEnv (removing ["a", "b"])) plainDirs 0).Raises filledTree e g
      ∧ e.Refusal ∧ g.subtree plainDirs.data ≠ filledTree.subtree plainDirs.data := by
  obtain ⟨e, he, hcls⟩ := raises_of_cls
    (replayTransaction (plainEnv (removing ["a", "b"])) plainDirs 0) filledTree .transaction
    (by decide +kernel)
  exact ⟨e, _, he, Or.inr hcls, subtree_ne_of_removed (by decide +kernel)⟩

/-- Removing `b` alone is refused, and leaves the data as it was. -/
theorem replay_atomic_missing :
    ((replayTransaction (plainEnv (removing ["b"])) plainDirs 0).final filledTree).subtree
      plainDirs.data = filledTree.subtree plainDirs.data := by
  obtain ⟨e, he, hcls⟩ := raises_of_cls
    (replayTransaction (plainEnv (removing ["b"])) plainDirs 0) filledTree .transaction
    (by decide +kernel)
  refine replay_atomic he (Or.inr hcls) fun raws hpub => Or.inl ⟨by decide, [], ?_⟩
  have hpub' : publishedOperations (plainEnv (removing ["b"])) plainDirs 0 filledTree
      = .ok [[("id", .str "0"), ("op", .str "remove"), ("path", .str "b")]] := rfl
  obtain rfl := Except.ok.inj (hpub'.symm.trans hpub)
  refine ⟨_, [], [], rfl, List.Forall₂.nil, fun o ho => (by cases ho), Or.inr ⟨_, rfl, ?_, id⟩⟩
  exact ⟨by decide, by decide, by decide⟩
