import HttkWorkflow.ReplaySteps

/-!
# The operations of a transaction, one at a time and side by side

`Operation.Applies` is what an operation does when it returns, and
`Operation.Settled` the state in which it does nothing. What an operation
can disturb of another one is where it reaches (`Touches`): below its
target, below its staged source, in its own trash, and, creating
directories, above its target and above its trash.

Two operations that the validation lets stand side by side are `Compatible`
if, besides, neither of them undoes the other: no directory is made at or
below the target of a removal, nor below a tree that is put in place. A
settled operation then stays settled whatever a compatible one does
(`Settled.stays`).
-/

variable {ν : Type} {env : ReplayEnv ν} {dirs : ReplayDirs} {f g c m : FileTree PyStr ν}
variable {u : PUnit}

namespace ReplayDirs

variable {a b x : List PyStr}

theorem transaction_not_prefix (dirs : ReplayDirs)
    (h : (dirs.transaction ++ a) <+: x) (h' : x <+: dirs.data ++ b) : False := by
  have hp := ((List.prefix_append _ a).trans h).trans h'
  rcases List.prefix_or_prefix_of_prefix hp (List.prefix_append dirs.data b) with h | h
  · exact dirs.apart h
  · exact dirs.apart' h

theorem data_not_prefix (dirs : ReplayDirs)
    (h : (dirs.data ++ a) <+: x) (h' : x <+: dirs.transaction ++ b) : False := by
  have hp := ((List.prefix_append _ a).trans h).trans h'
  rcases List.prefix_or_prefix_of_prefix hp (List.prefix_append dirs.transaction b) with h | h
  · exact dirs.apart' h
  · exact dirs.apart h

theorem not_both (dirs : ReplayDirs) (h : (dirs.transaction ++ a) <+: x) (h' : (dirs.data ++ b) <+: x) : False := by
  rcases List.prefix_or_prefix_of_prefix h h' with hp | hp
  · exact dirs.transaction_not_prefix (List.prefix_refl _) hp
  · exact dirs.data_not_prefix (List.prefix_refl _) hp

theorem staged_apart (dirs : ReplayDirs) (source path : List PyStr) : Apart (dirs.staged source) (dirs.target path) :=
  ⟨dirs.transaction_not_prefix (List.prefix_refl _), dirs.data_not_prefix (List.prefix_refl _)⟩

theorem target_apart (dirs : ReplayDirs) (path : List PyStr) (operationId : PyStr) (name : String) :
    Apart (dirs.target path) (dirs.trash operationId name) :=
  ⟨dirs.data_not_prefix (List.prefix_refl _), dirs.transaction_not_prefix (List.prefix_refl _)⟩

end ReplayDirs

namespace Operation

def path : Operation → List PyStr
  | makeDir path | putFile path _ _ | putTree path _ _ | remove _ path _
  | replaceTree _ path _ _ => path

/-- The staged source of a put. -/
def source : Operation → Option (List PyStr)
  | makeDir _ | remove _ _ _ => none
  | putFile _ source _ | putTree _ source _ | replaceTree _ _ source _ => some source

/-- Where an operation puts what it takes away. -/
def trash (dirs : ReplayDirs) : Operation → Option (List PyStr)
  | remove operationId _ _ => some (dirs.trash operationId "removed")
  | replaceTree operationId _ _ _ => some (dirs.trash operationId "old")
  | _ => none

def trashId : Operation → Option PyStr
  | remove operationId _ _ | replaceTree operationId _ _ _ => some operationId
  | _ => none

def moves : Operation → Bool
  | makeDir _ => false
  | _ => true

/-- **What an operation does** when it returns. -/
def Applies (env : ReplayEnv ν) (dirs : ReplayDirs) :
    Operation → FileTree PyStr ν → FileTree PyStr ν → Prop
  | makeDir path, f, g => env.refusal (dirs.target path) = none
      ∧ Clear f (dirs.target path) ∧ Opened f (dirs.target path) g
  | putFile path source expected, f, g =>
      (installed env f (dirs.target path) (dirs.staged source) expected = true ∧ g = f)
      ∨ (installed env f (dirs.target path) (dirs.staged source) expected = false
        ∧ (f.isFile (dirs.staged source) = true
          ∧ digestMatches env f (dirs.staged source) expected = true)
        ∧ Installs env f (dirs.staged source) (dirs.target path) g)
  | putTree path source expected, f, g =>
      (installed env f (dirs.target path) (dirs.staged source) expected = true ∧ g = f)
      ∨ (installed env f (dirs.target path) (dirs.staged source) expected = false
        ∧ f.present (dirs.target path) = false
        ∧ (f.isDir (dirs.staged source) = true
          ∧ digestMatches env f (dirs.staged source) expected = true)
        ∧ Installs env f (dirs.staged source) (dirs.target path) g)
  | remove operationId path missingOk, f, g =>
      (f.present (dirs.target path) = false
        ∧ (f.present (dirs.trash operationId "removed") = true ∨ missingOk = true) ∧ g = f)
      ∨ (f.present (dirs.target path) = true
        ∧ Installs env f (dirs.target path) (dirs.trash operationId "removed") g)
  | replaceTree operationId path source expected, f, g =>
      (installed env f (dirs.target path) (dirs.staged source) expected = true ∧ g = f)
      ∨ (installed env f (dirs.target path) (dirs.staged source) expected = false
        ∧ ∃ m, (if f.present (dirs.target path) = true
              ∧ f.present (dirs.trash operationId "old") = false
            then Installs env f (dirs.target path) (dirs.trash operationId "old") m else m = f)
          ∧ (m.isDir (dirs.staged source) = true
            ∧ digestMatches env m (dirs.staged source) expected = true)
          ∧ Installs env m (dirs.staged source) (dirs.target path) g)

end Operation

variable {expected : Option PyStr}

theorem digestMatches_congr {p q : List PyStr} (h : ∀ x, g.look (q ++ x) = f.look (p ++ x)) :
    digestMatches env g q expected = digestMatches env f p expected := by
  have hself := h []
  rw [List.append_nil, List.append_nil] at hself
  have hsub : g.subtree q = f.subtree p := FileTree.ext_look h
  unfold digestMatches
  rw [hself, hsub]

theorem Installs.digestMatches {s d : List PyStr} (h : Installs env f s d g) :
    digestMatches env g d expected = digestMatches env f s expected := by
  refine digestMatches_congr fun x => ?_
  rw [h.result, if_pos (List.prefix_append d x), List.drop_left]

variable {p : List PyStr}

theorem isFile_present (h : f.isFile p = true) : f.look p ≠ none := by
  obtain ⟨content, hp⟩ := FileTree.isFile_iff.mp h
  rw [hp]
  exact Option.some_ne_none _

theorem isDir_present (h : f.isDir p = true) : f.look p ≠ none := by
  rw [FileTree.isDir_iff.mp h]
  exact Option.some_ne_none _

theorem returns_skip {P Q : Prop} (hp : P) (hq : ¬Q) :
    (pure ⟨⟩ : Replay ν PUnit).Returns f u g ↔ (P ∧ g = f) ∨ Q := by
  rw [Effects.returns_pure]
  constructor
  · rintro ⟨-, rfl⟩
    exact Or.inl ⟨hp, rfl⟩
  · rintro (⟨-, rfl⟩ | h)
    · exact ⟨rfl, rfl⟩
    · exact absurd h hq

theorem returns_refuse {P : Prop} {message : Message} (hp : ¬P) :
    (refuse message : Replay ν PUnit).Returns f u g ↔ P :=
  ⟨fun h => absurd h Effects.returns_raise, fun h => absurd h hp⟩

theorem moveAside_returns {operationId : PyStr} {path : List PyStr} :
    (moveAside env dirs operationId path).Returns f u g
      ↔ if f.present (dirs.target path) = true ∧ f.present (dirs.trash operationId "old") = false
        then Installs env f (dirs.target path) (dirs.trash operationId "old") g else g = f := by
  unfold moveAside
  rw [Effects.returns_current_bind]
  split_ifs with h
  · exact renameVerified_returns (FileTree.present_iff.mp h.1) (dirs.target_apart path operationId "old")
  · rw [Effects.returns_pure]
    exact ⟨fun h => h.2.symm, fun h => ⟨rfl, h.symm⟩⟩

/-- **An operation returns exactly when it applies.** -/
theorem applyOperation_returns {o : Operation} :
    (applyOperation env dirs o).Returns f u g ↔ o.Applies env dirs f g := by
  cases o with
  | makeDir path =>
    rw [applyOperation, Operation.Applies, Effects.returns_bind]
    constructor
    · rintro ⟨v, m, hmk, h⟩
      obtain ⟨hr, hclear, hm⟩ := mkdirs_returns.mp hmk
      have hdir : m.isDir (dirs.target path) = true := by
        rw [FileTree.isDir_iff, hm, if_pos (List.prefix_refl _)]
      rw [Effects.returns_current_bind, if_pos hdir, Effects.returns_pure] at h
      exact ⟨hr, hclear, h.2 ▸ hm⟩
    · rintro ⟨hr, hclear, hm⟩
      have hdir : g.isDir (dirs.target path) = true := by
        rw [FileTree.isDir_iff, hm, if_pos (List.prefix_refl _)]
      refine ⟨⟨⟩, g, mkdirs_returns.mpr ⟨hr, hclear, hm⟩, ?_⟩
      rw [Effects.returns_current_bind, if_pos hdir, Effects.returns_pure]
      exact ⟨rfl, rfl⟩
  | putFile path source expected =>
    rw [applyOperation, Operation.Applies, Effects.returns_current_bind]
    by_cases hin : installed env f (dirs.target path) (dirs.staged source) expected = true
    · rw [if_pos hin]
      exact returns_skip hin (fun h => by rw [hin] at h; cases h.1)
    · rw [if_neg hin]
      by_cases hsrc : f.isFile (dirs.staged source) = true ∧ digestMatches env f (dirs.staged source) expected = true
      · rw [if_pos hsrc, Effects.returns_bind]
        have hren : ∀ {v m}, (renameVerified env (dirs.staged source) (dirs.target path)).Returns
            f v m ↔ Installs env f (dirs.staged source) (dirs.target path) m :=
          renameVerified_returns (isFile_present hsrc.1) (dirs.staged_apart source path)
        constructor
        · rintro ⟨v, m, hm, h⟩
          have hm := hren.mp hm
          -- the digest at the destination is the one checked at the source
          rw [Effects.returns_current_bind, if_pos (hm.digestMatches.trans hsrc.2), Effects.returns_pure] at h
          exact Or.inr ⟨eq_false_of_ne_true hin, hsrc, h.2 ▸ hm⟩
        · rintro (⟨h, -⟩ | ⟨-, -, hm⟩)
          · exact absurd h hin
          · refine ⟨⟨⟩, g, hren.mpr hm, ?_⟩
            rw [Effects.returns_current_bind, if_pos (hm.digestMatches.trans hsrc.2), Effects.returns_pure]
            exact ⟨rfl, rfl⟩
      · rw [if_neg hsrc]
        refine returns_refuse ?_
        rintro (⟨h, -⟩ | ⟨-, h, -⟩)
        · exact hin h
        · exact hsrc h
  | putTree path source expected =>
    rw [applyOperation, Operation.Applies, Effects.returns_current_bind]
    by_cases hin : installed env f (dirs.target path) (dirs.staged source) expected = true
    · rw [if_pos hin]
      exact returns_skip hin (fun h => by rw [hin] at h; cases h.1)
    · rw [if_neg hin]
      by_cases hdest : f.present (dirs.target path) = true
      · rw [if_pos hdest]
        refine returns_refuse ?_
        rintro (⟨h, -⟩ | ⟨-, h, -⟩)
        · exact hin h
        · rw [hdest] at h
          cases h
      · rw [if_neg hdest]
        by_cases hsrc : f.isDir (dirs.staged source) = true ∧ digestMatches env f (dirs.staged source) expected = true
        · rw [if_pos hsrc, renameVerified_returns (isDir_present hsrc.1) (dirs.staged_apart source path)]
          constructor
          · exact fun hm => Or.inr ⟨eq_false_of_ne_true hin, eq_false_of_ne_true hdest, hsrc, hm⟩
          · rintro (⟨h, -⟩ | ⟨-, -, -, hm⟩)
            · exact absurd h hin
            · exact hm
        · rw [if_neg hsrc]
          refine returns_refuse ?_
          rintro (⟨h, -⟩ | ⟨-, -, h, -⟩)
          · exact hin h
          · exact hsrc h
  | remove operationId path missingOk =>
    rw [applyOperation, Operation.Applies, Effects.returns_current_bind, ← and_assoc]
    by_cases hdest : f.present (dirs.target path) = true
    · rw [hdest, if_neg (fun h => by cases h.1), if_neg (fun h => by cases h.1),
        if_neg (fun h => by cases h), renameVerified_returns (FileTree.present_iff.mp hdest)
        (dirs.target_apart path operationId "removed")]
      constructor
      · exact fun hm => Or.inr ⟨rfl, hm⟩
      · rintro (⟨⟨h, -⟩, -⟩ | ⟨-, hm⟩)
        · cases h
        · exact hm
    · have hgone : f.present (dirs.target path) = false := eq_false_of_ne_true hdest
      have hno : ¬(f.present (dirs.target path) = true
          ∧ Installs env f (dirs.target path) (dirs.trash operationId "removed") g) :=
        fun h => hdest h.1
      by_cases htrash : f.present (dirs.trash operationId "removed") = true
      · rw [if_pos ⟨hgone, htrash⟩]
        exact returns_skip ⟨hgone, Or.inl htrash⟩ hno
      · rw [if_neg (fun h => htrash h.2)]
        by_cases hmissing : missingOk = true
        · rw [if_pos ⟨hgone, hmissing⟩]
          exact returns_skip ⟨hgone, Or.inr hmissing⟩ hno
        · rw [if_neg (fun h => hmissing h.2), if_pos hgone]
          refine returns_refuse ?_
          rintro (⟨⟨-, h | h⟩, -⟩ | h)
          · exact htrash h
          · exact hmissing h
          · exact hno h
  | replaceTree operationId path source expected =>
    rw [applyOperation, Operation.Applies, Effects.returns_current_bind]
    by_cases hin : installed env f (dirs.target path) (dirs.staged source) expected = true
    · rw [if_pos hin]
      exact returns_skip hin (fun h => by rw [hin] at h; cases h.1)
    · rw [if_neg hin, Effects.returns_bind]
      have hren : ∀ {m : FileTree PyStr ν}, m.isDir (dirs.staged source) = true →
          ((renameVerified env (dirs.staged source) (dirs.target path)).Returns m u g
            ↔ Installs env m (dirs.staged source) (dirs.target path) g) := fun hsrc =>
        renameVerified_returns (isDir_present hsrc) (dirs.staged_apart source path)
      constructor
      · rintro ⟨v, m, haside, h⟩
        rw [Effects.returns_current_bind] at h
        by_cases hsrc : m.isDir (dirs.staged source) = true ∧ digestMatches env m (dirs.staged source) expected = true
        · rw [if_pos hsrc] at h
          exact Or.inr ⟨eq_false_of_ne_true hin, m, moveAside_returns.mp haside, hsrc, (hren hsrc.1).mp h⟩
        · rw [if_neg hsrc] at h
          exact absurd h Effects.returns_raise
      · rintro (⟨h, -⟩ | ⟨-, m, haside, hsrc, hm⟩)
        · exact absurd h hin
        · refine ⟨⟨⟩, m, moveAside_returns.mpr haside, ?_⟩
          rw [Effects.returns_current_bind, if_pos hsrc]
          exact (hren hsrc.1).mpr hm

/-! ## Settled operations -/

namespace Operation

/-- **An operation that is over**: where the tree is so, it does nothing. -/
def Settled (env : ReplayEnv ν) (dirs : ReplayDirs) : Operation → FileTree PyStr ν → Prop
  | makeDir path, f => env.refusal (dirs.target path) = none ∧ f.look (dirs.target path) = some .dir
  | putFile path source expected, f | putTree path source expected, f
  | replaceTree _ path source expected, f =>
      installed env f (dirs.target path) (dirs.staged source) expected = true
  | remove operationId path missingOk, f => f.present (dirs.target path) = false
      ∧ (f.present (dirs.trash operationId "removed") = true ∨ missingOk = true)

variable {o : Operation}

theorem Settled.congr (h : o.Settled env dirs g)
    (hlook : ∀ x, dirs.data <+: x ∨ dirs.transaction <+: x → c.look x = g.look x) : o.Settled env dirs c := by
  have htarget : ∀ path x, c.look (dirs.target path ++ x) = g.look (dirs.target path ++ x) := fun path x =>
    hlook _ (Or.inl ((List.prefix_append _ path).trans (List.prefix_append _ x)))
  have hself : ∀ path, c.look (dirs.target path) = g.look (dirs.target path) := fun path =>
    hlook _ (Or.inl (List.prefix_append _ path))
  have hstaged : ∀ source, c.look (dirs.staged source) = g.look (dirs.staged source) := fun source =>
    hlook _ (Or.inr (List.prefix_append _ source))
  have hinstalled : ∀ path source expected, installed env g (dirs.target path) (dirs.staged source) expected = true →
      installed env c (dirs.target path) (dirs.staged source) expected = true := by
    intro path source expected hin
    unfold installed FileTree.present at hin ⊢
    rw [hself, hstaged, digestMatches_congr (htarget path)]
    exact hin
  cases o with
  | makeDir path => exact ⟨h.1, (hself path).trans h.2⟩
  | putFile path source expected => exact hinstalled path source expected h
  | putTree path source expected => exact hinstalled path source expected h
  | replaceTree operationId path source expected => exact hinstalled path source expected h
  | remove operationId path missingOk =>
    have hpresent : ∀ p, c.look p = g.look p → c.present p = g.present p := fun p hp => congrArg Option.isSome hp
    show c.present _ = false ∧ (c.present _ = true ∨ _)
    rw [hpresent _ (hself path), hpresent _ (hlook (dirs.trash operationId "removed") (Or.inr (List.prefix_append _ _)))]
    exact h

theorem Settled.applies (h : o.Settled env dirs f) : o.Applies env dirs f f := by
  cases o with
  | makeDir path => exact ⟨h.1, clear_of_dir h.2, Opened.self h.2⟩
  | putFile path source expected => exact Or.inl ⟨h, rfl⟩
  | putTree path source expected => exact Or.inl ⟨h, rfl⟩
  | remove operationId path missingOk => exact Or.inl ⟨h.1, h.2, rfl⟩
  | replaceTree operationId path source expected => exact Or.inl ⟨h, rfl⟩

theorem installed_of_installs {path source : List PyStr} {expected : Option PyStr}
    (h : Installs env f (dirs.staged source) (dirs.target path) g)
    (hs : f.look (dirs.staged source) ≠ none)
    (hd : digestMatches env f (dirs.staged source) expected = true) :
    installed env g (dirs.target path) (dirs.staged source) expected = true := by
  obtain ⟨hdest, hgone⟩ := h.moved (dirs.staged_apart source path)
  unfold installed
  rw [h.digestMatches, hd, FileTree.present_iff.mpr (hdest ▸ hs), FileTree.present_eq_false.mpr hgone]
  rfl

theorem Applies.settled (h : o.Applies env dirs f g) : o.Settled env dirs g := by
  cases o with
  | makeDir path =>
    obtain ⟨hr, -, hg⟩ := h
    refine ⟨hr, ?_⟩
    rw [hg, if_pos (List.prefix_refl _)]
  | putFile path source expected =>
    rcases h with ⟨h, rfl⟩ | ⟨-, hsrc, hin⟩
    · exact h
    · exact installed_of_installs hin (isFile_present hsrc.1) hsrc.2
  | putTree path source expected =>
    rcases h with ⟨h, rfl⟩ | ⟨-, -, hsrc, hin⟩
    · exact h
    · exact installed_of_installs hin (isDir_present hsrc.1) hsrc.2
  | remove operationId path missingOk =>
    rcases h with ⟨h, h', rfl⟩ | ⟨hdest, hin⟩
    · exact ⟨h, h'⟩
    · obtain ⟨htrash, hgone⟩ := hin.moved (dirs.target_apart path operationId "removed")
      refine ⟨FileTree.present_eq_false.mpr hgone, Or.inl (FileTree.present_iff.mpr ?_)⟩
      rw [htrash]
      exact FileTree.present_iff.mp hdest
  | replaceTree operationId path source expected =>
    rcases h with ⟨h, rfl⟩ | ⟨-, m, -, hsrc, hin⟩
    · exact h
    · exact installed_of_installs hin (isDir_present hsrc.1) hsrc.2

/-! ## Where an operation reaches -/

/-- **Where an operation reaches**: below its path if it moves what is
there, below its staged source, which it empties, into its trash, and, to
make directories, above its path and above its trash. -/
def Touches (dirs : ReplayDirs) (o : Operation) (f c : FileTree PyStr ν) : Prop :=
  ∀ x, c.look x = f.look x
    ∨ (o.moves = true ∧ dirs.target o.path <+: x)
    ∨ (∃ src, o.source = some src ∧ dirs.staged src <+: x ∧ c.look x = none)
    ∨ (∃ t, o.trash dirs = some t ∧ t <+: x)
    ∨ (x <+: dirs.target o.path ∧ f.look x = none ∧ c.look x = some .dir)
    ∨ (∃ t, o.trash dirs = some t ∧ x <+: t.dropLast ∧ f.look x = none ∧ c.look x = some .dir)

theorem touches_between (h : Between f (dirs.target o.path) c) : o.Touches dirs f c := by
  intro x
  rcases h x with h | h
  · exact Or.inl h
  · exact Or.inr (Or.inr (Or.inr (Or.inr (Or.inl h))))

theorem touches_between_dropLast (h : Between f (dirs.target o.path).dropLast c) : o.Touches dirs f c := by
  refine touches_between fun x => ?_
  rcases h x with h | ⟨hx, h⟩
  · exact Or.inl h
  · exact Or.inr ⟨hx.trans (List.dropLast_prefix _), h⟩

variable {t : List PyStr}

theorem touches_between_trash (ht : o.trash dirs = some t) (h : Between f t.dropLast c) : o.Touches dirs f c := by
  intro x
  rcases h x with h | h
  · exact Or.inl h
  · exact Or.inr (Or.inr (Or.inr (Or.inr (Or.inr ⟨t, ht, h⟩))))

theorem installs_cases {s d : List PyStr} (h : Installs env f s d g) (x : List PyStr) :
    g.look x = f.look x ∨ d <+: x ∨ (s <+: x ∧ g.look x = none)
      ∨ (x <+: d.dropLast ∧ f.look x = none ∧ g.look x = some .dir) := by
  have hx := h.result x
  split_ifs at hx with hd hs hp
  · exact Or.inr (Or.inl hd)
  · exact Or.inr (Or.inr (Or.inl ⟨hs, hx⟩))
  · cases hlook : f.look x with
    | none => exact Or.inr (Or.inr (Or.inr ⟨hp, rfl, hx⟩))
    | some n =>
      cases n with
      | dir => exact Or.inl hx
      | file content => exact absurd hlook (h.clear x hp content)
  · exact Or.inl hx

theorem touches_installs {source : List PyStr} (hmoves : o.moves = true) (hsource : o.source = some source)
    (h : Installs env f (dirs.staged source) (dirs.target o.path) g) : o.Touches dirs f g := by
  intro x
  rcases installs_cases h x with h | h | h | ⟨hx, h⟩
  · exact Or.inl h
  · exact Or.inr (Or.inl ⟨hmoves, h⟩)
  · exact Or.inr (Or.inr (Or.inl ⟨source, hsource, h⟩))
  · exact Or.inr (Or.inr (Or.inr (Or.inr (Or.inl ⟨hx.trans (List.dropLast_prefix _), h⟩))))

theorem touches_discards (hmoves : o.moves = true)
    (ht : o.trash dirs = some t) (h : Installs env f (dirs.target o.path) t g) :
    o.Touches dirs f g := by
  intro x
  rcases installs_cases h x with h | h | ⟨h, -⟩ | h
  · exact Or.inl h
  · exact Or.inr (Or.inr (Or.inr (Or.inl ⟨t, ht, h⟩)))
  · exact Or.inr (Or.inl ⟨hmoves, h⟩)
  · exact Or.inr (Or.inr (Or.inr (Or.inr (Or.inr ⟨t, ht, h⟩))))

/-! ## Operations side by side -/

/-- **A source among the payload**: not the transaction itself, nor its
manifest, nor in its trash. -/
def Payload (o : Operation) : Prop :=
  ∀ source, o.source = some source → source ≠ [] ∧ source ≠ ["manifest.json"]
    ∧ source.head? ≠ some "trash"

/-- **Neither of two operations, in this order, undoes the other**: no
directory is made at or below the target of a removal, nor below the target
of a put that comes before, nor below that of a `replace-tree`. -/
def Separate : Operation → Operation → Prop
  | remove _ target _, makeDir path | makeDir path, remove _ target _ => ¬target <+: path
  | putFile target _ _, makeDir path | putTree target _ _, makeDir path
  | replaceTree _ target _ _, makeDir path | makeDir path, replaceTree _ target _ _ =>
      target <+: path → path = target
  | _, _ => True

/-- **Compatible operations**: what the validation requires of two
operations, and that neither undoes the other. -/
structure Compatible (p o : Operation) : Prop where
  disjoint : p.moves = true → o.moves = true → ¬Overlap p.path o.path
  ids : ∀ i j, p.trashId = some i → o.trashId = some j → i ≠ j
  separate : Separate p o

theorem trash_eq (h : o.trash dirs = some t) : ∃ i name, o.trashId = some i ∧ t = dirs.trash i name := by
  cases o with
  | remove i path missingOk => exact ⟨i, "removed", rfl, (Option.some.inj h).symm⟩
  | replaceTree i path source expected => exact ⟨i, "old", rfl, (Option.some.inj h).symm⟩
  | makeDir path => cases h
  | putFile path source expected => cases h
  | putTree path source expected => cases h

variable {name : String}

variable {i : PyStr}

theorem Payload.not_prefix_trash {source : List PyStr} (h : o.Payload) (hs : o.source = some source) :
    ¬dirs.staged source <+: dirs.trash i name := by
  intro hp
  obtain ⟨hne, -, hhead⟩ := h source hs
  have hp : source <+: ["trash", i, PyStr.ofString name] :=
    (List.prefix_append_right_inj _).mp hp
  cases source with
  | nil => exact hne rfl
  | cons a source => exact hhead (congrArg some (List.cons_prefix_cons.mp hp).1)

theorem Payload.trash_not_prefix {source : List PyStr} (h : o.Payload) (hs : o.source = some source) :
    ¬dirs.trash i name <+: dirs.staged source := by
  intro hp
  obtain ⟨-, -, hhead⟩ := h source hs
  have hp : [PyStr.ofString "trash", i, PyStr.ofString name] <+: source :=
    (List.prefix_append_right_inj _).mp hp
  cases source with
  | nil => cases List.prefix_nil.mp hp
  | cons a source => exact hhead (congrArg some (List.cons_prefix_cons.mp hp).1.symm)

theorem trash_ids {i j : PyStr} {name name' : String} (h : dirs.trash i name <+: dirs.trash j name') : i = j := by
  have h : [PyStr.ofString "trash", i, PyStr.ofString name]
      <+: [PyStr.ofString "trash", j, PyStr.ofString name'] := (List.prefix_append_right_inj _).mp h
  exact (List.cons_prefix_cons.mp (List.cons_prefix_cons.mp h).2).1

theorem target_below_iff {p q : List PyStr} : dirs.target p <+: dirs.target q ↔ p <+: q :=
  List.prefix_append_right_inj _

theorem Touches.below_target (h : o.Touches dirs f c) {path x : List PyStr}
    (hx : dirs.target path <+: x) (hdis : o.moves = true → ¬dirs.target o.path <+: x) :
    c.look x = f.look x
      ∨ (x <+: dirs.target o.path ∧ f.look x = none ∧ c.look x = some .dir) := by
  rcases h x with h | ⟨hm, h⟩ | ⟨src, -, h, -⟩ | ⟨t, ht, h⟩ | h | ⟨t, ht, h, -⟩
  · exact Or.inl h
  · exact absurd h (hdis hm)
  · exact absurd hx (fun hx => dirs.not_both h hx)
  · obtain ⟨i, name, -, rfl⟩ := trash_eq ht
    exact absurd hx (fun hx => dirs.not_both h hx)
  · exact Or.inr h
  · obtain ⟨i, name, -, rfl⟩ := trash_eq ht
    exact absurd (h.trans (List.dropLast_prefix _)) (fun h => dirs.data_not_prefix hx h)

theorem Touches.dir_stays (h : o.Touches dirs f c) {path : List PyStr}
    (hf : f.look (dirs.target path) = some .dir) (hdis : o.moves = true → ¬o.path <+: path) :
    c.look (dirs.target path) = some .dir := by
  rcases h.below_target (List.prefix_refl _) (fun hm h => hdis hm (target_below_iff.mp h)) with h | h
  · rw [h, hf]
  · exact h.2.2

variable {x : List PyStr}

theorem not_below {p o : Operation} (h : ¬Overlap p.path o.path)
    (hx : dirs.target p.path <+: x) : ¬dirs.target o.path <+: x := by
  intro hx'
  refine h ?_
  rcases List.prefix_or_prefix_of_prefix hx hx' with h | h
  · exact Or.inl (target_below_iff.mp h)
  · exact Or.inr (target_below_iff.mp h)

theorem installed_stays {p o : Operation} {source : List PyStr} {expected : Option PyStr}
    (hp : installed env f (dirs.target p.path) (dirs.staged source) expected = true)
    (ht : o.Touches dirs f c) (hdis : o.moves = true → ¬Overlap p.path o.path)
    (hsource : p.source = some source) (hpay : p.Payload)
    (hmake : ∀ path, o = makeDir path → p.path <+: path → path = p.path) :
    installed env c (dirs.target p.path) (dirs.staged source) expected = true := by
  unfold installed at hp ⊢
  simp only [Bool.and_eq_true, Bool.not_eq_true'] at hp ⊢
  obtain ⟨⟨hdest, hdig⟩, hgone⟩ := hp
  -- nothing below the target changes
  have hbelow : ∀ x, dirs.target p.path <+: x → c.look x = f.look x := by
    intro x hx
    rcases ht.below_target hx (fun ho => not_below (hdis ho) hx) with h | ⟨hxo, hnone, -⟩
    · exact h
    · exfalso
      have hpo : p.path <+: o.path := target_below_iff.mp (hx.trans hxo)
      cases ho : o.moves with
      | true => exact hdis ho (Or.inl hpo)
      | false =>
        cases o with
        | makeDir path =>
          have heq : path = p.path := hmake path rfl hpo
          have hxeq : x = dirs.target p.path := by
            refine List.IsPrefix.eq_of_length ?_ ?_
            · exact heq ▸ hxo
            · exact Nat.le_antisymm (heq ▸ hxo.length_le) hx.length_le
          rw [hxeq] at hnone
          exact FileTree.present_iff.mp hdest hnone
        | _ => cases ho
  refine ⟨⟨?_, ?_⟩, ?_⟩
  · rw [FileTree.present_iff, hbelow _ (List.prefix_refl _)]
    exact FileTree.present_iff.mp hdest
  · rw [← hdig]
    exact digestMatches_congr fun x => hbelow _ (List.prefix_append _ x)
  · rw [FileTree.present_eq_false] at hgone ⊢
    rcases ht (dirs.staged source) with h | ⟨-, h⟩ | ⟨src, -, -, h⟩ | ⟨t, htr, h⟩ | ⟨h, -⟩
        | ⟨t, htr, h, -⟩
    · rw [h, hgone]
    · exact absurd (List.prefix_refl _) (fun h' => dirs.data_not_prefix h h')
    · exact h
    · obtain ⟨i, name, -, rfl⟩ := trash_eq htr
      exact absurd h (hpay.trash_not_prefix hsource)
    · exact absurd (List.prefix_refl _) (fun h' => dirs.transaction_not_prefix h' h)
    · obtain ⟨i, name, -, rfl⟩ := trash_eq htr
      exact absurd (h.trans (List.dropLast_prefix _)) (hpay.not_prefix_trash hsource)

theorem Touches.trash_same (ht : o.Touches dirs f c) (hpay : o.Payload) (hids : ∀ j, o.trashId = some j → i ≠ j)
    (hx : dirs.trash i name <+: x ∨ x <+: dirs.trash i name) :
    c.look x = f.look x
      ∨ (¬dirs.trash i name <+: x ∧ f.look x = none ∧ c.look x = some .dir) := by
  have hside : ∀ {y : List PyStr}, y <+: x → y <+: dirs.trash i name ∨ dirs.trash i name <+: y := by
    intro y hy
    rcases hx with hx | hx
    · exact List.prefix_or_prefix_of_prefix hy hx
    · exact Or.inl (hy.trans hx)
  rcases ht x with h | ⟨-, h⟩ | ⟨src, hsrc, h, -⟩ | ⟨t, htr, h⟩ | ⟨hle, h⟩ | ⟨t, htr, hle, h⟩
  · exact Or.inl h
  · rcases hside h with h | h
    · exact (dirs.data_not_prefix (List.prefix_refl _) h).elim
    · exact (dirs.transaction_not_prefix (List.prefix_refl _) h).elim
  · rcases hside h with h | h
    · exact absurd h (hpay.not_prefix_trash hsrc)
    · exact absurd h (hpay.trash_not_prefix hsrc)
  · obtain ⟨j, name', hj, rfl⟩ := trash_eq htr
    rcases hside h with h | h
    · exact absurd (trash_ids h).symm (hids j hj)
    · exact absurd (trash_ids h) (hids j hj)
  · exact Or.inr ⟨fun hbelow => dirs.transaction_not_prefix hbelow hle, h⟩
  · refine Or.inr ⟨fun hbelow => ?_, h⟩
    obtain ⟨j, name', -, rfl⟩ := trash_eq htr
    have hlen := (hbelow.trans hle).length_le
    simp [ReplayDirs.trash] at hlen

theorem Touches.trash_stays (ht : o.Touches dirs f c) (hpay : o.Payload) (hids : ∀ j, o.trashId = some j → i ≠ j)
    (hx : dirs.trash i name <+: x) : c.look x = f.look x := by
  rcases ht.trash_same hpay hids (Or.inl hx) with h | ⟨h, -⟩
  · exact h
  · exact absurd hx h

theorem Settled.stays {p o : Operation} (hp : p.Settled env dirs f) (ht : o.Touches dirs f c)
    (hc : Compatible p o) (hpay : p.Payload) (hpay' : o.Payload)
    (hdir : ∀ path, p = makeDir path → c.look (dirs.target path) = some .dir) :
    p.Settled env dirs c := by
  cases p with
  | makeDir path => exact ⟨hp.1, hdir path rfl⟩
  | putFile path source expected =>
    refine installed_stays (p := putFile path source expected) hp ht (hc.disjoint rfl) rfl hpay ?_
    rintro q rfl
    exact hc.separate
  | putTree path source expected =>
    refine installed_stays (p := putTree path source expected) hp ht (hc.disjoint rfl) rfl hpay ?_
    rintro q rfl
    exact hc.separate
  | replaceTree i path source expected =>
    refine installed_stays (p := replaceTree i path source expected) hp ht (hc.disjoint rfl) rfl hpay ?_
    rintro q rfl
    exact hc.separate
  | remove i path missingOk =>
    obtain ⟨hgone, htrash⟩ := hp
    refine ⟨?_, htrash.imp (fun h => ?_) id⟩
    · rw [FileTree.present_eq_false] at hgone ⊢
      rcases ht.below_target (List.prefix_refl _) (fun ho => not_below (hc.disjoint rfl ho) (List.prefix_refl _))
        with h | ⟨h, -⟩
      · exact h.trans hgone
      · exfalso
        have hpo : path <+: o.path := target_below_iff.mp h
        cases ho : o.moves with
        | true => exact hc.disjoint rfl ho (Or.inl hpo)
        | false =>
          cases o with
          | makeDir q => exact hc.separate hpo
          | _ => cases ho
    · rw [FileTree.present_iff] at h ⊢
      rwa [ht.trash_stays hpay' (fun j hj => hc.ids i j rfl hj) (List.prefix_refl _)]

theorem Touches.manifest (h : o.Touches dirs f c) (hpay : o.Payload)
    (hf : f.look dirs.manifest ≠ none) : c.look dirs.manifest = f.look dirs.manifest := by
  rcases h dirs.manifest with h | ⟨-, h⟩ | ⟨src, hsrc, h, -⟩ | ⟨t, ht, h⟩ | ⟨-, h, -⟩
      | ⟨t, -, -, h, -⟩
  · exact h
  · exact absurd (List.prefix_refl _) (fun h' => dirs.data_not_prefix h h')
  · obtain ⟨hne, hman, -⟩ := hpay src hsrc
    have h : src <+: ["manifest.json"] := (List.prefix_append_right_inj _).mp h
    rcases List.prefix_concat_iff.mp (show src <+: [] ++ [_] from h) with h | h
    · exact absurd h hman
    · exact absurd (List.prefix_nil.mp h) hne
  · obtain ⟨i, name, -, rfl⟩ := trash_eq ht
    have h : [PyStr.ofString "trash", i, PyStr.ofString name]
        <+: [PyStr.ofString "manifest.json"] := (List.prefix_append_right_inj _).mp h
    exact absurd h.length_le (by simp)
  · exact absurd h hf
  · exact absurd h hf

end Operation

/-! ## What the validation makes sure of -/

variable {raw : List (PyStr × Json)}

theorem decodeOperation_spec {o : Operation} (h : decodeOperation raw = .ok o) :
    ∃ i, validateLabel (Json.get raw "id") "transaction operation id" = .ok i
      ∧ relativePath (Json.get raw "path") "transaction operation path" = .ok o.path
      ∧ (o.moves = true ↔ Json.optEqStr (Json.get raw "op") "make-dir" = false)
      ∧ ∀ j, o.trashId = some j → j = i := by
  unfold decodeOperation at h
  obtain ⟨i, hi, h⟩ := bind_eq_ok.mp h
  obtain ⟨path, hpath, h⟩ := bind_eq_ok.mp h
  refine ⟨i, hi, ?_⟩
  dsimp only at h
  split_ifs at h with h₁ h₂ h₃ h₄ h₅
  · obtain rfl := Except.ok.inj h
    refine ⟨hpath, ?_, fun j hj => by cases hj⟩
    rw [h₁]
    exact ⟨fun h => (by cases h), fun h => (by cases h)⟩
  · obtain ⟨source, -, h⟩ := bind_eq_ok.mp h
    obtain rfl := Except.ok.inj h
    exact ⟨hpath, ⟨fun _ => eq_false_of_ne_true h₁, fun _ => rfl⟩, fun j hj => by cases hj⟩
  · obtain ⟨source, -, h⟩ := bind_eq_ok.mp h
    obtain rfl := Except.ok.inj h
    exact ⟨hpath, ⟨fun _ => eq_false_of_ne_true h₁, fun _ => rfl⟩, fun j hj => by cases hj⟩
  · obtain rfl := Except.ok.inj h
    exact ⟨hpath, ⟨fun _ => eq_false_of_ne_true h₁, fun _ => rfl⟩, fun j hj => (Option.some.inj hj).symm⟩
  · obtain ⟨source, -, h⟩ := bind_eq_ok.mp h
    obtain rfl := Except.ok.inj h
    exact ⟨hpath, ⟨fun _ => eq_false_of_ne_true h₁, fun _ => rfl⟩, fun j hj => (Option.some.inj hj).symm⟩
  · cases h

abbrev Decoded (raws : List (List (PyStr × Json))) (ops : List Operation) : Prop :=
  List.Forall₂ (fun raw o => decodeOperation raw = .ok o) raws ops

variable {ops : List Operation}

variable {seen : List PyStr}

theorem checkOperations_head {o : Operation} {i : PyStr}
    (hi : validateLabel (Json.get raw "id") "transaction operation id" = .ok i)
    (ho : decodeOperation raw = .ok o) (hseen : i ∉ seen)
    (hids : ∀ p ∈ ops, ∀ j, p.trashId = some j → j ∉ i :: seen) :
    (∀ p ∈ o :: ops, ∀ j, p.trashId = some j → j ∉ seen)
      ∧ ∀ p ∈ ops, ∀ j k, o.trashId = some j → p.trashId = some k → j ≠ k := by
  obtain ⟨i', hi', -, -, htrash⟩ := decodeOperation_spec ho
  obtain rfl := Except.ok.inj (hi.symm.trans hi')
  constructor
  · intro p hp j hj
    rcases List.mem_cons.mp hp with rfl | hp
    · rw [htrash j hj]
      exact hseen
    · exact fun hmem => hids p hp j hj (List.mem_cons_of_mem _ hmem)
  · intro p hp j k hj hk
    rw [htrash j hj]
    exact fun heq => hids p hp k hk (heq ▸ List.mem_cons_self)

variable {paths : List (List PyStr)}

variable {items : List Json}

theorem checkOperations_spec {raws : List (List (PyStr × Json))}
    (h : checkOperations seen items = .ok (raws, paths)) (hdec : Decoded raws ops) :
    (∀ o ∈ ops, ∀ i, o.trashId = some i → i ∉ seen)
      ∧ ops.Pairwise (fun p o => ∀ i j, p.trashId = some i → o.trashId = some j → i ≠ j)
      ∧ paths = (ops.filter Operation.moves).map Operation.path := by
  induction items generalizing seen raws paths ops with
  | nil =>
    obtain ⟨rfl, rfl⟩ := Prod.mk.inj (Except.ok.inj h)
    cases hdec
    exact ⟨fun o ho => (by cases ho), List.Pairwise.nil, rfl⟩
  | cons item items ih =>
    cases item with
    | obj raw =>
      rw [checkOperations] at h
      obtain ⟨i, hi, h⟩ := bind_eq_ok.mp h
      dsimp only at h
      split_ifs at h with hseen hmake
      · cases h
      · obtain ⟨⟨raws', paths'⟩, hrest, h⟩ := bind_eq_ok.mp h
        obtain ⟨rfl, rfl⟩ := Prod.mk.inj (Except.ok.inj h)
        cases hdec with
        | @cons _ o _ ops ho hops =>
          obtain ⟨hids, hpairs, hpaths⟩ := ih hrest hops
          obtain ⟨hfirst, hothers⟩ := checkOperations_head hi ho hseen hids
          refine ⟨hfirst, List.Pairwise.cons hothers hpairs, ?_⟩
          obtain ⟨-, -, -, hmoves, -⟩ := decodeOperation_spec ho
          have hstill : o.moves = false := by
            rw [← Bool.not_eq_true, hmoves, hmake]
            exact Bool.noConfusion
          rw [List.filter_cons_of_neg (by rw [hstill]; exact Bool.false_ne_true), hpaths]
      · obtain ⟨path, hpath, h⟩ := bind_eq_ok.mp h
        obtain ⟨⟨raws', paths'⟩, hrest, h⟩ := bind_eq_ok.mp h
        obtain ⟨rfl, rfl⟩ := Prod.mk.inj (Except.ok.inj h)
        cases hdec with
        | @cons _ o _ ops ho hops =>
          obtain ⟨hids, hpairs, hpaths⟩ := ih hrest hops
          obtain ⟨hfirst, hothers⟩ := checkOperations_head hi ho hseen hids
          refine ⟨hfirst, List.Pairwise.cons hothers hpairs, ?_⟩
          obtain ⟨-, -, hpath', hmoves, -⟩ := decodeOperation_spec ho
          rw [List.filter_cons_of_pos (hmoves.mpr (eq_false_of_ne_true hmake)), List.map_cons,
            ← hpaths, Except.ok.inj (hpath.symm.trans hpath')]
    | _ => cases h

theorem firstOverlap_none (h : firstOverlap paths = none) :
    paths.Pairwise (fun left right => ¬Overlap left right) := by
  induction paths with
  | nil => exact List.Pairwise.nil
  | cons left rest ih =>
    unfold firstOverlap at h
    cases hfind : rest.find? (fun right => Overlap left right) with
    | some right =>
      rw [hfind] at h
      cases h
    | none =>
      rw [hfind] at h
      refine List.Pairwise.cons (fun right hright => ?_) (ih h)
      simpa using List.find?_eq_none.mp hfind right hright

variable {raws tried : List (List (PyStr × Json))}

theorem checkOperations_take (h : checkOperations seen items = .ok (raws, paths)) (htried : tried <+: raws) :
    ∃ items' paths', checkOperations seen items' = .ok (tried, paths') ∧ paths'.Sublist paths := by
  induction items generalizing seen raws tried paths with
  | nil =>
    obtain ⟨rfl, rfl⟩ := Prod.mk.inj (Except.ok.inj h)
    obtain rfl := List.prefix_nil.mp htried
    exact ⟨[], [], rfl, List.Sublist.refl _⟩
  | cons item items ih =>
    cases tried with
    | nil => exact ⟨[], [], rfl, List.nil_sublist _⟩
    | cons first tried =>
      cases item with
      | obj raw =>
        rw [checkOperations] at h
        obtain ⟨i, hi, h⟩ := bind_eq_ok.mp h
        dsimp only at h
        split_ifs at h with hseen hmake
        · cases h
        · obtain ⟨⟨raws', paths'⟩, hrest, h⟩ := bind_eq_ok.mp h
          obtain ⟨rfl, rfl⟩ := Prod.mk.inj (Except.ok.inj h)
          obtain ⟨rfl, hrestTried⟩ := List.cons_prefix_cons.mp htried
          obtain ⟨items', paths'', hcheck, hsub⟩ := ih hrest hrestTried
          refine ⟨.obj first :: items', paths'', ?_, hsub⟩
          rw [checkOperations, hi]
          show (if i ∈ seen then _ else _) = _
          rw [if_neg hseen, if_pos hmake, hcheck]
          rfl
        · obtain ⟨path, hpath, h⟩ := bind_eq_ok.mp h
          obtain ⟨⟨raws', paths'⟩, hrest, h⟩ := bind_eq_ok.mp h
          obtain ⟨rfl, rfl⟩ := Prod.mk.inj (Except.ok.inj h)
          obtain ⟨rfl, hrestTried⟩ := List.cons_prefix_cons.mp htried
          obtain ⟨items', paths'', hcheck, hsub⟩ := ih hrest hrestTried
          refine ⟨.obj first :: items', path :: paths'', ?_, hsub.cons_cons _⟩
          rw [checkOperations, hi]
          show (if i ∈ seen then _ else _) = _
          rw [if_neg hseen, if_neg hmake, hpath, hcheck]
          rfl
      | _ => cases h

theorem publishedOperations_spec {expectedGeneration : Int}
    (h : publishedOperations env dirs expectedGeneration f = .ok raws) (htried : tried <+: raws)
    (hdec : Decoded tried ops) :
    ops.Pairwise (fun p o => (∀ i j, p.trashId = some i → o.trashId = some j → i ≠ j)
      ∧ (p.moves = true → o.moves = true → ¬Overlap p.path o.path)) := by
  unfold publishedOperations at h
  cases hread : readJson env f dirs.manifest with
  | error e =>
    rw [hread] at h
    cases h
  | ok manifest =>
    rw [hread] at h
    simp only [checkManifest] at h
    split_ifs at h with hformat hgen
    · cases h
    · split at h
      · rename_i operations hops
        cases hcheck : checkOperations [] operations with
        | error e =>
          rw [hcheck] at h
          cases h
        | ok r =>
          obtain ⟨raws', paths⟩ := r
          rw [hcheck] at h
          dsimp only at h
          cases hover : firstOverlap paths with
          | some lr =>
            rw [hover] at h
            cases h
          | none =>
            rw [hover] at h
            obtain rfl := Except.ok.inj h
            obtain ⟨items', paths', hcheck', hsub⟩ := checkOperations_take hcheck htried
            obtain ⟨-, hids, hpaths⟩ := checkOperations_spec hcheck' hdec
            refine hids.and ?_
            have hpair := (firstOverlap_none hover).sublist hsub
            rw [hpaths, List.pairwise_map, List.pairwise_filter] at hpair
            exact hpair
      · cases h
    · cases h
