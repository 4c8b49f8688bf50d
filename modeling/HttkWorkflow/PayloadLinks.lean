import HttkWorkflow.TransferBundle
import Mathlib.Data.List.Induction

/-!
# The links of a payload

The scan of a payload looks at one link at a time. It takes the target apart and
counts: a name goes one directory down, `..` one up, and a target that goes up from
the payload directory is refused. That is how a target is read as a text. On a disk a
name in it can be a link of its own, and then `..` leaves the directory this link leads
to, which may be a directory further up than the one it lies in. Two links that are
each contained in the payload can thus lead out of it together (`upAndOut_escapes`).

`follow` takes a path as a disk does, link after link. What lies beside the payload
directory is not part of the tree, so that a path which goes up from there is out of it.
A tree that was scanned has only links that stay inside exactly if none of them
`StepsOut`: no target goes up behind a part that passes another link and leads to the
payload directory itself. Of the links that the scan does not look at, those below the
entries it leaves out and below directories that cannot be listed, more is needed: no
absolute target, and no step up from the payload directory at all (`links_contained`).
-/

variable {ν : Type}

def Entry.targetCodes : Entry ν → List ℕ
  | .symlink target => target.codes
  | _ => []

/-- **A payload directory on a disk**: each entry has a place below it, what is above an entry is a
directory, and the names and targets are made of characters that can be in them. Some directories
can be entered but not listed. -/
structure DiskTree (ν : Type) extends PayloadTree ν where
  /-- The directories that cannot be listed. -/
  unlisted : List (List PyStr)
  placed : ∀ e ∈ entries, e.fst ≠ []
  parents : ∀ p name e, (p ++ [name], e) ∈ entries → p = [] ∨ (p, Entry.dir) ∈ entries
  named : ∀ e ∈ entries, ∀ name ∈ e.fst, name.codes ≠ [] ∧ name ≠ "."
    ∧ name ≠ ".." ∧ '/'.toNat ∉ name.codes ∧ ∀ c ∈ name.codes, 0 < c ∧ c < 0x110000
  targets : ∀ e ∈ entries, ∀ c ∈ e.snd.targetCodes, 0 < c ∧ c < 0x110000

/-- **Where a path leads**: to a place in the payload, or out of it. -/
inductive LinkEnd where
  | inside (path : List PyStr)
  | outside
deriving DecidableEq

/-- Whether a text is an absolute path. -/
def isAbsolute (target : PyStr) : Bool := decide (target.codes.head? = some '/'.toNat)

namespace PayloadTree

variable (t : PayloadTree ν)

/-- **Following a path** from a directory of the payload, with as many components, those of links
included, as there are rounds. A name that is a file or nothing is passed like a directory, as
`os.path.realpath` does. -/
def follow : ℕ → List PyStr → List PyStr → Option LinkEnd
  | 0, _, _ => none
  | _ + 1, here, [] => some (.inside here)
  | rounds + 1, here, part :: rest =>
    if part.codes = [] ∨ part = "." then follow rounds here rest
    else if part = ".." then
      if here = [] then some .outside else follow rounds here.dropLast rest
    else
      match t.find (here ++ [part]) with
      | some (.symlink target) =>
        if isAbsolute target then some .outside else follow rounds here (target.split '/' ++ rest)
      | _ => follow rounds (here ++ [part]) rest

def LeadsTo (here parts place : List PyStr) : Prop := ∃ rounds, t.follow rounds here parts = some (.inside place)

/-- **Every link stays inside** the payload: none leads out of it. -/
def Contained : Prop :=
  ∀ p target, (p, Entry.symlink target) ∈ t.entries → ∀ rounds, t.follow rounds [] p ≠ some .outside

/-- **A path passes a link** before its end, when its components are counted as the scan does. -/
def passesLink : List PyStr → List PyStr → Bool
  | _, [] => false
  | here, part :: rest =>
    if part.codes = [] ∨ part = "." then passesLink here rest
    else if part = ".." then passesLink here.dropLast rest
    else
      match t.find (here ++ [part]) with
      | some (.symlink _) => true
      | _ => passesLink (here ++ [part]) rest

end PayloadTree

namespace DiskTree

variable (t : DiskTree ν)

/-- **A place below a directory that cannot be listed**: `rglob` passes over it in silence. -/
def hidden (p : List PyStr) : Bool := t.unlisted.any fun d => d.isPrefixOf p && d != p

/-- **What `rglob` yields** of the payload. -/
def listed : PayloadTree ν where
  entries := t.entries.filter fun e => !t.hidden e.fst
  nodup := t.nodup.sublist (List.filter_sublist.map Prod.fst)

/-- A place the scan does not look at: it leaves the entry out, or does not come to it. -/
def unseen (p : List PyStr) : Bool := excludedFromBundle p || t.hidden p

/-- **A link of which the scan sees too little**: its target goes up from the payload directory, behind
a part that passes another link – or behind any part, or from the root of the disk, if the scan does
not look at the link. -/
def StepsOut (p : List PyStr) (target : PyStr) : Prop :=
  t.unseen p = true ∧ isAbsolute target = true
  ∨ ∃ before after, target.split '/' = before ++ PyStr.ofString ".." :: after
    ∧ (t.unseen p = true ∨ t.passesLink p.dropLast before = true)
    ∧ t.LeadsTo p.dropLast before []

theorem unseen_eq_false {p : List PyStr} : t.unseen p = false ↔ excludedFromBundle p = false ∧ t.hidden p = false :=
  Bool.or_eq_false_iff

theorem mem_listed {e : List PyStr × Entry ν} : e ∈ t.listed.entries ↔ e ∈ t.entries ∧ t.hidden e.fst = false := by
  unfold listed
  rw [List.mem_filter, Bool.not_eq_true']

end DiskTree

/-- **A payload that was scanned**: its digest was taken. -/
structure ScannedTree (env : TransferEnv ν) extends DiskTree ν where
  digest : String
  scanned : payloadDigest env toDiskTree.listed = .ok digest

/-! ## Following a path -/

namespace PayloadTree

variable {t : PayloadTree ν}

variable {here parts : List PyStr} {rounds more : ℕ}

theorem follow_mono (hle : rounds ≤ more) {r : LinkEnd}
    (h : t.follow rounds here parts = some r) : t.follow more here parts = some r := by
  induction rounds generalizing more here parts with
  | zero => cases h
  | succ rounds ih =>
    obtain ⟨more, rfl⟩ : ∃ k, more = k + 1 := ⟨more - 1, by omega⟩
    have hle : rounds ≤ more := by omega
    cases parts with
    | nil => exact h
    | cons part rest =>
      rw [follow] at h ⊢
      split_ifs at h ⊢ with hdot hup htop
      · exact ih hle h
      · exact h
      · exact ih hle h
      · split at h
        · split_ifs at h ⊢ with habsolute
          · exact h
          · exact ih hle h
        · exact ih hle h

theorem follow_append {here place parts rest : List PyStr} {r : LinkEnd}
    (h : t.follow rounds here parts = some (.inside place)) (hrest : t.follow more place rest = some r) :
    t.follow (rounds + more) here (parts ++ rest) = some r := by
  induction rounds generalizing here parts with
  | zero => cases h
  | succ rounds ih =>
    have hrounds : rounds + 1 + more = rounds + more + 1 := by omega
    cases parts with
    | nil =>
      rw [follow] at h
      obtain rfl := LinkEnd.inside.inj (Option.some.inj h)
      exact follow_mono (by omega) hrest
    | cons part parts =>
      rw [List.cons_append, hrounds, follow]
      rw [follow] at h
      split_ifs at h ⊢ with hdot hup htop
      · exact ih h
      · cases h
      · exact ih h
      · split at h
        · split_ifs at h ⊢ with habsolute
          · cases h
          · rw [← List.append_assoc]
            exact ih h
        · exact ih h

theorem LeadsTo.unique {here parts place place' : List PyStr} (h : t.LeadsTo here parts place)
    (h' : t.LeadsTo here parts place') : place = place' := by
  obtain ⟨rounds, h⟩ := h
  obtain ⟨rounds', h'⟩ := h'
  have := follow_mono (le_max_left rounds rounds') h
  rw [follow_mono (le_max_right rounds rounds') h'] at this
  exact (LinkEnd.inside.inj (Option.some.inj this)).symm

theorem leadsTo_nil (here : List PyStr) : t.LeadsTo here [] here := ⟨1, rfl⟩

theorem LeadsTo.step {here here' parts rest place : List PyStr} (h : t.LeadsTo here' rest place)
    (hstep : ∀ rounds, t.follow (rounds + 1) here parts = t.follow rounds here' rest) :
    t.LeadsTo here parts place := by
  obtain ⟨rounds, h⟩ := h
  exact ⟨rounds + 1, (hstep rounds).trans h⟩

theorem outside_cases {rounds : ℕ} (h : t.follow rounds here parts = some .outside) :
    (∃ before after, parts = before ++ PyStr.ofString ".." :: after ∧ t.LeadsTo here before [])
    ∨ ∃ p target, (p, Entry.symlink target) ∈ t.entries ∧ (isAbsolute target = true
      ∨ ∃ before after, target.split '/' = before ++ PyStr.ofString ".." :: after
        ∧ t.LeadsTo p.dropLast before []) := by
  induction rounds generalizing here parts with
  | zero => cases h
  | succ rounds ih =>
    cases parts with
    | nil => cases h
    | cons part rest =>
      -- a step up in the rest of the path is one in the path
      have hlater : ∀ here', (∀ n l, t.follow (n + 1) here (part :: l) = t.follow n here' l) →
          (∃ before after, rest = before ++ PyStr.ofString ".." :: after ∧ t.LeadsTo here' before []) →
          ∃ before after, part :: rest = before ++ PyStr.ofString ".." :: after ∧ t.LeadsTo here before [] := by
        rintro here' hstep ⟨before, after, rfl, hleads⟩
        exact ⟨part :: before, after, rfl, hleads.step fun n => hstep n before⟩
      rw [follow] at h
      split_ifs at h with hdot hup htop
      · refine (ih h).imp_left (hlater here fun n l => ?_)
        rw [follow, if_pos hdot]
      · subst htop
        refine Or.inl ⟨[], rest, ?_, leadsTo_nil []⟩
        rw [hup, List.nil_append]
      · refine (ih h).imp_left (hlater here.dropLast fun n l => ?_)
        rw [follow, if_neg hdot, if_pos hup, if_neg htop]
      · split at h
        · rename_i target hfind
          have hlink : (here ++ [part], Entry.symlink target) ∈ t.entries := find_eq_some_iff.mp hfind
          split_ifs at h with habsolute
          · exact Or.inr ⟨_, target, hlink, Or.inl habsolute⟩
          · rcases ih h with ⟨before, after, hsplit, hleads⟩ | hother
            · rcases List.append_eq_append_iff.mp hsplit with ⟨middle, hbefore, hrest⟩ | ⟨middle, htarget, hrest⟩
              · -- the step up is behind the link
                refine Or.inl ⟨part :: middle, after, by rw [hrest, List.cons_append], hleads.step fun n => ?_⟩
                rw [follow, if_neg hdot, if_neg hup, hfind, hbefore]
                simp only [if_neg habsolute]
              · cases middle with
                | nil =>
                  rw [List.nil_append] at hrest
                  rw [List.append_nil] at htarget
                  refine Or.inl ⟨[part], after, by rw [← hrest]; rfl, hleads.step fun n => ?_⟩
                  rw [follow, if_neg hdot, if_neg hup, hfind]
                  simp only [if_neg habsolute, List.append_nil, htarget]
                | cons up middle =>
                  -- the step up is in the target of the link
                  obtain ⟨rfl, -⟩ := List.cons.inj hrest
                  refine Or.inr ⟨_, target, hlink, Or.inr ⟨before, middle, htarget, ?_⟩⟩
                  rw [List.dropLast_concat]
                  exact hleads
            · exact Or.inr hother
        · rename_i hfind
          refine (ih h).imp_left (hlater (here ++ [part]) fun n l => ?_)
          rw [follow, if_neg hdot, if_neg hup]
          split
          · rename_i target hfind'
            exact absurd hfind' (hfind target)
          · rfl

/-! ## The count of the scan -/

theorem linkParts_append (here before after : List PyStr) :
    linkParts here (before ++ after) = (linkParts here before).bind fun q => linkParts q after := by
  induction before generalizing here with
  | nil => rfl
  | cons part before ih =>
    rw [List.cons_append, linkParts, linkParts]
    split_ifs
    · exact ih here
    · exact ih (here ++ [part])
    · rfl
    · exact ih here.dropLast

theorem leadsTo_of_linkParts {here parts place : List PyStr} (hcount : linkParts here parts = some place)
    (hpass : t.passesLink here parts = false) : t.LeadsTo here parts place := by
  induction parts generalizing here with
  | nil =>
    obtain rfl := Option.some.inj hcount
    exact leadsTo_nil here
  | cons part rest ih =>
    rw [linkParts] at hcount
    rw [passesLink] at hpass
    by_cases hdot : part.codes = [] ∨ part = PyStr.ofString "."
    · rw [if_pos hdot] at hcount hpass
      refine (ih hcount hpass).step fun n => ?_
      rw [follow, if_pos hdot]
    · by_cases hup : part = PyStr.ofString ".."
      · rw [if_neg hdot, if_neg (not_not.mpr hup)] at hcount
        rw [if_neg hdot, if_pos hup] at hpass
        split_ifs at hcount with htop
        refine (ih hcount hpass).step fun n => ?_
        rw [follow, if_neg hdot, if_pos hup, if_neg htop]
      · rw [if_neg hdot, if_pos hup] at hcount
        rw [if_neg hdot, if_neg hup] at hpass
        have hfind : ∀ target, t.find (here ++ [part]) ≠ some (.symlink target) := by
          intro target hfind
          rw [hfind] at hpass
          cases hpass
        have hrest : t.passesLink (here ++ [part]) rest = false := by
          split at hpass
          · cases hpass
          · exact hpass
        refine (ih hcount hrest).step fun n => ?_
        rw [follow, if_neg hdot, if_neg hup]
        split
        · rename_i target hfind'
          exact absurd hfind' (hfind target)
        · rfl

end PayloadTree

/-! ## The links of a scanned tree -/

theorem exists_of_forall₂ {α β : Type} {R : α → β → Prop} {items : List α} {results : List β}
    (h : List.Forall₂ R items results) {item : α} (hitem : item ∈ items) : ∃ result ∈ results, R item result := by
  induction h with
  | nil => cases hitem
  | @cons a b _ _ hab _ ih =>
    rcases List.mem_cons.mp hitem with rfl | hitem
    · exact ⟨b, List.mem_cons_self, hab⟩
    · obtain ⟨result, hresult, hrel⟩ := ih hitem
      exact ⟨result, List.mem_cons_of_mem _ hresult, hrel⟩

def scannedEntries (t : PayloadTree ν) : List (List PyStr × Entry ν) :=
  (t.entries.filter fun e => !excludedFromBundle e.fst).insertionSort
    fun a b => (asPosix a.fst).codes ≤ (asPosix b.fst).codes

theorem mem_scannedEntries {t : PayloadTree ν} {e : List PyStr × Entry ν} :
    e ∈ scannedEntries t ↔ e ∈ t.entries ∧ excludedFromBundle e.fst = false := by
  unfold scannedEntries
  rw [List.mem_insertionSort, List.mem_filter, Bool.not_eq_true']

namespace ScannedTree

variable {env : TransferEnv ν} (t : ScannedTree env)

variable {p : List PyStr} {target : PyStr}

theorem contained_target (hlink : (p, Entry.symlink target) ∈ t.entries)
    (hscan : t.unseen p = false) : containedSymlinkTarget p target = .ok target := by
  have hdigest := t.scanned
  obtain ⟨hkept, hcome⟩ := t.unseen_eq_false.mp hscan
  unfold payloadDigest at hdigest
  cases hlines : (scannedEntries t.listed).mapM (digestLine env) with
  | error e =>
    rw [scannedEntries] at hlines
    rw [hlines] at hdigest
    cases hdigest
  | ok lines =>
    have hline := exists_of_forall₂ (forall₂_of_mapM_ok hlines)
      (mem_scannedEntries.mpr ⟨t.mem_listed.mpr ⟨hlink, hcome⟩, hkept⟩)
    obtain ⟨line, -, hline⟩ := hline
    have hline : (containedSymlinkTarget p target).map (DigestLine.link (asPosix p)) = .ok line := hline
    cases hcheck : containedSymlinkTarget p target with
    | error e =>
      rw [hcheck] at hline
      cases hline
    | ok target' =>
      unfold containedSymlinkTarget at hcheck
      split_ifs at hcheck
      · cases hcheck
      · split at hcheck
        · cases hcheck
        · exact hcheck.symm

theorem scanned_link (hlink : (p, Entry.symlink target) ∈ t.entries) (hscan : t.unseen p = false) :
    isAbsolute target = false ∧ linkParts p.dropLast (target.split '/') ≠ none := by
  have hcheck := t.contained_target hlink hscan
  unfold containedSymlinkTarget at hcheck
  split_ifs at hcheck with habsolute
  · cases hcheck
  · refine ⟨decide_eq_false habsolute, fun hnone => ?_⟩
    rw [hnone] at hcheck
    cases hcheck

theorem follow_entry (p rest : List PyStr) {name : PyStr} {e : Entry ν} (hentry : (p ++ [name], e) ∈ t.entries) :
    ∀ more r, t.follow more p (name :: rest) = some r → t.follow (p.length + more) [] (p ++ name :: rest) = some r := by
  induction p using List.reverseRecOn generalizing name rest e with
  | nil => exact fun more r h => by simpa using h
  | append_singleton p last ih =>
    intro more r h
    have hdir : (p ++ [last], Entry.dir) ∈ t.entries := by
      refine (t.parents _ _ _ hentry).resolve_left ?_
      simp
    obtain ⟨hne, hdot, hup, -⟩ := t.named _ hdir last (by simp)
    have hlast := ih (name :: rest) hdir (more + 1) r (by
      have hplain : ¬(last.codes = [] ∨ last = ".") := not_or.mpr ⟨hne, hdot⟩
      rw [PayloadTree.follow, if_neg hplain, if_neg hup, PayloadTree.find_eq_some_iff.mpr hdir]
      exact h)
    rw [List.append_assoc, List.singleton_append, List.length_append, List.length_singleton,
      Nat.add_assoc, Nat.add_comm 1 more]
    exact hlast

/-- **The links of a scanned payload stay inside** it if and only if none of them steps out. -/
theorem links_contained : t.Contained ↔
    ∀ p target, (p, Entry.symlink target) ∈ t.entries → ¬t.StepsOut p target := by
  constructor
  · intro hcontained p target hlink hout
    obtain ⟨dir, name, rfl⟩ : ∃ dir name, p = dir ++ [name] := by
      rcases List.eq_nil_or_concat p with hp | ⟨dir, name, hp⟩
      · exact absurd hp (t.placed _ hlink)
      · exact ⟨dir, name, by rw [hp, List.concat_eq_append]⟩
    obtain ⟨hne, hdot, hup, -⟩ := t.named _ hlink name (by simp)
    have hplain : ¬(name.codes = [] ∨ name = PyStr.ofString ".") := not_or.mpr ⟨hne, hdot⟩
    have hfollow : ∀ rounds, t.follow (rounds + 1) dir [name]
        = if isAbsolute target then some .outside else t.follow rounds dir (target.split '/') := by
      intro rounds
      rw [PayloadTree.follow, if_neg hplain, if_neg hup, PayloadTree.find_eq_some_iff.mpr hlink]
      simp only [List.append_nil]
    have habsurd : ∀ rounds, t.follow (rounds + 1) dir [name] ≠ some .outside := fun rounds h =>
      hcontained _ _ hlink _ (t.follow_entry dir [] hlink (rounds + 1) _ h)
    by_cases habsolute : isAbsolute target = true
    · exact habsurd 0 (by rw [hfollow, if_pos habsolute])
    · rcases hout with ⟨-, habsolute'⟩ | ⟨before, after, hsplit, -, rounds, hleads⟩
      · exact habsolute habsolute'
      · rw [List.dropLast_concat] at hleads
        have hup : t.follow 1 [] (PyStr.ofString ".." :: after) = some .outside := by
          rw [PayloadTree.follow, if_neg (by decide), if_pos rfl, if_pos rfl]
        refine habsurd (rounds + 1) ?_
        rw [hfollow, if_neg habsolute, hsplit]
        exact PayloadTree.follow_append hleads hup
  · intro hnone p target hlink rounds hout
    rcases PayloadTree.outside_cases hout with ⟨before, after, hsplit, -⟩ | ⟨q, target', hlink', hwhy⟩
    · -- the names of a path do not go up
      obtain ⟨-, -, hup, -⟩ := t.named _ hlink (PyStr.ofString "..") (by
        show PyStr.ofString ".." ∈ p
        rw [hsplit]
        simp)
      exact hup rfl
    · by_cases hscan : t.unseen q = true
      · refine hnone q target' hlink' ?_
        rcases hwhy with habsolute | ⟨before, after, hsplit, hleads⟩
        · exact Or.inl ⟨hscan, habsolute⟩
        · exact Or.inr ⟨before, after, hsplit, Or.inl hscan, hleads⟩
      · obtain ⟨hrelative, hcount⟩ := t.scanned_link hlink' (Bool.not_eq_true _ ▸ hscan)
        rcases hwhy with habsolute | ⟨before, after, hsplit, hleads⟩
        · rw [hrelative] at habsolute
          cases habsolute
        · by_cases hpass : t.passesLink q.dropLast before = true
          · exact hnone q target' hlink' (Or.inr ⟨before, after, hsplit, Or.inr hpass, hleads⟩)
          · -- without a link the count is right, and it did not come to the payload directory
            rw [hsplit, PayloadTree.linkParts_append] at hcount
            cases hbefore : linkParts q.dropLast before with
            | none =>
              rw [hbefore] at hcount
              exact hcount rfl
            | some place =>
              have hplace := PayloadTree.leadsTo_of_linkParts hbefore (Bool.not_eq_true _ ▸ hpass)
              obtain rfl := hplace.unique hleads
              rw [hbefore] at hcount
              refine hcount ?_
              show linkParts [] (PyStr.ofString ".." :: after) = none
              rw [linkParts, if_neg (by decide), if_neg (by decide), if_pos rfl]

end ScannedTree

/-! ## Two links that lead out together -/

theorem removed_none (t t' : PayloadTree String) (h : t' ∈ ([] : List (PayloadTree String))) :
    ∀ e ∈ t'.entries, e ∈ t.entries :=
  absurd h List.not_mem_nil

def scanEnv : TransferEnv String where
  loads _ := raiseFormat [.lit "cannot read JSON object"]
  isUuid _ := true
  sha256 text := text
  digestOf _ := "digest"
  treeDigest _ := .ok "digest"
  identitySeed := .ok ()
  copied _ := []
  removed _ := []
  copied_paths _ _ h := absurd h List.not_mem_nil
  copied_manifest _ _ h := absurd h List.not_mem_nil
  removed_entries := removed_none

theorem dir_of_concat {p q : List PyStr} {name : PyStr} (h : p ++ [name] = q) : p = q.dropLast := by
  rw [← h, List.dropLast_concat]

/-- **`deep/up -> ..` and `out -> deep/up/..`**: each stays inside by the count. -/
def upAndOut : ScannedTree scanEnv where
  entries := [(["deep"], .dir),
    (["deep", "up"], .symlink ".."),
    (["out"], .symlink "deep/up/..")]
  nodup := by decide
  unlisted := []
  placed := by decide
  parents p name e h := by
    simp only [List.mem_cons, List.not_mem_nil, or_false, Prod.mk.injEq] at h
    rcases h with ⟨h, -⟩ | ⟨h, -⟩ | ⟨h, -⟩
    · exact Or.inl (dir_of_concat h)
    · refine Or.inr ?_
      rw [dir_of_concat h]
      exact List.mem_cons_self
    · exact Or.inl (dir_of_concat h)
  named := by decide
  targets := by decide
  digest := "digest"
  scanned := toOption_eq_some.mp (by decide +kernel)

/-- The second one leads out of the payload through the first. -/
theorem upAndOut_escapes : ¬∀ t : ScannedTree scanEnv, t.Contained := by
  intro h
  refine h upAndOut ["out"] "deep/up/.." ?_ 10 ?_
  · exact List.mem_cons_of_mem _ (List.mem_cons_of_mem _ List.mem_cons_self)
  · decide +kernel
