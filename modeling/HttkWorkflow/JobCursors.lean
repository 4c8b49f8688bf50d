import HttkWorkflow.JobWalk
import HttkWorkflow.TextPieces

/-!
# Cursors of markers

The cursor of a marker is the text `kind:placement/job_key`, and a page goes
on where the text leads that `list_jobs` gets. `list_jobs` takes the kind off
and gives the rest to `iter_markers`, which takes a kind off once more, if the
rest begins with one. Otherwise the position that is read is that of the
marker: a name in a placement and a job key hold no slash
(`parseMarkerCursor_localText`), so that the last slash separates them.
-/

/-! ## Texts that are taken apart and put together -/

namespace PyStr

@[simp] theorem codes_append (a b : PyStr) : (a ++ b).codes = a.codes ++ b.codes := rfl

variable {c : Char}

variable {head tail : PyStr}

theorem partition_append (h : c.toNat ∉ head.codes) :
    partition ⟨head.codes ++ c.toNat :: tail.codes⟩ c = some (head, tail) := by
  have hhead : ∀ x ∈ head.codes, decide (x ≠ c.toNat) = true := by
    intro x hx
    refine decide_eq_true fun heq => h (heq ▸ hx)
  have hdrop : (head.codes ++ c.toNat :: tail.codes).dropWhile (· ≠ c.toNat) = c.toNat :: tail.codes := by
    rw [List.dropWhile_append_of_pos hhead]
    simp
  have htake : (head.codes ++ c.toNat :: tail.codes).takeWhile (· ≠ c.toNat) = head.codes := by
    rw [List.takeWhile_append_of_pos hhead]
    simp
  unfold partition
  rw [hdrop]
  exact congrArg some (Prod.ext (congrArg mk htake) rfl)

theorem rpartition_append (h : c.toNat ∉ tail.codes) :
    rpartition ⟨head.codes ++ c.toNat :: tail.codes⟩ c = some (head, tail) := by
  have hreverse : (head.codes ++ c.toNat :: tail.codes).reverse
      = tail.codes.reverse ++ c.toNat :: head.codes.reverse := by
    rw [List.reverse_append, List.reverse_cons, List.append_assoc]
    rfl
  have hpartition : partition ⟨tail.codes.reverse ++ c.toNat :: head.codes.reverse⟩ c
      = some (⟨tail.codes.reverse⟩, ⟨head.codes.reverse⟩) :=
    partition_append fun hmem => h (List.mem_reverse.mp hmem)
  unfold rpartition
  rw [hreverse, hpartition]
  simp only [List.reverse_reverse]

variable {parts : List PyStr}

theorem not_mem_join {c x : ℕ} (hx : x ≠ c) (hplain : ∀ part ∈ parts, x ∉ part.codes) :
    x ∉ (join ⟨[c]⟩ parts).codes := by
  intro hmem
  rcases mem_intercalate hmem with h | ⟨part, hpart, h⟩
  · exact hx h
  · obtain ⟨p, hp, rfl⟩ := List.mem_map.mp hpart
    exact hplain p hp h

theorem not_mem_of_mem_split {s part : PyStr} {x : ℕ} (hpart : part ∈ s.split c)
    (hx : x ∉ s.codes) : x ∉ part.codes := by
  intro hmem
  obtain ⟨codes, hcodes, rfl⟩ := List.mem_map.mp hpart
  exact hx (mem_of_mem_splitOn hcodes hmem)

theorem split_join (hplain : ∀ part ∈ parts, c.toNat ∉ part.codes)
    (hne : parts ≠ []) : (join ⟨[c.toNat]⟩ parts).split c = parts := by
  unfold join split
  rw [List.splitOn_intercalate c.toNat (fun l hl => ?_) (by simpa using hne), List.map_map]
  · exact List.map_id' parts
  · obtain ⟨part, hpart, rfl⟩ := List.mem_map.mp hl
    exact hplain part hpart

theorem head_join (hplain : ∀ part ∈ parts, c.toNat ∉ part.codes) (hne : parts ≠ [])
    (hempty : (⟨[]⟩ : PyStr) ∉ parts) :
    (join ⟨[c.toNat]⟩ parts).codes ≠ [] ∧ (join ⟨[c.toNat]⟩ parts).codes.head? ≠ some c.toNat := by
  have hsplit := split_join hplain hne
  generalize join ⟨[c.toNat]⟩ parts = text at hsplit
  constructor
  · intro hnil
    refine hempty (hsplit ▸ ?_)
    unfold PyStr.split
    rw [hnil]
    exact List.mem_cons_self
  · intro hhead
    refine hempty (hsplit ▸ ?_)
    obtain ⟨rest, hrest⟩ := List.head?_eq_some_iff.mp hhead
    unfold PyStr.split
    rw [hrest, ← List.nil_append (c.toNat :: rest), List.splitOn_append_cons_self]
    exact List.mem_cons_self

theorem filter_parts (hempty : (⟨[]⟩ : PyStr) ∉ parts) (hdot : ofString "." ∉ parts) :
    parts.filter (fun t => t.codes ≠ [] ∧ t ≠ ofString ".") = parts := by
  refine List.filter_eq_self.mpr fun part hpart => decide_eq_true ⟨fun hnil => ?_, ?_⟩
  · exact hempty (show (⟨[]⟩ : PyStr) ∈ parts from hnil ▸ hpart)
  · rintro rfl
    exact hdot hpart

end PyStr

/-! ## Names without slashes -/

theorem Forest.EachName.leaves {ν : Type} {p : ν → Prop} {f : Forest ν} (h : f.EachName p) :
    ∀ name ∈ f.leaves, p name := by
  induction f with
  | nil => exact fun name hname => absurd hname List.not_mem_nil
  | leaf name marked rest ih =>
    rw [Forest.leaves]
    split_ifs
    · exact List.forall_mem_cons.mpr ⟨h.1, ih h.2⟩
    · exact ih h.2
  | branch name entries rest _ ih => exact ih h.2.2

theorem Forest.EachName.subforest {ν : Type} [DecidableEq ν] {p : ν → Prop} {f : Forest ν}
    (h : f.EachName p) (position : List ν) : (f.subforest position).EachName p
      ∧ (f.subforest position ≠ .nil → ∀ name ∈ position, p name) := by
  induction position generalizing f with
  | nil => exact ⟨h, fun _ => List.forall_mem_nil _⟩
  | cons name position ih =>
    have hchild : (f.child name).EachName p ∧ (f.child name ≠ .nil → p name) := by
      clear ih
      induction f with
      | nil => exact ⟨trivial, fun hne => absurd rfl hne⟩
      | leaf n marked rest ihf => exact ihf h.2
      | branch n entries rest _ ihf =>
        by_cases hname : n = name
        · subst hname
          rw [Forest.child_branch_self]
          exact ⟨h.2.1, fun _ => h.1⟩
        · rw [Forest.child_branch_of_ne hname]
          exact ihf h.2.2
    obtain ⟨hbelow, hnames⟩ := ih hchild.1
    refine ⟨hbelow, fun hne => List.forall_mem_cons.mpr ⟨hchild.2 fun hnil => hne ?_, hnames hne⟩⟩
    rw [Forest.subforest, hnil, Forest.subforest_nil]

theorem markerGroups_plain {name jobKey record : PyStr} {priority generation : List Char}
    (h : markerGroups name = some (jobKey, priority, generation, record))
    (hname : '/'.toNat ∉ name.codes) : '/'.toNat ∉ jobKey.codes := by
  unfold markerGroups at h
  split at h
  · rename_i record' generation' priority' part parts hsplit
    obtain ⟨g, -, h⟩ := Option.bind_eq_some_iff.mp h
    obtain ⟨p, -, h⟩ := Option.bind_eq_some_iff.mp h
    split_ifs at h
    have hkey : PyStr.join "." (part :: parts).reverse = jobKey :=
      congrArg Prod.fst (Option.some.inj h)
    rw [← hkey]
    refine PyStr.not_mem_join (by decide) fun t ht => PyStr.not_mem_of_mem_split (c := '.') ?_ hname
    refine List.mem_reverse.mp ?_
    rw [hsplit]
    simp only [List.mem_reverse] at ht
    exact List.mem_cons_of_mem _ (List.mem_cons_of_mem _ (List.mem_cons_of_mem _ ht))
  · exact absurd h (Option.some_ne_none _).symm

theorem markerFromPath_plain {kind : StateKind} {rel : List PyStr} {name : PyStr} {m : StateMarker}
    (h : markerFromPath kind rel name = some m) (hname : '/'.toNat ∉ name.codes) :
    '/'.toNat ∉ m.jobKey.text.codes := by
  unfold markerFromPath at h
  split_ifs at h with hrel
  split at h
  · rename_i placement jobKey priority generation record _ hgroups
    have hkey : '/'.toNat ∉ jobKey.codes := markerGroups_plain hgroups hname
    split at h
    · split_ifs at h
      obtain rfl := Option.some.inj h
      exact hkey
    · exact absurd h (Option.some_ne_none m).symm
  · exact absurd h (Option.some_ne_none m).symm

namespace ListedWorkspace

variable (w : ListedWorkspace)

/-- **The markers that are kept**: those the walk of their directory gives. -/
def Keeps (m : StateMarker) : Prop :=
  m ∈ ownMarkers m.kind m.placement ((w.tree m.kind).subforest m.placement)

/-- **What a listing is to give**: the kept markers of the selection. -/
structure Lists (sel : JobSelection) (m : StateMarker) : Prop where
  kind : m.kind ∈ selectedKinds sel.kinds
  below : sel.placementPrefix <+: m.placement
  kept : w.Keeps m
  wanted : sel.wants m = true

variable {w} {m m' : StateMarker}

theorem Keeps.placement_plain (h : w.Keeps m) : ∀ name ∈ m.placement, '/'.toNat ∉ name.codes := by
  refine ((w.plain m.kind).subforest m.placement).2 fun hnil => ?_
  unfold Keeps at h
  rw [hnil] at h
  exact absurd h List.not_mem_nil

theorem Keeps.key_plain (h : w.Keeps m) : '/'.toNat ∉ m.jobKey.text.codes := by
  obtain ⟨name, hname, hm⟩ := List.mem_filterMap.mp (mem_keepFirst h).1
  exact markerFromPath_plain hm (((w.plain m.kind).subforest m.placement).1.leaves name hname)

theorem Keeps.eq_of_position (h : w.Keeps m) (h' : w.Keeps m') (hkind : m.kind = m'.kind)
    (hposition : m.position = m'.position) : m = m' := by
  have hpair := toLex_inj.mp hposition
  have hplacement : m.placement = m'.placement := congrArg Prod.fst hpair
  unfold Keeps at h h'
  rw [← hkind, ← hplacement] at h'
  exact ownMarkers_unique h h' (congrArg Prod.snd hpair)

end ListedWorkspace

/-! ## Cursors that are read back -/

/-- What a cursor says after the kind: `placement/job_key`. -/
def localText (m : StateMarker) : PyStr :=
  PyStr.join "/" m.placement ++ "/" ++ m.jobKey.text

/-- **A cursor that leads on**: read by `iter_markers`, it is accepted in the kind of its marker, and
has the same markers of that kind after it. -/
def ListedWorkspace.Leads (w : ListedWorkspace) (m : StateMarker) : Prop :=
  ∃ first cursor, iterCursor [m.kind] (localText m) = .ok (first, cursor)
    ∧ ∀ m', w.Keeps m' → m'.kind = m.kind → (toLex cursor < m'.position ↔ m.position < m'.position)

section Cursors

variable {w : ListedWorkspace} {m : StateMarker}

theorem kindNamed_word (kind : StateKind) : kindNamed kind.word = some kind := by
  cases kind <;> decide

theorem colon_not_mem_word (kind : StateKind) : ':'.toNat ∉ kind.word.codes := by
  cases kind <;> decide

/-- **A placement is read back** from its text. -/
theorem normalizePlacement_join {parts : List PyStr} (hplain : ∀ part ∈ parts, '/'.toNat ∉ part.codes)
    (hne : parts ≠ []) (hsafe : parts.mapM placementPart = .ok parts) :
    normalizePlacement (PyStr.join "/" parts) = .ok parts := by
  have hparts := (mapM_placementPart hsafe).2
  have hempty : (⟨[]⟩ : PyStr) ∉ parts := fun hmem => hparts _ hmem (by decide)
  generalize htext : PyStr.join (PyStr.ofString "/") parts = text
  have hsplit : text.split '/' = parts := htext ▸ PyStr.split_join hplain hne
  have hhead : text.codes.head? ≠ some '/'.toNat := htext ▸ (PyStr.head_join hplain hne hempty).2
  have hfilter : (text.split '/').filter (fun t => t.codes ≠ [] ∧ t ≠ PyStr.ofString ".") = parts := by
    rw [hsplit]
    exact PyStr.filter_parts hempty fun hdot => hparts _ hdot (by decide)
  unfold normalizePlacement
  simp only [hfilter]
  rw [if_neg (not_or.mpr ⟨hhead, hne⟩)]
  exact hsafe

theorem parseMarkerCursor_localText (h : w.Keeps m) :
    parseMarkerCursor (localText m) = .ok (m.placement, m.jobKey.text) := by
  obtain ⟨-, -, hne, hplacement⟩ := mem_ownMarkers h
  have hempty : (⟨[]⟩ : PyStr) ∉ m.placement := fun hmem => (mapM_placementPart hplacement).2 _ hmem (by decide)
  have hjoined := normalizePlacement_join h.placement_plain hne hplacement
  generalize htext : PyStr.join (PyStr.ofString "/") m.placement = text at hjoined
  have hnonempty : text.codes ≠ [] := htext ▸ (PyStr.head_join h.placement_plain hne hempty).1
  have hkey : m.jobKey.text.codes ≠ [] := by
    intro hnil
    have hparsed := m.jobKey.parsed
    rw [show m.jobKey.text = ⟨[]⟩ from congrArg PyStr.mk hnil] at hparsed
    cases hparsed
  have hlocal : localText m = ⟨text.codes ++ '/'.toNat :: m.jobKey.text.codes⟩ := by
    unfold localText
    rw [htext]
    exact congrArg PyStr.mk (List.append_assoc text.codes ['/'.toNat] m.jobKey.text.codes)
  unfold parseMarkerCursor
  rw [hlocal, PyStr.rpartition_append h.key_plain]
  simp only
  rw [if_neg (not_or.mpr ⟨hnonempty, hkey⟩), hjoined]
  show (parseJobKey m.jobKey.text >>= fun _ => Except.ok (m.placement, m.jobKey.text)) = _
  rw [m.jobKey.parsed]
  rfl

theorem listCursor_cursorText (h : w.Keeps m) {selected : List StateKind} (hkind : m.kind ∈ selected) :
    listCursor selected (cursorText m) = .ok (m.kind, localText m) := by
  have hcursor : cursorText m = ⟨m.kind.word.codes ++ ':'.toNat :: (localText m).codes⟩ := by
    refine congrArg PyStr.mk ?_
    simp [localText, PyStr.ofString, List.append_assoc]
  have hnonempty : (localText m).codes ≠ [] := by
    simp [localText, PyStr.ofString]
  unfold listCursor
  rw [hcursor, PyStr.partition_append (colon_not_mem_word m.kind)]
  simp only [Option.bind_some, kindNamed_word, Option.map_some]
  rw [if_neg hnonempty, if_pos hkind, parseMarkerCursor_localText h]
  rfl

end Cursors
