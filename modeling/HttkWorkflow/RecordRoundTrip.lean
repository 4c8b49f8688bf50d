import HttkWorkflow.JobRecords

/-!
# Reading a record back

A record is stored as the JSON object that `as_mapping` makes of it, and read
back by `from_mapping`, which checks each member it reads. What a record has
is made by `record_of`, and nearly all of it passes: the texts are not empty,
the identifiers are canonical, the paths are those of a marker, a failure was
validated or is one the record made itself (`recordOf_wellFormed`).

A child is not checked. `children_of` takes whatever label a frame gives it,
and `from_mapping` a label of the protocol only. So a record is read back
exactly if the frames its children are from name none under another label
(`fromMapping_asMapping_iff`).
-/

/-! ## Paths -/

namespace PosixPath

theorem head_join_parts (p : PosixPath) : (PyStr.join ⟨['/'.toNat]⟩ p.parts).codes.head? ≠ some '/'.toNat := by
  cases hparts : p.parts with
  | nil => exact fun h => by cases h
  | cons part parts =>
    rw [← hparts]
    refine (PyStr.head_join (fun q hq => (p.plain q hq).2.2) (by rw [hparts]; exact List.cons_ne_nil _ _) ?_).2
    exact fun hempty => (p.plain _ hempty).1 rfl

theorem rootOf_codes (root : PathRoot) {codes : List ℕ} (h : codes.head? ≠ some '/'.toNat) :
    rootOf (root.codes ++ codes) = root := by
  have hnone : codes.takeWhile (· = '/'.toNat) = [] := by
    cases codes with
    | nil => rfl
    | cons c codes =>
      rw [List.takeWhile_cons_of_neg]
      exact fun hc => h (congrArg some (of_decide_eq_true hc))
  have hwhole : (root.codes ++ codes).takeWhile (· = '/'.toNat) = root.codes := by
    rw [List.takeWhile_append_of_pos (by cases root <;> decide), hnone, List.append_nil]
  unfold rootOf
  rw [hwhole]
  cases root <;> rfl

theorem partsOf_codes (root : PathRoot) (codes : List ℕ) : partsOf ⟨root.codes ++ codes⟩ = partsOf ⟨codes⟩ := by
  have hslash : ∀ codes : List ℕ, partsOf ⟨'/'.toNat :: codes⟩ = partsOf ⟨codes⟩ := by
    intro codes
    unfold partsOf PyStr.split
    rw [← List.nil_append ('/'.toNat :: codes), List.splitOn_append_cons_self]
    rfl
  cases root with
  | relative => rfl
  | slash => exact hslash codes
  | doubleSlash => exact (hslash _).trans (hslash codes)

theorem partsOf_join (p : PosixPath) : partsOf (PyStr.join ⟨['/'.toNat]⟩ p.parts) = p.parts := by
  cases hparts : p.parts with
  | nil => rfl
  | cons part parts =>
    rw [← hparts]
    unfold partsOf
    rw [PyStr.split_join (fun q hq => (p.plain q hq).2.2) (by rw [hparts]; exact List.cons_ne_nil _ _)]
    exact PyStr.filter_parts (fun hempty => (p.plain _ hempty).1 rfl) fun hdot => (p.plain _ hdot).2.1 rfl

theorem ext {p q : PosixPath} (hroot : p.root = q.root) (hparts : p.parts = q.parts) : p = q := by
  cases p
  cases q
  cases hroot
  cases hparts
  rfl

/-- **A path is read back** from its text. -/
theorem ofText_asPosix (p : PosixPath) : ofText p.asPosix = p := by
  unfold asPosix
  split_ifs with h
  · exact ext h.1.symm h.2.symm
  · exact ext (rootOf_codes p.root p.head_join_parts) ((partsOf_codes p.root _).trans p.partsOf_join)

theorem asPosix_ne_nil (p : PosixPath) : p.asPosix.codes ≠ [] := by
  unfold asPosix
  split_ifs with h
  · decide
  · intro hnil
    obtain ⟨hroot, hjoin⟩ := List.append_eq_nil_iff.mp hnil
    have hrelative : p.root = .relative := by
      cases hr : p.root with
      | relative => rfl
      | slash => rw [hr] at hroot; cases hroot
      | doubleSlash => rw [hr] at hroot; cases hroot
    refine (PyStr.head_join (fun q hq => (p.plain q hq).2.2) (fun hparts => h ⟨hrelative, hparts⟩) ?_).1 hjoin
    exact fun hempty => (p.plain _ hempty).1 rfl

end PosixPath

variable {text : PyStr}

theorem optionalString_str (h : text.codes ≠ []) : optionalString (some (.str text)) = some text :=
  if_neg h

theorem requireString_str (h : text.codes ≠ []) (name : String) :
    requireString (some (.str text)) name = .ok text := if_neg h

theorem optionalPosix_orNull (p : Option PosixPath) : optionalPosix (some (orNull (p.map PosixPath.asPosix))) = p := by
  cases p with
  | none => rfl
  | some p =>
    show (optionalString (some (.str p.asPosix))).map PosixPath.ofText = some p
    rw [optionalString_str p.asPosix_ne_nil]
    exact congrArg some p.ofText_asPosix

/-! ## Failures -/

/-- **A failure that `validate_failure` lets pass.** -/
structure Failure.Valid (f : Failure) : Prop where
  code : f.code.codes ≠ []
  message : f.message.codes ≠ []
  encodable : f.code.encodable = true
  token : ¬(f.code.utf8Bytes > 128 ∨ f.code.codes.contains 0 = true ∨ f.code.codes.any isSpace = true)

variable {value : Option Json} {name : String}

theorem requireString_eq_ok (h : requireString value name = .ok text) : value = some
    (.str text) ∧ text.codes ≠ [] := by
  unfold requireString at h
  split at h
  · split_ifs at h with hne
    · cases h
    · exact ⟨congrArg (fun t => some (Json.str t)) (Except.ok.inj h), Except.ok.inj h ▸ hne⟩
  · cases h

variable {f : Failure}

theorem valid_of_validateFailure (h : validateFailure value name = .ok f) : f.Valid := by
  unfold validateFailure at h
  obtain ⟨members, -, h⟩ := bind_eq_ok.mp h
  simp only at h
  split_ifs at h
  · cases h
  · obtain ⟨code, hcode, h⟩ := bind_eq_ok.mp h
    obtain ⟨length, hlength, h⟩ := bind_eq_ok.mp h
    split_ifs at h with htoken
    · cases h
    · obtain ⟨message, hmessage, h⟩ := bind_eq_ok.mp h
      unfold utf8Length at hlength
      split_ifs at hlength with hencodable
      obtain rfl := Except.ok.inj hlength
      have hvalid : ∀ details retryable, (Failure.mk code message details retryable).Valid := fun _ _ =>
        ⟨(requireString_eq_ok hcode).2, (requireString_eq_ok hmessage).2, hencodable, htoken⟩
      split at h
      all_goals
        obtain ⟨details, -, h⟩ := bind_eq_ok.mp h
        split at h
        · exact Except.ok.inj h ▸ hvalid _ _
        · exact Except.ok.inj h ▸ hvalid _ _
        · cases h

theorem validateFailure_members (h : f.Valid) {members : List (PyStr × Json)}
    (hnames : ∀ e ∈ members, e.fst ∈ failureMembers) (hcode : Json.get members "code" = some (.str f.code))
    (hmessage : Json.get members "message" = some (.str f.message))
    (hdetails : Json.get members "details" = f.details.map Json.obj)
    (hretryable : Json.get members "retryable" = if f.retryable then some (.bool true) else none) :
    validateFailure (some (.obj members)) name = .ok f := by
  have hsupported : unsupportedMembers members = [] := by
    have hfilter : (members.map Prod.fst).filter (· ∉ failureMembers) = [] := by
      refine List.filter_eq_nil_iff.mpr fun key hkey => ?_
      obtain ⟨e, he, rfl⟩ := List.mem_map.mp hkey
      exact fun hnot => of_decide_eq_true hnot (hnames e he)
    unfold unsupportedMembers
    rw [hfilter, List.mergeSort_nil]
    rfl
  obtain ⟨code, message, details, retryable⟩ := f
  unfold validateFailure
  refine bind_eq_ok.mpr ⟨members, rfl, ?_⟩
  simp only [hsupported]
  refine bind_eq_ok.mpr ⟨code, by rw [hcode]; exact requireString_str h.code _, ?_⟩
  refine bind_eq_ok.mpr ⟨code.utf8Bytes, if_pos h.encodable, ?_⟩
  rw [if_neg h.token]
  refine bind_eq_ok.mpr ⟨message, by rw [hmessage]; exact requireString_str h.message _, ?_⟩
  rw [hdetails, hretryable]
  cases details <;> cases retryable <;> rfl

theorem validateFailure_asMapping (h : f.Valid) (name : String) :
    validateFailure (some f.asMapping) name = .ok f := by
  obtain ⟨code, message, details, retryable⟩ := f
  refine validateFailure_members h ?_ rfl rfl ?_ ?_
  · cases details <;> cases retryable <;> simp [failureMembers]
  · cases details <;> cases retryable <;> rfl
  · cases details <;> cases retryable <;> rfl

/-! ## Records -/

/-- **A record whose members are as `from_mapping` wants them**, but for the labels of its children. -/
structure JobRecord.WellFormed (uuid : PyStr → Option PyStr) (r : JobRecord) : Prop where
  workspaceId : r.workspaceId.codes ≠ []
  jobId : canonicalUuid uuid (some (.str r.jobId)) "job_id" = .ok r.jobId
  jobKey : r.jobKey.codes ≠ []
  state : r.state.codes ≠ []
  failure : ∀ f, r.failure = some f → f.Valid
  placement : normalizePlacement (PyStr.join "/" r.placement) = .ok r.placement
  placed : (PyStr.join "/" r.placement).codes ≠ []
  runnerSteps : ∀ steps, r.runnerSteps = some steps → ∀ step ∈ steps, step.codes ≠ []
  declarations : ∀ e ∈ r.declarations, isDeclarationName e.fst = true

theorem optionalMapping_objOrNull (members : Option (List (PyStr × Json))) :
    optionalMapping (some (objOrNull members)) = members := by
  cases members <;> rfl

theorem mappingOrNone_objOrNull (members : Option (List (PyStr × Json))) (name : Message) :
    mappingOrNone (some (objOrNull members)) name = .ok members := by
  cases members <;> rfl

theorem optionalInt_intOrNull (n : Option Int) : optionalInt (some (intOrNull n)) = .ok n := by
  cases n <;> rfl

theorem mapM_map_of_reads {α β : Type} {write : α → β} {read : β → Except Exc α} {items : List α}
    (h : ∀ a ∈ items, read (write a) = .ok a) : (items.map write).mapM read = .ok items := by
  induction items with
  | nil => rfl
  | cons a items ih =>
    rw [List.map_cons, List.mapM_cons]
    refine bind_eq_ok.mpr ⟨a, h a List.mem_cons_self, ?_⟩
    exact bind_eq_ok.mpr ⟨items, ih fun b hb => h b (List.mem_cons_of_mem _ hb), rfl⟩

theorem recordSteps_stringArray {steps : Option (List PyStr)}
    (h : ∀ texts, steps = some texts → ∀ text ∈ texts, text.codes ≠ []) :
    recordSteps (some ((steps.map stringArray).getD .null)) = .ok steps := by
  cases steps with
  | none => rfl
  | some texts =>
    show ((texts.map Json.str).mapM fun item => requireString (some item) "runner_steps item").map some = _
    rw [mapM_map_of_reads fun text htext => requireString_str (h texts rfl text htext) _]
    rfl

theorem validateDeclarationName_of_name {name : PyStr} (h : isDeclarationName name = true) :
    validateDeclarationName (some (.str name)) "declaration name" = .ok name := by
  have hne : name.codes ≠ [] := by
    intro hnil
    unfold isDeclarationName at h
    rw [hnil] at h
    cases h
  exact bind_eq_ok.mpr ⟨name, requireString_str hne _, if_pos h⟩

theorem recordDeclarations_asMapping {declarations : List (PyStr × DeclarationSides)}
    (h : ∀ e ∈ declarations, isDeclarationName e.fst = true) :
    recordDeclarations (some (.obj (declarations.map fun e =>
      (e.fst, .obj [("declared", objOrNull e.snd.declared), ("observed", objOrNull e.snd.observed)]))))
      = .ok declarations := by
  refine bind_eq_ok.mpr ⟨_, rfl, mapM_map_of_reads fun e he => ?_⟩
  refine bind_eq_ok.mpr ⟨e.fst, validateDeclarationName_of_name (h e he), ?_⟩
  refine bind_eq_ok.mpr ⟨e.snd.declared, mappingOrNone_objOrNull _ _, ?_⟩
  exact bind_eq_ok.mpr ⟨e.snd.observed, mappingOrNone_objOrNull _ _, rfl⟩

theorem recordFailure_asMapping {failed : Option Failure} (h : ∀ f, failed = some f → f.Valid) :
    recordFailure (some ((failed.map Failure.asMapping).getD .null)) = .ok failed := by
  cases failed with
  | none => rfl
  | some f => exact congrArg (Except.map some) (validateFailure_asMapping (h f rfl) "failure")

theorem bind_of_ok {β γ : Type} {x : Except Exc β} {b : β} {f : β → Except Exc γ} (h : x = .ok b) :
    (x >>= f) = f b := by
  rw [h]
  rfl

theorem fromMapping_asMapping {uuid : PyStr → Option PyStr} {r : JobRecord} (h : r.WellFormed uuid) :
    JobRecord.fromMapping uuid r.asMapping
      = (recordChildren (some (.obj (r.children.map fun e => (e.fst, .obj e.snd))))).map fun children =>
          { r with children } := by
  have hformat : ¬(Json.optEqStr (Json.get r.asMapping "format") collectFormat = false
      ∨ Json.optEqInt (Json.get r.asMapping "format_version") collectFormatVersion = false) := by
    have hname : Json.optEqStr (Json.get r.asMapping "format") collectFormat = true := Json.optEqStr_iff.mpr rfl
    have hversion : Json.optEqInt (Json.get r.asMapping "format_version") collectFormatVersion = true := rfl
    rw [hname, hversion]
    decide
  have hroot : PosixPath.ofText r.workspaceRoot.asPosix = r.workspaceRoot := r.workspaceRoot.ofText_asPosix
  have hpayload : PosixPath.ofText r.payloadPath.asPosix = r.payloadPath := r.payloadPath.ofText_asPosix
  unfold JobRecord.fromMapping
  rw [if_neg hformat]
  refine (bind_of_ok (requireString_str r.workspaceRoot.asPosix_ne_nil _)).trans ?_
  refine (bind_of_ok (requireString_str h.workspaceId _)).trans ?_
  refine (bind_of_ok h.jobId).trans ?_
  refine (bind_of_ok (requireString_str h.jobKey _)).trans ?_
  refine (bind_of_ok (b := r.job) rfl).trans ?_
  refine (bind_of_ok (requireString_str h.state _)).trans ?_
  refine (bind_of_ok (recordFailure_asMapping h.failure)).trans ?_
  refine (bind_of_ok (requireString_str h.placed _)).trans ?_
  refine (bind_of_ok h.placement).trans ?_
  refine (bind_of_ok (requireString_str r.payloadPath.asPosix_ne_nil _)).trans ?_
  refine (bind_of_ok (optionalInt_intOrNull _)).trans ?_
  refine (bind_of_ok (b := some r.provenance) rfl).trans ?_
  refine (bind_of_ok (recordSteps_stringArray h.runnerSteps)).trans ?_
  show (recordChildren (some (.obj (r.children.map fun e => (e.fst, .obj e.snd)))) >>= _) = _
  cases recordChildren (some (.obj (r.children.map fun e => (e.fst, .obj e.snd)))) with
  | error e => rfl
  | ok children =>
    refine (bind_of_ok rfl).trans ((bind_of_ok (recordDeclarations_asMapping h.declarations)).trans ?_)
    have hworkdir : optionalPosix (Json.get r.asMapping "workdir_path") = r.workdirPath := optionalPosix_orNull _
    have hdata : optionalPosix (Json.get r.asMapping "data_path") = r.dataPath := optionalPosix_orNull _
    have hprovided : optionalMapping (Json.get r.asMapping "runner_provenance") = r.runnerProvenance :=
      optionalMapping_objOrNull _
    have hdescription : optionalMapping (Json.get r.asMapping "runner_description") = r.runnerDescription :=
      optionalMapping_objOrNull _
    rw [hroot, hpayload, hworkdir, hdata, hprovided, hdescription]
    rfl

/-! ## Children -/

theorem validateLabel_of_isLabel {label : PyStr} (h : isLabel label = true) :
    validateLabel (some (.str label)) "child label" = .ok label := by
  have hne : label.codes ≠ [] := by
    intro hnil
    unfold isLabel at h
    rw [hnil] at h
    cases h
  exact bind_eq_ok.mpr ⟨label, requireString_str hne _, if_pos h⟩

theorem recordChildren_iff {children : List (PyStr × List (PyStr × Json))} :
    recordChildren (some (.obj (children.map fun e => (e.fst, .obj e.snd)))) = .ok children
      ↔ ∀ e ∈ children, isLabel e.fst = true := by
  constructor
  · intro h e he
    obtain ⟨mapping, hmapping, h⟩ := bind_eq_ok.mp h
    obtain rfl := Except.ok.inj hmapping
    obtain ⟨c, hc⟩ := mapM_returns.mp ⟨_, h⟩ (e.fst, .obj e.snd) (List.mem_map_of_mem he)
    obtain ⟨label, hlabel, -⟩ := bind_eq_ok.mp hc
    unfold validateLabel at hlabel
    obtain ⟨text, htext, hlabel⟩ := bind_eq_ok.mp hlabel
    obtain rfl : e.fst = text := Json.str.inj (Option.some.inj (requireString_eq_ok htext).1)
    split_ifs at hlabel with hvalid
    · exact hvalid
    · cases hlabel
  · intro h
    refine bind_eq_ok.mpr ⟨_, rfl, mapM_map_of_reads fun e he => ?_⟩
    exact bind_eq_ok.mpr ⟨e.fst, validateLabel_of_isLabel (h e he), rfl⟩

theorem isSome_get_noteChild (children : Dict PyStr ChildEntry) (child : NamedChild) (label : PyStr) :
    ((noteChild children child).get label).isSome = true
      ↔ (children.get label).isSome = true ∨ label = child.label := by
  have hset : ∀ entry : ChildEntry, ((children.set child.label entry).get label).isSome = true
      ↔ (children.get label).isSome = true ∨ label = child.label := by
    intro entry
    rw [Dict.get_set]
    split_ifs with hlabel
    · exact iff_of_true rfl (Or.inr hlabel)
    · exact ⟨Or.inl, fun h => h.resolve_right hlabel⟩
  unfold noteChild
  cases hexisting : children.get child.label with
  | none => exact hset _
  | some existing =>
    simp only
    split_ifs
    · refine ⟨Or.inl, fun h => h.elim id fun hlabel => ?_⟩
      rw [hlabel, hexisting]
      rfl
    · exact hset _
    · exact hset _

theorem mem_labeledChildren {frames : List (List (PyStr × Json))} {label : PyStr} :
    label ∈ (labeledChildren frames).map Prod.fst ↔ ∃ child ∈ namedChildren frames, child.label = label := by
  have hkeys : ∀ d : Dict PyStr ChildEntry, label ∈ d.map Prod.fst ↔ (d.get label).isSome = true := by
    intro d
    refine ⟨fun h => ?_, fun h => ?_⟩
    · obtain ⟨entry, hentry⟩ := Dict.get_of_mem h
      exact hentry ▸ rfl
    · obtain ⟨entry, hentry⟩ := Option.isSome_iff_exists.mp h
      exact List.mem_map.mpr ⟨(label, entry), Dict.mem_of_get hentry, rfl⟩
  have hfold : ∀ (named : List NamedChild) (children : Dict PyStr ChildEntry),
      ((named.foldl noteChild children).get label).isSome = true
        ↔ (children.get label).isSome = true ∨ ∃ child ∈ named, child.label = label := by
    intro named
    induction named with
    | nil => intro children; simp
    | cons child named ih =>
      intro children
      rw [List.foldl_cons, ih, isSome_get_noteChild, or_assoc, List.exists_mem_cons_iff, eq_comm (a := label)]
  rw [hkeys, labeledChildren, hfold]
  simp

/-! ## What `record_of` makes -/

theorem isDeclarationName_of_ok
    (h : validateDeclarationName value name = .ok text) : isDeclarationName text = true := by
  unfold validateDeclarationName at h
  obtain ⟨t, -, h⟩ := bind_eq_ok.mp h
  split_ifs at h with hname
  · exact Except.ok.inj h ▸ hname
  · cases h

def NamedDeclarations (declarations : Dict PyStr DeclarationSides) : Prop :=
  ∀ e ∈ declarations, isDeclarationName e.fst = true

theorem NamedDeclarations.set {declarations : Dict PyStr DeclarationSides} (h : NamedDeclarations declarations)
    {name : PyStr} (hname : isDeclarationName name = true) (sides : DeclarationSides) :
    NamedDeclarations (declarations.set name sides) := by
  refine List.forall_mem_cons.mpr ⟨hname, fun e he => h e (List.mem_filter.mp he).1⟩

theorem declarationsOf_named {job : StoredJob} {observed : Except Exc (List (PyStr × Except Exc (List (PyStr × Json))))}
    {found : Dict PyStr DeclarationSides × Bool} (h : declarationsOf job observed = .ok found) :
    NamedDeclarations found.fst := by
  have hdeclared : NamedDeclarations ((job.declarations.mergeSort fun a b => decide (a.fst ≤ b.fst)).map fun e =>
      (e.fst, DeclarationSides.mk (some e.snd) none)) := by
    intro e he
    obtain ⟨d, hd, rfl⟩ := List.mem_map.mp he
    exact job.declarations_named d (List.mem_mergeSort.mp hd)
  unfold declarationsOf at h
  split at h
  · refine foldlM_invariant (P := fun found => NamedDeclarations found.fst) ?_ hdeclared h
    intro s file _ s' hs hstep
    unfold noteObserved at hstep
    split at hstep
    · exact Except.ok.inj hstep ▸ hs
    · rename_i hname
      have hvalid := isDeclarationName_of_ok hname
      simp only at hstep
      split at hstep
      · exact Except.ok.inj hstep ▸ hs.set hvalid _
      · split_ifs at hstep
        exact Except.ok.inj hstep ▸ hs.set hvalid _
  · split_ifs at h
    exact Except.ok.inj h ▸ hdeclared

theorem failureOf_valid {env : CollectEnv} {state : List (PyStr × Json)} {found : Option Failure × Bool}
    (h : failureOf env state = .ok found) : ∀ f, found.fst = some f → f.Valid := by
  unfold failureOf at h
  split at h
  · split at h
    · rename_i hvalid
      rw [← Except.ok.inj h]
      exact fun f hf => Option.some.inj hf ▸ valid_of_validateFailure hvalid
    · split_ifs at h
      rw [← Except.ok.inj h]
      intro f hf
      obtain rfl := Option.some.inj hf
      have hcode : (PyStr.ofString "protocol_error").codes ≠ [] := by decide
      have htoken : ¬((PyStr.ofString "protocol_error").utf8Bytes > 128
          ∨ (PyStr.ofString "protocol_error").codes.contains 0 = true
          ∨ (PyStr.ofString "protocol_error").codes.any isSpace = true) := by decide
      have hmessage : (PyStr.ofString "the recorded failure object is unusable: ").codes ≠ [] := by decide
      exact ⟨hcode, List.append_ne_nil_of_left_ne_nil hmessage _, PyStr.encodable_ofString _, htoken⟩
  · rw [← Except.ok.inj h]
    exact fun f hf => by cases hf

theorem recordedSteps_ne_nil {steps : List PyStr} (h : recordedSteps value = some steps) :
    ∀ step ∈ steps, step.codes ≠ [] := by
  unfold recordedSteps at h
  split at h
  · rw [← Option.some.inj h]
    intro step hstep
    obtain ⟨item, -, hitem⟩ := List.mem_filterMap.mp hstep
    unfold optionalString at hitem
    split at hitem
    · split_ifs at hitem with hne
      exact Option.some.inj hitem ▸ hne
    · cases hitem
  · cases h

variable {tag : Option PyStr}

theorem isUuidText_of_parsed {text id : PyStr} (h : parseJobKey text = .ok (tag, id)) : isUuidText id = true := by
  unfold parseJobKey at h
  simp only at h
  split_ifs at h with huuid
  · cases h
  · obtain ⟨-, rfl⟩ := Prod.mk.inj (Except.ok.inj h)
    exact eq_true_of_ne_false huuid
  · cases h
  · obtain ⟨label, -, h⟩ := bind_eq_ok.mp h
    obtain ⟨-, rfl⟩ := Prod.mk.inj (Except.ok.inj h)
    exact eq_true_of_ne_false huuid

theorem ne_nil_of_isUuidText (h : isUuidText text = true) : text.codes ≠ [] := by
  intro hnil
  obtain rfl : text = ⟨[]⟩ := by
    cases text
    exact congrArg PyStr.mk hnil
  revert h
  decide

theorem canonicalUuid_of_parsed {env : CollectEnv} {text id : PyStr}
    (h : parseJobKey text = .ok (tag, id)) : canonicalUuid env.uuid (some (.str id)) "job_id" = .ok id := by
  have huuid := isUuidText_of_parsed h
  refine (bind_of_ok (requireString_str (ne_nil_of_isUuidText huuid) _)).trans ?_
  rw [env.uuid_canonical id huuid]
  exact if_neg fun h => h rfl

theorem ValidJobKey.text_ne_nil (key : ValidJobKey) : key.text.codes ≠ [] := by
  intro hnil
  have hparsed := key.parsed
  have hempty : key.text = ⟨[]⟩ := by
    cases htext : key.text
    rw [htext] at hnil
    exact congrArg PyStr.mk hnil
  rw [hempty] at hparsed
  cases hparsed

theorem recordOf_wellFormed {env : CollectEnv} {reading : JobReading} {record : JobRecord}
    (h : recordOf env reading = .ok (some record)) : record.WellFormed env.uuid
      ∧ record.children = (labeledChildren reading.frames).map fun e => (e.fst, e.snd.asMapping) := by
  unfold recordOf at h
  obtain ⟨read, -, h⟩ := bind_eq_ok.mp h
  cases read with
  | none => cases h
  | some job =>
    obtain ⟨state, -, h⟩ := bind_eq_ok.mp h
    obtain ⟨⟨activations, gaps⟩, -, h⟩ := bind_eq_ok.mp h
    obtain ⟨failed, hfailed, h⟩ := bind_eq_ok.mp h
    obtain ⟨declared, hdeclared, h⟩ := bind_eq_ok.mp h
    obtain ⟨dataGeneration, -, h⟩ := bind_eq_ok.mp h
    obtain rfl := Option.some.inj (Except.ok.inj h)
    have hparts := (mapM_placementPart reading.valid.placement).2
    have hempty : (⟨[]⟩ : PyStr) ∉ reading.marker.placement := fun hmem => hparts _ hmem (by decide)
    refine ⟨⟨env.named, canonicalUuid_of_parsed reading.marker.jobKey.parsed, reading.marker.jobKey.text_ne_nil, ?_,
      failureOf_valid hfailed, ?_, ?_, fun steps hsteps => recordedSteps_ne_nil hsteps,
      declarationsOf_named hdeclared⟩, rfl⟩
    · show reading.marker.kind.word.codes ≠ []
      cases reading.marker.kind <;> decide
    · exact normalizePlacement_join reading.slashless reading.valid.placed reading.valid.placement
    · exact (PyStr.head_join reading.slashless reading.valid.placed hempty).1

/-- **A record is read back exactly if its children have labels of the protocol.** -/
theorem fromMapping_asMapping_iff {env : CollectEnv} {reading : JobReading} {record : JobRecord}
    (h : recordOf env reading = .ok (some record)) :
    JobRecord.fromMapping env.uuid record.asMapping = .ok record
      ↔ ∀ frame ∈ reading.frames, frameUnreadable frame = false →
          ∀ child ∈ frameChildren frame, isLabel child.label = true := by
  obtain ⟨hwell, hchildren⟩ := recordOf_wellFormed h
  have hlabels : (∀ e ∈ record.children, isLabel e.fst = true)
      ↔ ∀ child ∈ namedChildren reading.frames, isLabel child.label = true := by
    rw [hchildren]
    constructor
    · intro hall child hchild
      obtain ⟨e, he, hlabel⟩ := List.mem_map.mp (mem_labeledChildren.mpr ⟨child, hchild, rfl⟩)
      exact hlabel ▸ hall (e.fst, e.snd.asMapping) (List.mem_map_of_mem he)
    · intro hall e he
      obtain ⟨entry, hentry, rfl⟩ := List.mem_map.mp he
      obtain ⟨child, hchild, hlabel⟩ := mem_labeledChildren.mp (List.mem_map_of_mem (f := Prod.fst) hentry)
      exact hlabel ▸ hall child hchild
  have hnamed : (∀ child ∈ namedChildren reading.frames, isLabel child.label = true)
      ↔ ∀ frame ∈ reading.frames, frameUnreadable frame = false →
          ∀ child ∈ frameChildren frame, isLabel child.label = true := by
    simp only [namedChildren, List.mem_flatMap, List.mem_filter, Bool.not_eq_true']
    exact ⟨fun hall frame hframe hreadable child hchild => hall child ⟨frame, ⟨hframe, hreadable⟩, hchild⟩,
      fun hall child ⟨frame, ⟨hframe, hreadable⟩, hchild⟩ => hall frame hframe hreadable child hchild⟩
  rw [fromMapping_asMapping hwell, map_eq_ok, ← hnamed, ← hlabels, ← recordChildren_iff]
  refine ⟨fun ⟨children, hread, heq⟩ => ?_, fun hread => ⟨_, hread, rfl⟩⟩
  obtain rfl : children = record.children := congrArg JobRecord.children heq
  exact hread

/-! ## A label that is not one -/

namespace LabeledChild

def env : CollectEnv where
  root := .ofText "/work"
  workspaceId := "22222222-2222-4222-8222-222222222222"
  uuid text := if isUuidText text then some text else none
  render _ := ⟨[]⟩
  named := by decide
  uuid_canonical _ h := if_pos h

def job : StoredJob where
  id := untaggedKey.id
  tag := none
  name := "campaign"
  workflow := "scan"
  runnerExecutor := "python"
  runnerSource := "payload"
  runnerPath := .ofText "run.py"
  runnerSha256 := none
  runnerArguments := []
  workdirMode := "persistent"
  workdirPath := .ofText "work"
  dataMode := "none"
  initialStep := "start"
  priority := 500
  claimPool := "default"
  requiredCapabilities := []
  retryPolicy := .unlimited []
  resources := []
  parameters := []
  environment := []
  declarations := []
  parent := none
  digest := "0"
  declarations_named := List.forall_mem_nil _

def frame (label : String) : List (PyStr × Json) :=
  [("kind", .str "succeeded"), ("activation_id", .str "a"),
    ("join_summary", .arr [.obj [("label", .str label), ("job_id", .str untaggedKey.id)]])]

def reading (label : String) : JobReading where
  marker := { readyMarker untaggedKey with kind := .succeeded }
  job := .ok job
  state := .ok []
  frames := [frame label]
  installed := none
  observed := .ok []
  valid := ⟨by decide, rfl, by decide, by decide, Or.inl rfl⟩
  slashless := by decide

theorem exists_record (label : String) : ∃ record, recordOf env (reading label) = .ok (some record) := by
  have hdeclared : declarationsOf job (.ok []) = .ok ([], false) := by
    simp [declarationsOf, job]
    rfl
  obtain ⟨t, htimeline⟩ : ∃ t, timeline (reading label).frames = .ok t := ⟨_, rfl⟩
  have hfailed : failureOf env [] = .ok (none, false) := rfl
  have hgeneration : optionalInt (Json.get [] "data_generation") = .ok none := rfl
  have hreads : recordOf env (reading label) = _ := (bind_of_ok (b := some job) rfl).trans
    ((bind_of_ok (b := some []) rfl).trans ((bind_of_ok htimeline).trans
      ((bind_of_ok hfailed).trans ((bind_of_ok hdeclared).trans (bind_of_ok hgeneration)))))
  exact ⟨_, hreads⟩

end LabeledChild

/-- A child with a label of the protocol. -/
theorem fromMapping_asMapping_iff_relax : ∃ record,
    recordOf LabeledChild.env (LabeledChild.reading "relax") = .ok (some record)
      ∧ JobRecord.fromMapping LabeledChild.env.uuid record.asMapping = .ok record := by
  obtain ⟨record, h⟩ := LabeledChild.exists_record "relax"
  refine ⟨record, h, (fromMapping_asMapping_iff h).mpr ?_⟩
  intro frame hframe _ child hchild
  obtain rfl := List.mem_singleton.mp hframe
  obtain rfl := List.mem_singleton.mp hchild
  decide

/-- **A record that is not read back**: its job has a child under the label `Relax`. -/
theorem record_not_read_back : ¬∀ (env : CollectEnv) (reading : JobReading) (record : JobRecord),
    recordOf env reading = .ok (some record) → JobRecord.fromMapping env.uuid record.asMapping = .ok record := by
  intro hall
  obtain ⟨record, h⟩ := LabeledChild.exists_record "Relax"
  obtain ⟨hwell, hchildren⟩ := recordOf_wellFormed h
  have hread := hall _ _ _ h
  rw [fromMapping_asMapping hwell, map_eq_ok] at hread
  obtain ⟨children, hchild, -⟩ := hread
  have hfails : (recordChildren (some (.obj (((labeledChildren (LabeledChild.reading "Relax").frames).map fun e =>
      (e.fst, e.snd.asMapping)).map fun e => (e.fst, .obj e.snd))))).isOk = false := by decide +kernel
  rw [hchildren] at hchild
  rw [hchild] at hfails
  cases hfails
