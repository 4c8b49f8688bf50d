import HttkWorkflow.Errors
import Mathlib.Data.List.Chain
import Mathlib.Data.List.Nodup
import Mathlib.Logic.Relation

/-!
# The output declarations of a manifest

A workflow manifest has a table of outputs. Each has a role, its name unless
it says otherwise, and may be declared the product of another role, which is
that of an input or of another output. `_validate_outputs` reads the tables
one by one, then compares the roles, and last follows `product_of` from each
output to see that no output is, in the end, a product of itself.

The search keeps the roles under way, `visiting`, and those it is done with,
`visited`. It goes one call deeper for each role under way, and these are
different outputs, so it ends (`visit`). A role it comes back to while it is
under way lies on a cycle, and a role it is done with leads to none: with
these two facts a search over all outputs fails exactly on a cycle
(`visitAll_isOk_iff`). The stack an interpreter has for the calls is not part
of the model.
-/

/-! ## The search for a cycle -/

section Search

variable {κ : Type} [DecidableEq κ]

/-- **The role a role is a product of.** -/
def ProductOf (graph : List (κ × κ)) (a b : κ) : Prop := graph.lookup a = some b

/-- How many roles of the graph are not under way. -/
def waitingRoles (graph : List (κ × κ)) (visiting : List κ) : ℕ :=
  (graph.filter fun e => e.fst ∉ visiting).length

theorem waitingRoles_lt {graph : List (κ × κ)} {visiting : List κ} {role source : κ} (h : role ∉ visiting)
    (hsource : graph.lookup role = some source) :
    waitingRoles graph (visiting ++ [role]) < waitingRoles graph visiting := by
  obtain ⟨l, l', hgraph, -⟩ := List.lookup_eq_some_iff.mp hsource
  have hmem : (role, source) ∈ graph.filter fun e => e.fst ∉ visiting :=
    List.mem_filter.mpr ⟨by rw [hgraph]; simp, decide_eq_true h⟩
  have hfilter : (graph.filter fun e => e.fst ∉ visiting ++ [role])
      = (graph.filter fun e => e.fst ∉ visiting).filter fun e => e.fst ∉ visiting ++ [role] := by
    rw [List.filter_filter]
    refine List.filter_congr fun e _ => ?_
    simp +contextual
  unfold waitingRoles
  rw [hfilter, List.length_filter_lt_length_iff_exists]
  exact ⟨(role, source), hmem, by simp⟩

/-- **`visit`**: the roles that are visited after it, or the cycle it found. -/
def visit (graph : List (κ × κ)) (visiting visited : List κ) (role : κ) : Except (List κ) (List κ) :=
  if _hvisiting : role ∈ visiting then
    .error (visiting.drop (visiting.idxOf role) ++ [role])
  else if role ∈ visited then .ok visited
  else
    match _hsource : graph.lookup role with
    | none => .ok (role :: visited)
    | some source => (visit graph (visiting ++ [role]) visited source).map (role :: ·)
termination_by waitingRoles graph visiting
decreasing_by exact waitingRoles_lt _hvisiting _hsource

/-- `for role in graph: visit(role)`. -/
def visitAll (graph : List (κ × κ)) : Except (List κ) (List κ) :=
  (graph.map Prod.fst).foldlM (visit graph []) []

/-- **A role that leads to no cycle.** -/
def LeadsOut (graph : List (κ × κ)) (role : κ) : Prop :=
  ∀ a, Relation.ReflTransGen (ProductOf graph) role a → ¬Relation.TransGen (ProductOf graph) a a

/-- **The roles under way** lead one to the next, and the last to the role that is visited. -/
def LeadsTo (graph : List (κ × κ)) (visiting : List κ) (role : κ) : Prop :=
  (visiting ++ [role]).IsChain (ProductOf graph)

variable {graph : List (κ × κ)} {visiting visited visited' : List κ} {role source : κ}

theorem LeadsTo.next (h : LeadsTo graph visiting role) (hsource : graph.lookup role = some source) :
    LeadsTo graph (visiting ++ [role]) source := by
  unfold LeadsTo at h ⊢
  rw [List.isChain_append]
  refine ⟨h, List.isChain_singleton _, fun a ha b hb => ?_⟩
  rw [List.getLast?_append_of_ne_nil _ (List.cons_ne_nil _ _)] at ha
  obtain rfl := Option.some.inj ha
  obtain rfl := Option.some.inj hb
  exact hsource

theorem LeadsTo.cycle (h : LeadsTo graph visiting role) (hrole : role ∈ visiting) :
    Relation.TransGen (ProductOf graph) role role := by
  obtain ⟨l, l', rfl⟩ := List.append_of_mem hrole
  have hchain : (role :: (l' ++ [role])).IsChain (ProductOf graph) := by
    unfold LeadsTo at h
    rw [List.append_assoc] at h
    exact (List.isChain_append.mp h).2.1
  have hlast : ∀ (l' : List κ) (a : κ), (a :: (l' ++ [role])).IsChain (ProductOf graph) →
      Relation.TransGen (ProductOf graph) a role := by
    intro l'
    induction l' with
    | nil => exact fun a ha => Relation.TransGen.single (List.isChain_cons_cons.mp ha).1
    | cons b l' ih =>
      intro a ha
      obtain ⟨hab, hb⟩ := List.isChain_cons_cons.mp ha
      exact Relation.TransGen.head hab (ih b hb)
  exact hlast l' role hchain

theorem leadsOut_of_none (h : graph.lookup role = none) : LeadsOut graph role := by
  have hnot : ∀ a, ¬ProductOf graph role a := fun a ha => by
    rw [ProductOf, h] at ha
    cases ha
  intro a ha hcycle
  rcases Relation.ReflTransGen.cases_head ha with rfl | ⟨b, hb, -⟩
  · obtain ⟨b, hb, -⟩ := Relation.TransGen.head'_iff.mp hcycle
    exact hnot b hb
  · exact hnot b hb

theorem leadsOut_of_source (hsource : graph.lookup role = some source) (h : LeadsOut graph source) :
    LeadsOut graph role := by
  intro a ha hcycle
  have honly : ∀ b, ProductOf graph role b → b = source := fun b hb => Option.some.inj (hb.symm.trans hsource)
  rcases Relation.ReflTransGen.cases_head ha with rfl | ⟨b, hb, hrest⟩
  · -- the role itself is on the cycle, and so is what it is a product of
    obtain ⟨b, hb, hback⟩ := Relation.TransGen.head'_iff.mp hcycle
    obtain rfl := honly b hb
    exact h role hback hcycle
  · obtain rfl := honly b hb
    exact h a hrest hcycle

theorem visit_spec (hpath : LeadsTo graph visiting role) (hvisited : ∀ a ∈ visited, LeadsOut graph a) :
    (∃ visited', visit graph visiting visited role = .ok visited' ∧ role ∈ visited'
        ∧ visited ⊆ visited' ∧ ∀ a ∈ visited', LeadsOut graph a)
      ∨ ∃ cycle, visit graph visiting visited role = .error cycle
        ∧ ∃ a, Relation.TransGen (ProductOf graph) a a := by
  induction visiting, role using visit.induct graph visited with
  | case1 visiting role hrole =>
    rw [visit, dif_pos hrole]
    exact Or.inr ⟨_, rfl, role, hpath.cycle hrole⟩
  | case2 visiting role hrole hdone =>
    rw [visit, dif_neg hrole, if_pos hdone]
    exact Or.inl ⟨visited, rfl, hdone, List.Subset.refl _, hvisited⟩
  | case3 visiting role hrole hdone hsource =>
    rw [visit, dif_neg hrole, if_neg hdone]
    refine Or.inl ⟨role :: visited, ?_, List.mem_cons_self, List.subset_cons_self _ _, fun a ha => ?_⟩
    · split
      · rfl
      · rename_i hsome
        rw [hsource] at hsome
        cases hsome
    · rcases List.mem_cons.mp ha with rfl | ha
      · exact leadsOut_of_none hsource
      · exact hvisited a ha
  | case4 visiting role hrole hdone source hsource ih =>
    have hvisit : visit graph visiting visited role
        = (visit graph (visiting ++ [role]) visited source).map (role :: ·) := by
      rw [visit, dif_neg hrole, if_neg hdone]
      split
      · rename_i hnone
        rw [hsource] at hnone
        cases hnone
      · rename_i source' hsome
        rw [hsource] at hsome
        rw [Option.some.inj hsome]
    rw [hvisit]
    rcases ih (hpath.next hsource) with ⟨visited', hok, hin, hsub, hout⟩ | ⟨cycle, herror, hcycle⟩
    · refine Or.inl ⟨role :: visited', by rw [hok]; rfl, List.mem_cons_self,
        List.subset_cons_of_subset _ hsub, fun a ha => ?_⟩
      rcases List.mem_cons.mp ha with rfl | ha
      · exact leadsOut_of_source hsource (hout source hin)
      · exact hout a ha
    · exact Or.inr ⟨cycle, by rw [herror]; rfl, hcycle⟩

theorem visitAll_isOk_iff : (∃ visited, visitAll graph = .ok visited)
    ↔ ∀ a, ¬Relation.TransGen (ProductOf graph) a a := by
  have hloop : ∀ (roles visited : List κ), (∀ a ∈ visited, LeadsOut graph a) →
      (∃ visited', roles.foldlM (visit graph []) visited = .ok visited' ∧ (∀ a ∈ roles, a ∈ visited')
          ∧ visited ⊆ visited' ∧ ∀ a ∈ visited', LeadsOut graph a)
        ∨ ∃ cycle, roles.foldlM (visit graph []) visited = .error cycle
          ∧ ∃ a, Relation.TransGen (ProductOf graph) a a := by
    intro roles
    induction roles with
    | nil => exact fun visited h => Or.inl ⟨visited, rfl, fun _ h => absurd h List.not_mem_nil, List.Subset.refl _, h⟩
    | cons role roles ih =>
      intro visited h
      rw [List.foldlM_cons]
      have hstart : LeadsTo graph [] role := List.isChain_singleton role
      rcases visit_spec hstart h with
        ⟨visited₁, hok, hin, hsub, hout⟩ | ⟨cycle, herror, hcycle⟩
      · rw [hok]
        rcases ih visited₁ hout with ⟨visited₂, hok₂, hin₂, hsub₂, hout₂⟩ | ⟨cycle, herror, hcycle⟩
        · refine Or.inl ⟨visited₂, hok₂, fun a ha => ?_, List.Subset.trans hsub hsub₂, hout₂⟩
          rcases List.mem_cons.mp ha with rfl | ha
          · exact hsub₂ hin
          · exact hin₂ a ha
        · exact Or.inr ⟨cycle, herror, hcycle⟩
      · rw [herror]
        exact Or.inr ⟨cycle, rfl, hcycle⟩
  rcases hloop (graph.map Prod.fst) [] (fun _ h => absurd h List.not_mem_nil) with
    ⟨visited, hok, hin, -, hout⟩ | ⟨cycle, herror, a, hcycle⟩
  · refine iff_of_true ⟨visited, hok⟩ fun a hcycle => ?_
    obtain ⟨b, hb, -⟩ := Relation.TransGen.head'_iff.mp hcycle
    obtain ⟨l, l', hgraph, -⟩ := List.lookup_eq_some_iff.mp hb
    have hkey : a ∈ graph.map Prod.fst := List.mem_map.mpr ⟨(a, b), by rw [hgraph]; simp, rfl⟩
    exact hout a (hin a hkey) a Relation.ReflTransGen.refl hcycle
  · refine iff_of_false (fun ⟨visited, hok⟩ => ?_) fun hacyclic => hacyclic a hcycle
    have hsame : Except.error cycle = Except.ok visited := herror.symm.trans hok
    cases hsame

end Search

/-! ## The tables -/

/-- `_error(directory, …)`. -/
def manifestError {β : Type} (directory : PyStr) (message : Message) : Except Exc β :=
  .error ⟨.valueError, .raw directory :: .lit ": " :: message⟩

/-- `[workflow.outputs.NAME]`. -/
def outputPath (name : PyStr) : Message := [.lit "[workflow.outputs.", .raw name, .lit "]"]

/-- `_string`, of a member that may be absent. -/
def manifestString (directory : PyStr) (path : Message) (table : List (PyStr × Json)) (key : String) :
    Except Exc (Option PyStr) :=
  match Json.get table key with
  | none => .ok none
  | some (.str text) =>
    if text.codes = [] then
      manifestError directory (path ++ [.lit ".", .lit key, .lit " must be a nonempty string"])
    else .ok (some text)
  | some _ => manifestError directory (path ++ [.lit ".", .lit key, .lit " must be a nonempty string"])

/-- `_string` of a required member. -/
def manifestRequired (directory : PyStr) (path : Message) (table : List (PyStr × Json)) (key : String) :
    Except Exc PyStr :=
  manifestString directory path table key >>= fun text =>
    match text with
    | some text => .ok text
    | none => manifestError directory (path ++ [.lit ".", .lit key, .lit " is required"])

/-- `_optional_string`. -/
def manifestOptional (directory : PyStr) (path : Message) (table : List (PyStr × Json)) (key : String) :
    Except Exc (Option PyStr) :=
  match Json.get table key with
  | none => .ok none
  | some (.str text) => .ok (some text)
  | some _ => manifestError directory (path ++ [.lit ".", .lit key, .lit " must be a string"])

/-- **An output declaration.** -/
structure OutputDeclaration where
  name : PyStr
  entryType : PyStr
  role : PyStr
  productOf : Option PyStr
  port : Option PyStr
  ref : Option PyStr
  description : Option PyStr
deriving DecidableEq, Repr

/-- The members an output table may have. -/
def outputKeys : List PyStr :=
  ["entry_type", "ref", "description", "product_of", "role", "port"].map PyStr.ofString

/-- The table of an output, with no member but those it may have. -/
def outputTable (directory : PyStr) (e : PyStr × Json) : Except Exc (List (PyStr × Json)) :=
  if e.fst.codes = [] then
    manifestError directory [.lit "[workflow.outputs] name must be a nonempty string"]
  else
    match e.snd with
    | .obj table =>
      match table.find? fun member => member.fst ∉ outputKeys with
      | some member => manifestError directory
          [.lit "unknown key [workflow.outputs.", .raw e.fst, .lit ".", .raw member.fst, .lit "]"]
      | none => .ok table
    | _ => manifestError directory (outputPath e.fst ++ [.lit " must be a table"])

/-- `role or output`. -/
def roleOr (role : Option PyStr) (name : PyStr) : PyStr :=
  match role with
  | some role => if role.codes = [] then name else role
  | none => name

def outputRole (directory : PyStr) (e : PyStr × Json) :
    Except Exc (List (PyStr × Json) × PyStr × PyStr) := do
  let table ← outputTable directory e
  let entryType ← manifestRequired directory (outputPath e.fst) table "entry_type"
  let role ← manifestOptional directory (outputPath e.fst) table "role"
  .ok (table, entryType, roleOr role e.fst)

/-- The port of an output, its name where ports are allowed and it has none. -/
def outputPort (directory : PyStr) (allowPort : Bool) (name : PyStr) (table : List (PyStr × Json)) :
    Except Exc (Option PyStr) :=
  manifestString directory (outputPath name) table "port" >>= fun port =>
    match port with
    | some port =>
      if allowPort = true then .ok (some port)
      else manifestError directory
        (outputPath name ++ [.lit ".port is only valid for a language workflow with a document"])
    | none => .ok (if allowPort = true then some name else none)

def outputEntry (directory : PyStr) (allowPort : Bool) (name : PyStr) (table : List (PyStr × Json))
    (entryType role : PyStr) : Except Exc OutputDeclaration := do
  let productOf ← manifestOptional directory (outputPath name) table "product_of"
  let port ← outputPort directory allowPort name table
  let ref ← manifestOptional directory (outputPath name) table "ref"
  let description ← manifestOptional directory (outputPath name) table "description"
  .ok ⟨name, entryType, role, productOf, port, ref, description⟩

/-- **One output**, whose role must not be one that came before. -/
def validateOutput (directory : PyStr) (allowPort : Bool) (roles : List PyStr) (e : PyStr × Json) :
    Except Exc OutputDeclaration := do
  let (table, entryType, role) ← outputRole directory e
  if role ∈ roles then manifestError directory (outputPath e.fst ++ [.lit ".role is duplicated"])
  else outputEntry directory allowPort e.fst table entryType role

/-- The check of one output's `product_of` against the roles. -/
def checkProduct (directory : PyStr) (inputRoles roles : List PyStr) (o : OutputDeclaration) :
    Except Exc PUnit :=
  match o.productOf with
  | none => .ok ⟨⟩
  | some source =>
    if source = o.role then manifestError directory (outputPath o.name
      ++ [.lit ".product_of cannot reference its own output role ", .repr (some (.str o.role))])
    else if source ∈ inputRoles ∧ source ∈ roles then manifestError directory (outputPath o.name
      ++ [.lit ".product_of role ", .repr (some (.str source)),
        .lit " is both an input and output role; rename one"])
    else if source ∉ inputRoles ∧ source ∉ roles then manifestError directory (outputPath o.name
      ++ [.lit ".product_of names unknown input or output role ", .repr (some (.str source))])
    else .ok ⟨⟩

def productEdge (roles : List PyStr) (o : OutputDeclaration) : Option (PyStr × PyStr) :=
  match o.productOf with
  | some source => if source ∈ roles then some (o.role, source) else none
  | none => none

/-- `graph`: the outputs that are products of outputs, by their roles. -/
def productGraph (outputs : List OutputDeclaration) : List (PyStr × PyStr) :=
  outputs.filterMap (productEdge (outputs.map OutputDeclaration.role))

/-- `f"{output_paths[role]}.product_of forms an output cycle: {cycle}"`. -/
def cycleMessage (outputs : List OutputDeclaration) (cycle : List PyStr) : Message :=
  ((outputs.filter fun o => cycle.head? = some o.role).flatMap fun o => outputPath o.name)
    ++ .lit ".product_of forms an output cycle: " :: (cycle.map MessagePart.raw).intersperse (.lit " -> ")

/-- **`_validate_outputs`**, with the roles of the inputs. -/
def validateOutputs (directory : PyStr) (allowPort : Bool) (inputRoles : List PyStr)
    (raw : List (PyStr × Json)) : Except Exc (List OutputDeclaration) := do
  let outputs ← raw.foldlM (fun outputs e =>
    (validateOutput directory allowPort (outputs.map OutputDeclaration.role) e).map fun o => outputs ++ [o]) []
  outputs.forM (checkProduct directory inputRoles (outputs.map OutputDeclaration.role))
  match visitAll (productGraph outputs) with
  | .ok _ => .ok outputs
  | .error cycle => manifestError directory (cycleMessage outputs cycle)

/-! ## What is accepted -/

section Accepting

variable {directory : PyStr} {allowPort : Bool}

variable {o : OutputDeclaration}

theorem role_of_outputEntry {name entryType role : PyStr} {table : List (PyStr × Json)}
    (h : outputEntry directory allowPort name table entryType role = .ok o) : o.role = role := by
  unfold outputEntry at h
  obtain ⟨productOf, -, h⟩ := bind_eq_ok.mp h
  obtain ⟨port, -, h⟩ := bind_eq_ok.mp h
  obtain ⟨ref, -, h⟩ := bind_eq_ok.mp h
  obtain ⟨description, -, h⟩ := bind_eq_ok.mp h
  exact congrArg OutputDeclaration.role (Except.ok.inj h).symm

variable {roles : List PyStr}

theorem validateOutput_eq_ok {e : PyStr × Json} : validateOutput directory allowPort roles e = .ok o
      ↔ validateOutput directory allowPort [] e = .ok o ∧ o.role ∉ roles := by
  unfold validateOutput
  rw [bind_eq_ok, bind_eq_ok]
  constructor
  · rintro ⟨⟨table, entryType, role⟩, hrole, h⟩
    simp only at h
    split_ifs at h with hin
    · cases h
    · refine ⟨⟨_, hrole, ?_⟩, role_of_outputEntry h ▸ hin⟩
      exact (if_neg List.not_mem_nil).trans h
  · rintro ⟨⟨⟨table, entryType, role⟩, hrole, h⟩, hnew⟩
    have hentry := (if_neg List.not_mem_nil).symm.trans h
    refine ⟨_, hrole, ?_⟩
    exact (if_neg (role_of_outputEntry hentry ▸ hnew)).trans hentry

variable {outputs : List OutputDeclaration}

theorem outputs_eq_ok {raw : List (PyStr × Json)} : raw.foldlM (fun outputs e =>
        (validateOutput directory allowPort (outputs.map OutputDeclaration.role) e).map fun o => outputs ++ [o]) []
        = .ok outputs
      ↔ List.Forall₂ (fun e o => validateOutput directory allowPort [] e = .ok o) raw outputs
        ∧ (outputs.map OutputDeclaration.role).Nodup := by
  have hgeneral : ∀ (raw : List (PyStr × Json)) (before outputs : List OutputDeclaration),
      (before.map OutputDeclaration.role).Nodup →
      (raw.foldlM (fun outputs e =>
          (validateOutput directory allowPort (outputs.map OutputDeclaration.role) e).map fun o => outputs ++ [o])
          before = .ok outputs
        ↔ ∃ rest, outputs = before ++ rest
          ∧ List.Forall₂ (fun e o => validateOutput directory allowPort [] e = .ok o) raw rest
          ∧ (outputs.map OutputDeclaration.role).Nodup) := by
    intro raw
    induction raw with
    | nil =>
      intro before outputs hbefore
      constructor
      · intro h
        obtain rfl := Except.ok.inj h
        exact ⟨[], (List.append_nil _).symm, List.Forall₂.nil, hbefore⟩
      · rintro ⟨rest, rfl, hrest, -⟩
        cases hrest
        exact congrArg Except.ok (List.append_nil before).symm
    | cons e raw ih =>
      intro before outputs hbefore
      rw [List.foldlM_cons, bind_eq_ok]
      constructor
      · rintro ⟨outputs₁, hfirst, h⟩
        obtain ⟨o, ho, rfl⟩ := map_eq_ok.mp hfirst
        obtain ⟨hself, hnew⟩ := validateOutput_eq_ok.mp ho
        have hnodup : ((before ++ [o]).map OutputDeclaration.role).Nodup := by
          rw [List.map_append, List.map_singleton]
          exact List.nodup_append'.mpr ⟨hbefore, List.nodup_singleton _,
            fun r hr hr' => hnew (List.mem_singleton.mp hr' ▸ hr)⟩
        obtain ⟨rest, rfl, hrest, hall⟩ := (ih _ _ hnodup).mp h
        exact ⟨o :: rest, by rw [List.append_assoc, List.singleton_append], List.Forall₂.cons hself hrest, hall⟩
      · rintro ⟨rest, rfl, hrest, hall⟩
        cases hrest with
        | @cons _ o _ rest hself hrest =>
          have hsplit : before ++ o :: rest = before ++ [o] ++ rest := by
            rw [List.append_assoc, List.singleton_append]
          have hnodup : ((before ++ [o]).map OutputDeclaration.role).Nodup := by
            rw [hsplit, List.map_append] at hall
            exact (List.nodup_append'.mp hall).1
          have hnew : o.role ∉ before.map OutputDeclaration.role := by
            rw [List.map_append, List.map_singleton] at hnodup
            exact fun h => (List.nodup_append'.mp hnodup).2.2 h (List.mem_singleton.mpr rfl)
          refine ⟨before ++ [o], map_eq_ok.mpr ⟨o, validateOutput_eq_ok.mpr ⟨hself, hnew⟩, rfl⟩, ?_⟩
          exact (ih _ _ hnodup).mpr ⟨rest, hsplit, hrest, hall⟩
  refine (hgeneral raw [] outputs List.nodup_nil).trans ⟨?_, fun h => ⟨outputs, rfl, h⟩⟩
  rintro ⟨rest, rfl, h⟩
  exact h

/-- What `product_of` may name. -/
def ProductNamed (inputRoles roles : List PyStr) (o : OutputDeclaration) : Prop :=
  ∀ source, o.productOf = some source →
    source ≠ o.role ∧ (source ∈ inputRoles ∨ source ∈ roles) ∧ ¬(source ∈ inputRoles ∧ source ∈ roles)

theorem checkProduct_eq_ok {inputRoles roles : List PyStr} :
    checkProduct directory inputRoles roles o = .ok ⟨⟩ ↔ ProductNamed inputRoles roles o := by
  unfold checkProduct ProductNamed
  cases hproduct : o.productOf with
  | none => simp
  | some source =>
    simp only [Option.some.injEq, forall_eq']
    by_cases hown : source = o.role
    · rw [if_pos hown]
      exact iff_of_false (fun h => by cases h) fun h => h.1 hown
    · rw [if_neg hown]
      by_cases hboth : source ∈ inputRoles ∧ source ∈ roles
      · rw [if_pos hboth]
        exact iff_of_false (fun h => by cases h) fun h => h.2.2 hboth
      · rw [if_neg hboth]
        by_cases hnone : source ∉ inputRoles ∧ source ∉ roles
        · rw [if_pos hnone]
          exact iff_of_false (fun h => by cases h) fun h => h.2.1.elim hnone.1 hnone.2
        · rw [if_neg hnone]
          refine iff_of_true rfl ⟨hown, ?_, hboth⟩
          by_contra hneither
          exact hnone ⟨fun h => hneither (Or.inl h), fun h => hneither (Or.inr h)⟩

/-- **An output that is the product of an output**, by their roles. -/
def OutputProduct (outputs : List OutputDeclaration) (a b : PyStr) : Prop :=
  ∃ o ∈ outputs, o.role = a ∧ o.productOf = some b ∧ b ∈ outputs.map OutputDeclaration.role

theorem productEdge_eq_some {a b : PyStr} :
    productEdge roles o = some (a, b) ↔ o.role = a ∧ o.productOf = some b ∧ b ∈ roles := by
  unfold productEdge
  cases o.productOf with
  | none => exact iff_of_false (fun h => by cases h) fun h => by cases h.2.1
  | some source =>
    show (if source ∈ roles then some (o.role, source) else none) = some (a, b) ↔ _
    by_cases hin : source ∈ roles
    · rw [if_pos hin, Option.some.injEq, Prod.mk.injEq, Option.some.injEq]
      exact ⟨fun h => ⟨h.1, h.2, h.2 ▸ hin⟩, fun h => ⟨h.1, h.2.1⟩⟩
    · rw [if_neg hin]
      refine iff_of_false (fun h => by cases h) fun h => hin ?_
      rw [Option.some.inj h.2.1]
      exact h.2.2

theorem productEdges_sublist (roles : List PyStr) (outputs : List OutputDeclaration) :
    ((outputs.filterMap (productEdge roles)).map Prod.fst).Sublist (outputs.map OutputDeclaration.role) := by
  induction outputs with
  | nil => exact List.Sublist.slnil
  | cons o outputs ih =>
    cases hedge : productEdge roles o with
    | none =>
      rw [List.filterMap_cons_none hedge]
      exact ih.cons _
    | some e =>
      rw [List.filterMap_cons_some hedge, List.map_cons, List.map_cons, ← (productEdge_eq_some.mp hedge).1]
      exact ih.cons_cons _

theorem productOf_productGraph (hnodup : (outputs.map OutputDeclaration.role).Nodup) :
    ProductOf (productGraph outputs) = OutputProduct outputs := by
  have hkeys : ((productGraph outputs).map Prod.fst).Nodup := hnodup.sublist (productEdges_sublist _ _)
  funext a b
  refine propext ((Dict.get_eq_some_iff hkeys).trans (List.mem_filterMap.trans ?_))
  exact exists_congr fun o => and_congr_right fun _ => productEdge_eq_some

/-- **What is accepted**: tables that are each accepted by themselves, of pairwise distinct roles, each
`product_of` naming a role of an input or of another output but not of both, and no output in the end
a product of itself. -/
theorem validateOutputs_eq_ok_iff (directory : PyStr) (allowPort : Bool) (inputRoles : List PyStr)
    (raw : List (PyStr × Json)) (outputs : List OutputDeclaration) :
    validateOutputs directory allowPort inputRoles raw = .ok outputs
      ↔ List.Forall₂ (fun e o => validateOutput directory allowPort [] e = .ok o) raw outputs
        ∧ (outputs.map OutputDeclaration.role).Nodup
        ∧ (∀ o ∈ outputs, ProductNamed inputRoles (outputs.map OutputDeclaration.role) o)
        ∧ ∀ role, ¬Relation.TransGen (OutputProduct outputs) role role := by
  have hchecks : outputs.forM (checkProduct directory inputRoles (outputs.map OutputDeclaration.role)) = .ok ⟨⟩
      ↔ ∀ o ∈ outputs, ProductNamed inputRoles (outputs.map OutputDeclaration.role) o := by
    rw [forM_eq_ok]
    exact forall₂_congr fun o _ => checkProduct_eq_ok
  have hsearch : (match visitAll (productGraph outputs) with
      | .ok _ => .ok outputs
      | .error cycle => manifestError directory (cycleMessage outputs cycle) : Except Exc (List OutputDeclaration))
        = .ok outputs ↔ ∃ visited, visitAll (productGraph outputs) = .ok visited := by
    cases visitAll (productGraph outputs) with
    | ok visited => exact iff_of_true rfl ⟨visited, rfl⟩
    | error cycle => exact iff_of_false (fun h => by cases h) fun ⟨_, h⟩ => by cases h
  unfold validateOutputs
  rw [bind_eq_ok]
  constructor
  · rintro ⟨outputs', hraw, h⟩
    obtain ⟨⟨⟩, hproducts, h⟩ := bind_eq_ok.mp h
    obtain rfl : outputs' = outputs := by
      split at h
      · exact Except.ok.inj h
      · cases h
    obtain ⟨hshape, hnodup⟩ := outputs_eq_ok.mp hraw
    refine ⟨hshape, hnodup, hchecks.mp hproducts, ?_⟩
    rw [← productOf_productGraph hnodup]
    exact visitAll_isOk_iff.mp (hsearch.mp h)
  · rintro ⟨hshape, hnodup, hproducts, hacyclic⟩
    rw [← productOf_productGraph hnodup] at hacyclic
    exact ⟨outputs, outputs_eq_ok.mpr ⟨hshape, hnodup⟩,
      bind_eq_ok.mpr ⟨⟨⟩, hchecks.mpr hproducts, hsearch.mpr (visitAll_isOk_iff.mpr hacyclic)⟩⟩

end Accepting
