import HttkWorkflow.Errors
import HttkWorkflow.System
import Mathlib.Data.List.Sort

/-!
# The runner of Python Workflow Definitions

A job of this kind runs a whole graph in one step, node by node in a
topological order. The result of each node is kept in memory and, if it is
JSON, also written to the job state, from where the next attempt reads it
back; that attempt skips every node it finds there and computes the others
again.

Which values there are, what `json` makes of them and what the functions do is
given from outside, as `PythonValues` and the functions of a run: everything
here holds of any of them.
-/

/-! ## Documents -/

/-- **A node.** An input without a value has `None`. -/
inductive PwdNode (V : Type) where
  | input (name : PyStr) (value : V)
  | output (name : PyStr)
  | function (reference : PyStr)

/-- **An edge** from a result, or one of its ports, to an argument. -/
structure PwdEdge where
  source : ℕ
  target : ℕ
  sourcePort : Option PyStr
  targetPort : Option PyStr

/-- `ready`: the nodes without a source that remains, smallest first. -/
def readyNodes (remaining : List (ℕ × List ℕ)) : List ℕ :=
  ((remaining.filter fun e => e.snd = []).map Prod.fst).insertionSort (· ≤ ·)

/-- The loop of `_topological_order`, whose rounds are at most as many as the nodes. -/
def orderRounds : ℕ → List (ℕ × List ℕ) → List ℕ → Option (List ℕ)
  | _, [], ordered => some ordered
  | 0, _ :: _, _ => none
  | rounds + 1, remaining, ordered =>
    if readyNodes remaining = [] then none
    else orderRounds rounds
      ((remaining.filter fun e => e.fst ∉ readyNodes remaining).map fun e =>
        (e.fst, e.snd.filter (· ∉ readyNodes remaining)))
      (ordered ++ readyNodes remaining)

/-- **`_topological_order`**, `none` where there is a cycle. -/
def topologicalOrder {V : Type} (nodes : List (ℕ × PwdNode V)) (edges : List PwdEdge) : Option (List ℕ) :=
  orderRounds nodes.length
    (nodes.map fun e => (e.fst, (edges.filter fun edge => edge.target = e.fst).map PwdEdge.source)) []

/-- **A validated document.** -/
structure PwdDocument (V : Type) where
  nodes : List (ℕ × PwdNode V)
  edges : List PwdEdge
  order : List ℕ
  distinct : (nodes.map Prod.fst).Nodup
  declared : ∀ edge ∈ edges, edge.source ∈ nodes.map Prod.fst ∧ edge.target ∈ nodes.map Prod.fst
  ordered : topologicalOrder nodes edges = some order

/-! ## Values -/

/-- **What the runner uses of Python's values**: `None`, the items of a mapping and its keys as texts,
attributes, the name of a type, and `repr`; whether `json.dumps` accepts a value, unless it raises
something that is not caught; what the state file says of it after a merge, unless that raises; and what
is read back. -/
structure PythonValues (V : Type) where
  null : V
  items : V → Option (PyStr → Option V)
  keyTexts : V → List PyStr
  getattr : V → PyStr → Option V
  typeName : V → PyStr
  repr : V → PyStr
  jsonable : V → Option Bool
  store : V → Option Json
  load : Json → V

/-- **What a run is given**: its values, its document, the overrides of inputs, and what calling a
reference with keyword arguments comes to. The functions are pure: equal arguments give equal
results. -/
structure PwdRun (V : Type) where
  values : PythonValues V
  document : PwdDocument V
  overrides : Dict PyStr V
  call : PyStr → Dict PyStr V → Except Message V

/-- **How a node fails**: with a `NodeError`, or with an exception the step does not catch. -/
inductive PwdFailure where
  | node (node : ℕ) (message : Message)
  | raised

namespace PwdRun

variable {V : Type} (run : PwdRun V)

def portValue (value : V) (port : Option PyStr) (node source : ℕ) : Except PwdFailure V :=
  match port with
  | none => .ok value
  | some port =>
    match run.values.items value with
    | some items =>
      match items port with
      | some item => .ok item
      | none => .error (.node node ([.lit "node ", .num source, .lit " produced no output port ",
          .repr (some (.str port)), .lit "; it produced "]
          ++ if run.values.keyTexts value = [] then [.lit "nothing"]
            else ((run.values.keyTexts value).map MessagePart.raw).intersperse (.lit ", ")))
    | none =>
      match run.values.getattr value port with
      | some member => .ok member
      | none => .error (.node node [.lit "node ", .num source, .lit " produced a ",
          .raw (run.values.typeName value), .lit ", which has no output port ", .repr (some (.str port))])

/-- **`node_arguments`**: what the edges into a node carry, a missing target port being the empty one. -/
def nodeArguments (results : Dict ℕ V) (node : ℕ) : Except PwdFailure (Dict PyStr V) :=
  (run.document.edges.filter fun edge => edge.target = node).foldlM (fun arguments edge =>
    match results.get edge.source with
    | none => .error .raised
    | some result => do
      let value ← run.portValue result edge.sourcePort node edge.source
      .ok (arguments.set (edge.targetPort.getD ⟨[]⟩) value)) []

def executeNode (results : Dict ℕ V) (node : ℕ) : Except PwdFailure V :=
  match run.document.nodes.lookup node with
  | none => .error .raised
  | some (.input name value) => .ok ((run.overrides.get name).getD value)
  | some (.output _) => do
    let arguments ← run.nodeArguments results node
    .ok ((arguments.get ⟨[]⟩).getD run.values.null)
  | some (.function reference) => do
    let arguments ← run.nodeArguments results node
    match run.call reference arguments with
    | .ok value => .ok value
    | .error message => .error (.node node message)

end PwdRun

/-! ## Attempts -/

/-- **An output as it is published**: the value, or its `repr` where it is not JSON. -/
inductive PwdOutput (V : Type) where
  | value (value : V)
  | repr (text : PyStr)

/-- **How an attempt ends.** -/
inductive PwdEnd (V : Type) where
  | published (outputs : Dict PyStr (PwdOutput V))
  | failed (failure : PwdFailure) (completed : List ℕ)

/-- **The job**: its state file, and the attempt that is running or has ended. `stored` is the checkpoint
the attempt has read. -/
structure PwdJob (V : Type) where
  disk : Dict ℕ Json
  diskCompleted : List ℕ
  stored : Dict ℕ V
  checkpoint : Dict ℕ V
  completed : List ℕ
  results : Dict ℕ V
  todo : List ℕ
  ended : Option (PwdEnd V)

/-- The attempt ends without having completed its node. -/
def PwdJob.fails {V : Type} (job : PwdJob V) (failure : PwdFailure) : PwdJob V :=
  { job with ended := some (.failed failure job.completed) }

namespace PwdRun

variable {V : Type} (run : PwdRun V)

/-- An attempt begins with what the state file says. -/
def begin (disk : Dict ℕ Json) (completed : List ℕ) : PwdJob V where
  disk := disk
  diskCompleted := completed
  stored := disk.map fun e => (e.fst, run.values.load e.snd)
  checkpoint := disk.map fun e => (e.fst, run.values.load e.snd)
  completed := completed
  results := []
  todo := run.document.order
  ended := none

/-- What a merge makes of the checkpoint. -/
def storeAll (checkpoint : Dict ℕ V) : Option (Dict ℕ Json) :=
  checkpoint.mapM fun e => (run.values.store e.snd).map fun value => (e.fst, value)

def complete (job : PwdJob V) (node : ℕ) (rest : List ℕ) (value : V) : PwdJob V :=
  match run.values.jsonable value with
  | none => job.fails .raised
  | some true =>
    match run.storeAll (job.checkpoint.set node value) with
    | none => job.fails .raised
    | some disk =>
      { job with disk := disk, diskCompleted := job.completed ++ [node],
                 checkpoint := job.checkpoint.set node value, completed := job.completed ++ [node],
                 results := job.results.set node value, todo := rest }
  | some false =>
    { job with diskCompleted := job.completed ++ [node], completed := job.completed ++ [node],
               results := job.results.set node value, todo := rest }

/-- **The loop of `execute`**, for one node. -/
def runNode (job : PwdJob V) (node : ℕ) (rest : List ℕ) : PwdJob V :=
  match job.checkpoint.get node with
  | some value => { job with results := job.results.set node value, todo := rest }
  | none =>
    match run.executeNode job.results node with
    | .error failure => job.fails failure
    | .ok value => run.complete job node rest value

def output (results : Dict ℕ V) (node : ℕ) : Option (List (PyStr × PwdOutput V)) :=
  match run.document.nodes.lookup node with
  | some (.output name) => do
    let value ← results.get node
    let jsonable ← run.values.jsonable value
    some [(name, if jsonable = true then .value value else .repr (run.values.repr value))]
  | _ => some []

def publishOutputs (results : Dict ℕ V) : Option (Dict PyStr (PwdOutput V)) :=
  (run.document.order.mapM (run.output results)).map fun outputs => Dict.update [] outputs.flatten

/-- The step publishes what the graph has come to. -/
def publish (job : PwdJob V) : PwdJob V :=
  match run.publishOutputs job.results with
  | some outputs => { job with ended := some (.published outputs) }
  | none => job.fails .raised

/-- **The steps**: the attempt runs its next node, publishes, or is over, by being killed or after it has
ended, and the next one begins. -/
inductive Action where
  | node
  | publish
  | restart

def next (job : PwdJob V) : Action → Option (PwdJob V)
  | .node =>
    match job.ended, job.todo with
    | none, node :: rest => some (run.runNode job node rest)
    | _, _ => none
  | .publish =>
    match job.ended, job.todo with
    | none, [] => some (run.publish job)
    | _, _ => none
  | .restart => some (run.begin job.disk job.diskCompleted)

/-- **The job over its attempts**, from an empty state. -/
def system : System (PwdJob V) Action :=
  System.ofNext (fun job => job = run.begin [] []) run.next

/-- The nodes of an attempt that is left to itself. -/
def runNodes (job : PwdJob V) : List ℕ → PwdJob V
  | [] => job
  | node :: rest =>
    match (run.runNode job node rest).ended with
    | none => runNodes (run.runNode job node rest) rest
    | some _ => run.runNode job node rest

/-- **The end of an attempt** that is left to itself. -/
def finish (job : PwdJob V) : PwdJob V :=
  match job.ended with
  | some _ => job
  | none =>
    match (run.runNodes job job.todo).ended with
    | none => run.publish (run.runNodes job job.todo)
    | some _ => run.runNodes job job.todo

end PwdRun

/-- What an attempt has published. -/
def PwdJob.outputs {V : Type} (job : PwdJob V) : Option (Dict PyStr (PwdOutput V)) :=
  match job.ended with
  | some (.published outputs) => some outputs
  | _ => none
