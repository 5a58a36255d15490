import AgentGrid.Foundation.Dependency
import AgentGrid.Workflow.Tick
import Mathlib.Logic.Function.Basic

/-!
# Checked step graphs

The two checks of a list of steps: `validate_dag` in the shared crate, which
colours the steps in depth-first order and runs on a parsed plan, and
`validate_workflow_dag` in the control plane, which counts in-degrees and runs on
a template.  Whatever passes either has unique ids, knows all its dependencies
and has no cycle.
-/

namespace AgentGrid.Workflow

open AgentGrid.Foundation

/-- The step `a` depends on `b`. -/
def Needs (steps : List WorkflowStep) (a b : String) : Prop :=
  ∃ s ∈ steps, s.id = a ∧ b ∈ s.dependsOn

structure Dag (steps : List WorkflowStep) : Prop where
  unique : (steps.map WorkflowStep.id).Nodup
  known : ∀ s ∈ steps, ∀ dep ∈ s.dependsOn, dep ∈ steps.map WorkflowStep.id
  acyclic : Acyclic (Needs steps)

/-! ## Depth-first search -/

/-- `0=white,1=gray,2=black`. -/
inductive Color
  | white | gray | black
deriving DecidableEq, Repr

/-- `adj[node]`; every node that is asked for is a step. -/
def dependencies (steps : List WorkflowStep) (node : String) : List String :=
  ((lookup WorkflowStep.id node steps).map WorkflowStep.dependsOn).getD []

/-- The stack has its top first; an entry holds how many dependencies of the
node have been looked at. -/
structure Search where
  color : String → Color
  stack : List (String × Nat)

def Search.enter (color : String → Color) (node : String) (i : Nat) : String → Color :=
  if i = 0 then Function.update color node .gray else color

/-- One iteration of the loop, on a stack with this top. -/
def Search.advance (steps : List WorkflowStep) (color : String → Color) (node : String) (i : Nat)
    (rest : List (String × Nat)) : Except String Search :=
  let color := Search.enter color node i
  match (dependencies steps node)[i]? with
  | some next =>
      match color next with
      | .gray => .error ("cycle detected via " ++ node ++ " -> " ++ next)
      | .white => .ok ⟨color, (next, 0) :: (node, i + 1) :: rest⟩
      | .black => .ok ⟨color, (node, i + 1) :: rest⟩
  | none => .ok ⟨Function.update color node .black, rest⟩

/-- The loop; `none` when the fuel is used up. -/
def Search.run (steps : List WorkflowStep) : Nat → Search → Option (Except String (String → Color))
  | _, ⟨color, []⟩ => some (.ok color)
  | 0, _ => none
  | fuel + 1, ⟨color, (node, i) :: rest⟩ =>
      match Search.advance steps color node i rest with
      | .ok s => s.run steps fuel
      | .error e => some (.error e)

/-- Enough iterations for any search. -/
def searchFuel (steps : List WorkflowStep) : Nat :=
  (steps.length + 1) * (2 * (steps.flatMap WorkflowStep.dependsOn).length + 3)

/-- The searches from one step after the other. -/
def searchAll (steps : List WorkflowStep) :
    List WorkflowStep → (String → Color) → Option (Except String Unit)
  | [], _ => some (.ok ())
  | s :: rest, color =>
      if color s.id = .white then
        match Search.run steps (searchFuel steps) ⟨color, [(s.id, 0)]⟩ with
        | some (.ok color) => searchAll steps rest color
        | some (.error e) => some (.error e)
        | none => none
      else searchAll steps rest color

def duplicateId : List WorkflowStep → List String → Option String
  | [], _ => none
  | s :: rest, seen => if s.id ∈ seen then some s.id else duplicateId rest (s.id :: seen)

/-- The error of the first dependency, in order, that is the step itself or no
step at all. -/
def badDependency (steps : List WorkflowStep) : Option String :=
  steps.findSome? fun s => s.dependsOn.findSome? fun dep =>
    if dep = s.id then some ("self-dependency: " ++ s.id)
    else if dep ∉ steps.map WorkflowStep.id then
      some ("unknown dependency " ++ dep ++ " on step " ++ s.id)
    else none

def validateDag (steps : List WorkflowStep) : Option (Except String Unit) :=
  match duplicateId steps [] with
  | some id => some (.error ("duplicate step id: " ++ id))
  | none =>
      match badDependency steps with
      | some e => some (.error e)
      | none => searchAll steps steps fun _ => .white

/-! ## Plans -/

structure PlanStep where
  id : String
  prompt : String
  dependsOn : List String := []
  role : WorkflowRole := .worker
  adapter : Option String := none
  requestedNodeId : Option String := none
  retryable : Option Bool := none
  maxAttempts : Option Nat := none
deriving DecidableEq, Repr

def PlanStep.toWorkflowStep (p : PlanStep) : WorkflowStep where
  id := p.id
  prompt := p.prompt
  dependsOn := p.dependsOn
  role := p.role
  adapter := p.adapter
  requestedNodeId := p.requestedNodeId
  retryable := p.retryable
  maxAttempts := p.maxAttempts
  baseCommit := none
  expandable := some false

/-- The deserializers of the two notations of a plan. -/
structure PlanDecoder where
  json : String → Except String (List PlanStep)
  yaml : String → Except String (List PlanStep)

def PlanDecoder.decode (decoder : PlanDecoder) (plan : String) : Except String (List PlanStep) :=
  if (plan.toList.dropWhile isWhitespace).head? = some '[' then
    (decoder.json plan).mapError ("json parse: " ++ ·)
  else
    (decoder.yaml plan).mapError ("yaml parse: " ++ ·)

def parsePlanSteps (decoder : PlanDecoder) : PlanParser := fun plan => do
  if trim plan = "" then throw "plan is empty"
  let parsed ← decoder.decode plan
  if parsed.isEmpty then throw "plan declares no steps"
  let steps := parsed.map PlanStep.toWorkflowStep
  (validateDag steps).getD (throw "the search did not end")
  return steps

/-! ## Kahn's algorithm -/

inductive DagError
  | empty
  | duplicateStep (id : String)
  | missingDependency (step dependsOn : String)
  | cycle (ids : List String)
deriving DecidableEq, Repr

/-- The graph as the maps that are built from it. -/
structure Degrees where
  adj : String → List String := fun _ => []
  indeg : String → Nat := fun _ => 0

/-- `step` depends on `dep`. -/
def Degrees.link (g : Degrees) (dep step : String) : Degrees where
  adj := Function.update g.adj dep (g.adj dep ++ [step])
  indeg := Function.update g.indeg step (g.indeg step + 1)

def degrees (steps : List WorkflowStep) : Degrees :=
  steps.foldl (fun g s => s.dependsOn.foldl (fun g dep => g.link dep s.id) g) {}

/-- The queue has the entry that is popped next first. -/
structure Kahn where
  indeg : String → Nat
  queue : List String
  visited : Nat := 0

/-- A dependency of `m` was visited. -/
def relax (k : (String → Nat) × List String) (m : String) : (String → Nat) × List String :=
  let d := k.1 m - 1
  (Function.update k.1 m d, if d = 0 then m :: k.2 else k.2)

/-- The loop; there are no more iterations than steps. -/
def Kahn.run (adj : String → List String) : Nat → Kahn → Kahn
  | 0, k => k
  | fuel + 1, k =>
      match k.queue with
      | [] => k
      | n :: queue =>
          let relaxed := (adj n).foldl relax (k.indeg, queue)
          Kahn.run adj fuel ⟨relaxed.1, relaxed.2, k.visited + 1⟩

/-- `shuffle` is the order in which the map of the in-degrees is read. -/
def validateWorkflowDag (shuffle : List String → List String) (steps : List WorkflowStep) :
    Except DagError Unit :=
  if steps.isEmpty then .error .empty
  else
    match duplicateId steps [] with
    | some id => .error (.duplicateStep id)
    | none =>
        match steps.findSome? fun s => (s.dependsOn.find? fun dep =>
            dep ∉ steps.map WorkflowStep.id).map fun dep => (s.id, dep) with
        | some (step, dep) => .error (.missingDependency step dep)
        | none =>
            let g := degrees steps
            let queue := shuffle ((steps.map WorkflowStep.id).filter fun id => g.indeg id = 0)
            if (Kahn.run g.adj steps.length ⟨g.indeg, queue, 0⟩).visited ≠ steps.length then
              .error (.cycle (steps.map WorkflowStep.id))
            else .ok ()

end AgentGrid.Workflow
