import Lifter.Statement

/-!
# Statement trees

Pseudocode under construction. A linear node collects statements and may be continued by another
node; a conditional node tests and has two branches. Nodes are named in the order in which they are
made, and a continuation is written once, so that exploration, which fills many branches at the
same time, can build a tree node by node.

* `Node`, `StatementTree`: nodes by name.
* `StatementTree.addLinear`, `StatementTree.addConditional`: new nodes.
* `StatementTree.append`, `StatementTree.continueWith`: filling a linear node.
* `StatementTree.lines`: the subtree at a node as indented lines.
-/

namespace Lifter

/-- The name of a node. -/
structure NodeId where
  /-- How many nodes were made before it. -/
  index : Nat
  deriving DecidableEq

/-- The written name of a node. -/
def NodeId.name (id : NodeId) : String := "n" ++ Text.decimal id.index

/-- A node with statements of type `σ` and tests of type `τ`. -/
inductive Node (σ τ : Type) where
  /-- Straight-line statements, and what follows them. -/
  | linear (statements : Array σ) (next : Option NodeId)
  /-- Two branches. -/
  | conditional (test : τ) (consequent alternate : NodeId)

/-- Nodes by name. -/
structure StatementTree (σ τ : Type) where
  /-- The nodes in the order of their names. -/
  nodes : Array (Node σ τ)

/-- Why a node cannot be filled. -/
inductive TreeError where
  | continuationAlreadySet (node : NodeId)
  | notLinear (node : NodeId)
  deriving DecidableEq

/-- The wording of a failure to fill a node. -/
def TreeError.message : TreeError → String
  | .continuationAlreadySet node => "continuation of node " ++ node.name ++ " is already set"
  | .notLinear node => "node " ++ node.name ++ " is not a linear node"

namespace StatementTree

variable {σ τ : Type}

/-- The tree without nodes. -/
def empty : StatementTree σ τ := ⟨#[]⟩

/-- The number of nodes. -/
def size (tree : StatementTree σ τ) : Nat := tree.nodes.size

/-- The node of a given name. -/
def node? (tree : StatementTree σ τ) (id : NodeId) : Option (Node σ τ) := tree.nodes[id.index]?

/-! ## Making and filling nodes -/

/-- Add a node and give its name. -/
def add (tree : StatementTree σ τ) (node : Node σ τ) : NodeId × StatementTree σ τ :=
  (⟨tree.size⟩, ⟨tree.nodes.push node⟩)

/-- Add a linear node without statements. -/
def addLinear (tree : StatementTree σ τ) : NodeId × StatementTree σ τ := tree.add (.linear #[] none)

/-- Add a node that branches to two nodes. -/
def addConditional (tree : StatementTree σ τ) (test : τ) (consequent alternate : NodeId) :
    NodeId × StatementTree σ τ :=
  tree.add (.conditional test consequent alternate)

/-- Replace the node of a given name. -/
def replace (tree : StatementTree σ τ) (id : NodeId) (node : Node σ τ) : StatementTree σ τ :=
  ⟨tree.nodes.setIfInBounds id.index node⟩

/-- Put a statement at the end of a linear node. -/
def append (tree : StatementTree σ τ) (id : NodeId) (statement : σ) :
    Except TreeError (StatementTree σ τ) :=
  match tree.node? id with
  | some (.linear statements next) =>
    .ok (tree.replace id (.linear (statements.push statement) next))
  | _ => .error (.notLinear id)

/-- Put statements at the end of a linear node, one after the other. -/
def appendAll (tree : StatementTree σ τ) (id : NodeId) :
    List σ → Except TreeError (StatementTree σ τ)
  | [] => .ok tree
  | statement :: rest => do
    let tree ← tree.append id statement
    tree.appendAll id rest

/-- Say what follows a linear node; this can be said once. -/
def continueWith (tree : StatementTree σ τ) (id target : NodeId) :
    Except TreeError (StatementTree σ τ) :=
  match tree.node? id with
  | some (.linear statements none) => .ok (tree.replace id (.linear statements (some target)))
  | some (.linear _ (some _)) => .error (.continuationAlreadySet id)
  | _ => .error (.notLinear id)

/-! ## Reading a tree -/

/-- The lines of a branch, one level deeper. -/
def indent (lines : List String) : List String := lines.map ("\t" ++ ·)

/-- The lines of a conditional with the given branches. -/
def conditionalLines (test : String) (consequent alternate : List String) : List String :=
  ("if (" ++ test ++ ") \x7b") :: indent consequent ++
    "\x7d else \x7b" :: indent alternate ++ ["\x7d"]

/-- The lines of the subtree at a node, as far as `depth` nodes deep. -/
def linesWithin [Spelled σ] [Spelled τ] (tree : StatementTree σ τ) :
    (depth : Nat) → NodeId → List String
  | 0, _ => []
  | depth + 1, id =>
    match tree.node? id with
    | none => []
    | some (.linear statements next) =>
      statements.toList.map Spelled.text ++
        match next with
        | some next => tree.linesWithin depth next
        | none => []
    | some (.conditional test consequent alternate) =>
      conditionalLines (Spelled.text test) (tree.linesWithin depth consequent)
        (tree.linesWithin depth alternate)

/-- The lines of the subtree at a node. In a tree no way down is longer than the number of nodes. -/
def lines [Spelled σ] [Spelled τ] (tree : StatementTree σ τ) (id : NodeId) : List String :=
  tree.linesWithin tree.size id

/-- The nodes of the subtree at a node, each before what follows it and a consequent before its
alternate, as far as `depth` nodes deep. -/
def descendWithin (tree : StatementTree σ τ) : (depth : Nat) → NodeId → List (NodeId × Node σ τ)
  | 0, _ => []
  | depth + 1, id =>
    match tree.node? id with
    | none => []
    | some node =>
      (id, node) ::
        match node with
        | .linear _ (some next) => tree.descendWithin depth next
        | .linear _ none => []
        | .conditional _ consequent alternate =>
          tree.descendWithin depth consequent ++ tree.descendWithin depth alternate

/-- The nodes of the subtree at a node, depth first. -/
def descend (tree : StatementTree σ τ) (id : NodeId) : List (NodeId × Node σ τ) :=
  tree.descendWithin tree.size id

end StatementTree

end Lifter
