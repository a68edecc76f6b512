import SourceEdit.Yaml.Token

/-!
# Nodes

A document is a tree of scalars, sequences and mappings. Nodes may be anchored and referred to
elsewhere in the document; references stay in the tree and are looked up when they are needed.
-/

namespace SourceEdit.Yaml

/-- The properties of a node: the number of its anchor, and its tag. -/
structure Properties where
  anchor : Option Nat := none
  tag : Option String := none
  deriving Repr, DecidableEq, Inhabited

inductive Node where
  | scalar (props : Properties) (style : Style) (text : String)
  | sequence (props : Properties) (items : List Node)
  | mapping (props : Properties) (entries : List (Node × Node))
  /-- A reference to the node with an anchor number. -/
  | alias (anchor : Nat)
  deriving Repr, Inhabited

/-- A document: its tree, or none for a text without any document, and the nodes by anchor. -/
structure Document where
  root : Option Node
  anchored : List (Nat × Node) := []
  deriving Repr, Inhabited

namespace Node

mutual

/-- The anchored nodes of a tree, in the order in which they start. -/
def anchors : Node → List (Nat × Node)
  | .scalar props style text => match props.anchor with
    | some n => [(n, .scalar props style text)]
    | none => []
  | .sequence props items => match props.anchor with
    | some n => (n, .sequence props items) :: anchorsOfItems items
    | none => anchorsOfItems items
  | .mapping props entries => match props.anchor with
    | some n => (n, .mapping props entries) :: anchorsOfEntries entries
    | none => anchorsOfEntries entries
  | .alias _ => []

def anchorsOfItems : List Node → List (Nat × Node)
  | [] => []
  | n :: ns => anchors n ++ anchorsOfItems ns

def anchorsOfEntries : List (Node × Node) → List (Nat × Node)
  | [] => []
  | (k, v) :: es => anchors k ++ anchors v ++ anchorsOfEntries es

end

/-- An empty plain scalar, which stands for a node that is left out. -/
def missing (props : Properties := {}) : Node := .scalar props .plain ""

end Node

/-- The document of a tree. Of several nodes under one anchor number, the last counts. -/
def Document.ofRoot (root : Node) : Document :=
  { root := some root, anchored := root.anchors.reverse }

/-- The node that a node stands for: an alias stands for the node with its anchor. -/
def Document.deref (d : Document) : Node → Node
  | .alias n => ((d.anchored.find? (·.1 == n)).map (·.2)).getD .missing
  | n => n

end SourceEdit.Yaml
