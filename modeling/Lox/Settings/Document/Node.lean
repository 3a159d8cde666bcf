import Lox.Settings.Document.Token

/-! The nodes of a document: scalars, sequences, mappings, and references to nodes with an anchor. -/

namespace Lox.Document

/-- A node, with the line on which it starts, counted from one, and with its tag if one is written. A
reference gives the number of the anchor it means; its place tells it from other references. -/
inductive Node
  | scalar (line : Nat) (tag : Option Text) (plain : Bool) (text : String)
  | sequence (line : Nat) (tag : Option Text) (items : List Node)
  | mapping (line : Nat) (tag : Option Text) (entries : List (Node × Node))
  | reference (line : Nat) (name : String) (place : Nat) (anchor : Nat)

namespace Node

def line : Node → Nat
  | scalar line .. | sequence line .. | mapping line .. | reference line .. => line

/-- A node that is not written out. -/
def empty (mark : Mark) : Node := scalar (mark.line + 1) none true ""

/-- Whether two nodes count as the same key: they are of one kind and show the same text. -/
def sameKey : Node → Node → Bool
  | scalar _ _ _ a, scalar _ _ _ b => a == b
  | reference _ a _ _, reference _ b _ _ => a == b
  | sequence .., sequence .. => true
  | mapping .., mapping .. => true
  | _, _ => false

/-- The text that a node shows as a key. -/
def keyText : Node → String
  | scalar _ _ _ text => text
  | reference _ name _ _ => name
  | sequence .. | mapping .. => ""

end Node

/-- A document: its node, if it has one, and the nodes with an anchor. -/
structure Content where
  root : Option Node
  anchored : List (Nat × Node)

end Lox.Document
