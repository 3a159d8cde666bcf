import Lox.Text.Case
import Lox.Text.Space

/-! Declarations of tree node types as program text. A family of node types has an interface, a
visitor with a method for each type, and a structure for each type that accepts the visitor. -/

namespace Lox

/-- The families of nodes of a program's tree. -/
inductive NodeFamily
  | expr
  | stmt
  deriving DecidableEq, Repr

namespace NodeFamily

def name : NodeFamily → String
  | expr => "Expr"
  | stmt => "Stmt"

def ofName? (text : Text) : Option NodeFamily :=
  [expr, stmt].find? fun family => text = Text.ofString family.name

/-- The types of a family: a name, a colon and the fields with commas between them. -/
def definitions : NodeFamily → List String
  | expr =>
    ["Assign: id int, name *token, value expr",
      "Binary: left expr, operator *token, right expr",
      "Call: callee expr, paren *token, arguments []expr",
      "Get: object expr, name *token",
      "Grouping: expression expr",
      "Literal: value interface\x7b\x7d",
      "Logical: left expr, operator *token, right expr",
      "Set: object expr, name *token, value expr",
      "Super: id int, keyword *token, method *token",
      "This: id int, keyword *token",
      "Unary: operator *token, right expr",
      "Variable: id int, name *token"]
  | stmt =>
    ["Block: stmts []stmt",
      "Class: name *token, superclass *variableExpr, methods []*functionStmt",
      "Expression: expression expr",
      "Function: name *token, params []*token, body []stmt",
      "If: condition expr, thenBranch stmt, elseBranch stmt",
      "Print: expression expr",
      "Return: keyword *token, value expr",
      "Var: name *token, initializer expr",
      "While: condition expr, body stmt"]

end NodeFamily

structure NodeType where
  name : Text
  fields : List Text
  deriving DecidableEq

namespace NodeType

/-- The fields in a list with commas. -/
def fieldsOf (text : Text) : List Text := (text.splitOn ','.toUInt8).map Text.trim

/-- Reads a definition; one without a colon is none. What follows a second colon does not count. -/
def ofDefinition? (text : Text) : Option NodeType :=
  match text.splitOn ':'.toUInt8 with
  | name :: fields :: _ => some ⟨Text.trim name, fieldsOf (Text.trim fields)⟩
  | _ => none

/-- The first byte of a name in lower case, as the character with that code. -/
def lowerFirst (b : UInt8) : Text := Text.ofChar (lowerChar (Char.ofNat b.toNat))

/-- The name of the structure of a node type; a type without a name has none. -/
def structName? (base name : Text) : Option Text :=
  match name with
  | [] => none
  | first :: rest => some (lowerFirst first ++ rest ++ base)

end NodeType

/-! Declarations. -/

namespace Declaration

private def words (parts : List Text) : Text := parts.flatten

private def str (s : String) : Text := Text.ofString s

/-- A declaration with a body of lines in braces. -/
def block (head : Text) (body : List Text) : Text :=
  Text.unlines <|
    [words [head, str " \x7b"]] ++ body.map (fun line => str "\t" ++ line) ++ [str "\x7d"]

def visitorName (base : Text) : Text := base.lowercase ++ str "Visitor"

def package : Text := str "package internal\n"

/-- The interface of the nodes of a family. -/
def nodeInterface (base : Text) : Text :=
  block (words [str "type ", base.lowercase, str " interface"])
    [words [str "accept(", visitorName base, str ") R"]]

def visitMethod? (base name : Text) : Option Text :=
  (NodeType.structName? base name).map fun structName =>
    words [str "visit", name, base, str "(", base.lowercase, str " *", structName, str ") R"]

/-- The visitor of a family. -/
def visitor? (base : Text) (names : List Text) : Option Text :=
  (names.mapM (visitMethod? base)).map <|
    block (words [str "type ", visitorName base, str " interface"])

/-- A way to lay out the fields of a structure. -/
abbrev Layout := List Text → List Text

/-- The structure of a node type and the method that accepts the visitor. -/
def node? (layout : Layout) (base : Text) (type : NodeType) : Option (List Text) :=
  (NodeType.structName? base type.name).map fun structName =>
    [block (words [str "type ", structName, str " struct"]) (layout type.fields),
      block (words [str "func (s *", structName, str ") accept(visitor ", visitorName base, str ") R"])
        [words [str "return visitor.visit", type.name, base, str "(s)"]]]

/-- All declarations of a family, unless a definition has no colon or no name. -/
def family? (layout : Layout) (base : Text) (definitions : List Text) : Option (List Text) := do
  let types ← definitions.mapM NodeType.ofDefinition?
  let visitor ← visitor? base (types.map (·.name))
  let nodes ← types.mapM (node? layout base)
  pure ([package, nodeInterface base, visitor] ++ nodes.flatten)

/-- Declarations, each with a blank line after it. -/
def spread (declarations : List Text) : Text := (declarations.map (· ++ [Text.newline])).flatten

/-- Declarations with blank lines between them. -/
def joined (declarations : List Text) : Text := [Text.newline].intercalate declarations

/-- The name of a field and its type. -/
def splitField (field : Text) : Text × Text :=
  (field.takeWhile (· ≠ ' '.toUInt8), (field.dropWhile (· ≠ ' '.toUInt8)).drop 1)

/-- Fields with their types in one column. -/
def aligned : Layout := fun fields =>
  let parts := fields.map splitField
  let width := (parts.map (·.1.length)).foldl max 0
  parts.map fun (name, type) =>
    name ++ List.replicate (width + 1 - name.length) ' '.toUInt8 ++ type

/-- The declarations of a family from its definitions, fields as they are given. -/
def familyText? (base : Text) (definitions : List Text) : Option Text :=
  (family? id base definitions).map spread

/-- The declarations of one node type. -/
def nodeText? (base name fields : Text) : Option Text :=
  (node? id base ⟨name, NodeType.fieldsOf fields⟩).map spread

end Declaration

/-- The program text that declares a family, in its usual layout. -/
def NodeFamily.text? (family : NodeFamily) : Option Text :=
  (Declaration.family? Declaration.aligned (Text.ofString family.name)
    (family.definitions.map Text.ofString)).map Declaration.joined

end Lox
