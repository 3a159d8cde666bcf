import Lox.Tree

/-! The text of a tree: every node is a parenthesized list that starts with the node's word or
operator, one statement per line. -/

namespace Lox

/-- Parts between parentheses, separated by single spaces. -/
def parenthesized (parts : List Text) : Text :=
  Text.ofString "(" ++ (Text.ofString " ").intercalate parts ++ Text.ofString ")"

/-- A constant in a tree: strings keep their quotes. -/
def Literal.source : Literal → Text
  | string s => Text.ofString "\"" ++ s ++ Text.ofString "\""
  | other => other.text

mutual

def Expr.text : Expr → Text
  | .literal value => value.source
  | .group inner => parenthesized [Text.ofString "group", inner.text]
  | .unary op _ operand => parenthesized [op.symbol, operand.text]
  | .binary op _ left right => parenthesized [op.symbol, left.text, right.text]
  | .logical op left right => parenthesized [op.symbol, left.text, right.text]
  | .use ref => ref.name.text
  | .assign ref value => parenthesized [Text.ofString "=", ref.name.text, value.text]
  | .call callee arguments _ =>
    parenthesized (Text.ofString "call" :: callee.text :: Expr.texts arguments)
  | .get object name => parenthesized [Text.ofString ".", object.text, name.text]
  | .set object name value =>
    parenthesized [Text.ofString "=",
      parenthesized [Text.ofString ".", object.text, name.text], value.text]
  | .self _ _ => Text.ofString "this"
  | .superMethod _ _ method => parenthesized [Text.ofString "super", method.text]

def Expr.texts : List Expr → List Text
  | [] => []
  | e :: rest => e.text :: Expr.texts rest

end

/-- The parameters of a function between parentheses. -/
def parameterList (params : List Ident) : Text :=
  Text.ofString "(" ++ (Text.ofString ", ").intercalate (params.map (·.text)) ++ Text.ofString ")"

mutual

def Stmt.text : Stmt → Text
  | .expression e => e.text
  | .print e => parenthesized [Text.ofString "print", e.text]
  | .declare name none => parenthesized [Text.ofString "var", name.text]
  | .declare name (some e) => parenthesized [Text.ofString "var", name.text, e.text]
  | .block body => parenthesized (Text.ofString "scope" :: Stmt.texts body)
  | .branch condition thenBranch none =>
    parenthesized [Text.ofString "if", condition.text, thenBranch.text]
  | .branch condition thenBranch (some elseBranch) =>
    parenthesized [Text.ofString "if", condition.text, thenBranch.text, elseBranch.text]
  | .loop condition body => parenthesized [Text.ofString "while", condition.text, body.text]
  | .function decl => decl.text
  | .ret _ none => parenthesized [Text.ofString "return"]
  | .ret _ (some e) => parenthesized [Text.ofString "return", e.text]
  | .classDef name none methods =>
    parenthesized (Text.ofString "class" :: name.text :: FunctionDecl.texts methods)
  | .classDef name (some superclass) methods =>
    parenthesized (Text.ofString "class" :: name.text :: Text.ofString "<" ::
      superclass.name.text :: FunctionDecl.texts methods)

def Stmt.texts : List Stmt → List Text
  | [] => []
  | s :: rest => s.text :: Stmt.texts rest

def FunctionDecl.text : FunctionDecl → Text
  | ⟨name, params, body⟩ =>
    parenthesized (Text.ofString "fun" :: name.text :: parameterList params :: Stmt.texts body)

def FunctionDecl.texts : List FunctionDecl → List Text
  | [] => []
  | decl :: rest => decl.text :: FunctionDecl.texts rest

end

/-- The text of a whole program. -/
def treeText (statements : List Stmt) : Text := Text.unlines (Stmt.texts statements)

end Lox
