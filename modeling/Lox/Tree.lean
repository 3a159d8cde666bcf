import Lox.Token

/-! The tree of a program: expressions, statements and function declarations. Nodes carry the line
they are blamed on and, where they name a variable, the identity under which its scope distance is
recorded. -/

namespace Lox

/-- The identity of a node that names a variable; identities count up from one. -/
abbrev NodeId := Nat

/-- A name as it stands in the program, with its line. -/
structure Ident where
  text : Text
  line : Nat
  deriving DecidableEq

def Token.ident (t : Token) : Ident := ⟨t.lexeme, t.line⟩

/-- A use of a variable: the identity of the node and the name it uses. -/
structure Reference where
  id : NodeId
  name : Ident
  deriving DecidableEq

/-- The operators on two values that are not defined for all values. -/
inductive Arithmetic
  | add | sub | mul | div | less | lessEqual | greater | greaterEqual
  deriving DecidableEq, Repr

inductive BinaryOp
  | equal
  | notEqual
  | arithmetic (op : Arithmetic)
  deriving DecidableEq, Repr

inductive UnaryOp
  | not
  | negate
  deriving DecidableEq, Repr

inductive LogicalOp
  | and
  | or
  deriving DecidableEq, Repr

def BinaryOp.symbol : BinaryOp → Text
  | equal => Text.ofString "=="
  | notEqual => Text.ofString "!="
  | arithmetic .add => Text.ofString "+"
  | arithmetic .sub => Text.ofString "-"
  | arithmetic .mul => Text.ofString "*"
  | arithmetic .div => Text.ofString "/"
  | arithmetic .less => Text.ofString "<"
  | arithmetic .lessEqual => Text.ofString "<="
  | arithmetic .greater => Text.ofString ">"
  | arithmetic .greaterEqual => Text.ofString ">="

def UnaryOp.symbol : UnaryOp → Text
  | not => Text.ofString "!"
  | negate => Text.ofString "-"

def LogicalOp.symbol : LogicalOp → Text
  | and => Text.ofString "and"
  | or => Text.ofString "or"

inductive Expr
  | literal (value : Literal)
  | group (inner : Expr)
  | unary (op : UnaryOp) (line : Nat) (operand : Expr)
  | binary (op : BinaryOp) (line : Nat) (left right : Expr)
  | logical (op : LogicalOp) (left right : Expr)
  | use (ref : Reference)
  | assign (ref : Reference) (value : Expr)
  | call (callee : Expr) (arguments : List Expr) (line : Nat)
  | get (object : Expr) (name : Ident)
  | set (object : Expr) (name : Ident) (value : Expr)
  | self (id : NodeId) (line : Nat)
  | superMethod (id : NodeId) (line : Nat) (method : Ident)
  deriving Inhabited

mutual

inductive Stmt
  | expression (e : Expr)
  | print (e : Expr)
  | declare (name : Ident) (initializer : Option Expr)
  | block (body : List Stmt)
  | branch (condition : Expr) (thenBranch : Stmt) (elseBranch : Option Stmt)
  | loop (condition : Expr) (body : Stmt)
  | function (decl : FunctionDecl)
  | ret (line : Nat) (value : Option Expr)
  | classDef (name : Ident) (superclass : Option Reference) (methods : List FunctionDecl)

structure FunctionDecl where
  name : Ident
  params : List Ident
  body : List Stmt

end

instance : Inhabited Stmt := ⟨.block []⟩

instance : Inhabited FunctionDecl := ⟨⟨⟨[], 0⟩, [], []⟩⟩

/-- The tree of a `for` statement. The increment follows the body in a block of its own, a missing
condition is true, and the initializer stands in a block around the whole loop. -/
def Stmt.forLoop (initializer : Option Stmt) (condition increment : Option Expr) (body : Stmt) : Stmt :=
  let round := match increment with
    | none => body
    | some step => .block [body, .expression step]
  let repeated := .loop (condition.getD (.literal (.bool true))) round
  match initializer with
  | none => repeated
  | some first => .block [first, repeated]

end Lox
