import Std.Data.TreeMap
import Lox.StaticError
import Lox.Table
import Lox.Tree

/-! Resolution: for every use of a name the number of scopes between the use and the scope that
declares the name. Names that no local scope declares are left to the globals. The walk also
reports the programs that are ill scoped; it never stops at an error. -/

namespace Lox

/-- Scope distances by node identity. -/
abbrev Locals := Std.TreeMap NodeId Nat

/-- The kind of function around a statement. -/
inductive FunctionContext
  | topLevel
  | function
  | initializer
  | method
  deriving DecidableEq

/-- The kind of class around a statement. -/
inductive ClassContext
  | outside
  | plain
  | subclass
  deriving DecidableEq

structure Surroundings where
  function : FunctionContext
  enclosingClass : ClassContext

namespace Names

def this : Text := Text.ofString "this"

def super : Text := Text.ofString "super"

/-- The name of the method that initializes new instances. -/
def initializer : Text := Text.ofString "init"

end Names

/-- The walk so far. `scopes` are the local scopes around the current node, the innermost one
first; each name in them is marked with whether its initializer lies behind. -/
structure Resolver where
  scopes : List (Table Bool)
  errors : List StaticError
  locals : Locals

namespace Resolver

def report (r : Resolver) (cause : StaticCause) (name : Ident) : Resolver :=
  { r with errors := r.errors ++ [⟨cause, name.line, .at name.text⟩] }

def push (r : Resolver) (scope : Table Bool) : Resolver := { r with scopes := scope :: r.scopes }

def pop (r : Resolver) : Resolver := { r with scopes := r.scopes.tail }

/-- Enters a name into the innermost local scope, its initializer still ahead. -/
def declare (r : Resolver) (name : Ident) : Resolver :=
  match r.scopes with
  | [] => r
  | top :: outer =>
    let r := if top.contains name.text then r.report .alreadyDeclared name else r
    { r with scopes := top.insert name.text false :: outer }

/-- Marks the initializer of a name as done. -/
def define (r : Resolver) (name : Ident) : Resolver :=
  match r.scopes with
  | [] => r
  | top :: outer => { r with scopes := top.insert name.text true :: outer }

/-- How many scopes out a name is declared. -/
def distance? (scopes : List (Table Bool)) (name : Text) : Option Nat :=
  scopes.findIdx? (·.contains name)

/-- Records the distance of a name under a node, if a local scope declares it. -/
def record (r : Resolver) (id : NodeId) (name : Text) : Resolver :=
  match distance? r.scopes name with
  | none => r
  | some d => { r with locals := r.locals.insert id d }

/-- A variable is not to be read in its own initializer. -/
def use (r : Resolver) (ref : Reference) : Resolver :=
  let inInitializer := r.scopes.head?.any fun top => top.find? ref.name.text = some false
  let r := if inInitializer then r.report .readInOwnInitializer ref.name else r
  r.record ref.id ref.name.text

def useThis (r : Resolver) (around : Surroundings) (id : NodeId) (line : Nat) : Resolver :=
  match around.enclosingClass with
  | .outside => r.report .thisOutsideClass ⟨Names.this, line⟩
  | _ => r.record id Names.this

def useSuper (r : Resolver) (around : Surroundings) (id : NodeId) (line : Nat) : Resolver :=
  let r := match around.enclosingClass with
    | .outside => r.report .superOutsideClass ⟨Names.super, line⟩
    | .plain => r.report .superWithoutSuperclass ⟨Names.super, line⟩
    | .subclass => r
  r.record id Names.super

/-- A return needs a function around it, and an initializer returns no value. -/
def checkReturn (r : Resolver) (around : Surroundings) (line : Nat) (hasValue : Bool) : Resolver :=
  let keyword : Ident := ⟨Text.ofString "return", line⟩
  match around.function with
  | .topLevel => r.report .topLevelReturn keyword
  | .initializer => if hasValue then r.report .valueFromInitializer keyword else r
  | _ => r

def declareParams (r : Resolver) (params : List Ident) : Resolver :=
  params.foldl (fun r param => (r.declare param).define param) r

end Resolver

mutual

def Expr.resolve (around : Surroundings) : Expr → Resolver → Resolver
  | .literal _, r => r
  | .group inner, r => inner.resolve around r
  | .unary _ _ operand, r => operand.resolve around r
  | .binary _ _ left right, r => right.resolve around (left.resolve around r)
  | .logical _ left right, r => right.resolve around (left.resolve around r)
  | .use ref, r => r.use ref
  | .assign ref value, r => (value.resolve around r).record ref.id ref.name.text
  | .call callee arguments _, r => Expr.resolveAll around arguments (callee.resolve around r)
  | .get object _, r => object.resolve around r
  | .set object _ value, r => object.resolve around (value.resolve around r)
  | .self id line, r => r.useThis around id line
  | .superMethod id line _, r => r.useSuper around id line

def Expr.resolveAll (around : Surroundings) : List Expr → Resolver → Resolver
  | [], r => r
  | e :: rest, r => Expr.resolveAll around rest (e.resolve around r)

end

/-- The kind of function that a method's body is. -/
def methodContext (name : Ident) : FunctionContext :=
  if name.text = Names.initializer then .initializer else .method

mutual

def Stmt.resolve (around : Surroundings) : Stmt → Resolver → Resolver
  | .expression e, r => e.resolve around r
  | .print e, r => e.resolve around r
  | .declare name none, r => (r.declare name).define name
  | .declare name (some e), r => (e.resolve around (r.declare name)).define name
  | .block body, r => (Stmt.resolveAll around body (r.push [])).pop
  | .branch condition thenBranch none, r => thenBranch.resolve around (condition.resolve around r)
  | .branch condition thenBranch (some elseBranch), r =>
    elseBranch.resolve around (thenBranch.resolve around (condition.resolve around r))
  | .loop condition body, r => body.resolve around (condition.resolve around r)
  | .function decl, r =>
    decl.resolve { around with function := .function } ((r.declare decl.name).define decl.name)
  | .ret line none, r => r.checkReturn around line false
  | .ret line (some e), r => e.resolve around (r.checkReturn around line true)
  | .classDef name none methods, r =>
    let r := ((r.declare name).define name).push [(Names.this, true)]
    (FunctionDecl.resolveMethods { around with enclosingClass := .plain } methods r).pop
  | .classDef name (some superclass) methods, r =>
    let r := (r.declare name).define name
    let r := if superclass.name.text = name.text then
        r.report .inheritsFromItself superclass.name
      else r
    let r := ((r.use superclass).push [(Names.super, true)]).push [(Names.this, true)]
    (FunctionDecl.resolveMethods { around with enclosingClass := .subclass } methods r).pop.pop

def Stmt.resolveAll (around : Surroundings) : List Stmt → Resolver → Resolver
  | [], r => r
  | s :: rest, r => Stmt.resolveAll around rest (s.resolve around r)

/-- A function's parameters and body share one scope. -/
def FunctionDecl.resolve (around : Surroundings) : FunctionDecl → Resolver → Resolver
  | ⟨_, params, body⟩, r => (Stmt.resolveAll around body ((r.push []).declareParams params)).pop

def FunctionDecl.resolveMethods (around : Surroundings) : List FunctionDecl → Resolver → Resolver
  | [], r => r
  | decl :: rest, r =>
    FunctionDecl.resolveMethods around rest
      (decl.resolve { around with function := methodContext decl.name } r)

end

/-- Resolves a program at top level, adding to the distances already known. -/
def resolve (locals : Locals) (statements : List Stmt) : Resolver :=
  Stmt.resolveAll ⟨.topLevel, .outside⟩ statements ⟨[], [], locals⟩

end Lox
