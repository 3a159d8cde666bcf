import Lox.Tree.Parse

/-! Parsing with a position. The tokens are a table whose last entry is the end of the program, and a parser
looks at the entry at its position and at the one behind it. To look outside of the table stops everything. -/
namespace Lox

/-- An entry of the table: a token, or the end of the program. -/
inductive Entry
  | token (t : Token)
  | eof (line : Nat)

namespace Entry

def token? : Entry → Option Token
  | token t => some t
  | eof _ => none

def kind? (e : Entry) : Option TokenKind := e.token?.map (·.kind)

def line : Entry → Nat
  | token t => t.line
  | eof line => line

def ident : Entry → Ident
  | token t => t.ident
  | eof line => ⟨[], line⟩

end Entry

namespace Cursor

open Parse (errorAt constant? unaryOp? Joiner orOp andOp equalityOp comparisonOp termOp factorOp maxListLength
  startsStatement)

/-- A call that reads a declaration, with the positions where it starts and ends. -/
structure Call where
  start : Nat
  finish : Nat
  deriving DecidableEq

structure State where
  entries : List Entry
  current : Nat
  lastId : NodeId
  errors : List StaticError
  calls : List Call

/-- Why a parser gives up: a syntax error, a bound that is used up, or a position that is not in the table. -/
inductive Halt
  | syntaxError
  | exhausted
  | outside (position : Int)
  deriving DecidableEq

abbrev Parser := EStateM Halt State

/-- The entry at a position. -/
def entryAt (position : Int) : Parser Entry := fun c =>
  match position with
  | .ofNat i =>
    match c.entries[i]? with
    | some e => .ok e c
    | none => .error (.outside position) c
  | .negSucc _ => .error (.outside position) c

def peek : Parser Entry := do entryAt (← get).current

def previous : Parser Entry := do entryAt ((← get).current - 1)

def isAtEnd : Parser Bool := do return (← peek).token?.isNone

def check (kind : TokenKind) : Parser Bool := do
  if ← isAtEnd then pure false else return (← peek).kind? = some kind

/-- Moves on, except at the end, and returns the entry behind the position. -/
def advance : Parser Entry := do
  if !(← isAtEnd) then modify fun c => { c with current := c.current + 1 }
  previous

def reportAt (cause : StaticCause) (e : Entry) : Parser Unit :=
  modify fun c => { c with errors := c.errors ++ [errorAt cause e.line e.token?] }

def report (cause : StaticCause) : Parser Unit := do reportAt cause (← peek)

def fail {α : Type} (cause : StaticCause) : Parser α := do
  report cause
  throw .syntaxError

/-- Takes the next token if `f` has an answer for it. The answer is for the entry that is behind then. -/
def acceptBy {α : Type} (f : Token → Option α) : Parser (Option α) := do
  if ((← peek).token?.bind f).isSome then return (← advance).token?.bind f else pure none

def accept (kind : TokenKind) : Parser (Option Entry) := do
  if ← check kind then return some (← advance) else pure none

def consume (kind : TokenKind) (cause : StaticCause) : Parser Entry := do
  if ← check kind then advance else fail cause

def freshId : Parser NodeId := fun c => .ok (c.lastId + 1) { c with lastId := c.lastId + 1 }

def exhausted {α : Type} : Parser α := throw .exhausted

def checkLength (cause : StaticCause) (count : Nat) : Parser Unit :=
  if maxListLength ≤ count then report cause else pure ()

/-! Expressions. -/

def primary (inner : Parser Expr) : Parser Expr := do
  match ← acceptBy constant? with
  | some value => pure (.literal value)
  | none =>
    match (← peek).kind? with
    | some .kwSuper =>
      let keyword ← advance
      let _ ← consume .dot .expectDotAfterSuper
      let method ← consume .identifier .expectSuperMethodName
      pure (.superMethod (← freshId) keyword.line method.ident)
    | some .kwThis =>
      let keyword ← advance
      pure (.self (← freshId) keyword.line)
    | some .identifier =>
      let name ← advance
      pure (.use ⟨← freshId, name.ident⟩)
    | some .leftParen =>
      let _ ← advance
      let e ← inner
      let _ ← consume .rightParen .expectParenAfterExpression
      pure (.group e)
    | _ => fail .expectExpression

def arguments (inner : Parser Expr) : Nat → Nat → Parser (List Expr)
  | 0, _ => exhausted
  | n + 1, count => do
    checkLength .tooManyArguments count
    let e ← inner
    match ← accept .comma with
    | none => pure [e]
    | some _ =>
      let rest ← arguments inner n (count + 1)
      pure (e :: rest)

def argumentList (inner : Parser Expr) (bound : Nat) : Parser (List Expr) := do
  if ← check .rightParen then pure [] else arguments inner bound 0

def callTail (inner : Parser Expr) : Nat → Expr → Parser Expr
  | 0, _ => exhausted
  | n + 1, e => do
    match (← peek).kind? with
    | some .leftParen =>
      let _ ← advance
      let args ← argumentList inner (n + 1)
      let close ← consume .rightParen .expectParenAfterArguments
      callTail inner n (.call e args close.line)
    | some .dot =>
      let _ ← advance
      let name ← consume .identifier .expectPropertyName
      callTail inner n (.get e name.ident)
    | _ => pure e

def call (inner : Parser Expr) (bound : Nat) : Parser Expr := do
  let e ← primary inner
  callTail inner bound e

def unary (inner : Parser Expr) (bound : Nat) : Nat → Parser Expr
  | 0 => exhausted
  | n + 1 => do
    match ← acceptBy unaryOp? with
    | some (op, line) =>
      let operand ← unary inner bound n
      pure (.unary op line operand)
    | none => call inner bound

def chain (op : Joiner) (operand : Parser Expr) : Nat → Expr → Parser Expr
  | 0, _ => exhausted
  | n + 1, left => do
    match ← acceptBy op with
    | none => pure left
    | some join =>
      let right ← operand
      chain op operand n (join left right)

def level (bound : Nat) (op : Joiner) (operand : Parser Expr) : Parser Expr := do
  let left ← operand
  chain op operand bound left

def operators (inner : Parser Expr) (bound : Nat) : Parser Expr :=
  level bound orOp <| level bound andOp <| level bound equalityOp <| level bound comparisonOp <|
    level bound termOp <| level bound factorOp <| unary inner bound bound

def assignment (inner : Parser Expr) (bound : Nat) : Parser Expr := do
  let target ← operators inner bound
  match ← accept .equal with
  | none => pure target
  | some equal =>
    let value ← inner
    match target with
    | .use ref => pure (.assign ⟨← freshId, ref.name⟩ value)
    | .get object name => pure (.set object name value)
    | _ =>
      reportAt .invalidAssignmentTarget equal
      pure target

def expression : Nat → Parser Expr
  | 0 => exhausted
  | n + 1 => fun c => assignment (expression n) (n + 1) c

def expressionUnless (stop : TokenKind) (bound : Nat) : Parser (Option Expr) := do
  if ← check stop then pure none else some <$> expression bound

/-! Statements. -/

def expressionStmt (bound : Nat) : Parser Stmt := do
  let e ← expression bound
  let _ ← consume .semicolon .expectSemicolonAfterExpression
  pure (.expression e)

def initializer (bound : Nat) : Parser (Option Expr) := do
  match ← accept .equal with
  | none => pure none
  | some _ => some <$> expression bound

def variableDecl (bound : Nat) : Parser Stmt := do
  let name ← consume .identifier .expectVariableName
  let initializer ← initializer bound
  let _ ← consume .semicolon .expectSemicolonAfterVariable
  pure (.declare name.ident initializer)

def block (declaration : Parser (Option Stmt)) : Nat → Parser (List Stmt)
  | 0 => exhausted
  | n + 1 => do
    match (← peek).kind? with
    | none | some .rightBrace =>
      let _ ← consume .rightBrace .expectBraceAfterBlock
      pure []
    | some _ =>
      let s ← declaration
      let rest ← block declaration n
      pure (s.toList ++ rest)

def parameters : Nat → Nat → Parser (List Ident)
  | 0, _ => exhausted
  | n + 1, count => do
    checkLength .tooManyParameters count
    let name ← consume .identifier .expectParameterName
    match ← accept .comma with
    | none => pure [name.ident]
    | some _ =>
      let rest ← parameters n (count + 1)
      pure (name.ident :: rest)

def parameterList (bound : Nat) : Parser (List Ident) := do
  if ← check .rightParen then pure [] else parameters bound 0

def functionDecl (declaration : Parser (Option Stmt)) (bound : Nat) (kind : FunctionKind) :
    Parser FunctionDecl := do
  let name ← consume .identifier (.expectFunctionName kind)
  let _ ← consume .leftParen (.expectParenAfterFunctionName kind)
  let params ← parameterList bound
  let _ ← consume .rightParen .expectParenAfterParameters
  let _ ← consume .leftBrace (.expectBraceBeforeFunctionBody kind)
  let body ← block declaration bound
  pure ⟨name.ident, params, body⟩

def methods (declaration : Parser (Option Stmt)) (bound : Nat) : Nat → Parser (List FunctionDecl)
  | 0 => exhausted
  | n + 1 => do
    match (← peek).kind? with
    | none | some .rightBrace =>
      let _ ← consume .rightBrace .expectBraceAfterClassBody
      pure []
    | some _ =>
      let decl ← functionDecl declaration bound .method
      let rest ← methods declaration bound n
      pure (decl :: rest)

def superclass : Parser (Option Reference) := do
  match ← accept .less with
  | none => pure none
  | some _ =>
    let name ← consume .identifier .expectSuperclassName
    pure (some ⟨← freshId, name.ident⟩)

def classDecl (declaration : Parser (Option Stmt)) (bound : Nat) : Parser Stmt := do
  let name ← consume .identifier .expectClassName
  let superclass ← superclass
  let _ ← consume .leftBrace .expectBraceBeforeClassBody
  let decls ← methods declaration bound bound
  pure (.classDef name.ident superclass decls)

def forInitializer (bound : Nat) : Parser (Option Stmt) := do
  match (← peek).kind? with
  | some .semicolon =>
    let _ ← advance
    pure none
  | some .kwVar =>
    let _ ← advance
    some <$> variableDecl bound
  | _ => some <$> expressionStmt bound

def forStmt (self : Parser Stmt) (bound : Nat) : Parser Stmt := do
  let _ ← consume .leftParen .expectParenAfterFor
  let initializer ← forInitializer bound
  let condition ← expressionUnless .semicolon bound
  let _ ← consume .semicolon .expectSemicolonAfterLoopCondition
  let increment ← expressionUnless .rightParen bound
  let _ ← consume .rightParen .expectParenAfterForClauses
  let body ← self
  pure (.forLoop initializer condition increment body)

def ifStmt (self : Parser Stmt) (bound : Nat) : Parser Stmt := do
  let _ ← consume .leftParen .expectParenAfterIf
  let condition ← expression bound
  let _ ← consume .rightParen .expectParenAfterIfCondition
  let thenBranch ← self
  match ← accept .kwElse with
  | none => pure (.branch condition thenBranch none)
  | some _ =>
    let elseBranch ← self
    pure (.branch condition thenBranch (some elseBranch))

def whileStmt (self : Parser Stmt) (bound : Nat) : Parser Stmt := do
  let _ ← consume .leftParen .expectParenAfterWhile
  let condition ← expression bound
  let _ ← consume .rightParen .expectParenAfterWhileCondition
  let body ← self
  pure (.loop condition body)

def printStmt (bound : Nat) : Parser Stmt := do
  let e ← expression bound
  let _ ← consume .semicolon .expectSemicolonAfterValue
  pure (.print e)

def returnStmt (bound : Nat) (keyword : Entry) : Parser Stmt := do
  let value ← expressionUnless .semicolon bound
  let _ ← consume .semicolon .expectSemicolonAfterReturn
  pure (.ret keyword.line value)

def statementStep (self : Parser Stmt) (declaration : Parser (Option Stmt)) (bound : Nat) : Parser Stmt := do
  match (← peek).kind? with
  | some .kwFor =>
    let _ ← advance
    forStmt self bound
  | some .kwIf =>
    let _ ← advance
    ifStmt self bound
  | some .kwPrint =>
    let _ ← advance
    printStmt bound
  | some .kwReturn =>
    let keyword ← advance
    returnStmt bound keyword
  | some .kwWhile =>
    let _ ← advance
    whileStmt self bound
  | some .leftBrace =>
    let _ ← advance
    .block <$> block declaration bound
  | _ => expressionStmt bound

def declarationStep (self : Parser Stmt) (declaration : Parser (Option Stmt)) (bound : Nat) : Parser Stmt := do
  match (← peek).kind? with
  | some .kwClass =>
    let _ ← advance
    classDecl declaration bound
  | some .kwFun =>
    let _ ← advance
    .function <$> functionDecl declaration bound .function
  | some .kwVar =>
    let _ ← advance
    variableDecl bound
  | _ => statementStep self declaration bound

/-- Moves on to a place behind a semicolon or in front of a token that starts a statement. -/
def seek : Nat → Parser Unit
  | 0 => exhausted
  | n + 1 => do
    if ← isAtEnd then return
    if (← previous).kind? = some .semicolon then return
    if (← peek).kind?.any startsStatement then return
    let _ ← advance
    seek n

/-- Moves on to where the next statement can start. -/
def synchronize : Parser Unit := do
  let _ ← advance
  seek (← get).entries.length

/-- Puts a call on record that ends here. -/
def State.record (c : State) (start : Nat) : State := { c with calls := c.calls ++ [⟨start, c.current⟩] }

/-- Runs a parser as a call on record; a syntax error drops the statement and moves on to the next one. -/
def recovering (p : Parser Stmt) : Parser (Option Stmt) := fun c =>
  match p c with
  | .ok stmt d => .ok (some stmt) (d.record c.current)
  | .error .syntaxError d =>
    match synchronize d with
    | .ok _ d => .ok none (d.record c.current)
    | .error halt d => .error halt d
  | .error halt d => .error halt d

mutual

def statement : Nat → Parser Stmt
  | 0 => exhausted
  | n + 1 => fun c => statementStep (statement n) (declaration n) (n + 1) c

def declaration : Nat → Parser (Option Stmt)
  | 0 => exhausted
  | n + 1 => fun c => recovering (declarationStep (statement n) (declaration n) (n + 1)) c

end

def program : Nat → Parser (List Stmt)
  | 0 => exhausted
  | n + 1 => do
    if ← isAtEnd then pure []
    else
      let s ← declaration (n + 1)
      let rest ← program n
      pure (s.toList ++ rest)

end Cursor

/-- The tokens and, as the last entry, the end of the program. -/
def Scan.entries (scan : Scan) : List Entry := scan.tokens.map .token ++ [.eof scan.endLine]

/-- Reads tokens from the first position on. -/
def Cursor.parse (lastId : NodeId) (scan : Scan) : EStateM.Result Halt State (List Stmt) :=
  program (scan.tokens.length + 1) ⟨scan.entries, 0, lastId, [], []⟩

end Lox
