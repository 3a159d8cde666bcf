import Lox.Token.Scan
import Lox.Tree

/-! Reading tokens as statements. Each parser takes tokens from the front of the remaining ones. A
syntax error is reported at the next token and gives up the innermost declaration; reading goes on
at the next place where a statement can start, so one program can report several errors.

Parsers that call themselves take a bound on the number of remaining tokens. A call of itself
always follows at least one token, so the bound of the whole program is never used up. -/

namespace Lox.Parse

structure State where
  tokens : List Token
  endLine : Nat
  lastId : NodeId
  errors : List StaticError

/-- Why a parser gives up: a syntax error, already reported, or a bound that is used up. -/
inductive Halt
  | syntaxError
  | exhausted
  deriving DecidableEq

abbrev Parser := EStateM Halt State

/-- The error at a token, or at the end of the program. -/
def errorAt (cause : StaticCause) (endLine : Nat) : Option Token → StaticError
  | some t => ⟨cause, t.line, .at t.lexeme⟩
  | none => ⟨cause, endLine, .atEnd⟩

/-- Reports an error at the given token and goes on. -/
def reportAt (cause : StaticCause) (token : Option Token) : Parser Unit :=
  modify fun s => { s with errors := s.errors ++ [errorAt cause s.endLine token] }

def peek : Parser (Option Token) := fun s => .ok s.tokens.head? s

def peekKind : Parser (Option TokenKind) := fun s => .ok (s.tokens.head?.map (·.kind)) s

def skip : Parser Unit := modify fun s => { s with tokens := s.tokens.tail }

/-- Reports an error at the next token and goes on. -/
def report (cause : StaticCause) : Parser Unit := do reportAt cause (← peek)

/-- Reports an error at the next token and gives up. -/
def fail {α : Type} (cause : StaticCause) : Parser α := do
  report cause
  throw .syntaxError

/-- Takes the next token if `f` has an answer for it. -/
def acceptBy {α : Type} (f : Token → Option α) : Parser (Option α) := fun s =>
  match s.tokens with
  | [] => .ok none s
  | t :: rest =>
    match f t with
    | none => .ok none s
    | some a => .ok (some a) { s with tokens := rest }

def accept (kind : TokenKind) : Parser (Option Token) :=
  acceptBy fun t => if t.kind = kind then some t else none

def expect (kind : TokenKind) (cause : StaticCause) : Parser Token := do
  match ← accept kind with
  | some t => pure t
  | none => fail cause

def freshId : Parser NodeId := fun s => .ok (s.lastId + 1) { s with lastId := s.lastId + 1 }

/-- A bound that is used up. -/
def exhausted {α : Type} : Parser α := throw .exhausted

/-- The most arguments or parameters one list may have. -/
def maxListLength : Nat := 255

/-- Reports a list that already has as many members as it may have. -/
def checkLength (cause : StaticCause) (count : Nat) : Parser Unit :=
  if maxListLength ≤ count then report cause else pure ()

/-! Expressions, from the tightest binding to the loosest. `inner` reads a whole expression. -/

/-- The constant that a single token writes. -/
def constant? (t : Token) : Option Literal :=
  match t.kind with
  | .kwFalse => some (.bool false)
  | .kwTrue => some (.bool true)
  | .kwNil => some .nil
  | _ => t.literal?

def primary (inner : Parser Expr) : Parser Expr := do
  match ← peek with
  | none => fail .expectExpression
  | some t =>
    match constant? t with
    | some value =>
      skip
      pure (.literal value)
    | none =>
      match t.kind with
      | .kwSuper =>
        skip
        let _ ← expect .dot .expectDotAfterSuper
        let method ← expect .identifier .expectSuperMethodName
        pure (.superMethod (← freshId) t.line method.ident)
      | .kwThis =>
        skip
        pure (.self (← freshId) t.line)
      | .identifier =>
        skip
        pure (.use ⟨← freshId, t.ident⟩)
      | .leftParen =>
        skip
        let e ← inner
        let _ ← expect .rightParen .expectParenAfterExpression
        pure (.group e)
      | _ => fail .expectExpression

/-- Arguments up to the last one; `count` of them have been read already. -/
def arguments (inner : Parser Expr) : Nat → Nat → Parser (List Expr)
  | 0, _ => exhausted
  | n + 1, count => do
    checkLength .tooManyArguments count
    let e ← inner
    match ← accept .comma with
    | none => pure [e]
    | some _ =>
      let rest ← arguments inner n (count + 1)
      pure (e :: rest)

/-- Arguments up to the closing parenthesis. -/
def argumentList (inner : Parser Expr) (bound : Nat) : Parser (List Expr) := do
  if (← peekKind) = some .rightParen then pure [] else arguments inner bound 0

/-- The calls and property accesses that follow an expression. -/
def callTail (inner : Parser Expr) : Nat → Expr → Parser Expr
  | 0, _ => exhausted
  | n + 1, e => do
    match ← peekKind with
    | some .leftParen =>
      skip
      let args ← argumentList inner (n + 1)
      let close ← expect .rightParen .expectParenAfterArguments
      callTail inner n (.call e args close.line)
    | some .dot =>
      skip
      let name ← expect .identifier .expectPropertyName
      callTail inner n (.get e name.ident)
    | _ => pure e

def call (inner : Parser Expr) (bound : Nat) : Parser Expr := do
  let e ← primary inner
  callTail inner bound e

def unaryOp? (t : Token) : Option (UnaryOp × Nat) :=
  match t.kind with
  | .bang => some (.not, t.line)
  | .minus => some (.negate, t.line)
  | _ => none

def unary (inner : Parser Expr) (bound : Nat) : Nat → Parser Expr
  | 0 => exhausted
  | n + 1 => do
    match ← acceptBy unaryOp? with
    | some (op, line) =>
      let operand ← unary inner bound n
      pure (.unary op line operand)
    | none => call inner bound

/-- How an operator token joins its two sides. -/
abbrev Joiner := Token → Option (Expr → Expr → Expr)

def arithmetic (op : Arithmetic) (t : Token) : Option (Expr → Expr → Expr) :=
  some (.binary (.arithmetic op) t.line)

def factorOp : Joiner := fun t =>
  match t.kind with
  | .slash => arithmetic .div t
  | .star => arithmetic .mul t
  | _ => none

def termOp : Joiner := fun t =>
  match t.kind with
  | .plus => arithmetic .add t
  | .minus => arithmetic .sub t
  | _ => none

def comparisonOp : Joiner := fun t =>
  match t.kind with
  | .greater => arithmetic .greater t
  | .greaterEqual => arithmetic .greaterEqual t
  | .less => arithmetic .less t
  | .lessEqual => arithmetic .lessEqual t
  | _ => none

def equalityOp : Joiner := fun t =>
  match t.kind with
  | .equalEqual => some (.binary .equal t.line)
  | .bangEqual => some (.binary .notEqual t.line)
  | _ => none

def andOp : Joiner := fun t => if t.kind = .kwAnd then some (.logical .and) else none

def orOp : Joiner := fun t => if t.kind = .kwOr then some (.logical .or) else none

/-- Further operands, joined to the left. -/
def chain (op : Joiner) (operand : Parser Expr) : Nat → Expr → Parser Expr
  | 0, _ => exhausted
  | n + 1, left => do
    match ← acceptBy op with
    | none => pure left
    | some join =>
      let right ← operand
      chain op operand n (join left right)

/-- One or more operands with operators of one level between them. -/
def level (bound : Nat) (op : Joiner) (operand : Parser Expr) : Parser Expr := do
  let left ← operand
  chain op operand bound left

def operators (inner : Parser Expr) (bound : Nat) : Parser Expr :=
  level bound orOp <| level bound andOp <| level bound equalityOp <| level bound comparisonOp <|
    level bound termOp <| level bound factorOp <| unary inner bound bound

/-- An assignment to a variable or a property. Any other target is reported, but reading is not
disturbed by it: the target stays as the expression. -/
def assignment (inner : Parser Expr) (bound : Nat) : Parser Expr := do
  let target ← operators inner bound
  match ← accept .equal with
  | none => pure target
  | some equal =>
    let value ← inner
    match target with
    | .use ref => pure (.assign ⟨← freshId, ref.name⟩ value)
    | .get object name => pure (.set object name value)
    | _ =>
      reportAt .invalidAssignmentTarget (some equal)
      pure target

/-- An expression among fewer than the given number of tokens. -/
def expression : Nat → Parser Expr
  | 0 => exhausted
  | n + 1 => fun s => assignment (expression n) (n + 1) s

/-- An expression, unless a token of the given kind comes next. -/
def expressionUnless (stop : TokenKind) (bound : Nat) : Parser (Option Expr) := do
  if (← peekKind) = some stop then pure none else some <$> expression bound

/-! Statements. `self` reads a statement and `declaration` a declaration, both after at least one
token of the statement they belong to. -/

def expressionStmt (bound : Nat) : Parser Stmt := do
  let e ← expression bound
  let _ ← expect .semicolon .expectSemicolonAfterExpression
  pure (.expression e)

/-- The initializer of a variable, if it has one. -/
def initializer (bound : Nat) : Parser (Option Expr) := do
  match ← accept .equal with
  | none => pure none
  | some _ => some <$> expression bound

/-- A variable declaration after its keyword. -/
def variableDecl (bound : Nat) : Parser Stmt := do
  let name ← expect .identifier .expectVariableName
  let initializer ← initializer bound
  let _ ← expect .semicolon .expectSemicolonAfterVariable
  pure (.declare name.ident initializer)

/-- The statements of a block after its opening brace, and the closing brace. -/
def block (declaration : Parser (Option Stmt)) : Nat → Parser (List Stmt)
  | 0 => exhausted
  | n + 1 => do
    match ← peekKind with
    | none | some .rightBrace =>
      let _ ← expect .rightBrace .expectBraceAfterBlock
      pure []
    | some _ =>
      let s ← declaration
      let rest ← block declaration n
      pure (s.toList ++ rest)

/-- Parameters up to the last one; `count` of them have been read already. -/
def parameters : Nat → Nat → Parser (List Ident)
  | 0, _ => exhausted
  | n + 1, count => do
    checkLength .tooManyParameters count
    let name ← expect .identifier .expectParameterName
    match ← accept .comma with
    | none => pure [name.ident]
    | some _ =>
      let rest ← parameters n (count + 1)
      pure (name.ident :: rest)

/-- Parameters up to the closing parenthesis. -/
def parameterList (bound : Nat) : Parser (List Ident) := do
  if (← peekKind) = some .rightParen then pure [] else parameters bound 0

/-- A function or method from its name on. -/
def functionDecl (declaration : Parser (Option Stmt)) (bound : Nat) (kind : FunctionKind) :
    Parser FunctionDecl := do
  let name ← expect .identifier (.expectFunctionName kind)
  let _ ← expect .leftParen (.expectParenAfterFunctionName kind)
  let params ← parameterList bound
  let _ ← expect .rightParen .expectParenAfterParameters
  let _ ← expect .leftBrace (.expectBraceBeforeFunctionBody kind)
  let body ← block declaration bound
  pure ⟨name.ident, params, body⟩

/-- The methods of a class after its opening brace, and the closing brace. -/
def methods (declaration : Parser (Option Stmt)) (bound : Nat) : Nat → Parser (List FunctionDecl)
  | 0 => exhausted
  | n + 1 => do
    match ← peekKind with
    | none | some .rightBrace =>
      let _ ← expect .rightBrace .expectBraceAfterClassBody
      pure []
    | some _ =>
      let decl ← functionDecl declaration bound .method
      let rest ← methods declaration bound n
      pure (decl :: rest)

/-- The superclass of a class, if it names one. -/
def superclass : Parser (Option Reference) := do
  match ← accept .less with
  | none => pure none
  | some _ =>
    let name ← expect .identifier .expectSuperclassName
    pure (some ⟨← freshId, name.ident⟩)

/-- A class declaration after its keyword. -/
def classDecl (declaration : Parser (Option Stmt)) (bound : Nat) : Parser Stmt := do
  let name ← expect .identifier .expectClassName
  let superclass ← superclass
  let _ ← expect .leftBrace .expectBraceBeforeClassBody
  let decls ← methods declaration bound bound
  pure (.classDef name.ident superclass decls)

/-- The first clause of a `for` statement, with its semicolon. -/
def forInitializer (bound : Nat) : Parser (Option Stmt) := do
  match ← peekKind with
  | some .semicolon =>
    skip
    pure none
  | some .kwVar =>
    skip
    some <$> variableDecl bound
  | _ => some <$> expressionStmt bound

/-- A `for` statement after its keyword. -/
def forStmt (self : Parser Stmt) (bound : Nat) : Parser Stmt := do
  let _ ← expect .leftParen .expectParenAfterFor
  let initializer ← forInitializer bound
  let condition ← expressionUnless .semicolon bound
  let _ ← expect .semicolon .expectSemicolonAfterLoopCondition
  let increment ← expressionUnless .rightParen bound
  let _ ← expect .rightParen .expectParenAfterForClauses
  let body ← self
  pure (.forLoop initializer condition increment body)

/-- An `if` statement after its keyword; an `else` belongs to the nearest `if`. -/
def ifStmt (self : Parser Stmt) (bound : Nat) : Parser Stmt := do
  let _ ← expect .leftParen .expectParenAfterIf
  let condition ← expression bound
  let _ ← expect .rightParen .expectParenAfterIfCondition
  let thenBranch ← self
  match ← accept .kwElse with
  | none => pure (.branch condition thenBranch none)
  | some _ =>
    let elseBranch ← self
    pure (.branch condition thenBranch (some elseBranch))

/-- A `while` statement after its keyword. -/
def whileStmt (self : Parser Stmt) (bound : Nat) : Parser Stmt := do
  let _ ← expect .leftParen .expectParenAfterWhile
  let condition ← expression bound
  let _ ← expect .rightParen .expectParenAfterWhileCondition
  let body ← self
  pure (.loop condition body)

/-- A `print` statement after its keyword. -/
def printStmt (bound : Nat) : Parser Stmt := do
  let e ← expression bound
  let _ ← expect .semicolon .expectSemicolonAfterValue
  pure (.print e)

/-- A `return` statement after its keyword, which is on the given line. -/
def returnStmt (bound : Nat) (line : Nat) : Parser Stmt := do
  let value ← expressionUnless .semicolon bound
  let _ ← expect .semicolon .expectSemicolonAfterReturn
  pure (.ret line value)

def statementStep (self : Parser Stmt) (declaration : Parser (Option Stmt)) (bound : Nat) :
    Parser Stmt := do
  match ← peek with
  | none => expressionStmt bound
  | some t =>
    match t.kind with
    | .kwFor =>
      skip
      forStmt self bound
    | .kwIf =>
      skip
      ifStmt self bound
    | .kwPrint =>
      skip
      printStmt bound
    | .kwReturn =>
      skip
      returnStmt bound t.line
    | .kwWhile =>
      skip
      whileStmt self bound
    | .leftBrace =>
      skip
      .block <$> block declaration bound
    | _ => expressionStmt bound

def declarationStep (self : Parser Stmt) (declaration : Parser (Option Stmt)) (bound : Nat) :
    Parser Stmt := do
  match ← peekKind with
  | some .kwClass =>
    skip
    classDecl declaration bound
  | some .kwFun =>
    skip
    .function <$> functionDecl declaration bound .function
  | some .kwVar =>
    skip
    variableDecl bound
  | _ => statementStep self declaration bound

/-- The kinds of tokens that start a statement or a declaration. -/
def startsStatement : TokenKind → Bool
  | .kwClass | .kwFun | .kwVar | .kwFor | .kwIf | .kwWhile | .kwPrint | .kwReturn => true
  | _ => false

/-- Drops at least one token, up to a semicolon or in front of a token that starts a statement. -/
def synchronize : List Token → List Token
  | [] => []
  | t :: rest =>
    if t.kind = .semicolon ∨ rest.head?.any (fun next => startsStatement next.kind) then rest
    else synchronize rest

/-- Runs a parser; a syntax error drops the statement and moves on to the next one. -/
def recovering (p : Parser Stmt) : Parser (Option Stmt) := fun s =>
  match p s with
  | .ok stmt s => .ok (some stmt) s
  | .error .syntaxError s => .ok none { s with tokens := synchronize s.tokens }
  | .error .exhausted s => .error .exhausted s

mutual

/-- A statement among fewer than the given number of tokens. -/
def statement : Nat → Parser Stmt
  | 0 => exhausted
  | n + 1 => fun s => statementStep (statement n) (declaration n) (n + 1) s

/-- A declaration among fewer than the given number of tokens, or nothing after a syntax error. -/
def declaration : Nat → Parser (Option Stmt)
  | 0 => exhausted
  | n + 1 => fun s => recovering (declarationStep (statement n) (declaration n) (n + 1)) s

end

/-- All declarations up to the end of the tokens. -/
def program : Nat → Parser (List Stmt)
  | 0 => exhausted
  | n + 1 => do
    match ← peek with
    | none => pure []
    | some _ =>
      let s ← declaration (n + 1)
      let rest ← program n
      pure (s.toList ++ rest)

end Parse

/-- The result of reading tokens: the statements that could be read, the syntax errors and the last
node identity handed out. -/
structure Parsed where
  statements : List Stmt
  errors : List StaticError
  lastId : NodeId

/-- Reads tokens as a program; node identities count on from `lastId`. -/
def parse (lastId : NodeId) (scan : Scan) : Parsed :=
  match Parse.program (scan.tokens.length + 1) ⟨scan.tokens, scan.endLine, lastId, []⟩ with
  | .ok statements s => ⟨statements, s.errors, s.lastId⟩
  | .error _ s => ⟨[], s.errors, s.lastId⟩

end Lox
