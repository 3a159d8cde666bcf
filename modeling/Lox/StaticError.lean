import Lox.Token

/-! Static errors: what is wrong with a program before it runs. Each error has a cause, a line and
the place it points at; the wording is given once, by `StaticCause.message`. -/

namespace Lox

/-- What a function declaration is called in messages. -/
inductive FunctionKind
  | function
  | method
  deriving DecidableEq, Repr

def FunctionKind.word : FunctionKind → String
  | function => "function"
  | method => "method"

/-- The causes of static errors: of reading tokens, of reading statements, and of scoping. -/
inductive StaticCause
  | unexpectedCharacter
  | unterminatedString
  | expectExpression
  | invalidAssignmentTarget
  | tooManyArguments
  | tooManyParameters
  | expectVariableName
  | expectParameterName
  | expectClassName
  | expectSuperclassName
  | expectPropertyName
  | expectDotAfterSuper
  | expectSuperMethodName
  | expectParenAfterExpression
  | expectParenAfterArguments
  | expectParenAfterParameters
  | expectBraceAfterBlock
  | expectBraceBeforeClassBody
  | expectBraceAfterClassBody
  | expectSemicolonAfterValue
  | expectSemicolonAfterExpression
  | expectSemicolonAfterVariable
  | expectSemicolonAfterReturn
  | expectSemicolonAfterLoopCondition
  | expectParenAfterIf
  | expectParenAfterIfCondition
  | expectParenAfterWhile
  | expectParenAfterWhileCondition
  | expectParenAfterFor
  | expectParenAfterForClauses
  | expectFunctionName (kind : FunctionKind)
  | expectParenAfterFunctionName (kind : FunctionKind)
  | expectBraceBeforeFunctionBody (kind : FunctionKind)
  | readInOwnInitializer
  | alreadyDeclared
  | topLevelReturn
  | valueFromInitializer
  | thisOutsideClass
  | superOutsideClass
  | superWithoutSuperclass
  | inheritsFromItself
  deriving DecidableEq, Repr

def StaticCause.message : StaticCause → String
  | unexpectedCharacter => "Unexpected character."
  | unterminatedString => "Unterminated string."
  | expectExpression => "Expect expression."
  | invalidAssignmentTarget => "Invalid assignment target."
  | tooManyArguments => "Can't have more than 255 arguments."
  | tooManyParameters => "Can't have more than 255 parameters."
  | expectVariableName => "Expect variable name."
  | expectParameterName => "Expect parameter name."
  | expectClassName => "Expect class name."
  | expectSuperclassName => "Expect superclass name."
  | expectPropertyName => "Expect property name after '.'."
  | expectDotAfterSuper => "Expect '.' after 'super'."
  | expectSuperMethodName => "Expect superclass method name."
  | expectParenAfterExpression => "Expect ')' after expression."
  | expectParenAfterArguments => "Expect ')' after arguments."
  | expectParenAfterParameters => "Expect ')' after parameters."
  | expectBraceAfterBlock => "Expect '\x7d' after block."
  | expectBraceBeforeClassBody => "Expect '\x7b' before class body."
  | expectBraceAfterClassBody => "Expect '\x7d' after class body."
  | expectSemicolonAfterValue => "Expect ';' after value."
  | expectSemicolonAfterExpression => "Expect ';' after expression."
  | expectSemicolonAfterVariable => "Expect ';' after variable declaration."
  | expectSemicolonAfterReturn => "Expect ';' after return value."
  | expectSemicolonAfterLoopCondition => "Expect ';' after loop condition."
  | expectParenAfterIf => "Expect '(' after 'if'."
  | expectParenAfterIfCondition => "Expect ')' after if condition."
  | expectParenAfterWhile => "Expect '(' after 'while'."
  | expectParenAfterWhileCondition => "Expect ')' after condition."
  | expectParenAfterFor => "Expect '(' after 'for'."
  | expectParenAfterForClauses => "Expect ')' after for clauses."
  | expectFunctionName kind => "Expect " ++ kind.word ++ " name."
  | expectParenAfterFunctionName kind => "Expect '(' after " ++ kind.word ++ " name."
  | expectBraceBeforeFunctionBody kind => "Expect '\x7b' before " ++ kind.word ++ " body."
  | readInOwnInitializer => "Can't read local variable in its own initializer."
  | alreadyDeclared => "Already a variable with this name in this scope."
  | topLevelReturn => "Can't return from top-level code."
  | valueFromInitializer => "Can't return a value from an initializer."
  | thisOutsideClass => "Can't use 'this' outside of a class."
  | superOutsideClass => "Can't use 'super' outside of a class."
  | superWithoutSuperclass => "Can't use 'super' in a class with no superclass."
  | inheritsFromItself => "A class can't inherit from itself."

/-- Where an error points: at no token, at the end of the program, or at the bytes of a token. -/
inductive Place
  | nowhere
  | atEnd
  | at (lexeme : Text)
  deriving DecidableEq

def Place.text : Place → Text
  | nowhere => []
  | atEnd => Text.ofString " at end"
  | .at lexeme => Text.ofString " at " ++ Text.quoted lexeme

structure StaticError where
  cause : StaticCause
  line : Nat
  place : Place
  deriving DecidableEq

/-- An error in full: its line, its place and its message. -/
def StaticError.text (e : StaticError) : Text :=
  Text.ofString "[line " ++ Text.ofNat e.line ++ Text.ofString "] Error" ++ e.place.text ++
    Text.ofString ": " ++ Text.ofString e.cause.message

end Lox
