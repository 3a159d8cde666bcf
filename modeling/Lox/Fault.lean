import Lox.Tree

/-! Faults: what can go wrong while a program runs. A fault blames a name or a mark of the program
and ends the run. -/

namespace Lox

inductive FaultCause
  | operandsNotNumbers
  | operandNotNumber
  | operandsNotNumbersOrStrings
  | notCallable
  | wrongArgumentCount (expected got : Nat)
  | noProperties
  | noFields
  | superclassNotClass
  | undefinedVariable (name : Text)
  | undefinedProperty (name : Text)
  | stackOverflow
  deriving DecidableEq

namespace FaultCause

/-- The general form of the causes that name something undefined. -/
def sentinel? : FaultCause → Option String
  | undefinedVariable _ => some "Undefined variable"
  | undefinedProperty _ => some "Undefined property"
  | _ => none

def message : FaultCause → Text
  | operandsNotNumbers => Text.ofString "Operands must be numbers."
  | operandNotNumber => Text.ofString "Operand must be a number."
  | operandsNotNumbersOrStrings => Text.ofString "Operands must be two numbers or two strings."
  | notCallable => Text.ofString "Can only call functions and classes."
  | wrongArgumentCount expected got =>
    Text.ofString "Expected " ++ Text.ofNat expected ++ Text.ofString " arguments but got " ++
      Text.ofNat got ++ Text.ofString "."
  | noProperties => Text.ofString "Only instances have properties."
  | noFields => Text.ofString "Only instances have fields."
  | superclassNotClass => Text.ofString "Superclass must be a class."
  | undefinedVariable name =>
    Text.ofString "Undefined variable " ++ Text.quoted name ++ Text.ofString "."
  | undefinedProperty name =>
    Text.ofString "Undefined property " ++ Text.quoted name ++ Text.ofString "."
  | stackOverflow => Text.ofString "Stack overflow."

/-- The message with the line it is reported on. -/
def located (cause : FaultCause) (line : Int) : Text :=
  cause.message ++ Text.ofString "\n[line " ++ Text.ofInt line ++ Text.ofString "]"

end FaultCause

/-- A fault and what it blames. -/
structure Fault where
  cause : FaultCause
  blamed : Ident
  deriving DecidableEq

def Fault.text (f : Fault) : Text := f.cause.located f.blamed.line

end Lox
