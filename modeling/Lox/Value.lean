import Lox.Tree

/-! Run-time values: truth, equality and the operators that are defined for some values only.
Functions, classes and instances are known by identity. -/

namespace Lox

abbrev FunctionId := Nat

abbrev ClassId := Nat

abbrev InstanceId := Nat

inductive Value
  | nil
  | bool (b : Bool)
  | number (x : Float)
  | string (s : Text)
  | clock
  | function (id : FunctionId)
  | cls (id : ClassId)
  | object (id : InstanceId)
  deriving DecidableEq

instance : Inhabited Value := ⟨.nil⟩

def Literal.toValue : Literal → Value
  | nil => .nil
  | bool b => .bool b
  | number x => .number x
  | string s => .string s

namespace Value

/-- Nil and false are false, everything else is true. -/
def truthy : Value → Bool
  | nil => false
  | bool b => b
  | _ => true

/-- Equality: numbers by value, with one NaN and one zero, everything else by kind and identity. -/
def same : Value → Value → Bool
  | number x, number y => Number.same x y
  | a, b => a = b

end Value

/-- Why an operator has no result: the first operand does not know it, the second one has the wrong
kind, or an operand is missing. -/
inductive OperatorError
  | undefined
  | operandType
  | missingOperand
  deriving DecidableEq, Repr

def OperatorError.message : OperatorError → String
  | undefined => "Undefined operator"
  | operandType => "Invalid operand type"
  | missingOperand => "Missing operand"

inductive Operator
  | negate
  | binary (op : Arithmetic)
  deriving DecidableEq, Repr

def Arithmetic.onNumbers (op : Arithmetic) (x y : Float) : Value :=
  match op with
  | add => .number (x + y)
  | sub => .number (x - y)
  | mul => .number (x * y)
  | div => .number (x / y)
  | less => .bool (x < y)
  | lessEqual => .bool (x ≤ y)
  | greater => .bool (y < x)
  | greaterEqual => .bool (y ≤ x)

namespace Operator

/-- The operators by name. -/
def ofName? (name : Text) : Option Operator :=
  ([("add", binary .add), ("sub", binary .sub), ("div", binary .div), ("mul", binary .mul),
    ("neg", negate), ("lt", binary .less), ("lte", binary .lessEqual), ("gt", binary .greater),
    ("gte", binary .greaterEqual)].find? fun entry => Text.ofString entry.1 = name).map (·.2)

/-- Applies an operator. The first operand decides whether the operator exists; operands beyond
those it needs are ignored. -/
def apply : Operator → List Value → Except OperatorError Value
  | _, [] => .error .missingOperand
  | negate, .number x :: _ => .ok (.number (-x))
  | binary _, [.number _] => .error .missingOperand
  | binary op, .number x :: .number y :: _ => .ok (op.onNumbers x y)
  | binary _, .number _ :: _ :: _ => .error .operandType
  | binary .add, [.string _] => .error .missingOperand
  | binary .add, .string s :: .string t :: _ => .ok (.string (s ++ t))
  | binary .add, .string _ :: _ :: _ => .error .operandType
  | _, _ :: _ => .error .undefined

/-- Applies the operator of the given name; a name that is no operator is defined for no operand. -/
def applyNamed (name : Text) (operands : List Value) : Except OperatorError Value :=
  match ofName? name, operands with
  | _, [] => .error .missingOperand
  | some op, operands => op.apply operands
  | none, _ => .error .undefined

end Operator
end Lox
