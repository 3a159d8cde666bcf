import Lox.Resolution
import Lox.Value

/-! The heap: everything a running program creates. Scopes hold the values of variables, closures
pair a function with the scope it was declared in, classes hold methods, instances hold fields.
Each is known by its position. Scopes and instances change; their links, and closures and classes as
a whole, do not. A scope is younger than its parent and a class than its superclass. -/

namespace Lox

abbrev ScopeId := Nat

structure Scope where
  parent : Option ScopeId
  bindings : Table Value
  deriving Inhabited

structure Closure where
  decl : FunctionDecl
  scope : ScopeId
  isInitializer : Bool
  deriving Inhabited

structure Class where
  name : Text
  superclass : Option ClassId
  methods : Table Closure
  deriving Inhabited

structure Instance where
  cls : ClassId
  fields : Table Value
  deriving Inhabited

structure Heap where
  scopes : Array Scope
  functions : Array Closure
  classes : Array Class
  instances : Array Instance

/-- A failed assumption about where resolved names are found. -/
inductive Breach
  | chainTooShort
  | notBound
  | unresolvedSuper
  | superNotClass
  | thisNotInstance
  deriving DecidableEq, Repr

def Breach.message : Breach → String
  | chainTooShort => "scope chain shorter than resolved distance"
  | notBound => "variable not bound at resolved distance"
  | unresolvedSuper => "unresolved super expression"
  | superNotClass => "super is not bound to a class"
  | thisNotInstance => "this is not bound to an instance"

namespace Heap

def empty : Heap := ⟨#[], #[], #[], #[]⟩

/-! Scopes. -/

def scope (h : Heap) (id : ScopeId) : Scope := h.scopes[id]?.getD default

/-- Opens a scope with the given bindings. -/
def newScope (h : Heap) (parent : Option ScopeId) (bindings : Table Value) : ScopeId × Heap :=
  (h.scopes.size, { h with scopes := h.scopes.push ⟨parent, bindings⟩ })

/-- Binds a name in a scope, whether or not the scope binds it already. -/
def define (h : Heap) (id : ScopeId) (name : Text) (value : Value) : Heap :=
  { h with
    scopes := h.scopes.modify id fun s => { s with bindings := s.bindings.insert name value } }

def find? (h : Heap) (id : ScopeId) (name : Text) : Option Value := (h.scope id).bindings.find? name

/-- The nearest scope that binds a name, among the first `n` scopes of the chain. -/
def ownerWithin (h : Heap) (name : Text) : Nat → ScopeId → Option ScopeId
  | 0, _ => none
  | n + 1, id =>
    if (h.scope id).bindings.contains name then some id
    else
      match (h.scope id).parent with
      | none => none
      | some parent => ownerWithin h name n parent

/-- The nearest scope of the chain that binds a name. Parents are older, so the chain of a scope is
no longer than its position plus one. -/
def owner? (h : Heap) (id : ScopeId) (name : Text) : Option ScopeId :=
  h.ownerWithin name (id + 1) id

/-- Reads a name from the nearest scope that binds it. -/
def get? (h : Heap) (id : ScopeId) (name : Text) : Option Value :=
  (h.owner? id name).bind fun owner => h.find? owner name

/-- Rebinds a name in the nearest scope that binds it. -/
def assign? (h : Heap) (id : ScopeId) (name : Text) (value : Value) : Option Heap :=
  (h.owner? id name).map fun owner => h.define owner name value

/-- The scope exactly `distance` steps up the chain. -/
def ancestor? (h : Heap) : Nat → ScopeId → Option ScopeId
  | 0, id => some id
  | distance + 1, id =>
    match (h.scope id).parent with
    | none => none
    | some parent => ancestor? h distance parent

/-- The scope at a distance, which has to bind the name. -/
def slotAt (h : Heap) (id : ScopeId) (distance : Nat) (name : Text) : Except Breach ScopeId :=
  match h.ancestor? distance id with
  | none => .error .chainTooShort
  | some target =>
    if (h.scope target).bindings.contains name then .ok target else .error .notBound

/-- Reads a name from the scope at a distance, which has to bind it. -/
def getAt (h : Heap) (id : ScopeId) (distance : Nat) (name : Text) : Except Breach Value :=
  (h.slotAt id distance name).bind fun target =>
    match h.find? target name with
    | none => .error .notBound
    | some value => .ok value

/-- Rebinds a name in the scope at a distance, which has to bind it. -/
def assignAt (h : Heap) (id : ScopeId) (distance : Nat) (name : Text) (value : Value) :
    Except Breach Heap :=
  (h.slotAt id distance name).map fun target => h.define target name value

/-! Functions, classes and instances. -/

def function (h : Heap) (id : FunctionId) : Closure := h.functions[id]?.getD default

def newFunction (h : Heap) (closure : Closure) : FunctionId × Heap :=
  (h.functions.size, { h with functions := h.functions.push closure })

def cls (h : Heap) (id : ClassId) : Class := h.classes[id]?.getD default

def newClass (h : Heap) (c : Class) : ClassId × Heap :=
  (h.classes.size, { h with classes := h.classes.push c })

/-- The nearest method of a name, among the first `n` classes of the superclass chain. -/
def methodWithin (h : Heap) (name : Text) : Nat → ClassId → Option Closure
  | 0, _ => none
  | n + 1, id =>
    match (h.cls id).methods.find? name with
    | some closure => some closure
    | none =>
      match (h.cls id).superclass with
      | none => none
      | some superclass => methodWithin h name n superclass

/-- The nearest method of a name on the superclass chain. Superclasses are older, so the chain of a
class is no longer than its position plus one. -/
def method? (h : Heap) (id : ClassId) (name : Text) : Option Closure :=
  h.methodWithin name (id + 1) id

def object (h : Heap) (id : InstanceId) : Instance := h.instances[id]?.getD default

def newInstance (h : Heap) (c : ClassId) : InstanceId × Heap :=
  (h.instances.size, { h with instances := h.instances.push ⟨c, []⟩ })

def setField (h : Heap) (id : InstanceId) (name : Text) (value : Value) : Heap :=
  { h with
    instances := h.instances.modify id fun o => { o with fields := o.fields.insert name value } }

/-- A method for one instance: its scope lies in a new scope that binds `this`. -/
def bind (h : Heap) (method : Closure) (id : InstanceId) : Closure × Heap :=
  let (home, h) := h.newScope (some method.scope) [(Names.this, .object id)]
  ({ method with scope := home }, h)

/-- A value as `print` shows it. -/
def text (h : Heap) : Value → Text
  | .nil => Literal.nil.text
  | .bool b => (Literal.bool b).text
  | .number x => Number.text x
  | .string s => s
  | .clock => Text.ofString "<native fn>"
  | .function id => Text.ofString "<fn " ++ (h.function id).decl.name.text ++ Text.ofString ">"
  | .cls id => (h.cls id).name
  | .object id => (h.cls (h.object id).cls).name ++ Text.ofString " instance"

/-- The position of the scope of global variables. -/
def globals : ScopeId := 0

/-- The heap of a new session: the global scope, with the clock. -/
def initial : Heap := (empty.newScope none [(Text.ofString "clock", .clock)]).2

end Heap
end Lox
