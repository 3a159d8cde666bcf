import Lox.Proofs.Resolution.Mentions

/-! Where the pieces of a program stand. Around every expression and statement are constructs of the program:
blocks, bodies of functions and methods, classes, initializers. The rules of scoping are rules about single
pieces and what is around them; a program is well scoped if they hold everywhere in it. -/
namespace Lox

/-- A construct around a piece of a program. -/
inductive Enclosure
  | block
  | functionBody
  | methodBody (name : Text)
  | classBody (superclass : Option Reference) (methods : List FunctionDecl)
  | initializer (name : Text)

namespace Enclosure

/-- Whether names that are declared inside are local. -/
def isLocal : Enclosure → Bool
  | block | functionBody | methodBody _ => true
  | classBody _ _ | initializer _ => false

def isFunction : Enclosure → Bool
  | functionBody | methodBody _ => true
  | block | classBody _ _ | initializer _ => false

def isClass : Enclosure → Bool
  | classBody _ _ => true
  | block | functionBody | methodBody _ | initializer _ => false

end Enclosure

inductive Piece
  | expr (e : Expr)
  | stmt (s : Stmt)

/-- A piece of a program and the constructs around it, the innermost first. -/
structure Site where
  piece : Piece
  around : List Enclosure

/-- The expressions that an expression is made of. -/
def Expr.parts : Expr → List Expr
  | .literal _ | .use _ | .self _ _ | .superMethod _ _ _ => []
  | .group inner => [inner]
  | .unary _ _ operand => [operand]
  | .binary _ _ left right => [left, right]
  | .logical _ left right => [left, right]
  | .assign _ value => [value]
  | .call callee arguments _ => callee :: arguments
  | .get object _ => [object]
  | .set object _ value => [object, value]

/-- The pieces that a statement is made of, with what is around them. -/
def Stmt.parts (around : List Enclosure) : Stmt → List Site
  | .expression e => [⟨.expr e, around⟩]
  | .print e => [⟨.expr e, around⟩]
  | .declare _ none => []
  | .declare name (some e) => [⟨.expr e, .initializer name.text :: around⟩]
  | .block body => body.map fun s => ⟨.stmt s, .block :: around⟩
  | .branch condition thenBranch none => [⟨.expr condition, around⟩, ⟨.stmt thenBranch, around⟩]
  | .branch condition thenBranch (some elseBranch) =>
    [⟨.expr condition, around⟩, ⟨.stmt thenBranch, around⟩, ⟨.stmt elseBranch, around⟩]
  | .loop condition body => [⟨.expr condition, around⟩, ⟨.stmt body, around⟩]
  | .function decl => decl.body.map fun s => ⟨.stmt s, .functionBody :: around⟩
  | .ret _ none => []
  | .ret _ (some e) => [⟨.expr e, around⟩]
  | .classDef _ superclass methods => superclass.toList.map (fun ref => ⟨.expr (.use ref), around⟩) ++
    methods.flatMap fun method =>
      method.body.map fun s =>
        ⟨.stmt s, .methodBody method.name.text :: .classBody superclass methods :: around⟩

namespace Site

def parts : Site → List Site
  | ⟨.expr e, around⟩ => e.parts.map fun part => ⟨.expr part, around⟩
  | ⟨.stmt s, around⟩ => s.parts around

/-- A piece lies in another one, at any depth. -/
inductive Contains : Site → Site → Prop where
  | here {site : Site} : Contains site site
  | part {site part piece : Site} (member : part ∈ site.parts) (inside : Contains part piece) : Contains site piece

def Everywhere (P : Site → Prop) (site : Site) : Prop := ∀ inner, site.Contains inner → P inner

theorem everywhere_iff {P : Site → Prop} :
    site.Everywhere P ↔ P site ∧ ∀ part ∈ site.parts, part.Everywhere P := by
  constructor
  · intro all
    exact ⟨all site .here, fun part member inner inside => all inner (.part member inside)⟩
  · rintro ⟨here, parts⟩ inner inside
    cases inside with
    | here => exact here
    | part member inside => exact parts _ member _ inside

theorem everywhere_expr {P : Site → Prop} {around : List Enclosure} (e : Expr) :
    Everywhere P ⟨.expr e, around⟩ ↔
      P ⟨.expr e, around⟩ ∧ ∀ part ∈ e.parts, Everywhere P ⟨.expr part, around⟩ := by
  rw [everywhere_iff]
  simp only [parts, List.forall_mem_map]

theorem everywhere_class {P : Site → Prop} {around : List Enclosure} (name : Ident) (superclass : Option Reference)
    (methods : List FunctionDecl) : Everywhere P ⟨.stmt (.classDef name superclass methods), around⟩ ↔
      P ⟨.stmt (.classDef name superclass methods), around⟩ ∧
      (∀ ref ∈ superclass, P ⟨.expr (.use ref), around⟩) ∧
      ∀ method ∈ methods, ∀ s ∈ method.body,
        Everywhere P ⟨.stmt s, .methodBody method.name.text :: .classBody superclass methods :: around⟩ := by
  have use : ∀ ref, Everywhere P ⟨.expr (.use ref), around⟩ ↔ P ⟨.expr (.use ref), around⟩ := by
    intro ref
    rw [everywhere_expr]
    simp [Expr.parts]
  rw [everywhere_iff]
  simp only [parts, Stmt.parts, List.forall_mem_append, List.forall_mem_map, List.forall_mem_flatMap, use,
    Option.mem_toList, Option.mem_def]

/-- The rules of scoping, at one piece of a program. -/
def Lawful : Site → Prop
  -- A local scope is a block, or the parameters of a function together with its body. It declares a name once.
  | ⟨.stmt (.block body), _⟩ => (Stmt.declaresAll body).Nodup
  | ⟨.stmt (.function decl), _⟩ => decl.declares.Nodup
  | ⟨.stmt (.classDef name superclass methods), _⟩ =>
    (∀ method ∈ methods, method.declares.Nodup) ∧ ∀ ref ∈ superclass, ref.name.text ≠ name.text
  -- The function around a return is not the top level, and if it is an initializer there is no value.
  | ⟨.stmt (.ret _ value), around⟩ => (∃ outer ∈ around, outer.isFunction = true) ∧
    (value.isSome = true → around.find? (·.isFunction) ≠ some (.methodBody Names.initializer))
  -- A local variable is not read in its own initializer.
  | ⟨.expr (.use ref), around⟩ =>
    ¬ (.initializer ref.name.text ∈ around ∧ ∃ outer ∈ around, outer.isLocal = true)
  | ⟨.expr (.self _ _), around⟩ => ∃ outer ∈ around, outer.isClass = true
  -- The class around is the innermost one, and has to have a superclass.
  | ⟨.expr (.superMethod _ _ _), around⟩ =>
    ∃ superclass methods, around.find? (·.isClass) = some (.classBody (some superclass) methods)
  | _ => True

end Site

/-- A piece of a program where it stands. -/
def Occurs (program : List Stmt) (site : Site) : Prop := ∃ s ∈ program, Site.Contains ⟨.stmt s, []⟩ site

/-- The rules of scoping hold everywhere in a program. -/
def WellScoped (program : List Stmt) : Prop := ∀ site, Occurs program site → site.Lawful

theorem wellScoped_iff {program : List Stmt} :
    WellScoped program ↔ ∀ s ∈ program, Site.Everywhere Site.Lawful ⟨.stmt s, []⟩ := by
  constructor
  · intro all s member inner inside
    exact all inner ⟨s, member, inside⟩
  · rintro all site ⟨s, member, inside⟩
    exact all s member site inside

/-! What resolution knows of the constructs around a piece. -/

namespace Site

/-- The kind of function around a piece. -/
def functionContext (around : List Enclosure) : FunctionContext :=
  match around.find? (·.isFunction) with
  | some (.methodBody name) => if name = Names.initializer then .initializer else .method
  | some _ => .function
  | none => .topLevel

/-- The kind of class around a piece. -/
def classContext (around : List Enclosure) : ClassContext :=
  match around.find? (·.isClass) with
  | some (.classBody (some _) _) => .subclass
  | some _ => .plain
  | none => .outside

/-- All that resolution knows. -/
def surroundings (around : List Enclosure) : Surroundings := ⟨functionContext around, classContext around⟩

theorem surroundings_block (around : List Enclosure) : surroundings (.block :: around) = surroundings around := rfl

theorem surroundings_initializer (around : List Enclosure) (name : Text) :
    surroundings (.initializer name :: around) = surroundings around := rfl

theorem surroundings_functionBody (around : List Enclosure) :
    surroundings (.functionBody :: around) = { surroundings around with function := .function } := rfl

theorem surroundings_methodBody (around : List Enclosure) (name : Ident) (superclass : Option Reference)
    (methods : List FunctionDecl) : surroundings (.methodBody name.text :: .classBody superclass methods :: around) =
      ⟨methodContext name, if superclass.isSome then .subclass else .plain⟩ := by
  cases superclass <;> rfl

theorem exists_isFunction_iff (around : List Enclosure) :
    (∃ outer ∈ around, outer.isFunction = true) ↔ functionContext around ≠ .topLevel := by
  rw [← List.find?_isSome, functionContext]
  cases found : around.find? (·.isFunction) with
  | none => simp
  | some outer =>
    have function := List.find?_some found
    cases outer with
    | functionBody => simp
    | methodBody name => by_cases own : name = Names.initializer <;> simp [own]
    | block | classBody | initializer => cases function

theorem find?_isFunction_iff (around : List Enclosure) :
    around.find? (·.isFunction) = some (.methodBody Names.initializer) ↔
      functionContext around = .initializer := by
  rw [functionContext]
  cases found : around.find? (·.isFunction) with
  | none => simp
  | some outer =>
    cases outer with
    | methodBody name => by_cases own : name = Names.initializer <;> simp [own]
    | functionBody | block | classBody | initializer => simp

theorem exists_isClass_iff (around : List Enclosure) :
    (∃ outer ∈ around, outer.isClass = true) ↔ classContext around ≠ .outside := by
  rw [← List.find?_isSome, classContext]
  cases found : around.find? (·.isClass) with
  | none => simp
  | some outer =>
    have inClass := List.find?_some found
    cases outer with
    | classBody superclass methods => cases superclass <;> simp
    | block | functionBody | methodBody | initializer => cases inClass

theorem find?_isClass_iff (around : List Enclosure) :
    (∃ superclass methods, around.find? (·.isClass) = some (.classBody (some superclass) methods)) ↔
      classContext around = .subclass := by
  rw [classContext]
  cases found : around.find? (·.isClass) with
  | none => simp
  | some outer =>
    cases outer with
    | classBody superclass methods => cases superclass <;> simp
    | block | functionBody | methodBody | initializer => simp

end Site
end Lox
