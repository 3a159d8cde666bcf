import Lox.Tree.Parse

/-! The grammar of programs, apart from any way of reading them: which tokens make up an expression,
a statement or a declaration, and the tree they stand for. Operators of one level are written left
recursive, so they lean to the left; assignment is right recursive. Nodes that name a variable are
numbered in the order of the tokens they end with. -/
namespace Lox.Grammar

/-- The levels of expressions, from the loosest binding to the tightest. -/
inductive Rank
  | expression | or | and | equality | comparison | term | factor | unary | call | primary
  deriving DecidableEq

namespace Rank

/-- The level of the operands of a level. -/
def tighter? : Rank → Option Rank
  | expression => some or
  | or => some and
  | and => some equality
  | equality => some comparison
  | comparison => some term
  | term => some factor
  | factor => some unary
  | unary => some call
  | call => some primary
  | primary => none

/-- The node that an operator of a level makes of its line and its two sides. -/
def join? : Rank → TokenKind → Option (Nat → Expr → Expr → Expr)
  | or, .kwOr => some fun _ => .logical .or
  | and, .kwAnd => some fun _ => .logical .and
  | equality, .equalEqual => some (.binary .equal)
  | equality, .bangEqual => some (.binary .notEqual)
  | comparison, .greater => some (.binary (.arithmetic .greater))
  | comparison, .greaterEqual => some (.binary (.arithmetic .greaterEqual))
  | comparison, .less => some (.binary (.arithmetic .less))
  | comparison, .lessEqual => some (.binary (.arithmetic .lessEqual))
  | term, .plus => some (.binary (.arithmetic .add))
  | term, .minus => some (.binary (.arithmetic .sub))
  | factor, .slash => some (.binary (.arithmetic .div))
  | factor, .star => some (.binary (.arithmetic .mul))
  | _, _ => none

end Rank

/-- The constants: three keywords, and the tokens that have a value of their own. -/
inductive Constant (t : Token) : Literal → Prop where
  | trueWord (keyword : t.kind = .kwTrue) : Constant t (.bool true)
  | falseWord (keyword : t.kind = .kwFalse) : Constant t (.bool false)
  | nilWord (keyword : t.kind = .kwNil) : Constant t .nil
  | value (own : t.literal? = some v) : Constant t v

/-- The operators in front of an operand. -/
def sign? : TokenKind → Option UnaryOp
  | .bang => some .not
  | .minus => some .negate
  | _ => none

/-- The most arguments or parameters in one list. -/
def most : Nat := 255

/-- Which `if` an `else` may belong to: any that is still without one, or only the nearest. -/
inductive ElseRule
  | any
  | nearest
  deriving DecidableEq

/-- Names with commas between them, or nothing. -/
inductive Parameters : List Token → List Ident → Prop where
  | none : Parameters [] []
  | one (named : name.kind = .identifier) : Parameters [name] [name.ident]
  | more (named : name.kind = .identifier) (mark : comma.kind = .comma)
      (rest : Parameters ts (next :: ps)) :
      Parameters (name :: comma :: ts) (name.ident :: next :: ps)

/-- A kind of phrase together with the tree of the phrase. A statement is open if it ends in an `if`
without `else`, so that an `else` after it would belong to it. -/
inductive Phrase
  | expr (rank : Rank) (e : Expr)
  | optional (e : Option Expr)
  | arguments (es : List Expr)
  | variableDecl (s : Stmt)
  | forClause (s : Option Stmt)
  | statement (s : Stmt) (isOpen : Bool)
  | declaration (s : Stmt)
  | declarations (ss : List Stmt)
  | function (decl : FunctionDecl)
  | methods (decls : List FunctionDecl)

/-- `Derives rule phrase ts i j`: the tokens make up the phrase. The last identity handed out before
its nodes is `i`, and after them `j`. -/
inductive Derives (rule : ElseRule) : Phrase → List Token → NodeId → NodeId → Prop where
  -- Expressions. A variable that turns out to be assigned to has used up an identity of its own.
  | literal (value : Constant t v) : Derives rule (.expr .primary (.literal v)) [t] i i
  | this (keyword : t.kind = .kwThis) :
      Derives rule (.expr .primary (.self (i + 1) t.line)) [t] i (i + 1)
  | use (named : t.kind = .identifier) :
      Derives rule (.expr .primary (.use ⟨i + 1, t.ident⟩)) [t] i (i + 1)
  | super (keyword : t.kind = .kwSuper) (mark : dot.kind = .dot) (named : name.kind = .identifier) :
      Derives rule (.expr .primary (.superMethod (i + 1) t.line name.ident)) [t, dot, name] i (i + 1)
  | group (opening : left.kind = .leftParen) (inner : Derives rule (.expr .expression e) ts i j)
      (closing : right.kind = .rightParen) :
      Derives rule (.expr .primary (.group e)) (left :: (ts ++ [right])) i j
  | lift (tighter : rank.tighter? = some operand) (inner : Derives rule (.expr operand e) ts i j) :
      Derives rule (.expr rank e) ts i j
  | call (callee : Derives rule (.expr .call f) ts i j) (opening : left.kind = .leftParen)
      (args : Derives rule (.arguments es) us j k) (few : es.length ≤ most)
      (closing : right.kind = .rightParen) :
      Derives rule (.expr .call (.call f es right.line)) (ts ++ left :: (us ++ [right])) i k
  | get (object : Derives rule (.expr .call o) ts i j) (mark : dot.kind = .dot)
      (named : name.kind = .identifier) :
      Derives rule (.expr .call (.get o name.ident)) (ts ++ [dot, name]) i j
  | sign (operator : sign? t.kind = some op) (operand : Derives rule (.expr .unary e) ts i j) :
      Derives rule (.expr .unary (.unary op t.line e)) (t :: ts) i j
  | join (operator : rank.join? t.kind = some node) (left : Derives rule (.expr rank a) ts i j)
      (tighter : rank.tighter? = some operand) (right : Derives rule (.expr operand b) us j k) :
      Derives rule (.expr rank (node t.line a b)) (ts ++ t :: us) i k
  | assign (named : name.kind = .identifier) (mark : equal.kind = .equal)
      (value : Derives rule (.expr .expression e) ts (i + 1) j) :
      Derives rule (.expr .expression (.assign ⟨j + 1, name.ident⟩ e)) (name :: equal :: ts) i (j + 1)
  | set (object : Derives rule (.expr .call o) ts i j) (dotted : dot.kind = .dot)
      (named : name.kind = .identifier) (mark : equal.kind = .equal)
      (value : Derives rule (.expr .expression e) us j k) :
      Derives rule (.expr .expression (.set o name.ident e)) (ts ++ dot :: name :: equal :: us) i k
  | noArguments : Derives rule (.arguments []) [] i i
  | oneArgument (only : Derives rule (.expr .expression e) ts i j) : Derives rule (.arguments [e]) ts i j
  | moreArguments (first : Derives rule (.expr .expression e) ts i j) (mark : comma.kind = .comma)
      (rest : Derives rule (.arguments (next :: es)) us j k) :
      Derives rule (.arguments (e :: next :: es)) (ts ++ comma :: us) i k
  | absent : Derives rule (.optional none) [] i i
  | present (inner : Derives rule (.expr .expression e) ts i j) : Derives rule (.optional (some e)) ts i j
  -- Statements.
  | expression (inner : Derives rule (.expr .expression e) ts i j) (mark : semi.kind = .semicolon) :
      Derives rule (.statement (.expression e) false) (ts ++ [semi]) i j
  | print (keyword : t.kind = .kwPrint) (inner : Derives rule (.expr .expression e) ts i j)
      (mark : semi.kind = .semicolon) :
      Derives rule (.statement (.print e) false) (t :: (ts ++ [semi])) i j
  | ret (keyword : t.kind = .kwReturn) (value : Derives rule (.optional e) ts i j)
      (mark : semi.kind = .semicolon) :
      Derives rule (.statement (.ret t.line e) false) (t :: (ts ++ [semi])) i j
  | block (opening : left.kind = .leftBrace) (body : Derives rule (.declarations ss) ts i j)
      (closing : right.kind = .rightBrace) :
      Derives rule (.statement (.block ss) false) (left :: (ts ++ [right])) i j
  | whileLoop (keyword : t.kind = .kwWhile) (opening : left.kind = .leftParen)
      (condition : Derives rule (.expr .expression c) ts i j) (closing : right.kind = .rightParen)
      (body : Derives rule (.statement s isOpen) us j k) :
      Derives rule (.statement (.loop c s) isOpen) (t :: left :: (ts ++ right :: us)) i k
  | ifOnly (keyword : t.kind = .kwIf) (opening : left.kind = .leftParen)
      (condition : Derives rule (.expr .expression c) ts i j) (closing : right.kind = .rightParen)
      (thenPart : Derives rule (.statement s isOpen) us j k) :
      Derives rule (.statement (.branch c s none) true) (t :: left :: (ts ++ right :: us)) i k
  | ifElse (keyword : t.kind = .kwIf) (opening : left.kind = .leftParen)
      (condition : Derives rule (.expr .expression c) ts i j) (closing : right.kind = .rightParen)
      (thenPart : Derives rule (.statement s thenOpen) us j k)
      (attached : rule = .nearest → thenOpen = false) (other : orElse.kind = .kwElse)
      (elsePart : Derives rule (.statement s' isOpen) vs k l) :
      Derives rule (.statement (.branch c s (some s')) isOpen)
        (t :: left :: (ts ++ right :: (us ++ orElse :: vs))) i l
  | forLoop (keyword : t.kind = .kwFor) (opening : left.kind = .leftParen)
      (first : Derives rule (.forClause init) ts i j) (condition : Derives rule (.optional c) us j k)
      (mark : semi.kind = .semicolon) (increment : Derives rule (.optional step) vs k l)
      (closing : right.kind = .rightParen) (body : Derives rule (.statement s isOpen) ws l m) :
      Derives rule (.statement (.forLoop init c step s) isOpen)
        (t :: left :: (ts ++ (us ++ semi :: (vs ++ right :: ws)))) i m
  | noClause (mark : semi.kind = .semicolon) : Derives rule (.forClause none) [semi] i i
  | variableClause (keyword : t.kind = .kwVar) (decl : Derives rule (.variableDecl s) ts i j) :
      Derives rule (.forClause (some s)) (t :: ts) i j
  | expressionClause (inner : Derives rule (.expr .expression e) ts i j) (mark : semi.kind = .semicolon) :
      Derives rule (.forClause (some (.expression e))) (ts ++ [semi]) i j
  -- Declarations.
  | bareVariable (named : name.kind = .identifier) (mark : semi.kind = .semicolon) :
      Derives rule (.variableDecl (.declare name.ident none)) [name, semi] i i
  | initializedVariable (named : name.kind = .identifier) (sign : equal.kind = .equal)
      (value : Derives rule (.expr .expression e) ts i j) (mark : semi.kind = .semicolon) :
      Derives rule (.variableDecl (.declare name.ident (some e))) (name :: equal :: (ts ++ [semi])) i j
  | variableDeclaration (keyword : t.kind = .kwVar) (decl : Derives rule (.variableDecl s) ts i j) :
      Derives rule (.declaration s) (t :: ts) i j
  | functionDeclaration (keyword : t.kind = .kwFun) (decl : Derives rule (.function d) ts i j) :
      Derives rule (.declaration (.function d)) (t :: ts) i j
  | plainClass (keyword : t.kind = .kwClass) (named : name.kind = .identifier)
      (opening : left.kind = .leftBrace) (body : Derives rule (.methods ds) ts i j)
      (closing : right.kind = .rightBrace) :
      Derives rule (.declaration (.classDef name.ident none ds)) (t :: name :: left :: (ts ++ [right])) i j
  | subclass (keyword : t.kind = .kwClass) (named : name.kind = .identifier) (mark : less.kind = .less)
      (parent : above.kind = .identifier) (opening : left.kind = .leftBrace)
      (body : Derives rule (.methods ds) ts (i + 1) j) (closing : right.kind = .rightBrace) :
      Derives rule (.declaration (.classDef name.ident (some ⟨i + 1, above.ident⟩) ds))
        (t :: name :: less :: above :: left :: (ts ++ [right])) i j
  | statement (inner : Derives rule (.statement s isOpen) ts i j) : Derives rule (.declaration s) ts i j
  | function (named : name.kind = .identifier) (opening : left.kind = .leftParen)
      (params : Parameters ts ps) (few : ps.length ≤ most) (closing : right.kind = .rightParen)
      (start : brace.kind = .leftBrace) (body : Derives rule (.declarations ss) us i j)
      (stop : final.kind = .rightBrace) :
      Derives rule (.function ⟨name.ident, ps, ss⟩)
        (name :: left :: (ts ++ right :: brace :: (us ++ [final]))) i j
  | noMethods : Derives rule (.methods []) [] i i
  | moreMethods (first : Derives rule (.function d) ts i j) (rest : Derives rule (.methods ds) us j k) :
      Derives rule (.methods (d :: ds)) (ts ++ us) i k
  | noDeclarations : Derives rule (.declarations []) [] i i
  | moreDeclarations (first : Derives rule (.declaration s) ts i j)
      (rest : Derives rule (.declarations ss) us j k) :
      Derives rule (.declarations (s :: ss)) (ts ++ us) i k

theorem constant?_eq_some_iff : Parse.constant? t = some v ↔ Constant t v := by
  obtain ⟨kind, lexeme, line⟩ := t
  constructor
  · intro constant
    cases kind
    case kwTrue => cases constant; exact .trueWord rfl
    case kwFalse => cases constant; exact .falseWord rfl
    case kwNil => cases constant; exact .nilWord rfl
    all_goals exact .value constant
  · intro constant
    cases constant with
    | trueWord keyword | falseWord keyword | nilWord keyword => cases keyword; rfl
    | value own => cases kind <;> first | cases own; rfl | cases own

/-- Operators between two sides make logical and binary nodes. -/
theorem Rank.join?_node {rank : Rank} (operator : rank.join? kind = some node) :
    (∃ op, node = fun _ => .logical op) ∨ (∃ op, node = .binary op) := by
  unfold Rank.join? at operator
  split at operator <;> cases operator <;> first | exact .inl ⟨_, rfl⟩ | exact .inr ⟨_, rfl⟩

/-- A bare variable stands for itself on every level. -/
theorem Derives.use_tokens (derived : Derives rule (.expr rank (.use ref)) ts i j) :
    ∃ t, ts = [t] ∧ t.kind = .identifier ∧ ref = ⟨i + 1, t.ident⟩ ∧ j = i + 1 := by
  generalize shape : Phrase.expr rank (.use ref) = phrase at derived
  induction derived generalizing rank with
  | use named =>
    cases shape
    exact ⟨_, rfl, named, rfl, rfl⟩
  | lift tighter inner ih =>
    cases shape
    exact ih rfl
  | join operator left tighter right =>
    obtain ⟨op, rfl⟩ | ⟨op, rfl⟩ := Rank.join?_node operator <;> cases shape
  | _ => cases shape

/-- A property access is one on every level that is not looser than calls. -/
theorem Derives.get_tokens (derived : Derives rule (.expr rank (.get o n)) ts i j) :
    ∃ us dot name, ts = us ++ [dot, name] ∧ dot.kind = .dot ∧ name.kind = .identifier ∧
      n = name.ident ∧ Derives rule (.expr .call o) us i j := by
  generalize shape : Phrase.expr rank (.get o n) = phrase at derived
  induction derived generalizing rank with
  | get object mark named =>
    cases shape
    exact ⟨_, _, _, rfl, mark, named, rfl, object⟩
  | lift tighter inner ih =>
    cases shape
    exact ih rfl
  | join operator left tighter right =>
    obtain ⟨op, rfl⟩ | ⟨op, rfl⟩ := Rank.join?_node operator <;> cases shape
  | _ => cases shape

end Lox.Grammar
