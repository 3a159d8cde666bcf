import Lox.Proofs.Evaluation.Likeness
import Lox.Proofs.Tree.Suspects

/-! Blame. A fault of a run is blamed on a name in the code that is run, or in a function or a method of the heap. This
is read off runs that are alike: where all names in alike code have some property, alike runs only blame names that
have it, and the functions and methods they leave are made of such names. -/
namespace Lox

/-- The names of a function that a fault can be blamed on have the property. -/
def FunctionDecl.Vouched (ok : Ident → Prop) (decl : FunctionDecl) : Prop := ∀ name ∈ decl.suspects, ok name

/-- A name in a function or a method of the heap that a fault can be blamed on. -/
inductive Heap.Suspects (h : Heap) (name : Ident) : Prop where
  | function (among : name ∈ (h.function k).decl.suspects)
  | method {closure : Closure} (found : (h.cls k).methods.find? title = some closure)
      (among : name ∈ closure.decl.suspects)

theorem Heap.holds_suspects (h : Heap) : h.Holds (·.Vouched h.Suspects) :=
  ⟨fun _ _ => .function, fun found _ => .method found⟩

theorem Heap.Suspects.holds (suspects : Heap.Suspects h name) (holds : h.Holds (·.Vouched ok)) : ok name := by
  cases suspects with
  | function among => exact holds.function _ name among
  | method found among => exact holds.method found name among

namespace Likeness

/-- Only names with the property are blamed. -/
def Pairing.vouched (p : Pairing) (ok : Ident → Prop) : Pairing :=
  { p with blames := fun name other => p.blames name other ∧ ok name }

private theorem Refers.vouched (refers : Refers p Γ sure i n j m) (ok : Ident → Prop) :
    Refers (p.vouched ok) Γ sure i n j m := by
  cases refers with
  | global ids left right => exact .global ids left right
  | inScope ids left right layer bound => exact .inScope ids left right layer bound

/-- Alike code in which all names have the property. -/
theorem Alike.vouched (alike : Alike p inside Γ c c') (ok : ∀ name ∈ c.suspects, P name) :
    Alike (p.vouched P) inside Γ c c' := by
  induction alike with
    simp only [Code.suspects, Expr.suspects, Expr.suspectsAll, Stmt.suspects, Stmt.suspectsAll, FunctionDecl.suspects,
      FunctionDecl.suspectsAll, List.forall_mem_cons, List.forall_mem_append] at ok
  | literal => exact .literal
  | group _ inner => exact .group (inner ok)
  | unary blames _ operand => exact .unary ⟨blames, ok.1⟩ (operand ok.2)
  | binary blames _ _ left right => exact .binary ⟨blames, ok.1⟩ (left ok.2.1) (right ok.2.2)
  | logical _ _ left right => exact .logical (left ok.1) (right ok.2)
  | use refers blames => exact .use (refers.vouched P) ⟨blames, ok.1⟩
  | assign refers ordinary blames _ value => exact .assign (refers.vouched P) ordinary ⟨blames, ok.1⟩ (value ok.2)
  | call _ _ blames callee arguments => exact .call (callee ok.2.1) (arguments ok.2.2) ⟨blames, ok.1⟩
  | get _ name object => exact .get (object ok.2) ⟨name.text, name.blames, ok.1⟩
  | set _ name _ object value => exact .set (object ok.2.1) ⟨name.text, name.blames, ok.1⟩ (value ok.2.2)
  | self refers blames => exact .self (refers.vouched P) ⟨blames, ok.1⟩
  | superMethod ids left right outer super inner this name =>
    exact .superMethod ids left right outer super inner this ⟨name.text, name.blames, ok.1⟩
  | noExprs => exact .noExprs
  | moreExprs _ _ first rest => exact .moreExprs (first ok.1) (rest ok.2)
  | expression _ inner => exact .expression (inner ok)
  | print _ inner => exact .print (inner ok)
  | declare renamed ordinary => exact .declare renamed ordinary
  | declareWith renamed ordinary _ value => exact .declareWith renamed ordinary (value ok)
  | block _ body => exact .block (body ok)
  | ifOnly _ _ condition thenPart => exact .ifOnly (condition ok.1) (thenPart ok.2)
  | ifElse _ _ _ condition thenPart elsePart =>
    exact .ifElse (condition ok.1) (thenPart ok.2.1) (elsePart ok.2.2)
  | loop _ _ condition body => exact .loop (condition ok.1) (body ok.2)
  | function name _ decl => exact .function name (decl ok)
  | ret => exact .ret
  | retValue _ value => exact .retValue (value ok)
  | plainClass name _ methods => exact .plainClass name (methods ok)
  | subclass name parent blames _ methods =>
    exact .subclass name (parent.vouched P) ⟨blames, ok.1⟩ (methods ok.2)
  | noStmts => exact .noStmts
  | moreStmts _ _ first rest => exact .moreStmts (first ok.1) (rest ok.2)
  | decl name params ordinary _ body => exact .decl name params ordinary (body ok)
  | noFunctions => exact .noFunctions
  | moreFunctions _ _ first rest => exact .moreFunctions (first ok.1) (rest ok.2)

/-- In code that is alike where only names with the property are blamed, all names have it. -/
theorem Alike.suspects {p : Pairing} {P : Ident → Prop} (alike : Alike (p.vouched P) inside Γ c c') :
    ∀ name ∈ c.suspects, P name := by
  induction alike with
    simp only [Code.suspects, Expr.suspects, Expr.suspectsAll, Stmt.suspects, Stmt.suspectsAll, FunctionDecl.suspects,
      FunctionDecl.suspectsAll, List.forall_mem_cons, List.forall_mem_append]
  | literal | noExprs | declare | ret | noStmts | noFunctions => exact List.forall_mem_nil _
  | group _ inner | expression _ inner | print _ inner | declareWith _ _ _ inner | block _ inner | function _ _ inner
  | retValue _ inner | plainClass _ _ inner | decl _ _ _ _ inner => exact inner
  | unary blames _ inner | assign _ _ blames _ inner | subclass _ _ blames _ inner => exact ⟨blames.2, inner⟩
  | binary blames _ _ first second | call _ _ blames first second => exact ⟨blames.2, first, second⟩
  | use _ blames | self _ blames => exact ⟨blames.2, List.forall_mem_nil _⟩
  | get _ name object => exact ⟨name.blames.2, object⟩
  | set _ name _ object value => exact ⟨name.blames.2, object, value⟩
  | superMethod _ _ _ _ _ _ _ name => exact ⟨name.blames.2, List.forall_mem_nil _⟩
  | logical _ _ first second | moreExprs _ _ first second | ifOnly _ _ first second | loop _ _ first second
  | moreStmts _ _ first second | moreFunctions _ _ first second => exact ⟨first, second⟩
  | ifElse _ _ _ condition thenPart elsePart => exact ⟨condition, thenPart, elsePart⟩

/-- Alike functions with only such names. -/
theorem CodeAlike.vouched (alike : CodeAlike p h ν extra c c') (ok : c.decl.Vouched P) :
    CodeAlike (p.vouched P) h ν extra c c' := by
  obtain ⟨Γ, chain, code, this⟩ := alike.code
  exact ⟨alike.scope, alike.kind, Γ, chain, code.vouched ok, this⟩

private theorem CodeAlike.suspects {p : Pairing} {P : Ident → Prop} (alike : CodeAlike (p.vouched P) h ν extra c c') :
    c.decl.Vouched P := by
  obtain ⟨_, _, code, _⟩ := alike.code
  exact code.suspects

/-- Alike heaps in whose functions and methods all names have the property. -/
theorem HeapAlike.vouched (alike : HeapAlike p ν h h') (ok : h.Holds (·.Vouched P)) :
    HeapAlike (p.vouched P) ν h h' := by
  refine { alike with functions := fun k => (alike.functions k).vouched (ok.function k), classes := fun k => ?_ }
  have cls := alike.classes k
  refine ⟨cls.name, cls.superclass, fun title => ?_⟩
  obtain none | ⟨m, m', found, found', code⟩ := cls.methods title
  · exact .inl none
  · exact .inr ⟨m, m', found, found', code.vouched (ok.method found)⟩

theorem HeapAlike.suspects {p : Pairing} {P : Ident → Prop} (alike : HeapAlike (p.vouched P) ν h h') :
    h.Holds (·.Vouched P) := by
  refine ⟨fun k => (alike.functions k).suspects, fun {k title closure} found => ?_⟩
  obtain ⟨none, -⟩ | ⟨m, m', found', -, code⟩ := (alike.classes k).methods title
  · rw [none] at found
    cases found
  · rw [found'] at found
    cases found
    exact code.suspects

end Likeness
end Lox
