import Lox.Proofs.Tree.Completeness

/-! The programs that are read without complaint are those of the grammar. Letting an `else` belong
to any `if` admits no further programs, only further trees: the tree that is read is the one in which
each `else` belongs to the nearest `if`. -/
namespace Lox.Grammar

/-- An `else` after an open statement goes to an `if` inside it. -/
theorem Derives.extend (derived : Derives .nearest (.statement s true) ts i j)
    (other : orElse.kind = .kwElse) (elsePart : Derives .nearest (.statement s' isOpen) us j k) :
    ∃ r nowOpen, Derives .nearest (.statement r nowOpen) (ts ++ orElse :: us) i k := by
  generalize shape : Phrase.statement s true = phrase at derived
  induction derived generalizing s with
  | whileLoop keyword opening condition closing body _ ih =>
    cases shape
    obtain ⟨r, nowOpen, longer⟩ := ih elsePart rfl
    exact ⟨_, nowOpen, by simpa using whileLoop keyword opening condition closing longer⟩
  | @ifOnly _ _ _ _ _ thenOpen _ _ _ _ _ keyword opening condition closing thenPart _ ih =>
    cases shape
    cases thenOpen with
    | false =>
      have whole := ifElse keyword opening condition closing thenPart (fun _ => rfl) other elsePart
      exact ⟨_, _, by simpa using whole⟩
    | true =>
      obtain ⟨r, nowOpen, longer⟩ := ih elsePart rfl
      exact ⟨_, true, by simpa using ifOnly keyword opening condition closing longer⟩
  | ifElse keyword opening condition closing thenPart attached other' _ _ _ ih =>
    cases shape
    obtain ⟨r, nowOpen, longer⟩ := ih elsePart rfl
    have whole := ifElse keyword opening condition closing thenPart attached other' longer
    exact ⟨_, nowOpen, by simpa using whole⟩
  | forLoop keyword opening first condition mark increment closing body _ _ _ ih =>
    cases shape
    obtain ⟨r, nowOpen, longer⟩ := ih elsePart rfl
    have whole := forLoop keyword opening first condition mark increment closing longer
    exact ⟨_, nowOpen, by simpa using whole⟩
  | _ => cases shape

/-- Phrases with the same tokens: expressions and what consists of expressions alone have one tree,
statements may have several. -/
def Rederives : Phrase → List Token → NodeId → NodeId → Prop
  | .statement _ _, ts, i, j => ∃ s isOpen, Derives .nearest (.statement s isOpen) ts i j
  | .declaration _, ts, i, j => ∃ s, Derives .nearest (.declaration s) ts i j
  | .declarations _, ts, i, j => ∃ ss, Derives .nearest (.declarations ss) ts i j
  | .function _, ts, i, j => ∃ decl, Derives .nearest (.function decl) ts i j
  | .methods _, ts, i, j => ∃ decls, Derives .nearest (.methods decls) ts i j
  | phrase, ts, i, j => Derives .nearest phrase ts i j

/-- What can be derived at all can be derived with each `else` at the nearest `if`. -/
theorem Derives.rederives (derived : Derives .any phrase ts i j) : Rederives phrase ts i j := by
  induction derived with
  | literal value => exact literal value
  | this keyword => exact this keyword
  | use named => exact use named
  | super keyword mark named => exact super keyword mark named
  | group opening _ closing inner => exact group opening inner closing
  | lift tighter _ inner => exact lift tighter inner
  | call _ opening _ few closing callee args => exact call callee opening args few closing
  | get _ mark named object => exact get object mark named
  | sign operator _ operand => exact sign operator operand
  | join operator _ tighter _ left right => exact join operator left tighter right
  | assign named mark _ value => exact assign named mark value
  | set _ dotted named mark _ object value => exact set object dotted named mark value
  | noArguments => exact noArguments
  | oneArgument _ only => exact oneArgument only
  | moreArguments _ mark _ first rest => exact moreArguments first mark rest
  | absent => exact absent
  | present _ inner => exact present inner
  | expression _ mark inner => exact ⟨_, _, expression inner mark⟩
  | print keyword _ mark inner => exact ⟨_, _, print keyword inner mark⟩
  | ret keyword _ mark value => exact ⟨_, _, ret keyword value mark⟩
  | block opening _ closing body =>
    obtain ⟨ss, body⟩ := body
    exact ⟨_, _, block opening body closing⟩
  | whileLoop keyword opening _ closing _ condition body =>
    obtain ⟨s, isOpen, body⟩ := body
    exact ⟨_, _, whileLoop keyword opening condition closing body⟩
  | ifOnly keyword opening _ closing _ condition thenPart =>
    obtain ⟨s, isOpen, thenPart⟩ := thenPart
    exact ⟨_, _, ifOnly keyword opening condition closing thenPart⟩
  | ifElse keyword opening _ closing _ _ other _ condition thenPart elsePart =>
    obtain ⟨s, thenOpen, thenPart⟩ := thenPart
    obtain ⟨s', isOpen, elsePart⟩ := elsePart
    cases thenOpen with
    | false => exact ⟨_, _, ifElse keyword opening condition closing thenPart (fun _ => rfl) other elsePart⟩
    | true =>
      obtain ⟨r, nowOpen, longer⟩ := thenPart.extend other elsePart
      exact ⟨_, _, ifOnly keyword opening condition closing longer⟩
  | forLoop keyword opening _ _ mark _ closing _ first condition increment body =>
    obtain ⟨s, isOpen, body⟩ := body
    exact ⟨_, _, forLoop keyword opening first condition mark increment closing body⟩
  | noClause mark => exact noClause mark
  | variableClause keyword _ decl => exact variableClause keyword decl
  | expressionClause _ mark inner => exact expressionClause inner mark
  | bareVariable named mark => exact bareVariable named mark
  | initializedVariable named sign _ mark value => exact initializedVariable named sign value mark
  | variableDeclaration keyword _ decl => exact ⟨_, variableDeclaration keyword decl⟩
  | functionDeclaration keyword _ decl =>
    obtain ⟨d, decl⟩ := decl
    exact ⟨_, functionDeclaration keyword decl⟩
  | plainClass keyword named opening _ closing body =>
    obtain ⟨ds, body⟩ := body
    exact ⟨_, plainClass keyword named opening body closing⟩
  | subclass keyword named mark parent opening _ closing body =>
    obtain ⟨ds, body⟩ := body
    exact ⟨_, subclass keyword named mark parent opening body closing⟩
  | statement _ inner =>
    obtain ⟨s, isOpen, inner⟩ := inner
    exact ⟨_, statement inner⟩
  | function named opening params few closing start _ stop body =>
    obtain ⟨ss, body⟩ := body
    exact ⟨_, function named opening params few closing start body stop⟩
  | noMethods => exact ⟨_, noMethods⟩
  | moreMethods _ _ first rest =>
    obtain ⟨d, first⟩ := first
    obtain ⟨ds, rest⟩ := rest
    exact ⟨_, moreMethods first rest⟩
  | noDeclarations => exact ⟨_, noDeclarations⟩
  | moreDeclarations _ _ first rest =>
    obtain ⟨s, first⟩ := first
    obtain ⟨ss, rest⟩ := rest
    exact ⟨_, moreDeclarations first rest⟩

/-- Every derivation with `else` at the nearest `if` is one with `else` at any. -/
theorem Derives.relax (derived : Derives .nearest phrase ts i j) : Derives .any phrase ts i j := by
  induction derived with
  | literal value => exact literal value
  | this keyword => exact this keyword
  | use named => exact use named
  | super keyword mark named => exact super keyword mark named
  | noArguments => exact noArguments
  | absent => exact absent
  | noClause mark => exact noClause mark
  | bareVariable named mark => exact bareVariable named mark
  | noMethods => exact noMethods
  | noDeclarations => exact noDeclarations
  | call _ opening _ few closing callee args => exact call callee opening args few closing
  | get _ mark named object => exact get object mark named
  | sign operator _ operand => exact sign operator operand
  | join operator _ tighter _ left right => exact join operator left tighter right
  | assign named mark _ value => exact assign named mark value
  | set _ dotted named mark _ object value => exact set object dotted named mark value
  | ifElse keyword opening _ closing _ _ other _ condition thenPart elsePart =>
    exact ifElse keyword opening condition closing thenPart nofun other elsePart
  | functionDeclaration keyword _ decl => exact functionDeclaration keyword decl
  | plainClass keyword named opening _ closing body => exact plainClass keyword named opening body closing
  | subclass keyword named mark parent opening _ closing body =>
    exact subclass keyword named mark parent opening body closing
  | _ => constructor <;> assumption

end Lox.Grammar
namespace Lox
open Grammar

/-- Tokens are read as a program without complaint exactly if the grammar derives them, and the tree
is then the only one that the grammar gives them with each `else` at the nearest `if`: operators lean
to the left, assignments to the right, and a `for` is the loop it stands for. -/
theorem parse_eq_iff_derives (lastId : NodeId) (scan : Scan) :
    ((parse lastId scan).errors = [] ↔
      ∃ statements last, Derives .any (.declarations statements) scan.tokens lastId last) ∧
    ∀ statements last, parse lastId scan = ⟨statements, [], last⟩ ↔
      Derives .nearest (.declarations statements) scan.tokens lastId last := by
  refine ⟨⟨fun clean => ⟨_, _, (Parse.parse_sound lastId scan clean).relax⟩, ?_⟩, ?_⟩
  · rintro ⟨statements, last, derived⟩
    obtain ⟨ss, nearest⟩ := derived.rederives
    rw [Parse.parse_complete nearest]
  · intro statements last
    refine ⟨fun read => ?_, Parse.parse_complete⟩
    have derived := Parse.parse_sound lastId scan (by rw [read])
    rwa [read] at derived

end Lox
