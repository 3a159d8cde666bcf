import Lox.Proofs.Evaluation.Likeness
import Lox.Proofs.Resolution.Respelling

/-! A well scoped program is alike to itself and to what it becomes when it is written anew. What a run
reads is bound by then: a use finds its scope, and in it everything declared before. Only an assignment
to a variable in its own initializer comes too early. -/
namespace Lox.Likeness

/-- What is compared: the same table on both sides, for nodes up to the given one. -/
def pairing (w : Respelling) (last : NodeId) (strict : Prop) : Pairing :=
  ⟨w.locals, w.locals, fun i j => i = j ∧ i ≤ last, w.Respells, strict⟩

/-- More nodes of the same programs. -/
theorem pairing_within {w w' : Respelling} (later : i ≤ j)
    (respells : ∀ name other, w.Respells name other → w'.Respells name other)
    (keeps : ∀ node, node ≤ i → w'.locals[node]? = w.locals[node]?) :
    (pairing w i strict).Within (pairing w' j strict) := by
  refine ⟨?_, ?_, ?_, respells _ _, id⟩
  · rintro _ _ ⟨same, old⟩
    exact ⟨same, Nat.le_trans old later⟩
  · rintro _ _ ⟨-, old⟩
    exact keeps _ old
  · rintro _ _ ⟨rfl, old⟩
    exact keeps _ old

/-- The layers of scopes, of which the one at the given depth is renamed. -/
def layers (ρ : Renaming) : Depth → Scopes → Layers
  | _, [] => []
  | none, top :: outer => ⟨.same, top⟩ :: layers ρ none outer
  | some 0, top :: outer => ⟨ρ, top⟩ :: layers ρ none outer
  | some (k + 1), top :: outer => ⟨.same, top⟩ :: layers ρ (some k) outer

@[simp] theorem layers_nil (ρ : Renaming) (depth : Depth) : layers ρ depth [] = [] := by
  unfold layers
  rfl

private theorem layers_inward (ρ : Renaming) (depth : Depth) (top : Table Bool) (Γ : Scopes) :
    layers ρ depth.inward (top :: Γ) = ⟨.same, top⟩ :: layers ρ depth Γ := by
  cases depth <;> rfl

private theorem layers_enter (ρ : Renaming) (depth : Depth) (Γ : Scopes) (name : Text) :
    layers ρ depth (Γ.enter name true) = (layers ρ depth Γ).enter name := by
  cases Γ with
  | nil => simp [Scopes.enter, Layers.enter]
  | cons top outer =>
    cases depth with
    | none => rfl
    | some k => cases k <;> rfl

private theorem layers_after (ρ : Renaming) (depth : Depth) (Γ : Scopes) (s : Stmt) :
    layers ρ depth (s.after Γ) = (layers ρ depth Γ).after s := by
  cases declared : s.declared? with
  | none => simp only [Stmt.after, Layers.after, declared]
  | some name => simp only [Stmt.after, Layers.after, declared, layers_enter]

/-- The layer of a scope. -/
theorem layers_getElem? (ρ : Renaming) (depth : Depth) (Γ : Scopes) (d : Nat) (scope : Γ[d]? = some top) :
    ∃ layer, (layers ρ depth Γ)[d]? = some layer ∧ layer.names = top ∧
      ∀ name, layer.spelling name = if depth = some d then ρ name else name := by
  induction Γ generalizing depth d with
  | nil => cases scope
  | cons first outer ih =>
    cases d with
    | zero =>
      cases scope
      match depth with
      | none => exact ⟨_, rfl, rfl, fun _ => rfl⟩
      | some 0 => exact ⟨_, rfl, rfl, fun _ => rfl⟩
      | some (k + 1) => exact ⟨_, rfl, rfl, fun _ => rfl⟩
    | succ d =>
      match depth with
      | none => simpa [layers] using ih none d scope
      | some 0 => simpa [layers] using ih none d scope
      | some (k + 1) => simpa [layers] using ih (some k) d scope

/-- The innermost layer renames what is declared in its scope. -/
theorem layers_spelling (ρ : Renaming) {depth : Depth} {Γ : Scopes}
    (deep : ∀ k, depth = some k → k < Γ.length) (name : Text) :
    (layers ρ depth Γ).spelling name = if depth = some 0 then ρ name else name := by
  cases Γ with
  | nil =>
    have outside : depth ≠ some 0 := fun here => Nat.not_lt_zero _ (deep 0 here)
    rw [layers_nil, if_neg outside]
    rfl
  | cons top outer =>
    match depth with
    | none => rfl
    | some 0 => rfl
    | some (k + 1) => rfl

/-! Names and the scopes that have them. -/

private theorem distance?_enter (apart : name ≠ other) (Γ : Scopes) :
    Resolver.distance? (Γ.enter name ready) other = Resolver.distance? Γ other := by
  cases Γ with
  | nil => rfl
  | cons top outer =>
    have same : (top.insert name ready).contains other = top.contains other := by
      rw [Table.contains_insert, decide_eq_false apart, Bool.false_or]
    rw [Scopes.enter, Scopes.distance?_cons, Scopes.distance?_cons, same]

/-- The scope at the distance of a name has it. -/
theorem contains_of_distance? {Γ : Scopes} (found : Resolver.distance? Γ name = some d) :
    ∃ top, Γ[d]? = some top ∧ top.contains name = true := by
  obtain ⟨inside, has, _⟩ := List.findIdx?_eq_some_iff_getElem.1 found
  exact ⟨Γ[d], List.getElem?_eq_getElem inside, has⟩

/-- All names are ready: no initializer is being evaluated. -/
def AllReady (Γ : Scopes) : Prop := ∀ top ∈ Γ, ∀ name, top.find? name ≠ some false

/-- Inside a class `this` is in scope, and with a superclass `super` right around it. -/
structure Framed (within : ClassContext) (Γ : Scopes) : Prop where
  this : within ≠ .outside → ∃ d, Resolver.distance? Γ Names.this = some d
  super : within = .subclass →
    ∃ d, Resolver.distance? Γ Names.this = some d ∧ Resolver.distance? Γ Names.super = some (d + 1)

/-- What is found in `Γ` is there in `Δ` too, and ready, except for the name of the variable whose
initializer is being evaluated. -/
def Covers (Γ Δ : Scopes) (hole : Option Text) : Prop :=
  ∀ name d, Resolver.distance? Γ name = some d →
    ∃ top, Δ[d]? = some top ∧ (hole ≠ some name → top.find? name = some true)

private theorem AllReady.covers {Γ : Scopes} (ready : AllReady Γ) : Covers Γ Γ none := by
  intro name d found
  obtain ⟨top, here, has⟩ := contains_of_distance? found
  refine ⟨top, here, fun _ => ?_⟩
  obtain ⟨mark, bound⟩ := Table.contains_eq_true.1 has
  cases mark with
  | true => exact bound
  | false => exact absurd bound (ready top (List.mem_of_getElem? here) name)

/-- While a name is entered, everything else is found as before. -/
theorem AllReady.covers_enter {Γ : Scopes} (ready : AllReady Γ) (name : Text) (mark : Bool) :
    Covers (Γ.enter name mark) Γ (some name) := by
  intro other d found
  by_cases same : name = other
  · cases Γ with
    | nil => cases found
    | cons top outer =>
      rw [Scopes.enter, Scopes.distance?_cons, Table.contains_insert, decide_eq_true same, Bool.true_or,
        if_pos rfl] at found
      cases found
      exact ⟨top, rfl, fun apart => absurd (congrArg some same) apart⟩
  · rw [distance?_enter same] at found
    obtain ⟨top, here, bound⟩ := ready.covers other d found
    exact ⟨top, here, fun _ => bound (by simp)⟩

private theorem Framed.enter {Γ : Scopes} (framed : Framed within Γ) (ordinary : Ordinary name) :
    Framed within (Γ.enter name mark) := by
  constructor
  · rw [distance?_enter ordinary.1]
    exact framed.this
  · rw [distance?_enter ordinary.1, distance?_enter ordinary.2]
    exact framed.super

/-- The scopes in which an expression is resolved, and those it is evaluated in. -/
structure Sight (within : ClassContext) (Γ Δ : Scopes) (hole : Option Text) : Prop where
  covers : Covers Γ Δ hole
  framed : Framed within Γ
  ordinary : hole = some name → Ordinary name
  unready : hole = some name → ¬ Γ.Ready name

private theorem Sight.here {Γ : Scopes} (ready : AllReady Γ) (framed : Framed within Γ) : Sight within Γ Γ none :=
  ⟨ready.covers, framed, nofun, nofun⟩

/-- In the initializer of a local variable. -/
theorem Sight.initializer (ready : AllReady (top :: Γ)) (framed : Framed within (top :: Γ))
    (ordinary : Ordinary name) :
    Sight within (Scopes.enter name false (top :: Γ)) (top :: Γ) (some name) := by
  refine ⟨ready.covers_enter name false, framed.enter ordinary, ?_, ?_⟩
  · rintro _ ⟨⟩
    exact ordinary
  · rintro _ ⟨⟩ settled
    exact settled (top.insert name false) rfl (by simp)

section
variable {w : Respelling} {ok : Text → Prop} {ρ : Renaming} {last : NodeId} {strict : Prop}

/-- A use of a variable and its new spelling mean the same variable. -/
theorem refers (sound : w.Sound ok ρ) (covers : Covers Γ Δ hole) (named : ok ref.name.text)
    (recorded : w.locals.Records Γ ref.id ref.name.text) (old : ref.id ≤ last)
    (apart : sure → hole ≠ some ref.name.text) (depth : Depth) :
    Refers (pairing w last strict) (layers ρ depth Δ) sure ref.id ref.name.text (w.used depth ref).id
      (w.used depth ref).name.text := by
  rw [used_text sound named recorded]
  cases found : Resolver.distance? Γ ref.name.text with
  | none =>
    have outside : ¬ (depth.isSome = true ∧ none = depth) := by
      rintro ⟨inside, rfl⟩
      cases inside
    rw [if_neg outside]
    exact .global ⟨rfl, old⟩ (recorded.trans found) (recorded.trans found)
  | some d =>
    obtain ⟨top, here, bound⟩ := covers _ d found
    obtain ⟨layer, there, rfl, spelling⟩ := layers_getElem? ρ depth Δ d here
    have text : (if depth.isSome = true ∧ some d = depth then ρ ref.name.text else ref.name.text) =
        layer.spelling ref.name.text := by
      rw [spelling]
      by_cases same : depth = some d
      · simp [same]
      · rw [if_neg same, if_neg fun both => same both.2.symm]
    rw [text]
    exact .inScope ⟨rfl, old⟩ (recorded.trans found) (recorded.trans found) there fun sure => bound (apart sure)

/-- Inside a class the word finds its layer. -/
theorem word_layer (ρ : Renaming) (covers : Covers Γ Δ hole) (apart : hole ≠ some name)
    (found : Resolver.distance? Γ name = some d) (depth : Depth) :
    ∃ layer, (layers ρ depth Δ)[d]? = some layer ∧ layer.Binds name := by
  obtain ⟨top, here, bound⟩ := covers name d found
  obtain ⟨layer, there, rfl, _⟩ := layers_getElem? ρ depth Δ d here
  exact ⟨layer, there, bound apart⟩

mutual

/-- An expression and its new spelling. A variable is not assigned to in its own initializer, if the
comparison is strict. -/
theorem expr_alike (sound : w.Sound ok ρ) (sight : Sight within Γ Δ hole) (depth : Depth) : (e : Expr) →
    e.Formed ok → e.Scoped w.locals within Γ → (∀ node ∈ e.ids, node ≤ last) →
    (strict → ∀ name, hole = some name → e.assigns name = false) →
    Alike (pairing w last strict) inside (layers ρ depth Δ) (.expr e) (.expr (e.respelled w depth))
  | .literal _, _, _, _, _ => .literal
  | .group inner, formed, found, old, spared =>
    .group (expr_alike sound sight depth inner formed found old spared)
  | .unary _ _ operand, formed, found, old, spared =>
    .unary .kept (expr_alike sound sight depth operand formed found old spared)
  | .binary _ _ a b, formed, found, old, spared =>
    have old := List.forall_mem_append.1 old
    have spared := fun strict name hole => Bool.or_eq_false_iff.1 (spared strict name hole)
    .binary .kept
      (expr_alike sound sight depth a formed.1 found.1 old.1 fun strict name hole => (spared strict name hole).1)
      (expr_alike sound sight depth b formed.2 found.2 old.2 fun strict name hole => (spared strict name hole).2)
  | .logical _ a b, formed, found, old, spared =>
    have old := List.forall_mem_append.1 old
    have spared := fun strict name hole => Bool.or_eq_false_iff.1 (spared strict name hole)
    .logical
      (expr_alike sound sight depth a formed.1 found.1 old.1 fun strict name hole => (spared strict name hole).1)
      (expr_alike sound sight depth b formed.2 found.2 old.2 fun strict name hole => (spared strict name hole).2)
  | .use ref, named, ⟨recorded, ready⟩, old, _ =>
    .use (refers sound sight.covers named recorded (old _ (List.mem_singleton.2 rfl))
      (fun _ hole => sight.unready hole ready) depth) (w.respells_used depth ref)
  | .assign ref value, ⟨formed, named⟩, ⟨found, recorded⟩, old, spared =>
    have old := List.forall_mem_append.1 old
    have spared := fun strict name hole => Bool.or_eq_false_iff.1 (spared strict name hole)
    .assign
      (refers sound sight.covers named recorded (old.2 _ (List.mem_singleton.2 rfl))
        (fun strict hole => by simpa using (spared strict _ hole).1) depth)
      (sound.ordinary named) (w.respells_used depth ref)
      (expr_alike sound sight depth value formed found old.1 fun strict name hole => (spared strict name hole).2)
  | .call callee arguments _, formed, found, old, spared =>
    have old := List.forall_mem_append.1 old
    have spared := fun strict name hole => Bool.or_eq_false_iff.1 (spared strict name hole)
    .call
      (expr_alike sound sight depth callee formed.1 found.1 old.1 fun strict name hole => (spared strict name hole).1)
      (exprs_alike sound sight depth arguments formed.2 found.2 old.2 fun strict name hole =>
        (spared strict name hole).2)
      .kept
  | .get object _, formed, found, old, spared =>
    .get (expr_alike sound sight depth object formed found old spared) ⟨rfl, .kept⟩
  | .set object _ value, formed, found, old, spared =>
    have old := List.forall_mem_append.1 old
    have spared := fun strict name hole => Bool.or_eq_false_iff.1 (spared strict name hole)
    .set
      (expr_alike sound sight depth object formed.1 found.1 old.2 fun strict name hole => (spared strict name hole).1)
      ⟨rfl, .kept⟩
      (expr_alike sound sight depth value formed.2 found.2 old.1 fun strict name hole => (spared strict name hole).2)
  | .self node _, _, ⟨inside, recorded⟩, old, _ => by
    obtain ⟨d, distance⟩ := sight.framed.this inside
    obtain ⟨layer, here, bound⟩ := word_layer ρ sight.covers (fun hole => (sight.ordinary hole).1 rfl) distance depth
    have refers : Refers (pairing w last strict) (layers ρ depth Δ) True node Names.this node
        (layer.spelling Names.this) :=
      .inScope ⟨rfl, old _ (List.mem_singleton.2 rfl)⟩ (recorded.trans distance) (recorded.trans distance) here
        fun _ => bound
    rw [layer.spelling.this] at refers
    exact .self refers .kept
  | .superMethod node _ _, _, ⟨inside, recorded⟩, old, _ => by
    obtain ⟨d, distance, further⟩ := sight.framed.super inside
    obtain ⟨own, here, this⟩ := word_layer ρ sight.covers (fun hole => (sight.ordinary hole).1 rfl) distance depth
    obtain ⟨home, there, super⟩ := word_layer ρ sight.covers (fun hole => (sight.ordinary hole).2 rfl) further depth
    exact .superMethod ⟨rfl, old _ (List.mem_singleton.2 rfl)⟩ (recorded.trans further) (recorded.trans further)
      there super here this ⟨rfl, .kept⟩

theorem exprs_alike (sound : w.Sound ok ρ) (sight : Sight within Γ Δ hole) (depth : Depth) : (es : List Expr) →
    Expr.FormedAll ok es → Expr.ScopedAll w.locals within Γ es → (∀ node ∈ Expr.idsAll es, node ≤ last) →
    (strict → ∀ name, hole = some name → Expr.anyAssigns name es = false) →
    Alike (pairing w last strict) inside (layers ρ depth Δ) (.exprs es) (.exprs (Expr.respelledAll w depth es))
  | [], _, _, _, _ => .noExprs
  | e :: rest, formed, found, old, spared =>
    have old := List.forall_mem_append.1 old
    have spared := fun strict name hole => Bool.or_eq_false_iff.1 (spared strict name hole)
    .moreExprs
      (expr_alike sound sight depth e formed.1 found.1 old.1 fun strict name hole => (spared strict name hole).1)
      (exprs_alike sound sight depth rest formed.2 found.2 old.2 fun strict name hole => (spared strict name hole).2)

end

/-! Scopes further in. -/

private theorem deep_inward {depth : Depth} {n : Nat} (deep : ∀ k, depth = some k → k < n) :
    ∀ k, depth.inward = some k → k < n + 1 := by
  intro k here
  obtain ⟨outer, same, rfl⟩ := Option.map_eq_some_iff.1 here
  exact Nat.succ_lt_succ (deep outer same)

/-- Scopes as they are around a statement. -/
structure Standing (depth : Depth) (within : ClassContext) (Γ : Scopes) : Prop where
  ready : AllReady Γ
  framed : Framed within Γ
  deep : ∀ k, depth = some k → k < Γ.length

namespace Standing

private theorem enter {Γ : Scopes} (standing : Standing depth within Γ) (ordinary : Ordinary name) :
    Standing depth within (Γ.enter name true) := by
  refine ⟨?_, standing.framed.enter ordinary, fun k here => ?_⟩
  · cases Γ with
    | nil => exact nofun
    | cons top outer =>
      obtain ⟨here, further⟩ := List.forall_mem_cons.1 standing.ready
      refine List.forall_mem_cons.2 ⟨fun other => ?_, further⟩
      rw [Table.find?_insert]
      split
      · nofun
      · exact here other
  · rw [Scopes.length_enter]
    exact standing.deep k here

private theorem after {Γ : Scopes} (standing : Standing depth within Γ) (formed : Stmt.Formed ok s)
    (ordinary : ∀ {name}, ok name → Ordinary name) : Standing depth within (s.after Γ) := by
  unfold Stmt.after
  split
  · exact standing
  · rename_i declares
    exact standing.enter (ordinary (formed.declared declares))

/-- Inside one more scope that has no word of the language. -/
theorem push {Γ : Scopes} {inner : Depth} (standing : Standing depth within Γ) (enters : Enters name vars depth inner)
    (ready : ∀ name, top.find? name ≠ some false) (ordinary : ∀ name, top.contains name = true → Ordinary name) :
    Standing inner within (top :: Γ) := by
  have absent : ∀ word, ¬ Ordinary word → top.contains word = false := fun word reserved =>
    Bool.eq_false_iff.2 fun has => reserved (ordinary word has)
  have this := absent Names.this fun ordinary => ordinary.1 rfl
  have super := absent Names.super fun ordinary => ordinary.2 rfl
  refine ⟨List.forall_mem_cons.2 ⟨ready, standing.ready⟩, ⟨fun inside => ?_, fun inside => ?_⟩, ?_⟩
  · obtain ⟨d, found⟩ := standing.framed.this inside
    exact ⟨d + 1, by simp [Scopes.distance?_cons, this, found]⟩
  · obtain ⟨d, found, further⟩ := standing.framed.super inside
    exact ⟨d + 1, by simp [Scopes.distance?_cons, this, found], by simp [Scopes.distance?_cons, super, further]⟩
  · cases enters with
    | pass => exact deep_inward standing.deep
    | choose =>
      rintro _ ⟨⟩
      exact Nat.succ_pos _

private theorem ready_word (word name : Text) : Table.find? [(word, true)] name ≠ some false := by
  rw [Table.find?_single]
  split <;> nofun

/-- Inside a class. -/
theorem plain {Γ : Scopes} (standing : Standing depth within Γ) :
    Standing depth.inward .plain (thisScope :: Γ) := by
  refine ⟨List.forall_mem_cons.2 ⟨ready_word _, standing.ready⟩, ⟨fun _ => ⟨0, ?_⟩, nofun⟩,
    deep_inward standing.deep⟩
  rw [Scopes.distance?_cons, if_pos (by decide)]

/-- Inside a class with a superclass. -/
theorem sub {Γ : Scopes} (standing : Standing depth within Γ) :
    Standing depth.inward.inward .subclass (thisScope :: superScope :: Γ) := by
  have this : Resolver.distance? (thisScope :: superScope :: Γ) Names.this = some 0 := by
    rw [Scopes.distance?_cons, if_pos (by decide)]
  have super : Resolver.distance? (thisScope :: superScope :: Γ) Names.super = some 1 := by
    rw [Scopes.distance?_cons, if_neg (by decide), Scopes.distance?_cons, if_pos (by decide)]
    rfl
  have ready : AllReady (thisScope :: superScope :: Γ) :=
    List.forall_mem_cons.2 ⟨ready_word _, List.forall_mem_cons.2 ⟨ready_word _, standing.ready⟩⟩
  exact ⟨ready, ⟨fun _ => ⟨0, this⟩, fun _ => ⟨0, this, super⟩⟩, deep_inward (deep_inward standing.deep)⟩

end Standing

/-! Statements. -/

/-- Whether code may return: functions may, and statements in them. -/
def mayReturn (around : Surroundings) : Code → Bool
  | .function _ => true
  | .functions _ => true
  | _ => decide (around.function ≠ .topLevel)

/-- Functions are only declared inside of functions and classes. -/
def Placed (around : Surroundings) : Code → Prop
  | .function _ => around.function ≠ .topLevel
  | _ => True

/-- An expression with no initializer around it. -/
theorem Standing.expr_alike {w : Respelling} (standing : Standing depth within Γ) (sound : w.Sound ok ρ)
    (formed : e.Formed ok) (found : e.Scoped w.locals within Γ) (old : ∀ node ∈ e.ids, node ≤ last) :
    Alike (pairing w last strict) inside (layers ρ depth Γ) (.expr e) (.expr (e.respelled w depth)) := by
  refine Likeness.expr_alike sound (.here standing.ready standing.framed) depth e formed found old ?_
  rintro _ _ ⟨⟩

/-- The layers inside a scope, and the names that it gives to its parameters and variables. -/
theorem enters_layers {inner : Depth} (sound : w.Sound ok ρ) (enters : Enters name vars depth inner) :
    ∃ σ : Renaming,
    (∀ top Γ, layers ρ inner (top :: Γ) = ⟨σ, top⟩ :: layers ρ depth Γ) ∧
      ∀ param, ok param.text → (w.declared inner param).text = σ param.text := by
  cases enters with
  | pass =>
    refine ⟨.same, layers_inward ρ depth, fun param named => ?_⟩
    have elsewhere : depth.inward ≠ some 0 := by cases depth <;> simp [Depth.inward]
    rw [declared_text sound named, if_neg elsewhere]
    rfl
  | choose =>
    refine ⟨ρ, fun _ _ => rfl, fun param named => ?_⟩
    rw [declared_text sound named, if_pos rfl]

/-- Functions and classes keep their names. -/
theorem kept_title (sound : w.Sound ok ρ) (standing : Standing depth within Γ) (named : ok name.text)
    (same : other.text = name.text) (apart : depth = some 0 → some name.text ≠ some w.old) :
    Kept (layers ρ depth Γ) name other := by
  refine ⟨same, ?_, sound.ordinary named⟩
  rw [layers_spelling ρ standing.deep, title_text sound named apart]

/-- A well scoped program and the same program written anew. -/
theorem respelled_alike (sound : w.Sound ok ρ) (respelled : Respelled w depth c c')
    (standing : Standing depth around.enclosingClass Γ) (formed : c.Formed ok)
    (found : c.Scoped w.locals around Γ) (old : ∀ node ∈ c.ids, node ≤ last)
    (spared : strict → c.assignsInOwn (!Γ.isEmpty) = false) (titles : depth = some 0 → c.Untitled w.old)
    (placed : Placed around c) :
    Alike (pairing w last strict) (mayReturn around c) (layers ρ depth Γ) c c' := by
  induction respelled generalizing around Γ with
  | expression => exact .expression (standing.expr_alike sound formed found old)
  | print => exact .print (standing.expr_alike sound formed found old)
  | @declare depth name value =>
    have renamed : ok name.text → (w.declared depth name).text = (layers ρ depth Γ).spelling name.text :=
      fun named => by rw [layers_spelling ρ standing.deep, declared_text sound named]
    cases value with
    | none => exact .declare (renamed formed) (sound.ordinary formed)
    | some e =>
      obtain ⟨named, formed⟩ := formed
      have ordinary := sound.ordinary named
      refine .declareWith (renamed named) ordinary ?_
      cases Γ with
      | nil => exact standing.expr_alike sound formed found.2 old
      | cons top outer =>
        refine expr_alike sound (.initializer standing.ready standing.framed ordinary) depth e formed found.2 old ?_
        rintro strict _ ⟨⟩
        exact spared strict
  | block enters _ ih =>
    obtain ⟨σ, inner, _⟩ := enters_layers sound enters
    have body := ih (standing.push enters (fun _ => by simp) fun _ has => by cases has) formed found old spared
      (fun here => Stmt.ScopedAll.untitled found (.inr (enters.declares here))) trivial
    rw [inner] at body
    exact .block body
  | ifOnly _ ih =>
    obtain ⟨first, second, still⟩ := formed
    obtain ⟨old, old'⟩ := List.forall_mem_append.1 old
    exact .ifOnly (standing.expr_alike sound first found.1 old)
      (ih standing second found.2 old' spared (fun _ => Stmt.untitled_of_still still) trivial)
  | ifElse _ _ ih ih' =>
    obtain ⟨first, ⟨second, still⟩, third, still'⟩ := formed
    obtain ⟨old, others⟩ := List.forall_mem_append.1 old
    obtain ⟨old', old''⟩ := List.forall_mem_append.1 others
    exact .ifElse (standing.expr_alike sound first found.1 old)
      (ih standing second found.2.1 old' (fun strict => (Bool.or_eq_false_iff.1 (spared strict)).1)
        (fun _ => Stmt.untitled_of_still still) trivial)
      (ih' standing third found.2.2 old'' (fun strict => (Bool.or_eq_false_iff.1 (spared strict)).2)
        (fun _ => Stmt.untitled_of_still still') trivial)
  | loop _ ih =>
    obtain ⟨first, second, still⟩ := formed
    obtain ⟨old, old'⟩ := List.forall_mem_append.1 old
    exact .loop (standing.expr_alike sound first found.1 old)
      (ih standing second found.2 old' spared (fun _ => Stmt.untitled_of_still still) trivial)
  | function decl ih =>
    have named := Stmt.Formed.declared formed rfl
    have inner := @ih _ { around with function := .function } (standing.enter (sound.ordinary named))
      formed found.2 old spared (fun _ => trivial) (by simp [Placed])
    rw [layers_enter] at inner
    exact .function (kept_title sound standing named decl.functionName titles) inner
  | @ret depth line value =>
    have inside : mayReturn around (.stmt (.ret line value)) = true := by
      cases value with
      | none => exact decide_eq_true found
      | some _ => exact decide_eq_true found.1
    rw [inside]
    cases value with
    | none => exact .ret
    | some e => exact .retValue (standing.expr_alike sound formed found.2.2 old)
  | plainClass _ ih =>
    obtain ⟨named, formed⟩ := formed
    have inner := @ih _ { around with enclosingClass := .plain }
      (standing.enter (sound.ordinary named)).plain formed found.2 old spared (fun _ => trivial) trivial
    rw [thisScope, layers_inward, layers_enter] at inner
    exact .plainClass (kept_title sound standing named rfl titles) inner
  | subclass _ ih =>
    obtain ⟨named, parent, formed⟩ := formed
    obtain ⟨free, apart, ⟨recorded, ready⟩, found⟩ := found
    obtain ⟨old, old'⟩ := List.forall_mem_cons.1 old
    have inner := @ih _ { around with enclosingClass := .subclass }
      (standing.enter (sound.ordinary named)).sub formed found old' spared (fun _ => trivial) trivial
    rw [thisScope, superScope, layers_inward, layers_inward, layers_enter] at inner
    refine .subclass (kept_title sound standing named rfl titles) ?_ (w.respells_used _ _) inner
    exact refers sound (standing.ready.covers_enter _ true) parent recorded old
      (fun _ same => apart (Option.some.inj same).symm) _
  | noStmts => exact .noStmts
  | moreStmts _ _ ih ih' =>
    obtain ⟨formed, others⟩ := formed
    obtain ⟨old, old'⟩ := List.forall_mem_append.1 old
    have here := ih standing formed found.1 old (fun strict => (Bool.or_eq_false_iff.1 (spared strict)).1)
      (fun top => titles top _ List.mem_cons_self) trivial
    have later := ih' (standing.after formed sound.ordinary) others found.2 old' (fun strict => by
        rw [show (Stmt.after Γ _).isEmpty = Γ.isEmpty from Stmt.isEmpty_after _ Γ]
        exact (Bool.or_eq_false_iff.1 (spared strict)).2)
      (fun top s member => titles top s (List.mem_cons_of_mem _ member)) trivial
    rw [layers_after] at later
    exact .moreStmts here later
  | @decl ss depth ss' name params inner enters body ih =>
    obtain ⟨_, named, formed⟩ := formed
    obtain ⟨distinct, found⟩ := found
    obtain ⟨σ, scopes, spelled⟩ := enters_layers sound enters
    have texts : (params.map (w.declared inner)).map (·.text) = params.map fun q => σ q.text := by
      rw [List.map_map]
      exact List.map_congr_left fun param member => spelled param (named param member)
    have bound : ∀ other, (paramScope params).find? other = if other ∈ params.map (·.text) then some true else none :=
      find?_paramScope params
    have standing' := standing.push enters (fun other => by rw [bound]; split <;> simp)
      (fun other has => by
        rw [Table.contains, bound] at has
        split at has
        · rename_i member
          obtain ⟨param, here, rfl⟩ := List.mem_map.1 member
          exact sound.ordinary (named param here)
        · cases has)
    have body := ih standing' formed found old spared (fun here => Stmt.ScopedAll.untitled found (by
      rcases List.mem_append.1 (enters.declares here) with param | declared
      · rw [Table.contains, find?_paramScope, if_pos param]
        exact .inl rfl
      · exact .inr declared)) trivial
    rw [scopes, show mayReturn around (.stmts ss) = true from decide_eq_true placed] at body
    exact .decl rfl texts (fun param member => sound.ordinary (named param member)) body
  | noFunctions => exact .noFunctions
  | @moreFunctions depth d d' ds ds' first _ ih ih' =>
    obtain ⟨old, old'⟩ := List.forall_mem_append.1 old
    have inFunction : methodContext d.name ≠ .topLevel := by
      unfold methodContext
      split <;> simp
    have here := @ih _ { around with function := methodContext d.name } standing formed.1 found.1 old
      (fun strict => (Bool.or_eq_false_iff.1 (spared strict)).1) (fun _ => trivial) inFunction
    exact .moreFunctions here (ih' standing formed.2 found.2 old'
      (fun strict => (Bool.or_eq_false_iff.1 (spared strict)).2) (fun _ => trivial) trivial)

end
end Lox.Likeness
