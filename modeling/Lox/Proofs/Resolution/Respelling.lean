import Lox.Proofs.Resolution.Exactness
import Lox.Proofs.Tree.Respelling

/-! A well scoped program written anew is well scoped, in the same table. This needs that the new name
of a variable occurs nowhere in the program: a use that is renamed still finds its own scope first, and
one that is not does not find the renamed scope. -/
namespace Lox

/-- The renaming spells all names that satisfy `ok` as it should, and no two of them alike in different
scopes. -/
structure Respelling.Sound (w : Respelling) (ok : Text → Prop) (ρ : Renaming) : Prop where
  ordinary : ok name → Ordinary name
  spelled : ok name → w.spell name = ρ name
  apart : ok a → ok b → ρ a = b → a = b

/-- Names that a scope can have. -/
def Nameable (ok : Text → Prop) (name : Text) : Prop := ok name ∨ ¬ Ordinary name

/-- The scopes have no other names than those. -/
def Scopes.Nameable (ok : Text → Prop) (Γ : Scopes) : Prop :=
  ∀ top ∈ Γ, ∀ name, top.contains name = true → Lox.Nameable ok name

/-- A new name is not another one's old name. -/
theorem Respelling.Sound.eq_of_spelled {w : Respelling} (sound : w.Sound ok ρ) (first : Nameable ok a)
    (second : Nameable ok b) (same : ρ a = b) : a = b := by
  rcases first with first | word
  · rcases second with second | word
    · exact sound.apart first second same
    · exact ρ.injective a b (same.trans (ρ.word word).symm)
  · rwa [ρ.word word] at same

namespace Scopes

/-- The scopes of the new program: the one at the given depth is renamed. -/
def respelled (ρ : Renaming) : Depth → Scopes → Scopes
  | some 0, top :: outer => top.renamed ρ :: outer
  | some (k + 1), top :: outer => top :: respelled ρ (some k) outer
  | _, Γ => Γ

@[simp] theorem respelled_none (ρ : Renaming) (Γ : Scopes) : respelled ρ none Γ = Γ := by
  cases Γ <;> rfl

@[simp] theorem respelled_nil (ρ : Renaming) (depth : Depth) : respelled ρ depth [] = [] := by
  cases depth with
  | none => rfl
  | some k => cases k <;> rfl

private theorem respelled_inward (ρ : Renaming) (depth : Depth) (top : Table Bool) (Γ : Scopes) :
    respelled ρ depth.inward (top :: Γ) = top :: respelled ρ depth Γ := by
  cases depth with
  | none => exact congrArg (List.cons top) (respelled_none ρ Γ).symm
  | some k => rfl

private theorem respelled_enter (ρ : Renaming) (depth : Depth) (Γ : Scopes) (name : Text) (ready : Bool) :
    respelled ρ depth (Γ.enter name ready) =
      (respelled ρ depth Γ).enter (if depth = some 0 then ρ name else name) ready := by
  cases Γ with
  | nil => simp [enter]
  | cons top outer =>
    cases depth with
    | none => simp [enter]
    | some k =>
      cases k with
      | zero => simp [enter, respelled, Table.renamed_insert ρ.injective]
      | succ k => simp [enter, respelled]

theorem distance?_cons (top : Table Bool) (Γ : Scopes) (name : Text) :
    Resolver.distance? (top :: Γ) name =
      if top.contains name then some 0 else (Resolver.distance? Γ name).map (· + 1) :=
  List.findIdx?_cons

section
variable {w : Respelling} {ok : Text → Prop} {ρ : Renaming} (sound : w.Sound ok ρ)
include sound

/-- A name of the program that a scope does not have is not among its new names either. -/
theorem absent_renamed {top : Table Bool} (named : ∀ name, top.contains name = true → Lox.Nameable ok name)
    (nameable : Lox.Nameable ok name) (absent : top.contains name = false) :
    (top.renamed ρ).contains name = false := by
  rw [← Bool.not_eq_true] at absent ⊢
  intro bound
  obtain ⟨old, had, same⟩ := Table.exists_of_contains_renamed bound
  cases sound.eq_of_spelled (named old had) nameable same
  exact absent had

/-- A scope does not have the new name of a name that it does not have. -/
theorem absent_spelled {top : Table Bool} (named : ∀ name, top.contains name = true → Lox.Nameable ok name)
    (nameable : Lox.Nameable ok name) (absent : top.contains name = false) :
    top.contains (ρ name) = false := by
  rw [← Bool.not_eq_true] at absent ⊢
  intro bound
  rw [← sound.eq_of_spelled nameable (named _ bound) rfl] at bound
  exact absent bound

/-- A name is found in the same scope, by its new name if that is the renamed one. -/
theorem distance?_respelled {Γ : Scopes} (named : Γ.Nameable ok) (nameable : Lox.Nameable ok name)
    (depth : Depth) :
    Resolver.distance? (Γ.respelled ρ depth)
      (if depth.isSome ∧ Resolver.distance? Γ name = depth then ρ name else name) =
        Resolver.distance? Γ name := by
  induction Γ generalizing depth with
  | nil => simp [Resolver.distance?]
  | cons top outer ih =>
    have here := named top List.mem_cons_self
    have further : Scopes.Nameable ok outer := fun top' member => named top' (List.mem_cons_of_mem _ member)
    match depth with
    | none => simp
    | some 0 =>
      cases has : top.contains name with
      | true => simp [respelled, distance?_cons, has, Table.contains_renamed ρ.injective]
      | false =>
        have absent := absent_renamed sound here nameable has
        simp [respelled, distance?_cons, has, absent]
    | some (k + 1) =>
      have rest := ih further (some k)
      cases has : top.contains name with
      | true => simp [respelled, distance?_cons, has]
      | false =>
        have absent := absent_spelled sound here nameable has
        by_cases there : Resolver.distance? outer name = some k
        · simp only [there, Option.isSome_some, and_self, if_true] at rest
          simp [respelled, distance?_cons, has, there, absent, rest]
        · simp only [there, and_false, if_false] at rest
          simp [respelled, distance?_cons, has, there, rest]

/-- A name that is ready is ready by its new name. -/
theorem ready_respelled {Γ : Scopes} (named : Γ.Nameable ok) (nameable : Lox.Nameable ok name)
    (ready : Γ.Ready name) (depth : Depth) : (Γ.respelled ρ depth).Ready
      (if depth.isSome ∧ Resolver.distance? Γ name = depth then ρ name else name) := by
  cases Γ with
  | nil => simp [Ready]
  | cons top outer =>
    have here := named top List.mem_cons_self
    have still : top.find? name ≠ some false := ready top rfl
    cases has : top.contains name with
    | true =>
      match depth with
      | none => simpa [Ready] using still
      | some 0 => simpa [Ready, respelled, distance?_cons, has, Table.find?_renamed ρ.injective] using still
      | some (k + 1) => simpa [Ready, respelled, distance?_cons, has] using still
    | false =>
      have absent := absent_renamed sound here nameable has
      have absent' := absent_spelled sound here nameable has
      match depth with
      | none => simpa [Ready] using still
      | some 0 => simp [Ready, respelled, distance?_cons, has, Table.find?_of_absent absent]
      | some (k + 1) =>
        rintro _ ⟨⟩
        split
        · rw [Table.find?_of_absent absent']
          nofun
        · exact still

end
end Scopes

section
variable {w : Respelling} {ok : Text → Prop} {ρ : Renaming} (sound : w.Sound ok ρ)
include sound

/-! Uses. -/

theorem used_text {Γ : Scopes} (named : ok ref.name.text) (recorded : w.locals.Records Γ ref.id ref.name.text)
    (depth : Depth) : (w.used depth ref).name.text =
      if depth.isSome ∧ Resolver.distance? Γ ref.name.text = depth then ρ ref.name.text else ref.name.text := by
  simp only [Respelling.used, show w.locals[ref.id]? = _ from recorded, sound.spelled named]

private theorem used_records {Γ : Scopes} (known : Γ.Nameable ok) (named : ok ref.name.text)
    (recorded : w.locals.Records Γ ref.id ref.name.text) (depth : Depth) :
    w.locals.Records (Γ.respelled ρ depth) (w.used depth ref).id (w.used depth ref).name.text := by
  rw [used_text sound named recorded, Locals.Records, Scopes.distance?_respelled sound known (.inl named)]
  exact recorded

private theorem used_ready {Γ : Scopes} (known : Γ.Nameable ok) (named : ok ref.name.text)
    (recorded : w.locals.Records Γ ref.id ref.name.text) (ready : Γ.Ready ref.name.text) (depth : Depth) :
    (Γ.respelled ρ depth).Ready (w.used depth ref).name.text := by
  rw [used_text sound named recorded]
  exact Scopes.ready_respelled sound known (.inl named) ready depth

private theorem word_records {Γ : Scopes} (known : Γ.Nameable ok) (word : ¬ Ordinary name)
    (recorded : w.locals.Records Γ node name) (depth : Depth) :
    w.locals.Records (Γ.respelled ρ depth) node name := by
  have found := Scopes.distance?_respelled sound known (.inr word) depth
  rw [ρ.word word, ite_self] at found
  rw [Locals.Records, found]
  exact recorded

end

mutual

theorem Expr.respelled_scoped {w : Respelling} (sound : w.Sound ok ρ) {Γ : Scopes} (known : Γ.Nameable ok)
    (depth : Depth) : (e : Expr) → e.Formed ok → e.Scoped w.locals within Γ →
    (e.respelled w depth).Scoped w.locals within (Γ.respelled ρ depth)
  | .literal _, _, _ => trivial
  | .group inner, formed, found | .unary _ _ inner, formed, found | .get inner _, formed, found =>
    inner.respelled_scoped sound known depth formed found
  | .binary _ _ a b, ⟨left, right⟩, ⟨first, second⟩ | .logical _ a b, ⟨left, right⟩, ⟨first, second⟩
  | .set a _ b, ⟨left, right⟩, ⟨first, second⟩ =>
    ⟨a.respelled_scoped sound known depth left first, b.respelled_scoped sound known depth right second⟩
  | .use _, named, ⟨recorded, ready⟩ =>
    ⟨used_records sound known named recorded depth, used_ready sound known named recorded ready depth⟩
  | .assign _ value, ⟨formed, named⟩, ⟨found, recorded⟩ =>
    ⟨value.respelled_scoped sound known depth formed found, used_records sound known named recorded depth⟩
  | .call callee arguments _, ⟨left, right⟩, ⟨first, second⟩ =>
    ⟨callee.respelled_scoped sound known depth left first,
      Expr.respelledAll_scoped sound known depth arguments right second⟩
  | .self _ _, _, ⟨inside, recorded⟩ =>
    ⟨inside, word_records sound known (fun ordinary => ordinary.1 rfl) recorded depth⟩
  | .superMethod _ _ _, _, ⟨inside, recorded⟩ =>
    ⟨inside, word_records sound known (fun ordinary => ordinary.2 rfl) recorded depth⟩

theorem Expr.respelledAll_scoped {w : Respelling} (sound : w.Sound ok ρ) {Γ : Scopes}
    (known : Γ.Nameable ok) (depth : Depth) : (es : List Expr) →
    Expr.FormedAll ok es → Expr.ScopedAll w.locals within Γ es →
    Expr.ScopedAll w.locals within (Γ.respelled ρ depth) (Expr.respelledAll w depth es)
  | [], _, _ => trivial
  | e :: rest, ⟨formed, others⟩, ⟨first, second⟩ =>
    ⟨e.respelled_scoped sound known depth formed first,
      Expr.respelledAll_scoped sound known depth rest others second⟩

end

/-! Declarations. The variable that is renamed is the only declaration of its name in its scope. -/

/-- The name under which a statement declares a function or a class. -/
def Stmt.title? : Stmt → Option Text
  | .function decl => some decl.name.text
  | .classDef name _ _ => some name.text
  | _ => none

/-- No function and no class has the name, in the scope that the code stands in. -/
def Code.Untitled (name : Text) : Code → Prop
  | .stmt s => s.title? ≠ some name
  | .stmts ss => ∀ s ∈ ss, s.title? ≠ some name
  | _ => True

theorem Stmt.untitled_of_still (still : s.declared? = none) : Code.Untitled name (.stmt s) := by
  cases s with
  | declare | function | classDef => cases still
  | _ => nofun

private theorem Stmt.declared?_of_title? {s : Stmt} (titled : s.title? = some name) : s.declared? = some name := by
  cases s with
  | function | classDef => exact titled
  | _ => cases titled

/-- A name that is declared was free before. -/
theorem Stmt.Scoped.free {s : Stmt} (found : s.Scoped L around Γ) (declares : s.declared? = some name) :
    Γ.Free name := by
  cases s with
  | declare _ value =>
    cases declares
    cases value with
    | none => exact found
    | some _ => exact found.1
  | function =>
    cases declares
    exact found.1
  | classDef _ superclass _ =>
    cases declares
    cases superclass <;> exact found.1
  | _ => cases declares

/-- After a statement the innermost scope has the names it had, and the one that the statement declares. -/
theorem Stmt.after_cons (s : Stmt) (top : Table Bool) (Γ : Scopes) : ∃ top', s.after (top :: Γ) = top' :: Γ ∧
    ∀ name, top.contains name = true ∨ s.declared? = some name → top'.contains name = true := by
  unfold Stmt.after
  split
  · rename_i none
    refine ⟨top, rfl, fun name has => has.resolve_right ?_⟩
    rw [none]
    nofun
  · rename_i declared some
    refine ⟨_, rfl, fun name has => ?_⟩
    rcases has with has | here
    · rw [Table.contains_insert, has, Bool.or_true]
    · cases some.symm.trans here
      simp [Table.contains_insert]

/-- A scope that has a name does not declare it again. -/
theorem Stmt.ScopedAll.declared? (found : Stmt.ScopedAll L around (top :: Γ) ss)
    (has : top.contains name = true) : ∀ s ∈ ss, s.declared? ≠ some name := by
  induction ss generalizing top with
  | nil => nofun
  | cons s rest ih =>
    have here : s.declared? ≠ some name := by
      intro declares
      have absent := Stmt.Scoped.free found.1 declares top rfl
      rw [Table.contains, absent] at has
      cases has
    obtain ⟨top', after, keeps⟩ := s.after_cons top Γ
    have others := after ▸ found.2
    exact List.forall_mem_cons.2 ⟨here, ih others (keeps name (.inl has))⟩

private theorem Stmt.mem_vars_cons (declares : name ∈ Stmt.vars (s :: rest)) :
    s.declared? = some name ∧ s.title? = none ∨ name ∈ Stmt.vars rest := by
  cases s with
  | declare =>
    rcases List.mem_cons.1 declares with rfl | later
    · exact .inl ⟨rfl, rfl⟩
    · exact .inr later
  | _ => exact .inr declares

/-- In a scope that declares a variable, no function and no class has its name. -/
theorem Stmt.ScopedAll.untitled (found : Stmt.ScopedAll L around (top :: Γ) ss)
    (has : top.contains name = true ∨ name ∈ Stmt.vars ss) : Code.Untitled name (.stmts ss) := by
  have once : ∀ {ss top}, Stmt.ScopedAll L around (top :: Γ) ss → top.contains name = true →
      Code.Untitled name (.stmts ss) := fun found has s member titled =>
    Stmt.ScopedAll.declared? found has s member (Stmt.declared?_of_title? titled)
  induction ss generalizing top with
  | nil => nofun
  | cons s rest ih =>
    rcases has with has | declares
    · exact once found has
    · obtain ⟨top', after, keeps⟩ := s.after_cons top Γ
      have others : Stmt.ScopedAll L around (top' :: Γ) rest := after ▸ found.2
      rcases Stmt.mem_vars_cons declares with ⟨here, plain⟩ | later
      · refine List.forall_mem_cons.2 ⟨?_, once others (keeps name (.inr here))⟩
        rw [plain]
        nofun
      · refine List.forall_mem_cons.2 ⟨fun titled => ?_, ih others (.inr later)⟩
        -- A title would have to be declared a second time by the variable that follows.
        obtain ⟨t, member, names⟩ := List.mem_filterMap.1 later
        have again : t.declared? = some name := by
          cases t with
          | declare => exact names
          | _ => cases names
        have has' := keeps name (.inr (Stmt.declared?_of_title? titled))
        exact Stmt.ScopedAll.declared? others has' t member again

/-! Names that scopes can have. -/

private theorem Scopes.Nameable.cons (known : Scopes.Nameable ok Γ)
    (named : ∀ name, top.contains name = true → Lox.Nameable ok name) : Scopes.Nameable ok (top :: Γ) :=
  List.forall_mem_cons.2 ⟨named, known⟩

private theorem Scopes.Nameable.enter {Γ : Scopes} (known : Γ.Nameable ok) (named : ok name) :
    (Γ.enter name ready).Nameable ok := by
  cases Γ with
  | nil => exact known
  | cons top outer =>
    obtain ⟨here, further⟩ := List.forall_mem_cons.1 known
    refine Scopes.Nameable.cons further fun other has => ?_
    rw [Table.contains_insert, Bool.or_eq_true, decide_eq_true_iff] at has
    rcases has with rfl | has
    · exact .inl named
    · exact here other has

theorem Stmt.Formed.declared {s : Stmt} (formed : s.Formed ok) (declares : s.declared? = some name) :
    ok name := by
  cases s with
  | declare _ value =>
    cases declares
    cases value with
    | none => exact formed
    | some _ => exact formed.1
  | function decl =>
    cases declares
    cases decl
    exact formed.1
  | classDef _ superclass _ =>
    cases declares
    cases superclass <;> exact formed.1
  | _ => cases declares

private theorem Scopes.Nameable.after {Γ : Scopes} (known : Γ.Nameable ok) (formed : Stmt.Formed ok s) :
    (s.after Γ).Nameable ok := by
  unfold Stmt.after
  split
  · exact known
  · rename_i declares
    exact known.enter (formed.declared declares)

private theorem Scopes.Nameable.params {Γ : Scopes} (known : Γ.Nameable ok) {params : List Ident}
    (formed : ∀ param ∈ params, ok param.text) : Scopes.Nameable ok (paramScope params :: Γ) := by
  refine known.cons fun name has => .inl ?_
  rw [Table.contains, find?_paramScope] at has
  split at has
  · rename_i member
    obtain ⟨param, here, rfl⟩ := List.mem_map.1 member
    exact formed param here
  · cases has

/-- The words of the language have scopes of their own. -/
theorem Scopes.Nameable.word {Γ : Scopes} (known : Γ.Nameable ok) (word : ¬ Ordinary name) :
    Scopes.Nameable ok ([(name, true)] :: Γ) := by
  refine known.cons fun other has => .inr ?_
  rw [Table.contains, Table.find?_single] at has
  split at has
  · rename_i same
    rwa [← same]
  · cases has

/-! The scopes of the new program. -/

private theorem free_respelled (ρ : Renaming) {Γ : Scopes} (free : Γ.Free name) (depth : Depth) :
    (Γ.respelled ρ depth).Free (if depth = some 0 then ρ name else name) := by
  cases Γ with
  | nil => simp [Scopes.Free]
  | cons top outer =>
    have absent : top.find? name = none := free top rfl
    match depth with
    | none => simpa using free
    | some 0 => simp [Scopes.Free, Scopes.respelled, Table.find?_renamed ρ.injective, absent]
    | some (k + 1) => simp [Scopes.Free, Scopes.respelled, absent]

theorem declared_text {w : Respelling} (sound : w.Sound ok ρ) (named : ok name.text) (depth : Depth) :
    (w.declared depth name).text = if depth = some 0 then ρ name.text else name.text := by
  simp only [Respelling.declared, sound.spelled named]

/-- Functions and classes keep their names. -/
theorem title_text {w : Respelling} (sound : w.Sound ok ρ) (named : ok name)
    (apart : depth = some 0 → some name ≠ some w.old) : (if depth = some 0 then ρ name else name) = name := by
  split
  · rename_i here
    rw [← sound.spelled named]
    exact if_neg fun same => apart here (congrArg some same)
  · rfl

private theorem Respelled.after {w : Respelling} (sound : w.Sound ok ρ)
    (respelled : Respelled w depth (.stmt s) (.stmt s'))
    (formed : s.Formed ok) (titles : depth = some 0 → s.title? ≠ some w.old) (Γ : Scopes) :
    s'.after (Γ.respelled ρ depth) = (s.after Γ).respelled ρ depth := by
  have title : ∀ {name}, s.title? = some name →
      Scopes.enter name true (Γ.respelled ρ depth) = (Γ.enter name true).respelled ρ depth := by
    intro name titled
    rw [Scopes.respelled_enter,
      title_text sound (formed.declared (Stmt.declared?_of_title? titled)) (titled ▸ titles)]
  cases respelled with
  | @declare _ name _ =>
    have text := declared_text sound (formed.declared rfl) depth
    simp only [Stmt.after, Stmt.declared?, Scopes.respelled_enter, text]
  | @function _ d d' decl =>
    cases decl
    exact title rfl
  | plainClass | subclass => exact title rfl
  | expression | print | block | ifOnly | ifElse | loop | ret => rfl

/-- Going into a scope, its part in the new program follows from the part of those around it. -/
theorem Enters.respelled {w : Respelling} {inner : Depth} (sound : w.Sound ok ρ)
    (enters : Enters name vars depth inner) :
    ∃ σ : Renaming, (∀ top (Γ : Scopes), Scopes.respelled ρ inner (top :: Γ) = top.renamed σ :: Γ.respelled ρ depth) ∧
      ∀ param, ok param.text → (w.declared inner param).text = σ param.text := by
  cases enters with
  | pass =>
    refine ⟨.same, fun top Γ => ?_, fun param named => ?_⟩
    · rw [Scopes.respelled_inward]
      exact congrArg (· :: _) (Table.renamed_id top).symm
    · have elsewhere : depth.inward ≠ some 0 := by cases depth <;> simp [Depth.inward]
      rw [declared_text sound named, if_neg elsewhere]
      rfl
  | choose =>
    refine ⟨ρ, fun top Γ => ?_, fun param named => ?_⟩
    · rw [Scopes.respelled_none]
      rfl
    · rw [declared_text sound named, if_pos rfl]

/-- Only a scope that declares the variable is chosen. -/
theorem Enters.declares {inner : Depth} (enters : Enters name vars depth inner) (here : inner = some 0) :
    name ∈ vars := by
  cases enters with
  | pass => cases depth <;> simp [Depth.inward] at here
  | choose declared => exact declared

private theorem paramScope_renamed {ρ : Renaming} {ps ps' : List Ident}
    (params : ps'.map (·.text) = ps.map fun q => ρ q.text) : paramScope ps' = (paramScope ps).renamed ρ := by
  suffices step : ∀ table : Table Bool,
      ps'.foldl (fun t q => t.insert q.text true) (table.renamed ρ) =
        (ps.foldl (fun t q => t.insert q.text true) table).renamed ρ from step []
  induction ps generalizing ps' with
  | nil =>
    cases List.map_eq_nil_iff.1 params
    exact fun _ => rfl
  | cons q rest ih =>
    cases ps' with
    | nil => cases params
    | cons q' rest' =>
      obtain ⟨first, others⟩ := List.cons.inj params
      intro table
      simp only [List.foldl_cons, first]
      rw [← Table.renamed_insert ρ.injective]
      exact ih others _

/-- A well scoped program written anew is well scoped in the same table. -/
theorem Respelled.scoped {w : Respelling} (sound : w.Sound ok ρ) (respelled : Respelled w depth c c')
    {Γ : Scopes} (known : Γ.Nameable ok) (formed : c.Formed ok) (found : c.Scoped w.locals around Γ)
    (titles : depth = some 0 → c.Untitled w.old) : c'.Scoped w.locals around (Γ.respelled ρ depth) := by
  induction respelled generalizing around Γ with
  | expression | print => exact Expr.respelled_scoped sound known _ _ formed found
  | @declare depth name value =>
    cases value with
    | none =>
      have free := free_respelled ρ found depth
      rwa [← declared_text sound formed] at free
    | some e =>
      obtain ⟨named, formed⟩ := formed
      obtain ⟨free, found⟩ := found
      have free := free_respelled ρ free depth
      have inner := e.respelled_scoped sound (known.enter named) depth formed found
      rw [Scopes.respelled_enter] at inner
      rw [← declared_text sound named] at free inner
      exact ⟨free, inner⟩
  | block enters _ ih =>
    obtain ⟨σ, scopes, _⟩ := enters.respelled sound
    have inner := ih (known.cons fun _ has => by cases has) formed found fun here =>
      Stmt.ScopedAll.untitled found (.inr (enters.declares here))
    simp only [scopes] at inner
    exact inner
  | ifOnly _ ih =>
    obtain ⟨first, second, still⟩ := formed
    exact ⟨Expr.respelled_scoped sound known _ _ first found.1,
      ih known second found.2 fun _ => Stmt.untitled_of_still still⟩
  | ifElse _ _ ih ih' =>
    obtain ⟨first, ⟨second, still⟩, third, still'⟩ := formed
    exact ⟨Expr.respelled_scoped sound known _ _ first found.1,
      ih known second found.2.1 fun _ => Stmt.untitled_of_still still,
      ih' known third found.2.2 fun _ => Stmt.untitled_of_still still'⟩
  | loop _ ih =>
    obtain ⟨first, second, still⟩ := formed
    exact ⟨Expr.respelled_scoped sound known _ _ first found.1,
      ih known second found.2 fun _ => Stmt.untitled_of_still still⟩
  | @function depth d d' decl ih =>
    have named := Stmt.Formed.declared formed rfl
    have free := free_respelled ρ found.1 depth
    have inner := ih (known.enter named) formed found.2 fun _ => trivial
    rw [Scopes.respelled_enter] at inner
    rw [title_text sound named titles, ← decl.functionName] at free inner
    exact ⟨free, inner⟩
  | @ret depth line value =>
    cases value with
    | none => exact found
    | some e => exact ⟨found.1, found.2.1, e.respelled_scoped sound known depth formed found.2.2⟩
  | @plainClass ds ds' depth name _ ih =>
    obtain ⟨named, formed⟩ := formed
    have free := free_respelled ρ found.1 depth
    have inner := ih ((known.enter named).word fun ordinary => ordinary.1 rfl) formed found.2 fun _ => trivial
    simp only [Code.Scoped, Scopes.respelled_inward, Scopes.respelled_enter] at inner
    rw [title_text sound named titles] at free inner
    exact ⟨free, inner⟩
  | @subclass ds ds' depth name ref _ ih =>
    obtain ⟨named, parent, formed⟩ := formed
    obtain ⟨free, apart, ⟨recorded, ready⟩, found⟩ := found
    have known' : (Γ.enter name.text true).Nameable ok := known.enter named
    have free := free_respelled ρ free depth
    have inner := ih ((known'.word fun ordinary => ordinary.2 rfl).word fun ordinary => ordinary.1 rfl) formed
      found fun _ => trivial
    have recorded' := used_records sound known' parent recorded depth
    have ready' := used_ready sound known' parent recorded ready depth
    simp only [Code.Scoped, Scopes.respelled_inward, Scopes.respelled_enter] at inner
    rw [Scopes.respelled_enter] at recorded' ready'
    rw [title_text sound named titles] at free inner recorded' ready'
    refine ⟨free, ?_, ⟨recorded', ready'⟩, inner⟩
    rw [used_text sound parent recorded]
    split
    · exact fun same => apart (sound.apart parent named same)
    · exact apart
  | noStmts | noFunctions => trivial
  | moreStmts first rest ih ih' =>
    obtain ⟨formed, others⟩ := formed
    have here := ih known formed found.1 fun top => titles top _ List.mem_cons_self
    have later := ih' (known.after formed) others found.2 fun top s member =>
      titles top s (List.mem_cons_of_mem _ member)
    simp only [Code.Scoped] at later
    rw [← first.after sound formed fun top => titles top _ List.mem_cons_self] at later
    exact ⟨here, later⟩
  | @decl ss depth ss' name params inner enters body ih =>
    obtain ⟨_, named, formed⟩ := formed
    obtain ⟨distinct, found⟩ := found
    obtain ⟨σ, scopes, spelled⟩ := enters.respelled sound
    have texts : (params.map (w.declared inner)).map (·.text) = params.map fun q => σ q.text := by
      rw [List.map_map]
      exact List.map_congr_left fun param member => spelled param (named param member)
    have body := ih (known.params named) formed found fun here => Stmt.ScopedAll.untitled found (by
      rcases List.mem_append.1 (enters.declares here) with param | declared
      · rw [Table.contains, find?_paramScope, if_pos param]
        exact .inl rfl
      · exact .inr declared)
    simp only [Code.Scoped, scopes] at body
    rw [← paramScope_renamed texts] at body
    have spread : ((params.map (·.text)).map σ.apply).Nodup :=
      List.Pairwise.map σ.apply (fun a b differ same => differ (σ.injective a b same)) distinct
    rw [List.map_map] at spread
    refine ⟨?_, body⟩
    rw [texts]
    exact spread
  | moreFunctions first rest ih ih' =>
    have here := ih known formed.1 found.1 fun _ => trivial
    refine ⟨?_, ih' known formed.2 found.2 fun _ => trivial⟩
    rw [methodContext, first.functionName]
    exact here

/-- Resolution cannot tell a program from one that is written anew. -/
theorem Respelled.resolve_eq {w : Respelling} (sound : w.Sound ok ρ)
    (respelled : Respelled w none (.stmts ss) (.stmts ss')) (formed : Stmt.FormedAll ok ss)
    (formed' : Stmt.FormedAll ok' ss') (found : Stmt.ScopedAll w.locals ⟨.topLevel, .outside⟩ [] ss)
    (known : Locals) : resolve known ss' = resolve known ss := by
  have found' := respelled.scoped sound (Γ := []) nofun formed found nofun
  rw [Lox.resolve_eq formed found, Lox.resolve_eq formed' found']
  exact congrArg (fun ids => Resolver.mk [] [] (w.locals.fill known ids)) respelled.ids

end Lox
