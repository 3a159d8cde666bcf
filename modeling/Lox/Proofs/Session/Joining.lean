import Lox.Proofs.Session.Blame
import Lox.Proofs.Tree.Completeness

/-! Two texts run one after the other, and as one text with a line end between them. The second text is
only read further down. So the runs differ in nothing but the lines of faults in the second text. -/
namespace Lox

open Likeness

/-! Reading both texts. -/

private theorem Grammar.Derives.declarations_append (first : Derives rule (.declarations ss) ts i j)
    (second : Derives rule (.declarations ss') us j k) :
    Derives rule (.declarations (ss ++ ss')) (ts ++ us) i k := by
  induction ss generalizing ts i with
  | nil =>
    cases first
    exact second
  | cons s ss ih =>
    cases first with
    | moreDeclarations here rest =>
      rw [List.cons_append, List.append_assoc]
      exact .moreDeclarations here (ih rest)

private theorem Token.Respelled.eq_down (respelled : List.Forall₂ (Token.Respelled (.onLines L (· + d))) ts ts') :
    ts' = ts.map (·.down d) := by
  induction respelled with
  | nil => rfl
  | @cons t t' _ _ first _ ih =>
    have same : t' = t.down d := by
      obtain ⟨kind, line, lexeme⟩ := first
      rw [Respelling.spell_onLines] at lexeme
      have text : t'.lexeme = t.lexeme := lexeme.elim id (·.2)
      cases t'
      cases kind
      cases line
      cases text
      rfl
    rw [ih, same]
    rfl

/-- A program so many lines further down. -/
theorem Grammar.Derives.down (derived : Derives rule (.declarations ss) ts i j) (L : Locals) (d : Nat) :
    ∃ ss', Respelled (.onLines L (· + d)) none (.stmts ss) (.stmts ss') ∧
      Derives rule (.declarations ss') (ts.map (·.down d)) i j := by
  obtain ⟨ss', respelled, -⟩ := Stmt.respellAll (.onLines L (· + d)) ss
  obtain ⟨ts', tokens, derived'⟩ := derived.respell (.declarations respelled)
  rw [Token.Respelled.eq_down tokens] at derived'
  exact ⟨ss', respelled, derived'⟩

/-! Resolving and evaluating both programs. -/

private theorem Stmt.resolveAll_append (around : Surroundings) (ss ss' : List Stmt) (r : Resolver) :
    Stmt.resolveAll around (ss ++ ss') r = Stmt.resolveAll around ss' (Stmt.resolveAll around ss r) := by
  induction ss generalizing r with
  | nil => rfl
  | cons s ss ih => exact ih _

/-- What resolution leaves of a program without errors. -/
theorem resolve_append {known : Locals} (derived : Grammar.Derives rule (.declarations ss) ts i j)
    (old : ∀ id d, known[id]? = some d → id ≤ i) (clean : (resolve known ss).errors = []) (ss' : List Stmt) :
    resolve known (ss ++ ss') = resolve (resolve known ss).locals ss' := by
  have formed : Stmt.FormedAll (fun _ => True) ss := derived.formed fun _ _ _ => trivial
  have resolved : resolve known ss = _ := resolve_eq formed (resolve_scoped derived old clean)
  have outside : resolve known ss = ⟨[], [], (resolve known ss).locals⟩ := by rw [resolved]
  calc
    resolve known (ss ++ ss') = Stmt.resolveAll ⟨.topLevel, .outside⟩ ss' (resolve known ss) :=
      Stmt.resolveAll_append ..
    _ = resolve (resolve known ss).locals ss' := congrArg _ outside

private theorem Evaluation.execProgram_append (ctx : Context) (bound : Nat) (ss ss' : List Stmt) :
    execProgram ctx bound (ss ++ ss') = execProgram ctx bound ss >>= fun _ => execProgram ctx bound ss' := by
  induction ss with
  | nil => rfl
  | cons s ss ih =>
    simp only [List.cons_append, execProgram, ih, bind_assoc]

/-- A name so many lines further down. -/
def Ident.down (d : Nat) (name : Ident) : Ident := { name with line := name.line + d }

/-- A fault blamed so many lines further down. -/
def Fault.down (d : Nat) (f : Fault) : Fault := { f with blamed := f.blamed.down d }

private theorem Fault.down_down (j k : Nat) (f : Fault) : (f.down j).down k = f.down (j + k) := by
  simp [down, Ident.down, Nat.add_assoc]

private theorem Fault.down_inj {f : Fault} (same : f.down j = f.down k) : j = k :=
  Nat.add_left_cancel (congrArg (·.blamed.line) same)

namespace Session

variable {s s₁ : Session} {a b text source : Text}

/-- A run with nothing wrong, the state in which its evaluation ends and the session it leaves. -/
structure Passes (s : Session) (clock : Nat → Float) (bound : Nat) (source : Text) (e : Evaluation.State)
    (s₁ : Session) : Prop where
  accepts : s.Accepts source
  ended : Evaluation.execProgram ⟨(s.prepared source).locals, s.limit, clock⟩ bound (s.program source)
    (.start s.heap s.readings) = .ok () e
  heap : s₁.heap = e.heap
  lastId : s₁.lastId = (s.prepared source).lastId
  locals : s₁.locals = (s.prepared source).locals
  limit : s₁.limit = s.limit
  readings : s₁.readings = e.readings
  diagnostics : s₁.diagnostics = []

private theorem passes_of_clean {report : Report} (ran : (s.run clock bound a).2 = .finished report)
    (clean : report.Clean) :
    ∃ e, s.Passes clock bound a e (s.run clock bound a).1 ∧ report.output = e.output.toList := by
  have accepts : s.Accepts a := accepts_of_clean ran clean
  have quiet : (s.reading a).diagnostics = [] := by
    simp [Report.diagnostics, accepts.clean.static, accepts.clean.fault]
  rw [run_accepted accepts, evaluate_eq] at ran ⊢
  generalize ended : Evaluation.execProgram _ _ _ _ = result at ran ⊢
  cases result with
  | ok value e =>
    cases ran
    exact ⟨e, ⟨accepts, ended, rfl, rfl, rfl, rfl, rfl, quiet⟩, rfl⟩
  | error stop e =>
    cases stop with
    | fault f =>
      cases ran
      cases clean.fault
    | breach b => cases ran
    | exhausted => cases ran

/-- Both texts are read and resolved as one. -/
theorem Passes.reading (passes : s.Passes clock bound a e s₁) (coherent : s.Coherent False)
    (later : s₁.Coherent False) (accepts : s₁.Accepts b)
    (joined : scan text = (scan a).append ((scan b).down d)) :
    ∃ ss', Respelled (.onLines (s₁.prepared b).locals (· + d)) none (.stmts (s₁.program b)) (.stmts ss') ∧
      s.program text = s.program a ++ ss' ∧ s.Accepts text ∧
      (s.prepared text).lastId = (s₁.prepared b).lastId ∧
      (s.prepared text).locals = (s₁.prepared b).locals := by
  obtain ⟨ss', respelled, lowered⟩ := accepts.derived.down (s₁.prepared b).locals d
  have both : Grammar.Derives .nearest (.declarations (s.program a ++ ss')) (scan text).tokens s.lastId
      (s₁.prepared b).lastId := by
    rw [joined]
    rw [passes.lastId] at lowered
    exact passes.accepts.derived.declarations_append lowered
  have parsed : parse s.lastId (scan text) = ⟨s.program a ++ ss', [], (s₁.prepared b).lastId⟩ :=
    Parse.parse_complete both
  have resolved : resolve s.locals (s.program a ++ ss') = resolve s₁.locals (s₁.program b) := by
    have formed' : Stmt.FormedAll (fun _ => True) ss' := lowered.formed fun _ _ _ => trivial
    rw [resolve_append passes.accepts.derived coherent.old passes.accepts.resolve, passes.locals]
    exact respelled.resolve_eq (Respelling.onLines_sound _ _) (accepts.derived.formed (scan_ordinary b)) formed'
      (later.program_scoped accepts) _
  have program : s.program text = s.program a ++ ss' := congrArg Parsed.statements parsed
  refine ⟨ss', respelled, program, ⟨?_, congrArg Parsed.errors parsed, ?_⟩, ?_, ?_⟩
  · rw [joined, Scan.append, Scan.down, passes.accepts.scan, accepts.scan]
    rfl
  · rw [program, resolved]
    exact accepts.resolve
  · rw [prepared, parsed]
  · rw [prepared, program, resolved]
    rfl

/-- What is compared: nodes of one table. Names in functions and methods that are left from before stay on their lines,
those of the text are so many lines further down. -/
def lowered (s : Session) (source : Text) (d : Nat) : Pairing where
  left := (s.prepared source).locals
  right := (s.prepared source).locals
  ids i j := i = j ∧ i ≤ (s.prepared source).lastId
  blames name other :=
    s.heap.Suspects name ∧ other = name ∨ name ∈ Stmt.suspectsAll (s.program source) ∧ other = name.down d
  strict := False

/-- After the first program, and in the middle of both, evaluation stands at alike places. -/
theorem Passes.middle (passes : s.Passes clock bound a e s₁) (coherent : s.Coherent False)
    (accepts : s₁.Accepts b) (d : Nat) : ∃ μ e',
      Evaluation.execProgram ⟨(s₁.prepared b).locals, s.limit, clock⟩ bound (s.program a)
        (.start s.heap s.readings) = .ok () e' ∧
      At (lowered s₁ b d) e.output.toList μ [] (.start s₁.heap s₁.readings) e' := by
  have keeps : ∀ node, node ≤ (s.prepared a).lastId →
      (s₁.prepared b).locals[node]? = (s.prepared a).locals[node]? := by
    intro node earlier
    rw [← passes.locals]
    exact resolve_keeps accepts.derived (passes.lastId ▸ earlier)
  have more : (s.prepared a).lastId ≤ (s₁.prepared b).lastId := passes.lastId ▸ accepts.derived.fresh.ordered
  -- The first program with either table: the distances of its nodes are the same in both.
  let p : Pairing := ⟨(s.prepared a).locals, (s₁.prepared b).locals,
    fun i j => i = j ∧ i ≤ (s.prepared a).lastId, fun name other => other = name, False⟩
  have wider : (pairing (.onLines (s.prepared a).locals id) (s.prepared a).lastId False).Within p := by
    refine ⟨id, fun _ => rfl, ?_, Respelling.respells_onLines, id⟩
    rintro _ _ ⟨rfl, earlier⟩
    exact keeps _ earlier
  have widest : (p.vouched s₁.heap.Suspects).Within (lowered s₁ b d) := by
    refine ⟨?_, ?_, fun _ => rfl, fun ⟨same, left⟩ => .inl ⟨left, same⟩, id⟩
    · rintro _ _ ⟨same, earlier⟩
      exact ⟨same, Nat.le_trans earlier more⟩
    · rintro _ _ ⟨-, earlier⟩
      exact keeps _ earlier
  obtain ⟨ν, heap⟩ := (coherent.prepared passes.accepts.parse).heap
  have alike := coherent.program_alike passes.accepts (Stmt.respelled_same (.onLines _ id) rfl _) nofun
  have sim : Sim p [] ν _ Idle
      (Evaluation.execProgram ⟨(s.prepared a).locals, s.limit, clock⟩ bound (s.program a) (.start s.heap s.readings))
      (Evaluation.execProgram ⟨(s₁.prepared b).locals, s.limit, clock⟩ bound (s.program a)
        (.start s.heap s.readings)) :=
    execProgram_sim bound (alike.widen wider) (start_at (heap.widen wider) s.readings)
  rw [passes.ended] at sim
  generalize other : Evaluation.execProgram ⟨(s₁.prepared b).locals, _, _⟩ _ _ _ = result at sim ⊢
  cases sim with
  | @ok μ _ e' _ reached idle =>
    have same := reached.alike
    refine ⟨μ, e', rfl, ⟨⟨⟨?_, ?_, ?_⟩, ?_, ?_, ?_⟩, .globals, rfl⟩⟩
    · have heap' : HeapAlike p μ s₁.heap e'.heap := passes.heap ▸ same.heap
      exact (heap'.vouched s₁.heap.holds_suspects).widen widest
    · exact same.output.trans (List.append_nil _).symm
    · rw [passes.readings]
      exact same.readings
    · exact same.scope.trans reached.scope
    · exact same.depth.trans reached.depth
    · exact same.pending.trans idle

/-- The second text is evaluated alike after the first one and as a part of both. -/
theorem Passes.joined_alike (passes : s.Passes clock bound a e s₁) (coherent : s.Coherent False)
    (later : s₁.Coherent False) (accepts : s₁.Accepts b)
    (joined : scan text = (scan a).append ((scan b).down d)) :
    s.Accepts text ∧
    (s.run clock bound text).1.lastId = (s₁.run clock bound b).1.lastId ∧
    (s.run clock bound text).1.locals = (s₁.run clock bound b).1.locals ∧
    Follows (lowered s₁ b d) (s₁.run clock bound b).1 (s.run clock bound text).1 ∧
    Ending.Alike (lowered s₁ b d) e.output.toList (s₁.reading b) (s.reading text) (s₁.run clock bound b).2
      (s.run clock bound text).2 := by
  obtain ⟨ss', respelled, program, whole, last, locals⟩ := passes.reading coherent later accepts joined
  obtain ⟨μ, e', first, here⟩ := passes.middle coherent accepts d
  have alike := (later.program_alike accepts respelled nofun).vouched fun _ => id
  have wider : Pairing.Within (.vouched (pairing (.onLines (s₁.prepared b).locals (· + d)) (s₁.prepared b).lastId False)
      (· ∈ Code.suspects (.stmts (s₁.program b)))) (lowered s₁ b d) :=
    ⟨id, fun _ => rfl, fun _ => rfl, fun ⟨down, among⟩ => .inr ⟨among, Respelling.respells_onLines down⟩, id⟩
  have both : Evaluation.execProgram ⟨(s₁.prepared b).locals, s.limit, clock⟩ bound (s.program a ++ ss')
      (.start s.heap s.readings) =
      Evaluation.execProgram ⟨(s₁.prepared b).locals, s.limit, clock⟩ bound ss' e' := by
    rw [Evaluation.execProgram_append]
    simp only [Bind.bind, EStateM.bind, first]
  have second : Sim (lowered s₁ b d) e.output.toList μ (.start s₁.heap s₁.readings) Idle
      (Evaluation.execProgram ⟨(s₁.prepared b).locals, s₁.limit, clock⟩ bound (s₁.program b)
        (.start s₁.heap s₁.readings))
      (Evaluation.execProgram ⟨(s.prepared text).locals, s.limit, clock⟩ bound (s.program text)
        (.start s.heap s.readings)) := by
    rw [passes.limit, locals, program, both]
    exact execProgram_sim bound (alike.widen wider) here
  rw [run_accepted accepts, run_accepted whole, evaluate_eq, evaluate_eq]
  refine ⟨whole, ?_, ?_, conclude_alike _ _ _ _ second⟩
  · rw [conclude_lastId, conclude_lastId, last]
  · rw [conclude_locals, conclude_locals, locals]

/-! Faults and where they are blamed. -/

private theorem fault_alike {report report' : Report} {ending ending' : Ending}
    (alike : Ending.Alike (lowered s source d) before report report' ending ending') (clean : report.Clean)
    (clean' : report'.Clean) (faulty : ending.fault? = some f) :
    s.heap.Suspects f.blamed ∧ ending'.fault? = some f ∨
      f.blamed ∈ Stmt.suspectsAll (s.program source) ∧ ending'.fault? = some (f.down d) := by
  obtain ⟨⟨cause', blamed'⟩, fault', cause, blames⟩ := alike.exists_fault clean clean' faulty
  cases cause
  rw [fault']
  obtain ⟨left, rfl⟩ | ⟨among, rfl⟩ := blames
  · exact .inl ⟨left, rfl⟩
  · exact .inr ⟨among, rfl⟩

/-- Running the empty text does nothing. -/
theorem passes_nil (quiet : s.diagnostics = []) (clock : Nat → Float) (bound : Nat) :
    s.Passes clock bound [] (.start s.heap s.readings) s := by
  have parsed : parse s.lastId (scan []) = ⟨[], [], s.lastId⟩ := by
    rw [scan_nil]
    exact Parse.parse_complete .noDeclarations
  have program : s.program [] = [] := congrArg Parsed.statements parsed
  have resolved : resolve s.locals (s.program []) = ⟨[], [], s.locals⟩ := by
    rw [program]
    rfl
  refine ⟨⟨?_, ?_, ?_⟩, ?_, rfl, ?_, ?_, rfl, rfl, quiet⟩
  · rw [scan_nil]
  · rw [parsed]
  · rw [resolved]
  · rw [program]
    rfl
  · rw [prepared, parsed]
  · rw [prepared, resolved]

/-- Once it is known how a fault moves with one more line, it is known how it moves with more. -/
theorem fault_lowered (passes : s.Passes clock bound a e s₁) (coherent : s.Coherent False)
    (later : s₁.Coherent False) (accepts : s₁.Accepts b)
    (joined : scan text = (scan a).append ((scan b).down (d + 1)))
    (faulty : (s₁.run clock bound b).2.fault? = some f) :
    s₁.heap.Suspects f.blamed ∧ (s₁.run clock bound (b.down 1)).2.fault? = some f ∧
        (s.run clock bound text).2.fault? = some f ∨
      f.blamed ∈ Stmt.suspectsAll (s₁.program b) ∧ (s₁.run clock bound (b.down 1)).2.fault? = some (f.down 1) ∧
        (s.run clock bound text).2.fault? = some (f.down (d + 1)) := by
  have below : scan (b.down 1) = (scan []).append ((scan b).down 1) := by
    rw [scan_down, scan_nil]
    rfl
  have further : scan text = (scan a).append ((scan (b.down 1)).down d) := by
    rw [joined, scan_down, Scan.down_down, Nat.add_comm]
  obtain ⟨accepts₁, -, -, -, first⟩ :=
    (passes_nil passes.diagnostics clock bound).joined_alike later later accepts below
  obtain ⟨whole, -, -, -, second⟩ := passes.joined_alike coherent later accepts joined
  obtain ⟨-, -, -, -, third⟩ := passes.joined_alike coherent later accepts₁ further
  have moved := fault_alike first accepts.clean accepts₁.clean faulty
  have moved' := fault_alike second accepts.clean whole.clean faulty
  obtain ⟨left, down⟩ | ⟨among, down⟩ := moved
  · have moved'' := fault_alike third accepts₁.clean whole.clean down
    refine .inl ⟨left, down, ?_⟩
    obtain ⟨-, stays⟩ | ⟨-, moves⟩ := moved'
    · exact stays
    · obtain ⟨-, stays⟩ | ⟨-, moves'⟩ := moved''
      · exact stays
      · have same : f.down (d + 1) = f.down d := Option.some.inj (moves.symm.trans moves')
        exact absurd (Fault.down_inj same) (Nat.succ_ne_self d)
  · have moved'' := fault_alike third accepts₁.clean whole.clean down
    refine .inr ⟨among, down, ?_⟩
    obtain ⟨-, stays⟩ | ⟨-, moves⟩ := moved'
    · obtain ⟨-, stays'⟩ | ⟨-, moves'⟩ := moved''
      · have same : f.down 0 = f.down 1 := Option.some.inj (stays.symm.trans stays')
        exact absurd (Fault.down_inj same) Nat.zero_ne_one
      · rw [moves', Fault.down_down, Nat.add_comm]
    · exact moves

/-- The fault of a run is blamed on a token of the text that is run: it moves with the text. -/
structure FaultMoves (s : Session) (clock : Nat → Float) (bound : Nat) (source : Text) (f : Fault) : Prop where
  written : WrittenIn [source] f.blamed
  moves : ∀ k, (s.run clock bound (source.down k)).2.fault? = some (f.down k)

/-- The fault of a run is blamed on a token that one of the earlier texts has left in a function or a method: it stays
where it is. -/
structure FaultStays (s : Session) (clock : Nat → Float) (bound : Nat) (source : Text) (earlier : List Text)
    (f : Fault) : Prop where
  left : s.heap.Suspects f.blamed
  written : WrittenIn earlier f.blamed
  stays : ∀ k, (s.run clock bound (source.down k)).2.fault? = some f

/-- A fault is blamed on the second text or on an earlier one, and accordingly moves down or stays. -/
theorem fault_joined (passes : s.Passes clock bound a e s₁) (coherent : s.Coherent False) (ran : s₁.Ran texts)
    (accepts : s₁.Accepts b) (joined : scan text = (scan a).append ((scan b).down (d + 1)))
    (faulty : (s₁.run clock bound b).2.fault? = some f) :
    s₁.FaultMoves clock bound b f ∧ (s.run clock bound text).2.fault? = some (f.down (d + 1)) ∨
      s₁.FaultStays clock bound b texts f ∧ (s.run clock bound text).2.fault? = some f := by
  have later := ran.coherent
  have alone : ∀ k, _ := fun k =>
    fault_lowered (d := k) (passes_nil passes.diagnostics clock bound) later later accepts
      (by rw [scan_down, scan_nil]; rfl : scan (b.down (k + 1)) = _) faulty
  obtain ⟨left, down, whole⟩ | ⟨among, down, whole⟩ := fault_lowered passes coherent later accepts joined faulty
  · refine .inr ⟨⟨left, left.holds ran.left, fun k => ?_⟩, whole⟩
    cases k with
    | zero => exact faulty
    | succ k =>
      obtain ⟨-, -, here⟩ | ⟨-, down', -⟩ := alone k
      · exact here
      · have same : f.down 0 = f.down 1 := Option.some.inj (down.symm.trans down')
        exact absurd (Fault.down_inj same) Nat.zero_ne_one
  · refine .inl ⟨⟨⟨b, List.mem_singleton.2 rfl, accepts.suspects_tokens _ among⟩, fun k => ?_⟩, whole⟩
    cases k with
    | zero => exact faulty
    | succ k =>
      obtain ⟨-, down', -⟩ | ⟨-, -, here⟩ := alone k
      · have same : f.down 0 = f.down 1 := Option.some.inj (down'.symm.trans down)
        exact absurd (Fault.down_inj same) Nat.zero_ne_one
      · exact here

/-- What a run of two texts as one has in common with a run of the first and then one of the second. -/
structure Joins (first second joined : Session × Ending) : Prop where
  stdout : joined.2.stdout = first.2.stdout ++ second.2.stdout
  verdict : joined.2.verdict? = second.2.verdict?
  breach : joined.2.breach? = second.2.breach?
  cause : joined.2.fault?.map (·.cause) = second.2.fault?.map (·.cause)
  globals : joined.1.globals = second.1.globals
  lastId : joined.1.lastId = second.1.lastId
  locals : joined.1.locals = second.1.locals

/-- A text run after another one that ended well, and both run as one text with a line end between them. A fault that
is blamed on a token of the second text is reported as many lines further down as the text has moved. One that is
blamed on a token of the first text or of an earlier one is reported on the same line. -/
theorem run_append_newline (ran : s.Ran texts) (clock : Nat → Float) (bound : Nat) (a b : Text)
    (ok : (s.run clock bound a).2.verdict? = some .ok) (accepts : (s.run clock bound a).1.Accepts b) :
    let first := s.run clock bound a
    let second := first.1.run clock bound b
    let joined := s.run clock bound (a ++ Text.newline :: b)
    Joins first second joined ∧ ∀ f, second.2.fault? = some f →
      first.1.FaultMoves clock bound b f ∧ joined.2.fault? = some (f.down (Text.newlines a + 1)) ∨
        first.1.FaultStays clock bound b (a :: texts) f ∧ joined.2.fault? = some f := by
  intro first second joined
  have coherent : s.Coherent False := ran.coherent
  have after : first.1.Ran (a :: texts) := ran.run clock bound a
  obtain ⟨report, ended, clean⟩ := Ending.finished_of_ok ok
  obtain ⟨e, passes, output⟩ := passes_of_clean ended clean
  have scanned := scan_append_newline a b passes.accepts.scan
  obtain ⟨whole, last, locals, follows, alike⟩ := passes.joined_alike coherent after.coherent accepts scanned
  have printed : joined.2.stdout = first.2.stdout ++ second.2.stdout := by
    have before : first.2.output = e.output.toList := by
      rw [ended]
      exact output
    rw [alike.stdout, ← before]
    rfl
  have causes : joined.2.fault?.map (·.cause) = second.2.fault?.map (·.cause) := by
    obtain ⟨none, none'⟩ | ⟨f, f', fault, fault', cause, -⟩ := alike.fault? accepts.clean whole.clean
    · rw [none, none']
    · rw [fault, fault', Option.map_some, Option.map_some, cause]
  exact ⟨⟨printed, alike.verdict? accepts.clean whole.clean, alike.breach?, causes, follows.globals, last, locals⟩,
    fun f faulty => fault_joined passes coherent after accepts scanned faulty⟩

/-- A second text that calls a function of the first one, which fails there, and a second text that fails by itself. -/
theorem run_append_newline_fault :
    (let a := Text.ofString "fun f(x) \x7b\n  return -x;\n\x7d"
    let b := Text.ofString "\nprint f;\nf(nil);"
    let first := (new none).run (fun _ => 0) 20 a
    let second := first.1.run (fun _ => 0) 20 b
    let joined := (new none).run (fun _ => 0) 20 (a ++ Text.newline :: b)
    Joins first second joined ∧ second.2.faultLine? = some 2 ∧ joined.2.faultLine? = some 2 ∧
      first.1.FaultStays (fun _ => 0) 20 b [a] ⟨.operandNotNumber, Text.ofString "-", 2⟩) ∧
    (let a := Text.ofString "var a = 1;"
    let b := Text.ofString "-nil;"
    let first := (new none).run (fun _ => 0) 20 a
    let second := first.1.run (fun _ => 0) 20 b
    let joined := (new none).run (fun _ => 0) 20 (a ++ Text.newline :: b)
    Joins first second joined ∧ second.2.faultLine? = some 1 ∧ joined.2.faultLine? = some 2 ∧
      first.1.FaultMoves (fun _ => 0) 20 b ⟨.operandNotNumber, Text.ofString "-", 1⟩) := by
  constructor
  · intro a b first second joined
    have accepts : first.1.Accepts b := ⟨by decide +kernel, by decide +kernel, by decide +kernel⟩
    obtain ⟨joins, faults⟩ := run_append_newline (.new none) (fun _ => 0) 20 a b (by decide +kernel) accepts
    refine ⟨joins, by decide +kernel, by decide +kernel, ?_⟩
    obtain ⟨-, down⟩ | ⟨stays, -⟩ := faults ⟨.operandNotNumber, Text.ofString "-", 2⟩ (by decide +kernel)
    · exact absurd down (by decide +kernel)
    · exact stays
  · intro a b first second joined
    have accepts : first.1.Accepts b := ⟨by decide +kernel, by decide +kernel, by decide +kernel⟩
    obtain ⟨joins, faults⟩ := run_append_newline (.new none) (fun _ => 0) 20 a b (by decide +kernel) accepts
    refine ⟨joins, by decide +kernel, by decide +kernel, ?_⟩
    obtain ⟨moves, -⟩ | ⟨-, same⟩ := faults ⟨.operandNotNumber, Text.ofString "-", 1⟩ (by decide +kernel)
    · exact moves
    · exact absurd same (by decide +kernel)

end Session
end Lox
