import ClassLang.Proofs.Eval.Batch
import ClassLang.Proofs.Eval.Extended
import ClassLang.Proofs.Eval.Isolated
import ClassLang.Proofs.Eval.Located
import ClassLang.Proofs.Eval.Observed
import ClassLang.Repl

/-!
The text of a value. A value is asked for its text, and what it answers is asked in turn, until
something comes that cannot be asked; its own text is the one that is shown. Nothing is done but
these calls, and there are no more of them than the limit. Printing a value, printing its text as a
string and showing it at the prompt all ask in this way, so they show the same.
-/

namespace ClassLang

open Eval

/-- Whether a value is asked for its text: an instance whose class has a method for that. -/
def Value.asksText (h : Heap) : Value → Bool
  | .object r => (h.get r).cls.hasMethod "__str__" 0
  | _ => false

namespace Eval

/-- A value is asked for its text, and what it answers is asked in turn, so many times. All of these
calls succeed; the last one answers with a value and leaves a machine. -/
inductive Chain (call : Call) (line : Nat) : Nat → Value → Machine → Value → Machine → Prop where
  | nil (v : Value) (m : Machine) : Chain call line 0 v m v m
  | cons {k : Nat} {r : Ref} {v w : Value} {m m' n : Machine} :
    (Value.object r).asksText m.heap = true → call r "__str__" [] line m = .ok v m' →
      Chain call line k v m' w n → Chain call line (k + 1) (.object r) m w n

variable {call : Call} {line steps : Nat} {v : Value} {m n : Machine}

/-! Chains of answers -/

/-- What cannot be asked shows its own text. -/
theorem renderIn_of_not_asks (h : v.asksText m.heap = false) :
    renderIn call line (steps + 1) v m = .ok (v.display m.heap) m := by
  cases v with
  | object r =>
    have hmethod : (m.heap.get r).cls.hasMethod "__str__" 0 = false := h
    rw [renderIn, Run.classOf_bind, hmethod]
    rfl
  | _ => rfl

theorem renderIn_of_asks {r : Ref} (h : (Value.object r).asksText m.heap = true) :
    renderIn call line (steps + 1) (.object r) m =
      (call r "__str__" [] line >>= renderIn call line steps) m := by
  have hmethod : (m.heap.get r).cls.hasMethod "__str__" 0 = true := h
  rw [renderIn, Run.classOf_bind, hmethod]
  rfl

theorem exists_of_asksText (h : v.asksText m.heap = true) : ∃ r, v = .object r := by
  cases v with
  | object r => exact ⟨r, rfl⟩
  | _ => cases h

/-- A chain ends where a value cannot be asked. -/
theorem Chain.of_not_asks {k : Nat} {w : Value} (hasks : v.asksText m.heap = false)
    (h : Chain call line k v m w n) : k = 0 ∧ w = v ∧ n = m := by
  cases h with
  | nil => exact ⟨rfl, rfl, rfl⟩
  | cons hr =>
    rw [hasks] at hr
    cases hr

/-- The text that is shown is that of the value at the end of a chain. -/
theorem renderIn_eq_ok_iff {text : String} : renderIn call line steps v m = .ok text n ↔
    ∃ k w, k < steps ∧ Chain call line k v m w n ∧ w.asksText n.heap = false ∧
      text = w.display n.heap := by
  induction steps generalizing v m with
  | zero =>
    constructor
    · intro h
      cases h
    · rintro ⟨k, w, hk, -⟩
      exact absurd hk (Nat.not_lt_zero k)
  | succ steps ih =>
    cases hasks : v.asksText m.heap with
    | false =>
      rw [renderIn_of_not_asks hasks]
      constructor
      · intro h
        cases h
        exact ⟨0, v, Nat.succ_pos _, .nil v _, hasks, rfl⟩
      · rintro ⟨k, w, -, hchain, -, rfl⟩
        obtain ⟨-, rfl, rfl⟩ := hchain.of_not_asks hasks
        rfl
    | true =>
      obtain ⟨r, rfl⟩ := exists_of_asksText hasks
      rw [renderIn_of_asks hasks, Run.bind_eq_ok]
      constructor
      · rintro ⟨u, m', hcall, hrest⟩
        obtain ⟨k, w, hk, hchain, hend⟩ := ih.1 hrest
        exact ⟨k + 1, w, Nat.succ_lt_succ hk, .cons hasks hcall hchain, hend⟩
      · rintro ⟨k, w, hk, hchain, hend, htext⟩
        cases hchain with
        | nil =>
          rw [hasks] at hend
          cases hend
        | cons _ hcall hchain =>
          exact ⟨_, _, hcall, ih.2 ⟨_, w, Nat.lt_of_succ_lt_succ hk, hchain, hend, htext⟩⟩

/-- No text is shown where a call of the chain fails, and where the steps are used up. -/
theorem renderIn_eq_error_iff {e : Error} : renderIn call line steps v m = .error e n ↔
    (∃ k r m', k < steps ∧ Chain call line k v m (.object r) m' ∧
      (Value.object r).asksText m'.heap = true ∧ call r "__str__" [] line m' = .error e n) ∨
    ∃ w, Chain call line steps v m w n ∧ e = .located (.recursionLimit callLimit) line := by
  induction steps generalizing v m with
  | zero =>
    constructor
    · intro h
      cases h
      exact .inr ⟨v, .nil v _, rfl⟩
    · rintro (⟨k, r, m', hk, -⟩ | ⟨w, hchain, rfl⟩)
      · exact absurd hk (Nat.not_lt_zero k)
      · cases hchain with
        | nil => rfl
  | succ steps ih =>
    cases hasks : v.asksText m.heap with
    | false =>
      rw [renderIn_of_not_asks hasks]
      constructor
      · intro h
        cases h
      · rintro (⟨k, r, m', -, hchain, hr, -⟩ | ⟨w, hchain, -⟩)
        · obtain ⟨-, rfl, rfl⟩ := hchain.of_not_asks hasks
          rw [hasks] at hr
          cases hr
        · obtain ⟨hzero, -, -⟩ := hchain.of_not_asks hasks
          cases hzero
    | true =>
      obtain ⟨r, rfl⟩ := exists_of_asksText hasks
      rw [renderIn_of_asks hasks, Run.bind_eq_error]
      constructor
      · rintro (hcall | ⟨u, m', hcall, hrest⟩)
        · exact .inl ⟨0, r, m, Nat.succ_pos _, .nil _ m, hasks, hcall⟩
        · obtain ⟨k, s, m'', hk, hchain, hend⟩ | ⟨w, hchain, he⟩ := ih.1 hrest
          · exact .inl ⟨k + 1, s, m'', Nat.succ_lt_succ hk, .cons hasks hcall hchain, hend⟩
          · exact .inr ⟨w, .cons hasks hcall hchain, he⟩
      · rintro (⟨k, s, m', hk, hchain, hs, hfails⟩ | ⟨w, hchain, he⟩)
        · cases hchain with
          | nil => exact .inl hfails
          | cons _ hcall hchain =>
            exact .inr ⟨_, _, hcall,
              ih.2 (.inl ⟨_, s, m', Nat.lt_of_succ_lt_succ hk, hchain, hs, hfails⟩)⟩
        · cases hchain with
          | cons _ hcall hchain => exact .inr ⟨_, _, hcall, ih.2 (.inr ⟨w, hchain, he⟩)⟩

/-! Three ways to show a value -/

/-- The value of an expression and its text, asked for at a line. -/
def told (call : Call) (e : Expr) (line : Nat) : Run (Value × String) := do
  let v ← expr call e
  return (v, ← render call v line)

theorem render_string (call : Call) (text : String) (line : Nat) :
    render call (.string text) line = pure text := rfl

/-- A value is printed by its text. -/
theorem stmt_print (call : Call) (e : Expr) (pos : Pos) : stmt call (.print [e] pos) = do
    Run.trace s!"[line {pos.line}] print"
    let told ← told call e pos.line
    Run.emit told.2 pos.line
    Run.emit "\n" pos.line
    return .completed told.1 := by
  rw [stmt]
  simp only [print, printOne, printMore, told, bind_assoc, pure_bind]

/-- A text is printed as it is. -/
theorem stmt_print_toText (call : Call) (e : Expr) (pos pos' : Pos) :
    stmt call (.print [.toText e pos'] pos) = do
      Run.trace s!"[line {pos.line}] print"
      let told ← told call e pos'.line
      Run.emit told.2 pos.line
      Run.emit "\n" pos.line
      return .completed (.string told.2) := by
  rw [stmt]
  simp only [print, printOne, printMore, expr, told, render_string, bind_assoc, pure_bind]

/-- The text of an expression is the same wherever it is asked for. -/
theorem told_alike (room : Nat) (e : Expr) (line line' : Nat) (h : m.Beside [] n) :
    Machine.EndsAlike Eq (told (callIn room) e line m) (told (callIn room) e line' n) := by
  refine (expr_alike room e h).bind fun v w m n hvw h => ?_
  subst hvw
  refine (render_alike room line line' v h).bind fun text text' m n htext h => ?_
  subst htext
  exact .ok rfl h

/-- Printing a value and printing its text as a string print the same. -/
theorem print_alike (room : Nat) (e : Expr) (pos pos' pos'' : Pos) (m : Machine) :
    Machine.EndsAlike (fun _ _ => True) (stmt (callIn room) (.print [e] pos) m)
      (stmt (callIn room) (.print [.toText e pos'] pos'') m) := by
  rw [stmt_print, stmt_print_toText]
  refine (trace_alike _ _ (.refl [] m)).bind fun _ _ m n _ h => ?_
  refine (told_alike room e pos.line pos'.line h).bind fun a b m n hab h => ?_
  subst hab
  refine (emit_alike a.2 _ _ h).bind fun _ _ m n _ h => ?_
  refine (emit_alike "\n" _ _ h).bind fun _ _ m n _ h => ?_
  exact .ok trivial h

end Eval

/-! The prompt -/

theorem Console.akin_drained (c : Console) : c.Akin c.drained := by
  cases c with
  | stream passed waiting => exact .inl ⟨rfl, rfl⟩
  | _ => exact .inr rfl

/-- The text of a value depends on the instances and the classes. -/
theorem Eval.answer_render {m n : Machine} (hheap : n.heap = m.heap)
    (hclasses : n.classes = m.classes) (hakin : m.console.Akin n.console) (room : Nat) (v : Value)
    (line : Nat) :
    (render (callIn room) v line).answer n = (render (callIn room) v line).answer m := by
  have hgoes := Goes.render ((Bond.apart m.console n.console).keptBy_callIn room)
    (v := v) trivial line
  obtain hsame | ⟨hnot, -⟩ := hgoes.sameEffect hheap hclasses
  · exact hsame.answer
  · exact absurd hakin hnot

section

variable {s : Session} {source : String} {prog : Program} {e : Expr} {pos : Pos}

/-- An entry that is one expression ends as the expression does. -/
theorem Machine.eval_of_expr {m : Machine} (hp : Program.ofSource m.classes source = .ok prog)
    (hbody : prog.statements = [.expr e pos]) :
    EndsBeside [] (expr callMethod e (m.knowing prog.classes)) (eval source m) := by
  let known := m.knowing prog.classes
  have hrun : eval source m = runAll .none [.expr e pos] known := by
    rw [eval_of_ok hp, interpret_apply, hbody]
  obtain ⟨watch, hstmt⟩ : ∃ watch, stmt callMethod (.expr e pos) known = (do
      let v ← expr callMethod e
      Run.traceValue "-> result: " v
      return .completed v : Run Outcome) { known with watch } := by
    rw [stmt]
    exact ⟨_, rfl⟩
  have hexpr : EndsBeside [] (expr callMethod e known) (expr callMethod e { known with watch }) :=
    expr_beside callLimit e ((Beside.refl [] known).watched watch)
  rw [hrun]
  change EndsBeside [] (expr callMethod e known) (EStateM.bind (runOne (.expr e pos)) _ known)
  unfold EStateM.bind runOne
  rw [hstmt]
  revert hexpr
  generalize expr callMethod e known = r
  generalize hr : expr callMethod e { known with watch } = r'
  intro hexpr
  cases hexpr with
  | ok h =>
    rw [Run.bind_of_ok hr]
    exact .ok (h.watched _)
  | error h =>
    rw [Run.bind_of_error hr]
    exact .error (h.watched _)

namespace Repl

variable {s : Session} {palette : Palette} {v : Value}

theorem append_assoc (a b c : Transcript) : a ++ b ++ c = a ++ (b ++ c) := by
  change Transcript.mk _ _ = Transcript.mk _ _
  congr 1
  · exact String.append_assoc
  · exact String.append_assoc

/-- A value with a text is shown by it, behind what is printed while it is asked for. -/
theorem shown_of_ok {text : String} (hv : v.isNone = false)
    (htext : (render callMethod v 0).answer s.machine = .ok text) :
    ∃ before, (shown palette source s v).2 =
      before ++ .sayAll [palette.paint .dim "=>" ++ " " ++ palette.paint .yellow text] := by
  unfold shown
  rw [hv, Session.perform_eq, htext]
  simp only [Bool.false_eq_true, if_false, Session.settle, Session.say]
  rw [← append_assoc]
  exact ⟨_, rfl⟩

theorem shown_of_error {err : Error} (hv : v.isNone = false)
    (herr : (render callMethod v 0).answer s.machine = .error err) :
    ∃ before, (shown palette source s v).2 = before ++ .warn (err.report palette source) := by
  unfold shown
  rw [hv, Session.perform_eq, herr]
  exact ⟨_, rfl⟩

/-- At the prompt an entry that is one expression shows the text of its value, unless it is the
empty value, and the failure where there is no text. -/
theorem echo_expr (hp : Program.ofSource s.machine.classes source = .ok prog)
    (hbody : prog.statements = [.expr e pos]) :
    match told callMethod e 0 (s.machine.knowing prog.classes) with
    | .ok (v, text) _ => v.isNone = false → ∃ before, (runEntry palette source s).2 =
        before ++ .sayAll [palette.paint .dim "=>" ++ " " ++ palette.paint .yellow text]
    | .error err _ => ∃ before, (runEntry palette source s).2 =
        before ++ .warn (err.report palette source) := by
  have heval := Machine.eval_of_expr hp hbody
  rw [told]
  unfold runEntry Session.perform
  revert heval
  generalize hv : expr callMethod e (s.machine.knowing prog.classes) = r
  generalize Machine.eval source s.machine = r'
  intro heval
  cases heval with
  | @error err k k' h =>
    rw [Run.bind_of_error hv]
    exact ⟨_, rfl⟩
  | @ok v k k' h =>
    rw [Run.bind_of_ok hv]
    let settled : Performed Value := s.settle (.ok v) k'
    -- The events are gone and the texts passed on are forgotten, which the text does not see.
    have hanswer : (render callMethod v 0).answer settled.session.machine =
        (render callMethod v 0).answer k := by
      have hheap : settled.session.machine.heap = k.heap := h.same.heap
      have hclasses : settled.session.machine.classes = k.classes := h.same.classes
      have hakin : k.console.Akin settled.session.machine.console := by
        rw [← h.same.console]
        exact k'.console.akin_drained
      exact answer_render hheap hclasses hakin callLimit v 0
    have hshown : ∀ last, (∃ before, (shown palette source settled.session v).2 = before ++ last) →
        ∃ before, settled.shown ++ (shown palette source settled.session v).2 = before ++ last := by
      rintro last ⟨before, hbefore⟩
      rw [hbefore, ← append_assoc]
      exact ⟨_, rfl⟩
    cases htext : render callMethod v 0 k with
    | ok text n =>
      rw [Run.bind_of_ok htext]
      intro hnone
      have hsettled : (render callMethod v 0).answer settled.session.machine = .ok text := by
        rw [hanswer, Run.answer, htext]
      exact hshown _ (shown_of_ok hnone hsettled)
    | error err n =>
      rw [Run.bind_of_error htext]
      have hsettled : (render callMethod v 0).answer settled.session.machine = .error err := by
        rw [hanswer, Run.answer, htext]
      have hnone : v.isNone = false := by
        cases v with
        | none => cases htext
        | _ => rfl
      exact hshown _ (shown_of_error hnone hsettled)

end Repl

end

theorem Palette.paint_plain (style : Style) (text : String) : plain.paint style text = text := by
  have hwidth : 0 - text.length = 0 := Nat.zero_sub _
  simp [paint, paintWide, plain, Text.padRight, Text.times, hwidth]

/-- The text of a value is found at the end of what it answers, and finding it always ends. A text
is shown exactly where the chain of answers ends within the limit, and is that of its last value;
the first call that fails ends it with its failure, and so does the limit once as many calls have
succeeded. Nothing is done but these calls. Printing an expression, printing its text as a string
and showing it at the prompt ask for the same text, each at its own line, on which the text does not
depend: the first two print the same, and the prompt shows what they print. -/
theorem Eval.rendered :
    (∀ call line v m text n, render call v line m = .ok text n ↔
      ∃ k w, k < callLimit ∧ Chain call line k v m w n ∧ w.asksText n.heap = false ∧
        text = w.display n.heap) ∧
    (∀ call line v m e n, render call v line m = .error e n ↔
      (∃ k r m', k < callLimit ∧ Chain call line k v m (.object r) m' ∧
        (Value.object r).asksText m'.heap = true ∧ call r "__str__" [] line m' = .error e n) ∨
      ∃ w, Chain call line callLimit v m w n ∧ e = .located (.recursionLimit callLimit) line) ∧
    (∀ v line K m d,
      Acc (fun y x => Moment.next x = some y) ⟨.render callLimit v line, [], m, d⟩ ∧
      Moment.Leads ⟨.render callLimit v line, K, m, d⟩
        (Moment.closing (fun text => .value (.string text)) K d
          (render (callIn (callLimit - d)) v line m))) ∧
    (∀ call e (pos pos' : Pos),
      (stmt call (.print [e] pos) = do
        Run.trace s!"[line {pos.line}] print"
        let told ← told call e pos.line
        Run.emit told.2 pos.line
        Run.emit "\n" pos.line
        return .completed told.1) ∧
      stmt call (.print [.toText e pos'] pos) = do
        Run.trace s!"[line {pos.line}] print"
        let told ← told call e pos'.line
        Run.emit told.2 pos.line
        Run.emit "\n" pos.line
        return .completed (.string told.2)) ∧
    (∀ room e line line' (m n : Machine), m.Beside [] n →
      Machine.EndsAlike Eq (told (callIn room) e line m) (told (callIn room) e line' n)) ∧
    (∀ room e pos pos' pos'' m,
      Machine.EndsAlike (fun _ _ => True) (stmt (callIn room) (.print [e] pos) m)
        (stmt (callIn room) (.print [.toText e pos'] pos'') m)) ∧
    (∀ style text, Palette.plain.paint style text = text) ∧
    ∀ palette (s : Session) source prog e pos,
      Program.ofSource s.machine.classes source = .ok prog → prog.statements = [.expr e pos] →
      match told callMethod e 0 (s.machine.knowing prog.classes) with
      | .ok (v, text) _ => v.isNone = false → ∃ before, (Repl.runEntry palette source s).2 =
          before ++ .sayAll [palette.paint .dim "=>" ++ " " ++ palette.paint .yellow text]
      | .error err _ => ∃ before, (Repl.runEntry palette source s).2 =
          before ++ .warn (err.report palette source) := by
  refine ⟨fun _ _ _ _ _ _ => renderIn_eq_ok_iff, fun _ _ _ _ _ _ => renderIn_eq_error_iff,
    fun v line K m d => ?_, fun call e pos pos' => ⟨stmt_print call e pos,
      stmt_print_toText call e pos pos'⟩,
    fun room e line line' m n => told_alike room e line line', print_alike, Palette.paint_plain,
    fun palette s source prog e pos => Repl.echo_expr⟩
  have hplays := Moment.plays_render (Moment.playsCalls (d := d) _ rfl) line callLimit v
  have hends := hplays [] m
  refine ⟨Moment.acc_of_leads hends ?_, hplays K m⟩
  change Moment.next (Moment.closing _ [] d (render (callIn (callLimit - d)) v line m)) = none
  cases render (callIn (callLimit - d)) v line m with
  | ok text n => rfl
  | error e n => rfl

/-- The expression that a program consists of, if it consists of one. -/
def Program.expression? (p : Program) : Option Expr :=
  match p.statements with
  | [.expr e _] => some e
  | _ => none

theorem Program.statements_of_expression? {p : Program} {e : Expr} (h : p.expression? = some e) :
    ∃ pos, p.statements = [.expr e pos] := by
  unfold expression? at h
  split at h
  · rename_i hbody
    cases h
    exact ⟨_, hbody⟩
  · cases h

/-- A machine with an instance that answers with another one, which answers with a number. -/
def Machine.labelled : Machine :=
  (Machine.eval ("class Label:\n  def __str__():\n    return self.text\n" ++
    "class Tag:\n  def __str__():\n    return self.label\n" ++
    "a = Label()\na.text = 7\nb = Tag()\nb.label = a\n")).after (Machine.fresh .empty default)

/-- The instance is asked for its text, and so is what it answers, before the prompt shows it. -/
theorem Eval.rendered_labelled :
    let s : Session := ⟨Machine.labelled, .inMemory .text 0, ""⟩
    ∃ prog e pos n, Program.ofSource s.machine.classes "b\n" = .ok prog ∧
      prog.statements = [.expr e pos] ∧
      told callMethod e 0 (s.machine.knowing prog.classes) = .ok (.object 1, "7") n ∧
      ∃ before, (Repl.runEntry .plain "b\n" s).2 = before ++ .sayAll ["=> 7"] := by
  intro s
  obtain ⟨-, -, -, -, -, -, hplain, hecho⟩ := Eval.rendered
  have hruns : ((Program.ofSource s.machine.classes "b\n").toOption.bind fun prog =>
      prog.expression?.map fun e => decide
        ((told callMethod e 0).answer (s.machine.knowing prog.classes) = .ok (.object 1, "7"))) =
        some true := by
    decide +kernel
  obtain ⟨prog, hprog, hruns⟩ := Option.bind_eq_some_iff.1 hruns
  obtain ⟨e, he, htold⟩ := Option.map_eq_some_iff.1 hruns
  obtain ⟨pos, hbody⟩ := Program.statements_of_expression? he
  obtain ⟨n, hn⟩ := Run.exists_of_answer (of_decide_eq_true htold)
  have hread := toOption_eq_some.1 hprog
  have hshown := hecho .plain s "b\n" prog e pos hread hbody
  rw [hn] at hshown
  obtain ⟨before, hbefore⟩ := hshown rfl
  simp only [hplain] at hbefore
  exact ⟨prog, e, pos, n, hread, hbody, hn, before, hbefore⟩

end ClassLang
