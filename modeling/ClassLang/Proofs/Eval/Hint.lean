import ClassLang.Proofs.Error.Wording
import ClassLang.Proofs.Eval.Halting
import ClassLang.Proofs.Eval.Safety

/-!
Where the type faults of a run come from, and their hints. A failure arises at one moment of the run
and is passed on as it is. A type fault arises where values are combined, compared or where a field
of a value is set. The hint is chosen by the wording, and it is the one for the operation, but for
the field whose name has to do with comparing.
-/

namespace ClassLang

/-- An operation that may not apply to the values at hand. -/
inductive Operation where
  | arith (op : ArithOp) (left right : Value)
  | equal (left right : Value)
  | less (left right : Value)
  | assignField (target : Value) (name : String)

namespace Operation

/-- The fault of an operation that does not apply. -/
def fault : Operation → TypeFault
  | .arith op left right => .operands op left.typeName right.typeName
  | .equal left right => .equality left.typeName right.typeName
  | .less left right => .ordering left.typeName right.typeName
  | .assignField target name => .fieldTarget name target.typeName

/-- The hint that is meant for an operation. -/
def hint? : Operation → Option String
  | .arith op left right =>
    if op = .add ∧ (left.typeName = .str ∨ right.typeName = .str) then some TypeFault.joiningHint
    else none
  | .equal .. | .less .. => some TypeFault.comparingHint
  | .assignField .. => none

/-- Whether an operation sets a field whose name has a text in it. -/
def setsField (text : String) : Operation → Bool
  | .assignField _ name => Text.contains name text
  | _ => false

end Operation

/-- The operation for which it is time, if there is one. -/
def Moment.operation? : Moment → Option Operation
  | ⟨.arith op left right _, _, _, _⟩ => some (.arith op left right)
  | ⟨.compare .equal left right _, _, _, _⟩ => some (.equal left right)
  | ⟨.compare .less left right _, _, _, _⟩ => some (.less left right)
  | ⟨.done _, .fieldValue target name _ :: _, _, _⟩ => some (.assignField target name)
  | _ => none

/-- Holds of a moment at which a failure arises. -/
structure Moment.Raises (a : Moment) (e : Error) : Prop where
  fresh : ∀ e', a.task ≠ .failed e'
  next : ∃ b, a.next = some b ∧ b.task = .failed e

/-! The moment at which a failure arises -/

namespace Moment

variable {a b c : Moment} {e e' : Error}

/-- A failure is passed on as it is. -/
theorem failed_of_next (h : a.next = some b) (ha : a.task = .failed e) : b.task = .failed e := by
  obtain ⟨t, K, m, d⟩ := a
  cases ha
  cases K with
  | nil => cases h
  | cons p K =>
    cases h
    cases p <;> rfl

theorem failed_of_leads (h : Leads a b) (ha : a.task = .failed e) : b.task = .failed e := by
  induction h with
  | refl => exact ha
  | tail _ hnext ih => exact failed_of_next hnext ih

/-- A run that fails has a moment at which the failure arises. -/
theorem exists_raises (h : Leads a c) (ha : ∀ e', a.task ≠ .failed e') (hc : c.task = .failed e) :
    ∃ b, Leads a b ∧ b.Raises e := by
  induction h generalizing e with
  | refl => exact absurd hc (ha e)
  | @tail b c hab hnext ih =>
    by_cases hb : ∃ e', b.task = .failed e'
    · obtain ⟨e', hb⟩ := hb
      have hc' := failed_of_next hnext hb
      rw [hc] at hc'
      cases hc'
      exact ih hb
    · exact ⟨b, hab, fun e' he' => hb ⟨e', he'⟩, c, hnext, hc⟩

/-- There is no other such moment. -/
theorem Raises.unique (hab : Leads a b) (hac : Leads a c) (hb : b.Raises e) (hc : c.Raises e') :
    b = c := by
  have same {x y : Moment} {e e' : Error} (hxy : Leads x y) (hx : x.Raises e) (hy : y.Raises e') :
      x = y := by
    obtain ⟨z, hz, hfailed⟩ := hx.next
    cases hxy using Relation.ReflTransGen.head_induction_on with
    | refl => rfl
    | head hnext hrest =>
      rw [hz] at hnext
      cases hnext
      exact absurd (failed_of_leads hrest hfailed) (hy.fresh e)
  have hunique : Relator.RightUnique fun x y : Moment => x.next = some y := by
    intro x y z hy hz
    rw [hy] at hz
    exact Option.some.inj hz
  obtain h | h := Relation.ReflTransGen.total_of_right_unique hunique hab hac
  · exact same h hb hc
  · exact (same h hc hb).symm

end Moment

/-! Type faults -/

/-- Holds of failures that, if they are type faults, have a property. -/
def Error.FaultsIn (P : TypeFault → Prop) (e : Error) : Prop :=
  ∀ fault line, e = .located (.typeMismatch fault) line → P fault

/-- Holds of parts of a run whose type faults have a property. -/
def Run.FaultsIn {α : Type} (P : TypeFault → Prop) (x : Run α) : Prop :=
  ∀ m e n, x m = .error e n → e.FaultsIn P

/-- The failure that a task has come to, if it has. -/
def Moment.Task.failure? : Moment.Task → Option Error
  | .failed e => some e
  | _ => none

/-- Holds of moments at which nothing has failed, or with such a failure. -/
def Moment.FaultsIn (P : TypeFault → Prop) (b : Moment) : Prop :=
  ∀ e, b.task = .failed e → e.FaultsIn P

variable {P Q : TypeFault → Prop}

namespace Run.FaultsIn

variable {α β : Type} {x : Run α}

theorem of_ok (h : ∀ m, ∃ a n, x m = .ok a n) : x.FaultsIn P := by
  intro m e n hfail
  obtain ⟨a, n', hok⟩ := h m
  rw [hok] at hfail
  cases hfail

theorem pure (a : α) : Run.FaultsIn P (Pure.pure a : Run α) := of_ok fun _ => ⟨_, _, rfl⟩

theorem fail {cause : Cause} {line : Nat} (h : (Error.located cause line).FaultsIn P) :
    Run.FaultsIn P (Run.fail cause line : Run α) := by
  intro m e n hfail
  cases hfail
  exact h

theorem bind (h : x.FaultsIn P) {f : α → Run β} (hf : ∀ a, (f a).FaultsIn P) :
    Run.FaultsIn P (x >>= f) := by
  intro m e n hfail
  change EStateM.bind x f m = .error e n at hfail
  unfold EStateM.bind at hfail
  split at hfail
  · exact hf _ _ _ _ hfail
  · rename_i hx
    cases hfail
    exact h _ _ _ hx

theorem get {f : Machine → Run α} (hf : ∀ m, (f m).FaultsIn P) :
    Run.FaultsIn P (MonadState.get >>= f) := fun m => hf m m

/-! The parts of a run that begin no task -/

theorem trace (text : String) : Run.FaultsIn P (Run.trace text) := of_ok fun _ => ⟨_, _, rfl⟩

theorem traceValue (lead : String) (v : Value) : Run.FaultsIn P (Run.traceValue lead v) :=
  of_ok fun _ => ⟨_, _, rfl⟩

theorem log (level : Log.Level) (target message : String) (line : Nat)
    (fields : List (String × String)) :
    Run.FaultsIn P (Run.log level target message line fields) := of_ok fun _ => ⟨_, _, rfl⟩

theorem define (name : String) (v : Value) : Run.FaultsIn P (Run.define name v) :=
  of_ok fun _ => ⟨_, _, rfl⟩

theorem newObject (c : Class) : Run.FaultsIn P (Run.newObject c) := of_ok fun _ => ⟨_, _, rfl⟩

theorem setField (r : Ref) (field : String) (v : Value) :
    Run.FaultsIn P (Run.setField r field v) := of_ok fun _ => ⟨_, _, rfl⟩

theorem emit (text : String) (line : Nat) : Run.FaultsIn P (Run.emit text line) := by
  refine get fun m => ?_
  split
  · exact of_ok fun _ => ⟨_, _, rfl⟩
  · exact fail nofun

theorem arithNumbers (op : ArithOp) (a b : Int64) (line : Nat) :
    Run.FaultsIn P (Eval.arithNumbers op a b line) := by
  have inRange (i : Int) : Run.FaultsIn P (Eval.inRange i line) := by
    unfold Eval.inRange
    split
    · exact pure _
    · exact fail nofun
  cases op with
  | add | sub | mul => exact inRange _
  | div =>
    simp only [Eval.arithNumbers]
    split
    · exact fail nofun
    · exact inRange _

theorem path (line : Nat) (names : List String) : Run.FaultsIn P (Eval.path line names) := by
  have field (v : Value) (name : String) : Run.FaultsIn P (Eval.field v name line) := by
    cases v with
    | object r =>
      refine get fun m => ?_
      dsimp only
      split
      · exact pure _
      · exact fail nofun
    | _ => exact fail nofun
  have fields (v : Value) (names : List String) : Run.FaultsIn P (Eval.fields line v names) := by
    induction names generalizing v with
    | nil => exact pure v
    | cons name names ih => exact bind (field v name) ih
  cases names with
  | nil => exact fail nofun
  | cons root names =>
    refine get fun m => ?_
    split
    · exact fields _ names
    · exact fail nofun

theorem defineClass (c : Class) (line : Nat) : Run.FaultsIn P (Eval.defineClass c line) :=
  bind (log _ _ _ _ _) fun _ => bind (define _ _) fun _ => pure _

/-- A field can be set of an instance only. -/
theorem assignField (target : Value) (name : String) (v : Value) (line : Nat) :
    Run.FaultsIn (· = .fieldTarget name target.typeName) (Eval.assignField target name v line) := by
  cases target with
  | object r => exact bind (setField r name v) fun _ => traceValue _ _
  | _ =>
    refine fail fun fault line' h => ?_
    cases h
    rfl

end Run.FaultsIn

namespace Moment

variable {α : Type} {K : List Pending} {d : Nat} {m : Machine}

theorem FaultsIn.mono {b : Moment} (h : b.FaultsIn P) (hPQ : ∀ fault, P fault → Q fault) :
    b.FaultsIn Q :=
  fun e he fault line heq => hPQ fault (h e he fault line heq)

theorem FaultsIn.of_none {b : Moment} (h : b.task.failure? = none) : b.FaultsIn P := by
  intro e he
  rw [he] at h
  cases h

theorem faultsIn_failed {cause : Cause} {line : Nat} (h : (Error.located cause line).FaultsIn P) :
    Moment.FaultsIn P ⟨.failed (.located cause line), K, m, d⟩ := by
  intro e he
  cases he
  exact h

theorem faultsIn_perform {x : Run α} (hx : x.FaultsIn P) {go : α → Machine → Moment}
    (hgo : ∀ a n, (go a n).FaultsIn P) : (perform K d x go m).FaultsIn P := by
  intro e he
  unfold perform at he
  split at he
  · exact hgo _ _ _ he
  · rename_i hfail
    cases he
    exact hx _ _ _ hfail

theorem faultsIn_give {x : Run Value} (hx : x.FaultsIn P) : (give K d x m).FaultsIn P :=
  faultsIn_perform hx fun _ _ => .of_none rfl

theorem faultsIn_beginExpr (e : Expr) :
    (beginExpr K d m e).FaultsIn (∃ name, · = .notAClass name) := by
  cases e with
  | name names pos => exact faultsIn_give (.path _ _)
  | construct name args pos =>
    simp only [beginExpr]
    split
    · intro e he fault line h
      cases he
      cases h
      exact ⟨name, rfl⟩
    · exact .of_none rfl
  | _ => exact .of_none rfl

theorem faultsIn_beginUse (vs : List Value) (use : Use) : (beginUse K d m vs use).FaultsIn P := by
  cases use with
  | method r name line => exact .of_none rfl
  | construct c line =>
    refine faultsIn_perform (.newObject c) fun r n => ?_
    refine faultsIn_perform (.log _ _ _ _ _) fun _ n => ?_
    split
    · exact .of_none rfl
    · exact .of_none rfl

theorem faultsIn_beginCall (r : Ref) (name : String) (args : List Value) (line : Nat) :
    (beginCall K d m r name args line).FaultsIn P := by
  unfold beginCall
  simp only []
  split
  · exact faultsIn_failed nofun
  · split
    · split
      · exact faultsIn_failed nofun
      · refine faultsIn_perform (.log _ _ _ _ _) fun _ n => ?_
        exact faultsIn_perform (.trace _) fun _ n => .of_none rfl
    · exact faultsIn_failed nofun

theorem faultsIn_beginArith (op : ArithOp) (left right : Value) (line : Nat) :
    (beginArith K d m op left right line).FaultsIn
      (· = .operands op left.typeName right.typeName) := by
  have refused : (give K d (Eval.badOperands op left right line) m).FaultsIn
      (· = .operands op left.typeName right.typeName) := by
    refine faultsIn_give (.fail fun fault line' h => ?_)
    cases h
    rfl
  unfold beginArith
  split
  · exact faultsIn_give (.arithNumbers _ _ _ _)
  · split
    · exact .of_none rfl
    · exact refused
  · split
    · exact .of_none rfl
    · exact refused
  · exact refused

theorem faultsIn_beginEqual (left right : Value) (line : Nat) :
    (beginEqual K d m left right line).FaultsIn
      (· = .equality left.typeName right.typeName) := by
  have refused : Moment.FaultsIn (· = .equality left.typeName right.typeName)
      ⟨.failed (.located (.typeMismatch (.equality left.typeName right.typeName)) line),
        K, m, d⟩ := by
    refine faultsIn_failed fun fault line' h => ?_
    cases h
    rfl
  unfold beginEqual
  simp only []
  split
  case h_5 =>
    split
    · exact .of_none rfl
    · exact refused
  case h_6 => exact refused
  all_goals exact .of_none rfl

theorem faultsIn_beginLess (left right : Value) (line : Nat) :
    (beginLess K d m left right line).FaultsIn
      (· = .ordering left.typeName right.typeName) := by
  have refused : Moment.FaultsIn (· = .ordering left.typeName right.typeName)
      ⟨.failed (.located (.typeMismatch (.ordering left.typeName right.typeName)) line),
        K, m, d⟩ := by
    refine faultsIn_failed fun fault line' h => ?_
    cases h
    rfl
  unfold beginLess
  simp only []
  split
  case h_4 =>
    split
    · exact .of_none rfl
    · exact refused
  case h_5 => exact refused
  all_goals exact .of_none rfl

theorem faultsIn_beginRender (v : Value) (line steps : Nat) :
    (beginRender K d m v line steps).FaultsIn P := by
  cases steps with
  | zero => exact faultsIn_failed nofun
  | succ steps =>
    cases v with
    | object r =>
      simp only [beginRender]
      split
      · exact .of_none rfl
      · exact .of_none rfl
    | _ => exact .of_none rfl

theorem faultsIn_beginMore (first : Value) (line : Nat) (es : List Expr) :
    (beginMore K d m first line es).FaultsIn P := by
  cases es with
  | nil => exact faultsIn_perform (.emit _ _) fun _ _ => .of_none rfl
  | cons e es => exact faultsIn_perform (.emit _ _) fun _ _ => .of_none rfl

theorem faultsIn_beginPrint (line : Nat) (es : List Expr) :
    (beginPrint K d m line es).FaultsIn P := by
  cases es with
  | nil => exact faultsIn_perform (.emit _ _) fun _ _ => .of_none rfl
  | cons e es => exact .of_none rfl

theorem faultsIn_beginOtherwise (line : Nat) (no : Option Stmt) :
    (beginOtherwise K d m line no).FaultsIn P := by
  cases no with
  | none => exact .of_none rfl
  | some s => exact faultsIn_perform (.trace _) fun _ _ => .of_none rfl

theorem faultsIn_beginStmt (s : Stmt) : (beginStmt K d m s).FaultsIn P := by
  cases s with
  | print args pos => exact faultsIn_perform (.trace _) fun _ _ => faultsIn_beginPrint _ _
  | classDef c pos =>
    exact faultsIn_perform (.trace _) fun _ _ => faultsIn_give (.defineClass c _)
  | block | methodBody => exact .of_none rfl
  | _ => exact faultsIn_perform (.trace _) fun _ _ => .of_none rfl

theorem faultsIn_resume (o : Outcome) (p : Pending) : (resume K d m o p).FaultsIn fun fault =>
    ∃ target name line, p = .fieldValue target name line ∧
      fault = .fieldTarget name target.typeName := by
  cases p with
  | receiver method args line =>
    simp only [resume]
    cases o.value with
    | object r => exact .of_none rfl
    | _ => exact faultsIn_failed fun _ _ h => by cases h
  | program s ss =>
    cases o with
    | completed v => exact .of_none rfl
    | returning v => exact faultsIn_failed fun _ _ h => by cases h
  | methodBody | statements => cases o <;> exact .of_none rfl
  | unlessEqual left right line =>
    simp only [resume]
    split
    · exact .of_none rfl
    · exact .of_none rfl
  | logic op right =>
    cases op with
    | or | and =>
      simp only [resume]
      split
      · exact .of_none rfl
      · exact .of_none rfl
  | emitting first rest line =>
    exact faultsIn_perform (.emit _ _) fun _ _ => faultsIn_beginMore _ _ _
  | assign name =>
    refine faultsIn_perform (.traceValue _ _) fun _ n => ?_
    exact faultsIn_perform (.define _ _) fun _ _ => .of_none rfl
  | fieldValue target name line =>
    refine faultsIn_perform (fun m e n he fault line' h => ?_) fun _ _ => .of_none rfl
    exact ⟨target, name, line, rfl, Run.FaultsIn.assignField _ _ _ _ m e n he fault line' h⟩
  | give | expression => exact faultsIn_perform (.traceValue _ _) fun _ _ => .of_none rfl
  | branch yes no line =>
    refine faultsIn_perform (.traceValue _ _) fun _ n => ?_
    split
    · exact .of_none rfl
    · exact faultsIn_beginOtherwise _ _
  | _ => exact .of_none rfl

/-- A type fault arises where an operation does not apply, or where what is constructed is no
class. -/
theorem faultsIn_next {a b : Moment} (hnext : a.next = some b) (ha : ∀ e, a.task ≠ .failed e) :
    b.FaultsIn fun fault =>
      (∃ o, a.operation? = some o ∧ fault = o.fault) ∨ ∃ name, fault = .notAClass name := by
  obtain ⟨t, K, m, d⟩ := a
  cases t with
  | expr e => exact Option.some.inj hnext ▸ (faultsIn_beginExpr e).mono fun _ => .inr
  | args ready rest use =>
    cases rest with
    | nil => exact Option.some.inj hnext ▸ faultsIn_beginUse ready use
    | cons e es => exact Option.some.inj hnext ▸ .of_none rfl
  | call r name args line => exact Option.some.inj hnext ▸ faultsIn_beginCall r name args line
  | arith op left right line =>
    exact Option.some.inj hnext ▸ (faultsIn_beginArith op left right line).mono fun _ h =>
      .inl ⟨_, rfl, h⟩
  | compare op left right line =>
    cases op with
    | equal =>
      exact Option.some.inj hnext ▸ (faultsIn_beginEqual left right line).mono fun _ h =>
        .inl ⟨_, rfl, h⟩
    | less =>
      exact Option.some.inj hnext ▸ (faultsIn_beginLess left right line).mono fun _ h =>
        .inl ⟨_, rfl, h⟩
    | _ => exact Option.some.inj hnext ▸ .of_none rfl
  | render steps v line => exact Option.some.inj hnext ▸ faultsIn_beginRender v line steps
  | stmt s => exact Option.some.inj hnext ▸ faultsIn_beginStmt s
  | block ss => cases ss <;> exact Option.some.inj hnext ▸ .of_none rfl
  | program last ss => cases ss <;> exact Option.some.inj hnext ▸ .of_none rfl
  | done o =>
    cases K with
    | nil => cases hnext
    | cons p K =>
      refine Option.some.inj hnext ▸ (faultsIn_resume o p).mono fun fault h => ?_
      obtain ⟨target, name, line, rfl, hfault⟩ := h
      exact .inl ⟨_, rfl, hfault⟩
  | failed e => exact absurd rfl (ha e)

end Moment

/-! The hint -/

/-- The hint for a type fault is the one that is meant for the operation, but where a field is set
whose name has to do with comparing. -/
theorem Operation.hint_fault {o : Operation}
    (h : ∀ name kind, o.fault = .fieldTarget name kind → IsName name) :
    typeHint? o.fault.text =
      if o.setsField "compare" then some TypeFault.comparingHint else o.hint? := by
  cases o with
  | arith op left right => exact TypeFault.hint_operands op left.typeName right.typeName
  | equal left right => exact TypeFault.hint_compare (.inl rfl)
  | less left right => exact TypeFault.hint_compare (.inr rfl)
  | assignField target name => exact TypeFault.hint_fieldTarget (h _ _ rfl) _

namespace Machine

variable {m n : Machine} {source : String} {p : Program} {fault : TypeFault} {line : Nat}

theorem leads_of_interpret {e : Error} (he : interpret p m = .error e n) :
    ∃ b, Moment.Leads (Moment.start p m) b ∧ b.task = .failed e := by
  have h := Moment.plays_program .none p.statements []
    { m with classes := m.classes.merge p.classes }
  change Moment.Leads _ (Moment.closing _ _ _ (interpret p m)) at h
  rw [he] at h
  exact ⟨_, h, rfl⟩

/-- A type fault of a program arises at one moment of its run, at which an operation does not apply
to the values at hand. Its hint is the one that is meant for this operation, but where a field is
set whose name has the word for comparing in it. -/
theorem Reached.hint_of_interpret (h : m.Reached) (hp : Program.ofSource m.classes source = .ok p)
    (he : interpret p m = .error (.located (.typeMismatch fault) line) n) :
    ∃ a o, Moment.Leads (Moment.start p m) a ∧
      a.Raises (.located (.typeMismatch fault) line) ∧
      (∀ a' e', Moment.Leads (Moment.start p m) a' → a'.Raises e' → a' = a) ∧
      a.operation? = some o ∧
      (Error.located (.typeMismatch fault) line).hint? =
        if o.setsField "compare" then some TypeFault.comparingHint else o.hint? := by
  obtain ⟨b, hb, hfailed⟩ := leads_of_interpret he
  obtain ⟨a, ha, hraises⟩ := Moment.exists_raises hb nofun hfailed
  obtain ⟨cause, line', heq, hcause⟩ := h.sound.ofRun_of_interpret hp he
  cases heq
  obtain ⟨c, hnext, hc⟩ := hraises.next
  obtain ⟨o, ho, rfl⟩ | ⟨name, rfl⟩ := Moment.faultsIn_next hnext hraises.fresh _ hc _ _ rfl
  · refine ⟨a, o, ha, hraises, fun a' e' ha' hraises' => ?_, ho, ?_⟩
    · exact hraises'.unique ha' ha hraises
    · exact Operation.hint_fault fun name kind hfault => hcause.field name kind (by rw [hfault])
  · exact absurd rfl (hcause.isClass name)

theorem interpret_of_answer (m : Machine) (source : String) {e : Error}
    (hread : (Program.ofSource m.classes source).isOk = true)
    (hanswer : (Machine.eval source).answer m = .error e) :
    ∃ p n, Program.ofSource m.classes source = .ok p ∧ interpret p m = .error e n := by
  obtain ⟨p, hp⟩ := exists_eq_ok hread
  rw [Run.answer, eval_of_ok hp] at hanswer
  split at hanswer
  · cases hanswer
  · rename_i hrun
    cases hanswer
    exact ⟨p, _, hp, hrun⟩

/-- A number and a string are put together in a method. -/
theorem hint_of_interpret_sum :
    (fresh .empty default).Reached ∧ ∃ p n,
      Program.ofSource (fresh .empty default).classes
        "class A:\n  def f():\n    return 1 + \"a\"\nprint A().f()\n" = .ok p ∧
      interpret p (fresh .empty default) =
        .error (.located (.typeMismatch (.operands .add .int .str)) 3) n ∧
      ∃ a o, Moment.Leads (Moment.start p (fresh .empty default)) a ∧
        a.Raises (.located (.typeMismatch (.operands .add .int .str)) 3) ∧
        a.operation? = some o ∧ some TypeFault.joiningHint =
          if o.setsField "compare" then some TypeFault.comparingHint else o.hint? := by
  have hreached : (fresh .empty default).Reached := .fresh _ _
  have hanswer : (Machine.eval "class A:\n  def f():\n    return 1 + \"a\"\nprint A().f()\n").answer
      (fresh .empty default) = .error (.located (.typeMismatch (.operands .add .int .str)) 3) := by
    decide +kernel
  obtain ⟨p, n, hp, he⟩ := interpret_of_answer _ _ (by decide +kernel) hanswer
  obtain ⟨a, o, ha, hraises, -, ho, hhint⟩ := hreached.hint_of_interpret hp he
  have hjoining : (Error.located (.typeMismatch (.operands .add .int .str)) 3).hint? =
      some TypeFault.joiningHint := TypeFault.hint_operands .add .int .str
  rw [hjoining] at hhint
  exact ⟨hreached, p, n, hp, he, a, o, ha, hraises, ho, hhint⟩

/-- A field may be named for comparing where nothing is compared, and the hint follows the name. -/
theorem not_forall_hint_meant :
    ¬ ∀ (m : Machine) (source : String) (p : Program) (fault : TypeFault) (line : Nat)
        (n : Machine),
      m.Reached → Program.ofSource m.classes source = .ok p →
      interpret p m = .error (.located (.typeMismatch fault) line) n →
      ∃ a o, Moment.Leads (Moment.start p m) a ∧
        a.Raises (.located (.typeMismatch fault) line) ∧ a.operation? = some o ∧
        (Error.located (.typeMismatch fault) line).hint? = o.hint? := by
  intro hall
  have hanswer : (Machine.eval "x = 1\nx.compare = 2\n").answer (fresh .empty default) =
      .error (.located (.typeMismatch (.fieldTarget "compare" .int)) 2) := by
    decide +kernel
  obtain ⟨p, n, hp, he⟩ := interpret_of_answer _ _ (by decide +kernel) hanswer
  obtain ⟨a, o, -, hraises, ho, hhint⟩ := hall _ _ p _ _ n (.fresh _ _) hp he
  obtain ⟨b, hnext, hb⟩ := hraises.next
  have hfault : o.fault = .fieldTarget "compare" .int := by
    obtain ⟨o', ho', hfault⟩ | ⟨name, hname⟩ :=
      Moment.faultsIn_next hnext hraises.fresh _ hb _ _ rfl
    · rw [ho] at ho'
      cases ho'
      exact hfault.symm
    · cases hname
  have hnone : o.hint? = none := by
    cases o with
    | assignField target name => rfl
    | _ => cases hfault
  have hcomparing : (Error.located (.typeMismatch (.fieldTarget "compare" .int)) 2).hint? =
      some TypeFault.comparingHint := by decide +kernel
  rw [hnone, hcomparing] at hhint
  cases hhint

end Machine

end ClassLang
