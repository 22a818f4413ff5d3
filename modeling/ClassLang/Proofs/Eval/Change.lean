import ClassLang.Proofs.Eval.Bond
import ClassLang.Proofs.Eval.Halting
import ClassLang.Proofs.Eval.Safety

/-!
What a moment can change. There are seven elementary changes of a machine, and whatever a run does,
it does through these: each moment makes some of them, one after the other. What none of them
undoes, no run undoes.
-/

namespace ClassLang

/-- The elementary changes of a machine. -/
inductive Machine.Change : Machine → Machine → Prop where
  | watched (m : Machine) (watch : Watch) : Change m { m with watch }
  | printed {m : Machine} {text : String} {console : Console} :
      m.console.write text = .ok console → Change m { m with console }
  /-- A name is bound in the bindings in force. -/
  | bound (m : Machine) (name : String) (v : Value) : Change m ((Run.define name v).after m)
  | made (m : Machine) (c : Class) : Change m { m with heap := m.heap.alloc c }
  | set (m : Machine) (r : Ref) (field : String) (v : Value) :
      Change m { m with heap := m.heap.setField r field v }
  | entered (m : Machine) (frame : Env) : Change m { m with frames := frame :: m.frames }
  | left (m : Machine) : Change m { m with frames := m.frames.tail }

/-- One machine comes from another through elementary changes. -/
abbrev Machine.Changes : Machine → Machine → Prop := Relation.ReflTransGen Machine.Change

/-- Holds of parts of a run that make elementary changes, however they end. -/
def Run.Changes {α : Type} (x : Run α) : Prop := ∀ m : Machine, m.Changes (x.after m)

namespace Run.Changes

variable {α β : Type} {x : Run α}

theorem pure (a : α) : Run.Changes (Pure.pure a : Run α) := fun _ => .refl

theorem fail (cause : Cause) (line : Nat) : Run.Changes (Run.fail cause line : Run α) :=
  fun _ => .refl

theorem bind (h : x.Changes) {f : α → Run β} (hf : ∀ a, (f a).Changes) :
    Run.Changes (x >>= f) := by
  intro m
  have hx := h m
  change m.Changes (Run.after (EStateM.bind x f) m)
  unfold Run.after EStateM.bind
  unfold Run.after at hx
  revert hx
  cases x m with
  | ok a n => exact fun hx => hx.trans (hf a n)
  | error e n => exact id

/-- What is read of the machine leaves it as it is. -/
theorem get {f : Machine → Run α} (hf : ∀ m, (f m).Changes) :
    Run.Changes (MonadState.get >>= f) := fun m => hf m m

/-! The elementary steps -/

theorem watch (f : Heap → Watch → Watch) : Run.Changes (Run.watch f) := fun _ =>
  .single (.watched _ _)

theorem trace (text : String) : Run.Changes (Run.trace text) := watch _

theorem traceValue (lead : String) (v : Value) : Run.Changes (Run.traceValue lead v) := watch _

theorem log (level : Log.Level) (target message : String) (line : Nat)
    (fields : List (String × String)) :
    Run.Changes (Run.log level target message line fields) := fun _ => .single (.watched _ _)

theorem emit (text : String) (line : Nat) : Run.Changes (Run.emit text line) := by
  intro m
  unfold Run.after
  rw [Run.emit_apply]
  cases hw : m.console.write text with
  | ok console => exact .single (.printed hw)
  | error reason => exact .refl

theorem define (name : String) (v : Value) : Run.Changes (Run.define name v) := fun _ =>
  .single (.bound _ name v)

theorem newObject (c : Class) : Run.Changes (Run.newObject c) := fun _ => .single (.made _ c)

theorem setField (r : Ref) (field : String) (v : Value) :
    Run.Changes (Run.setField r field v) := fun _ => .single (.set _ r field v)

/-! The parts of a run that begin no task -/

theorem inRange (i : Int) (line : Nat) : Run.Changes (Eval.inRange i line) := by
  unfold Eval.inRange
  split
  · exact pure _
  · exact fail _ _

theorem arithNumbers (op : ArithOp) (a b : Int64) (line : Nat) :
    Run.Changes (Eval.arithNumbers op a b line) := by
  cases op with
  | add | sub | mul => exact inRange _ _
  | div =>
    simp only [Eval.arithNumbers]
    split
    · exact fail _ _
    · exact inRange _ _

theorem field (v : Value) (name : String) (line : Nat) :
    Run.Changes (Eval.field v name line) := by
  cases v with
  | object r =>
    refine get fun m => ?_
    dsimp only
    split
    · exact pure _
    · exact fail _ _
  | _ => exact fail _ _

theorem fields (line : Nat) (v : Value) (names : List String) :
    Run.Changes (Eval.fields line v names) := by
  induction names generalizing v with
  | nil => exact pure v
  | cons name names ih => exact bind (field v name line) ih

theorem path (line : Nat) (names : List String) : Run.Changes (Eval.path line names) := by
  cases names with
  | nil => exact fail _ _
  | cons root names =>
    refine get fun m => ?_
    split
    · exact fields line _ names
    · exact fail _ _

theorem assignField (target : Value) (name : String) (v : Value) (line : Nat) :
    Run.Changes (Eval.assignField target name v line) := by
  cases target with
  | object r => exact bind (setField r name v) fun _ => traceValue _ _
  | _ => exact fail _ _

theorem defineClass (c : Class) (line : Nat) : Run.Changes (Eval.defineClass c line) :=
  bind (log _ _ _ _ _) fun _ => bind (define _ _) fun _ => pure _

end Run.Changes

namespace Moment

variable {α : Type} {K : List Pending} {d : Nat} {m : Machine}

/-! One moment -/

theorem changes_perform {x : Run α} (hx : x.Changes) {go : α → Machine → Moment}
    (hgo : ∀ a (n : Machine), n.Changes (go a n).machine) :
    m.Changes (perform K d x go m).machine := by
  have hm := hx m
  unfold perform
  unfold Run.after at hm
  revert hm
  cases x m with
  | ok a n => exact fun hm => hm.trans (hgo a n)
  | error e n => exact id

theorem changes_give {x : Run Value} (hx : x.Changes) : m.Changes (give K d x m).machine :=
  changes_perform hx fun _ _ => .refl

theorem changes_setDepth (f : Nat → Nat) (m : Machine) : m.Changes (Run.setDepth f m) :=
  .single (.watched m _)

theorem changes_enter (frame : Env) (body : Stmt) : m.Changes (enter K d frame body m).machine :=
  .head (.entered m frame) (changes_setDepth _ _)

theorem changes_exit (t : Task) : m.Changes (exit K d t m).machine :=
  (changes_setDepth (· - 1) m).tail (.left _)

theorem changes_beginExpr (e : Expr) : m.Changes (beginExpr K d m e).machine := by
  cases e with
  | name names pos => exact changes_give (.path _ _)
  | construct name args pos =>
    simp only [beginExpr]
    split
    · exact .refl
    · exact .refl
  | _ => exact .refl

theorem changes_beginUse (vs : List Value) (use : Use) :
    m.Changes (beginUse K d m vs use).machine := by
  cases use with
  | method r name line => exact .refl
  | construct c line =>
    refine changes_perform (.newObject c) fun r n => ?_
    refine changes_perform (.log _ _ _ _ _) fun _ n => ?_
    split
    · exact .refl
    · exact .refl

theorem changes_beginCall (r : Ref) (name : String) (args : List Value) (line : Nat) :
    m.Changes (beginCall K d m r name args line).machine := by
  unfold beginCall
  simp only []
  split
  · exact .refl
  · split
    · split
      · exact .refl
      · refine changes_perform (.log _ _ _ _ _) fun _ n => ?_
        exact changes_perform (.trace _) fun _ n => changes_enter _ _
    · exact .refl

theorem changes_beginArith (op : ArithOp) (left right : Value) (line : Nat) :
    m.Changes (beginArith K d m op left right line).machine := by
  have refused : m.Changes (give K d (Eval.badOperands op left right line) m).machine :=
    changes_give (.fail _ _)
  unfold beginArith
  split
  · exact changes_give (.arithNumbers _ _ _ _)
  · split
    · exact .refl
    · exact refused
  · split
    · exact .refl
    · exact refused
  · exact refused

theorem changes_beginEqual (left right : Value) (line : Nat) :
    m.Changes (beginEqual K d m left right line).machine := by
  unfold beginEqual
  simp only []
  split
  case h_5 =>
    split
    · exact .refl
    · exact .refl
  all_goals exact .refl

theorem changes_beginLess (left right : Value) (line : Nat) :
    m.Changes (beginLess K d m left right line).machine := by
  unfold beginLess
  simp only []
  split
  case h_4 =>
    split
    · exact .refl
    · exact .refl
  all_goals exact .refl

theorem changes_beginRender (v : Value) (line steps : Nat) :
    m.Changes (beginRender K d m v line steps).machine := by
  cases steps with
  | zero => exact .refl
  | succ steps =>
    cases v with
    | object r =>
      simp only [beginRender]
      split
      · exact .refl
      · exact .refl
    | _ => exact .refl

theorem changes_beginMore (first : Value) (line : Nat) (es : List Expr) :
    m.Changes (beginMore K d m first line es).machine := by
  cases es with
  | nil => exact changes_perform (.emit _ _) fun _ _ => .refl
  | cons e es => exact changes_perform (.emit _ _) fun _ _ => .refl

theorem changes_beginPrint (line : Nat) (es : List Expr) :
    m.Changes (beginPrint K d m line es).machine := by
  cases es with
  | nil => exact changes_perform (.emit _ _) fun _ _ => .refl
  | cons e es => exact .refl

theorem changes_beginOtherwise (line : Nat) (no : Option Stmt) :
    m.Changes (beginOtherwise K d m line no).machine := by
  cases no with
  | none => exact .refl
  | some s => exact changes_perform (.trace _) fun _ _ => .refl

theorem changes_beginStmt (s : Stmt) : m.Changes (beginStmt K d m s).machine := by
  cases s with
  | print args pos => exact changes_perform (.trace _) fun _ _ => changes_beginPrint _ _
  | classDef c pos =>
    exact changes_perform (.trace _) fun _ _ => changes_give (.defineClass c _)
  | block body pos => exact changes_setDepth (· + 1) m
  | methodBody body pos => exact .refl
  | _ => exact changes_perform (.trace _) fun _ _ => .refl

theorem changes_resume (o : Outcome) (p : Pending) : m.Changes (resume K d m o p).machine := by
  cases p with
  | leave => exact changes_exit _
  | endBlock => exact changes_setDepth (· - 1) m
  | receiver | unlessEqual | methodBody | statements | program =>
    simp only [resume]
    split
    · exact .refl
    · exact .refl
  | logic op right =>
    cases op with
    | or | and =>
      simp only [resume]
      split
      · exact .refl
      · exact .refl
  | emitting first rest line =>
    exact changes_perform (.emit _ _) fun _ _ => changes_beginMore _ _ _
  | assign name =>
    refine changes_perform (.traceValue _ _) fun _ n => ?_
    exact changes_perform (.define _ _) fun _ _ => .refl
  | fieldValue target name line => exact changes_perform (.assignField _ _ _ _) fun _ _ => .refl
  | give | expression => exact changes_perform (.traceValue _ _) fun _ _ => .refl
  | branch yes no line =>
    refine changes_perform (.traceValue _ _) fun _ n => ?_
    split
    · exact .refl
    · exact changes_beginOtherwise _ _
  | _ => exact .refl

theorem changes_abandon (e : Error) (p : Pending) :
    m.Changes (abandon K d m e p).machine := by
  cases p with
  | leave => exact changes_exit _
  | endBlock | program => exact .single (.watched _ _)
  | _ => exact .refl

/-- Every moment makes elementary changes. -/
theorem changes_of_next {a b : Moment} (h : a.next = some b) : a.machine.Changes b.machine := by
  obtain ⟨t, K, m, d⟩ := a
  cases t with
  | expr e => exact Option.some.inj h ▸ changes_beginExpr e
  | args ready rest use =>
    cases rest with
    | nil => exact Option.some.inj h ▸ changes_beginUse ready use
    | cons e es => exact Option.some.inj h ▸ .refl
  | call r name args line => exact Option.some.inj h ▸ changes_beginCall r name args line
  | arith op left right line => exact Option.some.inj h ▸ changes_beginArith op left right line
  | compare op left right line =>
    cases op with
    | equal => exact Option.some.inj h ▸ changes_beginEqual left right line
    | less => exact Option.some.inj h ▸ changes_beginLess left right line
    | _ => exact Option.some.inj h ▸ .refl
  | render steps v line => exact Option.some.inj h ▸ changes_beginRender v line steps
  | stmt s => exact Option.some.inj h ▸ changes_beginStmt s
  | block ss => cases ss <;> exact Option.some.inj h ▸ .refl
  | program last ss => cases ss <;> exact Option.some.inj h ▸ .refl
  | done o =>
    cases K with
    | nil => cases h
    | cons p K => exact Option.some.inj h ▸ changes_resume o p
  | failed e =>
    cases K with
    | nil => cases h
    | cons p K => exact Option.some.inj h ▸ changes_abandon e p

/-- So does every run. -/
theorem changes_of_leads {a b : Moment} (h : Leads a b) : a.machine.Changes b.machine := by
  induction h with
  | refl => exact .refl
  | tail _ hnext ih => exact ih.trans (changes_of_next hnext)

end Moment

end ClassLang
