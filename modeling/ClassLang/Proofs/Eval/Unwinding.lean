import ClassLang.Proofs.Eval.Context
import ClassLang.Proofs.Eval.Halting
import ClassLang.Proofs.Eval.Trimmed

/-!
Returns. While a call is active, what waits tells whether its own statements are executed, those of
a call inside it, or an expression is evaluated. Only its own statements return from it, and once
one of them has a value to return, nothing is left to do but to leave the blocks around it.
-/

namespace ClassLang

open Eval

mutual

/-- Holds of statements without the body of another method in them. -/
def Stmt.Plain : Stmt → Prop
  | .branch _ yes no _ => yes.Plain ∧ Stmt.PlainElse no
  | .block body _ => Stmt.PlainAll body
  | .methodBody _ _ => False
  | .assign _ _ _ | .assignField _ _ _ _ | .print _ _ | .classDef _ _ | .give _ _ | .expr _ _ =>
    True
termination_by structural s => s

/-- Holds of what stands behind `else` without the body of another method in it. -/
def Stmt.PlainElse : Option Stmt → Prop
  | none => True
  | some s => s.Plain
termination_by structural s => s

/-- Holds of statements, each without the body of another method in it. -/
def Stmt.PlainAll : List Stmt → Prop
  | [] => True
  | s :: ss => s.Plain ∧ Stmt.PlainAll ss
termination_by structural ss => ss

end

variable {known : String → Bool} {inMethod : Bool}

mutual

theorem Stmt.Admitted.plain : {s : Stmt} → s.Admitted known inMethod → s.Plain
  | .branch _ _ _ _, ⟨_, hyes, hno⟩ => ⟨hyes.plain, hno.plain⟩
  | .assign .., _ | .assignField .., _ | .print .., _ | .give .., _ | .expr .., _ => trivial

theorem Stmt.AdmittedSuite.plain : {s : Stmt} → s.AdmittedSuite known inMethod → s.Plain
  | .block _ _, ⟨_, hbody⟩ => hbody.plain

theorem Stmt.AdmittedElse.plain : {no : Option Stmt} → Stmt.AdmittedElse known inMethod no →
    Stmt.PlainElse no
  | none, _ => trivial
  | some _, hs => Stmt.AdmittedSuite.plain hs

theorem Stmt.AdmittedAll.plain : {ss : List Stmt} → Stmt.AdmittedAll known inMethod ss →
    Stmt.PlainAll ss
  | [], _ => trivial
  | _ :: _, ⟨hs, hss⟩ => ⟨hs.plain, hss.plain⟩

end

/-- No method that the grammar admits has the body of another one in its own. -/
theorem Method.Admitted.plain {x : Method} (h : x.Admitted known) :
    ∃ body pos, x.body = .methodBody body pos ∧ body.Plain := by
  obtain ⟨body, pos, hbody, hadmitted⟩ := h.body
  exact ⟨body, pos, hbody, hadmitted.plain⟩

namespace Moment

/-- What is done at a moment while a call is active: a statement of its own is executed, a statement
of a call inside it, or an expression is evaluated in either. -/
inductive Level where
  | own
  | inner
  | value

/-- Holds of what waits for the value of an expression that is part of another one. -/
def Pending.IsOperand : Pending → Prop
  | .receiver .. | .argument .. | .constructed .. | .toText .. | .arithLeft .. | .arithRight ..
  | .logic .. | .truth | .negation | .compareLeft .. | .compareRight .. | .unlessEqual ..
  | .rendered .. => True
  | _ => False

/-- Holds of what waits for the value of an expression that is part of a statement. -/
def Pending.IsClause (l : Level) : Pending → Prop
  | .printing .. | .emitting .. | .assign .. | .fieldTarget .. | .fieldValue .. | .give
  | .expression => True
  | .branch yes no _ => l = .own → yes.Plain ∧ Stmt.PlainElse no
  | _ => False

/-- Holds of what waits for the end of a statement. -/
def Pending.IsOutline : Pending → Prop
  | .statements .. | .endBlock | .methodBody => True
  | _ => False

/-- What waits, the counter being at a number, while a call is active that began with the counter at
`d` and that nothing waits for. -/
inductive Waits (d : Nat) : Level → Nat → List Pending → Prop where
  | body : Waits d .own (d + 1) [.methodBody, .leave]
  | statements {c : Nat} {K : List Pending} {ss : List Stmt} :
      Waits d .own c K → Stmt.PlainAll ss → Waits d .own c (.statements ss :: K)
  | block {c : Nat} {K : List Pending} : Waits d .own c K → Waits d .own c (.endBlock :: K)
  | call {c : Nat} {K : List Pending} : Waits d .value c K → Waits d .inner (c + 1) (.leave :: K)
  | outline {c : Nat} {K : List Pending} {p : Pending} :
      Waits d .inner c K → p.IsOutline → Waits d .inner c (p :: K)
  | clause {l : Level} {c : Nat} {K : List Pending} {p : Pending} :
      Waits d l c K → l ≠ .value → p.IsClause l → Waits d .value c (p :: K)
  | operand {c : Nat} {K : List Pending} {p : Pending} :
      Waits d .value c K → p.IsOperand → Waits d .value c (p :: K)

/-- Holds of tasks that belong to a level. A statement of the call's own returns only where `given`
holds. -/
def Task.Fits (given : Prop) (l : Level) : Task → Prop
  | .expr .. | .args .. | .call .. | .arith .. | .compare .. | .render .. => l = .value
  | .stmt s => match l with
    | .own => s.Plain
    | .inner => True
    | .value => False
  | .block ss => match l with
    | .own => Stmt.PlainAll ss
    | .inner => True
    | .value => False
  | .done (.returning _) => match l with
    | .own => given
    | .inner => True
    | .value => False
  | .done (.completed _) | .failed _ => True
  | .program .. => False

/-- Holds of tasks with which a call ends: a failure, or a value, which is none unless `given`
holds. -/
def Task.Ends (given : Prop) : Task → Prop
  | .failed _ => True
  | .done (.completed v) => given ∨ v = .none
  | _ => False

/-- The moments of a call that nothing waits for, from the one at which its statements begin. -/
inductive Working (d : Nat) (given : Prop) : Moment → Prop where
  | active {l : Level} {t : Task} {K : List Pending} {m : Machine} {c : Nat} :
      Waits d l c K → t.Fits given l → Working d given ⟨t, K, m, c⟩
  | leaving {t : Task} {m : Machine} {c : Nat} : t.Ends given → Working d given ⟨t, [.leave], m, c⟩
  | ended {t : Task} {m : Machine} {c : Nat} : t.Ends given → Working d given ⟨t, [], m, c⟩

namespace Waits

variable {α : Type} {d c : Nat} {given : Prop} {l : Level} {K : List Pending} {m : Machine}

/-- The counter tells the statements of the call from those of a call inside it. -/
theorem counter (h : Waits d l c K) :
    d < c ∧ (l = .own → c = d + 1) ∧ (l = .inner → d + 1 < c) := by
  induction h with
  | body => simp
  | statements _ _ ih => exact ih
  | block _ ih => exact ih
  | call _ ih =>
    obtain ⟨hlt, -, -⟩ := ih
    refine ⟨by omega, nofun, fun _ => by omega⟩
  | outline _ _ ih => exact ih
  | clause _ _ _ ih => exact ⟨ih.1, nofun, nofun⟩
  | operand _ _ ih => exact ⟨ih.1, nofun, nofun⟩

theorem failed (h : Waits d l c K) (e : Error) : Working d given ⟨.failed e, K, m, c⟩ :=
  .active h trivial

theorem yields (h : Waits d l c K) (v : Value) : Working d given ⟨.value v, K, m, c⟩ :=
  .active h trivial

theorem perform (h : Waits d l c K) {x : Run α} {go : α → Machine → Moment}
    (hgo : ∀ a n, Working d given (go a n)) : Working d given (perform K c x go m) := by
  unfold Moment.perform
  cases x m with
  | ok a n => exact hgo a n
  | error e n => exact h.failed e

theorem give (h : Waits d l c K) (x : Run Value) : Working d given (give K c x m) :=
  h.perform fun v _ => h.yields v

/-! Expressions -/

theorem beginExpr (h : Waits d .value c K) (e : Expr) :
    Working d given (beginExpr K c m e) := by
  cases e with
  | literal l pos => exact h.yields _
  | name names pos => exact h.give _
  | construct name args pos =>
    simp only [Moment.beginExpr]
    split
    · exact h.failed _
    · exact .active h rfl
  | _ => exact .active (h.operand trivial) rfl

theorem beginUse (h : Waits d .value c K) (vs : List Value) (use : Use) :
    Working d given (beginUse K c m vs use) := by
  cases use with
  | method r name line => exact .active h rfl
  | construct cls line =>
    simp only [Moment.beginUse]
    apply h.perform
    intro r n
    apply h.perform
    intro _ n
    split
    · exact .active (h.operand trivial) rfl
    · exact h.yields _

/-- The method of a call inside may be any. -/
theorem beginCall (h : Waits d .value c K) (r : Ref) (name : String) (args : List Value)
    (line : Nat) : Working d given (beginCall K c m r name args line) := by
  unfold Moment.beginCall
  simp only []
  split
  · exact h.failed _
  · split
    · split
      · exact h.failed _
      · exact h.perform fun _ n => h.perform fun _ n => .active h.call trivial
    · exact h.failed _

theorem beginArith (h : Waits d .value c K) (op : ArithOp) (left right : Value) (line : Nat) :
    Working d given (beginArith K c m op left right line) := by
  unfold Moment.beginArith
  split
  · exact h.give _
  · split
    · exact h.yields _
    · exact h.give _
  · split
    · exact .active h rfl
    · exact h.give _
  · exact h.give _

theorem beginEqual (h : Waits d .value c K) (left right : Value) (line : Nat) :
    Working d given (beginEqual K c m left right line) := by
  unfold Moment.beginEqual
  simp only []
  split
  case h_5 =>
    split
    · exact .active (h.operand trivial) rfl
    · exact h.failed _
  all_goals exact .active h trivial

theorem beginLess (h : Waits d .value c K) (left right : Value) (line : Nat) :
    Working d given (beginLess K c m left right line) := by
  unfold Moment.beginLess
  simp only []
  split
  case h_4 =>
    split
    · exact .active (h.operand trivial) rfl
    · exact h.failed _
  all_goals exact .active h trivial

theorem beginRender (h : Waits d .value c K) (v : Value) (line steps : Nat) :
    Working d given (beginRender K c m v line steps) := by
  cases steps with
  | zero => exact h.failed _
  | succ steps =>
    cases v with
    | object r =>
      unfold Moment.beginRender
      simp only []
      split
      · exact .active (h.operand trivial) rfl
      · exact h.yields _
    | _ => exact h.yields _

/-! Statements -/

theorem beginMore (h : Waits d l c K) (hl : l ≠ .value) (first : Value) (line : Nat)
    (es : List Expr) : Working d given (beginMore K c m first line es) := by
  cases es with
  | nil => exact h.perform fun _ _ => h.yields _
  | cons e es => exact h.perform fun _ _ => .active (h.clause hl trivial) rfl

theorem beginPrint (h : Waits d l c K) (hl : l ≠ .value) (line : Nat) (es : List Expr) :
    Working d given (beginPrint K c m line es) := by
  cases es with
  | nil => exact h.perform fun _ _ => h.yields _
  | cons e es => exact .active (h.clause hl trivial) rfl

theorem beginOtherwise (h : Waits d l c K) (hl : l ≠ .value) {no : Option Stmt}
    (hno : l = .own → Stmt.PlainElse no) (line : Nat) :
    Working d given (beginOtherwise K c m line no) := by
  cases no with
  | none => exact h.yields _
  | some s =>
    simp only [Moment.beginOtherwise]
    apply h.perform
    intro _ n
    refine .active h ?_
    cases l with
    | own => exact hno rfl
    | inner => trivial
    | value => exact absurd rfl hl

theorem beginStmt (h : Waits d l c K) {s : Stmt} (hs : (Task.stmt s).Fits given l) :
    Working d given (beginStmt K c m s) := by
  have hl : l ≠ .value := by
    rintro rfl
    exact hs
  cases s with
  | print args pos =>
    simp only [Moment.beginStmt]
    apply h.perform
    intro _ n
    exact h.beginPrint hl _ _
  | classDef cls pos =>
    simp only [Moment.beginStmt]
    apply h.perform
    intro _ n
    exact h.give _
  | branch condition yes no pos =>
    have hclause : (Pending.branch yes no pos.line).IsClause l := by
      rintro rfl
      exact hs
    simp only [Moment.beginStmt]
    apply h.perform
    intro _ n
    exact .active (h.clause hl hclause) rfl
  | block body pos =>
    cases l with
    | own => exact .active h.block hs
    | inner => exact .active (h.outline trivial) trivial
    | value => exact absurd rfl hl
  | methodBody body pos =>
    cases l with
    | own => exact hs.elim
    | inner => exact .active (h.outline trivial) trivial
    | value => exact absurd rfl hl
  | _ =>
    simp only [Moment.beginStmt]
    apply h.perform
    intro _ n
    exact .active (h.clause hl trivial) rfl

/-! What waits goes on -/

theorem resume_operand (h : Waits d .value c K) {p : Pending} (hp : p.IsOperand) (o : Outcome) :
    Working d given (resume K c m o p) := by
  cases p with
  | receiver method args line =>
    simp only [Moment.resume]
    split
    · exact .active h rfl
    · exact h.failed _
  | logic op right =>
    cases op with
    | or =>
      simp only [Moment.resume]
      split
      · exact h.yields _
      · exact .active (h.operand trivial) rfl
    | and =>
      simp only [Moment.resume]
      split
      · exact .active (h.operand trivial) rfl
      · exact h.yields _
  | unlessEqual left right line =>
    simp only [Moment.resume]
    split
    · exact .active h rfl
    · exact h.yields _
  | arithLeft | compareLeft => exact .active (h.operand trivial) rfl
  | argument | toText | arithRight | compareRight | rendered => exact .active h rfl
  | constructed | truth | negation => exact h.yields _
  | _ => exact hp.elim

theorem resume_clause (h : Waits d l c K) (hl : l ≠ .value) {p : Pending} (hp : p.IsClause l)
    (hgive : p = .give → c = d + 1 → given) (v : Value) :
    Working d given (resume K c m (.completed v) p) := by
  cases p with
  | printing => exact .active (h.clause hl trivial) rfl
  | emitting first rest line =>
    simp only [Moment.resume]
    apply h.perform
    intro _ n
    exact h.beginMore hl _ _ _
  | assign name =>
    simp only [Moment.resume]
    apply h.perform
    intro _ n
    apply h.perform
    intro _ n
    exact h.yields _
  | fieldTarget => exact .active (h.clause hl trivial) rfl
  | fieldValue | expression =>
    simp only [Moment.resume]
    apply h.perform
    intro _ n
    exact h.yields _
  | branch yes no line =>
    simp only [Moment.resume]
    apply h.perform
    intro _ n
    split
    · refine .active h ?_
      cases l with
      | own => exact (hp rfl).1
      | inner => trivial
      | value => exact absurd rfl hl
    · exact h.beginOtherwise hl (fun hown => (hp hown).2) _
  | give =>
    simp only [Moment.resume]
    apply h.perform
    intro _ n
    refine .active h ?_
    cases l with
    | own => exact hgive rfl (h.counter.2.1 rfl)
    | inner => trivial
    | value => exact absurd rfl hl
  | _ => exact hp.elim

theorem resume_outline (h : Waits d .inner c K) {p : Pending} (hp : p.IsOutline) (o : Outcome) :
    Working d given (resume K c m o p) := by
  cases p with
  | statements ss => cases o <;> exact .active h trivial
  | endBlock => cases o <;> exact .active h trivial
  | methodBody => cases o <;> exact h.yields _
  | _ => exact hp.elim

theorem resume {p : Pending} {o : Outcome} (h : Waits d l c (p :: K))
    (ho : (Task.done o).Fits given l)
    (hgive : ∀ v, o = .completed v → p = .give → c = d + 1 → given) :
    Working d given (resume K c m o p) := by
  cases h with
  | body =>
    cases o with
    | completed v => exact .leaving (.inr rfl)
    | returning v => exact .leaving (.inl ho)
  | statements hK hss =>
    cases o with
    | completed v => exact .active hK hss
    | returning v => exact .active hK ho
  | block hK => exact .active hK ho
  | call hK => exact .active hK trivial
  | outline hK hp => exact hK.resume_outline hp o
  | clause hK hl hp =>
    cases o with
    | completed v => exact hK.resume_clause hl hp (hgive v rfl) v
    | returning v => exact ho.elim
  | operand hK hp => exact hK.resume_operand hp o

theorem abandon {p : Pending} (h : Waits d l c (p :: K)) (e : Error) :
    Working d given (abandon K c m e p) := by
  cases h with
  | body => exact .leaving trivial
  | statements hK _ => exact hK.failed e
  | block hK => exact hK.failed e
  | call hK => exact hK.failed e
  | outline hK hp => cases p <;> first | exact hp.elim | exact hK.failed e
  | clause hK _ hp => cases p <;> first | exact hp.elim | exact hK.failed e
  | operand hK hp => cases p <;> first | exact hp.elim | exact hK.failed e

end Waits

variable {d : Nat} {given : Prop} {a b : Moment}

theorem Task.Ends.cases {t : Task} (h : t.Ends given) :
    (∃ e, t = .failed e) ∨ ∃ v, t = .value v := by
  cases t with
  | failed e => exact .inl ⟨e, rfl⟩
  | done o =>
    cases o with
    | completed v => exact .inr ⟨v, rfl⟩
    | returning v => exact h.elim
  | _ => exact h.elim

/-- A call goes on moment by moment. A value that a return of its own has found is `given`. -/
theorem Working.next (h : Working d given a) (hb : a.next = some b)
    (hgive : ∀ v K, a.task = .value v → a.pending = .give :: K → a.active = d + 1 → given) :
    Working d given b := by
  cases h with
  | ended ht => obtain ⟨e, rfl⟩ | ⟨v, rfl⟩ := ht.cases <;> cases hb
  | leaving ht => obtain ⟨e, rfl⟩ | ⟨v, rfl⟩ := ht.cases <;> exact Option.some.inj hb ▸ .ended ht
  | @active l t K m c hK ht =>
    cases t with
    | expr e =>
      cases ht
      exact Option.some.inj hb ▸ hK.beginExpr e
    | args ready rest use =>
      cases ht
      cases rest with
      | nil => exact Option.some.inj hb ▸ hK.beginUse ready use
      | cons e es => exact Option.some.inj hb ▸ .active (hK.operand trivial) rfl
    | call r name args line =>
      cases ht
      exact Option.some.inj hb ▸ hK.beginCall r name args line
    | arith op left right line =>
      cases ht
      exact Option.some.inj hb ▸ hK.beginArith op left right line
    | compare op left right line =>
      cases ht
      cases op with
      | equal => exact Option.some.inj hb ▸ hK.beginEqual left right line
      | less => exact Option.some.inj hb ▸ hK.beginLess left right line
      | _ => exact Option.some.inj hb ▸ .active (hK.operand trivial) rfl
    | render steps v line =>
      cases ht
      exact Option.some.inj hb ▸ hK.beginRender v line steps
    | stmt s => exact Option.some.inj hb ▸ hK.beginStmt ht
    | block ss =>
      cases ss with
      | nil => exact Option.some.inj hb ▸ hK.yields _
      | cons s ss =>
        cases l with
        | own => exact Option.some.inj hb ▸ .active (hK.statements ht.2) ht.1
        | inner => exact Option.some.inj hb ▸ .active (hK.outline trivial) trivial
        | value => exact ht.elim
    | program last ss => exact ht.elim
    | done o =>
      cases K with
      | nil => cases hb
      | cons p K =>
        refine Option.some.inj hb ▸ hK.resume ht fun v ho hp hc => ?_
        exact hgive v K (congrArg Task.done ho) (congrArg (· :: K) hp) hc
    | failed e =>
      cases K with
      | nil => cases hb
      | cons p K => exact Option.some.inj hb ▸ hK.abandon e

/-- So it does through all its moments. -/
theorem Working.leads (h : Working d given a) (hb : Leads a b)
    (hgive : ∀ v K n, Leads a ⟨.value v, .give :: K, n, d + 1⟩ → given) : Working d given b := by
  induction hb with
  | refl => exact h
  | @tail b c hab hbc ih =>
    refine ih.next hbc fun v K ht hK hc => hgive v K b.machine ?_
    obtain ⟨t, P, n, k⟩ := b
    cases ht
    cases hK
    cases hc
    exact hab

/-! Unwinding -/

/-- One moment follows another, nothing is to be executed at it, and all is as before but for the
trace. -/
def Quiet (a b : Moment) : Prop :=
  a.next = some b ∧ (∃ o, b.task = .done o) ∧
    b.machine = { a.machine with watch := b.machine.watch }

theorem Quiet.leads (h : Relation.ReflTransGen Quiet a b) : Leads a b :=
  h.lift id fun _ _ hstep => hstep.1

/-- A returned value leaves the blocks around it, and nothing else happens. -/
theorem Waits.quiet {c : Nat} {P : List Pending} (h : Waits d .own c P) (v : Value)
    (m : Machine) : ∃ w, ∀ K, Relation.ReflTransGen Quiet
      ⟨.done (.returning v), P ++ K, m, c⟩ ⟨.value v, .leave :: K, { m with watch := w }, c⟩ := by
  generalize hl : Level.own = l at h
  induction h generalizing m with
  | body => exact ⟨m.watch, fun K => .single ⟨rfl, ⟨_, rfl⟩, rfl⟩⟩
  | statements _ _ ih =>
    obtain ⟨w, hw⟩ := ih m hl
    exact ⟨w, fun K => .head ⟨rfl, ⟨_, rfl⟩, rfl⟩ (hw K)⟩
  | block _ ih =>
    obtain ⟨w, hw⟩ := ih (Run.setDepth (· - 1) m) hl
    exact ⟨w, fun K => .head ⟨rfl, ⟨_, rfl⟩, rfl⟩ (hw K)⟩
  | _ => cases hl

/-- A return of the call's own that has found its value leaves the blocks around it. -/
theorem Waits.quiet_give {c : Nat} {P : List Pending} (h : Waits d .own c P) (v : Value)
    (m : Machine) : ∃ w, ∀ K, Relation.ReflTransGen Quiet
      ⟨.value v, .give :: (P ++ K), m, c⟩ ⟨.value v, .leave :: K, { m with watch := w }, c⟩ := by
  let shown : Watch := m.watch.value fun _ => "-> returning " ++ v.display m.heap
  obtain ⟨w, hw⟩ := h.quiet v { m with watch := shown }
  exact ⟨w, fun K => .head ⟨rfl, ⟨_, rfl⟩, rfl⟩ (hw K)⟩

/-! Calls -/

/-- A run ends in one way. -/
theorem Leads.eq_of_final {n : Moment} (ha : Leads n a) (hb : Leads n b) (hfinala : a.next = none)
    (hfinalb : b.next = none) : a = b := by
  have stays {a b : Moment} (hab : Leads a b) (hfinal : a.next = none) : a = b := by
    obtain rfl | ⟨c, hac, -⟩ := hab.cases_head
    · rfl
    · rw [hfinal] at hac
      cases hac
  have hunique : Relator.RightUnique fun a b : Moment => a.next = some b := by
    intro x y z hy hz
    rw [hy] at hz
    exact Option.some.inj hz
  obtain hab | hba := Relation.ReflTransGen.total_of_right_unique hunique ha hb
  · exact stays hab hfinala
  · exact (stays hba hfinalb).symm

section

variable {m : Machine} {r : Ref} {name : String} {args : List Value} {line : Nat} {x : Method}
  {body : Stmt} {pos : Pos}

/-- What is called fails at once, or the statements of its body begin at the second moment. -/
theorem next_call (hx : (m.heap.get r).cls.method? name = some x) (K : List Pending) :
    (∃ e, next ⟨.call r name args line, K, m, d⟩ = some ⟨.failed e, K, m, d⟩) ∨
      ∃ m', next ⟨.call r name args line, K, m, d⟩ =
        some ⟨.stmt x.body, .leave :: K, m', d + 1⟩ := by
  simp only [Moment.next, beginCall, hx]
  split
  · split
    · exact .inl ⟨_, rfl⟩
    · exact .inr ⟨_, rfl⟩
  · exact .inl ⟨_, rfl⟩

/-- A call at which something is done has begun with the statements of its body. -/
theorem leads_body (hx : (m.heap.get r).cls.method? name = some x)
    (hbody : x.body = .methodBody body pos) {n : Moment}
    (hn : Leads ⟨.call r name args line, [], m, d⟩ n) (hdone : ∃ o, n.task = .done o) :
    ∃ m', Leads ⟨.stmt body, [.methodBody, .leave], m', d + 1⟩ n ∧
      Leads ⟨.call r name args line, [], m, d⟩ ⟨.stmt body, [.methodBody, .leave], m', d + 1⟩ := by
  obtain ⟨o, ho⟩ := hdone
  obtain rfl | ⟨first, hcall, hn⟩ := hn.cases_head
  · cases ho
  obtain ⟨e, hfails⟩ | ⟨m', hm'⟩ := next_call hx []
  · rw [hfails] at hcall
    cases hcall
    obtain rfl | ⟨second, hover, -⟩ := hn.cases_head
    · cases ho
    · cases hover
  · rw [hcall, hbody] at hm'
    cases hm'
    obtain rfl | ⟨second, hbegun, hn⟩ := hn.cases_head
    · cases ho
    cases hbegun
    exact ⟨m', hn, .head hcall (.single rfl)⟩

/-- A return of a call's own that has found its value leaves the blocks around it. -/
theorem quiet_call (hx : (m.heap.get r).cls.method? name = some x)
    (hbody : x.body = .methodBody body pos) (hplain : body.Plain) {v : Value} {P : List Pending}
    {n : Machine}
    (hn : Leads ⟨.call r name args line, [], m, d⟩ ⟨.value v, .give :: P, n, d + 1⟩) :
    ∃ w, ∀ K, Relation.ReflTransGen Quiet ⟨.value v, .give :: (P ++ K), n, d + 1⟩
      ⟨.value v, .leave :: K, { n with watch := w }, d + 1⟩ := by
  obtain ⟨m', hm', -⟩ := leads_body hx hbody hn ⟨_, rfl⟩
  have hbegun : Working d True ⟨.stmt body, [.methodBody, .leave], m', d + 1⟩ :=
    .active .body hplain
  have hworking : Working d True ⟨.value v, .give :: P, n, d + 1⟩ :=
    hbegun.leads hm' fun _ _ _ _ => trivial
  cases hworking with
  | active hwaits _ =>
    cases hwaits with
    | @clause l _ _ _ hP hl _ =>
      cases l with
      | own => exact hP.quiet_give v n
      | inner =>
        obtain ⟨-, -, hinner⟩ := hP.counter
        exact absurd (hinner rfl) (Nat.lt_irrefl _)
      | value => exact absurd rfl hl
    | outline _ hp => exact hp.elim
    | operand _ hp => exact hp.elim

/-- A call of whose own returns none finds a value yields none. -/
theorem eq_none_of_leads (hx : (m.heap.get r).cls.method? name = some x)
    (hbody : x.body = .methodBody body pos) (hplain : body.Plain)
    (hnever : ¬ ∃ v P n, Leads ⟨.call r name args line, [], m, d⟩ ⟨.value v, .give :: P, n, d + 1⟩)
    {v : Value} {n : Machine} (hn : Leads ⟨.call r name args line, [], m, d⟩ ⟨.value v, [], n, d⟩) :
    v = .none := by
  obtain ⟨m', hm', hbefore⟩ := leads_body hx hbody hn ⟨_, rfl⟩
  have hbegun : Working d False ⟨.stmt body, [.methodBody, .leave], m', d + 1⟩ :=
    .active .body hplain
  have hworking : Working d False ⟨.value v, [], n, d⟩ := by
    refine hbegun.leads hm' fun w P k hk => hnever ⟨w, P, k, hbefore.trans hk⟩
  cases hworking with
  | active hwaits _ => cases hwaits
  | ended hends => exact hends.resolve_left id

end

end Moment

open Moment

/-- A return unwinds one call. Where a return of the call's own has found its value, in whatever
blocks it stands, nothing else is executed and nothing changes until the call yields that value to
whatever waits for it. Where none does, a call that ends yields none. What stands behind a return in
a block may be left out. -/
theorem Eval.call_unwinds {m : Machine} {r : Ref} {name : String} {args : List Value} {line d : Nat}
    {x : Method} {body : Stmt} {pos : Pos} (hx : (m.heap.get r).cls.method? name = some x)
    (hbody : x.body = .methodBody body pos) (hplain : body.Plain) :
    (∀ v P n, Leads ⟨.call r name args line, [], m, d⟩ ⟨.value v, .give :: P, n, d + 1⟩ →
      ∃ w w', callIn (callLimit - d) r name args line m =
          .ok v { n with frames := n.frames.tail, watch := w' } ∧
        ∀ K, Leads ⟨.call r name args line, K, m, d⟩ ⟨.value v, .give :: (P ++ K), n, d + 1⟩ ∧
          Relation.ReflTransGen Quiet ⟨.value v, .give :: (P ++ K), n, d + 1⟩
            ⟨.value v, .leave :: K, { n with watch := w }, d + 1⟩ ∧
          Moment.next ⟨.value v, .leave :: K, { n with watch := w }, d + 1⟩ =
            some ⟨.value v, K, { n with frames := n.frames.tail, watch := w' }, d⟩) ∧
    ((¬ ∃ v P n, Leads ⟨.call r name args line, [], m, d⟩ ⟨.value v, .give :: P, n, d + 1⟩) →
      ∀ v n, callIn (callLimit - d) r name args line m = .ok v n → v = .none) ∧
    ∀ g : Stmt → Stmt, (∀ s : Stmt, s.Trims (g s)) →
      (∀ room, (callIn room r name args line).answer (m.mapBody g) =
          (callIn room r name args line).answer m ∧
        (callIn room r name args line).after (m.mapBody g) =
          ((callIn room r name args line).after m).mapBody g) ∧
      ∀ p, (Machine.interpret (p.mapBody g)).answer (m.mapBody g) =
          (Machine.interpret p).answer m ∧
        (Machine.interpret (p.mapBody g)).after (m.mapBody g) =
          ((Machine.interpret p).after m).mapBody g := by
  have hcall := playsCalls (callLimit - d) rfl r name args line [] m
  refine ⟨fun v P n hn => ?_, fun hnever v n hok => ?_, fun g hg =>
    ⟨fun room => callIn_mapBody g hg room r name args line m, fun p =>
      Machine.interpret_mapBody g hg p m⟩⟩
  · obtain ⟨w, hquiet⟩ := quiet_call hx hbody hplain hn
    let w' : Watch := { w with depth := w.depth - 1 }
    have hexit (K : List Pending) :
        Moment.next ⟨.value v, .leave :: K, { n with watch := w }, d + 1⟩ =
          some ⟨.value v, K, { n with frames := n.frames.tail, watch := w' }, d⟩ := rfl
    refine ⟨w, w', ?_, fun K => ⟨leads_above hn K, hquiet K, hexit K⟩⟩
    have hown := hquiet []
    rw [List.append_nil] at hown
    have hend := (hn.trans (Quiet.leads hown)).tail (hexit [])
    generalize callIn (callLimit - d) r name args line m = result at hcall
    cases result with
    | ok u k =>
      have hsame := hcall.eq_of_final hend rfl rfl
      cases hsame
      rfl
    | error e k =>
      have hsame := hcall.eq_of_final hend rfl rfl
      cases hsame
  · rw [hok] at hcall
    exact eq_none_of_leads hx hbody hplain hnever hcall

namespace Machine

/-- The machine after an entry with a method that returns from inside two choices. -/
def nested : Machine :=
  (Machine.eval ("class Box:\n  def pick(n):\n    if n:\n      if n:\n        return n\n" ++
    "        n = 2\n      n = 3\n    print n\nb = Box()\n")).after (fresh .empty default)

/-- A call that yields what the return inside finds. -/
theorem call_unwinds_nested : ∃ x body pos, (nested.heap.get 0).cls.method? "pick" = some x ∧
    x.body = .methodBody body pos ∧ body.Plain ∧ ∃ P n w,
      Leads ⟨.call 0 "pick" [.number 7] 9, [], nested, 0⟩ ⟨.value (.number 7), .give :: P, n, 1⟩ ∧
      callIn callLimit 0 "pick" [.number 7] 9 nested =
        .ok (.number 7) { n with frames := n.frames.tail, watch := w } := by
  have hreached : nested.Reached := .eval _ (.fresh _ _)
  have hpick : ((nested.heap.get 0).cls.method? "pick").map Method.arity = some 1 := by
    decide +kernel
  obtain ⟨x, hx, -⟩ := Option.map_eq_some_iff.1 hpick
  obtain ⟨body, pos, hbody, hplain⟩ := (hreached.sound.callable 0 "pick" x hx).plain
  have hanswer : (callIn callLimit 0 "pick" [.number 7] 9).answer nested = .ok (.number 7) := by
    decide +kernel
  obtain ⟨hgives, hnone, -⟩ :=
    @call_unwinds nested 0 "pick" [.number 7] 9 0 x body pos hx hbody hplain
  refine ⟨x, body, pos, hx, hbody, hplain, ?_⟩
  unfold Run.answer at hanswer
  by_cases hever : ∃ v P n, Leads ⟨.call 0 "pick" [.number 7] 9, [], nested, 0⟩
      ⟨.value v, .give :: P, n, 1⟩
  · obtain ⟨v, P, n, hn⟩ := hever
    obtain ⟨w, w', hcall, -⟩ := hgives v P n hn
    change callIn callLimit 0 "pick" [.number 7] 9 nested = _ at hcall
    rw [hcall] at hanswer
    cases hanswer
    exact ⟨P, n, w', hn, hcall⟩
  · -- Without a return the call would yield none.
    cases hcall : callIn callLimit 0 "pick" [.number 7] 9 nested with
    | ok v n =>
      have hv : v = .none := hnone hever v n hcall
      rw [hcall, hv] at hanswer
      cases hanswer
    | error e n =>
      rw [hcall] at hanswer
      cases hanswer

end Machine

end ClassLang
