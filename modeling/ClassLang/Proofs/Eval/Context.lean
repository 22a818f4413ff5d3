import ClassLang.Proofs.Eval.Moment

/-!
A run in a context. What a part of a run does moment by moment is what it does by itself, whatever
waits behind all that it makes wait.
-/

namespace ClassLang.Moment

/-- A moment, with more that waits behind what does. -/
def above (n : Moment) (K : List Pending) : Moment := { n with pending := n.pending ++ K }

variable {α : Type} {d : Nat} {P K : List Pending} {m : Machine}

theorem perform_above {x : Run α} {go go' : α → Machine → Moment}
    (h : ∀ a n, go' a n = (go a n).above K) :
    perform (P ++ K) d x go' m = (perform P d x go m).above K := by
  unfold perform
  cases x m with
  | ok a n => exact h a n
  | error e n => rfl

theorem give_above (x : Run Value) : give (P ++ K) d x m = (give P d x m).above K :=
  perform_above fun _ _ => rfl

theorem beginExpr_above (e : Expr) : beginExpr (P ++ K) d m e = (beginExpr P d m e).above K := by
  cases e with
  | name names pos => exact give_above _
  | construct name args pos =>
    simp only [beginExpr]
    cases m.classes.get? name <;> rfl
  | _ => rfl

theorem beginUse_above (vs : List Value) (use : Use) :
    beginUse (P ++ K) d m vs use = (beginUse P d m vs use).above K := by
  cases use with
  | method r name line => rfl
  | construct c line =>
    simp only [beginUse]
    apply perform_above
    intro r n
    apply perform_above
    intro _ n
    split <;> rfl

theorem beginCall_above (r : Ref) (name : String) (args : List Value) (line : Nat) :
    beginCall (P ++ K) d m r name args line = (beginCall P d m r name args line).above K := by
  unfold beginCall
  simp only []
  split
  · rfl
  · split
    · split
      · rfl
      · exact perform_above fun _ n => perform_above fun _ n => rfl
    · rfl

theorem beginArith_above (op : ArithOp) (left right : Value) (line : Nat) :
    beginArith (P ++ K) d m op left right line = (beginArith P d m op left right line).above K := by
  unfold beginArith
  split
  · exact give_above _
  · split
    · rfl
    · exact give_above _
  · split
    · rfl
    · exact give_above _
  · exact give_above _

theorem beginEqual_above (left right : Value) (line : Nat) :
    beginEqual (P ++ K) d m left right line = (beginEqual P d m left right line).above K := by
  unfold beginEqual
  simp only []
  split
  case h_5 => split <;> rfl
  all_goals rfl

theorem beginLess_above (left right : Value) (line : Nat) :
    beginLess (P ++ K) d m left right line = (beginLess P d m left right line).above K := by
  unfold beginLess
  simp only []
  split
  case h_4 => split <;> rfl
  all_goals rfl

theorem beginRender_above (v : Value) (line steps : Nat) :
    beginRender (P ++ K) d m v line steps = (beginRender P d m v line steps).above K := by
  cases steps with
  | zero => rfl
  | succ steps =>
    cases v with
    | object r =>
      unfold beginRender
      simp only []
      split <;> rfl
    | _ => rfl

theorem beginMore_above (first : Value) (line : Nat) (es : List Expr) :
    beginMore (P ++ K) d m first line es = (beginMore P d m first line es).above K := by
  cases es with
  | nil => exact perform_above fun _ _ => rfl
  | cons e es => exact perform_above fun _ _ => rfl

theorem beginPrint_above (line : Nat) (es : List Expr) :
    beginPrint (P ++ K) d m line es = (beginPrint P d m line es).above K := by
  cases es with
  | nil => exact perform_above fun _ _ => rfl
  | cons e es => rfl

theorem beginOtherwise_above (line : Nat) (no : Option Stmt) :
    beginOtherwise (P ++ K) d m line no = (beginOtherwise P d m line no).above K := by
  cases no with
  | none => rfl
  | some s =>
    simp only [beginOtherwise]
    apply perform_above
    intro _ n
    rfl

theorem beginStmt_above (s : Stmt) : beginStmt (P ++ K) d m s = (beginStmt P d m s).above K := by
  cases s with
  | print args pos =>
    simp only [beginStmt]
    apply perform_above
    intro _ n
    exact beginPrint_above _ _
  | classDef c pos =>
    simp only [beginStmt]
    apply perform_above
    intro _ n
    exact give_above _
  | block body pos => rfl
  | methodBody body pos => rfl
  | _ =>
    simp only [beginStmt]
    apply perform_above
    intro _ n
    rfl

theorem resume_above (o : Outcome) (p : Pending) :
    resume (P ++ K) d m o p = (resume P d m o p).above K := by
  cases p with
  | receiver | unlessEqual | methodBody | statements | program =>
    simp only [resume]
    split <;> rfl
  | logic op right => cases op <;> simp only [resume] <;> split <;> rfl
  | emitting first rest line =>
    simp only [resume]
    apply perform_above
    intro _ n
    exact beginMore_above _ _ _
  | assign name =>
    simp only [resume]
    apply perform_above
    intro _ n
    apply perform_above
    intro _ n
    rfl
  | fieldValue | give | expression =>
    simp only [resume]
    apply perform_above
    intro _ n
    rfl
  | branch yes no line =>
    simp only [resume]
    apply perform_above
    intro _ n
    split
    · rfl
    · exact beginOtherwise_above _ _
  | _ => rfl

theorem abandon_above (e : Error) (p : Pending) :
    abandon (P ++ K) d m e p = (abandon P d m e p).above K := by
  cases p <;> rfl

/-- The next moment is the same in every context. -/
theorem next_above {a b : Moment} (h : a.next = some b) (K : List Pending) :
    (a.above K).next = some (b.above K) := by
  obtain ⟨t, P, m, d⟩ := a
  cases t with
  | expr e => exact Option.some.inj h ▸ congrArg some (beginExpr_above e)
  | args ready rest use =>
    cases rest with
    | nil => exact Option.some.inj h ▸ congrArg some (beginUse_above ready use)
    | cons e es => exact Option.some.inj h ▸ rfl
  | call r name args line =>
    exact Option.some.inj h ▸ congrArg some (beginCall_above r name args line)
  | arith op left right line =>
    exact Option.some.inj h ▸ congrArg some (beginArith_above op left right line)
  | compare op left right line =>
    cases op with
    | equal => exact Option.some.inj h ▸ congrArg some (beginEqual_above left right line)
    | less => exact Option.some.inj h ▸ congrArg some (beginLess_above left right line)
    | _ => exact Option.some.inj h ▸ rfl
  | render steps v line => exact Option.some.inj h ▸ congrArg some (beginRender_above v line steps)
  | stmt s => exact Option.some.inj h ▸ congrArg some (beginStmt_above s)
  | block ss => cases ss <;> exact Option.some.inj h ▸ rfl
  | program last ss => cases ss <;> exact Option.some.inj h ▸ rfl
  | done o =>
    cases P with
    | nil => cases h
    | cons p P => exact Option.some.inj h ▸ congrArg some (resume_above o p)
  | failed e =>
    cases P with
    | nil => cases h
    | cons p P => exact Option.some.inj h ▸ congrArg some (abandon_above e p)

/-- A run goes on in every context as it does by itself. -/
theorem leads_above {a b : Moment} (h : Leads a b) (K : List Pending) :
    Leads (a.above K) (b.above K) := by
  induction h with
  | refl => exact .refl
  | tail _ hnext ih => exact ih.tail (next_above hnext K)

end ClassLang.Moment
