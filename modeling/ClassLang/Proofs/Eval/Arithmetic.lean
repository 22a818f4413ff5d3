import ClassLang.Proofs.Eval.Extended
import ClassLang.Proofs.Grammar.Plain.Expression

/-!
Arithmetic of numbers. An expression of numbers has an exact value among all whole numbers, unless
it divides by zero. Evaluation gives this value, or it fails at the first node, operands before the
node that combines them, that divides by zero or whose exact value 64 bits do not hold.
-/

namespace ClassLang

/-- Holds of the whole numbers that 64 bits hold. -/
def Number.Fits (n : Int) : Prop := -9223372036854775808 ≤ n ∧ n ≤ 9223372036854775807

instance (n : Int) : Decidable (Number.Fits n) := inferInstanceAs (Decidable (_ ∧ _))

/-- What an operator makes of two whole numbers. A quotient is cut toward zero. -/
def ArithOp.whole? (op : ArithOp) (a b : Int) : Option Int :=
  match op with
  | .add => some (a + b)
  | .sub => some (a - b)
  | .mul => some (a * b)
  | .div => if b = 0 then none else some (a.tdiv b)

namespace Expr

/-- Holds of the expressions that are built from numbers by arithmetic operators. -/
inductive Arithmetic : Expr → Prop where
  | number (n : Int64) (pos : Pos) : Arithmetic (.literal (.number n) pos)
  | arith (op : ArithOp) {left right : Expr} (pos : Pos) :
      left.Arithmetic → right.Arithmetic → Arithmetic (.arith op left right pos)

/-- The value of an expression of numbers among all whole numbers. -/
def whole? : Expr → Option Int
  | .literal (.number n) _ => some n.toInt
  | .arith op left right _ =>
    match left.whole?, right.whole? with
    | some a, some b => op.whole? a b
    | _, _ => none
  | _ => none
termination_by structural e => e

/-- The nodes of an expression in the order of their evaluation: the left operand, the right one,
and the node that combines them. -/
def nodes : Expr → List Expr
  | .arith op left right pos => left.nodes ++ right.nodes ++ [.arith op left right pos]
  | e => [e]
termination_by structural e => e

/-- Whether a node divides by zero. -/
def dividesByZero : Expr → Bool
  | .arith .div _ right _ => right.whole? == some 0
  | _ => false

/-- Why a node has no result, if it has none: it divides by zero, or 64 bits do not hold its exact
value. -/
def fault? (e : Expr) : Option Cause :=
  if e.dividesByZero then some .divisionByZero
  else if e.whole?.any fun n => !decide (Number.Fits n) then some .integerOverflow
  else none

/-- The first node without a result in the order of evaluation, by its fault and its line. -/
def firstFault? (e : Expr) : Option (Cause × Nat) :=
  e.nodes.findSome? fun x => x.fault?.map (·, x.pos.line)

/-- A sign in front of an expression. -/
def minus (e : Expr) (pos : Pos) : Expr := .arith .sub (.literal (.number 0) pos) e pos

end Expr

/-! Numbers of 64 bits -/

namespace Number

theorem fits_toInt (a : Int64) : Fits a.toInt := by
  have hlow := a.le_toInt
  have hhigh := a.toInt_lt
  constructor <;> omega

theorem ofInt?_of_fits {n : Int} (h : Fits n) : ∃ a, ofInt? n = some a ∧ a.toInt = n := by
  have hrange : Int64.minValue.toInt ≤ n ∧ n ≤ Int64.maxValue.toInt := by
    have hmin : Int64.minValue.toInt = -9223372036854775808 := by decide
    have hmax : Int64.maxValue.toInt = 9223372036854775807 := by decide
    have hlow := h.1
    have hhigh := h.2
    omega
  have hsome : ofInt? n = some (Int64.ofInt n) := by
    rw [ofInt?, if_pos hrange]
  exact ⟨Int64.ofInt n, hsome, toInt_of_ofInt? hsome⟩

theorem ofInt?_of_not_fits {n : Int} (h : ¬ Fits n) : ofInt? n = none := by
  cases hn : ofInt? n with
  | none => rfl
  | some a =>
    have hfits := fits_toInt a
    rw [toInt_of_ofInt? hn] at hfits
    exact absurd hfits h

end Number

namespace Expr

variable {e left right : Expr} {op : ArithOp} {pos : Pos}

theorem whole?_minus (e : Expr) (pos : Pos) : (e.minus pos).whole? = e.whole?.map fun n => -n := by
  rw [minus, whole?, whole?]
  cases e.whole? with
  | none => rfl
  | some n =>
    have hzero : (0 : Int64).toInt = 0 := by decide
    simp [ArithOp.whole?, hzero]

/-- Faults of the operands come before that of the node. -/
theorem firstFault?_arith : (Expr.arith op left right pos).firstFault? =
    (left.firstFault?.or right.firstFault?).or
      ((Expr.arith op left right pos).fault?.map (·, pos.line)) := by
  rw [firstFault?, nodes, List.findSome?_append, List.findSome?_append, List.findSome?_singleton]
  rfl

theorem firstFault?_number (n : Int64) (pos : Pos) :
    (Expr.literal (.number n) pos).firstFault? = none := by
  have hnodes : (Expr.literal (.number n) pos).nodes = [.literal (.number n) pos] := rfl
  have hfits := Number.fits_toInt n
  simp [firstFault?, hnodes, fault?, dividesByZero, whole?, hfits]

theorem fault?_ne_none_iff : e.fault? ≠ none ↔
    e.dividesByZero = true ∨ ∃ n, e.whole? = some n ∧ ¬ Number.Fits n := by
  rw [fault?]
  cases e.dividesByZero with
  | true => simp
  | false => cases e.whole? <;> simp

theorem firstFault?_eq_none_iff : e.firstFault? = none ↔ ∀ x ∈ e.nodes, x.fault? = none := by
  simp [firstFault?, List.findSome?_eq_none_iff]

/-- The fault of a node whose operands have values, by what the operator makes of these. -/
theorem fault?_arith {a b : Int} (ha : left.whole? = some a) (hb : right.whole? = some b) :
    (Expr.arith op left right pos).fault? = match op.whole? a b with
      | none => some .divisionByZero
      | some n => if Number.Fits n then none else some .integerOverflow := by
  have hexact : (Expr.arith op left right pos).whole? = op.whole? a b := by
    rw [whole?, ha, hb]
  rw [fault?, hexact]
  cases op with
  | add | sub | mul =>
    simp [dividesByZero, ArithOp.whole?]
  | div =>
    by_cases hzero : b = 0
    · simp [dividesByZero, ArithOp.whole?, hb, hzero]
    · simp [dividesByZero, ArithOp.whole?, hb, hzero]

end Expr

namespace Eval

variable {call : Call} {e : Expr}

/-- Numbers are combined exactly, or not at all. -/
theorem arithNumbers_eq (op : ArithOp) (a b : Int64) (line : Nat) :
    arithNumbers op a b line = match op.whole? a.toInt b.toInt with
      | none => Run.fail .divisionByZero line
      | some n => inRange n line := by
  cases op with
  | add | sub | mul => rfl
  | div =>
    have hzero : b = 0 ↔ b.toInt = 0 := by
      have htoInt : (0 : Int64).toInt = 0 := by decide
      rw [← htoInt, Int64.toInt_inj]
    by_cases hb : b = 0
    · simp [arithNumbers, ArithOp.whole?, hb]
    · have hb' : b.toInt ≠ 0 := fun h => hb (hzero.2 h)
      simp [arithNumbers, ArithOp.whole?, hb, hb']

theorem inRange_of_fits {n : Int} (h : Number.Fits n) (line : Nat) :
    ∃ a : Int64, a.toInt = n ∧ inRange n line = pure (.number a) := by
  obtain ⟨a, ha, htoInt⟩ := Number.ofInt?_of_fits h
  exact ⟨a, htoInt, by rw [inRange, ha]⟩

theorem inRange_of_not_fits {n : Int} (h : ¬ Number.Fits n) (line : Nat) :
    inRange n line = Run.fail .integerOverflow line := by
  rw [inRange, Number.ofInt?_of_not_fits h]

/-- An expression of numbers fails as its first node without a result says, or it gives its exact
value. The machine stays as it is. -/
theorem expr_of_arithmetic (h : e.Arithmetic) (m : Machine) :
    (∃ cause line, e.firstFault? = some (cause, line) ∧
      expr call e m = .error (.located cause line) m) ∨
    ∃ a : Int64, e.firstFault? = none ∧ e.whole? = some a.toInt ∧
      expr call e m = .ok (.number a) m := by
  induction h with
  | number n pos =>
    have hfault := Expr.firstFault?_number n pos
    exact .inr ⟨n, hfault, rfl, rfl⟩
  | @arith op left right pos _ _ ihleft ihright =>
    rw [Expr.firstFault?_arith, expr]
    obtain ⟨cause, line, hfault, hleft⟩ | ⟨a, hfault, ha, hleft⟩ := ihleft
    · left
      rw [hfault, Run.bind_of_error hleft]
      exact ⟨cause, line, rfl, rfl⟩
    rw [hfault, Run.bind_of_ok hleft, Option.none_or]
    obtain ⟨cause, line, hfault, hright⟩ | ⟨b, hfault, hb, hright⟩ := ihright
    · left
      rw [hfault, Run.bind_of_error hright]
      exact ⟨cause, line, rfl, rfl⟩
    rw [hfault, Run.bind_of_ok hright, Option.none_or, Expr.fault?_arith ha hb]
    -- Both operands have their exact values, so the node is the only one left.
    have hexact : (Expr.arith op left right pos).whole? = op.whole? a.toInt b.toInt := by
      rw [Expr.whole?, ha, hb]
    rw [hexact, arith, arithNumbers_eq]
    cases hop : op.whole? a.toInt b.toInt with
    | none => exact .inl ⟨.divisionByZero, pos.line, rfl, rfl⟩
    | some n =>
      by_cases hn : Number.Fits n
      · obtain ⟨c, rfl, hrange⟩ := inRange_of_fits hn pos.line
        right
        simp only [if_pos hn, hrange]
        exact ⟨c, rfl, rfl, rfl⟩
      · left
        simp only [if_neg hn, inRange_of_not_fits hn pos.line]
        exact ⟨.integerOverflow, pos.line, rfl, rfl⟩

theorem expr_eq_ok_iff (h : e.Arithmetic) {m n : Machine} {v : Value} :
    expr call e m = .ok v n ↔ n = m ∧ e.firstFault? = none ∧
      ∃ a : Int64, v = .number a ∧ e.whole? = some a.toInt := by
  obtain ⟨cause, line, hfault, hexpr⟩ | ⟨a, hfault, ha, hexpr⟩ := expr_of_arithmetic h m
  · rw [hexpr, hfault]
    simp
  · rw [hexpr, hfault, ha]
    constructor
    · intro hok
      cases hok
      exact ⟨rfl, rfl, a, rfl, rfl⟩
    · rintro ⟨rfl, -, b, rfl, hb⟩
      have heq : a = b := Int64.toInt_inj.1 (Option.some.inj hb)
      rw [heq]

theorem expr_eq_error_iff (h : e.Arithmetic) {m n : Machine} {err : Error} :
    expr call e m = .error err n ↔ n = m ∧
      ∃ cause line, e.firstFault? = some (cause, line) ∧ err = .located cause line := by
  obtain ⟨cause, line, hfault, hexpr⟩ | ⟨a, hfault, ha, hexpr⟩ := expr_of_arithmetic h m
  · rw [hexpr, hfault]
    constructor
    · intro herror
      cases herror
      exact ⟨rfl, cause, line, rfl, rfl⟩
    · rintro ⟨rfl, cause', line', heq, rfl⟩
      cases heq
      rfl
  · rw [hexpr, hfault]
    simp

/-- Arithmetic is exact or fails. An expression of numbers gives a number only if that is its value
among all whole numbers and every node has a result. It fails exactly where some node divides by
zero or has a value that 64 bits do not hold, with the fault of the first such node in the order of
evaluation, at its line. A sign in front of an expression is read as a difference from zero, whose
exact value is the negative one. -/
theorem exact_of_arithmetic (h : e.Arithmetic) (m : Machine) :
    (∀ v n, expr call e m = .ok v n ↔ n = m ∧ (∀ x ∈ e.nodes, x.fault? = none) ∧
      ∃ a : Int64, v = .number a ∧ e.whole? = some a.toInt) ∧
    (∀ err n, expr call e m = .error err n ↔ n = m ∧
      ∃ cause line, e.firstFault? = some (cause, line) ∧ err = .located cause line) ∧
    ((∃ err n, expr call e m = .error err n) ↔ ∃ x ∈ e.nodes, x.dividesByZero = true ∨
      ∃ n, x.whole? = some n ∧ ¬ Number.Fits n) ∧
    ∀ pos, (e.minus pos).Arithmetic ∧ (e.minus pos).whole? = e.whole?.map (fun n => -n) ∧
      ∀ s t r, t.kind = .symbol '-' → t.pos = pos →
        Grammar.plain (Grammar.exprAt s .unary (t :: r)) =
          Grammar.plain (Grammar.exprAt s .unary r) >>= fun p => .ok (p.1.minus pos, p.2) := by
  refine ⟨fun v n => ?_, fun err n => expr_eq_error_iff h, ?_, fun pos => ⟨?_, ?_, ?_⟩⟩
  · rw [expr_eq_ok_iff h, Expr.firstFault?_eq_none_iff]
  · have hfails : (∃ x ∈ e.nodes, x.fault? ≠ none) ↔ e.firstFault? ≠ none := by
      rw [Ne, Expr.firstFault?_eq_none_iff]
      push Not
      rfl
    simp only [← Expr.fault?_ne_none_iff, hfails, expr_eq_error_iff h]
    cases hfault : e.firstFault? with
    | none => simp
    | some f =>
      obtain ⟨cause, line⟩ := f
      simp
  · exact .arith .sub pos (.number 0 pos) h
  · exact e.whole?_minus pos
  · rintro s t r hkind rfl
    rw [Grammar.plain_unary, if_pos hkind]
    rfl

/-- The least number by a sign in front of the greatest, and its quotient by minus one in front of a
division by zero. -/
theorem exact_of_arithmetic_least :
    let one : Expr := .literal (.number 1) ⟨1, 9⟩
    let greatest : Expr := .literal (.number Int64.maxValue) ⟨1, 2⟩
    let least : Expr := .arith .sub (greatest.minus ⟨1, 1⟩) one ⟨1, 5⟩
    let quotient : Expr := .arith .div least (one.minus ⟨2, 1⟩) ⟨2, 3⟩
    let e : Expr := .arith .div quotient (.arith .sub one one ⟨3, 1⟩) ⟨4, 1⟩
    (least.Arithmetic ∧ expr callMethod least default = .ok (.number Int64.minValue) default) ∧
    e.Arithmetic ∧ e.dividesByZero = true ∧
    expr callMethod e default = .error (.located .integerOverflow 2) default := by
  intro one greatest least quotient e
  have hone : one.Arithmetic := .number 1 _
  have hgreatest : greatest.Arithmetic := .number _ _
  have hnegative : (greatest.minus ⟨1, 1⟩).Arithmetic := .arith .sub _ (.number 0 _) hgreatest
  have hminusOne : (one.minus ⟨2, 1⟩).Arithmetic := .arith .sub _ (.number 0 _) hone
  have hleast : least.Arithmetic := .arith .sub _ hnegative hone
  have hquotient : quotient.Arithmetic := .arith .div _ hleast hminusOne
  have he : e.Arithmetic := .arith .div _ hquotient (.arith .sub _ hone hone)
  obtain ⟨hgives, -, -, -⟩ := @exact_of_arithmetic callMethod _ hleast default
  obtain ⟨-, hfails, -, -⟩ := @exact_of_arithmetic callMethod _ he default
  refine ⟨⟨hleast, (hgives _ _).2 ⟨rfl, by decide, Int64.minValue, rfl, by decide⟩⟩, he, by decide,
    (hfails _ _).2 ⟨rfl, .integerOverflow, 2, by decide, rfl⟩⟩

end Eval

end ClassLang
