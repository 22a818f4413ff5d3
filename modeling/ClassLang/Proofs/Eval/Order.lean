import ClassLang.Proofs.Eval.Dispatch
import ClassLang.Proofs.Eval.Extended
import ClassLang.Proofs.Text.Bytes

/-!
The six comparisons. Two scalars of one kind stand in one order, and each comparison is a question
about it. All other pairs are refused, unless the class of the left operand says how to compare:
then its two methods are asked, order before equality, and each only while the answer depends on it.
-/

namespace ClassLang

open Eval Moment

/-- The order of two scalars of one kind: numbers by size, strings by their bytes, and false before
true. -/
def Value.order? : Value → Value → Option Ordering
  | .bool a, .bool b => some (cmp a b)
  | .number a, .number b => some (cmp a.toInt b.toInt)
  | .string a, .string b => some (cmp (Text.bytes a) (Text.bytes b))
  | _, _ => Option.none

/-- Whether a comparison holds of two values in an order. -/
def Comparison.holds (op : Comparison) (o : Ordering) : Bool :=
  match op with
  | .equal => o.isEq
  | .notEqual => o.isNe
  | .less => o.isLT
  | .greater => o.isGT
  | .lessOrEqual => o.isLE
  | .greaterOrEqual => o.isGE

/-- The call by which a value is asked whether it is less than another, if it can be asked. -/
def Value.lessCalls (h : Heap) : Value → Value → List Dispatch
  | .object r, w => if (h.get r).cls.hasMethod "__lt__" 1 then [⟨r, "__lt__", [w]⟩] else []
  | _, _ => []

/-- The call by which a value is asked whether it is equal to another, if it can be asked. -/
def Value.equalCalls (h : Heap) : Value → Value → List Dispatch
  | .object r, .object s =>
    if (h.get r).cls.hasMethod "__eq__" 1 then [⟨r, "__eq__", [.object s]⟩] else []
  | _, _ => []

namespace Comparison

/-- Whether a comparison asks for equality only. -/
def isEquality : Comparison → Bool
  | .equal | .notEqual => true
  | _ => false

/-- The answer of a comparison by what the two methods answer. -/
def truth (less equal : Bool) : Comparison → Bool
  | .equal => equal
  | .notEqual => !equal
  | .less => less
  | .greater => !less && !equal
  | .lessOrEqual => less || equal
  | .greaterOrEqual => !less

/-- The run of a comparison that asks the two methods. -/
def asking (less equal : Run Value) : Comparison → Run Bool
  | .equal => return (← equal).isTrue
  | .notEqual => return !(← equal).isTrue
  | .less => return (← less).isTrue
  | .greater => do if (← less).isTrue then return false else return !(← equal).isTrue
  | .lessOrEqual => do if (← less).isTrue then return true else return (← equal).isTrue
  | .greaterOrEqual => return !(← less).isTrue

/-- The calls of a comparison that asks the two methods, by what came of the first one. -/
def asked (less equal : Dispatch) (answer : EStateM.Result Error Machine Value) :
    Comparison → List Dispatch
  | .equal | .notEqual => [equal]
  | .less | .greaterOrEqual => [less]
  | .greater | .lessOrEqual =>
    less :: behind (fun l _ => if l.isTrue then [] else [equal]) answer

end Comparison

/-! Scalars -/

namespace Value

variable {u v w : Value} {o o' : Ordering}

theorem exists_of_order? (h : v.order? w = some o) :
    (∃ a b, v = .bool a ∧ w = .bool b ∧ o = cmp a b) ∨
    (∃ a b, v = .number a ∧ w = .number b ∧ o = cmp a.toInt b.toInt) ∨
    ∃ a b, v = .string a ∧ w = .string b ∧ o = cmp (Text.bytes a) (Text.bytes b) := by
  cases v <;> cases w <;> cases h
  · exact .inl ⟨_, _, rfl, rfl, rfl⟩
  · exact .inr (.inl ⟨_, _, rfl, rfl, rfl⟩)
  · exact .inr (.inr ⟨_, _, rfl, rfl, rfl⟩)

theorem order?_swap (h : v.order? w = some o) : w.order? v = some o.swap := by
  obtain ⟨a, b, rfl, rfl, rfl⟩ | ⟨a, b, rfl, rfl, rfl⟩ | ⟨a, b, rfl, rfl, rfl⟩ :=
    exists_of_order? h
  · rw [order?, cmp_swap]
  · rw [order?, cmp_swap]
  · rw [order?, Text.cmp_bytes, Text.cmp_bytes, cmp_swap]

theorem order?_eq_iff (h : v.order? w = some o) : o = .eq ↔ v = w := by
  obtain ⟨a, b, rfl, rfl, rfl⟩ | ⟨a, b, rfl, rfl, rfl⟩ | ⟨a, b, rfl, rfl, rfl⟩ :=
    exists_of_order? h
  · rw [cmp_eq_eq_iff, bool.injEq]
  · rw [cmp_eq_eq_iff, number.injEq, Int64.toInt_inj]
  · rw [Text.cmp_bytes, cmp_eq_eq_iff, string.injEq]

theorem order?_trans (h : u.order? v = some .lt) (h' : v.order? w = some .lt) :
    u.order? w = some .lt := by
  obtain ⟨a, b, rfl, rfl, hab⟩ | ⟨a, b, rfl, rfl, hab⟩ | ⟨a, b, rfl, rfl, hab⟩ :=
    exists_of_order? h
  · cases w with
    | bool c =>
      have hbc : cmp b c = .lt := Option.some.inj h'
      rw [eq_comm, cmp_eq_lt_iff] at hab
      rw [cmp_eq_lt_iff] at hbc
      rw [order?, (cmp_eq_lt_iff a c).2 (hab.trans hbc)]
    | _ => cases h'
  · cases w with
    | number c =>
      have hbc : cmp b.toInt c.toInt = .lt := Option.some.inj h'
      rw [eq_comm, cmp_eq_lt_iff] at hab
      rw [cmp_eq_lt_iff] at hbc
      rw [order?, (cmp_eq_lt_iff _ _).2 (hab.trans hbc)]
    | _ => cases h'
  · cases w with
    | string c =>
      have hbc : cmp (Text.bytes b) (Text.bytes c) = .lt := Option.some.inj h'
      rw [eq_comm, Text.cmp_bytes, cmp_eq_lt_iff] at hab
      rw [Text.cmp_bytes, cmp_eq_lt_iff] at hbc
      rw [order?, Text.cmp_bytes, (cmp_eq_lt_iff a c).2 (hab.trans hbc)]
    | _ => cases h'

end Value

namespace Eval

variable {call : Call} {v w : Value} {line : Nat} {m : Machine}

theorem isEq_cmp {α : Type} [LinearOrder α] (a b : α) : (cmp a b).isEq = decide (a = b) := by
  rw [Bool.eq_iff_iff, decide_eq_true_iff, ← cmp_eq_eq_iff a b, Ordering.isEq_iff_eq_eq]

theorem isLT_cmp {α : Type} [LinearOrder α] (a b : α) : (cmp a b).isLT = decide (a < b) := by
  rw [Bool.eq_iff_iff, decide_eq_true_iff, ← cmp_eq_lt_iff a b, Ordering.isLT_iff_eq_lt]

theorem equal_of_order {o : Ordering} (h : v.order? w = some o) :
    equal call v w line m = .ok o.isEq m := by
  obtain ⟨a, b, rfl, rfl, rfl⟩ | ⟨a, b, rfl, rfl, rfl⟩ | ⟨a, b, rfl, rfl, rfl⟩ :=
    Value.exists_of_order? h
  · rw [isEq_cmp]
    rfl
  · rw [isEq_cmp]
    simp only [equal, Int64.toInt_inj]
    rfl
  · rw [Text.cmp_bytes, isEq_cmp]
    rfl

theorem less_of_order {o : Ordering} (h : v.order? w = some o) :
    less call v w line m = .ok o.isLT m := by
  obtain ⟨a, b, rfl, rfl, rfl⟩ | ⟨a, b, rfl, rfl, rfl⟩ | ⟨a, b, rfl, rfl, rfl⟩ :=
    Value.exists_of_order? h
  · rw [isLT_cmp]
    cases a <;> cases b <;> rfl
  · rw [isLT_cmp]
    simp only [less, Int64.lt_iff_toInt_lt]
    rfl
  · rw [Text.cmp_bytes, isLT_cmp]
    rfl

/-- Each comparison is a question about the order of its operands. -/
theorem compare_of_order {o : Ordering} (h : v.order? w = some o) (op : Comparison) :
    compare call op v w line m = .ok (op.holds o) m := by
  have hequal : equal call v w line m = .ok o.isEq m := equal_of_order h
  have hless : less call v w line m = .ok o.isLT m := less_of_order h
  have hnot : notEqual call v w line m = .ok (!o.isEq) m := Run.bind_of_ok hequal _
  have hge : greaterOrEqual call v w line m = .ok (!o.isLT) m := Run.bind_of_ok hless _
  have hgt : greater call v w line m = .ok (!o.isLT && !o.isEq) m := by
    rw [greater, Run.bind_of_ok hge]
    cases o.isLT
    · exact hnot
    · rfl
  have hle : lessOrEqual call v w line m = .ok (!(!o.isLT && !o.isEq)) m := Run.bind_of_ok hgt _
  cases op with
  | equal => exact hequal
  | notEqual => rw [compare, hnot]; cases o <;> rfl
  | less => exact hless
  | greater => rw [compare, hgt]; cases o <;> rfl
  | lessOrEqual => rw [compare, hle]; cases o <;> rfl
  | greaterOrEqual => rw [compare, hge]; cases o <;> rfl

/-! Refusals -/

theorem equal_of_refused (horder : v.order? w = none) (hcalls : v.equalCalls m.heap w = [])
    (hnone : ¬ (v = .none ∧ w = .none)) : equal call v w line m =
      .error (.located (.typeMismatch (.equality v.typeName w.typeName)) line) m := by
  cases v with
  | object r =>
    cases w with
    | object s =>
      have hmethod : (m.heap.get r).cls.hasMethod "__eq__" 1 = false := by
        by_contra h
        simp [Value.equalCalls, h] at hcalls
      simp only [equal]
      rw [Run.classOf_bind, hmethod]
      rfl
    | _ => rfl
  | none =>
    cases w with
    | none => exact absurd ⟨rfl, rfl⟩ hnone
    | _ => rfl
  | _ =>
    cases w
    all_goals first | cases horder; done | rfl

theorem less_of_refused (horder : v.order? w = none) (hcalls : v.lessCalls m.heap w = []) :
    less call v w line m =
      .error (.located (.typeMismatch (.ordering v.typeName w.typeName)) line) m := by
  cases v with
  | object r =>
    have hmethod : (m.heap.get r).cls.hasMethod "__lt__" 1 = false := by
      by_contra h
      simp [Value.lessCalls, h] at hcalls
    simp only [less]
    rw [Run.classOf_bind, hmethod]
    rfl
  | _ =>
    cases w
    all_goals first | cases horder; done | rfl

theorem compare_of_equal_error {e : Error} {n : Machine} (h : equal call v w line m = .error e n)
    {op : Comparison} (hop : op.isEquality = true) : compare call op v w line m = .error e n := by
  cases op with
  | equal => exact h
  | notEqual => exact Run.bind_of_error h _
  | _ => cases hop

theorem compare_of_less_error {e : Error} {n : Machine} (h : less call v w line m = .error e n)
    {op : Comparison} (hop : op.isEquality = false) : compare call op v w line m = .error e n := by
  have hge : greaterOrEqual call v w line m = .error e n := Run.bind_of_error h _
  have hgt : greater call v w line m = .error e n := Run.bind_of_error hge _
  cases op with
  | less => exact h
  | greater => exact hgt
  | lessOrEqual => exact Run.bind_of_error hgt _
  | greaterOrEqual => exact hge
  | _ => cases hop

/-! Instances -/

variable {r s : Ref} {d : Nat}

/-- A call leaves an instance that has a method in its class. -/
theorem cls_of_call {name other : String} {args : List Value} {arity : Nat} {u : Value}
    {k : Machine} (hmethod : (m.heap.get r).cls.hasMethod other arity = true)
    (h : callIn (callLimit - d) s name args line m = .ok u k) :
    (k.heap.get r).cls = (m.heap.get r).cls := by
  have hr : r < m.heap.size := by
    by_contra hsize
    rw [Heap.get_of_size_le (Nat.le_of_not_lt hsize)] at hmethod
    cases hmethod
  have hext : m.Extends k := Plays.extends_of_ok (playsCalls _ rfl s name args line) h
  exact hext.heap.cls r hr

theorem equal_of_method (h : (m.heap.get r).cls.hasMethod "__eq__" 1 = true) :
    equal call (.object r) (.object s) line m =
      (do return (← call r "__eq__" [.object s] line).isTrue : Run Bool) m := by
  simp only [equal]
  rw [Run.classOf_bind, h]
  rfl

theorem less_of_method (h : (m.heap.get r).cls.hasMethod "__lt__" 1 = true) :
    less call (.object r) w line m =
      (do return (← call r "__lt__" [w] line).isTrue : Run Bool) m := by
  simp only [less]
  rw [Run.classOf_bind, h]
  rfl

/-- Two parts that do the same at a machine, and what comes behind them. -/
theorem bind_agree {α β : Type} {x y : Run α} {f g : α → Run β} (h : x m = y m)
    (hf : ∀ a n, y m = .ok a n → f a n = g a n) : (x >>= f) m = (y >>= g) m := by
  cases hy : y m with
  | ok a n => rw [Run.bind_of_ok (h.trans hy), Run.bind_of_ok hy, hf a n hy]
  | error e n => rw [Run.bind_of_error (h.trans hy), Run.bind_of_error hy]

/-- A comparison of instances asks the two methods. -/
theorem compare_of_methods (hless : (m.heap.get r).cls.hasMethod "__lt__" 1 = true)
    (hequal : (m.heap.get r).cls.hasMethod "__eq__" 1 = true) (op : Comparison) :
    compare (callIn (callLimit - d)) op (.object r) (.object s) line m =
      op.asking (callIn (callLimit - d) r "__lt__" [.object s] line)
        (callIn (callLimit - d) r "__eq__" [.object s] line) m := by
  let call := callIn (callLimit - d)
  let askLess := call r "__lt__" [.object s] line
  let askEqual := call r "__eq__" [.object s] line
  have hnot {n : Machine} (hn : (n.heap.get r).cls.hasMethod "__eq__" 1 = true) :
      notEqual call (.object r) (.object s) line n =
        (do return !(← askEqual).isTrue : Run Bool) n := by
    rw [notEqual, bind_agree (equal_of_method hn) fun _ _ _ => rfl]
    simp only [bind_assoc, pure_bind]
    rfl
  have hge : greaterOrEqual call (.object r) (.object s) line m =
      (do return !(← askLess).isTrue : Run Bool) m := by
    rw [greaterOrEqual, bind_agree (less_of_method hless) fun _ _ _ => rfl]
    simp only [bind_assoc, pure_bind]
    rfl
  have hgt : greater call (.object r) (.object s) line m =
      (do if (← askLess).isTrue then return false else return !(← askEqual).isTrue :
        Run Bool) m := by
    rw [greater, bind_agree hge fun _ _ _ => rfl]
    simp only [bind_assoc, pure_bind]
    refine bind_agree rfl fun l n hl => ?_
    cases l.isTrue with
    | true => rfl
    | false =>
      -- The class is asked again, and is the one it was.
      have hn := cls_of_call hless hl
      exact hnot (hn ▸ hequal)
  cases op with
  | equal => exact equal_of_method hequal
  | notEqual => exact hnot hequal
  | less => exact less_of_method hless
  | greaterOrEqual => exact hge
  | greater => exact hgt
  | lessOrEqual =>
    rw [compare, lessOrEqual, bind_agree hgt fun _ _ _ => rfl]
    simp only [bind_assoc]
    refine bind_agree rfl fun l n _ => ?_
    cases l.isTrue with
    | true => rfl
    | false =>
      simp only [Bool.false_eq_true, if_false, bind_assoc, pure_bind, Bool.not_not]
      rfl

/-- A comparison that asks the two methods answers as they do. -/
theorem asking_of_ok {less equal : Run Value} {l q : Value} {m₁ m₂ : Machine}
    (hl : less m = .ok l m₁) (hq : equal m₁ = .ok q m₂) {op : Comparison}
    (hop : op.isEquality = false) : ∃ n, (n = m₁ ∨ n = m₂) ∧
      op.asking less equal m = .ok (op.truth l.isTrue q.isTrue) n := by
  cases op with
  | less => exact ⟨m₁, .inl rfl, Run.bind_of_ok hl _⟩
  | greaterOrEqual => exact ⟨m₁, .inl rfl, Run.bind_of_ok hl _⟩
  | greater =>
    rw [Comparison.asking, Run.bind_of_ok hl]
    cases l.isTrue with
    | true => exact ⟨m₁, .inl rfl, rfl⟩
    | false => exact ⟨m₂, .inr rfl, Run.bind_of_ok hq _⟩
  | lessOrEqual =>
    rw [Comparison.asking, Run.bind_of_ok hl]
    cases l.isTrue with
    | true => exact ⟨m₁, .inl rfl, rfl⟩
    | false => exact ⟨m₂, .inr rfl, Run.bind_of_ok hq _⟩
  | _ => cases hop

theorem asking_of_equality {less equal : Run Value} {q : Value} {n : Machine}
    (hq : equal m = .ok q n) {op : Comparison} (hop : op.isEquality = true) (l : Bool) :
    op.asking less equal m = .ok (op.truth l q.isTrue) n := by
  cases op with
  | equal => exact Run.bind_of_ok hq _
  | notEqual => exact Run.bind_of_ok hq _
  | _ => cases hop

end Eval

/-! Calls -/

namespace Moment

variable {m : Machine} {K : List Pending} {d : Nat}

theorem asks_equal (v w : Value) (line : Nat) :
    Asks d (.compare .equal v w line) (fun b => .value (.bool b))
      (equal (callIn (callLimit - d)) v w line) fun m => v.equalCalls m.heap w := by
  intro K m h
  refine .cons rfl rfl ?_
  cases v with
  | object r =>
    cases w with
    | object s =>
      change Makes d (if _ then _ else _) (if _ then _ else _)
        (closing _ _ _ ((if _ then _ else _ : Run Bool) m))
      split
      · exact (asks_call r "__eq__" [.object s] line).finish h rfl
          (fun u n => .cons rfl rfl (.refl _)) fun _ _ => rfl
      · exact .refl _
    | _ => exact .refl _
  | _ => cases w <;> exact .refl _

theorem asks_less (v w : Value) (line : Nat) :
    Asks d (.compare .less v w line) (fun b => .value (.bool b))
      (less (callIn (callLimit - d)) v w line) fun m => v.lessCalls m.heap w := by
  intro K m h
  refine .cons rfl rfl ?_
  cases v with
  | object r =>
    change Makes d (if _ then _ else _) (if _ then _ else _)
      (closing _ _ _ ((if _ then _ else _ : Run Bool) m))
    split
    · exact (asks_call r "__lt__" [w] line).finish h rfl
        (fun u n => .cons rfl rfl (.refl _)) fun _ _ => rfl
    · exact .refl _
  | _ => cases w <;> exact .refl _

theorem asks_notEqual (v w : Value) (line : Nat) :
    Asks d (.compare .notEqual v w line) (fun b => .value (.bool b))
      (notEqual (callIn (callLimit - d)) v w line) fun m => v.equalCalls m.heap w := by
  intro K m h
  exact .cons rfl rfl ((asks_equal v w line).finish h rfl
    (fun b n => .cons rfl rfl (.refl _)) fun _ _ => rfl)

theorem asks_greaterOrEqual (v w : Value) (line : Nat) :
    Asks d (.compare .greaterOrEqual v w line) (fun b => .value (.bool b))
      (greaterOrEqual (callIn (callLimit - d)) v w line) fun m => v.lessCalls m.heap w := by
  intro K m h
  exact .cons rfl rfl ((asks_less v w line).finish h rfl
    (fun b n => .cons rfl rfl (.refl _)) fun _ _ => rfl)

/-- Equality is asked where order says that the left operand is not less. -/
theorem asks_greater (v w : Value) (line : Nat) :
    Asks d (.compare .greater v w line) (fun b => .value (.bool b))
      (greater (callIn (callLimit - d)) v w line) fun m => v.lessCalls m.heap w ++
        behind (fun b n => if b then v.equalCalls n.heap w else [])
          (greaterOrEqual (callIn (callLimit - d)) v w line m) := by
  intro K m h
  refine .cons rfl rfl ((asks_greaterOrEqual v w line).resume h rfl (fun b n _ hn => ?_)
    fun _ _ => rfl)
  refine .cons rfl rfl ?_
  cases b with
  | true => exact asks_notEqual v w line K n hn
  | false => exact .refl _

theorem asks_lessOrEqual (v w : Value) (line : Nat) :
    Asks d (.compare .lessOrEqual v w line) (fun b => .value (.bool b))
      (lessOrEqual (callIn (callLimit - d)) v w line) fun m => v.lessCalls m.heap w ++
        behind (fun b n => if b then v.equalCalls n.heap w else [])
          (greaterOrEqual (callIn (callLimit - d)) v w line m) := by
  intro K m h
  exact .cons rfl rfl ((asks_greater v w line).finish h rfl
    (fun b n => .cons rfl rfl (.refl _)) fun _ _ => rfl)

section

variable {r s : Ref} {line : Nat}

theorem equalCalls_of_method (h : (m.heap.get r).cls.hasMethod "__eq__" 1 = true) :
    Value.equalCalls m.heap (.object r) (.object s) = [⟨r, "__eq__", [.object s]⟩] := if_pos h

/-- What is asked behind order depends on its answer only. -/
theorem behind_greaterOrEqual (s : Ref) (line : Nat)
    (hless : (m.heap.get r).cls.hasMethod "__lt__" 1 = true)
    (hequal : (m.heap.get r).cls.hasMethod "__eq__" 1 = true) :
    behind (fun b n => if b then Value.equalCalls n.heap (.object r) (.object s) else [])
        (greaterOrEqual (callIn (callLimit - d)) (.object r) (.object s) line m) =
      behind (fun l _ => if l.isTrue then [] else [⟨r, "__eq__", [.object s]⟩])
        (callIn (callLimit - d) r "__lt__" [.object s] line m) := by
  have hrun : less (callIn (callLimit - d)) (.object r) (.object s) line m =
      (do return (← callIn (callLimit - d) r "__lt__" [.object s] line).isTrue : Run Bool) m :=
    less_of_method hless
  cases hl : callIn (callLimit - d) r "__lt__" [.object s] line m with
  | ok l n =>
    rw [Run.bind_of_ok hl] at hrun
    have hge : greaterOrEqual (callIn (callLimit - d)) (.object r) (.object s) line m =
        .ok (!l.isTrue) n := Run.bind_of_ok hrun _
    have hn := cls_of_call hless hl
    rw [hge, behind, behind, equalCalls_of_method (hn ▸ hequal)]
    cases l.isTrue <;> rfl
  | error e n =>
    rw [Run.bind_of_error hl] at hrun
    have hge : greaterOrEqual (callIn (callLimit - d)) (.object r) (.object s) line m =
        .error e n := Run.bind_of_error hrun _
    rw [hge, behind, behind]

/-- A comparison of instances asks its left operand only, for order before equality. -/
theorem makes_compare (h : Balance K m d)
    (hless : (m.heap.get r).cls.hasMethod "__lt__" 1 = true)
    (hequal : (m.heap.get r).cls.hasMethod "__eq__" 1 = true) (op : Comparison) :
    Makes d ⟨.compare op (.object r) (.object s) line, K, m, d⟩
      (op.asked ⟨r, "__lt__", [.object s]⟩ ⟨r, "__eq__", [.object s]⟩
        (callIn (callLimit - d) r "__lt__" [.object s] line m))
      (closing (fun b => .value (.bool b)) K d
        (compare (callIn (callLimit - d)) op (.object r) (.object s) line m)) := by
  have hlessCalls : Value.lessCalls m.heap (.object r) (.object s) =
      [⟨r, "__lt__", [.object s]⟩] := if_pos hless
  have hequalCalls := equalCalls_of_method (s := s) hequal
  have hbehind := behind_greaterOrEqual (d := d) s line hless hequal
  have heq := asks_equal (.object r) (.object s) line K m h
  have hne := asks_notEqual (.object r) (.object s) line K m h
  have hlt := asks_less (.object r) (.object s) line K m h
  have hge := asks_greaterOrEqual (.object r) (.object s) line K m h
  have hgt := asks_greater (.object r) (.object s) line K m h
  have hle := asks_lessOrEqual (.object r) (.object s) line K m h
  simp only [hlessCalls, hequalCalls, hbehind] at heq hne hlt hge hgt hle
  cases op with
  | equal => exact heq
  | notEqual => exact hne
  | less => exact hlt
  | greaterOrEqual => exact hge
  | greater => exact hgt
  | lessOrEqual => exact hle

end

end Moment

/-- The six comparisons are one order. Of two scalars of one kind each says how they stand in the
order of the kind, which is strict and total, and for texts that of their code points as well. All
other values cannot be compared, but for equality of two empty values, unless the class of the left
one says how. Where it has a method for order and one for equality, all six go back to their
answers: each is asked of the left operand at most once, order first, and equality only while the
answer depends on it; a call that fails ends the comparison. -/
theorem Eval.compare_consistent :
    (∀ call op (v w : Value) o line m, v.order? w = some o →
      compare call op v w line m = .ok (op.holds o) m) ∧
    (∀ (v w : Value) o, v.order? w = some o → w.order? v = some o.swap ∧ (o = .eq ↔ v = w)) ∧
    (∀ u v w : Value, u.order? v = some .lt → v.order? w = some .lt → u.order? w = some .lt) ∧
    (∀ a b, (Value.string a).order? (.string b) =
      some (cmp (Text.codePoints a) (Text.codePoints b))) ∧
    (∀ call op (v w : Value) line m, v.order? w = none → op.isEquality = true →
      v.equalCalls m.heap w = [] → ¬ (v = .none ∧ w = .none) → compare call op v w line m =
        .error (.located (.typeMismatch (.equality v.typeName w.typeName)) line) m) ∧
    (∀ call op (v w : Value) line m, v.order? w = none → op.isEquality = false →
      v.lessCalls m.heap w = [] → compare call op v w line m =
        .error (.located (.typeMismatch (.ordering v.typeName w.typeName)) line) m) ∧
    (∀ call line m, compare call .equal .none .none line m = .ok true m ∧
      compare call .notEqual .none .none line m = .ok false m) ∧
    ∀ (m : Machine) r s line d, (m.heap.get r).cls.hasMethod "__lt__" 1 = true →
      (m.heap.get r).cls.hasMethod "__eq__" 1 = true →
      let call := callIn (callLimit - d)
      let less := call r "__lt__" [.object s] line
      let equal := call r "__eq__" [.object s] line
      (∀ op, compare call op (.object r) (.object s) line m = op.asking less equal m) ∧
      (∀ op l q n, op.isEquality = true → equal m = .ok q n →
        compare call op (.object r) (.object s) line m = .ok (op.truth l q.isTrue) n) ∧
      (∀ op l q m₁ m₂, op.isEquality = false → less m = .ok l m₁ → equal m₁ = .ok q m₂ →
        ∃ n, (n = m₁ ∨ n = m₂) ∧
          compare call op (.object r) (.object s) line m = .ok (op.truth l.isTrue q.isTrue) n) ∧
      ∀ op K, Balance K m d → Makes d ⟨.compare op (.object r) (.object s) line, K, m, d⟩
        (op.asked ⟨r, "__lt__", [.object s]⟩ ⟨r, "__eq__", [.object s]⟩ (less m))
        (closing (fun b => .value (.bool b)) K d
          (compare call op (.object r) (.object s) line m)) := by
  refine ⟨fun _ op v w o line m h => compare_of_order h op,
    fun v w o h => ⟨Value.order?_swap h, Value.order?_eq_iff h⟩,
    fun u v w => Value.order?_trans, fun a b => ?_,
    fun _ op v w line m horder hop hcalls hnone =>
      compare_of_equal_error (equal_of_refused horder hcalls hnone) hop,
    fun _ op v w line m horder hop hcalls =>
      compare_of_less_error (less_of_refused horder hcalls) hop,
    fun _ line m => ⟨rfl, rfl⟩, fun m r s line d hless hequal => ⟨fun op => ?_, ?_, ?_, ?_⟩⟩
  · rw [Value.order?, Text.cmp_bytes, Text.cmp_codePoints]
  · exact compare_of_methods hless hequal op
  · intro op l q n hop hq
    rw [compare_of_methods hless hequal op]
    exact asking_of_equality hq hop l
  · intro op l q m₁ m₂ hop hl hq
    rw [compare_of_methods hless hequal op]
    exact asking_of_ok hl hq hop
  · exact fun op K h => makes_compare h hless hequal op

/-- A machine with two instances, which are compared by what they hold. -/
def Machine.weights : Machine :=
  (Machine.eval ("class Weight:\n  def __init__(v):\n    self.v = v\n" ++
    "  def __lt__(w):\n    return self.v < w.v\n  def __eq__(w):\n    return self.v == w.v\n" ++
    "a = Weight(1)\nb = Weight(2)\n")).after (Machine.fresh .empty default)

/-- Two texts of three and of four bytes, and two instances, of which the second is greater. -/
theorem Eval.compare_consistent_weights :
    ((Value.string "～").order? (.string "😀") = some .lt ∧
      compare callMethod .less (.string "～") (.string "😀") 1 default = .ok true default) ∧
    (Machine.weights.heap.get 1).cls.hasMethod "__lt__" 1 = true ∧
    (Machine.weights.heap.get 1).cls.hasMethod "__eq__" 1 = true ∧
    Balance [] Machine.weights 0 ∧
    Makes 0 ⟨.compare .greater (.object 1) (.object 0) 9, [], Machine.weights, 0⟩
      [⟨1, "__lt__", [.object 0]⟩, ⟨1, "__eq__", [.object 0]⟩]
      (closing (fun b => .value (.bool b)) [] 0
        (compare callMethod .greater (.object 1) (.object 0) 9 Machine.weights)) := by
  obtain ⟨hscalar, -, -, -, -, -, -, hinstances⟩ := Eval.compare_consistent
  have hstring : (Value.string "～").order? (.string "😀") = some .lt := by decide
  obtain ⟨hless, hequal, hframes, hanswer⟩ :
      (Machine.weights.heap.get 1).cls.hasMethod "__lt__" 1 = true ∧
      (Machine.weights.heap.get 1).cls.hasMethod "__eq__" 1 = true ∧
      Machine.weights.frames.length = 0 ∧
      (callMethod 1 "__lt__" [.object 0] 9).answer Machine.weights = .ok (.bool false) := by
    decide +kernel
  have hbalance : Balance [] Machine.weights 0 := ⟨rfl, hframes, Nat.zero_le _⟩
  obtain ⟨n, hn⟩ := Run.exists_of_answer hanswer
  obtain ⟨-, -, -, hmakes⟩ := hinstances Machine.weights 1 0 9 0 hless hequal
  have hgreater := hmakes .greater [] hbalance
  have hn : callIn (callLimit - 0) 1 "__lt__" [.object 0] 9 Machine.weights =
      .ok (.bool false) n := hn
  simp only [hn] at hgreater
  exact ⟨⟨hstring, hscalar callMethod .less _ _ _ 1 default hstring⟩, hless, hequal, hbalance,
    hgreater⟩

end ClassLang
