import ClassLang.Proofs.Eval.Moment
import Mathlib.Control.Lawful

/-!
Every run ends. From the moment at which a part of a run begins, whatever waits for its result, the
moments lead to the one at which it has ended as evaluation says. The induction for calls is on the
number of calls that may still begin, the one for texts on the steps left, and all others are on the
tree. The moments follow from one another, so a run that ends has no moments but those up to its
end.
-/

namespace ClassLang

open Eval

/-! What a call begins with -/

theorem Run.classOf_bind {α : Type} (r : Ref) (f : Class → Run α) (m : Machine) :
    (Run.classOf r >>= f) m = f (m.heap.get r).cls m := rfl

theorem Run.get_bind {α : Type} (f : Machine → Run α) (m : Machine) :
    ((get : Run Machine) >>= f) m = f m m := rfl

section

variable {m : Machine} {r : Ref} {name : String} {args : List Value} {line : Nat} {x : Method}

/-- A call of a method that the class has, with room for it. -/
theorem Eval.callIn_succ (room : Nat) (hx : (m.heap.get r).cls.method? name = some x)
    (harity : x.arity = args.length) :
    callIn (room + 1) r name args line m = (do
      Run.log .trace "interpreter::call" "calling method" line
        [("class", (m.heap.get r).cls.name), ("method", name)]
      Run.trace s!"[line {line}] call {(m.heap.get r).cls.name}.{name}"
      let outcome ← Run.inFrame (frame r x.params args)
        (stmt (callIn room) x.body)
      return outcome.value : Run Value) m := by
  rw [callIn, Run.classOf_bind]
  simp only [hx, if_pos harity]

theorem Eval.callIn_zero (hx : (m.heap.get r).cls.method? name = some x)
    (harity : x.arity = args.length) :
    callIn 0 r name args line m = .error (.located (.recursionLimit callLimit) line) m := by
  rw [callIn, Run.classOf_bind]
  simp only [hx, if_pos harity]
  rfl

end

namespace Moment

variable {α β : Type} {d : Nat} {K : List Pending} {m : Machine}

/-- The moment at which a part of a run has ended. -/
def closing (give : α → Task) (K : List Pending) (d : Nat) :
    EStateM.Result Error Machine α → Moment
  | .ok a n => ⟨give a, K, n, d⟩
  | .error e n => ⟨.failed e, K, n, d⟩

/-- A task stands for a part of a run, while the counter of calls is at a number. -/
def Plays (d : Nat) (t : Task) (give : α → Task) (x : Run α) : Prop :=
  ∀ K m, Leads ⟨t, K, m, d⟩ (closing give K d (x m))

/-- The tasks of calling stand for a way to call. -/
def PlaysCalls (d : Nat) (call : Call) : Prop :=
  ∀ r name args line, Plays d (.call r name args line) .value (call r name args line)

/-! What comes behind a part of a run -/

theorem perform_eq_closing (give : α → Task) (x : Run α) :
    perform K d x (fun a n => ⟨give a, K, n, d⟩) m = closing give K d (x m) := by
  unfold perform closing
  cases x m <;> rfl

theorem closing_bind_pure (give : β → Task) (x : Run α) (f : α → β) :
    closing give K d ((x >>= fun a => pure (f a)) m) = closing (fun a => give (f a)) K d (x m) := by
  change closing give K d (EStateM.bind x (fun a => pure (f a)) m) = _
  unfold EStateM.bind closing
  cases x m <;> rfl

/-- A part that begins no task comes first. -/
theorem leads_perform {give : β → Task} (x : Run α) {f : α → Run β}
    {go : α → Machine → Moment} (h : ∀ a n, Leads (go a n) (closing give K d (f a n))) :
    Leads (perform K d x go m) (closing give K d ((x >>= f) m)) := by
  change Leads _ (closing give K d (EStateM.bind x f m))
  unfold perform EStateM.bind
  cases x m with
  | ok a n => exact h a n
  | error e n => exact .refl

/-- A part that a task stands for comes first, and what comes of it is the next task. -/
theorem Plays.bind {t : Task} {give : α → Task} {x : Run α} (h : Plays d t give x)
    {give' : β → Task} {f : α → Run β}
    (hf : ∀ a n, Leads ⟨give a, K, n, d⟩ (closing give' K d (f a n))) :
    Leads ⟨t, K, m, d⟩ (closing give' K d ((x >>= f) m)) := by
  have hx := h K m
  change Leads _ (closing give' K d (EStateM.bind x f m))
  unfold EStateM.bind
  revert hx
  cases x m with
  | ok a n =>
    intro hx
    exact hx.trans (hf a n)
  | error e n =>
    intro hx
    exact hx

/-- A part that a task stands for comes first, and what waits for it goes on with what comes of it.
Nothing is left to do where it fails. -/
theorem Plays.resume {t : Task} {give : α → Task} {x : Run α} (h : Plays d t give x)
    {p : Pending} {give' : β → Task} {f : α → Run β}
    (hf : ∀ a n, Leads ⟨give a, p :: K, n, d⟩ (closing give' K d (f a n)))
    (hp : ∀ n e, abandon K d n e p = ⟨.failed e, K, n, d⟩) :
    Leads ⟨t, p :: K, m, d⟩ (closing give' K d ((x >>= f) m)) := by
  have hx := h (p :: K) m
  change Leads _ (closing give' K d (EStateM.bind x f m))
  unfold EStateM.bind
  revert hx
  cases x m with
  | ok a n =>
    intro hx
    exact hx.trans (hf a n)
  | error e n =>
    intro hx
    exact hx.tail (congrArg some (hp n e))

/-! Values -/

variable {call : Call}

theorem plays_arith (hcall : PlaysCalls d call) (op : ArithOp) (left right : Value)
    (line : Nat) :
    Plays d (.arith op left right line) .value (Eval.arith call op left right line) := by
  intro K m
  refine .head rfl ?_
  cases left with
  | number a =>
    cases right with
    | number b => rw [beginArith, give, perform_eq_closing]; exact .refl
    | _ => exact .refl
  | string a =>
    cases right with
    | string b =>
      simp only [beginArith, Eval.arith]
      split
      · exact .refl
      · exact .refl
    | _ => exact .refl
  | object r =>
    change Leads (if _ then _ else _) (closing _ _ _ ((if _ then _ else _ : Run Value) m))
    split
    · exact hcall _ _ _ _ K m
    · exact .refl
  | _ => exact .refl

theorem plays_equal (hcall : PlaysCalls d call) (left right : Value) (line : Nat) :
    Plays d (.compare .equal left right line) (fun b => .value (.bool b))
      (Eval.equal call left right line) := by
  intro K m
  refine .head rfl ?_
  cases left with
  | object r =>
    cases right with
    | object s =>
      change Leads (if _ then _ else _) (closing _ _ _ ((if _ then _ else _ : Run Bool) m))
      split
      · exact (hcall _ _ _ _).resume (fun v n => .single rfl) fun _ _ => rfl
      · exact .refl
    | _ => exact .refl
  | _ => cases right <;> exact .refl

theorem plays_less (hcall : PlaysCalls d call) (left right : Value) (line : Nat) :
    Plays d (.compare .less left right line) (fun b => .value (.bool b))
      (Eval.less call left right line) := by
  intro K m
  refine .head rfl ?_
  cases left with
  | object r =>
    change Leads (if _ then _ else _) (closing _ _ _ ((if _ then _ else _ : Run Bool) m))
    split
    · exact (hcall _ _ _ _).resume (fun v n => .single rfl) fun _ _ => rfl
    · exact .refl
  | _ => cases right <;> exact .refl

theorem plays_compare (hcall : PlaysCalls d call) (op : Comparison) (left right : Value)
    (line : Nat) :
    Plays d (.compare op left right line) (fun b => .value (.bool b))
      (Eval.compare call op left right line) := by
  have notEqual : Plays d (.compare .notEqual left right line) (fun b => .value (.bool b))
      (Eval.notEqual call left right line) := fun K m =>
    .head rfl ((plays_equal hcall left right line).resume (fun _ _ => .single rfl) fun _ _ => rfl)
  have greaterOrEqual : Plays d (.compare .greaterOrEqual left right line)
      (fun b => .value (.bool b)) (Eval.greaterOrEqual call left right line) := fun K m =>
    .head rfl ((plays_less hcall left right line).resume (fun _ _ => .single rfl) fun _ _ => rfl)
  have greater : Plays d (.compare .greater left right line) (fun b => .value (.bool b))
      (Eval.greater call left right line) := by
    intro K m
    refine .head rfl (greaterOrEqual.resume (fun b n => .head rfl ?_) fun _ _ => rfl)
    cases b with
    | true => exact notEqual K n
    | false => exact .refl
  cases op with
  | equal => exact plays_equal hcall left right line
  | notEqual => exact notEqual
  | less => exact plays_less hcall left right line
  | greater => exact greater
  | lessOrEqual =>
    exact fun K m => .head rfl (greater.resume (fun _ _ => .single rfl) fun _ _ => rfl)
  | greaterOrEqual => exact greaterOrEqual

theorem plays_render (hcall : PlaysCalls d call) (line steps : Nat) (v : Value) :
    Plays d (.render steps v line) (fun text => .value (.string text))
      (Eval.renderIn call line steps v) := by
  induction steps generalizing v with
  | zero => exact fun K m => .single rfl
  | succ steps ih =>
    intro K m
    refine .head rfl ?_
    cases v with
    | object r =>
      change Leads (if _ then _ else _) (closing _ _ _ ((if _ then _ else _ : Run String) m))
      split
      · exact (hcall _ _ _ _).resume (fun w n => .head rfl (ih w K n)) fun _ _ => rfl
      · exact .refl
    | _ => exact .refl

/-! Expressions -/

mutual

theorem plays_expr (hcall : PlaysCalls d call) :
    (e : Expr) → Plays d (.expr e) .value (Eval.expr call e)
  | .literal _ _ => fun K m => .single rfl
  | .name _ _ => fun K m => .head rfl (perform_eq_closing (K := K) (m := m) _ _ ▸ .refl)
  | .call receiver _ args _ => by
    intro K m
    refine .head rfl ?_
    refine (plays_expr hcall receiver).resume (fun v n => .head rfl ?_) fun _ _ => rfl
    cases v with
    | object r =>
      refine (plays_args hcall args _ _).bind fun vs n => .head rfl ?_
      exact hcall r _ vs _ K n
    | _ => exact .refl
  | .toText operand _ => by
    intro K m
    refine .head rfl ?_
    refine (plays_expr hcall operand).resume (fun v n => .head rfl ?_) fun _ _ => rfl
    exact (plays_render hcall _ _ v).bind fun _ _ => .refl
  | .arith op left right _ => by
    intro K m
    refine .head rfl ?_
    refine (plays_expr hcall left).resume (fun a n => .head rfl ?_) fun _ _ => rfl
    refine (plays_expr hcall right).resume (fun b n => .head rfl ?_) fun _ _ => rfl
    exact plays_arith hcall op a b _ K n
  | .logic .or left right _ => by
    intro K m
    refine .head rfl ?_
    refine (plays_expr hcall left).resume (fun v n => .head rfl ?_) fun _ _ => rfl
    change Leads (if v.isTrue then _ else _) _
    split
    · exact .refl
    · exact (plays_expr hcall right).resume (fun _ _ => .single rfl) fun _ _ => rfl
  | .logic .and left right _ => by
    intro K m
    refine .head rfl ?_
    refine (plays_expr hcall left).resume (fun v n => .head rfl ?_) fun _ _ => rfl
    change Leads (if v.isTrue then _ else _) _
    split
    · exact (plays_expr hcall right).resume (fun _ _ => .single rfl) fun _ _ => rfl
    · exact .refl
  | .negation operand _ => by
    intro K m
    refine .head rfl ?_
    exact (plays_expr hcall operand).resume (fun _ _ => .single rfl) fun _ _ => rfl
  | .compare op left right _ => by
    intro K m
    refine .head rfl ?_
    refine (plays_expr hcall left).resume (fun a n => .head rfl ?_) fun _ _ => rfl
    refine (plays_expr hcall right).resume (fun b n => .head rfl ?_) fun _ _ => rfl
    exact (plays_compare hcall op a b _).bind fun _ _ => .refl
  | .construct name args _ => by
    intro K m
    refine .head rfl ?_
    rw [beginExpr, Eval.expr, Run.get_bind]
    cases m.classes.get? name with
    | none => exact .refl
    | some c =>
      refine (plays_args hcall args _ _).bind fun vs n => .head rfl ?_
      rw [beginUse]
      refine leads_perform _ fun r n => ?_
      refine leads_perform _ fun _ n => ?_
      change Leads (if c.hasMethod "__init__" vs.length then _ else _) _
      split
      · exact (hcall r _ _ _).resume (fun _ _ => .single rfl) fun _ _ => rfl
      · exact .refl

theorem plays_args (hcall : PlaysCalls d call) :
    (es : List Expr) → (ready : List Value) → (use : Use) →
      Plays d (.args ready es use) (fun vs => .args (ready ++ vs) [] use) (Eval.exprs call es)
  | [], ready, _ => by
    intro K m
    change Leads _ ⟨.args (ready ++ []) [] _, K, m, d⟩
    rw [List.append_nil]
  | e :: es, ready, use => by
    intro K m
    refine .head rfl ?_
    refine (plays_expr hcall e).resume (fun v n => .head rfl ?_) fun _ _ => rfl
    refine (plays_args hcall es _ use).bind fun vs n => ?_
    rw [List.append_assoc]
    exact .refl

end

/-! Statements -/

/-- A value is printed, and behind it what is left of its line. -/
theorem leads_printing (hcall : PlaysCalls d call) (line : Nat) (e : Expr) {es : List Expr}
    (first : Option Value)
    (hmore : ∀ v n, Leads (beginMore K d n v line es) (closing .value K d
      ((do Eval.printMore call line es; Run.emit "\n" line; return v) n))) :
    Leads ⟨.expr e, .printing first es line :: K, m, d⟩ (closing .value K d ((do
      let v ← Eval.printOne call line e
      Eval.printMore call line es
      Run.emit "\n" line
      return first.getD v) m)) := by
  unfold Eval.printOne
  simp only [bind_assoc, pure_bind]
  refine (plays_expr hcall e).resume (fun v n => .head rfl ?_) fun _ _ => rfl
  refine (plays_render hcall line callLimit v).resume (fun text n => .head rfl ?_) fun _ _ => rfl
  exact leads_perform _ fun _ n => hmore _ n

theorem leads_more (hcall : PlaysCalls d call) (line : Nat) (first : Value) (es : List Expr)
    (m : Machine) :
    Leads (beginMore K d m first line es) (closing .value K d
      ((do Eval.printMore call line es; Run.emit "\n" line; return first) m)) := by
  induction es generalizing first m with
  | nil => exact leads_perform _ fun _ n => .refl
  | cons e es ih =>
    rw [beginMore, Eval.printMore]
    simp only [bind_assoc]
    exact leads_perform _ fun _ n => leads_printing hcall line e (some first) ih

theorem leads_print (hcall : PlaysCalls d call) (line : Nat) (es : List Expr) (m : Machine) :
    Leads (beginPrint K d m line es) (closing .value K d (Eval.print call line es m)) := by
  cases es with
  | nil => exact leads_perform _ fun _ n => .refl
  | cons e es => exact leads_printing hcall line e none fun v => leads_more hcall line v es

mutual

theorem plays_stmt (hcall : PlaysCalls d call) :
    (s : Stmt) → Plays d (.stmt s) .done (Eval.stmt call s)
  | .assign _ value _ => by
    intro K m
    refine .head rfl ?_
    rw [beginStmt, Eval.stmt]
    refine leads_perform _ fun _ n => ?_
    refine (plays_expr hcall value).resume (fun v n => .head rfl ?_) fun _ _ => rfl
    rw [resume]
    exact leads_perform _ fun _ n => leads_perform _ fun _ n => .refl
  | .assignField object _ value _ => by
    intro K m
    refine .head rfl ?_
    rw [beginStmt, Eval.stmt]
    refine leads_perform _ fun _ n => ?_
    refine (plays_expr hcall object).resume (fun target n => .head rfl ?_) fun _ _ => rfl
    refine (plays_expr hcall value).resume (fun v n => .head rfl ?_) fun _ _ => rfl
    rw [resume]
    exact leads_perform _ fun _ n => .refl
  | .print args pos => by
    intro K m
    refine .head rfl ?_
    rw [beginStmt, Eval.stmt]
    refine leads_perform _ fun _ n => ?_
    rw [closing_bind_pure]
    exact leads_print hcall pos.line args n
  | .classDef c pos => by
    intro K m
    refine .head rfl ?_
    rw [beginStmt, Eval.stmt]
    refine leads_perform _ fun _ n => ?_
    exact leads_perform _ fun _ n => .refl
  | .branch condition yes no pos => by
    intro K m
    refine .head rfl ?_
    rw [beginStmt, Eval.stmt]
    refine leads_perform _ fun _ n => ?_
    refine (plays_expr hcall condition).resume (fun v n => .head rfl ?_) fun _ _ => rfl
    rw [resume]
    refine leads_perform _ fun _ n => ?_
    change Leads (if v.isTrue then _ else _) _
    split
    · exact plays_stmt hcall yes K n
    · exact leads_otherwise hcall pos.line no K n
  | .block body _ => by
    intro K m
    refine .head rfl ?_
    have h := plays_block hcall body (.endBlock :: K) (Run.setDepth (· + 1) m)
    -- The depth is put back however the block ends.
    change Leads _ (closing _ _ _ (Run.bracket _ _ _ m))
    unfold Run.bracket
    revert h
    cases Eval.block call body (Run.setDepth (· + 1) m) with
    | ok o n => exact fun h => h.tail rfl
    | error e n => exact fun h => h.tail rfl
  | .give value _ => by
    intro K m
    refine .head rfl ?_
    rw [beginStmt, Eval.stmt]
    refine leads_perform _ fun _ n => ?_
    refine (plays_expr hcall value).resume (fun v n => .head rfl ?_) fun _ _ => rfl
    rw [resume]
    exact leads_perform _ fun _ n => .refl
  | .methodBody body _ => by
    intro K m
    refine .head rfl ?_
    refine (plays_stmt hcall body).resume (fun o n => .head rfl ?_) fun _ _ => rfl
    cases o with
    | returning v => exact .refl
    | completed v => exact .refl
  | .expr value _ => by
    intro K m
    refine .head rfl ?_
    rw [beginStmt, Eval.stmt]
    refine leads_perform _ fun _ n => ?_
    refine (plays_expr hcall value).resume (fun v n => .head rfl ?_) fun _ _ => rfl
    rw [resume]
    exact leads_perform _ fun _ n => .refl

/-- What stands behind `else` begins without a moment of its own. -/
theorem leads_otherwise (hcall : PlaysCalls d call) (line : Nat) :
    (no : Option Stmt) → (K : List Pending) → (m : Machine) →
      Leads (beginOtherwise K d m line no) (closing .done K d (Eval.otherwise call line no m))
  | none, _, _ => .refl
  | some s, K, _ => by
    rw [beginOtherwise, Eval.otherwise]
    exact leads_perform _ fun _ n => plays_stmt hcall s K n

theorem plays_block (hcall : PlaysCalls d call) :
    (ss : List Stmt) → Plays d (.block ss) .done (Eval.block call ss)
  | [] => fun K m => .single rfl
  | s :: ss => by
    refine fun K m => .head rfl ?_
    refine (plays_stmt hcall s).resume (fun o n => .head rfl ?_) fun _ _ => rfl
    cases o with
    | completed v => exact plays_block hcall ss K n
    | returning v => exact .refl

end

/-! Calls and programs -/

/-- The body of a method runs in a frame of its own, with the counter one higher. -/
theorem leads_enter (hcall : PlaysCalls (d + 1) call) (frame : Env) (body : Stmt) :
    Leads (enter K d frame body m) (closing (fun o => .value o.value) K d
      (Run.inFrame frame (Eval.stmt call body) m)) := by
  have h := plays_stmt hcall body (.leave :: K)
    (Run.setDepth (· + 1) { m with frames := frame :: m.frames })
  unfold Run.inFrame Run.deeper Run.bracket
  revert h
  cases Eval.stmt call body (Run.setDepth (· + 1) { m with frames := frame :: m.frames }) with
  | ok o n => exact fun h => h.tail rfl
  | error e n => exact fun h => h.tail rfl

variable {r : Ref} {name : String} {args : List Value} {line : Nat}

/-- A method that the class does not have, or has with other parameters, is not called. -/
theorem leads_unresolved (room : Nat)
    (h : ∀ x, (m.heap.get r).cls.method? name = some x → x.arity ≠ args.length) :
    Leads (beginCall K d m r name args line)
      (closing .value K d (Eval.callIn room r name args line m)) := by
  rw [beginCall, Eval.callIn, Run.classOf_bind]
  cases hx : (m.heap.get r).cls.method? name with
  | none => exact .refl
  | some x =>
    simp only [if_neg (h x hx)]
    exact .refl

/-- The room of a way to call is what the counter leaves of the limit. -/
theorem playsCalls (room : Nat) {d : Nat} (hroom : callLimit - d = room) :
    PlaysCalls d (Eval.callIn room) := by
  -- A body is executed with the counter one higher, hence with one room less.
  induction room generalizing d with
  | zero =>
    intro r name args line K m
    have hfull : callLimit ≤ d := Nat.le_of_sub_eq_zero hroom
    refine .head rfl ?_
    by_cases h : ∃ x, (m.heap.get r).cls.method? name = some x ∧ x.arity = args.length
    · obtain ⟨x, hx, harity⟩ := h
      simp only [beginCall, hx, if_pos harity, if_pos hfull, callIn_zero hx harity]
      exact .refl
    · exact leads_unresolved 0 fun x hx harity => h ⟨x, hx, harity⟩
  | succ room ih =>
    intro r name args line K m
    have hspace : ¬ callLimit ≤ d := by omega
    refine .head rfl ?_
    by_cases h : ∃ x, (m.heap.get r).cls.method? name = some x ∧ x.arity = args.length
    · obtain ⟨x, hx, harity⟩ := h
      simp only [beginCall, hx, if_pos harity, if_neg hspace]
      rw [callIn_succ room hx harity]
      refine leads_perform _ fun _ n => ?_
      refine leads_perform _ fun _ n => ?_
      rw [closing_bind_pure]
      exact leads_enter (ih (by omega)) _ _
    · exact leads_unresolved (room + 1) fun x hx harity => h ⟨x, hx, harity⟩

theorem plays_program (last : Value) (ss : List Stmt) :
    Plays 0 (.program last ss) .value (Machine.runAll last ss) := by
  induction ss generalizing last with
  | nil => exact fun K m => .single rfl
  | cons s ss ih =>
    intro K m
    have h := plays_stmt (playsCalls callLimit (Nat.sub_zero _)) s (.program s ss :: K) m
    refine .head rfl ?_
    -- A failure is logged on its way out, so what waits is not indifferent to it.
    change Leads _ (closing _ _ _ (EStateM.bind (Machine.runOne s) _ m))
    unfold EStateM.bind Machine.runOne
    revert h
    change Leads _ (closing _ _ _ (Eval.stmt Eval.callMethod s m)) → _
    cases Eval.stmt Eval.callMethod s m with
    | ok o n =>
      intro h
      refine h.trans (.head rfl ?_)
      cases o with
      | completed v => exact ih v K n
      | returning v => exact .refl
    | error e n => exact fun h => h.tail rfl

/-- The moment at which a program begins to run: its classes have joined those known. -/
def start (p : Program) (m : Machine) : Moment :=
  ⟨.program .none p.statements, [], { m with classes := m.classes.merge p.classes }, 0⟩

/-- What leads to an end leads nowhere else for ever. -/
theorem acc_of_leads {a b : Moment} (h : Leads a b) (hb : b.next = none) :
    Acc (fun y x => x.next = some y) a := by
  induction h using Relation.ReflTransGen.head_induction_on with
  | refl =>
    refine ⟨_, fun y hy => ?_⟩
    rw [hb] at hy
    cases hy
  | head hac _ ih =>
    refine ⟨_, fun y hy => ?_⟩
    rw [hac] at hy
    cases hy
    exact ih

end Moment

/-- Every program ends, from every machine. No run of moments from its beginning goes on for ever,
and the last moment has the value of the program, or its failure, and the machine it leaves. -/
theorem Machine.halts_interpret (p : Program) (m : Machine) :
    Acc (fun y x => Moment.next x = some y) (Moment.start p m) ∧
    ∃ n, Moment.Leads (Moment.start p m) n ∧ n.next = none ∧
      ((∃ v, n.task = .value v ∧ interpret p m = .ok v n.machine) ∨
        ∃ e, n.task = .failed e ∧ interpret p m = .error e n.machine) := by
  have h := Moment.plays_program .none p.statements []
    { m with classes := m.classes.merge p.classes }
  change Moment.Leads _ (Moment.closing _ _ _ (interpret p m)) at h
  cases hr : interpret p m with
  | ok v n =>
    rw [hr] at h
    exact ⟨Moment.acc_of_leads h rfl, _, h, rfl, .inl ⟨v, rfl, rfl⟩⟩
  | error e n =>
    rw [hr] at h
    exact ⟨Moment.acc_of_leads h rfl, _, h, rfl, .inr ⟨e, rfl, rfl⟩⟩

end ClassLang
