import ClassLang.Proofs.Eval.Operands

/-!
Connectives. The right operand of a connective is evaluated where the left one does not decide, and
nowhere else. A connective can be spelled out by conditional statements, one for each operand.
-/

namespace ClassLang

open Eval Moment

variable {call : Call} {d : Nat} {m n : Machine}

/-- Whether a value of the left operand decides what comes of a connective. -/
def LogicOp.decides : LogicOp → Value → Bool
  | .or, v => v.isTrue
  | .and, v => !v.isTrue

/-- What comes of a connective whose left operand decides. -/
def LogicOp.decided : LogicOp → Bool
  | .or => true
  | .and => false

namespace Eval

variable {op : LogicOp} {left right : Expr} {pos : Pos}

/-- A connective asks for its right operand where the left one does not decide. -/
theorem expr_logic : expr call (.logic op left right pos) = do
    let v ← expr call left
    if op.decides v then return .bool op.decided
    else return .bool (← expr call right).isTrue := by
  cases op with
  | or =>
    rw [expr]
    rfl
  | and =>
    rw [expr]
    refine bind_congr fun v => ?_
    cases hv : v.isTrue with
    | true => simp [LogicOp.decides, hv]
    | false => simp [LogicOp.decides, LogicOp.decided, hv]

/-- A connective yields a truth value. -/
theorem exists_bool_of_logic {v : Value} (h : expr call (.logic op left right pos) m = .ok v n) :
    ∃ b, v = .bool b := by
  rw [expr_logic] at h
  obtain ⟨a, k, -, h⟩ := Run.bind_eq_ok.1 h
  split at h
  · cases h
    exact ⟨op.decided, rfl⟩
  · obtain ⟨b, k', -, h⟩ := Run.bind_eq_ok.1 h
    cases h
    exact ⟨b.isTrue, rfl⟩

end Eval

namespace Moment

variable {K : List Pending} {op : LogicOp} {left right : Expr} {v : Value}

theorem resume_logic (h : op.decides v = false) :
    resume K d m (.completed v) (.logic op right) = ⟨.expr right, .truth :: K, m, d⟩ := by
  cases op with
  | or => exact if_neg (Bool.eq_false_iff.1 h)
  | and =>
    have hv : v.isTrue = true := by simpa [LogicOp.decides] using h
    exact if_pos hv

theorem resume_logic_decided (h : op.decides v = true) :
    resume K d m (.completed v) (.logic op right) = ⟨.value (.bool op.decided), K, m, d⟩ := by
  cases op with
  | or => exact if_pos h
  | and =>
    have hv : ¬ v.isTrue = true := by simpa [LogicOp.decides] using h
    exact if_neg hv

/-- Behind a left operand that does not decide, the right one is evaluated. -/
theorem leads_right (hcall : PlaysCalls d call) (right : Expr) (pos : Pos) {m' : Machine}
    (hleft : expr call left m = .ok v m') (h : op.decides v = false) (K : List Pending) :
    Leads ⟨.expr (.logic op left right pos), K, m, d⟩ ⟨.expr right, .truth :: K, m', d⟩ := by
  have hplay := plays_expr hcall left (.logic op right :: K) m
  rw [hleft] at hplay
  exact .head rfl (hplay.tail (congrArg some (resume_logic h)))

/-- A right operand that is evaluated stands behind a left one that does not decide. -/
theorem exists_of_leads_right (hcall : PlaysCalls d call) {pos : Pos} {m' : Machine}
    (h : Leads ⟨.expr (.logic op left right pos), [], m, d⟩ ⟨.expr right, [.truth], m', d⟩) :
    ∃ v k, expr call left m = .ok v k ∧ op.decides v = false := by
  -- Nothing is left to do behind a failure, nor behind a value that decides.
  have stuck {t : Task} {n : Machine} (hnext : Moment.next ⟨t, [], n, d⟩ = none)
      (hz : Leads ⟨t, [], n, d⟩ ⟨.expr right, [.truth], m', d⟩) : False := by
    obtain heq | ⟨z, hz, -⟩ := hz.cases_head
    · cases heq
    · rw [hnext] at hz
      cases hz
  -- While the left operand is evaluated, the connective waits below.
  have waits (a : Moment) :
      ¬ (⟨.expr right, [.truth], m', d⟩ : Moment) = a.above [.logic op right] := by
    intro heq
    have hlast := congrArg (fun n : Moment => n.pending.getLast?) heq
    change some Pending.truth = (a.pending ++ [Pending.logic op right]).getLast? at hlast
    rw [List.getLast?_concat] at hlast
    cases hlast
  obtain heq | ⟨first, hfirst, h⟩ := h.cases_head
  · cases heq
  cases hfirst
  have hplay := plays_expr hcall left [] m
  cases hleft : expr call left m with
  | error e n =>
    rw [hleft] at hplay
    obtain ⟨a, -, habove⟩ | h := above_or_leads hplay rfl h
    · exact absurd habove (waits a)
    · obtain heq | ⟨z, hz, h⟩ := h.cases_head
      · cases heq
      · cases hz
        exact (stuck rfl h).elim
  | ok v n =>
    rw [hleft] at hplay
    obtain ⟨a, -, habove⟩ | h := above_or_leads hplay rfl h
    · exact absurd habove (waits a)
    · cases hdecides : op.decides v with
      | false => exact ⟨v, n, rfl, hdecides⟩
      | true =>
        obtain heq | ⟨z, hz, h⟩ := h.cases_head
        · cases heq
        · change some (resume [] d n (.completed v) (.logic op right)) = some z at hz
          rw [resume_logic_decided hdecides] at hz
          cases hz
          exact (stuck rfl h).elim

end Moment

/-! Connectives spelled out -/

/-- The part of a run that a statement stands for, its outcome left out. -/
def Eval.effect (call : Call) (s : Stmt) : Run Unit := stmt call s >>= fun _ => pure ()

/-- What is made of a value afterwards can be made of it before a bracket is left. -/
theorem Run.bracket_bind_pure {α β : Type} (enter leave : Machine → Machine) (x : Run α)
    (f : α → β) : (Run.bracket enter leave x >>= fun a => pure (f a)) =
      Run.bracket enter leave (x >>= fun a => pure (f a)) := by
  funext m
  cases hx : x (enter m) with
  | ok a n =>
    have hbracket : Run.bracket enter leave x m = .ok a (leave n) := by rw [Run.bracket, hx]
    rw [Run.bind_of_ok hbracket, Run.bracket, Run.bind_of_ok hx]
    rfl
  | error e n =>
    have hbracket : Run.bracket enter leave x m = .error e (leave n) := by rw [Run.bracket, hx]
    rw [Run.bind_of_error hbracket, Run.bracket, Run.bind_of_error hx]

/-- A suite of one statement does what the statement does, with the trace one step further in. -/
theorem Eval.effect_suite (s : Stmt) (pos : Pos) :
    effect call (.block [s] pos) = Run.deeper (effect call s) := by
  have hblock : (block call [s] >>= fun _ => pure ()) = effect call s := by
    rw [block, bind_assoc, effect]
    refine bind_congr fun o => ?_
    cases o <;> rfl
  rw [← hblock, effect, stmt, Run.deeper, Run.bracket_bind_pure, Run.deeper]

/-- Holds where a statement ends as a part of a run does, whatever watches the two. -/
def Eval.Spells (call : Call) (x : Run Unit) (s : Stmt) : Prop :=
  ∀ m n, m.Beside [] n → Machine.EndsBeside [] (x m) (effect call s n)

namespace Eval.Spells

variable {x y : Run Unit} {s yes no : Stmt}

/-- Both sides get the value of an expression first. -/
theorem bind_expr (hcall : Bond.same.KeptBy call) (e : Expr) {f g : Value → Run Unit}
    (h : m.Beside [] n)
    (hf : ∀ v m' n', m'.Beside [] n' → Machine.EndsBeside [] (f v m') (g v n')) :
    Machine.EndsBeside [] ((expr call e >>= f) m) ((expr call e >>= g) n) := by
  obtain ⟨hends, -⟩ := (Goes.exprOn hcall e fun _ _ => List.not_mem_nil).endsBeside h
  generalize hm : expr call e m = r at hends
  generalize hn : expr call e n = r' at hends
  cases hends with
  | ok h =>
    rw [Run.bind_of_ok hm, Run.bind_of_ok hn]
    exact hf _ _ _ h
  | error h =>
    rw [Run.bind_of_error hm, Run.bind_of_error hn]
    exact .error h

theorem assign (hcall : Bond.same.KeptBy call) (name : String) (e : Expr) (pos : Pos) :
    Spells call (expr call e >>= Run.define name) (.assign name e pos) := by
  intro m n h
  rw [effect, stmt]
  simp only [bind_assoc]
  exact bind_expr hcall e (h.watched _) fun v m' n' h => .ok ((h.watched _).both_defined name v)

theorem branch (hcall : Bond.same.KeptBy call) (condition : Expr) (hyes : Spells call x yes)
    (hno : Spells call y no) (pos : Pos) :
    Spells call (expr call condition >>= fun v => if v.isTrue then x else y)
      (.branch condition yes (some no) pos) := by
  intro m n h
  rw [effect, stmt]
  simp only [bind_assoc]
  refine bind_expr hcall condition (h.watched _) fun v m' n' h => ?_
  cases hv : v.isTrue with
  | true => exact hyes m' _ (h.watched _)
  | false => exact hno m' _ ((h.watched _).watched _)

theorem suite (h : Spells call x s) (pos : Pos) : Spells call x (.block [s] pos) := by
  intro m n hbeside
  have hends := h m (Run.setDepth (· + 1) n) (hbeside.watched _)
  rw [effect_suite]
  unfold Run.deeper Run.bracket
  generalize x m = r at hends ⊢
  generalize effect call s (Run.setDepth (· + 1) n) = r' at hends ⊢
  cases hends with
  | ok hends => exact .ok (hends.watched _)
  | error hends => exact .error (hends.watched _)

end Eval.Spells

/-- The statement that gives a name a truth value. -/
def Stmt.settle (name : String) (b : Bool) (pos : Pos) : Stmt :=
  .block [.assign name (.literal (.bool b) pos) pos] pos

/-- The statement that gives a name the truth value of an expression. -/
def Stmt.settleBy (name : String) (e : Expr) (pos : Pos) : Stmt :=
  .branch e (.settle name true pos) (some (.settle name false pos)) pos

/-- The statement that gives a name what comes of a connective: it asks for the left operand, and
for the right one only where the left one does not decide. -/
def Stmt.settleLogic (op : LogicOp) (name : String) (left right : Expr) (pos : Pos) : Stmt :=
  let undecided : Stmt := .block [.settleBy name right pos] pos
  match op with
  | .or => .branch left (.settle name true pos) (some undecided) pos
  | .and => .branch left undecided (some (.settle name false pos)) pos

namespace Eval.Spells

theorem settle (hcall : Bond.same.KeptBy call) (name : String) (b : Bool) (pos : Pos) :
    Spells call (Run.define name (.bool b)) (.settle name b pos) :=
  suite (assign hcall name (.literal (.bool b) pos) pos) pos

theorem settleBy (hcall : Bond.same.KeptBy call) (name : String) (e : Expr) (pos : Pos) :
    Spells call (expr call e >>= fun v => Run.define name (.bool v.isTrue))
      (.settleBy name e pos) := by
  have hbranch := branch hcall e (settle hcall name true pos) (settle hcall name false pos) pos
  have hsame (v : Value) : (if v.isTrue then Run.define name (.bool true)
      else Run.define name (.bool false)) = Run.define name (.bool v.isTrue) := by
    cases v.isTrue <;> rfl
  simp only [hsame] at hbranch
  exact hbranch

theorem settleLogic (hcall : Bond.same.KeptBy call) (op : LogicOp) (name : String)
    (left right : Expr) (pos pos' : Pos) :
    Spells call (expr call (.logic op left right pos) >>= Run.define name)
      (.settleLogic op name left right pos') := by
  have htrue := settle hcall name true pos'
  have hfalse := settle hcall name false pos'
  have hright := suite (settleBy hcall name right pos') pos'
  have hlogic : expr call (.logic op left right pos) >>= Run.define name =
      expr call left >>= fun v => if op.decides v then Run.define name (.bool op.decided)
        else expr call right >>= fun w => Run.define name (.bool w.isTrue) := by
    rw [expr_logic, bind_assoc]
    refine bind_congr fun v => ?_
    split
    · rw [pure_bind]
    · simp only [bind_assoc, pure_bind]
  rw [hlogic]
  cases op with
  | or => exact branch hcall left htrue hright pos'
  | and =>
    simp only [LogicOp.decides, Bool.not_eq_true', ← Bool.not_eq_true, ite_not]
    exact branch hcall left hright hfalse pos'

end Eval.Spells

/-- Operands are evaluated from the left, each once. An expression that combines the values of its
operands gives the same if they are first assigned, in their order, to names that its variables do
not begin with, and the names then stand in their place; what the names were bound to before does
not matter. A connective yields a truth value. Its right operand is evaluated exactly where the left
one has a value that does not decide, and then in the machine that the left one leaves. It gives a
name what the conditional statement gives it that spells it out. -/
theorem Eval.operands_from_left (d : Nat) (m : Machine) :
    (∀ (e : Expr) (names : List String) (place place' : String → Pos),
      e.Eager (callIn (callLimit - d)) m → names.length = e.operands.length → names.Nodup →
      (∀ name ∈ names, name ∉ e.roots) →
      Machine.EndsBeside names (expr (callIn (callLimit - d)) e m)
        ((do
          let _ ← block (callIn (callLimit - d)) (Stmt.assigns place names e.operands)
          expr (callIn (callLimit - d)) (e.withOperands (Expr.variables place' names))) m)) ∧
    ∀ (op : LogicOp) (left right : Expr) (pos : Pos),
      (∀ v n, expr (callIn (callLimit - d)) (.logic op left right pos) m = .ok v n →
        ∃ b, v = .bool b) ∧
      ((∃ n, Leads ⟨.expr (.logic op left right pos), [], m, d⟩ ⟨.expr right, [.truth], n, d⟩) ↔
        ∃ v n, expr (callIn (callLimit - d)) left m = .ok v n ∧ op.decides v = false) ∧
      (∀ v n K, expr (callIn (callLimit - d)) left m = .ok v n → op.decides v = false →
        Leads ⟨.expr (.logic op left right pos), K, m, d⟩ ⟨.expr right, .truth :: K, n, d⟩) ∧
      ∀ (name : String) (pos' : Pos), Machine.EndsBeside []
        (effect (callIn (callLimit - d)) (.assign name (.logic op left right pos) pos') m)
        (effect (callIn (callLimit - d)) (.settleLogic op name left right pos') m) := by
  have hplays : PlaysCalls d (callIn (callLimit - d)) := playsCalls _ rfl
  have hkept := keptBy_same (callLimit - d)
  refine ⟨fun e names place place' h hlength hnodup hfree =>
    endsBeside_named d m h place place' hlength hnodup hfree, fun op left right pos =>
    ⟨fun v n => exists_bool_of_logic, ⟨?_, ?_⟩, fun v n K hv hdecides =>
      leads_right hplays right pos hv hdecides K, fun name pos' => ?_⟩⟩
  · rintro ⟨n, hn⟩
    exact exists_of_leads_right hplays hn
  · rintro ⟨v, n, hv, hdecides⟩
    exact ⟨n, leads_right hplays right pos hv hdecides []⟩
  · have hassign := Spells.assign hkept name (.logic op left right pos) pos' m m (.refl [] m)
    have hsettle := Spells.settleLogic hkept op name left right pos pos' m m (.refl [] m)
    exact hassign.symm.trans hsettle

/-- A machine with an instance that counts how often it was asked. -/
def Machine.counting : Machine :=
  (Machine.eval ("class Counter:\n  def next():\n    self.n = self.n + 1\n    print self.n\n" ++
    "    return self.n\nc = Counter()\nc.n = 0\n")).after (Machine.fresh .empty default)

/-- Two operands, each of which changes what the other one gives. -/
theorem Eval.operands_from_left_counting :
    let next : Expr := .call (.name ["c"] ⟨9, 1⟩) "next" [] ⟨9, 3⟩
    let given : List Stmt := [.assign "s" next ⟨7, 1⟩, .assign "t" next ⟨7, 1⟩]
    (expr callMethod (.arith .sub next next ⟨9, 9⟩)).answer Machine.counting = .ok (.number (-1)) ∧
    Machine.EndsBeside ["s", "t"] (expr callMethod (.arith .sub next next ⟨9, 9⟩) Machine.counting)
      ((do
        let _ ← block callMethod given
        expr callMethod (.arith .sub (.name ["s"] ⟨8, 1⟩) (.name ["t"] ⟨8, 1⟩) ⟨9, 9⟩))
          Machine.counting) := by
  intro next given
  obtain ⟨hnamed, -⟩ := operands_from_left 0 Machine.counting
  refine ⟨by decide +kernel, ?_⟩
  exact hnamed (.arith .sub next next ⟨9, 9⟩) ["s", "t"] (fun _ => ⟨7, 1⟩) (fun _ => ⟨8, 1⟩) trivial
    rfl (by decide) (by decide)

end ClassLang
