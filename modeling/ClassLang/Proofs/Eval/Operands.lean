import ClassLang.Proofs.Eval.Beside
import ClassLang.Proofs.Eval.Extended

/-!
The order of operands. The operands of an expression that combines their values can be given names
first, one after the other from the left: what comes of the expression is then the same. The
induction is on the operands. Behind each of them one more name is bound that the others do not ask
for.
-/

namespace ClassLang

open Eval Moment

/-! Expressions that combine values -/

/-- The operands of an expression that combines their values, in their order. -/
def Expr.operands : Expr → List Expr
  | .call receiver _ args _ => receiver :: args
  | .arith _ left right _ | .compare _ left right _ => [left, right]
  | .construct _ args _ => args
  | .literal _ _ | .name _ _ | .toText _ _ | .logic _ _ _ _ | .negation _ _ => []

/-- The expression with other operands, as many as it has. -/
def Expr.withOperands : Expr → List Expr → Expr
  | .call _ method _ pos, receiver :: args => .call receiver method args pos
  | .arith op _ _ pos, [left, right] => .arith op left right pos
  | .compare op _ _ pos, [left, right] => .compare op left right pos
  | .construct cls _ pos, args => .construct cls args pos
  | e, _ => e

/-- Holds of the expressions that get the values of all their operands before they combine them:
what is constructed is a known class, and what a method is called on is an instance. -/
def Expr.Eager (call : Call) (m : Machine) : Expr → Prop
  | .arith _ _ _ _ | .compare _ _ _ _ => True
  | .construct cls _ _ => m.classes.contains cls = true
  | .call receiver _ _ _ => ∀ v n, expr call receiver m = .ok v n → ∃ r, v = .object r
  | .literal _ _ | .name _ _ | .toText _ _ | .logic _ _ _ _ | .negation _ _ => False

/-- What an expression does with the values of its operands. -/
def Eval.finish (call : Call) : Expr → List Value → Run Value
  | .call _ method _ pos, .object r :: vs => call r method vs pos.line
  | .arith op _ _ pos, [a, b] => arith call op a b pos.line
  | .compare op _ _ pos, [a, b] => return .bool (← compare call op a b pos.line)
  | .construct cls _ pos, vs => do
    match (← get).classes.get? cls with
    | none => Run.fail (.typeMismatch (.notAClass cls)) pos.line
    | some c => do
      let r ← Run.newObject c
      Run.log .trace "interpreter::new" "new instance" pos.line [("class", c.name)]
      if c.hasMethod "__init__" vs.length then
        let _ ← call r "__init__" vs pos.line
      return .object r
  | _, _ => return .none

variable {call : Call} {d : Nat} {m n : Machine} {e : Expr} {names : List String}

theorem Expr.rootsAll_operands (h : e.Eager call m) : Expr.rootsAll e.operands = e.roots := by
  cases e with
  | arith | compare => simp [operands, rootsAll, roots]
  | call | construct => rfl
  | literal | name | toText | logic | negation => exact h.elim

theorem Expr.operands_withOperands {es : List Expr} (h : es.length = e.operands.length) :
    (e.withOperands es).operands = es := by
  cases e with
  | arith | compare =>
    obtain ⟨left, right, rfl⟩ := List.length_eq_two.1 h
    rfl
  | call =>
    obtain ⟨receiver, args, rfl⟩ := List.exists_cons_of_length_eq_add_one h
    rfl
  | construct => rfl
  | literal | name | toText | logic | negation =>
    obtain rfl := List.length_eq_zero_iff.1 h
    rfl

theorem Eval.finish_withOperands {es : List Expr} (h : es.length = e.operands.length)
    (vs : List Value) : finish call (e.withOperands es) vs = finish call e vs := by
  cases e with
  | arith | compare =>
    obtain ⟨left, right, rfl⟩ := List.length_eq_two.1 h
    match vs with
    | [] | [_] | [_, _] | _ :: _ :: _ :: _ => rfl
  | call =>
    obtain ⟨receiver, args, rfl⟩ := List.exists_cons_of_length_eq_add_one h
    cases vs with
    | nil => rfl
    | cons v vs => cases v <;> rfl
  | construct | literal | name | toText | logic | negation => rfl

theorem Goes.finish {B : Bond} (hcall : B.KeptBy call) (e : Expr) {vs : List Value}
    (hvs : ∀ v ∈ vs, B.holds v) :
    Goes B.lenient B.core Calm B.holds (Eval.finish call e vs) := by
  unfold Eval.finish
  split
  · obtain ⟨hr, hvs⟩ := List.forall_mem_cons.1 hvs
    exact hcall _ _ _ _ hr hvs
  · obtain ⟨ha, hvs⟩ := List.forall_mem_cons.1 hvs
    exact arith hcall _ ha (hvs _ List.mem_cons_self) _
  · obtain ⟨ha, hvs⟩ := List.forall_mem_cons.1 hvs
    exact bind (compare hcall _ ha (hvs _ List.mem_cons_self) _) fun _ _ => pure (B.holds_bool _)
  · refine get fun m n hr => ⟨by rw [B.classes hr], ?_⟩
    split
    · exact fail _ _
    · refine bind (newObject _) fun r hobject => bind_unit (log _ _ _ _ _) ?_
      split
      · exact bind (hcall _ _ _ _ hobject hvs) fun _ _ => pure hobject
      · exact pure hobject
  · exact pure B.holds_none

theorem Eval.exprs_pair (left right : Expr) : exprs call [left, right] = (do
    let a ← expr call left
    let b ← expr call right
    return [a, b]) := by
  simp [exprs]

/-- An expression gets the values of its operands and then combines them. -/
theorem Eval.expr_eq_finish (hcall : PlaysCalls d call) (h : e.Eager call m) :
    expr call e m = (exprs call e.operands >>= finish call e) m := by
  cases e with
  | arith op left right pos =>
    rw [Expr.operands, exprs_pair]
    simp [expr, finish]
  | compare op left right pos =>
    rw [Expr.operands, exprs_pair]
    simp [expr, finish]
  | construct cls args pos =>
    obtain ⟨c, hc⟩ := Option.isSome_iff_exists.1 h
    rw [expr, Run.get_bind]
    simp only [hc]
    change EStateM.bind (exprs call args) _ m = EStateM.bind (exprs call args) _ m
    unfold EStateM.bind
    cases hargs : exprs call args m with
    | error e k => rfl
    | ok vs k =>
      have hextends := (plays_args hcall args [] (.construct c pos.line)).extends_of_ok hargs
      simp only []
      rw [finish, Run.get_bind, hextends.classes]
      simp only [hc]
  | call receiver method args pos =>
    rw [Expr.operands, expr, exprs, bind_assoc]
    change EStateM.bind (expr call receiver) _ m = EStateM.bind (expr call receiver) _ m
    unfold EStateM.bind
    cases hreceiver : expr call receiver m with
    | error e k => rfl
    | ok v k =>
      obtain ⟨r, rfl⟩ := h v k hreceiver
      simp only [bind_assoc, pure_bind]
      rfl
  | literal | name | toText | logic | negation => exact h.elim

/-! Operands with names -/

/-- The assignments of expressions to names, at given places. -/
def Stmt.assigns (place : String → Pos) (names : List String) (es : List Expr) : List Stmt :=
  List.zipWith (fun name e => .assign name e (place name)) names es

/-- The variables with some names, at given places. -/
def Expr.variables (place : String → Pos) (names : List String) : List Expr :=
  names.map fun name => .name [name] (place name)

theorem Eval.expr_variable (pos : Pos) {name : String} {v : Value}
    (h : (Run.scope m).get? name = some v) : expr call (.name [name] pos) m = .ok v m := by
  rw [expr, path, Run.get_bind, h]
  rfl

/-- Variables have the values that their names are bound to. -/
theorem Eval.exprs_variables (place : String → Pos) {vs : List Value}
    (h : List.Forall₂ (fun name v => (Run.scope m).get? name = some v) names vs) :
    exprs call (Expr.variables place names) m = .ok vs m := by
  induction h with
  | nil => rfl
  | @cons name v names vs hname _ ih =>
    rw [Expr.variables, List.map_cons, exprs]
    refine Run.bind_eq_ok.2 ⟨v, m, expr_variable (place name) hname, ?_⟩
    exact Run.bind_eq_ok.2 ⟨vs, m, ih, rfl⟩

/-- An assignment leaves the value bound, beside a machine that does without the name. -/
theorem Eval.stmt_assign (hcall : Bond.same.KeptBy call) (h : m.Beside names n)
    (he : ∀ root ∈ e.roots, root ∉ names) {name : String} (hname : name ∈ names) (pos : Pos) :
    (∃ v m' n', expr call e m = .ok v m' ∧
      stmt call (.assign name e pos) n = .ok (.completed v) n' ∧ m'.Beside names n' ∧
      Run.scope n' = (Run.scope n).insert name v) ∨
    ∃ err m' n', expr call e m = .error err m' ∧
      stmt call (.assign name e pos) n = .error err n' ∧ m'.Beside names n' := by
  set traced := n.watch.step s!"[line {pos.line}] {name} = ..." with htraced
  obtain ⟨hends, hcalm⟩ := (Goes.exprOn hcall e he).endsBeside (h.watched traced)
  have hassign : stmt call (.assign name e pos) n =
      EStateM.bind (expr call e) (fun v => do
        Run.traceValue s!"-> {name} is now " v
        Run.define name v
        return .completed v) { n with watch := traced } := by
    rw [stmt, htraced]
    rfl
  unfold EStateM.bind at hassign
  unfold Run.after at hcalm
  generalize expr call e m = r at hends
  generalize expr call e _ = r' at hends hcalm hassign
  cases hends with
  | @ok v m' n' hbeside =>
    refine .inl ⟨v, m', _, rfl, hassign, (hbeside.watched _).defined hname v, ?_⟩
    exact (Run.scope_defined name v _).trans (congrArg (Dict.insert · name v) hcalm.scope)
  | @error err m' n' hbeside => exact .inr ⟨err, m', n', rfl, hassign, hbeside⟩

/-- Assignments leave the values bound, beside a machine that does without the names. -/
theorem Eval.block_assigns (hcall : Bond.same.KeptBy call) (place : String → Pos)
    {es : List Expr} {ts : List String} (h : m.Beside names n)
    (hes : ∀ root ∈ Expr.rootsAll es, root ∉ names) (hts : ∀ name ∈ ts, name ∈ names)
    (hlength : ts.length = es.length) :
    (∃ vs m' n', exprs call es m = .ok vs m' ∧
      block call (Stmt.assigns place ts es) n = .ok (.completed .none) n' ∧
      m'.Beside names n' ∧ vs.length = es.length ∧
      Run.scope n' = (Run.scope n).insertAll (ts.zip vs)) ∨
    ∃ err m' n', exprs call es m = .error err m' ∧
      block call (Stmt.assigns place ts es) n = .error err n' ∧ m'.Beside names n' := by
  induction es generalizing ts m n with
  | nil =>
    obtain rfl := List.length_eq_zero_iff.1 hlength
    exact .inl ⟨[], m, n, rfl, rfl, h, rfl, rfl⟩
  | cons e es ih =>
    obtain ⟨name, ts, rfl⟩ := List.exists_cons_of_length_eq_add_one hlength
    obtain ⟨he, hes⟩ := List.forall_mem_append.1 hes
    obtain ⟨hname, hts⟩ := List.forall_mem_cons.1 hts
    rw [Stmt.assigns, List.zipWith_cons_cons, block, exprs]
    obtain ⟨v, m₁, n₁, hm₁, hn₁, hbeside, hscope⟩ | ⟨err, m₁, n₁, hm₁, hn₁, hbeside⟩ :=
      stmt_assign hcall h he hname (place name)
    · obtain ⟨vs, m', n', hm, hn, hrest, hvs, hafter⟩ | ⟨err, m', n', hm, hn, hrest⟩ :=
        ih hbeside hes hts (Nat.succ.inj hlength)
      · left
        refine ⟨v :: vs, m', n', ?_, ?_, hrest, congrArg (· + 1) hvs, ?_⟩
        · exact Run.bind_eq_ok.2 ⟨v, m₁, hm₁, Run.bind_eq_ok.2 ⟨vs, m', hm, rfl⟩⟩
        · exact Run.bind_eq_ok.2 ⟨.completed v, n₁, hn₁, hn⟩
        · rw [hafter, hscope]
          rfl
      · right
        refine ⟨err, m', n', ?_, ?_, hrest⟩
        · exact Run.bind_eq_error.2 (.inr ⟨v, m₁, hm₁, Run.bind_eq_error.2 (.inl hm)⟩)
        · exact Run.bind_eq_error.2 (.inr ⟨.completed v, n₁, hn₁, hn⟩)
    · right
      refine ⟨err, m₁, n₁, ?_, ?_, hbeside⟩
      · exact Run.bind_eq_error.2 (.inl hm₁)
      · exact Run.bind_eq_error.2 (.inl hn₁)

/-- Names that are bound to the values of the operands can stand in their place. -/
theorem Eval.expr_withOperands_variables (hcall : PlaysCalls d call) (h : e.Eager call m)
    {vs : List Value} {k : Machine} (hvs : exprs call e.operands m = .ok vs k)
    (hclasses : n.classes = k.classes) (place : String → Pos)
    (hnames : List.Forall₂ (fun name v => (Run.scope n).get? name = some v) names vs)
    (hlength : names.length = e.operands.length) :
    expr call (e.withOperands (Expr.variables place names)) n = finish call e vs n := by
  have hvariables : (Expr.variables place names).length = e.operands.length := by
    rw [Expr.variables, List.length_map, hlength]
  have heager : (e.withOperands (Expr.variables place names)).Eager call n := by
    cases e with
    | arith | compare =>
      obtain ⟨s, t, rfl⟩ := List.length_eq_two.1 hlength
      trivial
    | construct cls args pos =>
      have hkept := ((plays_args hcall args [] (.method 0 "" 0)).extends_of_ok hvs).classes
      change n.classes.contains cls = true
      rw [hclasses, hkept]
      exact h
    | call receiver method args pos =>
      obtain ⟨name, rest, rfl⟩ := List.exists_cons_of_length_eq_add_one hlength
      rw [Expr.operands, exprs] at hvs
      obtain ⟨v, k', hv, hrest⟩ := Run.bind_eq_ok.1 hvs
      obtain ⟨ws, k'', hws, hrest⟩ := Run.bind_eq_ok.1 hrest
      cases hrest
      obtain ⟨r, rfl⟩ := h v k' hv
      obtain ⟨hname, -⟩ := List.forall₂_cons.1 hnames
      intro w k hw
      change expr call (.name [name] (place name)) n = .ok w k at hw
      rw [expr_variable (place name) hname] at hw
      cases hw
      exact ⟨r, rfl⟩
    | literal | name | toText | logic | negation => exact h.elim
  rw [expr_eq_finish hcall heager, Expr.operands_withOperands hvariables,
    Run.bind_of_ok (exprs_variables place hnames), finish_withOperands hvariables]

/-- Operands are evaluated from the left, each once: an expression gives the same if they are given
names first, one after the other. -/
theorem Eval.endsBeside_named (d : Nat) (m : Machine) {e : Expr}
    (h : e.Eager (callIn (callLimit - d)) m) (place place' : String → Pos)
    (hlength : names.length = e.operands.length) (hnodup : names.Nodup)
    (hfree : ∀ name ∈ names, name ∉ e.roots) :
    Machine.EndsBeside names (expr (callIn (callLimit - d)) e m)
      ((do
        let _ ← block (callIn (callLimit - d)) (Stmt.assigns place names e.operands)
        expr (callIn (callLimit - d)) (e.withOperands (Expr.variables place' names))) m) := by
  have hplays : PlaysCalls d (callIn (callLimit - d)) := playsCalls _ rfl
  have hkept := keptBy_same (callLimit - d)
  generalize callIn (callLimit - d) = call at *
  have hroots : ∀ root ∈ Expr.rootsAll e.operands, root ∉ names := by
    rw [Expr.rootsAll_operands h]
    exact fun root hroot hmem => hfree root hmem hroot
  rw [expr_eq_finish hplays h]
  obtain ⟨vs, m', n', hm, hn, hbeside, hvs, hscope⟩ | ⟨err, m', n', hm, hn, hbeside⟩ :=
    block_assigns hkept place (.refl names m) hroots (fun _ hname => hname) hlength
  · have hvalues : names.length = vs.length := hlength.trans hvs.symm
    have hzip : (names.zip vs).map Prod.fst = names := List.map_fst_zip hvalues.le
    have hnames : List.Forall₂ (fun name v => (Run.scope n').get? name = some v) names vs := by
      refine List.forall₂_iff_zip.2 ⟨hvalues, fun {name v} hmem => ?_⟩
      rw [hscope]
      exact Dict.get?_insertAll_of_mem _ (by rwa [hzip]) hmem
    rw [Run.bind_of_ok hm, Run.bind_of_ok hn,
      expr_withOperands_variables hplays h hm hbeside.same.classes place' hnames hlength]
    exact ((Goes.finish hkept e fun _ _ => trivial).joinedOn.endsBeside hbeside).1
  · rw [Run.bind_of_error hm, Run.bind_of_error hn]
    exact .error hbeside

end ClassLang
