import ClassLang.Eval
import ClassLang.Proofs.Eval.Bond

/-!
Every part of a run keeps every bond. The induction is on the tree, given a way to call that keeps
the bond; the ways to call do by induction on the room. Values are told from the machine alone, so
they need no bindings in common; names need them, an expression those that its variables begin with.
-/

namespace ClassLang

open Eval

mutual

/-- The names that the variables of an expression begin with. -/
def Expr.roots : Expr → List String
  | .literal _ _ => []
  | .name path _ => path.take 1
  | .call receiver _ args _ => receiver.roots ++ Expr.rootsAll args
  | .toText operand _ => operand.roots
  | .arith _ left right _ => left.roots ++ right.roots
  | .logic _ left right _ => left.roots ++ right.roots
  | .negation operand _ => operand.roots
  | .compare _ left right _ => left.roots ++ right.roots
  | .construct _ args _ => Expr.rootsAll args
termination_by structural e => e

/-- The names that the variables of expressions begin with. -/
def Expr.rootsAll : List Expr → List String
  | [] => []
  | e :: es => e.roots ++ Expr.rootsAll es
termination_by structural es => es

end

/-- Holds of a way to call that keeps a bond. -/
def Bond.KeptBy (B : Bond) (call : Call) : Prop :=
  ∀ r name args line, B.holds (.object r) → (∀ v ∈ args, B.holds v) →
    Goes B.lenient B.core Calm B.holds (call r name args line)

variable {B : Bond} {call : Call}

theorem Bond.holds_bool (b : Bool) : B.holds (.bool b) := B.plain nofun

theorem Bond.holds_none : B.holds .none := B.plain nofun

theorem Bond.holds_cls (name : String) : B.holds (.cls name) := B.plain nofun

theorem Bond.holds_string (s : String) : B.holds (.string s) := B.plain nofun

namespace Goes

/-! Values -/

theorem inRange (i : Int) (line : Nat) : Goes B.lenient B.core Calm B.holds (Eval.inRange i line) := by
  unfold Eval.inRange
  cases Number.ofInt? i with
  | some a => exact pure (B.plain nofun)
  | none => exact fail _ _

theorem arithNumbers (op : ArithOp) (a b : Int64) (line : Nat) :
    Goes B.lenient B.core Calm B.holds (Eval.arithNumbers op a b line) := by
  cases op with
  | add | sub | mul => exact inRange _ _
  | div =>
    unfold Eval.arithNumbers
    simp only []
    split
    · exact fail _ _
    · exact inRange _ _

theorem arith (hcall : B.KeptBy call) (op : ArithOp) {left right : Value} (hl : B.holds left)
    (hr : B.holds right) (line : Nat) :
    Goes B.lenient B.core Calm B.holds (Eval.arith call op left right line) := by
  unfold Eval.arith
  split
  · exact arithNumbers _ _ _ _
  · split
    · exact pure (B.plain nofun)
    · exact fail _ _
  · refine bind (classOf _) fun c _ => ?_
    split
    · exact hcall _ _ _ _ hl (by simpa using hr)
    · exact fail _ _
  · exact fail _ _

theorem equal (hcall : B.KeptBy call) {left right : Value} (hl : B.holds left)
    (hr : B.holds right) (line : Nat) :
    Goes B.lenient B.core Calm (fun _ => True) (Eval.equal call left right line) := by
  unfold Eval.equal
  split
  · exact pure trivial
  · exact pure trivial
  · exact pure trivial
  · exact pure trivial
  · refine bind (classOf _) fun c _ => ?_
    split
    · exact bind (hcall _ _ _ _ hl (by simpa using hr)) fun _ _ => pure trivial
    · exact fail _ _
  · exact fail _ _

theorem less (hcall : B.KeptBy call) {left right : Value} (hl : B.holds left)
    (hr : B.holds right) (line : Nat) :
    Goes B.lenient B.core Calm (fun _ => True) (Eval.less call left right line) := by
  unfold Eval.less
  split
  · exact pure trivial
  · exact pure trivial
  · exact pure trivial
  · refine bind (classOf _) fun c _ => ?_
    split
    · exact bind (hcall _ _ _ _ hl (by simpa using hr)) fun _ _ => pure trivial
    · exact fail _ _
  · exact fail _ _

theorem compare (hcall : B.KeptBy call) (op : Comparison) {left right : Value}
    (hl : B.holds left) (hr : B.holds right) (line : Nat) :
    Goes B.lenient B.core Calm (fun _ => True) (Eval.compare call op left right line) := by
  have notEqual : Goes B.lenient B.core Calm (fun _ => True) (Eval.notEqual call left right line) :=
    bind (equal hcall hl hr line) fun _ _ => pure trivial
  have greaterOrEqual :
      Goes B.lenient B.core Calm (fun _ => True) (Eval.greaterOrEqual call left right line) :=
    bind (less hcall hl hr line) fun _ _ => pure trivial
  have greater : Goes B.lenient B.core Calm (fun _ => True) (Eval.greater call left right line) := by
    refine bind greaterOrEqual fun b _ => ?_
    cases b with
    | true => exact notEqual
    | false => exact pure trivial
  cases op with
  | equal => exact equal hcall hl hr line
  | notEqual => exact notEqual
  | less => exact less hcall hl hr line
  | greater => exact greater
  | lessOrEqual => exact bind greater fun _ _ => pure trivial
  | greaterOrEqual => exact greaterOrEqual

theorem renderIn (hcall : B.KeptBy call) (line steps : Nat) {v : Value} (hv : B.holds v) :
    Goes B.lenient B.core Calm (fun _ => True) (Eval.renderIn call line steps v) := by
  induction steps generalizing v with
  | zero => exact fail _ _
  | succ steps ih =>
    cases v with
    | object r =>
      refine bind (classOf r) fun c _ => ?_
      split
      · exact bind (hcall _ _ _ _ hv nofun) fun w hw => ih hw
      · exact display _
    | _ => exact display _

theorem render (hcall : B.KeptBy call) {v : Value} (hv : B.holds v) (line : Nat) :
    Goes B.lenient B.core Calm (fun _ => True) (Eval.render call v line) :=
  renderIn hcall line callLimit hv

theorem field {v : Value} (hv : B.holds v) (name : String) (line : Nat) :
    Goes B.lenient B.core Calm B.holds (Eval.field v name line) := by
  cases v with
  | object r =>
    refine get fun m n hr => ⟨by rw [B.heap hr], ?_⟩
    dsimp only
    cases hw : (m.heap.get r).fields.get? name with
    | some w => exact pure (B.field hr hv hw)
    | none => exact fail _ _
  | _ => exact fail _ _

theorem fields (line : Nat) {v : Value} (hv : B.holds v) (names : List String) :
    Goes B.lenient B.core Calm B.holds (Eval.fields line v names) := by
  induction names generalizing v with
  | nil => exact pure hv
  | cons name names ih => exact bind (field hv name line) fun w hw => ih hw

theorem path {P : String → Prop} (line : Nat) {names : List String}
    (h : ∀ root ∈ names.take 1, P root) :
    Goes B.lenient (B.JoinedOn P) Calm B.holds (Eval.path line names) := by
  cases names with
  | nil => exact fail _ _
  | cons root names =>
    have hroot : P root := h root List.mem_cons_self
    refine get fun m n hr => ⟨by rw [hr.scope hroot], ?_⟩
    cases hv : (Run.scope m).get? root with
    | some v => exact (fields line (hr.bound hroot hv) names).joinedOn
    | none => exact fail _ _

/-! Expressions -/

section

variable {P : String → Prop}

theorem construct {args : List Expr} (hcall : B.KeptBy call) (name : String) (pos : Pos)
    (hargs : Goes B.lenient (B.JoinedOn P) Calm (fun vs => ∀ v ∈ vs, B.holds v)
      (Eval.exprs call args)) :
    Goes B.lenient (B.JoinedOn P) Calm B.holds (Eval.expr call (.construct name args pos)) := by
  refine get fun m n hr => ⟨by rw [B.classes hr.core], ?_⟩
  cases m.classes.get? name with
  | none => exact fail _ _
  | some c =>
    refine bind hargs fun vs hvs => bind (newObject c).joinedOn fun r hobject =>
      bind_unit (log _ _ _ _ _).joinedOn ?_
    split
    · exact bind (hcall _ _ _ _ hobject hvs).joinedOn fun _ _ => pure hobject
    · exact pure hobject

mutual

/-- An expression needs the bindings of the names that its variables begin with, and no others. -/
theorem exprOn (hcall : B.KeptBy call) : (e : Expr) → (∀ root ∈ e.roots, P root) →
    Goes B.lenient (B.JoinedOn P) Calm B.holds (Eval.expr call e)
  | .literal l _, _ => pure (B.plain (by cases l <;> exact nofun))
  | .name names pos, h => path pos.line h
  | .call receiver _ args _, h => by
    obtain ⟨hreceiver, hargs⟩ := List.forall_mem_append.1 h
    refine bind (exprOn hcall receiver hreceiver) fun v hv => ?_
    cases v with
    | object r =>
      exact bind (exprsOn hcall args hargs) fun vs hvs => (hcall r _ _ _ hv hvs).joinedOn
    | _ => exact fail _ _
  | .toText operand _, h =>
    bind (exprOn hcall operand h) fun v hv =>
      bind (render hcall hv _).joinedOn fun _ _ => pure (B.holds_string _)
  | .arith op left right _, h =>
    bind (exprOn hcall left (List.forall_mem_append.1 h).1) fun a ha =>
      bind (exprOn hcall right (List.forall_mem_append.1 h).2) fun b hb =>
        (arith hcall op ha hb _).joinedOn
  | .logic .or left right _, h => by
    obtain ⟨hleft, hright⟩ := List.forall_mem_append.1 h
    refine bind (exprOn hcall left hleft) fun a _ => ?_
    split
    · exact pure (B.holds_bool _)
    · exact bind (exprOn hcall right hright) fun _ _ => pure (B.holds_bool _)
  | .logic .and left right _, h => by
    obtain ⟨hleft, hright⟩ := List.forall_mem_append.1 h
    refine bind (exprOn hcall left hleft) fun a _ => ?_
    split
    · exact bind (exprOn hcall right hright) fun _ _ => pure (B.holds_bool _)
    · exact pure (B.holds_bool _)
  | .negation operand _, h =>
    bind (exprOn hcall operand h) fun _ _ => pure (B.holds_bool _)
  | .compare op left right _, h =>
    bind (exprOn hcall left (List.forall_mem_append.1 h).1) fun a ha =>
      bind (exprOn hcall right (List.forall_mem_append.1 h).2) fun b hb =>
        bind (compare hcall op ha hb _).joinedOn fun _ _ => pure (B.holds_bool _)
  | .construct name args pos, h => construct hcall name pos (exprsOn hcall args h)

theorem exprsOn (hcall : B.KeptBy call) : (es : List Expr) →
    (∀ root ∈ Expr.rootsAll es, P root) →
    Goes B.lenient (B.JoinedOn P) Calm (fun vs => ∀ v ∈ vs, B.holds v) (Eval.exprs call es)
  | [], _ => pure nofun
  | e :: es, h =>
    bind (exprOn hcall e (List.forall_mem_append.1 h).1) fun _ hv =>
      bind (exprsOn hcall es (List.forall_mem_append.1 h).2) fun _ hvs =>
        pure (List.forall_mem_cons.2 ⟨hv, hvs⟩)

end

end

theorem expr (hcall : B.KeptBy call) (e : Expr) :
    Goes B.lenient B.Joined Calm B.holds (Eval.expr call e) :=
  joined_of_on (exprOn hcall e fun _ hroot => hroot)

theorem printOne (hcall : B.KeptBy call) (line : Nat) (e : Expr) :
    Goes B.lenient B.Joined Calm B.holds (Eval.printOne call line e) :=
  bind (expr hcall e) fun _ hv => bind (render hcall hv line).joined fun text _ =>
    bind_unit (emit text line).joined (pure hv)

theorem printMore (hcall : B.KeptBy call) (line : Nat) (es : List Expr) :
    Goes B.lenient B.Joined Calm (fun _ => True) (Eval.printMore call line es) := by
  induction es with
  | nil => exact pure trivial
  | cons e es ih =>
    exact bind_unit (emit " " line).joined (bind (printOne hcall line e) fun _ _ => ih)

theorem print (hcall : B.KeptBy call) (line : Nat) (es : List Expr) :
    Goes B.lenient B.Joined Calm B.holds (Eval.print call line es) := by
  cases es with
  | nil => exact bind_unit (emit _ _).joined (pure B.holds_none)
  | cons e es =>
    exact bind (printOne hcall line e) fun _ hv => bind_unit (printMore hcall line es)
      (bind_unit (emit _ _).joined (pure hv))

theorem assignField {target v : Value} (ht : B.holds target) (hv : B.holds v) (name : String)
    (line : Nat) : Goes B.lenient B.core Calm (fun _ => True) (Eval.assignField target name v line) := by
  cases target with
  | object r => exact bind_unit (setField ht hv name) (traceValue _ _)
  | _ => exact fail _ _

/-! Statements -/

theorem defineClass (c : Class) (line : Nat) :
    Goes B.lenient B.Joined Local B.holds (Eval.defineClass c line) :=
  bind_unit (log _ _ _ _ _).joined.toLocal
    (bind_unit (define (B.holds_cls c.name) c.name) (pure (B.holds_cls c.name)))

mutual

theorem stmt (hcall : B.KeptBy call) :
    (s : Stmt) → Goes B.lenient B.Joined Local (fun o => B.holds o.value) (Eval.stmt call s)
  | .assign _ value _ =>
    bind_unit (trace _).joined.toLocal <| bind (expr hcall value).toLocal fun v hv =>
      bind_unit (traceValue _ _).joined.toLocal <| bind_unit (define hv _) (pure hv)
  | .assignField object _ value _ =>
    bind_unit (trace _).joined.toLocal <| bind (expr hcall object).toLocal fun target ht =>
      bind (expr hcall value).toLocal fun v hv =>
        bind_unit (assignField ht hv _ _).joined.toLocal (pure hv)
  | .print args pos =>
    bind_unit (trace _).joined.toLocal <| bind (print hcall pos.line args).toLocal fun _ hv =>
      pure hv
  | .classDef c pos =>
    bind_unit (trace _).joined.toLocal <| bind (defineClass c pos.line) fun _ hv => pure hv
  | .branch condition yes no _ => by
    refine bind_unit (trace _).joined.toLocal <| bind (expr hcall condition).toLocal fun v _ =>
      bind_unit (traceValue _ _).joined.toLocal ?_
    split
    · exact stmt hcall yes
    · exact otherwise hcall _ no
  | .block body _ => deeper (block hcall body)
  | .give value _ =>
    bind_unit (trace _).joined.toLocal <| bind (expr hcall value).toLocal fun v hv =>
      bind_unit (traceValue _ _).joined.toLocal (pure hv)
  | .methodBody body _ => by
    refine bind (stmt hcall body) fun o ho => ?_
    cases o with
    | returning v => exact pure ho
    | completed v => exact pure B.holds_none
  | .expr value _ =>
    bind_unit (trace _).joined.toLocal <| bind (expr hcall value).toLocal fun v hv =>
      bind_unit (traceValue _ _).joined.toLocal (pure hv)

theorem otherwise (hcall : B.KeptBy call) (line : Nat) :
    (s : Option Stmt) →
      Goes B.lenient B.Joined Local (fun o => B.holds o.value) (Eval.otherwise call line s)
  | none => pure B.holds_none
  | some s => bind_unit (trace _).joined.toLocal (stmt hcall s)

theorem block (hcall : B.KeptBy call) :
    (ss : List Stmt) → Goes B.lenient B.Joined Local (fun o => B.holds o.value) (Eval.block call ss)
  | [] => pure B.holds_none
  | s :: ss => by
    refine bind (stmt hcall s) fun o ho => ?_
    cases o with
    | completed v => exact block hcall ss
    | returning v => exact pure ho

end

end Goes

/-! Calls -/

theorem Bond.holds_of_get?_insertAll {l : List (String × Value)} (hl : ∀ e ∈ l, B.holds e.2)
    {env : Env} (henv : ∀ name v, env.get? name = some v → B.holds v) (name : String) (v : Value)
    (hv : (env.insertAll l).get? name = some v) : B.holds v := by
  induction l generalizing env with
  | nil => exact henv name v hv
  | cons e l ih =>
    obtain ⟨he, hl⟩ := List.forall_mem_cons.1 hl
    refine ih hl (fun k w hw => ?_) hv
    rw [Dict.get?_insert] at hw
    split at hw
    · cases hw
      exact he
    · exact henv k w hw

/-- A call sees its receiver and its arguments only. -/
theorem Bond.holds_of_get?_frame {r : Ref} {args : List Value} (hr : B.holds (.object r))
    (hargs : ∀ v ∈ args, B.holds v) (params : List String) (name : String) (v : Value)
    (hv : (Eval.frame r params args).get? name = some v) : B.holds v := by
  refine B.holds_of_get?_insertAll (fun e he => ?_) (fun k w hw => ?_) name v hv
  · exact hargs _ (List.of_mem_zip he).2
  · rw [Dict.get?_insert] at hw
    split at hw
    · cases hw
      exact hr
    · cases hw

/-- Calls keep every bond, whatever room is left for further ones. -/
theorem Bond.keptBy_callIn (B : Bond) (room : Nat) : B.KeptBy (Eval.callIn room) := by
  induction room with
  | zero =>
    intro r name args line hr hargs
    unfold Eval.callIn
    refine Goes.bind (Goes.classOf r) fun c _ => ?_
    split
    · exact Goes.fail _ _
    · split
      · exact Goes.fail _ _
      · exact Goes.fail _ _
  | succ room ih =>
    intro r name args line hr hargs
    unfold Eval.callIn
    refine Goes.bind (Goes.classOf r) fun c _ => ?_
    split
    · exact Goes.fail _ _
    · rename_i x _
      split
      · exact Goes.bind_unit (Goes.log _ _ _ _ _) <| Goes.bind_unit (Goes.trace _) <|
          Goes.bind (Goes.inFrame (Goes.stmt ih x.body) (B.holds_of_get?_frame hr hargs _))
            fun _ ho => Goes.pure ho
      · exact Goes.fail _ _

/-! Programs -/

namespace Goes

/-- A failure at the top level is logged, which the bond does not see. -/
theorem runOne (s : Stmt) :
    Goes B.lenient B.Joined Local (fun o => B.holds o.value) (Machine.runOne s) := by
  intro m n hr
  have hstmt := stmt (B.keptBy_callIn callLimit) s m n hr
  have logged {e : Error} {m m' : Machine} (h : Local m m') : Local m (Machine.logAborted e m') :=
    ⟨h.scope, h.active, h.outer, h.globals, (Watch.depth_record _ _ _ _ _ _ _).trans h.depth⟩
  unfold Machine.runOne
  revert hstmt
  change Paired _ _ _ _ m n (Eval.stmt Eval.callMethod s m) (Eval.stmt Eval.callMethod s n) → _
  generalize Eval.stmt Eval.callMethod s m = r
  generalize Eval.stmt Eval.callMethod s n = r'
  intro hstmt
  cases hstmt with
  | ok ho hr' hm hn => exact .ok ho hr' hm hn
  | error hr' hm hn =>
    refine .error ⟨?_, hr'.scope, hr'.bound⟩ (logged hm) (logged hn)
    exact B.blind hr'.core ⟨rfl, rfl, rfl⟩ ⟨rfl, rfl, rfl⟩
  | refused hl hrefused =>
    refine .refused hl ?_
    obtain ⟨reason, line, k, rfl⟩ | ⟨reason, line, k, rfl⟩ := hrefused
    · exact .inl ⟨reason, line, _, rfl⟩
    · exact .inr ⟨reason, line, _, rfl⟩

theorem runAll {last : Value} (hlast : B.holds last) (ss : List Stmt) :
    Goes B.lenient B.Joined Local B.holds (Machine.runAll last ss) := by
  induction ss generalizing last with
  | nil => exact pure hlast
  | cons s ss ih =>
    refine bind (runOne s) fun o ho => ?_
    cases o with
    | completed v => exact ih ho
    | returning v => exact fail _ _

end Goes

end ClassLang
