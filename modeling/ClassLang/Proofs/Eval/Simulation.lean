import ClassLang.Eval
import ClassLang.Proofs.Eval.Alike

/-!
A tree and the same tree with other places run alike. The induction is on the tree, given ways to
call that go alike; ways to call with more room go alike by induction on the room.
-/

namespace ClassLang

open Eval

variable {S : Setting} {call call' : Call} {line line' : Nat}

/-- Holds of two ways to call that go alike. -/
def CallsAlike (S : Setting) (call call' : Call) : Prop :=
  ∀ r name args line line', Sim S Eq (call r name args line) (call' r name args line')

namespace Sim

/-! Values -/

theorem inRange (i : Int) : Sim S Eq (inRange i line) (Eval.inRange i line') := by
  unfold Eval.inRange
  cases Number.ofInt? i with
  | some a => exact pure rfl
  | none => exact fail (.of_ne rfl nofun nofun)

theorem badOperands (op : ArithOp) (left right : Value) :
    Sim S Eq (Eval.badOperands op left right line) (Eval.badOperands op left right line') :=
  fail ⟨rfl, fun _ h => (by cases h), nofun, fun _ _ h => (by cases h)⟩

theorem arithNumbers (op : ArithOp) (a b : Int64) :
    Sim S Eq (Eval.arithNumbers op a b line) (Eval.arithNumbers op a b line') := by
  cases op with
  | add | sub | mul => exact inRange _
  | div =>
    unfold Eval.arithNumbers
    simp only []
    split
    · exact fail (.of_ne rfl nofun nofun)
    · exact inRange _

theorem arith (hcall : CallsAlike S call call') (op : ArithOp) (left right : Value) :
    Sim S Eq (Eval.arith call op left right line) (Eval.arith call' op left right line') := by
  cases left with
  | number a =>
    cases right with
    | number b => exact arithNumbers op a b
    | _ => exact badOperands op _ _
  | string a =>
    cases right with
    | string b =>
      unfold Eval.arith
      simp only []
      split
      · exact pure rfl
      · exact badOperands op _ _
    | _ => exact badOperands op _ _
  | object r =>
    unfold Eval.arith
    simp only []
    refine bind (classOf r) ?_
    rintro c d ⟨rfl, -⟩
    rw [Class.hasMethod_relocate]
    split
    · exact hcall r _ _ _ _
    · exact badOperands op _ _
  | _ => cases right <;> exact badOperands op _ _

theorem equal (hcall : CallsAlike S call call') (left right : Value) :
    Sim S Eq (Eval.equal call left right line) (Eval.equal call' left right line') := by
  have refused : Sim S Eq
      (Run.fail (.typeMismatch (.equality left.typeName right.typeName)) line : Run Bool)
      (Run.fail (.typeMismatch (.equality left.typeName right.typeName)) line') :=
    fail ⟨rfl, fun _ h => (by cases h), nofun, fun _ _ h => (by cases h)⟩
  cases left with
  | object r =>
    cases right with
    | object s =>
      unfold Eval.equal
      simp only []
      refine bind (classOf r) ?_
      rintro c d ⟨rfl, -⟩
      rw [Class.hasMethod_relocate]
      split
      · exact bind_eq (hcall r _ _ _ _) fun v => pure rfl
      · exact refused
    | _ => exact refused
  | none => cases right <;> first | exact refused | exact pure rfl
  | bool a => cases right <;> first | exact refused | exact pure rfl
  | number a => cases right <;> first | exact refused | exact pure rfl
  | string a => cases right <;> first | exact refused | exact pure rfl
  | cls a => cases right <;> exact refused

theorem less (hcall : CallsAlike S call call') (left right : Value) :
    Sim S Eq (Eval.less call left right line) (Eval.less call' left right line') := by
  have refused : Sim S Eq
      (Run.fail (.typeMismatch (.ordering left.typeName right.typeName)) line : Run Bool)
      (Run.fail (.typeMismatch (.ordering left.typeName right.typeName)) line') :=
    fail ⟨rfl, fun _ h => (by cases h), nofun, fun _ _ h => (by cases h)⟩
  cases left with
  | object r =>
    unfold Eval.less
    simp only []
    refine bind (classOf r) ?_
    rintro c d ⟨rfl, -⟩
    rw [Class.hasMethod_relocate]
    split
    · exact bind_eq (hcall r _ _ _ _) fun v => pure rfl
    · exact refused
  | bool a => cases right <;> first | exact refused | exact pure rfl
  | number a => cases right <;> first | exact refused | exact pure rfl
  | string a => cases right <;> first | exact refused | exact pure rfl
  | none => cases right <;> exact refused
  | cls a => cases right <;> exact refused

theorem compare (hcall : CallsAlike S call call') (op : Comparison) (left right : Value) :
    Sim S Eq (Eval.compare call op left right line)
      (Eval.compare call' op left right line') := by
  have notEqual : Sim S Eq (Eval.notEqual call left right line)
      (Eval.notEqual call' left right line') :=
    bind_eq (equal hcall left right) fun _ => pure rfl
  have greaterOrEqual : Sim S Eq (Eval.greaterOrEqual call left right line)
      (Eval.greaterOrEqual call' left right line') :=
    bind_eq (less hcall left right) fun _ => pure rfl
  have greater : Sim S Eq (Eval.greater call left right line)
      (Eval.greater call' left right line') := by
    refine bind_eq greaterOrEqual fun b => ?_
    cases b with
    | true => exact notEqual
    | false => exact pure rfl
  cases op with
  | equal => exact equal hcall left right
  | notEqual => exact notEqual
  | less => exact less hcall left right
  | greater => exact greater
  | lessOrEqual => exact bind_eq greater fun _ => pure rfl
  | greaterOrEqual => exact greaterOrEqual

theorem renderIn (hcall : CallsAlike S call call') (k : Nat) (v : Value) :
    Sim S Eq (Eval.renderIn call line k v) (Eval.renderIn call' line' k v) := by
  induction k generalizing v with
  | zero => exact fail (.of_ne rfl nofun nofun)
  | succ k ih =>
    cases v with
    | object r =>
      refine bind (classOf r) ?_
      rintro c d ⟨rfl, -⟩
      rw [Class.hasMethod_relocate]
      split
      · exact bind_eq (hcall r _ _ _ _) fun v => ih v
      · exact display _
    | _ => exact display _

theorem render (hcall : CallsAlike S call call') (v : Value) :
    Sim S Eq (Eval.render call v line) (Eval.render call' v line') :=
  renderIn hcall callLimit v

theorem field (v : Value) (name : String) :
    Sim S Eq (Eval.field v name line) (Eval.field v name line') := by
  cases v with
  | object r =>
    refine bind get fun m n hm => ?_
    simp only [hm.get_heap, Class.name_relocate]
    cases (m.heap.get r).fields.get? name with
    | some w => exact pure rfl
    | none => exact fail (.of_ne rfl nofun nofun)
  | _ => exact fail (.of_ne rfl nofun nofun)

theorem fields (v : Value) (names : List String) :
    Sim S Eq (Eval.fields line v names) (Eval.fields line' v names) := by
  induction names generalizing v with
  | nil => exact pure rfl
  | cons name names ih => exact bind_eq (field v name) ih

end Sim

theorem IsName.ne_empty {name : String} (h : IsName name) : name ≠ "" := by
  rintro rfl
  exact absurd h.1 (by decide)

namespace Sim

theorem path {names : List String} (hne : names ≠ []) (hnames : ∀ name ∈ names, IsName name) :
    Sim S Eq (Eval.path line names) (Eval.path line' names) := by
  cases names with
  | nil => exact absurd rfl hne
  | cons root names =>
    have hroot := (hnames root List.mem_cons_self).ne_empty
    refine bind get fun m n hm => ?_
    rw [hm.scope]
    cases (Run.scope m).get? root with
    | some v => exact fields v names
    | none => exact fail (.of_ne rfl nofun fun h => hroot (by cases h; rfl))

/-! Expressions -/

theorem construct {args args' : List Expr} (hcall : CallsAlike S call call') {name : String}
    (hname : S.known name = true) {pos pos' : Pos}
    (hargs : Sim S Eq (exprs call args) (exprs call' args')) :
    Sim S Eq (expr call (.construct name args pos))
      (expr call' (.construct name args' pos')) := by
  refine bind get fun m n hm => ?_
  obtain ⟨c, hc, hd, hadmitted⟩ := S.agree hname
  rw [hm.left, hm.right, hc, hd]
  refine bind_eq hargs fun vs => bind_eq (newObject hadmitted) fun r => bind_unit (log _ _ _ _ _ _ _) ?_
  simp only [Class.hasMethod_relocate]
  split
  · exact bind_eq (hcall r _ _ _ _) fun _ => pure rfl
  · exact pure rfl

mutual

theorem expr (hcall : CallsAlike S call call') (f : Pos → Pos) :
    (e : Expr) → e.Admitted S.known →
      Sim S Eq (Eval.expr call e) (Eval.expr call' (e.relocate f))
  | .literal _ _, _ => pure rfl
  | .name _ _, ⟨hne, hnames⟩ => path hne hnames
  | .call receiver _ args _, ⟨hr, _, ha⟩ => by
    refine bind_eq (expr hcall f receiver hr) fun v => ?_
    cases v with
    | object r => exact bind_eq (exprs hcall f args ha) fun vs => hcall r _ _ _ _
    | _ => exact fail (.of_ne rfl nofun nofun)
  | .toText operand _, he =>
    bind_eq (expr hcall f operand he) fun v => bind_eq (render hcall v) fun _ => pure rfl
  | .arith op left right _, ⟨hl, hr⟩ =>
    bind_eq (expr hcall f left hl) fun a => bind_eq (expr hcall f right hr) fun b =>
      arith hcall op a b
  | .logic .or left right _, ⟨hl, hr⟩ => by
    refine bind_eq (expr hcall f left hl) fun a => ?_
    split
    · exact pure rfl
    · exact bind_eq (expr hcall f right hr) fun _ => pure rfl
  | .logic .and left right _, ⟨hl, hr⟩ => by
    refine bind_eq (expr hcall f left hl) fun a => ?_
    split
    · exact bind_eq (expr hcall f right hr) fun _ => pure rfl
    · exact pure rfl
  | .negation operand _, he => bind_eq (expr hcall f operand he) fun _ => pure rfl
  | .compare op left right _, ⟨hl, hr⟩ =>
    bind_eq (expr hcall f left hl) fun a => bind_eq (expr hcall f right hr) fun b =>
      bind_eq (compare hcall op a b) fun _ => pure rfl
  | .construct _ args _, ⟨_, _, hname, ha⟩ => construct hcall hname (exprs hcall f args ha)

theorem exprs (hcall : CallsAlike S call call') (f : Pos → Pos) :
    (es : List Expr) → Expr.AdmittedAll S.known es →
      Sim S Eq (Eval.exprs call es) (Eval.exprs call' (Expr.relocateAll f es))
  | [], _ => pure rfl
  | e :: es, ⟨he, hes⟩ =>
    bind_eq (expr hcall f e he) fun _ => bind_eq (exprs hcall f es hes) fun _ => pure rfl

end

theorem printOne (hcall : CallsAlike S call call') (f : Pos → Pos) {e : Expr}
    (he : e.Admitted S.known) :
    Sim S Eq (Eval.printOne call line e) (Eval.printOne call' line' (e.relocate f)) :=
  bind_eq (expr hcall f e he) fun v => bind_eq (render hcall v) fun text =>
    bind_unit (emit text _ _) (pure rfl)

theorem printMore (hcall : CallsAlike S call call') (f : Pos → Pos) {es : List Expr}
    (hes : Expr.AdmittedAll S.known es) :
    Sim S Eq (Eval.printMore call line es)
      (Eval.printMore call' line' (Expr.relocateAll f es)) := by
  induction es with
  | nil => exact pure rfl
  | cons e es ih =>
    exact bind_unit (emit " " _ _) (bind_eq (printOne hcall f hes.1) fun _ => ih hes.2)

theorem print (hcall : CallsAlike S call call') (f : Pos → Pos) {es : List Expr}
    (hes : Expr.AdmittedAll S.known es) :
    Sim S Eq (Eval.print call line es) (Eval.print call' line' (Expr.relocateAll f es)) := by
  cases es with
  | nil => exact bind_unit (emit _ _ _) (pure rfl)
  | cons e es =>
    exact bind_eq (printOne hcall f hes.1) fun v => bind_unit (printMore hcall f hes.2)
      (bind_unit (emit _ _ _) (pure rfl))

theorem assignField (target : Value) {name : String} (hname : IsName name) (v : Value) :
    Sim S Eq (Eval.assignField target name v line)
      (Eval.assignField target name v line') := by
  cases target with
  | object r => exact bind_unit (setField r name v) (traceValue _ _ _ _)
  | _ =>
    exact fail ⟨rfl, fun _ h => (by cases h), nofun, fun _ _ h => (by cases h; exact hname)⟩

theorem defineClass (c : Class) (m : Relocation) :
    Sim S Eq (Eval.defineClass c line) (Eval.defineClass (c.relocate m) line') := by
  unfold Eval.defineClass
  rw [Class.name_relocate]
  exact bind_unit (log _ _ _ _ _ _ _) (bind_unit (define _ _) (pure rfl))

end Sim

/-! Statements -/

/-- Holds of one outcome twice, which is a return inside a method only. -/
def Returns (inMethod : Bool) (o o' : Outcome) : Prop :=
  o = o' ∧ (inMethod = false → ∃ v, o = .completed v)

theorem returns_completed {inMethod : Bool} (v : Value) :
    Returns inMethod (.completed v) (.completed v) := ⟨rfl, fun _ => ⟨v, rfl⟩⟩

namespace Sim

/-- A part that gives a value is followed by its completion. -/
theorem completed {inMethod : Bool} {x y : Run Value} (h : Sim S Eq x y) :
    Sim S (Returns inMethod) (x >>= fun v => Pure.pure (.completed v))
      (y >>= fun v => Pure.pure (.completed v)) :=
  bind_eq h fun v => pure (returns_completed v)

mutual

theorem stmt (hcall : CallsAlike S call call') (m : Relocation) {inMethod : Bool} :
    (s : Stmt) → s.Admitted S.known inMethod →
      Sim S (Returns inMethod) (Eval.stmt call s) (Eval.stmt call' (s.relocate m))
  | .assign _ value _, ⟨_, hv⟩ =>
    bind_unit (trace _ _) <| bind_eq (expr hcall m.place value hv) fun v =>
      bind_unit (traceValue _ _ _ _) <| bind_unit (define _ v) <| pure (returns_completed v)
  | .assignField object _ value _, ⟨_, ho, hf, hv⟩ =>
    bind_unit (trace _ _) <| bind_eq (expr hcall m.place object ho) fun target =>
      bind_eq (expr hcall m.place value hv) fun v =>
        bind_unit (assignField target hf v) <| pure (returns_completed v)
  | .print _ _, ha => bind_unit (trace _ _) <| completed (print hcall m.place ha)
  | .branch condition yes no _, ⟨hc, hyes, hno⟩ => by
    refine bind_unit (trace _ _) <| bind_eq (expr hcall m.place condition hc) fun v =>
      bind_unit (traceValue _ _ _ _) ?_
    split
    · exact suite hcall m yes hyes
    · exact otherwise hcall m no hno _ _
  | .give value _, ⟨hin, hv⟩ =>
    bind_unit (trace _ _) <| bind_eq (expr hcall m.place value hv) fun v =>
      bind_unit (traceValue _ _ _ _) <|
        pure ⟨rfl, fun hout => (by rw [hin] at hout; cases hout)⟩
  | .expr value _, hv =>
    bind_unit (trace _ _) <| bind_eq (expr hcall m.place value hv) fun v =>
      bind_unit (traceValue _ _ _ _) <| pure (returns_completed v)

theorem suite (hcall : CallsAlike S call call') (m : Relocation) {inMethod : Bool} :
    (s : Stmt) → s.AdmittedSuite S.known inMethod →
      Sim S (Returns inMethod) (Eval.stmt call s) (Eval.stmt call' (s.relocate m))
  | .block body _, ⟨_, hbody⟩ => deeper (block hcall m body hbody)

theorem otherwise (hcall : CallsAlike S call call') (m : Relocation) {inMethod : Bool} :
    (s : Option Stmt) → Stmt.AdmittedElse S.known inMethod s → ∀ k k',
      Sim S (Returns inMethod) (Eval.otherwise call k s)
        (Eval.otherwise call' k' (Stmt.relocateElse m s))
  | none, _, _, _ => pure (returns_completed .none)
  | some s, hs, _, _ => bind_unit (trace _ _) (suite hcall m s hs)

theorem block (hcall : CallsAlike S call call') (m : Relocation) {inMethod : Bool} :
    (ss : List Stmt) → Stmt.AdmittedAll S.known inMethod ss →
      Sim S (Returns inMethod) (Eval.block call ss)
        (Eval.block call' (Stmt.relocateAll m ss))
  | [], _ => pure (returns_completed .none)
  | s :: ss, ⟨hs, hss⟩ => by
    refine bind (stmt hcall m s hs) ?_
    rintro o o' ⟨rfl, hout⟩
    cases o with
    | completed v => exact block hcall m ss hss
    | returning v => exact pure ⟨rfl, fun hin => hout hin⟩

end

/-- At the top level nothing returns. -/
theorem topStmt (hcall : CallsAlike S call call') (m : Relocation) {s : Stmt}
    (hs : s.AdmittedTop S.known) :
    Sim S (Returns false) (Eval.stmt call s) (Eval.stmt call' (s.relocate m)) := by
  rcases hs with ⟨c, pos, rfl⟩ | hs
  · exact bind_unit (trace _ _) (completed (defineClass c m))
  · exact stmt hcall m s hs

/-- What a method returns is the value of its call. -/
theorem body (hcall : CallsAlike S call call') (m : Relocation) {x : Method}
    (hx : x.Admitted S.known) :
    Sim S Eq (Eval.stmt call x.body) (Eval.stmt call' (x.body.relocate m)) := by
  obtain ⟨body, pos, hbody, hadmitted⟩ := hx.body
  rw [hbody]
  refine bind (suite hcall m body hadmitted) ?_
  rintro o o' ⟨rfl, -⟩
  cases o <;> exact pure rfl

/-! Calls -/

/-- Calls go alike, whatever room is left for further ones. -/
theorem callIn (room : Nat) : CallsAlike S (Eval.callIn room) (Eval.callIn room) := by
  induction room with
  | zero =>
    intro r name args line line'
    unfold Eval.callIn
    refine bind (classOf r) ?_
    rintro c d ⟨rfl, hc⟩
    obtain ⟨k, hk⟩ := c.method?_relocate S.move name
    rw [hk, Class.name_relocate]
    cases c.method? name with
    | none => exact fail (.of_ne rfl nofun nofun)
    | some x =>
      simp only [Option.map_some, Method.arity_relocate]
      split
      · exact fail (.of_ne rfl nofun nofun)
      · exact fail (.of_ne rfl nofun nofun)
  | succ room ih =>
    intro r name args line line'
    unfold Eval.callIn
    refine bind (classOf r) ?_
    rintro c d ⟨rfl, hc⟩
    obtain ⟨k, hk⟩ := c.method?_relocate S.move name
    have hx := hc name
    rw [hk, Class.name_relocate]
    cases hm : c.method? name with
    | none => exact fail (.of_ne rfl nofun nofun)
    | some x =>
      simp only [Option.map_some, Method.arity_relocate, Method.params_relocate,
        Method.body_relocate]
      split
      · exact bind_unit (log _ _ _ _ _ _ _) <| bind_unit (trace _ _) <|
          bind_eq (inFrame _ (body ih k (hx x hm))) fun _ => pure rfl
      · exact fail (.of_ne rfl nofun nofun)

theorem callMethod : CallsAlike S Eval.callMethod Eval.callMethod := callIn callLimit

/-! Programs -/

theorem runOne (m : Relocation) {s : Stmt} (hs : s.AdmittedTop S.known) :
    Sim S (Returns false) (Machine.runOne s) (Machine.runOne (s.relocate m)) := by
  intro a b hab
  have hrun := topStmt (callMethod (S := S)) m hs a b hab
  unfold Machine.runOne
  revert hrun
  generalize Eval.stmt Eval.callMethod s a = r
  generalize Eval.stmt Eval.callMethod (s.relocate m) b = r'
  intro hrun
  cases hrun with
  | ok ho hab' => exact .ok ho hab'
  | error he hab' => exact .error he (hab'.of_watch _ _)

theorem runAll (m : Relocation) (last : Value) {ss : List Stmt}
    (hss : ∀ s ∈ ss, s.AdmittedTop S.known) :
    Sim S Eq (Machine.runAll last ss) (Machine.runAll last (ss.map (·.relocate m))) := by
  induction ss generalizing last with
  | nil => exact pure rfl
  | cons s ss ih =>
    obtain ⟨hs, hss⟩ := List.forall_mem_cons.1 hss
    refine bind (runOne m hs) ?_
    rintro o o' ⟨rfl, hout⟩
    obtain ⟨v, rfl⟩ := hout rfl
    exact ih v hss

end Sim

end ClassLang
