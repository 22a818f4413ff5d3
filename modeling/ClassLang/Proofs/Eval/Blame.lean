import ClassLang.Proofs.Eval.Bond
import ClassLang.Proofs.Eval.Safety
import ClassLang.Proofs.Heap
import ClassLang.Proofs.Tree.OnLines

/-!
The lines at which a run fails. A line is passed on to whatever may fail, through calls, comparisons
and the printing of values, and it is always that of some place in the tree at hand or in a class. So
where all places are on lines with a property, every failure is at such a line. The induction is on
the tree, given a way to call of which this holds; of the ways to call it does by induction on the
room.
-/

namespace ClassLang

open Eval

/-- Holds of machines whose classes, those of the instances included, have all places on lines with a
property. -/
structure Machine.OnLines (P : Nat → Prop) (m : Machine) : Prop where
  classes : ∀ {name c}, Dict.get? m.classes name = some c → c.OnLines P
  heap : ∀ r, (m.heap.get r).cls.OnLines P

/-- Holds of the ends of a part of a run that leave such a machine, and are no failures but at lines
with the property. -/
inductive EndsOnLines {α : Type} (P : Nat → Prop) : EStateM.Result Error Machine α → Prop where
  | ok {a : α} {m : Machine} : m.OnLines P → EndsOnLines P (.ok a m)
  | error {cause : Cause} {line : Nat} {m : Machine} :
      P line → m.OnLines P → EndsOnLines P (.error (.located cause line) m)

/-- Holds of parts of a run that end so from all such machines. -/
def Run.OnLines {α : Type} (P : Nat → Prop) (x : Run α) : Prop :=
  ∀ m : Machine, m.OnLines P → EndsOnLines P (x m)

/-- Holds of ways to call for which a call ends so if its line has the property. -/
def Eval.CallsOnLines (P : Nat → Prop) (call : Call) : Prop :=
  ∀ r name args line, P line → Run.OnLines P (call r name args line)

variable {P : Nat → Prop} {m : Machine}

namespace Machine.OnLines

theorem of_eq {n : Machine} (h : m.OnLines P) (hclasses : n.classes = m.classes)
    (hheap : n.heap = m.heap) : n.OnLines P :=
  ⟨by rw [hclasses]; exact h.classes, by rw [hheap]; exact h.heap⟩

theorem alloc (h : m.OnLines P) {c : Class} (hc : c.OnLines P) :
    Machine.OnLines P { m with heap := m.heap.alloc c } := by
  refine ⟨h.classes, fun r => ?_⟩
  change ((m.heap.alloc c).get r).cls.OnLines P
  rw [Heap.get_alloc]
  split
  · exact hc
  · exact h.heap r

theorem setField (h : m.OnLines P) (r : Ref) (field : String) (v : Value) :
    Machine.OnLines P { m with heap := m.heap.setField r field v } := by
  refine ⟨h.classes, fun s => ?_⟩
  change ((m.heap.setField r field v).get s).cls.OnLines P
  rw [Heap.get_setField]
  split
  · exact h.heap s
  · exact h.heap s

end Machine.OnLines

namespace Run.OnLines

variable {α β : Type} {x : Run α}

theorem pure (a : α) : Run.OnLines P (Pure.pure a : Run α) := fun _ hm => .ok hm

theorem fail (cause : Cause) {line : Nat} (hline : P line) :
    Run.OnLines P (Run.fail cause line : Run α) := fun _ hm => .error hline hm

theorem bind (h : x.OnLines P) {f : α → Run β} (hf : ∀ a, (f a).OnLines P) :
    Run.OnLines P (x >>= f) := by
  intro m hm
  have hx := h m hm
  change EndsOnLines P (EStateM.bind x f m)
  unfold EStateM.bind
  revert hx
  generalize x m = r
  intro hx
  cases hx with
  | ok hn => exact hf _ _ hn
  | error hline hn => exact .error hline hn

theorem get {f : Machine → Run α} (hf : ∀ m : Machine, m.OnLines P → (f m).OnLines P) :
    Run.OnLines P (MonadState.get >>= f) := fun m hm => hf m hm m hm

theorem change {f : Machine → Machine} (hf : ∀ m : Machine, m.OnLines P → (f m).OnLines P) :
    Run.OnLines P (modify f : Run Unit) := fun m hm => .ok (hf m hm)

theorem bracket {enter leave : Machine → Machine} (h : x.OnLines P)
    (henter : ∀ m : Machine, m.OnLines P → (enter m).OnLines P)
    (hleave : ∀ m : Machine, m.OnLines P → (leave m).OnLines P) :
    Run.OnLines P (Run.bracket enter leave x) := by
  intro m hm
  have hx := h _ (henter m hm)
  unfold Run.bracket
  revert hx
  generalize x (enter m) = r
  intro hx
  cases hx with
  | ok hn => exact .ok (hleave _ hn)
  | error hline hn => exact .error hline (hleave _ hn)

/-! The elementary steps -/

theorem watch (f : Heap → Watch → Watch) : Run.OnLines P (Run.watch f) :=
  change fun _ hm => hm.of_eq rfl rfl

theorem trace (text : String) : Run.OnLines P (Run.trace text) := watch _

theorem traceValue (lead : String) (v : Value) : Run.OnLines P (Run.traceValue lead v) := watch _

theorem log (level : Log.Level) (target message : String) (line : Nat)
    (fields : List (String × String)) :
    Run.OnLines P (Run.log level target message line fields) := change fun _ hm => hm.of_eq rfl rfl

theorem emit (text : String) {line : Nat} (hline : P line) :
    Run.OnLines P (Run.emit text line) := by
  intro m hm
  rw [Run.emit_apply]
  split
  · exact .ok (hm.of_eq rfl rfl)
  · exact .error hline hm

theorem define (name : String) (v : Value) : Run.OnLines P (Run.define name v) := by
  refine change fun m hm => ?_
  split
  · exact hm.of_eq rfl rfl
  · exact hm.of_eq rfl rfl

theorem classOf {f : Class → Run α} (r : Ref) (hf : ∀ c, c.OnLines P → (f c).OnLines P) :
    Run.OnLines P (Run.classOf r >>= f) := fun m hm => hf _ (hm.heap r) m hm

theorem display (v : Value) : Run.OnLines P (Run.display v) := get fun _ _ => pure _

theorem newObject {c : Class} (hc : c.OnLines P) : Run.OnLines P (Run.newObject c) :=
  fun _ hm => .ok (hm.alloc hc)

theorem setField (r : Ref) (field : String) (v : Value) :
    Run.OnLines P (Run.setField r field v) := change fun _ hm => hm.setField r field v

theorem deeper (h : x.OnLines P) : Run.OnLines P (Run.deeper x) :=
  h.bracket (fun _ hm => hm.of_eq rfl rfl) fun _ hm => hm.of_eq rfl rfl

theorem inFrame (h : x.OnLines P) (frame : Env) : Run.OnLines P (Run.inFrame frame x) :=
  h.deeper.bracket (fun _ hm => hm.of_eq rfl rfl) fun _ hm => hm.of_eq rfl rfl

/-! Values -/

variable {call : Call} {line : Nat}

theorem inRange (i : Int) (hline : P line) : Run.OnLines P (Eval.inRange i line) := by
  unfold Eval.inRange
  split
  · exact pure _
  · exact fail _ hline

theorem arithNumbers (op : ArithOp) (a b : Int64) (hline : P line) :
    Run.OnLines P (Eval.arithNumbers op a b line) := by
  cases op with
  | add | sub | mul => exact inRange _ hline
  | div =>
    simp only [Eval.arithNumbers]
    split
    · exact fail _ hline
    · exact inRange _ hline

theorem arith (hcall : CallsOnLines P call) (op : ArithOp) (left right : Value) (hline : P line) :
    Run.OnLines P (Eval.arith call op left right line) := by
  unfold Eval.arith
  split
  · exact arithNumbers _ _ _ hline
  · split
    · exact pure _
    · exact fail _ hline
  · refine classOf _ fun c _ => ?_
    split
    · exact hcall _ _ _ _ hline
    · exact fail _ hline
  · exact fail _ hline

theorem equal (hcall : CallsOnLines P call) (left right : Value) (hline : P line) :
    Run.OnLines P (Eval.equal call left right line) := by
  unfold Eval.equal
  split
  case h_5 =>
    refine classOf _ fun c _ => ?_
    split
    · exact (hcall _ _ _ _ hline).bind fun _ => pure _
    · exact fail _ hline
  case h_6 => exact fail _ hline
  all_goals exact pure _

theorem less (hcall : CallsOnLines P call) (left right : Value) (hline : P line) :
    Run.OnLines P (Eval.less call left right line) := by
  unfold Eval.less
  split
  case h_4 =>
    refine classOf _ fun c _ => ?_
    split
    · exact (hcall _ _ _ _ hline).bind fun _ => pure _
    · exact fail _ hline
  case h_5 => exact fail _ hline
  all_goals exact pure _

theorem compare (hcall : CallsOnLines P call) (op : Comparison) (left right : Value)
    (hline : P line) : Run.OnLines P (Eval.compare call op left right line) := by
  have notEqual : Run.OnLines P (Eval.notEqual call left right line) :=
    (equal hcall left right hline).bind fun _ => pure _
  have greaterOrEqual : Run.OnLines P (Eval.greaterOrEqual call left right line) :=
    (less hcall left right hline).bind fun _ => pure _
  have greater : Run.OnLines P (Eval.greater call left right line) := by
    refine greaterOrEqual.bind fun b => ?_
    cases b with
    | true => exact notEqual
    | false => exact pure _
  cases op with
  | equal => exact equal hcall left right hline
  | notEqual => exact notEqual
  | less => exact less hcall left right hline
  | greater => exact greater
  | lessOrEqual => exact greater.bind fun _ => pure _
  | greaterOrEqual => exact greaterOrEqual

theorem renderIn (hcall : CallsOnLines P call) (hline : P line) (steps : Nat) (v : Value) :
    Run.OnLines P (Eval.renderIn call line steps v) := by
  induction steps generalizing v with
  | zero => exact fail _ hline
  | succ steps ih =>
    cases v with
    | object r =>
      refine classOf r fun c _ => ?_
      split
      · exact (hcall _ _ _ _ hline).bind ih
      · exact display _
    | _ => exact display _

theorem render (hcall : CallsOnLines P call) (v : Value) (hline : P line) :
    Run.OnLines P (Eval.render call v line) := renderIn hcall hline callLimit v

theorem field (v : Value) (name : String) (hline : P line) :
    Run.OnLines P (Eval.field v name line) := by
  cases v with
  | object r =>
    refine get fun m _ => ?_
    dsimp only
    split
    · exact pure _
    · exact fail _ hline
  | _ => exact fail _ hline

theorem fields (hline : P line) (v : Value) (names : List String) :
    Run.OnLines P (Eval.fields line v names) := by
  induction names generalizing v with
  | nil => exact pure v
  | cons name names ih => exact (field v name hline).bind ih

theorem path (hline : P line) (names : List String) : Run.OnLines P (Eval.path line names) := by
  cases names with
  | nil => exact fail _ hline
  | cons root names =>
    refine get fun m _ => ?_
    split
    · exact fields hline _ names
    · exact fail _ hline

/-! Expressions -/

theorem construct (hcall : CallsOnLines P call) (name : String) {args : List Expr} {pos : Pos}
    (hline : P pos.line) (hargs : Run.OnLines P (Eval.exprs call args)) :
    Run.OnLines P (Eval.expr call (.construct name args pos)) := by
  refine get fun m hm => ?_
  split
  · exact fail _ hline
  · rename_i c hc
    refine hargs.bind fun vs => (newObject (hm.classes hc)).bind fun r =>
      (log _ _ _ _ _).bind fun _ => ?_
    split
    · exact (hcall _ _ _ _ hline).bind fun _ => pure _
    · exact pure _

mutual

theorem expr (hcall : CallsOnLines P call) :
    (e : Expr) → e.OnLines P → Run.OnLines P (Eval.expr call e)
  | .literal _ _, _ => pure _
  | .name names _, hline => path hline names
  | .call receiver _ args _, ⟨hreceiver, hargs, hline⟩ => by
    refine (expr hcall receiver hreceiver).bind fun v => ?_
    cases v with
    | object r => exact (exprs hcall args hargs).bind fun vs => hcall r _ vs _ hline
    | _ => exact fail _ hline
  | .toText operand _, ⟨hoperand, hline⟩ =>
    (expr hcall operand hoperand).bind fun v => (render hcall v hline).bind fun _ => pure _
  | .arith op left right _, ⟨hleft, hright, hline⟩ =>
    (expr hcall left hleft).bind fun a => (expr hcall right hright).bind fun b =>
      arith hcall op a b hline
  | .logic .or left right _, ⟨hleft, hright, _⟩ => by
    refine (expr hcall left hleft).bind fun a => ?_
    split
    · exact pure _
    · exact (expr hcall right hright).bind fun _ => pure _
  | .logic .and left right _, ⟨hleft, hright, _⟩ => by
    refine (expr hcall left hleft).bind fun a => ?_
    split
    · exact (expr hcall right hright).bind fun _ => pure _
    · exact pure _
  | .negation operand _, ⟨hoperand, _⟩ => (expr hcall operand hoperand).bind fun _ => pure _
  | .compare op left right _, ⟨hleft, hright, hline⟩ =>
    (expr hcall left hleft).bind fun a => (expr hcall right hright).bind fun b =>
      (compare hcall op a b hline).bind fun _ => pure _
  | .construct name args _, ⟨hargs, hline⟩ => construct hcall name hline (exprs hcall args hargs)

theorem exprs (hcall : CallsOnLines P call) :
    (es : List Expr) → Expr.AllOnLines P es → Run.OnLines P (Eval.exprs call es)
  | [], _ => pure _
  | e :: es, ⟨he, hes⟩ =>
    (expr hcall e he).bind fun _ => (exprs hcall es hes).bind fun _ => pure _

end

theorem printOne (hcall : CallsOnLines P call) (hline : P line) {e : Expr} (he : e.OnLines P) :
    Run.OnLines P (Eval.printOne call line e) :=
  (expr hcall e he).bind fun v => (render hcall v hline).bind fun text =>
    (emit text hline).bind fun _ => pure _

theorem printMore (hcall : CallsOnLines P call) (hline : P line) {es : List Expr}
    (hes : Expr.AllOnLines P es) : Run.OnLines P (Eval.printMore call line es) := by
  induction es with
  | nil => exact pure _
  | cons e es ih =>
    exact (emit " " hline).bind fun _ => (printOne hcall hline hes.1).bind fun _ => ih hes.2

theorem print (hcall : CallsOnLines P call) (hline : P line) {es : List Expr}
    (hes : Expr.AllOnLines P es) : Run.OnLines P (Eval.print call line es) := by
  cases es with
  | nil => exact (emit _ hline).bind fun _ => pure _
  | cons e es =>
    exact (printOne hcall hline hes.1).bind fun _ => (printMore hcall hline hes.2).bind fun _ =>
      (emit _ hline).bind fun _ => pure _

theorem assignField (target : Value) (name : String) (v : Value) (hline : P line) :
    Run.OnLines P (Eval.assignField target name v line) := by
  cases target with
  | object r => exact (setField r name v).bind fun _ => traceValue _ _
  | _ => exact fail _ hline

/-! Statements -/

theorem defineClass (c : Class) (line : Nat) : Run.OnLines P (Eval.defineClass c line) :=
  (log _ _ _ _ _).bind fun _ => (define _ _).bind fun _ => pure _

mutual

theorem stmt (hcall : CallsOnLines P call) :
    (s : Stmt) → s.OnLines P → Run.OnLines P (Eval.stmt call s)
  | .assign _ value _, ⟨hvalue, _⟩ =>
    (trace _).bind fun _ => (expr hcall value hvalue).bind fun _ =>
      (traceValue _ _).bind fun _ => (define _ _).bind fun _ => pure _
  | .assignField object _ value _, ⟨hobject, hvalue, hline⟩ =>
    (trace _).bind fun _ => (expr hcall object hobject).bind fun _ =>
      (expr hcall value hvalue).bind fun _ => (assignField _ _ _ hline).bind fun _ => pure _
  | .print _ _, ⟨hargs, hline⟩ =>
    (trace _).bind fun _ => (print hcall hline hargs).bind fun _ => pure _
  | .classDef c _, _ => (trace _).bind fun _ => (defineClass c _).bind fun _ => pure _
  | .branch condition yes no _, ⟨hcondition, hyes, hno, _⟩ => by
    refine (trace _).bind fun _ => (expr hcall condition hcondition).bind fun v =>
      (traceValue _ _).bind fun _ => ?_
    split
    · exact stmt hcall yes hyes
    · exact otherwise hcall _ no hno
  | .block body _, ⟨hbody, _⟩ => (block hcall body hbody).deeper
  | .give value _, ⟨hvalue, _⟩ =>
    (trace _).bind fun _ => (expr hcall value hvalue).bind fun _ =>
      (traceValue _ _).bind fun _ => pure _
  | .methodBody body _, ⟨hbody, _⟩ => by
    refine (stmt hcall body hbody).bind fun o => ?_
    cases o with
    | returning v => exact pure _
    | completed v => exact pure _
  | .expr value _, ⟨hvalue, _⟩ =>
    (trace _).bind fun _ => (expr hcall value hvalue).bind fun _ =>
      (traceValue _ _).bind fun _ => pure _

theorem otherwise (hcall : CallsOnLines P call) (line : Nat) :
    (s : Option Stmt) → Stmt.ElseOnLines P s → Run.OnLines P (Eval.otherwise call line s)
  | none, _ => pure _
  | some s, hs => (trace _).bind fun _ => stmt hcall s hs

theorem block (hcall : CallsOnLines P call) :
    (ss : List Stmt) → Stmt.AllOnLines P ss → Run.OnLines P (Eval.block call ss)
  | [], _ => pure _
  | s :: ss, ⟨hs, hss⟩ => by
    refine (stmt hcall s hs).bind fun o => ?_
    cases o with
    | returning v => exact pure _
    | completed v => exact block hcall ss hss

end

end Run.OnLines

/-! Calls and programs -/

open Run.OnLines in
/-- A call fails at its own line or at a line of its class, whatever room is left for further
ones. -/
theorem Eval.callsOnLines_callIn (room : Nat) : CallsOnLines P (callIn room) := by
  induction room with
  | zero =>
    intro r name args line hline
    unfold callIn
    refine classOf r fun c hc => ?_
    split
    · exact fail _ hline
    · split
      · exact fail _ hline
      · exact fail _ hline
  | succ room ih =>
    intro r name args line hline
    unfold callIn
    refine classOf r fun c hc => ?_
    split
    · exact fail _ hline
    · rename_i x hx
      split
      · refine (log _ _ _ _ _).bind fun _ => (trace _).bind fun _ => ?_
        exact ((Run.OnLines.stmt ih x.body (hc.method? name x hx)).inFrame _).bind fun _ => pure _
      · exact fail _ hline

namespace Machine

theorem onLines_runOne {s : Stmt} (hs : s.OnLines P) : Run.OnLines P (runOne s) := by
  intro m hm
  have hrun := Run.OnLines.stmt (callsOnLines_callIn callLimit) s hs m hm
  unfold runOne
  revert hrun
  change EndsOnLines P (Eval.stmt callMethod s m) → _
  generalize Eval.stmt callMethod s m = r
  intro hrun
  cases hrun with
  | ok hn => exact .ok hn
  | error hline hn => exact .error hline (hn.of_eq rfl rfl)

theorem onLines_runAll (last : Value) {ss : List Stmt} (hss : ∀ s ∈ ss, s.OnLines P) :
    Run.OnLines P (runAll last ss) := by
  induction ss generalizing last with
  | nil => exact .pure _
  | cons s ss ih =>
    obtain ⟨hs, hss⟩ := List.forall_mem_cons.1 hss
    refine (onLines_runOne hs).bind fun o => ?_
    cases o with
    | completed v => exact ih v hss
    | returning v => exact .fail _ hs.pos

end Machine

end ClassLang
