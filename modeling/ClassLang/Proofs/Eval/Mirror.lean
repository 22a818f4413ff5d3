import ClassLang.Proofs.Eval.Bond
import ClassLang.Proofs.Eval.Safety
import Mathlib.Data.List.Forall2

/-!
A machine and its image: each class has another one in its place whose methods do the same, and what
watches the two is related. Bindings, instances and consoles are the same. A part of a run goes the
same on both; the induction is on the tree, given ways to call that go the same, and ways to call
with more room go the same by induction on the room.
-/

namespace ClassLang

/-- How a machine may be an image of another one: by classes that stand for classes and do what
these do, and by a relation of what watches the two that each observation keeps. -/
structure Mirror where
  /-- The class that stands for a class. -/
  cls : Class → Class
  /-- The relation of what watches the two machines. -/
  watch : Watch → Watch → Prop
  default : cls default = default
  name : ∀ c, (cls c).name = c.name
  parentName? : ∀ c, (cls c).parentName? = c.parentName?
  size : ∀ c, (cls c).methods.length = c.methods.length
  missing : ∀ {c method}, c.method? method = none → (cls c).method? method = none
  found : ∀ {c method x}, c.method? method = some x → ∃ x', (cls c).method? method = some x' ∧
    x'.params = x.params ∧ ∀ call, Eval.stmt call x'.body = Eval.stmt call x.body
  step : ∀ {w w'}, watch w w' → ∀ text, watch (w.step text) (w'.step text)
  value : ∀ {w w'}, watch w w' → ∀ text, watch (w.value text) (w'.value text)
  record : ∀ {w w'}, watch w w' → ∀ passed level target message line fields,
    watch (w.record passed level target message line fields)
      (w'.record passed level target message line fields)
  depth : ∀ {w w'}, watch w w' → ∀ f : Nat → Nat,
    watch { w with depth := f w.depth } { w' with depth := f w'.depth }

/-- A heap with other classes in the place of those of its instances. -/
def Heap.mapClass (f : Class → Class) (h : Heap) : Heap :=
  ⟨h.objects.map fun o => { o with cls := f o.cls }⟩

namespace Heap

variable (f : Class → Class) (h : Heap)

theorem size_mapClass : (h.mapClass f).size = h.size := by simp [mapClass, size]

theorem get_mapClass (hf : f default = default) (r : Ref) :
    (h.mapClass f).get r = { h.get r with cls := f (h.get r).cls } := by
  simp only [mapClass, get, Array.getD_eq_getD_getElem?, Array.getElem?_map]
  cases h.objects[r]? with
  | none => exact congrArg (Object.mk · .empty) hf.symm
  | some o => rfl

theorem alloc_mapClass (c : Class) : (h.alloc c).mapClass f = (h.mapClass f).alloc (f c) := by
  simp [mapClass, alloc]

theorem setField_mapClass (r : Ref) (field : String) (v : Value) :
    (h.setField r field v).mapClass f = (h.mapClass f).setField r field v := by
  simp only [mapClass, setField]
  congr 1
  apply Array.ext_getElem?
  intro i
  simp only [Array.getElem?_map, Array.getElem?_modify]
  split
  · cases h.objects[i]? <;> rfl
  · rfl

end Heap

namespace Mirror

variable {M : Mirror} {m n : Machine}

/-- Holds of a machine and its image. -/
structure Shows (M : Mirror) (m n : Machine) : Prop where
  globals : n.globals = m.globals
  frames : n.frames = m.frames
  classes : n.classes = m.classes.map M.cls
  heap : n.heap = m.heap.mapClass M.cls
  console : n.console = m.console
  watch : M.watch m.watch n.watch

/-- Two ends of parts of a run: one value, or one failure, in a machine and in its image. -/
inductive Ends {α : Type} (M : Mirror) :
    EStateM.Result Error Machine α → EStateM.Result Error Machine α → Prop where
  | ok {m n : Machine} (a : α) : M.Shows m n → Ends M (.ok a m) (.ok a n)
  | error {m n : Machine} (e : Error) : M.Shows m n → Ends M (.error e m) (.error e n)

/-- Holds of two parts of a run that go the same on every machine and its image. -/
def Goes {α : Type} (M : Mirror) (x y : Run α) : Prop := ∀ m n, M.Shows m n → M.Ends (x m) (y n)

/-- Holds of two ways to call that go the same. -/
def Calls (M : Mirror) (call call' : Call) : Prop :=
  ∀ r name args line, M.Goes (call r name args line) (call' r name args line)

theorem Shows.scope (h : M.Shows m n) : Run.scope n = Run.scope m := by
  rw [Run.scope, Run.scope, h.frames, h.globals]

theorem Shows.get_heap (h : M.Shows m n) (r : Ref) :
    n.heap.get r = { m.heap.get r with cls := M.cls (m.heap.get r).cls } := by
  rw [h.heap, Heap.get_mapClass _ _ M.default]

theorem Shows.display (h : M.Shows m n) (v : Value) : v.display n.heap = v.display m.heap := by
  cases v with
  | object r => simp only [Value.display, h.get_heap, M.name]
  | bool b => cases b <;> rfl
  | _ => rfl

theorem Shows.of_watch (h : M.Shows m n) {w w' : Watch} (hw : M.watch w w') :
    M.Shows { m with watch := w } { n with watch := w' } :=
  ⟨h.globals, h.frames, h.classes, h.heap, h.console, hw⟩

theorem hasMethod_cls (c : Class) (name : String) (arity : Nat) :
    (M.cls c).hasMethod name arity = c.hasMethod name arity := by
  rw [Class.hasMethod, Class.hasMethod]
  cases hx : c.method? name with
  | none => rw [M.missing hx]
  | some x =>
    obtain ⟨x', hx', hparams, -⟩ := M.found hx
    rw [hx']
    simp only [Method.arity, hparams]

namespace Goes

variable {α β : Type} {x y : Run α}

theorem pure (a : α) : M.Goes (pure a) (pure a) := fun _ _ h => .ok a h

theorem fail (cause : Cause) (line : Nat) :
    M.Goes (Run.fail cause line : Run α) (Run.fail cause line) := fun _ _ h => .error _ h

theorem bind {f g : α → Run β} (h : M.Goes x y) (hf : ∀ a, M.Goes (f a) (g a)) :
    M.Goes (x >>= f) (y >>= g) := by
  intro m n hm
  have hxy := h m n hm
  change M.Ends (EStateM.bind x f m) (EStateM.bind y g n)
  unfold EStateM.bind
  revert hxy
  generalize x m = r
  generalize y n = r'
  intro hxy
  cases hxy with
  | ok a hm' => exact hf a _ _ hm'
  | error e hm' => exact .error e hm'

/-- The next part gets nothing. -/
theorem bind_unit {x y : Run Unit} {f g : Unit → Run β} (h : M.Goes x y)
    (hf : M.Goes (f ()) (g ())) : M.Goes (x >>= f) (y >>= g) :=
  h.bind fun _ => hf

/-- What is read of a machine is related to what is read of its image. -/
theorem get {f g : Machine → Run α} (h : ∀ m n, M.Shows m n → M.Goes (f m) (g n)) :
    M.Goes (MonadState.get >>= f) (MonadState.get >>= g) :=
  fun m n hm => h m n hm m n hm

theorem change {f g : Machine → Machine} (h : ∀ m n, M.Shows m n → M.Shows (f m) (g n)) :
    M.Goes (modify f : Run Unit) (modify g) :=
  fun m n hm => .ok () (h m n hm)

theorem bracket {enter leave : Machine → Machine} (h : M.Goes x y)
    (henter : ∀ m n, M.Shows m n → M.Shows (enter m) (enter n))
    (hleave : ∀ m n, M.Shows m n → M.Shows (leave m) (leave n)) :
    M.Goes (Run.bracket enter leave x) (Run.bracket enter leave y) := by
  intro m n hm
  have hxy := h _ _ (henter m n hm)
  unfold Run.bracket
  revert hxy
  generalize x (enter m) = r
  generalize y (enter n) = r'
  intro hxy
  cases hxy with
  | ok a hm' => exact .ok a (hleave _ _ hm')
  | error e hm' => exact .error e (hleave _ _ hm')

/-! The elementary steps -/

theorem trace (text : String) : M.Goes (Run.trace text) (Run.trace text) :=
  change fun _ _ h => h.of_watch (M.step h.watch text)

theorem traceValue (lead : String) (v : Value) :
    M.Goes (Run.traceValue lead v) (Run.traceValue lead v) := by
  refine change fun m n h => h.of_watch ?_
  simp only [h.display v]
  exact M.value h.watch _

/-- The machine after something worth a record, and its image after that. -/
theorem record (h : M.Shows m n) (level : Log.Level) (target message : String) (line : Nat)
    (fields : List (String × String)) :
    M.Shows (m.record level target message line fields)
      (n.record level target message line fields) := by
  refine h.of_watch ?_
  rw [h.console]
  exact M.record h.watch _ level target message line fields

theorem log (level : Log.Level) (target message : String) (line : Nat)
    (fields : List (String × String)) :
    M.Goes (Run.log level target message line fields)
      (Run.log level target message line fields) :=
  change fun _ _ h => record h level target message line fields

theorem emit (text : String) (line : Nat) : M.Goes (Run.emit text line) (Run.emit text line) := by
  intro m n h
  rw [Run.emit_apply, Run.emit_apply, h.console]
  cases m.console.write text with
  | ok console => exact .ok () ⟨h.globals, h.frames, h.classes, h.heap, rfl, h.watch⟩
  | error reason => exact .error _ h

theorem define (name : String) (v : Value) : M.Goes (Run.define name v) (Run.define name v) := by
  refine change fun m n h => ?_
  rw [h.frames]
  cases m.frames with
  | nil =>
    refine ⟨?_, rfl, h.classes, h.heap, h.console, h.watch⟩
    simp only [h.globals]
  | cons f fs => exact ⟨h.globals, rfl, h.classes, h.heap, h.console, h.watch⟩

/-- The next part gets the class of an instance, or the one in its place. -/
theorem classOf {f g : Class → Run α} (r : Ref) (h : ∀ c, M.Goes (f c) (g (M.cls c))) :
    M.Goes (Run.classOf r >>= f) (Run.classOf r >>= g) := by
  intro m n hm
  change M.Ends (f (m.heap.get r).cls m) (g (n.heap.get r).cls n)
  rw [hm.get_heap]
  exact h _ m n hm

theorem display (v : Value) : M.Goes (Run.display v) (Run.display v) := by
  intro m n hm
  change M.Ends (.ok (v.display m.heap) m) (.ok (v.display n.heap) n)
  rw [hm.display]
  exact .ok _ hm

theorem newObject (c : Class) : M.Goes (Run.newObject c) (Run.newObject (M.cls c)) := by
  intro m n h
  have hsize : n.heap.size = m.heap.size := by rw [h.heap, Heap.size_mapClass]
  change M.Ends (.ok m.heap.size _) (.ok n.heap.size _)
  rw [hsize]
  refine .ok _ ⟨h.globals, h.frames, h.classes, ?_, h.console, h.watch⟩
  simp only [h.heap, Heap.alloc_mapClass]

theorem setField (r : Ref) (name : String) (v : Value) :
    M.Goes (Run.setField r name v) (Run.setField r name v) := by
  refine change fun m n h => ⟨h.globals, h.frames, h.classes, ?_, h.console, h.watch⟩
  simp only [h.heap, Heap.setField_mapClass]

theorem deeper (h : M.Goes x y) : M.Goes (Run.deeper x) (Run.deeper y) :=
  bracket h (fun _ _ hm => hm.of_watch (M.depth hm.watch (· + 1)))
    fun _ _ hm => hm.of_watch (M.depth hm.watch (· - 1))

theorem inFrame (frame : Env) (h : M.Goes x y) :
    M.Goes (Run.inFrame frame x) (Run.inFrame frame y) := by
  refine bracket h.deeper (fun m n hm => ?_) fun m n hm => ?_
  · exact ⟨hm.globals, congrArg (frame :: ·) hm.frames, hm.classes, hm.heap, hm.console, hm.watch⟩
  · exact ⟨hm.globals, congrArg List.tail hm.frames, hm.classes, hm.heap, hm.console, hm.watch⟩

/-! Values -/

variable {call call' : Call}

theorem inRange (i : Int) (line : Nat) : M.Goes (Eval.inRange i line) (Eval.inRange i line) := by
  unfold Eval.inRange
  cases Number.ofInt? i with
  | some a => exact pure _
  | none => exact fail _ _

theorem arithNumbers (op : ArithOp) (a b : Int64) (line : Nat) :
    M.Goes (Eval.arithNumbers op a b line) (Eval.arithNumbers op a b line) := by
  cases op with
  | add | sub | mul => exact inRange _ _
  | div =>
    unfold Eval.arithNumbers
    simp only []
    split
    · exact fail _ _
    · exact inRange _ _

theorem arith (hcall : M.Calls call call') (op : ArithOp) (left right : Value) (line : Nat) :
    M.Goes (Eval.arith call op left right line) (Eval.arith call' op left right line) := by
  unfold Eval.arith
  split
  · exact arithNumbers _ _ _ _
  · split
    · exact pure _
    · exact fail _ _
  · refine classOf _ fun c => ?_
    rw [hasMethod_cls]
    split
    · exact hcall _ _ _ _
    · exact fail _ _
  · exact fail _ _

/-- A question to an instance, where its class has a method for it, and a failure otherwise. -/
theorem ask (hcall : M.Calls call call') (r : Ref) (name : String) (right : Value) (line : Nat)
    (cause : Cause) :
    M.Goes (do
        if (← Run.classOf r).hasMethod name 1 then return (← call r name [right] line).isTrue
        else Run.fail cause line)
      (do
        if (← Run.classOf r).hasMethod name 1 then return (← call' r name [right] line).isTrue
        else Run.fail cause line) := by
  refine classOf r fun c => ?_
  rw [hasMethod_cls]
  split
  · exact bind (hcall _ _ _ _) fun _ => pure _
  · exact fail _ _

theorem equal (hcall : M.Calls call call') (left right : Value) (line : Nat) :
    M.Goes (Eval.equal call left right line) (Eval.equal call' left right line) := by
  unfold Eval.equal
  split
  · exact pure _
  · exact pure _
  · exact pure _
  · exact pure _
  · exact ask hcall _ _ _ _ _
  · exact fail _ _

theorem less (hcall : M.Calls call call') (left right : Value) (line : Nat) :
    M.Goes (Eval.less call left right line) (Eval.less call' left right line) := by
  unfold Eval.less
  split
  · exact pure _
  · exact pure _
  · exact pure _
  · exact ask hcall _ _ _ _ _
  · exact fail _ _

theorem compare (hcall : M.Calls call call') (op : Comparison) (left right : Value) (line : Nat) :
    M.Goes (Eval.compare call op left right line) (Eval.compare call' op left right line) := by
  have notEqual : M.Goes (Eval.notEqual call left right line)
      (Eval.notEqual call' left right line) :=
    bind (equal hcall left right line) fun _ => pure _
  have greaterOrEqual : M.Goes (Eval.greaterOrEqual call left right line)
      (Eval.greaterOrEqual call' left right line) :=
    bind (less hcall left right line) fun _ => pure _
  have greater : M.Goes (Eval.greater call left right line)
      (Eval.greater call' left right line) := by
    refine bind greaterOrEqual fun b => ?_
    cases b with
    | true => exact notEqual
    | false => exact pure _
  cases op with
  | equal => exact equal hcall left right line
  | notEqual => exact notEqual
  | less => exact less hcall left right line
  | greater => exact greater
  | lessOrEqual => exact bind greater fun _ => pure _
  | greaterOrEqual => exact greaterOrEqual

theorem renderIn (hcall : M.Calls call call') (line steps : Nat) (v : Value) :
    M.Goes (Eval.renderIn call line steps v) (Eval.renderIn call' line steps v) := by
  induction steps generalizing v with
  | zero => exact fail _ _
  | succ steps ih =>
    cases v with
    | object r =>
      refine classOf r fun c => ?_
      rw [hasMethod_cls]
      split
      · exact bind (hcall _ _ _ _) ih
      · exact display _
    | _ => exact display _

theorem render (hcall : M.Calls call call') (v : Value) (line : Nat) :
    M.Goes (Eval.render call v line) (Eval.render call' v line) :=
  renderIn hcall line callLimit v

theorem field (v : Value) (name : String) (line : Nat) :
    M.Goes (Eval.field v name line) (Eval.field v name line) := by
  cases v with
  | object r =>
    refine get fun m n hm => ?_
    simp only [hm.get_heap, M.name]
    cases (m.heap.get r).fields.get? name with
    | some w => exact pure _
    | none => exact fail _ _
  | _ => exact fail _ _

theorem fields (line : Nat) (v : Value) (names : List String) :
    M.Goes (Eval.fields line v names) (Eval.fields line v names) := by
  induction names generalizing v with
  | nil => exact pure _
  | cons name names ih => exact bind (field v name line) ih

theorem path (line : Nat) (names : List String) :
    M.Goes (Eval.path line names) (Eval.path line names) := by
  cases names with
  | nil => exact fail _ _
  | cons root names =>
    refine get fun m n hm => ?_
    rw [hm.scope]
    cases (Run.scope m).get? root with
    | some v => exact fields line v names
    | none => exact fail _ _

/-! Expressions -/

theorem construct {args : List Expr} (hcall : M.Calls call call') (name : String) (pos : Pos)
    (hargs : M.Goes (Eval.exprs call args) (Eval.exprs call' args)) :
    M.Goes (Eval.expr call (.construct name args pos))
      (Eval.expr call' (.construct name args pos)) := by
  refine get fun m n hm => ?_
  rw [hm.classes, Dict.get?_map]
  cases m.classes.get? name with
  | none => exact fail _ _
  | some c =>
    refine bind hargs fun vs => bind (newObject c) fun r => ?_
    rw [M.name]
    refine bind_unit (log _ _ _ _ _) ?_
    rw [hasMethod_cls]
    split
    · exact bind (hcall _ _ _ _) fun _ => pure _
    · exact pure _

mutual

theorem expr (hcall : M.Calls call call') :
    (e : Expr) → M.Goes (Eval.expr call e) (Eval.expr call' e)
  | .literal _ _ => pure _
  | .name names pos => path pos.line names
  | .call receiver _ args _ => by
    refine bind (expr hcall receiver) fun v => ?_
    cases v with
    | object r => exact bind (exprs hcall args) fun vs => hcall _ _ _ _
    | _ => exact fail _ _
  | .toText operand _ =>
    bind (expr hcall operand) fun v => bind (render hcall v _) fun _ => pure _
  | .arith op left right _ =>
    bind (expr hcall left) fun a => bind (expr hcall right) fun b => arith hcall op a b _
  | .logic .or left right _ => by
    refine bind (expr hcall left) fun a => ?_
    split
    · exact pure _
    · exact bind (expr hcall right) fun _ => pure _
  | .logic .and left right _ => by
    refine bind (expr hcall left) fun a => ?_
    split
    · exact bind (expr hcall right) fun _ => pure _
    · exact pure _
  | .negation operand _ => bind (expr hcall operand) fun _ => pure _
  | .compare op left right _ =>
    bind (expr hcall left) fun a => bind (expr hcall right) fun b =>
      bind (compare hcall op a b _) fun _ => pure _
  | .construct name args pos => construct hcall name pos (exprs hcall args)

theorem exprs (hcall : M.Calls call call') :
    (es : List Expr) → M.Goes (Eval.exprs call es) (Eval.exprs call' es)
  | [] => pure _
  | e :: es => bind (expr hcall e) fun _ => bind (exprs hcall es) fun _ => pure _

end

theorem printOne (hcall : M.Calls call call') (line : Nat) (e : Expr) :
    M.Goes (Eval.printOne call line e) (Eval.printOne call' line e) :=
  bind (expr hcall e) fun v => bind (render hcall v line) fun text =>
    bind_unit (emit text line) (pure v)

theorem printMore (hcall : M.Calls call call') (line : Nat) (es : List Expr) :
    M.Goes (Eval.printMore call line es) (Eval.printMore call' line es) := by
  induction es with
  | nil => exact pure _
  | cons e es ih => exact bind_unit (emit " " line) (bind (printOne hcall line e) fun _ => ih)

theorem print (hcall : M.Calls call call') (line : Nat) (es : List Expr) :
    M.Goes (Eval.print call line es) (Eval.print call' line es) := by
  cases es with
  | nil => exact bind_unit (emit _ _) (pure _)
  | cons e es =>
    exact bind (printOne hcall line e) fun v =>
      bind_unit (printMore hcall line es) (bind_unit (emit _ _) (pure v))

theorem assignField (target : Value) (name : String) (v : Value) (line : Nat) :
    M.Goes (Eval.assignField target name v line) (Eval.assignField target name v line) := by
  cases target with
  | object r => exact bind_unit (setField _ _ _) (traceValue _ _)
  | _ => exact fail _ _

/-! Statements -/

theorem defineClass {c c' : Class} (hname : c'.name = c.name)
    (hparent : c'.parentName? = c.parentName?) (hsize : c'.methods.length = c.methods.length)
    (line : Nat) : M.Goes (Eval.defineClass c line) (Eval.defineClass c' line) := by
  unfold Eval.defineClass
  rw [hname, hparent, hsize]
  exact bind_unit (log _ _ _ _ _) (bind_unit (define _ _) (pure _))

mutual

theorem stmt (hcall : M.Calls call call') :
    (s : Stmt) → M.Goes (Eval.stmt call s) (Eval.stmt call' s)
  | .assign _ value _ =>
    bind_unit (trace _) <| bind (expr hcall value) fun v =>
      bind_unit (traceValue _ _) <| bind_unit (define _ _) (pure _)
  | .assignField object _ value _ =>
    bind_unit (trace _) <| bind (expr hcall object) fun target => bind (expr hcall value) fun v =>
      bind_unit (assignField target _ v _) (pure _)
  | .print args pos =>
    bind_unit (trace _) <| bind (print hcall pos.line args) fun _ => pure _
  | .classDef _ pos =>
    bind_unit (trace _) <| bind (defineClass rfl rfl rfl pos.line) fun _ => pure _
  | .branch condition yes no _ => by
    refine bind_unit (trace _) <| bind (expr hcall condition) fun v =>
      bind_unit (traceValue _ _) ?_
    split
    · exact stmt hcall yes
    · exact otherwise hcall _ no
  | .block body _ => deeper (block hcall body)
  | .give value _ =>
    bind_unit (trace _) <| bind (expr hcall value) fun v => bind_unit (traceValue _ _) (pure _)
  | .methodBody body _ => by
    refine bind (stmt hcall body) fun o => ?_
    cases o with
    | returning v => exact pure _
    | completed v => exact pure _
  | .expr value _ =>
    bind_unit (trace _) <| bind (expr hcall value) fun v => bind_unit (traceValue _ _) (pure _)

theorem otherwise (hcall : M.Calls call call') (line : Nat) :
    (s : Option Stmt) → M.Goes (Eval.otherwise call line s) (Eval.otherwise call' line s)
  | none => pure _
  | some s => bind_unit (trace _) (stmt hcall s)

theorem block (hcall : M.Calls call call') :
    (ss : List Stmt) → M.Goes (Eval.block call ss) (Eval.block call' ss)
  | [] => pure _
  | s :: ss => by
    refine bind (stmt hcall s) fun o => ?_
    cases o with
    | completed v => exact block hcall ss
    | returning v => exact pure _

end

end Goes

/-! Calls -/

/-- Calls go the same on both, whatever room is left for further ones. -/
theorem calls_callIn (M : Mirror) (room : Nat) : M.Calls (Eval.callIn room) (Eval.callIn room) := by
  induction room with
  | zero =>
    intro r name args line
    unfold Eval.callIn
    refine Goes.classOf r fun c => ?_
    cases hx : c.method? name with
    | none =>
      simp only [M.missing hx, M.name]
      exact Goes.fail _ _
    | some x =>
      obtain ⟨x', hx', hparams, -⟩ := M.found hx
      simp only [hx', Method.arity, hparams, M.name]
      by_cases harity : x.params.length = args.length
      · simp only [harity, if_true]
        exact Goes.fail _ _
      · simp only [harity, if_false]
        exact Goes.fail _ _
  | succ room ih =>
    intro r name args line
    unfold Eval.callIn
    refine Goes.classOf r fun c => ?_
    cases hx : c.method? name with
    | none =>
      simp only [M.missing hx, M.name]
      exact Goes.fail _ _
    | some x =>
      obtain ⟨x', hx', hparams, hbody⟩ := M.found hx
      simp only [hx', Method.arity, hparams, hbody, M.name]
      by_cases harity : x.params.length = args.length
      · simp only [harity, if_true]
        exact Goes.bind_unit (Goes.log _ _ _ _ _) <| Goes.bind_unit (Goes.trace _) <|
          Goes.bind (Goes.inFrame _ (Goes.stmt ih x.body)) fun _ => Goes.pure _
      · simp only [harity, if_false]
        exact Goes.fail _ _

/-! Programs -/

/-- Holds of two statements that go the same at the top level. -/
def Twins (M : Mirror) (s s' : Stmt) : Prop :=
  s'.pos = s.pos ∧
    M.Goes (Eval.stmt Eval.callMethod s) (Eval.stmt Eval.callMethod s')

theorem twins_refl (M : Mirror) (s : Stmt) : M.Twins s s :=
  ⟨rfl, Goes.stmt (M.calls_callIn callLimit) s⟩

theorem twins_classDef (M : Mirror) (c : Class) (pos : Pos) :
    M.Twins (.classDef c pos) (.classDef (M.cls c) pos) := by
  refine ⟨rfl, ?_⟩
  unfold Eval.stmt
  rw [M.name]
  exact Goes.bind_unit (Goes.trace _) <|
    Goes.bind (Goes.defineClass (M.name c) (M.parentName? c) (M.size c) pos.line) fun _ =>
      Goes.pure _

namespace Goes

/-- A failure at the top level is logged on both. -/
theorem runOne {s s' : Stmt} (h : M.Twins s s') :
    M.Goes (Machine.runOne s) (Machine.runOne s') := by
  intro m n hm
  have hstmt := h.2 m n hm
  unfold Machine.runOne
  revert hstmt
  generalize Eval.stmt Eval.callMethod s m = r
  generalize Eval.stmt Eval.callMethod s' n = r'
  intro hstmt
  cases hstmt with
  | ok o hm' => exact .ok o hm'
  | error e hm' => exact .error e (record hm' _ _ _ _ _)

theorem runAll {ss ss' : List Stmt} (h : List.Forall₂ M.Twins ss ss') (last : Value) :
    M.Goes (Machine.runAll last ss) (Machine.runAll last ss') := by
  induction h generalizing last with
  | nil => exact pure _
  | cons hs _ ih =>
    unfold Machine.runAll
    refine bind (runOne hs) fun o => ?_
    cases o with
    | completed v => exact ih v
    | returning v =>
      rw [hs.1]
      exact fail _ _

/-- A program, and one whose statements and classes stand for those of the first. -/
theorem interpret {p p' : Program} (hstatements : List.Forall₂ M.Twins p.statements p'.statements)
    (hclasses : p'.classes = p.classes.map M.cls) :
    M.Goes (Machine.interpret p) (Machine.interpret p') := by
  refine bind_unit (change fun m n hm => ⟨hm.globals, hm.frames, ?_, hm.heap, hm.console, hm.watch⟩)
    (runAll hstatements _)
  simp only [hm.classes, hclasses, Dict.map_merge]

end Goes

/-- What goes the same gives one answer, and leaves a machine and its image. -/
theorem Goes.ends {α : Type} {x y : Run α} (h : M.Goes x y) (hm : M.Shows m n) :
    y.answer n = x.answer m ∧ M.Shows (x.after m) (y.after n) := by
  have hends := h m n hm
  unfold Run.answer Run.after
  revert hends
  generalize x m = r
  generalize y n = r'
  intro hends
  cases hends with
  | ok a hm' => exact ⟨rfl, hm'⟩
  | error e hm' => exact ⟨rfl, hm'⟩

end Mirror

end ClassLang
