import ClassLang.Proofs.Console
import ClassLang.Proofs.Eval.Activation
import ClassLang.Proofs.Eval.Change
import ClassLang.Proofs.Eval.Unwinding
import ClassLang.Proofs.Heap

/-!
What a run adds to. No elementary change takes anything back that was printed, made, set or bound at
the top level, so no part of a run does, however it ends. A constructor expression that succeeds
yields an instance that was not there when its evaluation began; two evaluations never yield the
same one, also where one of them stands inside the other.
-/

namespace ClassLang

open Eval Moment

/-- Holds of a later heap: every instance is still there, of the same class and with all the fields
it had, whatever they hold now. -/
structure Heap.Extends (h h' : Heap) : Prop where
  size : h.size ≤ h'.size
  cls : ∀ r < h.size, (h'.get r).cls = (h.get r).cls
  fields : ∀ r name, (h.get r).fields.contains name = true →
    (h'.get r).fields.contains name = true

/-- Holds of a later machine: what was printed comes first, every instance is still there, every
name bound in the globals is bound, and the classes known are the same. -/
structure Machine.Extends (m m' : Machine) : Prop where
  captured : ∃ text, m'.console.captured = m.console.captured ++ text
  written : ∃ text, m'.console.written = m.console.written ++ text
  heap : m.heap.Extends m'.heap
  globals : ∀ name, m.globals.contains name = true → m'.globals.contains name = true
  classes : m'.classes = m.classes

namespace Heap.Extends

instance : IsPreorder Heap Heap.Extends where
  refl _ := ⟨Nat.le_refl _, fun _ _ => rfl, fun _ _ h => h⟩
  trans _ _ _ h h' := by
    refine ⟨h.size.trans h'.size, fun r hr => ?_, fun r name hname => ?_⟩
    · exact (h'.cls r (Nat.lt_of_lt_of_le hr h.size)).trans (h.cls r hr)
    · exact h'.fields r name (h.fields r name hname)

theorem alloc (h : Heap) (c : Class) : h.Extends (h.alloc c) := by
  refine ⟨?_, fun r hr => ?_, fun r name hname => ?_⟩
  · rw [Heap.size_alloc]
    exact Nat.le_succ _
  · rw [Heap.get_alloc, if_neg (Nat.ne_of_lt hr)]
  · have hr : r ≠ h.size := by
      rintro rfl
      rw [Heap.get_of_size_le (Nat.le_refl _)] at hname
      cases hname
    rw [Heap.get_alloc, if_neg hr]
    exact hname

theorem setField (h : Heap) (r : Ref) (field : String) (v : Value) :
    h.Extends (h.setField r field v) := by
  refine ⟨(Heap.size_setField h r field v).ge, fun s _ => ?_, fun s name hname => ?_⟩
  · rw [Heap.get_setField]
    split <;> rfl
  · rw [Heap.get_setField]
    split
    · exact Dict.contains_insert hname _ _
    · exact hname

end Heap.Extends

namespace Machine

instance : IsPreorder Machine Machine.Extends where
  refl m := ⟨⟨"", (String.append_empty).symm⟩, ⟨"", (String.append_empty).symm⟩,
    refl_of Heap.Extends m.heap, fun _ h => h, rfl⟩
  trans _ _ _ h h' := by
    obtain ⟨a, ha⟩ := h.captured
    obtain ⟨a', ha'⟩ := h'.captured
    obtain ⟨b, hb⟩ := h.written
    obtain ⟨b', hb'⟩ := h'.written
    refine ⟨⟨a ++ a', ?_⟩, ⟨b ++ b', ?_⟩, trans_of Heap.Extends h.heap h'.heap,
      fun name hname => h'.globals name (h.globals name hname), h'.classes.trans h.classes⟩
    · rw [ha', ha, String.append_assoc]
    · rw [hb', hb, String.append_assoc]

/-- Heaps, globals, classes and consoles are all that can be extended. -/
theorem Extends.of_eq {m m' : Machine} (hheap : m'.heap = m.heap) (hglobals : m'.globals = m.globals)
    (hclasses : m'.classes = m.classes) (hconsole : m'.console = m.console) : m.Extends m' := by
  have h := refl_of Machine.Extends m
  refine ⟨?_, ?_, ?_, ?_, hclasses⟩
  · rw [hconsole]
    exact h.captured
  · rw [hconsole]
    exact h.written
  · rw [hheap]
    exact h.heap
  · rw [hglobals]
    exact h.globals

/-- No elementary change takes anything back. -/
theorem Change.extends {m m' : Machine} (h : m.Change m') : m.Extends m' := by
  have same := refl_of Machine.Extends m
  cases h with
  | watched watch => exact .of_eq rfl rfl rfl rfl
  | printed hw =>
    exact ⟨Console.captured_write hw, ⟨_, Console.written_write hw⟩, same.heap, same.globals, rfl⟩
  | bound name v =>
    obtain ⟨globals, frames, classes, heap, console, watch⟩ := m
    cases frames with
    | nil =>
      exact ⟨same.captured, same.written, same.heap, fun k hk => Dict.contains_insert hk name v,
        rfl⟩
    | cons frame frames => exact .of_eq rfl rfl rfl rfl
  | made c => exact ⟨same.captured, same.written, .alloc _ c, same.globals, rfl⟩
  | set r field v => exact ⟨same.captured, same.written, .setField _ r field v, same.globals, rfl⟩
  | entered frame => exact .of_eq rfl rfl rfl rfl
  | left => exact .of_eq rfl rfl rfl rfl

theorem Changes.extends {m m' : Machine} (h : m.Changes m') : m.Extends m' := by
  induction h with
  | refl => exact refl_of Machine.Extends m
  | tail _ hchange ih => exact trans_of Machine.Extends ih hchange.extends

end Machine

/-- Two parts of a run succeed if the first does and the second does where that ends. -/
theorem Run.bind_eq_ok {α β : Type} {x : Run α} {f : α → Run β} {m n : Machine} {b : β} :
    (x >>= f) m = .ok b n ↔ ∃ a k, x m = .ok a k ∧ f a k = .ok b n := by
  change EStateM.bind x f m = .ok b n ↔ _
  unfold EStateM.bind
  cases x m with
  | ok a k => simp
  | error e k => simp

/-- Two parts of a run fail if the first does, or if the second does where the first ends. -/
theorem Run.bind_eq_error {α β : Type} {x : Run α} {f : α → Run β} {m n : Machine} {e : Error} :
    (x >>= f) m = .error e n ↔ x m = .error e n ∨ ∃ a k, x m = .ok a k ∧ f a k = .error e n := by
  change EStateM.bind x f m = .error e n ↔ _
  unfold EStateM.bind
  cases x m with
  | ok a k => simp
  | error e k => simp

theorem Run.bind_of_ok {α β : Type} {x : Run α} {m n : Machine} {a : α} (h : x m = .ok a n)
    (f : α → Run β) : (x >>= f) m = f a n := by
  change EStateM.bind x f m = _
  rw [EStateM.bind, h]

theorem Run.bind_of_error {α β : Type} {x : Run α} {m n : Machine} {e : Error}
    (h : x m = .error e n) (f : α → Run β) : (x >>= f) m = .error e n := by
  change EStateM.bind x f m = _
  rw [EStateM.bind, h]

theorem Run.exists_of_answer {α : Type} {x : Run α} {m : Machine} {a : α}
    (h : x.answer m = .ok a) : ∃ n, x m = .ok a n := by
  unfold Run.answer at h
  revert h
  cases x m with
  | ok b n =>
    intro h
    cases h
    exact ⟨n, rfl⟩
  | error e n => exact nofun

namespace Moment

variable {K : List Pending} {m : Machine} {d : Nat}

theorem extends_of_leads {a b : Moment} (h : Leads a b) : a.machine.Extends b.machine :=
  (changes_of_leads h).extends

/-- The machine at the end of a part of a run that a task stands for extends the one before it. -/
theorem Plays.extends {α : Type} {t : Task} {give : α → Task} {x : Run α}
    (h : Plays d t give x) (m : Machine) : m.Extends (x.after m) := by
  have hx := extends_of_leads (h [] m)
  unfold Run.after
  revert hx
  cases x m with
  | ok a n => exact id
  | error e n => exact id

theorem Plays.extends_of_ok {α : Type} {t : Task} {give : α → Task} {x : Run α}
    (h : Plays d t give x) {a : α} {n : Machine} (hx : x m = .ok a n) : m.Extends n := by
  have hm := h.extends m
  rwa [Run.after, hx] at hm

/-! Where the moments of a task end -/

/-- What follows a moment follows from it alone. -/
theorem Leads.total {n a b : Moment} (ha : Leads n a) (hb : Leads n b) :
    Leads a b ∨ Leads b a := by
  refine Relation.ReflTransGen.total_of_right_unique (fun x y z hy hz => ?_) ha hb
  rw [hy] at hz
  exact Option.some.inj hz

/-- Until a task has ended, all that waited for it waits below. -/
theorem above_or_leads {t : Task} {n z : Moment} (hn : Leads ⟨t, [], m, d⟩ n)
    (hfinal : n.next = none) (hz : Leads ⟨t, K, m, d⟩ z) :
    (∃ a, Leads ⟨t, [], m, d⟩ a ∧ z = a.above K) ∨ Leads (n.above K) z := by
  induction hz with
  | refl => exact .inl ⟨_, .refl, rfl⟩
  | @tail y z _ hyz ih =>
    obtain ⟨a, ha, rfl⟩ | hy := ih
    · cases hb : a.next with
      | some b =>
        have habove := next_above hb K
        rw [hyz] at habove
        exact .inl ⟨b, ha.tail hb, Option.some.inj habove⟩
      | none =>
        obtain rfl := ha.eq_of_final hn hb hfinal
        exact .inr (.single hyz)
    · exact .inr (hy.tail hyz)

variable {call : Call}

/-- While arguments are evaluated, more waits than before, but between two of them. -/
theorem args_or_leads (hcall : PlaysCalls d call) {use : Use} {z : Moment} {es : List Expr} :
    ∀ {ready vs : List Value} {m n : Machine}, exprs call es m = .ok vs n →
      Leads ⟨.args ready es use, K, m, d⟩ z →
      K.length < z.pending.length ∨ (∃ ready rest, z.task = .args ready rest use) ∨
        Leads ⟨.args (ready ++ vs) [] use, K, n, d⟩ z := by
  induction es with
  | nil =>
    intro ready vs m n hvs hz
    cases hvs
    rw [List.append_nil]
    exact .inr (.inr hz)
  | cons e es ih =>
    intro ready vs m n hvs hz
    rw [exprs] at hvs
    obtain ⟨v, k, hv, hvs⟩ := Run.bind_eq_ok.1 hvs
    obtain ⟨ws, k', hws, hvs⟩ := Run.bind_eq_ok.1 hvs
    cases hvs
    obtain rfl | ⟨a, hnext, hz⟩ := hz.cases_head
    · exact .inr (.inl ⟨_, _, rfl⟩)
    cases hnext
    have hplay := plays_expr hcall e [] m
    rw [hv] at hplay
    obtain ⟨a, -, rfl⟩ | hz := above_or_leads hplay rfl hz
    · left
      change K.length < (a.pending ++ .argument ready es use :: K).length
      rw [List.length_append, List.length_cons]
      omega
    obtain rfl | ⟨a, hnext, hz⟩ := hz.cases_head
    · exact .inl (Nat.lt_succ_self _)
    cases hnext
    have hrest := ih hws hz
    rwa [List.append_assoc] at hrest

/-! Constructor expressions -/

/-- An instance is made behind its arguments, and what is done then only adds to it. -/
theorem exists_of_construct (hcall : PlaysCalls d call) {name : String} {args : List Expr}
    {pos : Pos} {v : Value} {m n : Machine}
    (h : expr call (.construct name args pos) m = .ok v n) :
    ∃ c vs k, m.classes.get? name = some c ∧ exprs call args m = .ok vs k ∧
      v = .object k.heap.size ∧ m.Extends k ∧
      Machine.Extends { k with heap := k.heap.alloc c } n := by
  rw [expr, Run.get_bind] at h
  cases hc : m.classes.get? name with
  | none =>
    rw [hc] at h
    cases h
  | some c =>
    rw [hc] at h
    obtain ⟨vs, k, hvs, h⟩ := Run.bind_eq_ok.1 h
    obtain ⟨r, k', hr, h⟩ := Run.bind_eq_ok.1 h
    cases hr
    obtain ⟨u, k'', hlog, h⟩ := Run.bind_eq_ok.1 h
    cases hlog
    have hargs := (plays_args hcall args [] (.construct c pos.line)).extends_of_ok hvs
    split at h
    · obtain ⟨w, l, hinit, h⟩ := Run.bind_eq_ok.1 h
      cases h
      have hbody := Plays.extends_of_ok (hcall _ _ _ _) hinit
      exact ⟨c, vs, k, rfl, hvs, rfl, hargs,
        trans_of Machine.Extends (Machine.Change.watched _ _).extends hbody⟩
    · cases h
      exact ⟨c, vs, k, rfl, hvs, rfl, hargs, (Machine.Change.watched _ _).extends⟩

/-- Holds of a moment at which a constructor expression is to be evaluated, which yields a value and
leaves a machine. -/
def Constructs (a : Moment) (v : Value) (n : Machine) : Prop :=
  ∃ name args pos, a.task = .expr (.construct name args pos) ∧
    expr (callIn (callLimit - a.active)) (.construct name args pos) a.machine = .ok v n

/-- What a constructor expression yields was not there before, and is there then. -/
theorem Constructs.fresh {a : Moment} {v : Value} {n : Machine} (h : a.Constructs v n) :
    ∃ r, v = .object r ∧ a.machine.heap.size ≤ r ∧ r < n.heap.size := by
  obtain ⟨name, args, pos, -, hv⟩ := h
  obtain ⟨c, vs, k, -, -, rfl, hargs, hn⟩ := exists_of_construct (playsCalls _ rfl) hv
  refine ⟨_, rfl, hargs.heap.size, ?_⟩
  have hmade := hn.heap.size
  rwa [Heap.size_alloc] at hmade

theorem size_beginUse (vs : List Value) (c : Class) (line : Nat) :
    (beginUse K d m vs (.construct c line)).machine.heap.size = m.heap.size + 1 := by
  change (if c.hasMethod "__init__" vs.length then _ else _ : Moment).machine.heap.size = _
  split
  · exact Heap.size_alloc m.heap c
  · exact Heap.size_alloc m.heap c

/-- Of two constructor expressions whose evaluation begins in one run, each yields an instance of
its own: where the second stands in an argument of the first, its instance is made first. -/
theorem Constructs.ne {a b : Moment} {v w : Value} {n k : Machine} (ha : a.Constructs v n)
    (hb : b.Constructs w k) (hab : Relation.TransGen (fun a b => a.next = some b) a b) :
    v ≠ w := by
  obtain ⟨s, rfl, hs, hsk⟩ := hb.fresh
  obtain ⟨name, args, pos, ha, hv⟩ := ha
  obtain ⟨name', args', pos', hb, hw⟩ := hb
  obtain ⟨t, K, m, d⟩ := a
  obtain ⟨t', P, m', d'⟩ := b
  cases ha
  cases hb
  have hcalls (d : Nat) : PlaysCalls d (callIn (callLimit - d)) := playsCalls _ rfl
  obtain ⟨c, vs, l, hc, hvs, rfl, -, -⟩ := exists_of_construct (hcalls d) hv
  obtain ⟨a', ha', hab⟩ := Relation.TransGen.head'_iff.1 hab
  simp only [Moment.next, beginExpr, hc, Option.some.injEq] at ha'
  subst ha'
  have hx := plays_args (hcalls d) args [] (.construct c pos.line) K m
  rw [hvs] at hx
  change m'.heap.size ≤ s at hs
  suffices hne : l.heap.size ≠ s from fun heq => hne (Value.object.inj heq)
  -- The instance of the first is made right behind its arguments.
  have behind (hxb : Leads ⟨.args ([] ++ vs) [] (.construct c pos.line), K, l, d⟩
      ⟨.expr (.construct name' args' pos'), P, m', d'⟩) : l.heap.size ≠ s := by
    obtain heq | ⟨x', hx', hxb⟩ := hxb.cases_head
    · cases heq
    · cases hx'
      have hsize : l.heap.size + 1 ≤ m'.heap.size :=
        (size_beginUse _ _ _).symm.trans_le (extends_of_leads hxb).heap.size
      omega
  obtain hxb | hbx := Leads.total hx hab
  · exact behind hxb
  obtain hlength | ⟨ready, rest, hargs⟩ | hxb := args_or_leads (hcalls d) hvs hab
  · have hplay := plays_expr (hcalls d') (.construct name' args' pos') [] m'
    rw [hw] at hplay
    obtain ⟨a', -, hinside⟩ | hover := above_or_leads hplay rfl hbx
    · -- The arguments are not evaluated while one of them still is.
      have hpending : K = a'.pending ++ P := congrArg Moment.pending hinside
      have hlonger := congrArg List.length hpending
      rw [List.length_append] at hlonger
      change K.length < P.length at hlength
      omega
    · have hsize : k.heap.size ≤ l.heap.size := (extends_of_leads hover).heap.size
      exact (hsk.trans_le hsize).ne'
  · cases hargs
  · exact behind hxb

end Moment

/-- A run only adds. However a statement, an expression, a call, a comparison or the text of a value
ends, and at every moment before, what was printed is still the beginning of what is printed, every
instance keeps its class and the names of its fields, the globals keep their names and the classes
known stay as they are; so it is with a program once its classes have joined those known. What a
constructor expression yields is an instance that was not there before, and no two evaluations yield
the same one, in one run or in a later one. -/
theorem Eval.extended :
    (∀ s, Restores Machine.Extends .done (.stmt s) (stmt · s)) ∧
    (∀ e, Restores Machine.Extends .value (.expr e) (expr · e)) ∧
    (∀ r name args line,
      Restores Machine.Extends .value (.call r name args line) fun call => call r name args line) ∧
    (∀ op left right line, Restores Machine.Extends (fun b => .value (.bool b))
      (.compare op left right line) (compare · op left right line)) ∧
    (∀ v line, Restores Machine.Extends (fun text => .value (.string text))
      (.render callLimit v line) (render · v line)) ∧
    (∀ a b, Leads a b → a.machine.Extends b.machine) ∧
    (∀ p (m : Machine), Machine.Extends { m with classes := m.classes.merge p.classes }
      ((Machine.interpret p).after m)) ∧
    (∀ a v n, Constructs a v n →
      ∃ r, v = .object r ∧ a.machine.heap.size ≤ r ∧ r < n.heap.size) ∧
    ∀ a b v w n k, Constructs a v n → Constructs b w k →
      (Relation.TransGen (fun a b => a.next = some b) a b ∨
        n.heap.Extends b.machine.heap) → v ≠ w := by
  have hcalls (d : Nat) : PlaysCalls d (callIn (callLimit - d)) := playsCalls _ rfl
  have plays {α : Type} {give : α → Moment.Task} {t : Moment.Task} {x : Call → Run α}
      (h : ∀ d, Plays d t give (x (callIn (callLimit - d)))) :
      Restores Machine.Extends give t x :=
    fun K m d => ⟨h d K m, (h d).extends m⟩
  refine ⟨fun s => plays fun d => plays_stmt (hcalls d) s,
    fun e => plays fun d => plays_expr (hcalls d) e,
    fun r name args line => plays fun d => hcalls d r name args line,
    fun op left right line => plays fun d => plays_compare (hcalls d) op left right line,
    fun v line => plays fun d => plays_render (hcalls d) line callLimit v,
    fun a b => extends_of_leads, fun p m => (plays_program .none p.statements).extends _,
    fun a v n => Constructs.fresh, fun a b v w n k ha hb hab => ?_⟩
  obtain hab | hnk := hab
  · exact ha.ne hb hab
  · obtain ⟨r, rfl, -, hr⟩ := ha.fresh
    obtain ⟨s, rfl, hs, -⟩ := hb.fresh
    intro heq
    obtain rfl := Value.object.inj heq
    exact Nat.not_le_of_lt hr (hnk.size.trans hs)

/-- A machine that knows a class whose instances hold what they are made with. -/
def Machine.boxes : Machine :=
  (Machine.eval "class Box:\n  def __init__(v):\n    self.v = v\n").after
    (Machine.fresh .empty default)

/-- An instance that is made with another one, made in the argument. -/
theorem Eval.extended_boxes :
    ∃ a b n k, Constructs a (.object 1) n ∧ a.machine = Machine.boxes ∧
      Constructs b (.object 0) k ∧ Relation.TransGen (fun a b => a.next = some b) a b ∧
      Value.object 1 ≠ .object 0 := by
  let inner : Expr := .construct "Box" [.literal (.number 7) ⟨5, 9⟩] ⟨5, 5⟩
  let outer : Expr := .construct "Box" [inner] ⟨5, 1⟩
  obtain ⟨houter, hinner, hbox⟩ : (expr callMethod outer).answer Machine.boxes = .ok (.object 1) ∧
      (expr callMethod inner).answer Machine.boxes = .ok (.object 0) ∧
      Machine.boxes.classes.contains "Box" = true := by
    decide +kernel
  obtain ⟨c, hc⟩ := Option.isSome_iff_exists.1 hbox
  obtain ⟨n, hn⟩ := Run.exists_of_answer houter
  obtain ⟨k, hk⟩ := Run.exists_of_answer hinner
  let a : Moment := ⟨.expr outer, [], Machine.boxes, 0⟩
  let b : Moment := ⟨.expr inner, [.argument [] [] (.construct c 5)], Machine.boxes, 0⟩
  have ha : Constructs a (.object 1) n := ⟨_, _, _, rfl, hn⟩
  have hb : Constructs b (.object 0) k := ⟨_, _, _, rfl, hk⟩
  have hfirst : a.next = some ⟨.args [] [inner] (.construct c 5), [], Machine.boxes, 0⟩ := by
    simp only [a, outer, Moment.next, beginExpr, hc]
  have hab : Relation.TransGen (fun a b => a.next = some b) a b := .tail (.single hfirst) rfl
  obtain ⟨-, -, -, -, -, -, -, -, hne⟩ := Eval.extended
  exact ⟨a, b, n, k, ha, rfl, hb, hab, hne a b _ _ n k ha hb (.inl hab)⟩

end ClassLang
