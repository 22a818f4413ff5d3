import ClassLang.Machine
import ClassLang.Proofs.Dict
import Mathlib.Order.Defs.Unbundled

/-!
One part of a run, from two machines. What the two have in common, their bindings and what watches
them aside, is a bond if every elementary step keeps it; the part then ends alike from both. What it
leaves as it is, the frames around it above all, is stated of each machine by itself. A property of
one run is the case of a machine beside itself. Bonds may be lenient about consoles: a part then goes
alike up to the first text that one of them refuses.
-/

namespace ClassLang

/-- What an expression leaves as it is: all bindings, and the depth of the trace. -/
structure Calm (m m' : Machine) : Prop where
  globals : m'.globals = m.globals
  frames : m'.frames = m.frames
  depth : m'.watch.depth = m.watch.depth

/-- What a statement leaves as it is. The frame in force is the one before it with some bindings
set; the frames around it are those before it, and so are the globals inside a call. -/
structure Local (m m' : Machine) : Prop where
  scope : ∃ bindings, Run.scope m' = (Run.scope m).insertAll bindings
  active : m'.frames.length = m.frames.length
  outer : m'.frames.tail = m.frames.tail
  globals : m.frames ≠ [] → m'.globals = m.globals
  depth : m'.watch.depth = m.watch.depth

theorem Calm.scope {m m' : Machine} (h : Calm m m') : Run.scope m' = Run.scope m := by
  rw [Run.scope, Run.scope, h.frames, h.globals]

theorem Calm.toLocal {m m' : Machine} (h : Calm m m') : Local m m' :=
  ⟨⟨[], h.scope⟩, by rw [h.frames], by rw [h.frames], fun _ => h.globals, h.depth⟩

instance : IsPreorder Machine Calm where
  refl _ := ⟨rfl, rfl, rfl⟩
  trans _ _ _ h h' := ⟨h'.globals.trans h.globals, h'.frames.trans h.frames,
    h'.depth.trans h.depth⟩

instance : IsPreorder Machine Local where
  refl m := (refl_of Calm m).toLocal
  trans a b c h h' := by
    obtain ⟨l, hl⟩ := h.scope
    obtain ⟨l', hl'⟩ := h'.scope
    refine ⟨⟨l ++ l', ?_⟩, h'.active.trans h.active, h'.outer.trans h.outer, fun hne => ?_,
      h'.depth.trans h.depth⟩
    · rw [hl', hl, Dict.insertAll, Dict.insertAll, Dict.insertAll, List.foldl_append]
    · have hne' : b.frames ≠ [] := by
        intro hnil
        have hlength := h.active
        rw [hnil] at hlength
        exact hne (List.length_eq_zero_iff.1 hlength.symm)
      exact (h'.globals hne').trans (h.globals hne)

/-- Holds of two machines that differ in bindings and in what watches them only. -/
structure Machine.Same (m n : Machine) : Prop where
  heap : n.heap = m.heap
  classes : n.classes = m.classes
  console : n.console = m.console

theorem Machine.Same.refl (m : Machine) : m.Same m := ⟨rfl, rfl, rfl⟩

theorem Machine.Same.of_same {m n m' n' : Machine} (h : m.Same n) (hm : m.Same m')
    (hn : n.Same n') : m'.Same n' :=
  ⟨by rw [hm.heap, hn.heap, h.heap], by rw [hm.classes, hn.classes, h.classes],
    by rw [hm.console, hn.console, h.console]⟩

theorem Machine.Same.write {m n : Machine} (h : m.Same n) (text : String) :
    (∃ c d, m.console.write text = .ok c ∧ n.console.write text = .ok d ∧
      Machine.Same { m with console := c } { n with console := d }) ∨
    ∃ reason, m.console.write text = .error reason ∧ n.console.write text = .error reason := by
  rw [h.console]
  cases m.console.write text with
  | ok c => exact .inl ⟨c, c, rfl, rfl, h.heap, h.classes, rfl⟩
  | error reason => exact .inr ⟨reason, rfl, rfl⟩

/-- What two machines may have in common, their bindings and what watches them aside, while they
run the same: whatever a run does by itself keeps it. The values that the run gets hold of have a
property. -/
structure Bond where
  /-- The relation of the two machines. -/
  core : Machine → Machine → Prop
  /-- The property of the values. -/
  holds : Value → Prop
  heap : ∀ {m n}, core m n → n.heap = m.heap
  classes : ∀ {m n}, core m n → n.classes = m.classes
  /-- The relation sees classes, instances and consoles only. -/
  blind : ∀ {m n m' n'}, core m n → m.Same m' → n.Same n' → core m' n'
  plain : ∀ {v}, (∀ r, v ≠ .object r) → holds v
  field : ∀ {m n r name v}, core m n → holds (.object r) →
    (m.heap.get r).fields.get? name = some v → holds v
  alloc : ∀ {m n}, core m n → ∀ c,
    core { m with heap := m.heap.alloc c } { n with heap := n.heap.alloc c }
  fresh : ∀ {m n}, core m n → holds (.object m.heap.size)
  setField : ∀ {m n r v}, core m n → holds (.object r) → holds v → ∀ name,
    core { m with heap := m.heap.setField r name v } { n with heap := n.heap.setField r name v }
  /-- Whether one console may refuse a text that the other one takes. -/
  lenient : Prop
  write : ∀ {m n}, core m n → ∀ text,
    (∃ c d, m.console.write text = .ok c ∧ n.console.write text = .ok d ∧
      core { m with console := c } { n with console := d }) ∨
    (∃ reason, m.console.write text = .error reason ∧ n.console.write text = .error reason) ∨
    lenient ∧ ∃ reason, m.console.write text = .error reason ∨ n.console.write text = .error reason

/-- Two machines with a bond and the same bindings in force. -/
structure Bond.Joined (B : Bond) (m n : Machine) : Prop where
  core : B.core m n
  scope : Run.scope n = Run.scope m
  bound : ∀ {name v}, (Run.scope m).get? name = some v → B.holds v

/-- Two machines with a bond and the same bindings of some names. -/
structure Bond.JoinedOn (B : Bond) (P : String → Prop) (m n : Machine) : Prop where
  core : B.core m n
  scope : ∀ {name}, P name → (Run.scope n).get? name = (Run.scope m).get? name
  bound : ∀ {name v}, P name → (Run.scope m).get? name = some v → B.holds v

/-- Holds of the end of a part of a run whose output was refused. -/
def Refused {α : Type} (r : EStateM.Result Error Machine α) : Prop :=
  ∃ reason line m, r = .error (.located (.outputFailed reason) line) m

/-- Two ends of a part of a run from two machines: the same value with a property, or the same
failure, in machines that are related as before. With leniency the output of one may have been
refused instead. -/
inductive Paired {α : Type} (L : Prop) (R T : Machine → Machine → Prop) (Q : α → Prop)
    (m n : Machine) :
    EStateM.Result Error Machine α → EStateM.Result Error Machine α → Prop where
  | ok {a : α} {m' n' : Machine} :
      Q a → R m' n' → T m m' → T n n' → Paired L R T Q m n (.ok a m') (.ok a n')
  | error {e : Error} {m' n' : Machine} :
      R m' n' → T m m' → T n n' → Paired L R T Q m n (.error e m') (.error e n')
  | refused {r r' : EStateM.Result Error Machine α} :
      L → Refused r ∨ Refused r' → Paired L R T Q m n r r'

/-- Holds of a part of a run that goes the same from all related machines. -/
def Goes {α : Type} (L : Prop) (R T : Machine → Machine → Prop) (Q : α → Prop) (x : Run α) :
    Prop :=
  ∀ m n, R m n → Paired L R T Q m n (x m) (x n)

namespace Paired

variable {α β : Type} {L : Prop} {R R' T T' : Machine → Machine → Prop} {Q Q' : α → Prop} {P : β → Prop}
  {m n m' n' : Machine} {r r' : EStateM.Result Error Machine α}

theorem mono (h : Paired L R T Q m n r r') (hQ : ∀ a, Q a → Q' a) (hR : ∀ a b, T m a → T n b →
    R a b → R' a b) (hm : ∀ a, T m a → T' m' a) (hn : ∀ a, T n a → T' n' a) :
    Paired L R' T' Q' m' n' r r' := by
  cases h with
  | ok hq hr hmm hnn => exact .ok (hQ _ hq) (hR _ _ hmm hnn hr) (hm _ hmm) (hn _ hnn)
  | error hr hmm hnn => exact .error (hR _ _ hmm hnn hr) (hm _ hmm) (hn _ hnn)
  | refused hl hrefused => exact .refused hl hrefused

theorem bind [IsPreorder Machine T] {x : Run α} {f : α → Run β}
    (h : Paired L R T Q m n (x m) (x n)) (hf : ∀ a, Q a → Goes L R T P (f a)) :
    Paired L R T P m n ((x >>= f) m) ((x >>= f) n) := by
  change Paired L R T P m n (EStateM.bind x f m) (EStateM.bind x f n)
  unfold EStateM.bind
  revert h
  generalize x m = s
  generalize x n = s'
  intro h
  cases h with
  | ok hq hr hm hn =>
    exact (hf _ hq _ _ hr).mono (fun _ h => h) (fun _ _ _ _ h => h)
      (fun _ h => trans_of T hm h) (fun _ h => trans_of T hn h)
  | error hr hm hn => exact .error hr hm hn
  | refused hl hrefused =>
    refine .refused hl ?_
    obtain ⟨reason, line, k, rfl⟩ | ⟨reason, line, k, rfl⟩ := hrefused
    · exact .inl ⟨reason, line, _, rfl⟩
    · exact .inr ⟨reason, line, _, rfl⟩

end Paired

namespace Goes

variable {α β : Type} {L : Prop} {R T : Machine → Machine → Prop} {Q : α → Prop} {P : β → Prop} {x : Run α}

section

variable [IsPreorder Machine T]

theorem pure {a : α} (h : Q a) : Goes L R T Q (Pure.pure a) :=
  fun m n hr => .ok h hr (refl_of T m) (refl_of T n)

theorem fail (cause : Cause) (line : Nat) : Goes L R T Q (Run.fail cause line) :=
  fun m n hr => .error hr (refl_of T m) (refl_of T n)

theorem bind {f : α → Run β} (h : Goes L R T Q x) (hf : ∀ a, Q a → Goes L R T P (f a)) :
    Goes L R T P (x >>= f) :=
  fun m n hr => (h m n hr).bind hf

/-- The next part gets nothing. -/
theorem bind_unit {x : Run Unit} {f : Unit → Run β} (h : Goes L R T (fun _ => True) x)
    (hf : Goes L R T P (f ())) : Goes L R T P (x >>= f) :=
  h.bind fun _ _ => hf

end

/-- What is read of the machine is the same on both sides. -/
theorem get {f : Machine → Run α} (h : ∀ m n, R m n → f n = f m ∧ Goes L R T Q (f m)) :
    Goes L R T Q (MonadState.get >>= f) := by
  intro m n hr
  obtain ⟨hsame, hgoes⟩ := h m n hr
  change Paired L R T Q m n (f m m) (f n n)
  rw [hsame]
  exact hgoes m n hr

theorem change {f : Machine → Machine}
    (h : ∀ m n, R m n → R (f m) (f n) ∧ T m (f m) ∧ T n (f n)) :
    Goes L R T (fun _ => True) (modify f : Run Unit) :=
  fun m n hr => .ok trivial (h m n hr).1 (h m n hr).2.1 (h m n hr).2.2

theorem bracket {R' T' : Machine → Machine → Prop} {enter leave : Machine → Machine}
    (h : Goes L R' T' Q x) (henter : ∀ m n, R m n → R' (enter m) (enter n))
    (hleave : ∀ m n m' n', R m n → R' m' n' → T' (enter m) m' → T' (enter n) n' →
      R (leave m') (leave n') ∧ T m (leave m') ∧ T n (leave n')) :
    Goes L R T Q (Run.bracket enter leave x) := by
  intro m n hr
  have hx := h _ _ (henter m n hr)
  unfold Run.bracket
  revert hx
  generalize x (enter m) = s
  generalize x (enter n) = s'
  intro hx
  cases hx with
  | ok hq hr' hm hn =>
    obtain ⟨hR, hTm, hTn⟩ := hleave _ _ _ _ hr hr' hm hn
    exact .ok hq hR hTm hTn
  | error hr' hm hn =>
    obtain ⟨hR, hTm, hTn⟩ := hleave _ _ _ _ hr hr' hm hn
    exact .error hR hTm hTn
  | refused hl hrefused =>
    refine .refused hl ?_
    obtain ⟨reason, line, k, rfl⟩ | ⟨reason, line, k, rfl⟩ := hrefused
    · exact .inl ⟨reason, line, _, rfl⟩
    · exact .inr ⟨reason, line, _, rfl⟩

end Goes

/-! What watches a run -/

namespace Watch

@[simp] theorem depth_step (w : Watch) (text : String) : (w.step text).depth = w.depth := by
  unfold step
  split <;> rfl

@[simp] theorem depth_value (w : Watch) (text : Unit → String) :
    (w.value text).depth = w.depth := by
  unfold value
  split <;> rfl

@[simp] theorem depth_record (w : Watch) (passed : Nat) (level : Log.Level)
    (target message : String) (line : Nat) (fields : List (String × String)) :
    (w.record passed level target message line fields).depth = w.depth := by
  unfold record
  split <;> rfl

end Watch

/-! The elementary steps -/

/-- Printing asks the console and fails where that refuses the text. -/
theorem Run.emit_apply (text : String) (line : Nat) (m : Machine) :
    Run.emit text line m = match m.console.write text with
      | .ok console => .ok () { m with console }
      | .error reason => .error (.located (.outputFailed reason) line) m := by
  change (match m.console.write text with
    | .ok console => (modify fun m : Machine => { m with console } : Run Unit)
    | .error reason => Run.fail (.outputFailed reason) line) m = _
  cases m.console.write text <;> rfl

/-- The machine with a name bound in the bindings in force. -/
def Machine.defined (name : String) (v : Value) (m : Machine) : Machine :=
  match m.frames with
  | [] => { m with globals := m.globals.insert name v }
  | f :: fs => { m with frames := f.insert name v :: fs }

theorem Run.scope_defined (name : String) (v : Value) (m : Machine) :
    scope (m.defined name v) = (scope m).insert name v := by
  unfold Machine.defined scope
  cases m.frames <;> simp_all

theorem Machine.local_defined (name : String) (v : Value) (m : Machine) :
    Local m (m.defined name v) := by
  refine ⟨⟨[(name, v)], Run.scope_defined name v m⟩, ?_, ?_, ?_, ?_⟩ <;>
    unfold defined <;> cases m.frames <;> simp

theorem Machine.same_defined (name : String) (v : Value) (m : Machine) :
    m.Same (m.defined name v) := by
  unfold defined
  split <;> exact ⟨rfl, rfl, rfl⟩

variable {B : Bond} {m n m' n' : Machine}

theorem Bond.Joined.on (h : B.Joined m n) (P : String → Prop) : B.JoinedOn P m n :=
  ⟨h.core, fun _ => by rw [h.scope], fun _ hv => h.bound hv⟩

theorem Bond.JoinedOn.of_calm {P : String → Prop} (h : B.JoinedOn P m n) (hcore : B.core m' n')
    (hm : Calm m m') (hn : Calm n n') : B.JoinedOn P m' n' := by
  refine ⟨hcore, fun hname => ?_, fun hname hv => ?_⟩
  · rw [hm.scope, hn.scope, h.scope hname]
  · rw [hm.scope] at hv
    exact h.bound hname hv

/-- What a run gets hold of is left to it where the bindings are left as they are. -/
theorem Bond.Joined.of_calm (h : B.Joined m n) (hcore : B.core m' n') (hm : Calm m m')
    (hn : Calm n n') : B.Joined m' n' := by
  refine ⟨hcore, ?_, fun hv => ?_⟩
  · rw [hm.scope, hn.scope, h.scope]
  · rw [hm.scope] at hv
    exact h.bound hv

namespace Goes

variable {α : Type} {Q : α → Prop} {x : Run α}

/-- A part that keeps the bond, whatever is bound, keeps what is bound too. -/
theorem joined (h : Goes B.lenient B.core Calm Q x) :
    Goes B.lenient B.Joined Calm Q x :=
  fun m n hr => (h m n hr.core).mono (fun _ h => h)
    (fun _ _ hm hn hcore => hr.of_calm hcore hm hn) (fun _ h => h) fun _ h => h

theorem joinedOn {P : String → Prop} (h : Goes B.lenient B.core Calm Q x) :
    Goes B.lenient (B.JoinedOn P) Calm Q x :=
  fun m n hr => (h m n hr.core).mono (fun _ h => h)
    (fun _ _ hm hn hcore => hr.of_calm hcore hm hn) (fun _ h => h) fun _ h => h

/-- A part that needs the bindings of some names has them where all bindings are the same. -/
theorem joined_of_on {P : String → Prop} (h : Goes B.lenient (B.JoinedOn P) Calm Q x) :
    Goes B.lenient B.Joined Calm Q x :=
  fun m n hr => (h m n (hr.on P)).mono (fun _ h => h)
    (fun _ _ hm hn hon => hr.of_calm hon.core hm hn) (fun _ h => h) fun _ h => h

theorem toLocal {R : Machine → Machine → Prop} (h : Goes L R Calm Q x) : Goes L R Local Q x :=
  fun m n hr => (h m n hr).mono (fun _ h => h) (fun _ _ _ _ h => h)
    (fun _ h => h.toLocal) fun _ h => h.toLocal

theorem watch {f : Heap → Watch → Watch} (h : ∀ heap w, (f heap w).depth = w.depth) :
    Goes B.lenient B.core Calm (fun _ => True) (Run.watch f) := by
  refine change fun m n hr => ⟨?_, ⟨rfl, rfl, h _ _⟩, rfl, rfl, h _ _⟩
  exact B.blind hr ⟨rfl, rfl, rfl⟩ ⟨rfl, rfl, rfl⟩

theorem trace (text : String) : Goes B.lenient B.core Calm (fun _ => True) (Run.trace text) :=
  watch fun _ w => w.depth_step text

theorem traceValue (lead : String) (v : Value) :
    Goes B.lenient B.core Calm (fun _ => True) (Run.traceValue lead v) :=
  watch fun _ w => w.depth_value _

theorem log (level : Log.Level) (target message : String) (line : Nat)
    (fields : List (String × String)) :
    Goes B.lenient B.core Calm (fun _ => True) (Run.log level target message line fields) := by
  refine change fun m n hr => ⟨?_, ⟨rfl, rfl, ?_⟩, rfl, rfl, ?_⟩
  · exact B.blind hr ⟨rfl, rfl, rfl⟩ ⟨rfl, rfl, rfl⟩
  · exact m.watch.depth_record _ level target message line fields
  · exact n.watch.depth_record _ level target message line fields

theorem emit (text : String) (line : Nat) :
    Goes B.lenient B.core Calm (fun _ => True) (Run.emit text line) := by
  intro m n hr
  rw [Run.emit_apply, Run.emit_apply]
  obtain ⟨c, d, hc, hd, hcore⟩ | ⟨reason, hc, hd⟩ | ⟨hl, reason, hc | hd⟩ := B.write hr text
  · rw [hc, hd]
    exact .ok trivial hcore ⟨rfl, rfl, rfl⟩ ⟨rfl, rfl, rfl⟩
  · rw [hc, hd]
    exact .error hr (refl_of Calm m) (refl_of Calm n)
  · rw [hc]
    exact .refused hl (.inl ⟨reason, line, m, rfl⟩)
  · rw [hd]
    exact .refused hl (.inr ⟨reason, line, n, rfl⟩)

theorem classOf (r : Ref) : Goes B.lenient B.core Calm (fun _ => True) (Run.classOf r) :=
  get fun m n hr => ⟨by rw [B.heap hr], pure trivial⟩

theorem display (v : Value) : Goes B.lenient B.core Calm (fun _ => True) (Run.display v) :=
  get fun m n hr => ⟨by rw [B.heap hr], pure trivial⟩

theorem newObject (c : Class) :
    Goes B.lenient B.core Calm (fun r => B.holds (.object r)) (Run.newObject c) := by
  intro m n hr
  have hsize : n.heap.size = m.heap.size := by rw [B.heap hr]
  change Paired _ _ _ _ m n (.ok m.heap.size _) (.ok n.heap.size _)
  rw [hsize]
  exact .ok (B.fresh hr) (B.alloc hr c) ⟨rfl, rfl, rfl⟩ ⟨rfl, rfl, rfl⟩

theorem setField {r : Ref} {v : Value} (hr : B.holds (.object r)) (hv : B.holds v)
    (name : String) : Goes B.lenient B.core Calm (fun _ => True) (Run.setField r name v) :=
  change fun _ _ h => ⟨B.setField h hr hv name, ⟨rfl, rfl, rfl⟩, rfl, rfl, rfl⟩

theorem define {v : Value} (hv : B.holds v) (name : String) :
    Goes B.lenient B.Joined Local (fun _ => True) (Run.define name v) := by
  refine change fun m n h => ⟨⟨?_, ?_, fun {k w} hw => ?_⟩, m.local_defined name v,
    n.local_defined name v⟩
  · exact B.blind h.core (m.same_defined name v) (n.same_defined name v)
  · exact (Run.scope_defined name v n).trans (h.scope ▸ (Run.scope_defined name v m).symm)
  · replace hw : (Run.scope (m.defined name v)).get? k = some w := hw
    rw [Run.scope_defined, Dict.get?_insert] at hw
    split at hw
    · cases hw
      exact hv
    · exact h.bound hw

theorem deeper (h : Goes B.lenient B.Joined Local Q x) :
    Goes B.lenient B.Joined Local Q (Run.deeper x) := by
  have enter {m n : Machine} (hr : B.Joined m n) (f : Nat → Nat) :
      B.Joined (Run.setDepth f m) (Run.setDepth f n) :=
    ⟨B.blind hr.core ⟨rfl, rfl, rfl⟩ ⟨rfl, rfl, rfl⟩, hr.scope, hr.bound⟩
  have leave {m m' : Machine} (hm : Local (Run.setDepth (· + 1) m) m') :
      Local m (Run.setDepth (· - 1) m') :=
    ⟨hm.scope, hm.active, hm.outer, hm.globals, congrArg (· - 1) hm.depth⟩
  exact h.bracket (fun _ _ hr => enter hr _) fun _ _ _ _ _ hr' hm hn =>
    ⟨enter hr' _, leave hm, leave hn⟩

/-- A part that runs in a frame of its own sees that frame only, and leaves all others. -/
theorem inFrame (h : Goes B.lenient B.Joined Local Q x) {frame : Env}
    (hframe : ∀ name v, frame.get? name = some v → B.holds v) :
    Goes B.lenient B.core Calm Q (Run.inFrame frame x) := by
  have leave {m m' : Machine} (hm : Local { m with frames := frame :: m.frames } m') :
      Calm m { m' with frames := m'.frames.tail } :=
    ⟨hm.globals (List.cons_ne_nil _ _), hm.outer, hm.depth⟩
  refine (deeper h).bracket (fun m n hr => ?_) fun m n m' n' _ hr' hm hn => ?_
  · exact ⟨B.blind hr ⟨rfl, rfl, rfl⟩ ⟨rfl, rfl, rfl⟩, rfl, fun hv => hframe _ _ hv⟩
  · exact ⟨B.blind hr'.core ⟨rfl, rfl, rfl⟩ ⟨rfl, rfl, rfl⟩, leave hm, leave hn⟩

end Goes

end ClassLang
