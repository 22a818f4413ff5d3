import ClassLang.Proofs.Eval.Halting
import ClassLang.Proofs.Eval.Restored

/-!
The calls that are active. At every moment of a run the counter is the number of calls that have
begun and not ended, which is the number of frames, and it does not pass the limit; a call that finds
it there is refused, and all others begin. However a part of a run ends, the frames around it, the
counter and the depth of the trace are then those before it.
-/

namespace ClassLang

open Eval

namespace Moment

/-- Whether what waits is the end of a call. -/
def Pending.isCall : Pending → Bool
  | .leave => true
  | _ => false

/-- The number of calls whose end waits. -/
def calls (K : List Pending) : Nat := K.countP Pending.isCall

/-- Holds where the counter and the frames say how many calls are active. -/
structure Balance (K : List Pending) (m : Machine) (d : Nat) : Prop where
  calls : d = calls K
  frames : m.frames.length = d
  limit : d ≤ callLimit

/-- Holds of moments at which the counter and the frames say how many calls are active. -/
def Balanced (n : Moment) : Prop := Balance n.pending n.machine n.active

variable {α : Type} {Q : α → Prop} {K : List Pending} {m : Machine} {d : Nat}

namespace Balance

theorem push (h : Balance K m d) {p : Pending} (hp : p.isCall = false) :
    Balance (p :: K) m d := by
  refine ⟨?_, h.frames, h.limit⟩
  rw [h.calls, Moment.calls, Moment.calls, List.countP_cons_of_neg (by simp [hp])]

theorem pop {p : Pending} (h : Balance (p :: K) m d) (hp : p.isCall = false) :
    Balance K m d := by
  refine ⟨?_, h.frames, h.limit⟩
  rw [h.calls, Moment.calls, Moment.calls, List.countP_cons_of_neg (by simp [hp])]

theorem of_frames {n : Machine} (h : Balance K m d) (hn : n.frames = m.frames) :
    Balance K n d :=
  ⟨h.calls, hn ▸ h.frames, h.limit⟩

/-- A part of a run that keeps the frames around it comes first. -/
theorem perform (h : Balance K m d) {x : Run α} (hx : Goes False Bond.same.Joined Local Q x)
    {go : α → Machine → Moment} (hgo : ∀ a n, Balance K n d → (go a n).Balanced) :
    (perform K d x go m).Balanced := by
  have hactive := (hx.after (joined_same m)).2.active
  unfold Moment.perform
  unfold Run.after at hactive
  revert hactive
  cases x m with
  | ok a n => exact fun hactive => hgo a n ⟨h.calls, hactive.trans h.frames, h.limit⟩
  | error e n => exact fun hactive => ⟨h.calls, hactive.trans h.frames, h.limit⟩

theorem enter (h : Balance K m d) (hspace : d < callLimit) (frame : Env) (body : Stmt) :
    (enter K d frame body m).Balanced := by
  refine ⟨?_, ?_, hspace⟩
  · change d + 1 = Moment.calls (.leave :: K)
    rw [Moment.calls, List.countP_cons_of_pos rfl, ← Moment.calls, h.calls]
  · exact congrArg (· + 1) h.frames

theorem exit (h : Balance (.leave :: K) m d) (t : Task) : (exit K d t m).Balanced := by
  have hcalls : d = Moment.calls K + 1 := by
    rw [h.calls, Moment.calls, List.countP_cons_of_pos rfl, ← Moment.calls]
  refine ⟨?_, ?_, (Nat.sub_le _ _).trans h.limit⟩
  · change d - 1 = Moment.calls K
    omega
  · change m.frames.tail.length = d - 1
    rw [List.length_tail, h.frames]

end Balance

/-! One moment -/

theorem balanced_give (h : Balance K m d) {x : Run Value}
    (hx : Goes False Bond.same.core Calm Bond.same.holds x) : (give K d x m).Balanced :=
  h.perform hx.joined.toLocal fun _ _ h => h

theorem balanced_beginExpr (h : Balance K m d) (e : Expr) : (beginExpr K d m e).Balanced := by
  cases e with
  | literal l pos => exact h
  | name names pos =>
    have hpath : Goes False (Bond.same.JoinedOn fun _ => True) Calm Bond.same.holds
        (path pos.line names) := .path pos.line fun _ _ => trivial
    exact h.perform hpath.joined_of_on.toLocal fun _ _ h => h
  | construct name args pos =>
    simp only [beginExpr]
    split
    · exact h
    · exact h
  | _ => exact h.push rfl

theorem balanced_beginUse (h : Balance K m d) (vs : List Value) (use : Use) :
    (beginUse K d m vs use).Balanced := by
  cases use with
  | method r name line => exact h
  | construct c line =>
    refine h.perform (Goes.newObject c).joined.toLocal fun r n h => ?_
    refine h.perform (Goes.log _ _ _ _ _).joined.toLocal fun _ n h => ?_
    split
    · exact h.push rfl
    · exact h

theorem balanced_beginCall (h : Balance K m d) (r : Ref) (name : String) (args : List Value)
    (line : Nat) : (beginCall K d m r name args line).Balanced := by
  unfold beginCall
  simp only []
  split
  · exact h
  · split
    · split
      · exact h
      · rename_i hspace
        refine h.perform (Goes.log _ _ _ _ _).joined.toLocal fun _ n h => ?_
        refine h.perform (Goes.trace _).joined.toLocal fun _ n h => ?_
        exact h.enter (Nat.lt_of_not_le hspace) _ _
    · exact h

theorem balanced_beginArith (h : Balance K m d) (op : ArithOp) (left right : Value)
    (line : Nat) : (beginArith K d m op left right line).Balanced := by
  have refused : (give K d (Eval.badOperands op left right line) m).Balanced :=
    balanced_give h (Goes.fail _ _)
  unfold beginArith
  split
  · exact balanced_give h (Goes.arithNumbers _ _ _ _)
  · split
    · exact h
    · exact refused
  · split
    · exact h
    · exact refused
  · exact refused

theorem balanced_beginEqual (h : Balance K m d) (left right : Value) (line : Nat) :
    (beginEqual K d m left right line).Balanced := by
  unfold beginEqual
  simp only []
  split
  case h_5 =>
    split
    · exact h.push rfl
    · exact h
  all_goals exact h

theorem balanced_beginLess (h : Balance K m d) (left right : Value) (line : Nat) :
    (beginLess K d m left right line).Balanced := by
  unfold beginLess
  simp only []
  split
  case h_4 =>
    split
    · exact h.push rfl
    · exact h
  all_goals exact h

theorem balanced_beginRender (h : Balance K m d) (v : Value) (line steps : Nat) :
    (beginRender K d m v line steps).Balanced := by
  cases steps with
  | zero => exact h
  | succ steps =>
    cases v with
    | object r =>
      unfold beginRender
      simp only []
      split
      · exact h.push rfl
      · exact h
    | _ => exact h

theorem balanced_beginMore (h : Balance K m d) (first : Value) (line : Nat) (es : List Expr) :
    (beginMore K d m first line es).Balanced := by
  cases es with
  | nil => exact h.perform (Goes.emit _ _).joined.toLocal fun _ _ h => h
  | cons e es => exact h.perform (Goes.emit _ _).joined.toLocal fun _ _ h => h.push rfl

theorem balanced_beginPrint (h : Balance K m d) (line : Nat) (es : List Expr) :
    (beginPrint K d m line es).Balanced := by
  cases es with
  | nil => exact h.perform (Goes.emit _ _).joined.toLocal fun _ _ h => h
  | cons e es => exact h.push rfl

theorem balanced_beginOtherwise (h : Balance K m d) (line : Nat) (no : Option Stmt) :
    (beginOtherwise K d m line no).Balanced := by
  cases no with
  | none => exact h
  | some s => exact h.perform (Goes.trace _).joined.toLocal fun _ _ h => h

theorem balanced_beginStmt (h : Balance K m d) (s : Stmt) : (beginStmt K d m s).Balanced := by
  have traced {text : String} {go : Unit → Machine → Moment}
      (hgo : ∀ n, Balance K n d → (go () n).Balanced) :
      (perform K d (Run.trace text) go m).Balanced :=
    h.perform (Goes.trace _).joined.toLocal fun _ n => hgo n
  cases s with
  | print args pos => exact traced fun n h => balanced_beginPrint h _ _
  | classDef c pos =>
    exact traced fun n h => h.perform (Goes.defineClass c _) fun _ _ h => h
  | block body pos =>
    have hblock : Balance (.endBlock :: K) m d := h.push rfl
    exact hblock.of_frames rfl
  | methodBody body pos => exact h.push rfl
  | _ => exact traced fun n h => h.push rfl

theorem balanced_resume (o : Outcome) (p : Pending) (h : Balance (p :: K) m d) :
    (resume K d m o p).Balanced := by
  have valued {text : String} {go : Unit → Machine → Moment} (hp : p.isCall = false)
      (hgo : ∀ n, Balance K n d → (go () n).Balanced) :
      (perform K d (Run.traceValue text o.value) go m).Balanced :=
    (h.pop hp).perform (Goes.traceValue _ _).joined.toLocal fun _ n => hgo n
  cases p with
  | leave => exact h.exit _
  | endBlock => exact (h.pop rfl).of_frames rfl
  | receiver | unlessEqual | methodBody | statements | program =>
    simp only [resume]
    split
    · exact h.pop rfl
    · exact h.pop rfl
  | logic op right =>
    cases op with
    | or =>
      simp only [resume]
      split
      · exact h.pop rfl
      · exact (h.pop rfl).push rfl
    | and =>
      simp only [resume]
      split
      · exact (h.pop rfl).push rfl
      · exact h.pop rfl
  | arithLeft | compareLeft | printing | fieldTarget => exact (h.pop rfl).push rfl
  | emitting first rest line =>
    exact (h.pop rfl).perform (Goes.emit _ _).joined.toLocal fun _ n h =>
      balanced_beginMore h _ _ _
  | assign name =>
    exact valued rfl fun n h => h.perform (Goes.define trivial _) fun _ _ h => h
  | fieldValue target name line =>
    exact (h.pop rfl).perform (Goes.assignField trivial trivial _ _).joined.toLocal fun _ n h => h
  | give | expression => exact valued rfl fun n h => h
  | branch yes no line =>
    refine valued rfl fun n h => ?_
    split
    · exact h
    · exact balanced_beginOtherwise h _ _
  | argument | constructed | toText | arithRight | truth | negation | compareRight | rendered =>
    exact h.pop rfl

theorem balanced_abandon (e : Error) (p : Pending) (h : Balance (p :: K) m d) :
    (abandon K d m e p).Balanced := by
  cases p with
  | leave => exact h.exit _
  | endBlock | program => exact (h.pop rfl).of_frames rfl
  | _ => exact h.pop rfl

/-- Every moment leaves the counter and the frames in balance. -/
theorem Balanced.next {a b : Moment} (h : a.Balanced) (hb : a.next = some b) : b.Balanced := by
  obtain ⟨t, K, m, d⟩ := a
  cases t with
  | expr e => exact Option.some.inj hb ▸ balanced_beginExpr h e
  | args ready rest use =>
    cases rest with
    | nil => exact Option.some.inj hb ▸ balanced_beginUse h ready use
    | cons e es => exact Option.some.inj hb ▸ Balance.push h rfl
  | call r name args line => exact Option.some.inj hb ▸ balanced_beginCall h r name args line
  | arith op left right line => exact Option.some.inj hb ▸ balanced_beginArith h op left right line
  | compare op left right line =>
    cases op with
    | equal => exact Option.some.inj hb ▸ balanced_beginEqual h left right line
    | less => exact Option.some.inj hb ▸ balanced_beginLess h left right line
    | _ => exact Option.some.inj hb ▸ Balance.push h rfl
  | render steps v line => exact Option.some.inj hb ▸ balanced_beginRender h v line steps
  | stmt s => exact Option.some.inj hb ▸ balanced_beginStmt h s
  | block ss =>
    cases ss with
    | nil => exact Option.some.inj hb ▸ h
    | cons s ss => exact Option.some.inj hb ▸ Balance.push h rfl
  | program last ss =>
    cases ss with
    | nil => exact Option.some.inj hb ▸ h
    | cons s ss => exact Option.some.inj hb ▸ Balance.push h rfl
  | done o =>
    cases K with
    | nil => cases hb
    | cons p K => exact Option.some.inj hb ▸ balanced_resume o p h
  | failed e =>
    cases K with
    | nil => cases hb
    | cons p K => exact Option.some.inj hb ▸ balanced_abandon e p h

/-- At every moment of a run the counter and the frames say how many calls are active. -/
theorem Balanced.leads {a b : Moment} (h : a.Balanced) (hb : Leads a b) : b.Balanced := by
  induction hb with
  | refl => exact h
  | tail _ hnext ih => exact ih.next hnext

/-! Calls -/

variable {n : Moment} {r : Ref} {name : String} {args : List Value} {line : Nat} {x : Method}

/-- A call of a method that the class has begins while the counter is below the limit. -/
theorem begins_call {m : Machine} {d : Nat} (hx : (m.heap.get r).cls.method? name = some x)
    (harity : x.arity = args.length) (hd : d < callLimit) (line : Nat) (K : List Pending) :
    ∃ m', Moment.next ⟨.call r name args line, K, m, d⟩ =
        some ⟨.stmt x.body, .leave :: K, m', d + 1⟩ ∧
      m'.frames = Eval.frame r x.params args :: m.frames := by
  simp only [Moment.next, beginCall, hx, if_pos harity, if_neg (Nat.not_le_of_lt hd)]
  exact ⟨_, rfl, rfl⟩

/-- A call of a method that the class has begins where fewer calls are active than may be. -/
theorem Balanced.begins (h : n.Balanced) (ht : n.task = .call r name args line)
    (hx : (n.machine.heap.get r).cls.method? name = some x) (harity : x.arity = args.length)
    (hspace : calls n.pending < callLimit) :
    ∃ m, n.next = some ⟨.stmt x.body, .leave :: n.pending, m, n.active + 1⟩ ∧
      m.frames = Eval.frame r x.params args :: n.machine.frames := by
  obtain ⟨t, K, m, d⟩ := n
  subst ht
  have hcalls : d = calls K := h.calls
  exact begins_call hx harity (hcalls ▸ hspace) line K

/-- It is refused where as many are active as may be, and there only. -/
theorem Balanced.refused_iff (h : n.Balanced) (ht : n.task = .call r name args line)
    (hx : (n.machine.heap.get r).cls.method? name = some x) (harity : x.arity = args.length) :
    n.next = some ⟨.failed (.located (.recursionLimit callLimit) line), n.pending, n.machine,
      n.active⟩ ↔ calls n.pending = callLimit := by
  constructor
  · intro hrefused
    apply Nat.le_antisymm (h.calls ▸ h.limit)
    apply Nat.le_of_not_lt
    intro hspace
    obtain ⟨m, hbegun, -⟩ := h.begins ht hx harity hspace
    rw [hbegun] at hrefused
    cases hrefused
  · intro hfull
    obtain ⟨t, K, m, d⟩ := n
    subst ht
    have hcalls : d = calls K := h.calls
    have hd : callLimit ≤ d := by
      rw [hcalls]
      exact hfull.ge
    simp only [Moment.next, beginCall, hx, if_pos harity, if_pos hd]

/-! Parts of a run -/

/-- A task ends as a part of a run does, whatever waits for it and wherever the counter stands. What
waits and the counter are then as before it, and the machine is related to the one before it. -/
def Restores (T : Machine → Machine → Prop) (give : α → Task) (t : Task) (x : Call → Run α) :
    Prop :=
  ∀ K m d, Leads ⟨t, K, m, d⟩ (closing give K d (x (Eval.callIn (callLimit - d)) m)) ∧
    T m ((x (Eval.callIn (callLimit - d))).after m)

end Moment

namespace Machine.Reached

open Moment

/-- Frames and counters are restored on every path. However a statement, an expression, a call, a
comparison or the text of a value ends, the frames around it, the counter of calls and the depth of
the trace are those before it, and all but statements leave the frame in force. At every moment of a
run the counter is the number of active calls, which is at most the limit, and a call of a method
that the class has is refused where that number is the limit and begins where it is less. After a
program no frame is left and no call is active. -/
theorem restored {m : Machine} (h : m.Reached) :
    (∀ s, Restores Local .done (.stmt s) (stmt · s)) ∧
    (∀ e, Restores Calm .value (.expr e) (expr · e)) ∧
    (∀ r name args line,
      Restores Calm .value (.call r name args line) fun call => call r name args line) ∧
    (∀ op left right line, Restores Calm (fun b => .value (.bool b))
      (.compare op left right line) (compare · op left right line)) ∧
    (∀ v line, Restores Calm (fun text => .value (.string text)) (.render callLimit v line)
      (render · v line)) ∧
    (∀ t classes n, Leads ⟨t, [], { m with classes }, 0⟩ n →
      n.active = calls n.pending ∧ n.machine.frames.length = n.active ∧ n.active ≤ callLimit ∧
      ∀ r name args line x, n.task = .call r name args line →
        (n.machine.heap.get r).cls.method? name = some x → x.arity = args.length →
        (n.next = some ⟨.failed (.located (.recursionLimit callLimit) line), n.pending,
          n.machine, n.active⟩ ↔ calls n.pending = callLimit) ∧
        (calls n.pending < callLimit →
          ∃ m', n.next = some ⟨.stmt x.body, .leave :: n.pending, m', n.active + 1⟩ ∧
            m'.frames = frame r x.params args :: n.machine.frames)) ∧
    ∀ p, Leads (start p m) (closing .value [] 0 (interpret p m)) ∧
      ((interpret p).after m).frames = [] ∧
      ((interpret p).after m).watch.depth = m.watch.depth := by
  have hcalls (d : Nat) : PlaysCalls d (callIn (callLimit - d)) := playsCalls _ rfl
  refine ⟨fun s K n d => ?_, fun e K n d => ?_, fun r name args line K n d => ?_,
    fun op left right line K n d => ?_, fun v line K n d => ?_, fun t classes n hn => ?_,
    fun p => ?_⟩
  · exact ⟨plays_stmt (hcalls d) s K n, local_stmt _ n s⟩
  · exact ⟨plays_expr (hcalls d) e K n, calm_expr _ n e⟩
  · exact ⟨hcalls d r name args line K n, calm_call _ n r name args line⟩
  · exact ⟨plays_compare (hcalls d) op left right line K n, calm_compare _ n op left right line⟩
  · exact ⟨plays_render (hcalls d) line callLimit v K n, calm_render _ n v line⟩
  · have hstart : Balanced ⟨t, [], { m with classes }, 0⟩ :=
      ⟨rfl, congrArg List.length h.frames, Nat.zero_le _⟩
    have hbalanced : n.Balanced := hstart.leads hn
    refine ⟨hbalanced.calls, hbalanced.frames, hbalanced.limit,
      fun r name args line x ht hx harity => ⟨?_, ?_⟩⟩
    · exact hbalanced.refused_iff ht hx harity
    · exact hbalanced.begins ht hx harity
  · have hlocal := local_interpret p m
    refine ⟨plays_program .none p.statements [] _, ?_, hlocal.depth⟩
    exact List.length_eq_zero_iff.1 (hlocal.active.trans (congrArg List.length h.frames))

/-- A call between two entries, the first of which has failed, begins. -/
theorem restored_halfway :
    halfway.Reached ∧ ∃ x, (halfway.heap.get 0).cls.method? "get" = some x ∧
      x.arity = ([] : List Value).length ∧
      ∃ m', Moment.next ⟨.call 0 "get" [] 7, [], halfway, 0⟩ =
          some ⟨.stmt x.body, [.leave], m', 1⟩ ∧ m'.frames = [frame 0 x.params []] := by
  have hreached : halfway.Reached := .eval _ (.fresh _ _)
  have hget : ((halfway.heap.get 0).cls.method? "get").map Method.arity = some 0 := by
    decide +kernel
  obtain ⟨x, hx, harity⟩ := Option.map_eq_some_iff.1 hget
  refine ⟨hreached, x, hx, harity, ?_⟩
  obtain ⟨-, -, -, -, -, hmoments, -⟩ := restored hreached
  obtain ⟨-, -, -, hcall⟩ := hmoments (.call 0 "get" [] 7) halfway.classes _ .refl
  obtain ⟨m', hnext, hframes⟩ := (hcall 0 "get" [] 7 x rfl hx harity).2 (by decide)
  refine ⟨m', hnext, ?_⟩
  rw [hframes, hreached.frames]

end Machine.Reached

end ClassLang
