import ClassLang.Proofs.Eval.Activation
import ClassLang.Proofs.Eval.Context

/-!
The calls that a part of a run makes by itself. Such a call begins while the counter of calls stands
where it stood when the part began; the calls that its body makes begin while the counter is higher,
and belong to it. Every call makes just itself, so the calls of a part are those of the parts it
consists of, in their order.
-/

namespace ClassLang

theorem Class.hasMethod_eq_true_iff {c : Class} {name : String} {n : Nat} :
    c.hasMethod name n = true ↔ ∃ x, c.method? name = some x ∧ x.arity = n := by
  unfold hasMethod
  cases c.method? name <;> simp

/-- A method that a class does not have with so many parameters is not the one that is called. -/
theorem Class.arity_ne_of_hasMethod {c : Class} {name : String} {n : Nat}
    (h : c.hasMethod name n = false) {x : Method} (hx : c.method? name = some x) : x.arity ≠ n := by
  intro harity
  rw [hasMethod_eq_true_iff.2 ⟨x, hx, harity⟩] at h
  cases h

section

variable {m : Machine} {r : Ref} {name : String} {args : List Value}

/-- A call of a method that the class does not have with so many parameters fails. -/
theorem Eval.callIn_of_missing (h : (m.heap.get r).cls.hasMethod name args.length = false)
    (room line : Nat) : callIn room r name args line m =
      .error (.located (.methodNotFound (m.heap.get r).cls.name name args.length) line) m := by
  rw [callIn, Run.classOf_bind]
  cases hx : (m.heap.get r).cls.method? name with
  | none => rfl
  | some x =>
    simp only [if_neg (Class.arity_ne_of_hasMethod h hx)]
    rfl

/-- It fails in one moment. -/
theorem Moment.beginCall_of_missing (h : (m.heap.get r).cls.hasMethod name args.length = false)
    (K : List Pending) (d line : Nat) : beginCall K d m r name args line =
      ⟨.failed (.located (.methodNotFound (m.heap.get r).cls.name name args.length) line), K, m,
        d⟩ := by
  rw [beginCall]
  cases hx : (m.heap.get r).cls.method? name with
  | none => rfl
  | some x => simp only [if_neg (Class.arity_ne_of_hasMethod h hx)]

end

namespace Moment

/-- A call: of which instance, by which name and with which arguments. -/
structure Dispatch where
  receiver : Ref
  method : String
  args : List Value

/-- The call that is about to be made at a moment, if one is and the counter is at a number. -/
def dispatch (d : Nat) (n : Moment) : List Dispatch :=
  match n.task with
  | .call r name args _ => if n.active = d then [⟨r, name, args⟩] else []
  | _ => []

/-- One moment leads to another. In between, calls are made while the counter is at a number. -/
inductive Makes (d : Nat) : Moment → List Dispatch → Moment → Prop where
  | refl (a : Moment) : Makes d a [] a
  | head {a b c : Moment} {cs : List Dispatch} :
      a.next = some b → Makes d b cs c → Makes d a (a.dispatch d ++ cs) c

/-- A task stands for a part of a run, which makes calls by itself that depend on the machine at its
beginning. -/
def Asks {α : Type} (d : Nat) (t : Task) (give : α → Task) (x : Run α)
    (cs : Machine → List Dispatch) : Prop :=
  ∀ K m, Balance K m d → Makes d ⟨t, K, m, d⟩ (cs m) (closing give K d (x m))

/-- The calls that are made behind a part of a run. None are where it fails. -/
def behind {α : Type} (f : α → Machine → List Dispatch) :
    EStateM.Result Error Machine α → List Dispatch
  | .ok a n => f a n
  | .error .. => []

variable {α β : Type} {d : Nat} {K : List Pending} {m : Machine} {frame : Env} {body : Stmt}

namespace Makes

variable {a b c : Moment} {cs ds : List Dispatch}

theorem trans (h : Makes d a cs b) (h' : Makes d b ds c) : Makes d a (cs ++ ds) c := by
  induction h with
  | refl => exact h'
  | head hnext _ ih =>
    rw [List.append_assoc]
    exact .head hnext (ih h')

theorem leads (h : Makes d a cs b) : Leads a b := by
  induction h with
  | refl => exact .refl
  | head hnext _ ih => exact .head hnext ih

/-- A moment that is no call comes first. -/
theorem cons (hnext : a.next = some b) (ha : a.dispatch d = []) (h : Makes d b cs c) :
    Makes d a cs c := by
  have hcalls := Makes.head hnext h
  rwa [ha] at hcalls

/-- A moment that is no call comes last. -/
theorem tail (h : Makes d a cs b) (hnext : b.next = some c) (hb : b.dispatch d = []) :
    Makes d a cs c := by
  have hcalls := h.trans (.cons hnext hb (.refl c))
  rwa [List.append_nil] at hcalls

/-- There is one list of calls up to a moment that ends a run. -/
theorem unique (h : Makes d a cs b) (h' : Makes d a ds b) (hfinal : b.next = none) : cs = ds := by
  induction h generalizing ds with
  | refl b =>
    cases h' with
    | refl => rfl
    | head hnext _ =>
      rw [hfinal] at hnext
      cases hnext
  | head hnext _ ih =>
    cases h' with
    | refl =>
      rw [hfinal] at hnext
      cases hnext
    | head hnext' h' =>
      rw [hnext] at hnext'
      obtain rfl := Option.some.inj hnext'
      rw [ih h' hfinal]

end Makes

/-- While a body is executed, the counter is higher than before its call. -/
theorem makes_body {a b : Moment} (hab : Leads a b) (hd : calls K = d)
    (ha : (a.above (.leave :: K)).Balanced) :
    Makes d (a.above (.leave :: K)) [] (b.above (.leave :: K)) := by
  induction hab using Relation.ReflTransGen.head_induction_on with
  | refl => exact .refl _
  | @head a c hnext _ ih =>
    have hnext := next_above hnext (.leave :: K)
    refine .cons hnext ?_ (ih (ha.next hnext))
    have hactive : a.active = calls (a.pending ++ .leave :: K) := ha.calls
    have hcalls : calls (a.pending ++ .leave :: K) = calls a.pending + (d + 1) := by
      rw [calls, List.countP_append, List.countP_cons_of_pos rfl]
      exact congrArg (calls a.pending + · + 1) hd
    have hne : a.active ≠ d := by omega
    unfold dispatch
    split
    · rename_i ht
      have hactive : (a.above (.leave :: K)).active = a.active := rfl
      rw [hactive, if_neg hne]
    · rfl

/-- A body makes no call while the counter is where it was before the body's call. -/
theorem makes_enter (h : (enter K d frame body m).Balanced) (hd : calls K = d) {call : Call}
    (hcall : PlaysCalls (d + 1) call) :
    Makes d (enter K d frame body m) [] (closing (fun o => .value o.value) K d
      (Run.inFrame frame (Eval.stmt call body) m)) := by
  have hbody :=
    plays_stmt hcall body [] (Run.setDepth (· + 1) { m with frames := frame :: m.frames })
  have hmakes := makes_body hbody hd h
  unfold Run.inFrame Run.deeper Run.bracket
  revert hmakes
  cases Eval.stmt call body (Run.setDepth (· + 1) { m with frames := frame :: m.frames }) with
  | ok o n => exact fun hmakes => hmakes.tail rfl rfl
  | error e n => exact fun hmakes => hmakes.tail rfl rfl

/-- A call makes itself and no other. -/
theorem asks_call (r : Ref) (name : String) (args : List Value) (line : Nat) :
    Asks d (.call r name args line) .value (Eval.callIn (callLimit - d) r name args line)
      fun _ => [⟨r, name, args⟩] := by
  intro K m h
  have hself : dispatch d ⟨.call r name args line, K, m, d⟩ = [⟨r, name, args⟩] := by
    simp [dispatch]
  suffices hbody : Makes d (beginCall K d m r name args line) []
      (closing .value K d (Eval.callIn (callLimit - d) r name args line m)) by
    have hcalls := Makes.head (a := ⟨.call r name args line, K, m, d⟩) rfl hbody
    rwa [hself, List.append_nil] at hcalls
  cases hx : (m.heap.get r).cls.hasMethod name args.length with
  | false =>
    rw [beginCall_of_missing hx, Eval.callIn_of_missing hx]
    exact .refl _
  | true =>
    obtain ⟨x, hx, harity⟩ := Class.hasMethod_eq_true_iff.1 hx
    have hbegun := balanced_beginCall h r name args line
    by_cases hfull : callLimit ≤ d
    · have hroom : callLimit - d = 0 := by omega
      rw [hroom, Eval.callIn_zero hx harity]
      simp only [beginCall, hx, if_pos harity, if_pos hfull]
      exact .refl _
    · obtain ⟨room, hroom⟩ : ∃ room, callLimit - d = room + 1 := ⟨callLimit - (d + 1), by omega⟩
      have hcall : PlaysCalls (d + 1) (Eval.callIn room) := playsCalls room (by omega)
      rw [hroom, Eval.callIn_succ room hx harity]
      simp only [beginCall, hx, if_pos harity, if_neg hfull] at hbegun ⊢
      have hinside := makes_enter hbegun h.calls.symm hcall
      rwa [← closing_bind_pure] at hinside

/-! What comes behind a part of a run -/

theorem behind_nil (x : EStateM.Result Error Machine α) : behind (fun _ _ => []) x = [] := by
  cases x <;> rfl

/-- A part comes first, and what waits for it goes on with what comes of it. Where the part fails,
no calls are made behind it. -/
theorem Asks.resume {t : Task} {give : α → Task} {x : Run α} {cs : Machine → List Dispatch}
    (h : Asks d t give x cs) (hK : Balance K m d) {p : Pending} (hcall : p.isCall = false)
    {give' : β → Task} {f : α → Run β} {ds : α → Machine → List Dispatch}
    (hf : ∀ a n, x m = .ok a n → Balance K n d →
      Makes d ⟨give a, p :: K, n, d⟩ (ds a n) (closing give' K d (f a n)))
    (hp : ∀ n e, abandon K d n e p = ⟨.failed e, K, n, d⟩) :
    Makes d ⟨t, p :: K, m, d⟩ (cs m ++ behind ds (x m)) (closing give' K d ((x >>= f) m)) := by
  have hstart : Balanced ⟨t, p :: K, m, d⟩ := hK.push hcall
  have hx := h (p :: K) m hstart
  have hend : (closing give (p :: K) d (x m)).Balanced := hstart.leads hx.leads
  change Makes d _ _ (closing give' K d (EStateM.bind x f m))
  unfold EStateM.bind
  cases hr : x m with
  | ok a n =>
    rw [hr] at hx hend
    have hn : Balance (p :: K) n d := hend
    exact hx.trans (hf a n hr (hn.pop hcall))
  | error e n =>
    rw [hr] at hx
    rw [behind, List.append_nil]
    exact hx.tail (congrArg some (hp n e)) rfl

/-- As before, where what waits makes no calls. -/
theorem Asks.finish {t : Task} {give : α → Task} {x : Run α} {cs : Machine → List Dispatch}
    (h : Asks d t give x cs) (hK : Balance K m d) {p : Pending} (hcall : p.isCall = false)
    {give' : β → Task} {f : α → Run β}
    (hf : ∀ a n, Makes d ⟨give a, p :: K, n, d⟩ [] (closing give' K d (f a n)))
    (hp : ∀ n e, abandon K d n e p = ⟨.failed e, K, n, d⟩) :
    Makes d ⟨t, p :: K, m, d⟩ (cs m) (closing give' K d ((x >>= f) m)) := by
  have hmakes : Makes d ⟨t, p :: K, m, d⟩ (cs m ++ behind (fun _ _ => []) (x m))
      (closing give' K d ((x >>= f) m)) := h.resume hK hcall (fun a n _ _ => hf a n) hp
  rwa [behind_nil, List.append_nil] at hmakes

end Moment

end ClassLang
