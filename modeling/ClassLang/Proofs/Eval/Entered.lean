import ClassLang.Proofs.Eval.Activation

/-!
The frame in which the body of a method starts. The parameters of a method that is read differ from
one another, so each is bound to its own argument. The receiver is bound too, unless a parameter
behind the first has its name.
-/

namespace ClassLang

open Eval

/-- Holds of the frames in which a method with some parameters starts on a receiver, with some
arguments. -/
structure Eval.Enters (receiver : Ref) (params : List String) (args : List Value) (f : Env) :
    Prop where
  param : ∀ (i : Nat) param v, params[i]? = some param → args[i]? = some v → f.get? param = some v
  receiver : "self" ∉ params → f.get? "self" = some (.object receiver)
  only : ∀ name, f.contains name = true → name = "self" ∨ name ∈ params

variable {params : List String} {args : List Value}

/-- A call binds its receiver and its arguments, and nothing else. -/
theorem Eval.enters_frame (r : Ref) (hparams : params.Nodup)
    (hlength : params.length = args.length) : Enters r params args (frame r params args) := by
  have hnames : (params.zip args).map Prod.fst = params := List.map_fst_zip hlength.le
  refine ⟨fun i param v hparam hv => ?_, fun hself => ?_, fun name hname => ?_⟩
  · refine Dict.get?_insertAll_of_mem _ (by rwa [hnames]) ?_
    exact List.mem_of_getElem? (List.getElem?_zip_eq_some.2 ⟨hparam, hv⟩)
  · rw [frame, Dict.get?_insertAll_of_not_mem _ (by rwa [hnames]), Dict.get?_insert, if_pos rfl]
  · by_cases hmem : name ∈ params
    · exact .inr hmem
    · left
      by_contra hne
      rw [Dict.contains, frame, Dict.get?_insertAll_of_not_mem _ (by rwa [hnames]),
        Dict.get?_insert, if_neg hne] at hname
      cases hname

namespace Moment

/-- Where the body of a method starts that is read from a source, each parameter is bound to its own
argument, the receiver is bound unless a parameter behind the first has its name, and nothing else
is bound. -/
theorem enters_of_call {session : Machine} (hsession : session.Reached) {source : String}
    {p : Program} (hp : Program.ofSource session.classes source = .ok p) {cls : String} {c : Class}
    (hc : Dict.get? p.classes cls = some c) {name : String} {x : Method}
    (hx : c.method? name = some x) {m : Machine} {r : Ref} (hr : (m.heap.get r).cls = c)
    (hargs : x.arity = args.length) {d : Nat} (hd : d < callLimit) (line : Nat)
    (K : List Pending) :
    ∃ n, next ⟨.call r name args line, K, m, d⟩ = some ⟨.stmt x.body, .leave :: K, n, d + 1⟩ ∧
      Enters r x.params args (Run.scope n) ∧ x.params.head? ≠ some "self" := by
  obtain ⟨hadmitted, -, -⟩ := Program.admitted_of_ofSource hsession.sound.classes hp
  have hmethod := (hadmitted.cls hc).method? name x hx
  subst hr
  obtain ⟨n, hnext, hframes⟩ := begins_call hx hargs hd line K
  have hscope : Run.scope n = frame r x.params args := by rw [Run.scope, hframes]
  refine ⟨n, hnext, ?_, Grammar.head?_ne_of_withoutReceiver hmethod.receiver⟩
  rw [hscope]
  exact enters_frame r hmethod.nodup hargs

/-- A method of a program that is read, by its parameters. -/
theorem exists_of_params {source cls name : String}
    (h : ((Program.ofSource .empty source).toOption.bind fun p =>
      (Dict.get? p.classes cls).bind fun c => (c.method? name).map Method.params) = some params) :
    ∃ p c x, Program.ofSource .empty source = .ok p ∧ Dict.get? p.classes cls = some c ∧
      c.method? name = some x ∧ x.params = params := by
  obtain ⟨p, hp, h⟩ := Option.bind_eq_some_iff.1 h
  obtain ⟨c, hc, h⟩ := Option.bind_eq_some_iff.1 h
  obtain ⟨x, hx, hparams⟩ := Option.map_eq_some_iff.1 h
  exact ⟨p, c, x, toOption_eq_some.1 hp, hc, hx, hparams⟩

/-- A machine with one instance. -/
def holding (c : Class) : Machine := { (default : Machine) with heap := Heap.empty.alloc c }

theorem cls_holding (c : Class) : ((holding c).heap.get 0).cls = c := rfl

/-- A source with a class that inherits its method. -/
def keeperSource : String :=
  "class Keeper:\n  def keep(self, box, word):\n    box.word = word\n" ++
  "class Clerk(Keeper):\n  def rest():\n    print\n"

theorem enters_of_call_keeper : ∃ (c : Class) (x : Method) (n : Machine),
    c.method? "keep" = some x ∧ next ⟨.call 0 "keep" [.none, .bool true] 9, [], holding c, 0⟩ =
      some ⟨.stmt x.body, [.leave], n, 1⟩ ∧
    Enters 0 ["box", "word"] [.none, .bool true] (Run.scope n) := by
  have hkeep : ((Program.ofSource .empty keeperSource).toOption.bind fun p =>
      (Dict.get? p.classes "Clerk").bind fun c => (c.method? "keep").map Method.params) =
        some ["box", "word"] := by
    decide +kernel
  obtain ⟨p, c, x, hp, hc, hx, hparams⟩ := exists_of_params hkeep
  have harity : x.arity = [Value.none, .bool true].length := congrArg List.length hparams
  obtain ⟨n, hnext, henters, -⟩ := enters_of_call (.fresh default default) hp hc hx
    (cls_holding c) harity (by decide : 0 < callLimit) 9 []
  rw [hparams] at henters
  exact ⟨c, x, n, hx, hnext, henters⟩

/-- A source with a method whose second parameter has the name of the receiver. -/
def shadowSource : String := "class A:\n  def f(x, self):\n    print self\n"

/-- A receiver is not bound in every method: a parameter behind the first can take its name. -/
theorem not_forall_receiver_bound : ¬ ∀ (source : String) (p : Program) (cls : String) (c : Class)
    (name : String) (x : Method) (m n : Machine) (r : Ref) (args : List Value) (line d : Nat)
    (K : List Pending), Program.ofSource .empty source = .ok p → Dict.get? p.classes cls = some c →
      c.method? name = some x → (m.heap.get r).cls = c → x.arity = args.length → d < callLimit →
      next ⟨.call r name args line, K, m, d⟩ = some ⟨.stmt x.body, .leave :: K, n, d + 1⟩ →
      (Run.scope n).get? "self" = some (.object r) := by
  intro h
  have hshadow : ((Program.ofSource .empty shadowSource).toOption.bind fun p =>
      (Dict.get? p.classes "A").bind fun c => (c.method? "f").map Method.params) =
        some ["x", "self"] := by
    decide +kernel
  obtain ⟨p, c, x, hp, hc, hx, hparams⟩ := exists_of_params hshadow
  have harity : x.arity = [Value.none, .none].length := congrArg List.length hparams
  obtain ⟨n, hnext, hframes⟩ := begins_call (m := holding c) (r := 0) hx harity
    (by decide : 0 < callLimit) 5 []
  have hself := h _ p _ c _ x (holding c) n 0 _ 5 0 [] hp hc hx (cls_holding c) harity (by decide)
    hnext
  have htaken : (Run.scope n).get? "self" = some .none := by
    rw [Run.scope, hframes, hparams]
    exact (enters_frame 0 (by decide) rfl).param 1 "self" .none rfl rfl
  rw [htaken] at hself
  cases hself

end Moment

end ClassLang
