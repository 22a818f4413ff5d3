import ClassLang.Proofs.Eval.Kept
import ClassLang.Proofs.Eval.Safety

/-!
What a part of a run leaves as it was. A machine is bound to itself, so every part of a run leaves
the frames around it and the depth of the trace, however it ends.
-/

namespace ClassLang

/-- A run beside itself. -/
def Bond.same : Bond where
  core := Machine.Same
  holds _ := True
  heap h := h.heap
  classes h := h.classes
  blind h hm hn := h.of_same hm hn
  plain _ := trivial
  field _ _ _ := trivial
  alloc h c := ⟨congrArg (Heap.alloc · c) h.heap, h.classes, h.console⟩
  fresh _ := trivial
  setField h _ _ name := ⟨congrArg (Heap.setField · _ name _) h.heap, h.classes, h.console⟩
  lenient := False
  write h text := (h.write text).imp id .inl

/-- What a part of a run keeps between machines, it keeps of the one it starts from. -/
theorem Goes.after {α : Type} {R T : Machine → Machine → Prop} {Q : α → Prop} {x : Run α}
    (h : Goes False R T Q x) {m : Machine} (hm : R m m) : R (x.after m) (x.after m) ∧ T m (x.after m) := by
  have hx := h m m hm
  unfold Run.after
  revert hx
  generalize x m = r
  intro hx
  cases hx with
  | ok _ hr ht _ => exact ⟨hr, ht⟩
  | error hr ht _ => exact ⟨hr, ht⟩
  | refused hl _ => exact hl.elim

namespace Eval

variable (room : Nat) (m : Machine)

theorem keptBy_same : Bond.same.KeptBy (callIn room) := Bond.same.keptBy_callIn room

theorem joined_same : Bond.same.Joined m m := ⟨.refl m, rfl, fun _ => trivial⟩

theorem calm_expr (e : Expr) : Calm m ((expr (callIn room) e).after m) :=
  ((Goes.expr (keptBy_same room) e).after (joined_same m)).2

theorem calm_call (r : Ref) (name : String) (args : List Value) (line : Nat) :
    Calm m ((callIn room r name args line).after m) :=
  ((keptBy_same room r name args line trivial fun _ _ => trivial).after (.refl m)).2

theorem calm_compare (op : Comparison) (left right : Value) (line : Nat) :
    Calm m ((compare (callIn room) op left right line).after m) :=
  ((Goes.compare (keptBy_same room) op trivial trivial line).after (.refl m)).2

theorem calm_render (v : Value) (line : Nat) :
    Calm m ((render (callIn room) v line).after m) :=
  ((Goes.render (keptBy_same room) trivial line).after (.refl m)).2

theorem local_stmt (s : Stmt) : Local m ((stmt (callIn room) s).after m) :=
  ((Goes.stmt (keptBy_same room) s).after (joined_same m)).2

end Eval

namespace Machine

/-- A program leaves the frames around it, and they are none in a session. -/
theorem local_interpret (p : Program) (m : Machine) :
    Local { m with classes := m.classes.merge p.classes } ((interpret p).after m) :=
  ((Goes.runAll trivial p.statements).after (Eval.joined_same _)).2

theorem Reached.frames {m : Machine} (h : m.Reached) : m.frames = [] := by
  induction h with
  | fresh console watch => rfl
  | @eval m source _ ih =>
    cases hp : Program.ofSource m.classes source with
    | ok p =>
      have hactive := (local_interpret p m).active
      rw [Run.after, eval_of_ok hp]
      exact List.length_eq_zero_iff.1 (hactive.trans (congrArg List.length ih))
    | error e =>
      rw [Run.after, eval_of_error hp]
      exact ih
  | @shown m v _ ih => exact (Eval.calm_render callLimit m v 0).frames.trans ih
  | settled console watch _ ih => exact ih

end Machine

end ClassLang
