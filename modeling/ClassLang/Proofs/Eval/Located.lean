import ClassLang.Proofs.Eval.Beside
import ClassLang.Proofs.Eval.Halting

/-!
Where a call stands. The line of a call is told to what watches the run, and it is the line of the
failure if the call is refused; nothing else depends on it, and so it is with the text of a value.
-/

namespace ClassLang

open Eval

/-- Holds of two failures that are the same but for their lines. -/
def SameCause (e e' : Error) : Prop :=
  e = e' ∨ ∃ cause line line', e = .located cause line ∧ e' = .located cause line'

/-- Two ends of parts of a run: related values, or the same failure but for its line, in machines
that differ in what watches them only. -/
inductive Machine.EndsAlike {α β : Type} (T : α → β → Prop) :
    EStateM.Result Error Machine α → EStateM.Result Error Machine β → Prop where
  | ok {a : α} {b : β} {m n : Machine} :
    T a b → m.Beside [] n → EndsAlike T (.ok a m) (.ok b n)
  | error {e e' : Error} {m n : Machine} :
    SameCause e e' → m.Beside [] n → EndsAlike T (.error e m) (.error e' n)

variable {α β γ δ : Type} {m n : Machine}

namespace Machine.EndsAlike

theorem of_beside {r r' : EStateM.Result Error Machine α} (h : EndsBeside [] r r') :
    EndsAlike Eq r r' := by
  cases h with
  | ok h => exact .ok rfl h
  | error h => exact .error (.inl rfl) h

theorem fail (cause : Cause) (line line' : Nat) {T : α → β → Prop} (h : m.Beside [] n) :
    EndsAlike T (Run.fail (α := α) cause line m) (Run.fail (α := β) cause line' n) :=
  .error (.inr ⟨cause, line, line', rfl, rfl⟩) h

theorem bind {T : α → β → Prop} {U : γ → δ → Prop} {x : Run α} {y : Run β} {f : α → Run γ}
    {g : β → Run δ} (h : EndsAlike T (x m) (y n))
    (hf : ∀ a b m' n', T a b → m'.Beside [] n' → EndsAlike U (f a m') (g b n')) :
    EndsAlike U ((x >>= f) m) ((y >>= g) n) := by
  change EndsAlike U (EStateM.bind x f m) (EStateM.bind y g n)
  unfold EStateM.bind
  revert h
  generalize x m = r
  generalize y n = r'
  intro h
  cases h with
  | ok hab hmn => exact hf _ _ _ _ hab hmn
  | error he hmn => exact .error he hmn

end Machine.EndsAlike

theorem Machine.Beside.both_watched {names : List String} (h : m.Beside names n)
    (watch watch' : Watch) :
    Machine.Beside names { m with watch } { n with watch := watch' } := by
  have hleft : n.Beside names { m with watch } := h.symm.watched watch
  exact hleft.symm.watched watch'

open Machine

/-- What goes the same whatever is bound. -/
theorem Goes.endsAlike {Q : α → Prop} {x : Run α} (hx : Goes False Bond.same.core Calm Q x)
    (h : m.Beside [] n) : EndsAlike Eq (x m) (x n) := by
  have hon : Goes False (Bond.same.JoinedOn (· ∉ [])) Calm Q x := hx.joinedOn
  exact .of_beside (hon.endsBeside h).1

namespace Eval

theorem trace_alike (text text' : String) (h : m.Beside [] n) :
    EndsAlike Eq (Run.trace text m) (Run.trace text' n) := .ok rfl (h.both_watched _ _)

theorem log_alike (level : Log.Level) (target message : String) (line line' : Nat)
    (fields : List (String × String)) (h : m.Beside [] n) :
    EndsAlike Eq (Run.log level target message line fields m)
      (Run.log level target message line' fields n) := .ok rfl (h.both_watched _ _)

theorem emit_alike (text : String) (line line' : Nat) (h : m.Beside [] n) :
    EndsAlike Eq (Run.emit text line m) (Run.emit text line' n) := by
  rw [Run.emit_apply, Run.emit_apply, h.same.console]
  cases m.console.write text with
  | ok c =>
    exact .ok rfl ⟨⟨h.same.heap, h.same.classes, rfl⟩, h.scope, h.active, h.outer, h.globals⟩
  | error reason => exact .error (.inr ⟨_, line, line', rfl, rfl⟩) h

/-- An expression ends the same whatever watches it. -/
theorem expr_beside (room : Nat) (e : Expr) (h : m.Beside [] n) :
    EndsBeside [] (expr (callIn room) e m) (expr (callIn room) e n) := by
  have hgoes := Goes.exprOn (P := (· ∉ [])) (keptBy_same room) e fun _ _ => List.not_mem_nil
  exact (hgoes.endsBeside h).1

theorem expr_alike (room : Nat) (e : Expr) (h : m.Beside [] n) :
    EndsAlike Eq (expr (callIn room) e m) (expr (callIn room) e n) :=
  .of_beside (expr_beside room e h)

/-- A call ends alike wherever it stands. -/
theorem callIn_alike (room : Nat) (r : Ref) (name : String) (args : List Value) (line line' : Nat)
    (h : m.Beside [] n) :
    EndsAlike Eq (callIn room r name args line m) (callIn room r name args line' n) := by
  have hcls : (n.heap.get r).cls = (m.heap.get r).cls := by rw [h.same.heap]
  rw [callIn, callIn, Run.classOf_bind, Run.classOf_bind, hcls]
  cases (m.heap.get r).cls.method? name with
  | none => exact .fail _ _ _ h
  | some x =>
    simp only []
    split
    · cases room with
      | zero => exact .fail _ _ _ h
      | succ room =>
        -- Behind its first steps, which are watched, a call does not know its line.
        refine (log_alike _ _ _ _ _ _ h).bind fun _ _ m n _ h => ?_
        refine (trace_alike _ _ h).bind fun _ _ m n _ h => ?_
        have hbody : Goes False Bond.same.core Calm (fun _ => True) (do
            let outcome ← Run.inFrame (frame r x.params args) (stmt (callIn room) x.body)
            return outcome.value) :=
          Goes.bind ((Goes.stmt (keptBy_same room) x.body).inFrame fun _ _ _ => trivial)
            fun _ _ => Goes.pure trivial
        exact hbody.endsAlike h
    · exact .fail _ _ _ h

/-- The text of a value is the same wherever it is asked for. -/
theorem renderIn_alike (room steps line line' : Nat) (v : Value) (h : m.Beside [] n) :
    EndsAlike Eq (renderIn (callIn room) line steps v m)
      (renderIn (callIn room) line' steps v n) := by
  induction steps generalizing v m n with
  | zero => exact .fail _ _ _ h
  | succ steps ih =>
    cases v with
    | object r =>
      have hcls : (n.heap.get r).cls = (m.heap.get r).cls := by rw [h.same.heap]
      rw [renderIn, renderIn, Run.classOf_bind, Run.classOf_bind, hcls]
      split
      · refine (callIn_alike room r _ _ line line' h).bind fun v w m n hvw h => ?_
        subst hvw
        exact ih v h
      · exact (Goes.display (B := Bond.same) _).endsAlike h
    | _ => exact (Goes.display (B := Bond.same) _).endsAlike h

theorem render_alike (room line line' : Nat) (v : Value) (h : m.Beside [] n) :
    EndsAlike Eq (render (callIn room) v line m) (render (callIn room) v line' n) :=
  renderIn_alike room callLimit line line' v h

end Eval

end ClassLang
