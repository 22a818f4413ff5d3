import ClassLang.Machine
import ClassLang.Proofs.Tree.Admitted

/-!
Two parts of a run that go alike. Their machines agree but for the places in the classes they know,
for classes that the parts do not know, and for what watches them; the parts end alike, with a value
each or with the same failure at some line each. The failures are those a run can have: none belongs
to the reading of a program.
-/

namespace ClassLang

/-- Holds of the causes that may arise while an admitted program runs. -/
structure Cause.OfRun (cause : Cause) : Prop where
  isSyntax : cause.isSyntax = false
  isClass : ∀ name, cause ≠ .typeMismatch (.notAClass name)
  named : cause ≠ .unboundName ""
  field : ∀ name kind, cause = .typeMismatch (.fieldTarget name kind) → IsName name

/-- Such are the causes that have to do with neither reading nor types, nor with a name without a
text. -/
theorem Cause.OfRun.of_ne {cause : Cause} (hruns : cause.isSyntax = false)
    (htype : ∀ fault, cause ≠ .typeMismatch fault) (hname : cause ≠ .unboundName "") :
    cause.OfRun :=
  ⟨hruns, fun _ => htype _, hname, fun _ _ h => absurd h (htype _)⟩

/-- Holds of one failure of a run at two lines. -/
def SameFault (e e' : Error) : Prop :=
  ∃ cause line line', e = .located cause line ∧ e' = .located cause line' ∧ cause.OfRun

/-- Holds of classes whose methods, the inherited ones among them, are all admitted. -/
def Class.Callable (known : String → Bool) (c : Class) : Prop :=
  ∀ name, ∀ m ∈ c.method? name, m.Admitted known

/-- The tables of two runs. Of their classes those that are known agree but for places. -/
structure Setting where
  known : String → Bool
  move : Relocation
  left : ClassTable
  right : ClassTable
  agree : ∀ {name}, known name = true → ∃ c, Dict.get? left name = some c ∧
    Dict.get? right name = some (c.relocate move) ∧ c.Admitted known

variable {S : Setting} {m n : Machine}

/-- Machines that agree but for places, each with its own table of classes. -/
structure Tracks (S : Setting) (m n : Machine) : Prop where
  globals : n.globals = m.globals
  frames : n.frames = m.frames
  heap : n.heap = m.heap.relocate S.move
  console : n.console = m.console
  left : m.classes = S.left
  right : n.classes = S.right
  callable : ∀ r, (m.heap.get r).cls.Callable S.known

namespace Tracks

theorem of_watch (h : Tracks S m n) (w w' : Watch) :
    Tracks S { m with watch := w } { n with watch := w' } :=
  ⟨h.globals, h.frames, h.heap, h.console, h.left, h.right, h.callable⟩

theorem of_console (h : Tracks S m n) (c : Console) :
    Tracks S { m with console := c } { n with console := c } :=
  ⟨h.globals, h.frames, h.heap, rfl, h.left, h.right, h.callable⟩

theorem of_bindings (h : Tracks S m n) (env : Env) (fs : List Env) :
    Tracks S { m with globals := env, frames := fs } { n with globals := env, frames := fs } :=
  ⟨rfl, rfl, h.heap, h.console, h.left, h.right, h.callable⟩

theorem of_frames (h : Tracks S m n) (fs : List Env) :
    Tracks S { m with frames := fs } { n with frames := fs } :=
  ⟨h.globals, rfl, h.heap, h.console, h.left, h.right, h.callable⟩

theorem scope (h : Tracks S m n) : Run.scope n = Run.scope m := by
  rw [Run.scope, Run.scope, h.frames, h.globals]

theorem get_heap (h : Tracks S m n) (r : Ref) :
    n.heap.get r = { m.heap.get r with cls := (m.heap.get r).cls.relocate S.move } := by
  rw [h.heap, Heap.get_relocate]

theorem display (h : Tracks S m n) (v : Value) : v.display n.heap = v.display m.heap := by
  cases v with
  | object r => simp only [Value.display, h.get_heap, Class.name_relocate]
  | bool b => cases b <;> rfl
  | _ => rfl

end Tracks

/-- Two ends of parts of a run: values that are related, or one failure at two lines. -/
inductive Alike {α β : Type} (S : Setting) (P : α → β → Prop) :
    EStateM.Result Error Machine α → EStateM.Result Error Machine β → Prop where
  | ok {a : α} {b : β} {m n : Machine} :
      P a b → Tracks S m n → Alike S P (.ok a m) (.ok b n)
  | error {e e' : Error} {m n : Machine} :
      SameFault e e' → Tracks S m n → Alike S P (.error e m) (.error e' n)

/-- Holds of two parts of a run that go alike from all machines that agree. -/
def Sim {α β : Type} (S : Setting) (P : α → β → Prop) (x : Run α)
    (y : Run β) : Prop :=
  ∀ m n, Tracks S m n → Alike S P (x m) (y n)

namespace Sim

variable {α β γ δ : Type} {P : α → β → Prop} {Q : γ → δ → Prop} {x : Run α} {y : Run β}

theorem pure {a : α} {b : β} (h : P a b) : Sim S P (pure a) (pure b) :=
  fun _ _ hm => .ok h hm

theorem bind {f : α → Run γ} {g : β → Run δ} (h : Sim S P x y)
    (hf : ∀ a b, P a b → Sim S Q (f a) (g b)) : Sim S Q (x >>= f) (y >>= g) := by
  intro m n hm
  have hxy := h m n hm
  change Alike S Q (EStateM.bind x f m) (EStateM.bind y g n)
  unfold EStateM.bind
  cases hx : x m with
  | ok a m' =>
    cases hy : y n with
    | ok b n' =>
      rw [hx, hy] at hxy
      cases hxy with
      | ok hab hm' => exact hf a b hab m' n' hm'
    | error e n' =>
      rw [hx, hy] at hxy
      cases hxy
  | error e m' =>
    cases hy : y n with
    | ok b n' =>
      rw [hx, hy] at hxy
      cases hxy
    | error e' n' =>
      rw [hx, hy] at hxy
      cases hxy with
      | error he hm' => exact .error he hm'

/-- The next part gets equal values. -/
theorem bind_eq {x y : Run α} {f : α → Run γ} {g : α → Run δ} (h : Sim S Eq x y)
    (hf : ∀ a, Sim S Q (f a) (g a)) : Sim S Q (x >>= f) (y >>= g) :=
  bind h fun a _ hab => hab ▸ hf a

/-- The next part gets nothing. -/
theorem bind_unit {x y : Run Unit} {f : Unit → Run γ} {g : Unit → Run δ}
    (h : Sim S Eq x y) (hf : Sim S Q (f ()) (g ())) :
    Sim S Q (x >>= f) (y >>= g) :=
  bind_eq h fun _ => hf

theorem mono {P' : α → β → Prop} (h : Sim S P x y) (hP : ∀ a b, P a b → P' a b) :
    Sim S P' x y := by
  intro m n hm
  have hxy := h m n hm
  revert hxy
  generalize x m = r
  generalize y n = r'
  intro hxy
  cases hxy with
  | ok hab hm' => exact .ok (hP _ _ hab) hm'
  | error he hm' => exact .error he hm'

theorem fail {cause : Cause} {line line' : Nat} (h : cause.OfRun) :
    Sim S P (Run.fail cause line) (Run.fail cause line') :=
  fun _ _ hm => .error ⟨cause, line, line', rfl, rfl, h⟩ hm

theorem get : Sim S (Tracks S) MonadState.get MonadState.get :=
  fun _ _ hm => .ok hm hm

theorem change {f g : Machine → Machine}
    (h : ∀ m n, Tracks S m n → Tracks S (f m) (g n)) :
    Sim S Eq (modify f : Run Unit) (modify g) :=
  fun m n hm => .ok rfl (h m n hm)

/-! The elementary steps -/

theorem watch (f g : Heap → Watch → Watch) : Sim S Eq (Run.watch f) (Run.watch g) :=
  change fun _ _ hm => hm.of_watch _ _

theorem trace (text text' : String) : Sim S Eq (Run.trace text) (Run.trace text') := watch _ _

theorem traceValue (lead lead' : String) (v v' : Value) :
    Sim S Eq (Run.traceValue lead v) (Run.traceValue lead' v') := watch _ _

theorem log (level : Log.Level) (target message : String) (line line' : Nat)
    (fields fields' : List (String × String)) :
    Sim S Eq (Run.log level target message line fields)
      (Run.log level target message line' fields') :=
  change fun _ _ hm => hm.of_watch _ _

theorem emit (text : String) (line line' : Nat) :
    Sim S Eq (Run.emit text line) (Run.emit text line') := by
  refine bind get fun m n hm => ?_
  rw [hm.console]
  cases m.console.write text with
  | ok console => exact change fun _ _ hm' => hm'.of_console console
  | error reason => exact fail (.of_ne rfl nofun nofun)

theorem define (name : String) (v : Value) :
    Sim S Eq (Run.define name v) (Run.define name v) := by
  refine change fun m n hm => ?_
  rw [hm.frames]
  cases m.frames with
  | nil =>
    simp only [hm.globals]
    exact hm.of_bindings _ []
  | cons f fs => exact hm.of_frames _

theorem classOf (r : Ref) :
    Sim S (fun c d => d = c.relocate S.move ∧ c.Callable S.known) (Run.classOf r) (Run.classOf r) := by
  refine bind get fun m n hm => pure ?_
  rw [hm.get_heap]
  exact ⟨rfl, hm.callable r⟩

theorem display (v : Value) : Sim S Eq (Run.display v) (Run.display v) :=
  bind get fun _ _ hm => pure (hm.display v).symm

end Sim

theorem Class.Admitted.callable {c : Class} (h : c.Admitted S.known) : c.Callable S.known :=
  fun name => h.method? name

theorem Tracks.newObject {c : Class} (h : Tracks S m n) (hc : c.Admitted S.known) :
    Tracks S { m with heap := m.heap.alloc c }
      { n with heap := n.heap.alloc (c.relocate S.move) } := by
  refine ⟨h.globals, h.frames, ?_, h.console, h.left, h.right, fun r => ?_⟩
  · simp only [h.heap, Heap.alloc_relocate]
  · have hr := h.callable r
    simp only [Heap.get, Heap.alloc, Array.getD_eq_getD_getElem?, Array.getElem?_push] at hr ⊢
    split
    · exact hc.callable
    · exact hr

theorem Tracks.setField (h : Tracks S m n) (r : Ref) (field : String) (v : Value) :
    Tracks S { m with heap := m.heap.setField r field v }
      { n with heap := n.heap.setField r field v } := by
  refine ⟨h.globals, h.frames, ?_, h.console, h.left, h.right, fun s => ?_⟩
  · simp only [h.heap, Heap.setField_relocate]
  · have hs := h.callable s
    simp only [Heap.get, Heap.setField, Array.getD_eq_getD_getElem?, Array.getElem?_modify] at hs ⊢
    split
    · cases ho : m.heap.objects[s]? with
      | none => simpa [ho] using hs
      | some o => simpa [ho] using hs
    · exact hs

namespace Sim

variable {α β : Type} {P : α → β → Prop}

theorem newObject {c : Class} (hc : c.Admitted S.known) :
    Sim S Eq (Run.newObject c) (Run.newObject (c.relocate S.move)) := by
  intro m n hm
  have hsize : n.heap.size = m.heap.size := by rw [hm.heap, Heap.size_relocate]
  exact .ok hsize.symm (hm.newObject hc)

theorem setField (r : Ref) (field : String) (v : Value) :
    Sim S Eq (Run.setField r field v) (Run.setField r field v) :=
  change fun _ _ hm => hm.setField r field v

theorem bracket {enter leave enter' leave' : Machine → Machine} {x : Run α} {y : Run β}
    (henter : ∀ m n, Tracks S m n → Tracks S (enter m) (enter' n))
    (hleave : ∀ m n, Tracks S m n → Tracks S (leave m) (leave' n))
    (h : Sim S P x y) :
    Sim S P (Run.bracket enter leave x) (Run.bracket enter' leave' y) := by
  intro m n hm
  have hxy := h _ _ (henter m n hm)
  unfold Run.bracket
  revert hxy
  generalize x (enter m) = r
  generalize y (enter' n) = r'
  intro hxy
  cases hxy with
  | ok hab hm' => exact .ok hab (hleave _ _ hm')
  | error he hm' => exact .error he (hleave _ _ hm')

theorem deeper {x : Run α} {y : Run β} (h : Sim S P x y) :
    Sim S P (Run.deeper x) (Run.deeper y) :=
  bracket (fun _ _ hm => hm.of_watch _ _) (fun _ _ hm => hm.of_watch _ _) h

theorem inFrame (frame : Env) {x : Run α} {y : Run β} (h : Sim S P x y) :
    Sim S P (Run.inFrame frame x) (Run.inFrame frame y) := by
  refine bracket (fun m n hm => ?_) (fun m n hm => ?_) (deeper h)
  · rw [hm.frames]
    exact hm.of_frames _
  · rw [hm.frames]
    exact hm.of_frames _

end Sim

end ClassLang
