import ClassLang.Error.Report
import ClassLang.Proofs.Eval.Simulation
import ClassLang.Proofs.Grammar.Admitted
import ClassLang.Proofs.Grammar.Faults
import ClassLang.Proofs.Program

/-!
What a session can fail with. Whatever was run before, and however it ended, the classes of the
machine are admitted and so are those of its instances. An admitted program then goes like itself, so
its failures are those of a run.
-/

namespace ClassLang

open Grammar Token

/-- The machine that a part of a run leaves, however the part ends. -/
def Run.after {α : Type} (x : Run α) (m : Machine) : Machine :=
  match x m with
  | .ok _ n => n
  | .error _ n => n

/-- The value that a part of a run ends with, or its failure. -/
def Run.answer {α : Type} (x : Run α) (m : Machine) : Except Error α :=
  match x m with
  | .ok a _ => .ok a
  | .error e _ => .error e

theorem Class.Callable.mono {known known' : String → Bool} {c : Class} (h : c.Callable known)
    (hk : ∀ name, known name = true → known' name = true) : c.Callable known' :=
  fun name x hx => (h name x hx).mono hk

/-- A table of admitted classes, beside one that has them at other places. -/
def ClassTable.Admitted.beside {t right : ClassTable} (h : t.Admitted t.contains) (ρ : Relocation)
    (hright : ∀ {name c}, Dict.get? t name = some c →
      Dict.get? right name = some (c.relocate ρ)) : Setting where
  known := t.contains
  move := ρ
  left := t
  right := right
  agree := by
    intro name hname
    obtain ⟨c, hc⟩ := Option.isSome_iff_exists.1 hname
    exact ⟨c, hc, hright hc, h.cls hc⟩

/-- A table of admitted classes, beside itself. -/
def ClassTable.Admitted.setting {t : ClassTable} (h : t.Admitted t.contains) : Setting :=
  h.beside .stay fun {_ c} hc => hc.trans (congrArg some c.relocate_stay.symm)

/-- The classes of a program are admitted, the known ones stay among them, and its statements are
admitted beside them. -/
theorem Program.admitted_of_ofSource {classes : ClassTable} {source : String} {p : Program}
    (h : classes.Admitted classes.contains) (hp : ofSource classes source = .ok p) :
    p.classes.Admitted p.classes.contains ∧
      (∀ {name c}, Dict.get? classes name = some c → Dict.get? p.classes name = some c) ∧
      ∀ st ∈ p.statements, st.AdmittedTop p.classes.contains := by
  obtain ⟨ls, hls, hspells⟩ := ofSource_eq_ok.1 hp
  exact hspells.admitted (lexed_laidOut (wellFormed_of_readLines hls)) h

theorem Heap.relocate_stay (h : Heap) : h.relocate .stay = h := by
  obtain ⟨objects⟩ := h
  simp only [Heap.relocate, Class.relocate_stay]
  exact congrArg Heap.mk (Array.map_id' objects)

namespace Machine

/-- A machine that has run nothing yet. -/
def fresh (console : Console) (watch : Watch) : Machine :=
  ⟨.empty, [], .empty, .empty, console, watch⟩

/-- The machines of sessions: entries are run and values shown, and between them the console may
be emptied and the watch changed. -/
inductive Reached : Machine → Prop where
  | fresh (console : Console) (watch : Watch) : Reached (fresh console watch)
  | eval {m : Machine} (source : String) : Reached m → Reached ((Machine.eval source).after m)
  | shown {m : Machine} (v : Value) :
      Reached m → Reached ((Eval.render Eval.callMethod v 0).after m)
  | settled {m : Machine} (console : Console) (watch : Watch) :
      Reached m → Reached { m with console, watch }

/-- Holds of machines whose classes are admitted, those of the instances included. -/
structure Sound (m : Machine) : Prop where
  classes : m.classes.Admitted m.classes.contains
  callable : ∀ r, (m.heap.get r).cls.Callable m.classes.contains

variable {m n : Machine} {source : String} {p : Program}

theorem sound_fresh (console : Console) (watch : Watch) : (fresh console watch).Sound := by
  refine ⟨ClassTable.admitted_empty, fun r name x hx => ?_⟩
  have hget : (Heap.empty.get r).cls = default := rfl
  rw [show (fresh console watch).heap = Heap.empty from rfl, hget] at hx
  cases hx

theorem Sound.tracks (h : m.Sound) : Tracks h.classes.setting m m :=
  ⟨rfl, rfl, (Heap.relocate_stay m.heap).symm, rfl, rfl, rfl, h.callable⟩

theorem Sound.of_tracks {t : ClassTable} {ht : t.Admitted t.contains}
    (h : Tracks ht.setting m n) : m.Sound := by
  have hclasses : m.classes = t := h.left
  constructor
  · rw [hclasses]
    exact ht
  · rw [hclasses]
    exact h.callable

/-- What goes like itself leaves a sound machine. -/
theorem Sound.of_alike {α : Type} {t : ClassTable} {ht : t.Admitted t.contains}
    {P : α → α → Prop} {x : Run α} (h : Alike ht.setting P (x m) (x m)) : (x.after m).Sound := by
  unfold Run.after
  revert h
  generalize x m = r
  intro h
  cases h with
  | ok _ hn => exact .of_tracks hn
  | error _ hn => exact .of_tracks hn

/-- A sound machine goes like itself when it runs a program of its classes. -/
theorem Sound.alike_interpret (h : m.Sound) (hp : Program.ofSource m.classes source = .ok p) :
    ∃ ht : p.classes.Admitted p.classes.contains,
      Alike ht.setting Eq (interpret p m) (interpret p m) := by
  obtain ⟨hafter, hmore, hbody⟩ := Program.admitted_of_ofSource h.classes hp
  refine ⟨hafter, ?_⟩
  have hwider := Dict.contains_of_forall_get? hmore
  have hclasses : m.classes.merge p.classes = p.classes := Dict.merge_eq_right hwider
  have hrun := Sim.runAll (S := hafter.setting) .stay .none hbody
  simp only [Stmt.relocate_stay, List.map_id'] at hrun
  have htracks : Tracks hafter.setting { m with classes := m.classes.merge p.classes }
      { m with classes := m.classes.merge p.classes } :=
    ⟨rfl, rfl, (Heap.relocate_stay m.heap).symm, rfl, hclasses, hclasses, fun r =>
      (h.callable r).mono hwider⟩
  exact hrun _ _ htracks

/-- A program fails with a failure of a run. -/
theorem Sound.ofRun_of_interpret (h : m.Sound) (hp : Program.ofSource m.classes source = .ok p)
    {e : Error} (he : interpret p m = .error e n) :
    ∃ cause line, e = .located cause line ∧ cause.OfRun := by
  obtain ⟨ht, hrun⟩ := h.alike_interpret hp
  rw [he] at hrun
  cases hrun with
  | error hfault _ =>
    obtain ⟨cause, line, -, rfl, -, hcause⟩ := hfault
    exact ⟨cause, line, rfl, hcause⟩

theorem eval_of_ok (hp : Program.ofSource m.classes source = .ok p) :
    eval source m = interpret p m := by
  have hget : (get : Run Machine) m = .ok m m := rfl
  simp only [Machine.eval, bind, EStateM.bind, hget, hp]

theorem eval_of_error {e : Error} (he : Program.ofSource m.classes source = .error e) :
    eval source m = .error e m := by
  have hget : (get : Run Machine) m = .ok m m := rfl
  simp only [Machine.eval, bind, EStateM.bind, hget, he]
  rfl

theorem Sound.eval (h : m.Sound) (source : String) : ((Machine.eval source).after m).Sound := by
  cases hp : Program.ofSource m.classes source with
  | ok p =>
    obtain ⟨ht, hrun⟩ := h.alike_interpret hp
    rw [Run.after, eval_of_ok hp]
    exact .of_alike hrun
  | error e =>
    rw [Run.after, eval_of_error hp]
    exact h

theorem Sound.shown (h : m.Sound) (v : Value) :
    ((Eval.render Eval.callMethod v 0).after m).Sound :=
  .of_alike (Sim.render Sim.callMethod v _ _ h.tracks)

theorem Reached.sound (h : m.Reached) : m.Sound := by
  induction h with
  | fresh console watch => exact sound_fresh console watch
  | eval source _ ih => exact ih.eval source
  | shown v _ ih => exact ih.shown v
  | settled console watch _ ih => exact ⟨ih.classes, ih.callable⟩

end Machine

/-- A source that is no program is refused in reading, be it by its lines or by the grammar. -/
theorem Program.refuses_ofSource (classes : ClassTable) (source : String) :
    Refuses (Program.ofSource classes source) :=
  .bind (Token.refuses_ofSource source) fun _ _ => refuses_ofTokens _ _

namespace Machine

variable {m n : Machine} {source : String} {p : Program}

/-- A program that was read never fails as if it could not be read, nor with a constructed class
that is unknown, nor with a name without a text. -/
theorem Sound.fault_of_interpret (h : m.Sound) (hp : Program.ofSource m.classes source = .ok p)
    {e : Error} (he : interpret p m = .error e n) :
    e.isSyntax = false ∧ ∀ line, e ≠ .located .returnOutsideMethod line ∧
      (∀ name, e ≠ .located (.typeMismatch (.notAClass name)) line) ∧
      e ≠ .located (.unboundName "") line := by
  obtain ⟨cause, line, rfl, hcause⟩ := h.ofRun_of_interpret hp he
  refine ⟨hcause.isSyntax, fun line' => ⟨?_, fun name heq => ?_, fun heq => ?_⟩⟩
  · rintro ⟨rfl, rfl⟩
    cases hcause.isSyntax
  · exact hcause.isClass name (Error.located.inj heq).1
  · exact hcause.named (Error.located.inj heq).1

/-- In every session the label of a failure names the stage that failed. The lexer and the reader of
programs fail with failures of reading only, and a program that was read with failures of a run
only. -/
theorem Reached.stage_of_eval (h : m.Reached) (source : String) :
    (∀ e, Token.ofSource source = .error e → e.isSyntax = true) ∧
    (∀ classes ts e, Program.ofTokens classes ts = .error e → e.isSyntax = true) ∧
    (∀ p e n, Program.ofSource m.classes source = .ok p → interpret p m = .error e n →
      e.isSyntax = false ∧ ∀ line, e ≠ .located .returnOutsideMethod line ∧
        (∀ name, e ≠ .located (.typeMismatch (.notAClass name)) line) ∧
        e ≠ .located (.unboundName "") line) ∧
    ∀ e n, Machine.eval source m = .error e n →
      (e.stage = "while parsing" ↔ Program.ofSource m.classes source = .error e) ∧
      (e.stage = "while running" ↔
        ∃ p, Program.ofSource m.classes source = .ok p ∧ interpret p m = .error e n) := by
  refine ⟨Token.refuses_ofSource source, Program.refuses_ofTokens,
    fun p e n hp he => h.sound.fault_of_interpret hp he, fun e n he => ?_⟩
  cases hp : Program.ofSource m.classes source with
  | ok p =>
    rw [eval_of_ok hp] at he
    have hstage : e.stage = "while running" := by
      rw [Error.stage, (h.sound.fault_of_interpret hp he).1]
      rfl
    rw [hstage]
    exact ⟨⟨fun hne => absurd hne (by decide), nofun⟩, fun _ => ⟨p, rfl, he⟩, fun _ => rfl⟩
  | error e' =>
    rw [eval_of_error hp] at he
    cases he
    have hstage : e.stage = "while parsing" := by
      rw [Error.stage, Program.refuses_ofSource _ _ e hp]
      rfl
    rw [hstage]
    exact ⟨⟨fun _ => rfl, fun _ => rfl⟩, fun hne => absurd hne (by decide), nofun⟩

/-- The machine after an entry that fails in its last line but one. -/
def halfway : Machine :=
  (Machine.eval "class Box:\n  def get():\n    return self.item\nb = Box()\nb.get()\nc = 1\n").after
    (fresh .empty default)

/-- An entry that calls what the failed entry left behind, and fails again. -/
theorem stage_of_eval_halfway :
    halfway.Reached ∧ (Machine.eval "b.get()\n").answer halfway =
      .error (.located (.noAttribute (.noField "Box" "item")) 3) ∧
    ∀ e n, Machine.eval "b.get()\n" halfway = .error e n →
      (e.stage = "while parsing" ↔ Program.ofSource halfway.classes "b.get()\n" = .error e) ∧
      (e.stage = "while running" ↔ ∃ p, Program.ofSource halfway.classes "b.get()\n" = .ok p ∧
        interpret p halfway = .error e n) := by
  have hreached : halfway.Reached := .eval _ (.fresh _ _)
  exact ⟨hreached, by decide +kernel, (Reached.stage_of_eval hreached "b.get()\n").2.2.2⟩

end Machine

end ClassLang
