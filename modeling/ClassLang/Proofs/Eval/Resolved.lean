import ClassLang.Proofs.Eval.Coherent
import ClassLang.Proofs.Eval.Dispatch
import ClassLang.Proofs.Eval.Entered
import ClassLang.Proofs.Grammar.Written

/-!
Which method a name means. A class and its ancestors are written in sources that were read. A name
means the last method of that name in the text of the nearest of them that defines one, and a call
fails for want of a method exactly where that method takes another number of arguments or there is
none.
-/

namespace ClassLang

/-- The method that a name means is the own one of the nearest class that has one. -/
theorem Class.method?_eq_findSome? (name : String) : (c : Class) →
    c.method? name = c.lineage.findSome? (·.own? name)
  | ⟨cls, methods, none⟩ => by
    rw [method?_mk, lineage_none, List.findSome?_singleton, Option.bind_none, Option.or_none]
    rfl
  | ⟨cls, methods, some p⟩ => by
    have hp : p.method? name = p.lineage.findSome? (·.own? name) := p.method?_eq_findSome? name
    have hown : own? ⟨cls, methods, some p⟩ name = methods.find? (·.name == name) := rfl
    rw [method?_mk, lineage_some, List.findSome?_cons, hown, Option.bind_some, hp]
    cases methods.find? (·.name == name) <;> rfl

/-- What a name means for a class, by the texts of it and of its ancestors. -/
structure Class.Resolves (c : Class) (ws : List Written) (name : String) : Prop where
  /-- The last method of that name in the nearest text that defines one, and no method of a farther
  text, whatever their parameters. -/
  nearest : ∀ {nearer w farther}, ws = nearer ++ w :: farther → (∀ v ∈ nearer, ¬ v.Defines name) →
    w.Defines name → ∃ x, c.method? name = some x ∧ w.Last name x ∧
      ∀ n, c.hasMethod name n = true ↔ x.arity = n
  /-- Nothing, where no text defines it. -/
  none_iff : c.method? name = none ↔ ∀ w ∈ ws, ¬ w.Defines name

namespace Class.Written

variable {w : Written} {name : String}

theorem Faithful.own?_eq_none_iff (h : w.Faithful) :
    w.cls.own? name = none ↔ ¬ w.Defines name := by
  refine ⟨h.not_of_none, fun hnot => ?_⟩
  rw [Option.eq_none_iff_forall_ne_some]
  intro x hx
  exact hnot (h.last_of_some hx).defines

theorem Faithful.exists_own? (h : w.Faithful) (hdefines : w.Defines name) :
    ∃ x, w.cls.own? name = some x ∧ w.Last name x := by
  cases hx : w.cls.own? name with
  | none => exact absurd hdefines (h.not_of_none hx)
  | some x => exact ⟨x, rfl, h.last_of_some hx⟩

end Class.Written

/-- Texts of a class and of its ancestors resolve every name. -/
theorem Class.resolves_of_faithful {c : Class} {ws : List Written}
    (hws : ws.map Written.cls = c.lineage) (hfaithful : ∀ w ∈ ws, w.Faithful) (name : String) :
    c.Resolves ws name := by
  have hmethod : c.method? name = ws.findSome? fun w => w.cls.own? name := by
    rw [method?_eq_findSome?, ← hws, List.findSome?_map]
    rfl
  constructor
  · rintro nearer w farther rfl hnearer hw
    have hnone : (nearer.findSome? fun v => v.cls.own? name) = none := by
      rw [List.findSome?_eq_none_iff]
      intro v hv
      exact (hfaithful v (List.mem_append_left _ hv)).own?_eq_none_iff.2 (hnearer v hv)
    obtain ⟨x, hx, hlast⟩ :=
      (hfaithful w (List.mem_append_right _ List.mem_cons_self)).exists_own? hw
    rw [List.findSome?_append, hnone, Option.none_or, List.findSome?_cons, hx] at hmethod
    refine ⟨x, hmethod, hlast, fun n => ?_⟩
    rw [hasMethod, hmethod, beq_iff_eq]
  · rw [hmethod, List.findSome?_eq_none_iff]
    exact forall₂_congr fun w hw => (hfaithful w hw).own?_eq_none_iff

/-! What was read -/

/-- Holds of the classes that there are when sources have been read one after another, of which the
latest is listed first. -/
inductive ClassTable.Read : List String → ClassTable → Prop where
  | nil : Read [] .empty
  | cons {sources : List String} {t : ClassTable} {source : String} {p : Program} :
      Read sources t → Program.ofSource t source = .ok p → Read (source :: sources) p.classes

namespace ClassTable.Read

variable {sources : List String} {t : ClassTable}

theorem admitted_coherent (h : Read sources t) : t.Admitted t.contains ∧ t.Coherent := by
  induction h with
  | nil => exact ⟨admitted_empty, coherent_empty⟩
  | cons _ hp ih =>
    obtain ⟨hadmitted, hcoherent⟩ := ih
    obtain ⟨hafter, -, -⟩ := Program.admitted_of_ofSource hadmitted hp
    exact ⟨hafter, Program.coherent_of_ofSource hadmitted hcoherent hp⟩

theorem exists_written (h : Read sources t) {name : String} {c : Class}
    (hc : Dict.get? t name = some c) :
    ∃ w : Class.Written, w.cls = c ∧ w.source ∈ sources ∧ w.Faithful := by
  induction h with
  | nil => cases hc
  | cons _ hp ih =>
    obtain hold | ⟨w, hw, rfl, hfaithful⟩ := Program.exists_written hp hc
    · obtain ⟨w, hw, hsource, hfaithful⟩ := ih hold
      exact ⟨w, hw, List.mem_cons_of_mem _ hsource, hfaithful⟩
    · exact ⟨w, hw, List.mem_cons_self, hfaithful⟩

/-- So are the ancestors of a class. -/
theorem exists_written_lineage (h : Read sources t) {name : String} {c : Class}
    (hc : Dict.get? t name = some c) : ∃ ws : List Class.Written,
      ws.map Class.Written.cls = c.lineage ∧ ∀ w ∈ ws, w.source ∈ sources ∧ w.Faithful := by
  have hall := h.admitted_coherent.2.get?_of_mem_lineage c hc
  revert hall
  generalize c.lineage = cs
  intro hall
  induction cs with
  | nil => exact ⟨[], rfl, nofun⟩
  | cons a as ih =>
    obtain ⟨ha, has⟩ := List.forall_mem_cons.1 hall
    obtain ⟨w, rfl, hw⟩ := h.exists_written ha
    obtain ⟨ws, rfl, hws⟩ := ih has
    exact ⟨w :: ws, rfl, List.forall_mem_cons.2 ⟨hw, hws⟩⟩

end ClassTable.Read

/-! Calls of methods that are missing -/

/-- Holds of moments at which a run has failed for want of a method. -/
def Moment.Missing (n : Moment) : Prop :=
  ∃ cls method arity line, n.task = .failed (.located (.methodNotFound cls method arity) line)

/-- A call fails by itself for want of a method exactly where the class of its receiver does not
have it with so many parameters. Nothing else is done then. -/
theorem Moment.missing_of_call {m : Machine} {r : Ref} {c : Class} (hr : (m.heap.get r).cls = c)
    (name : String) (args : List Value) (line : Nat) (K : List Pending) (d : Nat) :
    ∃ n, next ⟨.call r name args line, K, m, d⟩ = some n ∧
      (n.Missing ↔ c.hasMethod name args.length = false) ∧
      (c.hasMethod name args.length = false →
        n = ⟨.failed (.located (.methodNotFound c.name name args.length) line), K, m, d⟩ ∧
        ∀ room, Eval.callIn room r name args line m =
          .error (.located (.methodNotFound c.name name args.length) line) m) := by
  subst hr
  refine ⟨beginCall K d m r name args line, rfl, ⟨fun hmissing => ?_, fun hno => ?_⟩, fun hno => ?_⟩
  · by_contra hhas
    rw [Bool.not_eq_false] at hhas
    obtain ⟨x, hx, harity⟩ := Class.hasMethod_eq_true_iff.1 hhas
    obtain ⟨cls, method, arity, at', htask⟩ := hmissing
    by_cases hfull : callLimit ≤ d
    · simp only [beginCall, hx, if_pos harity, if_pos hfull] at htask
      cases htask
    · obtain ⟨n, hbegun, -⟩ := begins_call hx harity (Nat.lt_of_not_le hfull) line K
      rw [Option.some.inj hbegun] at htask
      cases htask
  · rw [beginCall_of_missing hno]
    exact ⟨_, _, _, _, rfl⟩
  · exact ⟨beginCall_of_missing hno K d line, fun room => Eval.callIn_of_missing hno room line⟩

/-! Resolution -/

/-- For a class that was read, there are the texts of it and of its ancestors, the nearest first, in
the sources, and they resolve every name. A call on an instance fails by itself for want of a method
exactly where the class does not have it with so many parameters, and runs no code then. -/
theorem ClassTable.Read.resolves {sources : List String} {t : ClassTable} (h : Read sources t)
    {cls : String} {c : Class} (hc : Dict.get? t cls = some c) :
    (∃ ws : List Class.Written, ws.map Class.Written.cls = c.lineage ∧
      (∀ w ∈ ws, w.source ∈ sources) ∧ ∀ name, c.Resolves ws name) ∧
    ∀ (m : Machine) (r : Ref) (name : String) (args : List Value) (line : Nat)
      (K : List Moment.Pending) (d : Nat), (m.heap.get r).cls = c →
      ∃ n, Moment.next ⟨.call r name args line, K, m, d⟩ = some n ∧
        (n.Missing ↔ c.hasMethod name args.length = false) ∧
        (c.hasMethod name args.length = false →
          n = ⟨.failed (.located (.methodNotFound c.name name args.length) line), K, m, d⟩ ∧
          ∀ room, Eval.callIn room r name args line m =
            .error (.located (.methodNotFound c.name name args.length) line) m) := by
  constructor
  · obtain ⟨ws, hws, hread⟩ := h.exists_written_lineage hc
    exact ⟨ws, hws, fun w hw => (hread w hw).1,
      Class.resolves_of_faithful hws fun w hw => (hread w hw).2⟩
  · intro m r name args line K d hr
    exact Moment.missing_of_call hr name args line K d

/-- A source with a class that defines a method twice, over one that has it with fewer
parameters. -/
def overridingSource : String :=
  "class Shape:\n  def grow(by):\n    self.size = by\n" ++
  "class Box(Shape):\n  def grow():\n    self.size = 1\n" ++
  "  def grow(width, height):\n    self.size = width\n"

theorem ClassTable.Read.resolves_overriding : ∃ (t : ClassTable) (c : Class) (x : Method),
    Read [overridingSource] t ∧ Dict.get? t "Box" = some c ∧ c.method? "grow" = some x ∧
    x.params = ["width", "height"] ∧ c.parent.map (·.hasMethod "grow" 1) = some true ∧
    (∃ ws : List Class.Written, ws.map Class.Written.cls = c.lineage ∧
      (∃ w ∈ ws, w.Defines "grow") ∧ ∀ w ∈ ws, ¬ w.Defines "shrink") ∧
    ∀ room, Eval.callIn room 0 "grow" [.none] 9 (Moment.holding c) =
      .error (.located (.methodNotFound c.name "grow" 1) 9) (Moment.holding c) := by
  have hgrow : ((Program.ofSource .empty overridingSource).toOption.bind fun p =>
      (Dict.get? p.classes "Box").bind fun c => (c.method? "grow").map Method.params) =
        some ["width", "height"] := by
    decide +kernel
  obtain ⟨p, c, x, hp, hc, hx, hparams⟩ := Moment.exists_of_params hgrow
  have hothers : (Program.ofSource .empty overridingSource).map (fun p =>
      (Dict.get? p.classes "Box").map fun c =>
        (c.parent.map (·.hasMethod "grow" 1), (c.method? "shrink").isNone)) =
          .ok (some (some true, true)) := by
    decide +kernel
  rw [hp] at hothers
  have hbox := Except.ok.inj hothers
  simp only [hc, Option.map_some] at hbox
  obtain ⟨hparent, hshrink⟩ := Prod.mk.inj (Option.some.inj hbox)
  have hread : Read [overridingSource] p.classes := .cons .nil hp
  obtain ⟨⟨ws, hws, -, hresolves⟩, hcalls⟩ := resolves hread hc
  refine ⟨p.classes, c, x, hread, hc, hx, hparams, hparent, ⟨ws, hws, ?_, ?_⟩, ?_⟩
  · by_contra hno
    push Not at hno
    rw [(hresolves "grow").none_iff.2 hno] at hx
    cases hx
  · exact (hresolves "shrink").none_iff.1 (Option.isNone_iff_eq_none.1 hshrink)
  · have hmissing : c.hasMethod "grow" 1 = false := by
      have harity : x.arity = 2 := congrArg List.length hparams
      simp [Class.hasMethod, hx, harity]
    obtain ⟨n, -, -, hfails⟩ := hcalls (Moment.holding c) 0 "grow" [.none] 9 [] 0 rfl
    exact (hfails hmissing).2

end ClassLang
