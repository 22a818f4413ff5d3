import ClassLang.Proofs.Eval.Mirror

/-!
What stands behind a return. A block does nothing behind the first return that stands in it, so
methods whose bodies are trimmed there do what they did before, and so does every program that calls
them.
-/

namespace ClassLang

open Eval

/-! Trimming -/

mutual

/-- Holds of a statement and the same one with blocks in it trimmed. -/
inductive Stmt.Trims : Stmt → Stmt → Prop where
  | same (s : Stmt) : Stmt.Trims s s
  | branch {condition : Expr} {yes yes' : Stmt} {no no' : Option Stmt} {pos : Pos} :
      Stmt.Trims yes yes' → Stmt.TrimsElse no no' →
      Stmt.Trims (.branch condition yes no pos) (.branch condition yes' no' pos)
  | block {ss ss' : List Stmt} {pos : Pos} :
      Stmt.TrimsAll ss ss' → Stmt.Trims (.block ss pos) (.block ss' pos)
  | methodBody {s s' : Stmt} {pos : Pos} :
      Stmt.Trims s s' → Stmt.Trims (.methodBody s pos) (.methodBody s' pos)

/-- Holds of what stands behind `else`, and the same with blocks in it trimmed. -/
inductive Stmt.TrimsElse : Option Stmt → Option Stmt → Prop where
  | none : Stmt.TrimsElse none none
  | some {s s' : Stmt} : Stmt.Trims s s' → Stmt.TrimsElse (some s) (some s')

/-- Holds of statements, and the same ones where some behind a return are left out. -/
inductive Stmt.TrimsAll : List Stmt → List Stmt → Prop where
  | nil : Stmt.TrimsAll [] []
  | cons {s s' : Stmt} {ss ss' : List Stmt} :
      Stmt.Trims s s' → Stmt.TrimsAll ss ss' → Stmt.TrimsAll (s :: ss) (s' :: ss')
  | behind {value : Expr} {pos : Pos} {ss ss' : List Stmt} :
      ss'.Sublist ss → Stmt.TrimsAll (.give value pos :: ss) (.give value pos :: ss')

end

/-- A block ends with a return, whatever stands behind it. -/
theorem Eval.block_give (call : Call) (value : Expr) (pos : Pos) (ss : List Stmt) :
    block call (.give value pos :: ss) = stmt call (.give value pos) := by
  rw [block, stmt]
  simp only [bind_assoc, pure_bind]

mutual

/-- A trimmed statement does what it did before. -/
theorem Stmt.Trims.stmt_eq {s s' : Stmt} (call : Call) : s.Trims s' →
    stmt call s' = stmt call s
  | .same _ => rfl
  | .branch hyes hno => by
    rw [stmt, stmt, hyes.stmt_eq call]
    simp only [hno.otherwise_eq call]
  | .block hss => by rw [stmt, stmt, hss.block_eq call]
  | .methodBody hs => by rw [stmt, stmt, hs.stmt_eq call]

theorem Stmt.TrimsElse.otherwise_eq {no no' : Option Stmt} (call : Call) {line : Nat} :
    Stmt.TrimsElse no no' → otherwise call line no' = otherwise call line no
  | .none => rfl
  | .some hs => by rw [otherwise, otherwise, hs.stmt_eq call]

theorem Stmt.TrimsAll.block_eq {ss ss' : List Stmt} (call : Call) : Stmt.TrimsAll ss ss' →
    Eval.block call ss' = Eval.block call ss
  | .nil => rfl
  | .cons hs hss => by rw [Eval.block, Eval.block, hs.stmt_eq call, hss.block_eq call]
  | .behind _ => by rw [block_give, block_give]

end

/-! Changes of bodies -/

/-- A method with another body in the place of its own. -/
def Method.mapBody (g : Stmt → Stmt) (x : Method) : Method := { x with body := g x.body }

/-- A class with other bodies in the place of those of its methods, the inherited ones among them.
-/
def Class.mapBody (g : Stmt → Stmt) : Class → Class
  | ⟨name, methods, parent⟩ => ⟨name, methods.map (·.mapBody g), match parent with
    | none => none
    | some p => some (p.mapBody g)⟩
termination_by structural c => c

/-- A statement at the top level, with other bodies in a class that it defines. -/
def Stmt.mapBody (g : Stmt → Stmt) : Stmt → Stmt
  | .classDef c pos => .classDef (c.mapBody g) pos
  | s => s

/-- A program with other bodies in its classes. -/
def Program.mapBody (g : Stmt → Stmt) (p : Program) : Program :=
  ⟨p.statements.map (·.mapBody g), p.classes.map (·.mapBody g)⟩

/-- A machine with other bodies in its classes, those of its instances among them. -/
def Machine.mapBody (g : Stmt → Stmt) (m : Machine) : Machine :=
  { m with classes := m.classes.map (·.mapBody g), heap := m.heap.mapClass (·.mapBody g) }

theorem Class.mapBody_mk (g : Stmt → Stmt) (name : String) (methods : List Method)
    (parent : Option Class) :
    mapBody g ⟨name, methods, parent⟩ =
      ⟨name, methods.map (·.mapBody g), parent.map (·.mapBody g)⟩ := by
  cases parent <;> rfl

theorem Class.name_mapBody (g : Stmt → Stmt) (c : Class) : (c.mapBody g).name = c.name := by
  obtain ⟨name, methods, parent⟩ := c
  rw [mapBody_mk]

theorem Class.parentName?_mapBody (g : Stmt → Stmt) (c : Class) :
    (c.mapBody g).parentName? = c.parentName? := by
  obtain ⟨name, methods, parent⟩ := c
  rw [mapBody_mk]
  cases parent with
  | none => rfl
  | some p => exact congrArg some (p.name_mapBody g)

theorem Class.length_methods_mapBody (g : Stmt → Stmt) (c : Class) :
    (c.mapBody g).methods.length = c.methods.length := by
  obtain ⟨name, methods, parent⟩ := c
  rw [mapBody_mk]
  exact List.length_map _

theorem find?_map_mapBody (g : Stmt → Stmt) (xs : List Method) (name : String) :
    (xs.map (·.mapBody g)).find? (·.name == name) =
      (xs.find? (·.name == name)).map (·.mapBody g) := by
  rw [List.find?_map]
  rfl

/-- A name means the method that it meant, with its other body. -/
theorem Class.method?_mapBody (g : Stmt → Stmt) (name : String) (c : Class) :
    (c.mapBody g).method? name = (c.method? name).map (·.mapBody g) := by
  cases c with
  | mk cls methods parent =>
    rw [mapBody_mk, method?_mk, method?_mk, find?_map_mapBody]
    cases methods.find? (·.name == name) with
    | some x => rfl
    | none =>
      cases parent with
      | none => rfl
      | some p => exact method?_mapBody g name p

/-- The machines of which one has trimmed bodies. -/
def Mirror.trimmed (g : Stmt → Stmt) (hg : ∀ s : Stmt, s.Trims (g s)) : Mirror where
  cls := Class.mapBody g
  watch := Eq
  default := rfl
  name := Class.name_mapBody g
  parentName? := Class.parentName?_mapBody g
  size := Class.length_methods_mapBody g
  missing hx := by rw [Class.method?_mapBody, hx, Option.map_none]
  found {c method x} hx := by
    refine ⟨x.mapBody g, by rw [Class.method?_mapBody, hx, Option.map_some], rfl, fun call => ?_⟩
    exact (hg x.body).stmt_eq call
  step h text := by rw [h]
  value h text := by rw [h]
  record h _ _ _ _ _ _ := by rw [h]
  depth h f := by rw [h]

namespace Mirror

variable {g : Stmt → Stmt} {hg : ∀ s : Stmt, s.Trims (g s)}

theorem shows_mapBody (m : Machine) : (trimmed g hg).Shows m (m.mapBody g) :=
  ⟨rfl, rfl, rfl, rfl, rfl, rfl⟩

theorem Shows.eq_mapBody {m n : Machine} (h : (trimmed g hg).Shows m n) : n = m.mapBody g := by
  obtain ⟨globals, frames, classes, heap, console, watch⟩ := n
  obtain rfl := h.globals
  obtain rfl := h.frames
  obtain rfl := h.console
  obtain rfl := h.watch
  obtain rfl := h.classes
  obtain rfl := h.heap
  rfl

theorem twins_mapBody (s : Stmt) : (trimmed g hg).Twins s (s.mapBody g) := by
  cases s with
  | classDef c pos => exact twins_classDef (trimmed g hg) c pos
  | _ => exact twins_refl _ _

/-- What goes the same with trimmed bodies gives one answer, and leaves one machine but for these.
-/
theorem Goes.mapBody {α : Type} {x y : Run α} (h : (trimmed g hg).Goes x y) (m : Machine) :
    y.answer (m.mapBody g) = x.answer m ∧ y.after (m.mapBody g) = (x.after m).mapBody g := by
  obtain ⟨hanswer, hshows⟩ := h.ends (@shows_mapBody g hg m)
  exact ⟨hanswer, hshows.eq_mapBody⟩

end Mirror

/-- A call does the same where bodies are trimmed, the one of its own method among them. -/
theorem Eval.callIn_mapBody (g : Stmt → Stmt) (hg : ∀ s : Stmt, s.Trims (g s)) (room : Nat)
    (r : Ref) (name : String) (args : List Value) (line : Nat) (m : Machine) :
    (callIn room r name args line).answer (m.mapBody g) =
      (callIn room r name args line).answer m ∧
    (callIn room r name args line).after (m.mapBody g) =
      ((callIn room r name args line).after m).mapBody g :=
  ((Mirror.trimmed g hg).calls_callIn room r name args line).mapBody m

/-- A program does the same where the bodies of its methods are trimmed. -/
theorem Machine.interpret_mapBody (g : Stmt → Stmt) (hg : ∀ s : Stmt, s.Trims (g s)) (p : Program)
    (m : Machine) :
    (interpret (p.mapBody g)).answer (m.mapBody g) = (interpret p).answer m ∧
    (interpret (p.mapBody g)).after (m.mapBody g) = ((interpret p).after m).mapBody g := by
  have htwins : List.Forall₂ (Mirror.trimmed g hg).Twins p.statements
      (p.statements.map (·.mapBody g)) := by
    rw [List.forall₂_map_right_iff, List.forall₂_same]
    exact fun s _ => Mirror.twins_mapBody s
  exact (Mirror.Goes.interpret htwins rfl).mapBody m

end ClassLang
