import ClassLang.Proofs.Tree.Relocate

/-!
The lines on which a tree has places. A relocation that leaves a tree as it is leaves each of its
places where it is.
-/

namespace ClassLang

mutual

/-- Holds of expressions all of whose places are on lines with a property. -/
def Expr.OnLines (P : Nat → Prop) : Expr → Prop
  | .literal _ pos | .name _ pos => P pos.line
  | .call receiver _ args pos => receiver.OnLines P ∧ Expr.AllOnLines P args ∧ P pos.line
  | .toText operand pos | .negation operand pos => operand.OnLines P ∧ P pos.line
  | .arith _ left right pos | .logic _ left right pos | .compare _ left right pos =>
    left.OnLines P ∧ right.OnLines P ∧ P pos.line
  | .construct _ args pos => Expr.AllOnLines P args ∧ P pos.line
termination_by structural e => e

/-- Holds of expressions, each with all places on lines with a property. -/
def Expr.AllOnLines (P : Nat → Prop) : List Expr → Prop
  | [] => True
  | e :: es => e.OnLines P ∧ Expr.AllOnLines P es
termination_by structural es => es

end

mutual

/-- Holds of statements all of whose places are on lines with a property. -/
def Stmt.OnLines (P : Nat → Prop) : Stmt → Prop
  | .assign _ value pos | .give value pos | .expr value pos => value.OnLines P ∧ P pos.line
  | .assignField object _ value pos => object.OnLines P ∧ value.OnLines P ∧ P pos.line
  | .print args pos => Expr.AllOnLines P args ∧ P pos.line
  | .classDef cls pos => cls.OnLines P ∧ P pos.line
  | .branch condition yes no pos =>
    condition.OnLines P ∧ yes.OnLines P ∧ Stmt.ElseOnLines P no ∧ P pos.line
  | .block body pos => Stmt.AllOnLines P body ∧ P pos.line
  | .methodBody body pos => body.OnLines P ∧ P pos.line
termination_by structural s => s

/-- The same of what stands behind `else`. -/
def Stmt.ElseOnLines (P : Nat → Prop) : Option Stmt → Prop
  | none => True
  | some s => s.OnLines P
termination_by structural s => s

/-- Holds of statements, each with all places on lines with a property. -/
def Stmt.AllOnLines (P : Nat → Prop) : List Stmt → Prop
  | [] => True
  | s :: ss => s.OnLines P ∧ Stmt.AllOnLines P ss
termination_by structural ss => ss

/-- Holds of classes all of whose places, those of the parents included, are on lines with a
property. -/
def Class.OnLines (P : Nat → Prop) : Class → Prop
  | ⟨_, methods, parent⟩ => Method.AllOnLines P methods ∧ Class.ParentOnLines P parent
termination_by structural c => c

/-- The same of a parent. -/
def Class.ParentOnLines (P : Nat → Prop) : Option Class → Prop
  | none => True
  | some c => c.OnLines P
termination_by structural c => c

/-- Holds of methods all of whose places are on lines with a property. -/
def Method.OnLines (P : Nat → Prop) : Method → Prop
  | ⟨_, _, body⟩ => body.OnLines P
termination_by structural x => x

/-- Holds of methods, each with all places on lines with a property. -/
def Method.AllOnLines (P : Nat → Prop) : List Method → Prop
  | [] => True
  | x :: xs => x.OnLines P ∧ Method.AllOnLines P xs
termination_by structural xs => xs

end

variable {P : Nat → Prop}

theorem Stmt.OnLines.pos : {s : Stmt} → s.OnLines P → P s.pos.line
  | .assign .., ⟨_, hpos⟩ | .give .., ⟨_, hpos⟩ | .expr .., ⟨_, hpos⟩ | .print .., ⟨_, hpos⟩
  | .classDef .., ⟨_, hpos⟩ | .block .., ⟨_, hpos⟩ | .methodBody .., ⟨_, hpos⟩ => hpos
  | .assignField .., ⟨_, _, hpos⟩ => hpos
  | .branch .., ⟨_, _, _, hpos⟩ => hpos

theorem Stmt.allOnLines_iff {ss : List Stmt} :
    AllOnLines P ss ↔ ∀ s ∈ ss, s.OnLines P := by
  induction ss with
  | nil => simp [AllOnLines]
  | cons s ss ih => rw [AllOnLines, ih, List.forall_mem_cons]

theorem Method.allOnLines_iff {xs : List Method} :
    AllOnLines P xs ↔ ∀ x ∈ xs, x.OnLines P := by
  induction xs with
  | nil => simp [AllOnLines]
  | cons x xs ih => rw [AllOnLines, ih, List.forall_mem_cons]

/-- The method that a name means has its places where its class has, or a parent. -/
theorem Class.OnLines.method? (name : String) : {c : Class} → c.OnLines P →
    ∀ x ∈ c.method? name, x.body.OnLines P
  | ⟨cls, methods, parent⟩, ⟨hmethods, hparent⟩ => by
    intro x hx
    rw [method?_mk, Option.mem_def, Option.or_eq_some_iff] at hx
    obtain hx | ⟨-, hx⟩ := hx
    · obtain ⟨name, params, body⟩ := x
      exact Method.allOnLines_iff.1 hmethods _ (List.mem_of_find?_eq_some hx)
    · cases parent with
      | none => cases hx
      | some p => exact OnLines.method? name (c := p) hparent x hx

/-! Places that stay -/

/-- Holds of relocations that leave no place where it is but those on lines with a property. -/
structure Relocation.Spares (m : Relocation) (P : Nat → Prop) : Prop where
  place : ∀ {pos}, m.place pos = pos → P pos.line
  keeps : ∀ name, m.keeps name = false

/-- The relocation that moves the places on lines without a property, and keeps no class. -/
def Relocation.sparing (P : Nat → Prop) [DecidablePred P] : Relocation :=
  ⟨fun pos => if P pos.line then pos else ⟨pos.line + 1, pos.column⟩, fun _ => false⟩

theorem Relocation.place_sparing [DecidablePred P] {pos : Pos} :
    (sparing P).place pos = pos ↔ P pos.line := by
  refine ⟨fun h => ?_, fun h => if_pos h⟩
  by_cases hP : P pos.line
  · exact hP
  · have hline := congrArg Pos.line ((if_neg hP).symm.trans h)
    exact absurd hline (Nat.succ_ne_self _)

theorem Relocation.spares_sparing [DecidablePred P] : (sparing P).Spares P :=
  ⟨place_sparing.1, fun _ => rfl⟩

variable {m : Relocation}

mutual

theorem Expr.onLines_of_relocate (hm : m.Spares P) :
    (e : Expr) → e.relocate m.place = e → e.OnLines P
  | .literal _ _, h => hm.place (Expr.literal.inj h).2
  | .name _ _, h => hm.place (Expr.name.inj h).2
  | .call receiver _ args _, h => by
    obtain ⟨hreceiver, -, hargs, hpos⟩ := Expr.call.inj h
    exact ⟨receiver.onLines_of_relocate hm hreceiver, Expr.allOnLines_of_relocate hm args hargs,
      hm.place hpos⟩
  | .toText operand _, h => by
    obtain ⟨hoperand, hpos⟩ := Expr.toText.inj h
    exact ⟨operand.onLines_of_relocate hm hoperand, hm.place hpos⟩
  | .negation operand _, h => by
    obtain ⟨hoperand, hpos⟩ := Expr.negation.inj h
    exact ⟨operand.onLines_of_relocate hm hoperand, hm.place hpos⟩
  | .arith _ left right _, h => by
    obtain ⟨-, hleft, hright, hpos⟩ := Expr.arith.inj h
    exact ⟨left.onLines_of_relocate hm hleft, right.onLines_of_relocate hm hright, hm.place hpos⟩
  | .logic _ left right _, h => by
    obtain ⟨-, hleft, hright, hpos⟩ := Expr.logic.inj h
    exact ⟨left.onLines_of_relocate hm hleft, right.onLines_of_relocate hm hright, hm.place hpos⟩
  | .compare _ left right _, h => by
    obtain ⟨-, hleft, hright, hpos⟩ := Expr.compare.inj h
    exact ⟨left.onLines_of_relocate hm hleft, right.onLines_of_relocate hm hright, hm.place hpos⟩
  | .construct _ args _, h => by
    obtain ⟨-, hargs, hpos⟩ := Expr.construct.inj h
    exact ⟨Expr.allOnLines_of_relocate hm args hargs, hm.place hpos⟩

theorem Expr.allOnLines_of_relocate (hm : m.Spares P) :
    (es : List Expr) → Expr.relocateAll m.place es = es → Expr.AllOnLines P es
  | [], _ => trivial
  | e :: es, h => by
    obtain ⟨he, hes⟩ := List.cons.inj h
    exact ⟨e.onLines_of_relocate hm he, Expr.allOnLines_of_relocate hm es hes⟩

end

mutual

theorem Stmt.onLines_of_relocate (hm : m.Spares P) :
    (s : Stmt) → s.relocate m = s → s.OnLines P
  | .assign _ value _, h => by
    obtain ⟨-, hvalue, hpos⟩ := Stmt.assign.inj h
    exact ⟨value.onLines_of_relocate hm hvalue, hm.place hpos⟩
  | .assignField object _ value _, h => by
    obtain ⟨hobject, -, hvalue, hpos⟩ := Stmt.assignField.inj h
    exact ⟨object.onLines_of_relocate hm hobject, value.onLines_of_relocate hm hvalue,
      hm.place hpos⟩
  | .print args _, h => by
    obtain ⟨hargs, hpos⟩ := Stmt.print.inj h
    exact ⟨Expr.allOnLines_of_relocate hm args hargs, hm.place hpos⟩
  | .classDef cls _, h => by
    obtain ⟨hcls, hpos⟩ := Stmt.classDef.inj h
    exact ⟨cls.onLines_of_relocate hm hcls, hm.place hpos⟩
  | .branch condition yes no _, h => by
    obtain ⟨hcondition, hyes, hno, hpos⟩ := Stmt.branch.inj h
    exact ⟨condition.onLines_of_relocate hm hcondition, yes.onLines_of_relocate hm hyes,
      Stmt.elseOnLines_of_relocate hm no hno, hm.place hpos⟩
  | .block body _, h => by
    obtain ⟨hbody, hpos⟩ := Stmt.block.inj h
    exact ⟨Stmt.allOnLines_of_relocate hm body hbody, hm.place hpos⟩
  | .give value _, h => by
    obtain ⟨hvalue, hpos⟩ := Stmt.give.inj h
    exact ⟨value.onLines_of_relocate hm hvalue, hm.place hpos⟩
  | .methodBody body _, h => by
    obtain ⟨hbody, hpos⟩ := Stmt.methodBody.inj h
    exact ⟨body.onLines_of_relocate hm hbody, hm.place hpos⟩
  | .expr value _, h => by
    obtain ⟨hvalue, hpos⟩ := Stmt.expr.inj h
    exact ⟨value.onLines_of_relocate hm hvalue, hm.place hpos⟩

theorem Stmt.elseOnLines_of_relocate (hm : m.Spares P) :
    (s : Option Stmt) → Stmt.relocateElse m s = s → Stmt.ElseOnLines P s
  | none, _ => trivial
  | some s, h => s.onLines_of_relocate hm (Option.some.inj h)

theorem Stmt.allOnLines_of_relocate (hm : m.Spares P) :
    (ss : List Stmt) → Stmt.relocateAll m ss = ss → Stmt.AllOnLines P ss
  | [], _ => trivial
  | s :: ss, h => by
    obtain ⟨hs, hss⟩ := List.cons.inj h
    exact ⟨s.onLines_of_relocate hm hs, Stmt.allOnLines_of_relocate hm ss hss⟩

theorem Class.onLines_of_relocate (hm : m.Spares P) :
    (c : Class) → c.relocate m = c → c.OnLines P
  | ⟨name, methods, parent⟩, h => by
    rw [Class.relocate, if_neg (by rw [hm.keeps]; decide)] at h
    obtain ⟨-, hmethods, hparent⟩ := Class.mk.inj h
    exact ⟨Method.allOnLines_of_relocate hm methods hmethods,
      Class.parentOnLines_of_relocate hm parent hparent⟩

theorem Class.parentOnLines_of_relocate (hm : m.Spares P) :
    (c : Option Class) → Class.relocateParent m c = c → Class.ParentOnLines P c
  | none, _ => trivial
  | some c, h => c.onLines_of_relocate hm (Option.some.inj h)

theorem Method.onLines_of_relocate (hm : m.Spares P) :
    (x : Method) → x.relocate m = x → x.OnLines P
  | ⟨_, _, body⟩, h => body.onLines_of_relocate hm (Method.mk.inj h).2.2

theorem Method.allOnLines_of_relocate (hm : m.Spares P) :
    (xs : List Method) → Method.relocateAll m xs = xs → Method.AllOnLines P xs
  | [], _ => trivial
  | x :: xs, h => by
    obtain ⟨hx, hxs⟩ := List.cons.inj h
    exact ⟨x.onLines_of_relocate hm hx, Method.allOnLines_of_relocate hm xs hxs⟩

end

end ClassLang
