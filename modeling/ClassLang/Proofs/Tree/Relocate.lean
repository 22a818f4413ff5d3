import ClassLang.Proofs.Dict
import ClassLang.Value

/-!
Trees with other places. A relocation moves the places of a tree and leaves all else as it is; some
classes it may keep as they stand, with their places. A bare tree has no places at all, so that
trees are equal up to their places where the bare ones are equal.
-/

namespace ClassLang

/-- A change of places, and the names of the classes that keep theirs. -/
structure Relocation where
  place : Pos → Pos
  keeps : String → Bool

namespace Relocation

/-- The relocation that leaves everything where it is. -/
def stay : Relocation := ⟨id, fun _ => false⟩

/-- The relocation that puts everything at one place. -/
def bare : Relocation := ⟨fun _ => ⟨0, 0⟩, fun _ => false⟩

@[simp] theorem keeps_stay (name : String) : stay.keeps name = false := rfl

@[simp] theorem place_bare (pos : Pos) : bare.place pos = ⟨0, 0⟩ := rfl

@[simp] theorem keeps_bare (name : String) : bare.keeps name = false := rfl

end Relocation

mutual

/-- An expression with other places. -/
def Expr.relocate (f : Pos → Pos) : Expr → Expr
  | .literal value pos => .literal value (f pos)
  | .name path pos => .name path (f pos)
  | .call receiver method args pos =>
    .call (receiver.relocate f) method (Expr.relocateAll f args) (f pos)
  | .toText operand pos => .toText (operand.relocate f) (f pos)
  | .arith op left right pos => .arith op (left.relocate f) (right.relocate f) (f pos)
  | .logic op left right pos => .logic op (left.relocate f) (right.relocate f) (f pos)
  | .negation operand pos => .negation (operand.relocate f) (f pos)
  | .compare op left right pos => .compare op (left.relocate f) (right.relocate f) (f pos)
  | .construct cls args pos => .construct cls (Expr.relocateAll f args) (f pos)
termination_by structural e => e

/-- Expressions with other places. -/
def Expr.relocateAll (f : Pos → Pos) : List Expr → List Expr
  | [] => []
  | e :: es => e.relocate f :: Expr.relocateAll f es
termination_by structural es => es

end

mutual

/-- A statement with other places. -/
def Stmt.relocate (m : Relocation) : Stmt → Stmt
  | .assign name value pos => .assign name (value.relocate m.place) (m.place pos)
  | .assignField object field value pos =>
    .assignField (object.relocate m.place) field (value.relocate m.place) (m.place pos)
  | .print args pos => .print (Expr.relocateAll m.place args) (m.place pos)
  | .classDef cls pos => .classDef (cls.relocate m) (m.place pos)
  | .branch condition yes no pos =>
    .branch (condition.relocate m.place) (yes.relocate m) (Stmt.relocateElse m no) (m.place pos)
  | .block body pos => .block (Stmt.relocateAll m body) (m.place pos)
  | .give value pos => .give (value.relocate m.place) (m.place pos)
  | .methodBody body pos => .methodBody (body.relocate m) (m.place pos)
  | .expr value pos => .expr (value.relocate m.place) (m.place pos)
termination_by structural s => s

/-- What stands behind `else`, with other places. -/
def Stmt.relocateElse (m : Relocation) : Option Stmt → Option Stmt
  | none => none
  | some s => some (s.relocate m)
termination_by structural s => s

/-- Statements with other places. -/
def Stmt.relocateAll (m : Relocation) : List Stmt → List Stmt
  | [] => []
  | s :: ss => s.relocate m :: Stmt.relocateAll m ss
termination_by structural ss => ss

/-- A class with other places, unless it is kept. -/
def Class.relocate (m : Relocation) : Class → Class
  | ⟨name, methods, parent⟩ =>
    if m.keeps name then ⟨name, methods, parent⟩
    else ⟨name, Method.relocateAll m methods, Class.relocateParent m parent⟩
termination_by structural c => c

/-- A parent with other places. -/
def Class.relocateParent (m : Relocation) : Option Class → Option Class
  | none => none
  | some c => some (c.relocate m)
termination_by structural c => c

/-- A method with other places. -/
def Method.relocate (m : Relocation) : Method → Method
  | ⟨name, params, body⟩ => ⟨name, params, body.relocate m⟩
termination_by structural x => x

/-- Methods with other places. -/
def Method.relocateAll (m : Relocation) : List Method → List Method
  | [] => []
  | x :: xs => x.relocate m :: Method.relocateAll m xs
termination_by structural xs => xs

end

/-- An expression without places. -/
abbrev Expr.bare (e : Expr) : Expr := e.relocate Relocation.bare.place

/-- A statement without places. -/
abbrev Stmt.bare (s : Stmt) : Stmt := s.relocate .bare

/-- A method without places. -/
abbrev Method.bare (x : Method) : Method := x.relocate .bare

/-- A class without places. -/
abbrev Class.bare (c : Class) : Class := c.relocate .bare

variable {m : Relocation}

/-! Expressions -/

namespace Expr

@[simp] theorem relocateAll_eq_map (f : Pos → Pos) (es : List Expr) :
    relocateAll f es = es.map (relocate f) := by
  induction es with
  | nil => rfl
  | cons e es ih => rw [relocateAll, ih, List.map_cons]

@[simp] theorem pos_relocate (f : Pos → Pos) (e : Expr) : (e.relocate f).pos = f e.pos := by
  cases e <;> rfl

mutual

theorem relocate_id : (e : Expr) → e.relocate id = e
  | .literal _ _ | .name _ _ => rfl
  | .call receiver _ args _ => by rw [relocate, relocate_id receiver, relocateAll_id args]; rfl
  | .toText operand _ | .negation operand _ => by rw [relocate, relocate_id operand]; rfl
  | .arith _ left right _ | .logic _ left right _ | .compare _ left right _ => by
    rw [relocate, relocate_id left, relocate_id right]; rfl
  | .construct _ args _ => by rw [relocate, relocateAll_id args]; rfl

theorem relocateAll_id : (es : List Expr) → relocateAll id es = es
  | [] => rfl
  | e :: es => by rw [relocateAll, relocate_id e, relocateAll_id es]

end

mutual

/-- Moving an expression changes its places alone. -/
theorem bare_relocate (f : Pos → Pos) :
    (e : Expr) → (e.relocate f).relocate Relocation.bare.place = e.relocate Relocation.bare.place
  | .literal _ _ | .name _ _ => by simp only [relocate, Relocation.place_bare]
  | .call receiver _ args _ => by
    simp only [relocate, Relocation.place_bare, bare_relocate f receiver, bareAll_relocateAll f args]
  | .toText operand _ | .negation operand _ => by
    simp only [relocate, Relocation.place_bare, bare_relocate f operand]
  | .arith _ left right _ | .logic _ left right _ | .compare _ left right _ => by
    simp only [relocate, Relocation.place_bare, bare_relocate f left, bare_relocate f right]
  | .construct _ args _ => by
    simp only [relocate, Relocation.place_bare, bareAll_relocateAll f args]

theorem bareAll_relocateAll (f : Pos → Pos) : (es : List Expr) →
    relocateAll Relocation.bare.place (relocateAll f es) = relocateAll Relocation.bare.place es
  | [] => rfl
  | e :: es => by simp only [relocateAll, bare_relocate f e, bareAll_relocateAll f es]

end

end Expr

/-! Statements and classes -/

@[simp] theorem Stmt.relocateAll_eq_map (m : Relocation) (ss : List Stmt) :
    relocateAll m ss = ss.map (relocate m) := by
  induction ss with
  | nil => rfl
  | cons s ss ih => rw [relocateAll, ih, List.map_cons]

@[simp] theorem Stmt.relocateElse_eq_map (m : Relocation) (s : Option Stmt) :
    relocateElse m s = s.map (relocate m) := by cases s <;> rfl

@[simp] theorem Method.relocateAll_eq_map (m : Relocation) (xs : List Method) :
    relocateAll m xs = xs.map (relocate m) := by
  induction xs with
  | nil => rfl
  | cons x xs ih => rw [relocateAll, ih, List.map_cons]

@[simp] theorem Class.relocateParent_eq_map (m : Relocation) (c : Option Class) :
    relocateParent m c = c.map (relocate m) := by cases c <;> rfl

@[simp] theorem Method.name_relocate (m : Relocation) (x : Method) :
    (x.relocate m).name = x.name := by cases x; rfl

@[simp] theorem Method.params_relocate (m : Relocation) (x : Method) :
    (x.relocate m).params = x.params := by cases x; rfl

@[simp] theorem Method.body_relocate (m : Relocation) (x : Method) :
    (x.relocate m).body = x.body.relocate m := by cases x; rfl

@[simp] theorem Method.arity_relocate (m : Relocation) (x : Method) :
    (x.relocate m).arity = x.arity := by cases x; rfl

theorem Class.relocate_of_keeps {c : Class} (h : m.keeps c.name = true) : c.relocate m = c := by
  obtain ⟨name, methods, parent⟩ := c
  rw [relocate, if_pos h]

theorem Class.relocate_of_not_keeps {c : Class} (h : m.keeps c.name = false) :
    c.relocate m = ⟨c.name, c.methods.map (·.relocate m), c.parent.map (·.relocate m)⟩ := by
  obtain ⟨name, methods, parent⟩ := c
  change m.keeps name = false at h
  rw [relocate, if_neg (by rw [h]; decide), Method.relocateAll_eq_map, relocateParent_eq_map]

@[simp] theorem Class.name_relocate (m : Relocation) (c : Class) : (c.relocate m).name = c.name := by
  by_cases h : m.keeps c.name = true
  · rw [relocate_of_keeps h]
  · rw [Bool.not_eq_true] at h
    rw [relocate_of_not_keeps h]

mutual

theorem Stmt.relocate_stay : (s : Stmt) → s.relocate .stay = s
  | .assign _ value _ | .give value _ | .expr value _ => by
    rw [Stmt.relocate, Relocation.stay, value.relocate_id]; rfl
  | .assignField object _ value _ => by
    rw [Stmt.relocate, Relocation.stay, object.relocate_id, value.relocate_id]; rfl
  | .print args _ => by rw [Stmt.relocate, Relocation.stay, Expr.relocateAll_id args]; rfl
  | .classDef cls _ => by rw [Stmt.relocate, cls.relocate_stay]; rfl
  | .branch condition yes no _ => by
    rw [Stmt.relocate, yes.relocate_stay, Stmt.relocateElse_stay no, Relocation.stay,
      condition.relocate_id]; rfl
  | .block body _ => by rw [Stmt.relocate, Stmt.relocateAll_stay body]; rfl
  | .methodBody body _ => by rw [Stmt.relocate, body.relocate_stay]; rfl

theorem Stmt.relocateElse_stay : (s : Option Stmt) → Stmt.relocateElse .stay s = s
  | none => rfl
  | some s => by rw [Stmt.relocateElse, s.relocate_stay]

theorem Stmt.relocateAll_stay : (ss : List Stmt) → Stmt.relocateAll .stay ss = ss
  | [] => rfl
  | s :: ss => by rw [Stmt.relocateAll, s.relocate_stay, Stmt.relocateAll_stay ss]

theorem Class.relocate_stay : (c : Class) → c.relocate .stay = c
  | ⟨name, methods, parent⟩ => by
    rw [Class.relocate, Relocation.keeps_stay, if_neg Bool.false_ne_true,
      Method.relocateAll_stay methods, Class.relocateParent_stay parent]

theorem Class.relocateParent_stay : (c : Option Class) → Class.relocateParent .stay c = c
  | none => rfl
  | some c => by rw [Class.relocateParent, c.relocate_stay]

theorem Method.relocate_stay : (x : Method) → x.relocate .stay = x
  | ⟨_, _, body⟩ => by rw [Method.relocate, body.relocate_stay]

theorem Method.relocateAll_stay : (xs : List Method) → Method.relocateAll .stay xs = xs
  | [] => rfl
  | x :: xs => by rw [Method.relocateAll, x.relocate_stay, Method.relocateAll_stay xs]

end

theorem find?_map_relocate (m : Relocation) (xs : List Method) (name : String) :
    (xs.map (·.relocate m)).find? (·.name == name) =
      (xs.find? (·.name == name)).map (·.relocate m) := by
  induction xs with
  | nil => rfl
  | cons x xs ih =>
    rw [List.map_cons, List.find?_cons, List.find?_cons, Method.name_relocate, ih]
    cases x.name == name <;> rfl

theorem Class.method?_mk (name cls : String) (methods : List Method) (parent : Option Class) :
    Class.method? name ⟨cls, methods, parent⟩ =
      (methods.find? (·.name == name)).or (parent.bind (·.method? name)) := by
  cases parent <;> rfl

/-- The method that a name means is moved with its class, or kept with it. -/
theorem Class.method?_relocate (m : Relocation) (name : String) : (c : Class) →
    ∃ k : Relocation, (c.relocate m).method? name = (c.method? name).map (·.relocate k)
  | ⟨cls, methods, parent⟩ => by
    by_cases hkeeps : m.keeps cls = true
    · refine ⟨.stay, ?_⟩
      rw [relocate_of_keeps (c := ⟨cls, methods, parent⟩) hkeeps]
      cases Class.method? name ⟨cls, methods, parent⟩ with
      | none => rfl
      | some x =>
        obtain ⟨x, params, body⟩ := x
        rw [Option.map_some, Method.relocate, body.relocate_stay]
    · rw [Bool.not_eq_true] at hkeeps
      rw [relocate_of_not_keeps (c := ⟨cls, methods, parent⟩) hkeeps, method?_mk, method?_mk,
        find?_map_relocate]
      cases methods.find? (·.name == name) with
      | some x => exact ⟨m, rfl⟩
      | none =>
        cases parent with
        | none => exact ⟨m, rfl⟩
        | some p => exact method?_relocate m name p

theorem Class.hasMethod_relocate (m : Relocation) (c : Class) (name : String) (arity : Nat) :
    (c.relocate m).hasMethod name arity = c.hasMethod name arity := by
  obtain ⟨k, hk⟩ := c.method?_relocate m name
  rw [hasMethod, hasMethod, hk]
  cases c.method? name with
  | none => rfl
  | some x => simp only [Option.map_some, Method.arity_relocate]

mutual

/-- Moving a statement changes its places alone. -/
theorem Stmt.bare_relocate (m : Relocation) :
    (s : Stmt) → (s.relocate m).relocate .bare = s.relocate .bare
  | .assign _ value _ | .give value _ | .expr value _ => by
    simp only [Stmt.relocate, Relocation.place_bare, value.bare_relocate m.place]
  | .assignField object _ value _ => by
    simp only [Stmt.relocate, Relocation.place_bare, object.bare_relocate m.place,
      value.bare_relocate m.place]
  | .print args _ => by
    simp only [Stmt.relocate, Relocation.place_bare, Expr.bareAll_relocateAll m.place args]
  | .classDef cls _ => by
    simp only [Stmt.relocate, Relocation.place_bare, cls.bare_relocate m]
  | .branch condition yes no _ => by
    simp only [Stmt.relocate, Relocation.place_bare, condition.bare_relocate m.place,
      yes.bare_relocate m, Stmt.bareElse_relocateElse m no]
  | .block body _ => by
    simp only [Stmt.relocate, Relocation.place_bare, Stmt.bareAll_relocateAll m body]
  | .methodBody body _ => by
    simp only [Stmt.relocate, Relocation.place_bare, body.bare_relocate m]

theorem Stmt.bareElse_relocateElse (m : Relocation) : (s : Option Stmt) →
    Stmt.relocateElse .bare (Stmt.relocateElse m s) = Stmt.relocateElse .bare s
  | none => rfl
  | some s => by simp only [Stmt.relocateElse, s.bare_relocate m]

theorem Stmt.bareAll_relocateAll (m : Relocation) : (ss : List Stmt) →
    Stmt.relocateAll .bare (Stmt.relocateAll m ss) = Stmt.relocateAll .bare ss
  | [] => rfl
  | s :: ss => by simp only [Stmt.relocateAll, s.bare_relocate m, Stmt.bareAll_relocateAll m ss]

theorem Class.bare_relocate (m : Relocation) : (c : Class) →
    (c.relocate m).relocate .bare = c.relocate .bare
  | ⟨name, methods, parent⟩ => by
    by_cases hm : m.keeps name = true
    · simp only [Class.relocate, hm, if_true]
    · simp only [Class.relocate, hm, Relocation.keeps_bare, Bool.false_eq_true, if_false,
        Method.bareAll_relocateAll m methods, Class.bareParent_relocateParent m parent]

theorem Class.bareParent_relocateParent (m : Relocation) : (c : Option Class) →
    Class.relocateParent .bare (Class.relocateParent m c) = Class.relocateParent .bare c
  | none => rfl
  | some c => by simp only [Class.relocateParent, c.bare_relocate m]

theorem Method.bare_relocate (m : Relocation) : (x : Method) →
    (x.relocate m).relocate .bare = x.relocate .bare
  | ⟨_, _, body⟩ => by simp only [Method.relocate, body.bare_relocate m]

theorem Method.bareAll_relocateAll (m : Relocation) : (xs : List Method) →
    Method.relocateAll .bare (Method.relocateAll m xs) = Method.relocateAll .bare xs
  | [] => rfl
  | x :: xs => by
    simp only [Method.relocateAll, x.bare_relocate m, Method.bareAll_relocateAll m xs]

end

/-! Tables and heaps -/

/-- A table of classes with other places. -/
def ClassTable.relocate (m : Relocation) (t : ClassTable) : ClassTable := t.map (·.relocate m)

/-- A heap whose classes have other places. -/
def Heap.relocate (m : Relocation) (h : Heap) : Heap :=
  ⟨h.objects.map fun o => { o with cls := o.cls.relocate m }⟩

/-- A table of classes without places. -/
abbrev ClassTable.bare (t : ClassTable) : ClassTable := t.relocate .bare

/-- A heap without places. -/
abbrev Heap.bare (h : Heap) : Heap := h.relocate .bare

namespace ClassTable

@[simp] theorem get?_relocate (m : Relocation) (t : ClassTable) (name : String) :
    Dict.get? (t.relocate m) name = (Dict.get? t name).map (·.relocate m) := Dict.get?_map ..

@[simp] theorem contains_relocate (m : Relocation) (t : ClassTable) (name : String) :
    Dict.contains (t.relocate m) name = Dict.contains t name := Dict.contains_map ..

theorem relocate_add (m : Relocation) (t : ClassTable) (c : Class) :
    (t.add c).relocate m = (t.relocate m).add (c.relocate m) := by
  rw [relocate, add, Dict.map_insert, add, Class.name_relocate, relocate]

theorem bare_relocate (m : Relocation) (t : ClassTable) : (t.relocate m).bare = t.bare := by
  apply Dict.ext_get?
  intro name
  rw [get?_relocate, get?_relocate, get?_relocate]
  cases Dict.get? t name with
  | none => rfl
  | some c => rw [Option.map_some, Option.map_some, Option.map_some, c.bare_relocate]

end ClassTable

namespace Heap

theorem get_relocate (m : Relocation) (h : Heap) (r : Ref) :
    (h.relocate m).get r = { h.get r with cls := (h.get r).cls.relocate m } := by
  have hdefault : (default : Object).cls.relocate m = (default : Object).cls := by
    by_cases hk : m.keeps "" = true
    · exact Class.relocate_of_keeps hk
    · rw [Bool.not_eq_true] at hk
      exact Class.relocate_of_not_keeps hk
  simp only [get, relocate, Array.getD_eq_getD_getElem?, Array.getElem?_map]
  cases h.objects[r]? with
  | none =>
    simp only [Option.map_none, Option.getD_none, hdefault]
  | some o => rfl

@[simp] theorem relocate_empty (m : Relocation) : empty.relocate m = empty :=
  congrArg Heap.mk Array.map_empty

@[simp] theorem size_relocate (m : Relocation) (h : Heap) : (h.relocate m).size = h.size := by
  simp [size, relocate]

theorem alloc_relocate (m : Relocation) (h : Heap) (c : Class) :
    (h.alloc c).relocate m = (h.relocate m).alloc (c.relocate m) := by
  simp [alloc, relocate]

theorem setField_relocate (m : Relocation) (h : Heap) (r : Ref) (field : String) (v : Value) :
    (h.setField r field v).relocate m = (h.relocate m).setField r field v := by
  simp only [setField, relocate, mk.injEq]
  apply Array.ext
  · simp
  · intro i hi hi'
    simp only [Array.getElem_map, Array.getElem_modify]
    split <;> rfl

theorem bare_relocate (m : Relocation) (h : Heap) : (h.relocate m).bare = h.bare := by
  simp only [bare, relocate, Array.map_map, mk.injEq]
  congr 1
  funext o
  simp [Class.bare_relocate]

end Heap

end ClassLang
