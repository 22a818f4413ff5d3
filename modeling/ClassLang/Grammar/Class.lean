import ClassLang.Grammar.Statement

/-!
The grammar of classes and of whole programs. A class enters the table when its last method is
read; inside its methods its name is known already. Of two methods with one name in a class the
later one stays, in its own place.
-/

namespace ClassLang.Grammar

/-- Reads parameter names between commas, at least one, each of them new. The names read before
are given in their order. -/
def parameters (s : Scope) (method : String) (line : Nat) (seen : List String) (ts : List Token) :
    Reads (List String) ts := do
  let ⟨name, rest, h⟩ ← expectWord s .parameterName ts
  if seen.contains name then .error (invalid (.parameterTaken name method) line)
  else
    match rest, h with
    | t :: r, h =>
      if t.kind = .symbol ',' then do
        let p ← parameters s method line (seen ++ [name]) r
        return (p.behind t).after h
      else return ⟨seen ++ [name], t :: r, h⟩
    | [], h => return ⟨seen ++ [name], [], h⟩
termination_by ts.length
decreasing_by simp only [List.length_cons] at h; omega

/-- Reads what follows the opening parenthesis of a method's parameters. -/
def parameterList (s : Scope) (method : String) (line : Nat) (ts : List Token) :
    Reads (List String) ts :=
  if isNext (.symbol ')') ts then (expectSymbol s ')' ts).map (·.map fun _ => [])
  else do
    let ⟨names, rest, h⟩ ← parameters s method line [] ts
    let p ← expectSymbol s ')' rest
    return (p.map fun _ => names).after h

/-- The parameters without the receiver, which may stand in front of them. -/
def withoutReceiver : List String → List String
  | "self" :: names => names
  | names => names

/-- Reads a method behind its `def`, which stands at `pos`. -/
def methodDef (s : Scope) (pos : Pos) (ts : List Token) : Reads Method ts := do
  let ⟨name, r₁, h₁⟩ ← expectWord s .methodName ts
  let ⟨_, r₂, h₂⟩ ← expectSymbol s '(' r₁
  let ⟨names, r₃, h₃⟩ ← parameterList s name pos.line r₂
  let ⟨_, r₄, h₄⟩ ← expectSymbol s ':' r₃
  let p ← suite { s with inMethod := true } r₄
  let p := p.map fun body => ⟨name, withoutReceiver names, .methodBody body pos⟩
  return (((p.after h₄).after h₃).after h₂).after h₁

/-- Puts a method behind others, in place of an earlier one of its name. -/
def addMethod (methods : List Method) (m : Method) : List Method :=
  methods.filter (·.name != m.name) ++ [m]

/-- Reads methods up to a dedent, and the dedent, or up to the end of the file. -/
def classBody (s : Scope) (cls : String) (methods : List Method) (ts : List Token) :
    Except Error (Parsed (List Method) (ts.length + 1)) :=
  match ts with
  | [] => .ok (.nothing methods [])
  | t :: r =>
    if t.kind = .dedent then .ok (Parsed.one methods t r).orNothing
    else if t.kind = .keyword .def_ then do
      let ⟨m, rest, h⟩ ← methodDef s t.pos r
      let p ← classBody s cls (addMethod methods m) rest
      return ((p.widen h).behind t).orNothing
    else .error (invalid (.notAMethod cls t.kind.text) t.line)
termination_by ts.length
decreasing_by simp only [List.length_cons]; omega

/-- Reads the parent of a class, if one is named. -/
def parentClass (s : Scope) (ts : List Token) :
    Except Error (Parsed (Option Class) (ts.length + 1)) :=
  match ts with
  | [] => .ok (.nothing none [])
  | t :: r =>
    if t.kind = .symbol '(' then do
      let line := (s.peek r).line
      let ⟨name, r₁, h₁⟩ ← expectWord s .parentName r
      let p ← expectSymbol s ')' r₁
      match s.classes.get? name with
      | none => .error (.located (.unknownClass name) line)
      | some parent => return (((p.map fun _ => some parent).after h₁).behind t).orNothing
    else .ok (.nothing none (t :: r))

/-- Reads a class behind its `class`, which stands on a line. -/
def classDef (s : Scope) (line : Nat) (ts : List Token) : Reads Class ts := do
  let ⟨name, r₁, h₁⟩ ← expectWord s .className ts
  if s.classes.contains name then .error (invalid (.classTaken name) line)
  else
    let ⟨parent, r₂, h₂⟩ ← parentClass s r₁
    let ⟨_, r₃, h₃⟩ ← expectSymbol s ':' r₂
    let ⟨_, r₄, h₄⟩ ← expect s .newline .newline r₃
    let ⟨_, r₅, h₅⟩ ← expect s .indent .classBody r₄
    let p ← classBody { s with current := some name } name [] r₅
    let p := (p.map (⟨name, ·, parent⟩)).widen h₅
    return (((p.after h₄).after h₃).orNothing.widen h₂).widen h₁

/-- Reads statements and classes up to the end of the file, where `classes` are known. -/
def program (stop : Pos) (classes : ClassTable) (ts : List Token) : Except Error Program :=
  match ts with
  | [] => .ok ⟨[], classes⟩
  | t :: r =>
    let scope : Scope := ⟨stop, classes, none, false⟩
    match t.kind with
    | .newline => program stop classes r
    | .keyword .class_ => do
      let ⟨c, rest, _⟩ ← classDef scope t.line r
      let p ← program stop (classes.add c) rest
      return { p with statements := .classDef c t.pos :: p.statements }
    | _ => do
      let ⟨st, rest, _⟩ ← stmt scope (t :: r)
      let p ← program stop classes rest
      return { p with statements := st :: p.statements }
termination_by ts.length
decreasing_by all_goals simp only [List.length_cons] at *; omega

end ClassLang.Grammar
