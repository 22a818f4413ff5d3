import ClassLang.Grammar.Expression

/-!
The grammar of statements. A suite is a newline, an indent, statements and a dedent; a class stands
at the top level only, so the classes known inside a suite are those known at its head.
-/

namespace ClassLang.Grammar

/-- What an expression is as the target of an assignment. -/
def target : Expr → Target
  | .literal .. => .literal
  | .call .. => .methodCall
  | .construct .. => .construction
  | .toText .. => .conversion
  | _ => .expression

/-- The assignment of a value to a dotted name. -/
def assignment (path : List String) (value : Expr) (pos : Pos) : Stmt :=
  match path.getLast?, path.dropLast with
  | none, _ => .expr value pos
  | some name, [] => .assign name value pos
  | some field, object => .assignField (.name object pos) field value pos

/-- Whether a statement may end here. -/
def atEnd : List Token → Bool
  | [] => true
  | t :: _ => t.kind == .newline

/-- Reads an assignment or an expression. -/
def assignmentOrExpr (s : Scope) (ts : List Token) : Reads Stmt ts := do
  let pos := (s.peek ts).pos
  let ⟨e, rest, h⟩ ← expr s ts
  match rest, h with
  | t :: r, h =>
    if t.kind = .symbol '=' then
      match e with
      | .name path _ => do
        let p ← expr s r
        return ((p.map (assignment path · pos)).behind t).after h
      | e => .error (invalid (.badTarget (target e)) t.line)
    else return ⟨.expr e pos, t :: r, h⟩
  | [], h => return ⟨.expr e pos, [], h⟩

/-- Reads a statement of one line, up to its end. -/
def simple (s : Scope) (ts : List Token) : Reads Stmt ts :=
  match ts with
  | [] => assignmentOrExpr s []
  | t :: r =>
    match t.kind with
    | .keyword .return_ =>
      if s.inMethod = false then .error (.located .returnOutsideMethod t.line)
      else if atEnd r then .ok (.one (.give (.literal .none t.pos) t.pos) t r)
      else do
        let p ← expr s r
        return (p.map (.give · t.pos)).behind t
    | .keyword .print =>
      if atEnd r then .ok (.one (.print [] t.pos) t r)
      else do
        let p ← exprList s r
        return (p.map (.print · t.pos)).behind t
    | _ => assignmentOrExpr s (t :: r)

/-- Reads the end of a statement: a newline, or nothing at the end of the file. -/
def statementEnd (s : Scope) : (ts : List Token) → Except Error (Parsed Unit (ts.length + 1))
  | [] => .ok (.nothing () [])
  | t :: r =>
    if t.kind = .newline then .ok (Parsed.one () t r).orNothing
    else .error (s.unexpected .statementEnd (t :: r))

/-- Reads the condition of an `if` and the colon behind it. -/
def condition (s : Scope) (ts : List Token) : Reads Expr ts := do
  let ⟨e, rest, h⟩ ← expr s ts
  if isNext (.symbol '=') rest then .error (s.unexpected .conditionEnd rest)
  else
    let p ← expectSymbol s ':' rest
    return (p.map fun _ => e).after h

mutual

/-- Reads a statement other than a class. -/
def stmt (s : Scope) (ts : List Token) : Reads Stmt ts :=
  match ts with
  | [] => simple s []
  | t :: r =>
    match t.kind with
    | .keyword .class_ => .error (invalid .nestedClass t.line)
    | .keyword .if_ => do
      let ⟨cond, r₁, h₁⟩ ← condition s r
      let ⟨yes, r₂, h₂⟩ ← suite s r₁
      match r₂, h₂ with
      | u :: r₃, h₂ =>
        if u.kind = .keyword .else_ then do
          let ⟨_, r₄, h₄⟩ ← expectSymbol s ':' r₃
          let ⟨no, r₅, h₅⟩ ← suite s r₄
          return ⟨.branch cond yes (some no) t.pos, r₅, by
            simp only [List.length_cons] at *; omega⟩
        else return ⟨.branch cond yes none t.pos, u :: r₃, by
          simp only [List.length_cons] at *; omega⟩
      | [], _ => return ⟨.branch cond yes none t.pos, [], Nat.zero_lt_succ _⟩
    | _ => do
      let ⟨st, rest, h⟩ ← simple s (t :: r)
      let p ← statementEnd s rest
      return (p.map fun _ => st).widen h
termination_by ts.length * 4
decreasing_by all_goals simp only [List.length_cons] at *; omega

/-- Reads an indented block with the newline in front of it. -/
def suite (s : Scope) (ts : List Token) : Reads Stmt ts := do
  let pos := (s.peek ts).pos
  let ⟨_, r₁, h₁⟩ ← expect s .newline .newline ts
  let ⟨_, r₂, h₂⟩ ← expect s .indent .block r₁
  let p ← blockBody s r₂
  return ((p.map (.block · pos)).widen h₂).after h₁
termination_by ts.length * 4
decreasing_by omega

/-- Reads statements up to a dedent, and the dedent, or up to the end of the file. -/
def blockBody (s : Scope) (ts : List Token) : Except Error (Parsed (List Stmt) (ts.length + 1)) :=
  match ts with
  | [] => .ok (.nothing [] [])
  | t :: r =>
    if t.kind = .dedent then .ok (Parsed.one [] t r).orNothing
    else do
      let ⟨st, rest, h⟩ ← stmt s (t :: r)
      let p ← blockBody s rest
      return ((p.map (st :: ·)).widen h).orNothing
termination_by ts.length * 4 + 1
decreasing_by all_goals simp only [List.length_cons] at *; omega

end

end ClassLang.Grammar
