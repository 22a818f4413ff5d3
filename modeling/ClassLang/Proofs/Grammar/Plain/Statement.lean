import ClassLang.Grammar.Class
import ClassLang.Proofs.Grammar.Plain.Expression

/-!
The readers of statements, classes and programs without their bounds.
-/

namespace ClassLang.Grammar

variable (s : Scope)

/-! Statements of one line -/

theorem plain_assignmentOrExpr (ts : List Token) :
    plain (assignmentOrExpr s ts) = plain (expr s ts) >>= fun p =>
      match p.2 with
      | [] => .ok (.expr p.1 (s.peek ts).pos, [])
      | t :: r =>
        if t.kind = .symbol '=' then
          match p.1 with
          | .name path _ =>
            plain (expr s r) >>= fun q => .ok (assignment path q.1 (s.peek ts).pos, q.2)
          | e => .error (invalid (.badTarget (target e)) t.line)
        else .ok (.expr p.1 (s.peek ts).pos, t :: r) := by
  rw [assignmentOrExpr]
  cases expr s ts with
  | error e => rfl
  | ok p =>
    obtain ⟨e, rest, h⟩ := p
    cases rest with
    | nil => rfl
    | cons t r =>
      simp only [ok_bind, plain_ok]
      split
      · cases e with
        | name path pos =>
          exact plain_bind_pure (assignment path · (s.peek ts).pos) (fun _ => rfl) fun _ => rfl
        | _ => rfl
      · rfl

variable {s} {t : Token}

theorem plain_simple_return (h : t.kind = .keyword .return_) (r : List Token) :
    plain (simple s (t :: r)) =
      if s.inMethod = false then .error (.located .returnOutsideMethod t.line)
      else if atEnd r then .ok (.give (.literal .none t.pos) t.pos, r)
      else plain (expr s r) >>= fun p => .ok (.give p.1 t.pos, p.2) := by
  rw [simple]
  simp only [h]
  split
  · rfl
  · split
    · rfl
    · exact plain_bind_pure (Stmt.give · t.pos) (fun _ => rfl) fun _ => rfl

theorem plain_simple_print (h : t.kind = .keyword .print) (r : List Token) :
    plain (simple s (t :: r)) =
      if atEnd r then .ok (.print [] t.pos, r)
      else plain (exprList s r) >>= fun p => .ok (.print p.1 t.pos, p.2) := by
  rw [simple]
  simp only [h]
  split
  · rfl
  · exact plain_bind_pure (Stmt.print · t.pos) (fun _ => rfl) fun _ => rfl

theorem plain_simple_other (h : t.kind ≠ .keyword .return_) (h' : t.kind ≠ .keyword .print)
    (r : List Token) : plain (simple s (t :: r)) = plain (assignmentOrExpr s (t :: r)) := by
  rw [simple]
  simp only []

variable (s) (t)

theorem plain_simple_nil : plain (simple s []) = plain (assignmentOrExpr s []) := rfl

theorem plain_statementEnd (r : List Token) :
    plain (statementEnd s (t :: r)) =
      if t.kind = .newline then .ok ((), r) else .error (s.unexpected .statementEnd (t :: r)) := by
  rw [statementEnd]
  split <;> rfl

theorem plain_condition (ts : List Token) :
    plain (condition s ts) = plain (expr s ts) >>= fun p =>
      if isNext (.symbol '=') p.2 then .error (s.unexpected .conditionEnd p.2)
      else plain (expectSymbol s ':' p.2) >>= fun q => .ok (p.1, q.2) := by
  rw [condition]
  cases expr s ts with
  | error e => rfl
  | ok p =>
    simp only [ok_bind, plain_ok]
    split
    · rfl
    · exact plain_bind_pure (fun _ => p.value) (fun _ => rfl) fun _ => rfl

/-! Statements and blocks -/

variable {s} {t}

theorem plain_stmt_class (h : t.kind = .keyword .class_) (r : List Token) :
    plain (stmt s (t :: r)) = .error (invalid .nestedClass t.line) := by
  rw [stmt]
  simp only [h]
  rfl

theorem plain_stmt_if (h : t.kind = .keyword .if_) (r : List Token) :
    plain (stmt s (t :: r)) = plain (condition s r) >>= fun c =>
      plain (suite s c.2) >>= fun yes =>
      match yes.2 with
      | [] => .ok (.branch c.1 yes.1 none t.pos, [])
      | u :: r₃ =>
        if u.kind = .keyword .else_ then
          plain (expectSymbol s ':' r₃) >>= fun v =>
          plain (suite s v.2) >>= fun no => .ok (.branch c.1 yes.1 (some no.1) t.pos, no.2)
        else .ok (.branch c.1 yes.1 none t.pos, u :: r₃) := by
  rw [stmt]
  simp only [h]
  cases condition s r with
  | error e => rfl
  | ok c =>
    simp only [ok_bind, plain_ok]
    cases suite s c.rest with
    | error e => rfl
    | ok yes =>
      obtain ⟨yes, rest, hr⟩ := yes
      cases rest with
      | nil => rfl
      | cons u r₃ =>
        simp only [ok_bind, plain_ok]
        split
        · cases expectSymbol s ':' r₃ with
          | error e => rfl
          | ok v =>
            simp only [ok_bind, plain_ok]
            cases suite s v.rest <;> rfl
        · rfl

theorem plain_stmt_other (h : t.kind ≠ .keyword .class_) (h' : t.kind ≠ .keyword .if_)
    (r : List Token) :
    plain (stmt s (t :: r)) = plain (simple s (t :: r)) >>= fun p =>
      plain (statementEnd s p.2) >>= fun q => .ok (p.1, q.2) := by
  rw [stmt]
  simp only []
  cases simple s (t :: r) with
  | error e => rfl
  | ok p => exact plain_bind_pure (fun _ => p.value) (fun _ => rfl) fun _ => rfl

variable (s) (t)

theorem plain_stmt_nil : plain (stmt s []) = plain (simple s []) := by rw [stmt]

theorem plain_suite (ts : List Token) :
    plain (suite s ts) = plain (expect s .newline .newline ts) >>= fun n =>
      plain (expect s .indent .block n.2) >>= fun i =>
      plain (blockBody s i.2) >>= fun p => .ok (.block p.1 (s.peek ts).pos, p.2) := by
  rw [suite]
  simp only []
  cases expect s .newline .newline ts with
  | error e => rfl
  | ok n =>
    simp only [ok_bind, plain_ok]
    cases expect s .indent .block n.rest with
    | error e => rfl
    | ok i =>
      exact plain_bind_pure (Stmt.block · (s.peek ts).pos) (fun _ => rfl) fun _ => rfl

theorem plain_blockBody (r : List Token) :
    plain (blockBody s (t :: r)) =
      if t.kind = .dedent then .ok ([], r)
      else plain (stmt s (t :: r)) >>= fun p =>
        plain (blockBody s p.2) >>= fun q => .ok (p.1 :: q.1, q.2) := by
  conv => lhs; rw [blockBody]
  split
  · rfl
  · cases stmt s (t :: r) with
    | error e => rfl
    | ok p => exact plain_bind_pure (p.value :: ·) (fun _ => rfl) fun _ => rfl

theorem plain_blockBody_nil : plain (blockBody s []) = .ok ([], []) := by
  rw [blockBody]
  rfl

/-! Classes and programs -/

theorem plain_parameters (method : String) (line : Nat) (names : List String) (ts : List Token) :
    plain (parameters s method line names ts) = plain (expectWord s .parameterName ts) >>= fun p =>
      if names.contains p.1 then .error (invalid (.parameterTaken p.1 method) line)
      else match p.2 with
        | [] => .ok (names ++ [p.1], [])
        | t :: r =>
          if t.kind = .symbol ',' then plain (parameters s method line (names ++ [p.1]) r)
          else .ok (names ++ [p.1], t :: r) := by
  conv => lhs; rw [parameters]
  cases expectWord s .parameterName ts with
  | error e => rfl
  | ok p =>
    obtain ⟨name, rest, h⟩ := p
    simp only [ok_bind, plain_ok]
    split
    · rfl
    · cases rest with
      | nil => rfl
      | cons t r =>
        simp only []
        split
        · exact plain_bind_same (fun _ => rfl) fun _ => rfl
        · rfl

theorem plain_parameterList (method : String) (line : Nat) (ts : List Token) :
    plain (parameterList s method line ts) =
      if isNext (.symbol ')') ts then plain (expectSymbol s ')' ts) >>= fun p => .ok ([], p.2)
      else plain (parameters s method line [] ts) >>= fun p =>
        plain (expectSymbol s ')' p.2) >>= fun q => .ok (p.1, q.2) := by
  rw [parameterList]
  split
  · cases expectSymbol s ')' ts <;> rfl
  · cases parameters s method line [] ts with
    | error e => rfl
    | ok p => exact plain_bind_pure (fun _ => p.value) (fun _ => rfl) fun _ => rfl

theorem plain_methodDef (pos : Pos) (ts : List Token) :
    plain (methodDef s pos ts) = plain (expectWord s .methodName ts) >>= fun n =>
      plain (expectSymbol s '(' n.2) >>= fun u =>
      plain (parameterList s n.1 pos.line u.2) >>= fun ps =>
      plain (expectSymbol s ':' ps.2) >>= fun v =>
      plain (suite { s with inMethod := true } v.2) >>= fun b =>
      .ok (⟨n.1, withoutReceiver ps.1, .methodBody b.1 pos⟩, b.2) := by
  rw [methodDef]
  cases expectWord s .methodName ts with
  | error e => rfl
  | ok n =>
    simp only [ok_bind, plain_ok]
    cases expectSymbol s '(' n.rest with
    | error e => rfl
    | ok u =>
      simp only [ok_bind, plain_ok]
      cases parameterList s n.value pos.line u.rest with
      | error e => rfl
      | ok ps =>
        simp only [ok_bind, plain_ok]
        cases expectSymbol s ':' ps.rest with
        | error e => rfl
        | ok v =>
          exact plain_bind_pure
            (fun body => (⟨n.value, withoutReceiver ps.value, .methodBody body pos⟩ : Method))
            (fun _ => rfl) fun _ => rfl

theorem plain_classBody (cls : String) (ms : List Method) (r : List Token) :
    plain (classBody s cls ms (t :: r)) =
      if t.kind = .dedent then .ok (ms, r)
      else if t.kind = .keyword .def_ then
        plain (methodDef s t.pos r) >>= fun p => plain (classBody s cls (addMethod ms p.1) p.2)
      else .error (invalid (.notAMethod cls t.kind.text) t.line) := by
  conv => lhs; rw [classBody]
  split
  · rfl
  · split
    · cases methodDef s t.pos r with
      | error e => rfl
      | ok p => exact plain_bind_same (fun _ => rfl) fun _ => rfl
    · rfl

theorem plain_classBody_nil (cls : String) (ms : List Method) :
    plain (classBody s cls ms []) = .ok (ms, []) := by
  rw [classBody]
  rfl

theorem plain_parentClass (r : List Token) :
    plain (parentClass s (t :: r)) =
      if t.kind = .symbol '(' then
        plain (expectWord s .parentName r) >>= fun n =>
        plain (expectSymbol s ')' n.2) >>= fun u =>
        match s.classes.get? n.1 with
        | none => .error (.located (.unknownClass n.1) (s.peek r).line)
        | some parent => .ok (some parent, u.2)
      else .ok (none, t :: r) := by
  rw [parentClass]
  split
  · simp only []
    cases expectWord s .parentName r with
    | error e => rfl
    | ok n =>
      simp only [ok_bind, plain_ok]
      cases expectSymbol s ')' n.rest with
      | error e => rfl
      | ok u =>
        simp only [ok_bind, plain_ok]
        cases s.classes.get? n.value <;> rfl
  · rfl

theorem plain_parentClass_nil : plain (parentClass s []) = .ok (none, []) := rfl

theorem plain_classDef (line : Nat) (ts : List Token) :
    plain (classDef s line ts) = plain (expectWord s .className ts) >>= fun n =>
      if s.classes.contains n.1 then .error (invalid (.classTaken n.1) line)
      else
        plain (parentClass s n.2) >>= fun p =>
        plain (expectSymbol s ':' p.2) >>= fun u =>
        plain (expect s .newline .newline u.2) >>= fun v =>
        plain (expect s .indent .classBody v.2) >>= fun w =>
        plain (classBody { s with current := some n.1 } n.1 [] w.2) >>= fun b =>
        .ok (⟨n.1, b.1, p.1⟩, b.2) := by
  rw [classDef]
  cases expectWord s .className ts with
  | error e => rfl
  | ok n =>
    simp only [ok_bind, plain_ok]
    split
    · rfl
    · cases parentClass s n.rest with
      | error e => rfl
      | ok p =>
        simp only [ok_bind, plain_ok]
        cases expectSymbol s ':' p.rest with
        | error e => rfl
        | ok u =>
          simp only [ok_bind, plain_ok]
          cases expect s .newline .newline u.rest with
          | error e => rfl
          | ok v =>
            simp only [ok_bind, plain_ok]
            cases expect s .indent .classBody v.rest with
            | error e => rfl
            | ok w =>
              exact plain_bind_pure (fun ms => (⟨n.value, ms, p.value⟩ : Class))
                (fun _ => rfl) fun _ => rfl

/-- The scope at the top level, where some classes are known. -/
def topScope (stop : Pos) (classes : ClassTable) : Scope := ⟨stop, classes, none, false⟩

/-- A program with one more statement in front. -/
def consStatement (st : Stmt) (p : Program) : Program := { p with statements := st :: p.statements }

variable (stop : Pos) (classes : ClassTable)

theorem program_nil : program stop classes [] = .ok ⟨[], classes⟩ := by rw [program]

variable {t}

theorem program_newline (h : t.kind = .newline) (r : List Token) :
    program stop classes (t :: r) = program stop classes r := by
  conv => lhs; rw [program]
  simp only [h]

theorem program_class (h : t.kind = .keyword .class_) (r : List Token) :
    program stop classes (t :: r) =
      plain (classDef (topScope stop classes) t.line r) >>= fun c =>
        program stop (classes.add c.1) c.2 >>= fun p =>
          .ok (consStatement (.classDef c.1 t.pos) p) := by
  conv => lhs; rw [program]
  simp only [h, topScope]
  cases classDef ⟨stop, classes, none, false⟩ t.line r <;> rfl

theorem program_stmt (h : t.kind ≠ .newline) (h' : t.kind ≠ .keyword .class_) (r : List Token) :
    program stop classes (t :: r) =
      plain (stmt (topScope stop classes) (t :: r)) >>= fun st =>
        program stop classes st.2 >>= fun p => .ok (consStatement st.1 p) := by
  conv => lhs; rw [program]
  simp only [topScope]
  cases stmt ⟨stop, classes, none, false⟩ (t :: r) <;> rfl

end ClassLang.Grammar
