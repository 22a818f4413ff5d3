import ClassLang.Proofs.Grammar.Complete.Expression
import ClassLang.Proofs.Grammar.Plain.Statement

/-!
What the tokens of a statement, a class and a program spell is read from them. An `else` is always
taken by the nearest statement, so no statement may be followed by one.
-/

namespace ClassLang.Grammar

variable {s : Scope} {ts rest : List Token}

/-- Holds of the tokens with which statements other than classes begin. -/
def startsStmt (k : Kind) : Bool :=
  k == .keyword .if_ || k == .keyword .return_ || k == .keyword .print || (startRank? k).isSome

/-- Holds of tokens that begin as a statement does. -/
def BeginsStmt (ts : List Token) : Prop := ∃ t r, ts = t :: r ∧ startsStmt t.kind = true

theorem BeginsStmt.of_kind {t : Token} {k : Kind} (h : t.kind = k) (hk : startsStmt k = true) :
    BeginsStmt (t :: ts) := ⟨t, ts, rfl, h ▸ hk⟩

theorem Begins.stmt {l : Level} (h : Begins l ts) : BeginsStmt ts := by
  obtain ⟨t, r, n, rfl, ht, -⟩ := h
  refine ⟨t, r, rfl, ?_⟩
  rw [startsStmt, ht]
  exact Bool.or_true _

theorem BeginsStmt.ne_kind {t : Token} {k : Kind} (h : BeginsStmt (t :: ts))
    (hk : startsStmt k = false) : t.kind ≠ k := by
  rintro rfl
  obtain ⟨u, r, heq, hu⟩ := h
  cases heq
  rw [hk] at hu
  cases hu

theorem SpellsSimple.begins {known : String → Bool} {inMethod : Bool} {st : Stmt}
    (h : SpellsSimple known inMethod ts st rest) : BeginsStmt ts := by
  cases h with
  | giveNone _ ht => exact .of_kind ht rfl
  | give _ ht _ => exact .of_kind ht rfl
  | printNone ht => exact .of_kind ht rfl
  | print ht _ => exact .of_kind ht rfl
  | assign hp _ _ => exact hp.begins.stmt
  | expr he => exact he.begins.stmt

/-- A statement of one line is no `if`. -/
theorem SpellsSimple.ne_if {known : String → Bool} {inMethod : Bool} {st : Stmt} {t : Token}
    (h : SpellsSimple known inMethod (t :: ts) st rest) : t.kind ≠ .keyword .if_ := by
  intro hif
  cases h with
  | giveNone _ ht | give _ ht _ | printNone ht | print ht _ =>
    rw [hif] at ht
    cases ht
  | assign hp _ _ => exact hp.begins.ne_kind rfl hif
  | expr he => exact he.begins.ne_kind rfl hif

theorem SpellsStmt.begins {known : String → Bool} {inMethod : Bool} {st : Stmt}
    (h : SpellsStmt known inMethod ts st rest) : BeginsStmt ts := by
  cases h with
  | simple hs _ => exact hs.begins
  | branch ht _ _ _ => exact .of_kind ht rfl
  | branchElse ht _ _ _ _ _ _ => exact .of_kind ht rfl

/-- Holds where no `else` follows. -/
def NoElse (ts : List Token) : Prop := ∀ t ∈ ts.head?, t.kind ≠ .keyword .else_

theorem NoElse.of_kind {t : Token} {k : Kind} (h : t.kind = k) (hk : k ≠ .keyword .else_) :
    NoElse (t :: ts) := by
  intro u hu
  cases hu
  rw [h]
  exact hk

theorem BeginsStmt.noElse (h : BeginsStmt ts) : NoElse ts := by
  obtain ⟨t, r, rfl, -⟩ := id h
  intro u hu
  cases hu
  exact h.ne_kind rfl

theorem SpellsBlock.noElse {known : String → Bool} {inMethod : Bool} {body : List Stmt}
    (h : SpellsBlock known inMethod ts body rest) : NoElse ts := by
  cases h with
  | nil ht => exact .of_kind ht Kind.noConfusion
  | cons hs _ => exact hs.begins.noElse

/-! Statements of one line -/

theorem atEnd_eq_false {l : Level} (h : Begins l ts) : atEnd ts = false := by
  obtain ⟨t, r, n, rfl, -, -⟩ := id h
  rw [atEnd, beq_eq_false_iff_ne]
  exact h.ne_kind rfl

theorem peek_pos_of_begins {l : Level} (h : Begins l ts) : (s.peek ts).pos = firstPos ts := by
  obtain ⟨t, r, n, rfl, -, -⟩ := h
  rfl

/-- A statement that begins with an expression is read as one. -/
theorem simple_of_begins {l : Level} (h : Begins l ts) :
    plain (simple s ts) = plain (assignmentOrExpr s ts) := by
  obtain ⟨t, r, n, rfl, -, -⟩ := id h
  exact plain_simple_other (h.ne_kind rfl) (h.ne_kind rfl) r

theorem simple_of_spells {st : Stmt} {t : Token}
    (h : SpellsSimple s.constructs s.inMethod ts st (t :: rest)) (ht : t.kind = .newline) :
    plain (simple s ts) = .ok (st, t :: rest) := by
  have hend : Ends .or (t :: rest) := .of_kind ht rfl
  have hne (c : Char) : t.kind ≠ .symbol c := by
    rw [ht]
    exact Kind.noConfusion
  cases h with
  | giveNone hin hgive =>
    have hat : atEnd (t :: rest) = true := by rw [atEnd, beq_iff_eq, ht]
    rw [plain_simple_return hgive, if_neg (by simp [hin]), if_pos hat]
  | give hin hgive he =>
    rw [plain_simple_return hgive, if_neg (by simp [hin]), atEnd_eq_false he.begins,
      if_neg Bool.false_ne_true, expr, read_of_spells he hend]
    rfl
  | printNone hprint =>
    have hat : atEnd (t :: rest) = true := by rw [atEnd, beq_iff_eq, ht]
    rw [plain_simple_print hprint, if_pos hat]
  | print hprint hs =>
    have hcomma : ∀ u ∈ (t :: rest).head?, u.kind ≠ .symbol ',' := by
      intro u hu
      cases hu
      exact hne ','
    rw [plain_simple_print hprint, atEnd_eq_false hs.begins, if_neg Bool.false_ne_true,
      exprList_of_spells s hs hend hcomma]
    rfl
  | assign hp hassign he =>
    rw [simple_of_begins hp.begins, plain_assignmentOrExpr, peek_pos_of_begins hp.begins, expr,
      read_of_spells hp (.of_kind hassign rfl), ok_bind]
    simp only [if_pos hassign]
    rw [expr, read_of_spells he hend]
    rfl
  | expr he =>
    rw [simple_of_begins he.begins, plain_assignmentOrExpr, peek_pos_of_begins he.begins, expr,
      read_of_spells he hend, ok_bind]
    exact if_neg (hne '=')

theorem condition_of_spells {e : Expr} {u : Token}
    (h : Spells s.constructs .or ts e (u :: rest)) (hu : u.kind = .symbol ':') :
    plain (condition s ts) = .ok (e, rest) := by
  have hassign : isNext (.symbol '=') (u :: rest) = false := by
    rw [isNext, hu]
    decide
  have hcolon : plain (expectSymbol s ':' (u :: rest)) = .ok (u, rest) :=
    plain_expectSymbol.2 ⟨rfl, hu⟩
  rw [plain_condition, expr, read_of_spells h (.of_kind hu rfl), ok_bind, hassign,
    if_neg Bool.false_ne_true, hcolon]
  rfl

/-! Statements and blocks -/

theorem stmt_of_simple {st : Stmt} {t : Token}
    (h : SpellsSimple s.constructs s.inMethod ts st (t :: rest)) (ht : t.kind = .newline) :
    plain (stmt s ts) = .ok (st, rest) := by
  obtain ⟨u, r, rfl, -⟩ := id h.begins
  rw [plain_stmt_other (h.begins.ne_kind rfl) h.ne_if, simple_of_spells h ht, ok_bind,
    plain_statementEnd, if_pos ht]
  rfl

theorem stmt_of_branch {t : Token} {cond : Expr} {yes : Stmt} {us : List Token}
    (ht : t.kind = .keyword .if_) (hc : plain (condition s ts) = .ok (cond, us))
    (hs : plain (suite s us) = .ok (yes, rest)) (hr : NoElse rest) :
    plain (stmt s (t :: ts)) = .ok (.branch cond yes none t.pos, rest) := by
  rw [plain_stmt_if ht, hc, ok_bind, hs, ok_bind]
  cases rest with
  | nil => rfl
  | cons u r => exact if_neg (hr u rfl)

theorem stmt_of_branchElse {t v w : Token} {cond : Expr} {yes no : Stmt} {us ws : List Token}
    (ht : t.kind = .keyword .if_) (hc : plain (condition s ts) = .ok (cond, us))
    (hs : plain (suite s us) = .ok (yes, v :: w :: ws)) (hv : v.kind = .keyword .else_)
    (hw : w.kind = .symbol ':') (hs' : plain (suite s ws) = .ok (no, rest)) :
    plain (stmt s (t :: ts)) = .ok (.branch cond yes (some no) t.pos, rest) := by
  have hcolon : plain (expectSymbol s ':' (w :: ws)) = .ok (w, ws) :=
    plain_expectSymbol.2 ⟨rfl, hw⟩
  rw [plain_stmt_if ht, hc, ok_bind, hs, ok_bind]
  simp only [if_pos hv, hcolon, ok_bind, hs']

theorem suite_of_block {t u : Token} {body : List Stmt} (ht : t.kind = .newline)
    (hu : u.kind = .indent) (h : plain (blockBody s ts) = .ok (body, rest)) :
    plain (suite s (t :: u :: ts)) = .ok (.block body t.pos, rest) := by
  have hnewline : plain (expect s .newline .newline (t :: u :: ts)) = .ok (t, u :: ts) :=
    plain_expect.2 ⟨rfl, ht⟩
  have hindent : plain (expect s .indent .block (u :: ts)) = .ok (u, ts) :=
    plain_expect.2 ⟨rfl, hu⟩
  rw [plain_suite, hnewline, ok_bind, hindent, ok_bind, h]
  rfl

theorem blockBody_cons {st : Stmt} {body : List Stmt} {us : List Token} (hb : BeginsStmt ts)
    (h : plain (stmt s ts) = .ok (st, us)) (h' : plain (blockBody s us) = .ok (body, rest)) :
    plain (blockBody s ts) = .ok (st :: body, rest) := by
  obtain ⟨t, r, rfl, -⟩ := id hb
  rw [plain_blockBody, if_neg (hb.ne_kind rfl), h, ok_bind, h']
  rfl

mutual

theorem stmt_of_spells (s : Scope) {ts rest : List Token} {st : Stmt} :
    SpellsStmt s.constructs s.inMethod ts st rest → NoElse rest →
      plain (stmt s ts) = .ok (st, rest)
  | .simple hs ht, _ => stmt_of_simple hs ht
  | .branch ht hc hu hs, hr =>
    stmt_of_branch ht (condition_of_spells hc hu) (suite_of_spells s hs) hr
  | .branchElse ht hc hu hs hv hw hs', _ =>
    stmt_of_branchElse ht (condition_of_spells hc hu) (suite_of_spells s hs) hv hw
      (suite_of_spells s hs')

theorem suite_of_spells (s : Scope) {ts rest : List Token} {st : Stmt} :
    SpellsSuite s.constructs s.inMethod ts st rest → plain (suite s ts) = .ok (st, rest)
  | .block ht hu hb => suite_of_block ht hu (blockBody_of_spells s hb)

theorem blockBody_of_spells (s : Scope) {ts rest : List Token} {body : List Stmt} :
    SpellsBlock s.constructs s.inMethod ts body rest → plain (blockBody s ts) = .ok (body, rest)
  | .nil ht => by rw [plain_blockBody, if_pos ht]
  | .cons hs hb =>
    blockBody_cons hs.begins (stmt_of_spells s hs hb.noElse) (blockBody_of_spells s hb)

end

/-! Classes and programs -/

theorem parameters_of_spells {method : String} {line : Nat} {seen names : List String}
    (h : SpellsNames ts names rest) (hnodup : (seen ++ names).Nodup)
    (hr : ∀ t ∈ rest.head?, t.kind ≠ .symbol ',') :
    plain (parameters s method line seen ts) = .ok (seen ++ names, rest) := by
  induction h generalizing seen with
  | one ht =>
    rename_i t r name
    have hword : plain (expectWord s .parameterName (t :: r)) = .ok (name, r) :=
      plain_expectWord.2 ⟨t, rfl, ht⟩
    have hnew : seen.contains name = false := by
      rw [List.contains_eq_mem, decide_eq_false_iff_not]
      intro hmem
      exact (List.nodup_append.1 hnodup).2.2 name hmem name (List.mem_singleton.2 rfl) rfl
    rw [plain_parameters, hword, ok_bind]
    simp only [hnew, Bool.false_eq_true, if_false]
    cases r with
    | nil => rfl
    | cons u us => exact if_neg (hr u rfl)
  | cons ht hu hs ih =>
    rename_i t u us r name names
    have hword : plain (expectWord s .parameterName (t :: u :: us)) = .ok (name, u :: us) :=
      plain_expectWord.2 ⟨t, rfl, ht⟩
    have hnew : seen.contains name = false := by
      rw [List.contains_eq_mem, decide_eq_false_iff_not]
      intro hmem
      exact (List.nodup_append.1 hnodup).2.2 name hmem name List.mem_cons_self rfl
    rw [List.append_cons] at hnodup ⊢
    rw [plain_parameters, hword, ok_bind]
    simp only [hnew, Bool.false_eq_true, if_false, if_pos hu]
    exact ih hnodup hr

theorem SpellsNames.isNext {names : List String} (h : SpellsNames ts names rest) :
    isNext (.symbol ')') ts = false := by
  cases h with
  | one ht =>
    rw [Grammar.isNext, ht]
    rfl
  | cons ht _ _ =>
    rw [Grammar.isNext, ht]
    rfl

theorem parameterList_of_spells {method : String} {line : Nat} {names : List String}
    (h : SpellsParams ts names rest) :
    plain (parameterList s method line ts) = .ok (names, rest) := by
  cases h with
  | nil ht =>
    rename_i t
    have hnext : isNext (.symbol ')') (t :: rest) = true := by rw [isNext, ht, beq_self_eq_true]
    have hclose : plain (expectSymbol s ')' (t :: rest)) = .ok (t, rest) :=
      plain_expectSymbol.2 ⟨rfl, ht⟩
    rw [plain_parameterList, if_pos hnext, hclose]
    rfl
  | list hs ht hnodup =>
    rename_i t
    have hclose : plain (expectSymbol s ')' (t :: rest)) = .ok (t, rest) :=
      plain_expectSymbol.2 ⟨rfl, ht⟩
    have hcomma : ∀ u ∈ (t :: rest).head?, u.kind ≠ .symbol ',' := by
      intro u hu
      cases hu
      rw [ht]
      decide
    rw [plain_parameterList, hs.isNext, if_neg Bool.false_ne_true,
      parameters_of_spells hs (show ([] ++ names).Nodup from hnodup) hcomma, ok_bind, hclose]
    rfl

theorem classBody_of_spells {cls : String} {ms more : List Method}
    (h : SpellsMethods s.constructs ts more rest) :
    plain (classBody s cls ms ts) = .ok (more.foldl addMethod ms, rest) := by
  generalize hknown : s.constructs = known at h
  induction h generalizing ms with
  | nil ht =>
    rw [plain_classBody, if_pos ht]
    rfl
  | cons ht hu hv hp hw hs hm ih =>
    rename_i t u v ts r name params body more w ws xs
    subst hknown
    have hdedent : t.kind ≠ .dedent := by
      rw [ht]
      exact Kind.noConfusion
    have hname : plain (expectWord s .methodName (u :: v :: ts)) = .ok (name, v :: ts) :=
      plain_expectWord.2 ⟨u, rfl, hu⟩
    have hopen : plain (expectSymbol s '(' (v :: ts)) = .ok (v, ts) :=
      plain_expectSymbol.2 ⟨rfl, hv⟩
    have hcolon : plain (expectSymbol s ':' (w :: ws)) = .ok (w, ws) :=
      plain_expectSymbol.2 ⟨rfl, hw⟩
    have hbody : plain (suite { s with inMethod := true } ws) = .ok (body, xs) :=
      suite_of_spells { s with inMethod := true } hs
    rw [plain_classBody, if_neg hdedent, if_pos ht, plain_methodDef, hname, ok_bind, hopen, ok_bind,
      parameterList_of_spells hp, ok_bind, hcolon, ok_bind, hbody, ok_bind, ok_bind, ih]
    rfl

theorem parentClass_of_spells {parent : Option Class}
    (h : SpellsParent s.classes ts parent rest) (hr : ∀ t ∈ rest.head?, t.kind ≠ .symbol '(') :
    plain (parentClass s ts) = .ok (parent, rest) := by
  cases h with
  | none =>
    cases ts with
    | nil => exact plain_parentClass_nil s
    | cons t r => rw [plain_parentClass, if_neg (hr t rfl)]
  | some ht hu hv hget =>
    rename_i t u v name parent
    have hname : plain (expectWord s .parentName (u :: v :: rest)) = .ok (name, v :: rest) :=
      plain_expectWord.2 ⟨u, rfl, hu⟩
    have hclose : plain (expectSymbol s ')' (v :: rest)) = .ok (v, rest) :=
      plain_expectSymbol.2 ⟨rfl, hv⟩
    rw [plain_parentClass, if_pos ht, hname, ok_bind, hclose, ok_bind]
    simp only [hget]

theorem constructs_topScope (stop : Pos) (classes : ClassTable) :
    (topScope stop classes).constructs = classes.contains := by
  funext name
  simp [Scope.constructs, topScope]

theorem classDef_of_spells {stop : Pos} {classes : ClassTable} {line : Nat} {c : Class}
    (h : SpellsClass classes ts c rest) :
    plain (classDef (topScope stop classes) line ts) = .ok (c, rest) := by
  cases h with
  | intro ht hnew hp hu hv hw hm =>
    rename_i t u v ts name parent ms w xs
    generalize hs : topScope stop classes = s
    have hclasses : s.classes = classes := by rw [← hs, topScope]
    have hname : plain (expectWord s .className (t :: ts)) = .ok (name, ts) :=
      plain_expectWord.2 ⟨t, rfl, ht⟩
    have hparent : plain (parentClass s ts) = .ok (parent, u :: v :: w :: xs) := by
      apply parentClass_of_spells (hclasses ▸ hp)
      intro y hy
      cases hy
      rw [hu]
      decide
    have hcolon : plain (expectSymbol s ':' (u :: v :: w :: xs)) = .ok (u, v :: w :: xs) :=
      plain_expectSymbol.2 ⟨rfl, hu⟩
    have hnewline : plain (expect s .newline .newline (v :: w :: xs)) = .ok (v, w :: xs) :=
      plain_expect.2 ⟨rfl, hv⟩
    have hindent : plain (expect s .indent .classBody (w :: xs)) = .ok (w, xs) :=
      plain_expect.2 ⟨rfl, hw⟩
    have hbody : plain (classBody { s with current := some name } name [] xs) =
        .ok (keptMethods ms, rest) := by
      rw [← hs]
      exact classBody_of_spells hm
    rw [← hclasses] at hnew
    rw [plain_classDef, hname, ok_bind, hnew, if_neg Bool.false_ne_true, hparent, ok_bind, hcolon,
      ok_bind, hnewline, ok_bind, hindent, ok_bind, hbody]
    rfl

theorem SpellsProgram.noElse {classes after : ClassTable} {body : List Stmt}
    (h : SpellsProgram classes ts body after) : NoElse ts := by
  cases h with
  | nil =>
    intro t ht
    cases ht
  | cls ht _ _ => exact .of_kind ht (by decide)
  | stmt hs _ => exact hs.begins.noElse

/-- What tokens spell as a program is read from them. -/
theorem program_of_spells (stop : Pos) {classes after : ClassTable} {body : List Stmt}
    (h : SpellsProgram classes ts body after) : program stop classes ts = .ok ⟨body, after⟩ := by
  induction h with
  | nil => exact program_nil stop _
  | cls ht hc _ ih =>
    rw [program_class stop _ ht, classDef_of_spells hc, ok_bind, ih]
    rfl
  | stmt hs hp ih =>
    rename_i ts r classes after st body
    obtain ⟨t, r', rfl, -⟩ := id hs.begins
    have hstmt : plain (stmt (topScope stop classes) (t :: r')) = .ok (st, r) := by
      apply stmt_of_spells _ _ hp.noElse
      rw [constructs_topScope]
      exact hs
    rw [program_stmt stop classes (hs.begins.ne_kind rfl) (hs.begins.ne_kind rfl), hstmt, ok_bind,
      ih]
    rfl

end ClassLang.Grammar
