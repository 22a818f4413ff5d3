import ClassLang.Proofs.Grammar.Extent
import ClassLang.Proofs.Grammar.Plain.Statement
import ClassLang.Proofs.Grammar.Sound.Expression

/-!
What the readers of statements, classes and programs read is spelled by the tokens they take, where
these belong to a text that is laid out. So no reader stops at the end of the file where it would
have to find a newline or a dedent.
-/

namespace ClassLang.Grammar

variable {s : Scope} {d : Nat} {ts rest : List Token}

theorem spells_of_expr {e : Expr} (h : plain (expr s ts) = .ok (e, rest)) :
    Spells s.constructs .or ts e rest :=
  (readsAs_of_exprAt s .or ts h).spells (by decide)

theorem firstPos_of_ne_nil (s : Scope) (h : ts ≠ []) : (s.peek ts).pos = firstPos ts := by
  cases ts with
  | nil => exact absurd rfl h
  | cons t r => rfl

theorem spellsSimple_of_assignmentOrExpr {st : Stmt} {inMethod : Bool} (hne : ts ≠ [])
    (h : plain (assignmentOrExpr s ts) = .ok (st, rest)) :
    SpellsSimple s.constructs inMethod ts st rest := by
  rw [plain_assignmentOrExpr, bind_eq_ok, firstPos_of_ne_nil s hne] at h
  obtain ⟨⟨e, mid⟩, h₁, h₂⟩ := h
  have he := spells_of_expr h₁
  cases mid with
  | nil =>
    cases h₂
    exact .expr he
  | cons t r =>
    simp only [] at h₂
    split at h₂
    · rename_i hassign
      split at h₂
      · rw [bind_eq_ok] at h₂
        obtain ⟨⟨value, last⟩, h₃, h₄⟩ := h₂
        cases h₄
        exact .assign he hassign (spells_of_expr h₃)
      · cases h₂
    · cases h₂
      exact .expr he

theorem spellsSimple_of_simple {st : Stmt} (h : plain (simple s ts) = .ok (st, rest)) :
    SpellsSimple s.constructs s.inMethod ts st rest := by
  cases ts with
  | nil =>
    rw [plain_simple_nil, plain_assignmentOrExpr, bind_eq_ok] at h
    obtain ⟨⟨e, mid⟩, h₁, -⟩ := h
    obtain ⟨fault, hfault⟩ := plain_exprAt_nil s .or
    rw [expr, hfault] at h₁
    cases h₁
  | cons t r =>
    by_cases hgive : t.kind = .keyword .return_
    · rw [plain_simple_return hgive] at h
      split at h
      · cases h
      · rename_i hin
        rw [Bool.not_eq_false] at hin
        split at h
        · cases h
          exact .giveNone hin hgive
        · rw [bind_eq_ok] at h
          obtain ⟨⟨e, mid⟩, h₁, h₂⟩ := h
          cases h₂
          exact .give hin hgive (spells_of_expr h₁)
    by_cases hprint : t.kind = .keyword .print
    · rw [plain_simple_print hprint] at h
      split at h
      · cases h
        exact .printNone hprint
      · rw [bind_eq_ok] at h
        obtain ⟨⟨es, mid⟩, h₁, h₂⟩ := h
        cases h₂
        exact .print hprint (spellsList_of_exprList s r h₁)
    · rw [plain_simple_other hgive hprint] at h
      exact spellsSimple_of_assignmentOrExpr (List.cons_ne_nil t r) h

theorem spells_of_condition {e : Expr} (h : plain (condition s ts) = .ok (e, rest)) :
    ∃ u, Spells s.constructs .or ts e (u :: rest) ∧ u.kind = .symbol ':' := by
  rw [plain_condition, bind_eq_ok] at h
  obtain ⟨⟨e', mid⟩, h₁, h₂⟩ := h
  split at h₂
  · cases h₂
  · rw [bind_eq_ok] at h₂
    obtain ⟨⟨u, last⟩, h₃, h₄⟩ := h₂
    cases h₄
    obtain ⟨hmid, hu⟩ := plain_expectSymbol.1 h₃
    simp only [] at hmid
    subst hmid
    exact ⟨u, spells_of_expr h₁, hu⟩

mutual

theorem spellsStmt_of_stmt (s : Scope) (ts : List Token) {st : Stmt} {rest : List Token} {d : Nat}
    (hl : Laid d ts) (h : plain (stmt s ts) = .ok (st, rest)) :
    SpellsStmt s.constructs s.inMethod ts st rest := by
  match ts, hl, h with
  | [], _, h =>
    rw [plain_stmt_nil, plain_simple_nil, plain_assignmentOrExpr, bind_eq_ok] at h
    obtain ⟨⟨e, mid⟩, h₁, -⟩ := h
    obtain ⟨fault, hfault⟩ := plain_exprAt_nil s .or
    rw [expr, hfault] at h₁
    cases h₁
  | t :: r, hl, h =>
    by_cases hclass : t.kind = .keyword .class_
    · rw [plain_stmt_class hclass] at h
      cases h
    by_cases hif : t.kind = .keyword .if_
    · rw [plain_stmt_if hif, bind_eq_ok] at h
      obtain ⟨⟨cond, r₁⟩, h₁, h⟩ := h
      rw [bind_eq_ok] at h
      obtain ⟨⟨yes, r₂⟩, h₂, h⟩ := h
      have hlt₁ := length_lt_of_plain h₁
      have hlt₂ := length_lt_of_plain h₂
      obtain ⟨u, hcond, hu⟩ := spells_of_condition h₁
      have hhead : Covers (t :: r) r₁ :=
        .cons (isMark_of_eq hif rfl) (hcond.covers.trans (.cons (isMark_of_eq hu rfl) .refl))
      have hl₁ := hl.covers hhead
      have hyes := spellsSuite_of_suite s r₁ hl₁ h₂
      match r₂, hlt₂, hyes, h with
      | [], _, hyes, h =>
        cases h
        exact .branch hif hcond hu hyes
      | v :: r₃, hlt₂, hyes, h =>
        simp only [] at h
        split at h
        · rename_i helse
          rw [bind_eq_ok] at h
          obtain ⟨⟨w, r₄⟩, h₃, h⟩ := h
          rw [bind_eq_ok] at h
          obtain ⟨⟨no, r₅⟩, h₄, h⟩ := h
          cases h
          have hlt₃ := length_lt_of_plain h₃
          obtain ⟨rfl, hw⟩ := plain_expectSymbol.1 h₃
          have hl₂ := (hl₁.spans (n := 0) hyes.spans).covers
            (.cons (isMark_of_eq helse rfl) (.cons (isMark_of_eq hw rfl) .refl))
          exact .branchElse hif hcond hu hyes helse hw (spellsSuite_of_suite s r₄ hl₂ h₄)
        · cases h
          exact .branch hif hcond hu hyes
    · rw [plain_stmt_other hclass hif, bind_eq_ok] at h
      obtain ⟨⟨st', mid⟩, h₁, h⟩ := h
      have hst := spellsSimple_of_simple h₁
      have hne := hl.ne_nil_of_covers (List.cons_ne_nil t r) hst.covers
      match mid, hst, hne, h with
      | [], _, hne, _ => exact absurd rfl hne
      | u :: r₁, hst, _, h =>
        rw [bind_eq_ok] at h
        obtain ⟨⟨_, r₂⟩, h₂, h⟩ := h
        cases h
        rw [plain_statementEnd] at h₂
        split at h₂
        · rename_i hu
          cases h₂
          exact .simple hst hu
        · cases h₂
termination_by ts.length * 4
decreasing_by
  all_goals simp only [List.length_cons] at *
  all_goals omega

theorem spellsSuite_of_suite (s : Scope) (ts : List Token) {st : Stmt} {rest : List Token} {d : Nat}
    (hl : Laid d ts) (h : plain (suite s ts) = .ok (st, rest)) :
    SpellsSuite s.constructs s.inMethod ts st rest := by
  rw [plain_suite, bind_eq_ok] at h
  obtain ⟨⟨n, r₁⟩, h₁, h⟩ := h
  rw [bind_eq_ok] at h
  obtain ⟨⟨i, r₂⟩, h₂, h⟩ := h
  rw [bind_eq_ok] at h
  obtain ⟨⟨body, r₃⟩, h₃, h⟩ := h
  cases h
  have hlt₁ := length_lt_of_plain h₁
  have hlt₂ := length_lt_of_plain h₂
  obtain ⟨rfl, hn⟩ := plain_expect.1 h₁
  obtain ⟨rfl, hi⟩ := plain_expect.1 h₂
  have hl₂ := (hl.newline hn).indent hi
  exact .block hn hi (spellsBlock_of_blockBody s r₂ hl₂ h₃)
termination_by ts.length * 4
decreasing_by
  simp only [List.length_cons] at *
  omega

theorem spellsBlock_of_blockBody (s : Scope) (ts : List Token) {body : List Stmt}
    {rest : List Token} {d : Nat} (hl : Laid (d + 1) ts)
    (h : plain (blockBody s ts) = .ok (body, rest)) :
    SpellsBlock s.constructs s.inMethod ts body rest := by
  match ts, hl, h with
  | [], hl, _ => exact absurd rfl hl.ne_nil
  | t :: r, hl, h =>
    rw [plain_blockBody] at h
    split at h
    · rename_i hdedent
      cases h
      exact .nil hdedent
    · rw [bind_eq_ok] at h
      obtain ⟨⟨st, mid⟩, h₁, h⟩ := h
      rw [bind_eq_ok] at h
      obtain ⟨⟨more, last⟩, h₂, h⟩ := h
      cases h
      have hlt := length_lt_of_plain h₁
      have hst := spellsStmt_of_stmt s (t :: r) hl h₁
      exact .cons hst (spellsBlock_of_blockBody s mid (hl.spans (n := 0) hst.spans) h₂)
termination_by ts.length * 4 + 1
decreasing_by
  all_goals simp only [List.length_cons] at *
  all_goals omega

end

/-! Classes and programs -/

theorem spellsNames_of_parameters (s : Scope) (method : String) (line : Nat) (seen : List String)
    (ts : List Token) {names : List String} {rest : List Token}
    (h : plain (parameters s method line seen ts) = .ok (names, rest)) (hseen : seen.Nodup) :
    ∃ more, names = seen ++ more ∧ SpellsNames ts more rest ∧ names.Nodup := by
  rw [plain_parameters, bind_eq_ok] at h
  obtain ⟨⟨name, mid⟩, h₁, h⟩ := h
  have hlt := length_lt_of_plain h₁
  obtain ⟨t, hts, ht⟩ := plain_expectWord.1 h₁
  split at h
  · cases h
  · rename_i hnew
    have hnodup : (seen ++ [name]).Nodup := by
      rw [List.contains_iff_mem] at hnew
      refine List.nodup_append.2 ⟨hseen, List.nodup_cons.2 ⟨List.not_mem_nil, .nil⟩, ?_⟩
      intro a ha b hb hab
      rw [List.mem_singleton.1 hb] at hab
      exact hnew (hab ▸ ha)
    match mid, hlt, hts, h with
    | [], _, hts, h =>
      cases h
      subst hts
      exact ⟨[name], rfl, .one ht, hnodup⟩
    | u :: r, hlt, hts, h =>
      simp only [] at h
      split at h
      · rename_i hcomma
        obtain ⟨more, hnames, hmore, hall⟩ :=
          spellsNames_of_parameters s method line (seen ++ [name]) r h hnodup
        subst hts
        refine ⟨name :: more, ?_, .cons ht hcomma hmore, hall⟩
        rw [hnames, List.append_assoc]
        rfl
      · cases h
        subst hts
        exact ⟨[name], rfl, .one ht, hnodup⟩
termination_by ts.length
decreasing_by
  simp only [List.length_cons] at *
  omega

theorem spellsParams_of_parameterList {method : String} {line : Nat} {names : List String}
    (h : plain (parameterList s method line ts) = .ok (names, rest)) :
    SpellsParams ts names rest := by
  rw [plain_parameterList] at h
  split at h
  · rw [bind_eq_ok] at h
    obtain ⟨⟨t, mid⟩, h₁, h⟩ := h
    cases h
    obtain ⟨rfl, ht⟩ := plain_expectSymbol.1 h₁
    exact .nil ht
  · rw [bind_eq_ok] at h
    obtain ⟨⟨names', mid⟩, h₁, h⟩ := h
    rw [bind_eq_ok] at h
    obtain ⟨⟨t, last⟩, h₂, h⟩ := h
    cases h
    obtain ⟨more, hmore, hnames, hnodup⟩ := spellsNames_of_parameters s method line [] ts h₁ .nil
    obtain ⟨rfl, ht⟩ := plain_expectSymbol.1 h₂
    rw [List.nil_append] at hmore
    subst hmore
    exact .list hnames ht hnodup

theorem spellsMethods_of_classBody (s : Scope) (cls : String) (ms : List Method) (ts : List Token)
    {all : List Method} {rest : List Token} {d : Nat} (hl : Laid (d + 1) ts)
    (h : plain (classBody s cls ms ts) = .ok (all, rest)) :
    ∃ more, SpellsMethods s.constructs ts more rest ∧ all = more.foldl addMethod ms := by
  match ts, hl, h with
  | [], hl, _ => exact absurd rfl hl.ne_nil
  | t :: r, hl, h =>
    rw [plain_classBody] at h
    split at h
    · rename_i hdedent
      cases h
      exact ⟨[], .nil hdedent, rfl⟩
    · split at h
      · rename_i hdef
        rw [bind_eq_ok] at h
        obtain ⟨⟨m, mid⟩, h₁, h⟩ := h
        have hlt := length_lt_of_plain h₁
        rw [plain_methodDef, bind_eq_ok] at h₁
        obtain ⟨⟨name, r₁⟩, hname, h₁⟩ := h₁
        rw [bind_eq_ok] at h₁
        obtain ⟨⟨v, r₂⟩, hopen, h₁⟩ := h₁
        rw [bind_eq_ok] at h₁
        obtain ⟨⟨params, r₃⟩, hparams, h₁⟩ := h₁
        rw [bind_eq_ok] at h₁
        obtain ⟨⟨w, r₄⟩, hcolon, h₁⟩ := h₁
        rw [bind_eq_ok] at h₁
        obtain ⟨⟨body, r₅⟩, hbody, h₁⟩ := h₁
        cases h₁
        obtain ⟨u, rfl, hu⟩ := plain_expectWord.1 hname
        obtain ⟨rfl, hv⟩ := plain_expectSymbol.1 hopen
        obtain ⟨hmid, hw⟩ := plain_expectSymbol.1 hcolon
        simp only [] at hmid
        subst hmid
        have hparams := spellsParams_of_parameterList hparams
        have hhead : Covers (t :: u :: v :: r₂) r₄ :=
          .cons (isMark_of_eq hdef rfl) (.cons (isMark_of_eq hu rfl) (.cons (isMark_of_eq hv rfl)
            (hparams.covers.trans (.cons (isMark_of_eq hw rfl) .refl))))
        have hl' := hl.covers hhead
        have hbody := spellsSuite_of_suite { s with inMethod := true } r₄ hl' hbody
        obtain ⟨more, hmore, hall⟩ :=
          spellsMethods_of_classBody s cls _ r₅ (hl'.spans (n := 0) hbody.spans) h
        exact ⟨_, .cons hdef hu hv hparams hw hbody hmore, hall⟩
      · cases h
termination_by ts.length
decreasing_by
  simp only [List.length_cons] at *
  omega

theorem spellsParent_of_parentClass {parent : Option Class}
    (h : plain (parentClass s ts) = .ok (parent, rest)) :
    SpellsParent s.classes ts parent rest := by
  cases ts with
  | nil =>
    cases h
    exact .none
  | cons t r =>
    rw [plain_parentClass] at h
    split at h
    · rename_i hopen
      rw [bind_eq_ok] at h
      obtain ⟨⟨name, r₁⟩, h₁, h⟩ := h
      rw [bind_eq_ok] at h
      obtain ⟨⟨v, r₂⟩, h₂, h⟩ := h
      obtain ⟨u, rfl, hu⟩ := plain_expectWord.1 h₁
      obtain ⟨rfl, hv⟩ := plain_expectSymbol.1 h₂
      simp only [] at h
      split at h
      · cases h
      · rename_i parent' hget
        cases h
        exact .some hopen hu hv hget
    · cases h
      exact .none

theorem spellsClass_of_classDef {stop : Pos} {classes : ClassTable} {line : Nat} {c : Class}
    (hl : Laid d ts) (h : plain (classDef (topScope stop classes) line ts) = .ok (c, rest)) :
    SpellsClass classes ts c rest := by
  rw [plain_classDef, bind_eq_ok] at h
  obtain ⟨⟨name, r₁⟩, h₁, h⟩ := h
  obtain ⟨t, rfl, ht⟩ := plain_expectWord.1 h₁
  split at h
  · cases h
  · rename_i hnew
    rw [Bool.not_eq_true] at hnew
    rw [bind_eq_ok] at h
    obtain ⟨⟨parent, r₂⟩, h₂, h⟩ := h
    rw [bind_eq_ok] at h
    obtain ⟨⟨u, r₃⟩, h₃, h⟩ := h
    rw [bind_eq_ok] at h
    obtain ⟨⟨v, r₄⟩, h₄, h⟩ := h
    rw [bind_eq_ok] at h
    obtain ⟨⟨w, r₅⟩, h₅, h⟩ := h
    rw [bind_eq_ok] at h
    obtain ⟨⟨ms, r₆⟩, h₆, h⟩ := h
    cases h
    obtain ⟨hr₂, hu⟩ := plain_expectSymbol.1 h₃
    obtain ⟨hr₃, hv⟩ := plain_expect.1 h₄
    obtain ⟨hr₄, hw⟩ := plain_expect.1 h₅
    simp only [] at hr₂ hr₃ hr₄
    subst hr₂ hr₃ hr₄
    have hparent := spellsParent_of_parentClass h₂
    have hhead : Covers (t :: r₁) (v :: w :: r₅) :=
      .cons (isMark_of_eq ht rfl) (hparent.covers.trans (.cons (isMark_of_eq hu rfl) .refl))
    have hl' := ((hl.covers hhead).newline hv).indent hw
    obtain ⟨more, hmore, rfl⟩ := spellsMethods_of_classBody _ name [] r₅ hl' h₆
    exact .intro ht hnew hparent hu hv hw hmore

/-- What is read as a program is spelled by its tokens. -/
theorem spellsProgram_of_program (stop : Pos) (classes : ClassTable) (ts : List Token)
    {p : Program} (hl : Laid 0 ts) (hs : Lexed ts) (hhead : ∀ t ∈ ts.head?, t.kind ≠ .newline)
    (h : program stop classes ts = .ok p) : SpellsProgram classes ts p.statements p.classes := by
  match ts, hl, hs, hhead, h with
  | [], _, _, _, h =>
    rw [program_nil] at h
    cases h
    exact .nil
  | t :: r, hl, hs, hhead, h =>
    have hnewline : t.kind ≠ .newline := hhead t rfl
    have next {rest : List Token} (hspan : Spans 0 (t :: r) rest) :
        ∀ u ∈ rest.head?, u.kind ≠ .newline := by
      intro u hu
      cases rest with
      | nil => cases hu
      | cons v vs =>
        cases hu
        exact hs.spaced.head_ne_newline hspan
    by_cases hclass : t.kind = .keyword .class_
    · rw [program_class stop classes hclass, bind_eq_ok] at h
      obtain ⟨⟨c, mid⟩, h₁, h⟩ := h
      rw [bind_eq_ok] at h
      obtain ⟨p', h₂, h⟩ := h
      cases h
      have hlt := length_lt_of_plain h₁
      have hcover : Covers (t :: r) r := .cons (isMark_of_eq hclass rfl) .refl
      have hc := spellsClass_of_classDef (hl.covers hcover) h₁
      have hspan := hcover.spans hc.spans
      exact .cls hclass hc (spellsProgram_of_program stop _ mid (hl.spans (n := 0) hspan)
        (hs.spans hspan) (next hspan) h₂)
    · rw [program_stmt stop classes hnewline hclass, bind_eq_ok] at h
      obtain ⟨⟨st, mid⟩, h₁, h⟩ := h
      rw [bind_eq_ok] at h
      obtain ⟨p', h₂, h⟩ := h
      cases h
      have hlt := length_lt_of_plain h₁
      have hst := spellsStmt_of_stmt _ (t :: r) hl h₁
      have hst' : SpellsStmt classes.contains false (t :: r) st mid := by
        have hknown : (topScope stop classes).constructs = classes.contains := by
          funext name
          simp [Scope.constructs, topScope]
        rw [hknown] at hst
        exact hst
      exact .stmt hst' (spellsProgram_of_program stop _ mid (hl.spans (n := 0) hst.spans)
        (hs.spans hst.spans) (next hst.spans) h₂)
termination_by ts.length
decreasing_by
  all_goals simp only [List.length_cons] at *
  all_goals omega

end ClassLang.Grammar
