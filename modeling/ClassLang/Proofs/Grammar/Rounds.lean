import ClassLang.Proofs.Grammar.Plain.Statement

/-!
The loops of reading. What a reader gives for a row, a list or a block is what a loop gives that
makes one round after another, with nothing to stop it but its rounds. Every round leaves fewer
tokens than there were, so a loop ends after at most one round for each token.
-/

namespace ClassLang.Grammar

/-- A round of a loop over tokens: it leads on to a state with the tokens that are left, or it ends
the loop. -/
abbrev Round (β γ : Type) := β × List Token → Except Error (β × List Token ⊕ γ)

variable {β γ : Type}

/-- A loop that makes a number of rounds after which it goes on, and then fails or ends. -/
inductive Rounds (round : Round β γ) : Nat → β × List Token → Except Error γ → Prop where
  | fails {a : β × List Token} {e : Error} : round a = .error e → Rounds round 0 a (.error e)
  | ends {a : β × List Token} {x : γ} : round a = .ok (.inr x) → Rounds round 0 a (.ok x)
  | next {n : Nat} {a b : β × List Token} {x : Except Error γ} :
    round a = .ok (.inl b) → Rounds round n b x → Rounds round (n + 1) a x

namespace Round

variable {round : Round β γ} {read : β → List Token → Except Error γ}

/-- Holds of rounds after which fewer tokens are left. -/
def Shortens (round : Round β γ) : Prop :=
  ∀ b ts c, round (b, ts) = .ok (.inl c) → c.2.length < ts.length

/-- Holds of readings that go on as the rounds of a loop do. -/
def Makes (round : Round β γ) (read : β → List Token → Except Error γ) : Prop :=
  ∀ b ts, read b ts = round (b, ts) >>= Sum.elim (fun c => read c.1 c.2) .ok

/-- A loop whose rounds leave fewer tokens ends, with what a reading gives that goes on as they
do. -/
theorem Makes.exists_rounds (h : Makes round read) (hround : Shortens round)
    (b : β) (ts : List Token) : ∃ n ≤ ts.length, Rounds round n (b, ts) (read b ts) := by
  rw [h]
  cases ha : round (b, ts) with
  | error e => exact ⟨0, Nat.zero_le _, .fails ha⟩
  | ok next =>
    cases next with
    | inr x => exact ⟨0, Nat.zero_le _, .ends ha⟩
    | inl c =>
      have hlt := hround b ts c ha
      obtain ⟨n, hn, hrounds⟩ := h.exists_rounds hround c.1 c.2
      exact ⟨n + 1, Nat.lt_of_le_of_lt hn hlt, .next ha hrounds⟩
termination_by ts.length

end Round

open Round

/-! Expressions -/

/-- A round of the names behind a name: a dot and a name. -/
def fieldRound : Round (List String) (List String × List Token)
  | (names, t :: u :: ts) =>
    if t.kind = .symbol '.' then
      match u.kind with
      | .word name => .ok (.inl (names ++ [name], ts))
      | _ => .ok (.inr (names, t :: u :: ts))
    else .ok (.inr (names, t :: u :: ts))
  | (names, ts) => .ok (.inr (names, ts))

theorem shortens_fieldRound : Shortens fieldRound := by
  intro names ts c h
  match ts with
  | [] => cases h
  | [t] => cases h
  | t :: u :: r =>
    rw [fieldRound] at h
    split at h
    · split at h
      · cases h
        simp only [List.length_cons]
        omega
      · cases h
    · cases h

theorem makes_fieldNames : Makes fieldRound fun names ts =>
    .ok (names ++ (fieldNames ts).1, (fieldNames ts).2) := by
  intro names ts
  fun_cases fieldNames ts with
  | case1 t u ts ht name hu more =>
    simp only [fieldRound, fieldNames, ht, hu, if_true, ok_bind, Sum.elim_inl,
      List.append_assoc, List.cons_append, List.nil_append]
  | case2 t u ts ht => simp [fieldRound, fieldNames, ht]
  | case3 t u ts ht => simp [fieldRound, fieldNames, ht]
  | case4 ts => simp [fieldRound, fieldNames]

variable (s : Scope)

/-- A round of a row: an operator and its right operand. -/
def rowRound (l : Level) : Round Expr (Expr × List Token)
  | (e, []) => .ok (.inr (e, []))
  | (e, t :: r) =>
    match l.operator? t.kind with
    | none => .ok (.inr (e, t :: r))
    | some build => plain (exprAt s l.operands r) >>= fun p => .ok (.inl (build e p.1 t.pos, p.2))

theorem shortens_rowRound (l : Level) : Shortens (rowRound s l) := by
  intro e ts c h
  cases ts with
  | nil => cases h
  | cons t r =>
    rw [rowRound] at h
    split at h
    · cases h
    · obtain ⟨p, hp, h⟩ := bind_eq_ok.1 h
      cases h
      have hlen := length_lt_of_plain hp
      simp only [List.length_cons]
      omega

theorem makes_chain (l : Level) : Makes (rowRound s l) fun e ts => plain (chain s l e ts) := by
  intro e ts
  cases ts with
  | nil => exact plain_chain_nil s l e
  | cons t r =>
    simp only []
    rw [plain_chain, rowRound]
    cases l.operator? t.kind with
    | none => rfl
    | some build => cases plain (exprAt s l.operands r) <;> rfl

/-- A round of the calls behind an expression: a dot, a name and arguments. -/
def callRound : Round Expr (Expr × List Token)
  | (e, []) => .ok (.inr (e, []))
  | (e, t :: r) =>
    if t.kind = .symbol '.' then
      plain (expectWord s .methodName r) >>= fun m =>
      plain (expect s (.symbol '(') .argumentList m.2) >>= fun u =>
      plain (arguments s u.2) >>= fun p => .ok (.inl (.call e m.1 p.1 t.pos, p.2))
    else .ok (.inr (e, t :: r))

theorem shortens_callRound : Shortens (callRound s) := by
  intro e ts c h
  cases ts with
  | nil => cases h
  | cons t r =>
    rw [callRound] at h
    split at h
    · obtain ⟨m, hm, h⟩ := bind_eq_ok.1 h
      obtain ⟨u, hu, h⟩ := bind_eq_ok.1 h
      obtain ⟨p, hp, h⟩ := bind_eq_ok.1 h
      cases h
      have hlen₁ := length_lt_of_plain hm
      have hlen₂ := length_lt_of_plain hu
      have hlen₃ := length_lt_of_plain hp
      simp only [List.length_cons]
      omega
    · cases h

theorem makes_methodCalls : Makes (callRound s) fun e ts => plain (methodCalls s e ts) := by
  intro e ts
  cases ts with
  | nil => exact plain_methodCalls_nil s e
  | cons t r =>
    simp only []
    rw [plain_methodCalls, callRound]
    split
    · simp only [bind_assoc, ok_bind, Sum.elim_inl]
    · rfl

/-- A round of a list: an expression, and the comma behind it where more follow. -/
def listRound : Round (List Expr) (List Expr × List Token)
  | (es, ts) => plain (exprAt s .or ts) >>= fun p =>
    match p.2 with
    | [] => .ok (.inr (es ++ [p.1], []))
    | t :: r =>
      if t.kind = .symbol ',' then .ok (.inl (es ++ [p.1], r))
      else .ok (.inr (es ++ [p.1], t :: r))

theorem shortens_listRound : Shortens (listRound s) := by
  intro es ts c h
  obtain ⟨⟨e, rest⟩, hp, h⟩ := bind_eq_ok.1 h
  have hlen := length_lt_of_plain hp
  cases rest with
  | nil => cases h
  | cons t r =>
    simp only [] at h
    split at h
    · cases h
      exact Nat.lt_of_succ_lt hlen
    · cases h

theorem makes_exprList : Makes (listRound s) fun es ts =>
    plain (exprList s ts) >>= fun p => .ok (es ++ p.1, p.2) := by
  intro es ts
  simp only [listRound]
  rw [plain_exprList]
  cases plain (exprAt s .or ts) with
  | error e => rfl
  | ok p =>
    obtain ⟨e, rest⟩ := p
    cases rest with
    | nil => rfl
    | cons t r =>
      simp only [ok_bind]
      split
      · simp only [bind_assoc, ok_bind, Sum.elim_inl, List.append_assoc, List.cons_append,
          List.nil_append]
      · rfl

/-! Statements and classes -/

/-- A round of a block: a statement, up to a dedent. -/
def blockRound : Round (List Stmt) (List Stmt × List Token)
  | (body, []) => .ok (.inr (body, []))
  | (body, t :: r) =>
    if t.kind = .dedent then .ok (.inr (body, r))
    else plain (stmt s (t :: r)) >>= fun p => .ok (.inl (body ++ [p.1], p.2))

theorem shortens_blockRound : Shortens (blockRound s) := by
  intro body ts c h
  cases ts with
  | nil => cases h
  | cons t r =>
    rw [blockRound] at h
    split at h
    · cases h
    · obtain ⟨p, hp, h⟩ := bind_eq_ok.1 h
      cases h
      exact length_lt_of_plain hp

theorem makes_blockBody : Makes (blockRound s) fun body ts =>
    plain (blockBody s ts) >>= fun p => .ok (body ++ p.1, p.2) := by
  intro body ts
  cases ts with
  | nil => simp [plain_blockBody_nil, blockRound]
  | cons t r =>
    simp only [blockRound]
    rw [plain_blockBody]
    split
    · simp
    · simp only [bind_assoc, ok_bind, Sum.elim_inl, List.append_assoc, List.cons_append,
        List.nil_append]

/-- A round of the parameters of a method: a new name, and the comma behind it where more follow. -/
def parameterRound (method : String) (line : Nat) : Round (List String) (List String × List Token)
  | (names, ts) => plain (expectWord s .parameterName ts) >>= fun p =>
    if names.contains p.1 then .error (invalid (.parameterTaken p.1 method) line)
    else match p.2 with
      | [] => .ok (.inr (names ++ [p.1], []))
      | t :: r =>
        if t.kind = .symbol ',' then .ok (.inl (names ++ [p.1], r))
        else .ok (.inr (names ++ [p.1], t :: r))

theorem shortens_parameterRound (method : String) (line : Nat) :
    Shortens (parameterRound s method line) := by
  intro names ts c h
  obtain ⟨⟨name, rest⟩, hp, h⟩ := bind_eq_ok.1 h
  have hlen := length_lt_of_plain hp
  simp only [] at h
  split at h
  · cases h
  · cases rest with
    | nil => cases h
    | cons t r =>
      simp only [] at h
      split at h
      · cases h
        exact Nat.lt_of_succ_lt hlen
      · cases h

theorem makes_parameters (method : String) (line : Nat) :
    Makes (parameterRound s method line) fun names ts =>
      plain (parameters s method line names ts) := by
  intro names ts
  simp only [parameterRound]
  rw [plain_parameters]
  cases plain (expectWord s .parameterName ts) with
  | error e => rfl
  | ok p =>
    obtain ⟨name, rest⟩ := p
    simp only [ok_bind]
    split
    · rfl
    · cases rest with
      | nil => rfl
      | cons t r =>
        simp only []
        split <;> rfl

/-- A round of the body of a class: a method, up to a dedent. -/
def classRound (cls : String) : Round (List Method) (List Method × List Token)
  | (ms, []) => .ok (.inr (ms, []))
  | (ms, t :: r) =>
    if t.kind = .dedent then .ok (.inr (ms, r))
    else if t.kind = .keyword .def_ then
      plain (methodDef s t.pos r) >>= fun p => .ok (.inl (addMethod ms p.1, p.2))
    else .error (invalid (.notAMethod cls t.kind.text) t.line)

theorem shortens_classRound (cls : String) : Shortens (classRound s cls) := by
  intro ms ts c h
  cases ts with
  | nil => cases h
  | cons t r =>
    rw [classRound] at h
    split at h
    · cases h
    · split at h
      · obtain ⟨p, hp, h⟩ := bind_eq_ok.1 h
        cases h
        exact Nat.lt_succ_of_lt (length_lt_of_plain hp)
      · cases h

theorem makes_classBody (cls : String) :
    Makes (classRound s cls) fun ms ts => plain (classBody s cls ms ts) := by
  intro ms ts
  cases ts with
  | nil => exact plain_classBody_nil s cls ms
  | cons t r =>
    simp only [classRound]
    rw [plain_classBody]
    split
    · rfl
    · split
      · simp only [bind_assoc, ok_bind, Sum.elim_inl]
      · rfl

/-- A round of a program: the end of an empty line, a class or a statement. -/
def programRound (stop : Pos) : Round Program Program
  | (p, []) => .ok (.inr p)
  | (p, t :: r) =>
    if t.kind = .newline then .ok (.inl (p, r))
    else if t.kind = .keyword .class_ then
      plain (classDef (topScope stop p.classes) t.line r) >>= fun c =>
        .ok (.inl (⟨p.statements ++ [.classDef c.1 t.pos], p.classes.add c.1⟩, c.2))
    else plain (stmt (topScope stop p.classes) (t :: r)) >>= fun st =>
      .ok (.inl (⟨p.statements ++ [st.1], p.classes⟩, st.2))

theorem shortens_programRound (stop : Pos) : Shortens (programRound stop) := by
  intro p ts c h
  cases ts with
  | nil => cases h
  | cons t r =>
    rw [programRound] at h
    split at h
    · cases h
      exact Nat.lt_succ_self _
    · split at h
      · obtain ⟨cls, hcls, h⟩ := bind_eq_ok.1 h
        cases h
        exact Nat.lt_succ_of_lt (length_lt_of_plain hcls)
      · obtain ⟨st, hst, h⟩ := bind_eq_ok.1 h
        cases h
        exact length_lt_of_plain hst

theorem makes_program (stop : Pos) : Makes (programRound stop) fun p ts =>
    program stop p.classes ts >>= fun q =>
      .ok { q with statements := p.statements ++ q.statements } := by
  intro p ts
  cases ts with
  | nil => simp [program_nil, programRound]
  | cons t r =>
    simp only [programRound]
    split
    · rename_i hnewline
      rw [program_newline _ _ hnewline]
      rfl
    · rename_i hnewline
      split
      · rename_i hclass
        rw [program_class _ _ hclass]
        simp only [bind_assoc, ok_bind, Sum.elim_inl, consStatement, List.append_assoc,
          List.cons_append, List.nil_append]
      · rename_i hclass
        rw [program_stmt _ _ hnewline hclass]
        simp only [bind_assoc, ok_bind, Sum.elim_inl, consStatement, List.append_assoc,
          List.cons_append, List.nil_append]

end ClassLang.Grammar
