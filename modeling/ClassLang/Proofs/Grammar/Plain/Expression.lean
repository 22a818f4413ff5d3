import ClassLang.Grammar.Expression
import ClassLang.Proofs.Except

/-!
The readers of expressions without their bounds. Each reader has an equation for what it gives and
what it leaves, and no later proof opens a reader.
-/

namespace ClassLang.Grammar

variable {α β : Type} {m n : Nat}

/-- What a reading gives and what it leaves, its bound put aside. -/
def plain (x : Except Error (Parsed α n)) : Except Error (α × List Token) :=
  x.map fun p => (p.value, p.rest)

@[simp] theorem plain_ok (p : Parsed α n) :
    plain (.ok p : Except Error (Parsed α n)) = .ok (p.value, p.rest) := rfl

@[simp] theorem plain_pure (p : Parsed α n) :
    plain (pure p : Except Error (Parsed α n)) = .ok (p.value, p.rest) := rfl

@[simp] theorem plain_error (e : Error) :
    plain (.error e : Except Error (Parsed α n)) = .error e := rfl

/-- What is left is shorter than the bound of the reading. -/
theorem length_lt_of_plain {x : Except Error (Parsed α n)} {a : α} {rest : List Token}
    (h : plain x = .ok (a, rest)) : rest.length < n := by
  cases x with
  | error e => simp at h
  | ok p =>
    obtain ⟨-, rfl⟩ := Prod.mk.inj (Except.ok.inj h)
    exact p.shorter

/-- Another value for what was read. -/
theorem plain_bind_pure {x : Except Error (Parsed α m)} {f : Parsed α m → Parsed β n}
    (g : α → β) (h : ∀ p, (f p).value = g p.value) (h' : ∀ p, (f p).rest = p.rest) :
    plain (x >>= fun p => pure (f p)) = plain x >>= fun p => .ok (g p.1, p.2) := by
  cases x with
  | error e => rfl
  | ok p =>
    change Except.ok ((f p).value, (f p).rest) = .ok (g p.value, p.rest)
    rw [h, h']

/-- Another bound alone. -/
theorem plain_bind_same {x : Except Error (Parsed α m)} {f : Parsed α m → Parsed α n}
    (h : ∀ p, (f p).value = p.value) (h' : ∀ p, (f p).rest = p.rest) :
    plain (x >>= fun p => pure (f p)) = plain x := by
  rw [plain_bind_pure id h h']
  cases plain x <;> rfl

/-! Tokens -/

theorem plain_expect {s : Scope} {kind : Kind} {expected : Expected} {ts rest : List Token}
    {t : Token} :
    plain (expect s kind expected ts) = .ok (t, rest) ↔ ts = t :: rest ∧ t.kind = kind := by
  cases ts with
  | nil => simp [expect]
  | cons u us =>
    by_cases hu : u.kind = kind
    · simp only [expect, if_pos hu, plain_ok, Parsed.one, Except.ok.injEq, Prod.mk.injEq,
        List.cons.injEq]
      constructor
      · rintro ⟨rfl, rfl⟩
        exact ⟨⟨rfl, rfl⟩, hu⟩
      · rintro ⟨⟨rfl, rfl⟩, -⟩
        exact ⟨rfl, rfl⟩
    · simp only [expect, if_neg hu, plain_error, List.cons.injEq]
      constructor
      · intro h
        cases h
      · rintro ⟨⟨rfl, rfl⟩, h⟩
        exact absurd h hu

theorem plain_expectSymbol {s : Scope} {c : Char} {ts rest : List Token} {t : Token} :
    plain (expectSymbol s c ts) = .ok (t, rest) ↔ ts = t :: rest ∧ t.kind = .symbol c :=
  plain_expect

theorem plain_expectWord {s : Scope} {expected : Expected} {ts rest : List Token}
    {name : String} :
    plain (expectWord s expected ts) = .ok (name, rest) ↔
      ∃ t, ts = t :: rest ∧ t.kind = .word name := by
  cases ts with
  | nil => simp [expectWord]
  | cons u us =>
    rw [expectWord]
    split
    · rename_i word hu
      simp only [plain_ok, Parsed.one, Except.ok.injEq, Prod.mk.injEq, List.cons.injEq]
      constructor
      · rintro ⟨rfl, rfl⟩
        exact ⟨u, ⟨rfl, rfl⟩, hu⟩
      · rintro ⟨t, ⟨rfl, rfl⟩, ht⟩
        rw [hu] at ht
        exact ⟨Kind.word.inj ht, rfl⟩
    · rename_i hu
      simp only [plain_error, List.cons.injEq]
      constructor
      · intro h
        cases h
      · rintro ⟨t, ⟨rfl, rfl⟩, ht⟩
        exact absurd ht (hu name)

/-! Expressions -/

namespace Level

/-- Holds of the levels that take their operators in rows. -/
def isRow : Level → Bool
  | .or | .and | .sum | .product => true
  | _ => false

theorem isRow_of_operator? {l : Level} {k : Kind} {build : Expr → Expr → Pos → Expr}
    (h : l.operator? k = some build) : l.isRow = true := by
  unfold operator? at h
  split at h <;> first | rfl | cases h

theorem ne_primary_of_isRow {l : Level} (h : l.isRow = true) : l ≠ .primary := by
  rintro rfl
  cases h

theorem rank_operands_lt {l : Level} (h : l ≠ .primary) : l.operands.rank < l.rank := by
  cases l <;> first | decide | exact absurd rfl h

theorem rank_operands_le_self (l : Level) : l.operands.rank ≤ l.rank := by cases l <;> decide

theorem two_le_rank_of_isRow {l : Level} (h : l.isRow = true) : 2 ≤ l.operands.rank := by
  cases l <;> first | decide | cases h

end Level

/-- How reading goes on behind an expression of a level. -/
def goOn (s : Scope) (level : Level) (e : Expr) (ts : List Token) :
    Except Error (Expr × List Token) :=
  if level.isRow then plain (chain s level e ts)
  else if level = .calls then plain (methodCalls s e ts)
  else .ok (e, ts)

variable (s : Scope)

theorem plain_row {l : Level} (hl : l.isRow = true) (ts : List Token) :
    plain (exprAt s l ts) =
      plain (exprAt s l.operands ts) >>= fun p => plain (chain s l p.1 p.2) := by
  cases l with
  | or | and | sum | product =>
    rw [exprAt, Level.operands]
    cases exprAt s _ ts with
    | error e => rfl
    | ok p => exact plain_bind_same (fun _ => rfl) fun _ => rfl
  | _ => cases hl

theorem plain_not (t : Token) (r : List Token) :
    plain (exprAt s .not (t :: r)) =
      if t.kind = .keyword .not then
        plain (exprAt s .not r) >>= fun p => .ok (.negation p.1 t.pos, p.2)
      else plain (exprAt s .comparison (t :: r)) := by
  conv => lhs; rw [exprAt]
  split
  · exact plain_bind_pure (Expr.negation · t.pos) (fun _ => rfl) fun _ => rfl
  · rfl

theorem plain_unary (t : Token) (r : List Token) :
    plain (exprAt s .unary (t :: r)) =
      if t.kind = .symbol '-' then
        plain (exprAt s .unary r) >>= fun p =>
          .ok (.arith .sub (.literal (.number 0) t.pos) p.1 t.pos, p.2)
      else plain (exprAt s .calls (t :: r)) := by
  conv => lhs; rw [exprAt]
  split
  · exact plain_bind_pure (fun e => Expr.arith .sub (.literal (.number 0) t.pos) e t.pos)
      (fun _ => rfl) fun _ => rfl
  · rfl

theorem plain_comparison (ts : List Token) :
    plain (exprAt s .comparison ts) = plain (exprAt s .sum ts) >>= fun p =>
      match p.2 with
      | [] => .ok (p.1, [])
      | t :: r =>
        match comparison? t.kind with
        | none => .ok (p.1, t :: r)
        | some op => plain (exprAt s .sum r) >>= fun q => .ok (.compare op p.1 q.1 t.pos, q.2) := by
  conv => lhs; rw [exprAt]
  cases exprAt s .sum ts with
  | error e => rfl
  | ok p =>
    obtain ⟨left, rest, h⟩ := p
    cases rest with
    | nil => rfl
    | cons t r =>
      simp only [ok_bind, plain_ok]
      cases comparison? t.kind with
      | none => rfl
      | some op => exact plain_bind_pure (Expr.compare op left · t.pos) (fun _ => rfl) fun _ => rfl

theorem plain_calls (ts : List Token) :
    plain (exprAt s .calls ts) =
      plain (exprAt s .primary ts) >>= fun p => plain (methodCalls s p.1 p.2) := by
  conv => lhs; rw [exprAt]
  cases exprAt s .primary ts with
  | error e => rfl
  | ok p => exact plain_bind_same (fun _ => rfl) fun _ => rfl

variable {s} {t : Token}

theorem plain_primary_literal {value : Literal} (h : literal? t.kind = some value)
    (r : List Token) : plain (exprAt s .primary (t :: r)) = .ok (.literal value t.pos, r) := by
  rw [exprAt]
  simp only [h]
  rfl

theorem plain_primary_paren (h : t.kind = .symbol '(') (r : List Token) :
    plain (exprAt s .primary (t :: r)) =
      plain (exprAt s .or r) >>= fun p =>
        plain (expectSymbol s ')' p.2) >>= fun q => .ok (p.1, q.2) := by
  obtain ⟨kind, lexeme, pos⟩ := t
  subst h
  conv => lhs; rw [exprAt]
  simp only [literal?]
  cases exprAt s .or r with
  | error e => rfl
  | ok p => exact plain_bind_pure (fun _ => p.value) (fun _ => rfl) fun _ => rfl

theorem plain_primary_word {root : String} (h : t.kind = .word root) (r : List Token) :
    plain (exprAt s .primary (t :: r)) =
      match (fieldNames r).2 with
      | [] => .ok (.name (root :: (fieldNames r).1) t.pos, [])
      | u :: r' =>
        if u.kind = .symbol '(' then
          plain (arguments s r') >>= fun p =>
            dottedCall s root (fieldNames r).1 p.1 t.pos u.pos >>= fun e => .ok (e, p.2)
        else .ok (.name (root :: (fieldNames r).1) t.pos, u :: r') := by
  obtain ⟨kind, lexeme, pos⟩ := t
  subst h
  conv => lhs; rw [exprAt]
  simp only [literal?]
  split
  · rename_i hr
    simp only [hr]
    rfl
  · rename_i u r' hr
    simp only [hr]
    split
    · cases arguments s r' with
      | error e => rfl
      | ok p =>
        obtain ⟨args, rest, h⟩ := p
        simp only [ok_bind, plain_ok]
        cases dottedCall s root (fieldNames r).1 args pos u.pos <;> rfl
    · rfl

theorem plain_primary_other (h : literal? t.kind = none) (hp : t.kind ≠ .symbol '(')
    (hw : ∀ root, t.kind ≠ .word root) (r : List Token) :
    plain (exprAt s .primary (t :: r)) = .error (s.unexpected .expression (t :: r)) := by
  rw [exprAt]
  simp only [h, plain_error]

variable (s)

theorem plain_chain (l : Level) (left : Expr) (t : Token) (r : List Token) :
    plain (chain s l left (t :: r)) =
      match l.operator? t.kind with
      | none => .ok (left, t :: r)
      | some build => plain (exprAt s l.operands r) >>= fun p =>
          plain (chain s l (build left p.1 t.pos) p.2) := by
  conv => lhs; rw [chain]
  cases l.operator? t.kind with
  | none => rfl
  | some build =>
    cases exprAt s l.operands r with
    | error e => rfl
    | ok p => exact plain_bind_same (fun _ => rfl) fun _ => rfl

theorem plain_chain_nil (l : Level) (left : Expr) :
    plain (chain s l left []) = .ok (left, []) := by
  conv => lhs; rw [chain]
  rfl

theorem plain_methodCalls (e : Expr) (t : Token) (r : List Token) :
    plain (methodCalls s e (t :: r)) =
      if t.kind = .symbol '.' then
        plain (expectWord s .methodName r) >>= fun m =>
        plain (expect s (.symbol '(') .argumentList m.2) >>= fun u =>
        plain (arguments s u.2) >>= fun p =>
        plain (methodCalls s (.call e m.1 p.1 t.pos) p.2)
      else .ok (e, t :: r) := by
  conv => lhs; rw [methodCalls]
  split
  · cases expectWord s .methodName r with
    | error e => rfl
    | ok m =>
      obtain ⟨method, r₁, h₁⟩ := m
      simp only [ok_bind, plain_ok]
      cases expect s (.symbol '(') .argumentList r₁ with
      | error e => rfl
      | ok u =>
        obtain ⟨u, r₂, h₂⟩ := u
        simp only [ok_bind, plain_ok]
        cases arguments s r₂ with
        | error e => rfl
        | ok p => exact plain_bind_same (fun _ => rfl) fun _ => rfl
  · rfl

theorem plain_methodCalls_nil (e : Expr) : plain (methodCalls s e []) = .ok (e, []) := by
  conv => lhs; rw [methodCalls]
  rfl

theorem plain_arguments (t : Token) (r : List Token) :
    plain (arguments s (t :: r)) =
      if t.kind = .symbol ')' then .ok ([], r)
      else plain (exprList s (t :: r)) >>= fun p =>
        plain (expectSymbol s ')' p.2) >>= fun q => .ok (p.1, q.2) := by
  conv => lhs; rw [arguments]
  split
  · rfl
  · cases exprList s (t :: r) with
    | error e => rfl
    | ok p => exact plain_bind_pure (fun _ => p.value) (fun _ => rfl) fun _ => rfl

theorem plain_exprList (ts : List Token) :
    plain (exprList s ts) = plain (exprAt s .or ts) >>= fun p =>
      match p.2 with
      | [] => .ok ([p.1], [])
      | t :: r =>
        if t.kind = .symbol ',' then plain (exprList s r) >>= fun q => .ok (p.1 :: q.1, q.2)
        else .ok ([p.1], t :: r) := by
  conv => lhs; rw [exprList]
  cases exprAt s .or ts with
  | error e => rfl
  | ok p =>
    obtain ⟨e, rest, h⟩ := p
    cases rest with
    | nil => rfl
    | cons t r =>
      simp only [ok_bind, plain_ok]
      split
      · exact plain_bind_pure (e :: ·) (fun _ => rfl) fun _ => rfl
      · rfl

/-- There is no expression where no token is. -/
theorem plain_exprAt_nil (l : Level) : ∃ e, plain (exprAt s l []) = .error e := by
  have primary : ∃ e, plain (exprAt s .primary []) = .error e := ⟨_, by rw [exprAt]; rfl⟩
  have calls : ∃ e, plain (exprAt s .calls []) = .error e := by
    obtain ⟨e, h⟩ := primary
    exact ⟨e, by rw [plain_calls, h]; rfl⟩
  have unary : ∃ e, plain (exprAt s .unary []) = .error e := by
    obtain ⟨e, h⟩ := calls
    exact ⟨e, by rw [exprAt]; exact h⟩
  have row {k : Level} (hk : k.isRow = true) (h : ∃ e, plain (exprAt s k.operands []) = .error e) :
      ∃ e, plain (exprAt s k []) = .error e := by
    obtain ⟨e, h⟩ := h
    exact ⟨e, by rw [plain_row s hk, h]; rfl⟩
  have sum := row (k := .sum) rfl (row (k := .product) rfl unary)
  have comparison : ∃ e, plain (exprAt s .comparison []) = .error e := by
    obtain ⟨e, h⟩ := sum
    exact ⟨e, by rw [plain_comparison, h]; rfl⟩
  have not : ∃ e, plain (exprAt s .not []) = .error e := by
    obtain ⟨e, h⟩ := comparison
    exact ⟨e, by rw [exprAt]; exact h⟩
  cases l with
  | or => exact row rfl (row (k := .and) rfl not)
  | and => exact row rfl not
  | not => exact not
  | comparison => exact comparison
  | sum => exact sum
  | product => exact row rfl unary
  | unary => exact unary
  | calls => exact calls
  | primary => exact primary

end ClassLang.Grammar
