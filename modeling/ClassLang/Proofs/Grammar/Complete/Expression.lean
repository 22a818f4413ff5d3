import ClassLang.Proofs.Grammar.Plain.Expression
import ClassLang.Proofs.Grammar.Spelling

/-!
What the tokens of an expression spell is read from them, where what follows does not carry the
expression on. A reader that goes on for as long as it can never takes a token that a phrase around
it needs.
-/

namespace ClassLang.Grammar

variable {s : Scope} {ts rest : List Token} {e : Expr} {l : Level}

/-- The rank of the first level whose expressions a token carries on. -/
def carryRank? : Kind → Option Nat
  | .keyword .or => some 8
  | .keyword .and => some 7
  | .equal | .notEqual | .lessOrEqual | .greaterOrEqual => some 5
  | .symbol '<' | .symbol '>' => some 5
  | .symbol '+' | .symbol '-' => some 4
  | .symbol '*' | .symbol '/' => some 3
  | .symbol '(' => some 2
  | .symbol '.' => some 1
  | _ => none

/-- Holds where the next token carries no expression of a level on. -/
def Ends (l : Level) (ts : List Token) : Prop :=
  ∀ t ∈ ts.head?, ∀ n ∈ carryRank? t.kind, l.rank < n

theorem Ends.mono {k : Level} (h : Ends l ts) (hk : k.rank ≤ l.rank) : Ends k ts := by
  intro t ht n hn
  have := h t ht n hn
  omega

theorem Ends.nil : Ends l [] := by
  intro t ht
  cases ht

theorem Ends.of_carryRank? {t : Token} (h : carryRank? t.kind = none) : Ends l (t :: ts) := by
  intro u hu n hn
  cases hu
  rw [h] at hn
  cases hn

theorem Ends.of_kind {t : Token} {k : Kind} (h : t.kind = k) (hk : carryRank? k = none) :
    Ends l (t :: ts) := .of_carryRank? (h ▸ hk)

theorem Ends.of_rank {t : Token} {n : Nat} (h : carryRank? t.kind = some n) (hn : l.rank < n) :
    Ends l (t :: ts) := by
  intro u hu m hm
  cases hu
  rw [h] at hm
  cases hm
  exact hn

theorem Ends.lt {t : Token} {n : Nat} (h : Ends l (t :: ts)) (hn : carryRank? t.kind = some n) :
    l.rank < n := h t rfl n hn

theorem carryRank?_of_operator? {k : Kind} {build : Expr → Expr → Pos → Expr}
    (h : l.operator? k = some build) : carryRank? k = some l.rank := by
  unfold Level.operator? at h
  split at h <;> first | rfl | cases h

theorem carryRank?_of_comparison? {k : Kind} {op : Comparison} (h : comparison? k = some op) :
    carryRank? k = some 5 := by
  unfold comparison? at h
  split at h <;> first | rfl | cases h

theorem Ends.operator?_eq_none {t : Token} (h : Ends l (t :: ts)) : l.operator? t.kind = none := by
  cases hop : l.operator? t.kind with
  | none => rfl
  | some build =>
    have := h.lt (carryRank?_of_operator? hop)
    omega

theorem Ends.comparison?_eq_none {t : Token} (h : Ends .comparison (t :: ts)) :
    comparison? t.kind = none := by
  cases hop : comparison? t.kind with
  | none => rfl
  | some op =>
    have := h.lt (carryRank?_of_comparison? hop)
    simp only [Level.rank] at this
    omega

theorem Ends.ne_dot {t : Token} (h : Ends l (t :: ts)) (hl : 1 ≤ l.rank) :
    t.kind ≠ .symbol '.' := by
  intro ht
  have := h.lt (n := 1) (by rw [ht]; rfl)
  omega

theorem Ends.ne_paren {t : Token} (h : Ends l (t :: ts)) (hl : 2 ≤ l.rank) :
    t.kind ≠ .symbol '(' := by
  intro ht
  have := h.lt (n := 2) (by rw [ht]; rfl)
  omega

namespace Level

/-- The level that has to end so that nothing of a level is taken in front of what follows. -/
def inner (l : Level) : Level :=
  if l.isRow ∨ l = .calls then l.operands else l

theorem rank_inner_le (l : Level) : l.inner.rank ≤ l.rank := by cases l <;> decide

theorem rank_operands_le_inner (l : Level) : l.operands.rank ≤ l.inner.rank := by
  cases l <;> decide

end Level

theorem goOn_of_ends (h : Ends l rest) : goOn s l e rest = .ok (e, rest) := by
  unfold goOn
  split
  · cases rest with
    | nil => exact plain_chain_nil s l e
    | cons t r => rw [plain_chain, h.operator?_eq_none]
  · split
    · rename_i hl
      subst hl
      cases rest with
      | nil => exact plain_methodCalls_nil s e
      | cons t r => rw [plain_methodCalls, if_neg (h.ne_dot (by decide))]
    · rfl

theorem goOn_row (h : l.isRow = true) : goOn s l e ts = plain (chain s l e ts) := if_pos h

theorem goOn_calls : goOn s .calls e ts = plain (methodCalls s e ts) := rfl

/-! First tokens -/

/-- The rank of the first level that has expressions with a given first token. -/
def startRank? : Kind → Option Nat
  | .keyword .not => some 6
  | .symbol '-' => some 2
  | .symbol '(' | .word _ => some 0
  | k => (literal? k).map fun _ => 0

/-- Holds of tokens that begin as an expression of a level does. -/
def Begins (l : Level) (ts : List Token) : Prop :=
  ∃ t r n, ts = t :: r ∧ startRank? t.kind = some n ∧ n ≤ l.rank

theorem Begins.of_kind {t : Token} {k : Kind} {n : Nat} (h : t.kind = k)
    (hk : startRank? k = some n) (hn : n ≤ l.rank) : Begins l (t :: ts) :=
  ⟨t, ts, n, rfl, h ▸ hk, hn⟩

theorem Begins.mono {k : Level} (h : Begins k ts) (hk : k.rank ≤ l.rank) : Begins l ts := by
  obtain ⟨t, r, n, rfl, ht, hn⟩ := h
  exact ⟨t, r, n, rfl, ht, by omega⟩

theorem startRank?_of_literal? {k : Kind} {value : Literal} (h : literal? k = some value) :
    startRank? k = some 0 := by
  unfold literal? at h
  split at h <;> first | rfl | cases h

theorem Spells.begins {known : String → Bool} {l : Level} {ts rest : List Token} {e : Expr} :
    Spells known l ts e rest → Begins l ts
  | .literal h => ⟨_, _, 0, rfl, startRank?_of_literal? h, Nat.zero_le _⟩
  | .paren ht _ _ => .of_kind ht rfl (Nat.zero_le _)
  | .conversion ht _ _ => .of_kind ht rfl (Nat.zero_le _)
  | .construction ht _ _ _ _ => .of_kind ht rfl (Nat.zero_le _)
  | .dottedCall ht _ _ _ => .of_kind ht rfl (Nat.zero_le _)
  | .methodCall he _ _ _ _ => he.begins
  | .name ht _ => .of_kind ht rfl (Nat.zero_le _)
  | .minus ht _ => .of_kind ht rfl (Nat.le_refl _)
  | .compare hl _ _ => hl.begins.mono (by decide)
  | .negation ht _ => .of_kind ht rfl (Nat.le_refl _)
  | .row hl _ _ _ => hl.begins
  | .operand _ he => he.begins.mono (Level.rank_operands_le_self _)

theorem Begins.ne_nil (h : Begins l ts) : ts ≠ [] := by
  obtain ⟨t, r, n, rfl, -, -⟩ := h
  exact List.cons_ne_nil t r

/-- The first token is none that begins no expression. -/
theorem Begins.ne_kind {t : Token} {k : Kind} (h : Begins l (t :: ts))
    (hk : startRank? k = none) : t.kind ≠ k := by
  rintro rfl
  obtain ⟨u, r, n, heq, hu, -⟩ := h
  cases heq
  rw [hk] at hu
  cases hu

/-- The first token is none that begins expressions of looser levels only. -/
theorem Begins.ne_kind_of_lt {t : Token} {k : Kind} {n : Nat} (h : Begins l (t :: ts))
    (hk : startRank? k = some n) (hn : l.rank < n) : t.kind ≠ k := by
  rintro rfl
  obtain ⟨u, r, m, heq, hu, hm⟩ := h
  cases heq
  rw [hk] at hu
  cases hu
  omega

/-! Reading at each level -/

theorem fieldNames_of_spells {names : List String} (h : SpellsFields ts names rest)
    (hr : ∀ t ∈ rest.head?, t.kind ≠ .symbol '.') : fieldNames ts = (names, rest) := by
  induction h with
  | nil =>
    rename_i r
    match r, hr with
    | [], _ => rfl
    | [_], _ => rfl
    | t :: u :: us, hr => rw [fieldNames, if_neg (hr t rfl)]
  | cons ht hu _ ih =>
    rw [fieldNames, if_pos ht, hu]
    simp only [ih hr]

theorem dottedCall_of_fields {root method : String} {fields : List String} {args : List Expr}
    {pos callPos : Pos} :
    dottedCall s root (fields ++ [method]) args pos callPos =
      .ok (.call (.name (root :: fields) pos) method args callPos) := by
  rw [dottedCall, List.getLast?_concat]
  simp only []
  rw [List.dropLast_concat]

theorem primary_of_word {t u : Token} {us : List Token} {root : String} {fields : List String}
    {args : List Expr} (ht : t.kind = .word root) (hf : SpellsFields ts fields (u :: us))
    (hu : u.kind = .symbol '(') (ha : plain (arguments s us) = .ok (args, rest))
    (he : dottedCall s root fields args t.pos u.pos = .ok e) :
    plain (exprAt s .primary (t :: ts)) = .ok (e, rest) := by
  have hfields : fieldNames ts = (fields, u :: us) := by
    apply fieldNames_of_spells hf
    intro v hv
    cases hv
    rw [hu]
    decide
  rw [plain_primary_word ht, hfields]
  simp only [if_pos hu, ha, ok_bind, he]

/-- A level without operators of its own in front hands over to the next one. -/
theorem exprAt_operand (hne : l ≠ .primary) (hb : Begins l.operands ts)
    (h : plain (exprAt s l.operands ts) = .ok (e, rest)) (hr : Ends l.inner rest) :
    plain (exprAt s l ts) = goOn s l e rest := by
  obtain ⟨t, r, n, rfl, -, -⟩ := id hb
  cases l with
  | or | and | sum | product => rw [plain_row s rfl, h, ok_bind, goOn_row rfl]
  | not =>
    rw [plain_not, if_neg (hb.ne_kind_of_lt rfl (by decide))]
    exact h
  | comparison =>
    rw [Level.operands] at h
    rw [plain_comparison, h, ok_bind]
    cases rest with
    | nil => rfl
    | cons u us =>
      have hnone := Ends.comparison?_eq_none hr
      simp only [hnone]
      rfl
  | unary =>
    rw [plain_unary, if_neg (hb.ne_kind_of_lt rfl (by decide))]
    exact h
  | calls =>
    rw [Level.operands] at h
    rw [plain_calls, h, ok_bind, goOn_calls]
  | primary => exact absurd rfl hne

theorem exprAt_name {t : Token} {root : String} {fields : List String} (ht : t.kind = .word root)
    (hf : SpellsFields ts fields rest) (hr : Ends .unary rest) :
    plain (exprAt s .unary (t :: ts)) = .ok (.name (root :: fields) t.pos, rest) := by
  have hfields : fieldNames ts = (fields, rest) := by
    apply fieldNames_of_spells hf
    intro u hu
    cases rest with
    | nil => cases hu
    | cons v vs =>
      cases hu
      exact hr.ne_dot (by decide)
  have hprimary : plain (exprAt s .primary (t :: ts)) =
      .ok (.name (root :: fields) t.pos, rest) := by
    rw [plain_primary_word ht, hfields]
    cases rest with
    | nil => rfl
    | cons v vs => exact if_neg (hr.ne_paren (by decide))
  have hminus : t.kind ≠ .symbol '-' := by
    rw [ht]
    exact Kind.noConfusion
  rw [plain_unary, if_neg hminus, plain_calls, hprimary, ok_bind]
  exact goOn_of_ends (l := .calls) (hr.mono (by decide))

theorem exprAt_methodCall {t u v : Token} {us : List Token} {method : String} {args : List Expr}
    (h : plain (exprAt s .calls ts) = goOn s .calls e (t :: u :: v :: us))
    (ht : t.kind = .symbol '.') (hu : u.kind = .word method) (hv : v.kind = .symbol '(')
    (ha : plain (arguments s us) = .ok (args, rest)) :
    plain (exprAt s .calls ts) = goOn s .calls (.call e method args t.pos) rest := by
  have hword : plain (expectWord s .methodName (u :: v :: us)) = .ok (method, v :: us) :=
    plain_expectWord.2 ⟨u, rfl, hu⟩
  have hopen : plain (expect s (.symbol '(') .argumentList (v :: us)) = .ok (v, us) :=
    plain_expect.2 ⟨rfl, hv⟩
  rw [h, goOn_calls, plain_methodCalls, if_pos ht, hword, ok_bind, hopen, ok_bind, ha, ok_bind]
  rfl

theorem exprAt_compare {t : Token} {us : List Token} {op : Comparison} {left right : Expr}
    (hl : plain (exprAt s .sum ts) = .ok (left, t :: us)) (hop : comparison? t.kind = some op)
    (hr : plain (exprAt s .sum us) = .ok (right, rest)) :
    plain (exprAt s .comparison ts) = .ok (.compare op left right t.pos, rest) := by
  rw [plain_comparison, hl, ok_bind]
  simp only [hop, hr, ok_bind]

theorem exprAt_row {t : Token} {us : List Token} {build : Expr → Expr → Pos → Expr}
    {left right : Expr} (hl : plain (exprAt s l ts) = goOn s l left (t :: us))
    (hop : l.operator? t.kind = some build)
    (hr : plain (exprAt s l.operands us) = .ok (right, rest)) :
    plain (exprAt s l ts) = goOn s l (build left right t.pos) rest := by
  have hrow := Level.isRow_of_operator? hop
  rw [hl, goOn_row hrow, plain_chain]
  simp only [hop, hr, ok_bind]
  rw [goOn_row hrow]

theorem arguments_of_list {t : Token} {es : List Expr} (hb : Begins .or ts)
    (h : plain (exprList s ts) = .ok (es, t :: rest)) (ht : t.kind = .symbol ')') :
    plain (arguments s ts) = .ok (es, rest) := by
  obtain ⟨u, r, n, rfl, -, -⟩ := id hb
  have hclose : plain (expectSymbol s ')' (t :: rest)) = .ok (t, rest) :=
    plain_expectSymbol.2 ⟨rfl, ht⟩
  rw [plain_arguments, if_neg (hb.ne_kind rfl), h, ok_bind, hclose]
  rfl

theorem SpellsList.begins {known : String → Bool} {es : List Expr}
    (h : SpellsList known ts es rest) : Begins .or ts := by
  cases h with
  | one he => exact he.begins
  | cons he _ _ => exact he.begins

/-- Where a level ends, nothing is left to go on with. -/
theorem read_of_goOn (h : Ends l.inner rest → plain (exprAt s l ts) = goOn s l e rest)
    (hr : Ends l rest) : plain (exprAt s l ts) = .ok (e, rest) := by
  rw [h (hr.mono l.rank_inner_le), goOn_of_ends hr]

mutual

/-- What is spelled at a level is read there, up to what follows it at that level. -/
theorem exprAt_of_spells (s : Scope) {l : Level} {ts rest : List Token} {e : Expr} :
    Spells s.constructs l ts e rest → Ends l.inner rest →
      plain (exprAt s l ts) = goOn s l e rest
  | .literal h, _ => plain_primary_literal h _
  | .paren ht he hu, _ => by
    have hinner := read_of_goOn (exprAt_of_spells s he) (.of_kind hu rfl)
    have hclose : plain (expectSymbol s ')' (_ :: rest)) = .ok (_, rest) :=
      plain_expectSymbol.2 ⟨rfl, hu⟩
    rw [plain_primary_paren ht, hinner, ok_bind, hclose]
    rfl
  | .conversion ht hu ha, _ =>
    primary_of_word ht .nil hu (arguments_of_spells s ha) rfl
  | .construction ht hstr hknown hu ha, _ => by
    apply primary_of_word ht .nil hu (arguments_of_spells s ha)
    rw [dottedCall, List.getLast?_nil]
    simp only [bareCall, if_neg hstr, if_pos hknown]
  | .dottedCall ht hf hu ha, _ =>
    primary_of_word ht hf hu (arguments_of_spells s ha) dottedCall_of_fields
  | .methodCall he ht hu hv ha, _ =>
    exprAt_methodCall (exprAt_of_spells s he (.of_rank (n := 1) (by rw [ht]; rfl) (by decide)))
      ht hu hv (arguments_of_spells s ha)
  | .name ht hf, hr => exprAt_name ht hf hr
  | .minus ht he, hr => by
    rw [plain_unary, if_pos ht, exprAt_of_spells s he hr]
    rfl
  | .compare hl hop hr, hend =>
    exprAt_compare (read_of_goOn (exprAt_of_spells s hl)
      (.of_rank (carryRank?_of_comparison? hop) (by decide))) hop
      (read_of_goOn (exprAt_of_spells s hr) (hend.mono (by decide)))
  | .negation ht he, hr => by
    rw [plain_not, if_pos ht, exprAt_of_spells s he hr]
    rfl
  | .row hl hop hr hbuild, hend => by
    have hrow := Level.isRow_of_operator? hop
    have hrank := Level.rank_operands_lt (Level.ne_primary_of_isRow hrow)
    have hinner : l.inner = l.operands := if_pos (.inl hrow)
    have hleft := exprAt_of_spells s hl
      (.of_rank (carryRank?_of_operator? hop) (by rw [hinner]; exact hrank))
    rw [hinner] at hend
    rw [← hbuild]
    exact exprAt_row hleft hop (read_of_goOn (exprAt_of_spells s hr) hend)
  | .operand hne he, hr =>
    exprAt_operand hne he.begins
      (read_of_goOn (exprAt_of_spells s he) (hr.mono (Level.rank_operands_le_inner _))) hr

theorem arguments_of_spells (s : Scope) {ts rest : List Token} {es : List Expr} :
    SpellsArgs s.constructs ts es rest → plain (arguments s ts) = .ok (es, rest)
  | .nil ht => by rw [plain_arguments, if_pos ht]
  | .list hs ht =>
    arguments_of_list hs.begins (exprList_of_spells s hs (.of_kind ht rfl) (by
      intro u hu
      cases hu
      rw [ht]
      decide)) ht

theorem exprList_of_spells (s : Scope) {ts rest : List Token} {es : List Expr} :
    SpellsList s.constructs ts es rest → Ends .or rest →
      (∀ t ∈ rest.head?, t.kind ≠ .symbol ',') → plain (exprList s ts) = .ok (es, rest)
  | .one he, hr, hc => by
    rw [plain_exprList, read_of_goOn (exprAt_of_spells s he) hr, ok_bind]
    cases rest with
    | nil => rfl
    | cons t r => exact if_neg (hc t rfl)
  | .cons he ht hs, hr, hc => by
    rw [plain_exprList, read_of_goOn (exprAt_of_spells s he) (.of_kind ht rfl), ok_bind]
    simp only [if_pos ht, exprList_of_spells s hs hr hc, ok_bind]

end

/-- What is spelled at a level is read there, where what follows does not carry it on. -/
theorem read_of_spells (h : Spells s.constructs l ts e rest) (hr : Ends l rest) :
    plain (exprAt s l ts) = .ok (e, rest) := read_of_goOn (exprAt_of_spells s h) hr

end ClassLang.Grammar
