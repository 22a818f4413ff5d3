import ClassLang.Proofs.Grammar.Plain.Statement
import ClassLang.Proofs.Grammar.Spelling

/-!
What the readers of expressions read is spelled by the tokens they take.
-/

namespace ClassLang.Grammar

variable {s : Scope} {ts rest : List Token} {e : Expr}

/-- Holds where no further field follows. -/
def NoField : List Token → Prop
  | t :: u :: _ => t.kind = .symbol '.' → ∀ name, u.kind ≠ .word name
  | _ => True

theorem spellsFields_fieldNames (ts : List Token) :
    SpellsFields ts (fieldNames ts).1 (fieldNames ts).2 := by
  fun_induction fieldNames ts with
  | case1 t u ts hdot name hname more ih => exact .cons hdot hname ih
  | case2 | case3 | case4 => exact .nil

theorem noField_fieldNames (ts : List Token) : NoField (fieldNames ts).2 := by
  fun_induction fieldNames ts with
  | case1 t u ts hdot name hname more ih => exact ih
  | case2 t u ts hdot hname => exact fun _ name h => hname name h
  | case3 t u ts hdot => exact fun h => absurd h hdot
  | case4 ts hts =>
    cases ts with
    | nil => trivial
    | cons t us =>
      cases us with
      | nil => trivial
      | cons u us => exact absurd rfl (hts t u us)

/-- A dotted name by itself, as far as it goes. -/
def SpellsName (ts : List Token) (e : Expr) (rest : List Token) : Prop :=
  ∃ t us root fields, ts = t :: us ∧ t.kind = .word root ∧ SpellsFields us fields rest ∧
    NoField rest ∧ e = .name (root :: fields) t.pos

theorem spells_of_name {known : String → Bool} (h : SpellsName ts e rest) :
    Spells known .unary ts e rest := by
  obtain ⟨t, us, root, fields, rfl, ht, hf, -, rfl⟩ := h
  exact .name ht hf

/-- No calls follow a dotted name. -/
theorem methodCalls_of_noField {e' : Expr} (hn : NoField ts)
    (h : plain (methodCalls s e ts) = .ok (e', rest)) : e' = e ∧ rest = ts := by
  cases ts with
  | nil =>
    rw [plain_methodCalls_nil] at h
    cases h
    exact ⟨rfl, rfl⟩
  | cons t us =>
    rw [plain_methodCalls] at h
    split at h
    · rename_i hdot
      rw [bind_eq_ok] at h
      obtain ⟨⟨method, mid⟩, h₁, -⟩ := h
      obtain ⟨u, rfl, hu⟩ := plain_expectWord.1 h₁
      exact absurd hu (hn hdot method)
    · cases h
      exact ⟨rfl, rfl⟩

/-- A call by a name is a conversion, a construction, or the call of a method of a field. -/
theorem spells_of_dottedCall {t u : Token} {root : String} {us vs : List Token}
    {args : List Expr} (ht : t.kind = .word root) (hf : (fieldNames ts).2 = u :: us)
    (hu : u.kind = .symbol '(') (ha : SpellsArgs s.constructs us args vs)
    (h : dottedCall s root (fieldNames ts).1 args t.pos u.pos = .ok e) :
    Spells s.constructs .primary (t :: ts) e vs := by
  have hfields := spellsFields_fieldNames ts
  rw [hf] at hfields
  generalize (fieldNames ts).1 = fields at h hfields
  unfold dottedCall at h
  split at h
  · rename_i hlast
    obtain rfl := List.getLast?_eq_none_iff.1 hlast
    cases hfields
    unfold bareCall at h
    split at h
    · rename_i hstr
      subst hstr
      split at h
      · cases h
        exact .conversion ht hu ha
      · cases h
    · rename_i hstr
      split at h
      · rename_i hknown
        cases h
        exact .construction ht hstr hknown hu ha
      · cases h
  · rename_i method hlast
    obtain ⟨fs, rfl⟩ := List.getLast?_eq_some_iff.1 hlast
    cases h
    rw [List.dropLast_concat]
    exact .dottedCall ht hfields hu ha

/-- What is read at a level is spelled there, except that a dotted name by itself is spelled at the
unary level first. -/
def ReadsAs (s : Scope) (l : Level) (ts : List Token) (e : Expr) (rest : List Token) : Prop :=
  Spells s.constructs l ts e rest ∨ l.rank ≤ 1 ∧ SpellsName ts e rest

theorem ReadsAs.spells {l : Level} (h : ReadsAs s l ts e rest) (hl : 2 ≤ l.rank) :
    Spells s.constructs l ts e rest := by
  rcases h with h | ⟨h, -⟩
  · exact h
  · omega

mutual

theorem readsAs_of_exprAt (s : Scope) (l : Level) (ts : List Token) {e : Expr} {rest : List Token}
    (h : plain (exprAt s l ts) = .ok (e, rest)) : ReadsAs s l ts e rest := by
  match ts, h with
  | [], h =>
    obtain ⟨_, h'⟩ := plain_exprAt_nil s l
    rw [h'] at h
    cases h
  | t :: r, h =>
    by_cases hrow : l.isRow = true
    · have hlt := Level.rank_operands_lt (Level.ne_primary_of_isRow hrow)
      rw [plain_row s hrow, bind_eq_ok] at h
      obtain ⟨⟨left, mid⟩, h₁, h₂⟩ := h
      have hmid := length_lt_of_plain h₁
      have hleft := (readsAs_of_exprAt s l.operands (t :: r) h₁).spells
        (Level.two_le_rank_of_isRow hrow)
      have hleft := Spells.operand (Level.ne_primary_of_isRow hrow) hleft
      exact .inl (spells_of_chain s l mid hleft h₂)
    · match l, hrow, h with
      | .not, _, h =>
        rw [plain_not] at h
        split at h
        · rename_i hnot
          rw [bind_eq_ok] at h
          obtain ⟨⟨operand, mid⟩, h₁, h₂⟩ := h
          cases h₂
          exact .inl (.negation hnot ((readsAs_of_exprAt s .not r h₁).spells (by decide)))
        · have h' := (readsAs_of_exprAt s .comparison (t :: r) h).spells (by decide)
          exact .inl (.operand (by decide) h')
      | .comparison, _, h =>
        rw [plain_comparison, bind_eq_ok] at h
        obtain ⟨⟨left, mid⟩, h₁, h₂⟩ := h
        have hmid := length_lt_of_plain h₁
        have hleft := (readsAs_of_exprAt s .sum (t :: r) h₁).spells (by decide)
        match mid, hmid, hleft, h₂ with
        | [], _, hleft, h₂ =>
          cases h₂
          exact .inl (.operand (by decide) hleft)
        | u :: us, hmid, hleft, h₂ =>
          simp only [] at h₂
          split at h₂
          · cases h₂
            exact .inl (.operand (by decide) hleft)
          · rename_i op hop
            rw [bind_eq_ok] at h₂
            obtain ⟨⟨right, last⟩, h₃, h₄⟩ := h₂
            cases h₄
            exact .inl (.compare hleft hop ((readsAs_of_exprAt s .sum us h₃).spells (by decide)))
      | .unary, _, h =>
        rw [plain_unary] at h
        split at h
        · rename_i hminus
          rw [bind_eq_ok] at h
          obtain ⟨⟨operand, mid⟩, h₁, h₂⟩ := h
          cases h₂
          exact .inl (.minus hminus ((readsAs_of_exprAt s .unary r h₁).spells (by decide)))
        · rcases readsAs_of_exprAt s .calls (t :: r) h with h | ⟨-, h⟩
          · exact .inl (.operand (by decide) h)
          · exact .inl (spells_of_name h)
      | .calls, _, h =>
        rw [plain_calls, bind_eq_ok] at h
        obtain ⟨⟨receiver, mid⟩, h₁, h₂⟩ := h
        have hmid := length_lt_of_plain h₁
        rcases readsAs_of_exprAt s .primary (t :: r) h₁ with h | ⟨-, h⟩
        · exact .inl (spells_of_methodCalls s mid (.operand (by decide) h) h₂)
        · obtain ⟨-, -, -, -, -, -, -, hno, -⟩ := id h
          obtain ⟨rfl, rfl⟩ := methodCalls_of_noField hno h₂
          exact .inr ⟨by decide, h⟩
      | .primary, _, h =>
        by_cases hlit : ∃ value, literal? t.kind = some value
        · obtain ⟨value, hlit⟩ := hlit
          rw [plain_primary_literal hlit] at h
          cases h
          exact .inl (.literal hlit)
        by_cases hparen : t.kind = .symbol '('
        · rw [plain_primary_paren hparen, bind_eq_ok] at h
          obtain ⟨⟨inner, mid⟩, h₁, h₂⟩ := h
          rw [bind_eq_ok] at h₂
          obtain ⟨⟨u, last⟩, h₃, h₄⟩ := h₂
          cases h₄
          obtain ⟨rfl, hu⟩ := plain_expectSymbol.1 h₃
          exact .inl (.paren hparen ((readsAs_of_exprAt s .or r h₁).spells (by decide)) hu)
        by_cases hword : ∃ root, t.kind = .word root
        · obtain ⟨root, hword⟩ := hword
          have hle := length_fieldNames_le r
          have hfields := spellsFields_fieldNames r
          have hno := noField_fieldNames r
          rw [plain_primary_word hword] at h
          split at h
          · rename_i hend
            rw [hend] at hfields hno
            cases h
            exact .inr ⟨by decide, t, r, root, _, rfl, hword, hfields, hno, rfl⟩
          · rename_i u us hmid
            have hus : us.length < r.length := by
              rw [hmid, List.length_cons] at hle
              omega
            split at h
            · rename_i hu
              rw [bind_eq_ok] at h
              obtain ⟨⟨args, last⟩, h₁, h₂⟩ := h
              rw [bind_eq_ok] at h₂
              obtain ⟨call, h₃, h₄⟩ := h₂
              cases h₄
              exact .inl (spells_of_dottedCall hword hmid hu (spellsArgs_of_arguments s us h₁) h₃)
            · rw [hmid] at hfields hno
              cases h
              exact .inr ⟨by decide, t, r, root, _, rfl, hword, hfields, hno, rfl⟩
        · have hnone : literal? t.kind = none := by
            cases hk : literal? t.kind with
            | none => rfl
            | some value => exact absurd ⟨value, hk⟩ hlit
          rw [plain_primary_other hnone hparen fun root hr => hword ⟨root, hr⟩] at h
          cases h
termination_by ts.length * 12 + l.rank
decreasing_by
  all_goals simp only [Level.rank, List.length_cons] at *
  all_goals omega

theorem spells_of_chain (s : Scope) (l : Level) (mid : List Token) {ts rest : List Token}
    {left e : Expr} (hleft : Spells s.constructs l ts left mid)
    (h : plain (chain s l left mid) = .ok (e, rest)) : Spells s.constructs l ts e rest := by
  match mid, hleft, h with
  | [], hleft, h =>
    rw [plain_chain_nil] at h
    cases h
    exact hleft
  | t :: r, hleft, h =>
    rw [plain_chain] at h
    split at h
    · cases h
      exact hleft
    · rename_i build hop
      have hrow := Level.isRow_of_operator? hop
      have hle := Level.rank_operands_le l
      rw [bind_eq_ok] at h
      obtain ⟨⟨right, last⟩, h₁, h₂⟩ := h
      have hlast := length_lt_of_plain h₁
      have hright := (readsAs_of_exprAt s l.operands r h₁).spells
        (Level.two_le_rank_of_isRow hrow)
      exact spells_of_chain s l last (.row hleft hop hright rfl) h₂
termination_by mid.length * 12
decreasing_by
  all_goals simp only [List.length_cons] at *
  all_goals omega

theorem spells_of_methodCalls (s : Scope) (mid : List Token) {ts rest : List Token}
    {receiver e : Expr} (hr : Spells s.constructs .calls ts receiver mid)
    (h : plain (methodCalls s receiver mid) = .ok (e, rest)) :
    Spells s.constructs .calls ts e rest := by
  match mid, hr, h with
  | [], hr, h =>
    rw [plain_methodCalls_nil] at h
    cases h
    exact hr
  | t :: r, hr, h =>
    rw [plain_methodCalls] at h
    split at h
    · rename_i hdot
      rw [bind_eq_ok] at h
      obtain ⟨⟨method, r₁⟩, h₁, h⟩ := h
      rw [bind_eq_ok] at h
      obtain ⟨⟨v, r₂⟩, h₂, h⟩ := h
      rw [bind_eq_ok] at h
      obtain ⟨⟨args, r₃⟩, h₃, h⟩ := h
      have hlt₁ := length_lt_of_plain h₁
      have hlt₂ := length_lt_of_plain h₂
      have hlt₃ := length_lt_of_plain h₃
      obtain ⟨u, rfl, hu⟩ := plain_expectWord.1 h₁
      obtain ⟨rfl, hv⟩ := plain_expect.1 h₂
      exact spells_of_methodCalls s r₃
        (.methodCall hr hdot hu hv (spellsArgs_of_arguments s r₂ h₃)) h
    · cases h
      exact hr
termination_by mid.length * 12
decreasing_by
  all_goals simp only [List.length_cons] at *
  all_goals omega

theorem spellsArgs_of_arguments (s : Scope) (ts : List Token) {es : List Expr}
    {rest : List Token} (h : plain (arguments s ts) = .ok (es, rest)) :
    SpellsArgs s.constructs ts es rest := by
  match ts, h with
  | [], h =>
    rw [arguments] at h
    cases h
  | t :: r, h =>
    rw [plain_arguments] at h
    split at h
    · rename_i hclose
      cases h
      exact .nil hclose
    · rw [bind_eq_ok] at h
      obtain ⟨⟨args, mid⟩, h₁, h⟩ := h
      rw [bind_eq_ok] at h
      obtain ⟨⟨u, last⟩, h₂, h⟩ := h
      cases h
      obtain ⟨rfl, hu⟩ := plain_expectSymbol.1 h₂
      exact .list (spellsList_of_exprList s (t :: r) h₁) hu
termination_by ts.length * 12 + 10

theorem spellsList_of_exprList (s : Scope) (ts : List Token) {es : List Expr}
    {rest : List Token} (h : plain (exprList s ts) = .ok (es, rest)) :
    SpellsList s.constructs ts es rest := by
  rw [plain_exprList, bind_eq_ok] at h
  obtain ⟨⟨e, mid⟩, h₁, h⟩ := h
  have hmid := length_lt_of_plain h₁
  have he := (readsAs_of_exprAt s .or ts h₁).spells (by decide)
  match mid, hmid, he, h with
  | [], _, he, h =>
    cases h
    exact .one he
  | t :: r, hmid, he, h =>
    simp only [] at h
    split at h
    · rename_i hcomma
      rw [bind_eq_ok] at h
      obtain ⟨⟨more, last⟩, h₂, h⟩ := h
      cases h
      exact .cons he hcomma (spellsList_of_exprList s r h₂)
    · cases h
      exact .one he
termination_by ts.length * 12 + 9
decreasing_by
  · simp only [Level.rank]
    omega
  · simp only [List.length_cons] at *
    omega

end

end ClassLang.Grammar
