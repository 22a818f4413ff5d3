import ClassLang.Proofs.Grammar.Derivation

/-!
Whatever the grammar derives is spelled. What a derivation of a phrase gives depends on the phrase;
`Spelled` says it for each of them, and one induction over derivations carries it.
-/

namespace ClassLang.Grammar

variable {known : String → Bool} {c : Context} {ts us rest : List Token} {l : Level}

/-- The tokens of a dotted name. -/
def SpelledName (us : List Token) : Prop :=
  ∃ t fs root names, us = t :: fs ∧ t.kind = .word root ∧
    ∀ rest, SpellsFields (fs ++ rest) names rest

/-- The tokens of an expression of a level, which may be a dotted name where calls may follow. -/
def SpelledExpr (known : String → Bool) (l : Level) (us : List Token) : Prop :=
  (∀ rest, ∃ e, Spells known l (us ++ rest) e rest) ∨ l.rank ≤ 1 ∧ SpelledName us

theorem SpelledName.spells (h : SpelledName us) (rest : List Token) :
    ∃ path pos, Spells known .unary (us ++ rest) (.name path pos) rest := by
  obtain ⟨t, fs, root, names, rfl, ht, hf⟩ := h
  exact ⟨_, _, .name ht (hf rest)⟩

theorem SpelledExpr.spells (h : SpelledExpr known l us) (hl : 2 ≤ l.rank) (rest : List Token) :
    ∃ e, Spells known l (us ++ rest) e rest := by
  rcases h with h | ⟨hle, -⟩
  · exact h rest
  · omega

theorem spelledExpr_operand (hl : l ≠ .primary) (h : SpelledExpr known l.operands us) :
    SpelledExpr known l us := by
  rcases h with h | ⟨hle, h⟩
  · left
    intro rest
    obtain ⟨e, he⟩ := h rest
    exact ⟨e, .operand hl he⟩
  · by_cases hcalls : l.rank ≤ 1
    · exact .inr ⟨hcalls, h⟩
    · have hunary : l = .unary := by cases l <;> first | rfl | (simp_all [Level.rank, Level.operands])
      subst hunary
      left
      intro rest
      obtain ⟨path, pos, hname⟩ := h.spells rest
      exact ⟨_, hname⟩

/-- A call of a method of a dotted name takes the last field as the method. -/
theorem spells_dottedCall {t u v w : Token} {name : String} {n : Nat} {ts us : List Token}
    (h : SpelledName ts) (ht : t.kind = .symbol '.') (hu : u.kind = .word name)
    (hv : v.kind = .symbol '(')
    (ha : ∀ w rest, w.kind = .symbol ')' →
      ∃ es, es.length = n ∧ SpellsArgs known (us ++ w :: rest) es rest)
    (hw : w.kind = .symbol ')') (rest : List Token) :
    ∃ e, Spells known .primary (ts ++ t :: u :: v :: (us ++ [w]) ++ rest) e rest := by
  obtain ⟨x, fs, root, names, rfl, hx, hf⟩ := h
  obtain ⟨es, -, hes⟩ := ha w rest hw
  have hf' := (hf (t :: u :: v :: (us ++ w :: rest))).join ht hu
  have hsplit : x :: fs ++ t :: u :: v :: (us ++ [w]) ++ rest =
      x :: (fs ++ t :: u :: v :: (us ++ w :: rest)) := by simp
  rw [hsplit]
  exact ⟨_, .dottedCall hx hf' hv hes⟩

/-- What the derivation of a phrase gives. -/
def Spelled (c : Context) : Phrase → List Token → Prop
  | .program, us => ∀ classes : ClassTable, c.Lists classes → c.current = none →
      c.inMethod = false → ∃ body after, SpellsProgram classes us body after
  | .classDef name, us => ∀ (classes : ClassTable) (rest : List Token), c.Lists classes →
      c.current = none → c.inMethod = false → ∃ t ts cls, us = t :: ts ∧
        t.kind = .keyword .class_ ∧ cls.name = name ∧ SpellsClass classes (ts ++ rest) cls rest
  | .parent, us => ∀ (classes : ClassTable) (rest : List Token), c.Lists classes →
      ∃ parent, SpellsParent classes (us ++ rest) parent rest
  | .methods, us => ∀ known, (∀ name, c.Constructs name ↔ known name = true) →
      c.inMethod = false → ∀ t rest, t.kind = .dedent →
        ∃ ms, SpellsMethods known (us ++ t :: rest) ms rest
  | .method, us => ∀ known, (∀ name, c.Constructs name ↔ known name = true) →
      c.inMethod = false → ∀ r rest ms, SpellsMethods known r ms rest →
        ∃ m, SpellsMethods known (us ++ r) (m :: ms) rest
  | .suite, us => ∀ known, (∀ name, c.Constructs name ↔ known name = true) →
      ∀ rest, ∃ st, SpellsSuite known c.inMethod (us ++ rest) st rest
  | .statements, us => ∀ known, (∀ name, c.Constructs name ↔ known name = true) →
      ∀ t rest, t.kind = .dedent → ∃ body, SpellsBlock known c.inMethod (us ++ t :: rest) body rest
  | .statement, us => ∀ known, (∀ name, c.Constructs name ↔ known name = true) →
      ∀ rest, ∃ st, SpellsStmt known c.inMethod (us ++ rest) st rest
  | .simple, us => ∀ known, (∀ name, c.Constructs name ↔ known name = true) →
      ∀ rest, ∃ st, SpellsSimple known c.inMethod (us ++ rest) st rest
  | .target, us => ∀ known rest, ∃ path pos, Spells known .or (us ++ rest) (.name path pos) rest
  | .dotted, us => SpelledName us
  | .exprs n, us => ∀ known, (∀ name, c.Constructs name ↔ known name = true) →
      ∀ rest, ∃ es, es.length = n ∧ SpellsList known (us ++ rest) es rest
  | .args n, us => ∀ known, (∀ name, c.Constructs name ↔ known name = true) →
      ∀ t rest, t.kind = .symbol ')' →
        ∃ es, es.length = n ∧ SpellsArgs known (us ++ t :: rest) es rest
  | .expr l, us => ∀ known, (∀ name, c.Constructs name ↔ known name = true) →
      SpelledExpr known l us

theorem Names.spellsNames {name : String} {names : List String} {t : Token}
    (h : Names ts (name :: names)) (rest : List Token) :
    SpellsNames (ts ++ t :: rest) (name :: names) (t :: rest) := by
  generalize hall : name :: names = all at h
  induction h generalizing name names with
  | nil => cases hall
  | one hk => exact .one hk
  | cons hk hu _ ih => exact .cons hk hu (ih rfl)

theorem Names.spells {names : List String} {t : Token} (h : Names ts names)
    (ht : t.kind = .symbol ')') (hnodup : names.Nodup) (rest : List Token) :
    SpellsParams (ts ++ t :: rest) names rest := by
  cases names with
  | nil =>
    cases h
    exact .nil ht
  | cons name names => exact .list (h.spellsNames rest) ht hnodup

theorem spelled_bareCall {t u v : Token} {name : String} {n : Nat} {ts : List Token}
    (hk : ∀ name, c.Constructs name ↔ known name = true) (ht : t.kind = .word name)
    (hu : u.kind = .symbol '(')
    (ha : ∀ t rest, t.kind = .symbol ')' →
      ∃ es, es.length = n ∧ SpellsArgs known (ts ++ t :: rest) es rest)
    (hv : v.kind = .symbol ')') (hcall : Callable c name n) (rest : List Token) :
    ∃ e, Spells known .primary (t :: u :: (ts ++ [v]) ++ rest) e rest := by
  have hsplit : t :: u :: (ts ++ [v]) ++ rest = t :: u :: (ts ++ v :: rest) := by simp
  rw [hsplit]
  obtain ⟨es, hlen, hes⟩ := ha v rest hv
  rcases hcall with ⟨rfl, rfl⟩ | ⟨hstr, hname⟩
  · obtain ⟨e, rfl⟩ := List.length_eq_one_iff.1 hlen
    exact ⟨_, .conversion ht hu hes⟩
  · exact ⟨_, .construction ht hstr ((hk name).1 hname) hu hes⟩

/-- Whatever is derived is spelled. -/
theorem Derives.spelled {p : Phrase} (h : Derives Callable c p ts) : Spelled c p ts := by
  induction h with
  | programEnd => exact fun classes _ _ _ => ⟨[], classes, .nil⟩
  | programClass _ _ ihClass ih =>
    rename_i c name ts us _ _
    intro classes hc hcur hin
    obtain ⟨t, ts, cls, rfl, ht, rfl, hcls⟩ := ihClass classes us hc hcur hin
    obtain ⟨body, after, hbody⟩ := ih (classes.add cls) hc.define hcur hin
    exact ⟨_, after, .cls ht hcls hbody⟩
  | programStatement _ _ ihStmt ih =>
    rename_i c ts us _ _
    intro classes hc hcur hin
    have hk (name : String) : c.Constructs name ↔ classes.contains name = true := by
      rw [Context.Constructs, hcur, hc name]
      simp
    obtain ⟨st, hst⟩ := ihStmt classes.contains hk us
    obtain ⟨body, after, hbody⟩ := ih classes hc hcur hin
    rw [hin] at hst
    exact ⟨st :: body, after, .stmt hst hbody⟩
  | classDef ht hu hname _ hv hw hx _ hy ihParent ih =>
    rename_i c t u v w x y name ps ms _ _
    intro classes rest hc hcur hin
    have hk (other : String) :
        (c.inside name).Constructs other ↔ knownIn classes name other = true := by
      rw [Context.Constructs, knownIn, Bool.or_eq_true, beq_iff_eq, Context.inside]
      exact or_congr (hc other) Iff.rfl
    obtain ⟨parent, hparent⟩ := ihParent classes (v :: w :: x :: (ms ++ y :: rest)) hc
    obtain ⟨methods, hmethods⟩ := ih (knownIn classes name) hk hin y rest hy
    have hnew : classes.contains name = false := by
      rw [← Bool.not_eq_true, ← hc name]
      exact hname
    have hsplit : u :: (ps ++ v :: w :: x :: (ms ++ [y])) ++ rest =
        u :: (ps ++ v :: w :: x :: (ms ++ y :: rest)) := by simp
    refine ⟨t, _, ⟨name, keptMethods methods, parent⟩, rfl, ht, rfl, ?_⟩
    rw [hsplit]
    exact .intro hu hnew hparent hv hw hx hmethods
  | noParent => exact fun classes rest _ => ⟨none, .none⟩
  | parent ht hu hv hname =>
    intro classes rest hc
    have hcontains := (hc _).1 hname
    obtain ⟨parent, hget⟩ := Option.isSome_iff_exists.1 hcontains
    exact ⟨some parent, .some ht hu hv hget⟩
  | noMethods => exact fun known _ _ t rest ht => ⟨[], .nil ht⟩
  | methods _ _ ihMethod ih =>
    intro known hk hin t rest ht
    obtain ⟨ms, hms⟩ := ih known hk hin t rest ht
    obtain ⟨m, hm⟩ := ihMethod known hk hin _ rest ms hms
    rw [← List.append_assoc] at hm
    exact ⟨m :: ms, hm⟩
  | method ht hu hv hnames hnodup hw hx _ ih =>
    rename_i c t u v w x name params ps ts _
    intro known hk hin r rest ms hms
    obtain ⟨body, hbody⟩ := ih known hk r
    have hsplit : t :: u :: v :: (ps ++ w :: x :: ts) ++ r =
        t :: u :: v :: (ps ++ w :: x :: (ts ++ r)) := by simp
    rw [hsplit]
    exact ⟨_, .cons ht hu hv (hnames.spells hw hnodup _) hx hbody hms⟩
  | suite ht hu _ hv ih =>
    rename_i c t u v ts _
    intro known hk rest
    obtain ⟨body, hbody⟩ := ih known hk v rest hv
    have hsplit : t :: u :: (ts ++ [v]) ++ rest = t :: u :: (ts ++ v :: rest) := by simp
    rw [hsplit]
    exact ⟨_, .block ht hu hbody⟩
  | noStatements => exact fun known _ t rest ht => ⟨[], .nil ht⟩
  | statements _ _ ihStmt ih =>
    intro known hk t rest ht
    obtain ⟨body, hbody⟩ := ih known hk t rest ht
    obtain ⟨st, hst⟩ := ihStmt known hk (_ ++ t :: rest)
    rw [← List.append_assoc] at hst
    exact ⟨st :: body, .cons hst hbody⟩
  | simple _ ht ih =>
    intro known hk rest
    obtain ⟨st, hst⟩ := ih known hk (_ :: rest)
    rw [List.append_assoc]
    exact ⟨st, .simple hst ht⟩
  | branch ht _ hu _ ihCond ih =>
    rename_i c t u ts ys _ _
    intro known hk rest
    obtain ⟨cond, hcond⟩ := (ihCond known hk).spells (by decide) (u :: (ys ++ rest))
    obtain ⟨yes, hyes⟩ := ih known hk rest
    have hsplit : t :: (ts ++ u :: ys) ++ rest = t :: (ts ++ u :: (ys ++ rest)) := by simp
    rw [hsplit]
    exact ⟨_, .branch ht hcond hu hyes⟩
  | branchElse ht _ hu _ hv hw _ ihCond ihYes ih =>
    rename_i c t u v w ts ys ns _ _ _
    intro known hk rest
    obtain ⟨cond, hcond⟩ :=
      (ihCond known hk).spells (by decide) (u :: (ys ++ v :: w :: (ns ++ rest)))
    obtain ⟨yes, hyes⟩ := ihYes known hk (v :: w :: (ns ++ rest))
    obtain ⟨no, hno⟩ := ih known hk rest
    have hsplit : t :: (ts ++ u :: (ys ++ v :: w :: ns)) ++ rest =
        t :: (ts ++ u :: (ys ++ v :: w :: (ns ++ rest))) := by simp
    rw [hsplit]
    exact ⟨_, .branchElse ht hcond hu hyes hv hw hno⟩
  | returnNone hin ht => exact fun known _ rest => ⟨_, .giveNone hin ht⟩
  | returnExpr hin ht _ ih =>
    intro known hk rest
    obtain ⟨e, he⟩ := (ih known hk).spells (by decide) rest
    exact ⟨_, .give hin ht he⟩
  | printNone ht => exact fun known _ rest => ⟨_, .printNone ht⟩
  | printExprs ht _ ih =>
    intro known hk rest
    obtain ⟨es, -, hes⟩ := ih known hk rest
    exact ⟨_, .print ht hes⟩
  | assign _ ht _ ihTarget ih =>
    rename_i c t ts us _ _
    intro known hk rest
    obtain ⟨path, pos, hpath⟩ := ihTarget known (t :: (us ++ rest))
    obtain ⟨e, he⟩ := (ih known hk).spells (by decide) rest
    have hsplit : ts ++ t :: us ++ rest = ts ++ t :: (us ++ rest) := by simp
    rw [hsplit]
    exact ⟨_, .assign hpath ht he⟩
  | simpleExpr _ ih =>
    intro known hk rest
    obtain ⟨e, he⟩ := (ih known hk).spells (by decide) rest
    exact ⟨_, .expr he⟩
  | target _ ih =>
    intro known rest
    obtain ⟨path, pos, hname⟩ := ih.spells rest
    exact ⟨path, pos, hname.lift (by decide)⟩
  | targetParen ht _ hu ih =>
    intro known rest
    obtain ⟨path, pos, hpath⟩ := ih known (_ :: rest)
    refine ⟨path, pos, ?_⟩
    rw [List.cons_append, List.append_assoc]
    exact Spells.lift (.paren ht hpath hu) (by decide)
  | dottedOne ht => exact ⟨_, [], _, [], rfl, ht, fun _ => .nil⟩
  | dottedMore _ ht hu ih =>
    rename_i c t u name ts _
    obtain ⟨x, fs, root, names, rfl, hx, hf⟩ := ih
    refine ⟨x, fs ++ [t, u], root, names ++ [name], rfl, hx, fun rest => ?_⟩
    rw [List.append_assoc]
    exact (hf _).join ht hu
  | exprsOne _ ih =>
    intro known hk rest
    obtain ⟨e, he⟩ := (ih known hk).spells (by decide) rest
    exact ⟨[e], rfl, .one he⟩
  | exprsMore _ ht _ ihFirst ih =>
    rename_i c t n ts us _ _
    intro known hk rest
    obtain ⟨e, he⟩ := (ihFirst known hk).spells (by decide) (t :: (us ++ rest))
    obtain ⟨es, rfl, hes⟩ := ih known hk rest
    have hsplit : ts ++ t :: us ++ rest = ts ++ t :: (us ++ rest) := by simp
    rw [hsplit]
    exact ⟨e :: es, rfl, .cons he ht hes⟩
  | noArgs => exact fun known _ t rest ht => ⟨[], rfl, .nil ht⟩
  | args _ ih =>
    intro known hk t rest ht
    obtain ⟨es, hlen, hes⟩ := ih known hk (t :: rest)
    exact ⟨es, hlen, .list hes ht⟩
  | operand hl _ ih => exact fun known hk => spelledExpr_operand hl (ih known hk)
  | row _ hop _ ihLeft ih =>
    rename_i c t l ts us _ _
    intro known hk
    left
    intro rest
    obtain ⟨build, hbuild⟩ := mem_rowOperators.1 hop
    have hrow := Level.isRow_of_operator? hbuild
    have hrank := Level.two_le_rank_of_isRow hrow
    have hle := l.rank_operands_le_self
    obtain ⟨left, hleft⟩ := (ihLeft known hk).spells (by omega) (t :: (us ++ rest))
    obtain ⟨right, hright⟩ := (ih known hk).spells hrank rest
    have hsplit : ts ++ t :: us ++ rest = ts ++ t :: (us ++ rest) := by simp
    rw [hsplit]
    exact ⟨_, .row hleft hbuild hright rfl⟩
  | not ht _ ih =>
    intro known hk
    left
    intro rest
    obtain ⟨e, he⟩ := (ih known hk).spells (by decide) rest
    exact ⟨_, .negation ht he⟩
  | comparison _ hop _ ihLeft ih =>
    rename_i c t ts us _ _
    intro known hk
    left
    intro rest
    obtain ⟨op, hop⟩ := mem_comparisonOperators.1 hop
    obtain ⟨left, hleft⟩ := (ihLeft known hk).spells (by decide) (t :: (us ++ rest))
    obtain ⟨right, hright⟩ := (ih known hk).spells (by decide) rest
    have hsplit : ts ++ t :: us ++ rest = ts ++ t :: (us ++ rest) := by simp
    rw [hsplit]
    exact ⟨_, .compare hleft hop hright⟩
  | minus ht _ ih =>
    intro known hk
    left
    intro rest
    obtain ⟨e, he⟩ := (ih known hk).spells (by decide) rest
    exact ⟨_, .minus ht he⟩
  | methodCall _ ht hu hv _ hw ihRecv ih =>
    rename_i c t u v w name n ts us _ _
    intro known hk
    left
    intro rest
    rcases ihRecv known hk with hrecv | ⟨-, hrecv⟩
    · obtain ⟨e, he⟩ := hrecv (t :: u :: v :: (us ++ w :: rest))
      obtain ⟨es, -, hes⟩ := ih known hk w rest hw
      have hsplit : ts ++ t :: u :: v :: (us ++ [w]) ++ rest =
          ts ++ t :: u :: v :: (us ++ w :: rest) := by simp
      rw [hsplit]
      exact ⟨_, .methodCall he ht hu hv hes⟩
    · obtain ⟨e, he⟩ := spells_dottedCall hrecv ht hu hv (ih known hk) hw rest
      exact ⟨e, .operand (by decide) he⟩
  | literal ht =>
    intro known hk
    left
    intro rest
    obtain ⟨value, hvalue⟩ := isLiteral_iff.1 ht
    exact ⟨_, .literal hvalue⟩
  | paren ht _ hu ih =>
    intro known hk
    left
    intro rest
    obtain ⟨e, he⟩ := (ih known hk).spells (by decide) (_ :: rest)
    rw [List.cons_append, List.append_assoc]
    exact ⟨e, .paren ht he hu⟩
  | bareCall ht hu _ hv hcall ih =>
    exact fun known hk => .inl (spelled_bareCall hk ht hu (ih known hk) hv hcall)
  | name _ ih => exact fun known _ => .inr ⟨by decide, ih⟩
  | dottedCall _ ht hu hv _ hw ihName ih =>
    exact fun known hk => .inl (spells_dottedCall ihName ht hu hv (ih known hk) hw)

/-- The grammar derives exactly the programs that can be spelled. -/
theorem derives_program_iff {classes : ClassTable} {names : List String}
    (hc : (Context.top names).Lists classes) :
    Derives Callable (Context.top names) .program ts ↔
      ∃ body after, SpellsProgram classes ts body after := by
  constructor
  · exact fun h => h.spelled classes hc rfl rfl
  · rintro ⟨body, after, h⟩
    exact h.derives hc

end ClassLang.Grammar
