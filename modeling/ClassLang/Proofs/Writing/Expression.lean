import ClassLang.Proofs.Grammar.Moved

/-!
Expressions as rows of tokens. An expression is written at the level that its place in the grammar
has, and stands in parentheses only where it is of a looser level. Tokens of these kinds, wherever
they stand, spell the expression but for its places.
-/

namespace ClassLang

open Grammar

/-- The kind of token that a literal is. -/
def Literal.kind : Literal → Kind
  | .none => .keyword .none
  | .bool true => .keyword .true
  | .bool false => .keyword .false
  | .number n => .number n
  | .string s => .string s

/-- The kind of token that a comparison is. -/
def Comparison.kind : Comparison → Kind
  | .equal => .equal
  | .notEqual => .notEqual
  | .less => .symbol '<'
  | .greater => .symbol '>'
  | .lessOrEqual => .lessOrEqual
  | .greaterOrEqual => .greaterOrEqual

namespace ArithOp

/-- The kind of token that an arithmetic operator is. -/
def kind : ArithOp → Kind
  | .add => .symbol '+'
  | .sub => .symbol '-'
  | .mul => .symbol '*'
  | .div => .symbol '/'

/-- The level of an arithmetic operator. -/
def level : ArithOp → Level
  | .add | .sub => .sum
  | .mul | .div => .product

end ArithOp

namespace LogicOp

/-- The kind of token that a connective is. -/
def kind : LogicOp → Kind
  | .and => .keyword .and
  | .or => .keyword .or

/-- The level of a connective. -/
def level : LogicOp → Level
  | .and => .and
  | .or => .or

end LogicOp

/-- The tokens of names, each behind a dot. -/
def fieldKinds (names : List String) : List Kind := names.flatMap fun name => [.symbol '.', .word name]

/-- The tokens of a dotted name. -/
def pathKinds : List String → List Kind
  | [] => []
  | root :: fields => .word root :: fieldKinds fields

/-- Rows of tokens with commas between them. -/
def commas : List (List Kind) → List Kind
  | [] => []
  | [ks] => ks
  | ks :: kss => ks ++ .symbol ',' :: commas kss

/-- A row of tokens in parentheses. -/
def parens (ks : List Kind) : List Kind := .symbol '(' :: (ks ++ [.symbol ')'])

/-- The tokens of an expression of one level at the place of one of another level. -/
def Grammar.Level.wrap (own place : Level) (ks : List Kind) : List Kind :=
  if own.rank ≤ place.rank then ks else parens ks

namespace Expr

mutual

/-- The tokens of an expression that stands where one of a level may stand. -/
def kinds : Expr → Level → List Kind
  | .literal value _, _ => [value.kind]
  | .name path _, _ => pathKinds path
  | .call receiver method args _, _ =>
    receiver.kinds .calls ++ .symbol '.' :: .word method :: parens (commas (kindsAll args))
  | .toText operand _, _ => .word "str" :: parens (operand.kinds .or)
  | .arith op left right _, place =>
    op.level.wrap place (left.kinds op.level ++ op.kind :: right.kinds op.level.operands)
  | .logic op left right _, place =>
    op.level.wrap place (left.kinds op.level ++ op.kind :: right.kinds op.level.operands)
  | .negation operand _, place => Level.wrap .not place (.keyword .not :: operand.kinds .not)
  | .compare op left right _, place =>
    Level.wrap .comparison place (left.kinds .sum ++ op.kind :: right.kinds .sum)
  | .construct cls args _, _ => .word cls :: parens (commas (kindsAll args))
termination_by structural e => e

/-- The tokens of expressions, each by itself. -/
def kindsAll : List Expr → List (List Kind)
  | [] => []
  | e :: es => e.kinds .or :: kindsAll es
termination_by structural es => es

end

theorem kindsAll_eq_map (es : List Expr) : kindsAll es = es.map (·.kinds .or) := by
  induction es with
  | nil => rfl
  | cons e es ih => rw [kindsAll, ih, List.map_cons]

/-- The rank of the first level at whose place an expression may stand: a dotted name in front of a
dot or a parenthesis would be read on. -/
def floor : Expr → Nat
  | .name .. => 2
  | .call .. => 1
  | _ => 0

theorem floor_le_rank (e : Expr) {l : Level} (h : 2 ≤ l.rank) : e.floor ≤ l.rank := by
  refine Nat.le_trans ?_ h
  cases e <;> simp [floor]

theorem name_or_floor_le : (e : Expr) → (∃ path pos, e = .name path pos) ∨ e.floor ≤ 1
  | .name path pos => .inl ⟨path, pos, rfl⟩
  | .call .. => .inr (Nat.le_refl 1)
  | .literal .. | .toText .. | .arith .. | .logic .. | .negation .. | .compare .. | .construct .. =>
    .inr (Nat.zero_le 1)

end Expr

/-! What rows of tokens spell -/

variable {known : String → Bool} {l : Level} {ks ks' : List Kind} {e : Expr}

/-- Holds of rows of tokens that spell an expression of a level, but for its places. -/
structure Writes (known : String → Bool) (l : Level) (ks : List Kind) (e : Expr) : Prop where
  isLexeme : ∀ k ∈ ks, k.IsLexeme
  spells : ∀ us rest, us.map (·.kind) = ks →
    ∃ e', e'.bare = e.bare ∧ Spells known l (us ++ rest) e' rest

/-- Holds of rows of tokens that spell expressions between commas, but for their places. -/
structure WritesList (known : String → Bool) (ks : List Kind) (es : List Expr) : Prop where
  isLexeme : ∀ k ∈ ks, k.IsLexeme
  spells : ∀ us rest, us.map (·.kind) = ks →
    ∃ es', es'.map Expr.bare = es.map Expr.bare ∧ SpellsList known (us ++ rest) es' rest

/-- Holds of rows of tokens that spell arguments behind their opening parenthesis, but for their
places. -/
structure WritesArgs (known : String → Bool) (ks : List Kind) (es : List Expr) : Prop where
  isLexeme : ∀ k ∈ ks, k.IsLexeme
  spells : ∀ us rest, us.map (·.kind) = ks →
    ∃ es', es'.map Expr.bare = es.map Expr.bare ∧ SpellsArgs known (us ++ rest) es' rest

/-- Tokens of two rows with a token between them. -/
theorem split_kinds {us : List Token} {k : Kind} (h : us.map (·.kind) = ks ++ k :: ks') :
    ∃ vs t ws, us = vs ++ t :: ws ∧ vs.map (·.kind) = ks ∧ t.kind = k ∧ ws.map (·.kind) = ks' := by
  obtain ⟨vs, us, rfl, hvs, hus⟩ := List.map_eq_append_iff.1 h
  obtain ⟨t, ws, rfl, ht, hws⟩ := List.map_eq_cons_iff.1 hus
  exact ⟨vs, t, ws, rfl, hvs, ht, hws⟩

theorem isLexeme_fieldKinds {names : List String} (h : ∀ name ∈ names, IsName name) :
    ∀ k ∈ fieldKinds names, k.IsLexeme := by
  intro k hk
  obtain ⟨name, hname, hk⟩ := List.mem_flatMap.1 hk
  rcases List.mem_cons.1 hk with rfl | hk
  · decide
  · rw [List.mem_singleton.1 hk]
    exact h name hname

theorem spellsFields_of_kinds {names : List String} {us : List Token}
    (h : us.map (·.kind) = fieldKinds names) (rest : List Token) :
    SpellsFields (us ++ rest) names rest := by
  induction names generalizing us with
  | nil =>
    rw [List.map_eq_nil_iff.1 h]
    exact .nil
  | cons name names ih =>
    obtain ⟨t, us, rfl, ht, h⟩ := List.map_eq_cons_iff.1 h
    obtain ⟨u, us, rfl, hu, h⟩ := List.map_eq_cons_iff.1 h
    exact .cons ht hu (ih h)

namespace Writes

theorem lift {k : Level} (h : Writes known k ks e) (hl : k.rank ≤ l.rank) :
    Writes known l ks e := by
  refine ⟨h.isLexeme, fun us rest hus => ?_⟩
  obtain ⟨e', he', hs⟩ := h.spells us rest hus
  exact ⟨e', he', hs.lift hl⟩

theorem parens (h : Writes known .or ks e) : Writes known .primary (ClassLang.parens ks) e := by
  constructor
  · intro k hk
    rcases List.mem_cons.1 hk with rfl | hk
    · decide
    · rcases List.mem_append.1 hk with hk | hk
      · exact h.isLexeme k hk
      · rw [List.mem_singleton.1 hk]
        decide
  · intro us rest hus
    obtain ⟨t, us, rfl, ht, hus⟩ := List.map_eq_cons_iff.1 hus
    obtain ⟨vs, u, ws, rfl, hvs, hu, hws⟩ := split_kinds hus
    obtain rfl := List.map_eq_nil_iff.1 hws
    obtain ⟨e', he', hs⟩ := h.spells vs (u :: rest) hvs
    rw [List.cons_append, List.append_assoc]
    exact ⟨e', he', .paren ht hs hu⟩

/-- Parentheses stand around an expression of a looser level only. -/
theorem wrap {own : Level} (h : Writes known own ks e) : Writes known l (own.wrap l ks) e := by
  unfold Level.wrap
  split
  · rename_i hle
    exact h.lift hle
  · exact (h.lift (by cases own <;> decide)).parens.lift (Nat.zero_le _)

theorem literal {value : Literal} (h : ∀ n, value = .number n → 0 ≤ n.toInt) (pos : Pos) :
    Writes known .primary [value.kind] (.literal value pos) := by
  have hkind : value.kind.IsLexeme ∧ literal? value.kind = some value := by
    cases value with
    | number n => exact ⟨h n rfl, rfl⟩
    | bool b => cases b <;> exact ⟨trivial, rfl⟩
    | _ => exact ⟨trivial, rfl⟩
  refine ⟨List.forall_mem_singleton.2 hkind.1, fun us rest hus => ?_⟩
  obtain ⟨t, us, rfl, ht, hus⟩ := List.map_eq_cons_iff.1 hus
  obtain rfl := List.map_eq_nil_iff.1 hus
  exact ⟨.literal value t.pos, rfl, .literal (by rw [ht, hkind.2])⟩

theorem name {path : List String} (hne : path ≠ []) (h : ∀ name ∈ path, IsName name) (pos : Pos) :
    Writes known .unary (pathKinds path) (.name path pos) := by
  obtain ⟨root, fields, rfl⟩ := List.exists_cons_of_ne_nil hne
  obtain ⟨hroot, hfields⟩ := List.forall_mem_cons.1 h
  refine ⟨List.forall_mem_cons.2 ⟨hroot, isLexeme_fieldKinds hfields⟩, fun us rest hus => ?_⟩
  obtain ⟨t, us, rfl, ht, hus⟩ := List.map_eq_cons_iff.1 hus
  exact ⟨.name (root :: fields) t.pos, rfl, .name ht (spellsFields_of_kinds hus rest)⟩

theorem isLexeme_of_operator? {k : Kind} {build : Expr → Expr → Pos → Expr}
    (h : l.operator? k = some build) : k.IsLexeme := by
  unfold Level.operator? at h
  split at h <;> first | decide | cases h

/-- Operands of a row of operators, of which the right one binds tighter. -/
theorem row {k : Kind} {build : Expr → Expr → Pos → Expr} {left right : Expr}
    (hop : l.operator? k = some build) (hl : Writes known l ks left)
    (hr : Writes known l.operands ks' right) (pos : Pos) :
    Writes known l (ks ++ k :: ks') (build left right pos) := by
  constructor
  · exact List.forall_mem_append.2 ⟨hl.isLexeme,
      List.forall_mem_cons.2 ⟨isLexeme_of_operator? hop, hr.isLexeme⟩⟩
  · intro us rest hus
    obtain ⟨vs, t, ws, rfl, hvs, ht, hws⟩ := split_kinds hus
    obtain ⟨left', hleft, hl'⟩ := hl.spells vs (t :: (ws ++ rest)) hvs
    obtain ⟨right', hright, hr'⟩ := hr.spells ws rest hws
    have hbuild (left right : Expr) (pos : Pos) : (build left right pos).bare =
        build left.bare right.bare ⟨0, 0⟩ := relocate_of_operator? hop left right pos
    rw [List.append_assoc, List.cons_append]
    refine ⟨build left' right' t.pos, ?_, .row hl' (by rw [ht, hop]) hr' rfl⟩
    rw [hbuild, hleft, hright, hbuild]

theorem arith {op : ArithOp} {left right : Expr} (hl : Writes known op.level ks left)
    (hr : Writes known op.level.operands ks' right) (pos : Pos) :
    Writes known op.level (ks ++ op.kind :: ks') (.arith op left right pos) := by
  have hop : op.level.operator? op.kind = some (.arith op) := by cases op <;> rfl
  exact row hop hl hr pos

theorem logic {op : LogicOp} {left right : Expr} (hl : Writes known op.level ks left)
    (hr : Writes known op.level.operands ks' right) (pos : Pos) :
    Writes known op.level (ks ++ op.kind :: ks') (.logic op left right pos) := by
  have hop : op.level.operator? op.kind = some (.logic op) := by cases op <;> rfl
  exact row hop hl hr pos

theorem compare {op : Comparison} {left right : Expr} (hl : Writes known .sum ks left)
    (hr : Writes known .sum ks' right) (pos : Pos) :
    Writes known .comparison (ks ++ op.kind :: ks') (.compare op left right pos) := by
  have hop : comparison? op.kind = some op := by cases op <;> rfl
  have hkind : op.kind.IsLexeme := by cases op <;> decide
  constructor
  · exact List.forall_mem_append.2 ⟨hl.isLexeme, List.forall_mem_cons.2 ⟨hkind, hr.isLexeme⟩⟩
  · intro us rest hus
    obtain ⟨vs, t, ws, rfl, hvs, ht, hws⟩ := split_kinds hus
    obtain ⟨left', hleft, hl'⟩ := hl.spells vs (t :: (ws ++ rest)) hvs
    obtain ⟨right', hright, hr'⟩ := hr.spells ws rest hws
    rw [List.append_assoc, List.cons_append]
    refine ⟨.compare op left' right' t.pos, ?_, .compare hl' (by rw [ht, hop]) hr'⟩
    change Expr.compare op left'.bare right'.bare _ = _
    rw [hleft, hright]
    rfl

theorem negation (h : Writes known .not ks e) (pos : Pos) :
    Writes known .not (.keyword .not :: ks) (.negation e pos) := by
  refine ⟨List.forall_mem_cons.2 ⟨trivial, h.isLexeme⟩, fun us rest hus => ?_⟩
  obtain ⟨t, us, rfl, ht, hus⟩ := List.map_eq_cons_iff.1 hus
  obtain ⟨e', he', hs⟩ := h.spells us rest hus
  refine ⟨.negation e' t.pos, ?_, .negation ht hs⟩
  change Expr.negation e'.bare _ = _
  rw [he']
  rfl

end Writes

/-! Arguments -/

theorem WritesList.of_forall {e : Expr} {es : List Expr}
    (h : ∀ x ∈ e :: es, Writes known .or (x.kinds .or) x) :
    WritesList known (commas ((e :: es).map (·.kinds .or))) (e :: es) := by
  induction es generalizing e with
  | nil =>
    have he := h e List.mem_cons_self
    refine ⟨he.isLexeme, fun us rest hus => ?_⟩
    obtain ⟨e', he', hs⟩ := he.spells us rest hus
    refine ⟨[e'], ?_, .one hs⟩
    rw [List.map_singleton, List.map_singleton, he']
  | cons e₂ es ih =>
    obtain ⟨he, hes⟩ := List.forall_mem_cons.1 h
    have hmore := ih hes
    refine ⟨List.forall_mem_append.2 ⟨he.isLexeme,
      List.forall_mem_cons.2 ⟨by decide, hmore.isLexeme⟩⟩, fun us rest hus => ?_⟩
    obtain ⟨vs, t, ws, rfl, hvs, ht, hws⟩ := split_kinds hus
    obtain ⟨e', he', hs⟩ := he.spells vs (t :: (ws ++ rest)) hvs
    obtain ⟨es', hes', hss⟩ := hmore.spells ws rest hws
    rw [List.append_assoc, List.cons_append]
    refine ⟨e' :: es', ?_, .cons hs ht hss⟩
    rw [List.map_cons, he', hes']
    rfl

theorem WritesArgs.of_forall {es : List Expr} (h : ∀ e ∈ es, Writes known .or (e.kinds .or) e) :
    WritesArgs known (commas (es.map (·.kinds .or)) ++ [.symbol ')']) es := by
  have hclose : ∀ k ∈ [Kind.symbol ')'], k.IsLexeme := List.forall_mem_singleton.2 (by decide)
  cases es with
  | nil =>
    refine ⟨hclose, fun us rest hus => ?_⟩
    obtain ⟨t, us, rfl, ht, hus⟩ := List.map_eq_cons_iff.1 hus
    obtain rfl := List.map_eq_nil_iff.1 hus
    exact ⟨[], rfl, .nil ht⟩
  | cons e es =>
    have hlist := WritesList.of_forall h
    refine ⟨List.forall_mem_append.2 ⟨hlist.isLexeme, hclose⟩, fun us rest hus => ?_⟩
    obtain ⟨vs, t, ws, rfl, hvs, ht, hws⟩ := split_kinds hus
    obtain rfl := List.map_eq_nil_iff.1 hws
    obtain ⟨es', hes', hs⟩ := hlist.spells vs (t :: rest) hvs
    rw [List.append_assoc]
    exact ⟨es', hes', .list hs ht⟩

namespace Writes

theorem toText (h : Writes known .or (e.kinds .or) e) (pos : Pos) :
    Writes known .primary (.word "str" :: ClassLang.parens (e.kinds .or)) (.toText e pos) := by
  have hargs : WritesArgs known (commas ([e].map (·.kinds .or)) ++ [.symbol ')']) [e] :=
    .of_forall (List.forall_mem_singleton.2 h)
  refine ⟨List.forall_mem_cons.2 ⟨by decide, List.forall_mem_cons.2 ⟨by decide, hargs.isLexeme⟩⟩,
    fun us rest hus => ?_⟩
  obtain ⟨t, us, rfl, ht, hus⟩ := List.map_eq_cons_iff.1 hus
  obtain ⟨u, us, rfl, hu, hus⟩ := List.map_eq_cons_iff.1 hus
  obtain ⟨es', hes', hs⟩ := hargs.spells us rest hus
  obtain ⟨e', more, rfl, he', hnil⟩ := List.map_eq_cons_iff.1 hes'
  obtain rfl := List.map_eq_nil_iff.1 hnil
  refine ⟨.toText e' t.pos, ?_, .conversion ht hu hs⟩
  change Expr.toText e'.bare _ = _
  rw [he']
  rfl

theorem construct {cls : String} {args : List Expr} (hcls : IsName cls) (hne : cls ≠ "str")
    (hknown : known cls = true) (ha : ∀ e ∈ args, Writes known .or (e.kinds .or) e) (pos : Pos) :
    Writes known .primary (.word cls :: ClassLang.parens (commas (args.map (·.kinds .or))))
      (.construct cls args pos) := by
  have hargs := WritesArgs.of_forall ha
  refine ⟨List.forall_mem_cons.2 ⟨hcls, List.forall_mem_cons.2 ⟨by decide, hargs.isLexeme⟩⟩,
    fun us rest hus => ?_⟩
  obtain ⟨t, us, rfl, ht, hus⟩ := List.map_eq_cons_iff.1 hus
  obtain ⟨u, us, rfl, hu, hus⟩ := List.map_eq_cons_iff.1 hus
  obtain ⟨es', hes', hs⟩ := hargs.spells us rest hus
  refine ⟨.construct cls es' t.pos, ?_, .construction ht hne hknown hu hs⟩
  rw [Expr.bare, Expr.relocate, Expr.relocateAll_eq_map, hes', Expr.bare, Expr.relocate,
    Expr.relocateAll_eq_map]
  rfl

theorem bare_call {receiver receiver' : Expr} {method : String} {args args' : List Expr}
    {pos pos' : Pos} (hr : receiver'.bare = receiver.bare)
    (ha : args'.map Expr.bare = args.map Expr.bare) :
    (Expr.call receiver' method args' pos').bare = (Expr.call receiver method args pos).bare := by
  change Expr.call receiver'.bare _ _ _ = Expr.call receiver.bare _ _ _
  rw [hr, Expr.relocateAll_eq_map, ha, Expr.relocateAll_eq_map]
  rfl

/-- The call of a method behind its receiver. -/
theorem call {receiver : Expr} {method : String} {args : List Expr}
    (hr : Writes known .calls ks receiver) (hm : IsName method)
    (ha : ∀ e ∈ args, Writes known .or (e.kinds .or) e) (pos : Pos) :
    Writes known .calls
      (ks ++ .symbol '.' :: .word method :: ClassLang.parens (commas (args.map (·.kinds .or))))
      (.call receiver method args pos) := by
  have hargs := WritesArgs.of_forall ha
  refine ⟨List.forall_mem_append.2 ⟨hr.isLexeme, List.forall_mem_cons.2 ⟨by decide,
    List.forall_mem_cons.2 ⟨hm, List.forall_mem_cons.2 ⟨by decide, hargs.isLexeme⟩⟩⟩⟩,
    fun us rest hus => ?_⟩
  obtain ⟨vs, t, ws, rfl, hvs, ht, hws⟩ := split_kinds hus
  obtain ⟨u, ws, rfl, hu, hws⟩ := List.map_eq_cons_iff.1 hws
  obtain ⟨v, ws, rfl, hv, hws⟩ := List.map_eq_cons_iff.1 hws
  obtain ⟨es', hes', hs⟩ := hargs.spells ws rest hws
  obtain ⟨r', hr', hrs⟩ := hr.spells vs (t :: u :: v :: (ws ++ rest)) hvs
  rw [List.append_assoc]
  refine ⟨.call r' method es' t.pos, ?_, .methodCall hrs ht hu hv hs⟩
  exact bare_call hr' hes'

/-- The call of a method of a dotted name: its last field is the method. -/
theorem dottedCall {path : List String} {method : String} {args : List Expr} (hne : path ≠ [])
    (hpath : ∀ name ∈ path, IsName name) (hm : IsName method)
    (ha : ∀ e ∈ args, Writes known .or (e.kinds .or) e) (pos pos' : Pos) :
    Writes known .primary (pathKinds path ++
      .symbol '.' :: .word method :: ClassLang.parens (commas (args.map (·.kinds .or))))
      (.call (.name path pos) method args pos') := by
  obtain ⟨root, fields, rfl⟩ := List.exists_cons_of_ne_nil hne
  have hargs := WritesArgs.of_forall ha
  have hname : Writes known .unary (pathKinds (root :: fields)) (.name (root :: fields) pos) :=
    .name hne hpath pos
  refine ⟨List.forall_mem_append.2 ⟨hname.isLexeme, List.forall_mem_cons.2 ⟨by decide,
    List.forall_mem_cons.2 ⟨hm, List.forall_mem_cons.2 ⟨by decide, hargs.isLexeme⟩⟩⟩⟩,
    fun us rest hus => ?_⟩
  have hkinds : fieldKinds fields ++ [.symbol '.'] ++ [.word method] =
      fieldKinds (fields ++ [method]) := by
    simp [fieldKinds]
  rw [pathKinds, List.cons_append, List.append_cons, List.append_cons, hkinds] at hus
  obtain ⟨t, us, rfl, ht, hus⟩ := List.map_eq_cons_iff.1 hus
  obtain ⟨vs, u, ws, rfl, hvs, hu, hws⟩ := split_kinds hus
  obtain ⟨es', hes', hs⟩ := hargs.spells ws rest hws
  have hf := spellsFields_of_kinds hvs (u :: (ws ++ rest))
  rw [List.cons_append, List.append_assoc]
  refine ⟨.call (.name (root :: fields) t.pos) method es' u.pos, ?_, .dottedCall ht hf hu hs⟩
  exact bare_call rfl hes'

end Writes

namespace Expr

mutual

/-- The tokens of an expression spell it, where a token behind it does not read it on. -/
theorem writes : (e : Expr) → e.Admitted known → ∀ {l : Level}, e.floor ≤ l.rank →
    Writes known l (e.kinds l) e
  | .literal value pos, he, _, _ => (Writes.literal he pos).lift (Nat.zero_le _)
  | .name path pos, ⟨hne, hpath⟩, _, hl => (Writes.name hne hpath pos).lift hl
  | .call receiver method args pos, ⟨hr, hm, ha⟩, l, hl => by
    have hargs := writesAll args ha
    rw [kinds, kindsAll_eq_map]
    rcases receiver.name_or_floor_le with ⟨path, pos', rfl⟩ | hfloor
    · exact (Writes.dottedCall hr.1 hr.2 hm hargs pos' pos).lift (Nat.zero_le _)
    · exact (Writes.call (writes receiver hr hfloor) hm hargs pos).lift hl
  | .toText operand pos, he, l, _ =>
    (Writes.toText (writes operand he (operand.floor_le_rank (by decide))) pos).lift (Nat.zero_le _)
  | .arith op left right pos, ⟨hleft, hright⟩, _, _ =>
    (Writes.arith (writes left hleft (left.floor_le_rank (by cases op <;> decide)))
      (writes right hright (right.floor_le_rank (by cases op <;> decide))) pos).wrap
  | .logic op left right pos, ⟨hleft, hright⟩, _, _ =>
    (Writes.logic (writes left hleft (left.floor_le_rank (by cases op <;> decide)))
      (writes right hright (right.floor_le_rank (by cases op <;> decide))) pos).wrap
  | .negation operand pos, he, _, _ =>
    (Writes.negation (writes operand he (operand.floor_le_rank (by decide))) pos).wrap
  | .compare op left right pos, ⟨hleft, hright⟩, _, _ =>
    (Writes.compare (writes left hleft (left.floor_le_rank (by decide)))
      (writes right hright (right.floor_le_rank (by decide))) pos).wrap
  | .construct cls args pos, ⟨hcls, hne, hknown, ha⟩, l, _ => by
    rw [kinds, kindsAll_eq_map]
    exact (Writes.construct hcls hne hknown (writesAll args ha) pos).lift (Nat.zero_le _)

theorem writesAll : (es : List Expr) → AdmittedAll known es →
    ∀ e ∈ es, Writes known .or (e.kinds .or) e
  | [], _ => fun e he => (by cases he)
  | e :: es, ⟨he, hes⟩ =>
    List.forall_mem_cons.2 ⟨writes e he (e.floor_le_rank (by decide)), writesAll es hes⟩

end

end Expr

end ClassLang
