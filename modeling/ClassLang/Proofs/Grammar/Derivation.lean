import ClassLang.Proofs.Dict
import ClassLang.Proofs.Grammar.Language
import ClassLang.Proofs.Grammar.Spelling
import ClassLang.Proofs.Grammar.Plain.Expression

/-!
The grammar derives exactly what can be spelled. A derivation may take the last field of a dotted
call for a call of its own; a spelling does not, so a dotted name by itself is spelled only where no
call can follow it.
-/

namespace ClassLang.Grammar

variable {known : String → Bool} {c : Context} {ts us rest : List Token} {l : Level}

/-! From spellings to derivations -/

theorem mem_rowOperators {k : Kind} :
    k ∈ l.rowOperators ↔ ∃ build, l.operator? k = some build := by
  constructor
  · intro h
    cases l <;> simp only [Level.rowOperators, List.mem_cons, List.not_mem_nil, or_false] at h
    · exact ⟨_, by rw [h]; rfl⟩
    · exact ⟨_, by rw [h]; rfl⟩
    · rcases h with h | h <;> exact ⟨_, by rw [h]; rfl⟩
    · rcases h with h | h <;> exact ⟨_, by rw [h]; rfl⟩
  · rintro ⟨build, h⟩
    unfold Level.operator? at h
    split at h <;> first | (simp [Level.rowOperators]; done) | cases h

theorem mem_comparisonOperators {k : Kind} :
    k ∈ comparisonOperators ↔ ∃ op, comparison? k = some op := by
  constructor
  · intro h
    simp only [comparisonOperators, List.mem_cons, List.not_mem_nil, or_false] at h
    rcases h with rfl | rfl | rfl | rfl | rfl | rfl <;> exact ⟨_, rfl⟩
  · rintro ⟨op, h⟩
    unfold comparison? at h
    split at h <;> first | (simp [comparisonOperators]; done) | cases h

theorem isLiteral_iff {k : Kind} : Kind.IsLiteral k ↔ ∃ value, literal? k = some value := by
  constructor
  · rintro (⟨n, rfl⟩ | ⟨s, rfl⟩ | rfl | rfl | rfl) <;> exact ⟨_, rfl⟩
  · rintro ⟨value, h⟩
    unfold literal? at h
    split at h <;> first | (simp [Kind.IsLiteral]; done) | cases h

/-- The last of some fields stands in front of what is left. -/
theorem SpellsFields.split {fields : List String} {method : String}
    (h : SpellsFields ts (fields ++ [method]) rest) :
    ∃ t u, SpellsFields ts fields (t :: u :: rest) ∧ t.kind = .symbol '.' ∧
      u.kind = .word method := by
  induction fields generalizing ts with
  | nil =>
    cases h with
    | cons ht hu hs =>
      cases hs
      exact ⟨_, _, .nil, ht, hu⟩
  | cons field fields ih =>
    cases h with
    | cons ht hu hs =>
      obtain ⟨v, w, hs', hv, hw⟩ := ih hs
      exact ⟨v, w, .cons ht hu hs', hv, hw⟩

theorem SpellsFields.join {fields : List String} {method : String} {t u : Token}
    (h : SpellsFields ts fields (t :: u :: rest)) (ht : t.kind = .symbol '.')
    (hu : u.kind = .word method) : SpellsFields ts (fields ++ [method]) rest := by
  generalize hmid : t :: u :: rest = mid at h
  induction h with
  | nil =>
    subst hmid
    exact .cons ht hu .nil
  | cons hv hw _ ih => exact .cons hv hw (ih hmid)

/-- Fields carry a dotted name on. -/
theorem SpellsFields.derives {names : List String} (h : SpellsFields ts names rest) :
    ∀ us, Derives Callable c .dotted us →
      ∃ vs, ts = vs ++ rest ∧ Derives Callable c .dotted (us ++ vs) := by
  induction h with
  | nil =>
    intro us hus
    exact ⟨[], rfl, by rwa [List.append_nil]⟩
  | cons ht hu _ ih =>
    intro us hus
    obtain ⟨vs, rfl, hvs⟩ := ih _ (.dottedMore hus ht hu)
    exact ⟨_ :: _ :: vs, rfl, by simpa using hvs⟩

theorem derives_of_dotted (c : Context) {t : Token} {root : String} {names : List String}
    (ht : t.kind = .word root) (h : SpellsFields ts names rest) :
    ∃ us, t :: ts = us ++ rest ∧ Derives Callable c .dotted us := by
  have hroot : Derives Callable c .dotted [t] := .dottedOne ht
  obtain ⟨vs, rfl, hvs⟩ := h.derives [t] hroot
  exact ⟨t :: vs, rfl, hvs⟩

mutual

theorem Spells.derives (hk : ∀ name, known name = true → c.Constructs name)
    {l : Level} {ts rest : List Token} {e : Expr} :
    Spells known l ts e rest → ∃ us, ts = us ++ rest ∧ Derives Callable c (.expr l) us
  | .literal h => ⟨[_], rfl, .literal (isLiteral_iff.2 ⟨_, h⟩)⟩
  | .paren ht he hu => by
    obtain ⟨us, rfl, hus⟩ := he.derives hk
    exact ⟨_ :: (us ++ [_]), by simp, .paren ht hus hu⟩
  | .conversion ht hu ha => by
    obtain ⟨us, v, rfl, hus, hv⟩ := ha.derives hk
    exact ⟨_ :: _ :: (us ++ [v]), by simp, .bareCall ht hu hus hv (.inl ⟨rfl, rfl⟩)⟩
  | .construction ht hstr hknown hu ha => by
    obtain ⟨us, v, rfl, hus, hv⟩ := ha.derives hk
    exact ⟨_ :: _ :: (us ++ [v]), by simp,
      .bareCall ht hu hus hv (.inr ⟨hstr, hk _ hknown⟩)⟩
  | .dottedCall ht hf hu ha => by
    obtain ⟨x, y, hf', hx, hy⟩ := hf.split
    obtain ⟨vs, hvs, hname⟩ := derives_of_dotted c ht hf'
    obtain ⟨us, w, rfl, hus, hw⟩ := ha.derives hk
    exact ⟨vs ++ x :: y :: _ :: (us ++ [w]), by simp [hvs], .dottedCall hname hx hy hu hus hw⟩
  | .methodCall he ht hu hv ha => by
    obtain ⟨vs, rfl, hvs⟩ := he.derives hk
    obtain ⟨us, w, rfl, hus, hw⟩ := ha.derives hk
    exact ⟨vs ++ _ :: _ :: _ :: (us ++ [w]), by simp, .methodCall hvs ht hu hv hus hw⟩
  | .name ht hf => by
    obtain ⟨us, hus, hname⟩ := derives_of_dotted c ht hf
    exact ⟨us, hus, .operand (by decide) (.operand (by decide) (.name hname))⟩
  | .minus ht he => by
    obtain ⟨us, rfl, hus⟩ := he.derives hk
    exact ⟨_ :: us, rfl, .minus ht hus⟩
  | .compare hl hop hr => by
    obtain ⟨us, rfl, hus⟩ := hl.derives hk
    obtain ⟨vs, rfl, hvs⟩ := hr.derives hk
    exact ⟨us ++ _ :: vs, by simp, .comparison hus (mem_comparisonOperators.2 ⟨_, hop⟩) hvs⟩
  | .negation ht he => by
    obtain ⟨us, rfl, hus⟩ := he.derives hk
    exact ⟨_ :: us, rfl, .not ht hus⟩
  | .row hl hop hr _ => by
    obtain ⟨us, rfl, hus⟩ := hl.derives hk
    obtain ⟨vs, rfl, hvs⟩ := hr.derives hk
    exact ⟨us ++ _ :: vs, by simp, .row hus (mem_rowOperators.2 ⟨_, hop⟩) hvs⟩
  | .operand hne he => by
    obtain ⟨us, rfl, hus⟩ := he.derives hk
    exact ⟨us, rfl, .operand hne hus⟩

theorem SpellsArgs.derives (hk : ∀ name, known name = true → c.Constructs name)
    {ts rest : List Token} {es : List Expr} :
    SpellsArgs known ts es rest → ∃ us t, ts = us ++ t :: rest ∧
      Derives Callable c (.args es.length) us ∧ t.kind = .symbol ')'
  | .nil ht => ⟨[], _, rfl, .noArgs, ht⟩
  | .list hs ht => by
    obtain ⟨us, rfl, hus⟩ := hs.derives hk
    exact ⟨us, _, rfl, .args hus, ht⟩

theorem SpellsList.derives (hk : ∀ name, known name = true → c.Constructs name)
    {ts rest : List Token} {es : List Expr} :
    SpellsList known ts es rest → ∃ us, ts = us ++ rest ∧
      Derives Callable c (.exprs es.length) us
  | .one he => by
    obtain ⟨us, rfl, hus⟩ := he.derives hk
    exact ⟨us, rfl, .exprsOne hus⟩
  | .cons he ht hs => by
    obtain ⟨us, rfl, hus⟩ := he.derives hk
    obtain ⟨vs, rfl, hvs⟩ := hs.derives hk
    exact ⟨us ++ _ :: vs, by simp, .exprsMore hus ht hvs⟩

end

theorem ne_name_of_operator? {k : Kind} {build : Expr → Expr → Pos → Expr} {left right : Expr}
    {pos pos' : Pos} {path : List String} (h : l.operator? k = some build) :
    build left right pos ≠ .name path pos' := by
  unfold Level.operator? at h
  split at h <;> cases h <;> exact Expr.noConfusion

/-- A dotted name stands alone or in parentheses. -/
theorem Spells.derives_target (c : Context) {path : List String} {pos : Pos} {l : Level}
    {ts rest : List Token} {e : Expr} : Spells known l ts e rest → e = .name path pos →
      ∃ us, ts = us ++ rest ∧ Derives Callable c .target us
  | .paren ht he hu, heq => by
    obtain ⟨us, rfl, hus⟩ := he.derives_target c heq
    exact ⟨_ :: (us ++ [_]), by simp, .targetParen ht hus hu⟩
  | .name ht hf, _ => by
    obtain ⟨us, hus, hname⟩ := derives_of_dotted c ht hf
    exact ⟨us, hus, .target hname⟩
  | .operand _ he, heq => he.derives_target c heq
  | .row _ hop _ hbuild, heq => absurd (hbuild.trans heq) (ne_name_of_operator? hop)
  | .literal _, heq | .conversion _ _ _, heq | .construction _ _ _ _ _, heq
  | .dottedCall _ _ _ _, heq | .methodCall _ _ _ _ _, heq | .minus _ _, heq
  | .compare _ _ _, heq | .negation _ _, heq => Expr.noConfusion heq

theorem SpellsSimple.derives (hk : ∀ name, known name = true → c.Constructs name) {st : Stmt}
    (h : SpellsSimple known c.inMethod ts st rest) :
    ∃ us, ts = us ++ rest ∧ Derives Callable c .simple us := by
  cases h with
  | giveNone hin ht => exact ⟨[_], rfl, .returnNone hin ht⟩
  | give hin ht he =>
    obtain ⟨us, rfl, hus⟩ := he.derives hk
    exact ⟨_ :: us, rfl, .returnExpr hin ht hus⟩
  | printNone ht => exact ⟨[_], rfl, .printNone ht⟩
  | print ht hs =>
    obtain ⟨us, rfl, hus⟩ := hs.derives hk
    exact ⟨_ :: us, rfl, .printExprs ht hus⟩
  | assign hp ht he =>
    obtain ⟨us, rfl, hus⟩ := hp.derives_target c rfl
    obtain ⟨vs, rfl, hvs⟩ := he.derives hk
    exact ⟨us ++ _ :: vs, by simp, .assign hus ht hvs⟩
  | expr he =>
    obtain ⟨us, rfl, hus⟩ := he.derives hk
    exact ⟨us, rfl, .simpleExpr hus⟩

mutual

theorem SpellsStmt.derives (hk : ∀ name, known name = true → c.Constructs name)
    {ts rest : List Token} {st : Stmt} : SpellsStmt known c.inMethod ts st rest →
      ∃ us, ts = us ++ rest ∧ Derives Callable c .statement us
  | .simple hs ht => by
    obtain ⟨us, rfl, hus⟩ := hs.derives hk
    exact ⟨us ++ [_], by simp, .simple hus ht⟩
  | .branch ht hc hu hs => by
    obtain ⟨us, rfl, hus⟩ := hc.derives hk
    obtain ⟨vs, rfl, hvs⟩ := hs.derives hk
    exact ⟨_ :: (us ++ _ :: vs), by simp, .branch ht hus hu hvs⟩
  | .branchElse ht hc hu hs hv hw hs' => by
    obtain ⟨us, rfl, hus⟩ := hc.derives hk
    obtain ⟨vs, rfl, hvs⟩ := hs.derives hk
    obtain ⟨ws, rfl, hws⟩ := hs'.derives hk
    exact ⟨_ :: (us ++ _ :: (vs ++ _ :: _ :: ws)), by simp,
      .branchElse ht hus hu hvs hv hw hws⟩

theorem SpellsSuite.derives (hk : ∀ name, known name = true → c.Constructs name)
    {ts rest : List Token} {st : Stmt} : SpellsSuite known c.inMethod ts st rest →
      ∃ us, ts = us ++ rest ∧ Derives Callable c .suite us
  | .block ht hu hb => by
    obtain ⟨us, v, rfl, hus, hv⟩ := hb.derives hk
    exact ⟨_ :: _ :: (us ++ [v]), by simp, .suite ht hu hus hv⟩

theorem SpellsBlock.derives (hk : ∀ name, known name = true → c.Constructs name)
    {ts rest : List Token} {body : List Stmt} : SpellsBlock known c.inMethod ts body rest →
      ∃ us t, ts = us ++ t :: rest ∧ Derives Callable c .statements us ∧ t.kind = .dedent
  | .nil ht => ⟨[], _, rfl, .noStatements, ht⟩
  | .cons hs hb => by
    obtain ⟨us, rfl, hus⟩ := hs.derives hk
    obtain ⟨vs, v, rfl, hvs, hv⟩ := hb.derives hk
    exact ⟨us ++ vs, v, by simp, .statements hus hvs, hv⟩

end

theorem SpellsNames.names {names : List String} (h : SpellsNames ts names rest) :
    ∃ us name more, ts = us ++ rest ∧ names = name :: more ∧ Names us (name :: more) := by
  induction h with
  | one ht => exact ⟨[_], _, [], rfl, rfl, .one ht⟩
  | cons ht hu _ ih =>
    obtain ⟨us, name, more, rfl, rfl, hus⟩ := ih
    exact ⟨_ :: _ :: us, _, _, rfl, rfl, .cons ht hu hus⟩

theorem SpellsParams.names {names : List String} (h : SpellsParams ts names rest) :
    ∃ us t, ts = us ++ t :: rest ∧ Names us names ∧ names.Nodup ∧ t.kind = .symbol ')' := by
  cases h with
  | nil ht => exact ⟨[], _, rfl, .nil, .nil, ht⟩
  | list hs ht hnodup =>
    obtain ⟨us, name, more, rfl, rfl, hus⟩ := hs.names
    exact ⟨us, _, rfl, hus, hnodup, ht⟩

theorem SpellsMethods.derives {ms : List Method}
    (hk : ∀ name, known name = true → c.Constructs name) (h : SpellsMethods known ts ms rest) :
    ∃ us t, ts = us ++ t :: rest ∧ Derives Callable c .methods us ∧ t.kind = .dedent := by
  induction h with
  | nil ht => exact ⟨[], _, rfl, .noMethods, ht⟩
  | cons ht hu hv hp hw hs _ ih =>
    obtain ⟨ps, x, rfl, hps, hnodup, hx⟩ := hp.names
    obtain ⟨vs, rfl, hvs⟩ := SpellsSuite.derives (c := c.method) hk hs
    obtain ⟨us, y, rfl, hus, hy⟩ := ih
    exact ⟨_ :: _ :: _ :: (ps ++ x :: _ :: vs) ++ us, y, by simp,
      .methods (.method ht hu hv hps hnodup hx hw hvs) hus, hy⟩

/-- Holds of the contexts in which the classes of a table are defined. -/
def Context.Lists (c : Context) (classes : ClassTable) : Prop :=
  ∀ name, name ∈ c.classes ↔ classes.contains name = true

theorem SpellsParent.derives {classes : ClassTable} {parent : Option Class}
    (hc : c.Lists classes) (h : SpellsParent classes ts parent rest) :
    ∃ us, ts = us ++ rest ∧ Derives Callable c .parent us := by
  cases h with
  | none => exact ⟨[], rfl, .noParent⟩
  | some ht hu hv hget =>
    exact ⟨[_, _, _], rfl, .parent ht hu hv ((hc _).2 (Dict.contains_of_get? hget))⟩

theorem SpellsClass.derives {classes : ClassTable} {cls : Class} {t : Token}
    (hc : c.Lists classes) (ht : t.kind = .keyword .class_)
    (h : SpellsClass classes ts cls rest) :
    ∃ us, t :: ts = us ++ rest ∧ Derives Callable c (.classDef cls.name) us := by
  cases h with
  | intro hu hnew hp hv hw hx hm =>
    rename_i u v w ts name parent ms x xs
    have hknown : ∀ other, knownIn classes name other = true →
        (c.inside name).Constructs other := by
      intro other hother
      rw [knownIn, Bool.or_eq_true, beq_iff_eq] at hother
      exact hother.imp (hc other).2 id
    have hname : name ∉ c.classes := by
      intro hmem
      rw [(hc name).1 hmem] at hnew
      cases hnew
    obtain ⟨ps, rfl, hps⟩ := hp.derives hc
    obtain ⟨us, y, rfl, hus, hy⟩ := hm.derives hknown
    exact ⟨t :: u :: (ps ++ v :: w :: x :: (us ++ [y])), by simp,
      .classDef ht hu hname hps hv hw hx hus hy⟩

theorem Context.Lists.define {classes : ClassTable} {cls : Class} (h : c.Lists classes) :
    (c.define cls.name).Lists (classes.add cls) := by
  intro name
  rw [Dict.contains, ClassTable.get?_add, Context.define, List.mem_cons]
  split
  · rename_i hname
    simp [hname]
  · rename_i hname
    rw [← Dict.contains, ← h name]
    simp [hname]

/-- Whatever is spelled as a program is derived. -/
theorem SpellsProgram.derives {classes after : ClassTable} {body : List Stmt}
    {names : List String} (hc : (Context.top names).Lists classes)
    (h : SpellsProgram classes ts body after) :
    Derives Callable (Context.top names) .program ts := by
  induction h generalizing names with
  | nil => exact .programEnd
  | cls ht hcls _ ih =>
    obtain ⟨us, hus, hder⟩ := hcls.derives hc ht
    rw [hus]
    exact .programClass hder (ih hc.define)
  | stmt hs _ ih =>
    have hknown (name : String) (hname : Dict.contains _ name = true) :
        (Context.top names).Constructs name := .inl ((hc name).2 hname)
    obtain ⟨us, rfl, hus⟩ := SpellsStmt.derives (c := .top names) hknown hs
    exact .programStatement hus (ih hc)

end ClassLang.Grammar
