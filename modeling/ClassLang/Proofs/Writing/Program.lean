import ClassLang.Proofs.Program
import ClassLang.Proofs.Writing.Statement

/-!
Programs as source text. A program that was read from a source is written back as one, and what is
written is read as the same program: its statements and its classes are equal but for their places.
-/

namespace ClassLang

open Grammar Token

/-- A program as source text: two spaces for every suite around a line, one statement on a line, and
a class where its definition stands. -/
def Program.source (p : Program) : String := Outline.source (Stmt.outlinesAll p.statements)

/-! Parameters and methods -/

variable {known : String → Bool} {rest us : List Token}

theorem spellsNames_of_kinds {name : String} {names : List String}
    (h : us.map (·.kind) = commas ((name :: names).map fun name => [.word name]))
    (rest : List Token) :
    SpellsNames (us ++ rest) (name :: names) rest := by
  induction names generalizing us name with
  | nil =>
    obtain ⟨t, us, rfl, ht, hus⟩ := List.map_eq_cons_iff.1 h
    obtain rfl := List.map_eq_nil_iff.1 hus
    exact .one ht
  | cons name' names ih =>
    obtain ⟨t, us, rfl, ht, hus⟩ := List.map_eq_cons_iff.1 h
    obtain ⟨u, us, rfl, hu, hus⟩ := List.map_eq_cons_iff.1 hus
    exact .cons ht hu (ih hus)

theorem spellsParams_of_kinds {params : List String} (hnodup : params.Nodup)
    (h : us.map (·.kind) = commas (params.map fun param => [.word param]) ++ [.symbol ')'])
    (rest : List Token) :
    SpellsParams (us ++ rest) params rest := by
  cases params with
  | nil =>
    obtain ⟨t, us, rfl, ht, hus⟩ := List.map_eq_cons_iff.1 h
    obtain rfl := List.map_eq_nil_iff.1 hus
    exact .nil ht
  | cons param params =>
    obtain ⟨vs, t, ws, rfl, hvs, ht, hws⟩ := split_kinds h
    obtain rfl := List.map_eq_nil_iff.1 hws
    rw [List.append_assoc]
    exact .list (spellsNames_of_kinds hvs (t :: rest)) ht hnodup

theorem isLexeme_commas {kss : List (List Kind)} (h : ∀ ks ∈ kss, ∀ k ∈ ks, k.IsLexeme) :
    ∀ k ∈ commas kss, k.IsLexeme := by
  fun_induction commas kss with
  | case1 => exact fun k hk => (by cases hk)
  | case2 ks => exact h ks List.mem_cons_self
  | case3 ks kss hne ih =>
    obtain ⟨hks, hkss⟩ := List.forall_mem_cons.1 h
    exact List.forall_mem_append.2 ⟨hks, List.forall_mem_cons.2 ⟨by decide, ih hkss⟩⟩

theorem isLexeme_parens {ks : List Kind} (h : ∀ k ∈ ks, k.IsLexeme) :
    ∀ k ∈ parens ks, k.IsLexeme :=
  List.forall_mem_cons.2 ⟨by decide, List.forall_mem_append.2
    ⟨h, List.forall_mem_singleton.2 (by decide)⟩⟩

/-- Holds of outlines whose tokens, up to a dedent, spell methods, but for their places. -/
structure WritesMethods (known : String → Bool) (os : List Outline) (ms : List Method) : Prop where
  writable : Outline.WritableAll os
  spells : ∀ us rest, us.map (·.kind) = Outline.kindsAll os ++ [.dedent] →
    ∃ ms', ms'.map Method.bare = ms.map Method.bare ∧ SpellsMethods known (us ++ rest) ms' rest

theorem WritesMethods.cons {m : Method} {os : List Outline} {ms : List Method}
    (hm : m.Admitted known) (hms : WritesMethods known os ms) :
    WritesMethods known (m.outline :: os) (m :: ms) := by
  obtain ⟨name, params, _⟩ := m
  obtain ⟨body, pos, rfl, hbody⟩ := hm.body
  have hsuite := body.writesSuite hbody
  have hparams : ∀ k ∈ paramKinds params, k.IsLexeme := by
    refine isLexeme_parens (isLexeme_commas fun ks hks => ?_)
    obtain ⟨param, hparam, rfl⟩ := List.mem_map.1 hks
    exact List.forall_mem_singleton.2 (hm.params param hparam)
  constructor
  · refine ⟨⟨⟨List.cons_ne_nil _ _, ?_⟩, hsuite.ne_nil, hsuite.writable⟩, hms.writable⟩
    exact List.forall_mem_cons.2 ⟨trivial, List.forall_mem_cons.2 ⟨hm.name,
      List.forall_mem_append.2 ⟨hparams, List.forall_mem_singleton.2 (by decide)⟩⟩⟩
  · intro us rest hus
    replace hus : us.map (·.kind) = .keyword .def_ :: .word name :: .symbol '(' ::
        (commas (params.map fun param => [.word param]) ++ [.symbol ')'] ++ .symbol ':' ::
          (suiteKinds body.outlines ++ (Outline.kindsAll os ++ [.dedent]))) := by
      rw [hus]
      simp [Outline.kindsAll, Outline.kinds, Method.outline, Stmt.outlines, suiteKinds, paramKinds,
        parens]
    obtain ⟨t, us, rfl, ht, hus⟩ := List.map_eq_cons_iff.1 hus
    obtain ⟨u, us, rfl, hu, hus⟩ := List.map_eq_cons_iff.1 hus
    obtain ⟨v, us, rfl, hv, hus⟩ := List.map_eq_cons_iff.1 hus
    obtain ⟨vs, w, us, rfl, hvs, hw, hus⟩ := split_kinds hus
    obtain ⟨ws, xs, rfl, hws, hxs⟩ := List.map_eq_append_iff.1 hus
    obtain ⟨body', hbody', hs⟩ := hsuite.spells ws (xs ++ rest) hws
    obtain ⟨ms', hms', hss⟩ := hms.spells xs rest hxs
    have hparams := spellsParams_of_kinds hm.nodup hvs (w :: (ws ++ (xs ++ rest)))
    have hspells := SpellsMethods.cons ht hu hv hparams hw hs hss
    rw [hm.receiver] at hspells
    refine ⟨_, ?_, by simpa using hspells⟩
    rw [List.map_cons, List.map_cons, hms']
    change Method.mk name params (.methodBody body'.bare _) :: _ = _
    rw [hbody']
    rfl

theorem WritesMethods.of_forall {ms : List Method} (h : ∀ m ∈ ms, m.Admitted known) :
    WritesMethods known (Method.outlines ms) ms := by
  induction ms with
  | nil =>
    refine ⟨trivial, fun us rest hus => ?_⟩
    obtain ⟨t, us, rfl, ht, hus⟩ := List.map_eq_cons_iff.1 hus
    obtain rfl := List.map_eq_nil_iff.1 hus
    exact ⟨[], rfl, .nil ht⟩
  | cons m ms ih =>
    obtain ⟨hm, hms⟩ := List.forall_mem_cons.1 h
    exact .cons hm (ih hms)

/-! Classes -/

theorem keptMethods_of_nodup {ms : List Method} (h : (ms.map (·.name)).Nodup) :
    keptMethods ms = ms := by
  have hfold (acc : List Method) (hacc : ((acc ++ ms).map (·.name)).Nodup) :
      ms.foldl addMethod acc = acc ++ ms := by
    induction ms generalizing acc with
    | nil => exact (List.append_nil acc).symm
    | cons m ms ih =>
      have hnew : acc.filter (·.name != m.name) = acc := by
        rw [List.filter_eq_self]
        intro x hx
        rw [List.map_append, List.nodup_append] at hacc
        exact bne_iff_ne.2 (hacc.2.2 _ (List.mem_map_of_mem hx) _
          (List.mem_map_of_mem List.mem_cons_self))
      have hmethods := (List.nodup_cons.1 h).2
      rw [List.append_cons] at hacc ⊢
      rw [List.foldl_cons, addMethod, hnew, ih hmethods _ hacc]
  exact hfold [] h

/-- A method that is kept under other methods of other places is kept under its own ones. -/
theorem bare_keptMethods {ms ms' : List Method} (h : ms'.map Method.bare = ms.map Method.bare) :
    (keptMethods ms').map Method.bare = (keptMethods ms).map Method.bare := by
  have hkept (ms : List Method) : keptMethods (ms.map Method.bare) = _ :=
    keptMethods_map_relocate ms
  rw [← hkept, h, hkept]

/-- Tables that are equal but for their places know the same classes. -/
theorem ClassTable.contains_of_bare {classes classes' : ClassTable}
    (h : classes'.bare = classes.bare) : classes'.contains = classes.contains := by
  funext name
  have hcontains (t : ClassTable) : t.bare.contains name = t.contains name :=
    contains_relocate .bare t name
  rw [← hcontains, h, hcontains]

theorem ClassTable.get?_of_bare {classes classes' : ClassTable} {name : String} {c : Class}
    (h : classes'.bare = classes.bare) (hget : classes.get? name = some c) :
    ∃ c', classes'.get? name = some c' ∧ c'.bare = c.bare := by
  have hbare (t : ClassTable) : t.bare.get? name = (t.get? name).map Class.bare :=
    get?_relocate .bare t name
  have hsome := hbare classes'
  rw [h, hbare, hget, Option.map_some, eq_comm, Option.map_eq_some_iff] at hsome
  exact hsome

theorem Class.bare_mk {name : String} {methods methods' : List Method}
    {parent parent' : Option Class} (hm : methods'.map Method.bare = methods.map Method.bare)
    (hp : parent'.map Class.bare = parent.map Class.bare) :
    (Class.mk name methods' parent').bare = (Class.mk name methods parent).bare := by
  rw [Class.bare, Class.relocate_of_not_keeps rfl, Class.bare, Class.relocate_of_not_keeps rfl, hm,
    hp]

/-- The parent of a class is written as its name, under which the table has it. -/
theorem spellsParent_of_kinds {classes classes' : ClassTable} {parent : Option Class}
    (hbare : classes'.bare = classes.bare) (hget : ∀ c ∈ parent, classes.get? c.name = some c)
    (h : us.map (·.kind) = parentKinds parent) (rest : List Token) :
    ∃ parent', parent'.map Class.bare = parent.map Class.bare ∧
      SpellsParent classes' (us ++ rest) parent' rest := by
  cases parent with
  | none =>
    obtain rfl := List.map_eq_nil_iff.1 h
    exact ⟨none, rfl, .none⟩
  | some c =>
    obtain ⟨t, us, rfl, ht, hus⟩ := List.map_eq_cons_iff.1 h
    obtain ⟨u, us, rfl, hu, hus⟩ := List.map_eq_cons_iff.1 hus
    obtain ⟨v, us, rfl, hv, hus⟩ := List.map_eq_cons_iff.1 hus
    obtain rfl := List.map_eq_nil_iff.1 hus
    obtain ⟨c', hget', hc'⟩ := ClassTable.get?_of_bare hbare (hget c rfl)
    exact ⟨some c', congrArg some hc', .some ht hu hv hget'⟩

/-- Holds of the classes that can be written where a table is known: the class is new, and its
parent is the one that the table has under its name. -/
structure Class.Fits (classes : ClassTable) (c : Class) : Prop where
  admitted : c.Admitted (knownIn classes c.name)
  new : classes.contains c.name = false
  parent : ∀ p ∈ c.parent, classes.get? p.name = some p

theorem Grammar.SpellsClass.fits {classes : ClassTable} {ts : List Token} {c : Class}
    (h : SpellsClass classes ts c rest) (hl : Lexed ts) (hc : classes.Admitted classes.contains) :
    c.Fits classes := by
  obtain ⟨hnew, hadmitted⟩ := h.admitted hl hc
  rw [← knownIn_eq_contains] at hadmitted
  refine ⟨hadmitted, hnew, fun p hp => ?_⟩
  cases h with
  | intro _ _ hparent _ _ _ _ =>
    cases hparent with
    | none => cases hp
    | some _ _ _ hget =>
      cases hp
      rw [hc.name hget]
      exact hget

theorem Class.Fits.writable {classes : ClassTable} {c : Class} (h : c.Fits classes) :
    c.outline.Writable := by
  obtain ⟨name, methods, parent⟩ := c
  cases h.admitted with
  | intro hname hne _ hmethods hparent =>
    have hkinds : ∀ k ∈ parentKinds parent, k.IsLexeme := by
      cases parent with
      | none => exact fun k hk => (by cases hk)
      | some p =>
        obtain ⟨parentName, _, _⟩ := p
        cases hparent _ rfl with
        | intro hparentName _ _ _ _ =>
          exact isLexeme_parens (List.forall_mem_singleton.2 hparentName)
    refine ⟨⟨List.cons_ne_nil _ _, ?_⟩, ?_, (WritesMethods.of_forall hmethods).writable⟩
    · exact List.forall_mem_cons.2 ⟨trivial, List.forall_mem_cons.2 ⟨hname,
        List.forall_mem_append.2 ⟨hkinds, List.forall_mem_singleton.2 (by decide)⟩⟩⟩
    · obtain ⟨m, ms, rfl⟩ := List.exists_cons_of_ne_nil hne
      exact List.cons_ne_nil _ _

/-- The tokens of a class spell it behind the word that begins it, but for its places. -/
theorem Class.Fits.spells {classes classes' : ClassTable} {c : Class} (h : c.Fits classes)
    (hbare : classes'.bare = classes.bare) (hus : us.map (·.kind) = c.outline.kinds)
    (rest : List Token) :
    ∃ t ts c', us = t :: ts ∧ t.kind = .keyword .class_ ∧ c'.bare = c.bare ∧
      SpellsClass classes' (ts ++ rest) c' rest := by
  obtain ⟨name, methods, parent⟩ := c
  replace hus : us.map (·.kind) = .keyword .class_ :: .word name :: (parentKinds parent ++
      .symbol ':' :: .newline :: .indent ::
        (Outline.kindsAll (Method.outlines methods) ++ [.dedent])) := by
    rw [hus]
    simp [Outline.kinds, Class.outline]
  obtain ⟨t, us, rfl, ht, hus⟩ := List.map_eq_cons_iff.1 hus
  obtain ⟨u, us, rfl, hu, hus⟩ := List.map_eq_cons_iff.1 hus
  obtain ⟨vs, v, us, rfl, hvs, hv, hus⟩ := split_kinds hus
  obtain ⟨w, us, rfl, hw, hus⟩ := List.map_eq_cons_iff.1 hus
  obtain ⟨x, us, rfl, hx, hus⟩ := List.map_eq_cons_iff.1 hus
  obtain ⟨parent', hparent, hps⟩ :=
    spellsParent_of_kinds hbare h.parent hvs (v :: w :: x :: (us ++ rest))
  cases h.admitted with
  | intro _ _ hnodup hmethods _ =>
    have hknown : knownIn classes' name = knownIn classes name := by
      funext other
      rw [knownIn, knownIn, ClassTable.contains_of_bare hbare]
    obtain ⟨ms', hms', hms⟩ := (WritesMethods.of_forall hmethods).spells us rest hus
    rw [← hknown] at hms
    refine ⟨t, _, ⟨name, keptMethods ms', parent'⟩, rfl, ht, Class.bare_mk ?_ hparent, ?_⟩
    · rw [bare_keptMethods hms', keptMethods_of_nodup hnodup]
    · rw [List.cons_append, List.append_assoc]
      refine .intro hu ?_ hps hv hw hx hms
      rw [ClassTable.contains_of_bare hbare]
      exact h.new

/-! Programs -/

/-- Whatever the tokens of a source text spell can be written, and tokens of the kinds of what is
written spell it again, but for its places. -/
theorem Grammar.SpellsProgram.writes {classes after : ClassTable} {ts : List Token}
    {body : List Stmt} (h : SpellsProgram classes ts body after) (hl : Lexed ts)
    (hc : classes.Admitted classes.contains) :
    Outline.WritableAll (Stmt.outlinesAll body) ∧ ∀ {classes' : ClassTable} {us : List Token},
      classes'.bare = classes.bare → us.map (·.kind) = Outline.kindsAll (Stmt.outlinesAll body) →
        ∃ body' after', body'.map Stmt.bare = body.map Stmt.bare ∧ after'.bare = after.bare ∧
          SpellsProgram classes' us body' after' := by
  induction h with
  | nil =>
    refine ⟨trivial, fun {classes' us} hbare hus => ?_⟩
    obtain rfl := List.map_eq_nil_iff.1 hus
    exact ⟨[], classes', rfl, hbare, .nil⟩
  | cls ht hcls hp ih =>
    rename_i t ts r classes after c body
    have hfits := hcls.fits hl.tail hc
    obtain ⟨hadmitted, -⟩ := hcls.admitted_add hl.tail hc
    obtain ⟨hwritable, hspells⟩ := ih (hl.tail.spans hcls.spans) hadmitted
    refine ⟨⟨hfits.writable, hwritable⟩, fun {classes' us} hbare hus => ?_⟩
    obtain ⟨vs, ws, rfl, hvs, hws⟩ := List.map_eq_append_iff.1 hus
    obtain ⟨u, us, c', rfl, hu, hc', hcls'⟩ := hfits.spells hbare hvs ws
    have hadd (t : ClassTable) (c : Class) : (t.add c).bare = t.bare.add c.bare :=
      ClassTable.relocate_add .bare t c
    have htable : (classes'.add c').bare = (classes.add c).bare := by
      rw [hadd, hbare, hc', hadd]
    obtain ⟨body', after', hbody, hafter, hps⟩ := hspells htable hws
    refine ⟨.classDef c' u.pos :: body', after', ?_, hafter, .cls hu hcls' hps⟩
    rw [List.map_cons, List.map_cons, hbody]
    change Stmt.classDef c'.bare _ :: _ = _
    rw [hc']
    rfl
  | stmt hst hp ih =>
    rename_i ts r classes after st body
    have hwrites := st.writes (hst.admitted hl)
    obtain ⟨hwritable, hspells⟩ := ih (hl.spans hst.spans) hc
    refine ⟨Outline.writableAll_append.2 ⟨hwrites.writable, hwritable⟩,
      fun {classes' us} hbare hus => ?_⟩
    rw [Stmt.outlinesAll, Outline.kindsAll_append] at hus
    obtain ⟨vs, ws, rfl, hvs, hws⟩ := List.map_eq_append_iff.1 hus
    obtain ⟨st', hst', hss⟩ := hwrites.spells vs ws hvs
    obtain ⟨body', after', hbody, hafter, hps⟩ := hspells hbare hws
    rw [← ClassTable.contains_of_bare hbare] at hss
    refine ⟨st' :: body', after', ?_, hafter, .stmt hss hps⟩
    rw [List.map_cons, List.map_cons, hst', hbody]

namespace Program

/-- What is read from a source is written as a source that is read as the same statements and the
same classes, but for their places. -/
theorem exists_ofSource_source {s : String} {p : Program} (h : ofSource .empty s = .ok p) :
    ∃ p', ofSource .empty p.source = .ok p' ∧
      p'.statements.map Stmt.bare = p.statements.map Stmt.bare ∧
      p'.classes.bare = p.classes.bare := by
  obtain ⟨ls, hls, hspells⟩ := ofSource_eq_ok.1 h
  have hlexed : Lexed (laidOut (Text.sourceLines s.toList).length 0 ls) :=
    lexed_laidOut (wellFormed_of_readLines hls)
  obtain ⟨hwritable, hagain⟩ := hspells.writes hlexed ClassTable.admitted_empty
  obtain ⟨ls', hls', hkinds⟩ := Outline.exists_readLines_source hwritable
  obtain ⟨body', after', hbody, hafter, hspells'⟩ := hagain rfl (hkinds _)
  exact ⟨⟨body', after'⟩, ofSource_eq_ok.2 ⟨ls', hls', hspells'⟩, hbody, hafter⟩

/-- A source with parentheses that do not matter and some that do, a sign, comments and escapes. -/
def looseSource : String :=
  "class A:\n  def f(self, x):  # twice\n\n    return (x + 1) * -2\na = (A())\n" ++
  "if not (a.f(1) == 2 - (3 - 4)):\n  print \"c\\\"\\n\", (str((a)))\nelse:\n  a.x = (1) # one\n"

/-- The source that is written for the program of the loose one. -/
def tightSource : String :=
  "class A:\n  def f(x):\n    return (x + 1) * (0 - 2)\na = A()\n" ++
  "if not a.f(1) == 2 - (3 - 4):\n  print \"c\\\"\\n\", str(a)\nelse:\n  a.x = 1\n"

theorem ofSource_looseSource : ∃ p, ofSource .empty looseSource = .ok p ∧
    p.source = tightSource ∧ ∃ p', ofSource .empty p.source = .ok p' ∧
      p'.statements.map Stmt.bare = p.statements.map Stmt.bare ∧
      p'.classes.bare = p.classes.bare := by
  have hwritten : (match ofSource .empty looseSource with
      | .error _ => false
      | .ok p => decide (p.source = tightSource)) = true := by
    decide +kernel
  split at hwritten
  · cases hwritten
  · rename_i p h
    exact ⟨p, h, of_decide_eq_true hwritten, exists_ofSource_source h⟩

end Program

end ClassLang
