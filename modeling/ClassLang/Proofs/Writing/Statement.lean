import ClassLang.Proofs.Writing.Expression
import ClassLang.Proofs.Writing.Outline

/-!
Statements as outlines. A statement of one line is that line, a branch is a line with a suite and
perhaps another one behind `else`, and a class is written with the methods that it has kept and
their parameters without the receiver. Tokens of an outline, wherever they stand, spell the
statement but for its places.
-/

namespace ClassLang

open Grammar

/-- The tokens of names with commas between them, in parentheses. -/
def paramKinds (params : List String) : List Kind :=
  parens (commas (params.map fun param => [.word param]))

/-- The tokens behind the name of a class that name its parent. -/
def parentKinds : Option Class → List Kind
  | none => []
  | some parent => parens [.word parent.name]

mutual

/-- The outlines of a statement. -/
def Stmt.outlines : Stmt → List Outline
  | .assign name value _ => [.line (.word name :: .symbol '=' :: value.kinds .or)]
  | .assignField object field value _ =>
    [.line (object.kinds .or ++ .symbol '.' :: .word field :: .symbol '=' :: value.kinds .or)]
  | .print args _ => [.line (.keyword .print :: commas (Expr.kindsAll args))]
  | .classDef cls _ => [cls.outline]
  | .branch condition yes no _ =>
    .suite (.keyword .if_ :: (condition.kinds .or ++ [.symbol ':'])) yes.outlines ::
      Stmt.outlinesElse no
  | .block body _ => Stmt.outlinesAll body
  | .give value _ => [.line (.keyword .return_ :: value.kinds .or)]
  | .methodBody body _ => body.outlines
  | .expr value _ => [.line (value.kinds .or)]
termination_by structural s => s

/-- The outlines of what stands behind `else`. -/
def Stmt.outlinesElse : Option Stmt → List Outline
  | none => []
  | some s => [.suite [.keyword .else_, .symbol ':'] s.outlines]
termination_by structural s => s

/-- The outlines of statements. -/
def Stmt.outlinesAll : List Stmt → List Outline
  | [] => []
  | s :: ss => s.outlines ++ Stmt.outlinesAll ss
termination_by structural ss => ss

/-- The outline of a class: its methods are its suite, whatever its parent has. -/
def Class.outline : Class → Outline
  | ⟨name, methods, parent⟩ =>
    .suite (.keyword .class_ :: .word name :: (parentKinds parent ++ [.symbol ':']))
      (Method.outlines methods)
termination_by structural c => c

/-- The outline of a method. -/
def Method.outline : Method → Outline
  | ⟨name, params, body⟩ =>
    .suite (.keyword .def_ :: .word name :: (paramKinds params ++ [.symbol ':'])) body.outlines
termination_by structural m => m

/-- The outlines of methods. -/
def Method.outlines : List Method → List Outline
  | [] => []
  | m :: ms => m.outline :: Method.outlines ms
termination_by structural ms => ms

end

/-! Statements of one line -/

variable {known : String → Bool} {inMethod : Bool} {ks ks' : List Kind} {st : Stmt}

theorem Writes.ne_nil {l : Level} {e : Expr} (h : Writes known l ks e) : ks ≠ [] := by
  rintro rfl
  obtain ⟨e', -, hs⟩ := h.spells [] [] rfl
  obtain ⟨t, r, n, hts, -⟩ := hs.begins
  cases hts

theorem assignment_concat {path : List String} (hne : path ≠ []) (field : String) (value : Expr)
    (pos : Pos) : Grammar.assignment (path ++ [field]) value pos =
      .assignField (.name path pos) field value pos := by
  obtain ⟨root, fields, rfl⟩ := List.exists_cons_of_ne_nil hne
  rw [Grammar.assignment, List.getLast?_concat, List.dropLast_concat]

theorem bare_assignment (path : List String) (value : Expr) (pos : Pos) :
    (Grammar.assignment path value pos).bare = Grammar.assignment path value.bare ⟨0, 0⟩ :=
  relocate_assignment ..

/-- Holds of rows of tokens that spell a statement of one line, but for its places. -/
structure WritesSimple (known : String → Bool) (inMethod : Bool) (ks : List Kind) (st : Stmt) :
    Prop where
  row : WritableRow ks
  spells : ∀ us rest, us.map (·.kind) = ks →
    ∃ st', st'.bare = st.bare ∧ SpellsSimple known inMethod (us ++ rest) st' rest

namespace WritesSimple

theorem expr {value : Expr} (h : Writes known .or ks value) (pos : Pos) :
    WritesSimple known inMethod ks (.expr value pos) := by
  refine ⟨⟨h.ne_nil, h.isLexeme⟩, fun us rest hus => ?_⟩
  obtain ⟨e', he', hs⟩ := h.spells us rest hus
  refine ⟨.expr e' (firstPos (us ++ rest)), ?_, .expr hs⟩
  change Stmt.expr e'.bare _ = _
  rw [he']
  rfl

theorem give {value : Expr} (hin : inMethod = true) (h : Writes known .or ks value) (pos : Pos) :
    WritesSimple known inMethod (.keyword .return_ :: ks) (.give value pos) := by
  refine ⟨⟨List.cons_ne_nil _ _, List.forall_mem_cons.2 ⟨trivial, h.isLexeme⟩⟩,
    fun us rest hus => ?_⟩
  obtain ⟨t, us, rfl, ht, hus⟩ := List.map_eq_cons_iff.1 hus
  obtain ⟨e', he', hs⟩ := h.spells us rest hus
  refine ⟨.give e' t.pos, ?_, .give hin ht hs⟩
  change Stmt.give e'.bare _ = _
  rw [he']
  rfl

theorem print {args : List Expr} (h : ∀ e ∈ args, Writes known .or (e.kinds .or) e) (pos : Pos) :
    WritesSimple known inMethod (.keyword .print :: commas (args.map (·.kinds .or)))
      (.print args pos) := by
  cases args with
  | nil =>
    refine ⟨⟨List.cons_ne_nil _ _, List.forall_mem_singleton.2 trivial⟩, fun us rest hus => ?_⟩
    obtain ⟨t, us, rfl, ht, hus⟩ := List.map_eq_cons_iff.1 hus
    obtain rfl := List.map_eq_nil_iff.1 hus
    exact ⟨.print [] t.pos, rfl, .printNone ht⟩
  | cons e es =>
    have hlist := WritesList.of_forall h
    refine ⟨⟨List.cons_ne_nil _ _, List.forall_mem_cons.2 ⟨trivial, hlist.isLexeme⟩⟩,
      fun us rest hus => ?_⟩
    obtain ⟨t, us, rfl, ht, hus⟩ := List.map_eq_cons_iff.1 hus
    obtain ⟨es', hes', hs⟩ := hlist.spells us rest hus
    refine ⟨.print es' t.pos, ?_, .print ht hs⟩
    rw [Stmt.bare, Stmt.relocate, Expr.relocateAll_eq_map, hes', Stmt.bare, Stmt.relocate,
      Expr.relocateAll_eq_map]
    rfl

/-- An assignment to a dotted name. -/
theorem assignment {path : List String} {value : Expr} (hne : path ≠ [])
    (hpath : ∀ name ∈ path, IsName name) (hv : Writes known .or ks value)
    (hst : ∀ pos, (Grammar.assignment path value pos).bare = st.bare) :
    WritesSimple known inMethod (pathKinds path ++ .symbol '=' :: ks) st := by
  have hname : Writes known .or (pathKinds path) (.name path ⟨0, 0⟩) :=
    (Writes.name hne hpath ⟨0, 0⟩).lift (by decide)
  refine ⟨⟨List.append_ne_nil_of_left_ne_nil hname.ne_nil _, List.forall_mem_append.2
    ⟨hname.isLexeme, List.forall_mem_cons.2 ⟨by decide, hv.isLexeme⟩⟩⟩, fun us rest hus => ?_⟩
  obtain ⟨vs, t, ws, rfl, hvs, ht, hws⟩ := split_kinds hus
  obtain ⟨target, htarget, hp⟩ := hname.spells vs (t :: (ws ++ rest)) hvs
  obtain ⟨e', he', hs⟩ := hv.spells ws rest hws
  cases target with
  | name path' pos =>
    obtain ⟨rfl, -⟩ := Expr.name.inj htarget
    rw [List.append_assoc, List.cons_append]
    refine ⟨_, ?_, .assign hp ht hs⟩
    rw [bare_assignment, he', ← bare_assignment path' value ⟨0, 0⟩, hst]
  | _ => cases htarget

end WritesSimple

/-! Statements of several lines -/

/-- The tokens of a suite behind the tokens of its line. -/
def suiteKinds (body : List Outline) : List Kind :=
  .newline :: .indent :: (Outline.kindsAll body ++ [.dedent])

/-- Holds of outlines whose tokens spell a statement, but for its places. -/
structure WritesStmt (known : String → Bool) (inMethod : Bool) (os : List Outline) (st : Stmt) :
    Prop where
  writable : Outline.WritableAll os
  ne_nil : os ≠ []
  spells : ∀ us rest, us.map (·.kind) = Outline.kindsAll os →
    ∃ st', st'.bare = st.bare ∧ SpellsStmt known inMethod (us ++ rest) st' rest

/-- Holds of outlines whose tokens, as a suite, spell a block, but for its places. -/
structure WritesSuite (known : String → Bool) (inMethod : Bool) (os : List Outline) (st : Stmt) :
    Prop where
  writable : Outline.WritableAll os
  ne_nil : os ≠ []
  spells : ∀ us rest, us.map (·.kind) = suiteKinds os →
    ∃ st', st'.bare = st.bare ∧ SpellsSuite known inMethod (us ++ rest) st' rest

/-- Holds of outlines whose tokens, up to a dedent, spell statements, but for their places. -/
structure WritesBlock (known : String → Bool) (inMethod : Bool) (os : List Outline)
    (body : List Stmt) : Prop where
  writable : Outline.WritableAll os
  spells : ∀ us rest, us.map (·.kind) = Outline.kindsAll os ++ [.dedent] →
    ∃ body', body'.map Stmt.bare = body.map Stmt.bare ∧
      SpellsBlock known inMethod (us ++ rest) body' rest

variable {os os' : List Outline}

namespace Outline

theorem writableAll_append : WritableAll (os ++ os') ↔ WritableAll os ∧ WritableAll os' := by
  induction os with
  | nil => exact (and_iff_right trivial).symm
  | cons o os ih => rw [List.cons_append, WritableAll, WritableAll, ih, and_assoc]

theorem kindsAll_append (os os' : List Outline) :
    kindsAll (os ++ os') = kindsAll os ++ kindsAll os' := by
  induction os with
  | nil => rfl
  | cons o os ih => rw [List.cons_append, kindsAll, kindsAll, ih, List.append_assoc]

end Outline

theorem WritesStmt.simple (h : WritesSimple known inMethod ks st) :
    WritesStmt known inMethod [.line ks] st := by
  refine ⟨⟨h.row, trivial⟩, List.cons_ne_nil _ _, fun us rest hus => ?_⟩
  rw [Outline.kindsAll, Outline.kindsAll, Outline.kinds, List.append_nil] at hus
  obtain ⟨vs, t, ws, rfl, hvs, ht, hws⟩ := split_kinds hus
  obtain rfl := List.map_eq_nil_iff.1 hws
  obtain ⟨st', hst', hs⟩ := h.spells vs (t :: rest) hvs
  rw [List.append_assoc]
  exact ⟨st', hst', .simple hs ht⟩

/-- The line of a branch. -/
theorem writableRow_if {cond : Expr} (h : Writes known .or ks cond) :
    WritableRow (.keyword .if_ :: (ks ++ [.symbol ':'])) :=
  ⟨List.cons_ne_nil _ _, List.forall_mem_cons.2 ⟨trivial, List.forall_mem_append.2
    ⟨h.isLexeme, List.forall_mem_singleton.2 (by decide)⟩⟩⟩

theorem WritesStmt.branch {cond : Expr} {yes : Stmt} (hc : Writes known .or ks cond)
    (hy : WritesSuite known inMethod os yes) (pos : Pos) :
    WritesStmt known inMethod [.suite (.keyword .if_ :: (ks ++ [.symbol ':'])) os]
      (.branch cond yes none pos) := by
  refine ⟨⟨⟨writableRow_if hc, hy.ne_nil, hy.writable⟩, trivial⟩, List.cons_ne_nil _ _,
    fun us rest hus => ?_⟩
  replace hus : us.map (·.kind) = .keyword .if_ :: (ks ++ .symbol ':' :: suiteKinds os) := by
    rw [hus]
    simp [Outline.kindsAll, Outline.kinds, suiteKinds]
  obtain ⟨t, us, rfl, ht, hus⟩ := List.map_eq_cons_iff.1 hus
  obtain ⟨vs, u, ws, rfl, hvs, hu, hws⟩ := split_kinds hus
  obtain ⟨cond', hcond, hcs⟩ := hc.spells vs (u :: (ws ++ rest)) hvs
  obtain ⟨yes', hyes, hys⟩ := hy.spells ws rest hws
  rw [List.cons_append, List.append_assoc]
  refine ⟨.branch cond' yes' none t.pos, ?_, .branch ht hcs hu hys⟩
  change Stmt.branch cond'.bare yes'.bare none _ = _
  rw [hcond, hyes]
  rfl

theorem WritesStmt.branchElse {cond : Expr} {yes no : Stmt} (hc : Writes known .or ks cond)
    (hy : WritesSuite known inMethod os yes) (hn : WritesSuite known inMethod os' no) (pos : Pos) :
    WritesStmt known inMethod [.suite (.keyword .if_ :: (ks ++ [.symbol ':'])) os,
      .suite [.keyword .else_, .symbol ':'] os'] (.branch cond yes (some no) pos) := by
  have helse : WritableRow [.keyword .else_, .symbol ':'] :=
    ⟨List.cons_ne_nil _ _, List.forall_mem_cons.2 ⟨trivial,
      List.forall_mem_singleton.2 (by decide)⟩⟩
  refine ⟨⟨⟨writableRow_if hc, hy.ne_nil, hy.writable⟩, ⟨helse, hn.ne_nil, hn.writable⟩, trivial⟩,
    List.cons_ne_nil _ _, fun us rest hus => ?_⟩
  replace hus : us.map (·.kind) = .keyword .if_ :: (ks ++ .symbol ':' ::
      (suiteKinds os ++ .keyword .else_ :: .symbol ':' :: suiteKinds os')) := by
    rw [hus]
    simp [Outline.kindsAll, Outline.kinds, suiteKinds]
  obtain ⟨t, us, rfl, ht, hus⟩ := List.map_eq_cons_iff.1 hus
  obtain ⟨vs, u, us, rfl, hvs, hu, hus⟩ := split_kinds hus
  obtain ⟨ws, v, us, rfl, hws, hv, hus⟩ := split_kinds hus
  obtain ⟨w, xs, rfl, hw, hxs⟩ := List.map_eq_cons_iff.1 hus
  obtain ⟨cond', hcond, hcs⟩ := hc.spells vs (u :: (ws ++ v :: w :: (xs ++ rest))) hvs
  obtain ⟨yes', hyes, hys⟩ := hy.spells ws (v :: w :: (xs ++ rest)) hws
  obtain ⟨no', hno, hns⟩ := hn.spells xs rest hxs
  rw [List.cons_append, List.append_assoc, List.cons_append, List.append_assoc]
  refine ⟨.branch cond' yes' (some no') t.pos, ?_, .branchElse ht hcs hu hys hv hw hns⟩
  change Stmt.branch cond'.bare yes'.bare (some no'.bare) _ = _
  rw [hcond, hyes, hno]
  rfl

/-! Blocks -/

namespace WritesBlock

theorem nil : WritesBlock known inMethod [] [] := by
  refine ⟨trivial, fun us rest hus => ?_⟩
  obtain ⟨t, us, rfl, ht, hus⟩ := List.map_eq_cons_iff.1 hus
  obtain rfl := List.map_eq_nil_iff.1 hus
  exact ⟨[], rfl, .nil ht⟩

theorem cons {body : List Stmt} (hs : WritesStmt known inMethod os st)
    (hb : WritesBlock known inMethod os' body) :
    WritesBlock known inMethod (os ++ os') (st :: body) := by
  refine ⟨Outline.writableAll_append.2 ⟨hs.writable, hb.writable⟩, fun us rest hus => ?_⟩
  rw [Outline.kindsAll_append, List.append_assoc] at hus
  obtain ⟨vs, ws, rfl, hvs, hws⟩ := List.map_eq_append_iff.1 hus
  obtain ⟨st', hst', hss⟩ := hs.spells vs (ws ++ rest) hvs
  obtain ⟨body', hbody', hbs⟩ := hb.spells ws rest hws
  rw [List.append_assoc]
  refine ⟨st' :: body', ?_, .cons hss hbs⟩
  rw [List.map_cons, List.map_cons, hst', hbody']

theorem suite {body : List Stmt} (h : WritesBlock known inMethod os body) (hne : os ≠ [])
    (pos : Pos) : WritesSuite known inMethod os (.block body pos) := by
  refine ⟨h.writable, hne, fun us rest hus => ?_⟩
  obtain ⟨t, us, rfl, ht, hus⟩ := List.map_eq_cons_iff.1 hus
  obtain ⟨u, us, rfl, hu, hus⟩ := List.map_eq_cons_iff.1 hus
  obtain ⟨body', hbody', hs⟩ := h.spells us rest hus
  refine ⟨.block body' t.pos, ?_, .block ht hu hs⟩
  rw [Stmt.bare, Stmt.relocate, Stmt.relocateAll_eq_map, hbody', Stmt.bare, Stmt.relocate,
    Stmt.relocateAll_eq_map]
  rfl

end WritesBlock

namespace Stmt

mutual

/-- The outlines of a statement spell it, but for its places. -/
theorem writes : (s : Stmt) → s.Admitted known inMethod → WritesStmt known inMethod s.outlines s
  | .assign name value pos, ⟨hname, hv⟩ => by
    have hvalue := value.writes hv (value.floor_le_rank (l := .or) (by decide))
    have hpath : ∀ part ∈ [name], IsName part := List.forall_mem_singleton.2 hname
    exact .simple (.assignment (List.cons_ne_nil _ _) hpath hvalue fun _ => rfl)
  | .assignField (.name path pos) field value pos', ⟨_, ⟨hne, hpath⟩, hfield, hv⟩ => by
    have hkinds : pathKinds (path ++ [field]) = pathKinds path ++ [.symbol '.', .word field] := by
      obtain ⟨root, fields, rfl⟩ := List.exists_cons_of_ne_nil hne
      simp [pathKinds, fieldKinds]
    have hnames : ∀ name ∈ path ++ [field], IsName name :=
      List.forall_mem_append.2 ⟨hpath, List.forall_mem_singleton.2 hfield⟩
    have hvalue := value.writes hv (value.floor_le_rank (l := .or) (by decide))
    have hwrites : WritesSimple known inMethod (pathKinds (path ++ [field]) ++ .symbol '=' ::
        value.kinds .or) (.assignField (.name path pos) field value pos') := by
      refine .assignment (List.append_ne_nil_of_left_ne_nil hne _) hnames hvalue fun _ => ?_
      rw [assignment_concat hne]
      rfl
    rw [hkinds, List.append_assoc] at hwrites
    exact .simple hwrites
  | .print args pos, h => by
    have hargs := Expr.writesAll args h
    rw [outlines, Expr.kindsAll_eq_map]
    exact .simple (.print hargs pos)
  | .branch cond yes none pos, ⟨hc, hy, _⟩ =>
    .branch (cond.writes hc (cond.floor_le_rank (by decide))) (writesSuite yes hy) pos
  | .branch cond yes (some no) pos, ⟨hc, hy, hn⟩ =>
    .branchElse (cond.writes hc (cond.floor_le_rank (by decide))) (writesSuite yes hy)
      (writesSuite no hn) pos
  | .give value pos, ⟨hin, hv⟩ =>
    .simple (.give hin (value.writes hv (value.floor_le_rank (by decide))) pos)
  | .expr value pos, hv => .simple (.expr (value.writes hv (value.floor_le_rank (by decide))) pos)

/-- The outlines of a block spell it as a suite, but for its places. -/
theorem writesSuite : (s : Stmt) → s.AdmittedSuite known inMethod →
    WritesSuite known inMethod s.outlines s
  | .block (s :: ss) pos, ⟨_, hs, hss⟩ => by
    have hfirst := writes s hs
    exact (WritesBlock.cons hfirst (writesAll ss hss)).suite
      (List.append_ne_nil_of_left_ne_nil hfirst.ne_nil _) pos

theorem writesAll : (ss : List Stmt) → AdmittedAll known inMethod ss →
    WritesBlock known inMethod (outlinesAll ss) ss
  | [], _ => .nil
  | s :: ss, ⟨hs, hss⟩ => .cons (writes s hs) (writesAll ss hss)

end

end Stmt

end ClassLang
