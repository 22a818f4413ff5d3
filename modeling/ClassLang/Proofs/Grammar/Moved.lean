import ClassLang.Proofs.Grammar.Extent
import ClassLang.Proofs.Grammar.Admitted
import ClassLang.Proofs.Grammar.Complete.Statement

/-!
Tokens at other places, in front of others. They spell what the tokens at the old places spell, with
its places moved as the tokens are. A dedent may stand anywhere: no tree has its place.
-/

namespace ClassLang.Grammar

open Token

/-- Holds of tokens at other places with more behind them. -/
inductive Moved (f : Pos → Pos) (more : List Token) : List Token → List Token → Prop where
  | nil : Moved f more [] more
  | cons {t u : Token} {ts us : List Token} :
      u.kind = t.kind → (t.kind ≠ .dedent → u.pos = f t.pos) → Moved f more ts us →
      Moved f more (t :: ts) (u :: us)

variable {known : String → Bool} {inMethod : Bool} {f : Pos → Pos}
  {more ts rest us : List Token} {m : Relocation}

/-- A token of a known kind is moved with what follows it. -/
theorem Moved.uncons {t : Token} {k : Kind} (h : Moved f more (t :: ts) us) (ht : t.kind = k)
    (hk : k ≠ .dedent) :
    ∃ u us', us = u :: us' ∧ u.kind = k ∧ u.pos = f t.pos ∧ Moved f more ts us' := by
  cases h with
  | cons hkind hpos hs =>
    subst ht
    exact ⟨_, _, rfl, hkind, hpos hk, hs⟩

theorem Moved.uncons_dedent {t : Token} (h : Moved f more (t :: ts) us) (ht : t.kind = .dedent) :
    ∃ u us', us = u :: us' ∧ u.kind = .dedent ∧ Moved f more ts us' := by
  cases h with
  | cons hkind _ hs => exact ⟨_, _, rfl, hkind.trans ht, hs⟩

theorem SpellsFields.moved {names : List String} (h : SpellsFields ts names rest)
    (hm : Moved f more ts us) :
    ∃ rest', Moved f more rest rest' ∧ SpellsFields us names rest' := by
  induction h generalizing us with
  | nil => exact ⟨us, hm, .nil⟩
  | cons ht hu _ ih =>
    obtain ⟨t', us₁, rfl, ht', -, hm₁⟩ := hm.uncons ht Kind.noConfusion
    obtain ⟨u', us₂, rfl, hu', -, hm₂⟩ := hm₁.uncons hu Kind.noConfusion
    obtain ⟨rest', hrest, hs⟩ := ih hm₂
    exact ⟨rest', hrest, .cons ht' hu' hs⟩

theorem relocate_of_operator? {l : Level} {k : Kind} {build : Expr → Expr → Pos → Expr}
    (h : l.operator? k = some build) (left right : Expr) (pos : Pos) :
    (build left right pos).relocate f = build (left.relocate f) (right.relocate f) (f pos) := by
  unfold Level.operator? at h
  split at h <;> first | (cases h; rfl) | cases h

mutual

theorem Spells.moved {l : Level} {ts rest us : List Token} {e : Expr} :
    Spells known l ts e rest → Moved f more ts us →
      ∃ rest', Moved f more rest rest' ∧ Spells known l us (e.relocate f) rest'
  | .literal (t := t) h, hm => by
    have hne := isMark_of_literal? h
    obtain ⟨u, us', rfl, hu, hpos, hm'⟩ := hm.uncons rfl (ne_of_isMark hne rfl)
    rw [← hu] at h
    rw [Expr.relocate, ← hpos]
    exact ⟨us', hm', .literal h⟩
  | .paren ht he hu, hm => by
    obtain ⟨t', us₁, rfl, ht', -, hm₁⟩ := hm.uncons ht Kind.noConfusion
    obtain ⟨us₂, hm₂, he'⟩ := he.moved hm₁
    obtain ⟨u', us₃, rfl, hu', -, hm₃⟩ := hm₂.uncons hu Kind.noConfusion
    exact ⟨us₃, hm₃, .paren ht' he' hu'⟩
  | .conversion ht hu ha, hm => by
    obtain ⟨t', us₁, rfl, ht', hpos, hm₁⟩ := hm.uncons ht Kind.noConfusion
    obtain ⟨u', us₂, rfl, hu', -, hm₂⟩ := hm₁.uncons hu Kind.noConfusion
    obtain ⟨us₃, hm₃, ha'⟩ := ha.moved hm₂
    rw [Expr.relocate, ← hpos]
    exact ⟨us₃, hm₃, .conversion ht' hu' ha'⟩
  | .construction ht hne hk hu ha, hm => by
    obtain ⟨t', us₁, rfl, ht', hpos, hm₁⟩ := hm.uncons ht Kind.noConfusion
    obtain ⟨u', us₂, rfl, hu', -, hm₂⟩ := hm₁.uncons hu Kind.noConfusion
    obtain ⟨us₃, hm₃, ha'⟩ := ha.moved hm₂
    rw [Expr.relocate, ← hpos]
    exact ⟨us₃, hm₃, .construction ht' hne hk hu' ha'⟩
  | .dottedCall ht hf hu ha, hm => by
    obtain ⟨t', us₁, rfl, ht', hpos, hm₁⟩ := hm.uncons ht Kind.noConfusion
    obtain ⟨us₂, hm₂, hf'⟩ := hf.moved hm₁
    obtain ⟨u', us₃, rfl, hu', hpos', hm₃⟩ := hm₂.uncons hu Kind.noConfusion
    obtain ⟨us₄, hm₄, ha'⟩ := ha.moved hm₃
    rw [Expr.relocate, Expr.relocate, ← hpos, ← hpos']
    exact ⟨us₄, hm₄, .dottedCall ht' hf' hu' ha'⟩
  | .methodCall he ht hu hv ha, hm => by
    obtain ⟨us₁, hm₁, he'⟩ := he.moved hm
    obtain ⟨t', us₂, rfl, ht', hpos, hm₂⟩ := hm₁.uncons ht Kind.noConfusion
    obtain ⟨u', us₃, rfl, hu', -, hm₃⟩ := hm₂.uncons hu Kind.noConfusion
    obtain ⟨v', us₄, rfl, hv', -, hm₄⟩ := hm₃.uncons hv Kind.noConfusion
    obtain ⟨us₅, hm₅, ha'⟩ := ha.moved hm₄
    rw [Expr.relocate, ← hpos]
    exact ⟨us₅, hm₅, .methodCall he' ht' hu' hv' ha'⟩
  | .name ht hf, hm => by
    obtain ⟨t', us₁, rfl, ht', hpos, hm₁⟩ := hm.uncons ht Kind.noConfusion
    obtain ⟨us₂, hm₂, hf'⟩ := hf.moved hm₁
    rw [Expr.relocate, ← hpos]
    exact ⟨us₂, hm₂, .name ht' hf'⟩
  | .minus ht he, hm => by
    obtain ⟨t', us₁, rfl, ht', hpos, hm₁⟩ := hm.uncons ht Kind.noConfusion
    obtain ⟨us₂, hm₂, he'⟩ := he.moved hm₁
    rw [Expr.relocate, Expr.relocate, ← hpos]
    exact ⟨us₂, hm₂, .minus ht' he'⟩
  | .compare hl hop hr, hm => by
    have hne := isMark_of_comparison? hop
    obtain ⟨us₁, hm₁, hl'⟩ := hl.moved hm
    obtain ⟨t', us₂, rfl, ht', hpos, hm₂⟩ := hm₁.uncons rfl (ne_of_isMark hne rfl)
    obtain ⟨us₃, hm₃, hr'⟩ := hr.moved hm₂
    rw [← ht'] at hop
    rw [Expr.relocate, ← hpos]
    exact ⟨us₃, hm₃, .compare hl' hop hr'⟩
  | .negation ht he, hm => by
    obtain ⟨t', us₁, rfl, ht', hpos, hm₁⟩ := hm.uncons ht Kind.noConfusion
    obtain ⟨us₂, hm₂, he'⟩ := he.moved hm₁
    rw [Expr.relocate, ← hpos]
    exact ⟨us₂, hm₂, .negation ht' he'⟩
  | .row hl hop hr heq, hm => by
    have hne := isMark_of_operator? hop
    have hbuild := relocate_of_operator? (f := f) hop
    obtain ⟨us₁, hm₁, hl'⟩ := hl.moved hm
    obtain ⟨t', us₂, rfl, ht', hpos, hm₂⟩ := hm₁.uncons rfl (ne_of_isMark hne rfl)
    obtain ⟨us₃, hm₃, hr'⟩ := hr.moved hm₂
    rw [← ht'] at hop
    rw [← heq, hbuild, ← hpos]
    exact ⟨us₃, hm₃, .row hl' hop hr' rfl⟩
  | .operand hl he, hm => by
    obtain ⟨us₁, hm₁, he'⟩ := he.moved hm
    exact ⟨us₁, hm₁, .operand hl he'⟩

theorem SpellsArgs.moved {ts rest us : List Token} {es : List Expr} :
    SpellsArgs known ts es rest → Moved f more ts us →
      ∃ rest', Moved f more rest rest' ∧ SpellsArgs known us (Expr.relocateAll f es) rest'
  | .nil ht, hm => by
    obtain ⟨t', us₁, rfl, ht', -, hm₁⟩ := hm.uncons ht Kind.noConfusion
    exact ⟨us₁, hm₁, .nil ht'⟩
  | .list hs ht, hm => by
    obtain ⟨us₁, hm₁, hs'⟩ := hs.moved hm
    obtain ⟨t', us₂, rfl, ht', -, hm₂⟩ := hm₁.uncons ht Kind.noConfusion
    exact ⟨us₂, hm₂, .list hs' ht'⟩

theorem SpellsList.moved {ts rest us : List Token} {es : List Expr} :
    SpellsList known ts es rest → Moved f more ts us →
      ∃ rest', Moved f more rest rest' ∧ SpellsList known us (Expr.relocateAll f es) rest'
  | .one he, hm => by
    obtain ⟨us₁, hm₁, he'⟩ := he.moved hm
    exact ⟨us₁, hm₁, .one he'⟩
  | .cons he ht hs, hm => by
    obtain ⟨us₁, hm₁, he'⟩ := he.moved hm
    obtain ⟨t', us₂, rfl, ht', -, hm₂⟩ := hm₁.uncons ht Kind.noConfusion
    obtain ⟨us₃, hm₃, hs'⟩ := hs.moved hm₂
    exact ⟨us₃, hm₃, .cons he' ht' hs'⟩

end

/-! Statements -/

theorem Begins.firstPos_moved {l : Level} (h : Begins l ts) (hm : Moved f more ts us) :
    firstPos us = f (firstPos ts) := by
  obtain ⟨t, r, n, rfl, ht, -⟩ := h
  have hne : t.kind ≠ .dedent := by
    intro hdedent
    rw [hdedent] at ht
    cases ht
  obtain ⟨u, us', rfl, -, hpos, -⟩ := hm.uncons rfl hne
  exact hpos

theorem relocate_assignment (m : Relocation) (path : List String) (e : Expr) (pos : Pos) :
    (assignment path e pos).relocate m = assignment path (e.relocate m.place) (m.place pos) := by
  unfold assignment
  split <;> rfl

theorem SpellsSimple.moved {st : Stmt} (h : SpellsSimple known inMethod ts st rest)
    (hm : Moved m.place more ts us) :
    ∃ rest', Moved m.place more rest rest' ∧
      SpellsSimple known inMethod us (st.relocate m) rest' := by
  cases h with
  | giveNone hin ht =>
    obtain ⟨t', us₁, rfl, ht', hpos, hm₁⟩ := hm.uncons ht Kind.noConfusion
    rw [Stmt.relocate, Expr.relocate, ← hpos]
    exact ⟨us₁, hm₁, .giveNone hin ht'⟩
  | give hin ht he =>
    obtain ⟨t', us₁, rfl, ht', hpos, hm₁⟩ := hm.uncons ht Kind.noConfusion
    obtain ⟨us₂, hm₂, he'⟩ := he.moved hm₁
    rw [Stmt.relocate, ← hpos]
    exact ⟨us₂, hm₂, .give hin ht' he'⟩
  | printNone ht =>
    obtain ⟨t', us₁, rfl, ht', hpos, hm₁⟩ := hm.uncons ht Kind.noConfusion
    rw [Stmt.relocate, ← hpos]
    exact ⟨us₁, hm₁, .printNone ht'⟩
  | print ht hs =>
    obtain ⟨t', us₁, rfl, ht', hpos, hm₁⟩ := hm.uncons ht Kind.noConfusion
    obtain ⟨us₂, hm₂, hs'⟩ := hs.moved hm₁
    rw [Stmt.relocate, ← hpos]
    exact ⟨us₂, hm₂, .print ht' hs'⟩
  | assign hp ht he =>
    have hpos := hp.begins.firstPos_moved hm
    obtain ⟨us₁, hm₁, hp'⟩ := hp.moved hm
    obtain ⟨t', us₂, rfl, ht', -, hm₂⟩ := hm₁.uncons ht Kind.noConfusion
    obtain ⟨us₃, hm₃, he'⟩ := he.moved hm₂
    rw [relocate_assignment, ← hpos]
    exact ⟨us₃, hm₃, .assign hp' ht' he'⟩
  | expr he =>
    have hpos := he.begins.firstPos_moved hm
    obtain ⟨us₁, hm₁, he'⟩ := he.moved hm
    rw [Stmt.relocate, ← hpos]
    exact ⟨us₁, hm₁, .expr he'⟩

mutual

theorem SpellsStmt.moved {ts rest us : List Token} {st : Stmt} :
    SpellsStmt known inMethod ts st rest → Moved m.place more ts us →
      ∃ rest', Moved m.place more rest rest' ∧ SpellsStmt known inMethod us (st.relocate m) rest'
  | .simple hs ht, hm => by
    obtain ⟨us₁, hm₁, hs'⟩ := hs.moved hm
    obtain ⟨t', us₂, rfl, ht', -, hm₂⟩ := hm₁.uncons ht Kind.noConfusion
    exact ⟨us₂, hm₂, .simple hs' ht'⟩
  | .branch ht hc hu hs, hm => by
    obtain ⟨t', us₁, rfl, ht', hpos, hm₁⟩ := hm.uncons ht Kind.noConfusion
    obtain ⟨us₂, hm₂, hc'⟩ := hc.moved hm₁
    obtain ⟨u', us₃, rfl, hu', -, hm₃⟩ := hm₂.uncons hu Kind.noConfusion
    obtain ⟨us₄, hm₄, hs'⟩ := hs.moved hm₃
    rw [Stmt.relocate, Stmt.relocateElse, ← hpos]
    exact ⟨us₄, hm₄, .branch ht' hc' hu' hs'⟩
  | .branchElse ht hc hu hs hv hw hs₂, hm => by
    obtain ⟨t', us₁, rfl, ht', hpos, hm₁⟩ := hm.uncons ht Kind.noConfusion
    obtain ⟨us₂, hm₂, hc'⟩ := hc.moved hm₁
    obtain ⟨u', us₃, rfl, hu', -, hm₃⟩ := hm₂.uncons hu Kind.noConfusion
    obtain ⟨us₄, hm₄, hs'⟩ := hs.moved hm₃
    obtain ⟨v', us₅, rfl, hv', -, hm₅⟩ := hm₄.uncons hv Kind.noConfusion
    obtain ⟨w', us₆, rfl, hw', -, hm₆⟩ := hm₅.uncons hw Kind.noConfusion
    obtain ⟨us₇, hm₇, hs₂'⟩ := hs₂.moved hm₆
    rw [Stmt.relocate, Stmt.relocateElse, ← hpos]
    exact ⟨us₇, hm₇, .branchElse ht' hc' hu' hs' hv' hw' hs₂'⟩

theorem SpellsSuite.moved {ts rest us : List Token} {st : Stmt} :
    SpellsSuite known inMethod ts st rest → Moved m.place more ts us →
      ∃ rest', Moved m.place more rest rest' ∧ SpellsSuite known inMethod us (st.relocate m) rest'
  | .block ht hu hb, hm => by
    obtain ⟨t', us₁, rfl, ht', hpos, hm₁⟩ := hm.uncons ht Kind.noConfusion
    obtain ⟨u', us₂, rfl, hu', -, hm₂⟩ := hm₁.uncons hu Kind.noConfusion
    obtain ⟨us₃, hm₃, hb'⟩ := hb.moved hm₂
    rw [Stmt.relocate, ← hpos]
    exact ⟨us₃, hm₃, .block ht' hu' hb'⟩

theorem SpellsBlock.moved {ts rest us : List Token} {body : List Stmt} :
    SpellsBlock known inMethod ts body rest → Moved m.place more ts us →
      ∃ rest', Moved m.place more rest rest' ∧
        SpellsBlock known inMethod us (Stmt.relocateAll m body) rest'
  | .nil ht, hm => by
    obtain ⟨t', us₁, rfl, ht', hm₁⟩ := hm.uncons_dedent ht
    exact ⟨us₁, hm₁, .nil ht'⟩
  | .cons hs hb, hm => by
    obtain ⟨us₁, hm₁, hs'⟩ := hs.moved hm
    obtain ⟨us₂, hm₂, hb'⟩ := hb.moved hm₁
    exact ⟨us₂, hm₂, .cons hs' hb'⟩

end

/-! Classes and programs -/

theorem SpellsNames.moved {names : List String} (h : SpellsNames ts names rest)
    (hm : Moved f more ts us) :
    ∃ rest', Moved f more rest rest' ∧ SpellsNames us names rest' := by
  induction h generalizing us with
  | one ht =>
    obtain ⟨t', us₁, rfl, ht', -, hm₁⟩ := hm.uncons ht Kind.noConfusion
    exact ⟨us₁, hm₁, .one ht'⟩
  | cons ht hu _ ih =>
    obtain ⟨t', us₁, rfl, ht', -, hm₁⟩ := hm.uncons ht Kind.noConfusion
    obtain ⟨u', us₂, rfl, hu', -, hm₂⟩ := hm₁.uncons hu Kind.noConfusion
    obtain ⟨rest', hrest, hs⟩ := ih hm₂
    exact ⟨rest', hrest, .cons ht' hu' hs⟩

theorem SpellsParams.moved {names : List String} (h : SpellsParams ts names rest)
    (hm : Moved f more ts us) :
    ∃ rest', Moved f more rest rest' ∧ SpellsParams us names rest' := by
  cases h with
  | nil ht =>
    obtain ⟨t', us₁, rfl, ht', -, hm₁⟩ := hm.uncons ht Kind.noConfusion
    exact ⟨us₁, hm₁, .nil ht'⟩
  | list hs ht hnodup =>
    obtain ⟨us₁, hm₁, hs'⟩ := hs.moved hm
    obtain ⟨t', us₂, rfl, ht', -, hm₂⟩ := hm₁.uncons ht Kind.noConfusion
    exact ⟨us₂, hm₂, .list hs' ht' hnodup⟩

theorem SpellsMethods.moved {ms : List Method} (h : SpellsMethods known ts ms rest)
    (hm : Moved m.place more ts us) :
    ∃ rest', Moved m.place more rest rest' ∧
      SpellsMethods known us (ms.map (·.relocate m)) rest' := by
  induction h generalizing us with
  | nil ht =>
    obtain ⟨t', us₁, rfl, ht', hm₁⟩ := hm.uncons_dedent ht
    exact ⟨us₁, hm₁, .nil ht'⟩
  | cons ht hu hv hp hw hs _ ih =>
    obtain ⟨t', us₁, rfl, ht', hpos, hm₁⟩ := hm.uncons ht Kind.noConfusion
    obtain ⟨u', us₂, rfl, hu', -, hm₂⟩ := hm₁.uncons hu Kind.noConfusion
    obtain ⟨v', us₃, rfl, hv', -, hm₃⟩ := hm₂.uncons hv Kind.noConfusion
    obtain ⟨us₄, hm₄, hp'⟩ := hp.moved hm₃
    obtain ⟨w', us₅, rfl, hw', -, hm₅⟩ := hm₄.uncons hw Kind.noConfusion
    obtain ⟨us₆, hm₆, hs'⟩ := hs.moved hm₅
    obtain ⟨rest', hrest, hms⟩ := ih hm₆
    rw [List.map_cons, Method.relocate, Stmt.relocate, ← hpos]
    exact ⟨rest', hrest, .cons ht' hu' hv' hp' hw' hs' hms⟩

theorem SpellsParent.moved {classes : ClassTable} {parent : Option Class}
    (h : SpellsParent classes ts parent rest) (hm : Moved m.place more ts us) :
    ∃ rest', Moved m.place more rest rest' ∧
      SpellsParent (classes.relocate m) us (parent.map (·.relocate m)) rest' := by
  cases h with
  | none => exact ⟨us, hm, .none⟩
  | some ht hu hv hget =>
    obtain ⟨t', us₁, rfl, ht', -, hm₁⟩ := hm.uncons ht Kind.noConfusion
    obtain ⟨u', us₂, rfl, hu', -, hm₂⟩ := hm₁.uncons hu Kind.noConfusion
    obtain ⟨v', us₃, rfl, hv', -, hm₃⟩ := hm₂.uncons hv Kind.noConfusion
    refine ⟨us₃, hm₃, .some ht' hu' hv' ?_⟩
    rw [ClassTable.get?_relocate, hget]
    rfl

theorem keptMethods_map_relocate (ms : List Method) :
    keptMethods (ms.map (·.relocate m)) = (keptMethods ms).map (·.relocate m) := by
  have hadd (acc : List Method) (x : Method) :
      addMethod (acc.map (·.relocate m)) (x.relocate m) =
        (addMethod acc x).map (·.relocate m) := by
    rw [addMethod, addMethod, List.map_append, List.filter_map]
    simp only [Function.comp_def, Method.name_relocate, List.map_cons, List.map_nil]
  have hfold (acc : List Method) : (ms.map (·.relocate m)).foldl addMethod
      (acc.map (·.relocate m)) = (ms.foldl addMethod acc).map (·.relocate m) := by
    induction ms generalizing acc with
    | nil => rfl
    | cons x ms ih => rw [List.map_cons, List.foldl_cons, List.foldl_cons, hadd, ih]
  exact hfold []

theorem knownIn_relocate (m : Relocation) (classes : ClassTable) (name : String) :
    knownIn (classes.relocate m) name = knownIn classes name := by
  funext other
  rw [knownIn, knownIn, ClassTable.contains_relocate]

theorem SpellsClass.moved {classes : ClassTable} {c : Class} (h : SpellsClass classes ts c rest)
    (hkeeps : ∀ name, m.keeps name = true → classes.contains name = true)
    (hm : Moved m.place more ts us) :
    ∃ rest', Moved m.place more rest rest' ∧
      SpellsClass (classes.relocate m) us (c.relocate m) rest' := by
  cases h with
  | intro ht hnew hp hu hv hw hms =>
    rename_i t u v ts name parent ms w xs
    obtain ⟨t', us₁, rfl, ht', -, hm₁⟩ := hm.uncons ht Kind.noConfusion
    obtain ⟨us₂, hm₂, hp'⟩ := hp.moved hm₁
    obtain ⟨u', us₃, rfl, hu', -, hm₃⟩ := hm₂.uncons hu Kind.noConfusion
    obtain ⟨v', us₄, rfl, hv', -, hm₄⟩ := hm₃.uncons hv Kind.noConfusion
    obtain ⟨w', us₅, rfl, hw', -, hm₅⟩ := hm₄.uncons hw Kind.noConfusion
    obtain ⟨us₆, hm₆, hms'⟩ := hms.moved hm₅
    have hmoves : m.keeps name = false := by
      rw [← Bool.not_eq_true]
      intro hname
      rw [hkeeps name hname] at hnew
      cases hnew
    rw [← knownIn_relocate m] at hms'
    rw [Class.relocate_of_not_keeps (c := ⟨name, keptMethods ms, parent⟩) hmoves,
      ← keptMethods_map_relocate]
    refine ⟨us₆, hm₆, .intro ht' ?_ hp' hu' hv' hw' hms'⟩
    rw [ClassTable.contains_relocate, hnew]

/-- The tokens of two programs, the second one behind the first with the classes of the first one
known, spell one program. The places of the first may be moved with its tokens. -/
theorem SpellsProgram.append {classes mid after : ClassTable} {body body' : List Stmt}
    (h : SpellsProgram classes ts body mid)
    (hkeeps : ∀ name, m.keeps name = true → classes.contains name = true)
    (hm : Moved m.place more ts us) (hmore : SpellsProgram (mid.relocate m) more body' after) :
    SpellsProgram (classes.relocate m) us (body.map (·.relocate m) ++ body') after := by
  induction h generalizing us with
  | nil =>
    cases hm
    exact hmore
  | cls ht hc hp ih =>
    rename_i t ts r classes mid c body
    obtain ⟨t', us₁, rfl, ht', hpos, hm₁⟩ := hm.uncons ht Kind.noConfusion
    obtain ⟨us₂, hm₂, hc'⟩ := hc.moved hkeeps hm₁
    have hrest := ih (fun name hname => ?_) hm₂ hmore
    · rw [ClassTable.relocate_add] at hrest
      rw [List.map_cons, Stmt.relocate, ← hpos]
      exact .cls ht' hc' hrest
    · rw [Dict.contains, ClassTable.get?_add]
      split
      · rfl
      · exact hkeeps name hname
  | stmt hst hp ih =>
    obtain ⟨us₁, hm₁, hst'⟩ := hst.moved hm
    rw [List.map_cons, List.cons_append]
    refine .stmt ?_ (ih hkeeps hm₁ hmore)
    rw [show (ClassTable.relocate m _).contains = _ from funext (ClassTable.contains_relocate m _)]
    exact hst'

end ClassLang.Grammar
