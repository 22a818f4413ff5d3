import ClassLang.Proofs.Eval.Safety
import ClassLang.Proofs.Token.Append

/-!
A session of entries and one run of all of them. Two sources, the second one read with the classes
of the first known, are one source that has the statements of both; run at once it ends as the second
does after the first.
-/

namespace ClassLang

open Grammar Token

/-- The relocation of a program behind another one, which stands in a source: its places go down,
and the classes of the other one stay. -/
def Program.behind (p : Program) (source : String) : Relocation :=
  ⟨Pos.down (source.toList.count '\n'), p.classes.contains⟩

theorem ClassTable.relocate_stay (t : ClassTable) : t.relocate .stay = t := by
  apply Dict.ext_get?
  intro name
  rw [get?_relocate]
  simp only [Class.relocate_stay, Option.map_id']

/-- A relocation that keeps the classes of a table changes nothing in it. -/
theorem ClassTable.relocate_of_keeps {known : String → Bool} {t : ClassTable}
    (ht : t.Admitted known) {m : Relocation}
    (hm : ∀ name, t.contains name = true → m.keeps name = true) : t.relocate m = t := by
  apply Dict.ext_get?
  intro name
  rw [get?_relocate]
  cases hget : Dict.get? t name with
  | none => rfl
  | some c =>
    have hkeeps : m.keeps c.name = true := by
      rw [ht.name hget]
      exact hm name (Dict.contains_of_get? hget)
    rw [Option.map_some, Class.relocate_of_keeps hkeeps]

/-! Programs -/

theorem Grammar.SpellsProgram.head_ne_indent {classes after : ClassTable} {ts : List Token}
    {body : List Stmt} (h : SpellsProgram classes ts body after) :
    ∀ t ∈ ts.head?, t.kind ≠ .indent := by
  cases h with
  | nil => nofun
  | cls ht _ _ =>
    rintro t ⟨⟩ hk
    rw [hk] at ht
    cases ht
  | stmt hst _ =>
    obtain ⟨t, r, rfl, ht⟩ := hst.begins
    rintro t ⟨⟩ hk
    rw [hk] at ht
    cases ht

theorem Grammar.SpellsProgram.eq_nil {classes after : ClassTable} {body : List Stmt}
    (h : SpellsProgram classes [] body after) : body = [] := by
  cases h with
  | nil => rfl
  | stmt hst _ =>
    obtain ⟨t, r, hnil, -⟩ := hst.begins
    cases hnil

/-- The first line of a program has no indentation. -/
theorem Grammar.SpellsProgram.level_eq_zero {classes after : ClassTable} {body : List Stmt}
    {last : Nat} {l : Line} {ls : List Line}
    (h : SpellsProgram classes (laidOut last 0 (l :: ls)) body after) : l.level = 0 := by
  cases hl : l.level with
  | zero => rfl
  | succ n =>
    have hhead := h.head_ne_indent
    rw [laidOut, Line.group, levelMarks, hl, Nat.sub_zero, List.replicate_succ] at hhead
    exact absurd rfl (hhead _ rfl)

namespace Program

variable {classes : ClassTable} {s₁ s₂ : String} {p₁ p₂ : Program}

/-- A program that is read behind another one, with the classes of that one known, is read from the
two texts together. -/
theorem ofSource_append (hclasses : classes.Admitted classes.contains)
    (hend : s₁.toList.getLast? = some '\n') (h₁ : ofSource classes s₁ = .ok p₁)
    (h₂ : ofSource p₁.classes s₂ = .ok p₂) (hne : p₂.statements ≠ []) :
    ofSource classes (s₁ ++ s₂) =
      .ok ⟨p₁.statements ++ p₂.statements.map (·.relocate (p₁.behind s₁)),
        p₂.classes.relocate (p₁.behind s₁)⟩ := by
  obtain ⟨cs, hcs⟩ := List.getLast?_eq_some_iff.1 hend
  obtain ⟨ls₁, hls₁, hspells₁⟩ := ofSource_eq_ok.1 h₁
  obtain ⟨ls₂, hls₂, hspells₂⟩ := ofSource_eq_ok.1 h₂
  have hlines := readLines_sourceLines_append (hcs ▸ hls₁) hls₂
  rw [← hcs, ← String.toList_append] at hlines
  refine ofSource_eq_ok.2 ⟨_, hlines, ?_⟩
  have hlast : (Text.sourceLines (s₁ ++ s₂).toList).length =
      (Text.sourceLines s₂.toList).length + s₁.toList.count '\n' := by
    rw [Text.length_sourceLines, Text.length_sourceLines, String.toList_append, List.count_append]
    omega
  rw [hlast]
  -- The second text spells its program further down, since the known classes are kept.
  have hkept : p₁.classes.relocate (p₁.behind s₁) = p₁.classes := by
    obtain ⟨hadmitted, -, -⟩ := admitted_of_ofSource hclasses h₁
    exact ClassTable.relocate_of_keeps hadmitted fun _ hname => hname
  have hmore := hspells₂.append (m := p₁.behind s₁) (fun _ hname => hname)
    (Moved.map_down _ _) .nil
  rw [hkept, List.append_nil, ← laidOut_down] at hmore
  -- The first text stands in front of it, with its last blocks closed by the line that follows.
  cases ls₂ with
  | nil => exact absurd hspells₂.eq_nil hne
  | cons l ls₂ =>
    have hlevel : (l.down (s₁.toList.count '\n')).level = 0 := hspells₂.level_eq_zero
    have hmoved := moved_laidOut (Text.sourceLines s₁.toList).length
      ((Text.sourceLines s₂.toList).length + s₁.toList.count '\n') 0 ls₁ hlevel
      (ls₂.map (·.down (s₁.toList.count '\n')))
    have hboth := hspells₁.append (m := .stay) nofun hmoved
      (by rw [ClassTable.relocate_stay]; exact hmore)
    simp only [ClassTable.relocate_stay, Stmt.relocate_stay, List.map_id'] at hboth
    exact hboth

end Program

/-! Runs -/

namespace Machine

/-- Holds of two machines that agree but for places: those of the second one are moved. -/
structure MovedBy (ρ : Relocation) (m n : Machine) : Prop where
  globals : n.globals = m.globals
  frames : n.frames = m.frames
  heap : n.heap = m.heap.relocate ρ
  classes : n.classes = m.classes.relocate ρ
  console : n.console = m.console

/-- Two ends of runs with the same value, or with the same failure at two lines, whose machines agree
but for places. -/
inductive SameEnd {α : Type} (ρ : Relocation) :
    EStateM.Result Error Machine α → EStateM.Result Error Machine α → Prop where
  | ok {a : α} {m n : Machine} : MovedBy ρ m n → SameEnd ρ (.ok a m) (.ok a n)
  | error {cause : Cause} {line line' : Nat} {m n : Machine} :
      MovedBy ρ m n → SameEnd ρ (.error (.located cause line) m) (.error (.located cause line') n)

end Machine

/-- Parts that go alike between a table and the moved table end the same but for places. -/
theorem Alike.sameEnd {α : Type} {S : Setting} {r r' : EStateM.Result Error Machine α}
    (h : Alike S Eq r r') (hS : S.right = S.left.relocate S.move) :
    Machine.SameEnd S.move r r' := by
  have moved {m n : Machine} (hm : Tracks S m n) : m.MovedBy S.move n :=
    ⟨hm.globals, hm.frames, hm.heap, by rw [hm.right, hm.left, hS], hm.console⟩
  cases h with
  | ok heq hm =>
    subst heq
    exact .ok (moved hm)
  | error he hm =>
    obtain ⟨cause, line, line', rfl, rfl, -⟩ := he
    exact .error (moved hm)

namespace Machine

theorem runAll_append (last : Value) (ss ss' : List Stmt) :
    runAll last (ss ++ ss') = runAll last ss >>= fun v => runAll v ss' := by
  induction ss generalizing last with
  | nil => rfl
  | cons s ss ih =>
    rw [List.cons_append, runAll, runAll, bind_assoc]
    congr 1
    funext o
    cases o with
    | completed v => exact ih v
    | returning v => rfl

theorem runAll_append_of_ok {last v : Value} {ss : List Stmt} {m n : Machine}
    (h : runAll last ss m = .ok v n) (ss' : List Stmt) :
    runAll last (ss ++ ss') m = runAll v ss' n := by
  rw [runAll_append]
  change EStateM.bind _ _ m = _
  rw [EStateM.bind, h]

/-- The value before a statement counts for nothing. -/
theorem runAll_of_ne_nil {ss : List Stmt} (h : ss ≠ []) (last last' : Value) :
    runAll last ss = runAll last' ss := by
  cases ss with
  | nil => exact absurd rfl h
  | cons s ss => rfl

/-- The machine that knows the classes of a table besides its own. -/
def knowing (t : ClassTable) (m : Machine) : Machine := { m with classes := m.classes.merge t }

theorem interpret_apply (p : Program) (m : Machine) :
    interpret p m = runAll .none p.statements (m.knowing p.classes) := rfl

/-- A program behind another one: what runs after the first one runs as well where both were known
from the start. -/
theorem sameEnd_interpret {p₁ p₂ : Program} {ρ : Relocation} {v : Value} {m₁ : Machine}
    (console : Console) (watch watch' : Watch)
    (h₁ : p₁.classes.Admitted p₁.classes.contains) (h₂ : p₂.classes.Admitted p₂.classes.contains)
    (hmore : ∀ {name c}, Dict.get? p₁.classes name = some c → Dict.get? p₂.classes name = some c)
    (hbody₁ : ∀ st ∈ p₁.statements, st.AdmittedTop p₁.classes.contains)
    (hbody₂ : ∀ st ∈ p₂.statements, st.AdmittedTop p₂.classes.contains)
    (hrun : interpret p₁ (fresh console watch) = .ok v m₁) (hne : p₂.statements ≠ []) :
    SameEnd ρ (interpret p₂ m₁)
      (interpret ⟨p₁.statements ++ p₂.statements.map (·.relocate ρ), p₂.classes.relocate ρ⟩
        (fresh console watch')) := by
  have hwider := Dict.contains_of_forall_get? hmore
  have hempty (t : ClassTable) : (Dict.empty : ClassTable).merge t = t := Dict.merge_eq_right nofun
  have hright {name : String} {c : Class} (hc : Dict.get? p₂.classes name = some c) :
      Dict.get? (p₂.classes.relocate ρ) name = some (c.relocate ρ) := by
    rw [ClassTable.get?_relocate, hc, Option.map_some]
  let S₁ := h₁.beside ρ fun hc => hright (hmore hc)
  let S₂ := h₂.beside ρ hright
  -- The statements of the first program run under its own classes and under all of them.
  have hstart : Tracks S₁ ((fresh console watch).knowing p₁.classes)
      ((fresh console watch').knowing (p₂.classes.relocate ρ)) :=
    ⟨rfl, rfl, (Heap.relocate_empty ρ).symm, rfl, hempty _, hempty _, fun r =>
      ((sound_fresh console watch).callable r).mono nofun⟩
  have hfirst := Sim.runAll (S := S₁) .stay .none hbody₁ _ _ hstart
  simp only [Stmt.relocate_stay, List.map_id'] at hfirst
  rw [← interpret_apply, hrun] at hfirst
  generalize hn : runAll .none p₁.statements _ = r at hfirst
  cases hfirst with
  | ok heq hm =>
    subst heq
    rename_i n₁
    have hrest : p₂.statements.map (·.relocate ρ) ≠ [] := by
      rw [Ne, List.map_eq_nil_iff]
      exact hne
    rw [interpret_apply, interpret_apply, runAll_append_of_ok hn, runAll_of_ne_nil hrest v .none]
    -- The statements of the second program run from machines that agree.
    have hclasses : m₁.classes.merge p₂.classes = p₂.classes := by
      rw [hm.left]
      exact Dict.merge_eq_right hwider
    have hmid : Tracks S₂ (m₁.knowing p₂.classes) n₁ :=
      ⟨hm.globals, hm.frames, hm.heap, hm.console, hclasses, hm.right, fun r =>
        (hm.callable r).mono hwider⟩
    exact Alike.sameEnd (Sim.runAll (S := S₂) ρ .none hbody₂ _ _ hmid) rfl

/-- A session of two entries behaves as one run of both. The first source ends its last line and runs;
the second one is read with the classes of the first known. Then the two are one program, whose
statements are those of the first and those of the second so many lines further down as the first
has line feeds, and to run it at once ends as the second entry does: with the same value or the same
failure at some line, and in the same machine, but for the places in its classes. -/
theorem sameEnd_interpret_append {s₁ s₂ : String} {p₁ p₂ : Program} {v : Value} {m₁ : Machine}
    (console : Console) (watch watch' : Watch) (hend : s₁.toList.getLast? = some '\n')
    (h₁ : Program.ofSource .empty s₁ = .ok p₁)
    (hrun : interpret p₁ (fresh console watch) = .ok v m₁)
    (h₂ : Program.ofSource p₁.classes s₂ = .ok p₂) (hne : p₂.statements ≠ []) :
    m₁.classes = p₁.classes ∧ ∃ p, Program.ofSource .empty (s₁ ++ s₂) = .ok p ∧
      p.statements = p₁.statements ++ p₂.statements.map (·.relocate (p₁.behind s₁)) ∧
      SameEnd (p₁.behind s₁) (interpret p₂ m₁) (interpret p (fresh console watch')) := by
  have hempty : ClassTable.Admitted (Dict.contains (.empty : ClassTable)) .empty :=
    ClassTable.admitted_empty
  obtain ⟨hadmitted₁, -, hbody₁⟩ := Program.admitted_of_ofSource hempty h₁
  obtain ⟨hadmitted₂, hmore, hbody₂⟩ := Program.admitted_of_ofSource hadmitted₁ h₂
  refine ⟨?_, _, Program.ofSource_append hempty hend h₁ h₂ hne, rfl, ?_⟩
  · obtain ⟨ht, halike⟩ := (sound_fresh console watch).alike_interpret h₁
    rw [hrun] at halike
    cases halike with
    | ok _ hm => exact hm.left
  · exact sameEnd_interpret console watch watch' hadmitted₁ hadmitted₂ hmore hbody₁ hbody₂ hrun hne

/-- An entry that ends inside a class. -/
def firstEntry : String := "class A:\n  def f(self):\n    return 1 / self.x\n"

/-- An entry that builds on the class and fails in its method. -/
def secondEntry : String := "class B(A):\n  def g():\n    return self.f()\nb = B()\nb.x = 0\nb.g()\n"

theorem sameEnd_entries : ∃ p₁ v m₁ p₂, Program.ofSource .empty firstEntry = .ok p₁ ∧
    interpret p₁ (fresh .empty default) = .ok v m₁ ∧
    Program.ofSource p₁.classes secondEntry = .ok p₂ ∧
    ∃ p, Program.ofSource .empty (firstEntry ++ secondEntry) = .ok p ∧
      p.statements = p₁.statements ++ p₂.statements.map (·.relocate (p₁.behind firstEntry)) ∧
      SameEnd (p₁.behind firstEntry) (interpret p₂ m₁) (interpret p (fresh .empty default)) := by
  have hruns : (match Program.ofSource .empty firstEntry with
      | .error _ => false
      | .ok p₁ => match interpret p₁ (fresh .empty default) with
        | .error _ _ => false
        | .ok _ _ => match Program.ofSource p₁.classes secondEntry with
          | .error _ => false
          | .ok p₂ => !p₂.statements.isEmpty) = true := by
    decide +kernel
  split at hruns
  · cases hruns
  · rename_i p₁ h₁
    split at hruns
    · cases hruns
    · rename_i v m₁ hrun
      split at hruns
      · cases hruns
      · rename_i p₂ h₂
        have hne : p₂.statements ≠ [] := by
          intro hnil
          rw [hnil] at hruns
          cases hruns
        exact ⟨p₁, v, m₁, p₂, h₁, hrun, h₂,
          (sameEnd_interpret_append .empty default default (by decide) h₁ hrun h₂ hne).2⟩

end Machine

end ClassLang
