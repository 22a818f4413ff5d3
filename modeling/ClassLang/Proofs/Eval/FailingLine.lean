import ClassLang.Proofs.Eval.Batch
import ClassLang.Proofs.Eval.Blame
import ClassLang.Proofs.Excerpt
import ClassLang.Proofs.Token.Numbered

/-!
A run of a program fails at a line of its source with content, and the report shows that line. All
places in the trees of a program are those of tokens: a relocation that moves no token's place but
those of dedents leaves the program as it is, since its tokens spell the relocated one, too.
-/

namespace ClassLang

open Grammar Token

theorem Grammar.Moved.of_fixed {f : Pos → Pos} {ts : List Token}
    (h : ∀ t ∈ ts, t.kind ≠ .dedent → f t.pos = t.pos) : Moved f [] ts ts := by
  induction ts with
  | nil => exact .nil
  | cons t ts ih =>
    obtain ⟨ht, hts⟩ := List.forall_mem_cons.1 h
    exact .cons rfl (fun hne => (ht hne).symm) (ih hts)

namespace Program

variable {source : String} {p : Program}

/-- A relocation that moves no place of a token, but for dedents, moves nothing in the program. -/
theorem relocate_eq_self (hp : ofSource .empty source = .ok p) {m : Relocation}
    (hkeeps : ∀ name, m.keeps name = false)
    (hm : ∀ ls, readLines 1 (Text.sourceLines source.toList) = .ok ls →
      ∀ t ∈ laidOut (Text.sourceLines source.toList).length 0 ls,
        t.kind ≠ .dedent → m.place t.pos = t.pos) :
    p.statements.map (·.relocate m) = p.statements ∧ p.classes.relocate m = p.classes := by
  obtain ⟨ls, hls, hspells⟩ := ofSource_eq_ok.1 hp
  have hmoved := hspells.append (fun name hname => absurd hname (by rw [hkeeps]; decide))
    (.of_fixed (hm ls hls)) .nil
  rw [List.append_nil] at hmoved
  have hempty : ClassTable.relocate m .empty = .empty := Dict.ext_get? fun _ => rfl
  rw [hempty] at hmoved
  have hsame : ofSource .empty source =
      .ok ⟨p.statements.map (·.relocate m), p.classes.relocate m⟩ :=
    ofSource_eq_ok.2 ⟨ls, hls, hmoved⟩
  rw [hp] at hsame
  obtain ⟨hstatements, hclasses⟩ := Program.mk.inj (Except.ok.inj hsame)
  exact ⟨hstatements.symm, hclasses.symm⟩

/-- All places in a program are on lines with content. -/
theorem onLines_of_ofSource (hp : ofSource .empty source = .ok p) :
    (∀ s ∈ p.statements, s.OnLines (Text.HasContent (Text.sourceLines source.toList))) ∧
      ∀ {name c}, Dict.get? p.classes name = some c →
        c.OnLines (Text.HasContent (Text.sourceLines source.toList)) := by
  classical
  have hspares := Relocation.spares_sparing
    (P := Text.HasContent (Text.sourceLines source.toList))
  obtain ⟨hstatements, hclasses⟩ := relocate_eq_self hp hspares.keeps fun ls hls t ht hne => by
    obtain hcontent | ⟨hdedent, -⟩ := hasContent_of_mem_laidOut hls ht
    · exact Relocation.place_sparing.2 hcontent
    · exact absurd hdedent hne
  rw [← Stmt.relocateAll_eq_map] at hstatements
  refine ⟨Stmt.allOnLines_iff.1 (Stmt.allOnLines_of_relocate hspares _ hstatements), ?_⟩
  intro name c hc
  have hsame := congrArg (Dict.get? · name) hclasses
  simp only [ClassTable.get?_relocate, hc, Option.map_some, Option.some.injEq] at hsame
  exact c.onLines_of_relocate hspares hsame

end Program

namespace Machine

variable {source : String} {p : Program} {console : Console} {watch : Watch} {e : Error}
  {n : Machine}

/-- A program fails at a line with content. -/
theorem exists_line_of_interpret (hp : Program.ofSource .empty source = .ok p)
    (hrun : interpret p (fresh console watch) = .error e n) :
    ∃ line, e.line? = some line ∧
      Text.HasContent (Text.sourceLines source.toList) line := by
  obtain ⟨hstatements, hclasses⟩ := Program.onLines_of_ofSource hp
  have hstart : ((fresh console watch).knowing p.classes).OnLines
      (Text.HasContent (Text.sourceLines source.toList)) := by
    refine ⟨fun {name c} hc => ?_, fun r => ⟨trivial, trivial⟩⟩
    have hmerge : (Dict.empty : ClassTable).merge p.classes = p.classes :=
      Dict.merge_eq_right nofun
    rw [← hmerge] at hclasses
    exact hclasses hc
  have hends := onLines_runAll .none hstatements _ hstart
  rw [← interpret_apply, hrun] at hends
  cases hends with
  | error hline _ => exact ⟨_, rfl, hline⟩

/-- Failures of runs point at the program. Where a source is read as a program and a fresh run of it
fails, the failure is at the line of a token that is no mark. So this line exists and is neither blank
nor a mere comment, and the excerpt shows it as it stands in the source. -/
theorem interpret_error_points (hp : Program.ofSource .empty source = .ok p)
    (hrun : interpret p (fresh console watch) = .error e n) :
    ∃ i ts t content text, e.line? = some (i + 1) ∧
      Token.ofSource source = .ok ts ∧ t ∈ ts ∧ t.kind.isMark = false ∧ t.line = i + 1 ∧
      (Text.sourceLines source.toList)[i]? = some content ∧ Line.isBare content = false ∧
      (text = content ∨ text = content ++ ['\r']) ∧ Excerpt.Shows source i text := by
  obtain ⟨line, hline, hcontent⟩ := exists_line_of_interpret hp hrun
  obtain ⟨ls, hls, -⟩ := Program.ofSource_eq_ok.1 hp
  obtain ⟨t, ht, hmark, htline⟩ := exists_token_of_hasContent _ hls hcontent
  obtain ⟨i, content, rfl, hi, hbare⟩ := hcontent
  have hpart := hi
  rw [Text.sourceLines, List.getElem?_map, Option.map_eq_some_iff] at hpart
  obtain ⟨part, hpart, rfl⟩ := hpart
  obtain ⟨text, htext, heq⟩ | ⟨hempty, -, -⟩ := Text.getElem?_lines_of_part hpart
  · have hcontent : text = Text.dropReturn part ∨ text = Text.dropReturn part ++ ['\r'] := by
      obtain rfl | rfl := heq
      · exact .inl rfl
      · exact Text.eq_dropReturn_or text
    exact ⟨i, _, t, _, text, hline, Token.ofSource_eq_ok.2 ⟨ls, hls, rfl⟩, ht, hmark, htline, hi,
      hbare, hcontent, Excerpt.shows_of_line htext⟩
  · subst hempty
    cases hbare

/-- A program that fails inside a call, above the line of the call. -/
def halvesSource : String :=
  "class Halves:\n  def of(n):\n    # The whole is gone.\n    return n / 0 # half\n\n" ++
    "h = Halves()\nprint h.of(1)"

theorem interpret_error_points_halves : ∃ p e n,
    Program.ofSource .empty halvesSource = .ok p ∧
    interpret p (fresh .empty default) = .error e n ∧ e.line? = some 4 ∧
    ∃ i ts t content text, e.line? = some (i + 1) ∧
      Token.ofSource halvesSource = .ok ts ∧ t ∈ ts ∧ t.kind.isMark = false ∧ t.line = i + 1 ∧
      (Text.sourceLines halvesSource.toList)[i]? = some content ∧ Line.isBare content = false ∧
      (text = content ∨ text = content ++ ['\r']) ∧ Excerpt.Shows halvesSource i text := by
  have hruns : (match Program.ofSource .empty halvesSource with
      | .error _ => none
      | .ok p => match interpret p (fresh .empty default) with
        | .ok _ _ => none
        | .error e _ => e.line?) = some 4 := by
    decide +kernel
  split at hruns
  · cases hruns
  · rename_i p hp
    split at hruns
    · cases hruns
    · rename_i e n hrun
      exact ⟨p, e, n, hp, hrun, hruns, interpret_error_points hp hrun⟩

end Machine

end ClassLang
