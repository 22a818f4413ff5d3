import ClassLang.Proofs.Token.Append
import ClassLang.Proofs.Writing.Text

/-!
Statements as lines of text. An outline is a line by itself, or a line with a suite under it; every
suite around a line puts two spaces in front of it. What is written is read again as lines whose
layout has the marks of the suites.
-/

namespace ClassLang

open Token

/-- A line to be written, with the number of suites around it. -/
structure Row where
  level : Nat
  kinds : List Kind

/-- The text of statements by its lines: a line by itself, or a line and the suite under it. -/
inductive Outline where
  | line (ks : List Kind)
  | suite (head : List Kind) (body : List Outline)

/-- Holds of the rows of tokens that a line can hold. -/
def WritableRow (ks : List Kind) : Prop := ks ≠ [] ∧ ∀ k ∈ ks, k.IsLexeme

namespace Row

/-- A row as a line without its end. -/
def line (r : Row) : List Char := List.replicate (2 * r.level) ' ' ++ Kind.write r.kinds

/-- The row that a line was read from. -/
def ofLine (l : Line) : Row := ⟨l.level, l.tokens.map (·.kind)⟩

end Row

namespace Outline

mutual

/-- The lines of an outline, so many suites deep. -/
def rows : Outline → Nat → List Row
  | .line ks, depth => [⟨depth, ks⟩]
  | .suite head body, depth => ⟨depth, head⟩ :: rowsAll body (depth + 1)
termination_by structural o => o

/-- The lines of outlines, so many suites deep. -/
def rowsAll : List Outline → Nat → List Row
  | [], _ => []
  | o :: os, depth => o.rows depth ++ rowsAll os depth
termination_by structural os => os

end

mutual

/-- The tokens of an outline with the marks of its lines and suites. -/
def kinds : Outline → List Kind
  | .line ks => ks ++ [.newline]
  | .suite head body => head ++ .newline :: .indent :: (kindsAll body ++ [.dedent])
termination_by structural o => o

/-- The tokens of outlines with the marks of their lines and suites. -/
def kindsAll : List Outline → List Kind
  | [] => []
  | o :: os => o.kinds ++ kindsAll os
termination_by structural os => os

end

mutual

/-- Holds of the outlines that can be written: every line has tokens such as a line can hold, and
every suite has lines. -/
def Writable : Outline → Prop
  | .line ks => WritableRow ks
  | .suite head body => WritableRow head ∧ body ≠ [] ∧ WritableAll body
termination_by structural o => o

/-- Holds of outlines, each of which can be written. -/
def WritableAll : List Outline → Prop
  | [] => True
  | o :: os => o.Writable ∧ WritableAll os
termination_by structural os => os

end

/-- The source text of outlines. -/
def source (os : List Outline) : String :=
  String.ofList ((rowsAll os 0).flatMap fun r => r.line ++ ['\n'])

end Outline

/-! Lines of text -/

/-- Holds of the characters that end no line. -/
def Lexeme.isInline (c : Char) : Bool := c != '\n' && c != '\r'

namespace Kind

open Lexeme

theorem isInline_of_isWordChar {c : Char} (h : isWordChar c = true) : isInline c = true := by
  rw [isInline, Bool.and_eq_true, bne_iff_ne, bne_iff_ne]
  constructor
  · rintro rfl
    exact absurd h (by decide)
  · rintro rfl
    exact absurd h (by decide)

theorem all_isInline_escape (c : Char) : (escape c).all isInline = true := by
  unfold escape
  split
  · decide
  · decide
  · decide
  · decide
  · decide
  · rename_i hfeed _ hreturn
    rw [List.all_cons, List.all_nil, Bool.and_true, isInline, Bool.and_eq_true, bne_iff_ne,
      bne_iff_ne]
    exact ⟨hfeed, hreturn⟩

theorem isInline_of_mem_spelling {k : Kind} (hk : k.IsLexeme) :
    ∀ c ∈ k.spelling, isInline c = true := by
  cases k with
  | keyword k => exact List.all_eq_true.1 (by cases k <;> decide)
  | word name =>
    intro c hc
    obtain ⟨hname, -⟩ := hk
    unfold isWordText at hname
    rw [spelling] at hc
    split at hname
    · cases hname
    · rename_i d ds hcs
      rw [hcs] at hc
      rw [Bool.and_eq_true, List.all_eq_true] at hname
      rcases List.mem_cons.1 hc with rfl | hc
      · exact isInline_of_isWordChar (by rw [isWordChar, hname.1, Bool.true_or])
      · exact isInline_of_isWordChar (hname.2 c hc)
  | number n =>
    intro c hc
    have hdigit := isDigit_of_mem_toDigits hc
    exact isInline_of_isWordChar (by rw [isWordChar, hdigit, Bool.or_true])
  | string s =>
    intro c hc
    rw [spelling] at hc
    simp only [List.mem_cons, List.mem_append, List.mem_flatMap, List.not_mem_nil, or_false] at hc
    rcases hc with rfl | ⟨d, -, hc⟩ | rfl
    · decide
    · exact List.all_eq_true.1 (all_isInline_escape d) c hc
    · decide
  | equal | notEqual | lessOrEqual | greaterOrEqual => exact List.all_eq_true.1 (by decide)
  | symbol c =>
    have hplain : ∀ c ∈ symbols, isInline c = true := List.all_eq_true.1 (by decide)
    intro d hd
    rw [List.mem_singleton.1 hd]
    exact hplain c hk
  | comment | newline | indent | dedent | eof => exact hk.elim

theorem isInline_of_mem_write {ks : List Kind} (hks : ∀ k ∈ ks, k.IsLexeme) :
    ∀ c ∈ write ks, isInline c = true := by
  induction ks with
  | nil => exact fun c hc => (by cases hc)
  | cons k ks ih =>
    obtain ⟨hk, hks⟩ := List.forall_mem_cons.1 hks
    obtain ⟨rest, hwrite, -, hrest⟩ := write_cons hks k
    intro c hc
    rw [hwrite] at hc
    rcases List.mem_append.1 hc with hc | hc
    · exact isInline_of_mem_spelling hk c hc
    · rcases hrest with rfl | rfl
      · exact ih hks c hc
      · rcases List.mem_cons.1 hc with rfl | hc
        · decide
        · exact ih hks c hc

end Kind

namespace Row

variable {r : Row} {rs : List Row}

theorem isInline_of_mem_line (h : WritableRow r.kinds) :
    ∀ c ∈ r.line, Lexeme.isInline c = true := by
  intro c hc
  rcases List.mem_append.1 hc with hc | hc
  · rw [List.eq_of_mem_replicate hc]
    decide
  · exact Kind.isInline_of_mem_write h.2 c hc

/-- The lines of rows are their texts, with an empty line behind them. -/
theorem sourceLines_flatMap (h : ∀ r ∈ rs, WritableRow r.kinds) :
    Text.sourceLines (rs.flatMap fun r => r.line ++ ['\n']) = rs.map line ++ [[]] := by
  have hlines : ∀ text ∈ rs.map line, '\n' ∉ text ∧ text.getLast? ≠ some '\r' := by
    refine List.forall_mem_map.2 fun r hr => ⟨fun hfeed => ?_, fun hreturn => ?_⟩
    · cases isInline_of_mem_line (h r hr) _ hfeed
    · cases isInline_of_mem_line (h r hr) _ (List.mem_of_getLast? hreturn)
  rw [← Text.sourceLines_flatMap hlines, List.flatMap_map]

/-- A row is read as a line of its level with its tokens. -/
theorem read_line (h : WritableRow r.kinds) (number : Nat) :
    ∃ l, Line.read number r.line = .ok (some l) ∧ ofLine l = r := by
  obtain ⟨level, ks⟩ := r
  obtain ⟨hne, hks⟩ := h
  obtain ⟨k, ks, rfl⟩ := List.exists_cons_of_ne_nil hne
  obtain ⟨hk, hks'⟩ := List.forall_mem_cons.1 hks
  obtain ⟨rest, hwrite, -⟩ := Kind.write_cons hks' k
  obtain ⟨c, w, hcs, hblank, hcomment⟩ := hk.head_spelling
  have htext : Kind.write (k :: ks) = c :: (w ++ rest) := by
    rw [hwrite, hcs, List.cons_append]
  obtain ⟨ts, hts, hkinds⟩ := Line.reads_write hks number (2 * level + 1)
  rw [htext] at hts
  rw [line, htext]
  refine ⟨_, Line.read_of_reads hblank hcomment hts, ?_⟩
  rw [ofLine, hkinds]

theorem readLines_map_line (h : ∀ r ∈ rs, WritableRow r.kinds) (number : Nat) :
    ∃ ls, readLines number (rs.map line) = .ok ls ∧ ls.map ofLine = rs := by
  induction rs generalizing number with
  | nil => exact ⟨[], rfl, rfl⟩
  | cons r rs ih =>
    obtain ⟨hr, hrs⟩ := List.forall_mem_cons.1 h
    obtain ⟨l, hl, hlr⟩ := read_line hr number
    obtain ⟨ls, hls, hlsr⟩ := ih hrs (number + 1)
    refine ⟨l :: ls, ?_, ?_⟩
    · rw [List.map_cons, readLines, hl, ok_bind, hls]
      rfl
    · rw [List.map_cons, hlr, hlsr]

end Row

/-! Layouts -/

/-- The marks that lead from one level to another, by their kinds. -/
def markKinds (level next : Nat) : List Kind :=
  List.replicate (next - level) .indent ++ List.replicate (level - next) .dedent

@[simp] theorem markKinds_self (level : Nat) : markKinds level level = [] := by
  simp [markKinds]

/-- The tokens of rows with their marks, behind a row of a given level. -/
def Row.layout : Nat → List Row → List Kind
  | level, [] => markKinds level 0
  | level, r :: rs => markKinds level r.level ++ (r.kinds ++ .newline :: Row.layout r.level rs)

theorem map_kind_laidOut (last level : Nat) (ls : List Line) :
    (laidOut last level ls).map (·.kind) = Row.layout level (ls.map Row.ofLine) := by
  have hmarks (number level next : Nat) :
      (levelMarks number level next).map (·.kind) = markKinds level next := by
    simp [levelMarks, markKinds, Token.mark]
  induction ls generalizing level with
  | nil => exact hmarks last level 0
  | cons l ls ih =>
    rw [laidOut, Line.group, List.map_append, List.map_append, List.map_append, hmarks, ih,
      List.append_assoc, List.append_assoc]
    rfl

/-- A suite ends in front of a row that is not deeper than the line above the suite. -/
theorem Row.layout_succ {depth : Nat} {more : List Row} (h : ∀ r ∈ more.head?, r.level ≤ depth) :
    layout (depth + 1) more = .dedent :: layout depth more := by
  have hmarks {next : Nat} (hnext : next ≤ depth) :
      markKinds (depth + 1) next = .dedent :: markKinds depth next := by
    simp [markKinds, Nat.sub_eq_zero_of_le hnext, Nat.sub_eq_zero_of_le (Nat.le_succ_of_le hnext),
      Nat.succ_sub hnext, List.replicate_succ]
  cases more with
  | nil => exact hmarks (Nat.zero_le _)
  | cons r more => rw [layout, layout, hmarks (h r rfl), List.cons_append]

namespace Outline

variable {os : List Outline} {depth level : Nat} {more : List Row}

theorem head_rows (o : Outline) (depth : Nat) : ∃ r rs, o.rows depth = r :: rs ∧ r.level = depth := by
  cases o with
  | line ks => exact ⟨_, [], rfl, rfl⟩
  | suite head body => exact ⟨_, _, rfl, rfl⟩

theorem level_head_rowsAll (h : ∀ r ∈ more.head?, r.level ≤ depth) :
    ∀ r ∈ (rowsAll os depth ++ more).head?, r.level ≤ depth := by
  cases os with
  | nil => exact h
  | cons o os =>
    obtain ⟨r, rs, hrows, hlevel⟩ := o.head_rows depth
    intro r' hr'
    rw [rowsAll, hrows] at hr'
    cases hr'
    exact Nat.le_of_eq hlevel

mutual

/-- The marks around the rows of an outline are those of its lines and suites, behind the marks that
lead to its level. -/
theorem layout_rows : (o : Outline) → o.Writable → ∀ {depth level : Nat} {more : List Row},
    (∀ r ∈ more.head?, r.level ≤ depth) →
      Row.layout level (o.rows depth ++ more) =
        markKinds level depth ++ (o.kinds ++ Row.layout depth more)
  | .line ks, _, depth, level, more, _ => by
    rw [rows, kinds, List.singleton_append, Row.layout, List.append_assoc, List.singleton_append]
  | .suite head body, ⟨_, hne, hbody⟩, depth, level, more, hmore => by
    have hdeeper : ∀ r ∈ more.head?, r.level ≤ depth + 1 :=
      fun r hr => Nat.le_succ_of_le (hmore r hr)
    have hmarks : markKinds depth (depth + 1) = [.indent] := by simp [markKinds]
    rw [rows, kinds, List.cons_append, Row.layout,
      layout_rowsAll body hbody (.inl hne) hdeeper, hmarks, Row.layout_succ hmore]
    simp

theorem layout_rowsAll : (os : List Outline) → WritableAll os → ∀ {depth level : Nat}
    {more : List Row}, os ≠ [] ∨ level = depth → (∀ r ∈ more.head?, r.level ≤ depth) →
      Row.layout level (rowsAll os depth ++ more) =
        markKinds level depth ++ (kindsAll os ++ Row.layout depth more)
  | [], _, depth, level, more, hlevel, _ => by
    obtain rfl := hlevel.resolve_left fun hne => hne rfl
    rw [rowsAll, kindsAll, markKinds_self]
    rfl
  | o :: os, ⟨ho, hos⟩, depth, level, more, _, hmore => by
    rw [rowsAll, kindsAll, List.append_assoc, layout_rows o ho (level_head_rowsAll hmore),
      layout_rowsAll os hos (.inr rfl) hmore, markKinds_self, List.nil_append, List.append_assoc]

end

mutual

theorem writableRow_of_mem_rows : (o : Outline) → o.Writable → ∀ {depth : Nat},
    ∀ r ∈ o.rows depth, WritableRow r.kinds
  | .line ks, h, depth => by
    intro r hr
    rw [rows] at hr
    rw [List.mem_singleton.1 hr]
    exact h
  | .suite head body, ⟨hhead, _, hbody⟩, depth => by
    rw [rows]
    exact List.forall_mem_cons.2 ⟨hhead, writableRow_of_mem_rowsAll body hbody⟩

theorem writableRow_of_mem_rowsAll : (os : List Outline) → WritableAll os → ∀ {depth : Nat},
    ∀ r ∈ rowsAll os depth, WritableRow r.kinds
  | [], _, depth => fun r hr => (by cases hr)
  | o :: os, ⟨ho, hos⟩, depth => by
    rw [rowsAll]
    exact List.forall_mem_append.2
      ⟨writableRow_of_mem_rows o ho, writableRow_of_mem_rowsAll os hos⟩

end

/-- The source text of outlines is read as lines whose tokens are those of the outlines. -/
theorem exists_readLines_source (h : WritableAll os) :
    ∃ ls, readLines 1 (Text.sourceLines (source os).toList) = .ok ls ∧
      ∀ last, (laidOut last 0 ls).map (·.kind) = kindsAll os := by
  have hrows : ∀ r ∈ rowsAll os 0, WritableRow r.kinds := writableRow_of_mem_rowsAll os h
  obtain ⟨ls, hls, hkinds⟩ := Row.readLines_map_line hrows 1
  refine ⟨ls, ?_, fun last => ?_⟩
  · rw [source, String.toList_ofList, Row.sourceLines_flatMap hrows, readLines_concat_nil, hls]
  · have hlayout : Row.layout 0 (rowsAll os 0 ++ []) =
        markKinds 0 0 ++ (kindsAll os ++ Row.layout 0 []) :=
      layout_rowsAll os h (.inr rfl) nofun
    rw [List.append_nil, markKinds_self] at hlayout
    rw [map_kind_laidOut, hkinds, hlayout]
    exact List.append_nil _

end Outline

end ClassLang
