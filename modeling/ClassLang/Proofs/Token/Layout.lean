import ClassLang.Program
import ClassLang.Proofs.Except
import ClassLang.Proofs.Grammar.Extent
import ClassLang.Proofs.Token.Lexeme

/-!
The tokens of a source text are laid out: each line ends with a newline, every level that is opened
is closed, and no line is empty. The one mark for the end of the file is the last token.
-/

namespace ClassLang

open Grammar Token

variable {last level next : Nat} {l : Line} {ls : List Line}

/-- The tokens of lines without the mark for the end of the file. -/
def laidOut (last : Nat) : Nat → List Line → List Token
  | level, [] => levelMarks last level 0
  | level, l :: ls => l.group level ++ laidOut last l.level ls

theorem layout_eq (last level : Nat) (ls : List Line) :
    layout last level ls = laidOut last level ls ++ [.mark .eof ⟨last, 0⟩] := by
  induction ls generalizing level with
  | nil => rfl
  | cons l ls ih => rw [layout, laidOut, ih, List.append_assoc]

theorem kind_of_mem_levelMarks {number : Nat} {t : Token} (h : t ∈ levelMarks number level next) :
    t.kind = .indent ∨ t.kind = .dedent := by
  rcases List.mem_append.1 h with h | h
  · rw [List.eq_of_mem_replicate h]
    exact .inl rfl
  · rw [List.eq_of_mem_replicate h]
    exact .inr rfl

theorem opened_levelMarks (number level next : Nat) :
    opened (levelMarks number level next) = next - level := by
  simp [levelMarks, opened, List.countP_replicate, Token.mark]

theorem closed_levelMarks (number level next : Nat) :
    closed (levelMarks number level next) = level - next := by
  simp [levelMarks, closed, List.countP_replicate, Token.mark]

theorem Line.WellFormed.markless (h : l.WellFormed) : Markless l.tokens :=
  fun t ht => (h.isLexeme t ht).isMark

theorem closed_group (h : l.WellFormed) :
    closed (l.group level) + l.level = opened (l.group level) + level := by
  simp only [Line.group, opened_append, closed_append, opened_levelMarks, closed_levelMarks,
    h.markless.opened, h.markless.closed, opened_cons, closed_cons, Token.mark]
  simp only [opened_nil, closed_nil, reduceCtorEq, if_false]
  omega

/-- Lines are laid out, whatever level is open in front of them. -/
theorem laid_laidOut (h : ∀ l ∈ ls, l.WellFormed) : Laid level (laidOut last level ls) := by
  induction ls generalizing level with
  | nil =>
    constructor
    · intro t ht
      rcases List.mem_append.1 (List.mem_of_getLast? ht) with ht | ht
      · rw [Nat.zero_sub] at ht
        cases ht
      · rw [List.eq_of_mem_replicate ht]
        rfl
    · rw [laidOut, opened_levelMarks, closed_levelMarks]
      omega
  | cons l ls ih =>
    obtain ⟨hl, hls⟩ := List.forall_mem_cons.1 h
    have hrest : Laid l.level (laidOut last l.level ls) := ih hls
    constructor
    · intro t ht
      rw [laidOut, List.getLast?_append, Option.mem_def, Option.or_eq_some_iff] at ht
      rcases ht with ht | ⟨-, ht⟩
      · exact hrest.ended t ht
      · rw [Line.group, List.getLast?_concat] at ht
        cases ht
        rfl
    · have hgroup : closed (l.group level) + l.level = opened (l.group level) + level :=
        closed_group hl
      have hbalanced := hrest.balanced
      rw [laidOut, closed_append, opened_append]
      omega

theorem ne_newline_of_mem_levelMarks {number : Nat} {t : Token}
    (h : t ∈ levelMarks number level next) : t.kind ≠ .newline := by
  rcases kind_of_mem_levelMarks h with hk | hk
  · rw [hk]
    decide
  · rw [hk]
    decide

/-- Marks lead in one direction. -/
theorem levelMarks_one_way (number level next : Nat) :
    (∀ t ∈ levelMarks number level next, t.kind ≠ .indent) ∨
      ∀ t ∈ levelMarks number level next, t.kind ≠ .dedent := by
  by_cases h : next ≤ level
  · left
    intro t ht
    rw [levelMarks, Nat.sub_eq_zero_of_le h, List.replicate_zero, List.nil_append] at ht
    rw [List.eq_of_mem_replicate ht]
    exact Kind.noConfusion
  · right
    intro t ht
    rw [levelMarks, Nat.sub_eq_zero_of_le (Nat.le_of_not_le h), List.replicate_zero,
      List.append_nil] at ht
    rw [List.eq_of_mem_replicate ht]
    exact Kind.noConfusion

theorem head_laidOut_ne_newline (h : ∀ l ∈ ls, l.WellFormed) :
    ∀ t ∈ (laidOut last level ls).head?, t.kind ≠ .newline := by
  intro t ht
  cases ls with
  | nil => exact ne_newline_of_mem_levelMarks (List.mem_of_mem_head? ht)
  | cons l ls =>
    have hl := h l List.mem_cons_self
    rw [laidOut, Line.group, List.append_assoc, List.append_assoc, List.head?_append,
      Option.mem_def, Option.or_eq_some_iff] at ht
    rcases ht with ht | ⟨-, ht⟩
    · exact ne_newline_of_mem_levelMarks (List.mem_of_mem_head? ht)
    · rw [List.head?_append_of_ne_nil _ hl.tokens_ne_nil] at ht
      exact ne_of_isMark (hl.markless t (List.mem_of_mem_head? ht)) rfl

theorem spaced_group (h : l.WellFormed) : Spaced (l.group level) := by
  have content {k : Kind} (hk : k.isMark = true) : ∀ t ∈ l.tokens, t.kind ≠ k :=
    fun t ht => ne_of_isMark (h.markless t ht) hk
  have front : Spaced (levelMarks l.number level l.level ++ l.tokens) := by
    apply Spaced.of_forall
    · exact List.forall_mem_append.2 ⟨fun t => ne_newline_of_mem_levelMarks, content rfl⟩
    · exact (levelMarks_one_way l.number level l.level).imp
        (fun hm => List.forall_mem_append.2 ⟨hm, content rfl⟩)
        fun hm => List.forall_mem_append.2 ⟨hm, content rfl⟩
  refine List.isChain_append.2 ⟨front, .singleton _, ?_⟩
  intro t ht u hu
  rw [List.getLast?_append, List.getLast?_eq_some_getLast h.tokens_ne_nil, Option.some_or] at ht
  cases ht
  cases hu
  have hlast := List.getLast_mem h.tokens_ne_nil
  refine ⟨fun hend => ?_, fun hindent => absurd hindent (content rfl _ hlast)⟩
  have hmark := h.markless _ hlast
  rw [Kind.isMark_of_isEnd hend] at hmark
  cases hmark

theorem spaced_laidOut (h : ∀ l ∈ ls, l.WellFormed) : Spaced (laidOut last level ls) := by
  induction ls generalizing level with
  | nil =>
    exact .of_forall (fun t => ne_newline_of_mem_levelMarks) (levelMarks_one_way last level 0)
  | cons l ls ih =>
    obtain ⟨hl, hls⟩ := List.forall_mem_cons.1 h
    refine List.isChain_append.2 ⟨spaced_group hl, ih hls, ?_⟩
    intro t ht u hu
    rw [Line.group, List.getLast?_concat] at ht
    cases ht
    exact ⟨fun _ => head_laidOut_ne_newline hls u hu, fun hindent => Kind.noConfusion hindent⟩

/-- The tokens of lines are marks or such as a line can hold. -/
theorem isMark_or_isLexeme_of_mem_laidOut (h : ∀ l ∈ ls, l.WellFormed) {t : Token}
    (ht : t ∈ laidOut last level ls) :
    t.kind ≠ .eof ∧ (t.kind.isMark = false → t.kind.IsLexeme) := by
  have marks {number level next : Nat} (ht : t ∈ levelMarks number level next) :
      t.kind ≠ .eof ∧ (t.kind.isMark = false → t.kind.IsLexeme) := by
    rcases kind_of_mem_levelMarks ht with hk | hk
    · rw [hk]
      exact ⟨Kind.noConfusion, fun h => Bool.noConfusion h⟩
    · rw [hk]
      exact ⟨Kind.noConfusion, fun h => Bool.noConfusion h⟩
  induction ls generalizing level with
  | nil => exact marks ht
  | cons l ls ih =>
    obtain ⟨hl, hls⟩ := List.forall_mem_cons.1 h
    rw [laidOut, Line.group] at ht
    simp only [List.mem_append, List.mem_singleton] at ht
    rcases ht with ((ht | ht) | rfl) | ht
    · exact marks ht
    · exact ⟨ne_of_isMark (hl.markless t ht) rfl, fun _ => hl.isLexeme t ht⟩
    · exact ⟨Kind.noConfusion, fun h => Bool.noConfusion h⟩
    · exact ih hls ht

theorem lexed_laidOut (h : ∀ l ∈ ls, l.WellFormed) : Lexed (laidOut last level ls) :=
  ⟨spaced_laidOut h, fun _ ht => (isMark_or_isLexeme_of_mem_laidOut h ht).2⟩

/-! Sources -/

theorem Line.number_of_read {number : Nat} {text : List Char}
    (h : Line.read number text = .ok (some l)) : l.number = number := by
  obtain ⟨-, -, ts, -, rfl⟩ := Line.read_eq_some_iff.1 h
  rfl

theorem wellFormed_of_readLines {number : Nat} {texts : List (List Char)}
    (h : readLines number texts = .ok ls) : ∀ l ∈ ls, l.WellFormed := by
  induction texts generalizing number ls with
  | nil =>
    cases h
    intro l hl
    cases hl
  | cons text texts ih =>
    rw [readLines, bind_eq_ok] at h
    obtain ⟨line, hline, h⟩ := h
    rw [bind_eq_ok] at h
    obtain ⟨more, hmore, h⟩ := h
    cases h
    intro l hl
    rcases List.mem_append.1 hl with hl | hl
    · cases line with
      | none => cases hl
      | some l' =>
        rw [List.mem_singleton.1 hl]
        exact Line.wellFormed_of_read hline
    · exact ih hmore l hl

/-- The tokens of a source text are those of its lines. -/
theorem Token.ofSource_eq_ok {source : String} {ts : List Token} :
    Token.ofSource source = .ok ts ↔ ∃ ls, readLines 1 (Text.sourceLines source.toList) = .ok ls ∧
      ts = layout (Text.sourceLines source.toList).length 0 ls := by
  rw [Token.ofSource, bind_eq_ok]
  constructor
  · rintro ⟨ls, hls, h⟩
    cases h
    exact ⟨ls, hls, rfl⟩
  · rintro ⟨ls, hls, rfl⟩
    exact ⟨ls, hls, rfl⟩

theorem Token.ofSource_eq_map (source : String) : Token.ofSource source =
    (readLines 1 (Text.sourceLines source.toList)).map
      (layout (Text.sourceLines source.toList).length 0) := by
  rw [Token.ofSource]
  cases readLines 1 (Text.sourceLines source.toList) <;> rfl

/-! The first mark for the end -/

namespace Token

variable {ts : List Token} {e : Token}

theorem find?_mark_eq_none (hts : ∀ t ∈ ts, t.kind ≠ .eof) :
    ts.find? (·.kind == .eof) = none :=
  List.find?_eq_none.2 fun t ht => by simpa using hts t ht

theorem takeWhile_append_mark (hts : ∀ t ∈ ts, t.kind ≠ .eof) (he : e.kind = .eof)
    (us : List Token) : (ts ++ e :: us).takeWhile (·.kind != .eof) = ts := by
  rw [List.takeWhile_append_of_pos fun t ht => bne_iff_ne.2 (hts t ht),
    List.takeWhile_cons_of_neg (by simp [he]), List.append_nil]

end Token

namespace Program

variable {ts : List Token} {e : Token}

theorem stop_append_mark (hts : ∀ t ∈ ts, t.kind ≠ .eof) (he : e.kind = .eof)
    (us : List Token) : stop (ts ++ e :: us) = e.pos := by
  rw [stop, List.find?_append, find?_mark_eq_none hts, Option.none_or,
    List.find?_cons_of_pos (by simp [he])]

/-- What stands behind the first mark for the end counts for nothing. -/
theorem ofTokens_append_mark (classes : ClassTable) (hts : ∀ t ∈ ts, t.kind ≠ .eof)
    (he : e.kind = .eof) (us : List Token) :
    ofTokens classes (ts ++ e :: us) = program e.pos classes ts := by
  rw [ofTokens, stop_append_mark hts he, takeWhile_append_mark hts he]

/-- The program of lines is read from their tokens up to the mark for the end. -/
theorem ofTokens_layout (classes : ClassTable) (h : ∀ l ∈ ls, l.WellFormed) :
    ofTokens classes (layout last 0 ls) = program ⟨last, 0⟩ classes (laidOut last 0 ls) := by
  rw [layout_eq]
  exact ofTokens_append_mark classes
    (fun t ht => (isMark_or_isLexeme_of_mem_laidOut h ht).1) rfl []

end Program

end ClassLang
