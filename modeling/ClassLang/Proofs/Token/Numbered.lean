import ClassLang.Proofs.Token.Layout

/-!
Lines and the text they are read from. A line bears the number of its text, two leading spaces for
each level and tokens at that number; the lines of a source are its texts with content, in their
order.
-/

namespace ClassLang

open Token

namespace Line

variable {number : Nat} {text : List Char} {l : Line}

/-- What is read stands on its line. -/
theorem Reads.line {column : Nat} {cs : List Char} {ts : List Token}
    (h : Reads number column cs ts) : ∀ t ∈ ts, t.pos.line = number := by
  induction h with
  | done => exact nofun
  | comment => exact nofun
  | gap _ _ ih => exact ih
  | token _ _ _ ih => exact List.forall_mem_cons.2 ⟨rfl, ih⟩

/-- A line as it is read, its tokens at its number. -/
structure Placed (l : Line) : Prop extends l.WellFormed where
  line : ∀ t ∈ l.tokens, t.pos.line = l.number

/-- What is read of a text with content. -/
theorem read_eq_some (h : Line.read number text = .ok (some l)) :
    isBare text = false ∧ 2 * l.level = spaces text ∧ l.Placed := by
  have hnumber := number_of_read h
  have hline := (reads_of_read h).1.line
  obtain ⟨hbare, hfault, ts, -, rfl⟩ := read_eq_some_iff.1 h
  refine ⟨hbare, ?_, wellFormed_of_read h, hline⟩
  have heven := (indentFault?_eq_none_iff.1 hfault).2
  show 2 * (spaces text / 2) = spaces text
  omega

theorem isBare_of_read (h : Line.read number text = .ok none) : isBare text = true := by
  obtain ⟨hbare, -⟩ | ⟨-, -, ts, -, heq⟩ := read_eq_ok_iff.1 h
  · exact hbare
  · cases heq

end Line

namespace Token

variable {first i : Nat} {texts : List (List Char)} {ls : List Line} {text : List Char} {l : Line}

theorem readLines_cons (h : readLines first (text :: texts) = .ok ls) :
    ∃ line more, Line.read first text = .ok line ∧ readLines (first + 1) texts = .ok more ∧
      ls = line.toList ++ more := by
  rw [readLines, bind_eq_ok] at h
  obtain ⟨line, hline, h⟩ := h
  rw [bind_eq_ok] at h
  obtain ⟨more, hmore, h⟩ := h
  cases h
  exact ⟨line, more, hline, hmore, rfl⟩

/-- Every line is read from a text. -/
theorem exists_of_mem_readLines (h : readLines first texts = .ok ls) (hl : l ∈ ls) :
    ∃ i text, texts[i]? = some text ∧ Line.read (first + i) text = .ok (some l) := by
  induction texts generalizing first ls with
  | nil =>
    cases h
    cases hl
  | cons text texts ih =>
    obtain ⟨line, more, hline, hmore, rfl⟩ := readLines_cons h
    rcases List.mem_append.1 hl with hl | hl
    · rw [Option.mem_toList] at hl
      subst hl
      exact ⟨0, text, rfl, hline⟩
    · obtain ⟨i, other, hi, hread⟩ := ih hmore hl
      rw [Nat.add_right_comm] at hread
      exact ⟨i + 1, other, hi, hread⟩

/-- Every text is read, and as a line if it has content. -/
theorem read_of_readLines (h : readLines first texts = .ok ls) (hi : texts[i]? = some text) :
    ∃ line, Line.read (first + i) text = .ok line ∧ ∀ l ∈ line, l ∈ ls := by
  induction texts generalizing first ls i with
  | nil => cases hi
  | cons other texts ih =>
    obtain ⟨line, more, hline, hmore, rfl⟩ := readLines_cons h
    cases i with
    | zero =>
      cases hi
      exact ⟨line, hline, fun l hl => List.mem_append_left more (Option.mem_toList.2 hl)⟩
    | succ i =>
      obtain ⟨line', hread, hl⟩ := ih hmore hi
      rw [Nat.add_right_comm] at hread
      exact ⟨line', hread, fun l hl' => List.mem_append_right _ (hl l hl')⟩

theorem exists_mem_readLines (h : readLines first texts = .ok ls) (hi : texts[i]? = some text)
    (hbare : Line.isBare text = false) :
    ∃ l ∈ ls, Line.read (first + i) text = .ok (some l) := by
  obtain ⟨line, hread, hmem⟩ := read_of_readLines h hi
  cases line with
  | none =>
    rw [Line.isBare_of_read hread] at hbare
    cases hbare
  | some l => exact ⟨l, hmem l rfl, hread⟩

theorem readLines_cons_eq_error {e : Error} : readLines first (text :: texts) = .error e ↔
    Line.read first text = .error e ∨
      ∃ line, Line.read first text = .ok line ∧ readLines (first + 1) texts = .error e := by
  rw [readLines, bind_eq_error]
  refine or_congr_right (exists_congr fun line => and_congr_right fun _ => ?_)
  rw [bind_eq_error]
  constructor
  · rintro (h | ⟨ls, -, h⟩)
    · exact h
    · cases h
  · exact .inl

/-- The failure is that of the first text that cannot be read. -/
theorem readLines_eq_error_iff {e : Error} : readLines first texts = .error e ↔
    ∃ i text, texts[i]? = some text ∧ Line.read (first + i) text = .error e ∧
      ∀ j other, j < i → texts[j]? = some other →
        ∃ line, Line.read (first + j) other = .ok line := by
  induction texts generalizing first with
  | nil =>
    refine iff_of_false nofun ?_
    rintro ⟨i, text, hi, -⟩
    cases hi
  | cons text texts ih =>
    have hnext (i : Nat) : first + 1 + i = first + (i + 1) := by omega
    rw [readLines_cons_eq_error, ih]
    simp only [hnext]
    constructor
    · rintro (h | ⟨line, hline, i, other, hi, hother, hbefore⟩)
      · exact ⟨0, text, rfl, h, nofun⟩
      · refine ⟨i + 1, other, hi, hother, fun j before hj hbefore' => ?_⟩
        cases j with
        | zero =>
          cases hbefore'
          exact ⟨line, hline⟩
        | succ j => exact hbefore j before (Nat.lt_of_succ_lt_succ hj) hbefore'
    · rintro ⟨i, other, hi, hother, hbefore⟩
      cases i with
      | zero =>
        cases hi
        exact .inl hother
      | succ i =>
        obtain ⟨line, hline⟩ := hbefore 0 text (Nat.succ_pos i) rfl
        exact .inr ⟨line, hline, i, other, hi, hother,
          fun j before hj => hbefore (j + 1) before (Nat.succ_lt_succ hj)⟩

/-- Lines stand in the order of their texts. -/
theorem pairwise_readLines (h : readLines first texts = .ok ls) :
    (ls.map Line.number).Pairwise (· < ·) ∧ ∀ l ∈ ls, first ≤ l.number := by
  induction texts generalizing first ls with
  | nil =>
    cases h
    exact ⟨.nil, nofun⟩
  | cons text texts ih =>
    obtain ⟨line, more, hline, hmore, rfl⟩ := readLines_cons h
    obtain ⟨hpairwise, hfirst⟩ := ih hmore
    cases line with
    | none => exact ⟨hpairwise, fun l hl => Nat.le_of_succ_le (hfirst l hl)⟩
    | some l =>
      have hnumber : l.number = first := Line.number_of_read hline
      refine ⟨List.pairwise_cons.2 ⟨fun n hn => ?_, hpairwise⟩, fun l' hl' => ?_⟩
      · obtain ⟨l', hl', rfl⟩ := List.mem_map.1 hn
        have hle := hfirst l' hl'
        omega
      · rcases List.mem_cons.1 hl' with rfl | hl'
        · exact hnumber.ge
        · exact Nat.le_of_succ_le (hfirst l' hl')

end Token

/-! Lines of tokens -/

variable {last level next : Nat} {ls : List Line} {t : Token}

theorem line_of_mem_levelMarks {number : Nat} (h : t ∈ levelMarks number level next) :
    t.pos.line = number := by
  rcases List.mem_append.1 h with h | h
  · rw [List.eq_of_mem_replicate h]
    rfl
  · rw [List.eq_of_mem_replicate h]
    rfl

theorem Line.Placed.line_of_mem_group {l : Line} (h : l.Placed) (ht : t ∈ l.group level) :
    t.pos.line = l.number := by
  rw [Line.group, List.mem_append, List.mem_append, List.mem_singleton] at ht
  obtain (ht | ht) | rfl := ht
  · exact line_of_mem_levelMarks ht
  · exact h.line t ht
  · rfl

/-- A token bears the number of a line, unless it is a dedent at the end of the file. -/
theorem line_of_mem_laidOut (h : ∀ l ∈ ls, l.Placed) (ht : t ∈ laidOut last level ls) :
    (∃ l ∈ ls, t.pos.line = l.number) ∨ t.kind = .dedent ∧ t.pos.line = last := by
  induction ls generalizing level with
  | nil =>
    rw [laidOut, levelMarks, Nat.zero_sub, List.replicate_zero, List.nil_append] at ht
    rw [List.eq_of_mem_replicate ht]
    exact .inr ⟨rfl, rfl⟩
  | cons l ls ih =>
    obtain ⟨hl, hls⟩ := List.forall_mem_cons.1 h
    rw [laidOut, List.mem_append] at ht
    obtain ht | ht := ht
    · exact .inl ⟨l, List.mem_cons_self, hl.line_of_mem_group ht⟩
    · obtain ⟨l', hl', hline⟩ | hlast := ih hls ht
      · exact .inl ⟨l', List.mem_cons_of_mem l hl', hline⟩
      · exact .inr hlast

theorem mem_laidOut {l : Line} (hl : l ∈ ls) (ht : t ∈ l.tokens) : t ∈ laidOut last level ls := by
  induction ls generalizing level with
  | nil => cases hl
  | cons l' ls ih =>
    rw [laidOut, List.mem_append]
    obtain rfl | hl := List.mem_cons.1 hl
    · exact .inl (List.mem_append_left _ (List.mem_append_right _ ht))
    · exact .inr (ih hl)

/-- Holds of the numbers, counted from one, of texts with content. -/
def Text.HasContent (texts : List (List Char)) (line : Nat) : Prop :=
  ∃ i text, line = i + 1 ∧ texts[i]? = some text ∧ Line.isBare text = false

namespace Token

variable {texts : List (List Char)} {line : Nat}

theorem placed_of_readLines {first : Nat} (h : readLines first texts = .ok ls) :
    ∀ l ∈ ls, l.Placed := by
  intro l hl
  obtain ⟨i, text, -, hread⟩ := exists_of_mem_readLines h hl
  exact (Line.read_eq_some hread).2.2

/-- A token is on a line with content, unless it is a dedent at the end of the file. -/
theorem hasContent_of_mem_laidOut (h : readLines 1 texts = .ok ls)
    (ht : t ∈ laidOut last level ls) :
    Text.HasContent texts t.line ∨ t.kind = .dedent ∧ t.line = last := by
  obtain ⟨l, hl, hline⟩ | hlast := line_of_mem_laidOut (placed_of_readLines h) ht
  · left
    obtain ⟨i, text, hi, hread⟩ := exists_of_mem_readLines h hl
    have hnumber : t.line = i + 1 := by
      rw [Token.line, hline, Line.number_of_read hread, Nat.add_comm]
    exact ⟨i, text, hnumber, hi, (Line.read_eq_some hread).1⟩
  · exact .inr hlast

/-- On a line with content there is a token that is no mark. -/
theorem exists_token_of_hasContent (last : Nat) (h : readLines 1 texts = .ok ls)
    (hline : Text.HasContent texts line) :
    ∃ t ∈ layout last 0 ls, t.kind.isMark = false ∧ t.line = line := by
  obtain ⟨i, text, rfl, hi, hbare⟩ := hline
  obtain ⟨l, hl, hread⟩ := exists_mem_readLines h hi hbare
  have hplaced : l.Placed := (Line.read_eq_some hread).2.2
  obtain ⟨t, ht⟩ := List.exists_mem_of_ne_nil _ hplaced.tokens_ne_nil
  refine ⟨t, ?_, hplaced.markless t ht, ?_⟩
  · rw [layout_eq]
    exact List.mem_append_left _ (mem_laidOut hl ht)
  · rw [Token.line, hplaced.line t ht, Line.number_of_read hread, Nat.add_comm]

end Token

end ClassLang
