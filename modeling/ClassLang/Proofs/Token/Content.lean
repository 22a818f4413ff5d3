import ClassLang.Proofs.Token.Numbered

/-!
The tokens of one line among those of a source. They are found by their number, and they are those
that the text of the line is read as, with a newline behind them.
-/

namespace ClassLang.Token

/-- The tokens on a line, marks apart. -/
def content (line : Nat) (ts : List Token) : List Token :=
  ts.filter fun t => !t.kind.isMark && t.line == line

/-- The tokens that are no marks. -/
def unmarked (ts : List Token) : List Token := ts.filter fun t => !t.kind.isMark

/-- The newlines on a line. -/
def newlines (line : Nat) (ts : List Token) : List Token :=
  ts.filter fun t => t.kind == .newline && t.line == line

/-- Holds of the tests that only the tokens of a line and its newline can pass. -/
def Picks (line : Nat) (p : Token → Bool) : Prop :=
  ∀ t, p t = true → t.line = line ∧ t.kind ≠ .indent ∧ t.kind ≠ .dedent ∧ t.kind ≠ .eof

variable {last level line number next i : Nat} {l : Line} {ls : List Line} {t : Token}
  {texts : List (List Char)} {text : List Char} {p : Token → Bool}

theorem isMark_of_mem_levelMarks (h : t ∈ levelMarks number level next) :
    t.kind.isMark = true := by
  obtain hk | hk := kind_of_mem_levelMarks h
  · rw [hk]
    rfl
  · rw [hk]
    rfl

theorem picks_content (line : Nat) : Picks line fun t => !t.kind.isMark && t.line == line := by
  intro t h
  rw [Bool.and_eq_true, Bool.not_eq_true', beq_iff_eq] at h
  exact ⟨h.2, ne_of_isMark h.1 rfl, ne_of_isMark h.1 rfl, ne_of_isMark h.1 rfl⟩

theorem picks_newlines (line : Nat) : Picks line fun t => t.kind == .newline && t.line == line := by
  intro t h
  rw [Bool.and_eq_true, beq_iff_eq, beq_iff_eq] at h
  rw [h.1]
  exact ⟨h.2, Kind.noConfusion, Kind.noConfusion, Kind.noConfusion⟩

namespace Picks

/-- Where there is no line of a number, nothing is picked. -/
theorem layout_of_ne (hp : Picks line p) (hplaced : ∀ l ∈ ls, l.Placed)
    (h : ∀ l ∈ ls, l.number ≠ line) : (layout last level ls).filter p = [] := by
  rw [List.filter_eq_nil_iff]
  intro t ht hpick
  obtain ⟨hline, -, hdedent, heof⟩ := hp t hpick
  rw [layout_eq, List.mem_append, List.mem_singleton] at ht
  obtain ht | rfl := ht
  · obtain ⟨l, hl, hnumber⟩ | ⟨hk, -⟩ := line_of_mem_laidOut hplaced ht
    · exact h l hl (hnumber.symm.trans hline)
    · exact hdedent hk
  · exact heof rfl

/-- Among the tokens of lines, those of one line are picked. -/
theorem layout_of_mem (hp : Picks l.number p) (hplaced : ∀ l ∈ ls, l.Placed)
    (hnumbers : (ls.map Line.number).Pairwise (· < ·)) (hl : l ∈ ls) :
    (layout last level ls).filter p =
      (l.tokens ++ [mark .newline ⟨l.number, l.stop⟩]).filter p := by
  induction ls generalizing level with
  | nil => cases hl
  | cons first ls ih =>
    obtain ⟨hfirst, hrest⟩ := List.forall_mem_cons.1 hplaced
    rw [List.map_cons, List.pairwise_cons] at hnumbers
    obtain ⟨hlt, hnumbers⟩ := hnumbers
    have hless (l : Line) (hl : l ∈ ls) : first.number < l.number :=
      hlt l.number (List.mem_map_of_mem hl)
    rw [layout, List.filter_append]
    obtain rfl | hl := List.mem_cons.1 hl
    · have hmarks : (levelMarks l.number level l.level).filter p = [] := by
        rw [List.filter_eq_nil_iff]
        intro t ht hpick
        obtain ⟨-, hindent, hdedent, -⟩ := hp t hpick
        exact (kind_of_mem_levelMarks ht).elim hindent hdedent
      have hnone : (layout last l.level ls).filter p = [] :=
        hp.layout_of_ne hrest fun l' hl' => (hless l' hl').ne'
      rw [hnone, List.append_nil, Line.group, List.append_assoc, List.filter_append, hmarks,
        List.nil_append]
    · have hother : (first.group level).filter p = [] := by
        rw [List.filter_eq_nil_iff]
        intro t ht hpick
        have hline := hfirst.line_of_mem_group ht
        exact (hless l hl).ne (hline.symm.trans (hp t hpick).1)
      rw [hother, List.nil_append, ih hrest hnumbers hl]

end Picks

theorem content_layout_of_ne (hplaced : ∀ l ∈ ls, l.Placed) (h : ∀ l ∈ ls, l.number ≠ line) :
    content line (layout last level ls) = [] :=
  (picks_content line).layout_of_ne hplaced h

/-- The tokens of a line are found again by its number. -/
theorem content_layout_of_mem (hplaced : ∀ l ∈ ls, l.Placed)
    (hnumbers : (ls.map Line.number).Pairwise (· < ·)) (hl : l ∈ ls) :
    content l.number (layout last level ls) = l.tokens := by
  have htokens : ∀ t ∈ l.tokens, (!t.kind.isMark && t.line == l.number) = true := by
    intro t ht
    rw [(hplaced l hl).markless t ht, Token.line, (hplaced l hl).line t ht, beq_self_eq_true]
    rfl
  have hnewline : [Token.mark .newline ⟨l.number, l.stop⟩].filter
      (fun t => !t.kind.isMark && t.line == l.number) = [] := rfl
  rw [content, (picks_content l.number).layout_of_mem hplaced hnumbers hl, List.filter_append,
    hnewline, List.append_nil, List.filter_eq_self.2 htokens]

theorem newlines_layout_of_mem (hplaced : ∀ l ∈ ls, l.Placed)
    (hnumbers : (ls.map Line.number).Pairwise (· < ·)) (hl : l ∈ ls) :
    newlines l.number (layout last level ls) = [.mark .newline ⟨l.number, l.stop⟩] := by
  have htokens : l.tokens.filter (fun t => t.kind == .newline && t.line == l.number) = [] := by
    rw [List.filter_eq_nil_iff]
    intro t ht hnewline
    rw [Bool.and_eq_true, beq_iff_eq] at hnewline
    exact ne_of_isMark ((hplaced l hl).markless t ht) rfl hnewline.1
  rw [newlines, (picks_newlines l.number).layout_of_mem hplaced hnumbers hl, List.filter_append,
    htokens, List.nil_append]
  simp [Token.mark, Token.line]

theorem unmarked_eq_nil {ts : List Token} (h : ∀ t ∈ ts, t.kind.isMark = true) :
    unmarked ts = [] := by
  rw [unmarked, List.filter_eq_nil_iff]
  intro t ht
  rw [h t ht]
  exact Bool.false_ne_true

/-- Without its marks, a layout is what its lines hold. -/
theorem unmarked_layout (h : ∀ l ∈ ls, l.WellFormed) :
    unmarked (layout last level ls) = ls.flatMap Line.tokens := by
  have hmarks (number level next : Nat) : unmarked (levelMarks number level next) = [] :=
    unmarked_eq_nil fun _ => isMark_of_mem_levelMarks
  have happend (ts us : List Token) : unmarked (ts ++ us) = unmarked ts ++ unmarked us :=
    List.filter_append ..
  induction ls generalizing level with
  | nil =>
    rw [layout, happend, hmarks]
    rfl
  | cons l ls ih =>
    obtain ⟨hl, hls⟩ := List.forall_mem_cons.1 h
    have htokens : unmarked l.tokens = l.tokens := by
      refine List.filter_eq_self.2 fun t ht => ?_
      rw [hl.markless t ht]
      rfl
    have hnewline : unmarked [.mark .newline ⟨l.number, l.stop⟩] = [] := rfl
    rw [layout, Line.group, happend, happend, happend, hmarks, htokens, hnewline, ih hls,
      List.nil_append, List.append_nil, List.flatMap_cons]

/-- On a line of a source are the tokens that its text is read as. -/
theorem content_of_readLines (last : Nat) (h : readLines 1 texts = .ok ls)
    (hi : texts[i]? = some text) : ∃ read, Line.read (i + 1) text = .ok read ∧
      content (i + 1) (layout last 0 ls) = read.elim [] Line.tokens := by
  obtain ⟨read, hread, hmem⟩ := read_of_readLines h hi
  have hplaced := placed_of_readLines h
  rw [Nat.add_comm] at hread
  refine ⟨read, hread, ?_⟩
  cases read with
  | some l =>
    rw [← Line.number_of_read hread]
    exact content_layout_of_mem hplaced (pairwise_readLines h).1 (hmem l rfl)
  | none =>
    refine content_layout_of_ne hplaced fun l hl hnumber => ?_
    obtain ⟨j, other, hj, hl⟩ := exists_of_mem_readLines h hl
    rw [Line.number_of_read hl] at hnumber
    obtain rfl : j = i := by omega
    rw [hi] at hj
    cases hj
    rw [Nat.add_comm, hread] at hl
    cases hl

end ClassLang.Token
