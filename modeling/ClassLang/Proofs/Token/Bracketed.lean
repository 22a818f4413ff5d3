import ClassLang.Proofs.Token.Levels
import Mathlib.Data.List.Forall2
import Mathlib.Data.List.Infix

/-!
The tokens of a source as groups. Each line with content gives one group: the marks that lead to its
level, its own tokens and a newline. Behind the last group the levels still open are closed, and the
file ends. So no more levels are closed than were opened, and the levels open at a line are told
from its indentation.
-/

namespace ClassLang

open Grammar Token

/-- The tokens of one line. -/
structure Token.Group where
  marks : List Token
  content : List Token
  newline : Token

/-- The tokens of a group in their order. -/
def Token.Group.tokens (g : Group) : List Token := g.marks ++ g.content ++ [g.newline]

/-- Holds of the groups that a line with a number gives: marks of one kind that open or close
levels, tokens of its content, and a newline. -/
structure Token.Group.OfLine (number : Nat) (g : Group) : Prop where
  marks : (∀ t ∈ g.marks, t.kind = .indent) ∨ ∀ t ∈ g.marks, t.kind = .dedent
  nonempty : g.content ≠ []
  content : ∀ t ∈ g.content, t.kind.isMark = false ∧ t.kind ≠ .comment
  newline : g.newline.kind = .newline
  line : ∀ t ∈ g.tokens, t.line = number

/-- The texts with content, with their numbers. -/
def Text.contentLines (first : Nat) (texts : List (List Char)) : List (List Char × Nat) :=
  (texts.zipIdx first).filter fun p => !Line.isBare p.1

/-- Holds of tokens that are well bracketed: one group for each of some lines, in their order, then
dedents and one mark for the end of the file. No front of them closes more levels than it opens, all
of them close as many, and where the content of a line begins, the levels open are half as many as
the spaces that lead the line. -/
structure Token.Bracketed (lines : List (List Char × Nat)) (ts : List Token) : Prop where
  groups : ∃ groups closing eof, ts = groups.flatMap Group.tokens ++ closing ++ [eof] ∧
    List.Forall₂ (fun g p => Group.OfLine p.2 g) groups lines ∧
    (∀ t ∈ closing, t.kind = .dedent) ∧ eof.kind = .eof ∧
    ∀ i g text number, groups[i]? = some g → lines[i]? = some (text, number) →
      2 * opened ((groups.take i).flatMap Group.tokens ++ g.marks) =
        2 * closed ((groups.take i).flatMap Group.tokens ++ g.marks) + Line.spaces text
  ended : ts.countP (·.kind == .eof) = 1
  front : ∀ p, p <+: ts → closed p ≤ opened p
  balanced : opened ts = closed ts

/-- The groups of lines that follow a line of a given level. -/
def Line.groups (level : Nat) : List Line → List Group
  | [] => []
  | l :: ls =>
    ⟨levelMarks l.number level l.level, l.tokens, .mark .newline ⟨l.number, l.stop⟩⟩ ::
      groups l.level ls

/-- The level behind lines that follow a line of a given level. -/
def Line.levelAfter (level : Nat) (ls : List Line) : Nat := ls.foldl (fun _ l => l.level) level

variable {first last level next : Nat} {l : Line} {ls more : List Line}

/-! Groups -/

theorem layout_append (last level : Nat) (ls more : List Line) :
    layout last level (ls ++ more) = (Line.groups level ls).flatMap Group.tokens ++
      layout last (Line.levelAfter level ls) more := by
  induction ls generalizing level with
  | nil => rfl
  | cons l ls ih =>
    rw [List.cons_append, layout, ih, Line.groups, List.flatMap_cons, List.append_assoc]
    rfl

/-- Lines in front of no others end with the levels they leave open and the end of the file. -/
theorem layout_eq_groups (last level : Nat) (ls : List Line) :
    layout last level ls = (Line.groups level ls).flatMap Group.tokens ++
      List.replicate (Line.levelAfter level ls) (.mark .dedent ⟨last, 1⟩) ++
        [.mark .eof ⟨last, 0⟩] := by
  have hlayout := layout_append last level ls []
  rw [List.append_nil] at hlayout
  rw [hlayout, layout, levelMarks, Nat.zero_sub, Nat.sub_zero, List.replicate_zero, List.nil_append,
    List.append_assoc]

theorem one_way_levelMarks (number level next : Nat) :
    (∀ t ∈ levelMarks number level next, t.kind = .indent) ∨
      ∀ t ∈ levelMarks number level next, t.kind = .dedent := by
  obtain hindent | hdedent := levelMarks_one_way number level next
  · exact .inr fun t ht => (kind_of_mem_levelMarks ht).resolve_left (hindent t ht)
  · exact .inl fun t ht => (kind_of_mem_levelMarks ht).resolve_right (hdedent t ht)

theorem Line.Placed.ofLine (h : l.Placed) (level : Nat) :
    Group.OfLine l.number
      ⟨levelMarks l.number level l.level, l.tokens, .mark .newline ⟨l.number, l.stop⟩⟩ where
  marks := one_way_levelMarks l.number level l.level
  nonempty := h.tokens_ne_nil
  content t ht := by
    refine ⟨h.markless t ht, fun hcomment => ?_⟩
    have hlexeme := h.isLexeme t ht
    rw [hcomment] at hlexeme
    exact hlexeme
  newline := rfl
  line t ht := h.line_of_mem_group ht

/-- The lines that are read are those of the texts with content. -/
theorem Token.forall₂_readLines {texts : List (List Char)} (h : readLines first texts = .ok ls) :
    List.Forall₂ (fun l p => Line.read p.2 p.1 = .ok (some l)) ls
      (Text.contentLines first texts) := by
  induction texts generalizing first ls with
  | nil =>
    cases h
    exact .nil
  | cons text texts ih =>
    obtain ⟨line, more, hline, hmore, rfl⟩ := readLines_cons h
    have hrest := ih hmore
    rw [Text.contentLines, List.zipIdx_cons, List.filter_cons]
    cases line with
    | none =>
      rw [if_neg (by simp [Line.isBare_of_read hline])]
      exact hrest
    | some l =>
      rw [if_pos (by simp [(Line.read_eq_some hline).1])]
      exact .cons hline hrest

/-- Each line gives the group of its number. -/
theorem forall₂_groups {lines : List (List Char × Nat)}
    (h : List.Forall₂ (fun l p => Line.read p.2 p.1 = .ok (some l)) ls lines) :
    List.Forall₂ (fun g p => Group.OfLine p.2 g) (Line.groups level ls) lines := by
  induction h generalizing level with
  | nil => exact .nil
  | @cons l p ls lines hread _ ih =>
    have hgroup := (Line.read_eq_some hread).2.2.ofLine level
    refine .cons ?_ ih
    rw [← Line.number_of_read hread]
    exact hgroup

/-! Levels -/

/-- Holds of tokens that lead from so many open levels to so many: at no place among them have more
levels been closed than were open. -/
structure Token.Nested (level next : Nat) (ts : List Token) : Prop where
  front : ∀ p, p <+: ts → closed p ≤ opened p + level
  total : opened ts + level = closed ts + next

namespace Token.Nested

variable {ts us : List Token}

theorem append {mid : Nat} (h : Nested level mid ts) (h' : Nested mid next us) :
    Nested level next (ts ++ us) where
  front p hp := by
    obtain hp | ⟨q, rfl⟩ := List.prefix_or_prefix_of_prefix hp (List.prefix_append ts us)
    · exact h.front p hp
    · have hfront := h'.front q ((List.prefix_append_right_inj ts).1 hp)
      have htotal := h.total
      rw [closed_append, opened_append]
      omega
  total := by
    have hts := h.total
    have hus := h'.total
    rw [closed_append, opened_append]
    omega

theorem of_closed_le (h : closed ts ≤ level) (htotal : opened ts + level = closed ts + next) :
    Nested level next ts where
  front p hp := by
    have hle : closed p ≤ closed ts := hp.sublist.countP_le
    omega
  total := htotal

theorem levelMarks (number level next : Nat) :
    Nested level next (ClassLang.levelMarks number level next) := by
  apply of_closed_le
  · rw [closed_levelMarks]
    omega
  · rw [opened_levelMarks, closed_levelMarks]
    omega

theorem of_eq_zero (hclosed : closed ts = 0) (hopened : opened ts = 0) : Nested level level ts := by
  apply of_closed_le
  · rw [hclosed]
    exact Nat.zero_le level
  · rw [hclosed, hopened]

end Token.Nested

theorem nested_group (h : l.WellFormed) : Nested level l.level (l.group level) := by
  have hnewline : Nested l.level l.level [.mark .newline ⟨l.number, l.stop⟩] := .of_eq_zero rfl rfl
  have hcontent : Nested l.level l.level l.tokens :=
    .of_eq_zero h.markless.closed h.markless.opened
  exact ((Nested.levelMarks l.number level l.level).append hcontent).append hnewline

theorem nested_layout (last level : Nat) (h : ∀ l ∈ ls, l.WellFormed) :
    Nested level 0 (layout last level ls) := by
  induction ls generalizing level with
  | nil => exact (Nested.levelMarks last level 0).append (.of_eq_zero rfl rfl)
  | cons l ls ih =>
    obtain ⟨hl, hls⟩ := List.forall_mem_cons.1 h
    exact (nested_group hl).append (ih l.level hls)

/-- The tokens in front of the content of a line lead to its level. -/
theorem nested_front (h : ∀ l ∈ ls, l.WellFormed) {i : Nat} {g : Group}
    (hg : (Line.groups level ls)[i]? = some g) (hl : ls[i]? = some l) :
    Nested level l.level (((Line.groups level ls).take i).flatMap Group.tokens ++ g.marks) := by
  induction ls generalizing level i with
  | nil => cases hl
  | cons first ls ih =>
    obtain ⟨hfirst, hls⟩ := List.forall_mem_cons.1 h
    cases i with
    | zero =>
      cases hl
      cases hg
      exact .levelMarks l.number level l.level
    | succ i =>
      rw [Line.groups, List.take_succ_cons, List.flatMap_cons, List.append_assoc]
      exact (nested_group hfirst).append (ih hls hg hl)

/-! Sources -/

namespace Token

variable {source : String} {ts : List Token}

/-- What a source is lexed to is well bracketed, its lines being those with content. -/
theorem bracketed_ofSource (h : ofSource source = .ok ts) :
    Bracketed (Text.contentLines 1 (Text.sourceLines source.toList)) ts := by
  obtain ⟨ls, hls, rfl⟩ := ofSource_eq_ok.1 h
  have hwell := wellFormed_of_readLines hls
  have hlines := forall₂_readLines hls
  have hnested := nested_layout (Text.sourceLines source.toList).length 0 hwell
  refine ⟨⟨Line.groups 0 ls, _, _, layout_eq_groups _ 0 ls, forall₂_groups hlines, ?_, rfl, ?_⟩,
    ?_, hnested.front, hnested.total⟩
  · intro t ht
    rw [List.eq_of_mem_replicate ht]
    rfl
  · intro i g text number hg hp
    have hlength := hlines.length_eq
    obtain ⟨hi, hget⟩ := List.getElem?_eq_some_iff.1 hp
    have hread := (List.forall₂_iff_get.1 hlines).2 i (hlength ▸ hi) hi
    simp only [List.get_eq_getElem, hget] at hread
    have htotal := (nested_front hwell hg (List.getElem?_eq_getElem (hlength ▸ hi))).total
    have hlevel := (Line.read_eq_some hread).2.1
    omega
  · have hnone : (laidOut (Text.sourceLines source.toList).length 0 ls).countP
        (·.kind == .eof) = 0 := by
      refine List.countP_eq_zero.2 fun t ht => ?_
      rw [beq_iff_eq]
      exact (isMark_or_isLexeme_of_mem_laidOut hwell ht).1
    rw [layout_eq, List.countP_append, hnone]
    rfl

/-- A source with levels that are opened one by one and closed together, a comment between them. -/
def nestedSource : String := "class A:\n  def f():\n    print\n # none\nprint\n"

theorem bracketed_nestedSource : ∃ ts, ofSource nestedSource = .ok ts ∧
    Text.contentLines 1 (Text.sourceLines nestedSource.toList) =
      [("class A:".toList, 1), ("  def f():".toList, 2), ("    print".toList, 3),
        ("print".toList, 5)] ∧
    Bracketed (Text.contentLines 1 (Text.sourceLines nestedSource.toList)) ts := by
  have hlexed : (ofSource nestedSource).isOk = true := by decide +kernel
  obtain ⟨ts, hts⟩ := exists_eq_ok hlexed
  exact ⟨ts, hts, by decide +kernel, bracketed_ofSource hts⟩

end Token

end ClassLang
