import ClassLang.Proofs.Token.Numbered

/-!
A layout gives back the lines it is made of and their levels: what stands up to a newline is the
first line, at the level that is open, and an indent or a dedent in front of it changes that level
by one.
-/

namespace ClassLang

open Grammar

variable {last d : Nat} {ls : List Line} {t u : Token} {ts rest : List Token}

theorem levelMarks_self (number level : Nat) : levelMarks number level level = [] := by
  simp [levelMarks]

theorem levelMarks_of_lt {number level next : Nat} (h : level < next) :
    levelMarks number level next =
      .mark .indent ⟨number, 1⟩ :: levelMarks number (level + 1) next := by
  have hnext : next - level = next - (level + 1) + 1 := by omega
  have hnone : level - next = 0 ∧ level + 1 - next = 0 := by omega
  rw [levelMarks, levelMarks, hnext, List.replicate_succ, hnone.1, hnone.2, List.cons_append]

theorem levelMarks_succ {number level next : Nat} (h : next ≤ level) :
    levelMarks number (level + 1) next =
      .mark .dedent ⟨number, 1⟩ :: levelMarks number level next := by
  have hlevel : level + 1 - next = level - next + 1 := by omega
  have hnone : next - level = 0 ∧ next - (level + 1) = 0 := by omega
  rw [levelMarks, levelMarks, hlevel, hnone.1, hnone.2]
  rfl

/-- Tokens in front of the first mark are told from what follows. -/
theorem Grammar.Markless.append_cons_inj {us vs : List Token} (hus : Markless us)
    (hvs : Markless vs) (ht : t.kind.isMark = true) (hu : u.kind.isMark = true)
    (h : us ++ t :: ts = vs ++ u :: rest) : us = vs ∧ t = u ∧ ts = rest := by
  induction us generalizing vs with
  | nil =>
    cases vs with
    | nil =>
      cases h
      exact ⟨rfl, rfl, rfl⟩
    | cons v vs =>
      cases h
      have hmark := hvs t List.mem_cons_self
      rw [ht] at hmark
      cases hmark
  | cons a us ih =>
    cases vs with
    | nil =>
      cases h
      have hmark := hus u List.mem_cons_self
      rw [hu] at hmark
      cases hmark
    | cons v vs =>
      obtain ⟨rfl, hafter⟩ := List.cons.inj h
      obtain ⟨rfl, hrest⟩ := ih (fun x hx => hus x (List.mem_cons_of_mem a hx))
        (fun x hx => hvs x (List.mem_cons_of_mem a hx)) hafter
      exact ⟨rfl, hrest⟩

/-- A layout begins with a mark, as long as the level of its first line differs from the one that is
open, and else with the tokens of that line. -/
theorem laidOut_eq_cons (hls : ∀ l ∈ ls, l.Placed) (h : laidOut last d ls = t :: ts) :
    t.kind = .indent ∧ ts = laidOut last (d + 1) ls ∨
    t.kind = .dedent ∧ (∃ e, d = e + 1 ∧ ts = laidOut last e ls) ∨
    t.kind.isMark = false ∧ ∃ l more, ls = l :: more ∧ l.level = d ∧
      t :: ts = l.tokens ++ .mark .newline ⟨l.number, l.stop⟩ :: laidOut last d more := by
  cases ls with
  | nil =>
    cases d with
    | zero => cases h
    | succ e =>
      rw [laidOut, levelMarks_succ (Nat.zero_le e)] at h
      cases h
      exact .inr (.inl ⟨rfl, e, rfl, rfl⟩)
  | cons l more =>
    obtain hlt | rfl | hgt := Nat.lt_trichotomy d l.level
    · left
      rw [laidOut, Line.group, levelMarks_of_lt hlt] at h
      cases h
      exact ⟨rfl, rfl⟩
    · right
      right
      have hl := hls l List.mem_cons_self
      obtain ⟨u, us, hus⟩ := List.exists_cons_of_ne_nil hl.tokens_ne_nil
      rw [laidOut, Line.group, levelMarks_self, List.nil_append, List.append_assoc,
        List.singleton_append] at h
      refine ⟨?_, l, more, rfl, rfl, h.symm⟩
      rw [hus] at h
      cases h
      exact hl.markless t (by rw [hus]; exact List.mem_cons_self)
    · right
      left
      obtain ⟨e, rfl⟩ := Nat.exists_eq_add_of_lt hgt
      rw [laidOut, Line.group, levelMarks_succ (Nat.le_add_right l.level e)] at h
      cases h
      exact ⟨rfl, l.level + e, rfl, rfl⟩

/-- Lines leave no empty layout. -/
theorem eq_nil_of_laidOut (h : laidOut last d ls = []) : ls = [] := by
  cases ls with
  | nil => rfl
  | cons l more => simp [laidOut, Line.group] at h

theorem laidOut_eq_indent (hls : ∀ l ∈ ls, l.Placed) (h : laidOut last d ls = t :: ts)
    (ht : t.kind = .indent) : ts = laidOut last (d + 1) ls := by
  obtain ⟨-, hts⟩ | ⟨hk, -⟩ | ⟨hk, -⟩ := laidOut_eq_cons hls h
  · exact hts
  · rw [ht] at hk
    cases hk
  · rw [ht] at hk
    cases hk

theorem laidOut_eq_dedent (hls : ∀ l ∈ ls, l.Placed) (h : laidOut last (d + 1) ls = t :: ts)
    (ht : t.kind = .dedent) : ts = laidOut last d ls := by
  obtain ⟨hk, -⟩ | ⟨-, e, he, hts⟩ | ⟨hk, -⟩ := laidOut_eq_cons hls h
  · rw [ht] at hk
    cases hk
  · rw [hts, Nat.succ.inj he]
  · rw [ht] at hk
    cases hk

/-- The first line behind a dedent stands no deeper than the level that is open then. -/
theorem level_le_of_dedent (hls : ∀ l ∈ ls, l.Placed) (h : laidOut last (d + 1) ls = t :: ts)
    (ht : t.kind = .dedent) : ∀ l ∈ ls.head?, l.level ≤ d := by
  cases ls with
  | nil => exact nofun
  | cons l more =>
    intro x hx
    obtain rfl : l = x := Option.some.inj hx
    by_contra hdeep
    obtain hlt | heq : d + 1 < l.level ∨ l.level = d + 1 := by omega
    · rw [laidOut, Line.group, levelMarks_of_lt hlt] at h
      cases h
      cases ht
    · have hl := hls l List.mem_cons_self
      obtain ⟨u, us, hus⟩ := List.exists_cons_of_ne_nil hl.tokens_ne_nil
      have hmark : u.kind.isMark = false := hl.markless u (by rw [hus]; exact List.mem_cons_self)
      rw [laidOut, Line.group, heq, levelMarks_self, hus] at h
      cases h
      rw [ht] at hmark
      cases hmark

/-- Tokens up to a newline are those of the first line, which has the open level. -/
theorem laidOut_eq_line (hls : ∀ l ∈ ls, l.Placed) {us : List Token} (hne : us ≠ [])
    (hus : Markless us) (h : laidOut last d ls = us ++ t :: ts) (ht : t.kind = .newline) :
    ∃ l more, ls = l :: more ∧ l.level = d ∧ l.tokens = us ∧ t.pos.line = l.number ∧
      ts = laidOut last d more := by
  obtain ⟨a, as, rfl⟩ := List.exists_cons_of_ne_nil hne
  have ha : a.kind.isMark = false := hus a List.mem_cons_self
  obtain ⟨hk, -⟩ | ⟨hk, -⟩ | ⟨-, l, more, rfl, hlevel, heq⟩ := laidOut_eq_cons hls h
  · rw [hk] at ha
    cases ha
  · rw [hk] at ha
    cases ha
  have hl := hls l List.mem_cons_self
  have hmark : t.kind.isMark = true := by rw [ht]; rfl
  obtain ⟨htokens, rfl, hts⟩ := hus.append_cons_inj hl.markless hmark rfl heq
  exact ⟨l, more, rfl, hlevel, htokens.symm, rfl, hts⟩

/-- Tokens up to the beginning of a block are those of the first line, and the block is one level
deeper. -/
theorem laidOut_eq_head (hls : ∀ l ∈ ls, l.Placed) {us : List Token} (hne : us ≠ [])
    (hus : Markless us) (h : laidOut last d ls = us ++ t :: u :: ts) (ht : t.kind = .newline)
    (hu : u.kind = .indent) :
    ∃ l more, ls = l :: more ∧ l.level = d ∧ l.tokens = us ∧ t.pos.line = l.number ∧
      ts = laidOut last (d + 1) more := by
  obtain ⟨l, more, rfl, hlevel, htokens, hline, hmore⟩ := laidOut_eq_line hls hne hus h ht
  have hrest : ∀ x ∈ more, x.Placed := fun x hx => hls x (List.mem_cons_of_mem l hx)
  exact ⟨l, more, rfl, hlevel, htokens, hline, laidOut_eq_indent hrest hmore.symm hu⟩

end ClassLang
