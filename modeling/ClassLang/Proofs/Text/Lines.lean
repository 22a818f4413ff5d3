import ClassLang.Text.Lines

/-!
Parts of a text and its lines. Parts joined again are the text they were cut from. Between the lines
that are read and those that are shown there is no difference but at the end of the source, where an
empty part is no line to show and a carriage return stays.
-/

namespace ClassLang.Text

/-! Parts -/

theorem splitOn_cons_ne {sep c : Char} (h : c ≠ sep) (cs : List Char) :
    splitOn sep (c :: cs) = (c :: (cut sep cs).1) :: (cut sep cs).2 := by
  simp [splitOn, cut, h]

theorem splitOn_of_not_mem {sep : Char} {cs : List Char} (h : sep ∉ cs) :
    splitOn sep cs = [cs] := by
  induction cs with
  | nil => rfl
  | cons c cs ih =>
    have hc : c ≠ sep := (List.ne_of_not_mem_cons h).symm
    obtain ⟨hfirst, hrest⟩ := List.cons_eq_cons.1 (ih (List.not_mem_of_not_mem_cons h))
    rw [splitOn_cons_ne hc, hfirst, hrest]

/-- No part holds the separator. -/
theorem not_mem_of_mem_splitOn {sep : Char} {cs part : List Char} (h : part ∈ splitOn sep cs) :
    sep ∉ part := by
  induction cs generalizing part with
  | nil =>
    rw [splitOn_nil, List.mem_singleton] at h
    subst h
    exact List.not_mem_nil
  | cons c cs ih =>
    by_cases hc : c = sep
    · subst hc
      rw [splitOn_cons_sep, List.mem_cons] at h
      obtain rfl | h := h
      · exact List.not_mem_nil
      · exact ih h
    · rw [splitOn_cons_ne hc, List.mem_cons] at h
      obtain rfl | h := h
      · exact List.not_mem_cons_of_ne_of_not_mem (Ne.symm hc) (ih List.mem_cons_self)
      · exact ih (List.mem_cons_of_mem _ h)

theorem splitOn_append_sep (sep : Char) (cs ds : List Char) :
    splitOn sep (cs ++ sep :: ds) = splitOn sep cs ++ splitOn sep ds := by
  induction cs with
  | nil => exact splitOn_cons_sep sep ds
  | cons c cs ih =>
    by_cases h : c = sep
    · subst h
      rw [List.cons_append, splitOn_cons_sep, splitOn_cons_sep, ih, List.cons_append]
    · obtain ⟨hfirst, hrest⟩ := List.cons_eq_cons.1 ih
      rw [List.cons_append, splitOn_cons_ne h, splitOn_cons_ne h, hfirst, hrest, List.cons_append]
      rfl

/-- A text is cut at its first separator. -/
theorem cut_append_sep {sep : Char} {cs : List Char} (h : sep ∉ cs) (ds : List Char) :
    cut sep (cs ++ sep :: ds) = (cs, splitOn sep ds) := by
  have hparts := splitOn_append_sep sep cs ds
  rw [splitOn_of_not_mem h] at hparts
  obtain ⟨hfirst, hrest⟩ := List.cons_eq_cons.1 hparts
  exact Prod.ext hfirst hrest

theorem cut_of_not_mem {sep : Char} {cs : List Char} (h : sep ∉ cs) : cut sep cs = (cs, []) := by
  obtain ⟨hfirst, hrest⟩ := List.cons_eq_cons.1 (splitOn_of_not_mem h)
  exact Prod.ext hfirst hrest

theorem length_splitOn (sep : Char) (cs : List Char) :
    (splitOn sep cs).length = cs.count sep + 1 := by
  induction cs with
  | nil => rfl
  | cons c cs ih =>
    by_cases h : c = sep
    · subst h
      rw [splitOn_cons_sep, List.length_cons, ih, List.count_cons_self]
    · rw [splitOn_cons_ne h, List.count_cons_of_ne h, ← ih]
      rfl

theorem splitOn_flatMap {sep : Char} {parts : List (List Char)} (h : ∀ part ∈ parts, sep ∉ part) :
    splitOn sep (parts.flatMap (· ++ [sep])) = parts ++ [[]] := by
  induction parts with
  | nil => rfl
  | cons part parts ih =>
    obtain ⟨hpart, hparts⟩ := List.forall_mem_cons.1 h
    rw [List.flatMap_cons, List.append_assoc, List.singleton_append, splitOn_append_sep,
      splitOn_of_not_mem hpart, ih hparts]
    rfl

theorem intercalate_splitOn (sep : Char) (cs : List Char) :
    [sep].intercalate (splitOn sep cs) = cs := by
  induction cs with
  | nil => rfl
  | cons c cs ih =>
    by_cases h : c = sep
    · subst h
      rw [splitOn_cons_sep, splitOn, List.intercalate_cons_cons, ← splitOn, ih]
      rfl
    · rw [splitOn_cons_ne h]
      rw [splitOn] at ih
      cases hparts : (cut sep cs).2 with
      | nil =>
        rw [hparts, List.intercalate_singleton] at ih
        rw [List.intercalate_singleton, ih]
      | cons part parts =>
        rw [hparts, List.intercalate_cons_cons] at ih
        rw [List.intercalate_cons_cons, List.cons_append, List.cons_append, ih]

/-- Parts that are joined are cut apart again. -/
theorem splitOn_intercalate {sep : Char} {parts : List (List Char)} (hne : parts ≠ [])
    (h : ∀ part ∈ parts, sep ∉ part) : splitOn sep ([sep].intercalate parts) = parts := by
  induction parts with
  | nil => exact absurd rfl hne
  | cons part parts ih =>
    obtain ⟨hpart, hparts⟩ := List.forall_mem_cons.1 h
    cases parts with
    | nil => rw [List.intercalate_singleton, splitOn_of_not_mem hpart]
    | cons next parts =>
      rw [List.intercalate_cons_cons, List.append_assoc, List.singleton_append,
        splitOn_append_sep, splitOn_of_not_mem hpart, ih (List.cons_ne_nil next parts) hparts]
      rfl

theorem sourceLines_append (cs ds : List Char) :
    sourceLines (cs ++ '\n' :: ds) = sourceLines cs ++ sourceLines ds := by
  rw [sourceLines, splitOn_append_sep, List.map_append]
  rfl

theorem length_sourceLines (cs : List Char) : (sourceLines cs).length = cs.count '\n' + 1 := by
  rw [sourceLines, List.length_map, length_splitOn]

/-- A text that holds no line feed, and no carriage return at its end, is one line. -/
theorem sourceLines_of_not_mem {cs : List Char} (hfeed : '\n' ∉ cs)
    (hreturn : cs.getLast? ≠ some '\r') : sourceLines cs = [cs] := by
  rw [sourceLines, splitOn_of_not_mem hfeed, List.map_singleton, dropReturn, if_neg hreturn]

/-- Lines that are written one by one are read again, with an empty line behind them. -/
theorem sourceLines_flatMap {texts : List (List Char)}
    (h : ∀ text ∈ texts, '\n' ∉ text ∧ text.getLast? ≠ some '\r') :
    sourceLines (texts.flatMap (· ++ ['\n'])) = texts ++ [[]] := by
  induction texts with
  | nil => rfl
  | cons text texts ih =>
    obtain ⟨⟨hfeed, hreturn⟩, htexts⟩ := List.forall_mem_cons.1 h
    rw [List.flatMap_cons, List.append_assoc, List.singleton_append, sourceLines_append,
      sourceLines_of_not_mem hfeed hreturn, ih htexts]
    rfl

/-! Lines that are shown -/

variable {cs part : List Char} {parts : List (List Char)} {i : Nat}

/-- A part is a line, or it is one with its carriage return. -/
theorem eq_dropReturn_or (part : List Char) :
    part = dropReturn part ∨ part = dropReturn part ++ ['\r'] := by
  unfold dropReturn
  split
  · rename_i hlast
    obtain ⟨front, rfl⟩ := List.getLast?_eq_some_iff.1 hlast
    right
    rw [List.dropLast_concat]
  · exact .inl rfl

theorem not_mem_of_mem_sourceLines {text : List Char} (h : text ∈ sourceLines cs) :
    '\n' ∉ text := by
  obtain ⟨part, hpart, rfl⟩ := List.mem_map.1 h
  intro hfeed
  apply not_mem_of_mem_splitOn hpart
  obtain heq | heq := eq_dropReturn_or part
  · rwa [heq]
  · rw [heq]
    exact List.mem_append_left _ hfeed

/-- A part with more behind it is a line without its carriage return. -/
theorem getElem?_terminated_of_lt (h : i + 1 < parts.length) :
    (terminated parts)[i]? = parts[i]?.map dropReturn := by
  induction parts generalizing i with
  | nil => cases h
  | cons part parts ih =>
    cases parts with
    | nil => exact absurd h (by simp)
    | cons next parts =>
      cases i with
      | zero => rfl
      | succ i => exact ih (Nat.lt_of_succ_lt_succ h)

/-- The last part is a line as it stands, unless it is empty. -/
theorem getElem?_terminated_of_last (h : i + 1 = parts.length) :
    (terminated parts)[i]? = parts[i]?.filter (· ≠ []) := by
  induction parts generalizing i with
  | nil => cases h
  | cons part parts ih =>
    cases parts with
    | nil =>
      obtain rfl : i = 0 := Nat.succ.inj h
      by_cases hpart : part = []
      · simp [terminated, hpart, Option.filter]
      · simp [terminated, hpart, Option.filter]
    | cons next parts =>
      cases i with
      | zero => cases h
      | succ i => exact ih (Nat.succ.inj h)

/-- Every part is shown as a line, with or without its carriage return, unless it is empty and the
last one. -/
theorem getElem?_lines_of_part (h : (splitOn '\n' cs)[i]? = some part) :
    (∃ text, (lines cs)[i]? = some text ∧ (text = dropReturn part ∨ text = part)) ∨
      part = [] ∧ i + 1 = (splitOn '\n' cs).length ∧ (lines cs)[i]? = none := by
  have hi := (List.getElem?_eq_some_iff.1 h).1
  obtain hlt | hlast := Nat.lt_or_eq_of_le hi
  · left
    refine ⟨dropReturn part, ?_, .inl rfl⟩
    rw [lines, getElem?_terminated_of_lt hlt, h, Option.map_some]
  · have hshown : (lines cs)[i]? = (some part).filter (· ≠ []) := by
      rw [lines, getElem?_terminated_of_last hlast, h]
    by_cases hpart : part = []
    · subst hpart
      exact .inr ⟨rfl, hlast, hshown⟩
    · left
      rw [Option.filter_some, if_pos (by simpa using hpart)] at hshown
      exact ⟨part, hshown, .inr rfl⟩

theorem not_mem_of_mem_lines {text : List Char} (h : text ∈ lines cs) : '\n' ∉ text := by
  have hmem (parts : List (List Char)) (hparts : ∀ part ∈ parts, '\n' ∉ part) :
      ∀ text ∈ terminated parts, '\n' ∉ text := by
    fun_induction terminated parts with
    | case1 => nofun
    | case2 => nofun
    | case3 last hlast => exact hparts
    | case4 part parts _ ih =>
      obtain ⟨hpart, hparts⟩ := List.forall_mem_cons.1 hparts
      refine List.forall_mem_cons.2 ⟨fun hfeed => hpart ?_, ih hparts⟩
      obtain heq | heq := eq_dropReturn_or part
      · rwa [heq]
      · rw [heq]
        exact List.mem_append_left _ hfeed
  exact hmem _ (fun _ => not_mem_of_mem_splitOn) text h

end ClassLang.Text
