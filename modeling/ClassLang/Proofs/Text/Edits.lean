import ClassLang.Proofs.Text.Lines

/-!
Edits of a text, line by line: a line put in front of another or in its place, and a carriage return
at the end of every line. The lines of an edited text are those of the text but for the edit.
-/

namespace ClassLang.Text

/-- Holds of texts of blank characters and, behind them, a comment. What counts as blank differs
between a line without content and the gaps of a line. -/
inductive Remark (blank : Char → Bool) : List Char → Prop where
  | done : Remark blank []
  | comment {cs : List Char} : Remark blank ('#' :: cs)
  | blank {c : Char} {cs : List Char} : blank c = true → Remark blank cs → Remark blank (c :: cs)

/-- The text with a line put in front of the line with an index, at the end if there is none. -/
def insertLine (i : Nat) (line cs : List Char) : List Char :=
  ['\n'].intercalate ((splitOn '\n' cs).take i ++ line :: (splitOn '\n' cs).drop i)

/-- The text with another line for the line with an index. -/
def replaceLine (i : Nat) (line cs : List Char) : List Char :=
  ['\n'].intercalate ((splitOn '\n' cs).set i line)

/-- Holds of a part, a text and the part with that text at its end, or in front of the carriage
return that ends it. -/
def Extends (part more longer : List Char) : Prop :=
  ∃ front back, (back = [] ∨ back = ['\r']) ∧ part = front ++ back ∧ longer = front ++ more ++ back

/-- The text with a carriage return in front of every line feed. -/
def withReturns (cs : List Char) : List Char :=
  cs.flatMap fun c => if c = '\n' then ['\r', '\n'] else [c]

/-- The parts with a carriage return at the end of each one but the last. -/
def returned : List (List Char) → List (List Char)
  | [] => []
  | [last] => [last]
  | part :: parts => (part ++ ['\r']) :: returned parts

variable {blank gap : Char → Bool} {cs ds part more longer line : List Char} {c : Char} {i : Nat}

namespace Remark

/-- A front of a remark is one. -/
theorem front (h : Remark blank (cs ++ ds)) : Remark blank cs := by
  induction cs with
  | nil => exact .done
  | cons c cs ih =>
    cases h with
    | comment => exact .comment
    | blank hc h => exact .blank hc (ih h)

theorem dropReturn (h : Remark blank cs) : Remark blank (dropReturn cs) := by
  obtain heq | heq := eq_dropReturn_or cs
  · rwa [← heq]
  · rw [heq] at h
    exact h.front

/-- What begins a remark is blank or a hash. -/
theorem head (h : Remark blank cs) (hc : cs.head? = some c) : blank c = true ∨ c = '#' := by
  cases h with
  | done => cases hc
  | comment =>
    cases hc
    exact .inr rfl
  | blank hblank h =>
    cases hc
    exact .inl hblank

end Remark

theorem dropReturn_concat (cs : List Char) : dropReturn (cs ++ ['\r']) = cs := by
  rw [dropReturn, if_pos List.getLast?_concat, List.dropLast_concat]

theorem dropReturn_append (cs : List Char) (h : ds ≠ []) :
    dropReturn (cs ++ ds) = cs ++ dropReturn ds := by
  unfold dropReturn
  rw [List.getLast?_append, List.getLast?_eq_some_getLast h, Option.some_or,
    List.dropLast_append_of_ne_nil h]
  split <;> rfl

/-- A part with gaps and a comment behind it is a line with gaps and a comment behind it. -/
theorem Extends.dropReturn (h : Extends part more longer) (hmore : Remark gap more)
    (hgap : gap '\r' = true) :
    ∃ tail, dropReturn longer = dropReturn part ++ tail ∧ Remark gap tail := by
  obtain ⟨front, back, rfl | rfl, rfl, rfl⟩ := h
  · have hreturn : ∃ r, front = Text.dropReturn front ++ r ∧ Remark gap (r ++ more) := by
      obtain heq | heq := eq_dropReturn_or front
      · exact ⟨[], by rwa [List.append_nil], hmore⟩
      · exact ⟨['\r'], heq, .blank hgap hmore⟩
    obtain ⟨r, heq, hrest⟩ := hreturn
    rw [List.append_nil, List.append_nil]
    by_cases hnil : more = []
    · subst hnil
      exact ⟨[], by rw [List.append_nil, List.append_nil], .done⟩
    · refine ⟨Text.dropReturn (r ++ more), ?_, hrest.dropReturn⟩
      have hne : r ++ more ≠ [] := fun h => hnil (List.append_eq_nil_iff.1 h).2
      rw [← dropReturn_append _ hne, ← List.append_assoc, ← heq]
  · exact ⟨more, by rw [dropReturn_concat, dropReturn_concat], hmore⟩

/-! Lines of an edited text -/

theorem sourceLines_insertLine (i : Nat) (cs : List Char) (hline : '\n' ∉ line) :
    sourceLines (insertLine i line cs) =
      (sourceLines cs).take i ++ dropReturn line :: (sourceLines cs).drop i := by
  have hparts : ∀ part ∈ (splitOn '\n' cs).take i ++ line :: (splitOn '\n' cs).drop i,
      '\n' ∉ part := by
    intro part hpart
    rw [List.mem_append, List.mem_cons] at hpart
    obtain hpart | rfl | hpart := hpart
    · exact not_mem_of_mem_splitOn (List.mem_of_mem_take hpart)
    · exact hline
    · exact not_mem_of_mem_splitOn (List.mem_of_mem_drop hpart)
  have hne : (splitOn '\n' cs).take i ++ line :: (splitOn '\n' cs).drop i ≠ [] := by simp
  rw [sourceLines, insertLine, splitOn_intercalate hne hparts, List.map_append, List.map_cons,
    List.map_take, List.map_drop]
  rfl

theorem sourceLines_replaceLine (i : Nat) (cs : List Char) (hline : '\n' ∉ line) :
    sourceLines (replaceLine i line cs) = (sourceLines cs).set i (dropReturn line) := by
  have hparts : ∀ part ∈ (splitOn '\n' cs).set i line, '\n' ∉ part := by
    intro part hpart
    obtain hpart | rfl := List.mem_or_eq_of_mem_set hpart
    · exact not_mem_of_mem_splitOn hpart
    · exact hline
  have hne : (splitOn '\n' cs).set i line ≠ [] := by
    rw [Ne, List.set_eq_nil_iff]
    exact splitOn_ne_nil '\n' cs
  rw [sourceLines, replaceLine, splitOn_intercalate hne hparts, List.map_set]
  rfl

theorem splitOn_withReturns (cs : List Char) :
    splitOn '\n' (withReturns cs) = returned (splitOn '\n' cs) := by
  induction cs with
  | nil => rfl
  | cons c cs ih =>
    by_cases hc : c = '\n'
    · subst hc
      have hnext : returned ([] :: splitOn '\n' cs) = ['\r'] :: returned (splitOn '\n' cs) := rfl
      have hreturn : '\r' ≠ '\n' := by decide
      change splitOn '\n' ('\r' :: '\n' :: withReturns cs) = _
      rw [splitOn_cons_sep, hnext, ← ih, splitOn_cons_ne hreturn]
      have hcut := splitOn_cons_sep '\n' (withReturns cs)
      obtain ⟨hfirst, hrest⟩ := List.cons_eq_cons.1 hcut
      rw [hfirst, hrest]
    · have hflat : withReturns (c :: cs) = c :: withReturns cs := by simp [withReturns, hc]
      rw [hflat, splitOn_cons_ne hc, splitOn_cons_ne hc]
      rw [splitOn, splitOn] at ih
      cases hparts : (cut '\n' cs).2 with
      | nil =>
        rw [hparts] at ih
        obtain ⟨hfirst, hrest⟩ := List.cons_eq_cons.1 ih
        rw [hfirst, hrest]
        rfl
      | cons part parts =>
        rw [hparts] at ih
        obtain ⟨hfirst, hrest⟩ := List.cons_eq_cons.1 ih
        rw [hfirst, hrest]
        rfl

/-- A carriage return that is put behind a line is dropped again. -/
theorem map_dropReturn_returned {parts : List (List Char)}
    (h : ∀ part ∈ parts, part.getLast? ≠ some '\r') :
    (returned parts).map dropReturn = parts.map dropReturn := by
  fun_induction returned parts with
  | case1 => rfl
  | case2 => rfl
  | case3 part parts _ ih =>
    obtain ⟨hpart, hparts⟩ := List.forall_mem_cons.1 h
    have hkept : dropReturn part = part := if_neg hpart
    rw [List.map_cons, List.map_cons, dropReturn_concat, hkept, ih hparts]

theorem sourceLines_withReturns (h : ∀ part ∈ splitOn '\n' cs, part.getLast? ≠ some '\r') :
    sourceLines (withReturns cs) = sourceLines cs := by
  rw [sourceLines, splitOn_withReturns, map_dropReturn_returned h]
  rfl

end ClassLang.Text
