import ClassLang.Text.Search
import Mathlib.Data.List.Infix

/-!
Where one text stands inside another. What does not hold a character is found in a text with that
character only on one side of it.
-/

namespace ClassLang.Text

variable {needle xs ys cs : List Char} {c : Char}

theorem occursIn_iff : occursIn needle cs = true ↔ needle <:+: cs := by
  induction cs with
  | nil => simp [occursIn]
  | cons c cs ih =>
    rw [occursIn, Bool.or_eq_true, List.isPrefixOf_iff_prefix, ih, List.infix_cons_iff]

theorem contains_iff {text part : String} :
    contains text part = true ↔ part.toList <:+: text.toList := occursIn_iff

theorem prefix_append_cons_iff (hc : c ∉ needle) :
    needle <+: xs ++ c :: ys ↔ needle <+: xs := by
  induction xs generalizing needle with
  | nil =>
    cases needle with
    | nil => simp
    | cons d ds =>
      have hne : d ≠ c := fun h => hc (by simp [h])
      simp [List.cons_prefix_cons, hne]
  | cons x xs ih =>
    cases needle with
    | nil => simp
    | cons d ds =>
      rw [List.mem_cons, not_or] at hc
      rw [List.cons_append, List.cons_prefix_cons, List.cons_prefix_cons, ih hc.2]

/-- What does not hold a character stands in front of it or behind it. -/
theorem infix_append_cons_iff (hc : c ∉ needle) :
    needle <:+: xs ++ c :: ys ↔ needle <:+: xs ∨ needle <:+: ys := by
  induction xs with
  | nil =>
    have hfront : needle <+: [] ++ c :: ys ↔ needle <+: [] := prefix_append_cons_iff hc
    rw [List.nil_append] at hfront ⊢
    rw [List.infix_cons_iff, hfront, List.infix_nil, List.prefix_nil]
  | cons x xs ih =>
    have hfront : needle <+: x :: xs ++ c :: ys ↔ needle <+: x :: xs :=
      prefix_append_cons_iff hc
    rw [List.cons_append] at hfront ⊢
    rw [List.infix_cons_iff, ih, hfront, List.infix_cons_iff, or_assoc]

/-- What holds no separator stands in one of the parts between the separators. -/
theorem infix_intercalate_iff {parts : List (List Char)} (hparts : parts ≠ []) (hc : c ∉ needle) :
    needle <:+: [c].intercalate parts ↔ ∃ p ∈ parts, needle <:+: p := by
  induction parts with
  | nil => exact absurd rfl hparts
  | cons p ps ih =>
    cases ps with
    | nil => simp
    | cons q qs =>
      have hsplit : [c].intercalate (p :: q :: qs) = p ++ c :: [c].intercalate (q :: qs) := by
        simp [List.intercalate]
      rw [hsplit, infix_append_cons_iff hc, ih (List.cons_ne_nil _ _)]
      simp only [List.mem_cons, exists_eq_or_imp]

end ClassLang.Text
