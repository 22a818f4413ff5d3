import ClassLang.Text.Blank
import Mathlib.Data.List.DropRight

/-!
What trimming leaves of a text. The two ends are trimmed in any order, a second time changes
nothing, and what is not blank parts a text into two whose outer ends are trimmed.
-/

namespace ClassLang.Text

variable {c : Char} {cs : List Char}

theorem trimLeft_append_cons (hc : isBlank c = false) (cs ds : List Char) :
    trimLeft (cs ++ c :: ds) = trimLeft cs ++ c :: ds := by
  have hstop : trimLeft (c :: ds) = c :: ds := List.dropWhile_cons_of_neg (by simp [hc])
  rw [trimLeft, List.dropWhile_append]
  split
  · rename_i hempty
    rw [← trimLeft, hstop, trimLeft, List.isEmpty_iff.1 hempty, List.nil_append]
  · rfl

theorem trimRight_append_cons (hc : isBlank c = false) (cs ds : List Char) :
    trimRight (cs ++ c :: ds) = cs ++ c :: trimRight ds := by
  have hreverse : (cs ++ c :: ds).reverse = ds.reverse ++ c :: cs.reverse := by simp
  rw [trimRight, hreverse, trimLeft_append_cons hc, trimRight]
  simp

/-- What is not blank keeps the text around it, up to the two ends. -/
theorem trim_append_cons (hc : isBlank c = false) (cs ds : List Char) :
    trim (cs ++ c :: ds) = trimLeft cs ++ c :: trimRight ds := by
  rw [trim, trimLeft_append_cons hc, trimRight_append_cons hc]

theorem trimRight_cons (c : Char) (cs : List Char) :
    trimRight (c :: cs) =
      if trimRight cs = [] ∧ isBlank c = true then [] else c :: trimRight cs := by
  rw [trimRight, List.reverse_cons, trimLeft, List.dropWhile_append, ← trimLeft]
  have hempty : trimRight cs = [] ↔ (trimLeft cs.reverse).isEmpty = true := by
    rw [trimRight, List.reverse_eq_nil_iff, List.isEmpty_iff]
  by_cases hcs : trimRight cs = []
  · rw [if_pos (hempty.1 hcs)]
    cases hc : isBlank c with
    | true => simp [hcs, hc]
    | false => simp [hcs, hc]
  · rw [if_neg (fun h => hcs (hempty.2 h)), if_neg (fun h => hcs h.1), List.reverse_append]
    rfl

theorem trimLeft_trimRight (cs : List Char) :
    trimLeft (trimRight cs) = trimRight (trimLeft cs) := by
  induction cs with
  | nil => rfl
  | cons c cs ih =>
    cases hc : isBlank c with
    | true =>
      have hfirst : ∀ ds, trimLeft (c :: ds) = trimLeft ds :=
        fun ds => List.dropWhile_cons_of_pos hc
      rw [hfirst, ← ih, trimRight_cons]
      by_cases hcs : trimRight cs = []
      · rw [if_pos ⟨hcs, hc⟩, hcs]
      · rw [if_neg (fun h => hcs h.1), hfirst]
    | false =>
      have hfirst : ∀ ds, trimLeft (c :: ds) = c :: ds :=
        fun ds => List.dropWhile_cons_of_neg (by simp [hc])
      have hlast : trimRight (c :: cs) = c :: trimRight cs := by simp [trimRight_cons, hc]
      rw [hfirst, hlast, hfirst]

theorem trim_trimLeft (cs : List Char) : trim (trimLeft cs) = trim cs := by
  have htwice : trimLeft (trimLeft cs) = trimLeft cs := List.dropWhile_idempotent isBlank cs
  rw [trim, htwice, trim]

theorem trim_trimRight (cs : List Char) : trim (trimRight cs) = trim cs := by
  have htwice : trimRight (trimRight (trimLeft cs)) = trimRight (trimLeft cs) :=
    List.rdropWhile_idempotent isBlank _
  rw [trim, trimLeft_trimRight, htwice, trim]

/-- Nothing is added. -/
theorem mem_of_mem_trim (h : c ∈ trim cs) : c ∈ cs := by
  have hright : c ∈ trimLeft cs := by
    rw [trim, trimRight, List.mem_reverse] at h
    exact List.mem_reverse.1 ((List.dropWhile_sublist _).subset h)
  exact (List.dropWhile_sublist _).subset hright

end ClassLang.Text
