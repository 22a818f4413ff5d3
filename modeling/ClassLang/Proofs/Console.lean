import ClassLang.Console

/-!
What a console has been given, and which consoles take the same texts.
-/

namespace ClassLang.Console

/-- All text that a console has taken. -/
def written : Console → String
  | .buffer text => text
  | .stream passed waiting => passed.foldl (· ++ ·) "" ++ waiting
  | .full waiting => waiting

/-- Whether a console takes every text. -/
def hasRoom : Console → Bool
  | .full _ => false
  | _ => true

/-- Holds of consoles that take the same texts. -/
def Akin (c d : Console) : Prop := (c.hasRoom = true ∧ d.hasRoom = true) ∨ c = d

instance (c d : Console) : Decidable (c.Akin d) := inferInstanceAs (Decidable (_ ∨ _))

variable {c d c' : Console} {text : String}

/-- A text that is taken comes behind those taken before. -/
theorem written_write (h : c.write text = .ok c') : c'.written = c.written ++ text := by
  cases c with
  | buffer old =>
    cases h
    rfl
  | stream passed waiting =>
    cases h
    simp only [written]
    split
    · rename_i hempty
      have hgather := gather_append waiting text
      rw [String.isEmpty_iff.1 hempty, String.empty_append] at hgather
      rw [hgather, String.append_assoc]
    · rw [Array.foldl_push, String.append_assoc, gather_append, String.append_assoc]
  | full waiting =>
    simp only [write] at h
    split at h
    · rename_i hempty
      cases h
      have hgather := gather_append waiting text
      rw [String.isEmpty_iff.1 hempty, String.empty_append] at hgather
      exact hgather
    · cases h

/-- What is kept of a text that is taken comes behind what was kept before. -/
theorem captured_write (h : c.write text = .ok c') :
    ∃ kept, c'.captured = c.captured ++ kept := by
  cases c with
  | buffer old =>
    cases h
    exact ⟨text, rfl⟩
  | stream passed waiting =>
    cases h
    exact ⟨"", rfl⟩
  | full waiting =>
    simp only [write] at h
    split at h
    · cases h
      exact ⟨"", rfl⟩
    · cases h

theorem exists_write (h : c.hasRoom = true) (text : String) :
    ∃ c', c.write text = .ok c' ∧ c'.hasRoom = true := by
  cases c with
  | buffer old => exact ⟨_, rfl, rfl⟩
  | stream passed waiting => exact ⟨_, rfl, rfl⟩
  | full waiting => cases h

theorem hasRoom_write (h : c.write text = .ok c') : c'.hasRoom = c.hasRoom := by
  cases c with
  | buffer old =>
    cases h
    rfl
  | stream passed waiting =>
    cases h
    simp only [hasRoom]
  | full waiting =>
    simp only [write] at h
    split at h
    · cases h
      simp only [hasRoom]
    · cases h

/-- A text is refused for want of room. -/
theorem write_eq_error {reason : String} (h : c.write text = .error reason) :
    c.hasRoom = false ∧ reason = noRoom := by
  cases c with
  | buffer old => cases h
  | stream passed waiting => cases h
  | full waiting =>
    simp only [write] at h
    split at h
    · cases h
    · cases h
      exact ⟨rfl, rfl⟩

/-- Without room, no line can be ended. -/
theorem write_feed (h : c.hasRoom = false) : c.write "\n" = .error noRoom := by
  cases c with
  | buffer | stream => cases h
  | full waiting =>
    have hcomplete : completeLines "\n" = ("\n", "") := by decide +kernel
    have hhold : hold "" "" = ("", "") := by decide +kernel
    have hgather : gather waiting "\n" = (waiting ++ "\n", "") := by
      simp [gather, hcomplete, hhold]
    simp [write, hgather]

/-- Consoles that take the same texts do so after each of them. -/
theorem Akin.write (h : c.Akin d) (text : String) :
    (∃ c' d', c.write text = .ok c' ∧ d.write text = .ok d' ∧ c'.Akin d') ∨
      ∃ reason, c.write text = .error reason ∧ d.write text = .error reason := by
  obtain ⟨hc, hd⟩ | rfl := h
  · obtain ⟨c', hc', hroom⟩ := exists_write hc text
    obtain ⟨d', hd', hroom'⟩ := exists_write hd text
    exact .inl ⟨c', d', hc', hd', .inl ⟨hroom, hroom'⟩⟩
  · cases hw : c.write text with
    | ok c' => exact .inl ⟨c', c', rfl, rfl, .inr rfl⟩
    | error reason => exact .inr ⟨reason, rfl, rfl⟩

end ClassLang.Console
