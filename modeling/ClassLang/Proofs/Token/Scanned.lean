import ClassLang.Proofs.Token.Numbered
import ClassLang.Proofs.Token.Reads

/-!
What the text of a line consists of: white space, the texts its tokens are read from and, behind
these, its comment. This is a judgment for proofs, with one case for each step of the scan; the
count of characters still to skip does not occur in it.
-/

namespace ClassLang

namespace Lexeme

/-- Holds of the texts that tokens are read from, by the kind of token. -/
inductive Written : List Char → Kind → Prop where
  | word {c : Char} {cs : List Char} {k : Kind} :
      (∀ d ∈ c :: cs, isWordChar d = true) → (∀ d, k ≠ .symbol d) → Written (c :: cs) k
  | string {quote : Char} {cs : List Char} {s : String} :
      quote = '"' ∨ quote = '\'' → Quoted quote cs → Written (quote :: cs) (.string s)
  | double {c : Char} {k : Kind} :
      c ∈ ['=', '!', '<', '>'] → (∀ d, k ≠ .symbol d) → Written [c, '='] k
  | symbol {c : Char} : c ∈ symbols → Written [c] (.symbol c)

variable {cs : List Char} {k : Kind}

/-- What denotes a token is one of the texts that it is read from. -/
theorem Denotes.written (h : Denotes cs k) : Written cs k := by
  have word {w : List Char} {k : Kind} (hw : isWordText w = true) (hk : ∀ d, k ≠ .symbol d) :
      Written w k := by
    cases w with
    | nil => cases hw
    | cons c w =>
      rw [isWordText, Bool.and_eq_true, List.all_eq_true] at hw
      have hc : isWordChar c = true := by rw [isWordChar, hw.1, Bool.true_or]
      exact .word (List.forall_mem_cons.2 ⟨hc, hw.2⟩) hk
  cases h with
  | @keyword k => exact word (isWordText_keyword k) fun d => Kind.noConfusion
  | word hw => exact word hw fun d => Kind.noConfusion
  | number hdigits =>
    refine .word (fun d hd => ?_) fun d => Kind.noConfusion
    rw [isWordChar, hdigits d hd, Bool.or_true]
  | string hquote hw => exact .string hquote hw
  | double hk =>
    cases hk <;> exact .double (by decide) fun d => Kind.noConfusion
  | symbol hc => exact .symbol hc

/-- A token ends with a character that is not blank, and with a colon only if it is one. -/
theorem Written.last (h : Written cs k) : ∃ d, cs.getLast? = some d ∧ Text.isBlank d = false ∧
    (d = ':' ↔ k = .symbol ':') := by
  cases h with
  | word hcs hk =>
    refine ⟨_, List.getLast?_cons, ?_⟩
    have hlast := hcs _ (List.mem_of_getLast? List.getLast?_cons)
    refine ⟨isBlank_of_isWordChar hlast, fun hd => ?_, fun hd => absurd hd (hk ':')⟩
    rw [hd] at hlast
    cases hlast
  | string hquote hcs =>
    refine ⟨_, List.getLast?_cons, ?_⟩
    rw [hcs.getLast?]
    refine ⟨?_, fun hd => ?_, fun hd => Kind.noConfusion hd⟩
    · rcases hquote with rfl | rfl <;> decide
    · rcases hquote with rfl | rfl <;> cases hd
  | double hc hk => exact ⟨'=', rfl, by decide, fun hd => (by cases hd), fun hd => absurd hd (hk ':')⟩
  | @symbol c hc =>
    refine ⟨c, rfl, (sign_plain (.inl hc)).2.2.2.1, ?_⟩
    rw [Kind.symbol.injEq]

end Lexeme

namespace Line

/-- The comment of a text from a place on, its hash left out. The number counts the characters that
still belong to the token before. -/
def commentFrom : Nat → List Char → List Char
  | _, [] => []
  | n + 1, _ :: cs => commentFrom n cs
  | 0, c :: cs =>
    if Text.isBlank c then commentFrom 0 cs
    else if c = '#' then cs
    else commentFrom (Lexeme.read 1 c cs).more cs

/-- The comment of a line, empty if it has none. -/
def comment (text : List Char) : List Char := commentFrom 0 text

example : comment "x = '#' # one".toList = " one".toList := by decide +kernel

/-- Holds of a text, the tokens that are read from it and its comment. -/
inductive Scans : List Char → List Token → List Char → Prop where
  | done : Scans [] [] []
  | comment {cs : List Char} : Scans ('#' :: cs) [] cs
  | blank {c : Char} {cs tail : List Char} {ts : List Token} :
      Text.isBlank c = true → Scans cs ts tail → Scans (c :: cs) ts tail
  | token {t : Token} {cs rest tail : List Char} {ts : List Token} :
      Lexeme.Written cs t.kind → t.lexeme = String.ofList cs → Scans rest ts tail →
      Scans (cs ++ rest) (t :: ts) tail

variable {number : Nat} {text w cs tail : List Char} {ts : List Token}

theorem Scans.blanks (hw : ∀ c ∈ w, Text.isBlank c = true) (h : Scans cs ts tail) :
    Scans (w ++ cs) ts tail := by
  induction w with
  | nil => exact h
  | cons c w ih =>
    obtain ⟨hc, hw⟩ := List.forall_mem_cons.1 hw
    exact .blank hc (ih hw)

theorem commentFrom_blanks (hw : ∀ c ∈ w, Text.isBlank c = true) :
    commentFrom 0 (w ++ cs) = commentFrom 0 cs := by
  induction w with
  | nil => rfl
  | cons c w ih =>
    obtain ⟨hc, hw⟩ := List.forall_mem_cons.1 hw
    rw [List.cons_append, commentFrom, if_pos hc, ih hw]

theorem commentFrom_skip (w cs : List Char) :
    commentFrom w.length (w ++ cs) = commentFrom 0 cs := by
  induction w with
  | nil => rfl
  | cons c w ih => exact ih

/-- What a line consists of is told by how its tokens are read. -/
theorem Reads.scans {column : Nat} (h : Reads number column cs ts) :
    Scans cs ts (commentFrom 0 cs) := by
  induction h with
  | done => exact .done
  | comment => exact .comment
  | gap hgap _ ih =>
    have hblank := isBlank_of_isGap hgap
    rw [commentFrom, if_pos hblank]
    exact .blank hblank ih
  | @token column w rest k ts hw hstops _ ih =>
    have hfrom : commentFrom 0 (w ++ rest) = commentFrom 0 rest := by
      obtain ⟨c, w, rfl⟩ := List.exists_cons_of_ne_nil hw.matched.1
      obtain ⟨hblank, hcomment⟩ := hw.head
      rw [List.cons_append, commentFrom, if_neg (by rw [hblank]; decide), if_neg hcomment,
        hw.read hstops, commentFrom_skip]
    rw [hfrom]
    exact .token hw.written rfl ih

/-- A text without content consists of white space and a comment. -/
theorem scans_of_isIdle (h : isIdle cs = true) : Scans cs [] (commentFrom 0 cs) := by
  have hcs : cs = cs.takeWhile Text.isBlank ++ Text.trimLeft cs :=
    List.takeWhile_append_dropWhile.symm
  have hblanks : ∀ c ∈ cs.takeWhile Text.isBlank, Text.isBlank c = true :=
    List.all_eq_true.1 List.all_takeWhile
  unfold isIdle at h
  generalize Text.trimLeft cs = rest at h hcs
  rw [hcs, commentFrom_blanks hblanks]
  refine .blanks hblanks ?_
  cases rest with
  | nil => exact .done
  | cons c rest =>
    obtain rfl : c = '#' := eq_of_beq h
    exact .comment

/-- What a line consists of that is read. -/
theorem scans_of_read {l : Option Line} (h : Line.read number text = .ok l) :
    Scans text (l.elim [] tokens) (comment text) := by
  have hspaces : ∀ c ∈ text.takeWhile (· == ' '), Text.isBlank c = true := by
    intro c hc
    obtain rfl : c = ' ' := eq_of_beq (List.all_eq_true.1 List.all_takeWhile c hc)
    decide
  have hrest : Scans (text.dropWhile (· == ' ')) (l.elim [] tokens)
      (commentFrom 0 (text.dropWhile (· == ' '))) := by
    obtain ⟨hbare, rfl⟩ | ⟨-, -, ts, hts, rfl⟩ := read_eq_ok_iff.1 h
    · exact scans_of_isIdle hbare
    · exact (scan_eq_ok_iff.1 hts).scans
  have hall := hrest.blanks hspaces
  rw [← commentFrom_blanks hspaces, List.takeWhile_append_dropWhile] at hall
  exact hall

end Line

end ClassLang
