import ClassLang.Proofs.Grammar.Moved
import ClassLang.Proofs.Text.Lines
import ClassLang.Proofs.Token.Layout

/-!
The tokens of two texts, one behind the other. Where the first text ends with a line feed, its lines
are read as before and those of the second text further down. The levels that the first text leaves
open are closed in front of the first line that follows.
-/

namespace ClassLang

open Grammar Token

/-- The place so many lines further down. -/
def Pos.down (n : Nat) (p : Pos) : Pos := ⟨p.line + n, p.column⟩

/-- The token so many lines further down. -/
def Token.down (n : Nat) (t : Token) : Token := { t with pos := t.pos.down n }

/-- The line so many lines further down. -/
def Line.down (n : Nat) (l : Line) : Line :=
  { l with number := l.number + n, tokens := l.tokens.map (·.down n) }

/-- The failure so many lines further down. -/
def Error.down (n : Nat) : Error → Error
  | .located cause line => .located cause (line + n)
  | .unreadable path reason => .unreadable path reason

/-! Lines further down -/

/-- Whether a text can be scanned does not depend on its number, which every place in it has. -/
theorem Line.scan_add (n number k column : Nat) (cs : List Char) :
    scan (number + n) k column cs =
      ((scan number k column cs).map (List.map (·.down n))).mapError (·.down n) := by
  induction cs generalizing k column with
  | nil => rfl
  | cons c cs ih =>
    cases k with
    | succ k => exact ih k (column + 1)
    | zero =>
      rw [scan, scan]
      split
      · exact ih 0 (column + 1)
      · split
        · rfl
        · simp only []
          split
          · rfl
          · rw [ih]
            cases scan number (Lexeme.read column c cs).more (column + 1) cs <;> rfl

theorem Line.read_add (n number : Nat) (text : List Char) :
    read (number + n) text =
      ((read number text).map (Option.map (·.down n))).mapError (·.down n) := by
  unfold Line.read
  simp only []
  split
  · rfl
  · split
    · rfl
    · rw [scan_add]
      cases scan number 0 ((text.takeWhile (· == ' ')).length + 1)
        (text.dropWhile (· == ' ')) <;> rfl

namespace Token

variable {number : Nat} {texts more : List (List Char)} {ls : List Line}

theorem readLines_add (n number : Nat) (texts : List (List Char)) :
    readLines (number + n) texts =
      ((readLines number texts).map (List.map (·.down n))).mapError (·.down n) := by
  induction texts generalizing number with
  | nil => rfl
  | cons text texts ih =>
    have hrest := ih (number + 1)
    rw [Nat.add_right_comm] at hrest
    rw [readLines, readLines, Line.read_add, hrest]
    cases Line.read number text with
    | error e => rfl
    | ok l =>
      cases readLines (number + 1) texts with
      | error e => rfl
      | ok ls => cases l <;> rfl

theorem readLines_down (n : Nat) (h : readLines number texts = .ok ls) :
    readLines (number + n) texts = .ok (ls.map (·.down n)) := by
  rw [readLines_add, h]
  rfl

theorem readLines_append (number : Nat) (texts more : List (List Char)) :
    readLines number (texts ++ more) = readLines number texts >>= fun ls₁ =>
      readLines (number + texts.length) more >>= fun ls₂ => .ok (ls₁ ++ ls₂) := by
  induction texts generalizing number with
  | nil =>
    change readLines number more = readLines number more >>= fun ls => .ok ls
    cases readLines number more <;> rfl
  | cons text texts ih =>
    rw [List.cons_append, readLines, readLines, ih, List.length_cons,
      Nat.add_comm texts.length 1, ← Nat.add_assoc]
    cases Line.read number text with
    | error e => rfl
    | ok l =>
      simp only [ok_bind]
      cases readLines (number + 1) texts with
      | error e => rfl
      | ok ls₁ =>
        simp only [ok_bind]
        cases readLines (number + 1 + texts.length) more with
        | error e => rfl
        | ok ls₂ => exact congrArg Except.ok (List.append_assoc ..).symm

/-- An empty last line has no content. -/
theorem readLines_concat_nil (number : Nat) (texts : List (List Char)) :
    readLines number (texts ++ [[]]) = readLines number texts := by
  have hempty : readLines (number + texts.length) [[]] = .ok [] := rfl
  rw [readLines_append, hempty]
  cases readLines number texts with
  | error e => rfl
  | ok ls => exact congrArg Except.ok (List.append_nil ls)

/-- The lines of a text that ends with a line feed, and those of another text behind it. -/
theorem readLines_sourceLines_append {cs ds : List Char} {ls₁ ls₂ : List Line}
    (h₁ : readLines 1 (Text.sourceLines (cs ++ ['\n'])) = .ok ls₁)
    (h₂ : readLines 1 (Text.sourceLines ds) = .ok ls₂) :
    readLines 1 (Text.sourceLines (cs ++ ['\n'] ++ ds)) =
      .ok (ls₁ ++ ls₂.map (·.down ((cs ++ ['\n']).count '\n'))) := by
  have hlength : (Text.sourceLines cs).length = (cs ++ ['\n']).count '\n' := by
    rw [Text.length_sourceLines, List.count_append]
    rfl
  rw [Text.sourceLines_append] at h₁
  change readLines 1 (Text.sourceLines cs ++ [[]]) = .ok ls₁ at h₁
  rw [readLines_concat_nil] at h₁
  rw [List.append_assoc]
  change readLines 1 (Text.sourceLines (cs ++ '\n' :: ds)) = _
  rw [Text.sourceLines_append, readLines_append, h₁, hlength, ok_bind, readLines_down _ h₂]
  rfl

end Token

/-! Layouts -/

theorem laidOut_down (n last level : Nat) (ls : List Line) :
    laidOut (last + n) level (ls.map (·.down n)) = (laidOut last level ls).map (·.down n) := by
  have hmarks (number level next : Nat) : levelMarks (number + n) level next =
      (levelMarks number level next).map (·.down n) := by
    simp [levelMarks, Token.down, Token.mark, Pos.down]
  induction ls generalizing level with
  | nil => exact hmarks last level 0
  | cons l ls ih =>
    have hgroup : (l.down n).group level = (l.group level).map (·.down n) := by
      simp only [Line.group, List.map_append, ← hmarks]
      rfl
    rw [List.map_cons, laidOut, laidOut, List.map_append, hgroup, ← ih]
    rfl

namespace Grammar

variable {f : Pos → Pos} {more ts us : List Token}

theorem Moved.map_down (n : Nat) (ts : List Token) :
    Moved (Pos.down n) [] ts (ts.map (·.down n)) := by
  induction ts with
  | nil => exact .nil
  | cons t ts ih => exact .cons rfl (fun _ => rfl) ih

theorem Moved.append_left (h : Moved id more ts us) (vs : List Token) :
    Moved id more (vs ++ ts) (vs ++ us) := by
  induction vs with
  | nil => exact h
  | cons v vs ih => exact .cons rfl (fun _ => rfl) ih

theorem Moved.replicate_dedent (n : Nat) (p q : Pos) (more : List Token) :
    Moved f more (List.replicate n (.mark .dedent p))
      (List.replicate n (.mark .dedent q) ++ more) := by
  induction n with
  | zero => exact .nil
  | succ n ih => exact .cons rfl (fun hne => absurd rfl hne) ih

/-- In front of further lines, of which the first one has no indentation, the tokens of lines are as
they were, but for the places of the dedents that close the levels left open. -/
theorem moved_laidOut (last last' level : Nat) (ls : List Line) {l : Line} (hl : l.level = 0)
    (ls' : List Line) :
    Moved id (laidOut last' 0 (l :: ls')) (laidOut last level ls)
      (laidOut last' level (ls ++ l :: ls')) := by
  induction ls generalizing level with
  | nil =>
    have hmarks (number : Nat) : levelMarks number level 0 =
        List.replicate level (.mark .dedent ⟨number, 1⟩) := by
      simp [levelMarks]
    have hgroup : l.group level = levelMarks l.number level 0 ++ l.group 0 := by
      simp [Line.group, hl, levelMarks]
    rw [List.nil_append, laidOut, laidOut, laidOut, hgroup, hmarks, hmarks, List.append_assoc]
    exact .replicate_dedent level _ _ _
  | cons l' ls ih =>
    rw [List.cons_append, laidOut, laidOut]
    exact (ih l'.level).append_left _

end Grammar

end ClassLang
