import ClassLang.Proofs.Token.Denotation

/-!
How the tokens of a line are read: from the left, gaps are passed over, a hash ends the line, and
anything else begins a token, which reaches as far as one of its kind can. The judgment has one case
for each of these steps, and it holds exactly of what the scan gives.
-/

namespace ClassLang

open Lexeme

namespace Line

/-- The number of leading spaces of a text. -/
def spaces (text : List Char) : Nat := (text.takeWhile (· == ' ')).length

/-- Whether a text is blank, or a comment behind white space. -/
def isBare (text : List Char) : Bool := isIdle (text.dropWhile (· == ' '))

/-- Holds of a column, what is left of a line there and the tokens that are read from it. -/
inductive Reads (number : Nat) : Nat → List Char → List Token → Prop where
  | done {column : Nat} : Reads number column [] []
  | comment {column : Nat} {cs : List Char} : Reads number column ('#' :: cs) []
  | gap {column : Nat} {c : Char} {cs : List Char} {ts : List Token} :
      isGap c = true → Reads number (column + 1) cs ts → Reads number column (c :: cs) ts
  | token {column : Nat} {w rest : List Char} {k : Kind} {ts : List Token} :
      Denotes w k → k.Stops rest → Reads number (column + w.length) rest ts →
      Reads number column (w ++ rest) (⟨k, String.ofList w, ⟨number, column⟩⟩ :: ts)

variable {number n column : Nat} {c : Char} {w cs text : List Char} {ts : List Token} {l : Line}

/-! Scans -/

theorem isBlank_of_isGap {c : Char} (h : isGap c = true) : Text.isBlank c = true := by
  simp only [isGap, Bool.or_eq_true, beq_iff_eq] at h
  rcases h with (rfl | rfl) | rfl <;> decide

theorem isGap_of_isBlank {c : Char} (h : Text.isBlank c = false) : isGap c = false := by
  rw [← Bool.not_eq_true]
  intro hgap
  rw [isBlank_of_isGap hgap] at h
  cases h

/-- Where a token is read, the others are read behind it. -/
theorem scan_token {number column : Nat} {c : Char} {cs : List Char} {ts : List Token}
    (hgap : isGap c = false) (hcomment : c ≠ '#') :
    scan number 0 column (c :: cs) = .ok ts ↔
      ∃ kind us, (Lexeme.read column c cs).kind = .ok kind ∧
        scan number (Lexeme.read column c cs).more (column + 1) cs = .ok us ∧
        ts = ⟨kind, String.ofList (c :: cs.take (Lexeme.read column c cs).more),
          ⟨number, column⟩⟩ :: us := by
  rw [scan, if_neg (by rw [hgap]; decide), if_neg hcomment]
  simp only []
  cases (Lexeme.read column c cs).kind with
  | error cause => simp
  | ok kind =>
    simp only []
    cases scan number (Lexeme.read column c cs).more (column + 1) cs with
    | error e => simp [Except.map]
    | ok us =>
      constructor
      · intro h
        cases h
        exact ⟨kind, us, rfl, rfl, rfl⟩
      · rintro ⟨kind', us', hkind, hus, rfl⟩
        cases hkind
        cases hus
        rfl

theorem scan_skip (number column : Nat) (w rest : List Char) :
    scan number w.length column (w ++ rest) = scan number 0 (column + w.length) rest := by
  induction w generalizing column with
  | nil => rfl
  | cons c w ih =>
    rw [List.length_cons, List.cons_append, scan, ih, Nat.add_assoc, Nat.add_comm 1]

/-- White space in front is passed over. -/
theorem Reads.gaps (hw : ∀ c ∈ w, isGap c = true) (h : Reads number (column + w.length) cs ts) :
    Reads number column (w ++ cs) ts := by
  induction w generalizing column with
  | nil => exact h
  | cons c w ih =>
    obtain ⟨hc, hw⟩ := List.forall_mem_cons.1 hw
    rw [List.length_cons, Nat.add_comm w.length, ← Nat.add_assoc] at h
    exact .gap hc (ih hw h)

theorem reads_of_scan (h : scan number n column cs = .ok ts) :
    Reads number (column + n) (cs.drop n) ts := by
  induction cs generalizing n column ts with
  | nil =>
    cases h
    rw [List.drop_nil]
    exact .done
  | cons c cs ih =>
    cases n with
    | succ n =>
      have hrest := ih (n := n) h
      rwa [Nat.add_assoc, Nat.add_comm 1] at hrest
    | zero =>
      by_cases hgap : isGap c = true
      · rw [scan, if_pos hgap] at h
        exact .gap hgap (ih h)
      by_cases hcomment : c = '#'
      · subst hcomment
        cases h
        exact .comment
      · rw [Bool.not_eq_true] at hgap
        obtain ⟨kind, us, hkind, hus, rfl⟩ := (scan_token hgap hcomment).1 h
        obtain ⟨w, rest, rfl, hmore, hw, hstops⟩ := stops_of_read hkind
        have hrest := ih hus
        rw [hmore, List.drop_left, Nat.add_assoc, Nat.add_comm 1] at hrest
        rw [hmore, List.take_left]
        exact .token hw hstops hrest

/-- What is read from a text is what its scan gives. -/
theorem scan_eq_ok_iff : scan number 0 column cs = .ok ts ↔ Reads number column cs ts := by
  constructor
  · exact fun h => reads_of_scan h
  · intro h
    induction h with
    | done => rfl
    | comment => rfl
    | gap hc _ ih => rw [scan, if_pos hc, ih]
    | @token column w rest k ts hw hstops _ ih =>
      obtain ⟨c, w, rfl⟩ := List.exists_cons_of_ne_nil hw.matched.1
      obtain ⟨hblank, hcomment⟩ := hw.head
      have hread := hw.read hstops column
      rw [List.cons_append]
      refine (scan_token (isGap_of_isBlank hblank) hcomment).2 ⟨k, ts, ?_, ?_, ?_⟩
      · rw [hread]
      · rw [List.length_cons, Nat.add_comm w.length, ← Nat.add_assoc] at ih
        rw [hread, scan_skip, ih]
      · rw [hread, List.take_left]

/-- What is read is what its text denotes, and that text is part of the line. -/
theorem Reads.token_of_mem {t : Token} (h : Reads number column cs ts) (ht : t ∈ ts) :
    Denotes t.lexeme.toList t.kind ∧ t.lexeme.toList ⊆ cs := by
  induction h with
  | done => cases ht
  | comment => cases ht
  | gap _ _ ih =>
    obtain ⟨hdenotes, hsubset⟩ := ih ht
    exact ⟨hdenotes, List.subset_cons_of_subset _ hsubset⟩
  | @token column w rest k ts hw hstops _ ih =>
    obtain rfl | ht := List.mem_cons.1 ht
    · rw [String.toList_ofList]
      exact ⟨hw, List.subset_append_left w rest⟩
    · obtain ⟨hdenotes, hsubset⟩ := ih ht
      exact ⟨hdenotes, List.subset_append_of_subset_right w hsubset⟩

/-- Where no token is read, there is no content. -/
theorem Reads.isIdle (h : Reads number column cs []) : isIdle cs = true := by
  generalize hts : ([] : List Token) = ts at h
  induction h with
  | done => rfl
  | comment => rfl
  | gap hc _ ih =>
    rw [Line.isIdle, Text.trimLeft, List.dropWhile_cons_of_pos (isBlank_of_isGap hc)]
    exact ih hts
  | token => cases hts

/-- Where the scan meets an unexpected character, that character stands there, and no token begins
with it. -/
theorem unexpected_of_scan {s : String} {place line : Nat}
    (h : scan number n column cs = .error (.located (.unexpectedCharacter s place) line)) :
    line = number ∧ ∃ i c, cs[i]? = some c ∧ place = column + i ∧ s = c.toString ∧
      ∀ w, Matches w → ¬ w <+: cs.drop i := by
  induction cs generalizing n column with
  | nil => cases h
  | cons c cs ih =>
    have later {m : Nat} (hrest : scan number m (column + 1) cs =
        .error (.located (.unexpectedCharacter s place) line)) :
        line = number ∧ ∃ i d, (c :: cs)[i]? = some d ∧ place = column + i ∧ s = d.toString ∧
          ∀ w, Matches w → ¬ w <+: (c :: cs).drop i := by
      obtain ⟨hline, i, d, hd, hplace, htext, hnone⟩ := ih hrest
      exact ⟨hline, i + 1, d, hd, by omega, htext, hnone⟩
    cases n with
    | succ n => exact later h
    | zero =>
      by_cases hgap : isGap c = true
      · rw [scan, if_pos hgap] at h
        exact later h
      by_cases hcomment : c = '#'
      · rw [scan, if_neg hgap, if_pos hcomment] at h
        cases h
      rw [scan, if_neg hgap, if_neg hcomment] at h
      simp only [] at h
      cases hkind : (Lexeme.read column c cs).kind with
      | error cause =>
        rw [hkind] at h
        cases h
        obtain ⟨rfl, rfl, hnone⟩ := unexpected_of_read hkind
        exact ⟨rfl, 0, c, rfl, rfl, rfl, hnone⟩
      | ok kind =>
        rw [hkind] at h
        exact later (map_eq_error.1 h)

/-! Lines -/

theorem indentFault?_eq_none_iff {n : Nat} :
    indentFault? n cs = none ↔ cs.head? ≠ some '\t' ∧ n % 2 = 0 := by
  unfold indentFault?
  by_cases htab : cs.head? = some '\t'
  · simp [htab]
  · by_cases heven : n % 2 = 0
    · simp [htab, heven]
    · simp [htab, heven]

/-- A text is read as no line if it is bare. Otherwise its indentation has to be allowed, and what
stands behind it is scanned. -/
theorem read_eq_ok_iff {line : Option Line} : Line.read number text = .ok line ↔
    isBare text = true ∧ line = none ∨
    isBare text = false ∧ indentFault? (spaces text) (text.dropWhile (· == ' ')) = none ∧
      ∃ ts, scan number 0 (spaces text + 1) (text.dropWhile (· == ' ')) = .ok ts ∧
        line = some ⟨number, spaces text / 2, ts, text.length + 1⟩ := by
  unfold Line.read isBare spaces
  cases hidle : isIdle (text.dropWhile (· == ' ')) with
  | true => simp only [hidle, if_true, Except.ok.injEq, eq_comm, true_and, false_and, or_false,
      reduceCtorEq]
  | false =>
    cases hfault : indentFault? (text.takeWhile (· == ' ')).length
        (text.dropWhile (· == ' ')) with
    | some fault => simp [hidle, hfault]
    | none => simp [hidle, hfault, map_eq_ok, @eq_comm _ line]

theorem read_eq_some_iff : Line.read number text = .ok (some l) ↔
    isBare text = false ∧ indentFault? (spaces text) (text.dropWhile (· == ' ')) = none ∧
      ∃ ts, scan number 0 (spaces text + 1) (text.dropWhile (· == ' ')) = .ok ts ∧
        l = ⟨number, spaces text / 2, ts, text.length + 1⟩ := by
  rw [read_eq_ok_iff]
  simp

theorem read_eq_error_iff {e : Error} : Line.read number text = .error e ↔
    isBare text = false ∧
      ((∃ fault, indentFault? (spaces text) (text.dropWhile (· == ' ')) = some fault ∧
        e = .located (.invalidIndentation fault) number) ∨
      indentFault? (spaces text) (text.dropWhile (· == ' ')) = none ∧
        scan number 0 (spaces text + 1) (text.dropWhile (· == ' ')) = .error e) := by
  unfold Line.read isBare spaces
  cases hidle : isIdle (text.dropWhile (· == ' ')) with
  | true => simp [hidle]
  | false =>
    cases hfault : indentFault? (text.takeWhile (· == ' ')).length
        (text.dropWhile (· == ' ')) with
    | some fault => simp [hidle, hfault, eq_comm]
    | none => simp [hidle, hfault, map_eq_error]

/-- The tokens of a line are read from its beginning on. -/
theorem reads_of_read (h : Line.read number text = .ok (some l)) :
    Reads number 1 text l.tokens ∧ l.stop = text.length + 1 := by
  obtain ⟨-, -, ts, hts, rfl⟩ := read_eq_some_iff.1 h
  have hspaces : ∀ c ∈ text.takeWhile (· == ' '), isGap c = true := by
    intro c hc
    obtain rfl : c = ' ' := eq_of_beq (List.all_eq_true.1 List.all_takeWhile c hc)
    decide
  rw [Nat.add_comm] at hts
  have hreads := Reads.gaps hspaces (scan_eq_ok_iff.1 hts)
  rw [List.takeWhile_append_dropWhile] at hreads
  exact ⟨hreads, rfl⟩

/-- A line is its level, by its spaces, and what is scanned behind them. -/
theorem read_indented {level : Nat} (hblank : Text.isBlank c = false) (hcomment : c ≠ '#') :
    Line.read number (List.replicate (2 * level) ' ' ++ c :: cs) =
      (scan number 0 (2 * level + 1) (c :: cs)).map fun ts => some
        ⟨number, level, ts, (List.replicate (2 * level) ' ' ++ c :: cs).length + 1⟩ := by
  have hall : ∀ d ∈ List.replicate (2 * level) ' ', (d == ' ') = true := by
    intro d hd
    rw [List.eq_of_mem_replicate hd]
    decide
  have hspace : (c == ' ') = false := by
    rw [beq_eq_false_iff_ne]
    rintro rfl
    cases hblank
  have htab : c ≠ '\t' := by
    rintro rfl
    cases hblank
  have htake : (List.replicate (2 * level) ' ' ++ c :: cs).takeWhile (· == ' ') =
      List.replicate (2 * level) ' ' := by
    rw [List.takeWhile_append_of_pos hall, List.takeWhile_cons_of_neg (by rw [hspace]; decide),
      List.append_nil]
  have hdrop : (List.replicate (2 * level) ' ' ++ c :: cs).dropWhile (· == ' ') = c :: cs := by
    rw [List.dropWhile_append_of_pos hall, List.dropWhile_cons_of_neg (by rw [hspace]; decide)]
  have hidle : isIdle (c :: cs) = false := by
    rw [isIdle, Text.trimLeft, List.dropWhile_cons_of_neg (by rw [hblank]; decide)]
    exact beq_eq_false_iff_ne.2 hcomment
  have hfault : indentFault? (2 * level) (c :: cs) = none :=
    indentFault?_eq_none_iff.2
      ⟨fun hhead => htab (Option.some.inj hhead), Nat.mul_mod_right 2 level⟩
  have hlevel : 2 * level / 2 = level := Nat.mul_div_cancel_left level (by decide)
  rw [Line.read, htake, hdrop]
  simp only [hidle, List.length_replicate, hfault, hlevel]
  rfl

/-- A line is read by its spaces and what stands behind them. -/
theorem read_of_reads {level : Nat} (hblank : Text.isBlank c = false) (hcomment : c ≠ '#')
    (h : Reads number (2 * level + 1) (c :: cs) ts) :
    Line.read number (List.replicate (2 * level) ' ' ++ c :: cs) = .ok (some
      ⟨number, level, ts, (List.replicate (2 * level) ' ' ++ c :: cs).length + 1⟩) := by
  rw [read_indented hblank hcomment, scan_eq_ok_iff.2 h]
  rfl

end Line

end ClassLang
