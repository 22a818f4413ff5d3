import ClassLang.Proofs.Token.Content
import ClassLang.Proofs.Token.Reads

/-!
The places of tokens are exact. On every line the text of a token stands at its column, tokens do
not overlap, and what no token covers are gaps, up to the end of the line or its comment. A token is
the longest text that a pattern matches at its place, and this text says what kind of token it is.
-/

namespace ClassLang

open Lexeme

/-- Holds of the columns on which the text of a token stands. -/
def Token.Covers (t : Token) (column : Nat) : Prop :=
  t.pos.column ≤ column ∧ column < t.pos.column + t.lexeme.length

/-- Holds of a text that begins at a column, and the tokens on it, where their places are exact and
nothing but gaps and a comment is left out. -/
structure Line.Exact (first : Nat) (text : List Char) (ts : List Token) : Prop where
  /-- Every token stands at its column. -/
  stands : ∀ t ∈ ts, first ≤ t.pos.column ∧ t.lexeme.toList <+: text.drop (t.pos.column - first)
  /-- Every token ends before the next one begins. -/
  apart : ts.Pairwise fun t u => t.pos.column < u.pos.column ∧
    t.pos.column + t.lexeme.length ≤ u.pos.column
  /-- Up to the end of the text, or up to its comment, what no token covers is a gap. -/
  covered : ∃ stop ≤ text.length, (text[stop]? = none ∨ text[stop]? = some '#') ∧
    (∀ t ∈ ts, t.pos.column + t.lexeme.length ≤ first + stop) ∧
    ∀ i c, i < stop → text[i]? = some c → isGap c = true ∨ ∃ t ∈ ts, t.Covers (first + i)
  /-- The text of a token says what kind of token it is. -/
  denotes : ∀ t ∈ ts, ∀ k, Denotes t.lexeme.toList k ↔ k = t.kind
  /-- No pattern matches more at the place of a token. -/
  longest : ∀ t ∈ ts, Longest t.lexeme.toList
    (text.drop (t.pos.column - first + t.lexeme.length))

namespace Line

variable {number first column : Nat} {w rest text : List Char} {c : Char} {k : Kind}
  {ts : List Token}

/-- What stands at a column behind the front of a text. -/
theorem drop_behind (h : first + w.length ≤ column) (n : Nat) :
    (w ++ rest).drop (column - first + n) = rest.drop (column - (first + w.length) + n) := by
  have hsum : column - first + n = w.length + (column - (first + w.length) + n) := by omega
  rw [hsum, List.drop_append, Nat.add_sub_cancel_left, List.drop_of_length_le (by omega),
    List.nil_append]

namespace Exact

/-- A text without tokens in front leaves the places of those behind it as they are. -/
theorem behind (h : Exact (first + w.length) rest ts) (t : Token) (ht : t ∈ ts) :
    first ≤ t.pos.column ∧ t.lexeme.toList <+: (w ++ rest).drop (t.pos.column - first) ∧
      Longest t.lexeme.toList ((w ++ rest).drop (t.pos.column - first + t.lexeme.length)) := by
  obtain ⟨hle, hstands⟩ := h.stands t ht
  have hplace : (w ++ rest).drop (t.pos.column - first) =
      rest.drop (t.pos.column - (first + w.length)) := drop_behind hle 0
  rw [hplace, drop_behind hle]
  exact ⟨by omega, hstands, h.longest t ht⟩

theorem nil (hend : text[0]? = none ∨ text[0]? = some '#') : Exact first text [] where
  stands := nofun
  apart := .nil
  covered := ⟨0, Nat.zero_le _, hend, nofun, nofun⟩
  denotes := nofun
  longest := nofun

theorem gap (hc : isGap c = true) (h : Exact (first + 1) rest ts) : Exact first (c :: rest) ts where
  stands t ht := ⟨(h.behind (w := [c]) t ht).1, (h.behind (w := [c]) t ht).2.1⟩
  apart := h.apart
  covered := by
    obtain ⟨stop, hstop, hend, hts, hcovered⟩ := h.covered
    refine ⟨stop + 1, Nat.succ_le_succ hstop, hend, fun t ht => ?_, fun i d hi hd => ?_⟩
    · have hle := hts t ht
      omega
    · cases i with
      | zero =>
        cases hd
        exact .inl hc
      | succ i =>
        rw [Nat.add_comm i, ← Nat.add_assoc]
        exact hcovered i d (Nat.lt_of_succ_lt_succ hi) hd
  denotes := h.denotes
  longest t ht := (h.behind (w := [c]) t ht).2.2

theorem token (hw : Denotes w k) (hstops : k.Stops rest)
    (h : Exact (first + w.length) rest ts) :
    Exact first (w ++ rest) (⟨k, String.ofList w, ⟨number, first⟩⟩ :: ts) := by
  have hlength : (String.ofList w).length = w.length := String.length_ofList
  have hpos : 0 < w.length := List.length_pos_iff.2 hw.matched.1
  constructor
  · refine List.forall_mem_cons.2 ⟨⟨Nat.le_refl first, ?_⟩, fun t ht => ?_⟩
    · rw [Nat.sub_self, String.toList_ofList]
      exact List.prefix_append w rest
    · exact ⟨(h.behind t ht).1, (h.behind t ht).2.1⟩
  · refine List.pairwise_cons.2 ⟨fun t ht => ?_, h.apart⟩
    have hle := (h.stands t ht).1
    simp only [hlength]
    omega
  · obtain ⟨stop, hstop, hend, hts, hcovered⟩ := h.covered
    refine ⟨w.length + stop, ?_, ?_, ?_, fun i d hi hd => ?_⟩
    · rw [List.length_append]
      omega
    · rwa [List.getElem?_append_right (Nat.le_add_right _ _), Nat.add_sub_cancel_left]
    · refine List.forall_mem_cons.2 ⟨?_, fun t ht => ?_⟩
      · simp only [hlength]
        omega
      · have hle := hts t ht
        omega
    · by_cases hfront : i < w.length
      · refine .inr ⟨_, List.mem_cons_self, Nat.le_add_right first i, ?_⟩
        simp only [hlength]
        omega
      · rw [List.getElem?_append_right (Nat.le_of_not_lt hfront)] at hd
        have hplace : first + w.length + (i - w.length) = first + i := by omega
        have hrest := hcovered (i - w.length) d (by omega) hd
        rw [hplace] at hrest
        exact hrest.imp_right fun ⟨t, ht, hcovers⟩ => ⟨t, List.mem_cons_of_mem _ ht, hcovers⟩
  · refine List.forall_mem_cons.2 ⟨fun k' => ?_, h.denotes⟩
    rw [String.toList_ofList]
    constructor
    · exact fun hk' => hk'.unique hw
    · rintro rfl
      exact hw
  · refine List.forall_mem_cons.2 ⟨?_, fun t ht => (h.behind t ht).2.2⟩
    rw [Nat.sub_self, Nat.zero_add, hlength, List.drop_left, String.toList_ofList]
    exact hw.longest_iff.2 hstops

end Exact

/-- What is read stands where its places say. -/
theorem Reads.exact (h : Reads number column text ts) : Exact column text ts := by
  induction h with
  | done => exact .nil (.inl rfl)
  | comment => exact .nil (.inr rfl)
  | gap hc _ ih => exact ih.gap hc
  | token hw hstops _ ih => exact ih.token hw hstops

/-- Where a line has an unexpected character, that character stands at its column. -/
theorem unexpected_of_read {s : String} {place line : Nat}
    (h : Line.read number text = .error (.located (.unexpectedCharacter s place) line)) :
    line = number ∧ ∃ i c, text[i]? = some c ∧ place = i + 1 ∧ s = c.toString ∧
      ∀ w, Matches w → ¬ w <+: text.drop i := by
  have hsplit : text.takeWhile (· == ' ') ++ text.dropWhile (· == ' ') = text :=
    List.takeWhile_append_dropWhile
  obtain ⟨-, ⟨fault, -, heq⟩ | ⟨-, hscan⟩⟩ := read_eq_error_iff.1 h
  · cases heq
  obtain ⟨hline, i, c, hc, hplace, htext, hnone⟩ := unexpected_of_scan hscan
  unfold spaces at hplace
  generalize text.takeWhile (· == ' ') = front at *
  generalize text.dropWhile (· == ' ') = rest at *
  subst hsplit
  refine ⟨hline, front.length + i, c, ?_, by omega, htext, ?_⟩
  · rwa [List.getElem?_append_right (Nat.le_add_right _ _), Nat.add_sub_cancel_left]
  · rwa [List.drop_append, Nat.add_sub_cancel_left, List.drop_of_length_le (by omega),
      List.nil_append]

end Line

namespace Token

/-- Token places are exact on every line with content, and its newline stands just past its end. A
failure that names an unexpected character names the one that stands at its line and column, where
no pattern matches. -/
theorem ofSource_exact (source : String) :
    (∀ ts, ofSource source = .ok ts →
      ∀ i text, (Text.sourceLines source.toList)[i]? = some text → Line.isBare text = false →
        Line.Exact 1 text (content (i + 1) ts) ∧
          newlines (i + 1) ts = [.mark .newline ⟨i + 1, text.length + 1⟩]) ∧
    ∀ s column line, ofSource source = .error (.located (.unexpectedCharacter s column) line) →
      ∃ i j text c, line = i + 1 ∧ column = j + 1 ∧
        (Text.sourceLines source.toList)[i]? = some text ∧ text[j]? = some c ∧ s = c.toString ∧
          ∀ w, Matches w → ¬ w <+: text.drop j := by
  constructor
  · intro ts hts i text hi hbare
    obtain ⟨ls, hls, rfl⟩ := ofSource_eq_ok.1 hts
    obtain ⟨l, hl, hread⟩ := exists_mem_readLines hls hi hbare
    have hplaced := placed_of_readLines hls
    have hnumbers := (pairwise_readLines hls).1
    have hnumber : l.number = i + 1 := by rw [Line.number_of_read hread, Nat.add_comm]
    obtain ⟨hreads, hstop⟩ := Line.reads_of_read hread
    rw [← hnumber, content_layout_of_mem hplaced hnumbers hl,
      newlines_layout_of_mem hplaced hnumbers hl, hstop]
    exact ⟨hreads.exact, rfl⟩
  · intro s column line h
    rw [ofSource_eq_map] at h
    obtain ⟨i, text, hi, hread, -⟩ := readLines_eq_error_iff.1 (map_eq_error.1 h)
    obtain ⟨hline, j, c, hc, hcolumn, htext, hnone⟩ := Line.unexpected_of_read hread
    exact ⟨i, j, text, c, by omega, hcolumn, hi, hc, htext, hnone⟩

/-- A source whose characters differ in their number of bytes. -/
def accentedSource : String := "if x:\r\n  print 'é→' + x # ü\r\n"

theorem ofSource_exact_accentedSource :
    (∃ ts, ofSource accentedSource = .ok ts ∧
      Line.Exact 1 "  print 'é→' + x # ü".toList (content 2 ts) ∧
        newlines 2 ts = [.mark .newline ⟨2, 21⟩]) ∧
    ∃ i j text c, 1 = i + 1 ∧ 11 = j + 1 ∧
      (Text.sourceLines "print 'é' ?".toList)[i]? = some text ∧ text[j]? = some c ∧
        "?" = c.toString ∧ ∀ w, Matches w → ¬ w <+: text.drop j := by
  obtain ⟨ts, hts⟩ := exists_eq_ok (by decide +kernel : (ofSource accentedSource).isOk = true)
  exact ⟨⟨ts, hts, (ofSource_exact accentedSource).1 ts hts 1 "  print 'é→' + x # ü".toList
      (by decide +kernel) (by decide +kernel)⟩,
    (ofSource_exact "print 'é' ?").2 "?" 11 1 rfl⟩

end Token

end ClassLang
