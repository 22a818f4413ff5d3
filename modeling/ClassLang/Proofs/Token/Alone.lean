import ClassLang.Proofs.Grammar.Faults
import ClassLang.Proofs.Token.Append
import ClassLang.Proofs.Token.Content

/-!
Lines are read one by one. A source fails if and only if one of its lines does as a source of its
own, the failure is that of the first such line, and otherwise every line has the tokens that it has
by itself. But for the number of the line, nothing that stands before it or behind it makes a
difference.
-/

namespace ClassLang

open Token

/-- Holds of the first line that fails as a source of its own, by its index, and the reason. -/
structure Token.FailsFirst (source : String) (i : Nat) (cause : Cause) : Prop where
  fails : ∃ part, (Text.splitOn '\n' source.toList)[i]? = some part ∧
    ofSource (String.ofList part) = .error (.located cause 1)
  before : ∀ j part, j < i → (Text.splitOn '\n' source.toList)[j]? = some part →
    ∃ us, ofSource (String.ofList part) = .ok us

variable {number i : Nat} {text part : List Char} {e : Error} {cause : Cause} {source : String}
  {ts : List Token}

/-- What is refused in a line belongs to that line. -/
theorem Line.located_of_read (h : Line.read number text = .error e) :
    ∃ cause, e = .located cause number := by
  obtain ⟨-, line, hline, rfl⟩ := Line.failsOn_read (P := (· = number)) (fun _ => rfl) e h
  cases e with
  | located cause line =>
    cases hline
    exact ⟨cause, rfl⟩
  | unreadable => cases hline

namespace Token

/-- The tokens of a source that is one line. -/
theorem ofSource_of_not_mem (h : '\n' ∉ part) : ofSource (String.ofList part) =
    (Line.read 1 (Text.dropReturn part)).map fun line => layout 1 0 line.toList := by
  have hlines : Text.sourceLines part = [Text.dropReturn part] := by
    rw [Text.sourceLines, Text.splitOn_of_not_mem h, List.map_singleton]
  rw [ofSource_eq_map, String.toList_ofList, hlines, readLines]
  cases Line.read 1 (Text.dropReturn part) with
  | error e => rfl
  | ok line =>
    cases line <;> rfl

/-- A line fails by itself for the reason for which it fails further down. -/
theorem ofSource_eq_error_iff_read (h : '\n' ∉ part) (i : Nat) :
    ofSource (String.ofList part) = .error (.located cause 1) ↔
      Line.read (1 + i) (Text.dropReturn part) = .error (.located cause (1 + i)) := by
  rw [ofSource_of_not_mem h, map_eq_error, Line.read_add]
  cases hread : Line.read 1 (Text.dropReturn part) with
  | error e =>
    obtain ⟨cause', rfl⟩ := Line.located_of_read hread
    simp [Except.map, Except.mapError, Error.down]
  | ok line => simp [Except.map, Except.mapError]

theorem exists_ofSource_iff_read (h : '\n' ∉ part) (i : Nat) :
    (∃ us, ofSource (String.ofList part) = .ok us) ↔
      ∃ line, Line.read (1 + i) (Text.dropReturn part) = .ok line := by
  rw [ofSource_of_not_mem h, Line.read_add]
  cases Line.read 1 (Text.dropReturn part) with
  | error e => simp [Except.map, Except.mapError]
  | ok line => simp [Except.map, Except.mapError]

theorem getElem?_sourceLines {cs : List Char} : (Text.sourceLines cs)[i]? = some text ↔
    ∃ part, (Text.splitOn '\n' cs)[i]? = some part ∧ Text.dropReturn part = text := by
  rw [Text.sourceLines, List.getElem?_map, Option.map_eq_some_iff]

/-- A source fails as the first of its lines does that fails by itself. -/
theorem ofSource_eq_error_iff : ofSource source = .error e ↔
    ∃ i cause, FailsFirst source i cause ∧ e = .located cause (i + 1) := by
  have hfeed {i : Nat} {part : List Char}
      (hpart : (Text.splitOn '\n' source.toList)[i]? = some part) : '\n' ∉ part :=
    Text.not_mem_of_mem_splitOn (List.mem_of_getElem? hpart)
  rw [ofSource_eq_map, map_eq_error, readLines_eq_error_iff]
  constructor
  · rintro ⟨i, text, hi, hread, hbefore⟩
    obtain ⟨part, hpart, rfl⟩ := getElem?_sourceLines.1 hi
    obtain ⟨cause, rfl⟩ := Line.located_of_read hread
    have halone := (ofSource_eq_error_iff_read (hfeed hpart) i).2 hread
    refine ⟨i, cause, ⟨⟨part, hpart, halone⟩, fun j other hj hother => ?_⟩, by rw [Nat.add_comm]⟩
    exact (exists_ofSource_iff_read (hfeed hother) j).2
      (hbefore j _ hj (getElem?_sourceLines.2 ⟨other, hother, rfl⟩))
  · rintro ⟨i, cause, ⟨⟨part, hpart, halone⟩, hbefore⟩, rfl⟩
    have hread := (ofSource_eq_error_iff_read (hfeed hpart) i).1 halone
    rw [Nat.add_comm i]
    refine ⟨i, _, getElem?_sourceLines.2 ⟨part, hpart, rfl⟩, hread, fun j text hj htext => ?_⟩
    obtain ⟨other, hother, rfl⟩ := getElem?_sourceLines.1 htext
    exact (exists_ofSource_iff_read (hfeed hother) j).1 (hbefore j other hj hother)

/-- Where a source has tokens, a line has those that it has by itself, at its number. -/
theorem content_of_ofSource (h : ofSource source = .ok ts)
    (hpart : (Text.splitOn '\n' source.toList)[i]? = some part) :
    ∃ us, ofSource (String.ofList part) = .ok us ∧
      content (i + 1) ts = (unmarked us).map (·.down i) := by
  have hfeed : '\n' ∉ part := Text.not_mem_of_mem_splitOn (List.mem_of_getElem? hpart)
  obtain ⟨ls, hls, rfl⟩ := ofSource_eq_ok.1 h
  obtain ⟨read, hread, hcontent⟩ := content_of_readLines (Text.sourceLines source.toList).length hls
    (getElem?_sourceLines.2 ⟨part, hpart, rfl⟩)
  rw [hcontent, ofSource_of_not_mem hfeed]
  rw [Nat.add_comm, Line.read_add] at hread
  cases halone : Line.read 1 (Text.dropReturn part) with
  | error e =>
    rw [halone] at hread
    cases hread
  | ok line =>
    rw [halone] at hread
    cases hread
    refine ⟨_, rfl, ?_⟩
    cases line with
    | none => rfl
    | some l =>
      have hwell : ∀ l' ∈ [l], l'.WellFormed :=
        List.forall_mem_singleton.2 (Line.wellFormed_of_read halone)
      have hunmarked : unmarked (layout 1 0 [l]) = l.tokens := by
        rw [unmarked_layout hwell, List.flatMap_singleton]
      exact congrArg (List.map (·.down i)) hunmarked.symm

/-- A source fails exactly if one of its lines fails as a source of its own. The failure is then
that of the first such line, at the number of the line. If there is none, the tokens of every line
are those that it has by itself, at its number. -/
theorem ofSource_alone (source : String) :
    ((∃ e, ofSource source = .error e) ↔
      ∃ part ∈ Text.splitOn '\n' source.toList, ∃ e, ofSource (String.ofList part) = .error e) ∧
    (∀ e, ofSource source = .error e ↔
      ∃ i cause, FailsFirst source i cause ∧ e = .located cause (i + 1)) ∧
    ∀ ts, ofSource source = .ok ts →
      ∀ i part, (Text.splitOn '\n' source.toList)[i]? = some part →
        ∃ us, ofSource (String.ofList part) = .ok us ∧
          content (i + 1) ts = (unmarked us).map (·.down i) := by
  refine ⟨⟨?_, ?_⟩, fun e => ofSource_eq_error_iff, fun ts h i part => content_of_ofSource h⟩
  · rintro ⟨e, he⟩
    obtain ⟨i, cause, ⟨⟨part, hpart, halone⟩, -⟩, -⟩ := ofSource_eq_error_iff.1 he
    exact ⟨part, List.mem_of_getElem? hpart, _, halone⟩
  · rintro ⟨part, hpart, e, he⟩
    cases h : ofSource source with
    | error e' => exact ⟨e', rfl⟩
    | ok ts =>
      obtain ⟨i, hi⟩ := List.mem_iff_getElem?.1 hpart
      obtain ⟨us, hus, -⟩ := content_of_ofSource h hi
      rw [hus] at he
      cases he

/-- A source with two lines that cannot be read, the first of them inside a block. -/
def unreadableSource : String := "if x:\n  y = 'a\n\tz"

theorem ofSource_alone_unreadableSource :
    (∃ e, ofSource unreadableSource = .error e) ∧
    ofSource unreadableSource = .error (.located .unterminatedString 2) ∧
    ∃ ts us, ofSource "if x:\r\n  y\n" = .ok ts ∧ ofSource "  y" = .ok us ∧
      content 2 ts = (unmarked us).map (·.down 1) := by
  obtain ⟨hfails, herror, -⟩ := ofSource_alone unreadableSource
  have hfirst : FailsFirst unreadableSource 1 .unterminatedString := by
    refine ⟨⟨"  y = 'a".toList, by decide +kernel, rfl⟩, fun j part hj hpart => ?_⟩
    obtain rfl : j = 0 := by omega
    cases hpart
    exact exists_eq_ok (by decide +kernel)
  obtain ⟨ts, hts⟩ := exists_eq_ok (by decide +kernel : (ofSource "if x:\r\n  y\n").isOk = true)
  obtain ⟨us, hus, hcontent⟩ :=
    (ofSource_alone "if x:\r\n  y\n").2.2 ts hts 1 "  y".toList (by decide +kernel)
  exact ⟨hfails.2 ⟨"  y = 'a".toList, by decide +kernel, _, rfl⟩,
    (herror _).2 ⟨1, .unterminatedString, hfirst, rfl⟩,
    ts, us, hts, hus, hcontent⟩

end Token

end ClassLang
