import ClassLang.Proofs.Eval.Rendered
import ClassLang.Proofs.Program
import ClassLang.Proofs.Writing.Text

/-!
String literals. A text is written between two quotes of a kind, with what has to be escaped escaped
and what else has an escape escaped or not. However it is written, it is read as a string with that
text, and a program that prints this string prints the text.
-/

namespace ClassLang

open Eval Grammar Lexeme Token

variable {quote c : Char} {s w cs : List Char} {text : String} {ts : List Token} {m : Machine}

namespace Lexeme.EscapedAs

/-- Every text can be written between two quotes. -/
theorem exists_of_text (hquote : quote = '"' ∨ quote = '\'') (s : List Char) :
    ∃ w, EscapedAs quote s w := by
  have hescape : Escape quote quote := by
    rcases hquote with rfl | rfl
    · exact .double
    · exact .single
  induction s with
  | nil => exact ⟨[], .nil⟩
  | cons c s ih =>
    obtain ⟨w, hw⟩ := ih
    by_cases hback : c = '\\'
    · subst hback
      exact ⟨_, .escape .backslash hw⟩
    by_cases hfeed : c = '\n'
    · subst hfeed
      exact ⟨_, .escape .feed hw⟩
    by_cases hc : c = quote
    · subst hc
      exact ⟨_, .escape hescape hw⟩
    · exact ⟨_, .plain hback hfeed hc hw⟩

/-- What is written is no more than one line. -/
theorem feed_not_mem (h : EscapedAs quote s w) : '\n' ∉ w := by
  induction h with
  | nil => exact List.not_mem_nil
  | @escape c e s w he _ ih =>
    have hletter : '\n' ≠ e := by
      rintro rfl
      cases he
    simp [hletter, ih]
  | plain _ hfeed _ _ ih => simp [Ne.symm hfeed, ih]

end Lexeme.EscapedAs

/-! Sources of one line -/

/-- A source that is one line without spaces in front is read as that line is scanned. -/
theorem Token.readLines_line (hblank : Text.isBlank c = false) (hcomment : c ≠ '#')
    (hfeed : '\n' ∉ c :: cs) (hreturn : (c :: cs).getLast? ≠ some '\r') :
    readLines 1 (Text.sourceLines (c :: cs)) = (Line.scan 1 0 1 (c :: cs)).map fun ts =>
      [⟨1, 0, ts, (c :: cs).length + 1⟩] := by
  have hread : Line.read 1 (List.replicate (2 * 0) ' ' ++ c :: cs) =
      (Line.scan 1 0 1 (c :: cs)).map fun ts => some ⟨1, 0, ts, (c :: cs).length + 1⟩ :=
    Line.read_indented hblank hcomment
  rw [Nat.mul_zero, List.replicate_zero, List.nil_append] at hread
  rw [Text.sourceLines_of_not_mem hfeed hreturn, readLines, hread]
  cases Line.scan 1 0 1 (c :: cs) <;> rfl

theorem Token.readLines_of_reads (hblank : Text.isBlank c = false) (hcomment : c ≠ '#')
    (hfeed : '\n' ∉ c :: cs) (hreturn : (c :: cs).getLast? ≠ some '\r')
    (h : Line.Reads 1 1 (c :: cs) ts) :
    readLines 1 (Text.sourceLines (c :: cs)) = .ok [⟨1, 0, ts, (c :: cs).length + 1⟩] := by
  rw [readLines_line hblank hcomment hfeed hreturn, Line.scan_eq_ok_iff.2 h]
  rfl

namespace Lexeme

/-- What is written between two quotes, with them. -/
def literal (quote : Char) (w : List Char) : List Char := quote :: (w ++ [quote])

theorem EscapedAs.inline (h : EscapedAs quote s w) (hquote : quote = '"' ∨ quote = '\'') :
    '\n' ∉ literal quote w ∧ (literal quote w).getLast? = some quote := by
  have hfeed : '\n' ≠ quote := by
    rcases hquote with rfl | rfl <;> decide
  refine ⟨?_, ?_⟩
  · simp [literal, hfeed, h.feed_not_mem]
  · rw [literal, ← List.cons_append, List.getLast?_concat]

/-- A literal is read as one string. -/
theorem EscapedAs.ofSource_literal (h : EscapedAs quote s w) (hquote : quote = '"' ∨ quote = '\'') :
    Token.ofSource (String.ofList (literal quote w)) =
      .ok [⟨.string (String.ofList s), String.ofList (literal quote w), ⟨1, 1⟩⟩,
        .mark .newline ⟨1, w.length + 3⟩, .mark .eof ⟨1, 0⟩] := by
  have hdenotes : Denotes (literal quote w) (.string (String.ofList s)) := h.denotes hquote
  obtain ⟨hfeed, hlast⟩ := h.inline hquote
  have hreturn : (literal quote w).getLast? ≠ some '\r' := by
    rw [hlast]
    rcases hquote with rfl | rfl <;> decide
  have hreads : Line.Reads 1 1 (literal quote w ++ []) _ := .token hdenotes (Kind.stops_nil _) .done
  rw [List.append_nil] at hreads
  have hlines := readLines_of_reads hdenotes.head.1 hdenotes.head.2 hfeed hreturn hreads
  have hlength : (literal quote w).length = w.length + 2 := by simp [literal]
  refine ofSource_eq_ok.2 ⟨_, by rw [String.toList_ofList]; exact hlines, ?_⟩
  rw [String.toList_ofList, Text.sourceLines_of_not_mem hfeed hreturn]
  change _ = [_, Token.mark .newline ⟨1, (literal quote w).length + 1⟩, .mark .eof ⟨1, 0⟩]
  rw [hlength]

end Lexeme

/-! Programs that print a literal -/

/-- The source of a program that prints a literal. -/
def Program.printing (literal : List Char) : String := "print " ++ String.ofList literal

theorem Program.toList_printing (literal : List Char) :
    (printing literal).toList = 'p' :: (['r', 'i', 'n', 't', ' '] ++ literal) := by
  have hprint : "print ".toList = ['p', 'r', 'i', 'n', 't', ' '] := by decide
  rw [printing, String.toList_append, hprint, String.toList_ofList]
  rfl

/-- A program that prints a literal is one statement. -/
theorem Program.ofSource_printing (h : EscapedAs quote s w) (hquote : quote = '"' ∨ quote = '\'')
    (classes : ClassTable) : Program.ofSource classes (printing (literal quote w)) =
      .ok ⟨[.print [.literal (.string (String.ofList s)) ⟨1, 7⟩] ⟨1, 1⟩], classes⟩ := by
  have hdenotes : Denotes (literal quote w) (.string (String.ofList s)) := h.denotes hquote
  obtain ⟨hfeed, hlast⟩ := h.inline hquote
  have hfeed' : '\n' ∉ 'p' :: (['r', 'i', 'n', 't', ' '] ++ literal quote w) := by
    simpa using hfeed
  have hreturn : ('p' :: (['r', 'i', 'n', 't', ' '] ++ literal quote w)).getLast? ≠ some '\r' := by
    rw [← List.cons_append, List.getLast?_append, hlast, Option.some_or]
    rcases hquote with rfl | rfl <;> decide
  have hstring : Line.Reads 1 7 (literal quote w ++ []) _ :=
    .token hdenotes (Kind.stops_nil _) .done
  rw [List.append_nil] at hstring
  have hkeyword : Denotes ['p', 'r', 'i', 'n', 't'] (.keyword .print) :=
    (by decide : Keyword.print.text.toList = ['p', 'r', 'i', 'n', 't']) ▸ .keyword
  have hstops : (Kind.keyword .print).Stops (' ' :: literal quote w) := by
    rintro d ⟨⟩
    rfl
  have hreads : Line.Reads 1 1 ('p' :: (['r', 'i', 'n', 't', ' '] ++ literal quote w)) _ :=
    .token hkeyword hstops (.gap rfl hstring)
  have hlines := readLines_of_reads (by decide) (by decide) hfeed' hreturn hreads
  rw [← toList_printing] at hlines
  refine Program.ofSource_eq_ok.2 ⟨_, hlines, ?_⟩
  exact .stmt (.simple (.print rfl (.one ((Spells.literal rfl).lift (by decide)))) rfl) .nil

namespace Eval

/-- To print a string is to print its text and then the end of the line. -/
theorem exists_stmt_print_eq (call : Call) (text : String) (pos pos' : Pos) (m : Machine) :
    ∃ watch, stmt call (.print [.literal (.string text) pos'] pos) m = (do
      Run.emit text pos.line
      Run.emit "\n" pos.line
      return .completed (.string text) : Run Outcome) { m with watch } := by
  have htold : told call (.literal (.string text) pos') pos.line = pure (.string text, text) := by
    rw [told, expr]
    rfl
  rw [stmt_print, htold]
  exact ⟨_, rfl⟩

/-- Where there is room, a text is printed with the end of the line behind it. -/
theorem exists_emits {α : Type} (h : m.console.hasRoom = true) (text : String) (line : Nat)
    (a : α) : ∃ c, (do
        Run.emit text line
        Run.emit "\n" line
        return a : Run α) m = .ok a { m with console := c } ∧
      c.written = m.console.written ++ text ++ "\n" := by
  obtain ⟨c, hc, hroom⟩ := Console.exists_write h text
  obtain ⟨d, hd, -⟩ := Console.exists_write hroom "\n"
  have hfirst : Run.emit text line m = .ok () { m with console := c } := by
    rw [Run.emit_apply, hc]
  have hsecond : Run.emit "\n" line { m with console := c } = .ok () { m with console := d } := by
    rw [Run.emit_apply, hd]
  refine ⟨d, ?_, ?_⟩
  · rw [Run.bind_of_ok hfirst, Run.bind_of_ok hsecond]
    rfl
  · rw [Console.written_write hd, Console.written_write hc]

/-- A string is printed as it is, with the end of the line behind it. -/
theorem exists_stmt_print_string (call : Call) (text : String) (pos pos' : Pos)
    (h : m.console.hasRoom = true) :
    ∃ n, stmt call (.print [.literal (.string text) pos'] pos) m =
        .ok (.completed (.string text)) n ∧
      n.console.written = m.console.written ++ text ++ "\n" := by
  obtain ⟨watch, hstmt⟩ := exists_stmt_print_eq call text pos pos' m
  obtain ⟨c, hemits, hwritten⟩ := exists_emits (m := { m with watch }) h text pos.line
    (Outcome.completed (.string text))
  exact ⟨_, hstmt.trans hemits, hwritten⟩

/-- Where there is no room for the end of the line, printing fails. -/
theorem exists_stmt_print_error (call : Call) (text : String) (pos pos' : Pos)
    (h : m.console.hasRoom = false) :
    ∃ n, stmt call (.print [.literal (.string text) pos'] pos) m =
      .error (.located (.outputFailed Console.noRoom) pos.line) n := by
  obtain ⟨watch, hstmt⟩ := exists_stmt_print_eq call text pos pos' m
  cases hc : m.console.write text with
  | error reason =>
    obtain ⟨-, rfl⟩ := Console.write_eq_error hc
    have hfirst : Run.emit text pos.line { m with watch } =
        .error (.located (.outputFailed Console.noRoom) pos.line) { m with watch } := by
      rw [Run.emit_apply, hc]
    exact ⟨_, hstmt.trans (Run.bind_of_error hfirst _)⟩
  | ok c =>
    have hd : c.write "\n" = .error Console.noRoom :=
      Console.write_feed ((Console.hasRoom_write hc).trans h)
    have hfirst : Run.emit text pos.line { m with watch } =
        .ok () { m with watch, console := c } := by
      rw [Run.emit_apply, hc]
    have hsecond : Run.emit "\n" pos.line { m with watch, console := c } =
        .error (.located (.outputFailed Console.noRoom) pos.line)
          { m with watch, console := c } := by
      rw [Run.emit_apply, hd]
    rw [hstmt, Run.bind_of_ok hfirst]
    exact ⟨_, Run.bind_of_error hsecond _⟩

end Eval

namespace Machine

/-- A program of one statement that completes gives its value. -/
theorem eval_of_completed {source : String} {st : Stmt} {v : Value} {n : Machine}
    (hp : Program.ofSource m.classes source = .ok ⟨[st], m.classes⟩)
    (hst : stmt callMethod st (m.knowing m.classes) = .ok (.completed v) n) :
    eval source m = .ok v n := by
  have hone : runOne st (m.knowing m.classes) = .ok (.completed v) n := by
    rw [runOne, hst]
  rw [eval_of_ok hp, interpret_apply, runAll, Run.bind_of_ok hone]
  rfl

/-- It fails as the statement does. -/
theorem eval_of_failed {source : String} {st : Stmt} {e : Error} {n : Machine}
    (hp : Program.ofSource m.classes source = .ok ⟨[st], m.classes⟩)
    (hst : stmt callMethod st (m.knowing m.classes) = .error e n) :
    eval source m = .error e (logAborted e n) := by
  have hone : runOne st (m.knowing m.classes) = .error e (logAborted e n) := by
    rw [runOne, hst]
  rw [eval_of_ok hp, interpret_apply, runAll, Run.bind_of_error hone]

/-- Every text can be written as a literal, and however it is written between quotes of either kind,
it is read back: alone on a line the literal is one string, with that text, and a program that
prints the literal prints the text and the end of a line, or fails if there is no room for them. -/
theorem literal_round_trip (hquote : quote = '"' ∨ quote = '\'') (text : String) :
    (∃ w, EscapedAs quote text.toList w) ∧
    ∀ w, EscapedAs quote text.toList w →
      Token.ofSource (String.ofList (literal quote w)) =
        .ok [⟨.string text, String.ofList (literal quote w), ⟨1, 1⟩⟩,
          .mark .newline ⟨1, w.length + 3⟩, .mark .eof ⟨1, 0⟩] ∧
      ∀ m : Machine,
        (m.console.hasRoom = true → ∃ n,
          eval (Program.printing (literal quote w)) m = .ok (.string text) n ∧
            n.console.written = m.console.written ++ text ++ "\n") ∧
        (m.console.hasRoom = false → ∃ n,
          eval (Program.printing (literal quote w)) m =
            .error (.located (.outputFailed Console.noRoom) 1) n) := by
  refine ⟨EscapedAs.exists_of_text hquote text.toList, fun w hw => ?_⟩
  have htokens := hw.ofSource_literal hquote
  have hprogram := Program.ofSource_printing hw hquote
  rw [String.ofList_toList] at htokens hprogram
  refine ⟨htokens, fun m => ⟨fun hroom => ?_, fun hfull => ?_⟩⟩
  · obtain ⟨n, hn, hwritten⟩ := exists_stmt_print_string (m := m.knowing m.classes) callMethod text
      ⟨1, 1⟩ ⟨1, 7⟩ hroom
    exact ⟨n, eval_of_completed (hprogram m.classes) hn, hwritten⟩
  · obtain ⟨n, hn⟩ := exists_stmt_print_error (m := m.knowing m.classes) callMethod text
      ⟨1, 1⟩ ⟨1, 7⟩ hfull
    exact ⟨_, eval_of_failed (hprogram m.classes) hn⟩

/-- A text with a backslash in front of a quote, the other quote, a hash, a line feed and a tab. -/
def mixedText : String := "\\'\"#\n\t"

/-- The text as it can stand between single quotes: the other quote and the tab are not escaped. -/
def mixedLiteral : List Char := ['\\', '\\', '\\', '\'', '"', '#', '\\', 'n', '\t']

theorem literal_round_trip_mixedText :
    Token.ofSource "'\\\\\\'\"#\\n\t'" = .ok [⟨.string mixedText, "'\\\\\\'\"#\\n\t'", ⟨1, 1⟩⟩,
      .mark .newline ⟨1, 12⟩, .mark .eof ⟨1, 0⟩] ∧
    ∃ n, eval "print '\\\\\\'\"#\\n\t'" default = .ok (.string mixedText) n ∧
      n.console.written = mixedText ++ "\n" := by
  have htext : mixedText.toList = ['\\', '\'', '"', '#', '\n', '\t'] := by decide
  have hw : EscapedAs '\'' mixedText.toList mixedLiteral := by
    rw [htext]
    exact .escape .backslash (.escape .single (.plain (by decide) (by decide) (by decide)
      (.plain (by decide) (by decide) (by decide)
        (.escape .feed (.plain (by decide) (by decide) (by decide) .nil)))))
  obtain ⟨htokens, hrun⟩ := (literal_round_trip (.inr rfl) mixedText).2 mixedLiteral hw
  obtain ⟨n, hn, hwritten⟩ := (hrun default).1 rfl
  exact ⟨htokens, n, hn, hwritten.trans (by decide +kernel)⟩

end Machine

end ClassLang
