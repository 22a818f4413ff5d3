import ClassLang.Proofs.Eval.Arithmetic
import ClassLang.Proofs.Token.Alone
import ClassLang.Proofs.Writing.Literal
import Mathlib.Data.Nat.Digits.Defs

/-!
Numbers as text. A row of digits is a number if 64 bits hold its decimal value, whatever zeros stand
in front, and is refused as a whole if they do not. A number is printed in decimals, behind a sign
if it is negative. What is printed is read back as an expression with that number as its value,
except for the least number, whose digits alone are out of range.
-/

namespace ClassLang

open Eval Grammar Lexeme Token

variable {cs rest ds : List Char} {n : Int64} {m k : Machine} {source : String}

namespace Number

/-- The decimal value of a row of digits: the last one counts ones, the one before it tens. -/
def decimal (ds : List Char) : Nat := Nat.ofDigits 10 (ds.reverse.map digitValue)

theorem ofDigits_eq_decimal (ds : List Char) : ofDigits ds = decimal ds := by
  induction ds using List.reverseRecOn with
  | nil => rfl
  | append_singleton ds c ih =>
    have hstep : ofDigits (ds ++ [c]) = 10 * ofDigits ds + digitValue c := by
      rw [ofDigits, List.foldl_append]
      rfl
    rw [hstep, ih, decimal, decimal, List.reverse_concat, List.map_cons, Nat.ofDigits_cons,
      Nat.add_comm]

/-- The text of a number. -/
def text (n : Int64) : String := toString n.toInt

theorem toList_text_of_nonneg (h : 0 ≤ n.toInt) :
    (text n).toList = Nat.toDigits 10 n.toInt.toNat := by
  obtain ⟨a, ha⟩ := Int.eq_ofNat_of_zero_le h
  rw [text, ha]
  exact String.toList_ofList

theorem toList_text_of_neg (h : n.toInt < 0) :
    (text n).toList = '-' :: Nat.toDigits 10 (-n.toInt).toNat := by
  obtain ⟨a, ha⟩ := Int.eq_negSucc_of_lt_zero h
  rw [text, ha]
  exact (String.toList_append ..).trans (congrArg (['-'] ++ ·) String.toList_ofList)

end Number

/-! Rows of digits -/

namespace Line

variable {number column : Nat}

/-- A row of digits is read whole, and what stands behind it is read as it would be without it, or
the row is refused whole. -/
theorem scan_digits (hds : ds ≠ []) (hdigits : ∀ c ∈ ds, isDigit c = true)
    (hrest : ∀ d ∈ rest.head?, isDigit d = false) :
    scan number 0 column (ds ++ rest) = match Number.ofInt? (Number.decimal ds) with
      | some n => (scan number 0 (column + ds.length) rest).map
          (⟨.number n, String.ofList ds, ⟨number, column⟩⟩ :: ·)
      | none => .error (.located (.invalidNumber (String.ofList ds)) number) := by
  obtain ⟨c, ws, rfl⟩ := List.exists_cons_of_ne_nil hds
  obtain ⟨hc, hws⟩ := List.forall_mem_cons.1 hdigits
  have hblank := isBlank_of_isDigit hc
  have hcomment : c ≠ '#' := by
    rintro rfl
    cases hc
  have hread := read_of_digit hc column (ws ++ rest)
  have htake := takeWhile_append_of_stop hws hrest
  have hdecimal := Number.ofDigits_eq_decimal (c :: ws)
  rw [List.cons_append, scan, if_neg (by rw [isGap_of_isBlank hblank]; decide), if_neg hcomment]
  cases hvalue : Number.ofInt? (Number.decimal (c :: ws)) with
  | none => simp only [hread, Lexeme.number, htake, hdecimal, hvalue]
  | some n =>
    simp only [hread, Lexeme.number, htake, hdecimal, hvalue, scan_skip, List.take_left,
      List.length_cons, Nat.add_assoc, Nat.add_comm 1]

end Line

/-! Sources -/

namespace Token

/-- A text without blanks and comments is one line, and read as that line is scanned. -/
theorem readLines_solid (hne : cs ≠ []) (hcs : ∀ c ∈ cs, Text.isBlank c = false ∧ c ≠ '#') :
    Text.sourceLines cs = [cs] ∧ readLines 1 (Text.sourceLines cs) =
      (Line.scan 1 0 1 cs).map fun ts => [⟨1, 0, ts, cs.length + 1⟩] := by
  have hfeed : '\n' ∉ cs := by
    intro hmem
    cases (hcs _ hmem).1
  have hreturn : cs.getLast? ≠ some '\r' := by
    intro hlast
    cases (hcs _ (List.mem_of_getLast? hlast)).1
  obtain ⟨c, cs, rfl⟩ := List.exists_cons_of_ne_nil hne
  obtain ⟨hblank, hcomment⟩ := hcs c List.mem_cons_self
  exact ⟨Text.sourceLines_of_not_mem hfeed hreturn, readLines_line hblank hcomment hfeed hreturn⟩

/-- The end of the last line changes nothing in what is read. -/
theorem readLines_feed (cs : List Char) :
    readLines 1 (Text.sourceLines (cs ++ ['\n'])) = readLines 1 (Text.sourceLines cs) := by
  rw [Text.sourceLines_append]
  exact readLines_concat_nil 1 (Text.sourceLines cs)

theorem solid_of_digits (hdigits : ∀ c ∈ ds, isDigit c = true) :
    ∀ c ∈ ds, Text.isBlank c = false ∧ c ≠ '#' := by
  intro c hc
  refine ⟨isBlank_of_isDigit (hdigits c hc), ?_⟩
  rintro rfl
  cases hdigits _ hc

/-- A row of digits by itself is one number, or it is refused. -/
theorem ofSource_digits (hds : ds ≠ []) (hdigits : ∀ c ∈ ds, isDigit c = true) :
    ofSource (String.ofList ds) = match Number.ofInt? (Number.decimal ds) with
      | some n => .ok [⟨.number n, String.ofList ds, ⟨1, 1⟩⟩,
          .mark .newline ⟨1, ds.length + 1⟩, .mark .eof ⟨1, 0⟩]
      | none => .error (.located (.invalidNumber (String.ofList ds)) 1) := by
  obtain ⟨hline, hread⟩ := readLines_solid hds (solid_of_digits hdigits)
  have hscan : Line.scan 1 0 1 (ds ++ []) = _ := Line.scan_digits hds hdigits nofun
  rw [List.append_nil] at hscan
  rw [ofSource_eq_map, String.toList_ofList, hread, hscan, hline]
  cases Number.ofInt? (Number.decimal ds) <;> rfl

end Token

namespace Lexeme

/-- Holds of a row of digits and the number that it is read as, in front of whatever ends it and by
itself. -/
structure ReadAs (ds : List Char) (n : Int64) : Prop where
  scans : ∀ number column rest, (∀ d ∈ rest.head?, isDigit d = false) →
    Line.scan number 0 column (ds ++ rest) =
      (Line.scan number 0 (column + ds.length) rest).map
        (⟨.number n, String.ofList ds, ⟨number, column⟩⟩ :: ·)
  alone : Token.ofSource (String.ofList ds) =
    .ok [⟨.number n, String.ofList ds, ⟨1, 1⟩⟩, .mark .newline ⟨1, ds.length + 1⟩,
      .mark .eof ⟨1, 0⟩]

/-- Holds of a row of digits that is refused, in front of whatever ends it and by itself. -/
structure RefusedWhole (ds : List Char) : Prop where
  scans : ∀ number column rest, (∀ d ∈ rest.head?, isDigit d = false) →
    Line.scan number 0 column (ds ++ rest) =
      .error (.located (.invalidNumber (String.ofList ds)) number)
  alone : Token.ofSource (String.ofList ds) =
    .error (.located (.invalidNumber (String.ofList ds)) 1)

theorem exists_readAs (hds : ds ≠ []) (hdigits : ∀ c ∈ ds, isDigit c = true)
    (hvalue : (Number.decimal ds : Int) ≤ Int64.maxValue.toInt) :
    ∃ n : Int64, n.toInt = Number.decimal ds ∧ ReadAs ds n := by
  have hmax : Int64.maxValue.toInt = 9223372036854775807 := by decide
  obtain ⟨n, hn, htoInt⟩ := Number.ofInt?_of_fits (n := Number.decimal ds) ⟨by omega, by omega⟩
  refine ⟨n, htoInt, fun number column rest hrest => ?_, ?_⟩
  · rw [Line.scan_digits hds hdigits hrest, hn]
  · rw [ofSource_digits hds hdigits, hn]

theorem refusedWhole (hds : ds ≠ []) (hdigits : ∀ c ∈ ds, isDigit c = true)
    (hvalue : Int64.maxValue.toInt < Number.decimal ds) : RefusedWhole ds := by
  have hmax : Int64.maxValue.toInt = 9223372036854775807 := by decide
  have hnone : Number.ofInt? (Number.decimal ds) = none := by
    refine Number.ofInt?_of_not_fits fun hfits => ?_
    have hhigh := hfits.2
    omega
  constructor
  · intro number column rest hrest
    rw [Line.scan_digits hds hdigits hrest, hnone]
  · rw [ofSource_digits hds hdigits, hnone]

end Lexeme

/-! What is printed and read back -/

/-- The expression that the text of a number is read as: a literal, or a sign in front of one. -/
def Number.spelled (n : Int64) : Expr :=
  if 0 ≤ n.toInt then .literal (.number n) ⟨1, 1⟩
  else (Expr.literal (.number (-n)) ⟨1, 2⟩).minus ⟨1, 1⟩

theorem Number.toInt_neg (h : n.toInt < 0) (hmin : n ≠ Int64.minValue) :
    (-n).toInt = -n.toInt := by
  have hlow := n.le_toInt
  have hne : n.toInt ≠ -9223372036854775808 := by
    intro heq
    exact hmin (Int64.toInt_inj.1 (heq.trans (by decide)))
  rw [Int64.toInt_neg]
  exact Int.bmod_eq_of_le (by omega) (by omega)

/-- The text of a number is read as the tokens of its expression. -/
theorem Number.reads_text (hmin : n ≠ Int64.minValue) :
    ∃ ts, Line.Reads 1 1 (text n).toList ts ∧
      ∀ known r, Spells known .or (ts ++ r) (spelled n) r ∧ firstPos (ts ++ r) = ⟨1, 1⟩ := by
  have hreads {k : Int64} {column : Nat} (hk : 0 ≤ k.toInt) :
      Line.Reads 1 column (Nat.toDigits 10 k.toInt.toNat ++ []) _ :=
    .token (denotes_toDigits hk) (Kind.stops_nil _) .done
  simp only [List.append_nil] at hreads
  by_cases hn : 0 ≤ n.toInt
  · rw [toList_text_of_nonneg hn, spelled, if_pos hn]
    exact ⟨_, hreads hn, fun known r => ⟨(Spells.literal rfl).lift (by decide), rfl⟩⟩
  · have hneg : n.toInt < 0 := Int.not_le.1 hn
    have htoInt := toInt_neg hneg hmin
    rw [toList_text_of_neg hneg, ← htoInt, spelled, if_neg hn]
    refine ⟨_, .token (.symbol (by decide)) (fun _ _ => rfl) (hreads (by omega)),
      fun known r => ⟨?_, rfl⟩⟩
    exact (Spells.minus rfl ((Spells.literal rfl).lift (by decide))).lift (by decide)

/-- The text of a number is one line without blanks. -/
theorem Number.solid_text (n : Int64) :
    (text n).toList ≠ [] ∧ ∀ c ∈ (text n).toList, Text.isBlank c = false ∧ c ≠ '#' := by
  have hdigits {a : Nat} : ∀ c ∈ Nat.toDigits 10 a, Text.isBlank c = false ∧ c ≠ '#' :=
    solid_of_digits fun c hc => isDigit_of_mem_toDigits hc
  by_cases hn : 0 ≤ n.toInt
  · rw [toList_text_of_nonneg hn]
    exact ⟨Nat.toDigits_ne_nil, hdigits⟩
  · rw [toList_text_of_neg (Int.not_le.1 hn)]
    exact ⟨List.cons_ne_nil _ _, List.forall_mem_cons.2 ⟨by decide, hdigits⟩⟩

/-- Holds of the text of a number, and of what is printed for it. -/
def Number.Writes (n : Int64) (source : String) : Prop :=
  source = text n ∨ source = text n ++ "\n"

theorem Number.Writes.readLines_eq (h : Number.Writes n source) :
    readLines 1 (Text.sourceLines source.toList) = (Line.scan 1 0 1 (Number.text n).toList).map
      fun ts => [⟨1, 0, ts, (Number.text n).toList.length + 1⟩] := by
  obtain ⟨hne, hsolid⟩ := Number.solid_text n
  rw [← (readLines_solid hne hsolid).2]
  obtain rfl | rfl := h
  · rfl
  · rw [String.toList_append]
    exact readLines_feed _

theorem Number.Writes.program (h : Number.Writes n source) (hmin : n ≠ Int64.minValue)
    (classes : ClassTable) : Program.ofSource classes source =
      .ok ⟨[.expr (Number.spelled n) ⟨1, 1⟩], classes⟩ := by
  obtain ⟨ts, hreads, hspells⟩ := Number.reads_text hmin
  have hlines := h.readLines_eq
  rw [Line.scan_eq_ok_iff.2 hreads] at hlines
  refine Program.ofSource_eq_ok.2 ⟨_, hlines, ?_⟩
  obtain ⟨hexpr, hpos⟩ := hspells classes.contains
    [.mark .newline ⟨1, (Number.text n).toList.length + 1⟩]
  have hsimple : SpellsSimple classes.contains false _ _ _ := .expr hexpr
  rw [hpos] at hsimple
  have hlaid (last stop : Nat) : laidOut last 0 [⟨1, 0, ts, stop⟩] =
      ts ++ [.mark .newline ⟨1, stop⟩] := by
    simp [laidOut, levelMarks, Line.group]
  rw [hlaid]
  exact .stmt (.simple hsimple rfl) .nil

theorem Run.trace_apply (text : String) (m : Machine) :
    Run.trace text m = .ok () { m with watch := m.watch.step text } := rfl

namespace Eval

variable {room : Nat} {call : Call} {e : Expr}

/-- The expression that the text of a number is read as has that number as its value. -/
theorem expr_spelled (call : Call) (hmin : n ≠ Int64.minValue) (m : Machine) :
    expr call (Number.spelled n) m = .ok (.number n) m := by
  unfold Number.spelled
  split
  · rfl
  · rename_i hn
    let e : Expr := .literal (.number (-n)) ⟨1, 2⟩
    have he : e.Arithmetic := .number (-n) ⟨1, 2⟩
    have hminus : (e.minus ⟨1, 1⟩).Arithmetic := .arith .sub _ (.number 0 _) he
    have htoInt := Number.toInt_neg (Int.not_le.1 hn) hmin
    have hwhole : (e.minus ⟨1, 1⟩).whole? = some n.toInt := by
      rw [Expr.whole?_minus]
      change some (-(-n).toInt) = some n.toInt
      rw [htoInt, Int.neg_neg]
    refine (expr_eq_ok_iff hminus).2 ⟨rfl, ?_, n, rfl, hwhole⟩
    have hfault : (e.minus ⟨1, 1⟩).fault? = none := by
      rw [Expr.fault?, hwhole]
      simp [Expr.minus, Expr.dividesByZero, Number.fits_toInt n]
    rw [Expr.minus] at hfault ⊢
    rw [Expr.firstFault?_arith, Expr.firstFault?_number, Expr.firstFault?_number, hfault]
    rfl

/-- A statement that is an expression has its value. -/
theorem exists_stmt_expr {v : Value} (pos : Pos) (h : ∀ m, expr call e m = .ok v m) (m : Machine) :
    ∃ watch, stmt call (.expr e pos) m = .ok (.completed v) { m with watch } := by
  rw [stmt, Run.bind_of_ok (Run.trace_apply _ _), Run.bind_of_ok (h _)]
  exact ⟨_, rfl⟩

/-- What has a number as its value has the text of that number, whatever watches it. -/
theorem exists_told_number {m' : Machine} (line : Nat) (h : m.Beside [] m')
    (he : expr (callIn room) e m = .ok (.number n) k) :
    ∃ k', told (callIn room) e line m' = .ok (.number n, Number.text n) k' ∧
      k'.console = k.console := by
  have hends := expr_beside room e h
  rw [he] at hends
  generalize he' : expr (callIn room) e m' = r at hends
  cases hends with
  | @ok _ _ k' hk =>
    refine ⟨k', ?_, hk.same.console⟩
    rw [told, Run.bind_of_ok he']
    rfl

/-- A number is printed as its text, whatever expression it is the value of. -/
theorem exists_stmt_print_number (pos : Pos) (he : expr (callIn room) e m = .ok (.number n) k)
    (hroom : k.console.hasRoom = true) :
    ∃ k', stmt (callIn room) (.print [e] pos) m = .ok (.completed (.number n)) k' ∧
      k'.console.written = k.console.written ++ Number.text n ++ "\n" := by
  rw [stmt_print, Run.bind_of_ok (Run.trace_apply _ _)]
  obtain ⟨k', htold, hconsole⟩ :=
    exists_told_number pos.line ((Machine.Beside.refl [] m).watched _) he
  rw [Run.bind_of_ok htold]
  rw [← hconsole] at hroom ⊢
  obtain ⟨c, hemits, hwritten⟩ := exists_emits hroom (Number.text n) pos.line
    (Outcome.completed (.number n))
  exact ⟨{ k' with console := c }, hemits, hwritten⟩

end Eval

namespace Machine

/-- Holds of a source that is read and evaluated as an expression whose value is a number, whatever
was run before. -/
structure GivesBack (source : String) (n : Int64) : Prop where
  lexes : ∃ ts, Token.ofSource source = .ok ts
  parses : ∀ classes, Program.ofSource classes source =
    .ok ⟨[.expr (Number.spelled n) ⟨1, 1⟩], classes⟩
  evaluates : ∀ m : Machine, ∃ watch,
    eval source m = .ok (.number n) { m.knowing m.classes with watch }

theorem givesBack (h : Number.Writes n source) (hmin : n ≠ Int64.minValue) :
    GivesBack source n where
  lexes := by
    obtain ⟨ls, hls, -⟩ := Program.ofSource_eq_ok.1 (h.program hmin .empty)
    exact ⟨_, Token.ofSource_eq_ok.2 ⟨ls, hls, rfl⟩⟩
  parses := h.program hmin
  evaluates m := by
    obtain ⟨watch, hstmt⟩ := exists_stmt_expr ⟨1, 1⟩ (expr_spelled callMethod hmin)
      (m.knowing m.classes)
    exact ⟨watch, eval_of_completed (h.program hmin m.classes) hstmt⟩

/-- Behind its sign the text of the least number is out of range, and it is refused. -/
theorem ofSource_least (h : Number.Writes Int64.minValue source) : Token.ofSource source =
    .error (.located (.invalidNumber "9223372036854775808") 1) := by
  obtain rfl | rfl := h <;> rfl

/-- A row of digits, with whatever zeros in front, is read as the number with its decimal value, or
it is refused whole if that is more than the greatest number. A number is printed as its text and
the end of a line, whatever expression it is the value of. Its text, and what is printed, is a
program that is read and evaluates to the number again, except for the least number, whose text is
refused for its digits. -/
theorem number_round_trip :
    (∀ ds : List Char, ds ≠ [] → (∀ c ∈ ds, isDigit c = true) →
      ((Number.decimal ds : Int) ≤ Int64.maxValue.toInt →
        ∃ n : Int64, n.toInt = Number.decimal ds ∧ ReadAs ds n) ∧
      (Int64.maxValue.toInt < Number.decimal ds → RefusedWhole ds)) ∧
    ∀ n : Int64,
      (∀ room e pos m k, expr (callIn room) e m = .ok (.number n) k → k.console.hasRoom = true →
        ∃ k', stmt (callIn room) (.print [e] pos) m = .ok (.completed (.number n)) k' ∧
          k'.console.written = k.console.written ++ Number.text n ++ "\n") ∧
      ∀ source, Number.Writes n source →
        (n ≠ Int64.minValue → GivesBack source n) ∧
        (n = Int64.minValue → Token.ofSource source =
          .error (.located (.invalidNumber "9223372036854775808") 1)) := by
  refine ⟨fun ds hds hdigits => ⟨exists_readAs hds hdigits, refusedWhole hds hdigits⟩,
    fun n => ⟨fun room e pos m k => exists_stmt_print_number pos, fun source h => ⟨?_, ?_⟩⟩⟩
  · exact givesBack h
  · rintro rfl
    exact ofSource_least h

/-- Zeros in front, digits out of range, a difference that is printed, and what is read again. -/
theorem number_round_trip_minusSeven :
    (∃ n : Int64, n.toInt = 7 ∧ ReadAs ['0', '0', '7'] n) ∧
    RefusedWhole ('0' :: "9223372036854775808".toList) ∧
    (∃ k, stmt callMethod (.print [(Expr.literal (.number 7) ⟨1, 8⟩).minus ⟨1, 7⟩] ⟨1, 1⟩) default =
      .ok (.completed (.number (-7))) k ∧ k.console.written = "-7\n") ∧
    (∃ k, eval "-7\n" default = .ok (.number (-7)) k) ∧
    Token.ofSource "-9223372036854775808\n" =
      .error (.located (.invalidNumber "9223372036854775808") 1) := by
  obtain ⟨hdigits, hnumbers⟩ := number_round_trip
  obtain ⟨hprints, hreads⟩ := hnumbers (-7)
  refine ⟨?_, ?_, ?_, ?_, ?_⟩
  · exact (hdigits ['0', '0', '7'] (by decide) (List.all_eq_true.1 (by decide))).1 (by decide)
  · exact (hdigits ('0' :: "9223372036854775808".toList) (by decide)
      (List.all_eq_true.1 (by decide))).2 (by decide)
  · exact hprints callLimit _ ⟨1, 1⟩ default default rfl rfl
  · obtain ⟨watch, heval⟩ := ((hreads "-7\n" (.inr rfl)).1 (by decide)).evaluates default
    exact ⟨_, heval⟩
  · exact ((hnumbers Int64.minValue).2 "-9223372036854775808\n" (.inr rfl)).2 rfl

end Machine

end ClassLang
