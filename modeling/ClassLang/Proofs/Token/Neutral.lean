import ClassLang.Proofs.Grammar.Faults
import ClassLang.Proofs.Text.Edits
import ClassLang.Proofs.Token.Append
import ClassLang.Proofs.Token.Bracketed
import ClassLang.Proofs.Token.Scanned

/-!
Layout without meaning. A line of white space, or of white space and a comment, moves what stands
behind it one line down. White space and a comment behind the content of a line move its newline. A
carriage return at the end of every line changes nothing.
-/

namespace ClassLang

open Grammar Token

/-! Tokens further down -/

/-- Whether a token ends a line above the given one. -/
def Token.isAbove (line : Nat) (t : Token) : Bool := t.kind == .newline && decide (t.line < line)

/-- The tokens, those behind the last line that ends above the given one being one line further
down. -/
def Token.pushed (line : Nat) : List Token → List Token
  | [] => []
  | t :: ts =>
    if (t :: ts).any (·.isAbove line) then t :: pushed line ts else (t :: ts).map (·.down 1)

/-- The failure, one line further down if it belongs to the given line or to one below. -/
def Error.pushed (line : Nat) (e : Error) : Error :=
  if e.line?.any (line ≤ ·) then e.down 1 else e

/-- The token, with another column if it ends the given line. -/
def Token.restop (line column : Nat) (t : Token) : Token :=
  if t.kind = .newline ∧ t.line = line then { t with pos := ⟨t.line, column⟩ } else t

/-- The line, with another end if it has the given number. -/
def Line.restop (number column : Nat) (l : Line) : Line :=
  if l.number = number then { l with stop := column + 1 } else l

variable {number last level i k : Nat} {l : Line} {ls : List Line} {t : Token} {ts us : List Token}
  {texts : List (List Char)} {text tail w : List Char}

/-- Tokens that end with a line above stay, and those behind it are moved if there is none among
them. -/
theorem Token.pushed_append (hts : ∀ t ∈ ts.getLast?, t.isAbove k = true)
    (hus : ∀ t ∈ us, t.isAbove k = false) : pushed k (ts ++ us) = ts ++ us.map (·.down 1) := by
  induction ts with
  | nil =>
    cases us with
    | nil => rfl
    | cons u us =>
      have hnone : ¬(u :: us).any (·.isAbove k) = true := by
        rw [List.any_eq_true]
        rintro ⟨t, ht, habove⟩
        rw [hus t ht] at habove
        cases habove
      rw [List.nil_append, pushed, if_neg hnone, List.nil_append]
  | cons t ts ih =>
    have hlast : ((t :: ts).getLast (List.cons_ne_nil t ts)).isAbove k = true :=
      hts _ (List.getLast?_eq_some_getLast (List.cons_ne_nil t ts))
    have hsome : (t :: (ts ++ us)).any (·.isAbove k) = true :=
      List.any_eq_true.2 ⟨_, List.mem_append_left us (List.getLast_mem _), hlast⟩
    have hrest : ∀ t ∈ ts.getLast?, t.isAbove k = true := by
      intro u hu
      refine hts u ?_
      rw [List.getLast?_cons, hu]
      rfl
    rw [List.cons_append, pushed, if_pos hsome, ih hrest, List.cons_append]

/-- Lines end with the newline of one of them. -/
theorem Line.exists_of_getLast?_groups
    (h : ((Line.groups level ls).flatMap Group.tokens).getLast? = some t) :
    ∃ l ∈ ls, t = .mark .newline ⟨l.number, l.stop⟩ := by
  induction ls generalizing level with
  | nil => cases h
  | cons l ls ih =>
    rw [Line.groups, List.flatMap_cons, List.getLast?_append, Option.or_eq_some_iff] at h
    obtain h | ⟨-, h⟩ := h
    · obtain ⟨l', hl', ht⟩ := ih h
      exact ⟨l', List.mem_cons_of_mem l hl', ht⟩
    · rw [Group.tokens, List.getLast?_concat] at h
      cases h
      exact ⟨l, List.mem_cons_self, rfl⟩

theorem layout_down (n last level : Nat) (ls : List Line) :
    layout (last + n) level (ls.map (·.down n)) = (layout last level ls).map (·.down n) := by
  rw [layout_eq, layout_eq, laidOut_down, List.map_append]
  rfl

/-- Between the lines above a place and those below, the tokens are pushed down. -/
theorem layout_pushed {above below : List Line} (habove : ∀ l ∈ above, l.number < k)
    (hplaced : ∀ l ∈ below, l.Placed) (hbelow : ∀ l ∈ below, k ≤ l.number) :
    layout (last + 1) level (above ++ below.map (·.down 1)) =
      pushed k (layout last level (above ++ below)) := by
  rw [layout_append, layout_append, layout_down]
  refine (pushed_append ?_ ?_).symm
  · intro t ht
    obtain ⟨l, hl, rfl⟩ := Line.exists_of_getLast?_groups ht
    exact decide_eq_true (habove l hl)
  · intro t ht
    rw [Token.isAbove, Bool.and_eq_false_imp, beq_iff_eq, decide_eq_false_iff_not]
    intro hkind
    rw [layout_eq, List.mem_append, List.mem_singleton] at ht
    obtain ht | rfl := ht
    · obtain ⟨l, hl, hline⟩ | ⟨hdedent, -⟩ := line_of_mem_laidOut hplaced ht
      · rw [Token.line, hline]
        exact Nat.not_lt.2 (hbelow l hl)
      · rw [hkind] at hdedent
        cases hdedent
    · cases hkind

/-! A line without content -/

theorem isIdle_iff_remark : Line.isIdle w = true ↔ Text.Remark Text.isBlank w := by
  constructor
  · intro h
    induction w with
    | nil => exact .done
    | cons c w ih =>
      by_cases hc : Text.isBlank c = true
      · rw [Line.isIdle, Text.trimLeft, List.dropWhile_cons_of_pos hc] at h
        exact .blank hc (ih h)
      · rw [Line.isIdle, Text.trimLeft, List.dropWhile_cons_of_neg hc] at h
        obtain rfl : c = '#' := eq_of_beq h
        exact .comment
  · intro h
    induction h with
    | done => rfl
    | comment => rfl
    | blank hc _ ih =>
      rw [Line.isIdle, Text.trimLeft, List.dropWhile_cons_of_pos hc]
      exact ih

theorem isBare_iff_remark : Line.isBare w = true ↔ Text.Remark Text.isBlank w := by
  have hspace : Text.isBlank ' ' = true := by decide
  induction w with
  | nil => exact isIdle_iff_remark
  | cons c w ih =>
    by_cases hc : c = ' '
    · subst hc
      rw [Line.isBare, List.dropWhile_cons_of_pos (by rfl)]
      refine ih.trans ⟨.blank hspace, fun h => ?_⟩
      cases h with
      | blank _ h => exact h
    · rw [Line.isBare, List.dropWhile_cons_of_neg (by rwa [beq_iff_eq]), isIdle_iff_remark]

theorem Line.read_of_remark (h : Text.Remark Text.isBlank w) : Line.read number w = .ok none :=
  Line.read_eq_ok_iff.2 (.inl ⟨isBare_iff_remark.2 h, rfl⟩)

/-- A line without content pushes down the lines behind it, and the failure if it is there. -/
theorem Token.layout_readLines_insert (h : Text.Remark Text.isBlank w) (hi : i ≤ texts.length) :
    (readLines 1 (texts.take i ++ w :: texts.drop i)).map (layout (texts.length + 1) 0) =
      (((readLines 1 texts).map (layout texts.length 0)).map (pushed (i + 1))).mapError
        (Error.pushed (i + 1)) := by
  have hsplit : readLines 1 texts = readLines 1 (texts.take i) >>= fun ls₁ =>
      readLines (i + 1) (texts.drop i) >>= fun ls₂ => .ok (ls₁ ++ ls₂) := by
    have happend := readLines_append 1 (texts.take i) (texts.drop i)
    rwa [List.take_append_drop, List.length_take, Nat.min_eq_left hi, Nat.add_comm 1] at happend
  have hwithout : readLines (i + 1) (w :: texts.drop i) =
      ((readLines (i + 1) (texts.drop i)).map (List.map (·.down 1))).mapError (·.down 1) := by
    rw [← readLines_add, readLines, Line.read_of_remark h, ok_bind]
    cases readLines (i + 1 + 1) (texts.drop i) <;> rfl
  have hfirst : FailsOn (· < i + 1) (readLines 1 (texts.take i)) := by
    refine failsOn_readLines fun j text hj _ => ?_
    have hlt := (List.getElem?_eq_some_iff.1 hj).1
    rw [List.length_take] at hlt
    omega
  have hsecond : FailsOn (i + 1 ≤ ·) (readLines (i + 1) (texts.drop i)) :=
    failsOn_readLines fun j text _ _ => Nat.le_add_right (i + 1) j
  rw [readLines_append, List.length_take, Nat.min_eq_left hi, Nat.add_comm 1, hwithout, hsplit]
  cases habove : readLines 1 (texts.take i) with
  | error e =>
    obtain ⟨-, line, hline, hlt⟩ := hfirst e habove
    have hkept : e.pushed (i + 1) = e := by
      rw [Error.pushed, hline, if_neg (by simpa using hlt)]
    simp only [error_bind, Except.map, Except.mapError, hkept]
  | ok above =>
    cases hbelow : readLines (i + 1) (texts.drop i) with
    | error e =>
      obtain ⟨-, line, hline, hle⟩ := hsecond e hbelow
      have hmoved : e.pushed (i + 1) = e.down 1 := by
        rw [Error.pushed, hline, if_pos (by simpa using hle)]
      simp only [ok_bind, error_bind, Except.map, Except.mapError, hmoved]
    | ok below =>
      have hnumber : ∀ l ∈ above, l.number < i + 1 := by
        intro l hl
        obtain ⟨j, text, hj, hread⟩ := exists_of_mem_readLines habove hl
        have hlt := (List.getElem?_eq_some_iff.1 hj).1
        rw [List.length_take] at hlt
        rw [Line.number_of_read hread]
        omega
      simp only [ok_bind, Except.map, Except.mapError]
      rw [layout_pushed hnumber (placed_of_readLines hbelow) (pairwise_readLines hbelow).2]

/-! White space and a comment behind the content of a line -/

namespace Lexeme

/-- No token goes on with a gap or a comment. -/
theorem stops_of_remark (htail : Text.Remark isGap tail) (k : Kind) : k.Stops tail := by
  intro d hd
  have hmem : d ∈ [' ', '\t', '\r', '#'] := by
    obtain hgap | rfl := htail.head hd
    · simp only [isGap, Bool.or_eq_true, beq_iff_eq] at hgap
      simp only [List.mem_cons, List.not_mem_nil, or_false]
      tauto
    · decide
  have hstop {p : Char → Bool} (hp : [' ', '\t', '\r', '#'].all p = true) : p d = true :=
    List.all_eq_true.1 hp d hmem
  cases k with
  | keyword | word => exact hstop (p := fun d => !isWordChar d) (by decide)
  | number => exact hstop (p := fun d => !isDigit d) (by decide)
  | symbol c => rw [Kind.stopsAt, hstop (p := (· != '=')) (by decide), Bool.or_true]
  | _ => rfl

end Lexeme

namespace Line

theorem reads_of_remark (column : Nat) (h : Text.Remark Lexeme.isGap tail) :
    Reads number column tail [] := by
  induction h generalizing column with
  | done => exact .done
  | comment => exact .comment
  | blank hc _ ih => exact .gap hc (ih (column + 1))

/-- Gaps and a comment behind a text leave its tokens as they are. -/
theorem Reads.append {column : Nat} {cs : List Char} (h : Reads number column cs ts)
    (htail : Text.Remark Lexeme.isGap tail) : Reads number column (cs ++ tail) ts := by
  induction h with
  | done => exact reads_of_remark _ htail
  | comment => exact .comment
  | gap hc _ ih => exact .gap hc ih
  | token hw hrest _ ih =>
    rw [List.append_assoc]
    refine .token hw (fun d hd => ?_) ih
    rw [List.head?_append, Option.mem_def, Option.or_eq_some_iff] at hd
    obtain hd | ⟨-, hd⟩ := hd
    · exact hrest d hd
    · exact Lexeme.stops_of_remark htail _ d hd

/-- Gaps and a comment behind a line with content move its end. -/
theorem read_append (h : Line.read number text = .ok (some l))
    (htail : Text.Remark Lexeme.isGap tail) :
    Line.read number (text ++ tail) = .ok (some { l with stop := (text ++ tail).length + 1 }) := by
  obtain ⟨hbare, hfault, us, hus, rfl⟩ := read_eq_some_iff.1 h
  have hbare' : isBare (text ++ tail) = false := by
    rw [Bool.eq_false_iff, Ne, isBare_iff_remark]
    intro hremark
    rw [isBare_iff_remark.2 hremark.front] at hbare
    cases hbare
  have hne : text.dropWhile (· == ' ') ≠ [] := by
    intro hnil
    rw [isBare, hnil] at hbare
    cases hbare
  have hdrop : (text ++ tail).dropWhile (· == ' ') = text.dropWhile (· == ' ') ++ tail := by
    rw [List.dropWhile_append, if_neg (by simpa using hne)]
  have hspaces : spaces (text ++ tail) = spaces text := by
    have hall : text.takeWhile (· == ' ') ++ text.dropWhile (· == ' ') = text :=
      List.takeWhile_append_dropWhile
    have hlength := congrArg List.length hall
    have hpos := List.length_pos_iff.2 hne
    rw [List.length_append] at hlength
    rw [spaces, List.takeWhile_append, if_neg (by omega), spaces]
  refine read_eq_some_iff.2 ⟨hbare', ?_, us, ?_, ?_⟩
  · rw [hspaces, hdrop, indentFault?_eq_none_iff, List.head?_append_of_ne_nil _ hne]
    exact indentFault?_eq_none_iff.1 hfault
  · rw [hspaces, hdrop]
    exact scan_eq_ok_iff.2 ((scan_eq_ok_iff.1 hus).append htail)
  · rw [hspaces]

end Line

namespace Token

/-- A longer line moves the end of the line with its number. -/
theorem readLines_set {first : Nat} (h : readLines first texts = .ok ls)
    (hi : texts[i]? = some text) (hbare : Line.isBare text = false)
    (htail : Text.Remark Lexeme.isGap tail) :
    readLines first (texts.set i (text ++ tail)) =
      .ok (ls.map (·.restop (first + i) (text ++ tail).length)) := by
  induction texts generalizing first ls i with
  | nil => cases hi
  | cons other texts ih =>
    obtain ⟨line, more, hline, hmore, rfl⟩ := readLines_cons h
    cases i with
    | zero =>
      cases hi
      cases line with
      | none =>
        rw [Line.isBare_of_read hline] at hbare
        cases hbare
      | some l =>
        have hmoved : l.restop (first + 0) (text ++ tail).length =
            { l with stop := (text ++ tail).length + 1 } := if_pos (Line.number_of_read hline)
        have hkept : more.map (·.restop (first + 0) (text ++ tail).length) = more := by
          refine (List.map_congr_left (g := id) fun l' hl' => if_neg ?_).trans (List.map_id more)
          have hle := (pairwise_readLines hmore).2 l' hl'
          omega
        rw [List.set_cons_zero, readLines, Line.read_append hline htail, ok_bind, hmore, ok_bind,
          List.map_append, hkept, Option.toList_some, Option.toList_some,
          List.map_singleton, hmoved]
        rfl
    | succ i =>
      have hrest := ih hmore hi
      have hkept : line.toList.map (·.restop (first + (i + 1)) (text ++ tail).length) =
          line.toList := by
        cases line with
        | none => rfl
        | some l =>
          have hne : l.number ≠ first + (i + 1) := by
            rw [Line.number_of_read hline]
            omega
          exact congrArg ([·]) (if_neg hne)
      rw [List.set_cons_succ, readLines, hline, ok_bind, hrest, ok_bind, List.map_append, hkept,
        Nat.add_right_comm]
      rfl

theorem layout_restop (h : ∀ l ∈ ls, l.WellFormed) (n column : Nat) :
    layout last level (ls.map (·.restop n column)) =
      (layout last level ls).map (·.restop n (column + 1)) := by
  have hkept {ts : List Token} (hts : ∀ t ∈ ts, t.kind ≠ .newline) :
      ts.map (·.restop n (column + 1)) = ts := by
    refine (List.map_congr_left (g := id) fun t ht => if_neg ?_).trans (List.map_id ts)
    exact fun hnewline => hts t ht hnewline.1
  have hmarks (number level next : Nat) : (levelMarks number level next).map
      (·.restop n (column + 1)) = levelMarks number level next :=
    hkept fun t => ne_newline_of_mem_levelMarks
  induction ls generalizing level with
  | nil =>
    rw [List.map_nil, layout, List.map_append, hmarks]
    rfl
  | cons l ls ih =>
    obtain ⟨hl, hls⟩ := List.forall_mem_cons.1 h
    have hcontent : l.tokens.map (·.restop n (column + 1)) = l.tokens :=
      hkept fun t ht => ne_of_isMark (hl.markless t ht) rfl
    have hgroup : (l.restop n column).group level =
        (l.group level).map (·.restop n (column + 1)) := by
      rw [Line.group, Line.group, List.map_append, List.map_append, List.map_singleton, hmarks,
        hcontent]
      unfold Line.restop Token.restop
      by_cases hn : l.number = n
      · rw [if_pos hn, if_pos ⟨rfl, hn⟩]
        rfl
      · rw [if_neg hn, if_neg fun hnewline => hn hnewline.2]
    have hlevel : (l.restop n column).level = l.level := by
      unfold Line.restop
      split <;> rfl
    rw [List.map_cons, layout, layout, List.map_append, hgroup, hlevel, ih hls]

/-! Sources -/

variable {source : String} {part longer more : List Char}

theorem ofSource_insertLine (hw : Text.Remark Text.isBlank w) (hfeed : '\n' ∉ w)
    (hi : i ≤ (Text.sourceLines source.toList).length) :
    ofSource (String.ofList (Text.insertLine i w source.toList)) =
      ((ofSource source).map (pushed (i + 1))).mapError (Error.pushed (i + 1)) := by
  have hlines := Text.sourceLines_insertLine i source.toList hfeed
  have hlength : (Text.sourceLines (Text.insertLine i w source.toList)).length =
      (Text.sourceLines source.toList).length + 1 := by
    rw [hlines, List.length_append, List.length_cons, List.length_take, List.length_drop]
    omega
  rw [ofSource_eq_map, ofSource_eq_map, String.toList_ofList, hlength, hlines,
    layout_readLines_insert hw.dropReturn hi]

theorem ofSource_replaceLine (h : ofSource source = .ok ts)
    (hpart : (Text.splitOn '\n' source.toList)[i]? = some part)
    (hcontent : ¬Text.Remark Text.isBlank (Text.dropReturn part))
    (hmore : Text.Remark Lexeme.isGap more) (hfeed : '\n' ∉ more)
    (hlonger : Text.Extends part more longer) :
    ofSource (String.ofList (Text.replaceLine i longer source.toList)) =
      .ok (ts.map (·.restop (i + 1) ((Text.dropReturn longer).length + 1))) := by
  obtain ⟨ls, hls, rfl⟩ := ofSource_eq_ok.1 h
  obtain ⟨tail, htail, hremark⟩ := hlonger.dropReturn hmore rfl
  have hline : '\n' ∉ longer := by
    have hnone := Text.not_mem_of_mem_splitOn (List.mem_of_getElem? hpart)
    obtain ⟨front, back, -, rfl, rfl⟩ := hlonger
    simp only [List.mem_append, not_or] at hnone ⊢
    exact ⟨⟨hnone.1, hfeed⟩, hnone.2⟩
  have hlines := Text.sourceLines_replaceLine i source.toList hline
  have htext : (Text.sourceLines source.toList)[i]? = some (Text.dropReturn part) := by
    rw [Text.sourceLines, List.getElem?_map, hpart, Option.map_some]
  have hbare : Line.isBare (Text.dropReturn part) = false := by
    rwa [Bool.eq_false_iff, Ne, isBare_iff_remark]
  rw [ofSource_eq_map, String.toList_ofList, hlines, List.length_set, htail,
    readLines_set hls htext hbare hremark, Nat.add_comm 1, Except.map,
    layout_restop (wellFormed_of_readLines hls)]

theorem ofSource_withReturns
    (h : ∀ part ∈ Text.splitOn '\n' source.toList, part.getLast? ≠ some '\r') :
    ofSource (String.ofList (Text.withReturns source.toList)) = ofSource source := by
  rw [ofSource_eq_map, ofSource_eq_map, String.toList_ofList, Text.sourceLines_withReturns h]

/-- Layout without meaning changes nothing but places. A line without content moves what is behind
it, tokens and failure, one line down. Gaps and a comment behind a line with content move its
newline. A carriage return at the end of every line changes nothing. -/
theorem ofSource_neutral (source : String) :
    (∀ i w, Text.Remark Text.isBlank w → '\n' ∉ w →
      i ≤ (Text.splitOn '\n' source.toList).length →
      ofSource (String.ofList (Text.insertLine i w source.toList)) =
        ((ofSource source).map (pushed (i + 1))).mapError (Error.pushed (i + 1))) ∧
    (∀ i ts part more longer, ofSource source = .ok ts →
      (Text.splitOn '\n' source.toList)[i]? = some part →
      ¬Text.Remark Text.isBlank (Text.dropReturn part) →
      Text.Remark Lexeme.isGap more → '\n' ∉ more → Text.Extends part more longer →
      ofSource (String.ofList (Text.replaceLine i longer source.toList)) =
        .ok (ts.map (·.restop (i + 1) ((Text.dropReturn longer).length + 1)))) ∧
    ((∀ part ∈ Text.splitOn '\n' source.toList, part.getLast? ≠ some '\r') →
      ofSource (String.ofList (Text.withReturns source.toList)) = ofSource source) := by
  refine ⟨fun i w hw hfeed hi => ofSource_insertLine hw hfeed ?_,
    fun i ts part more longer h hpart hcontent hmore hfeed hlonger =>
      ofSource_replaceLine h hpart hcontent hmore hfeed hlonger, ofSource_withReturns⟩
  rwa [Text.sourceLines, List.length_map]

/-- A source whose last line has content. -/
def printsSource : String := "if x:\n  print 1\nprint 2"

theorem ofSource_neutral_printsSource :
    ofSource "if x:\n\t# note\n  print 1\nprint 2" =
      ((ofSource printsSource).map (pushed 2)).mapError (Error.pushed 2) ∧
    (∃ ts, ofSource printsSource = .ok ts ∧
      ofSource "if x: # note\n  print 1\nprint 2" = .ok (ts.map (·.restop 1 13))) ∧
    ofSource "if x:\r\n  print 1\r\nprint 2" = ofSource printsSource := by
  obtain ⟨hinsert, hextend, hreturns⟩ := ofSource_neutral printsSource
  obtain ⟨ts, hts⟩ := exists_eq_ok (by decide +kernel : (ofSource printsSource).isOk = true)
  have hcontent : ¬Text.Remark Text.isBlank (Text.dropReturn "if x:".toList) := by
    rw [← isBare_iff_remark]
    decide +kernel
  exact ⟨hinsert 1 "\t# note".toList (.blank (by decide) .comment) (by decide) (by decide),
    ⟨ts, hts, hextend 0 ts "if x:".toList " # note".toList "if x: # note".toList hts (by decide)
      hcontent (.blank (by decide) .comment) (by decide)
        ⟨"if x:".toList, [], .inl rfl, rfl, rfl⟩⟩,
    hreturns (by decide)⟩

end Token

end ClassLang
