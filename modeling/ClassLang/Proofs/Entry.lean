import ClassLang.Proofs.Text.Lines
import ClassLang.Proofs.Token.Content
import ClassLang.Proofs.Token.Scanned
import ClassLang.Repl.Entry

/-!
When an entry needs more lines, as against its tokens. The test of completeness scans the text of an
entry by itself; line by line it counts the parentheses that are tokens and finds the colon that is
the last one. Its two parts leave out different things: the count of parentheses does not know
comments, and the search for a colon takes a hash in a string for the start of one.
-/

namespace ClassLang

open Token Text

namespace Token

/-- The number of opening parentheses among tokens less the number of closing ones. -/
def balance (ts : List Token) : Int :=
  ts.countP (·.kind == .symbol '(') - ts.countP (·.kind == .symbol ')')

/-- Whether the last one of some tokens is a colon. -/
def EndsInColon (ts : List Token) : Prop := ts.getLast?.map (·.kind) = some (.symbol ':')

instance (ts : List Token) : Decidable (EndsInColon ts) :=
  inferInstanceAs (Decidable (_ = some (Kind.symbol ':')))

theorem balance_append (ts us : List Token) : balance (ts ++ us) = balance ts + balance us := by
  simp only [balance, List.countP_append]
  omega

theorem balance_cons (t : Token) (ts : List Token) : balance (t :: ts) = balance [t] + balance ts :=
  balance_append [t] ts

theorem balance_eq_zero {ts : List Token} (h : ∀ t ∈ ts, ∀ c, t.kind ≠ .symbol c) :
    balance ts = 0 := by
  have hnone (c : Char) : ts.countP (·.kind == .symbol c) = 0 := by
    rw [List.countP_eq_zero]
    intro t ht hk
    exact h t ht c (eq_of_beq hk)
  rw [balance, hnone, hnone]
  rfl

end Token

namespace Entry

/-- Holds of the characters that count outside of strings: parentheses and quotes. -/
def isCounted (c : Char) : Bool := c == '(' || c == ')' || c == '"' || c == '\''

variable {c quote : Char} {w cs text tail rest : List Char} {t : Token} {ts : List Token}

/-! Parentheses -/

theorem openParens_cons (h : isCounted c = false) :
    openParens .code (c :: cs) = openParens .code cs := by
  simp only [isCounted, Bool.or_eq_false_iff, beq_eq_false_iff_ne] at h
  obtain ⟨⟨⟨hopen, hclose⟩, hdouble⟩, hsingle⟩ := h
  simp [openParens, Place.weight, Place.next, hopen, hclose, hdouble, hsingle]

theorem openParens_append (h : ∀ c ∈ w, isCounted c = false) :
    openParens .code (w ++ cs) = openParens .code cs := by
  induction w with
  | nil => rfl
  | cons c w ih =>
    obtain ⟨hc, hw⟩ := List.forall_mem_cons.1 h
    rw [List.cons_append, openParens_cons hc, ih hw]

/-- A string of one line leads back to the code, and nothing counts in it. -/
theorem openParens_quoted (hquote : quote ≠ '\\') (h : Lexeme.Quoted quote w) (hfeed : '\n' ∉ w) :
    openParens (.string quote) (w ++ cs) = openParens .code cs := by
  induction h with
  | close => simp [openParens, Place.weight, Place.next, hquote]
  | escape h ih =>
    have hrest := ih (List.not_mem_of_not_mem_cons (List.not_mem_of_not_mem_cons hfeed))
    simpa [openParens, Place.weight, Place.next] using hrest
  | @plain c w hback hne h ih =>
    have hc : c ≠ '\n' := (List.ne_of_not_mem_cons hfeed).symm
    have hrest := ih (List.not_mem_of_not_mem_cons hfeed)
    simpa [openParens, Place.weight, Place.next, hback, hne, hc] using hrest

/-- Nothing counts in a family of characters without parentheses and quotes. -/
theorem isCounted_eq_false {p : Char → Bool} (hp : ['(', ')', '"', '\''].all (!p ·) = true)
    (h : p c = true) : isCounted c = false := by
  rw [← Bool.not_eq_true]
  intro hcounted
  simp only [isCounted, Bool.or_eq_true, beq_iff_eq] at hcounted
  have hmem : c ∈ ['(', ')', '"', '\''] := by
    simp only [List.mem_cons, List.not_mem_nil, or_false]
    tauto
  have hnot := List.all_eq_true.1 hp c hmem
  rw [h] at hnot
  cases hnot

/-- The text of a token counts as the token does. -/
theorem openParens_written (h : Lexeme.Written w t.kind) (hfeed : '\n' ∉ w) :
    openParens .code (w ++ cs) = balance [t] + openParens .code cs := by
  have nothing (hw : ∀ c ∈ w, isCounted c = false) (hk : ∀ c, t.kind ≠ .symbol c) :
      openParens .code (w ++ cs) = balance [t] + openParens .code cs := by
    have hzero : balance [t] = 0 := balance_eq_zero (by simpa using hk)
    rw [openParens_append hw, hzero, Int.zero_add]
  generalize hk : t.kind = k at h
  cases h with
  | word hw hne => exact nothing (fun c hc => isCounted_eq_false (by decide) (hw c hc)) (hk ▸ hne)
  | double hc hne =>
    have hall : ['=', '!', '<', '>'].all (fun d => !isCounted d) = true := by decide
    have hdouble : ∀ d ∈ ['=', '!', '<', '>'], isCounted d = false := by
      simpa only [Bool.not_eq_true'] using List.all_eq_true.1 hall
    refine nothing (List.forall_mem_cons.2 ⟨hdouble _ hc, fun d hd => ?_⟩) (hk ▸ hne)
    exact hdouble d (List.mem_singleton.1 hd ▸ List.mem_cons_self)
  | @string quote w s hquote hw =>
    have hzero : balance [t] = 0 := balance_eq_zero (by simp [hk])
    have hback : quote ≠ '\\' := by rcases hquote with rfl | rfl <;> decide
    have hrest : openParens (.string quote) (w ++ cs) = openParens .code cs :=
      openParens_quoted hback hw (List.not_mem_of_not_mem_cons hfeed)
    rw [hzero, Int.zero_add, ← hrest]
    rcases hquote with rfl | rfl <;> simp [openParens, Place.weight, Place.next]
  | @symbol c hc =>
    have hall : Lexeme.symbols.all (fun d => Place.next d .code == .code) = true := by decide
    have hnext : Place.next c .code = .code := eq_of_beq (List.all_eq_true.1 hall c hc)
    have hweight : Place.weight c .code = balance [t] := by
      simp only [Place.weight, balance, List.countP_singleton, hk, beq_iff_eq, Kind.symbol.injEq]
      split
      · rename_i hopen
        subst hopen
        rfl
      · split
        · rfl
        · rfl
    rw [List.singleton_append, openParens, hnext, hweight]

/-- Where nothing counts in its comment, a line counts as its tokens do. -/
theorem openParens_scans (h : Line.Scans text ts tail) (hfeed : '\n' ∉ text)
    (htail : ∀ c ∈ tail, isCounted c = false) :
    openParens .code (text ++ cs) = balance ts + openParens .code cs := by
  induction h with
  | done => exact (Int.zero_add _).symm
  | comment =>
    rw [openParens_append (List.forall_mem_cons.2 ⟨by decide, htail⟩)]
    exact (Int.zero_add _).symm
  | blank hc _ ih =>
    rw [List.cons_append, openParens_cons (isCounted_eq_false (by decide) hc)]
    exact ih (List.not_mem_of_not_mem_cons hfeed) htail
  | token hw _ _ ih =>
    rw [List.mem_append, not_or] at hfeed
    rw [balance_cons, List.append_assoc, openParens_written hw hfeed.1, ih hfeed.2 htail,
      Int.add_assoc]

/-- The same of a line with its carriage return. -/
theorem openParens_part {part : List Char} (h : Line.Scans (dropReturn part) ts tail)
    (hfeed : '\n' ∉ part) (htail : ∀ c ∈ tail, isCounted c = false) :
    openParens .code (part ++ cs) = balance ts + openParens .code cs := by
  obtain heq | heq := eq_dropReturn_or part
  · rw [heq] at hfeed ⊢
    exact openParens_scans h hfeed htail
  · rw [heq, List.mem_append, not_or] at hfeed
    rw [heq, List.append_assoc, openParens_scans h hfeed.1 htail, List.singleton_append,
      openParens_cons (by decide)]

/-- Where nothing counts in comments, the lines of an entry count as their tokens do. -/
theorem openParens_lines {parts : List (List Char)} {number : Nat} {ls : List Line}
    (h : readLines number (parts.map dropReturn) = .ok ls) (hfeed : ∀ part ∈ parts, '\n' ∉ part)
    (hcomment : ∀ part ∈ parts, ∀ c ∈ Line.comment (dropReturn part), isCounted c = false) :
    openParens .code (['\n'].intercalate parts) = balance (ls.flatMap Line.tokens) := by
  induction parts generalizing number ls with
  | nil =>
    cases h
    rfl
  | cons part parts ih =>
    obtain ⟨line, more, hline, hmore, rfl⟩ := readLines_cons h
    obtain ⟨hfirst, hfeed⟩ := List.forall_mem_cons.1 hfeed
    obtain ⟨htail, hcomment⟩ := List.forall_mem_cons.1 hcomment
    have hrest := ih hmore hfeed hcomment
    have htokens : line.toList.flatMap Line.tokens = line.elim [] Line.tokens := by
      cases line with
      | none => rfl
      | some l => exact List.flatMap_singleton ..
    rw [List.flatMap_append, balance_append, htokens, ← hrest]
    cases parts with
    | nil =>
      rw [List.intercalate_singleton, ← List.append_nil part]
      exact openParens_part (Line.scans_of_read hline) hfirst htail
    | cons next parts =>
      rw [List.intercalate_cons_cons, List.append_assoc,
        openParens_part (Line.scans_of_read hline) hfirst htail, List.singleton_append,
        openParens_cons (by decide)]

/-! Colons -/

/-- What is left of a line up to the first hash, white space left out. -/
def ink (text : List Char) : List Char := (text.takeWhile (· != '#')).filter (!isBlank ·)

theorem head?_dropWhile_isBlank (cs : List Char) :
    (cs.dropWhile isBlank).head? = (cs.filter (!isBlank ·)).head? := by
  induction cs with
  | nil => rfl
  | cons c cs ih =>
    by_cases hc : isBlank c = true
    · rw [List.dropWhile_cons_of_pos hc, List.filter_cons_of_neg (by simpa using hc), ih]
    · rw [List.dropWhile_cons_of_neg hc, List.filter_cons_of_pos (by simpa using hc)]
      rfl

theorem opensBlock_eq (text : List Char) : opensBlock text = ((ink text).getLast? == some ':') := by
  rw [opensBlock, trimRight, List.getLast?_reverse, trimLeft, head?_dropWhile_isBlank,
    List.filter_reverse, List.head?_reverse, ink]

theorem ink_cons_of_isBlank (h : isBlank c = true) : ink (c :: cs) = ink cs := by
  have hc : (c != '#') = true := by
    rw [bne_iff_ne]
    rintro rfl
    exact absurd h (by decide)
  rw [ink, List.takeWhile_cons, if_pos hc, List.filter_cons_of_neg (by simpa using h), ink]

theorem ink_append (h : '#' ∉ w) : ink (w ++ cs) = w.filter (!isBlank ·) ++ ink cs := by
  have hw : ∀ c ∈ w, (c != '#') = true := by
    intro c hc
    rw [bne_iff_ne]
    rintro rfl
    exact h hc
  rw [ink, List.takeWhile_append_of_pos hw, List.filter_append, ink]

/-- Where no token has a hash, a line ends in a colon, its comment apart, if its last token is one. -/
theorem ink_scans (h : Line.Scans text ts tail) (hhash : ∀ t ∈ ts, '#' ∉ t.lexeme.toList) :
    Option.Rel (fun c t => c = ':' ↔ t.kind = .symbol ':') (ink text).getLast? ts.getLast? := by
  induction h with
  | done => exact .none
  | comment => exact .none
  | blank hc _ ih =>
    rw [ink_cons_of_isBlank hc]
    exact ih hhash
  | @token t w rest tail ts hw hlexeme _ ih =>
    obtain ⟨ht, hts⟩ := List.forall_mem_cons.1 hhash
    rw [hlexeme, String.toList_ofList] at ht
    have hrest := ih hts
    obtain ⟨d, hlast, hblank, hcolon⟩ := hw.last
    obtain ⟨front, rfl⟩ := List.getLast?_eq_some_iff.1 hlast
    have hd : [d].filter (!isBlank ·) = [d] := List.filter_cons_of_pos (by rw [hblank]; rfl)
    rw [ink_append ht, List.filter_append, hd, List.append_assoc, List.singleton_append,
      List.getLast?_append, List.getLast?_cons, List.getLast?_cons]
    revert hrest
    generalize (ink rest).getLast? = c?, ts.getLast? = t?
    intro hrest
    cases hrest with
    | none => exact .some hcolon
    | some hrest => exact .some hrest

theorem opensBlock_iff (h : Line.Scans text ts tail) (hhash : ∀ t ∈ ts, '#' ∉ t.lexeme.toList) :
    opensBlock text = true ↔ EndsInColon ts := by
  have hrel := ink_scans h hhash
  rw [opensBlock_eq, EndsInColon, beq_iff_eq]
  revert hrel
  generalize (ink text).getLast? = c?, ts.getLast? = t?
  intro hrel
  cases hrel with
  | none => exact iff_of_false nofun nofun
  | some hrel => simpa using hrel

theorem ink_concat_return (text : List Char) : ink (text ++ ['\r']) = ink text := by
  induction text with
  | nil => rfl
  | cons c text ih =>
    unfold ink at ih ⊢
    rw [List.cons_append, List.takeWhile_cons, List.takeWhile_cons]
    split
    · rw [List.filter_cons, List.filter_cons, ih]
    · rfl

theorem opensBlock_dropReturn (part : List Char) : opensBlock (dropReturn part) = opensBlock part := by
  obtain heq | heq := eq_dropReturn_or part
  · rw [← heq]
  · conv => rhs; rw [heq]
    rw [opensBlock_eq, opensBlock_eq, ink_concat_return]

/-- The lines that are shown open a block where those that are read do. -/
theorem any_opensBlock_lines (cs : List Char) :
    (lines cs).any opensBlock = (sourceLines cs).any opensBlock := by
  have hterminated (parts : List (List Char)) :
      (terminated parts).any opensBlock = (parts.map dropReturn).any opensBlock := by
    fun_induction terminated parts with
    | case1 => rfl
    | case2 => rfl
    | case3 last _ => simp [opensBlock_dropReturn]
    | case4 part parts _ ih => rw [List.map_cons, List.any_cons, List.any_cons, ih]
  exact hterminated _

theorem any_opensBlock_iff {texts : List (List Char)} {number : Nat} {ls : List Line}
    (h : readLines number texts = .ok ls)
    (hhash : ∀ l ∈ ls, ∀ t ∈ l.tokens, '#' ∉ t.lexeme.toList) :
    texts.any opensBlock = true ↔ ∃ l ∈ ls, EndsInColon l.tokens := by
  induction texts generalizing number ls with
  | nil =>
    cases h
    exact iff_of_false nofun nofun
  | cons text texts ih =>
    obtain ⟨line, more, hline, hmore, rfl⟩ := readLines_cons h
    obtain ⟨hfirst, hhash⟩ := List.forall_mem_append.1 hhash
    have htokens : ∀ t ∈ line.elim [] Line.tokens, '#' ∉ t.lexeme.toList := by
      cases line with
      | none => nofun
      | some l => exact hfirst l List.mem_cons_self
    rw [List.any_cons, Bool.or_eq_true, opensBlock_iff (Line.scans_of_read hline) htokens,
      ih hmore hhash]
    cases line with
    | none => exact or_iff_right nofun
    | some l => simp

end Entry

/-! Layouts -/

namespace Token

variable {last level : Nat} {ls : List Line}

theorem balance_layout (last level : Nat) (ls : List Line) :
    balance (layout last level ls) = balance (ls.flatMap Line.tokens) := by
  have hmarks (number level next : Nat) : balance (levelMarks number level next) = 0 := by
    refine balance_eq_zero fun t ht c hc => ?_
    have hmark := isMark_of_mem_levelMarks ht
    rw [hc] at hmark
    cases hmark
  induction ls generalizing level with
  | nil =>
    rw [layout, balance_append, hmarks]
    rfl
  | cons l ls ih =>
    have hnewline : balance [.mark .newline ⟨l.number, l.stop⟩] = 0 := rfl
    rw [layout, Line.group, balance_append, balance_append, balance_append, hmarks, hnewline, ih,
      List.flatMap_cons, balance_append, Int.zero_add, Int.add_zero]

/-- Some line ends in a colon, by its tokens and by the numbers of tokens. -/
theorem exists_endsInColon_iff {first : Nat} {texts : List (List Char)}
    (h : readLines first texts = .ok ls) (hplaced : ∀ l ∈ ls, l.Placed) :
    (∃ line, EndsInColon (content line (layout last level ls))) ↔
      ∃ l ∈ ls, EndsInColon l.tokens := by
  constructor
  · rintro ⟨line, hcolon⟩
    by_cases hline : ∃ l ∈ ls, l.number = line
    · obtain ⟨l, hl, rfl⟩ := hline
      rw [content_layout_of_mem hplaced (pairwise_readLines h).1 hl] at hcolon
      exact ⟨l, hl, hcolon⟩
    · rw [content_layout_of_ne hplaced fun l hl heq => hline ⟨l, hl, heq⟩] at hcolon
      cases hcolon
  · rintro ⟨l, hl, hcolon⟩
    refine ⟨l.number, ?_⟩
    rw [content_layout_of_mem hplaced (pairwise_readLines h).1 hl]
    exact hcolon

end Token

namespace Entry

variable {entry : String} {ts : List Token}

/-- An entry that is lexed needs more lines exactly if its tokens say so: there are more opening
parentheses among them than closing ones, or the last token of some line is a colon and no empty line
ends the entry. So it is where the comments have neither parentheses nor quotes and the strings no
hash. -/
theorem needsMore_iff (hts : Token.ofSource entry = .ok ts)
    (hcomment : ∀ text ∈ sourceLines entry.toList, ∀ c ∈ Line.comment text, isCounted c = false)
    (hhash : ∀ t ∈ ts, '#' ∉ t.lexeme.toList) :
    needsMore entry = true ↔
      ts.countP (·.kind == .symbol ')') < ts.countP (·.kind == .symbol '(') ∨
        (∃ line, EndsInColon (content line ts)) ∧ ¬ ['\n', '\n'] <:+ entry.toList := by
  obtain ⟨ls, hls, rfl⟩ := Token.ofSource_eq_ok.1 hts
  have hparens : openParens .code entry.toList =
      balance (layout (sourceLines entry.toList).length 0 ls) := by
    have hlines := openParens_lines hls (fun _ => not_mem_of_mem_splitOn)
      (List.forall_mem_map.1 hcomment)
    rw [intercalate_splitOn] at hlines
    rw [hlines, balance_layout]
  have hcolons : (lines entry.toList).any opensBlock = true ↔
      ∃ line, EndsInColon (content line (layout (sourceLines entry.toList).length 0 ls)) := by
    rw [any_opensBlock_lines, exists_endsInColon_iff hls (placed_of_readLines hls)]
    refine any_opensBlock_iff hls fun l hl t ht => hhash t ?_
    rw [layout_eq]
    exact List.mem_append_left _ (mem_laidOut hl ht)
  have hmore : 0 < openParens .code entry.toList ↔
      (layout (sourceLines entry.toList).length 0 ls).countP (·.kind == .symbol ')') <
        (layout (sourceLines entry.toList).length 0 ls).countP (·.kind == .symbol '(') := by
    rw [hparens, balance]
    omega
  simp only [needsMore, Bool.or_eq_true, Bool.and_eq_true, decide_eq_true_eq, hmore, hcolons,
    Bool.not_eq_true', ← Bool.not_eq_true, List.isSuffixOf_iff_suffix]

/-- An entry that opens a block, with a parenthesis in a string and a comment. -/
def blockEntry : String := "if f(\")\") == 1: # a block\n"

theorem needsMore_iff_blockEntry : ∃ ts, Token.ofSource blockEntry = .ok ts ∧
    needsMore blockEntry = true ∧
    (needsMore blockEntry = true ↔
      ts.countP (·.kind == .symbol ')') < ts.countP (·.kind == .symbol '(') ∨
        (∃ line, EndsInColon (content line ts)) ∧ ¬ ['\n', '\n'] <:+ blockEntry.toList) := by
  have hlexed : (match Token.ofSource blockEntry with
      | .error _ => false
      | .ok ts => ts.all fun t => !t.lexeme.toList.contains '#') = true := by
    decide +kernel
  cases hts : Token.ofSource blockEntry with
  | error e =>
    rw [hts] at hlexed
    cases hlexed
  | ok ts =>
    rw [hts] at hlexed
    have hcomment : (sourceLines blockEntry.toList).all
        (fun text => (Line.comment text).all (!isCounted ·)) = true := by
      decide +kernel
    refine ⟨ts, rfl, by decide +kernel, needsMore_iff hts (by simpa using hcomment) fun t ht => ?_⟩
    simpa using List.all_eq_true.1 hlexed t ht

/-- Not every entry that is lexed needs more lines exactly if its tokens say so: a parenthesis counts
in a comment. -/
theorem not_forall_needsMore_iff : ¬ ∀ entry ts, Token.ofSource entry = .ok ts →
    (needsMore entry = true ↔
      ts.countP (·.kind == .symbol ')') < ts.countP (·.kind == .symbol '(') ∨
        (∃ line, EndsInColon (content line ts)) ∧ ¬ ['\n', '\n'] <:+ entry.toList) := by
  intro hall
  have hlexed : (match Token.ofSource "x = 1 # (\n" with
      | .error _ => false
      | .ok ts => ts.all fun t => t.kind != .symbol '(' && t.kind != .symbol ':') = true := by
    decide +kernel
  cases hts : Token.ofSource "x = 1 # (\n" with
  | error e =>
    rw [hts] at hlexed
    cases hlexed
  | ok ts =>
    rw [hts, List.all_eq_true] at hlexed
    obtain hparens | ⟨⟨line, hcolon⟩, -⟩ := (hall _ ts hts).1 (by decide +kernel)
    · obtain ⟨t, ht, hk⟩ := List.countP_pos_iff.1 (Nat.zero_lt_of_lt hparens)
      have hne := hlexed t ht
      rw [eq_of_beq hk] at hne
      cases hne
    · obtain ⟨t, ht, hk⟩ := Option.map_eq_some_iff.1 hcolon
      have hne := hlexed t (List.mem_of_mem_filter (List.mem_of_getLast? ht))
      rw [hk] at hne
      cases hne

/-- Not even where comments count for nothing: a hash in a string hides the colon behind it. -/
theorem not_forall_needsMore_iff_of_comment : ¬ ∀ entry ts, Token.ofSource entry = .ok ts →
    (∀ text ∈ sourceLines entry.toList, ∀ c ∈ Line.comment text, isCounted c = false) →
    (needsMore entry = true ↔
      ts.countP (·.kind == .symbol ')') < ts.countP (·.kind == .symbol '(') ∨
        (∃ line, EndsInColon (content line ts)) ∧ ¬ ['\n', '\n'] <:+ entry.toList) := by
  intro hall
  have hlexed : (match Token.ofSource "if s == \"#\":\n" with
      | .error _ => false
      | .ok ts => decide (EndsInColon (content 1 ts))) = true := by
    decide +kernel
  cases hts : Token.ofSource "if s == \"#\":\n" with
  | error e =>
    rw [hts] at hlexed
    cases hlexed
  | ok ts =>
    rw [hts] at hlexed
    have hcomment : (sourceLines "if s == \"#\":\n".toList).all
        (fun text => (Line.comment text).all (!isCounted ·)) = true := by
      decide +kernel
    have hmore := (hall _ ts hts (by simpa using hcomment)).2
      (.inr ⟨⟨1, of_decide_eq_true hlexed⟩, by decide +kernel⟩)
    exact absurd hmore (by decide +kernel)

end Entry

end ClassLang
