import ClassLang.Proofs.Except
import ClassLang.Token.Line

/-!
Which texts are tokens, and which token each of them is. What is read at a place of a line is the
longest text there that one of the patterns matches, and the token is the one that this text
denotes. The other way round, a text that denotes a token is read as that token wherever it stops.
-/

namespace ClassLang

/-- Holds of the texts that are read as one word. -/
def isWordText (cs : List Char) : Bool :=
  match cs with
  | [] => false
  | c :: cs => Lexeme.isWordStart c && cs.all Lexeme.isWordChar

namespace Lexeme

/-- Holds of what follows an opening quote in a string: characters and escapes, and then the first
quote of the same kind. -/
inductive Quoted (quote : Char) : List Char → Prop where
  | close : Quoted quote [quote]
  | escape {c : Char} {cs : List Char} : Quoted quote cs → Quoted quote ('\\' :: c :: cs)
  | plain {c : Char} {cs : List Char} :
      c ≠ '\\' → c ≠ quote → Quoted quote cs → Quoted quote (c :: cs)

/-- The escapes: the character behind a backslash and the one that both stand for. -/
inductive Escape : Char → Char → Prop where
  | feed : Escape 'n' '\n'
  | tab : Escape 't' '\t'
  | return_ : Escape 'r' '\r'
  | double : Escape '"' '"'
  | single : Escape '\'' '\''
  | backslash : Escape '\\' '\\'

/-- Holds of what stands between two quotes and the text it stands for. Read from the left, every
backslash begins an escape, and any other character stands for itself. -/
inductive StandsFor : List Char → List Char → Prop where
  | nil : StandsFor [] []
  | escape {e c : Char} {cs s : List Char} :
      Escape e c → StandsFor cs s → StandsFor ('\\' :: e :: cs) (c :: s)
  | plain {c : Char} {cs s : List Char} : c ≠ '\\' → StandsFor cs s → StandsFor (c :: cs) (c :: s)

/-- The operators of two characters by their first one. The second one is an equals sign. -/
inductive Double : Char → Kind → Prop where
  | equal : Double '=' .equal
  | notEqual : Double '!' .notEqual
  | lessOrEqual : Double '<' .lessOrEqual
  | greaterOrEqual : Double '>' .greaterOrEqual

/-- Holds of the texts that one of the patterns of tokens matches. -/
inductive Matches : List Char → Prop where
  | word {cs : List Char} : isWordText cs = true → Matches cs
  | number {c : Char} {cs : List Char} :
      (∀ d ∈ c :: cs, isDigit d = true) → Matches (c :: cs)
  | string {quote : Char} {cs : List Char} :
      quote = '"' ∨ quote = '\'' → Quoted quote cs → Matches (quote :: cs)
  | double {c : Char} {k : Kind} : Double c k → Matches [c, '=']
  | symbol {c : Char} : c ∈ symbols → Matches [c]

/-- Holds of a text and the kind of token that it is. A word that is not reserved is a name, digits
are the number they write, and a string is its text with the escapes resolved. -/
inductive Denotes : List Char → Kind → Prop where
  | keyword {k : Keyword} : Denotes k.text.toList (.keyword k)
  | word {cs : List Char} :
      isWordText cs = true → (∀ k : Keyword, k.text.toList ≠ cs) →
      Denotes cs (.word (String.ofList cs))
  | number {c : Char} {cs : List Char} {n : Int64} :
      (∀ d ∈ c :: cs, isDigit d = true) → n.toInt = Number.ofDigits (c :: cs) →
      Denotes (c :: cs) (.number n)
  | string {quote : Char} {w s : List Char} :
      quote = '"' ∨ quote = '\'' → Quoted quote (w ++ [quote]) → StandsFor w s →
      Denotes (quote :: (w ++ [quote])) (.string (String.ofList s))
  | double {c : Char} {k : Kind} : Double c k → Denotes [c, '='] k
  | symbol {c : Char} : c ∈ symbols → Denotes [c] (.symbol c)

/-- Holds of a text and what stands behind it where no pattern matches more of both. -/
def Longest (cs rest : List Char) : Prop := ∀ w, Matches w → w <+: cs ++ rest → w.length ≤ cs.length

end Lexeme

/-- Whether a kind of token ends where a character follows. -/
def Kind.stopsAt : Kind → Char → Bool
  | .keyword _, d | .word _, d => !Lexeme.isWordChar d
  | .number _, d => !Lexeme.isDigit d
  | .symbol c, d => (c != '=' && c != '<' && c != '>') || d != '='
  | _, _ => true

/-- Holds where a kind of token ends. -/
def Kind.Stops (k : Kind) (cs : List Char) : Prop := ∀ d ∈ cs.head?, k.stopsAt d = true

theorem Kind.stops_nil (k : Kind) : k.Stops [] := by
  intro d hd
  cases hd

namespace Lexeme

variable {column : Nat} {quote c : Char} {w cs rest s : List Char} {k : Kind}

/-! Characters -/

theorem isDigit_of_isWordStart (h : isWordStart c = true) : isDigit c = false := by
  simp only [isWordStart, isDigit, Bool.or_eq_true, Bool.and_eq_true, decide_eq_true_eq, beq_iff_eq,
    Bool.and_eq_false_iff, decide_eq_false_iff_not, Char.le_def, UInt32.le_iff_toNat_le] at *
  rcases h with (h | h) | rfl
  · right
    have : 'a'.val.toNat = 97 := rfl
    have : '9'.val.toNat = 57 := rfl
    omega
  · right
    have : 'A'.val.toNat = 65 := rfl
    have : '9'.val.toNat = 57 := rfl
    omega
  · decide

theorem isBlank_of_isWordStart (h : isWordStart c = true) : Text.isBlank c = false := by
  have hrange : 65 ≤ c.toNat ∧ c.toNat ≤ 122 := by
    simp only [isWordStart, Bool.or_eq_true, Bool.and_eq_true, decide_eq_true_eq, beq_iff_eq,
      Char.le_def, UInt32.le_iff_toNat_le] at h
    change 65 ≤ c.val.toNat ∧ c.val.toNat ≤ 122
    have : 'a'.val.toNat = 97 := rfl
    have : 'z'.val.toNat = 122 := rfl
    have : 'A'.val.toNat = 65 := rfl
    have : 'Z'.val.toNat = 90 := rfl
    rcases h with (h | h) | rfl
    · omega
    · omega
    · decide
  simp [Text.isBlank]
  omega

theorem isBlank_of_isDigit (h : isDigit c = true) : Text.isBlank c = false := by
  have hrange : 48 ≤ c.toNat ∧ c.toNat ≤ 57 := by
    simp only [isDigit, Bool.and_eq_true, decide_eq_true_eq, Char.le_def,
      UInt32.le_iff_toNat_le] at h
    exact h
  simp [Text.isBlank]
  omega

theorem isBlank_of_isWordChar (h : isWordChar c = true) : Text.isBlank c = false := by
  rw [isWordChar, Bool.or_eq_true] at h
  obtain h | h := h
  · exact isBlank_of_isWordStart h
  · exact isBlank_of_isDigit h

theorem isDigit_quote (h : quote = '"' ∨ quote = '\'') : isDigit quote = false := by
  rcases h with rfl | rfl <;> decide

theorem isWordStart_quote (h : quote = '"' ∨ quote = '\'') : isWordStart quote = false := by
  rcases h with rfl | rfl <;> decide

theorem ne_back_of_quote (h : quote = '"' ∨ quote = '\'') : quote ≠ '\\' := by
  rcases h with rfl | rfl <;> decide

/-- Signs are neither digits nor blank, and they begin neither words nor strings nor comments. -/
theorem sign_plain (h : c ∈ symbols ∨ c = '!') :
    isDigit c = false ∧ isWordStart c = false ∧ ¬(c = '"' ∨ c = '\'') ∧
      Text.isBlank c = false ∧ c ≠ '#' := by
  have hall : ('!' :: symbols).all (fun d => !isDigit d && !isWordStart d && d != '"' &&
      d != '\'' && !Text.isBlank d && d != '#') = true := by
    decide
  have hc : c ∈ '!' :: symbols := by simpa [or_comm] using h
  have hplain := List.all_eq_true.1 hall c hc
  simp only [Bool.and_eq_true, Bool.not_eq_true', bne_iff_ne] at hplain
  obtain ⟨⟨⟨⟨⟨hdigit, hword⟩, hdouble⟩, hsingle⟩, hblank⟩, hcomment⟩ := hplain
  exact ⟨hdigit, hword, not_or.2 ⟨hdouble, hsingle⟩, hblank, hcomment⟩

theorem Double.sign (h : Double c k) : c ∈ symbols ∨ c = '!' := by
  cases h <;> decide

theorem takeWhile_append_of_stop {p : Char → Bool} {ws cs : List Char}
    (hws : ∀ c ∈ ws, p c = true) (hcs : ∀ d ∈ cs.head?, p d = false) :
    (ws ++ cs).takeWhile p = ws := by
  rw [List.takeWhile_append_of_pos hws]
  cases cs with
  | nil => rw [List.takeWhile_nil, List.append_nil]
  | cons d cs =>
    rw [List.takeWhile_cons_of_neg (by rw [hcs d rfl]; decide), List.append_nil]

/-! Strings -/

theorem escaped?_eq_some_iff {e : Char} : escaped? e = some c ↔ Escape e c := by
  constructor
  · intro h
    unfold escaped? at h
    split at h <;> cases h <;> constructor
  · intro h
    cases h <;> rfl

theorem unescape_cons (h : c ≠ '\\') (cs : List Char) :
    unescape (c :: cs) = (unescape cs).map (c :: ·) := by
  simp [unescape, h]

/-- The escapes of a text are resolved where it stands for another one, which it determines. -/
theorem unescape_eq_ok_iff : unescape cs = .ok s ↔ StandsFor cs s := by
  constructor
  · intro h
    fun_induction unescape cs generalizing s with
    | case1 =>
      cases h
      exact .nil
    | case2 => cases h
    | case3 => cases h
    | case4 e cs c hc ih =>
      obtain ⟨s, hs, rfl⟩ := map_eq_ok.1 h
      exact .escape (escaped?_eq_some_iff.1 hc) (ih hs)
    | case5 c cs hlast hescape ih =>
      have hback : c ≠ '\\' := by
        cases cs with
        | nil => exact fun hc => hlast hc rfl
        | cons d ds => exact fun hc => hescape d ds hc rfl
      obtain ⟨s, hs, rfl⟩ := map_eq_ok.1 h
      exact .plain hback (ih hs)
  · intro h
    induction h with
    | nil => rfl
    | escape he _ ih => simp [unescape, escaped?_eq_some_iff.2 he, ih, Except.map]
    | plain hc _ ih =>
      rw [unescape_cons hc, ih]
      rfl

theorem quoted_of_quotedLength? {n : Nat} (h : quotedLength? quote cs = some n) :
    ∃ w rest, cs = w ++ rest ∧ w.length = n ∧ Quoted quote w := by
  fun_induction quotedLength? quote cs generalizing n with
  | case1 => cases h
  | case2 => cases h
  | case3 c cs ih =>
    obtain ⟨m, hm, rfl⟩ := Option.map_eq_some_iff.1 h
    obtain ⟨w, rest, rfl, rfl, hw⟩ := ih hm
    exact ⟨'\\' :: c :: w, rest, rfl, rfl, .escape hw⟩
  | case4 cs =>
    cases h
    exact ⟨[quote], cs, rfl, rfl, .close⟩
  | case5 c cs hlast hescape hquote ih =>
    have hback : c ≠ '\\' := by
      cases cs with
      | nil => exact fun hc => hlast hc rfl
      | cons d ds => exact fun hc => hescape d ds hc rfl
    obtain ⟨m, hm, rfl⟩ := Option.map_eq_some_iff.1 h
    obtain ⟨w, rest, rfl, rfl, hw⟩ := ih hm
    exact ⟨c :: w, rest, rfl, rfl, .plain hback hquote hw⟩

/-- What cannot be resolved is an escape that there is not, or a backslash at the end. -/
theorem unescape_eq_error {cause : Cause} (h : unescape cs = .error cause) :
    cause = .unterminatedString ∨ ∃ e, cause = .invalidEscape e := by
  fun_induction unescape cs with
  | case1 => cases h
  | case2 =>
    cases h
    exact .inl rfl
  | case3 e =>
    cases h
    exact .inr ⟨e, rfl⟩
  | case4 e cs c hc ih => exact ih (map_eq_error.1 h)
  | case5 c cs hlast hescape ih => exact ih (map_eq_error.1 h)

namespace Quoted

theorem getLast? (h : Quoted quote cs) : cs.getLast? = some quote := by
  induction h with
  | close => rfl
  | escape h ih =>
    rw [List.getLast?_cons_cons, List.getLast?_cons, ih]
    rfl
  | plain _ _ h ih =>
    rw [List.getLast?_cons, ih]
    rfl

/-- The closing quote is the first one that no backslash takes with it, whatever follows. -/
theorem length (h : Quoted quote w) (hquote : quote ≠ '\\') (rest : List Char) :
    quotedLength? quote (w ++ rest) = some w.length := by
  induction h with
  | close => simp [quotedLength?, hquote]
  | escape _ ih => simp [quotedLength?, ih]
  | plain hback hne _ ih => simp [quotedLength?, hback, hne, ih]

end Quoted

/-! What is read denotes a token -/

theorem denotes_of_number (hc : isDigit c = true) (h : (number c cs).kind = .ok k) :
    Denotes (c :: cs.takeWhile isDigit) k := by
  have hdigits : ∀ d ∈ c :: cs.takeWhile isDigit, isDigit d = true :=
    List.forall_mem_cons.2 ⟨hc, List.all_eq_true.1 List.all_takeWhile⟩
  unfold number at h
  simp only [] at h
  split at h
  · rename_i n hn
    cases h
    exact .number hdigits (Number.toInt_of_ofInt? hn)
  · cases h

theorem denotes_of_word (hc : isWordStart c = true) (h : (word c cs).kind = .ok k) :
    Denotes (c :: cs.takeWhile isWordChar) k := by
  have htext : isWordText (c :: cs.takeWhile isWordChar) = true := by
    rw [isWordText, hc, Bool.true_and]
    exact List.all_takeWhile
  unfold word at h
  simp only [Except.ok.injEq] at h
  split at h
  · rename_i k' hk
    have hspelled := congrArg String.toList (Keyword.text_of_ofText? hk)
    rw [String.toList_ofList] at hspelled
    rw [← h, ← hspelled]
    exact .keyword
  · rename_i hnone
    rw [← h]
    refine .word htext fun k' hk => ?_
    rw [← hk, String.ofList_toList, Keyword.ofText?_text] at hnone
    cases hnone

theorem denotes_of_string (hc : c = '"' ∨ c = '\'') (h : (string c cs).kind = .ok k) :
    ∃ w rest, cs = w ++ rest ∧ (string c cs).more = w.length ∧ Denotes (c :: w) k := by
  unfold string at h ⊢
  split at h
  · cases h
  · rename_i n hn
    obtain ⟨s, hs, rfl⟩ := map_eq_ok.1 h
    obtain ⟨w, rest, rfl, rfl, hw⟩ := quoted_of_quotedLength? hn
    obtain ⟨v, rfl⟩ := List.getLast?_eq_some_iff.1 hw.getLast?
    have hinside : (v ++ [c] ++ rest).take ((v ++ [c]).length - 1) = v := by simp
    rw [hinside] at hs
    exact ⟨v ++ [c], rest, rfl, rfl, .string hc hw (unescape_eq_ok_iff.1 hs)⟩

theorem denotes_of_sign (h : (sign column c cs).kind = .ok k) :
    ∃ w rest, cs = w ++ rest ∧ (sign column c cs).more = w.length ∧ Denotes (c :: w) k := by
  have double {d : Char} {ds : List Char} (hk : Double d k) :
      ∃ w rest, '=' :: ds = w ++ rest ∧ 1 = w.length ∧ Denotes (d :: w) k :=
    ⟨['='], ds, rfl, rfl, .double hk⟩
  unfold sign at h ⊢
  split at h
  · cases h
    exact double .equal
  · cases h
    exact double .notEqual
  · cases h
    exact double .lessOrEqual
  · cases h
    exact double .greaterOrEqual
  · simp only [] at h
    split at h
    · rename_i hsymbol
      cases h
      exact ⟨[], cs, rfl, rfl, .symbol (List.contains_iff_mem.1 hsymbol)⟩
    · cases h

/-- A token that is read is what a front of the text denotes. -/
theorem denotes_of_read (h : (read column c cs).kind = .ok k) :
    ∃ w rest, cs = w ++ rest ∧ (read column c cs).more = w.length ∧ Denotes (c :: w) k := by
  unfold read at h ⊢
  split at h
  · rename_i hc
    rw [if_pos hc]
    exact ⟨_, _, List.takeWhile_append_dropWhile.symm, rfl, denotes_of_number hc h⟩
  · rename_i hdigit
    rw [if_neg hdigit]
    split at h
    · rename_i hc
      rw [if_pos hc]
      exact ⟨_, _, List.takeWhile_append_dropWhile.symm, rfl, denotes_of_word hc h⟩
    · rename_i hword
      rw [if_neg hword]
      split at h
      · rename_i hc
        rw [if_pos hc]
        exact denotes_of_string hc h
      · rename_i hquote
        rw [if_neg hquote]
        exact denotes_of_sign h

/-! What denotes a token is read -/

theorem read_of_digit (hc : isDigit c = true) (column : Nat) (cs : List Char) :
    read column c cs = number c cs := if_pos hc

theorem read_of_wordStart (hc : isWordStart c = true) (column : Nat) (cs : List Char) :
    read column c cs = word c cs := by
  rw [read, isDigit_of_isWordStart hc, if_neg Bool.false_ne_true, if_pos hc]

theorem read_of_quote (hc : c = '"' ∨ c = '\'') (column : Nat) (cs : List Char) :
    read column c cs = string c cs := by
  rw [read, isDigit_quote hc, isWordStart_quote hc, if_neg Bool.false_ne_true,
    if_neg Bool.false_ne_true, if_pos hc]

theorem read_of_sign (hc : c ∈ symbols ∨ c = '!') (column : Nat) (cs : List Char) :
    read column c cs = sign column c cs := by
  obtain ⟨hdigit, hword, hquote, -⟩ := sign_plain hc
  rw [read, hdigit, hword, if_neg Bool.false_ne_true, if_neg Bool.false_ne_true, if_neg hquote]

theorem sign_of_double (h : Double c k) (column : Nat) (rest : List Char) :
    sign column c ('=' :: rest) = ⟨1, .ok k⟩ := by
  cases h <;> rfl

theorem sign_of_single (h : ∀ k, Double c k → cs.head? ≠ some '=') :
    sign column c cs = ⟨0, if symbols.contains c then .ok (.symbol c)
      else .error (.unexpectedCharacter c.toString column)⟩ := by
  unfold sign
  split
  · exact absurd rfl (h _ .equal)
  · exact absurd rfl (h _ .notEqual)
  · exact absurd rfl (h _ .lessOrEqual)
  · exact absurd rfl (h _ .greaterOrEqual)
  · rfl

theorem word_eq (h : cs.takeWhile isWordChar = w) : Lexeme.word c cs =
    ⟨w.length, .ok (match Keyword.ofText? (String.ofList (c :: w)) with
      | some k => .keyword k
      | none => .word (String.ofList (c :: w)))⟩ := by
  subst h
  rfl

/-- A word is read where it stops, reserved or not. -/
theorem read_wordText (hw : isWordText (c :: w) = true)
    (hrest : ∀ d ∈ rest.head?, isWordChar d = false) (column : Nat) :
    read column c (w ++ rest) =
      ⟨w.length, .ok (match Keyword.ofText? (String.ofList (c :: w)) with
        | some k => .keyword k
        | none => .word (String.ofList (c :: w)))⟩ := by
  rw [isWordText, Bool.and_eq_true, List.all_eq_true] at hw
  obtain ⟨hc, hw⟩ := hw
  exact (read_of_wordStart hc column _).trans (word_eq (takeWhile_append_of_stop hw hrest))

theorem isWordText_keyword (k : Keyword) : isWordText k.text.toList = true := by
  cases k <;> decide

theorem ofText?_eq_none (h : ∀ k : Keyword, k.text.toList ≠ cs) :
    Keyword.ofText? (String.ofList cs) = none := by
  rw [Option.eq_none_iff_forall_ne_some]
  intro k hk
  apply h k
  rw [Keyword.text_of_ofText? hk, String.toList_ofList]

/-- A text that denotes a token is read as that token wherever the token stops. -/
theorem Denotes.read (h : Denotes (c :: w) k) (hrest : k.Stops rest) (column : Nat) :
    read column c (w ++ rest) = ⟨w.length, .ok k⟩ := by
  generalize hcs : c :: w = cs at h
  cases h with
  | @keyword k =>
    have htext : String.ofList (c :: w) = k.text := by rw [hcs, String.ofList_toList]
    have hword : isWordText (c :: w) = true := hcs ▸ isWordText_keyword k
    have hstops : ∀ d ∈ rest.head?, isWordChar d = false := by
      intro d hd
      simpa [Kind.stopsAt] using hrest d hd
    rw [read_wordText hword hstops, htext, Keyword.ofText?_text]
  | word htext hfree =>
    subst hcs
    have hstops : ∀ d ∈ rest.head?, isWordChar d = false := by
      intro d hd
      simpa [Kind.stopsAt] using hrest d hd
    rw [read_wordText htext hstops, ofText?_eq_none hfree]
  | @number c w n hdigits hvalue =>
    cases hcs
    obtain ⟨hc, hw⟩ := List.forall_mem_cons.1 hdigits
    have hstops : ∀ d ∈ rest.head?, isDigit d = false := by
      intro d hd
      simpa [Kind.stopsAt] using hrest d hd
    rw [read_of_digit hc, Lexeme.number]
    simp only [takeWhile_append_of_stop hw hstops, ← hvalue, Number.ofInt?_toInt]
  | @string quote v s hquote hv hs =>
    cases hcs
    have hinside : (v ++ [c] ++ rest).take ((v ++ [c]).length - 1) = v := by simp
    rw [read_of_quote hquote, Lexeme.string, hv.length (ne_back_of_quote hquote) rest]
    simp only [hinside, unescape_eq_ok_iff.2 hs, Except.map]
  | @double c k hk =>
    cases hcs
    rw [read_of_sign hk.sign]
    exact sign_of_double hk column rest
  | @symbol c hc =>
    cases hcs
    have hsingle : ∀ k, Double c k → rest.head? ≠ some '=' := by
      intro k hk heq
      have hstop := hrest '=' heq
      cases hk with
      | notEqual => exact absurd hc (by decide)
      | _ => cases hstop
    rw [read_of_sign (.inl hc), List.nil_append, sign_of_single hsingle,
      if_pos (List.contains_iff_mem.2 hc)]
    rfl

/-- A token has a text, which one of the patterns matches. -/
theorem Denotes.matched (h : Denotes cs k) : cs ≠ [] ∧ Matches cs := by
  have ne_nil {w : List Char} (hw : isWordText w = true) : w ≠ [] := by
    rintro rfl
    cases hw
  cases h with
  | @keyword k => exact ⟨ne_nil (isWordText_keyword k), .word (isWordText_keyword k)⟩
  | word hw => exact ⟨ne_nil hw, .word hw⟩
  | number hdigits => exact ⟨List.cons_ne_nil _ _, .number hdigits⟩
  | string hquote hw => exact ⟨List.cons_ne_nil _ _, .string hquote hw⟩
  | double hk => exact ⟨List.cons_ne_nil _ _, .double hk⟩
  | symbol hc => exact ⟨List.cons_ne_nil _ _, .symbol hc⟩

/-- A token begins with a character that is neither blank nor a hash. -/
theorem Denotes.head (h : Denotes (c :: cs) k) : Text.isBlank c = false ∧ c ≠ '#' := by
  have word (hw : isWordText (c :: cs) = true) : Text.isBlank c = false ∧ c ≠ '#' := by
    rw [isWordText, Bool.and_eq_true] at hw
    refine ⟨isBlank_of_isWordStart hw.1, ?_⟩
    rintro rfl
    exact absurd hw.1 (by decide)
  cases h.matched.2 with
  | word hw => exact word hw
  | number hdigits =>
    have hc := hdigits c List.mem_cons_self
    refine ⟨isBlank_of_isDigit hc, ?_⟩
    rintro rfl
    exact absurd hc (by decide)
  | string hquote => rcases hquote with rfl | rfl <;> decide
  | double hk => exact (sign_plain hk.sign).2.2.2
  | symbol hc => exact (sign_plain (.inl hc)).2.2.2

/-- The text of a token determines its kind. -/
theorem Denotes.unique {k' : Kind} (h : Denotes cs k) (h' : Denotes cs k') : k = k' := by
  obtain ⟨c, w, rfl⟩ := List.exists_cons_of_ne_nil h.matched.1
  have hread : Lexeme.read 0 c (w ++ []) = ⟨w.length, .ok k⟩ := h.read k.stops_nil 0
  have hread' : Lexeme.read 0 c (w ++ []) = ⟨w.length, .ok k'⟩ := h'.read k'.stops_nil 0
  rw [hread] at hread'
  cases hread'
  rfl

/-! The longest match -/

/-- A front of a text that a pattern matches is no longer than what is read. -/
theorem length_le_of_matches (h : Matches w) (hfront : w <+: c :: cs) (column : Nat) :
    w.length ≤ (read column c cs).more + 1 := by
  have within {p : Char → Bool} {v : List Char} (hv : ∀ d ∈ v, p d = true) (hpre : v <+: cs) :
      v.length ≤ (cs.takeWhile p).length := by
    obtain ⟨rest, rfl⟩ := hpre
    rw [List.takeWhile_append_of_pos hv, List.length_append]
    omega
  cases w with
  | nil => exact Nat.zero_le _
  | cons d v =>
    obtain ⟨rfl, hpre⟩ := List.cons_prefix_cons.1 hfront
    rw [List.length_cons]
    apply Nat.succ_le_succ
    cases h with
    | word hw =>
      rw [isWordText, Bool.and_eq_true, List.all_eq_true] at hw
      rw [read_of_wordStart hw.1]
      exact within hw.2 hpre
    | number hdigits =>
      obtain ⟨hd, hv⟩ := List.forall_mem_cons.1 hdigits
      rw [read_of_digit hd]
      exact within hv hpre
    | string hquote hv =>
      obtain ⟨rest, rfl⟩ := hpre
      have hmore : (read column d (v ++ rest)).more = v.length := by
        rw [read_of_quote hquote, string, hv.length (ne_back_of_quote hquote) rest]
      exact Nat.le_of_eq hmore.symm
    | double hk =>
      obtain ⟨rest, rfl⟩ := hpre
      rw [read_of_sign hk.sign, List.cons_append, sign_of_double hk]
      exact Nat.le_refl 1
    | symbol => exact Nat.zero_le _

theorem isWordText_concat {d : Char} (hw : isWordText w = true) (hd : isWordChar d = true) :
    isWordText (w ++ [d]) = true := by
  cases w with
  | nil => cases hw
  | cons c w =>
    rw [isWordText, Bool.and_eq_true] at hw
    simp [isWordText, hw.1, hw.2, hd]

/-- A token stops exactly where no pattern matches more than its text. -/
theorem Denotes.longest_iff (h : Denotes cs k) : Longest cs rest ↔ k.Stops rest := by
  constructor
  · intro hlongest d hd
    obtain ⟨more, rfl⟩ := List.head?_eq_some_iff.1 hd
    have hnot : ¬ Matches (cs ++ [d]) := by
      intro hm
      have hpre : cs ++ [d] <+: cs ++ d :: more := ⟨more, by simp⟩
      have hle := hlongest _ hm hpre
      rw [List.length_append, List.length_singleton] at hle
      omega
    rw [← Bool.not_eq_false]
    intro hgoes
    cases h with
    | @keyword k =>
      have hd : isWordChar d = true := by simpa [Kind.stopsAt] using hgoes
      exact hnot (.word (isWordText_concat (isWordText_keyword k) hd))
    | word hw =>
      have hd : isWordChar d = true := by simpa [Kind.stopsAt] using hgoes
      exact hnot (.word (isWordText_concat hw hd))
    | number hdigits =>
      have hd : isDigit d = true := by simpa [Kind.stopsAt] using hgoes
      have hall : ∀ x ∈ [d], isDigit x = true := by simpa using hd
      exact hnot (.number (List.forall_mem_append.2 ⟨hdigits, hall⟩))
    | string => cases hgoes
    | double hk => cases hk <;> cases hgoes
    | @symbol c hc =>
      simp only [Kind.stopsAt, Bool.or_eq_false_iff, Bool.and_eq_false_iff, bne_eq_false_iff_eq]
        at hgoes
      obtain ⟨hsign, rfl⟩ := hgoes
      rcases hsign with (rfl | rfl) | rfl
      · exact hnot (.double .equal)
      · exact hnot (.double .lessOrEqual)
      · exact hnot (.double .greaterOrEqual)
  · intro hstops w hm hpre
    obtain ⟨c, cs, rfl⟩ := List.exists_cons_of_ne_nil h.matched.1
    rw [List.cons_append] at hpre
    have hle := length_le_of_matches hm hpre 0
    rw [h.read hstops] at hle
    exact hle

/-- A token that is read is what a front of the text denotes, and it stops there. -/
theorem stops_of_read (h : (read column c cs).kind = .ok k) :
    ∃ w rest, cs = w ++ rest ∧ (read column c cs).more = w.length ∧ Denotes (c :: w) k ∧
      k.Stops rest := by
  obtain ⟨w, rest, rfl, hmore, hdenotes⟩ := denotes_of_read h
  refine ⟨w, rest, rfl, hmore, hdenotes, hdenotes.longest_iff.1 fun v hv hpre => ?_⟩
  rw [List.cons_append] at hpre
  have hle := length_le_of_matches hv hpre column
  rw [hmore] at hle
  exact hle

/-- Where no token begins, the failure names the character that stands there, and no pattern matches
there. -/
theorem unexpected_of_read {text : String} {n : Nat}
    (h : (read column c cs).kind = .error (.unexpectedCharacter text n)) :
    text = c.toString ∧ n = column ∧ ∀ w, Matches w → ¬ w <+: c :: cs := by
  have hdigit : ¬ isDigit c = true := by
    intro hc
    rw [read_of_digit hc, number] at h
    simp only [] at h
    split at h <;> cases h
  have hword : ¬ isWordStart c = true := by
    intro hc
    rw [read_of_wordStart hc, word] at h
    cases h
  have hquote : ¬(c = '"' ∨ c = '\'') := by
    intro hc
    rw [read_of_quote hc, string] at h
    split at h
    · cases h
    · obtain heq | ⟨e, heq⟩ := unescape_eq_error (map_eq_error.1 h) <;> cases heq
  have hsign : (sign column c cs).kind = .error (.unexpectedCharacter text n) := by
    rwa [read, if_neg hdigit, if_neg hword, if_neg hquote] at h
  have hdouble : ∀ k, Double c k → cs.head? ≠ some '=' := by
    intro k hk heq
    obtain ⟨rest, rfl⟩ := List.head?_eq_some_iff.1 heq
    rw [sign_of_double hk] at hsign
    cases hsign
  rw [sign_of_single hdouble] at hsign
  simp only [] at hsign
  split at hsign
  · cases hsign
  rename_i hsymbol
  cases hsign
  refine ⟨rfl, rfl, fun w hw hfront => ?_⟩
  cases w with
  | nil =>
    cases hw with
    | word hempty => cases hempty
  | cons d v =>
    obtain ⟨rfl, hpre⟩ := List.cons_prefix_cons.1 hfront
    cases hw with
    | word hv =>
      rw [isWordText, Bool.and_eq_true] at hv
      exact hword hv.1
    | number hdigits => exact hdigit (hdigits d List.mem_cons_self)
    | string hd => exact hquote hd
    | double hk => exact hdouble _ hk (List.singleton_prefix_iff_head?_eq_some.1 hpre)
    | symbol hd => exact hsymbol (List.contains_iff_mem.2 hd)

end Lexeme

end ClassLang
