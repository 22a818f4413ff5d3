import ClassLang.Proofs.Token.Lexeme

/-!
Tokens as text. A token is written as its kind is spelled, and a space stands between two tokens
unless one of them is a sign that joins. What is written is read again as the tokens it was written
from.
-/

namespace ClassLang

open Lexeme

/-- A character as it is written inside a string. -/
def Lexeme.escape : Char → List Char
  | '\\' => ['\\', '\\']
  | '"' => ['\\', '"']
  | '\n' => ['\\', 'n']
  | '\t' => ['\\', 't']
  | '\r' => ['\\', 'r']
  | c => [c]

namespace Kind

/-- A kind of token as it is written. -/
def spelling : Kind → List Char
  | .keyword k => k.text.toList
  | .number n => Nat.toDigits 10 n.toInt.toNat
  | .string s => '"' :: (s.toList.flatMap escape ++ ['"'])
  | .word name => name.toList
  | .equal => ['=', '=']
  | .notEqual => ['!', '=']
  | .lessOrEqual => ['<', '=']
  | .greaterOrEqual => ['>', '=']
  | .symbol c => [c]
  | .comment | .newline | .indent | .dedent | .eof => []

/-- Whether no space stands between two kinds of tokens: behind an opening parenthesis and a dot,
before a closing one, a comma, a colon and a dot, and between a name and its arguments. -/
def joins : Kind → Kind → Bool
  | .symbol '(', _ | .symbol '.', _ => true
  | _, .symbol ')' | _, .symbol ',' | _, .symbol ':' | _, .symbol '.' => true
  | .word _, .symbol '(' => true
  | _, _ => false

/-- The text of a row of tokens. -/
def write : List Kind → List Char
  | [] => []
  | [k] => k.spelling
  | k :: k' :: ks => k.spelling ++ ((if k.joins k' then [] else [' ']) ++ write (k' :: ks))

end Kind

/-! Words, numbers and strings -/

namespace Lexeme

/-- Holds of a text and the ways to write it between two quotes of a kind: backslashes, line feeds
and the quote are escaped, and other characters that have an escape are escaped or stand as they
are. -/
inductive EscapedAs (quote : Char) : List Char → List Char → Prop where
  | nil : EscapedAs quote [] []
  | escape {c e : Char} {s w : List Char} :
      Escape e c → EscapedAs quote s w → EscapedAs quote (c :: s) ('\\' :: e :: w)
  | plain {c : Char} {s w : List Char} :
      c ≠ '\\' → c ≠ '\n' → c ≠ quote → EscapedAs quote s w → EscapedAs quote (c :: s) (c :: w)

namespace EscapedAs

variable {quote : Char} {s w : List Char}

theorem standsFor (h : EscapedAs quote s w) : StandsFor w s := by
  induction h with
  | nil => exact .nil
  | escape he _ ih => exact .escape he ih
  | plain hback _ _ _ ih => exact .plain hback ih

theorem quoted (h : EscapedAs quote s w) : Quoted quote (w ++ [quote]) := by
  induction h with
  | nil => exact .close
  | escape _ _ ih => exact .escape ih
  | plain hback _ hquote _ ih => exact .plain hback hquote ih

theorem denotes (h : EscapedAs quote s w) (hquote : quote = '"' ∨ quote = '\'') :
    Denotes (quote :: (w ++ [quote])) (.string (String.ofList s)) :=
  .string hquote h.quoted h.standsFor

end EscapedAs

/-- A character is escaped by a backslash, or it needs no escape. -/
theorem escape_cases (c : Char) : (∃ e, escape c = ['\\', e] ∧ Escape e c) ∨
    escape c = [c] ∧ c ≠ '\\' ∧ c ≠ '\n' ∧ c ≠ '"' := by
  unfold escape
  split
  · exact .inl ⟨_, rfl, .backslash⟩
  · exact .inl ⟨_, rfl, .double⟩
  · exact .inl ⟨_, rfl, .feed⟩
  · exact .inl ⟨_, rfl, .tab⟩
  · exact .inl ⟨_, rfl, .return_⟩
  · rename_i hbackslash hquote hfeed _ _
    exact .inr ⟨rfl, hbackslash, hfeed, hquote⟩

theorem escapedAs_escape (s : List Char) : EscapedAs '"' s (s.flatMap escape) := by
  induction s with
  | nil => exact .nil
  | cons c s ih =>
    rw [List.flatMap_cons]
    rcases escape_cases c with ⟨e, he, hc⟩ | ⟨he, hbackslash, hfeed, hquote⟩
    · rw [he]
      exact .escape hc ih
    · rw [he]
      exact .plain hbackslash hfeed hquote ih

theorem isDigit_of_mem_toDigits {n : Nat} {c : Char} (h : c ∈ Nat.toDigits 10 n) :
    isDigit c = true := by
  have hc := Nat.isDigit_of_mem_toDigits (by decide) (by decide) h
  simp only [Char.isDigit, Bool.and_eq_true, decide_eq_true_eq] at hc
  simp only [isDigit, Bool.and_eq_true, decide_eq_true_eq]
  exact hc

theorem denotes_toDigits {n : Int64} (hn : 0 ≤ n.toInt) :
    Denotes (Nat.toDigits 10 n.toInt.toNat) (.number n) := by
  have hdigits : ∀ c ∈ Nat.toDigits 10 n.toInt.toNat, isDigit c = true :=
    fun c hc => isDigit_of_mem_toDigits hc
  have hvalue : Number.ofDigits (Nat.toDigits 10 n.toInt.toNat) = n.toInt.toNat :=
    Nat.ofDigitChars_ten_toDigits
  cases hcs : Nat.toDigits 10 n.toInt.toNat with
  | nil => exact absurd hcs Nat.toDigits_ne_nil
  | cons c w =>
    rw [hcs] at hdigits hvalue
    refine .number hdigits ?_
    rw [hvalue, Int.toNat_of_nonneg hn]

end Lexeme

/-! Rows of tokens -/

namespace Kind

variable {k k' : Kind} {rest : List Char} {ks : List Kind}

/-- What is written for a token denotes it. -/
theorem IsLexeme.denotes (hk : k.IsLexeme) : Denotes k.spelling k := by
  cases k with
  | keyword k => exact .keyword
  | word name =>
    have hfree : ∀ k : Keyword, k.text.toList ≠ name.toList := by
      intro k hname
      have hnone := hk.2
      rw [← String.toList_inj.1 hname, Keyword.ofText?_text] at hnone
      cases hnone
    have hword := Denotes.word hk.1 hfree
    rwa [String.ofList_toList] at hword
  | number n => exact denotes_toDigits hk
  | string s =>
    have hstring := (escapedAs_escape s.toList).denotes (.inl rfl)
    rwa [String.ofList_toList] at hstring
  | equal => exact .double .equal
  | notEqual => exact .double .notEqual
  | lessOrEqual => exact .double .lessOrEqual
  | greaterOrEqual => exact .double .greaterOrEqual
  | symbol c => exact .symbol hk
  | comment | newline | indent | dedent | eof => exact hk.elim

theorem spelling_ne_nil (hk : k.IsLexeme) : k.spelling ≠ [] := hk.denotes.matched.1

/-- What is written for a token begins a line with content. -/
theorem IsLexeme.head_spelling (hk : k.IsLexeme) :
    ∃ c w, k.spelling = c :: w ∧ Text.isBlank c = false ∧ c ≠ '#' := by
  have hdenotes := hk.denotes
  obtain ⟨c, w, hcs⟩ := List.exists_cons_of_ne_nil hdenotes.matched.1
  rw [hcs] at hdenotes
  exact ⟨c, w, hcs, hdenotes.head⟩

theorem stopsAt_space (k : Kind) : k.stopsAt ' ' = true := by
  cases k with
  | symbol c => exact Bool.or_true _
  | _ => rfl

/-- A token ends where another one joins it. -/
theorem stopsAt_of_joins (h : k.joins k' = true) : ∀ d ∈ k'.spelling.head?, k.stopsAt d = true := by
  unfold joins at h
  split at h
  · exact fun d _ => rfl
  · exact fun d _ => rfl
  · rintro d ⟨⟩
    cases k with
    | symbol c => exact Bool.or_true _
    | _ => rfl
  · rintro d ⟨⟩
    cases k with
    | symbol c => exact Bool.or_true _
    | _ => rfl
  · rintro d ⟨⟩
    cases k with
    | symbol c => exact Bool.or_true _
    | _ => rfl
  · rintro d ⟨⟩
    cases k with
    | symbol c => exact Bool.or_true _
    | _ => rfl
  · rintro d ⟨⟩
    rfl
  · cases h

/-- The first token of a row ends in front of the others, or of a space and the others. -/
theorem write_cons (hks : ∀ k ∈ ks, k.IsLexeme) (k : Kind) :
    ∃ rest, write (k :: ks) = k.spelling ++ rest ∧ k.Stops rest ∧
      (rest = write ks ∨ rest = ' ' :: write ks) := by
  cases ks with
  | nil => exact ⟨[], (List.append_nil _).symm, k.stops_nil, .inl rfl⟩
  | cons k' ks =>
    refine ⟨_, rfl, ?_, ?_⟩
    · by_cases hjoins : k.joins k' = true
      · have hne := spelling_ne_nil (hks k' List.mem_cons_self)
        have hhead : (write (k' :: ks)).head? = k'.spelling.head? := by
          cases ks with
          | nil => rfl
          | cons k'' ks =>
            rw [write]
            cases hs : k'.spelling with
            | nil => exact absurd hs hne
            | cons c w => rfl
        intro d hd
        rw [if_pos hjoins, List.nil_append, hhead] at hd
        exact stopsAt_of_joins hjoins d hd
      · rw [if_neg hjoins]
        rintro d ⟨⟩
        exact k.stopsAt_space
    · split
      · exact .inl rfl
      · exact .inr rfl

end Kind

namespace Line

/-- A row of tokens is read as it was written. -/
theorem reads_write {ks : List Kind} (hks : ∀ k ∈ ks, k.IsLexeme) (number column : Nat) :
    ∃ ts, Reads number column (Kind.write ks) ts ∧ ts.map (·.kind) = ks := by
  induction ks generalizing column with
  | nil => exact ⟨[], .done, rfl⟩
  | cons k ks ih =>
    obtain ⟨hk, hks⟩ := List.forall_mem_cons.1 hks
    obtain ⟨rest, hwrite, hstops, hrest⟩ := Kind.write_cons hks k
    have hmore : ∃ ts, Reads number (column + k.spelling.length) rest ts ∧
        ts.map (·.kind) = ks := by
      rcases hrest with rfl | rfl
      · exact ih hks _
      · obtain ⟨ts, hts, hkinds⟩ := ih hks (column + k.spelling.length + 1)
        exact ⟨ts, .gap (by decide) hts, hkinds⟩
    obtain ⟨ts, hts, hkinds⟩ := hmore
    rw [hwrite]
    refine ⟨_, .token hk.denotes hstops hts, ?_⟩
    rw [List.map_cons, hkinds]

end Line

end ClassLang
