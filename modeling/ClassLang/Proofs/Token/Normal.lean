import ClassLang.Proofs.Token.Append
import ClassLang.Proofs.Token.Numbered
import ClassLang.Proofs.Token.Scanned
import ClassLang.Proofs.Writing.Text

/-!
Sources in normal form. The tokens of a source are written line by line, with two spaces for each
level that is open and one space between the texts of tokens. What is written has the same tokens,
marks of structure included, because a space ends every token and the level of a line is all that
its marks depend on.
-/

namespace ClassLang

open Lexeme

/-- A line in normal form: its level and the texts of its tokens. -/
structure NormalLine where
  level : Nat
  lexemes : List String
deriving DecidableEq

/-- Texts with a space between each two. -/
def spaced (texts : List String) : List Char := [' '].intercalate (texts.map String.toList)

/-- The text of a line in normal form. -/
def NormalLine.text (l : NormalLine) : List Char :=
  List.replicate (2 * l.level) ' ' ++ spaced l.lexemes

namespace Token

/-- The lines of tokens in normal form, given the level that is open and the texts of the tokens
since the last newline. -/
def normalLines (level : Nat) (front : List String) : List Token → List NormalLine
  | [] => []
  | t :: ts =>
    match t.kind with
    | .indent => normalLines (level + 1) front ts
    | .dedent => normalLines (level - 1) front ts
    | .newline => ⟨level, front⟩ :: normalLines level [] ts
    | .eof => normalLines level front ts
    | _ => normalLines level (front ++ [t.lexeme]) ts

/-- The source of tokens in normal form. -/
def normal (ts : List Token) : String :=
  String.ofList ((normalLines 0 [] ts).flatMap fun l => l.text ++ ['\n'])

/-- What a token is and the text it was read from, its place left out. -/
def face (t : Token) : Kind × String := (t.kind, t.lexeme)

end Token

namespace Line

/-- A line in normal form. -/
def normal (l : Line) : NormalLine := ⟨l.level, l.tokens.map (·.lexeme)⟩

/-- What a line holds, its places left out. -/
def shape (l : Line) : Nat × List (Kind × String) := (l.level, l.tokens.map Token.face)

/-- A line with content, each token of which can be read again from its text. -/
structure Lexical (l : Line) : Prop where
  tokens_ne_nil : l.tokens ≠ []
  denotes : ∀ t ∈ l.tokens, Denotes t.lexeme.toList t.kind
  inline : ∀ t ∈ l.tokens, '\n' ∉ t.lexeme.toList

end Line

variable {number level last column : Nat} {l : Line} {ls ls' : List Line} {t : Token}
  {ts : List Token}

/-! Rows of texts -/

theorem spaced_singleton (text : String) : spaced [text] = text.toList :=
  List.intercalate_singleton

theorem spaced_cons (text next : String) (texts : List String) :
    spaced (text :: next :: texts) = text.toList ++ ' ' :: spaced (next :: texts) := by
  rw [spaced, List.map_cons, List.map_cons, List.intercalate_cons_cons, List.append_assoc]
  rfl

theorem exists_spaced_eq (text : String) (texts : List String) :
    ∃ rest, spaced (text :: texts) = text.toList ++ rest := by
  cases texts with
  | nil => exact ⟨[], by rw [spaced_singleton, List.append_nil]⟩
  | cons next texts => exact ⟨_, spaced_cons text next texts⟩

/-- Tokens are read again where spaces stand between their texts. -/
theorem Line.reads_spaced (h : ∀ t ∈ ts, Denotes t.lexeme.toList t.kind) (number column : Nat) :
    ∃ us, Reads number column (spaced (ts.map (·.lexeme))) us ∧
      us.map Token.face = ts.map Token.face := by
  have hface (t : Token) (pos : Pos) :
      Token.face ⟨t.kind, String.ofList t.lexeme.toList, pos⟩ = t.face := by
    rw [Token.face, String.ofList_toList, Token.face]
  induction ts generalizing column with
  | nil => exact ⟨[], .done, rfl⟩
  | cons t ts ih =>
    obtain ⟨ht, hts⟩ := List.forall_mem_cons.1 h
    cases ts with
    | nil =>
      have hreads : Reads number column (t.lexeme.toList ++ []) _ :=
        .token ht t.kind.stops_nil .done
      rw [List.append_nil] at hreads
      rw [List.map_singleton, spaced_singleton]
      exact ⟨_, hreads, congrArg ([·]) (hface t _)⟩
    | cons u ts =>
      obtain ⟨us, hus, hfaces⟩ := ih hts (column + t.lexeme.toList.length + 1)
      have hstops : t.kind.Stops (' ' :: spaced ((u :: ts).map (·.lexeme))) := by
        rintro d ⟨⟩
        exact t.kind.stopsAt_space
      rw [List.map_cons, List.map_cons, spaced_cons]
      refine ⟨_, .token ht hstops (.gap rfl hus), ?_⟩
      rw [List.map_cons, hface, hfaces]
      rfl

/-- The last character of such a row is that of its last token, which is not blank. -/
theorem exists_getLast?_spaced (hne : ts ≠ []) (h : ∀ t ∈ ts, Denotes t.lexeme.toList t.kind) :
    ∃ d, (spaced (ts.map (·.lexeme))).getLast? = some d ∧ Text.isBlank d = false := by
  induction ts with
  | nil => exact absurd rfl hne
  | cons t ts ih =>
    obtain ⟨ht, hts⟩ := List.forall_mem_cons.1 h
    cases ts with
    | nil =>
      obtain ⟨d, hd, hblank, -⟩ := ht.written.last
      rw [List.map_singleton, spaced_singleton]
      exact ⟨d, hd, hblank⟩
    | cons u ts =>
      obtain ⟨d, hd, hblank⟩ := ih (List.cons_ne_nil u ts) hts
      refine ⟨d, ?_, hblank⟩
      rw [List.map_cons] at hd
      rw [List.map_cons, List.map_cons, spaced_cons, List.getLast?_append, List.getLast?_cons, hd]
      rfl

theorem mem_spaced {texts : List String} {c : Char} (hc : c ∈ spaced texts) :
    c = ' ' ∨ ∃ text ∈ texts, c ∈ text.toList := by
  induction texts with
  | nil => cases hc
  | cons text texts ih =>
    cases texts with
    | nil =>
      rw [spaced_singleton] at hc
      exact .inr ⟨text, List.mem_cons_self, hc⟩
    | cons next texts =>
      rw [spaced_cons, List.mem_append, List.mem_cons] at hc
      obtain hc | rfl | hc := hc
      · exact .inr ⟨text, List.mem_cons_self, hc⟩
      · exact .inl rfl
      · exact (ih hc).imp_right fun ⟨other, hother, hc⟩ =>
          ⟨other, List.mem_cons_of_mem text hother, hc⟩

/-! Lines -/

namespace Line.Lexical

/-- The text of a line in normal form is no more than one line. -/
theorem text_inline (h : l.Lexical) :
    '\n' ∉ l.normal.text ∧ l.normal.text.getLast? ≠ some '\r' := by
  constructor
  · intro hfeed
    rcases List.mem_append.1 hfeed with hfeed | hfeed
    · cases List.eq_of_mem_replicate hfeed
    · obtain hspace | ⟨text, htext, hfeed⟩ := mem_spaced hfeed
      · cases hspace
      · obtain ⟨t, ht, rfl⟩ := List.mem_map.1 htext
        exact h.inline t ht hfeed
  · obtain ⟨d, hd, hblank⟩ := exists_getLast?_spaced h.tokens_ne_nil h.denotes
    have hlast : l.normal.text.getLast? = some d := by
      rw [NormalLine.text, Line.normal, List.getLast?_append, hd, Option.some_or]
    rw [hlast]
    rintro ⟨⟩
    cases hblank

/-- A line in normal form is read as the line. -/
theorem read_text (h : l.Lexical) (number : Nat) :
    ∃ l', Line.read number l.normal.text = .ok (some l') ∧ l'.shape = l.shape := by
  obtain ⟨us, hus, hfaces⟩ := reads_spaced h.denotes number (2 * l.level + 1)
  have hfront : ∃ c cs, spaced (l.tokens.map (·.lexeme)) = c :: cs ∧ Text.isBlank c = false ∧
      c ≠ '#' := by
    obtain ⟨t, ts, hts⟩ := List.exists_cons_of_ne_nil h.tokens_ne_nil
    obtain ⟨rest, hrest⟩ := exists_spaced_eq t.lexeme (ts.map (·.lexeme))
    have ht : Denotes t.lexeme.toList t.kind := h.denotes t (hts ▸ List.mem_cons_self)
    obtain ⟨c, w, hw⟩ := List.exists_cons_of_ne_nil ht.matched.1
    rw [hw] at ht hrest
    exact ⟨c, w ++ rest, by rw [hts, List.map_cons, hrest, List.cons_append], ht.head⟩
  obtain ⟨c, cs, hcs, hblank, hcomment⟩ := hfront
  rw [hcs] at hus
  rw [NormalLine.text, Line.normal, hcs]
  refine ⟨_, read_of_reads hblank hcomment hus, ?_⟩
  rw [shape, hfaces, shape]

end Line.Lexical

theorem Token.exists_readLines_normal (h : ∀ l ∈ ls, l.Lexical) (number : Nat) :
    ∃ ls', readLines number (ls.map fun l => l.normal.text) = .ok ls' ∧
      ls'.map Line.shape = ls.map Line.shape := by
  induction ls generalizing number with
  | nil => exact ⟨[], rfl, rfl⟩
  | cons l ls ih =>
    obtain ⟨hl, hls⟩ := List.forall_mem_cons.1 h
    obtain ⟨l', hread, hshape⟩ := hl.read_text number
    obtain ⟨ls', hreads, hshapes⟩ := ih hls (number + 1)
    refine ⟨l' :: ls', ?_, ?_⟩
    · rw [List.map_cons, readLines, hread, ok_bind, hreads]
      rfl
    · rw [List.map_cons, hshape, hshapes, List.map_cons]

/-- Lines that are read from a source are such lines. -/
theorem Token.lexical_of_readLines {cs : List Char}
    (h : readLines number (Text.sourceLines cs) = .ok ls) : ∀ l ∈ ls, l.Lexical := by
  intro l hl
  obtain ⟨i, text, hi, hread⟩ := exists_of_mem_readLines h hl
  obtain ⟨hreads, -⟩ := Line.reads_of_read hread
  refine ⟨(Line.wellFormed_of_read hread).tokens_ne_nil, fun t ht => (hreads.token_of_mem ht).1,
    fun t ht hfeed => ?_⟩
  exact Text.not_mem_of_mem_sourceLines (List.mem_of_getElem? hi) ((hreads.token_of_mem ht).2 hfeed)

/-! Layouts -/

namespace Token

/-- The tokens of lines depend on the shapes of the lines, their places apart. -/
theorem map_face_layout (last last' level : Nat) (h : ls.map Line.shape = ls'.map Line.shape) :
    (layout last level ls).map face = (layout last' level ls').map face := by
  have hmarks (number number' level next : Nat) : (levelMarks number level next).map face =
      (levelMarks number' level next).map face := by
    simp [levelMarks, face, mark]
  induction ls generalizing ls' level with
  | nil =>
    cases ls' with
    | nil =>
      rw [layout, layout, List.map_append, List.map_append, hmarks last last']
      rfl
    | cons l' ls' => cases h
  | cons l ls ih =>
    cases ls' with
    | nil => cases h
    | cons l' ls' =>
      rw [List.map_cons, List.map_cons, List.cons.injEq] at h
      obtain ⟨hshape, hshapes⟩ := h
      obtain ⟨hlevel, hfaces⟩ := Prod.mk.inj hshape
      rw [layout, layout, Line.group, Line.group, hlevel]
      simp only [List.map_append, hmarks l.number l'.number, hfaces, ih _ hshapes]
      rfl

theorem normalLines_levelMarks (number level next : Nat) (front : List String) (ts : List Token) :
    normalLines level front (levelMarks number level next ++ ts) = normalLines next front ts := by
  have hindents (n level : Nat) (ts : List Token) : normalLines level front
      (List.replicate n (.mark .indent ⟨number, 1⟩) ++ ts) = normalLines (level + n) front ts := by
    induction n generalizing level with
    | zero => rfl
    | succ n ih =>
      rw [List.replicate_succ, List.cons_append, normalLines]
      exact (ih (level + 1)).trans (by rw [Nat.add_assoc, Nat.add_comm 1])
  have hdedents (n level : Nat) (ts : List Token) : normalLines level front
      (List.replicate n (.mark .dedent ⟨number, 1⟩) ++ ts) = normalLines (level - n) front ts := by
    induction n generalizing level with
    | zero => rfl
    | succ n ih =>
      rw [List.replicate_succ, List.cons_append, normalLines]
      exact (ih (level - 1)).trans (by rw [Nat.sub_sub, Nat.add_comm 1])
  have hnext : level + (next - level) - (level - next) = next := by omega
  rw [levelMarks, List.append_assoc, hindents, hdedents, hnext]

theorem normalLines_append (h : ∀ t ∈ ts, t.kind.isMark = false) (level : Nat)
    (front : List String) (us : List Token) :
    normalLines level front (ts ++ us) = normalLines level (front ++ ts.map (·.lexeme)) us := by
  induction ts generalizing front with
  | nil => rw [List.map_nil, List.append_nil, List.nil_append]
  | cons t ts ih =>
    obtain ⟨ht, hts⟩ := List.forall_mem_cons.1 h
    have hfirst : normalLines level front (t :: (ts ++ us)) =
        normalLines level (front ++ [t.lexeme]) (ts ++ us) := by
      rw [normalLines]
      split <;> first | rfl | simp_all [Kind.isMark]
    rw [List.cons_append, hfirst, ih hts, List.map_cons, List.append_assoc, List.singleton_append]

/-- The lines of a layout in normal form are its lines in normal form. -/
theorem normalLines_layout (h : ∀ l ∈ ls, l.WellFormed) (last level : Nat) :
    normalLines level [] (layout last level ls) = ls.map Line.normal := by
  induction ls generalizing level with
  | nil =>
    rw [layout, normalLines_levelMarks]
    rfl
  | cons l ls ih =>
    obtain ⟨hl, hls⟩ := List.forall_mem_cons.1 h
    rw [layout, Line.group, List.append_assoc, List.append_assoc, normalLines_levelMarks,
      normalLines_append hl.markless, List.nil_append, List.singleton_append, normalLines]
    exact congrArg (l.normal :: ·) (ih hls l.level)

theorem normal_layout (h : ∀ l ∈ ls, l.WellFormed) (last : Nat) : normal (layout last 0 ls) =
    String.ofList ((ls.map fun l => l.normal.text).flatMap (· ++ ['\n'])) := by
  rw [normal, normalLines_layout h, List.flatMap_map, List.flatMap_map]

/-- A line in normal form depends on the shape of the line. -/
theorem map_normal_of_shape (h : ls.map Line.shape = ls'.map Line.shape) :
    ls.map Line.normal = ls'.map Line.normal := by
  have hshape (ls : List Line) : ls.map Line.normal =
      (ls.map Line.shape).map fun s => ⟨s.1, s.2.map Prod.snd⟩ := by
    simp [Line.normal, Line.shape, face]
  rw [hshape, hshape, h]

/-- The tokens of a source, written in normal form, are read again, in the same order and each as
the same kind from the same text, marks of structure included. Written once more, they are the same
source. -/
theorem ofSource_normal {source : String} (h : ofSource source = .ok ts) :
    ∃ us, ofSource (normal ts) = .ok us ∧ us.map face = ts.map face ∧ normal us = normal ts := by
  obtain ⟨ls, hls, rfl⟩ := ofSource_eq_ok.1 h
  generalize (Text.sourceLines source.toList).length = last
  have hlexical := lexical_of_readLines hls
  obtain ⟨ls', hls', hshapes⟩ := exists_readLines_normal hlexical 1
  have hlines : Text.sourceLines (normal (layout last 0 ls)).toList =
      (ls.map fun l => l.normal.text) ++ [[]] := by
    rw [normal_layout (wellFormed_of_readLines hls), String.toList_ofList]
    exact Text.sourceLines_flatMap (List.forall_mem_map.2 fun l hl => (hlexical l hl).text_inline)
  have hread : readLines 1 (Text.sourceLines (normal (layout last 0 ls)).toList) = .ok ls' := by
    rw [hlines, readLines_concat_nil, hls']
  refine ⟨_, ofSource_eq_ok.2 ⟨ls', hread, rfl⟩, map_face_layout _ _ 0 hshapes, ?_⟩
  rw [normal, normal, normalLines_layout (wellFormed_of_readLines hread),
    normalLines_layout (wellFormed_of_readLines hls), map_normal_of_shape hshapes]

/-- A source that is not in normal form: it has two blocks, empty lines and comments, no spaces
where there could be some and a tab where there should be one. -/
def denseSource : String := "def f(a):\r\n\n    if a<=1:#(\n      print\t'#\\'' + a\nf(-1)"

theorem ofSource_normal_denseSource : ∃ ts us, ofSource denseSource = .ok ts ∧
    ofSource (normal ts) = .ok us ∧ us.map face = ts.map face ∧ normal us = normal ts := by
  obtain ⟨ts, hts⟩ := exists_eq_ok (by decide +kernel : (ofSource denseSource).isOk = true)
  obtain ⟨us, hus⟩ := ofSource_normal hts
  exact ⟨ts, us, hts, hus⟩

example : (ofSource denseSource).map normal =
    .ok "def f ( a ) :\n    if a <= 1 :\n      print '#\\'' + a\nf ( - 1 )\n" := by
  rfl

end Token

end ClassLang
