import ClassLang.Proofs.Grammar.Spelling
import ClassLang.Proofs.Token.Lexeme
import Mathlib.Data.List.Chain

/-!
What a spelling covers. An expression covers no marks of structure; a statement closes every level
that it opens, and its last token ends a line or a block. So the marks tell where in a text that is
laid out a phrase may end.
-/

namespace ClassLang

/-- Holds of the tokens that mark lines, levels and the end. -/
def Kind.isMark : Kind → Bool
  | .newline | .indent | .dedent | .eof => true
  | _ => false

/-- Holds of the tokens with which a statement may end. -/
def Kind.isEnd : Kind → Bool
  | .newline | .dedent => true
  | _ => false

theorem Kind.isMark_of_isEnd {k : Kind} (h : k.isEnd = true) : k.isMark = true := by
  cases k <;> first | rfl | cases h

theorem Kind.IsLexeme.isMark {k : Kind} (h : k.IsLexeme) : k.isMark = false := by
  cases k <;> first | rfl | cases h

namespace Token

theorem ne_of_isMark {t : Token} {k : Kind} (h : t.kind.isMark = false) (hk : k.isMark = true) :
    t.kind ≠ k := by
  rintro rfl
  rw [h] at hk
  cases hk

/-- The number of levels that tokens open. -/
def opened (ts : List Token) : Nat := ts.countP (·.kind == .indent)

/-- The number of levels that tokens close. -/
def closed (ts : List Token) : Nat := ts.countP (·.kind == .dedent)

@[simp] theorem opened_nil : opened [] = 0 := rfl

@[simp] theorem closed_nil : closed [] = 0 := rfl

@[simp] theorem opened_append (ts us : List Token) :
    opened (ts ++ us) = opened ts + opened us := List.countP_append

@[simp] theorem closed_append (ts us : List Token) :
    closed (ts ++ us) = closed ts + closed us := List.countP_append

theorem opened_cons (t : Token) (ts : List Token) :
    opened (t :: ts) = opened ts + if t.kind = .indent then 1 else 0 := by
  simp [opened, List.countP_cons]

theorem closed_cons (t : Token) (ts : List Token) :
    closed (t :: ts) = closed ts + if t.kind = .dedent then 1 else 0 := by
  simp [closed, List.countP_cons]

end Token

namespace Grammar

open Token

variable {known : String → Bool} {inMethod : Bool} {ts rest us : List Token}

/-- Holds of tokens without marks of structure. -/
def Markless (us : List Token) : Prop := ∀ t ∈ us, t.kind.isMark = false

theorem Markless.nil : Markless [] := by
  intro t ht
  cases ht

theorem Markless.cons {t : Token} (h : t.kind.isMark = false) (hs : Markless us) :
    Markless (t :: us) := by
  intro u hu
  rcases List.mem_cons.1 hu with rfl | hu
  · exact h
  · exact hs u hu

theorem Markless.append {vs : List Token} (h : Markless us) (h' : Markless vs) :
    Markless (us ++ vs) := by
  intro t ht
  rcases List.mem_append.1 ht with ht | ht
  · exact h t ht
  · exact h' t ht

theorem Markless.single {t : Token} (h : t.kind.isMark = false) : Markless [t] := .cons h .nil

theorem Markless.opened (h : Markless us) : opened us = 0 := by
  rw [Token.opened, List.countP_eq_zero]
  intro t ht hk
  rw [beq_iff_eq] at hk
  have := h t ht
  rw [hk] at this
  cases this

theorem Markless.closed (h : Markless us) : closed us = 0 := by
  rw [Token.closed, List.countP_eq_zero]
  intro t ht hk
  rw [beq_iff_eq] at hk
  have := h t ht
  rw [hk] at this
  cases this

theorem isMark_of_eq {t : Token} {k : Kind} (h : t.kind = k) (hk : k.isMark = false) :
    t.kind.isMark = false := h ▸ hk

theorem isMark_of_literal? {k : Kind} {value : Literal} (h : literal? k = some value) :
    k.isMark = false := by
  cases k <;> first | rfl | cases h

theorem isMark_of_comparison? {k : Kind} {op : Comparison} (h : comparison? k = some op) :
    k.isMark = false := by
  cases k <;> first | rfl | cases h

theorem isMark_of_operator? {l : Level} {k : Kind} {build : Expr → Expr → Pos → Expr}
    (h : l.operator? k = some build) : k.isMark = false := by
  cases k with
  | newline | indent | dedent | eof => cases l <;> cases h
  | _ => rfl

/-- Tokens without marks stand in front of what is left. -/
def Covers (ts rest : List Token) : Prop := ∃ us, ts = us ++ rest ∧ Markless us

theorem Covers.refl : Covers ts ts := ⟨[], rfl, .nil⟩

theorem Covers.cons {t : Token} (h : t.kind.isMark = false) (hs : Covers ts rest) :
    Covers (t :: ts) rest := by
  obtain ⟨us, rfl, hus⟩ := hs
  exact ⟨t :: us, rfl, .cons h hus⟩

theorem Covers.trans {mid : List Token} (h : Covers ts mid) (h' : Covers mid rest) :
    Covers ts rest := by
  obtain ⟨us, rfl, hus⟩ := h
  obtain ⟨vs, rfl, hvs⟩ := h'
  exact ⟨us ++ vs, (List.append_assoc ..).symm, hus.append hvs⟩

theorem SpellsFields.covers {names : List String} (h : SpellsFields ts names rest) :
    Covers ts rest := by
  induction h with
  | nil => exact .refl
  | cons ht hu _ ih => exact .cons (isMark_of_eq ht rfl) (.cons (isMark_of_eq hu rfl) ih)

mutual

theorem Spells.covers {l : Level} {ts rest : List Token} {e : Expr} :
    Spells known l ts e rest → Covers ts rest
  | .literal h => .cons (isMark_of_literal? h) .refl
  | .paren ht he hu =>
    .cons (isMark_of_eq ht rfl) (he.covers.trans (.cons (isMark_of_eq hu rfl) .refl))
  | .conversion ht hu ha => .cons (isMark_of_eq ht rfl) (.cons (isMark_of_eq hu rfl) ha.covers)
  | .construction ht _ _ hu ha =>
    .cons (isMark_of_eq ht rfl) (.cons (isMark_of_eq hu rfl) ha.covers)
  | .dottedCall ht hf hu ha =>
    .cons (isMark_of_eq ht rfl) (hf.covers.trans (.cons (isMark_of_eq hu rfl) ha.covers))
  | .methodCall he ht hu hv ha =>
    he.covers.trans (.cons (isMark_of_eq ht rfl)
      (.cons (isMark_of_eq hu rfl) (.cons (isMark_of_eq hv rfl) ha.covers)))
  | .name ht hf => .cons (isMark_of_eq ht rfl) hf.covers
  | .minus ht he => .cons (isMark_of_eq ht rfl) he.covers
  | .compare hl hop hr => hl.covers.trans (.cons (isMark_of_comparison? hop) hr.covers)
  | .negation ht he => .cons (isMark_of_eq ht rfl) he.covers
  | .row hl hop hr _ => hl.covers.trans (.cons (isMark_of_operator? hop) hr.covers)
  | .operand _ he => he.covers

theorem SpellsArgs.covers {ts rest : List Token} {es : List Expr} :
    SpellsArgs known ts es rest → Covers ts rest
  | .nil ht => .cons (isMark_of_eq ht rfl) .refl
  | .list hs ht => hs.covers.trans (.cons (isMark_of_eq ht rfl) .refl)

theorem SpellsList.covers {ts rest : List Token} {es : List Expr} :
    SpellsList known ts es rest → Covers ts rest
  | .one he => he.covers
  | .cons he ht hs => he.covers.trans (.cons (isMark_of_eq ht rfl) hs.covers)

end

theorem SpellsSimple.covers {st : Stmt} (h : SpellsSimple known inMethod ts st rest) :
    Covers ts rest := by
  cases h with
  | giveNone _ ht => exact .cons (isMark_of_eq ht rfl) .refl
  | give _ ht he => exact .cons (isMark_of_eq ht rfl) he.covers
  | printNone ht => exact .cons (isMark_of_eq ht rfl) .refl
  | print ht hs => exact .cons (isMark_of_eq ht rfl) hs.covers
  | assign hp ht he => exact hp.covers.trans (.cons (isMark_of_eq ht rfl) he.covers)
  | expr he => exact he.covers

/-- Tokens that close so many levels more than they open, and end as a statement does, stand in
front of what is left. -/
def Spans (n : Nat) (ts rest : List Token) : Prop :=
  ∃ us t, ts = us ++ t :: rest ∧ t.kind.isEnd = true ∧ closed (us ++ [t]) = opened (us ++ [t]) + n

theorem Covers.spans {n : Nat} {mid : List Token} (h : Covers ts mid) (h' : Spans n mid rest) :
    Spans n ts rest := by
  obtain ⟨us, rfl, hus⟩ := h
  obtain ⟨vs, t, rfl, ht, hn⟩ := h'
  refine ⟨us ++ vs, t, (List.append_assoc ..).symm, ht, ?_⟩
  rw [List.append_assoc, closed_append, opened_append, hus.closed, hus.opened]
  omega

theorem Spans.trans {m n : Nat} {mid : List Token} (h : Spans m ts mid) (h' : Spans n mid rest) :
    Spans (m + n) ts rest := by
  obtain ⟨us, t, rfl, -, hm⟩ := h
  obtain ⟨vs, u, rfl, hu, hn⟩ := h'
  refine ⟨us ++ t :: vs, u, by simp, hu, ?_⟩
  have hsplit : us ++ t :: vs ++ [u] = us ++ [t] ++ (vs ++ [u]) := by simp
  rw [hsplit, closed_append, opened_append, hm, hn]
  omega

theorem Spans.newline {t : Token} (h : t.kind = .newline) : Spans 0 (t :: rest) rest :=
  ⟨[], t, rfl, by rw [h]; rfl, by simp [opened_cons, closed_cons, h]⟩

theorem Spans.dedent {t : Token} (h : t.kind = .dedent) : Spans 1 (t :: rest) rest :=
  ⟨[], t, rfl, by rw [h]; rfl, by simp [opened_cons, closed_cons, h]⟩

/-- A level that is opened in front is closed later. -/
theorem Spans.indent {n : Nat} {t : Token} (h : t.kind = .indent) (hs : Spans (n + 1) ts rest) :
    Spans n (t :: ts) rest := by
  obtain ⟨us, u, rfl, hu, hn⟩ := hs
  refine ⟨t :: us, u, rfl, hu, ?_⟩
  rw [List.cons_append, closed_cons, opened_cons, hn, h]
  simp
  omega

mutual

theorem SpellsStmt.spans {ts rest : List Token} {st : Stmt} :
    SpellsStmt known inMethod ts st rest → Spans 0 ts rest
  | .simple hs ht => hs.covers.spans (.newline ht)
  | .branch ht hc hu hs =>
    Covers.spans (.cons (isMark_of_eq ht rfl) (hc.covers.trans (.cons (isMark_of_eq hu rfl) .refl)))
      hs.spans
  | .branchElse ht hc hu hs hv hw hs' =>
    Covers.spans (.cons (isMark_of_eq ht rfl) (hc.covers.trans (.cons (isMark_of_eq hu rfl) .refl)))
      (hs.spans.trans (Covers.spans
        (.cons (isMark_of_eq hv rfl) (.cons (isMark_of_eq hw rfl) .refl)) hs'.spans))

theorem SpellsSuite.spans {ts rest : List Token} {st : Stmt} :
    SpellsSuite known inMethod ts st rest → Spans 0 ts rest
  | .block ht hu hb => (Spans.newline ht).trans (.indent hu hb.spans)

theorem SpellsBlock.spans {ts rest : List Token} {body : List Stmt} :
    SpellsBlock known inMethod ts body rest → Spans 1 ts rest
  | .nil ht => .dedent ht
  | .cons hs hb => hs.spans.trans hb.spans

end

theorem SpellsNames.covers {names : List String} (h : SpellsNames ts names rest) :
    Covers ts rest := by
  induction h with
  | one ht => exact .cons (isMark_of_eq ht rfl) .refl
  | cons ht hu _ ih => exact .cons (isMark_of_eq ht rfl) (.cons (isMark_of_eq hu rfl) ih)

theorem SpellsParams.covers {names : List String} (h : SpellsParams ts names rest) :
    Covers ts rest := by
  cases h with
  | nil ht => exact .cons (isMark_of_eq ht rfl) .refl
  | list hs ht => exact hs.covers.trans (.cons (isMark_of_eq ht rfl) .refl)

theorem SpellsMethods.spans {ms : List Method} (h : SpellsMethods known ts ms rest) :
    Spans 1 ts rest := by
  induction h with
  | nil ht => exact .dedent ht
  | cons ht hu hv hp hw hs _ ih =>
    have head : Covers _ _ := .cons (isMark_of_eq ht rfl) (.cons (isMark_of_eq hu rfl)
      (.cons (isMark_of_eq hv rfl) (hp.covers.trans (.cons (isMark_of_eq hw rfl) .refl))))
    exact (head.spans hs.spans).trans ih

theorem SpellsParent.covers {classes : ClassTable} {parent : Option Class}
    (h : SpellsParent classes ts parent rest) : Covers ts rest := by
  cases h with
  | none => exact .refl
  | some ht hu hv =>
    exact .cons (isMark_of_eq ht rfl) (.cons (isMark_of_eq hu rfl) (.cons (isMark_of_eq hv rfl) .refl))

theorem SpellsClass.spans {classes : ClassTable} {c : Class} (h : SpellsClass classes ts c rest) :
    Spans 0 ts rest := by
  cases h with
  | intro ht _ hp hu hv hw hm =>
    exact Covers.spans (.cons (isMark_of_eq ht rfl)
      (hp.covers.trans (.cons (isMark_of_eq hu rfl) .refl)))
      ((Spans.newline hv).trans (.indent hw hm.spans))

/-! Texts that are laid out -/

/-- The rest of a text, so many levels deep: its last token ends a line or a block, and it closes
the levels that are open. -/
structure Laid (depth : Nat) (ts : List Token) : Prop where
  ended : ∀ t ∈ ts.getLast?, t.kind.isEnd = true
  balanced : closed ts = opened ts + depth

namespace Laid

variable {d n : Nat} {t : Token}

theorem nil : Laid 0 [] := ⟨by simp, rfl⟩

theorem ended_of_append (h : Laid d (us ++ ts)) : ∀ t ∈ ts.getLast?, t.kind.isEnd = true := by
  intro t ht
  apply h.ended
  rw [List.getLast?_append]
  rw [Option.mem_def] at ht
  rw [ht]
  rfl

/-- An expression is no text to the end. -/
theorem ne_nil_of_covers (h : Laid d ts) (hne : ts ≠ []) (hc : Covers ts rest) : rest ≠ [] := by
  rintro rfl
  obtain ⟨us, rfl, hus⟩ := hc
  rw [List.append_nil] at h hne
  have hlast := h.ended _ (List.getLast?_eq_some_getLast hne)
  have hmark := hus _ (List.getLast_mem hne)
  rw [Kind.isMark_of_isEnd hlast] at hmark
  cases hmark

theorem covers (h : Laid d ts) (hc : Covers ts rest) : Laid d rest := by
  obtain ⟨us, rfl, hus⟩ := hc
  refine ⟨h.ended_of_append, ?_⟩
  have hb := h.balanced
  rw [closed_append, opened_append, hus.closed, hus.opened] at hb
  omega

theorem spans (h : Laid (d + n) ts) (hs : Spans n ts rest) : Laid d rest := by
  obtain ⟨us, t, rfl, -, hn⟩ := hs
  have hsplit : us ++ t :: rest = us ++ [t] ++ rest := by simp
  rw [hsplit] at h
  refine ⟨h.ended_of_append, ?_⟩
  have hb := h.balanced
  rw [closed_append, opened_append, hn] at hb
  omega

theorem indent (h : Laid d (t :: ts)) (ht : t.kind = .indent) : Laid (d + 1) ts := by
  refine ⟨ended_of_append (show Laid d ([t] ++ ts) from h), ?_⟩
  have hb := h.balanced
  rw [closed_cons, opened_cons, ht] at hb
  simp at hb
  omega

theorem newline (h : Laid d (t :: ts)) (ht : t.kind = .newline) : Laid d ts :=
  h.spans (n := 0) (.newline ht)

/-- A level is left before the end. -/
theorem ne_nil (h : Laid (d + 1) ts) : ts ≠ [] := by
  rintro rfl
  cases h.balanced

end Laid

/-- No newline stands behind the end of a line or a block, and no level is closed as soon as it is
opened. -/
def Spaced (ts : List Token) : Prop :=
  ts.IsChain fun t u =>
    (t.kind.isEnd = true → u.kind ≠ .newline) ∧ (t.kind = .indent → u.kind ≠ .dedent)

namespace Spaced

variable {n : Nat} {t u : Token}

/-- No newline begins what follows a statement. -/
theorem head_ne_newline (h : Spaced ts) (hs : Spans n ts (t :: rest)) : t.kind ≠ .newline := by
  obtain ⟨us, u, rfl, hu, -⟩ := hs
  exact (List.isChain_append_cons_cons.1 h).2.1.1 hu

/-- No dedent stands behind an indent. -/
theorem ne_dedent (h : Spaced (t :: u :: ts)) (ht : t.kind = .indent) : u.kind ≠ .dedent :=
  (List.isChain_cons_cons.1 h).1.2 ht

theorem append_right (h : Spaced (us ++ ts)) : Spaced ts := List.IsChain.right_of_append h

/-- Tokens without a newline, and without an indent or without a dedent, are spaced. -/
theorem of_forall (h : ∀ t ∈ ts, t.kind ≠ .newline)
    (h' : (∀ t ∈ ts, t.kind ≠ .indent) ∨ ∀ t ∈ ts, t.kind ≠ .dedent) : Spaced ts := by
  induction ts with
  | nil => exact .nil
  | cons t ts ih =>
    obtain ⟨-, hts⟩ := List.forall_mem_cons.1 h
    have hrest : (∀ t ∈ ts, t.kind ≠ .indent) ∨ ∀ t ∈ ts, t.kind ≠ .dedent :=
      h'.imp (fun h => (List.forall_mem_cons.1 h).2) fun h => (List.forall_mem_cons.1 h).2
    refine List.isChain_cons.2 ⟨?_, ih hts hrest⟩
    intro u hu
    have hmem := List.mem_of_mem_head? hu
    refine ⟨fun _ => hts u hmem, fun ht => ?_⟩
    rcases h' with h' | h'
    · exact absurd ht (h' t List.mem_cons_self)
    · exact h' u (List.mem_cons_of_mem t hmem)

end Spaced

/-- What is left of a text that was read from lines: it is spaced, and its tokens are marks or such
as a line can hold. -/
structure Lexed (ts : List Token) : Prop where
  spaced : Spaced ts
  isLexeme : ∀ t ∈ ts, t.kind.isMark = false → t.kind.IsLexeme

namespace Lexed

variable {n : Nat} {t : Token}

theorem append_right (h : Lexed (us ++ ts)) : Lexed ts :=
  ⟨h.spaced.append_right, fun t ht => h.isLexeme t (List.mem_append_right us ht)⟩

theorem tail (h : Lexed (t :: ts)) : Lexed ts := append_right (show Lexed ([t] ++ ts) from h)

theorem covers (h : Lexed ts) (hc : Covers ts rest) : Lexed rest := by
  obtain ⟨us, rfl, -⟩ := hc
  exact h.append_right

theorem spans (h : Lexed ts) (hs : Spans n ts rest) : Lexed rest := by
  obtain ⟨us, t, rfl, -, -⟩ := hs
  exact h.append_right.tail

theorem head (h : Lexed (t :: ts)) (ht : t.kind.isMark = false) : t.kind.IsLexeme :=
  h.isLexeme t List.mem_cons_self ht

theorem head_of_eq {k : Kind} (h : Lexed (t :: ts)) (ht : t.kind = k) (hk : k.isMark = false) :
    k.IsLexeme := ht ▸ h.head (ht ▸ hk)

end Lexed

end Grammar

end ClassLang
