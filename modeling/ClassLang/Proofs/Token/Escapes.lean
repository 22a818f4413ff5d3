import ClassLang.Proofs.Token.Denotation
import Mathlib.Computability.Language

/-!
The escapes of a string. Between its quotes a string falls into pieces from the left, each of them
one character or a backslash with the character behind it. The pattern that finds the end of the
string and the resolution of its escapes see the same pieces, so no backslash is left over at the
end, and what cannot be resolved is an escape that there is not.
-/

namespace ClassLang.Lexeme

open scoped Computability

/-- A piece of what stands between two quotes: a character by itself, or the character behind a
backslash. -/
inductive Piece where
  | plain (c : Char)
  | escape (e : Char)
  deriving DecidableEq, Repr

/-- Holds of a piece and the character that it stands for. -/
inductive Piece.Means : Piece → Char → Prop where
  | plain {c : Char} : Means (.plain c) c
  | escape {e c : Char} : Escape e c → Means (.escape e) c

/-- Holds of a text and the pieces into which it falls from the left: a backslash takes the next
character with it. -/
inductive FallsInto : List Char → List Piece → Prop where
  | nil : FallsInto [] []
  | plain {c : Char} {cs : List Char} {ps : List Piece} :
      c ≠ '\\' → FallsInto cs ps → FallsInto (c :: cs) (.plain c :: ps)
  | escape {e : Char} {cs : List Char} {ps : List Piece} :
      FallsInto cs ps → FallsInto ('\\' :: e :: cs) (.escape e :: ps)

/-- Holds of pieces and the character of the first escape among them that stands for nothing. -/
def FirstOffence (ps : List Piece) (e : Char) : Prop :=
  ∃ front rest, ps = front ++ .escape e :: rest ∧ (∀ p ∈ front, ∃ c, p.Means c) ∧ ∀ c, ¬ Escape e c

/-- The characters that may stand behind a backslash. -/
def escapes : List Char := ['n', 't', 'r', '"', '\'', '\\']

/-- The characters of a string that stand by themselves. -/
def plainPattern (quote : Char) : Language Char := {w | ∃ c, c ≠ quote ∧ c ≠ '\\' ∧ w = [c]}

/-- A backslash with any character of its line. -/
def escapePattern : Language Char := {w | ∃ e, e ≠ '\n' ∧ w = ['\\', e]}

/-- The pattern of the strings in one kind of quote. -/
def stringPattern (quote : Char) : Language Char :=
  {[quote]} * (plainPattern quote + escapePattern)∗ * {[quote]}

variable {quote c e : Char} {cs w : List Char} {p : Piece} {ps : List Piece}

theorem mem_escapes_iff : e ∈ escapes ↔ ∃ c, Escape e c := by
  constructor
  · intro h
    simp only [escapes, List.mem_cons, List.not_mem_nil, or_false] at h
    obtain rfl | rfl | rfl | rfl | rfl | rfl := h
    exacts [⟨_, .feed⟩, ⟨_, .tab⟩, ⟨_, .return_⟩, ⟨_, .double⟩, ⟨_, .single⟩, ⟨_, .backslash⟩]
  · rintro ⟨c, hc⟩
    cases hc <;> decide

/-! Resolving pieces -/

namespace FallsInto

/-- A text falls into pieces in one way only. -/
theorem unique {qs : List Piece} (h : FallsInto cs ps) (h' : FallsInto cs qs) : qs = ps := by
  induction h generalizing qs with
  | nil =>
    cases h'
    rfl
  | plain hc _ ih =>
    cases h' with
    | plain _ h' => rw [ih h']
    | escape => exact absurd rfl hc
  | escape _ ih =>
    cases h' with
    | plain hc => exact absurd rfl hc
    | escape h' => rw [ih h']

/-- A text stands for another one where its pieces stand for the characters of that one in turn. -/
theorem standsFor_iff {s : List Char} (h : FallsInto cs ps) :
    StandsFor cs s ↔ List.Forall₂ Piece.Means ps s := by
  constructor
  · intro hs
    induction hs generalizing ps with
    | nil =>
      cases h
      exact .nil
    | escape he _ ih =>
      cases h with
      | plain hc => exact absurd rfl hc
      | escape h => exact .cons (.escape he) (ih h)
    | plain hc _ ih =>
      cases h with
      | plain _ h => exact .cons .plain (ih h)
      | escape => exact absurd rfl hc
  · intro hs
    induction h generalizing s with
    | nil =>
      cases hs
      exact .nil
    | plain hc _ ih =>
      cases hs with
      | cons hmeans hs =>
        cases hmeans
        exact .plain hc (ih hs)
    | escape _ ih =>
      cases hs with
      | cons hmeans hs =>
        cases hmeans with
        | escape he => exact .escape he (ih hs)

end FallsInto

theorem firstOffence_cons_iff {c : Char} (h : p.Means c) :
    FirstOffence (p :: ps) e ↔ FirstOffence ps e := by
  constructor
  · rintro ⟨front, rest, heq, hfront, he⟩
    cases front with
    | nil =>
      cases heq
      cases h with
      | escape hc => exact absurd hc (he c)
    | cons q front =>
      cases heq
      exact ⟨front, rest, rfl, fun p hp => hfront p (List.mem_cons_of_mem _ hp), he⟩
  · rintro ⟨front, rest, rfl, hfront, he⟩
    exact ⟨p :: front, rest, rfl, List.forall_mem_cons.2 ⟨⟨c, h⟩, hfront⟩, he⟩

theorem firstOffence_escape_iff {d : Char} (h : ∀ c, ¬ Escape d c) :
    FirstOffence (.escape d :: ps) e ↔ e = d := by
  constructor
  · rintro ⟨front, rest, heq, hfront, -⟩
    cases front with
    | nil =>
      cases heq
      rfl
    | cons q front =>
      cases heq
      obtain ⟨c, hc⟩ := hfront _ List.mem_cons_self
      cases hc with
      | escape hc => exact absurd hc (h c)
  · rintro rfl
    exact ⟨[], ps, rfl, List.forall_mem_nil _, h⟩

/-- A text that falls into pieces is not resolved where one of them is no escape, and the failure
names the first one. -/
theorem FallsInto.unescape_eq_error_iff {cause : Cause} (h : FallsInto cs ps) :
    unescape cs = .error cause ↔ ∃ e, FirstOffence ps e ∧ cause = .invalidEscape e := by
  induction h with
  | nil =>
    refine ⟨nofun, ?_⟩
    rintro ⟨e, ⟨front, rest, heq, -⟩, -⟩
    cases front <;> cases heq
  | plain hc _ ih =>
    rw [unescape_cons hc, map_eq_error, ih]
    simp only [firstOffence_cons_iff .plain]
  | @escape d cs ps _ ih =>
    rw [unescape]
    cases hd : escaped? d with
    | none =>
      have hnone : ∀ c, ¬ Escape d c := by
        intro c hc
        rw [escaped?_eq_some_iff.2 hc] at hd
        cases hd
      simp only [firstOffence_escape_iff hnone, exists_eq_left, Except.error.injEq]
      exact eq_comm
    | some c =>
      have hmeans : Piece.Means (.escape d) c := .escape (escaped?_eq_some_iff.1 hd)
      simp only [map_eq_error, ih, firstOffence_cons_iff hmeans]

theorem exists_means_iff : (∃ c, p.Means c) ↔ ∀ e, p = .escape e → e ∈ escapes := by
  cases p with
  | plain c => exact ⟨fun _ => nofun, fun _ => ⟨c, .plain⟩⟩
  | escape e =>
    simp only [Piece.escape.injEq, forall_eq', mem_escapes_iff]
    constructor
    · rintro ⟨c, ⟨⟩⟩
      exact ⟨c, ‹_›⟩
    · rintro ⟨c, hc⟩
      exact ⟨c, .escape hc⟩

theorem exists_forall₂_iff {α β : Type} {R : α → β → Prop} {xs : List α} :
    (∃ ys, List.Forall₂ R xs ys) ↔ ∀ x ∈ xs, ∃ y, R x y := by
  induction xs with
  | nil => simp
  | cons x xs ih =>
    rw [List.forall_mem_cons, ← ih]
    constructor
    · rintro ⟨_, _ | ⟨hy, hys⟩⟩
      exact ⟨⟨_, hy⟩, _, hys⟩
    · rintro ⟨⟨y, hy⟩, ys, hys⟩
      exact ⟨y :: ys, .cons hy hys⟩

/-- A text that falls into pieces is resolved where all escapes among them are such. -/
theorem FallsInto.exists_unescape_eq_ok_iff (h : FallsInto cs ps) :
    (∃ s, unescape cs = .ok s) ↔ ∀ e, .escape e ∈ ps → e ∈ escapes := by
  simp only [unescape_eq_ok_iff, h.standsFor_iff, exists_forall₂_iff, exists_means_iff]
  constructor
  · intro hall e he
    exact hall _ he e rfl
  · rintro hall p hp e rfl
    exact hall e hp

/-! What the pattern matches -/

theorem mem_kstar_iff : cs ∈ (plainPattern quote + escapePattern)∗ ↔
    ∃ ps, FallsInto cs ps ∧ .plain quote ∉ ps ∧ .escape '\n' ∉ ps := by
  constructor
  · rw [Language.mem_kstar]
    rintro ⟨ws, rfl, hws⟩
    induction ws with
    | nil => exact ⟨[], .nil, List.not_mem_nil, List.not_mem_nil⟩
    | cons w ws ih =>
      obtain ⟨hw, hws⟩ := List.forall_mem_cons.1 hws
      obtain ⟨ps, hps, hquote, hfeed⟩ := ih hws
      obtain ⟨c, hc, hback, rfl⟩ | ⟨e, he, rfl⟩ := (Language.mem_add _ _ _).1 hw
      · exact ⟨.plain c :: ps, .plain hback hps, by simp [hquote, hc.symm], by simp [hfeed]⟩
      · exact ⟨.escape e :: ps, .escape hps, by simp [hquote], by simp [hfeed, he.symm]⟩
  · rintro ⟨ps, hps, hquote, hfeed⟩
    induction hps with
    | nil => exact Language.nil_mem_kstar _
    | @plain c cs ps hback _ ih =>
      rw [List.mem_cons, not_or] at hquote hfeed
      have hc : [c] ∈ plainPattern quote + escapePattern :=
        .inl ⟨c, fun heq => hquote.1 (by rw [heq]), hback, rfl⟩
      obtain ⟨ws, rfl, hws⟩ := Language.mem_kstar.1 (ih hquote.2 hfeed.2)
      exact Language.mem_kstar.2 ⟨[c] :: ws, rfl, List.forall_mem_cons.2 ⟨hc, hws⟩⟩
    | @escape e cs ps _ ih =>
      rw [List.mem_cons, not_or] at hquote hfeed
      have he : ['\\', e] ∈ plainPattern quote + escapePattern :=
        .inr ⟨e, fun heq => hfeed.1 (by rw [heq]), rfl⟩
      obtain ⟨ws, rfl, hws⟩ := Language.mem_kstar.1 (ih hquote.2 hfeed.2)
      exact Language.mem_kstar.2 ⟨['\\', e] :: ws, rfl, List.forall_mem_cons.2 ⟨he, hws⟩⟩

/-- What the pattern matches falls into pieces between its quotes. -/
theorem mem_stringPattern_iff : w ∈ stringPattern quote ↔
    ∃ cs ps, w = quote :: (cs ++ [quote]) ∧ FallsInto cs ps ∧ .plain quote ∉ ps ∧
      .escape '\n' ∉ ps := by
  simp only [stringPattern, Language.mem_mul, mem_kstar_iff]
  constructor
  · rintro ⟨_, ⟨_, rfl, cs, ⟨ps, hps⟩, rfl⟩, _, rfl, rfl⟩
    exact ⟨cs, ps, rfl, hps⟩
  · rintro ⟨cs, ps, rfl, hps⟩
    exact ⟨quote :: cs, ⟨[quote], rfl, cs, ⟨ps, hps⟩, rfl⟩, [quote], rfl, rfl⟩

/-- The first quote behind pieces among which there is none closes the string. -/
theorem FallsInto.quoted (h : FallsInto cs ps) (hquote : .plain quote ∉ ps) :
    Quoted quote (cs ++ [quote]) := by
  induction h with
  | nil => exact .close
  | @plain c cs ps hback _ ih =>
    rw [List.mem_cons, not_or] at hquote
    exact .plain hback (fun heq => hquote.1 (by rw [heq])) (ih hquote.2)
  | escape _ ih =>
    rw [List.mem_cons, not_or] at hquote
    exact .escape (ih hquote.2)

theorem Quoted.fallsInto (h : Quoted quote w) :
    ∃ cs ps, w = cs ++ [quote] ∧ FallsInto cs ps ∧ .plain quote ∉ ps := by
  induction h with
  | close => exact ⟨[], [], rfl, .nil, List.not_mem_nil⟩
  | @escape e _ _ ih =>
    obtain ⟨cs, ps, rfl, hps, hquote⟩ := ih
    exact ⟨'\\' :: e :: cs, .escape e :: ps, rfl, .escape hps, by simp [hquote]⟩
  | @plain c _ hback hne _ ih =>
    obtain ⟨cs, ps, rfl, hps, hquote⟩ := ih
    exact ⟨c :: cs, .plain c :: ps, rfl, .plain hback hps, by simp [hquote, hne.symm]⟩

theorem FallsInto.mem_of_escape (h : FallsInto cs ps) (he : .escape e ∈ ps) : e ∈ cs := by
  induction h with
  | nil => cases he
  | plain _ _ ih =>
    cases he with
    | tail _ he => exact List.mem_cons_of_mem _ (ih he)
  | escape _ ih =>
    cases he with
    | head => exact List.mem_cons_of_mem _ List.mem_cons_self
    | tail _ he => exact List.mem_cons_of_mem _ (List.mem_cons_of_mem _ (ih he))

/-- A string that is read has the text between its quotes, its escapes resolved. -/
theorem string_of_fallsInto (hquote : quote ≠ '\\') (h : FallsInto cs ps)
    (hfree : .plain quote ∉ ps) (rest : List Char) :
    string quote (cs ++ quote :: rest) =
      ⟨cs.length + 1, (unescape cs).map fun s => .string (String.ofList s)⟩ := by
  have hlength : quotedLength? quote (cs ++ quote :: rest) = some (cs.length + 1) := by
    have h := (h.quoted hfree).length hquote rest
    rwa [List.append_assoc, List.length_append] at h
  rw [string, hlength]
  simp only [Nat.add_sub_cancel, List.take_left]

theorem FallsInto.unescape_ne (h : FallsInto cs ps) :
    unescape cs ≠ .error .unterminatedString := by
  intro heq
  obtain ⟨e, -, hcause⟩ := h.unescape_eq_error_iff.1 heq
  cases hcause

/-- A string is not terminated exactly where the pattern matches no front of its line. -/
theorem string_unterminated_iff (hquote : quote ≠ '\\') (hline : '\n' ∉ cs) :
    (string quote cs).kind = .error .unterminatedString ↔
      ∀ w ∈ stringPattern quote, ¬ w <+: quote :: cs := by
  constructor
  · rintro h w hw ⟨rest, hrest⟩
    obtain ⟨v, ps, rfl, hps, hfree, -⟩ := mem_stringPattern_iff.1 hw
    obtain rfl : cs = v ++ quote :: rest := by simpa using (List.cons.inj hrest).2.symm
    rw [string_of_fallsInto hquote hps hfree] at h
    exact hps.unescape_ne (map_eq_error.1 h)
  · intro hnone
    cases hn : quotedLength? quote cs with
    | none => rw [string, hn]
    | some n =>
      obtain ⟨w, rest, rfl, -, hw⟩ := quoted_of_quotedLength? hn
      obtain ⟨v, ps, rfl, hps, hfree⟩ := hw.fallsInto
      have hfeed : .escape '\n' ∉ ps := fun hmem => hline (by simp [hps.mem_of_escape hmem])
      have hmatch := mem_stringPattern_iff.2 ⟨v, ps, rfl, hps, hfree, hfeed⟩
      exact absurd ⟨rest, rfl⟩ (hnone _ hmatch)

/-- The escapes of a string that the pattern matches are resolved from the left, piece by piece.
What fails is the first escape that there is not, never a backslash that is left over: a string
is not terminated only where the pattern matches nothing. -/
theorem unescape_of_mem_stringPattern (hquote : quote = '"' ∨ quote = '\'') :
    (∀ w ∈ stringPattern quote, ∃ cs ps, w = quote :: (cs ++ [quote]) ∧
      FallsInto cs ps ∧ (∀ qs, FallsInto cs qs → qs = ps) ∧
      ((∃ s, unescape cs = .ok s) ↔ ∀ e, .escape e ∈ ps → e ∈ escapes) ∧
      (∀ s, unescape cs = .ok s ↔ List.Forall₂ Piece.Means ps s) ∧
      (∀ cause, unescape cs = .error cause ↔
        ∃ e, FirstOffence ps e ∧ cause = .invalidEscape e) ∧
      unescape cs ≠ .error .unterminatedString ∧
      ∀ rest, string quote (cs ++ quote :: rest) =
        ⟨cs.length + 1, (unescape cs).map fun s => .string (String.ofList s)⟩) ∧
    ∀ line, '\n' ∉ line → ((string quote line).kind = .error .unterminatedString ↔
      ∀ w ∈ stringPattern quote, ¬ w <+: quote :: line) := by
  have hback : quote ≠ '\\' := ne_back_of_quote hquote
  refine ⟨fun w hw => ?_, fun line hline => string_unterminated_iff hback hline⟩
  obtain ⟨cs, ps, hcs, hps, hfree, -⟩ := mem_stringPattern_iff.1 hw
  have hok (s : List Char) : unescape cs = .ok s ↔ List.Forall₂ Piece.Means ps s :=
    unescape_eq_ok_iff.trans hps.standsFor_iff
  exact ⟨cs, ps, hcs, hps, fun _ => hps.unique, hps.exists_unescape_eq_ok_iff, hok,
    fun _ => hps.unescape_eq_error_iff, hps.unescape_ne, string_of_fallsInto hback hps hfree⟩

/-- Behind an escape, an escaped backslash takes no part in the escape that fails, and the one
behind that is not seen. -/
theorem unescape_first_offence :
    ('\'' = '"' ∨ '\'' = '\'') ∧ "'\\t\\\\\\q\\z'".toList ∈ stringPattern '\'' ∧
      unescape "\\t\\\\\\q\\z".toList = .error (.invalidEscape 'q') := by
  have hfalls : FallsInto "\\t\\\\\\q\\z".toList
      [.escape 't', .escape '\\', .escape 'q', .escape 'z'] :=
    .escape (.escape (.escape (.escape .nil)))
  have hmatch : "'\\t\\\\\\q\\z'".toList ∈ stringPattern '\'' :=
    mem_stringPattern_iff.2 ⟨_, _, rfl, hfalls, by decide, by decide⟩
  have hquote : '\'' = '"' ∨ '\'' = '\'' := .inr rfl
  refine ⟨hquote, hmatch, ?_⟩
  obtain ⟨cs, ps, htext, -, hunique, -, -, herror, -⟩ :=
    (unescape_of_mem_stringPattern hquote).1 _ hmatch
  obtain rfl : cs = "\\t\\\\\\q\\z".toList :=
    (List.append_cancel_right (List.cons.inj htext).2).symm
  obtain rfl := hunique _ hfalls
  have hfront : ∀ p ∈ [Piece.escape 't', .escape '\\'], ∃ c, p.Means c := by
    intro p hp
    simp only [List.mem_cons, List.not_mem_nil, or_false] at hp
    obtain rfl | rfl := hp
    exacts [⟨_, .escape .tab⟩, ⟨_, .escape .backslash⟩]
  exact (herror _).2 ⟨'q', ⟨_, [.escape 'z'], rfl, hfront, nofun⟩, rfl⟩

end ClassLang.Lexeme
