import ClassLang.Proofs.Grammar.Faults
import ClassLang.Proofs.Grammar.Rounds
import ClassLang.Proofs.Token.Layout
import Mathlib.Data.List.TakeWhile

/-!
Any list of tokens, read with a cursor. The tokens to come are those from the cursor on, up to the
first mark for the end of the file. Whatever the list, with no such mark or with several, with
levels opened or closed alone, every reader moves the cursor forward and none moves it behind that
mark, every loop ends, and what stands behind the mark counts for nothing.
-/

namespace ClassLang

namespace Token

variable {ts : List Token} {e : Token}

/-- The last place of a cursor: that of the first mark for the end of the file, or that behind all
tokens. -/
def finish (ts : List Token) : Nat := (ts.takeWhile (·.kind != .eof)).length

/-- The tokens from a cursor on, up to the first mark for the end of the file. -/
def ahead (ts : List Token) (i : Nat) : List Token := (ts.takeWhile (·.kind != .eof)).drop i

/-- The line of the last token. -/
def lastLine (ts : List Token) : Nat := (ts.getLast?.map (·.line)).getD 1

/-- The tokens with a mark for the end of the file behind them, where the last one is none. -/
def ended (ts : List Token) : List Token :=
  if ts.getLast?.any (·.kind == .eof) then ts else ts ++ [.mark .eof ⟨lastLine ts, 1⟩]

theorem length_ahead (ts : List Token) (i : Nat) : (ahead ts i).length = finish ts - i :=
  List.length_drop

theorem ahead_finish (ts : List Token) : ahead ts (finish ts) = [] := List.drop_length

/-- What is left at the end of the tokens ahead is ahead of a later place. -/
theorem exists_ahead_of_suffix {rest : List Token} {i : Nat} (hi : i ≤ finish ts)
    (h : rest <:+ ahead ts i) :
    ∃ j, i ≤ j ∧ j ≤ finish ts ∧ j + rest.length = finish ts ∧ rest = ahead ts j := by
  have hlen := h.length_le
  rw [length_ahead] at hlen
  refine ⟨finish ts - rest.length, by omega, Nat.sub_le _ _, by omega, ?_⟩
  exact List.suffix_iff_eq_drop.1 (h.trans (List.drop_suffix _ _))

/-- Tokens have no mark for the end of the file, or they have a first one. -/
theorem markless_or_split (ts : List Token) :
    (∀ t ∈ ts, t.kind ≠ .eof) ∨
      ∃ us e vs, ts = us ++ e :: vs ∧ (∀ t ∈ us, t.kind ≠ .eof) ∧ e.kind = .eof := by
  induction ts with
  | nil => exact .inl nofun
  | cons t ts ih =>
    by_cases ht : t.kind = .eof
    · exact .inr ⟨[], t, ts, rfl, nofun, ht⟩
    obtain hall | ⟨us, e, vs, rfl, hus, he⟩ := ih
    · exact .inl (List.forall_mem_cons.2 ⟨ht, hall⟩)
    · exact .inr ⟨t :: us, e, vs, rfl, List.forall_mem_cons.2 ⟨ht, hus⟩, he⟩

theorem takeWhile_of_forall (h : ∀ t ∈ ts, t.kind ≠ .eof) :
    ts.takeWhile (·.kind != .eof) = ts :=
  List.takeWhile_eq_self_iff.2 fun t ht => bne_iff_ne.2 (h t ht)

theorem finish_of_forall (h : ∀ t ∈ ts, t.kind ≠ .eof) : finish ts = ts.length := by
  rw [finish, takeWhile_of_forall h]

theorem finish_append_mark (h : ∀ t ∈ ts, t.kind ≠ .eof) (he : e.kind = .eof) (us : List Token) :
    finish (ts ++ e :: us) = ts.length := by
  rw [finish, takeWhile_append_mark h he]

theorem prefix_ended (ts : List Token) : ts <+: ended ts := by
  rw [ended]
  split
  · exact List.prefix_rfl
  · exact List.prefix_append _ _

theorem getElem?_ended {i : Nat} (hi : i < (ts.takeWhile (·.kind != .eof)).length) :
    (ended ts)[i]? = some (ts.takeWhile (·.kind != .eof))[i] :=
  List.prefix_iff_getElem?.1 ((List.takeWhile_prefix _).trans (prefix_ended ts)) i hi

theorem ended_of_forall (h : ∀ t ∈ ts, t.kind ≠ .eof) :
    ended ts = ts ++ [.mark .eof ⟨lastLine ts, 1⟩] := by
  have hlast : ts.getLast?.any (·.kind == .eof) = false := by
    cases hts : ts.getLast? with
    | none => rfl
    | some t => simpa using h t (List.mem_of_getLast? hts)
  rw [ended, hlast]
  rfl

end Token

namespace Program

open Token Grammar

variable {ts us : List Token} {e : Token}

theorem stop_of_forall (h : ∀ t ∈ ts, t.kind ≠ .eof) : stop ts = ⟨lastLine ts, 1⟩ := by
  rw [stop, find?_mark_eq_none h]
  rfl

theorem ofTokens_of_forall (classes : ClassTable) (h : ∀ t ∈ ts, t.kind ≠ .eof) :
    ofTokens classes ts = program ⟨lastLine ts, 1⟩ classes ts := by
  rw [ofTokens, stop_of_forall h, takeWhile_of_forall h]

/-- A mark for the end on the last line of tokens without one says what is known without it. -/
theorem ofTokens_append_of_line (classes : ClassTable) (h : ∀ t ∈ ts, t.kind ≠ .eof)
    (he : e.kind = .eof) (hline : e.line = lastLine ts) :
    ofTokens classes (ts ++ [e]) = ofTokens classes ts := by
  rw [ofTokens_append_mark classes h he, ofTokens_of_forall classes h]
  have hstop : e.pos.line = (⟨lastLine ts, 1⟩ : Pos).line := hline
  exact (agreesOn_program (P := fun _ => True) trivial hstop classes ts
    (.self fun _ _ => trivial)).same

/-- A program depends on the tokens up to the first mark for the end and on no others. -/
theorem ofTokens_congr (classes : ClassTable) (h : ∃ t ∈ ts, t.kind = .eof)
    (htake : us.take (finish ts + 1) = ts.take (finish ts + 1)) :
    ofTokens classes us = ofTokens classes ts := by
  obtain hall | ⟨vs, e, ws, rfl, hvs, he⟩ := markless_or_split ts
  · obtain ⟨t, ht, heof⟩ := h
    exact absurd heof (hall t ht)
  have hfront : us.take (vs.length + 1) = vs ++ [e] := by
    rw [finish_append_mark hvs he] at htake
    rw [htake, List.take_length_add_append]
    rfl
  have hus : us = vs ++ e :: us.drop (vs.length + 1) :=
    calc us = us.take (vs.length + 1) ++ us.drop (vs.length + 1) :=
        (List.take_append_drop _ _).symm
      _ = vs ++ e :: us.drop (vs.length + 1) := by rw [hfront, List.append_assoc]; rfl
  rw [hus, ofTokens_append_mark classes hvs he, ofTokens_append_mark classes hvs he]

/-- What stands behind the first mark for the end may be cut off. -/
theorem ofTokens_take (classes : ClassTable) (ts : List Token) :
    ofTokens classes (ts.take (finish ts + 1)) = ofTokens classes ts := by
  by_cases h : ∃ t ∈ ts, t.kind = .eof
  · exact ofTokens_congr classes h (List.take_take.trans (by rw [Nat.min_self]))
  · have hall : ∀ t ∈ ts, t.kind ≠ .eof := fun t ht heof => h ⟨t, ht, heof⟩
    rw [finish_of_forall hall, List.take_of_length_le (Nat.le_succ _)]

end Program

namespace Grammar

open Token

/-- What is next at a cursor is a token of the list, with the mark for the end where one is
missing. -/
theorem Scope.peek_ahead {s : Scope} {ts : List Token} (hs : s.stop = Program.stop ts) {i : Nat}
    (hi : i ≤ finish ts) : ∃ t, (ended ts)[i]? = some t ∧
      (s.peek (ahead ts i)).kind = t.kind ∧ (s.peek (ahead ts i)).pos = t.pos := by
  obtain hlt | rfl := Nat.lt_or_eq_of_le hi
  · refine ⟨_, getElem?_ended hlt, ?_⟩
    rw [ahead, List.drop_eq_getElem_cons hlt]
    exact ⟨rfl, rfl⟩
  · rw [ahead_finish]
    obtain hall | ⟨us, e, vs, rfl, hus, he⟩ := markless_or_split ts
    · refine ⟨.mark .eof ⟨lastLine ts, 1⟩, ?_, rfl, hs.trans (Program.stop_of_forall hall)⟩
      rw [finish_of_forall hall, ended_of_forall hall, List.getElem?_concat_length]
    · refine ⟨e, ?_, he.symm, hs.trans (Program.stop_append_mark hus he vs)⟩
      have hmem : us.length < (us ++ e :: vs).length := by simp
      rw [finish_append_mark hus he, List.prefix_iff_getElem?.1 (prefix_ended _) _ hmem]
      simp

variable {α β γ : Type}

/-- Holds of readers that move a cursor forward where they succeed, at the latest to the first mark
for the end of the file. -/
def Advances (ts : List Token) (read : (us : List Token) → Reads α us) : Prop :=
  ∀ i ≤ finish ts, ∀ p, read (ahead ts i) = .ok p →
    ∃ j, i < j ∧ j ≤ finish ts ∧ p.rest = ahead ts j

/-- Holds of readers that move a cursor so, or leave it in its place. -/
def Keeps (ts : List Token)
    (read : (us : List Token) → Except Error (Parsed α (us.length + 1))) : Prop :=
  ∀ i ≤ finish ts, ∀ p, read (ahead ts i) = .ok p →
    ∃ j, i ≤ j ∧ j ≤ finish ts ∧ p.rest = ahead ts j

/-- Holds of rounds that end a loop from any place of a cursor, with what a reading gives, after at
most one round for each token ahead. -/
def EndsWith (ts : List Token) (round : Round β γ) (b : β) (read : List Token → Except Error γ) :
    Prop :=
  ∀ i ≤ finish ts, ∃ n ≤ finish ts - i, Rounds round n (b, ahead ts i) (read (ahead ts i))

section

variable {ts : List Token}

theorem advances_of_readsOn {read : (us : List Token) → Reads α us}
    {read' : List Token → Except Error (α × List Token)}
    (h : ∀ us, ReadsOn (fun _ => True) us (plain (read us)) (read' us)) : Advances ts read := by
  intro i hi p hp
  have hsuffix : p.rest <:+ ahead ts i :=
    ((h (ahead ts i)).leaves (p.value, p.rest) (by rw [hp]; rfl)).suffix
  have hshorter := Nat.lt_of_lt_of_eq p.shorter (length_ahead ts i)
  obtain ⟨j, hij, hj, hlen, hrest⟩ := exists_ahead_of_suffix hi hsuffix
  exact ⟨j, by omega, hj, hrest⟩

theorem keeps_of_readsOn {read : (us : List Token) → Except Error (Parsed α (us.length + 1))}
    {read' : List Token → Except Error (α × List Token)}
    (h : ∀ us, ReadsOn (fun _ => True) us (plain (read us)) (read' us)) : Keeps ts read := by
  intro i hi p hp
  have hsuffix : p.rest <:+ ahead ts i :=
    ((h (ahead ts i)).leaves (p.value, p.rest) (by rw [hp]; rfl)).suffix
  obtain ⟨j, hij, hj, -, hrest⟩ := exists_ahead_of_suffix hi hsuffix
  exact ⟨j, hij, hj, hrest⟩

theorem endsWith_of_makes {round : Round β γ} {read : β → List Token → Except Error γ}
    (h : round.Makes read) (hround : round.Shortens) (b : β) : EndsWith ts round b (read b) := by
  intro i _
  rw [← length_ahead]
  exact h.exists_rounds hround b (ahead ts i)

/-- What is gathered from nothing on is what is read. -/
theorem endsWith_of_gathers {round : Round (List β) (List β × List Token)}
    {read : List Token → Except Error (List β × List Token)}
    (h : round.Makes fun bs us => read us >>= fun p => .ok (bs ++ p.1, p.2))
    (hround : round.Shortens) : EndsWith ts round [] read := by
  have hread (us : List Token) : (read us >>= fun p => .ok ([] ++ p.1, p.2)) = read us := by
    cases read us <;> rfl
  have hends : EndsWith ts round [] fun us => read us >>= fun p => .ok ([] ++ p.1, p.2) :=
    endsWith_of_makes h hround []
  simp only [hread] at hends
  exact hends

end

/-- Holds of what surrounds a place in some tokens if all readers move a cursor over them
forward. -/
structure Scope.Forward (s : Scope) (ts : List Token) : Prop where
  expect : ∀ kind expected, Advances ts (expect s kind expected)
  expectWord : ∀ expected, Advances ts (expectWord s expected)
  exprAt : ∀ l, Advances ts (exprAt s l)
  chain : ∀ l e, Keeps ts (chain s l e)
  methodCalls : ∀ e, Keeps ts (methodCalls s e)
  arguments : Advances ts (arguments s)
  exprList : Advances ts (exprList s)
  assignmentOrExpr : Advances ts (assignmentOrExpr s)
  simple : Advances ts (simple s)
  statementEnd : Keeps ts (statementEnd s)
  condition : Advances ts (condition s)
  stmt : Advances ts (stmt s)
  suite : Advances ts (suite s)
  blockBody : Keeps ts (blockBody s)
  parameters : ∀ method line names, Advances ts (parameters s method line names)
  parameterList : ∀ method line, Advances ts (parameterList s method line)
  methodDef : ∀ pos, Advances ts (methodDef s pos)
  classBody : ∀ cls ms, Keeps ts (classBody s cls ms)
  parentClass : Keeps ts (parentClass s)
  classDef : ∀ line, Advances ts (classDef s line)

theorem Scope.forward (s : Scope) (ts : List Token) : s.Forward ts := by
  have hs : s.Ends (fun _ => True) s.stop := ⟨trivial, rfl⟩
  have hself (us : List Token) : Within (fun _ => True) us us := .self fun _ _ => trivial
  exact {
    expect := fun _ _ => advances_of_readsOn fun us => readsOn_expect hs _ _ (hself us)
    expectWord := fun _ => advances_of_readsOn fun us => readsOn_expectWord hs _ (hself us)
    exprAt := fun l => advances_of_readsOn fun us => readsOn_exprAt hs l us (hself us)
    chain := fun l e => keeps_of_readsOn fun us => readsOn_chain hs l e us (hself us)
    methodCalls := fun e => keeps_of_readsOn fun us => readsOn_methodCalls hs e us (hself us)
    arguments := advances_of_readsOn fun us => readsOn_arguments hs us (hself us)
    exprList := advances_of_readsOn fun us => readsOn_exprList hs us (hself us)
    assignmentOrExpr := advances_of_readsOn fun us => readsOn_assignmentOrExpr hs (hself us)
    simple := advances_of_readsOn fun us => readsOn_simple hs (hself us)
    statementEnd := keeps_of_readsOn fun us => readsOn_statementEnd hs (hself us)
    condition := advances_of_readsOn fun us => readsOn_condition hs (hself us)
    stmt := advances_of_readsOn fun us => readsOn_stmt hs us (hself us)
    suite := advances_of_readsOn fun us => readsOn_suite hs us (hself us)
    blockBody := keeps_of_readsOn fun us => readsOn_blockBody hs us (hself us)
    parameters := fun method _ names => advances_of_readsOn fun us =>
      readsOn_parameters hs method trivial names us (hself us)
    parameterList := fun method _ => advances_of_readsOn fun us =>
      readsOn_parameterList hs method trivial (hself us)
    methodDef := fun _ => advances_of_readsOn fun us => readsOn_methodDef hs trivial (hself us)
    classBody := fun cls ms => keeps_of_readsOn fun us => readsOn_classBody hs cls ms us (hself us)
    parentClass := keeps_of_readsOn fun us => readsOn_parentClass hs (hself us)
    classDef := fun _ => advances_of_readsOn fun us => readsOn_classDef hs trivial (hself us) }

/-- Holds of what surrounds a place in some tokens if all loops of reading over them end. -/
structure Scope.LoopsEnd (s : Scope) (ts : List Token) : Prop where
  fieldNames : EndsWith ts fieldRound [] fun us => .ok (fieldNames us)
  chain : ∀ l e, EndsWith ts (rowRound s l) e fun us => plain (chain s l e us)
  methodCalls : ∀ e, EndsWith ts (callRound s) e fun us => plain (methodCalls s e us)
  exprList : EndsWith ts (listRound s) [] fun us => plain (exprList s us)
  blockBody : EndsWith ts (blockRound s) [] fun us => plain (blockBody s us)
  parameters : ∀ method line names, EndsWith ts (parameterRound s method line) names fun us =>
    plain (parameters s method line names us)
  classBody : ∀ cls ms, EndsWith ts (classRound s cls) ms fun us => plain (classBody s cls ms us)

theorem Scope.loopsEnd (s : Scope) (ts : List Token) : s.LoopsEnd ts where
  fieldNames := endsWith_of_gathers makes_fieldNames shortens_fieldRound
  chain l e := endsWith_of_makes (makes_chain s l) (shortens_rowRound s l) e
  methodCalls e := endsWith_of_makes (makes_methodCalls s) (shortens_callRound s) e
  exprList := endsWith_of_gathers (makes_exprList s) (shortens_listRound s)
  blockBody := endsWith_of_gathers (makes_blockBody s) (shortens_blockRound s)
  parameters method line names :=
    endsWith_of_makes (makes_parameters s method line) (shortens_parameterRound s method line) names
  classBody cls ms := endsWith_of_makes (makes_classBody s cls) (shortens_classRound s cls) ms

end Grammar

namespace Program

open Token Grammar

/-- Whatever tokens are refused as a program are refused at the line of one up to the first mark for
the end of the file. -/
theorem line_of_ofTokens {classes : ClassTable} {ts : List Token} {e : Error}
    (h : ofTokens classes ts = .error e) :
    ∃ i ≤ finish ts, ∃ t, (ended ts)[i]? = some t ∧ e.line? = some t.line := by
  have hstop : ∃ i ≤ finish ts, ∃ t, (ended ts)[i]? = some t ∧ t.line = (stop ts).line := by
    obtain ⟨t, ht, -, hpos⟩ :=
      Scope.peek_ahead (s := topScope (stop ts) classes) rfl (Nat.le_refl (finish ts))
    rw [ahead_finish] at hpos
    exact ⟨finish ts, Nat.le_refl _, t, ht, congrArg Pos.line hpos.symm⟩
  have hfront : ∀ u ∈ ts.takeWhile (·.kind != .eof),
      ∃ i ≤ finish ts, ∃ t, (ended ts)[i]? = some t ∧ t.line = u.line := by
    intro u hu
    obtain ⟨i, hi, rfl⟩ := List.getElem_of_mem hu
    exact ⟨i, Nat.le_of_lt hi, _, getElem?_ended hi, rfl⟩
  have hfails : FailsOn (fun line => ∃ i ≤ finish ts, ∃ t, (ended ts)[i]? = some t ∧ t.line = line)
      (ofTokens classes ts) := failsOn_program hstop classes hfront
  obtain ⟨-, line, hline, i, hi, t, ht, rfl⟩ := hfails e h
  exact ⟨i, hi, t, ht, hline⟩

/-- Holds of tokens that are read forward and to an end, up to the first mark for the end of the
file. -/
structure ReadForward (classes : ClassTable) (ts : List Token) : Prop where
  /-- The reading of the program makes at most one round for each token. -/
  ends : ∃ n ≤ finish ts,
    Rounds (programRound (stop ts)) n (⟨[], classes⟩, ahead ts 0) (ofTokens classes ts)
  /-- So do the loops inside it, wherever they begin. -/
  loopsEnd : ∀ s : Scope, s.LoopsEnd ts
  /-- What is read moves the cursor forward, and not behind the mark. -/
  forward : ∀ s : Scope, s.Forward ts
  /-- What is next at the cursor is a token of the list, or the mark put behind it. -/
  next : ∀ s : Scope, s.stop = stop ts → ∀ i ≤ finish ts, ∃ t, (ended ts)[i]? = some t ∧
    (s.peek (ahead ts i)).kind = t.kind ∧ (s.peek (ahead ts i)).pos = t.pos
  /-- What is refused is refused at one of these tokens. -/
  refused : ∀ e, ofTokens classes ts = .error e →
    ∃ i ≤ finish ts, ∃ t, (ended ts)[i]? = some t ∧ e.line? = some t.line
  /-- Tokens that are the same up to the mark come to the same. -/
  depends : ∀ us, (∃ t ∈ ts, t.kind = .eof) →
    us.take (finish ts + 1) = ts.take (finish ts + 1) → ofTokens classes us = ofTokens classes ts
  /-- What stands behind the mark may be cut off. -/
  cut : ofTokens classes (ts.take (finish ts + 1)) = ofTokens classes ts
  /-- Where no mark is, one may be put on the last line. -/
  marked : ∀ e, (∀ t ∈ ts, t.kind ≠ .eof) → e.kind = .eof → e.line = lastLine ts →
    ofTokens classes (ts ++ [e]) = ofTokens classes ts

/-- Every list of tokens is read forward and to an end. -/
theorem readForward (classes : ClassTable) (ts : List Token) : ReadForward classes ts where
  ends := by
    have hrounds := (makes_program (stop ts)).exists_rounds (shortens_programRound (stop ts))
      ⟨[], classes⟩ (ahead ts 0)
    have hread : (program (stop ts) classes (ahead ts 0) >>= fun q =>
        .ok { q with statements := [] ++ q.statements }) = ofTokens classes ts := by
      change program (stop ts) classes (ts.takeWhile (·.kind != .eof)) >>= _ = ofTokens classes ts
      rw [← ofTokens]
      cases ofTokens classes ts <;> rfl
    rw [length_ahead] at hrounds
    simp only [hread] at hrounds
    exact hrounds
  loopsEnd s := s.loopsEnd ts
  forward s := s.forward ts
  next _ hs _ hi := Scope.peek_ahead hs hi
  refused _ h := line_of_ofTokens h
  depends _ h htake := ofTokens_congr classes h htake
  cut := ofTokens_take classes ts
  marked _ h he hline := ofTokens_append_of_line classes h he hline

/-- Tokens that open a block and do not close it, with no mark for the end of the file. -/
def openBlock : List Token :=
  [⟨.keyword .if_, "if", ⟨1, 1⟩⟩, ⟨.keyword .true, "True", ⟨1, 4⟩⟩, ⟨.symbol ':', ":", ⟨1, 8⟩⟩,
    .mark .newline ⟨1, 9⟩, .mark .indent ⟨2, 1⟩,
    ⟨.keyword .print, "print", ⟨2, 3⟩⟩, ⟨.number 7, "7", ⟨2, 9⟩⟩]

theorem readForward_openBlock :
    (ofTokens .empty openBlock).isOk = true ∧
      ofTokens .empty (openBlock ++ [.mark .eof ⟨2, 10⟩]) = ofTokens .empty openBlock ∧
      ofTokens .empty (openBlock ++ [.mark .eof ⟨2, 10⟩, .mark .dedent ⟨1, 1⟩]) =
        ofTokens .empty openBlock := by
  have hmarked : ofTokens .empty (openBlock ++ [.mark .eof ⟨2, 10⟩]) = ofTokens .empty openBlock :=
    (readForward .empty openBlock).marked _ (by decide) rfl rfl
  refine ⟨by decide +kernel, hmarked, ?_⟩
  have hdepends := (readForward .empty (openBlock ++ [.mark .eof ⟨2, 10⟩])).depends
    (openBlock ++ [.mark .eof ⟨2, 10⟩, .mark .dedent ⟨1, 1⟩]) (by decide) (by decide)
  exact hdepends.trans hmarked

end Program

end ClassLang
