import ClassLang.Proofs.Grammar.Plain.Statement
import ClassLang.Proofs.Token.Numbered

/-!
The failures of reading. Whatever the reading of lines and the readers of the grammar refuse, they
refuse with a failure that belongs to the reading of a program. Its line is one with content, or
that of a token to come or of the end of the file: where a reader stops, it has the tokens that are
left before it and no others. Of the place where the file ends the line alone counts.
-/

namespace ClassLang

/-- Holds of the steps whose failures belong to the reading of a program. -/
def Refuses {α : Type} (x : Except Error α) : Prop := ∀ e, x = .error e → e.isSyntax = true

/-- Holds of the steps whose failures belong to the reading of a program, and to a line with a
property. -/
def FailsOn {α : Type} (P : Nat → Prop) (x : Except Error α) : Prop :=
  ∀ e, x = .error e → e.isSyntax = true ∧ ∃ line, e.line? = some line ∧ P line

theorem Refuses.bind {α β : Type} {x : Except Error α} {f : α → Except Error β} (h : Refuses x)
    (hf : ∀ a, x = .ok a → Refuses (f a)) : Refuses (x >>= f) := by
  cases x with
  | error e =>
    intro e' h'
    cases h'
    exact h e rfl
  | ok a => exact hf a rfl

namespace FailsOn

variable {P : Nat → Prop} {α β : Type} {x : Except Error α}

theorem ok (a : α) : FailsOn P (.ok a : Except Error α) := by
  intro e h
  cases h

theorem error {cause : Cause} {line : Nat} (h : cause.isSyntax = true) (hline : P line) :
    FailsOn P (.error (.located cause line) : Except Error α) := by
  intro e h'
  cases h'
  exact ⟨h, line, rfl, hline⟩

theorem bind {f : α → Except Error β} (h : FailsOn P x) (hf : ∀ a, x = .ok a → FailsOn P (f a)) :
    FailsOn P (x >>= f) := by
  cases x with
  | error e =>
    intro e' h'
    cases h'
    exact h e rfl
  | ok a => exact hf a rfl

theorem map {f : α → β} (h : FailsOn P x) : FailsOn P (x.map f) := by
  intro e he
  exact h e (map_eq_error.1 he)

theorem refuses (h : FailsOn P x) : Refuses x := fun e he => (h e he).1

end FailsOn

/-! Lines -/

namespace Lexeme

theorem isSyntax_of_unescape {cs : List Char} {cause : Cause} (h : unescape cs = .error cause) :
    cause.isSyntax = true := by
  obtain rfl | ⟨e, rfl⟩ := unescape_eq_error h
  · rfl
  · rfl

theorem isSyntax_of_read {column : Nat} {c : Char} {cs : List Char} {cause : Cause}
    (h : (read column c cs).kind = .error cause) : cause.isSyntax = true := by
  unfold read at h
  split at h
  · unfold number at h
    simp only [] at h
    split at h <;> cases h
    rfl
  · split at h
    · cases h
    · split at h
      · unfold string at h
        split at h
        · cases h
          rfl
        · exact isSyntax_of_unescape (map_eq_error.1 h)
      · unfold sign at h
        split at h <;> first | cases h | skip
        simp only [] at h
        split at h <;> cases h
        rfl

end Lexeme

variable {P : Nat → Prop}

theorem Line.failsOn_scan {number : Nat} (hnumber : P number) (n column : Nat) (cs : List Char) :
    FailsOn P (Line.scan number n column cs) := by
  induction cs generalizing n column with
  | nil =>
    rw [scan]
    exact .ok _
  | cons c cs ih =>
    cases n with
    | succ n => exact ih n _
    | zero =>
      rw [scan]
      split
      · exact ih 0 _
      · split
        · exact .ok _
        · simp only []
          split
          · rename_i cause hcause
            exact .error (Lexeme.isSyntax_of_read hcause) hnumber
          · exact .map (ih _ _)

/-- Only lines with content are refused. -/
theorem Line.failsOn_read {number : Nat} {text : List Char}
    (h : isBare text = false → P number) : FailsOn P (Line.read number text) := by
  unfold Line.read
  simp only []
  split
  · exact .ok _
  · rename_i hidle
    have hnumber : P number := h (Bool.eq_false_iff.2 hidle)
    split
    · exact .error rfl hnumber
    · exact .map (failsOn_scan hnumber _ _ _)

theorem Token.failsOn_readLines {number : Nat} {texts : List (List Char)}
    (h : ∀ i text, texts[i]? = some text → Line.isBare text = false → P (number + i)) :
    FailsOn P (Token.readLines number texts) := by
  induction texts generalizing number with
  | nil => exact .ok _
  | cons text texts ih =>
    have hrest : FailsOn P (Token.readLines (number + 1) texts) := by
      refine ih fun i text hi hbare => ?_
      rw [Nat.add_right_comm]
      exact h (i + 1) text hi hbare
    exact .bind (Line.failsOn_read (h 0 text rfl)) fun _ _ => .bind hrest fun _ _ => .ok _

/-- Whatever is refused as a source of tokens is refused in reading, at a line with content. -/
theorem Token.failsOn_ofSource {source : String}
    (h : ∀ i text, (Text.sourceLines source.toList)[i]? = some text →
      Line.isBare text = false → P (1 + i)) : FailsOn P (Token.ofSource source) :=
  .bind (Token.failsOn_readLines h) fun _ _ => .ok _

theorem Token.refuses_ofSource (source : String) : Refuses (Token.ofSource source) :=
  FailsOn.refuses (Token.failsOn_ofSource (P := fun _ => True) fun _ _ _ _ => trivial)

/-! Readers -/

namespace Grammar

variable {α β : Type}

/-- Holds of the last tokens of a list, on lines with a property. -/
structure Within (P : Nat → Prop) (whole ts : List Token) : Prop where
  suffix : ts <:+ whole
  lines : ∀ t ∈ ts, P t.line

/-- Holds of a place on the line where a file ends, a line with a property. -/
structure Scope.Ends (P : Nat → Prop) (s : Scope) (stop : Pos) : Prop where
  line : P s.stop.line
  same : stop.line = s.stop.line

/-- The same scope in a file that ends at another place. -/
def Scope.endingAt (s : Scope) (stop : Pos) : Scope := { s with stop }

@[simp] theorem Scope.inMethod_endingAt (s : Scope) (stop : Pos) :
    (s.endingAt stop).inMethod = s.inMethod := rfl

@[simp] theorem Scope.classes_endingAt (s : Scope) (stop : Pos) :
    (s.endingAt stop).classes = s.classes := rfl

theorem Scope.Ends.line_peek {s : Scope} {stop : Pos} (hs : s.Ends P stop) (ts : List Token) :
    ((s.endingAt stop).peek ts).line = (s.peek ts).line := by
  cases ts with
  | nil => exact hs.same
  | cons t ts => rfl

theorem dottedCall_endingAt (s : Scope) (stop : Pos) (root : String) (fields : List String)
    (args : List Expr) (pos callPos : Pos) :
    dottedCall (s.endingAt stop) root fields args pos callPos =
      dottedCall s root fields args pos callPos := rfl

variable {whole : List Token}

namespace Within

variable {t : Token} {ts : List Token}

theorem self (h : ∀ t ∈ ts, P t.line) : Within P ts ts := ⟨List.suffix_rfl, h⟩

theorem nil : Within P whole [] := ⟨List.nil_suffix, nofun⟩

theorem head (h : Within P whole (t :: ts)) : P t.line := h.lines t List.mem_cons_self

theorem tail (h : Within P whole (t :: ts)) : Within P whole ts :=
  ⟨(List.suffix_cons t ts).trans h.suffix, fun u hu => h.lines u (List.mem_cons_of_mem t hu)⟩

theorem peek {s : Scope} {stop : Pos} (h : Within P whole ts) (hs : s.Ends P stop) :
    P (s.peek ts).line := by
  cases ts with
  | nil => exact hs.line
  | cons t ts => exact h.head

theorem fieldNames (h : Within P whole ts) : Within P whole (fieldNames ts).2 := by
  fun_induction Grammar.fieldNames ts with
  | case1 t u ts ht name hu more ih => exact ih h.tail.tail
  | case2 => exact h
  | case3 => exact h
  | case4 => exact h

end Within

/-- Holds of two steps that come to the same, with failures that belong to the reading of a program
and to a line with a property. -/
structure AgreesOn (P : Nat → Prop) (x y : Except Error α) : Prop where
  same : y = x
  fails : FailsOn P x

theorem AgreesOn.ok (a : α) : AgreesOn P (.ok a : Except Error α) (.ok a) := ⟨rfl, .ok a⟩

theorem AgreesOn.bind {x y : Except Error α} {f g : α → Except Error β} (h : AgreesOn P x y)
    (hf : ∀ a, x = .ok a → AgreesOn P (f a) (g a)) : AgreesOn P (x >>= f) (y >>= g) := by
  obtain ⟨rfl, hfails⟩ := h
  cases y with
  | error e => exact ⟨rfl, hfails.bind nofun⟩
  | ok a => exact hf a rfl

/-- Holds of two readings that agree and leave the last of some tokens. -/
structure ReadsOn (P : Nat → Prop) (whole : List Token) (x y : Except Error (α × List Token)) :
    Prop extends AgreesOn P x y where
  leaves : ∀ p, x = .ok p → Within P whole p.2

namespace ReadsOn

variable {x y : Except Error (α × List Token)} {s : Scope} {stop : Pos} {ts : List Token}

theorem ok {a : α} (h : Within P whole ts) : ReadsOn P whole (.ok (a, ts)) (.ok (a, ts)) := by
  refine ⟨.ok _, fun p hp => ?_⟩
  cases hp
  exact h

theorem error {cause : Cause} {line : Nat} (h : cause.isSyntax = true) (hline : P line) :
    ReadsOn P whole (.error (.located cause line) : Except Error (α × List Token))
      (.error (.located cause line)) :=
  ⟨⟨rfl, .error h hline⟩, nofun⟩

/-- Of what was not expected at the end of the file, the line is told and no more of its place. -/
theorem unexpected (hs : s.Ends P stop) (expected : Expected) (h : Within P whole ts) :
    ReadsOn P whole (.error (s.unexpected expected ts) : Except Error (α × List Token))
      (.error ((s.endingAt stop).unexpected expected ts)) := by
  have hkind : ((s.endingAt stop).peek ts).kind = (s.peek ts).kind := by cases ts <;> rfl
  rw [Scope.unexpected, Scope.unexpected, hkind, hs.line_peek]
  exact .error rfl (h.peek hs)

theorem bind {f g : α × List Token → Except Error (β × List Token)} (h : ReadsOn P whole x y)
    (hf : ∀ p, x = .ok p → Within P whole p.2 → ReadsOn P whole (f p) (g p)) :
    ReadsOn P whole (x >>= f) (y >>= g) := by
  refine ⟨h.toAgreesOn.bind fun p hp => (hf p hp (h.leaves p hp)).toAgreesOn, fun q hq => ?_⟩
  obtain ⟨p, hp, hq⟩ := bind_eq_ok.1 hq
  exact (hf p hp (h.leaves p hp)).leaves q hq

end ReadsOn

variable {s : Scope} {stop : Pos} {ts : List Token}

theorem readsOn_expect (hs : s.Ends P stop) (kind : Kind) (expected : Expected)
    (h : Within P whole ts) :
    ReadsOn P whole (plain (expect s kind expected ts))
      (plain (expect (s.endingAt stop) kind expected ts)) := by
  cases ts with
  | nil => exact .unexpected hs expected .nil
  | cons t r =>
    rw [expect, expect]
    split
    · exact .ok h.tail
    · exact .unexpected hs expected h

theorem readsOn_expectWord (hs : s.Ends P stop) (expected : Expected) (h : Within P whole ts) :
    ReadsOn P whole (plain (expectWord s expected ts))
      (plain (expectWord (s.endingAt stop) expected ts)) := by
  cases ts with
  | nil => exact .unexpected hs expected .nil
  | cons t r =>
    rw [expectWord, expectWord]
    split
    · exact .ok h.tail
    · exact .unexpected hs expected h

theorem failsOn_dottedCall (root : String) (fields : List String) (args : List Expr) {pos : Pos}
    (callPos : Pos) (hpos : P pos.line) :
    FailsOn P (dottedCall s root fields args pos callPos) := by
  unfold dottedCall
  split
  · unfold bareCall
    split
    · split
      · exact .ok _
      · exact .error rfl hpos
    · split
      · exact .ok _
      · exact .error rfl hpos
  · exact .ok _

theorem readsOn_exprAt_nil (hs : s.Ends P stop) (l : Level) :
    ReadsOn P whole (plain (exprAt s l [])) (plain (exprAt (s.endingAt stop) l [])) := by
  have primary : ReadsOn P whole (plain (exprAt s .primary []))
      (plain (exprAt (s.endingAt stop) .primary [])) := by
    rw [exprAt, exprAt]
    exact .unexpected hs _ .nil
  have refused {k l : Level} {f : Scope → Expr × List Token → Except Error (Expr × List Token)}
      (hl : ∀ s, plain (exprAt s l []) = plain (exprAt s k []) >>= f s)
      (h : ReadsOn P whole (plain (exprAt s k [])) (plain (exprAt (s.endingAt stop) k []))) :
      ReadsOn P whole (plain (exprAt s l [])) (plain (exprAt (s.endingAt stop) l [])) := by
    obtain ⟨e, hk⟩ := plain_exprAt_nil s k
    rw [hl, hl]
    refine h.bind fun p hp => ?_
    rw [hk] at hp
    cases hp
  have calls := refused (fun s => plain_calls s []) primary
  have unary : ReadsOn P whole (plain (exprAt s .unary []))
      (plain (exprAt (s.endingAt stop) .unary [])) := by
    rw [exprAt, exprAt]
    exact calls
  have product := refused (fun s => plain_row s (l := .product) rfl []) unary
  have sum := refused (fun s => plain_row s (l := .sum) rfl []) product
  have comparison := refused (fun s => plain_comparison s []) sum
  have not : ReadsOn P whole (plain (exprAt s .not []))
      (plain (exprAt (s.endingAt stop) .not [])) := by
    rw [exprAt, exprAt]
    exact comparison
  have and := refused (fun s => plain_row s (l := .and) rfl []) not
  cases l with
  | or => exact refused (fun s => plain_row s (l := .or) rfl []) and
  | and => exact and
  | not => exact not
  | comparison => exact comparison
  | sum => exact sum
  | product => exact product
  | unary => exact unary
  | calls => exact calls
  | primary => exact primary

mutual

theorem readsOn_exprAt (hs : s.Ends P stop) (l : Level) (ts : List Token) (h : Within P whole ts) :
    ReadsOn P whole (plain (exprAt s l ts)) (plain (exprAt (s.endingAt stop) l ts)) := by
  match ts with
  | [] => exact readsOn_exprAt_nil hs l
  | t :: r =>
    by_cases hrow : l.isRow = true
    · have hlt := Level.rank_operands_lt (Level.ne_primary_of_isRow hrow)
      rw [plain_row s hrow, plain_row (s.endingAt stop) hrow]
      refine .bind (readsOn_exprAt hs l.operands (t :: r) h) fun p hp hleft => ?_
      have hlen := length_lt_of_plain hp
      exact readsOn_chain hs l p.1 p.2 hleft
    · match l, hrow with
      | .not, _ =>
        rw [plain_not s, plain_not (s.endingAt stop)]
        split
        · exact .bind (readsOn_exprAt hs .not r h.tail) fun _ _ hleft => .ok hleft
        · exact readsOn_exprAt hs .comparison (t :: r) h
      | .comparison, _ =>
        rw [plain_comparison s, plain_comparison (s.endingAt stop)]
        refine .bind (readsOn_exprAt hs .sum (t :: r) h) fun p hp hleft => ?_
        have hlen := length_lt_of_plain hp
        match p.2, hlen, hleft with
        | [], _, hleft => exact .ok hleft
        | u :: us, hlen, hleft =>
          simp only []
          split
          · exact .ok hleft
          · exact .bind (readsOn_exprAt hs .sum us hleft.tail) fun _ _ hleft => .ok hleft
      | .unary, _ =>
        rw [plain_unary s, plain_unary (s.endingAt stop)]
        split
        · exact .bind (readsOn_exprAt hs .unary r h.tail) fun _ _ hleft => .ok hleft
        · exact readsOn_exprAt hs .calls (t :: r) h
      | .calls, _ =>
        rw [plain_calls s, plain_calls (s.endingAt stop)]
        refine .bind (readsOn_exprAt hs .primary (t :: r) h) fun p hp hleft => ?_
        have hlen := length_lt_of_plain hp
        exact readsOn_methodCalls hs p.1 p.2 hleft
      | .primary, _ =>
        by_cases hlit : ∃ value, literal? t.kind = some value
        · obtain ⟨value, hlit⟩ := hlit
          rw [plain_primary_literal hlit, plain_primary_literal hlit]
          exact .ok h.tail
        by_cases hparen : t.kind = .symbol '('
        · rw [plain_primary_paren hparen, plain_primary_paren hparen]
          exact .bind (readsOn_exprAt hs .or r h.tail) fun p _ hleft =>
            .bind (readsOn_expect hs _ _ hleft) fun _ _ hleft => .ok hleft
        by_cases hword : ∃ root, t.kind = .word root
        · obtain ⟨root, hword⟩ := hword
          have hle := length_fieldNames_le r
          have hfields : Within P whole (fieldNames r).2 := h.tail.fieldNames
          rw [plain_primary_word hword, plain_primary_word hword]
          split
          · exact .ok .nil
          · rename_i u us hmid
            have hus : us.length < r.length := by
              rw [hmid, List.length_cons] at hle
              omega
            rw [hmid] at hfields
            split
            · refine .bind (readsOn_arguments hs us hfields.tail) fun p _ hleft => ?_
              have hcall := failsOn_dottedCall (s := s) root (fieldNames r).1 p.1 u.pos h.head
              refine ⟨⟨rfl, hcall.bind fun _ _ => .ok _⟩, fun q hq => ?_⟩
              obtain ⟨e, -, hq⟩ := bind_eq_ok.1 hq
              cases hq
              exact hleft
            · exact .ok hfields
        · have hnone : literal? t.kind = none := by
            cases hk : literal? t.kind with
            | none => rfl
            | some value => exact absurd ⟨value, hk⟩ hlit
          have hword' (root : String) : t.kind ≠ .word root := fun hr => hword ⟨root, hr⟩
          rw [plain_primary_other hnone hparen hword', plain_primary_other hnone hparen hword']
          exact .unexpected hs _ h
termination_by ts.length * 12 + l.rank
decreasing_by
  all_goals simp only [Level.rank, List.length_cons] at *
  all_goals omega

theorem readsOn_chain (hs : s.Ends P stop) (l : Level) (left : Expr) (ts : List Token)
    (h : Within P whole ts) :
    ReadsOn P whole (plain (chain s l left ts)) (plain (chain (s.endingAt stop) l left ts)) := by
  match ts with
  | [] =>
    rw [plain_chain_nil s, plain_chain_nil (s.endingAt stop)]
    exact .ok h
  | t :: r =>
    have hle := Level.rank_operands_le l
    rw [plain_chain s, plain_chain (s.endingAt stop)]
    split
    · exact .ok h
    · refine .bind (readsOn_exprAt hs l.operands r h.tail) fun p hp hleft => ?_
      have hlen := length_lt_of_plain hp
      exact readsOn_chain hs l _ p.2 hleft
termination_by ts.length * 12
decreasing_by
  all_goals simp only [List.length_cons] at *
  all_goals omega

theorem readsOn_methodCalls (hs : s.Ends P stop) (e : Expr) (ts : List Token)
    (h : Within P whole ts) :
    ReadsOn P whole (plain (methodCalls s e ts)) (plain (methodCalls (s.endingAt stop) e ts)) := by
  match ts with
  | [] =>
    rw [plain_methodCalls_nil s, plain_methodCalls_nil (s.endingAt stop)]
    exact .ok h
  | t :: r =>
    rw [plain_methodCalls s, plain_methodCalls (s.endingAt stop)]
    split
    · refine .bind (readsOn_expectWord hs _ h.tail) fun p hp hleft => ?_
      have hlen₁ := length_lt_of_plain hp
      refine .bind (readsOn_expect hs _ _ hleft) fun u hu hleft => ?_
      have hlen₂ := length_lt_of_plain hu
      refine .bind (readsOn_arguments hs u.2 hleft) fun q hq hleft => ?_
      have hlen₃ := length_lt_of_plain hq
      exact readsOn_methodCalls hs _ q.2 hleft
    · exact .ok h
termination_by ts.length * 12
decreasing_by
  all_goals simp only [List.length_cons] at *
  all_goals omega

theorem readsOn_arguments (hs : s.Ends P stop) (ts : List Token) (h : Within P whole ts) :
    ReadsOn P whole (plain (arguments s ts)) (plain (arguments (s.endingAt stop) ts)) := by
  match ts with
  | [] =>
    rw [arguments, arguments]
    exact .unexpected hs _ .nil
  | t :: r =>
    rw [plain_arguments s, plain_arguments (s.endingAt stop)]
    split
    · exact .ok h.tail
    · exact .bind (readsOn_exprList hs (t :: r) h) fun _ _ hleft =>
        .bind (readsOn_expect hs _ _ hleft) fun _ _ hleft => .ok hleft
termination_by ts.length * 12 + 10

theorem readsOn_exprList (hs : s.Ends P stop) (ts : List Token) (h : Within P whole ts) :
    ReadsOn P whole (plain (exprList s ts)) (plain (exprList (s.endingAt stop) ts)) := by
  rw [plain_exprList s, plain_exprList (s.endingAt stop)]
  refine .bind (readsOn_exprAt hs .or ts h) fun p hp hleft => ?_
  have hlen := length_lt_of_plain hp
  match p.2, hlen, hleft with
  | [], _, hleft => exact .ok hleft
  | t :: r, hlen, hleft =>
    simp only []
    split
    · exact .bind (readsOn_exprList hs r hleft.tail) fun _ _ hleft => .ok hleft
    · exact .ok hleft
termination_by ts.length * 12 + 9
decreasing_by
  · simp only [Level.rank]
    omega
  · simp only [List.length_cons] at *
    omega

end

/-! Statements -/

theorem readsOn_assignmentOrExpr (hs : s.Ends P stop) (h : Within P whole ts) :
    ReadsOn P whole (plain (assignmentOrExpr s ts))
      (plain (assignmentOrExpr (s.endingAt stop) ts)) := by
  rw [plain_assignmentOrExpr s, plain_assignmentOrExpr (s.endingAt stop)]
  refine .bind (readsOn_exprAt hs .or ts h) fun p hp hleft => ?_
  -- The place of a statement is never that of the end, where no expression stands.
  have hpos : (s.endingAt stop).peek ts = s.peek ts := by
    cases ts with
    | nil =>
      obtain ⟨e, he⟩ := plain_exprAt_nil s .or
      rw [expr, he] at hp
      cases hp
    | cons t ts => rfl
  rw [hpos]
  split
  · exact .ok .nil
  · rename_i t r hrest
    rw [hrest] at hleft
    split
    · split
      · exact .bind (readsOn_exprAt hs .or r hleft.tail) fun _ _ hleft => .ok hleft
      · exact .error rfl hleft.head
    · exact .ok hleft

theorem readsOn_simple (hs : s.Ends P stop) (h : Within P whole ts) :
    ReadsOn P whole (plain (simple s ts)) (plain (simple (s.endingAt stop) ts)) := by
  match ts with
  | [] => exact readsOn_assignmentOrExpr hs h
  | t :: r =>
    by_cases hreturn : t.kind = .keyword .return_
    · rw [plain_simple_return hreturn, plain_simple_return hreturn,
        Scope.inMethod_endingAt]
      split
      · exact .error rfl h.head
      · split
        · exact .ok h.tail
        · exact .bind (readsOn_exprAt hs .or r h.tail) fun _ _ hleft => .ok hleft
    by_cases hprint : t.kind = .keyword .print
    · rw [plain_simple_print hprint, plain_simple_print hprint]
      split
      · exact .ok h.tail
      · exact .bind (readsOn_exprList hs r h.tail) fun _ _ hleft => .ok hleft
    rw [plain_simple_other hreturn hprint, plain_simple_other hreturn hprint]
    exact readsOn_assignmentOrExpr hs h

theorem readsOn_statementEnd (hs : s.Ends P stop) (h : Within P whole ts) :
    ReadsOn P whole (plain (statementEnd s ts)) (plain (statementEnd (s.endingAt stop) ts)) := by
  match ts with
  | [] => exact .ok h
  | t :: r =>
    rw [plain_statementEnd s, plain_statementEnd (s.endingAt stop)]
    split
    · exact .ok h.tail
    · exact .unexpected hs _ h

theorem readsOn_condition (hs : s.Ends P stop) (h : Within P whole ts) :
    ReadsOn P whole (plain (condition s ts)) (plain (condition (s.endingAt stop) ts)) := by
  rw [plain_condition s, plain_condition (s.endingAt stop)]
  refine .bind (readsOn_exprAt hs .or ts h) fun p _ hleft => ?_
  split
  · exact .unexpected hs _ hleft
  · exact .bind (readsOn_expect hs _ _ hleft) fun _ _ hleft => .ok hleft

mutual

theorem readsOn_stmt (hs : s.Ends P stop) (ts : List Token) (h : Within P whole ts) :
    ReadsOn P whole (plain (stmt s ts)) (plain (stmt (s.endingAt stop) ts)) := by
  match ts with
  | [] =>
    rw [plain_stmt_nil s, plain_stmt_nil (s.endingAt stop)]
    exact readsOn_simple hs h
  | t :: r =>
    by_cases hclass : t.kind = .keyword .class_
    · rw [plain_stmt_class hclass, plain_stmt_class hclass]
      exact .error rfl h.head
    by_cases hif : t.kind = .keyword .if_
    · rw [plain_stmt_if hif, plain_stmt_if hif]
      refine .bind (readsOn_condition hs h.tail) fun c hc hleft => ?_
      have hlen₁ := length_lt_of_plain hc
      refine .bind (readsOn_suite hs c.2 hleft) fun yes hyes hleft => ?_
      have hlen₂ := length_lt_of_plain hyes
      match yes.2, hlen₂, hleft with
      | [], _, hleft => exact .ok hleft
      | u :: r₃, hlen₂, hleft =>
        simp only []
        split
        · refine .bind (readsOn_expect hs _ _ hleft.tail) fun v hv hleft => ?_
          have hlen₃ := length_lt_of_plain hv
          exact .bind (readsOn_suite hs v.2 hleft) fun _ _ hleft => .ok hleft
        · exact .ok hleft
    · rw [plain_stmt_other hclass hif, plain_stmt_other hclass hif]
      exact .bind (readsOn_simple hs h) fun _ _ hleft =>
        .bind (readsOn_statementEnd hs hleft) fun _ _ hleft => .ok hleft
termination_by ts.length * 4
decreasing_by
  all_goals simp only [List.length_cons] at *
  all_goals omega

theorem readsOn_suite (hs : s.Ends P stop) (ts : List Token) (h : Within P whole ts) :
    ReadsOn P whole (plain (suite s ts)) (plain (suite (s.endingAt stop) ts)) := by
  rw [plain_suite s, plain_suite (s.endingAt stop)]
  refine .bind (readsOn_expect hs _ _ h) fun n hn hleft => ?_
  have hlen₁ := length_lt_of_plain hn
  have hpos : (s.endingAt stop).peek ts = s.peek ts := by
    obtain ⟨rfl, -⟩ := plain_expect.1 hn
    rfl
  rw [hpos]
  refine .bind (readsOn_expect hs _ _ hleft) fun i hi hleft => ?_
  have hlen₂ := length_lt_of_plain hi
  exact .bind (readsOn_blockBody hs i.2 hleft) fun _ _ hleft => .ok hleft
termination_by ts.length * 4

theorem readsOn_blockBody (hs : s.Ends P stop) (ts : List Token) (h : Within P whole ts) :
    ReadsOn P whole (plain (blockBody s ts)) (plain (blockBody (s.endingAt stop) ts)) := by
  match ts with
  | [] =>
    rw [plain_blockBody_nil s, plain_blockBody_nil (s.endingAt stop)]
    exact .ok h
  | t :: r =>
    rw [plain_blockBody s, plain_blockBody (s.endingAt stop)]
    split
    · exact .ok h.tail
    · refine .bind (readsOn_stmt hs (t :: r) h) fun p hp hleft => ?_
      have hlen := length_lt_of_plain hp
      exact .bind (readsOn_blockBody hs p.2 hleft) fun _ _ hleft => .ok hleft
termination_by ts.length * 4 + 1
decreasing_by all_goals simp only [List.length_cons] at *; omega

end

/-! Classes and programs -/

theorem readsOn_parameters (hs : s.Ends P stop) (method : String) {line : Nat} (hline : P line)
    (names : List String) (ts : List Token) (h : Within P whole ts) :
    ReadsOn P whole (plain (parameters s method line names ts))
      (plain (parameters (s.endingAt stop) method line names ts)) := by
  rw [plain_parameters s, plain_parameters (s.endingAt stop)]
  refine .bind (readsOn_expectWord hs _ h) fun p hp hleft => ?_
  have hlen := length_lt_of_plain hp
  split
  · exact .error rfl hline
  · match p.2, hlen, hleft with
    | [], _, hleft => exact .ok hleft
    | t :: r, hlen, hleft =>
      simp only []
      split
      · exact readsOn_parameters hs method hline _ r hleft.tail
      · exact .ok hleft
termination_by ts.length
decreasing_by
  simp only [List.length_cons] at *
  omega

theorem readsOn_parameterList (hs : s.Ends P stop) (method : String) {line : Nat} (hline : P line)
    (h : Within P whole ts) :
    ReadsOn P whole (plain (parameterList s method line ts))
      (plain (parameterList (s.endingAt stop) method line ts)) := by
  rw [plain_parameterList s, plain_parameterList (s.endingAt stop)]
  split
  · exact .bind (readsOn_expect hs _ _ h) fun _ _ hleft => .ok hleft
  · exact .bind (readsOn_parameters hs method hline [] ts h) fun _ _ hleft =>
      .bind (readsOn_expect hs _ _ hleft) fun _ _ hleft => .ok hleft

theorem readsOn_methodDef (hs : s.Ends P stop) {pos : Pos} (hpos : P pos.line)
    (h : Within P whole ts) :
    ReadsOn P whole (plain (methodDef s pos ts)) (plain (methodDef (s.endingAt stop) pos ts)) := by
  have hbody : Scope.Ends P { s with inMethod := true } stop := ⟨hs.line, hs.same⟩
  rw [plain_methodDef s, plain_methodDef (s.endingAt stop)]
  exact .bind (readsOn_expectWord hs _ h) fun _ _ hleft =>
    .bind (readsOn_expect hs _ _ hleft) fun _ _ hleft =>
    .bind (readsOn_parameterList hs _ hpos hleft) fun _ _ hleft =>
    .bind (readsOn_expect hs _ _ hleft) fun _ _ hleft =>
    .bind (readsOn_suite hbody _ hleft) fun _ _ hleft => .ok hleft

theorem readsOn_classBody (hs : s.Ends P stop) (cls : String) (ms : List Method)
    (ts : List Token) (h : Within P whole ts) :
    ReadsOn P whole (plain (classBody s cls ms ts))
      (plain (classBody (s.endingAt stop) cls ms ts)) := by
  match ts with
  | [] =>
    rw [plain_classBody_nil s, plain_classBody_nil (s.endingAt stop)]
    exact .ok h
  | t :: r =>
    rw [plain_classBody s, plain_classBody (s.endingAt stop)]
    split
    · exact .ok h.tail
    · split
      · refine .bind (readsOn_methodDef hs h.head h.tail) fun p hp hleft => ?_
        have hlen := length_lt_of_plain hp
        exact readsOn_classBody hs cls _ p.2 hleft
      · exact .error rfl h.head
termination_by ts.length
decreasing_by
  simp only [List.length_cons]
  omega

theorem readsOn_parentClass (hs : s.Ends P stop) (h : Within P whole ts) :
    ReadsOn P whole (plain (parentClass s ts)) (plain (parentClass (s.endingAt stop) ts)) := by
  match ts with
  | [] => exact .ok h
  | t :: r =>
    rw [plain_parentClass s, plain_parentClass (s.endingAt stop)]
    split
    · refine .bind (readsOn_expectWord hs _ h.tail) fun n _ hleft =>
        .bind (readsOn_expect hs _ _ hleft) fun u _ hleft => ?_
      rw [Scope.classes_endingAt, hs.line_peek]
      split
      · exact .error rfl (h.tail.peek hs)
      · exact .ok hleft
    · exact .ok h

theorem readsOn_classDef (hs : s.Ends P stop) {line : Nat} (hline : P line)
    (h : Within P whole ts) :
    ReadsOn P whole (plain (classDef s line ts)) (plain (classDef (s.endingAt stop) line ts)) := by
  rw [plain_classDef s, plain_classDef (s.endingAt stop), Scope.classes_endingAt]
  refine .bind (readsOn_expectWord hs _ h) fun n _ hleft => ?_
  have hbody : Scope.Ends P { s with current := some n.1 } stop := ⟨hs.line, hs.same⟩
  split
  · exact .error rfl hline
  · exact .bind (readsOn_parentClass hs hleft) fun _ _ hleft =>
      .bind (readsOn_expect hs _ _ hleft) fun _ _ hleft =>
      .bind (readsOn_expect hs _ _ hleft) fun _ _ hleft =>
      .bind (readsOn_expect hs _ _ hleft) fun _ _ hleft =>
      .bind (readsOn_classBody hbody _ _ _ hleft) fun _ _ hleft => .ok hleft

/-- The reading of a program that ends at another place of a line comes to the same. -/
theorem agreesOn_program {q : Pos} (hstop : P stop.line) (hline : q.line = stop.line)
    (classes : ClassTable) (ts : List Token) (h : Within P whole ts) :
    AgreesOn P (program stop classes ts) (program q classes ts) := by
  have hs : (topScope stop classes).Ends P q := ⟨hstop, hline⟩
  match ts with
  | [] =>
    rw [program_nil, program_nil]
    exact .ok _
  | t :: r =>
    by_cases hnewline : t.kind = .newline
    · rw [program_newline _ _ hnewline, program_newline _ _ hnewline]
      exact agreesOn_program hstop hline classes r h.tail
    by_cases hclass : t.kind = .keyword .class_
    · rw [program_class _ _ hclass, program_class _ _ hclass]
      have hread := readsOn_classDef hs h.head h.tail
      refine hread.toAgreesOn.bind fun c hc => ?_
      have hlen := length_lt_of_plain hc
      exact .bind (agreesOn_program hstop hline _ c.2 (hread.leaves c hc)) fun _ _ => .ok _
    · rw [program_stmt _ _ hnewline hclass, program_stmt _ _ hnewline hclass]
      have hread := readsOn_stmt hs (t :: r) h
      refine hread.toAgreesOn.bind fun st hst => ?_
      have hlen := length_lt_of_plain hst
      exact .bind (agreesOn_program hstop hline _ st.2 (hread.leaves st hst)) fun _ _ => .ok _
termination_by ts.length
decreasing_by
  all_goals simp only [List.length_cons] at *
  all_goals omega

theorem failsOn_program (hstop : P stop.line) (classes : ClassTable) (h : ∀ t ∈ ts, P t.line) :
    FailsOn P (program stop classes ts) :=
  (agreesOn_program hstop rfl classes ts (.self h)).fails

end Grammar

/-- Whatever tokens are refused as a program are refused in reading, at the line of a token or of
the end of the file. -/
theorem Program.failsOn_ofTokens (classes : ClassTable) {ts : List Token}
    (hstop : P (Program.stop ts).line) (h : ∀ t ∈ ts, P t.line) :
    FailsOn P (Program.ofTokens classes ts) :=
  Grammar.failsOn_program hstop classes fun t ht => h t (List.takeWhile_sublist _ |>.mem ht)

theorem Program.refuses_ofTokens (classes : ClassTable) (ts : List Token) :
    Refuses (Program.ofTokens classes ts) :=
  FailsOn.refuses (Program.failsOn_ofTokens (P := fun _ => True) classes trivial fun _ _ => trivial)

end ClassLang
