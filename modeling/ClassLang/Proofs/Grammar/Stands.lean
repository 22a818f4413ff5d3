import ClassLang.Proofs.Program
import ClassLang.Proofs.Token.Levels

/-!
Indentation is the structure of blocks. What begins on the lines of a program, and how deep, is read
off its tree: a line for each statement, for the head of each method and for each `else`. These are
the lines of its text, less those of methods that later ones of their name replaced.
-/

namespace ClassLang

/-- What begins on a line. -/
inductive Header where
  | simple
  | choice
  | alternative
  | cls (name : String)
  | method (name : String)
deriving DecidableEq

/-- A line on which something begins, and the number of blocks around that. -/
structure Stand where
  line : Nat
  depth : Nat
  header : Header
deriving DecidableEq

mutual

/-- What begins on the lines of a statement, where so many blocks are around it. The body of a class
counts as a block. -/
def Stmt.stands (d : Nat) : Stmt → List Stand
  | .branch _ yes no pos =>
    ⟨pos.line, d, .choice⟩ :: (yes.stands (d + 1) ++ Stmt.standsElse d no)
  | .block body _ => Stmt.standsAll d body
  | .classDef c pos => ⟨pos.line, d, .cls c.name⟩ :: c.stands (d + 1)
  | .methodBody body _ => body.stands d
  | .assign _ _ pos | .assignField _ _ _ pos | .print _ pos | .give _ pos | .expr _ pos =>
    [⟨pos.line, d, .simple⟩]
termination_by structural s => s

/-- What begins on the lines of an `else`, which stands as deep as its statement. -/
def Stmt.standsElse (d : Nat) : Option Stmt → List Stand
  | none => []
  | some s => ⟨s.pos.line, d, .alternative⟩ :: s.stands (d + 1)
termination_by structural s => s

/-- What begins on the lines of statements of one block. -/
def Stmt.standsAll (d : Nat) : List Stmt → List Stand
  | [] => []
  | s :: ss => s.stands d ++ Stmt.standsAll d ss
termination_by structural ss => ss

/-- What begins on the lines of the body of a class. -/
def Class.stands (d : Nat) : Class → List Stand
  | ⟨_, methods, _⟩ => Method.standsAll d methods
termination_by structural c => c

/-- What begins on the lines of methods of one class. -/
def Method.standsAll (d : Nat) : List Method → List Stand
  | [] => []
  | m :: ms => m.stands d ++ Method.standsAll d ms
termination_by structural ms => ms

/-- What begins on the lines of a method. -/
def Method.stands (d : Nat) : Method → List Stand
  | ⟨name, _, body⟩ => ⟨body.pos.line, d, .method name⟩ :: body.stands (d + 1)
termination_by structural m => m

end

/-- What begins on a line, by its first tokens. -/
def Line.header (l : Line) : Header :=
  match l.tokens.map Token.kind with
  | .keyword .if_ :: _ => .choice
  | .keyword .else_ :: _ => .alternative
  | .keyword .class_ :: .word name :: _ => .cls name
  | .keyword .def_ :: .word name :: _ => .method name
  | _ => .simple

/-- What begins on a line, with the number of the line and its level. -/
def Line.stand (l : Line) : Stand := ⟨l.number, l.level, l.header⟩

namespace Grammar

variable {last d : Nat} {ls : List Line} {t u : Token} {ts rest : List Token}

theorem Markless.enclosed {us : List Token} (ht : t.kind.isMark = false) (hus : Markless us)
    (hu : u.kind.isMark = false) : Markless (t :: (us ++ [u])) :=
  .cons ht (hus.append (.single hu))

/-! Statements -/

theorem SpellsSimple.pos_eq {known : String → Bool} {inMethod : Bool} {st : Stmt}
    (h : SpellsSimple known inMethod ts st rest) : st.pos = firstPos ts := by
  cases h with
  | assign hp _ _ =>
    rename_i path _ _ _ _
    unfold assignment
    split <;> rfl
  | _ => rfl

theorem SpellsSimple.stands_eq {known : String → Bool} {inMethod : Bool} {st : Stmt}
    (h : SpellsSimple known inMethod ts st rest) (d : Nat) :
    st.stands d = [⟨st.pos.line, d, .simple⟩] := by
  cases h with
  | assign hp _ _ =>
    unfold assignment
    split <;> rfl
  | _ => rfl

/-- A statement of one line begins as none of the others. -/
theorem SpellsSimple.header_eq {known : String → Bool} {inMethod : Bool} {st : Stmt} {l : Line}
    {us : List Token} (h : SpellsSimple known inMethod ts st rest) (hts : ts = l.tokens ++ us)
    (hne : l.tokens ≠ []) : l.header = .simple := by
  obtain ⟨t, r, ht⟩ := List.exists_cons_of_ne_nil hne
  rw [hts, ht] at h
  have hif : t.kind ≠ .keyword .if_ := h.ne_if
  have helse : t.kind ≠ .keyword .else_ := h.begins.ne_kind rfl
  have hclass : t.kind ≠ .keyword .class_ := h.begins.ne_kind rfl
  have hdef : t.kind ≠ .keyword .def_ := h.begins.ne_kind rfl
  rw [Line.header, ht, List.map_cons]
  generalize t.kind = k at hif helse hclass hdef
  split <;> simp_all

/-- The first lines are filled by what begins on them, none of them less deep than so many levels,
and the tokens of the others are left. -/
def Fills (last d e : Nat) (ls : List Line) (ss : List Stand) (rest : List Token) : Prop :=
  ∃ us vs, ls = us ++ vs ∧ ss = us.map Line.stand ∧ (∀ l ∈ us, d ≤ l.level) ∧
    rest = laidOut last e vs

namespace Fills

variable {e : Nat} {ss ss' : List Stand}

theorem nil (h : rest = laidOut last e ls) : Fills last d e ls [] rest :=
  ⟨[], ls, rfl, rfl, nofun, h⟩

/-- A line comes first. -/
theorem line {l : Line} (hlevel : l.level = d) {k : Nat} (hk : d ≤ k)
    (h : Fills last k e ls ss rest) : Fills last d e (l :: ls) (l.stand :: ss) rest := by
  obtain ⟨us, vs, rfl, rfl, hdeep, hrest⟩ := h
  refine ⟨l :: us, vs, rfl, rfl, ?_, hrest⟩
  intro x hx
  rcases List.mem_cons.1 hx with rfl | hx
  · exact hlevel.ge
  · exact hk.trans (hdeep x hx)

theorem append (hls : ∀ l ∈ ls, l.Placed) {k : Nat} (h : Fills last k e ls ss ts) (hk : d ≤ k)
    {e' : Nat} (hmore : ∀ vs, (∀ l ∈ vs, l.Placed) → laidOut last e vs = ts →
      Fills last d e' vs ss' rest) : Fills last d e' ls (ss ++ ss') rest := by
  obtain ⟨us, vs, rfl, rfl, hdeep, hts⟩ := h
  obtain ⟨us', vs', rfl, rfl, hdeep', hrest⟩ :=
    hmore vs (fun l hl => hls l (List.mem_append_right us hl)) hts.symm
  refine ⟨us ++ us', vs', (List.append_assoc ..).symm, (List.map_append ..).symm, ?_, hrest⟩
  intro x hx
  rcases List.mem_append.1 hx with hx | hx
  · exact hk.trans (hdeep x hx)
  · exact hdeep' x hx

end Fills

/-- A line at whose first token something begins. -/
theorem stand_eq {l : Line} (hl : l.Placed) (htokens : l.tokens = t :: ts) (hlevel : l.level = d)
    {k : Header} (hheader : l.header = k) : l.stand = ⟨t.pos.line, d, k⟩ := by
  have hline : t.pos.line = l.number := hl.line t (by rw [htokens]; exact List.mem_cons_self)
  rw [Line.stand, hline, hlevel, hheader]

variable {known : String → Bool} {inMethod : Bool}

mutual

theorem SpellsStmt.fills {ts rest : List Token} {st : Stmt} {d : Nat} {ls : List Line}
    (hls : ∀ l ∈ ls, l.Placed) : SpellsStmt known inMethod ts st rest → laidOut last d ls = ts →
      Fills last d d ls (st.stands d) rest
  | .simple hs hnewline, h => by
    obtain ⟨us, rfl, hus⟩ := hs.covers
    have hne : us ≠ [] := by
      rintro rfl
      exact hs.begins.ne_kind rfl hnewline
    obtain ⟨l, more, rfl, hlevel, rfl, -, hrest⟩ := laidOut_eq_line hls hne hus h hnewline
    have hheader : l.header = .simple := hs.header_eq rfl hne
    obtain ⟨t, r, ht⟩ := List.exists_cons_of_ne_nil hne
    have hpos : st.pos = t.pos := by
      rw [hs.pos_eq, ht]
      rfl
    rw [hs.stands_eq, hpos, ← stand_eq (hls l List.mem_cons_self) ht hlevel hheader]
    exact .line hlevel (Nat.le_refl d) (.nil hrest)
  | .branch (t := t) (u := u) ht hc hu hs, h => by
    obtain ⟨cs, rfl, hcs⟩ := hc.covers
    have hmarkless : Markless (t :: (cs ++ [u])) :=
      .enclosed (isMark_of_eq ht rfl) hcs (isMark_of_eq hu rfl)
    obtain ⟨l, more, rfl, hlevel, htokens, -, hfills⟩ :=
      hs.fills hls (List.cons_ne_nil _ _) hmarkless (h.trans (by simp))
    have hheader : l.header = .choice := by rw [Line.header, htokens, List.map_cons, ht]
    rw [Stmt.stands, Stmt.standsElse, List.append_nil,
      ← stand_eq (hls l List.mem_cons_self) htokens hlevel hheader]
    exact .line hlevel (Nat.le_succ d) hfills
  | @SpellsStmt.branchElse _ _ t u v _ _ _ _ _ no w _ ht hc hu hs hv hw hs', h => by
    obtain ⟨cs, rfl, hcs⟩ := hc.covers
    have hmarkless : Markless (t :: (cs ++ [u])) :=
      .enclosed (isMark_of_eq ht rfl) hcs (isMark_of_eq hu rfl)
    obtain ⟨l, more, rfl, hlevel, htokens, -, hfills⟩ :=
      hs.fills hls (List.cons_ne_nil _ _) hmarkless (h.trans (by simp))
    have hheader : l.header = .choice := by rw [Line.header, htokens, List.map_cons, ht]
    have hmore : ∀ x ∈ more, x.Placed := fun x hx => hls x (List.mem_cons_of_mem l hx)
    rw [Stmt.stands, ← stand_eq (hls l List.mem_cons_self) htokens hlevel hheader]
    refine .line hlevel (Nat.le_refl d) (hfills.append hmore (Nat.le_succ d) fun vs hvs heq => ?_)
    have hmarkless' : Markless [v, w] :=
      .cons (isMark_of_eq hv rfl) (.single (isMark_of_eq hw rfl))
    obtain ⟨l', more', rfl, hlevel', htokens', hline', hfills'⟩ :=
      hs'.fills hvs (List.cons_ne_nil _ _) hmarkless' heq
    have hheader' : l'.header = .alternative := by rw [Line.header, htokens', List.map_cons, hv]
    have hstand : l'.stand = ⟨no.pos.line, d, .alternative⟩ := by
      rw [Line.stand, hline', hlevel', hheader']
    rw [Stmt.standsElse, ← hstand]
    exact .line hlevel' (Nat.le_succ d) hfills'

theorem SpellsSuite.fills {ts rest us : List Token} {st : Stmt} {d : Nat} {ls : List Line}
    (hls : ∀ l ∈ ls, l.Placed) : SpellsSuite known inMethod ts st rest → us ≠ [] → Markless us →
      laidOut last d ls = us ++ ts →
      ∃ l more, ls = l :: more ∧ l.level = d ∧ l.tokens = us ∧ st.pos.line = l.number ∧
        Fills last (d + 1) d more (st.stands (d + 1)) rest
  | .block hnewline hindent hb, hne, hus, h => by
    obtain ⟨l, more, rfl, hlevel, htokens, hline, hbody⟩ :=
      laidOut_eq_head hls hne hus h hnewline hindent
    have hmore : ∀ x ∈ more, x.Placed := fun x hx => hls x (List.mem_cons_of_mem l hx)
    exact ⟨l, more, rfl, hlevel, htokens, hline, hb.fills hmore hbody.symm⟩

theorem SpellsBlock.fills {ts rest : List Token} {body : List Stmt} {d : Nat} {ls : List Line}
    (hls : ∀ l ∈ ls, l.Placed) : SpellsBlock known inMethod ts body rest →
      laidOut last (d + 1) ls = ts → Fills last (d + 1) d ls (Stmt.standsAll (d + 1) body) rest
  | .nil ht, h => .nil (laidOut_eq_dedent hls h ht)
  | .cons hs hb, h =>
    (hs.fills hls h).append hls (Nat.le_refl _) fun _ hvs heq => hb.fills hvs heq

end

end Grammar

end ClassLang
