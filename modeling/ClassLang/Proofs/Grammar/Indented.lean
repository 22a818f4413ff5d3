import ClassLang.Proofs.Grammar.Stands

/-!
Indentation is the structure of blocks: what begins on the lines of a program by its tree are the
lines of its text, less those of methods that later ones of their name replaced.
-/

namespace ClassLang

/-- Holds of a line of a method that a later one of its name replaces in its class: the line belongs
to the first head of the two, behind which no line stands less deep up to the second. -/
inductive Superseded (ls : List Line) (l : Line) : Prop where
  | intro {front lines between back : List Line} {head later : Line} {name : String} :
      ls = front ++ head :: lines ++ between ++ later :: back → l ∈ head :: lines →
      head.header = .method name → later.header = .method name → later.level = head.level →
      (∀ x ∈ lines, head.level < x.level) → (∀ x ∈ between, head.level ≤ x.level) →
      Superseded ls l

namespace Superseded

variable {us : List Line} {l : Line}

theorem append_left (h : Superseded us l) (vs : List Line) : Superseded (vs ++ us) l := by
  obtain ⟨rfl, hl, hhead, hlater, hlevel, hlines, hbetween⟩ := h
  rename_i front lines between back head later name
  have hsplit : vs ++ (front ++ head :: lines ++ between ++ later :: back) =
      (vs ++ front) ++ head :: lines ++ between ++ later :: back := by simp
  exact .intro hsplit hl hhead hlater hlevel hlines hbetween

theorem append_right (h : Superseded us l) (vs : List Line) : Superseded (us ++ vs) l := by
  obtain ⟨rfl, hl, hhead, hlater, hlevel, hlines, hbetween⟩ := h
  rename_i front lines between back head later name
  have hsplit : front ++ head :: lines ++ between ++ later :: back ++ vs =
      front ++ head :: lines ++ between ++ later :: (back ++ vs) := by simp
  exact .intro hsplit hl hhead hlater hlevel hlines hbetween

end Superseded

/-- What is listed begins on some of the lines, in their order, and the others are those of methods
that were replaced. -/
structure Accounts (us : List Line) (ss : List Stand) : Prop where
  sublist : ss.Sublist (us.map Line.stand)
  complete : ∀ l ∈ us, l.stand ∈ ss ∨ Superseded us l

namespace Accounts

variable {us vs : List Line} {ss ss' : List Stand}

theorem all (us : List Line) : Accounts us (us.map Line.stand) :=
  ⟨.refl _, fun _ hl => .inl (List.mem_map_of_mem hl)⟩

theorem append (h : Accounts us ss) (h' : Accounts vs ss') : Accounts (us ++ vs) (ss ++ ss') := by
  constructor
  · rw [List.map_append]
    exact h.sublist.append h'.sublist
  · intro l hl
    rcases List.mem_append.1 hl with hl | hl
    · exact (h.complete l hl).imp (List.mem_append_left ss') fun hs => hs.append_right vs
    · exact (h'.complete l hl).imp (List.mem_append_right ss) fun hs => hs.append_left us

end Accounts

namespace Grammar

variable {last d : Nat} {ls : List Line} {ts rest : List Token} {known : String → Bool}

/-! Methods -/

/-- A method that is read first is lost if its name comes again. -/
theorem foldl_addMethod (ms acc : List Method) : ms.foldl addMethod acc =
    acc.filter (fun m => m.name ∉ ms.map (·.name)) ++ keptMethods ms := by
  induction ms generalizing acc with
  | nil =>
    have hall : acc.filter (fun m => m.name ∉ ([] : List Method).map (·.name)) = acc :=
      List.filter_eq_self.2 fun m _ => decide_eq_true List.not_mem_nil
    rw [hall]
    exact (List.append_nil acc).symm
  | cons m ms ih =>
    have hfilter : (acc.filter (·.name != m.name)).filter (fun x => x.name ∉ ms.map (·.name)) =
        acc.filter (fun x => x.name ∉ (m :: ms).map (·.name)) := by
      rw [List.filter_filter]
      refine List.filter_congr fun x _ => ?_
      rw [Bool.eq_iff_iff, Bool.and_eq_true, decide_eq_true_iff, decide_eq_true_iff, bne_iff_ne,
        List.map_cons, List.mem_cons, not_or, and_comm]
    have hkept : keptMethods (m :: ms) = ms.foldl addMethod (addMethod [] m) := rfl
    rw [hkept, List.foldl_cons, ih, ih, addMethod, List.filter_append, hfilter, List.append_assoc]
    rfl

theorem keptMethods_cons (m : Method) (ms : List Method) : keptMethods (m :: ms) =
    if m.name ∈ ms.map (·.name) then keptMethods ms else m :: keptMethods ms := by
  have hkept : keptMethods (m :: ms) = ms.foldl addMethod [m] := rfl
  rw [hkept, foldl_addMethod, List.filter_cons, List.filter_nil]
  by_cases h : m.name ∈ ms.map (·.name)
  · have hnot : ¬decide (m.name ∉ ms.map (·.name)) = true := by
      rw [decide_eq_true_iff]
      exact not_not_intro h
    rw [if_pos h, if_neg hnot, List.nil_append]
  · rw [if_neg h, if_pos (decide_eq_true h), List.singleton_append]

/-- Lines carry the methods of a class that are defined on them one after another: each has its head
there, and what begins on the lines is what begins in those that are kept. -/
structure Carries (d : Nat) (us : List Line) (ms : List Method) : Prop where
  accounts : Accounts us (Method.standsAll d (keptMethods ms))
  deep : ∀ l ∈ us, d ≤ l.level
  heads : ∀ m ∈ ms, ∃ front head back, us = front ++ head :: back ∧
    head.header = .method m.name ∧ head.level = d

namespace Carries

variable {us : List Line} {ms : List Method} {m : Method} {head : Line} {lines : List Line}

theorem nil : Carries d [] [] :=
  ⟨.all [], nofun, nofun⟩

/-- A method in front is replaced if its name comes again. -/
theorem superseded (h : Carries d us ms) (hagain : m.name ∈ ms.map (·.name))
    (hheader : head.header = .method m.name) (hlevel : head.level = d)
    (hlines : ∀ l ∈ lines, d < l.level) :
    ∀ l ∈ head :: lines, Superseded (head :: lines ++ us) l := by
  obtain ⟨m', hm', hname⟩ := List.mem_map.1 hagain
  obtain ⟨between, later, back, rfl, hlater, hlater'⟩ := h.heads m' hm'
  have hbetween : ∀ x ∈ between, d ≤ x.level := fun x hx => h.deep x (List.mem_append_left _ hx)
  have hsplit : head :: lines ++ (between ++ later :: back) =
      [] ++ head :: lines ++ between ++ later :: back := by simp
  rw [hname] at hlater
  rw [← hlevel] at hlines hbetween hlater'
  intro l hl
  exact .intro hsplit hl hheader hlater hlater' hlines hbetween

/-- One more method stands in front. -/
theorem cons (h : Carries d us ms) (hstands : m.stands d = (head :: lines).map Line.stand)
    (hheader : head.header = .method m.name) (hlevel : head.level = d)
    (hlines : ∀ l ∈ lines, d < l.level) : Carries d (head :: lines ++ us) (m :: ms) := by
  constructor
  · rw [keptMethods_cons]
    by_cases hagain : m.name ∈ ms.map (·.name)
    · rw [if_pos hagain]
      constructor
      · rw [List.map_append]
        exact h.accounts.sublist.trans (List.sublist_append_right _ _)
      · intro l hl
        rcases List.mem_append.1 hl with hl | hl
        · exact .inr (h.superseded hagain hheader hlevel hlines l hl)
        · exact (h.accounts.complete l hl).imp id fun hs => hs.append_left (head :: lines)
    · rw [if_neg hagain, Method.standsAll, hstands]
      exact (Accounts.all _).append h.accounts
  · intro l hl
    rcases List.mem_append.1 hl with hl | hl
    · rcases List.mem_cons.1 hl with rfl | hl
      · exact hlevel.ge
      · exact (hlines l hl).le
    · exact h.deep l hl
  · intro m' hm'
    rcases List.mem_cons.1 hm' with rfl | hm'
    · exact ⟨[], head, lines ++ us, rfl, hheader, hlevel⟩
    · obtain ⟨front, later, back, rfl, hlater⟩ := h.heads m' hm'
      exact ⟨head :: lines ++ front, later, back, (List.append_assoc ..).symm, hlater⟩

end Carries

/-- A method of a class begins on the first line, and its body is the lines behind that one that
stand deeper. -/
theorem SpellsSuite.method_lines {t u v w : Token} {ws us : List Token} {name : String}
    {params : List String} {body : Stmt} (ht : t.kind = .keyword .def_) (hu : u.kind = .word name)
    (hv : v.kind = .symbol '(') (hp : SpellsParams ts params (w :: ws)) (hw : w.kind = .symbol ':')
    (hs : SpellsSuite known true ws body us) (hls : ∀ l ∈ ls, l.Placed)
    (heq : laidOut last d ls = t :: u :: v :: ts) :
    ∃ head lines vs, ls = head :: (lines ++ vs) ∧ head.header = .method name ∧ head.level = d ∧
      (∀ l ∈ lines, d < l.level) ∧ us = laidOut last d vs ∧
      Method.stands d ⟨name, withoutReceiver params, .methodBody body t.pos⟩ =
        (head :: lines).map Line.stand := by
  obtain ⟨ps, rfl, hps⟩ := hp.covers
  have hmarkless : Markless (t :: u :: v :: (ps ++ [w])) :=
    .cons (isMark_of_eq ht rfl) (.cons (isMark_of_eq hu rfl) (.enclosed (isMark_of_eq hv rfl) hps
      (isMark_of_eq hw rfl)))
  have hhead : laidOut last d ls = t :: u :: v :: (ps ++ [w]) ++ ws := by
    rw [heq]
    simp
  obtain ⟨head, more, rfl, hlevel, htokens, -, lines, vs, rfl, hlines, hdeep, hrest⟩ :=
    hs.fills hls (List.cons_ne_nil _ _) hmarkless hhead
  have hheader : head.header = .method name := by
    rw [Line.header, htokens, List.map_cons, List.map_cons, ht, hu]
  refine ⟨head, lines, vs, rfl, hheader, hlevel, hdeep, hrest, ?_⟩
  rw [List.map_cons, ← hlines, stand_eq (hls head List.mem_cons_self) htokens hlevel hheader]
  rfl

theorem SpellsMethods.carries {ms : List Method} (h : SpellsMethods known ts ms rest)
    (hls : ∀ l ∈ ls, l.Placed) (heq : laidOut last (d + 1) ls = ts) :
    ∃ us vs, ls = us ++ vs ∧ Carries (d + 1) us ms ∧ rest = laidOut last d vs := by
  induction h generalizing ls with
  | nil ht => exact ⟨[], ls, rfl, .nil, laidOut_eq_dedent hls heq ht⟩
  | cons ht hu hv hp hw hs _ ih =>
    obtain ⟨head, lines, vs, rfl, hheader, hlevel, hdeep, hrest, hstands⟩ :=
      hs.method_lines ht hu hv hp hw hls heq
    have hvs : ∀ l ∈ vs, l.Placed := fun l hl =>
      hls l (List.mem_cons_of_mem head (List.mem_append_right lines hl))
    obtain ⟨us, vs', rfl, hcarries, hrest'⟩ := ih hvs hrest.symm
    exact ⟨head :: lines ++ us, vs', by simp, hcarries.cons hstands hheader hlevel hdeep, hrest'⟩

/-! Classes and programs -/

/-- A class begins on the first line, and its methods on the lines behind that one. -/
theorem SpellsClass.class_lines {classes : ClassTable} {c : Class} {t : Token}
    (h : SpellsClass classes ts c rest) (ht : t.kind = .keyword .class_)
    (hls : ∀ l ∈ ls, l.Placed) (heq : laidOut last d ls = t :: ts) :
    ∃ head more ms, ls = head :: more ∧ head.header = .cls c.name ∧ head.level = d ∧
      head.stand = ⟨t.pos.line, d, .cls c.name⟩ ∧ c.methods = keptMethods ms ∧
      SpellsMethods (knownIn classes c.name) (laidOut last (d + 1) more) ms rest := by
  cases h with
  | @intro u v w _ _ name _ ms x xs hu _ hp hv hw hx hm =>
    obtain ⟨ps, rfl, hps⟩ := hp.covers
    have hmarkless : Markless (t :: u :: (ps ++ [v])) :=
      .cons (isMark_of_eq ht rfl) (.enclosed (isMark_of_eq hu rfl) hps (isMark_of_eq hv rfl))
    have hhead : laidOut last d ls = t :: u :: (ps ++ [v]) ++ w :: x :: xs := by
      rw [heq]
      simp
    obtain ⟨head, more, rfl, hlevel, htokens, -, hbody⟩ :=
      laidOut_eq_head hls (List.cons_ne_nil _ _) hmarkless hhead hw hx
    have hheader : head.header = .cls name := by
      rw [Line.header, htokens, List.map_cons, List.map_cons, ht, hu]
    have hstand := stand_eq (hls head List.mem_cons_self) htokens hlevel hheader
    rw [hbody] at hm
    exact ⟨head, more, ms, rfl, hheader, hlevel, hstand, rfl, hm⟩

theorem SpellsClass.accounts {classes : ClassTable} {c : Class} {t : Token}
    (h : SpellsClass classes ts c rest) (ht : t.kind = .keyword .class_)
    (hls : ∀ l ∈ ls, l.Placed) (heq : laidOut last d ls = t :: ts) :
    ∃ us vs, ls = us ++ vs ∧ Accounts us ((Stmt.classDef c t.pos).stands d) ∧
      rest = laidOut last d vs := by
  obtain ⟨head, more, ms, rfl, -, -, hstand, hmethods, hm⟩ := h.class_lines ht hls heq
  obtain ⟨us, vs, rfl, hcarries, hrest⟩ :=
    hm.carries (fun l hl => hls l (List.mem_cons_of_mem head hl)) rfl
  obtain ⟨name, methods, parent⟩ := c
  subst hmethods
  refine ⟨head :: us, vs, rfl, ?_, hrest⟩
  rw [Stmt.stands, Class.stands, ← hstand]
  exact (Accounts.all [head]).append hcarries.accounts

theorem SpellsProgram.accounts {classes after : ClassTable} {body : List Stmt}
    (h : SpellsProgram classes ts body after) (hls : ∀ l ∈ ls, l.Placed)
    (heq : laidOut last d ls = ts) : Accounts ls (Stmt.standsAll d body) := by
  induction h generalizing ls with
  | nil =>
    rw [eq_nil_of_laidOut heq]
    exact .all []
  | cls ht hc _ ih =>
    obtain ⟨us, vs, rfl, haccounts, hrest⟩ := hc.accounts ht hls heq
    exact haccounts.append (ih (fun l hl => hls l (List.mem_append_right us hl)) hrest.symm)
  | stmt hs _ ih =>
    obtain ⟨us, vs, rfl, hfills, -, hrest⟩ := hs.fills hls heq
    rw [Stmt.standsAll, hfills]
    exact (Accounts.all us).append
      (ih (fun l hl => hls l (List.mem_append_right us hl)) hrest.symm)

end Grammar

namespace Program

open Grammar Token

/-- What begins on the lines of a program. -/
def stands (p : Program) : List Stand := Stmt.standsAll 0 p.statements

/-- What begins by the tree of a program stands on lines of its source, one behind the other, each
with two leading spaces for every block around it. Of the other lines, those with content belong to
methods that were replaced. -/
theorem indented {classes : ClassTable} {source : String} {p : Program}
    (h : ofSource classes source = .ok p) :
    ∃ ls, readLines 1 (Text.sourceLines source.toList) = .ok ls ∧
      (∀ s ∈ p.stands, ∃ i text l, s.line = i + 1 ∧
        (Text.sourceLines source.toList)[i]? = some text ∧ Line.read s.line text = .ok (some l) ∧
        l.header = s.header ∧ Line.spaces text = 2 * s.depth) ∧
      (p.stands.map Stand.line).Pairwise (· < ·) ∧
      ∀ i text, (Text.sourceLines source.toList)[i]? = some text → Line.isBare text = false →
        (∃ s ∈ p.stands, s.line = i + 1) ∨
          ∃ l, Line.read (i + 1) text = .ok (some l) ∧ Superseded ls l := by
  obtain ⟨ls, hls, hspells⟩ := ofSource_eq_ok.1 h
  have hplaced : ∀ l ∈ ls, l.Placed := by
    intro l hl
    obtain ⟨i, text, -, hread⟩ := exists_of_mem_readLines hls hl
    exact (Line.read_eq_some hread).2.2
  have haccounts : Accounts ls p.stands := hspells.accounts hplaced rfl
  refine ⟨ls, hls, ?_, ?_, ?_⟩
  · intro s hs
    obtain ⟨l, hl, rfl⟩ := List.mem_map.1 (haccounts.sublist.mem hs)
    obtain ⟨i, text, htext, hread⟩ := exists_of_mem_readLines hls hl
    have hnumber : l.number = i + 1 := (Line.number_of_read hread).trans (Nat.add_comm 1 i)
    rw [Nat.add_comm, ← hnumber] at hread
    exact ⟨i, text, l, hnumber, htext, hread, rfl, (Line.read_eq_some hread).2.1.symm⟩
  · have hlines : (p.stands.map Stand.line).Sublist ((ls.map Line.stand).map Stand.line) :=
      haccounts.sublist.map Stand.line
    rw [List.map_map] at hlines
    exact (pairwise_readLines hls).1.sublist hlines
  · intro i text htext hbare
    obtain ⟨l, hl, hread⟩ := exists_mem_readLines hls htext hbare
    rw [Nat.add_comm] at hread
    refine (haccounts.complete l hl).imp (fun hs => ?_) fun hs => ⟨l, hread, hs⟩
    exact ⟨l.stand, hs, Line.number_of_read hread⟩

/-- A method that is replaced by one that branches. -/
def replacing : String :=
  "class Pet:\n  def call():\n    return \"old\"\n\n  def call():\n    if self.name:\n" ++
    "      return self.name\n    else:\n      return \"new\"\nprint \"done\"\n"

theorem indented_replacing : ∃ p ls, ofSource .empty replacing = .ok p ∧
    p.stands = [⟨1, 0, .cls "Pet"⟩, ⟨5, 1, .method "call"⟩, ⟨6, 2, .choice⟩, ⟨7, 3, .simple⟩,
      ⟨8, 2, .alternative⟩, ⟨9, 3, .simple⟩, ⟨10, 0, .simple⟩] ∧
    readLines 1 (Text.sourceLines replacing.toList) = .ok ls ∧
    ∃ l, Line.read 3 "    return \"old\"".toList = .ok (some l) ∧ Superseded ls l := by
  have hstands : (ofSource .empty replacing).map stands =
      .ok [⟨1, 0, .cls "Pet"⟩, ⟨5, 1, .method "call"⟩, ⟨6, 2, .choice⟩, ⟨7, 3, .simple⟩,
        ⟨8, 2, .alternative⟩, ⟨9, 3, .simple⟩, ⟨10, 0, .simple⟩] := by
    decide +kernel
  cases hp : ofSource .empty replacing with
  | error e =>
    rw [hp] at hstands
    cases hstands
  | ok p =>
    rw [hp] at hstands
    have hlist := Except.ok.inj hstands
    obtain ⟨ls, hls, -, -, hothers⟩ := indented hp
    refine ⟨p, ls, rfl, hlist, hls, ?_⟩
    have hnone : ∀ s ∈ p.stands, s.line ≠ 3 := by
      rw [hlist]
      decide
    obtain ⟨s, hs, hline⟩ | hsuperseded :=
      hothers 2 "    return \"old\"".toList (by decide +kernel) (by decide +kernel)
    · exact absurd hline (hnone s hs)
    · exact hsuperseded

end Program

end ClassLang
