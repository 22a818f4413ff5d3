import ClassLang.Proofs.Grammar.Indented

/-!
Where classes are written. The body of a class is the lines behind its head, up to the next one that
stands as deep as the head. Of the methods of one name that begin on these lines, the class has the
last one.
-/

namespace ClassLang

/-- The method that a name means in a class by itself, whatever its parent has. -/
def Class.own? (c : Class) (name : String) : Option Method := c.methods.find? (·.name == name)

namespace Grammar

variable {last d : Nat} {known : String → Bool} {ls us vs : List Line} {ts rest : List Token}
  {ms : List Method} {m x : Method} {name : String}

/-! Methods of one name -/

theorem find?_addMethod (acc : List Method) (m : Method) (name : String) :
    (addMethod acc m).find? (·.name == name) =
      ([m].find? (·.name == name)).or (acc.find? (·.name == name)) := by
  rw [addMethod, List.find?_append]
  by_cases hname : m.name = name
  · have hgone : (acc.filter (·.name != m.name)).find? (·.name == name) = none := by
      rw [List.find?_eq_none]
      intro x hx
      have hother : x.name ≠ m.name := by simpa using (List.mem_filter.1 hx).2
      simpa [hname] using hother
    have hnew : [m].find? (·.name == name) = some m := by simp [hname]
    rw [hgone, hnew, Option.none_or, Option.some_or]
  · have hkept : (acc.filter (·.name != m.name)).find? (·.name == name) =
        acc.find? (·.name == name) := by
      rw [List.find?_filter]
      refine congrArg (List.find? · acc) (funext fun x => ?_)
      by_cases hx : x.name = name
      · simp [hx, Ne.symm hname]
      · simp [hx]
    have hnew : [m].find? (·.name == name) = none := by simp [hname]
    rw [hkept, hnew, Option.or_none, Option.none_or]

theorem find?_foldl_addMethod (ms acc : List Method) (name : String) :
    (ms.foldl addMethod acc).find? (·.name == name) =
      (ms.reverse.find? (·.name == name)).or (acc.find? (·.name == name)) := by
  induction ms generalizing acc with
  | nil => simp
  | cons m ms ih =>
    rw [List.foldl_cons, ih, find?_addMethod, List.reverse_cons, List.find?_append, Option.or_assoc]

/-- The last method of a name is kept. -/
theorem find?_keptMethods (ms : List Method) (name : String) :
    (keptMethods ms).find? (·.name == name) = ms.reverse.find? (·.name == name) := by
  have hfold := find?_foldl_addMethod ms [] name
  rwa [List.find?_nil, Option.or_none] at hfold

/-! Methods on lines -/

/-- Holds of the names of methods that begin on lines at a level. -/
def Defines (d : Nat) (us : List Line) (name : String) : Prop :=
  ∃ l ∈ us, l.level = d ∧ l.header = .method name

theorem defines_append : Defines d (us ++ vs) name ↔ Defines d us name ∨ Defines d vs name := by
  simp only [Defines, List.mem_append, or_and_right, exists_or]

theorem not_defines_of_deep (h : ∀ l ∈ us, d < l.level) : ¬ Defines d us name := by
  rintro ⟨l, hl, hlevel, -⟩
  have hdeep := h l hl
  omega

/-- Holds of the last method of a name on lines `us` of the body of a class, which `vs` follow: no
method of that name begins behind its head, and from the head on, the lines of the body spell that
method and others. -/
inductive Last (known : String → Bool) (last d : Nat) (us vs : List Line) (name : String)
    (x : Method) : Prop where
  | intro {front back : List Line} {head : Line} {more : List Method} :
      us = front ++ head :: back → head.level = d + 1 → head.header = .method name →
      ¬ Defines (d + 1) back name →
      SpellsMethods known (laidOut last (d + 1) (head :: back ++ vs)) (x :: more)
        (laidOut last d vs) →
      Last known last d us vs name x

theorem Last.append_left (h : Last known last d us vs name x) (lines : List Line) :
    Last known last d (lines ++ us) vs name x := by
  obtain ⟨rfl, hlevel, hheader, hback, hspells⟩ := h
  exact .intro (List.append_assoc ..).symm hlevel hheader hback hspells

theorem Last.defines (h : Last known last d us vs name x) : Defines (d + 1) us name := by
  obtain ⟨rfl, hlevel, hheader, -, -⟩ := h
  exact ⟨_, List.mem_append_right _ List.mem_cons_self, hlevel, hheader⟩

/-- Names mean the methods that lines of the body of a class define last, and no others. -/
structure Means (known : String → Bool) (last d : Nat) (us vs : List Line)
    (own : String → Option Method) : Prop where
  deep : ∀ l ∈ us, d < l.level
  last_of_some : ∀ {name x}, own name = some x → Last known last d us vs name x
  not_of_none : ∀ {name}, own name = none → ¬ Defines (d + 1) us name

/-- One more method stands in front. -/
theorem Means.cons {head : Line} {lines : List Line}
    (h : Means known last d us vs fun name => ms.reverse.find? (·.name == name))
    (hspells : SpellsMethods known (laidOut last (d + 1) (head :: (lines ++ us) ++ vs)) (m :: ms)
      (laidOut last d vs)) (hheader : head.header = .method m.name) (hlevel : head.level = d + 1)
    (hlines : ∀ l ∈ lines, d + 1 < l.level) :
    Means known last d (head :: (lines ++ us)) vs fun name =>
      (m :: ms).reverse.find? (·.name == name) := by
  have hbehind {name : String} (hnone : ms.reverse.find? (·.name == name) = none) :
      ¬ Defines (d + 1) (lines ++ us) name := by
    rw [defines_append, not_or]
    exact ⟨not_defines_of_deep hlines, h.not_of_none hnone⟩
  constructor
  · intro l hl
    rcases List.mem_cons.1 hl with rfl | hl
    · omega
    · rcases List.mem_append.1 hl with hl | hl
      · have hdeep := hlines l hl
        omega
      · exact h.deep l hl
  · intro name x hx
    rw [List.reverse_cons, List.find?_append, Option.or_eq_some_iff] at hx
    rcases hx with hx | ⟨hnone, hx⟩
    · exact (h.last_of_some hx).append_left (head :: lines)
    · obtain rfl : x = m := List.mem_singleton.1 (List.mem_of_find?_eq_some hx)
      have hname : x.name = name := by simpa using List.find?_some hx
      rw [hname] at hheader
      exact .intro (List.nil_append _).symm hlevel hheader (hbehind hnone) hspells
  · intro name hnone
    rw [List.reverse_cons, List.find?_append, Option.or_eq_none_iff] at hnone
    rintro ⟨l, hl, hl', hname⟩
    rcases List.mem_cons.1 hl with rfl | hl
    · rw [hheader] at hname
      cases hname
      simp at hnone
    · exact hbehind hnone.1 ⟨l, hl, hl', hname⟩

theorem SpellsMethods.means (h : SpellsMethods known ts ms rest) (hls : ∀ l ∈ ls, l.Placed)
    (heq : laidOut last (d + 1) ls = ts) :
    ∃ us vs, ls = us ++ vs ∧
      Means known last d us vs (fun name => ms.reverse.find? (·.name == name)) ∧
      (∀ l ∈ vs.head?, l.level ≤ d) ∧ rest = laidOut last d vs := by
  induction h generalizing ls with
  | nil ht =>
    exact ⟨[], ls, rfl, ⟨nofun, nofun, fun _ => nofun⟩, level_le_of_dedent hls heq ht,
      laidOut_eq_dedent hls heq ht⟩
  | cons ht hu hv hp hw hs hm ih =>
    obtain ⟨head, lines, more, rfl, hheader, hlevel, hdeep, hrest, -⟩ :=
      hs.method_lines ht hu hv hp hw hls heq
    have hmore : ∀ l ∈ more, l.Placed := fun l hl =>
      hls l (List.mem_cons_of_mem head (List.mem_append_right lines hl))
    obtain ⟨us, vs, rfl, hmeans, hends, rfl⟩ := ih hmore hrest.symm
    have hsplit : head :: (lines ++ (us ++ vs)) = head :: (lines ++ us) ++ vs := by simp
    have hspells := SpellsMethods.cons ht hu hv hp hw hs hm
    rw [← heq, hsplit] at hspells
    exact ⟨head :: (lines ++ us), vs, hsplit, hmeans.cons hspells hheader hlevel hdeep, hends, rfl⟩

/-! Classes -/

/-- Holds of a class and of the lines on which it is written, which `vs` follow. -/
structure WrittenOn (known : String → Bool) (last d : Nat) (c : Class) (head : Line)
    (body vs : List Line) : Prop where
  header : head.header = .cls c.name
  level : head.level = d
  means : Means known last d body vs c.own?
  ends : ∀ l ∈ vs.head?, l.level ≤ d

theorem SpellsClass.writtenOn {classes : ClassTable} {c : Class} {t : Token}
    (h : SpellsClass classes ts c rest) (ht : t.kind = .keyword .class_)
    (hls : ∀ l ∈ ls, l.Placed) (heq : laidOut last d ls = t :: ts) :
    ∃ head body vs, ls = head :: body ++ vs ∧
      WrittenOn (knownIn classes c.name) last d c head body vs ∧ rest = laidOut last d vs := by
  obtain ⟨head, more, ms, rfl, hheader, hlevel, -, hmethods, hm⟩ := h.class_lines ht hls heq
  obtain ⟨body, vs, rfl, hmeans, hends, hrest⟩ :=
    hm.means (fun l hl => hls l (List.mem_cons_of_mem head hl)) rfl
  have hown : c.own? = fun name => ms.reverse.find? (·.name == name) := by
    funext name
    rw [Class.own?, hmethods, find?_keptMethods]
  rw [← hown] at hmeans
  exact ⟨head, body, vs, rfl, ⟨hheader, hlevel, hmeans, hends⟩, hrest⟩

/-- Every class behind a program was there before, or is written on its lines. -/
theorem SpellsProgram.writtenOn {classes after : ClassTable} {body : List Stmt}
    (h : SpellsProgram classes ts body after) (hls : ∀ l ∈ ls, l.Placed)
    (heq : laidOut last d ls = ts) {name : String} {c : Class}
    (hc : Dict.get? after name = some c) :
    Dict.get? classes name = some c ∨ ∃ known front head lines vs,
      ls = front ++ head :: lines ++ vs ∧ WrittenOn known last d c head lines vs := by
  induction h generalizing ls with
  | nil => exact .inl hc
  | @cls t _ _ classes _ cls _ ht hcls _ ih =>
    obtain ⟨head, lines, vs, rfl, hwritten, hrest⟩ := hcls.writtenOn ht hls heq
    obtain hold | ⟨known, front, head', lines', vs', rfl, hwritten'⟩ :=
      ih (fun l hl => hls l (List.mem_append_right _ hl)) hrest.symm hc
    · rw [ClassTable.get?_add] at hold
      split at hold
      · obtain rfl := Option.some.inj hold
        exact .inr ⟨_, [], head, lines, vs, rfl, hwritten⟩
      · exact .inl hold
    · exact .inr ⟨known, head :: lines ++ front, head', lines', vs', by simp, hwritten'⟩
  | stmt hs _ ih =>
    obtain ⟨us, vs, rfl, -, -, hrest⟩ := hs.fills hls heq
    obtain hold | ⟨known, front, head, lines, vs', rfl, hwritten⟩ :=
      ih (fun l hl => hls l (List.mem_append_right us hl)) hrest.symm hc
    · exact .inl hold
    · exact .inr ⟨known, us ++ front, head, lines, vs', by simp, hwritten⟩

end Grammar

/-- A class as it is written: the lines of a source in front of its head, the head, the lines of its
body and the lines behind them. In its body, the names of some classes can be constructed. -/
structure Class.Written where
  cls : Class
  source : String
  known : String → Bool
  front : List Line
  head : Line
  body : List Line
  behind : List Line
  lines : Token.readLines 1 (Text.sourceLines source.toList) = .ok (front ++ head :: body ++ behind)
  header : head.header = .cls cls.name
  level : head.level = 0
  deep : ∀ l ∈ body, 0 < l.level
  ends : ∀ l ∈ behind.head?, l.level = 0

namespace Class.Written

/-- Holds of the names of the methods that are defined in the text of a class. -/
def Defines (w : Written) (name : String) : Prop := Grammar.Defines 1 w.body name

/-- Holds of the last method of a name that is defined in the text of a class. -/
def Last (w : Written) (name : String) (x : Method) : Prop :=
  Grammar.Last w.known (Text.sourceLines w.source.toList).length 0 w.body w.behind name x

/-- Holds where a class has the last method of each name that its text defines, and no others. -/
structure Faithful (w : Written) : Prop where
  last_of_some : ∀ {name x}, w.cls.own? name = some x → w.Last name x
  not_of_none : ∀ {name}, w.cls.own? name = none → ¬ w.Defines name

end Class.Written

/-- A class that comes with a program is written in its source. -/
theorem Program.exists_written {classes : ClassTable} {source : String} {p : Program}
    (hp : ofSource classes source = .ok p) {name : String} {c : Class}
    (hc : Dict.get? p.classes name = some c) :
    Dict.get? classes name = some c ∨
      ∃ w : Class.Written, w.cls = c ∧ w.source = source ∧ w.Faithful := by
  obtain ⟨ls, hls, hspells⟩ := ofSource_eq_ok.1 hp
  refine (hspells.writtenOn (Token.placed_of_readLines hls) rfl hc).imp_right ?_
  rintro ⟨known, front, head, body, behind, rfl, hwritten⟩
  have hmeans := hwritten.means
  let w : Class.Written :=
    ⟨c, source, known, front, head, body, behind, hls, hwritten.header, hwritten.level, hmeans.deep,
      fun l hl => Nat.le_zero.1 (hwritten.ends l hl)⟩
  exact ⟨w, rfl, rfl, hmeans.last_of_some, hmeans.not_of_none⟩

end ClassLang
