import ClassLang.Proofs.Grammar.Spelled
import ClassLang.Proofs.Program

/-!
Which sources are programs. The reader of programs accepts the tokens of a source text exactly where
the grammar derives them, up to the mark for the end of the file.
-/

namespace ClassLang

open Grammar Token

namespace Program

theorem lists_keys (classes : ClassTable) : (Context.top classes.keys).Lists classes := by
  intro name
  exact (classes.contains_iff_mem_keys name).symm

/-- Tokens of a source text are a program exactly where the grammar derives them, the conditions on
classes, parameters, calls and returns included. -/
theorem exists_ofTokens_iff_derives (classes : ClassTable) {source : String} {ts : List Token}
    (h : Token.ofSource source = .ok ts) :
    (∃ p, ofTokens classes ts = .ok p) ↔
      ∃ body e, ts = body ++ [e] ∧ e.kind = .eof ∧
        Derives Callable (Context.top classes.keys) .program body := by
  obtain ⟨ls, hls, rfl⟩ := Token.ofSource_eq_ok.1 h
  have hwell := wellFormed_of_readLines hls
  generalize (Text.sourceLines source.toList).length = last
  rw [ofTokens_layout classes hwell]
  constructor
  · rintro ⟨p, hp⟩
    refine ⟨_, _, layout_eq last 0 ls, rfl, (derives_program_iff (lists_keys classes)).2 ?_⟩
    exact ⟨_, _, (spellsProgram_of_lines hwell).1 hp⟩
  · rintro ⟨body, e, heq, -, hbody⟩
    rw [layout_eq] at heq
    obtain ⟨rfl, -⟩ := List.append_inj' heq rfl
    obtain ⟨statements, after, hp⟩ := (derives_program_iff (lists_keys classes)).1 hbody
    exact ⟨⟨statements, after⟩, (spellsProgram_of_lines hwell).2 hp⟩

/-- A source with a class, a construction of it inside a method, and calls. -/
def sampleSource : String :=
  "class A:\n  def f(self, x):\n    if x == 1:\n      return A()\n    return x\na = A()\nprint a.f(2), str(a)\n"

theorem derives_sampleSource :
    ∃ ts, Token.ofSource sampleSource = .ok ts ∧
      ∃ body e, ts = body ++ [e] ∧ e.kind = .eof ∧
        Derives Callable (Context.top (Dict.keys (.empty : ClassTable))) .program body := by
  have hok : (ofSource .empty sampleSource).isOk = true := by decide +kernel
  obtain ⟨p, hp⟩ := exists_eq_ok hok
  obtain ⟨ts, hts, hp⟩ := bind_eq_ok.1 hp
  exact ⟨ts, hts, (exists_ofTokens_iff_derives .empty hts).1 ⟨p, hp⟩⟩

/-- A source that calls a class by a name that is taken by the conversion to text. -/
def conversionSource : String := "class str:\n  def f():\n    print\nstr()\n"

/-- The class in that source. -/
def conversionClass : List Token :=
  [⟨.keyword .class_, "class", ⟨1, 1⟩⟩, ⟨.word "str", "str", ⟨1, 7⟩⟩, ⟨.symbol ':', ":", ⟨1, 10⟩⟩,
    .mark .newline ⟨1, 11⟩, .mark .indent ⟨2, 1⟩,
    ⟨.keyword .def_, "def", ⟨2, 3⟩⟩, ⟨.word "f", "f", ⟨2, 7⟩⟩, ⟨.symbol '(', "(", ⟨2, 8⟩⟩,
    ⟨.symbol ')', ")", ⟨2, 9⟩⟩, ⟨.symbol ':', ":", ⟨2, 10⟩⟩,
    .mark .newline ⟨2, 11⟩, .mark .indent ⟨3, 1⟩,
    ⟨.keyword .print, "print", ⟨3, 5⟩⟩, .mark .newline ⟨3, 10⟩,
    .mark .dedent ⟨4, 1⟩, .mark .dedent ⟨4, 1⟩]

/-- The call in that source. -/
def conversionCall : List Token :=
  [⟨.word "str", "str", ⟨4, 1⟩⟩, ⟨.symbol '(', "(", ⟨4, 4⟩⟩, ⟨.symbol ')', ")", ⟨4, 5⟩⟩]

theorem derives_conversionClass :
    Derives Documented (Context.top []) (.classDef "str") conversionClass := by
  have body : Derives Documented ((Context.top []).inside "str").method .statements
      ([⟨.keyword .print, "print", ⟨3, 5⟩⟩] ++ [.mark .newline ⟨3, 10⟩] ++ []) :=
    .statements (.simple (.printNone rfl) rfl) .noStatements
  have method : Derives Documented ((Context.top []).inside "str") .methods (_ ++ []) :=
    .methods (.method (t := ⟨.keyword .def_, "def", ⟨2, 3⟩⟩) (u := ⟨.word "f", "f", ⟨2, 7⟩⟩)
      (v := ⟨.symbol '(', "(", ⟨2, 8⟩⟩) (w := ⟨.symbol ')', ")", ⟨2, 9⟩⟩)
      (x := ⟨.symbol ':', ":", ⟨2, 10⟩⟩) rfl rfl rfl .nil .nil rfl rfl
      (.suite (t := .mark .newline ⟨2, 11⟩) (u := .mark .indent ⟨3, 1⟩)
        (v := .mark .dedent ⟨4, 1⟩) rfl rfl body rfl)) .noMethods
  exact .classDef rfl rfl List.not_mem_nil .noParent rfl rfl rfl method rfl

/-- As the rule is documented, any call by the name of a class is derived. -/
theorem derives_conversionCall {c : Context} (h : c.Constructs "str") :
    Derives Documented c (.expr .or) conversionCall := by
  have primary : Derives Documented c (.expr .primary) conversionCall :=
    .bareCall rfl rfl .noArgs rfl (.inr h)
  have unary : Derives Documented c (.expr .unary) conversionCall :=
    .operand (by decide) (.operand (by decide) primary)
  have sum : Derives Documented c (.expr .sum) conversionCall :=
    .operand (by decide) (.operand (by decide) unary)
  have not : Derives Documented c (.expr .not) conversionCall :=
    .operand (by decide) (.operand (by decide) sum)
  exact .operand (by decide) (.operand (by decide) not)

/-- The documented rule for calls by a bare name derives more than is read: where a class has the
name of the conversion, calls by this name are conversions still. -/
theorem not_forall_ofTokens_iff_documented :
    ¬ ∀ (source : String) (ts : List Token), Token.ofSource source = .ok ts →
      ((∃ p, ofTokens .empty ts = .ok p) ↔
        ∃ body e, ts = body ++ [e] ∧ e.kind = .eof ∧
          Derives Documented (Context.top []) .program body) := by
  intro h
  have hts : Token.ofSource conversionSource =
      .ok (conversionClass ++ (conversionCall ++ [.mark .newline ⟨4, 6⟩] ++ []) ++
        [.mark .eof ⟨5, 0⟩]) := by decide +kernel
  have hcall : Derives Documented (Context.top ["str"]) .program
      (conversionCall ++ [.mark .newline ⟨4, 6⟩] ++ []) :=
    .programStatement (.simple (.simpleExpr (derives_conversionCall (.inl List.mem_cons_self))) rfl)
      .programEnd
  have hread := (h _ _ hts).2 ⟨_, _, rfl, rfl, .programClass derives_conversionClass hcall⟩
  obtain ⟨p, hp⟩ := hread
  have hfail : (ofTokens .empty (conversionClass ++
      (conversionCall ++ [.mark .newline ⟨4, 6⟩] ++ []) ++ [.mark .eof ⟨5, 0⟩])).isOk = false := by
    decide +kernel
  rw [hp] at hfail
  cases hfail

end Program

end ClassLang
