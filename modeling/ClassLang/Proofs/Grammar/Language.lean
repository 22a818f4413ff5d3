import ClassLang.Grammar.Class

/-!
The grammar of the language, production by production, with the conditions that depend on what
stands around a phrase. It says which tokens make up a phrase and not which tree they stand for, and
it refers to none of the readers.
-/

namespace ClassLang.Grammar

/-- What stands around a phrase. -/
structure Context where
  /-- The classes defined so far. -/
  classes : List String
  /-- The class whose methods are being read. -/
  current : Option String
  inMethod : Bool

namespace Context

/-- The context of a whole program, where some classes are defined. -/
def top (classes : List String) : Context := ⟨classes, none, false⟩

/-- The context with one more class. -/
def define (c : Context) (name : String) : Context := { c with classes := name :: c.classes }

/-- The context inside a class. -/
def inside (c : Context) (name : String) : Context := { c with current := some name }

/-- The context inside a method. -/
def method (c : Context) : Context := { c with inMethod := true }

/-- Holds of the classes that may be constructed. -/
def Constructs (c : Context) (name : String) : Prop := name ∈ c.classes ∨ c.current = some name

end Context

/-- The phrases of the grammar. Lists of expressions know their lengths. -/
inductive Phrase where
  | program
  | classDef (name : String)
  | parent
  | methods
  | method
  | suite
  | statements
  | statement
  | simple
  | target
  | dotted
  | exprs (n : Nat)
  | args (n : Nat)
  | expr (l : Level)

/-- Holds of the tokens that are expressions by themselves. -/
def Kind.IsLiteral (k : Kind) : Prop :=
  (∃ n, k = .number n) ∨ (∃ s, k = .string s) ∨ k = .keyword .none ∨ k = .keyword .true ∨
    k = .keyword .false

/-- The operators that stand between operands of a level in rows. -/
def Level.rowOperators : Level → List Kind
  | .or => [.keyword .or]
  | .and => [.keyword .and]
  | .sum => [.symbol '+', .symbol '-']
  | .product => [.symbol '*', .symbol '/']
  | _ => []

/-- The operators that compare. -/
def comparisonOperators : List Kind :=
  [.equal, .notEqual, .symbol '<', .symbol '>', .lessOrEqual, .greaterOrEqual]

/-- Names between commas, or none. -/
inductive Names : List Token → List String → Prop where
  | nil : Names [] []
  | one {t : Token} {name : String} : t.kind = .word name → Names [t] [name]
  | cons {t u : Token} {ts : List Token} {name other : String} {names : List String} :
      t.kind = .word name → u.kind = .symbol ',' → Names ts (other :: names) →
      Names (t :: u :: ts) (name :: other :: names)

/-- Holds of the tokens of a phrase. The rule for calls by a bare name is a parameter: it is given
the name and the number of arguments. -/
inductive Derives (mayCall : Context → String → Nat → Prop) :
    Context → Phrase → List Token → Prop where
  | programEnd {c : Context} : Derives mayCall c .program []
  | programClass {c : Context} {name : String} {ts us : List Token} :
      Derives mayCall c (.classDef name) ts → Derives mayCall (c.define name) .program us →
      Derives mayCall c .program (ts ++ us)
  | programStatement {c : Context} {ts us : List Token} :
      Derives mayCall c .statement ts → Derives mayCall c .program us →
      Derives mayCall c .program (ts ++ us)
  | classDef {c : Context} {t u v w x y : Token} {name : String} {ps ms : List Token} :
      t.kind = .keyword .class_ → u.kind = .word name → name ∉ c.classes →
      Derives mayCall c .parent ps → v.kind = .symbol ':' → w.kind = .newline → x.kind = .indent →
      Derives mayCall (c.inside name) .methods ms → y.kind = .dedent →
      Derives mayCall c (.classDef name) (t :: u :: (ps ++ v :: w :: x :: (ms ++ [y])))
  | noParent {c : Context} : Derives mayCall c .parent []
  | parent {c : Context} {t u v : Token} {name : String} :
      t.kind = .symbol '(' → u.kind = .word name → v.kind = .symbol ')' → name ∈ c.classes →
      Derives mayCall c .parent [t, u, v]
  | noMethods {c : Context} : Derives mayCall c .methods []
  | methods {c : Context} {ts us : List Token} :
      Derives mayCall c .method ts → Derives mayCall c .methods us →
      Derives mayCall c .methods (ts ++ us)
  | method {c : Context} {t u v w x : Token} {name : String} {params : List String}
      {ps ts : List Token} :
      t.kind = .keyword .def_ → u.kind = .word name → v.kind = .symbol '(' → Names ps params →
      params.Nodup → w.kind = .symbol ')' → x.kind = .symbol ':' →
      Derives mayCall c.method .suite ts →
      Derives mayCall c .method (t :: u :: v :: (ps ++ w :: x :: ts))
  | suite {c : Context} {t u v : Token} {ts : List Token} :
      t.kind = .newline → u.kind = .indent → Derives mayCall c .statements ts → v.kind = .dedent →
      Derives mayCall c .suite (t :: u :: (ts ++ [v]))
  | noStatements {c : Context} : Derives mayCall c .statements []
  | statements {c : Context} {ts us : List Token} :
      Derives mayCall c .statement ts → Derives mayCall c .statements us →
      Derives mayCall c .statements (ts ++ us)
  | simple {c : Context} {t : Token} {ts : List Token} :
      Derives mayCall c .simple ts → t.kind = .newline →
      Derives mayCall c .statement (ts ++ [t])
  | branch {c : Context} {t u : Token} {ts ys : List Token} :
      t.kind = .keyword .if_ → Derives mayCall c (.expr .or) ts → u.kind = .symbol ':' →
      Derives mayCall c .suite ys →
      Derives mayCall c .statement (t :: (ts ++ u :: ys))
  | branchElse {c : Context} {t u v w : Token} {ts ys ns : List Token} :
      t.kind = .keyword .if_ → Derives mayCall c (.expr .or) ts → u.kind = .symbol ':' →
      Derives mayCall c .suite ys → v.kind = .keyword .else_ → w.kind = .symbol ':' →
      Derives mayCall c .suite ns →
      Derives mayCall c .statement (t :: (ts ++ u :: (ys ++ v :: w :: ns)))
  | returnNone {c : Context} {t : Token} :
      c.inMethod = true → t.kind = .keyword .return_ → Derives mayCall c .simple [t]
  | returnExpr {c : Context} {t : Token} {ts : List Token} :
      c.inMethod = true → t.kind = .keyword .return_ → Derives mayCall c (.expr .or) ts →
      Derives mayCall c .simple (t :: ts)
  | printNone {c : Context} {t : Token} :
      t.kind = .keyword .print → Derives mayCall c .simple [t]
  | printExprs {c : Context} {t : Token} {n : Nat} {ts : List Token} :
      t.kind = .keyword .print → Derives mayCall c (.exprs n) ts →
      Derives mayCall c .simple (t :: ts)
  | assign {c : Context} {t : Token} {ts us : List Token} :
      Derives mayCall c .target ts → t.kind = .symbol '=' → Derives mayCall c (.expr .or) us →
      Derives mayCall c .simple (ts ++ t :: us)
  | simpleExpr {c : Context} {ts : List Token} :
      Derives mayCall c (.expr .or) ts → Derives mayCall c .simple ts
  | target {c : Context} {ts : List Token} :
      Derives mayCall c .dotted ts → Derives mayCall c .target ts
  | targetParen {c : Context} {t u : Token} {ts : List Token} :
      t.kind = .symbol '(' → Derives mayCall c .target ts → u.kind = .symbol ')' →
      Derives mayCall c .target (t :: (ts ++ [u]))
  | dottedOne {c : Context} {t : Token} {name : String} :
      t.kind = .word name → Derives mayCall c .dotted [t]
  | dottedMore {c : Context} {t u : Token} {name : String} {ts : List Token} :
      Derives mayCall c .dotted ts → t.kind = .symbol '.' → u.kind = .word name →
      Derives mayCall c .dotted (ts ++ [t, u])
  | exprsOne {c : Context} {ts : List Token} :
      Derives mayCall c (.expr .or) ts → Derives mayCall c (.exprs 1) ts
  | exprsMore {c : Context} {t : Token} {n : Nat} {ts us : List Token} :
      Derives mayCall c (.expr .or) ts → t.kind = .symbol ',' → Derives mayCall c (.exprs n) us →
      Derives mayCall c (.exprs (n + 1)) (ts ++ t :: us)
  | noArgs {c : Context} : Derives mayCall c (.args 0) []
  | args {c : Context} {n : Nat} {ts : List Token} :
      Derives mayCall c (.exprs n) ts → Derives mayCall c (.args n) ts
  | operand {c : Context} {l : Level} {ts : List Token} :
      l ≠ .primary → Derives mayCall c (.expr l.operands) ts → Derives mayCall c (.expr l) ts
  | row {c : Context} {t : Token} {l : Level} {ts us : List Token} :
      Derives mayCall c (.expr l) ts → t.kind ∈ l.rowOperators →
      Derives mayCall c (.expr l.operands) us →
      Derives mayCall c (.expr l) (ts ++ t :: us)
  | not {c : Context} {t : Token} {ts : List Token} :
      t.kind = .keyword .not → Derives mayCall c (.expr .not) ts →
      Derives mayCall c (.expr .not) (t :: ts)
  | comparison {c : Context} {t : Token} {ts us : List Token} :
      Derives mayCall c (.expr .sum) ts → t.kind ∈ comparisonOperators →
      Derives mayCall c (.expr .sum) us →
      Derives mayCall c (.expr .comparison) (ts ++ t :: us)
  | minus {c : Context} {t : Token} {ts : List Token} :
      t.kind = .symbol '-' → Derives mayCall c (.expr .unary) ts →
      Derives mayCall c (.expr .unary) (t :: ts)
  | methodCall {c : Context} {t u v w : Token} {name : String} {n : Nat} {ts us : List Token} :
      Derives mayCall c (.expr .calls) ts → t.kind = .symbol '.' → u.kind = .word name →
      v.kind = .symbol '(' → Derives mayCall c (.args n) us → w.kind = .symbol ')' →
      Derives mayCall c (.expr .calls) (ts ++ t :: u :: v :: (us ++ [w]))
  | literal {c : Context} {t : Token} :
      Kind.IsLiteral t.kind → Derives mayCall c (.expr .primary) [t]
  | paren {c : Context} {t u : Token} {ts : List Token} :
      t.kind = .symbol '(' → Derives mayCall c (.expr .or) ts → u.kind = .symbol ')' →
      Derives mayCall c (.expr .primary) (t :: (ts ++ [u]))
  | bareCall {c : Context} {t u v : Token} {name : String} {n : Nat} {ts : List Token} :
      t.kind = .word name → u.kind = .symbol '(' → Derives mayCall c (.args n) ts →
      v.kind = .symbol ')' → mayCall c name n →
      Derives mayCall c (.expr .primary) (t :: u :: (ts ++ [v]))
  | name {c : Context} {ts : List Token} :
      Derives mayCall c .dotted ts → Derives mayCall c (.expr .primary) ts
  | dottedCall {c : Context} {t u v w : Token} {name : String} {n : Nat} {ts us : List Token} :
      Derives mayCall c .dotted ts → t.kind = .symbol '.' → u.kind = .word name →
      v.kind = .symbol '(' → Derives mayCall c (.args n) us → w.kind = .symbol ')' →
      Derives mayCall c (.expr .primary) (ts ++ t :: u :: v :: (us ++ [w]))

/-- The documented rule for calls by a bare name: a conversion takes one argument, and a class that
may be constructed takes any. -/
def Documented (c : Context) (name : String) (n : Nat) : Prop :=
  name = "str" ∧ n = 1 ∨ c.Constructs name

/-- The rule for calls by a bare name: `str` is a conversion even where a class has this name. -/
def Callable (c : Context) (name : String) (n : Nat) : Prop :=
  name = "str" ∧ n = 1 ∨ name ≠ "str" ∧ c.Constructs name

end ClassLang.Grammar
