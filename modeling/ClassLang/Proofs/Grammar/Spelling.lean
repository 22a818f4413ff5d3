import ClassLang.Grammar.Class

/-!
What the tokens of an expression, a statement, a class and a program are, said without the readers.
A phrase stands in front of the tokens that are left behind it. Every rule takes its tokens from the
left, and its value keeps the places of these tokens.
-/

namespace ClassLang.Grammar

/-- Names, each behind a dot. -/
inductive SpellsFields : List Token → List String → List Token → Prop where
  | nil {r : List Token} : SpellsFields r [] r
  | cons {t u : Token} {ts r : List Token} {name : String} {names : List String} :
      t.kind = .symbol '.' → u.kind = .word name → SpellsFields ts names r →
      SpellsFields (t :: u :: ts) (name :: names) r

mutual

/-- Expressions of a level, where the classes that may be constructed are known. A dotted name by
itself enters at the unary level, so that no call is read in two ways. -/
inductive Spells (known : String → Bool) : Level → List Token → Expr → List Token → Prop where
  | literal {t : Token} {r : List Token} {value : Literal} :
      literal? t.kind = some value →
      Spells known .primary (t :: r) (.literal value t.pos) r
  | paren {t u : Token} {ts r : List Token} {e : Expr} :
      t.kind = .symbol '(' → Spells known .or ts e (u :: r) → u.kind = .symbol ')' →
      Spells known .primary (t :: ts) e r
  | conversion {t u : Token} {ts r : List Token} {e : Expr} :
      t.kind = .word "str" → u.kind = .symbol '(' → SpellsArgs known ts [e] r →
      Spells known .primary (t :: u :: ts) (.toText e t.pos) r
  | construction {t u : Token} {ts r : List Token} {cls : String} {args : List Expr} :
      t.kind = .word cls → cls ≠ "str" → known cls = true → u.kind = .symbol '(' →
      SpellsArgs known ts args r →
      Spells known .primary (t :: u :: ts) (.construct cls args t.pos) r
  | dottedCall {t u : Token} {ts us r : List Token} {root method : String} {fields : List String}
      {args : List Expr} :
      t.kind = .word root → SpellsFields ts (fields ++ [method]) (u :: us) → u.kind = .symbol '(' →
      SpellsArgs known us args r →
      Spells known .primary (t :: ts) (.call (.name (root :: fields) t.pos) method args u.pos) r
  | methodCall {t u v : Token} {ts us r : List Token} {e : Expr} {method : String}
      {args : List Expr} :
      Spells known .calls ts e (t :: u :: v :: us) → t.kind = .symbol '.' → u.kind = .word method →
      v.kind = .symbol '(' → SpellsArgs known us args r →
      Spells known .calls ts (.call e method args t.pos) r
  | name {t : Token} {ts r : List Token} {root : String} {fields : List String} :
      t.kind = .word root → SpellsFields ts fields r →
      Spells known .unary (t :: ts) (.name (root :: fields) t.pos) r
  | minus {t : Token} {ts r : List Token} {e : Expr} :
      t.kind = .symbol '-' → Spells known .unary ts e r →
      Spells known .unary (t :: ts) (.arith .sub (.literal (.number 0) t.pos) e t.pos) r
  | compare {t : Token} {ts us r : List Token} {op : Comparison} {left right : Expr} :
      Spells known .sum ts left (t :: us) → comparison? t.kind = some op →
      Spells known .sum us right r →
      Spells known .comparison ts (.compare op left right t.pos) r
  | negation {t : Token} {ts r : List Token} {e : Expr} :
      t.kind = .keyword .not → Spells known .not ts e r →
      Spells known .not (t :: ts) (.negation e t.pos) r
  | row {t : Token} {ts us r : List Token} {l : Level} {build : Expr → Expr → Pos → Expr}
      {left right e : Expr} :
      Spells known l ts left (t :: us) → l.operator? t.kind = some build →
      Spells known l.operands us right r → build left right t.pos = e →
      Spells known l ts e r
  | operand {ts r : List Token} {l : Level} {e : Expr} :
      l ≠ .primary → Spells known l.operands ts e r →
      Spells known l ts e r

/-- What stands behind an opening parenthesis: expressions between commas, or none, and the closing
parenthesis. -/
inductive SpellsArgs (known : String → Bool) : List Token → List Expr → List Token → Prop where
  | nil {t : Token} {r : List Token} : t.kind = .symbol ')' → SpellsArgs known (t :: r) [] r
  | list {t : Token} {ts r : List Token} {es : List Expr} :
      SpellsList known ts es (t :: r) → t.kind = .symbol ')' →
      SpellsArgs known ts es r

/-- Expressions between commas, at least one. -/
inductive SpellsList (known : String → Bool) : List Token → List Expr → List Token → Prop where
  | one {ts r : List Token} {e : Expr} : Spells known .or ts e r → SpellsList known ts [e] r
  | cons {t : Token} {ts us r : List Token} {e : Expr} {es : List Expr} :
      Spells known .or ts e (t :: us) → t.kind = .symbol ',' → SpellsList known us es r →
      SpellsList known ts (e :: es) r

end

theorem Level.rank_injective {k l : Level} (h : k.rank = l.rank) : k = l := by
  revert h
  cases k <;> cases l <;> decide

theorem Level.rank_operands_add_one {l : Level} : l ≠ .primary → l.operands.rank + 1 = l.rank := by
  cases l <;> decide

/-- What is spelled at a level is spelled at every level above it. -/
theorem Spells.lift {known : String → Bool} {k l : Level} {ts rest : List Token} {e : Expr}
    (h : Spells known k ts e rest) (hl : k.rank ≤ l.rank) : Spells known l ts e rest := by
  induction hn : l.rank generalizing l with
  | zero =>
    rw [hn, Nat.le_zero] at hl
    exact Level.rank_injective (hl.trans hn.symm) ▸ h
  | succ n ih =>
    by_cases hsame : k.rank = l.rank
    · exact Level.rank_injective hsame ▸ h
    · have hne : l ≠ .primary := by
        rintro rfl
        cases hn
      have hrank := Level.rank_operands_add_one hne
      exact .operand hne (ih (by omega) (by omega))

/-- The place of the first token. -/
def firstPos : List Token → Pos
  | [] => ⟨0, 0⟩
  | t :: _ => t.pos

/-- Statements of one line, without the newline. -/
inductive SpellsSimple (known : String → Bool) (inMethod : Bool) :
    List Token → Stmt → List Token → Prop where
  | giveNone {t : Token} {r : List Token} :
      inMethod = true → t.kind = .keyword .return_ →
      SpellsSimple known inMethod (t :: r) (.give (.literal .none t.pos) t.pos) r
  | give {t : Token} {ts r : List Token} {e : Expr} :
      inMethod = true → t.kind = .keyword .return_ → Spells known .or ts e r →
      SpellsSimple known inMethod (t :: ts) (.give e t.pos) r
  | printNone {t : Token} {r : List Token} :
      t.kind = .keyword .print →
      SpellsSimple known inMethod (t :: r) (.print [] t.pos) r
  | print {t : Token} {ts r : List Token} {es : List Expr} :
      t.kind = .keyword .print → SpellsList known ts es r →
      SpellsSimple known inMethod (t :: ts) (.print es t.pos) r
  | assign {t : Token} {ts us r : List Token} {path : List String} {pos : Pos} {e : Expr} :
      Spells known .or ts (.name path pos) (t :: us) → t.kind = .symbol '=' →
      Spells known .or us e r →
      SpellsSimple known inMethod ts (assignment path e (firstPos ts)) r
  | expr {ts r : List Token} {e : Expr} :
      Spells known .or ts e r →
      SpellsSimple known inMethod ts (.expr e (firstPos ts)) r

mutual

/-- Statements other than classes, each to the end of its last line. -/
inductive SpellsStmt (known : String → Bool) (inMethod : Bool) :
    List Token → Stmt → List Token → Prop where
  | simple {t : Token} {ts r : List Token} {st : Stmt} :
      SpellsSimple known inMethod ts st (t :: r) → t.kind = .newline →
      SpellsStmt known inMethod ts st r
  | branch {t u : Token} {ts us r : List Token} {cond : Expr} {yes : Stmt} :
      t.kind = .keyword .if_ → Spells known .or ts cond (u :: us) → u.kind = .symbol ':' →
      SpellsSuite known inMethod us yes r →
      SpellsStmt known inMethod (t :: ts) (.branch cond yes none t.pos) r
  | branchElse {t u v : Token} {ts us r : List Token} {cond : Expr} {yes no : Stmt} {w : Token}
      {ws : List Token} :
      t.kind = .keyword .if_ → Spells known .or ts cond (u :: us) → u.kind = .symbol ':' →
      SpellsSuite known inMethod us yes (v :: w :: ws) → v.kind = .keyword .else_ →
      w.kind = .symbol ':' → SpellsSuite known inMethod ws no r →
      SpellsStmt known inMethod (t :: ts) (.branch cond yes (some no) t.pos) r

/-- Indented blocks, each with the newline in front of it and its dedent. -/
inductive SpellsSuite (known : String → Bool) (inMethod : Bool) :
    List Token → Stmt → List Token → Prop where
  | block {t u : Token} {ts r : List Token} {body : List Stmt} :
      t.kind = .newline → u.kind = .indent → SpellsBlock known inMethod ts body r →
      SpellsSuite known inMethod (t :: u :: ts) (.block body t.pos) r

/-- Statements and a dedent. -/
inductive SpellsBlock (known : String → Bool) (inMethod : Bool) :
    List Token → List Stmt → List Token → Prop where
  | nil {t : Token} {r : List Token} : t.kind = .dedent → SpellsBlock known inMethod (t :: r) [] r
  | cons {ts us r : List Token} {st : Stmt} {body : List Stmt} :
      SpellsStmt known inMethod ts st us → SpellsBlock known inMethod us body r →
      SpellsBlock known inMethod ts (st :: body) r

end

/-- Names between commas, at least one. -/
inductive SpellsNames : List Token → List String → List Token → Prop where
  | one {t : Token} {r : List Token} {name : String} :
      t.kind = .word name →
      SpellsNames (t :: r) [name] r
  | cons {t u : Token} {ts r : List Token} {name : String} {names : List String} :
      t.kind = .word name → u.kind = .symbol ',' → SpellsNames ts names r →
      SpellsNames (t :: u :: ts) (name :: names) r

/-- Parameters as they are written, with the closing parenthesis. No name stands twice. -/
inductive SpellsParams : List Token → List String → List Token → Prop where
  | nil {t : Token} {r : List Token} : t.kind = .symbol ')' → SpellsParams (t :: r) [] r
  | list {t : Token} {ts r : List Token} {names : List String} :
      SpellsNames ts names (t :: r) → t.kind = .symbol ')' → names.Nodup →
      SpellsParams ts names r

/-- Methods in the order of their text, and a dedent. -/
inductive SpellsMethods (known : String → Bool) : List Token → List Method → List Token → Prop where
  | nil {t : Token} {r : List Token} : t.kind = .dedent → SpellsMethods known (t :: r) [] r
  | cons {t u v : Token} {ts r : List Token} {name : String} {params : List String} {body : Stmt}
      {ms : List Method} {w : Token} {ws xs : List Token} :
      t.kind = .keyword .def_ → u.kind = .word name → v.kind = .symbol '(' →
      SpellsParams ts params (w :: ws) → w.kind = .symbol ':' → SpellsSuite known true ws body xs →
      SpellsMethods known xs ms r →
      SpellsMethods known (t :: u :: v :: ts) (⟨name, withoutReceiver params, .methodBody body
        t.pos⟩ :: ms) r

/-- The parent in the head of a class, if one is named. -/
inductive SpellsParent (classes : ClassTable) :
    List Token → Option Class → List Token → Prop where
  | none {r : List Token} : SpellsParent classes r none r
  | some {t u v : Token} {r : List Token} {name : String} {parent : Class} :
      t.kind = .symbol '(' → u.kind = .word name → v.kind = .symbol ')' →
      classes.get? name = some parent →
      SpellsParent classes (t :: u :: v :: r) (some parent) r

/-- The methods of a class, given all that its text defines. -/
def keptMethods (ms : List Method) : List Method := ms.foldl addMethod []

/-- The names that can be constructed inside a class. -/
def knownIn (classes : ClassTable) (name : String) (other : String) : Bool :=
  classes.contains other || some name == some other

/-- A class, by its tokens behind the word that begins it. -/
inductive SpellsClass (classes : ClassTable) : List Token → Class → List Token → Prop where
  | intro {t u v : Token} {ts r : List Token} {name : String} {parent : Option Class}
      {ms : List Method} {w : Token} {xs : List Token} :
      t.kind = .word name → classes.contains name = false →
      SpellsParent classes ts parent (u :: v :: w :: xs) → u.kind = .symbol ':' →
      v.kind = .newline → w.kind = .indent → SpellsMethods (knownIn classes name) xs ms r →
      SpellsClass classes (t :: ts) ⟨name, keptMethods ms, parent⟩ r

/-- Statements and classes up to the end, with the classes known there. -/
inductive SpellsProgram : ClassTable → List Token → List Stmt → ClassTable → Prop where
  | nil {classes : ClassTable} : SpellsProgram classes [] [] classes
  | cls {t : Token} {ts r : List Token} {classes after : ClassTable} {c : Class}
      {body : List Stmt} :
      t.kind = .keyword .class_ → SpellsClass classes ts c r →
      SpellsProgram (classes.add c) r body after →
      SpellsProgram classes (t :: ts) (.classDef c t.pos :: body) after
  | stmt {ts r : List Token} {classes after : ClassTable} {st : Stmt} {body : List Stmt} :
      SpellsStmt classes.contains false ts st r → SpellsProgram classes r body after →
      SpellsProgram classes ts (st :: body) after

end ClassLang.Grammar
