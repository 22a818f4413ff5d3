import ClassLang.Grammar.Reader

/-!
The grammar of expressions. It has nine levels, from `or`, which binds loosest, to the primary
expressions; each level reads its operands at the next one. Only a parenthesis or an argument list
leads back to the first level, behind a token that was read.
-/

namespace ClassLang.Grammar

/-- The levels of the grammar of expressions. -/
inductive Level where
  | or
  | and
  | not
  | comparison
  | sum
  | product
  | unary
  | calls
  | primary
deriving DecidableEq, Repr

namespace Level

/-- How loosely a level binds. -/
def rank : Level → Nat
  | .or => 8
  | .and => 7
  | .not => 6
  | .comparison => 5
  | .sum => 4
  | .product => 3
  | .unary => 2
  | .calls => 1
  | .primary => 0

/-- The level of the operands. -/
def operands : Level → Level
  | .or => .and
  | .and => .not
  | .not => .comparison
  | .comparison => .sum
  | .sum => .product
  | .product => .unary
  | .unary => .calls
  | .calls => .primary
  | .primary => .primary

theorem rank_operands_le (l : Level) : l.operands.rank ≤ 7 := by cases l <;> decide

/-- The operators of the levels that take them in rows, grouped from the left. -/
def operator? : Level → Kind → Option (Expr → Expr → Pos → Expr)
  | .or, .keyword .or => some (.logic .or)
  | .and, .keyword .and => some (.logic .and)
  | .sum, .symbol '+' => some (.arith .add)
  | .sum, .symbol '-' => some (.arith .sub)
  | .product, .symbol '*' => some (.arith .mul)
  | .product, .symbol '/' => some (.arith .div)
  | _, _ => none

end Level

/-- The comparison that a token means. -/
def comparison? : Kind → Option Comparison
  | .equal => some .equal
  | .notEqual => some .notEqual
  | .lessOrEqual => some .lessOrEqual
  | .greaterOrEqual => some .greaterOrEqual
  | .symbol '<' => some .less
  | .symbol '>' => some .greater
  | _ => none

/-- The literal that a token means. -/
def literal? : Kind → Option Literal
  | .number n => some (.number n)
  | .string s => some (.string s)
  | .keyword .none => some .none
  | .keyword .true => some (.bool true)
  | .keyword .false => some (.bool false)
  | _ => none

/-- The names after a name, each behind a dot, as many as follow. -/
def fieldNames : List Token → List String × List Token
  | t :: u :: ts =>
    if t.kind = .symbol '.' then
      match u.kind with
      | .word name =>
        let more := fieldNames ts
        (name :: more.1, more.2)
      | _ => ([], t :: u :: ts)
    else ([], t :: u :: ts)
  | ts => ([], ts)

theorem length_fieldNames_le (ts : List Token) : (fieldNames ts).2.length ≤ ts.length := by
  fun_induction fieldNames ts <;> grind

/-- A call without a receiver: the conversion to text, or the construction of an instance. -/
def bareCall (s : Scope) (name : String) (args : List Expr) (pos : Pos) : Except Error Expr :=
  if name = "str" then
    match args with
    | [operand] => .ok (.toText operand pos)
    | args => .error (invalid (.conversionArity args.length) pos.line)
  else if s.constructs name then .ok (.construct name args pos)
  else .error (invalid (.notCallable name) pos.line)

/-- A call by a dotted name that begins with `root`; the last name is the method. -/
def dottedCall (s : Scope) (root : String) (fields : List String) (args : List Expr)
    (pos callPos : Pos) : Except Error Expr :=
  match fields.getLast? with
  | none => bareCall s root args pos
  | some method => .ok (.call (.name (root :: fields.dropLast) pos) method args callPos)

mutual

/-- Reads an expression of a level. -/
def exprAt (s : Scope) (level : Level) (ts : List Token) : Reads Expr ts :=
  match level with
  | .or => do
    let ⟨left, rest, h⟩ ← exprAt s .and ts
    let p ← chain s .or left rest
    return p.widen h
  | .and => do
    let ⟨left, rest, h⟩ ← exprAt s .not ts
    let p ← chain s .and left rest
    return p.widen h
  | .sum => do
    let ⟨left, rest, h⟩ ← exprAt s .product ts
    let p ← chain s .sum left rest
    return p.widen h
  | .product => do
    let ⟨left, rest, h⟩ ← exprAt s .unary ts
    let p ← chain s .product left rest
    return p.widen h
  | .not =>
    match ts with
    | [] => exprAt s .comparison []
    | t :: r =>
      if t.kind = .keyword .not then do
        let p ← exprAt s .not r
        return (p.map (.negation · t.pos)).behind t
      else exprAt s .comparison (t :: r)
  | .comparison => do
    let ⟨left, rest, h⟩ ← exprAt s .sum ts
    match rest, h with
    | [], h => return ⟨left, [], h⟩
    | t :: r, h =>
      match comparison? t.kind with
      | none => return ⟨left, t :: r, h⟩
      | some op =>
        let p ← exprAt s .sum r
        return ((p.map (.compare op left · t.pos)).behind t).after h
  | .unary =>
    match ts with
    | [] => exprAt s .calls []
    | t :: r =>
      if t.kind = .symbol '-' then do
        let p ← exprAt s .unary r
        return (p.map (.arith .sub (.literal (.number 0) t.pos) · t.pos)).behind t
      else exprAt s .calls (t :: r)
  | .calls => do
    let ⟨receiver, rest, h⟩ ← exprAt s .primary ts
    let p ← methodCalls s receiver rest
    return p.widen h
  | .primary =>
    match ts with
    | [] => .error (s.unexpected .expression [])
    | t :: r =>
      match literal? t.kind, t.kind with
      | some value, _ => .ok (.one (.literal value t.pos) t r)
      | none, .symbol '(' => do
        let ⟨inner, rest, h⟩ ← exprAt s .or r
        let p ← expectSymbol s ')' rest
        return ((p.map fun _ => inner).after h).behind t
      | none, .word root =>
        have hle := length_fieldNames_le r
        match hr : (fieldNames r).2 with
        | [] =>
          .ok ⟨.name (root :: (fieldNames r).1) t.pos, [], by simp⟩
        | u :: r' =>
          have hlt : r'.length < r.length := by
            rw [hr, List.length_cons] at hle; omega
          if u.kind = .symbol '(' then do
            let ⟨args, rest, h⟩ ← arguments s r'
            let e ← dottedCall s root (fieldNames r).1 args t.pos u.pos
            return (Parsed.after ⟨e, rest, h⟩ hlt).behind t
          else
            .ok ⟨.name (root :: (fieldNames r).1) t.pos, u :: r', by
              simp only [List.length_cons]; omega⟩
      | none, _ => .error (s.unexpected .expression (t :: r))
termination_by ts.length * 12 + level.rank
decreasing_by
  all_goals simp only [Level.rank, List.length_cons] at *
  all_goals omega

/-- Reads what follows an expression at a level that takes its operators in rows. -/
def chain (s : Scope) (level : Level) (left : Expr) (ts : List Token) :
    Except Error (Parsed Expr (ts.length + 1)) :=
  match ts with
  | [] => .ok (.nothing left [])
  | t :: r =>
    match level.operator? t.kind with
    | none => .ok (.nothing left (t :: r))
    | some build => do
      let ⟨right, rest, h⟩ ← exprAt s level.operands r
      let p ← chain s level (build left right t.pos) rest
      return ((p.widen h).behind t).orNothing
termination_by ts.length * 12
decreasing_by
  · have := level.rank_operands_le
    simp only [List.length_cons]
    omega
  · simp only [List.length_cons]
    omega

/-- Reads the calls that follow an expression, each behind a dot. -/
def methodCalls (s : Scope) (receiver : Expr) (ts : List Token) :
    Except Error (Parsed Expr (ts.length + 1)) :=
  match ts with
  | [] => .ok (.nothing receiver [])
  | t :: r =>
    if t.kind = .symbol '.' then do
      let ⟨method, r₁, h₁⟩ ← expectWord s .methodName r
      let ⟨_, r₂, h₂⟩ ← expect s (.symbol '(') .argumentList r₁
      let ⟨args, r₃, h₃⟩ ← arguments s r₂
      let p ← methodCalls s (.call receiver method args t.pos) r₃
      return ((((p.widen h₃).after h₂).after h₁).behind t).orNothing
    else .ok (.nothing receiver (t :: r))
termination_by ts.length * 12
decreasing_by all_goals simp only [List.length_cons]; omega

/-- Reads what follows an opening parenthesis: expressions between commas, and the closing
parenthesis. -/
def arguments (s : Scope) (ts : List Token) : Reads (List Expr) ts :=
  match ts with
  | [] => .error (s.unexpected .expression [])
  | t :: r =>
    if t.kind = .symbol ')' then .ok (.one [] t r)
    else do
      let ⟨args, rest, h⟩ ← exprList s (t :: r)
      let p ← expectSymbol s ')' rest
      return (p.map fun _ => args).after h
termination_by ts.length * 12 + 10
decreasing_by simp only [List.length_cons]; omega

/-- Reads expressions between commas, at least one. -/
def exprList (s : Scope) (ts : List Token) : Reads (List Expr) ts := do
  let ⟨e, rest, h⟩ ← exprAt s .or ts
  match rest, h with
  | [], h => return ⟨[e], [], h⟩
  | t :: r, h =>
    if t.kind = .symbol ',' then do
      let p ← exprList s r
      return ((p.map (e :: ·)).behind t).after h
    else return ⟨[e], t :: r, h⟩
termination_by ts.length * 12 + 9
decreasing_by
  · simp only [Level.rank]
    omega
  · simp only [List.length_cons] at *
    omega

end

/-- Reads an expression. -/
def expr (s : Scope) (ts : List Token) : Reads Expr ts := exprAt s .or ts

end ClassLang.Grammar
