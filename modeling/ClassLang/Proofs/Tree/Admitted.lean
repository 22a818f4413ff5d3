import ClassLang.Grammar.Class
import ClassLang.Proofs.Token.Lexeme
import ClassLang.Proofs.Tree.Relocate

/-!
The trees that the grammar admits. A name has a first part, what is constructed is a known class, a
method returns and nothing else does, and no block is empty. Beyond these promises to a run, names
are such as a source can spell, and no number is below zero.
-/

namespace ClassLang

/-- Holds of the texts that are read as names. -/
def IsName (name : String) : Prop := (Kind.word name).IsLexeme

mutual

/-- Expressions that the grammar admits where some classes are known. -/
def Expr.Admitted (known : String → Bool) : Expr → Prop
  | .literal value _ => ∀ n, value = .number n → 0 ≤ n.toInt
  | .name path _ => path ≠ [] ∧ ∀ name ∈ path, IsName name
  | .call receiver method args _ =>
    receiver.Admitted known ∧ IsName method ∧ Expr.AdmittedAll known args
  | .toText operand _ => operand.Admitted known
  | .arith _ left right _ => left.Admitted known ∧ right.Admitted known
  | .logic _ left right _ => left.Admitted known ∧ right.Admitted known
  | .negation operand _ => operand.Admitted known
  | .compare _ left right _ => left.Admitted known ∧ right.Admitted known
  | .construct cls args _ =>
    IsName cls ∧ cls ≠ "str" ∧ known cls = true ∧ Expr.AdmittedAll known args
termination_by structural e => e

/-- Expressions, each of which the grammar admits. -/
def Expr.AdmittedAll (known : String → Bool) : List Expr → Prop
  | [] => True
  | e :: es => e.Admitted known ∧ Expr.AdmittedAll known es
termination_by structural es => es

end

mutual

/-- Statements other than classes and blocks that the grammar admits, inside a method or not. -/
def Stmt.Admitted (known : String → Bool) (inMethod : Bool) : Stmt → Prop
  | .assign name value _ => IsName name ∧ value.Admitted known
  | .assignField object field value _ =>
    (∃ path pos, object = .name path pos) ∧ object.Admitted known ∧ IsName field ∧
      value.Admitted known
  | .print args _ => Expr.AdmittedAll known args
  | .branch condition yes no _ =>
    condition.Admitted known ∧ yes.AdmittedSuite known inMethod ∧
      Stmt.AdmittedElse known inMethod no
  | .give value _ => inMethod = true ∧ value.Admitted known
  | .expr value _ => value.Admitted known
  | .classDef _ _ | .block _ _ | .methodBody _ _ => False
termination_by structural s => s

/-- Blocks that the grammar admits. -/
def Stmt.AdmittedSuite (known : String → Bool) (inMethod : Bool) : Stmt → Prop
  | .block body _ => body ≠ [] ∧ Stmt.AdmittedAll known inMethod body
  | _ => False
termination_by structural s => s

/-- What the grammar admits behind `else`. -/
def Stmt.AdmittedElse (known : String → Bool) (inMethod : Bool) : Option Stmt → Prop
  | none => True
  | some s => s.AdmittedSuite known inMethod
termination_by structural s => s

/-- Statements, each of which the grammar admits. -/
def Stmt.AdmittedAll (known : String → Bool) (inMethod : Bool) : List Stmt → Prop
  | [] => True
  | s :: ss => s.Admitted known inMethod ∧ Stmt.AdmittedAll known inMethod ss
termination_by structural ss => ss

end

/-- Statements that the grammar admits at the top level: classes, and others outside methods. -/
def Stmt.AdmittedTop (known : String → Bool) (s : Stmt) : Prop :=
  (∃ c pos, s = .classDef c pos) ∨ s.Admitted known false

/-- Methods that the grammar admits. The receiver is no parameter of theirs, and no parameter stands
twice. -/
structure Method.Admitted (known : String → Bool) (m : Method) : Prop where
  name : IsName m.name
  params : ∀ param ∈ m.params, IsName param
  nodup : m.params.Nodup
  receiver : Grammar.withoutReceiver m.params = m.params
  body : ∃ body pos, m.body = .methodBody body pos ∧ body.AdmittedSuite known true

/-- Classes that the grammar admits, with their ancestors. No method stands twice. -/
inductive Class.Admitted (known : String → Bool) : Class → Prop where
  | intro {name : String} {methods : List Method} {parent : Option Class} :
      IsName name → methods ≠ [] → (methods.map (·.name)).Nodup →
      (∀ m ∈ methods, m.Admitted known) → (∀ p ∈ parent, p.Admitted known) →
      Class.Admitted known ⟨name, methods, parent⟩

/-- Tables whose classes the grammar admits, each under its own name. -/
structure ClassTable.Admitted (known : String → Bool) (t : ClassTable) : Prop where
  name : ∀ {name c}, Dict.get? t name = some c → c.name = name
  cls : ∀ {name c}, Dict.get? t name = some c → c.Admitted known

variable {known known' : String → Bool}

namespace Expr

theorem admittedAll_iff {es : List Expr} :
    AdmittedAll known es ↔ ∀ e ∈ es, e.Admitted known := by
  induction es with
  | nil => simp [AdmittedAll]
  | cons e es ih => rw [AdmittedAll, ih, List.forall_mem_cons]

end Expr

theorem Stmt.admittedAll_iff {inMethod : Bool} {ss : List Stmt} :
    AdmittedAll known inMethod ss ↔ ∀ s ∈ ss, s.Admitted known inMethod := by
  induction ss with
  | nil => simp [AdmittedAll]
  | cons s ss ih => rw [AdmittedAll, ih, List.forall_mem_cons]

/-! More classes may become known -/

mutual

theorem Expr.Admitted.mono (h : ∀ name, known name = true → known' name = true) :
    {e : Expr} → e.Admitted known → e.Admitted known'
  | .literal _ _, he | .name _ _, he => he
  | .call _ _ _ _, ⟨hr, hm, ha⟩ => ⟨hr.mono h, hm, Expr.AdmittedAll.mono h ha⟩
  | .toText operand _, he | .negation operand _, he => Expr.Admitted.mono h (e := operand) he
  | .arith _ _ _ _, ⟨hl, hr⟩ | .logic _ _ _ _, ⟨hl, hr⟩ | .compare _ _ _ _, ⟨hl, hr⟩ =>
    ⟨hl.mono h, hr.mono h⟩
  | .construct _ _ _, ⟨hn, hs, hk, ha⟩ => ⟨hn, hs, h _ hk, Expr.AdmittedAll.mono h ha⟩

theorem Expr.AdmittedAll.mono (h : ∀ name, known name = true → known' name = true) :
    {es : List Expr} → Expr.AdmittedAll known es → Expr.AdmittedAll known' es
  | [], _ => trivial
  | _ :: _, ⟨he, hes⟩ => ⟨he.mono h, Expr.AdmittedAll.mono h hes⟩

end

mutual

theorem Stmt.Admitted.mono (h : ∀ name, known name = true → known' name = true)
    {inMethod : Bool} : {s : Stmt} → s.Admitted known inMethod → s.Admitted known' inMethod
  | .assign _ _ _, ⟨hn, hv⟩ => ⟨hn, hv.mono h⟩
  | .assignField _ _ _ _, ⟨hpath, ho, hf, hv⟩ => ⟨hpath, ho.mono h, hf, hv.mono h⟩
  | .print _ _, ha => Expr.AdmittedAll.mono h ha
  | .branch _ _ _ _, ⟨hc, hy, hn⟩ =>
    ⟨hc.mono h, Stmt.AdmittedSuite.mono h hy, Stmt.AdmittedElse.mono h hn⟩
  | .give _ _, ⟨hin, hv⟩ => ⟨hin, hv.mono h⟩
  | .expr value _, hv => Expr.Admitted.mono h (e := value) hv

theorem Stmt.AdmittedSuite.mono (h : ∀ name, known name = true → known' name = true)
    {inMethod : Bool} :
    {s : Stmt} → s.AdmittedSuite known inMethod → s.AdmittedSuite known' inMethod
  | .block _ _, ⟨hne, hb⟩ => ⟨hne, Stmt.AdmittedAll.mono h hb⟩

theorem Stmt.AdmittedElse.mono (h : ∀ name, known name = true → known' name = true)
    {inMethod : Bool} :
    {s : Option Stmt} → Stmt.AdmittedElse known inMethod s → Stmt.AdmittedElse known' inMethod s
  | none, _ => trivial
  | some _, hs => Stmt.AdmittedSuite.mono h hs

theorem Stmt.AdmittedAll.mono (h : ∀ name, known name = true → known' name = true)
    {inMethod : Bool} :
    {ss : List Stmt} → Stmt.AdmittedAll known inMethod ss → Stmt.AdmittedAll known' inMethod ss
  | [], _ => trivial
  | _ :: _, ⟨hs, hss⟩ => ⟨hs.mono h, Stmt.AdmittedAll.mono h hss⟩

end

theorem Method.Admitted.mono (h : ∀ name, known name = true → known' name = true) {m : Method}
    (hm : m.Admitted known) : m.Admitted known' := by
  obtain ⟨body, pos, hbody, hadmitted⟩ := hm.body
  exact ⟨hm.name, hm.params, hm.nodup, hm.receiver, body, pos, hbody, hadmitted.mono h⟩

theorem Class.Admitted.mono (h : ∀ name, known name = true → known' name = true) :
    {c : Class} → c.Admitted known → c.Admitted known'
  | _, .intro hn hne hnd hms hp =>
    .intro hn hne hnd (fun m hm => (hms m hm).mono h) fun p hmem => (hp p hmem).mono h

theorem Class.Admitted.methods {c : Class} (h : c.Admitted known) :
    ∀ m ∈ c.methods, m.Admitted known := by
  cases h with
  | intro _ _ _ hms _ => exact hms

theorem Class.Admitted.method? (name : String) : {c : Class} → c.Admitted known →
    ∀ m ∈ c.method? name, m.Admitted known
  | ⟨cls, methods, parent⟩, .intro _ _ _ hms hp => by
    intro m hm
    rw [method?_mk, Option.mem_def, Option.or_eq_some_iff] at hm
    rcases hm with hm | ⟨-, hm⟩
    · exact hms m (List.mem_of_find?_eq_some hm)
    · cases parent with
      | none => cases hm
      | some p => exact (hp p rfl).method? name m hm

/-- A table with one more class, which the classes may know. -/
theorem ClassTable.Admitted.add {t : ClassTable} {c : Class} (ht : t.Admitted known)
    (hc : c.Admitted known) : (t.add c).Admitted known := by
  constructor
  · intro name c' hget
    rw [get?_add] at hget
    split at hget
    · rename_i hname
      cases hget
      exact hname.symm
    · exact ht.name hget
  · intro name c' hget
    rw [get?_add] at hget
    split at hget
    · cases hget
      exact hc
    · exact ht.cls hget

theorem ClassTable.Admitted.mono (h : ∀ name, known name = true → known' name = true)
    {t : ClassTable} (ht : t.Admitted known) : t.Admitted known' :=
  ⟨ht.name, fun hget => (ht.cls hget).mono h⟩

theorem ClassTable.admitted_empty : ClassTable.Admitted known .empty :=
  ⟨fun h => (by cases h), fun h => (by cases h)⟩

end ClassLang
