import ClassLang.Tree

/-!
Values and the instances they may refer to. An instance is an entry of the heap and a value holds
its number, so every holder of the number sees each change of its fields.
-/

namespace ClassLang

/-- The number of an instance in the heap. -/
abbrev Ref := Nat

/-- Values. -/
inductive Value where
  | none
  | bool (b : Bool)
  | number (n : Int64)
  | string (s : String)
  | cls (name : String)
  | object (ref : Ref)
deriving DecidableEq, Inhabited

namespace Value

/-- The kind of a value. -/
def typeName : Value → TypeName
  | .none => .none
  | .bool _ => .bool
  | .number _ => .int
  | .string _ => .str
  | .cls _ => .cls
  | .object _ => .object

/-- Whether a value counts as true. Classes and instances never do. -/
def isTrue : Value → Bool
  | .none => false
  | .bool b => b
  | .number n => n != 0
  | .string s => !s.isEmpty
  | .cls _ => false
  | .object _ => false

/-- Whether a value is the empty value. -/
def isNone : Value → Bool
  | .none => true
  | _ => false

/-- The value of a literal. -/
def ofLiteral : Literal → Value
  | .none => .none
  | .bool b => .bool b
  | .number n => .number n
  | .string s => .string s

end Value

/-- Bindings of variables or fields. -/
abbrev Env := Dict Value

/-- An instance: its class, and the fields set so far. -/
structure Object where
  cls : Class
  fields : Env

instance : Inhabited Object := ⟨⟨default, .empty⟩⟩

/-- The instances made so far, in the order of their making. -/
structure Heap where
  objects : Array Object

namespace Heap

/-- The heap without instances. -/
def empty : Heap := ⟨#[]⟩

/-- The number of instances. -/
def size (h : Heap) : Nat := h.objects.size

/-- The instance with a number. No value refers to a number that is not in the heap; such a number
would stand for an instance of a nameless class. -/
def get (h : Heap) (r : Ref) : Object := h.objects.getD r default

/-- The heap with a new instance of a class, whose number is the old size. -/
def alloc (h : Heap) (c : Class) : Heap := ⟨h.objects.push ⟨c, .empty⟩⟩

/-- The heap with a field of an instance set. -/
def setField (h : Heap) (r : Ref) (field : String) (v : Value) : Heap :=
  ⟨h.objects.modify r fun o => { o with fields := o.fields.insert field v }⟩

theorem size_alloc (h : Heap) (c : Class) : (h.alloc c).size = h.size + 1 := by
  simp [alloc, size]

theorem size_setField (h : Heap) (r : Ref) (field : String) (v : Value) :
    (h.setField r field v).size = h.size := by
  simp [setField, size]

end Heap

namespace Value

/-- A number that tells instances apart, in base sixteen. -/
def identity (r : Ref) : String := "0x" ++ String.ofList (Nat.toDigits 16 (16 * (r + 1)))

/-- The text of a value, no method of the program being run for it. -/
def display (h : Heap) : Value → String
  | .none => "None"
  | .bool true => "True"
  | .bool false => "False"
  | .number n => toString n.toInt
  | .string s => s
  | .cls name => "Class " ++ name
  | .object r => "<" ++ (h.get r).cls.name ++ " object at " ++ identity r ++ ">"

end Value

end ClassLang
