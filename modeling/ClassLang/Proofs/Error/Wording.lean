import ClassLang.Error.Hint
import ClassLang.Proofs.Text.Search
import ClassLang.Proofs.Tree.Admitted

/-!
The hints for type faults, by their wording. A wording has fixed parts and words of its own between
quotation marks, and what is looked for stands in one of these. Of the words only the name of a
field is chosen by the program, so it is the only one that can mislead.
-/

namespace ClassLang.TypeFault

/-- The hint for putting a value and a string together. -/
def joiningHint : String := "Use str(x) to convert a value before concatenating it to a string"

/-- The hint for comparing values. -/
def comparingHint : String :=
  "Define __eq__ or __lt__ on the class to make its instances comparable"

/-- The parts of a wording between its quotation marks. -/
def parts : TypeFault → List String
  | .operands op left right =>
    ["unsupported operand types for ", op.symbol, ": ", left.text, " and ", right.text, ""]
  | .equality left right => ["cannot compare ", left.text, " and ", right.text, " for equality"]
  | .ordering left right => ["cannot compare ", left.text, " and ", right.text, " for ordering"]
  | .fieldTarget field target =>
    ["cannot set field ", field, " on a value of type ", target.text, ""]
  | .notAClass name => ["", name, " is not a class"]
  | .stated text => [text]

theorem parts_ne_nil (fault : TypeFault) : fault.parts ≠ [] := by
  cases fault <;> exact List.cons_ne_nil _ _

theorem toList_text (fault : TypeFault) :
    fault.text.toList = ['\''].intercalate (fault.parts.map String.toList) := by
  cases fault with
  | operands op left right =>
    change ("unsupported operand types for '" ++ op.symbol ++ "': '" ++ left.text ++ "' and '" ++
      right.text ++ "'").toList = _
    simp [parts, List.intercalate]
  | equality left right =>
    change ("cannot compare '" ++ left.text ++ "' and '" ++ right.text ++
      "' for equality").toList = _
    simp [parts, List.intercalate]
  | ordering left right =>
    change ("cannot compare '" ++ left.text ++ "' and '" ++ right.text ++
      "' for ordering").toList = _
    simp [parts, List.intercalate]
  | fieldTarget field target =>
    change ("cannot set field '" ++ field ++ "' on a value of type '" ++ target.text ++
      "'").toList = _
    simp [parts, List.intercalate]
  | notAClass name =>
    change ("'" ++ name ++ "' is not a class").toList = _
    simp [parts, List.intercalate]
  | stated text =>
    change text.toList = _
    simp [parts, List.intercalate]

/-- A word without quotation marks stands in a wording if it stands in one of the parts. -/
theorem contains_text (fault : TypeFault) {word : String} (hword : '\'' ∉ word.toList) :
    Text.contains fault.text word = fault.parts.any (Text.contains · word) := by
  have hparts : fault.parts.map String.toList ≠ [] := by simp [fault.parts_ne_nil]
  rw [Bool.eq_iff_iff, Text.contains_iff, toList_text, Text.infix_intercalate_iff hparts hword,
    List.any_eq_true]
  simp only [List.mem_map, exists_exists_and_eq_and, Text.contains_iff]

/-- Where no part has a plus in it, no plus is quoted. -/
theorem contains_plus_eq_false {fault : TypeFault} (h : ∀ p ∈ fault.parts, '+' ∉ p.toList) :
    Text.contains fault.text "'+'" = false := by
  rw [← Bool.not_eq_true, Text.contains_iff]
  intro hplus
  have hmem : '+' ∈ fault.text.toList := hplus.mem (by decide)
  have hparts : fault.parts.map String.toList ≠ [] := by simp [fault.parts_ne_nil]
  rw [← List.singleton_infix_iff, toList_text,
    Text.infix_intercalate_iff hparts (by decide)] at hmem
  obtain ⟨cs, hcs, hmem⟩ := hmem
  obtain ⟨p, hp, rfl⟩ := List.mem_map.1 hcs
  exact h p hp ((List.singleton_infix_iff _ _).1 hmem)

theorem contains_plus_add (left right : TypeName) :
    Text.contains (operands .add left right).text "'+'" = true := by
  rw [Text.contains_iff]
  exact ⟨"unsupported operand types for ".toList,
    (": '" ++ left.text ++ "' and '" ++ right.text ++ "'").toList, by
      change _ = ("unsupported operand types for '" ++ "+" ++ "': '" ++ left.text ++ "' and '" ++
        right.text ++ "'").toList
      simp⟩

theorem plus_not_mem_text (kind : TypeName) : '+' ∉ kind.text.toList := by
  cases kind <;> decide

theorem plus_not_mem_symbol {op : ArithOp} (h : op ≠ .add) : '+' ∉ op.symbol.toList := by
  cases op with
  | add => exact absurd rfl h
  | sub | mul | div => decide

theorem contains_str_text (kind : TypeName) :
    Text.contains kind.text "str" = decide (kind = .str) := by
  cases kind <;> decide +kernel

theorem contains_compare_text (kind : TypeName) : Text.contains kind.text "compare" = false := by
  cases kind <;> decide +kernel

theorem contains_str_add (left right : TypeName) :
    Text.contains (operands .add left right).text "str" = decide (left = .str ∨ right = .str) := by
  have hfront : Text.contains "unsupported operand types for " "str" = false := by decide +kernel
  have hplus : Text.contains "+" "str" = false := by decide +kernel
  have hcolon : Text.contains ": " "str" = false := by decide +kernel
  have hand : Text.contains " and " "str" = false := by decide +kernel
  have hend : Text.contains "" "str" = false := by decide +kernel
  rw [contains_text _ (by decide)]
  simp only [parts, ArithOp.symbol, List.any_cons, List.any_nil, hfront, hplus, hcolon, hand, hend,
    contains_str_text, Bool.false_or, Bool.or_false, Bool.decide_or]

theorem contains_compare_operands (op : ArithOp) (left right : TypeName) :
    Text.contains (operands op left right).text "compare" = false := by
  have hfront : Text.contains "unsupported operand types for " "compare" = false := by
    decide +kernel
  have hsymbol : Text.contains op.symbol "compare" = false := by cases op <;> decide +kernel
  have hcolon : Text.contains ": " "compare" = false := by decide +kernel
  have hand : Text.contains " and " "compare" = false := by decide +kernel
  have hend : Text.contains "" "compare" = false := by decide +kernel
  rw [contains_text _ (by decide)]
  simp only [parts, List.any_cons, List.any_nil, hfront, hsymbol, hcolon, hand, hend,
    contains_compare_text, Bool.or_false]

theorem hint_operands (op : ArithOp) (left right : TypeName) :
    typeHint? (operands op left right).text =
      if op = .add ∧ (left = .str ∨ right = .str) then some joiningHint else none := by
  rw [typeHint?, contains_compare_operands]
  by_cases hop : op = .add
  · subst hop
    rw [contains_plus_add, contains_str_add]
    by_cases hstr : left = .str ∨ right = .str <;> simp [hstr, joiningHint]
  · have hparts : ∀ p ∈ (operands op left right).parts, '+' ∉ p.toList := by
      simp [parts, plus_not_mem_text, plus_not_mem_symbol hop]
    rw [contains_plus_eq_false hparts]
    simp [hop]

/-- A comparison is worded as one. -/
theorem hint_compare {fault : TypeFault} {left right : TypeName}
    (h : fault = .equality left right ∨ fault = .ordering left right) :
    typeHint? fault.text = some comparingHint := by
  have hparts : ∀ p ∈ fault.parts, '+' ∉ p.toList := by
    rcases h with rfl | rfl <;> simp [parts, plus_not_mem_text]
  have hfront : Text.contains "cannot compare " "compare" = true := by decide +kernel
  have hcompare : Text.contains fault.text "compare" = true := by
    rw [contains_text _ (by decide)]
    rcases h with rfl | rfl <;> simp [parts, hfront]
  rw [typeHint?, contains_plus_eq_false hparts, hcompare]
  rfl

/-- The name of a field has to do with comparing where it has that word in it. -/
theorem hint_fieldTarget {name : String} (hname : IsName name) (kind : TypeName) :
    typeHint? (fieldTarget name kind).text =
      if Text.contains name "compare" then some comparingHint else none := by
  have hplus : '+' ∉ name.toList := by
    intro hmem
    have hword : isWordText name.toList = true := hname.1
    obtain ⟨c, cs, hcs⟩ := List.exists_cons_of_ne_nil (List.ne_nil_of_mem hmem)
    rw [hcs, isWordText, Bool.and_eq_true, List.all_eq_true] at hword
    rw [hcs] at hmem
    obtain rfl | hmem := List.mem_cons.1 hmem
    · exact absurd hword.1 (by decide)
    · exact absurd (hword.2 _ hmem) (by decide)
  have hparts : ∀ p ∈ (fieldTarget name kind).parts, '+' ∉ p.toList := by
    simp [parts, plus_not_mem_text, hplus]
  have hfront : Text.contains "cannot set field " "compare" = false := by decide +kernel
  have hvalue : Text.contains " on a value of type " "compare" = false := by decide +kernel
  have hend : Text.contains "" "compare" = false := by decide +kernel
  have hcompare : Text.contains (fieldTarget name kind).text "compare" =
      Text.contains name "compare" := by
    rw [contains_text _ (by decide)]
    simp only [parts, List.any_cons, List.any_nil, hfront, hvalue, hend, contains_compare_text,
      Bool.false_or, Bool.or_false]
  rw [typeHint?, contains_plus_eq_false hparts, hcompare]
  rfl

end ClassLang.TypeFault
