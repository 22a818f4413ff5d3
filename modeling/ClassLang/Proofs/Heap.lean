import ClassLang.Value

/-!
Instances after each operation on the heap, and the instances that values lead to.
-/

namespace ClassLang.Heap

/-- An instance that does not exist has no fields. -/
theorem get_of_size_le {h : Heap} {r : Ref} (hr : h.size ≤ r) : h.get r = default := by
  rw [get, Array.getD_eq_getD_getElem?, Array.getElem?_eq_none hr, Option.getD_none]

theorem get_alloc (h : Heap) (c : Class) (r : Ref) :
    (h.alloc c).get r = if r = h.size then ⟨c, .empty⟩ else h.get r := by
  simp only [get, alloc, size, Array.getD_eq_getD_getElem?, Array.getElem?_push]
  split <;> rfl

theorem get_setField (h : Heap) (r s : Ref) (field : String) (v : Value) :
    (h.setField r field v).get s =
      if s = r ∧ r < h.size then { h.get s with fields := (h.get s).fields.insert field v }
      else h.get s := by
  simp only [get, setField, size, Array.getD_eq_getD_getElem?, Array.getElem?_modify]
  by_cases hs : r = s
  · subst hs
    by_cases hr : r < h.objects.size
    · simp [hr]
    · simp [hr]
  · simp [hs, Ne.symm hs]

/-- The instances that values lead to, through any number of fields. -/
inductive Reaches (h : Heap) (roots : List Value) : Ref → Prop where
  | root {r : Ref} : .object r ∈ roots → Reaches h roots r
  | field {r s : Ref} {name : String} :
      Reaches h roots r → (h.get r).fields.get? name = some (.object s) → Reaches h roots s

/-- What has the roots and is closed under fields has all that the roots lead to. -/
theorem Reaches.of_closed {h : Heap} {roots : List Value} {S : Ref → Prop}
    (hroots : ∀ r, .object r ∈ roots → S r)
    (hfields : ∀ r s name, S r → (name, .object s) ∈ (h.get r).fields.toList → S s) {r : Ref}
    (hr : h.Reaches roots r) : S r := by
  induction hr with
  | root hmem => exact hroots _ hmem
  | @field r s name _ hs ih =>
    obtain ⟨l, l', hl, -⟩ := List.lookup_eq_some_iff.1 hs
    exact hfields r s name ih (by rw [hl]; simp)

end ClassLang.Heap
