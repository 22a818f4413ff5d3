/-!
Finite maps from names to values, kept in the order of their names. Two dictionaries with the
same look-ups are equal, so a set of bindings has one representation.
-/

namespace ClassLang

/-- Bindings of names, sorted by name and with no name twice. -/
structure Dict (α : Type) where
  /-- The bindings in the order of their names. -/
  toList : List (String × α)
  sorted : toList.Pairwise fun a b => a.1 < b.1

namespace Dict

variable {α : Type}

/-- The dictionary without bindings. -/
def empty : Dict α := ⟨[], .nil⟩

instance : Inhabited (Dict α) := ⟨empty⟩

/-- Puts a binding at its place, over an earlier one of the same name. -/
def insertEntry (k : String) (v : α) : List (String × α) → List (String × α)
  | [] => [(k, v)]
  | e :: r =>
    if k < e.1 then (k, v) :: e :: r
    else if e.1 < k then e :: insertEntry k v r
    else (k, v) :: r

theorem mem_insertEntry {k : String} {v : α} {e : String × α} {l : List (String × α)}
    (h : e ∈ insertEntry k v l) : e = (k, v) ∨ e ∈ l := by
  induction l with
  | nil => simpa [insertEntry] using h
  | cons d r ih => rw [insertEntry] at h; split at h <;> (try split at h) <;> grind

theorem sorted_insertEntry (k : String) (v : α) {l : List (String × α)}
    (h : l.Pairwise fun a b => a.1 < b.1) :
    (insertEntry k v l).Pairwise fun a b => a.1 < b.1 := by
  induction l with
  | nil => simp [insertEntry]
  | cons e r ih =>
    rw [List.pairwise_cons] at h
    rw [insertEntry]
    split
    · rename_i hk
      refine .cons (fun a ha => ?_) (.cons h.1 h.2)
      rcases List.mem_cons.1 ha with rfl | ha
      · exact hk
      · exact String.lt_trans hk (h.1 a ha)
    · split
      · rename_i hk
        refine .cons (fun a ha => ?_) (ih h.2)
        rcases mem_insertEntry ha with rfl | ha
        · exact hk
        · exact h.1 a ha
      · rename_i h₁ h₂
        have hk : k = e.1 := String.le_antisymm (String.not_lt.1 h₂) (String.not_lt.1 h₁)
        exact .cons (fun a ha => hk ▸ h.1 a ha) h.2

/-- Binds a name, over its earlier binding if it has one. -/
def insert (d : Dict α) (k : String) (v : α) : Dict α :=
  ⟨insertEntry k v d.toList, sorted_insertEntry k v d.sorted⟩

/-- The value bound to a name. -/
def get? (d : Dict α) (k : String) : Option α := d.toList.lookup k

/-- Whether a name is bound. -/
def contains (d : Dict α) (k : String) : Bool := (d.get? k).isSome

/-- The bound names in their order. -/
def keys (d : Dict α) : List String := d.toList.map (·.1)

/-- The number of bound names. -/
def size (d : Dict α) : Nat := d.toList.length

/-- Whether no name is bound. -/
def isEmpty (d : Dict α) : Bool := d.toList.isEmpty

/-- Binds in order; a later binding of a name replaces an earlier one. -/
def insertAll (d : Dict α) (l : List (String × α)) : Dict α :=
  l.foldl (fun d e => d.insert e.1 e.2) d

/-- The dictionary of a list of bindings, the last one of a name being kept. -/
def ofList (l : List (String × α)) : Dict α := empty.insertAll l

/-- The first dictionary with every binding of the second put over it. -/
def merge (d e : Dict α) : Dict α := d.insertAll e.toList

@[simp] theorem get?_empty (k : String) : (empty : Dict α).get? k = none := rfl

theorem lookup_insertEntry (k k' : String) (v : α) (l : List (String × α)) :
    (insertEntry k v l).lookup k' = if k' = k then some v else l.lookup k' := by
  have lookup_cons (a : String) (b : α) (r : List (String × α)) :
      ((a, b) :: r).lookup k' = if k' = a then some b else r.lookup k' := by
    rw [List.lookup_cons]
    split <;> simp_all
  induction l with
  | nil => rw [insertEntry, lookup_cons]
  | cons e r ih =>
    obtain ⟨a, b⟩ := e
    rw [insertEntry]
    split
    · rw [lookup_cons]
    · rename_i h₁
      split
      · rename_i h₂
        rw [lookup_cons, lookup_cons, ih]
        by_cases h : k' = a
        · rw [if_pos h, if_pos h, if_neg fun hk => String.lt_irrefl k (by rwa [← h, hk] at h₂)]
        · rw [if_neg h, if_neg h]
      · rename_i h₂
        have hk : k = a := String.le_antisymm (String.not_lt.1 h₂) (String.not_lt.1 h₁)
        rw [lookup_cons, lookup_cons, hk]
        split <;> rfl

theorem get?_insert (d : Dict α) (k k' : String) (v : α) :
    (d.insert k v).get? k' = if k' = k then some v else d.get? k' :=
  lookup_insertEntry k k' v d.toList

end Dict

end ClassLang
