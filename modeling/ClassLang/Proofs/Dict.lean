import ClassLang.Dict

/-!
Dictionaries with other values, dictionaries with the same look-ups, and dictionaries one of which
is put over the other.
-/

namespace ClassLang.Dict

variable {α β : Type}

theorem lookup_cons (k a : String) (v : α) (l : List (String × α)) :
    ((a, v) :: l).lookup k = if k = a then some v else l.lookup k := by
  rw [List.lookup_cons]
  split <;> simp_all

/-- The dictionary with another value for each one. -/
def map (f : α → β) (d : Dict α) : Dict β :=
  ⟨d.toList.map fun e => (e.1, f e.2), by
    rw [List.pairwise_map]
    exact d.sorted⟩

theorem lookup_map (f : α → β) (k : String) (l : List (String × α)) :
    (l.map fun e => (e.1, f e.2)).lookup k = (l.lookup k).map f := by
  induction l with
  | nil => rfl
  | cons e l ih =>
    obtain ⟨a, v⟩ := e
    rw [List.map_cons, lookup_cons, lookup_cons, ih]
    split <;> rfl

@[simp] theorem get?_map (f : α → β) (d : Dict α) (k : String) :
    (d.map f).get? k = (d.get? k).map f := lookup_map f k d.toList

@[simp] theorem contains_map (f : α → β) (d : Dict α) (k : String) :
    (d.map f).contains k = d.contains k := by
  rw [contains, get?_map, Option.isSome_map, contains]

theorem contains_of_get? {d : Dict α} {k : String} {v : α} (h : d.get? k = some v) :
    d.contains k = true := by
  rw [contains, h]
  rfl

/-- What keeps all bindings keeps all names. -/
theorem contains_of_forall_get? {d e : Dict α}
    (h : ∀ {k v}, d.get? k = some v → e.get? k = some v) (k : String)
    (hk : d.contains k = true) : e.contains k = true := by
  obtain ⟨v, hv⟩ := Option.isSome_iff_exists.1 hk
  exact contains_of_get? (h hv)

/-- A name that is bound stays bound when another one is. -/
theorem contains_insert {d : Dict α} {k : String} (hk : d.contains k = true) (k' : String)
    (v : α) : (d.insert k' v).contains k = true := by
  rw [contains, get?_insert]
  split
  · rfl
  · exact hk

theorem contains_iff_mem_keys (d : Dict α) (k : String) : d.contains k = true ↔ k ∈ d.keys := by
  rw [contains, get?, keys]
  induction d.toList with
  | nil => simp
  | cons e l ih =>
    obtain ⟨a, v⟩ := e
    rw [lookup_cons, List.map_cons, List.mem_cons]
    split
    · rename_i h
      simp [h]
    · rename_i h
      simp [h, ih]

/-! Equal look-ups -/

theorem lookup_eq_none {k : String} {l : List (String × α)} (h : ∀ e ∈ l, k < e.1) :
    l.lookup k = none := by
  induction l with
  | nil => rfl
  | cons e l ih =>
    obtain ⟨a, v⟩ := e
    obtain ⟨hk, hl⟩ := List.forall_mem_cons.1 h
    have hne : k ≠ a := by
      rintro rfl
      exact String.lt_irrefl k hk
    rw [lookup_cons, if_neg hne, ih hl]

/-- The name of the first entry is bound in no list that begins behind it. -/
theorem head_le_of_lookup {a b : String} {v w : α} {l r : List (String × α)}
    (hr : ((b, w) :: r).Pairwise fun x y => x.1 < y.1)
    (h : ((b, w) :: r).lookup a = ((a, v) :: l).lookup a) : ¬ a < b := by
  intro hlt
  rw [lookup_cons a a, if_pos rfl, lookup_eq_none] at h
  · cases h
  · intro e he
    rcases List.mem_cons.1 he with rfl | he
    · exact hlt
    · exact String.lt_trans hlt ((List.pairwise_cons.1 hr).1 e he)

theorem eq_of_lookup {l r : List (String × α)} (hl : l.Pairwise fun x y => x.1 < y.1)
    (hr : r.Pairwise fun x y => x.1 < y.1) (h : ∀ k, l.lookup k = r.lookup k) : l = r := by
  induction l generalizing r with
  | nil =>
    cases r with
    | nil => rfl
    | cons e r =>
      obtain ⟨b, w⟩ := e
      have hb := h b
      rw [lookup_cons, if_pos rfl] at hb
      cases hb
  | cons d l ih =>
    obtain ⟨a, v⟩ := d
    cases r with
    | nil =>
      have ha := h a
      rw [lookup_cons, if_pos rfl] at ha
      cases ha
    | cons e r =>
      obtain ⟨b, w⟩ := e
      have hab : a = b := String.le_antisymm
        (String.not_lt.1 (head_le_of_lookup hl (h b)))
        (String.not_lt.1 (head_le_of_lookup hr (h a).symm))
      subst hab
      have hvw := h a
      rw [lookup_cons, lookup_cons, if_pos rfl, if_pos rfl] at hvw
      cases hvw
      have hrest := ih (List.pairwise_cons.1 hl).2 (List.pairwise_cons.1 hr).2 fun k => by
        by_cases hk : k = a
        · subst hk
          rw [lookup_eq_none (List.pairwise_cons.1 hl).1, lookup_eq_none (List.pairwise_cons.1 hr).1]
        · have := h k
          rwa [lookup_cons, lookup_cons, if_neg hk, if_neg hk] at this
      rw [hrest]

/-- Dictionaries with the same look-ups are equal. -/
theorem ext_get? {d e : Dict α} (h : ∀ k, d.get? k = e.get? k) : d = e := by
  obtain ⟨l, hl⟩ := d
  obtain ⟨r, hr⟩ := e
  obtain rfl := eq_of_lookup hl hr h
  rfl

/-! Bindings one after the other -/

theorem get?_insertAll_of_not_mem {l : List (String × α)} {k : String} (d : Dict α)
    (h : k ∉ l.map Prod.fst) : (d.insertAll l).get? k = d.get? k := by
  induction l generalizing d with
  | nil => rfl
  | cons e l ih =>
    rw [List.map_cons, List.mem_cons, not_or] at h
    have hstep : d.insertAll (e :: l) = (d.insert e.1 e.2).insertAll l := rfl
    rw [hstep, ih _ h.2, get?_insert, if_neg h.1]

/-- Where no name stands twice, each is bound to its own value. -/
theorem get?_insertAll_of_mem {l : List (String × α)} {k : String} {v : α} (d : Dict α)
    (hl : (l.map Prod.fst).Nodup) (h : (k, v) ∈ l) : (d.insertAll l).get? k = some v := by
  induction l generalizing d with
  | nil => cases h
  | cons e l ih =>
    obtain ⟨he, hl⟩ := List.nodup_cons.1 hl
    have hstep : d.insertAll (e :: l) = (d.insert e.1 e.2).insertAll l := rfl
    rw [hstep]
    obtain rfl | h := List.mem_cons.1 h
    · rw [get?_insertAll_of_not_mem _ he, get?_insert, if_pos rfl]
    · exact ih _ hl h

theorem get?_insertAll_reverse (d : Dict α) (l : List (String × α)) (k : String) :
    (d.insertAll l).get? k = (l.reverse.lookup k).or (d.get? k) := by
  induction l generalizing d with
  | nil => rfl
  | cons e l ih =>
    have hstep : d.insertAll (e :: l) = (d.insert e.1 e.2).insertAll l := rfl
    rw [hstep, ih, get?_insert, List.reverse_cons, List.lookup_append, lookup_cons, Option.or_assoc]
    congr 1
    split <;> rfl

/-- Of the bindings of a name in a list the last one is kept. -/
theorem get?_ofList (l : List (String × α)) (k : String) :
    (ofList l).get? k = l.reverse.lookup k := by
  rw [ofList, get?_insertAll_reverse, get?_empty, Option.or_none]

/-! One dictionary over the other -/

theorem get?_insertAll {d : Dict α} {l : List (String × α)}
    (hl : l.Pairwise fun x y => x.1 < y.1) (k : String) :
    (d.insertAll l).get? k = (l.lookup k).or (d.get? k) := by
  induction l generalizing d with
  | nil => rfl
  | cons e l ih =>
    obtain ⟨a, v⟩ := e
    obtain ⟨ha, hl⟩ := List.pairwise_cons.1 hl
    have hstep : d.insertAll ((a, v) :: l) = (d.insert a v).insertAll l := rfl
    rw [hstep, ih hl, get?_insert, lookup_cons]
    split
    · rename_i hk
      subst hk
      rw [lookup_eq_none ha]
      rfl
    · rfl

theorem get?_merge (d e : Dict α) (k : String) :
    (d.merge e).get? k = (e.get? k).or (d.get? k) := get?_insertAll e.sorted k

/-- Nothing of the first dictionary is left where the second one binds all its names. -/
theorem merge_eq_right {d e : Dict α} (h : ∀ k, d.contains k = true → e.contains k = true) :
    d.merge e = e := by
  apply ext_get?
  intro k
  rw [get?_merge]
  cases he : e.get? k with
  | some v => rfl
  | none =>
    cases hd : d.get? k with
    | none => rfl
    | some v =>
      have := h k (contains_of_get? hd)
      rw [contains, he] at this
      cases this

@[simp] theorem map_id (d : Dict α) : d.map id = d := by
  apply ext_get?
  intro k
  rw [get?_map, Option.map_id_fun, id]

theorem map_insert (f : α → β) (d : Dict α) (k : String) (v : α) :
    (d.insert k v).map f = (d.map f).insert k (f v) := by
  apply ext_get?
  intro j
  rw [get?_map, get?_insert, get?_insert, get?_map]
  split <;> rfl

theorem map_merge (f : α → β) (d e : Dict α) : (d.merge e).map f = (d.map f).merge (e.map f) := by
  apply ext_get?
  intro k
  rw [get?_map, get?_merge, get?_merge, get?_map, get?_map]
  cases e.get? k <;> rfl

end ClassLang.Dict
