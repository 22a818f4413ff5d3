import ClassLang.Proofs.Eval.Restored

/-!
Bindings that make no difference. Two machines may differ in what some names are bound to, and in
what watches them. What asks for none of these names goes the same from both, and leaves them as
different as they were.
-/

namespace ClassLang

variable {m n : Machine} {names : List String}

/-- Holds of two machines that differ only in bindings in force of some names, and in what watches
them. -/
structure Machine.Beside (names : List String) (m n : Machine) : Prop where
  same : m.Same n
  scope : ∀ {name}, name ∉ names → (Run.scope n).get? name = (Run.scope m).get? name
  active : n.frames.length = m.frames.length
  outer : n.frames.tail = m.frames.tail
  globals : m.frames ≠ [] → n.globals = m.globals

/-- Two ends of parts of a run: the same value or the same failure, in machines that differ only in
bindings in force of some names, and in what watches them. -/
inductive Machine.EndsBeside {α : Type} (names : List String) :
    EStateM.Result Error Machine α → EStateM.Result Error Machine α → Prop where
  | ok {a : α} {m n : Machine} : m.Beside names n → EndsBeside names (.ok a m) (.ok a n)
  | error {e : Error} {m n : Machine} :
    m.Beside names n → EndsBeside names (.error e m) (.error e n)

namespace Machine

theorem frames_ne_nil (h : n.frames.length = m.frames.length) (hne : m.frames ≠ []) :
    n.frames ≠ [] := by
  rwa [Ne, ← List.length_eq_zero_iff, h, List.length_eq_zero_iff]

theorem Beside.refl (names : List String) (m : Machine) : m.Beside names m :=
  ⟨.refl m, fun _ => rfl, rfl, rfl, fun _ => rfl⟩

theorem Beside.watched (h : m.Beside names n) (watch : Watch) :
    m.Beside names { n with watch } :=
  ⟨h.same.of_same (.refl m) ⟨rfl, rfl, rfl⟩, h.scope, h.active, h.outer, h.globals⟩

theorem Beside.defined (h : m.Beside names n) {name : String} (hname : name ∈ names) (v : Value) :
    m.Beside names (n.defined name v) := by
  have hlocal := n.local_defined name v
  refine ⟨h.same.of_same (.refl m) (n.same_defined name v), fun {k} hk => ?_,
    hlocal.active.trans h.active, hlocal.outer.trans h.outer, fun hne => ?_⟩
  · have hne : k ≠ name := fun heq => hk (heq ▸ hname)
    rw [Run.scope_defined, Dict.get?_insert, if_neg hne, h.scope hk]
  · exact (hlocal.globals (frames_ne_nil h.active hne)).trans (h.globals hne)

/-- A name that is bound on both sides makes no difference. -/
theorem Beside.both_defined (h : m.Beside names n) (name : String) (v : Value) :
    (m.defined name v).Beside names (n.defined name v) := by
  have hm := m.local_defined name v
  have hn := n.local_defined name v
  refine ⟨h.same.of_same (m.same_defined name v) (n.same_defined name v), fun {k} hk => ?_, ?_, ?_,
    fun hne => ?_⟩
  · rw [Run.scope_defined, Run.scope_defined, Dict.get?_insert, Dict.get?_insert, h.scope hk]
  · rw [hm.active, hn.active, h.active]
  · rw [hm.outer, hn.outer, h.outer]
  · have hne' : m.frames ≠ [] := frames_ne_nil hm.active.symm hne
    rw [hm.globals hne', hn.globals (frames_ne_nil h.active hne'), h.globals hne']

theorem Beside.on (h : m.Beside names n) : Bond.same.JoinedOn (· ∉ names) m n :=
  ⟨h.same, h.scope, fun _ _ => trivial⟩

theorem Beside.of_calm {m' n' : Machine} (h : m.Beside names n) (hsame : m'.Same n')
    (hm : Calm m m') (hn : Calm n n') : m'.Beside names n' := by
  refine ⟨hsame, fun hname => ?_, ?_, ?_, fun hne => ?_⟩
  · rw [hm.scope, hn.scope, h.scope hname]
  · rw [hm.frames, hn.frames, h.active]
  · rw [hm.frames, hn.frames, h.outer]
  · rw [hm.frames] at hne
    rw [hm.globals, hn.globals, h.globals hne]

end Machine

/-- What goes the same where the bindings of all other names are the same, ends the same, and leaves
all bindings as they are. -/
theorem Goes.endsBeside {α : Type} {Q : α → Prop} {x : Run α}
    (hx : Goes False (Bond.same.JoinedOn (· ∉ names)) Calm Q x) (h : m.Beside names n) :
    Machine.EndsBeside names (x m) (x n) ∧ Calm n (x.after n) := by
  have hends := hx m n h.on
  unfold Run.after
  revert hends
  generalize x m = r
  generalize x n = r'
  intro hends
  cases hends with
  | ok _ hon hm hn => exact ⟨.ok (h.of_calm hon.core hm hn), hn⟩
  | error hon hm hn => exact ⟨.error (h.of_calm hon.core hm hn), hn⟩
  | refused hfalse _ => exact hfalse.elim

theorem Machine.Beside.symm (h : m.Beside names n) : n.Beside names m := by
  refine ⟨⟨h.same.heap.symm, h.same.classes.symm, h.same.console.symm⟩,
    fun hname => (h.scope hname).symm, h.active.symm, h.outer.symm, fun hne => ?_⟩
  exact (h.globals (frames_ne_nil h.active.symm hne)).symm

theorem Machine.Beside.trans {k : Machine} (h : m.Beside names n) (h' : n.Beside names k) :
    m.Beside names k := by
  refine ⟨⟨h'.same.heap.trans h.same.heap, h'.same.classes.trans h.same.classes,
    h'.same.console.trans h.same.console⟩, fun hname => (h'.scope hname).trans (h.scope hname),
    h'.active.trans h.active, h'.outer.trans h.outer, fun hne => ?_⟩
  exact (h'.globals (frames_ne_nil h.active hne)).trans (h.globals hne)

theorem Machine.EndsBeside.symm {α : Type} {r r' : EStateM.Result Error Machine α}
    (h : EndsBeside names r r') : EndsBeside names r' r := by
  cases h with
  | ok h => exact .ok h.symm
  | error h => exact .error h.symm

theorem Machine.EndsBeside.trans {α : Type} {r r' r'' : EStateM.Result Error Machine α}
    (h : EndsBeside names r r') (h' : EndsBeside names r' r'') : EndsBeside names r r'' := by
  cases h with
  | ok h =>
    cases h' with
    | ok h' => exact .ok (h.trans h')
  | error h =>
    cases h' with
    | error h' => exact .error (h.trans h')

end ClassLang
