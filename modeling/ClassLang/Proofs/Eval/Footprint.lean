import ClassLang.Proofs.Eval.Restored
import ClassLang.Proofs.Heap

/-!
What a part of a run may change. An expression changes no binding. A call changes only instances
that its receiver and its arguments lead to, and those made while it runs: whatever is bound in its
frame is one of these, and so is whatever their fields hold.
-/

namespace ClassLang

/-- The instances that are in reach of a call: those that some values lead to in the heap before it,
and those made since. -/
def Heap.InReach (h : Heap) (roots : List Value) (r : Ref) : Prop := h.Reaches roots r ∨ h.size ≤ r

/-- Holds of a later heap in which only instances in reach have changed, and lead to such only. -/
structure Heap.Confined (h : Heap) (roots : List Value) (h' : Heap) : Prop where
  size : h.size ≤ h'.size
  closed : ∀ {r s name}, h.InReach roots r →
    (h'.get r).fields.get? name = some (.object s) → h.InReach roots s
  kept : ∀ {r}, ¬ h.InReach roots r → h'.get r = h.get r

namespace Heap.Confined

variable {h h' : Heap} {roots : List Value}

theorem refl (h : Heap) (roots : List Value) : h.Confined roots h := by
  refine ⟨Nat.le_refl _, fun {r s name} hr hs => ?_, fun _ => rfl⟩
  cases hr with
  | inl hr => exact .inl (.field hr hs)
  | inr hr =>
    rw [Heap.get_of_size_le hr] at hs
    cases hs

theorem alloc (hh : h.Confined roots h') (c : Class) : h.Confined roots (h'.alloc c) := by
  refine ⟨?_, fun {r s name} hr hs => ?_, fun {r} hr => ?_⟩
  · rw [Heap.size_alloc]
    exact Nat.le_succ_of_le hh.size
  · rw [Heap.get_alloc] at hs
    split at hs
    · cases hs
    · exact hh.closed hr hs
  · have hne : r ≠ h'.size := by
      rintro rfl
      exact hr (.inr hh.size)
    rw [Heap.get_alloc, if_neg hne]
    exact hh.kept hr

theorem setField (hh : h.Confined roots h') {r : Ref} (hr : h.InReach roots r) {v : Value}
    (hv : ∀ s, v = .object s → h.InReach roots s) (name : String) :
    h.Confined roots (h'.setField r name v) := by
  refine ⟨?_, fun {q s k} hq hs => ?_, fun {q} hq => ?_⟩
  · rw [Heap.size_setField]
    exact hh.size
  · rw [Heap.get_setField] at hs
    split at hs
    · replace hs : ((h'.get q).fields.insert name v).get? k = some (.object s) := hs
      rw [Dict.get?_insert] at hs
      split at hs
      · exact hv s (Option.some.inj hs)
      · exact hh.closed hq hs
    · exact hh.closed hq hs
  · have hne : q ≠ r := by
      rintro rfl
      exact hq hr
    rw [Heap.get_setField, if_neg fun hqr => hne hqr.1]
    exact hh.kept hq

end Heap.Confined

/-- A run beside itself, whose values are in reach of some values in a heap before it. -/
def Bond.reach (h : Heap) (roots : List Value) : Bond where
  core m n := m.Same n ∧ h.Confined roots m.heap
  holds v := ∀ r, v = .object r → h.InReach roots r
  heap hmn := hmn.1.heap
  classes hmn := hmn.1.classes
  blind hmn hm hn := ⟨hmn.1.of_same hm hn, by rw [hm.heap]; exact hmn.2⟩
  plain hv r hr := absurd hr (hv r)
  field hmn hr hv s hs := hmn.2.closed (hr _ rfl) (hs ▸ hv)
  alloc hmn c :=
    ⟨⟨congrArg (Heap.alloc · c) hmn.1.heap, hmn.1.classes, hmn.1.console⟩, hmn.2.alloc c⟩
  fresh hmn r hr := by
    cases hr
    exact .inr hmn.2.size
  setField hmn hr hv name :=
    ⟨⟨congrArg (Heap.setField · _ name _) hmn.1.heap, hmn.1.classes, hmn.1.console⟩,
      hmn.2.setField (hr _ rfl) hv name⟩
  lenient := False
  write hmn text := by
    obtain ⟨c, d, hc, hd, hcd⟩ | hrefused := hmn.1.write text
    · exact .inl ⟨c, d, hc, hd, hcd, hmn.2⟩
    · exact .inr (.inl hrefused)

namespace Eval

/-- Whatever a call ends with, each instance that its receiver and its arguments do not lead to is
as it was. -/
theorem get_after_call (room : Nat) {r : Ref} {args : List Value} {m : Machine} {q : Ref}
    (hq : q < m.heap.size) (hreach : ¬ m.heap.Reaches (.object r :: args) q) (name : String)
    (line : Nat) : ((callIn room r name args line).after m).heap.get q = m.heap.get q := by
  have holds {v : Value} (hv : v ∈ .object r :: args) :
      (Bond.reach m.heap (.object r :: args)).holds v := by
    rintro s rfl
    exact .inl (.root hv)
  have hcall := (Bond.reach m.heap (.object r :: args)).keptBy_callIn room r name args line
    (holds List.mem_cons_self) fun v hv => holds (List.mem_cons_of_mem _ hv)
  have hafter := hcall.after ⟨.refl m, .refl m.heap _⟩
  have hnot : ¬ m.heap.InReach (.object r :: args) q := by
    rintro (h | h)
    · exact hreach h
    · exact absurd hq (Nat.not_lt.2 h)
  exact hafter.1.2.kept hnot

/-- What evaluation changes is confined, however it ends. An expression changes no binding, of the
globals or of any frame, and a call leaves each instance as it was that its receiver and its
arguments do not lead to. -/
theorem confined (room : Nat) (m : Machine) :
    (∀ e, ((expr (callIn room) e).after m).globals = m.globals ∧
      ((expr (callIn room) e).after m).frames = m.frames) ∧
    ∀ r name args line q, q < m.heap.size → ¬ m.heap.Reaches (.object r :: args) q →
      ((callIn room r name args line).after m).heap.get q = m.heap.get q := by
  refine ⟨fun e => ?_, fun r name args line q hq hreach => ?_⟩
  · have hcalm := calm_expr room m e
    exact ⟨hcalm.globals, hcalm.frames⟩
  · exact get_after_call room hq hreach name line

/-- Three instances, of which two lead to one another and the third to the first. -/
def ring : Machine :=
  (Machine.eval ("class Cell:\n  def poke(other):\n    other.v = 1\n    self.v = 1 / 0\n" ++
    "a = Cell()\nb = Cell()\nc = Cell()\na.next = b\nb.next = a\nc.next = a\n")).after
    (Machine.fresh .empty default)

/-- A call that fails after it has changed its argument. -/
theorem confined_ring :
    ((callMethod 0 "poke" [.object 1] 7).answer ring =
      .error (.located .divisionByZero 4)) ∧
    (((callMethod 0 "poke" [.object 1] 7).after ring).heap.get 1).fields.contains "v" = true ∧
    2 < ring.heap.size ∧ ¬ ring.heap.Reaches [.object 0, .object 1] 2 ∧
    ((callMethod 0 "poke" [.object 1] 7).after ring).heap.get 2 = ring.heap.get 2 := by
  obtain ⟨hfails, hpoked, hsize, h0, h1⟩ : ((callMethod 0 "poke" [.object 1] 7).answer ring =
        .error (.located .divisionByZero 4)) ∧
      (((callMethod 0 "poke" [.object 1] 7).after ring).heap.get 1).fields.contains "v" = true ∧
      2 < ring.heap.size ∧ (ring.heap.get 0).fields.toList = [("next", .object 1)] ∧
      (ring.heap.get 1).fields.toList = [("next", .object 0)] := by
    decide +kernel
  have hreach : ¬ ring.heap.Reaches [.object 0, .object 1] 2 := by
    intro h
    have hpair : 2 = 0 ∨ 2 = 1 := by
      refine h.of_closed (S := fun r => r = 0 ∨ r = 1) (by simp) ?_
      rintro r s name (rfl | rfl) hs
      · simp_all
      · simp_all
    omega
  exact ⟨hfails, hpoked, hsize, hreach,
    (confined callLimit ring).2 0 "poke" [.object 1] 7 2 hsize hreach⟩

end Eval

end ClassLang
