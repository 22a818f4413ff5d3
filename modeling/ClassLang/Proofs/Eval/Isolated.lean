import ClassLang.Proofs.Console
import ClassLang.Proofs.Eval.Restored

/-!
What a call sees: its receiver and its arguments, the instances and the classes. Bindings around the
call, what watches the run and what was printed before have no part in how it ends. Printing has one
way to tell what was printed before: a device without room refuses a text once too much waits for it.
-/

namespace ClassLang

/-- Holds of two machines with the same instances and classes that have printed the same since their
consoles were these. -/
structure Machine.Apart (c d : Console) (m n : Machine) : Prop where
  heap : n.heap = m.heap
  classes : n.classes = m.classes
  akin : c.Akin d → m.console.Akin n.console
  printed : ∃ text, m.console.written = c.written ++ text ∧ n.console.written = d.written ++ text

namespace Machine.Apart

variable {c d c' d' : Console} {m n : Machine}

theorem printing (h : Apart c d m n) {text : String} (hc : m.console.write text = .ok c')
    (hd : n.console.write text = .ok d') (hakin : c.Akin d → c'.Akin d') :
    Apart c d { m with console := c' } { n with console := d' } := by
  obtain ⟨old, hm, hn⟩ := h.printed
  refine ⟨h.heap, h.classes, hakin, old ++ text, ?_, ?_⟩
  · exact (Console.written_write hc).trans (by rw [hm, String.append_assoc])
  · exact (Console.written_write hd).trans (by rw [hn, String.append_assoc])

/-- Both machines print a text, or both fail to; otherwise their consoles were not alike from the
beginning. -/
theorem write (h : Apart c d m n) (text : String) :
    (∃ c' d', m.console.write text = .ok c' ∧ n.console.write text = .ok d' ∧
      Apart c d { m with console := c' } { n with console := d' }) ∨
    (∃ reason, m.console.write text = .error reason ∧ n.console.write text = .error reason) ∨
    ¬ c.Akin d ∧
      ∃ reason, m.console.write text = .error reason ∨ n.console.write text = .error reason := by
  by_cases hakin : c.Akin d
  · obtain ⟨c', d', hc, hd, hcd⟩ | hrefused := (h.akin hakin).write text
    · exact .inl ⟨c', d', hc, hd, h.printing hc hd fun _ => hcd⟩
    · exact .inr (.inl hrefused)
  · cases hc : m.console.write text with
    | error reason => exact .inr (.inr ⟨hakin, reason, .inl rfl⟩)
    | ok c' =>
      cases hd : n.console.write text with
      | error reason => exact .inr (.inr ⟨hakin, reason, .inr rfl⟩)
      | ok d' => exact .inl ⟨c', d', rfl, rfl, h.printing hc hd fun h => absurd h hakin⟩

end Machine.Apart

/-- Two runs that may have had different beginnings. -/
def Bond.apart (c d : Console) : Bond where
  core := Machine.Apart c d
  holds _ := True
  heap h := h.heap
  classes h := h.classes
  blind h hm hn := ⟨by rw [hm.heap, hn.heap, h.heap], by rw [hm.classes, hn.classes, h.classes],
    by rw [hm.console, hn.console]; exact h.akin, by rw [hm.console, hn.console]; exact h.printed⟩
  plain _ := trivial
  field _ _ _ := trivial
  alloc h c := ⟨congrArg (Heap.alloc · c) h.heap, h.classes, h.akin, h.printed⟩
  fresh _ := trivial
  setField h _ _ name :=
    ⟨congrArg (Heap.setField · _ name _) h.heap, h.classes, h.akin, h.printed⟩
  lenient := ¬ c.Akin d
  write h text := h.write text

/-- What two runs of a part have in common: how it ends, the instances it leaves, and the text it
prints. -/
structure SameEffect {α : Type} (x : Run α) (m n : Machine) : Prop where
  answer : x.answer n = x.answer m
  heap : (x.after n).heap = (x.after m).heap
  printed : ∃ text, (x.after m).console.written = m.console.written ++ text ∧
    (x.after n).console.written = n.console.written ++ text

/-- A part that goes the same from machines with the same instances and classes has the same effect
there, unless its output is refused in one of them. -/
theorem Goes.sameEffect {α : Type} {T : Machine → Machine → Prop} {Q : α → Prop} {x : Run α}
    {m n : Machine} (hx : Goes (¬ m.console.Akin n.console)
      (Machine.Apart m.console n.console) T Q x)
    (hheap : n.heap = m.heap) (hclasses : n.classes = m.classes) :
    SameEffect x m n ∨ ¬ m.console.Akin n.console ∧ ∃ reason line,
      x.answer m = .error (.located (.outputFailed reason) line) ∨
      x.answer n = .error (.located (.outputFailed reason) line) := by
  have hstart : Machine.Apart m.console n.console m n :=
    ⟨hheap, hclasses, id, "", by rw [String.append_empty], by rw [String.append_empty]⟩
  have hends := hx m n hstart
  generalize hm : x m = r at hends
  generalize hn : x n = r' at hends
  cases hends with
  | ok _ h _ _ =>
    refine .inl ⟨?_, ?_, ?_⟩
    · rw [Run.answer, Run.answer, hm, hn]
    · rw [Run.after, Run.after, hm, hn]
      exact h.heap
    · rw [Run.after, Run.after, hm, hn]
      exact h.printed
  | error h _ _ =>
    refine .inl ⟨?_, ?_, ?_⟩
    · rw [Run.answer, Run.answer, hm, hn]
    · rw [Run.after, Run.after, hm, hn]
      exact h.heap
    · rw [Run.after, Run.after, hm, hn]
      exact h.printed
  | refused hakin hrefused =>
    refine .inr ⟨hakin, ?_⟩
    obtain ⟨reason, line, k, rfl⟩ | ⟨reason, line, k, rfl⟩ := hrefused
    · exact ⟨reason, line, .inl (by rw [Run.answer, hm])⟩
    · exact ⟨reason, line, .inr (by rw [Run.answer, hn])⟩

namespace Eval

/-- A call ends alike, prints the same and leaves the same instances from any two machines with the
same instances and classes. Only where one of the consoles has no room and they are not the same may
it fail in one of them because its output is refused. -/
theorem sameEffect_call (room : Nat) {m n : Machine} (hheap : n.heap = m.heap)
    (hclasses : n.classes = m.classes) (r : Ref) (name : String) (args : List Value)
    (line : Nat) :
    SameEffect (callIn room r name args line) m n ∨
      ¬ m.console.Akin n.console ∧ ∃ reason l,
        (callIn room r name args line).answer m = .error (.located (.outputFailed reason) l) ∨
        (callIn room r name args line).answer n = .error (.located (.outputFailed reason) l) := by
  have hcall := (Bond.apart m.console n.console).keptBy_callIn room r name args line trivial
    fun _ _ => trivial
  exact hcall.sameEffect hheap hclasses

/-- A machine with an instance that prints a word and then fails. -/
def teller : Machine :=
  (Machine.eval ("class Teller:\n  def tell(word):\n    print word, 1 / 0\n" ++
    "t = Teller()\nword = 'none'\n")).after (Machine.fresh .empty default)

/-- The same call from the top level and from a frame, behind different output. -/
theorem sameEffect_teller :
    (callMethod 0 "tell" [.string "so"] 9).answer
        { teller with console := .stream #["one\n"] "two" } =
      .error (.located .divisionByZero 3) ∧
    SameEffect (callMethod 0 "tell" [.string "so"] 9)
      { teller with console := .stream #["one\n"] "two" }
      { teller with globals := .empty, frames := [.empty], console := .buffer "three" } := by
  refine ⟨by decide +kernel, ?_⟩
  have hcall := sameEffect_call callLimit
    (m := { teller with console := .stream #["one\n"] "two" })
    (n := { teller with globals := .empty, frames := [.empty], console := .buffer "three" })
    rfl rfl 0 "tell" [.string "so"] 9
  refine hcall.resolve_right fun hrefused => hrefused.1 (.inl ⟨rfl, rfl⟩)

/-- What was printed before can tell: a device without room takes a word behind little that waits and
refuses it behind much. -/
theorem not_forall_sameEffect_call :
    ¬ ∀ m n : Machine, n.heap = m.heap → n.classes = m.classes → ∀ r name args line,
      SameEffect (callMethod r name args line) m n := by
  intro h
  have hanswer := (h { teller with console := .full "" }
    { teller with console := .full (Text.times 1020 "b") } rfl rfl 0 "tell"
    [.string "aaaaaaaa"] 9).answer
  have htaken : (callMethod 0 "tell" [.string "aaaaaaaa"] 9).answer
      { teller with console := .full "" } = .error (.located .divisionByZero 3) := by
    decide +kernel
  have hrefused : (callMethod 0 "tell" [.string "aaaaaaaa"] 9).answer
      { teller with console := .full (Text.times 1020 "b") } =
        .error (.located (.outputFailed Console.noRoom) 3) := by
    decide +kernel
  rw [htaken, hrefused] at hanswer
  cases hanswer

end Eval

end ClassLang
