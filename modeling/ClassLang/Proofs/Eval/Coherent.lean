import ClassLang.Proofs.Eval.Safety

/-!
The classes of a session. A class enters the table once, under its own name and on top of classes
that the table holds, and stays what it is from then on. So the table is coherent after every entry,
be it run to its end or not.
-/

namespace ClassLang

open Grammar Token

/-- A class and its ancestors, the nearest first. -/
def Class.lineage : Class → List Class
  | ⟨name, methods, parent⟩ =>
    ⟨name, methods, parent⟩ :: (match parent with
      | none => []
      | some p => p.lineage)
termination_by structural c => c

/-- Holds of methods as a class has them: a body that returns, and parameters of which none stands
twice and the receiver is not the first. -/
structure Method.Formed (x : Method) : Prop where
  body : ∃ body pos, x.body = .methodBody body pos
  params : x.params.Nodup
  receiver : withoutReceiver x.params = x.params

/-- Holds of tables that have each class under its own name and with the parent that they have under
the parent's name, where no ancestor shares its name with a descendant and no method of a class with
another one. -/
structure ClassTable.Coherent (t : ClassTable) : Prop where
  name : ∀ {name c}, Dict.get? t name = some c → c.name = name
  parent : ∀ {name c}, Dict.get? t name = some c → ∀ p ∈ c.parent, Dict.get? t p.name = some p
  lineage : ∀ {name c}, Dict.get? t name = some c → (c.lineage.map Class.name).Nodup
  distinct : ∀ {name c}, Dict.get? t name = some c → (c.methods.map Method.name).Nodup
  formed : ∀ {name c}, Dict.get? t name = some c → ∀ x ∈ c.methods, x.Formed

variable {known : String → Bool}

theorem Class.lineage_none (name : String) (methods : List Method) :
    lineage ⟨name, methods, none⟩ = [⟨name, methods, none⟩] := rfl

theorem Class.lineage_some (name : String) (methods : List Method) (p : Class) :
    lineage ⟨name, methods, some p⟩ = ⟨name, methods, some p⟩ :: p.lineage := rfl

theorem Class.Admitted.distinct {c : Class} (h : c.Admitted known) :
    (c.methods.map Method.name).Nodup := by
  cases h with
  | intro _ _ hnodup _ _ => exact hnodup

theorem Method.Admitted.formed {x : Method} (h : x.Admitted known) : x.Formed := by
  obtain ⟨body, pos, hbody, -⟩ := h.body
  exact ⟨⟨body, pos, hbody⟩, h.nodup, h.receiver⟩

namespace ClassTable

variable {t : ClassTable}

theorem coherent_empty : Coherent .empty := by
  constructor <;> intro name c h <;> cases h

/-- A coherent table holds all ancestors of what it holds. -/
theorem Coherent.get?_of_mem_lineage (h : t.Coherent) : (c : Class) → {name : String} →
    Dict.get? t name = some c → ∀ a ∈ c.lineage, Dict.get? t a.name = some a
  | ⟨name, methods, none⟩, _, hc, a, ha => by
    rw [Class.lineage_none, List.mem_singleton] at ha
    rw [ha, h.name hc]
    exact hc
  | ⟨name, methods, some p⟩, _, hc, a, ha => by
    rw [Class.lineage_some, List.mem_cons] at ha
    rcases ha with rfl | ha
    · rw [h.name hc]
      exact hc
    · have hp : Dict.get? t p.name = some p := h.parent hc p rfl
      exact h.get?_of_mem_lineage p hp a ha

/-- What a table does not hold yet descends from classes of other names. -/
theorem Coherent.nodup_lineage (h : t.Coherent) {c : Class} (hnew : Dict.contains t c.name = false)
    (hparent : ∀ p ∈ c.parent, Dict.get? t p.name = some p) :
    (c.lineage.map Class.name).Nodup := by
  obtain ⟨name, methods, parent⟩ := c
  cases parent with
  | none => simp [Class.lineage_none]
  | some p =>
    have hp : Dict.get? t p.name = some p := hparent p rfl
    rw [Class.lineage_some, List.map_cons, List.nodup_cons]
    refine ⟨fun hmem => ?_, h.lineage hp⟩
    obtain ⟨a, ha, hname⟩ := List.mem_map.1 hmem
    have hget : Dict.get? t a.name = some a := h.get?_of_mem_lineage p hp a ha
    have hheld : Dict.contains t a.name = true := Dict.contains_of_get? hget
    rw [hname, hnew] at hheld
    cases hheld

/-- A new class over a class of the table keeps the table coherent. -/
theorem Coherent.add (h : t.Coherent) {c : Class} (hnew : Dict.contains t c.name = false)
    (hparent : ∀ p ∈ c.parent, Dict.get? t p.name = some p) (hc : c.Admitted known) :
    (t.add c).Coherent := by
  have hkept {name : String} {d : Class} (hd : Dict.get? t name = some d) :
      Dict.get? (t.add c) name = some d := by
    rw [get?_add, if_neg]
    · exact hd
    · rintro rfl
      rw [Dict.contains_of_get? hd] at hnew
      cases hnew
  have hcases {name : String} {d : Class} (hd : Dict.get? (t.add c) name = some d) :
      name = c.name ∧ d = c ∨ Dict.get? t name = some d := by
    rw [get?_add] at hd
    split at hd
    · rename_i hname
      exact .inl ⟨hname, (Option.some.inj hd).symm⟩
    · exact .inr hd
  constructor
  · intro name d hd
    obtain ⟨rfl, rfl⟩ | hd := hcases hd
    · rfl
    · exact h.name hd
  · intro name d hd p hp
    obtain ⟨-, rfl⟩ | hd := hcases hd
    · exact hkept (hparent p hp)
    · exact hkept (h.parent hd p hp)
  · intro name d hd
    obtain ⟨-, rfl⟩ | hd := hcases hd
    · exact h.nodup_lineage hnew hparent
    · exact h.lineage hd
  · intro name d hd
    obtain ⟨-, rfl⟩ | hd := hcases hd
    · exact hc.distinct
    · exact h.distinct hd
  · intro name d hd x hx
    obtain ⟨-, rfl⟩ | hd := hcases hd
    · exact (hc.methods x hx).formed
    · exact h.formed hd x hx

end ClassTable

namespace Grammar

variable {classes after : ClassTable} {ts rest : List Token}

/-- The parent of a class that is read is the one of the table. -/
theorem SpellsClass.get?_parent {c : Class} (h : SpellsClass classes ts c rest)
    (hc : classes.Coherent) : ∀ p ∈ c.parent, Dict.get? classes p.name = some p := by
  cases h with
  | intro _ _ hp _ _ _ _ =>
    intro p hmem
    cases hp with
    | none => cases hmem
    | some _ _ _ hget =>
      cases hmem
      rw [hc.name hget]
      exact hget

/-- What is read as a program keeps its table coherent. -/
theorem SpellsProgram.coherent {body : List Stmt} (h : SpellsProgram classes ts body after)
    (hl : Lexed ts) (hadmitted : classes.Admitted classes.contains) (hc : classes.Coherent) :
    after.Coherent := by
  induction h with
  | nil => exact hc
  | cls _ hcls _ ih =>
    obtain ⟨hnew, hcadmitted⟩ := hcls.admitted hl.tail hadmitted
    obtain ⟨hadd, -⟩ := hcls.admitted_add hl.tail hadmitted
    exact ih (hl.tail.spans hcls.spans) hadd (hc.add hnew (hcls.get?_parent hc) hcadmitted)
  | stmt hst _ ih => exact ih (hl.spans hst.spans) hadmitted hc

end Grammar

/-- A program that is read keeps the table coherent that it is read beside. -/
theorem Program.coherent_of_ofSource {classes : ClassTable} {source : String} {p : Program}
    (hadmitted : classes.Admitted classes.contains) (hc : classes.Coherent)
    (hp : ofSource classes source = .ok p) : p.classes.Coherent := by
  obtain ⟨ls, hls, hspells⟩ := ofSource_eq_ok.1 hp
  exact hspells.coherent (lexed_laidOut (wellFormed_of_readLines hls)) hadmitted hc

namespace Machine

variable {m : Machine} {source : String}

/-- What goes like itself leaves the classes that it went by. -/
theorem classes_of_alike {α : Type} {t : ClassTable} {ht : t.Admitted t.contains}
    {P : α → α → Prop} {x : Run α} (h : Alike ht.setting P (x m) (x m)) :
    (x.after m).classes = t := by
  unfold Run.after
  revert h
  generalize x m = r
  intro h
  cases h with
  | ok _ hn => exact hn.left
  | error _ hn => exact hn.left

/-- An entry keeps every class, and keeps them coherent, however it ends. -/
theorem Sound.coherent_eval (h : m.Sound) (hc : m.classes.Coherent) (source : String) :
    (∀ name c, Dict.get? m.classes name = some c →
      Dict.get? ((Machine.eval source).after m).classes name = some c) ∧
    ((Machine.eval source).after m).classes.Coherent := by
  cases hp : Program.ofSource m.classes source with
  | error e =>
    have hafter : (Machine.eval source).after m = m := by rw [Run.after, eval_of_error hp]
    rw [hafter]
    exact ⟨fun _ _ => id, hc⟩
  | ok p =>
    obtain ⟨ht, hrun⟩ := h.alike_interpret hp
    have hafter : ((Machine.eval source).after m).classes = p.classes := by
      rw [Run.after, eval_of_ok hp]
      exact classes_of_alike hrun
    rw [hafter]
    obtain ⟨-, hmore, -⟩ := Program.admitted_of_ofSource h.classes hp
    exact ⟨fun _ _ => hmore, Program.coherent_of_ofSource h.classes hc hp⟩

theorem Sound.classes_shown (h : m.Sound) (v : Value) :
    ((Eval.render Eval.callMethod v 0).after m).classes = m.classes :=
  classes_of_alike (Sim.render Sim.callMethod v _ _ h.tracks)

theorem Reached.classes_coherent (h : m.Reached) : m.classes.Coherent := by
  induction h with
  | fresh console watch => exact ClassTable.coherent_empty
  | eval source hm ih => exact (hm.sound.coherent_eval ih source).2
  | shown v hm ih =>
    rw [hm.sound.classes_shown v]
    exact ih
  | settled console watch _ ih => exact ih

/-- A machine after entries that it is given one after another, each however it ends. -/
def entered (m : Machine) (sources : List String) : Machine :=
  sources.foldl (fun m source => (Machine.eval source).after m) m

theorem Reached.entered (h : m.Reached) (sources : List String) : (m.entered sources).Reached := by
  induction sources generalizing m with
  | nil => exact h
  | cons source sources ih => exact ih (.eval source h)

theorem Reached.get?_entered (h : m.Reached) (sources : List String) {name : String} {c : Class}
    (hc : Dict.get? m.classes name = some c) :
    Dict.get? (m.entered sources).classes name = some c := by
  induction sources generalizing m with
  | nil => exact hc
  | cons source sources ih =>
    obtain ⟨hkept, -⟩ := h.sound.coherent_eval h.classes_coherent source
    exact ih (.eval source h) (hkept name c hc)

/-- In every session, whatever is entered and however each entry ends, a name goes on to mean the
class that it meant, and the table is coherent. An entry that is no program leaves all as it was. -/
theorem Reached.coherent_entered (h : m.Reached) (sources : List String) :
    (∀ name c, Dict.get? m.classes name = some c →
      Dict.get? (m.entered sources).classes name = some c) ∧
    (m.entered sources).classes.Coherent ∧
    ∀ source, (∀ e, Token.ofSource source = .error e → Machine.eval source m = .error e m) ∧
      ∀ e, Program.ofSource m.classes source = .error e → Machine.eval source m = .error e m := by
  refine ⟨fun _ _ => h.get?_entered sources, (h.entered sources).classes_coherent, fun source => ?_⟩
  refine ⟨fun e he => ?_, fun e he => eval_of_error he⟩
  have hread : Program.ofSource m.classes source = .error e := by
    rw [Program.ofSource, he]
    rfl
  exact eval_of_error hread

/-- A class over another of an entry that failed, an entry that fails again, and a class that is
there already. -/
theorem coherent_entered_halfway :
    let sources := ["class Case(Box):\n  def put(item):\n    self.item = item\n", "b.get()\n"]
    halfway.Reached ∧ Dict.keys (halfway.entered sources).classes = ["Box", "Case"] ∧
    (∀ c, Dict.get? halfway.classes "Box" = some c →
      Dict.get? (halfway.entered sources).classes "Box" = some c) ∧
    (halfway.entered sources).classes.Coherent ∧
    Machine.eval "class Box:\n" halfway =
      .error (.located (.invalidProgram (.classTaken "Box")) 1) halfway := by
  intro sources
  have hreached : halfway.Reached := .eval _ (.fresh _ _)
  obtain ⟨hkept, hcoherent, hfails⟩ := Reached.coherent_entered hreached sources
  have htaken : (Program.ofSource halfway.classes "class Box:\n").map (fun _ => ()) =
      .error (.located (.invalidProgram (.classTaken "Box")) 1) := by
    decide +kernel
  refine ⟨hreached, by decide +kernel, hkept "Box", hcoherent, (hfails _).2 _ ?_⟩
  cases hp : Program.ofSource halfway.classes "class Box:\n" with
  | ok p =>
    rw [hp] at htaken
    cases htaken
  | error e =>
    rw [hp] at htaken
    cases htaken
    rfl

end Machine

end ClassLang
