import ClassLang.Proofs.Eval.Mirror
import ClassLang.Session

/-!
What watches a run only looks on. A run goes the same under all watches, and the records that a
filter lets through are those of the run under the filter that lets everything through, less the
ones that it holds back.
-/

namespace ClassLang

theorem Heap.mapClass_id (h : Heap) : h.mapClass id = h :=
  congrArg Heap.mk (Array.map_id' h.objects)

/-- A machine and itself, with what watches the two related in a way that each observation keeps. -/
def Mirror.watching (R : Watch → Watch → Prop)
    (step : ∀ {w w'}, R w w' → ∀ text, R (w.step text) (w'.step text))
    (value : ∀ {w w'}, R w w' → ∀ text, R (w.value text) (w'.value text))
    (record : ∀ {w w'}, R w w' → ∀ passed level target message line fields,
      R (w.record passed level target message line fields)
        (w'.record passed level target message line fields))
    (depth : ∀ {w w'}, R w w' → ∀ f : Nat → Nat,
      R { w with depth := f w.depth } { w' with depth := f w'.depth }) : Mirror where
  cls := id
  watch := R
  default := rfl
  name _ := rfl
  parentName? _ := rfl
  size _ := rfl
  missing := id
  found hx := ⟨_, hx, rfl, fun _ => rfl⟩
  step := step
  value := value
  record := record
  depth := depth

namespace Log.Filter

/-- The filter that lets everything through. -/
def all : Filter := ⟨.trace, []⟩

/-- Those of some records that a filter lets through. -/
def kept (f : Filter) (rs : List Record) : List Record :=
  rs.filter fun r => f.enables r.level r.target

theorem ofText_all : ofText "trace" = .ok all := by decide +kernel

/-- What a filter lets through is let through where everything is. -/
theorem enables_all {f : Filter} {level : Level} {target : String}
    (h : f.enables level target = true) : all.enables level target = true := by
  rw [enables, Bool.and_eq_true] at h ⊢
  refine ⟨h.1, ?_⟩
  cases level <;> rfl

/-- A filter finds all that it lets through among what passes where everything does. -/
theorem kept_kept_all (f : Filter) (rs : List Record) : f.kept (all.kept rs) = f.kept rs := by
  rw [kept, kept, List.filter_filter]
  apply List.filter_congr
  intro r _
  cases h : f.enables r.level r.target with
  | false => rfl
  | true => exact enables_all h

theorem kept_append (f : Filter) (rs rs' : List Record) :
    f.kept (rs ++ rs') = f.kept rs ++ f.kept rs' := List.filter_append rs rs'

end Log.Filter

/-- The record of an event that is one. -/
def Event.record? : Event → Option Log.Record
  | .trace _ => none
  | .record r _ => some r

namespace Watch

/-- The records among what a watched run left behind, in their order. -/
def records (w : Watch) : List Log.Record := w.events.toList.filterMap Event.record?

theorem records_add (w : Watch) (e : Event) :
    (w.add e).records = w.records ++ e.record?.toList := by
  rw [records, add, Array.toList_push, List.filterMap_append, records]
  cases e <;> rfl

@[simp] theorem records_step (w : Watch) (text : String) : (w.step text).records = w.records := by
  unfold step
  split
  · rfl
  · rw [records_add]
    exact List.append_nil _

@[simp] theorem records_value (w : Watch) (text : Unit → String) :
    (w.value text).records = w.records := by
  unfold value
  split
  · rw [records_add]
    exact List.append_nil _
  · rfl

theorem records_record (w : Watch) (passed : Nat) (level : Log.Level) (target message : String)
    (line : Nat) (fields : List (String × String)) :
    (w.record passed level target message line fields).records =
      w.records ++ w.filter.kept [⟨level, message, target, w.file, line, fields⟩] := by
  unfold record
  split
  · rename_i h
    simp [records_add, Event.record?, Log.Filter.kept, h]
  · rename_i h
    simp [Log.Filter.kept, h]

/-- What the records of a watch go by: the filter, and the file that they name. -/
def recordsBy (w : Watch) : Log.Filter × String := (w.filter, w.file)

@[simp] theorem recordsBy_step (w : Watch) (text : String) :
    (w.step text).recordsBy = w.recordsBy := by
  unfold step
  split <;> rfl

@[simp] theorem recordsBy_value (w : Watch) (text : Unit → String) :
    (w.value text).recordsBy = w.recordsBy := by
  unfold value
  split <;> rfl

@[simp] theorem recordsBy_record (w : Watch) (passed : Nat) (level : Log.Level)
    (target message : String) (line : Nat) (fields : List (String × String)) :
    (w.record passed level target message line fields).recordsBy = w.recordsBy := by
  unfold record
  split <;> rfl

/-- Holds of two watches of one file. Since they began, the first has let everything through and the
second what its filter does. -/
structure Follows (f : Log.Filter) (file : String) (began began' w w' : Watch) : Prop where
  first : w.recordsBy = (.all, file)
  second : w'.recordsBy = (f, file)
  records : ∃ rs, w.records = began.records ++ rs ∧ w'.records = began'.records ++ f.kept rs

namespace Follows

variable {f : Log.Filter} {file : String} {began began' w w' : Watch}

theorem step (h : Follows f file began began' w w') (text : String) :
    Follows f file began began' (w.step text) (w'.step text) := by
  constructor
  · rw [recordsBy_step, h.first]
  · rw [recordsBy_step, h.second]
  · rw [records_step, records_step]
    exact h.records

theorem value (h : Follows f file began began' w w') (text : Unit → String) :
    Follows f file began began' (w.value text) (w'.value text) := by
  constructor
  · rw [recordsBy_value, h.first]
  · rw [recordsBy_value, h.second]
  · rw [records_value, records_value]
    exact h.records

theorem record (h : Follows f file began began' w w') (passed : Nat) (level : Log.Level)
    (target message : String) (line : Nat) (fields : List (String × String)) :
    Follows f file began began' (w.record passed level target message line fields)
      (w'.record passed level target message line fields) := by
  have hfirst : w.filter = .all ∧ w.file = file := Prod.mk.inj h.first
  have hsecond : w'.filter = f ∧ w'.file = file := Prod.mk.inj h.second
  constructor
  · rw [recordsBy_record, h.first]
  · rw [recordsBy_record, h.second]
  · obtain ⟨rs, hrs, hrs'⟩ := h.records
    let new : List Log.Record := [⟨level, message, target, file, line, fields⟩]
    have hnew : f.kept (rs ++ Log.Filter.all.kept new) = f.kept rs ++ f.kept new := by
      rw [Log.Filter.kept_append, Log.Filter.kept_kept_all]
    refine ⟨rs ++ Log.Filter.all.kept new, ?_, ?_⟩
    · rw [records_record, hfirst.1, hfirst.2, hrs, List.append_assoc]
    · rw [records_record, hsecond.1, hsecond.2, hrs', hnew, List.append_assoc]

end Follows

end Watch

namespace Mirror

/-- The machines of which one follows the other in what it records. -/
def following (f : Log.Filter) (file : String) (began began' : Watch) : Mirror :=
  watching (Watch.Follows f file began began') (fun h => h.step) (fun h => h.value)
    (fun h => h.record) fun h _ => ⟨h.first, h.second, h.records⟩

/-- The machines that differ in what watches them only. -/
def unwatched : Mirror :=
  watching (fun _ _ => True) (fun h _ => h) (fun h _ => h) (fun h _ _ _ _ _ _ => h) fun h _ => h

variable {M : Mirror}

/-- Machines that differ in what watches them. -/
theorem shows_of_watch (hM : M.cls = id) (m : Machine) {w w' : Watch} (h : M.watch w w') :
    M.Shows { m with watch := w } { m with watch := w' } := by
  refine ⟨rfl, rfl, ?_, ?_, rfl, h⟩
  · rw [hM]
    exact (Dict.map_id m.classes).symm
  · rw [hM]
    exact (Heap.mapClass_id m.heap).symm

/-- Machines of which one mirrors the other, class by class, differ in what watches them only. -/
theorem Shows.eq_of_cls {m n : Machine} (hM : M.cls = id) (h : M.Shows m n) :
    n = { m with watch := n.watch } := by
  have hclasses : n.classes = m.classes := by
    rw [h.classes, hM]
    exact Dict.map_id m.classes
  have hheap : n.heap = m.heap := by
    rw [h.heap, hM]
    exact Heap.mapClass_id m.heap
  obtain ⟨globals, frames, classes, heap, console, watch⟩ := n
  obtain rfl := h.globals
  obtain rfl := h.frames
  obtain rfl := h.console
  cases hclasses
  cases hheap
  rfl

/-- A program goes the same under related watches. -/
theorem goes_interpret (hM : M.cls = id) (p : Program) :
    M.Goes (Machine.interpret p) (Machine.interpret p) := by
  refine Goes.interpret (List.forall₂_same.2 fun s _ => M.twins_refl s) ?_
  rw [hM]
  exact (Dict.map_id p.classes).symm

end Mirror

/-! Sessions -/

namespace Session

theorem perform_eq {α : Type} (s : Session) (part : Run α) :
    s.perform part = s.settle (part.answer s.machine) (part.after s.machine) := by
  unfold perform Run.answer Run.after
  cases part s.machine <;> rfl

theorem logger_foldl (time : String) (events : List Event) (r : Reported) :
    (events.foldl (Reported.add time) r).logger =
      (events.filterMap Event.record?).foldl (fun l rec => l.log time rec) r.logger := by
  induction events generalizing r with
  | nil => rfl
  | cons e events ih =>
    rw [List.foldl_cons, ih]
    cases e <;> rfl

/-- A logger gets the records of a part of a run, one after another. -/
theorem logger_perform {α : Type} (s : Session) (part : Run α) :
    (s.perform part).session.logger =
      (part.after s.machine).watch.records.foldl (fun l r => l.log s.time r) s.logger := by
  rw [perform_eq]
  show ((part.after s.machine).watch.events.foldl (Reported.add s.time)
    ⟨s.logger, "", #[]⟩).logger = _
  rw [← Array.foldl_toList, logger_foldl]
  rfl

end Session

namespace Machine

/-- Whatever watches a run, its filter, its file and its mode of tracing, and whatever writes its
records: it gives one answer and leaves one machine, but for the watch. The records under a filter
are those under the filter for everything, less the ones that it holds back, and the logger gets
them one after another. -/
theorem interpret_watched (p : Program) (m : Machine) (w w' : Watch) (l l' : Log.Logger)
    (time time' : String) :
    let under (w : Watch) := (interpret p).after { m with watch := w }
    let session (w : Watch) (l : Log.Logger) (time : String) :=
      Session.perform ⟨{ m with watch := w }, l, time⟩ (interpret p)
    ((interpret p).answer { m with watch := w' } = (interpret p).answer { m with watch := w } ∧
      under w' = { under w with watch := (under w').watch }) ∧
    ((session w' l' time').answer = (session w l time).answer ∧
      ∃ v, (session w' l' time').session.machine =
        { (session w l time).session.machine with watch := v }) ∧
    (session w l time).session.logger = (under w).watch.records.foldl (fun l r => l.log time r) l ∧
    Log.Filter.ofText "trace" = .ok .all ∧
    ∀ f file, ∃ rs,
      (under { w with filter := .all, file }).watch.records = w.records ++ rs ∧
      (under { w' with filter := f, file }).watch.records =
        w'.records ++ rs.filter fun r => f.enables r.level r.target := by
  intro under session
  have hgoes := Mirror.unwatched.goes_interpret rfl p
  have hbegin : Mirror.unwatched.Shows { m with watch := w } { m with watch := w' } :=
    Mirror.unwatched.shows_of_watch rfl m trivial
  obtain ⟨hanswer, hshows⟩ := hgoes.ends hbegin
  have hafter : under w' = { under w with watch := (under w').watch } := hshows.eq_of_cls rfl
  refine ⟨⟨hanswer, hafter⟩, ⟨?_, ?_⟩, Session.logger_perform _ _, Log.Filter.ofText_all,
    fun f file => ?_⟩
  · simp only [session, Session.perform_eq]
    exact hanswer
  · simp only [session, Session.perform_eq]
    change ∃ v, (Session.settle _ _ (under w')).session.machine =
      { (Session.settle _ _ (under w)).session.machine with watch := v }
    rw [hafter]
    exact ⟨_, rfl⟩
  · let M := Mirror.following f file w w'
    have hbegin : M.watch { w with filter := .all, file } { w' with filter := f, file } :=
      ⟨rfl, rfl, [], (List.append_nil _).symm, (List.append_nil _).symm⟩
    obtain ⟨-, hend⟩ := (M.goes_interpret rfl p).ends (M.shows_of_watch rfl m hbegin)
    exact hend.watch.records

end Machine

end ClassLang
