import ClassLang.Proofs.Log.Filter

/-!
The level for all targets is stored in two places: by itself, as a number, and in the filter. A
change of the setting writes them one after the other, and a text that describes no filter is
refused before anything is written. So the two places agree after every row of changes, and both
hold what the last change that was made has set.
-/

namespace ClassLang.Log

open ClassLang.Log.Filter

/-- The number by which a level is stored. -/
def Level.code (l : Level) : UInt8 := .ofNat l.toNat

/-- The level that a stored number means. A number that no level has means information. -/
def Level.ofCode : UInt8 → Level
  | 0 => .off
  | 1 => .error
  | 2 => .warn
  | 3 => .info
  | 4 => .debug
  | 5 => .trace
  | _ => .info

theorem Level.ofCode_code (l : Level) : ofCode l.code = l := by
  cases l <;> rfl

/-- The two cells that a setting is stored in: the number of the level to show, and the filter. -/
structure Cells where
  code : UInt8
  filter : Filter

/-- A change of a setting: another filter, by its text, or another level for all targets. -/
inductive Adjustment where
  | filter (spec : String)
  | level (l : Level)

namespace Adjustment

/-- Makes a change, one write after the other. A text is read before anything is written. -/
def make : Adjustment → EStateM LevelError Cells Unit
  | .filter spec => do
    match ofText spec with
    | .error e => throw e
    | .ok f =>
      modify fun s => { s with code := f.fallback.code }
      modify fun s => { s with filter := f }
  | .level l => do
    modify fun s => { s with code := l.code }
    modify fun s => { s with filter := { s.filter with fallback := l } }

/-- The level that a change sets, unless it is refused. -/
def level? : Adjustment → Option Level
  | .filter spec => (ofText spec).toOption.map (·.fallback)
  | .level l => some l

/-- The rules that a change sets, if it sets rules. -/
def rules? : Adjustment → Option (List Rule)
  | .filter spec => (ofText spec).toOption.map (·.rules)
  | .level _ => none

end Adjustment

namespace Cells

/-- The setting that is stored. -/
def setting (s : Cells) : Setting := ⟨.ofCode s.code, s.filter⟩

/-- Information and what matters more, for every target. -/
def initial : Cells := ⟨Level.info.code, ⟨.info, []⟩⟩

/-- What is stored after a change, made or refused. -/
def adjust (s : Cells) (a : Adjustment) : Cells :=
  match a.make s with
  | .ok _ t => t
  | .error _ t => t

variable {s t : Cells} {spec : String} {e : LevelError} {items : List (Level ⊕ Rule)}

/-! One change -/

theorem make_filter_of_error (h : ofText spec = .error e) :
    (Adjustment.filter spec).make s = .error e s := by
  rw [Adjustment.make, h]
  rfl

theorem make_filter_of_ok {f : Filter} (h : ofText spec = .ok f) :
    (Adjustment.filter spec).make s = .ok () ⟨f.fallback.code, f⟩ := by
  rw [Adjustment.make, h]
  rfl

theorem make_level (s : Cells) (l : Level) : (Adjustment.level l).make s =
    .ok () ⟨l.code, { s.filter with fallback := l }⟩ := rfl

/-- What is written is what the setting becomes, and where the setting is refused nothing is
written. -/
theorem make_filter (s : Cells) (spec : String) :
    (∃ t, (Adjustment.filter spec).make s = .ok () t ∧
      s.setting.setFilter spec = .ok t.setting) ∨
    ∃ e, (Adjustment.filter spec).make s = .error e s ∧ s.setting.setFilter spec = .error e := by
  cases h : ofText spec with
  | ok f =>
    refine .inl ⟨_, make_filter_of_ok h, ?_⟩
    rw [Setting.setFilter, h, setting, Level.ofCode_code]
    rfl
  | error e =>
    refine .inr ⟨e, make_filter_of_error h, ?_⟩
    rw [Setting.setFilter, h]
    rfl

/-- A change sets the level in both places and the rules, as far as it sets them. -/
theorem adjust_eq (s : Cells) (a : Adjustment) :
    (s.adjust a).setting.level = a.level?.getD s.setting.level ∧
    (s.adjust a).filter.fallback = a.level?.getD s.filter.fallback ∧
    (s.adjust a).filter.rules = a.rules?.getD s.filter.rules := by
  rw [adjust]
  cases a with
  | level l =>
    rw [make_level]
    exact ⟨Level.ofCode_code l, rfl, rfl⟩
  | filter spec =>
    cases h : ofText spec with
    | ok f =>
      rw [make_filter_of_ok h, Adjustment.level?, Adjustment.rules?, h]
      exact ⟨Level.ofCode_code f.fallback, rfl, rfl⟩
    | error e =>
      rw [make_filter_of_error h, Adjustment.level?, Adjustment.rules?, h]
      exact ⟨rfl, rfl, rfl⟩

/-! Rows of changes -/

theorem getD_getLast?_filterMap_cons {α β : Type} (f : α → Option β) (a : α) (as : List α) (b : β) :
    ((a :: as).filterMap f).getLast?.getD b = (as.filterMap f).getLast?.getD ((f a).getD b) := by
  cases h : f a with
  | none => simp [h]
  | some c => simp [h, List.getLast?_cons]

/-- After a row of changes both places hold the level that was set last, and the filter has the
rules that were set last. -/
theorem foldl_adjust (s : Cells) (as : List Adjustment) :
    (as.foldl adjust s).setting.level =
      (as.filterMap Adjustment.level?).getLast?.getD s.setting.level ∧
    (as.foldl adjust s).filter.fallback =
      (as.filterMap Adjustment.level?).getLast?.getD s.filter.fallback ∧
    (as.foldl adjust s).filter.rules =
      (as.filterMap Adjustment.rules?).getLast?.getD s.filter.rules := by
  induction as generalizing s with
  | nil => exact ⟨rfl, rfl, rfl⟩
  | cons a as ih =>
    obtain ⟨hlevel, hfallback, hrules⟩ := s.adjust_eq a
    obtain ⟨ihlevel, ihfallback, ihrules⟩ := ih (s.adjust a)
    simp only [getD_getLast?_filterMap_cons]
    rw [← hlevel, ← hfallback, ← hrules]
    exact ⟨ihlevel, ihfallback, ihrules⟩

/-- After every row of changes the level to show is the level of the filter that is consulted for
all targets, and so it decides for the targets that no rule covers. Of the changes that may come
next, a text that describes a filter replaces the level and the rules together, any other text is
refused and changes nothing, and a level replaces the level in both places and keeps the rules. What
is stored is what the last changes that were made have set. -/
theorem levels_agree (as : List Adjustment) :
    let s := as.foldl adjust initial
    (s.setting.level = s.filter.fallback ∧
      ∀ target level, (∀ r ∈ s.filter.rules, ¬ r.Covers target) →
        (s.setting.filter.enables level target = true ↔
          level ≠ .off ∧ level.toNat ≤ s.setting.level.toNat)) ∧
    (∀ spec,
      (∃ items t, Describes spec items ∧ (Adjustment.filter spec).make s = .ok () t ∧
        s.setting.setFilter spec = .ok t.setting ∧
        t.setting.level = (ofItems items).fallback ∧ t.filter = ofItems items) ∨
      (¬ ∃ items, Describes spec items) ∧ ∃ e, (Adjustment.filter spec).make s = .error e s ∧
        s.setting.setFilter spec = .error e) ∧
    (∀ l, ∃ t, (Adjustment.level l).make s = .ok () t ∧ t.setting = s.setting.setLevel l ∧
      t.setting.level = l ∧ t.filter = { s.filter with fallback := l }) ∧
    s.setting.level = (as.filterMap Adjustment.level?).getLast?.getD .info ∧
    s.filter.rules = (as.filterMap Adjustment.rules?).getLast?.getD [] := by
  intro s
  obtain ⟨hlevel, hfallback, hrules⟩ := initial.foldl_adjust as
  have hagree : s.setting.level = s.filter.fallback := hlevel.trans hfallback.symm
  refine ⟨⟨hagree, fun target level hnone => ?_⟩, fun spec => ?_, fun l => ?_, hlevel, hrules⟩
  · rw [hagree]
    exact (Decides.fallback hnone).enables_iff level
  · obtain ⟨t, hmake, ht⟩ | ⟨e, hmake, he⟩ := s.make_filter spec
    · obtain ⟨items, hitems, hsame⟩ := Setting.setFilter_eq_ok_iff.1 ht
      exact .inl ⟨items, t, hitems, hmake, ht, congrArg Setting.level hsame,
        congrArg Setting.filter hsame⟩
    · refine .inr ⟨?_, e, hmake, he⟩
      rintro ⟨items, hitems⟩
      rw [Setting.setFilter_eq_ok_iff.2 ⟨items, hitems, rfl⟩] at he
      cases he
  · refine ⟨_, make_level s l, ?_, Level.ofCode_code l, rfl⟩
    rw [setting, Level.ofCode_code]
    rfl

/-- A filter, a text whose second part names no level, and a level for all targets. -/
def refusedBetween : List Adjustment :=
  [.filter Setting.callsSpec, .filter "info,loud", .level .error]

theorem levels_agree_refusedBetween :
    let s := refusedBetween.foldl adjust initial
    s.setting.level = .error ∧
      s.filter = ⟨.error, [⟨"interpreter", .debug⟩, ⟨"interpreter::call", .trace⟩]⟩ ∧
      (∀ r ∈ s.filter.rules, ¬ r.Covers "parser") ∧
      s.setting.filter.enables .warn "parser" = false := by
  intro s
  obtain ⟨⟨hagree, hdefault⟩, -, -, hlevel, hrules⟩ := levels_agree refusedBetween
  have hlevel' : s.setting.level = .error := hlevel.trans (by decide +kernel)
  have hrules' : s.filter.rules = [⟨"interpreter", .debug⟩, ⟨"interpreter::call", .trace⟩] :=
    hrules.trans (by decide +kernel)
  have hnone : ∀ r ∈ s.filter.rules, ¬ r.Covers "parser" := by
    rw [hrules']
    simp only [← Rule.applies_iff]
    decide
  have hparser := hdefault "parser" .warn hnone
  rw [hlevel'] at hparser
  refine ⟨hlevel', ?_, hnone, ?_⟩
  · exact congrArg₂ Filter.mk (hagree.symm.trans hlevel') hrules'
  · rw [← Bool.not_eq_true, hparser]
    decide

end Cells

end ClassLang.Log
