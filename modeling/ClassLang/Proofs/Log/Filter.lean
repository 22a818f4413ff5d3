import ClassLang.Log.Filter
import ClassLang.Proofs.Except
import ClassLang.Proofs.Text.Blank
import ClassLang.Proofs.Text.Lines
import Mathlib.Data.List.Forall2
import Mathlib.Data.List.Perm.Basic

/-!
Which records a filter lets through, by the text that it was made from. The text is a list of parts
between commas, and each part is a level by itself or a level for the targets that begin with a
text. Of the rules for beginnings of a target the longest one decides, and the first one among
equals, so the order of the parts matters only where two of them speak of the same targets.
-/

namespace ClassLang.Log

/-- Holds of the targets that a rule speaks of. -/
def Rule.Covers (r : Rule) (target : String) : Prop :=
  r.target ≠ "" ∧ r.target.toList <+: target.toList

namespace Filter

/-- Holds of a part of a filter's text and what it says: a level by itself, or a level behind an
equals sign, for the targets that begin with the text in front of it. White space around each of
them is no part of it. -/
inductive Says : List Char → Level ⊕ Rule → Prop where
  | level {word : List Char} {l : Level} :
      '=' ∉ word → Level.ofText? (String.ofList (Text.trim word)) = some l → Says word (.inl l)
  | rule {target word : List Char} {l : Level} :
      '=' ∉ target → Level.ofText? (String.ofList (Text.trim word)) = some l →
      Says (target ++ '=' :: word) (.inr ⟨String.ofList (Text.trim target), l⟩)

/-- Holds of a text and what its parts say, in their order. Parts of white space say nothing. -/
def Describes (spec : String) (items : List (Level ⊕ Rule)) : Prop :=
  List.Forall₂ Says ((Text.splitOn ',' spec.toList).filter (Text.trim · ≠ [])) items

/-- The levels by themselves among what the parts of a text say. -/
def bareLevels (items : List (Level ⊕ Rule)) : List Level := items.filterMap Sum.getLeft?

/-- The rules among what the parts of a text say. -/
def listedRules (items : List (Level ⊕ Rule)) : List Rule := items.filterMap Sum.getRight?

/-- The filter with the rules that are listed and the last level by itself, or the level for
information if there is none. -/
def ofItems (items : List (Level ⊕ Rule)) : Filter :=
  ⟨(bareLevels items).getLast?.getD .info, listedRules items⟩

/-- Holds of a filter, a target and the level that decides for it. Among the rules for beginnings of
the target the longest beginning decides, and among those for it the first one. Where there is no
such rule, the level for all targets decides. -/
inductive Decides (f : Filter) (target : String) : Level → Prop where
  | rule {before after : List Rule} {r : Rule} :
      f.rules = before ++ r :: after → r.Covers target →
      (∀ r' ∈ f.rules, r'.Covers target → r'.target.length ≤ r.target.length) →
      (∀ r' ∈ before, r'.target ≠ r.target) → Decides f target r.level
  | fallback : (∀ r ∈ f.rules, ¬ r.Covers target) → Decides f target f.fallback

end Filter

/-! The rule that decides -/

namespace Rule

variable {r r' b : Rule} {rs : List Rule} {target : String}

theorem applies_iff : r.applies target = true ↔ r.Covers target := by
  simp [applies, Covers]

/-- Two beginnings of a target of one length are the same. -/
theorem Covers.target_eq (h : r.Covers target) (h' : r'.Covers target)
    (hlength : r.target.length = r'.target.length) : r.target = r'.target := by
  rw [← String.length_toList, ← String.length_toList] at hlength
  have hfront := List.prefix_of_prefix_length_le h.2 h'.2 hlength.le
  exact String.toList_inj.1 (hfront.eq_of_length hlength)

/-- Holds of the first among the longest rules of a list. -/
def FirstLongest (rs : List Rule) (r : Rule) : Prop :=
  ∃ before after, rs = before ++ r :: after ∧
    (∀ r' ∈ before, r'.target.length < r.target.length) ∧
    ∀ r' ∈ after, r'.target.length ≤ r.target.length

theorem FirstLongest.length_le (h : FirstLongest rs r) :
    ∀ r' ∈ rs, r'.target.length ≤ r.target.length := by
  obtain ⟨before, after, rfl, hbefore, hafter⟩ := h
  rw [List.forall_mem_append, List.forall_mem_cons]
  exact ⟨fun r' hr' => (hbefore r' hr').le, le_rfl, hafter⟩

/-- The best rule so far and the rules behind it leave the first among the longest of them all. -/
theorem exists_foldl_better (b : Rule) (rs : List Rule) :
    ∃ r, rs.foldl better (some b) = some r ∧ FirstLongest (b :: rs) r := by
  induction rs generalizing b with
  | nil => exact ⟨b, rfl, [], [], rfl, by simp, by simp⟩
  | cons x rs ih =>
    by_cases hlt : b.target.length < x.target.length
    · obtain ⟨r, hr, hlongest⟩ := ih x
      have hstep : better (some b) x = some x := if_pos hlt
      have hle : x.target.length ≤ r.target.length := hlongest.length_le x List.mem_cons_self
      obtain ⟨before, after, hrs, hbefore, hafter⟩ := hlongest
      refine ⟨r, by rw [List.foldl_cons, hstep, hr], b :: before, after, ?_, ?_, hafter⟩
      · rw [hrs, List.cons_append]
      · exact List.forall_mem_cons.2 ⟨hlt.trans_le hle, hbefore⟩
    · obtain ⟨r, hr, before, after, hrs, hbefore, hafter⟩ := ih b
      have hstep : better (some b) x = some b := if_neg hlt
      have hle : x.target.length ≤ b.target.length := Nat.le_of_not_lt hlt
      refine ⟨r, by rw [List.foldl_cons, hstep, hr], ?_⟩
      cases before with
      | nil =>
        obtain ⟨rfl, rfl⟩ := List.cons_eq_cons.1 hrs
        exact ⟨[], x :: rs, rfl, by simp, List.forall_mem_cons.2 ⟨hle, hafter⟩⟩
      | cons b' before =>
        obtain ⟨rfl, rfl⟩ := List.cons_eq_cons.1 hrs
        obtain ⟨hb, hbefore⟩ := List.forall_mem_cons.1 hbefore
        refine ⟨b :: x :: before, after, rfl, ?_, hafter⟩
        exact List.forall_mem_cons.2 ⟨hb, List.forall_mem_cons.2 ⟨hle.trans_lt hb, hbefore⟩⟩

end Rule

namespace Filter

variable {f f' : Filter} {target : String} {l l' : Level} {r : Rule}

/-- The rule that decides is the first among the longest of those that apply, if any does. -/
theorem rule?_cases (f : Filter) (target : String) :
    f.rule? target = none ∧ (∀ r ∈ f.rules, r.applies target = false) ∨
      ∃ r, f.rule? target = some r ∧ Rule.FirstLongest (f.rules.filter (·.applies target)) r := by
  rw [rule?]
  cases hrs : f.rules.filter (·.applies target) with
  | nil =>
    left
    refine ⟨rfl, fun r hr => ?_⟩
    have hnot := List.filter_eq_nil_iff.1 hrs r hr
    simpa using hnot
  | cons b rs => exact .inr (Rule.exists_foldl_better b rs)

/-- The first among the longest rules that apply is one that decides. -/
theorem decides_of_firstLongest (h : Rule.FirstLongest (f.rules.filter (·.applies target)) r) :
    f.Decides target r.level := by
  have hle := h.length_le
  obtain ⟨before, after, hrs, hbefore, -⟩ := h
  obtain ⟨front, back, hrules, hfront, hback⟩ := List.filter_eq_append_iff.1 hrs
  obtain ⟨skipped, behind, rfl, hskipped, hr, -⟩ := List.filter_eq_cons_iff.1 hback
  have hcovers : r.Covers target := Rule.applies_iff.1 hr
  rw [← List.append_assoc] at hrules
  refine .rule hrules hcovers ?_ ?_
  · intro r' hr' hcovers'
    exact hle r' (List.mem_filter.2 ⟨hr', Rule.applies_iff.2 hcovers'⟩)
  · intro r' hr' heq
    have happlies : r'.applies target = true := by
      rw [Rule.applies_iff, Rule.Covers, heq]
      exact hcovers
    rcases List.mem_append.1 hr' with hr' | hr'
    · have hlt := hbefore r' (hfront ▸ List.mem_filter.2 ⟨hr', happlies⟩)
      rw [heq] at hlt
      exact lt_irrefl _ hlt
    · exact hskipped r' hr' happlies

/-- The level that holds for a target is one that decides. -/
theorem decides_levelFor (f : Filter) (target : String) : f.Decides target (f.levelFor target) := by
  unfold levelFor
  rcases f.rule?_cases target with ⟨hnone, hrules⟩ | ⟨r, hr, hlongest⟩
  · rw [hnone]
    apply Decides.fallback
    intro r hr hcovers
    have happlies := Rule.applies_iff.2 hcovers
    rw [hrules r hr] at happlies
    cases happlies
  · rw [hr]
    exact decides_of_firstLongest hlongest

/-- Only one level decides for a target. -/
theorem Decides.unique (h : f.Decides target l) (h' : f.Decides target l') : l = l' := by
  cases h with
  | fallback hnone =>
    cases h' with
    | fallback => rfl
    | @rule before after r hrules hcovers =>
      exact absurd hcovers (hnone r (by simp [hrules]))
  | @rule before after r hrules hcovers hlongest hfirst =>
    cases h' with
    | fallback hnone => exact absurd hcovers (hnone r (by simp [hrules]))
    | @rule before' after' r' hrules' hcovers' hlongest' hfirst' =>
      have hle := hlongest r' (by simp [hrules']) hcovers'
      have hle' := hlongest' r (by simp [hrules]) hcovers
      have htarget : r.target = r'.target := hcovers.target_eq hcovers' (le_antisymm hle' hle)
      rw [hrules] at hrules'
      -- Neither of the two rules stands before the other.
      rcases List.append_eq_append_iff.1 hrules' with ⟨more, rfl, hmore⟩ | ⟨more, rfl, hmore⟩
      · cases more with
        | nil => cases hmore; rfl
        | cons x more =>
          cases hmore
          exact absurd htarget (hfirst' r (by simp))
      · cases more with
        | nil => cases hmore; rfl
        | cons x more =>
          cases hmore
          exact absurd htarget.symm (hfirst r' (by simp))

/-! Reading a filter -/

variable {spec spec' : String} {text word start : List Char} {item : Level ⊕ Rule}
  {items items' : List (Level ⊕ Rule)}

theorem level_eq_ok : level word = .ok l ↔ Level.ofText? (String.ofList word) = some l := by
  rw [level]
  cases Level.ofText? (String.ofList word) <;> simp

theorem part_of_not_mem (h : '=' ∉ word) : part word = (level word).map .inl := by
  rw [part, Text.cut_of_not_mem h]

theorem part_append_equals (h : '=' ∉ start) (word : List Char) :
    part (start ++ '=' :: word) = (level (Text.trim word)).map fun l =>
      .inr ⟨String.ofList (Text.trim start), l⟩ := by
  have hword : (start ++ '=' :: word).drop (start.length + 1) = word := by
    rw [← List.drop_drop, List.drop_left]
    rfl
  rw [part, Text.cut_append_sep h]
  simp only [Text.splitOn, hword]

/-- A step for each member of a list succeeds if all of them do. -/
theorem mapM_eq_ok {ε α β : Type} {f : α → Except ε β} {xs : List α} {ys : List β} :
    xs.mapM f = .ok ys ↔ List.Forall₂ (fun x y => f x = .ok y) xs ys := by
  induction xs generalizing ys with
  | nil => cases ys <;> simp [pure, Except.pure]
  | cons x xs ih =>
    rw [List.mapM_cons, bind_eq_ok]
    simp only [bind_eq_ok, ih]
    constructor
    · rintro ⟨y, hy, ys, hys, hcons⟩
      cases hcons
      exact .cons hy hys
    · rintro (_ | ⟨hy, hys⟩)
      exact ⟨_, hy, _, hys, rfl⟩

/-- A part is read as what it says. -/
theorem part_trim_eq_ok : part (Text.trim text) = .ok item ↔ Says text item := by
  have hequals : Text.isBlank '=' = false := by decide
  by_cases hmem : '=' ∈ text
  · obtain ⟨start, word, rfl, hstart⟩ := List.eq_append_cons_of_mem hmem
    have hfirst : '=' ∉ Text.trimLeft start :=
      fun h => hstart ((List.dropWhile_sublist _).subset h)
    rw [Text.trim_append_cons hequals, part_append_equals hfirst, Text.trim_trimLeft,
      Text.trim_trimRight, map_eq_ok]
    simp only [level_eq_ok]
    constructor
    · rintro ⟨l, hl, rfl⟩
      exact .rule hstart hl
    · intro h
      generalize htext : start ++ '=' :: word = text at h
      cases h with
      | level hnot => exact absurd (htext ▸ hmem) hnot
      | @rule start' word' l hstart' hl =>
        have hcut := congrArg (Text.cut '=') htext
        rw [Text.cut_append_sep hstart, Text.cut_append_sep hstart'] at hcut
        obtain rfl : start = start' := congrArg Prod.fst hcut
        obtain ⟨-, rfl⟩ := List.cons_eq_cons.1 (List.append_cancel_left htext)
        exact ⟨l, hl, rfl⟩
  · have hfree : '=' ∉ Text.trim text := fun h => hmem (Text.mem_of_mem_trim h)
    rw [part_of_not_mem hfree, map_eq_ok]
    simp only [level_eq_ok]
    constructor
    · rintro ⟨l, hl, rfl⟩
      exact .level hmem hl
    · intro h
      cases h with
      | level _ hl => exact ⟨_, hl, rfl⟩
      | rule => exact absurd (by simp) hmem

theorem mapM_part_eq_ok : (parts spec).mapM part = .ok items ↔ Describes spec items := by
  have hparts : parts spec =
      ((Text.splitOn ',' spec.toList).filter (Text.trim · ≠ [])).map Text.trim := by
    rw [parts, List.filter_map]
    rfl
  rw [mapM_eq_ok, hparts, List.forall₂_map_left_iff]
  simp only [part_trim_eq_ok]
  rfl

/-- What a text says is settled by it. -/
theorem Describes.unique (h : Describes spec items) (h' : Describes spec items') :
    items = items' := by
  have hread := mapM_part_eq_ok.2 h
  rw [mapM_part_eq_ok.2 h'] at hread
  cases hread
  rfl

theorem foldl_extend (f : Filter) (items : List (Level ⊕ Rule)) :
    items.foldl extend f =
      ⟨(bareLevels items).getLast?.getD f.fallback, f.rules ++ listedRules items⟩ := by
  induction items generalizing f with
  | nil => simp [bareLevels, listedRules]
  | cons item items ih =>
    rw [List.foldl_cons, ih]
    cases item with
    | inl l => simp [extend, bareLevels, listedRules, List.filterMap_cons, List.getLast?_cons]
    | inr r => simp [extend, bareLevels, listedRules, List.filterMap_cons]

/-- A text is read as the filter that it describes. -/
theorem ofText_eq_ok_iff :
    ofText spec = .ok f ↔ ∃ items, Describes spec items ∧ f = ofItems items := by
  rw [ofText, bind_eq_ok]
  simp only [mapM_part_eq_ok, foldl_extend]
  constructor
  · rintro ⟨items, hitems, hf⟩
    cases hf
    exact ⟨items, hitems, rfl⟩
  · rintro ⟨items, hitems, rfl⟩
    exact ⟨items, hitems, rfl⟩

/-! The order of the parts -/

/-- The parts in another order say the same in another order. -/
theorem Describes.perm (h : Describes spec items)
    (hperm : (Text.splitOn ',' spec'.toList).Perm (Text.splitOn ',' spec.toList)) :
    ∃ items', Describes spec' items' ∧ items'.Perm items :=
  List.perm_comp_forall₂ (hperm.filter _) h

/-- No more than one level by itself is the same in every order. -/
theorem bareLevels_eq_of_perm (hperm : items'.Perm items) (hone : (bareLevels items).length ≤ 1) :
    bareLevels items' = bareLevels items := by
  have hlevels : (bareLevels items').Perm (bareLevels items) := hperm.filterMap _
  match hbare : bareLevels items, hone with
  | [], _ =>
    rw [hbare] at hlevels
    exact hlevels.eq_nil
  | [l], _ =>
    rw [hbare] at hlevels
    exact List.perm_singleton.1 hlevels

/-- Rules for different targets decide the same in every order. -/
theorem Decides.perm (hperm : items'.Perm items)
    (hone : (bareLevels items).length ≤ 1) (hnodup : ((listedRules items).map Rule.target).Nodup)
    (h : (ofItems items).Decides target l) : (ofItems items').Decides target l := by
  have hrules : (listedRules items').Perm (listedRules items) := hperm.filterMap _
  have hfallback : (ofItems items').fallback = (ofItems items).fallback := by
    rw [ofItems, ofItems, bareLevels_eq_of_perm hperm hone]
  cases h with
  | fallback hnone =>
    rw [← hfallback]
    exact .fallback fun r hr => hnone r (hrules.mem_iff.1 hr)
  | @rule before after r hlisted hcovers hlongest =>
    have hr : r ∈ (ofItems items).rules := by simp [hlisted]
    obtain ⟨before', after', hlisted'⟩ := List.append_of_mem (hrules.mem_iff.2 hr)
    refine .rule hlisted' hcovers (fun r' hr' => hlongest r' (hrules.mem_iff.1 hr')) ?_
    intro r' hr' heq
    have hnodup' : ((before' ++ r :: after').map Rule.target).Nodup :=
      hlisted' ▸ (hrules.map Rule.target).nodup_iff.2 hnodup
    rw [List.map_append, List.map_cons] at hnodup'
    have hdisjoint := (List.nodup_append.1 hnodup').2.2
    exact hdisjoint _ (List.mem_map_of_mem hr') _ List.mem_cons_self heq

theorem Decides.enables_iff (h : f.Decides target l) (level : Level) :
    f.enables level target = true ↔ level ≠ .off ∧ level.toNat ≤ l.toNat := by
  rw [h.unique (f.decides_levelFor target)]
  simp [enables]

end Filter

/-! Filters in force -/

namespace Setting

open ClassLang.Log.Filter

variable {s t : Setting} {spec : String}

/-- A text that describes a filter sets it, and its level for all targets with it. -/
theorem setFilter_eq_ok_iff : s.setFilter spec = .ok t ↔
    ∃ items, Describes spec items ∧ t = ⟨(ofItems items).fallback, ofItems items⟩ := by
  rw [setFilter, bind_eq_ok]
  simp only [ofText_eq_ok_iff]
  constructor
  · rintro ⟨f, ⟨items, hitems, rfl⟩, ht⟩
    cases ht
    exact ⟨items, hitems, rfl⟩
  · rintro ⟨items, hitems, rfl⟩
    exact ⟨_, ⟨items, hitems, rfl⟩, rfl⟩

/-- A text is taken for a filter exactly where each of its parts says something. A record is then
let through if it has a level that is not silence and is no finer than the one that decides for its
target, and for each target one level decides. Where the parts list no two rules for one beginning
and no two levels by themselves, a text with the same parts in another order is taken as well and
lets the same records through. -/
theorem enables_of_setFilter (s : Setting) (spec : String) :
    ((∃ t, s.setFilter spec = .ok t) ↔ ∃ items, Describes spec items) ∧
    ∀ t items, s.setFilter spec = .ok t → Describes spec items →
      (∀ target, (∃ limit, (ofItems items).Decides target limit) ∧
        ∀ limit, (ofItems items).Decides target limit → ∀ level,
          (t.filter.enables level target = true ↔ level ≠ .off ∧ level.toNat ≤ limit.toNat)) ∧
      (((listedRules items).map Rule.target).Nodup → (bareLevels items).length ≤ 1 →
        ∀ spec', (Text.splitOn ',' spec'.toList).Perm (Text.splitOn ',' spec.toList) →
          ∃ t', s.setFilter spec' = .ok t' ∧ ∀ level target,
            t'.filter.enables level target = t.filter.enables level target) := by
  have hset : ∀ {spec items}, Describes spec items →
      s.setFilter spec = .ok ⟨(ofItems items).fallback, ofItems items⟩ :=
    fun hitems => setFilter_eq_ok_iff.2 ⟨_, hitems, rfl⟩
  refine ⟨⟨?_, fun ⟨items, hitems⟩ => ⟨_, hset hitems⟩⟩, fun t items ht hitems => ?_⟩
  · rintro ⟨t, ht⟩
    obtain ⟨items, hitems, -⟩ := setFilter_eq_ok_iff.1 ht
    exact ⟨items, hitems⟩
  rw [hset hitems] at ht
  cases ht
  refine ⟨fun target => ⟨⟨_, decides_levelFor _ target⟩, fun limit h level => h.enables_iff level⟩,
    fun hnodup hone spec' hperm => ?_⟩
  obtain ⟨items', hitems', hsame⟩ := hitems.perm hperm
  refine ⟨_, hset hitems', fun level target => ?_⟩
  have hdecides := decides_levelFor (ofItems items) target
  have hdecides' := hdecides.perm hsame hone hnodup
  rw [Bool.eq_iff_iff, hdecides.enables_iff level, hdecides'.enables_iff level]

/-- A filter with a rule for a part of the targets that another rule is for. -/
def callsSpec : String := "warn, interpreter=debug ,interpreter::call=trace"

/-- What its parts say. -/
def callsItems : List (Level ⊕ Rule) :=
  [.inl .warn, .inr ⟨"interpreter", .debug⟩, .inr ⟨"interpreter::call", .trace⟩]

theorem enables_of_setFilter_callsSpec : ∃ t, initial.setFilter callsSpec = .ok t ∧
    (Describes callsSpec callsItems ∧ (ofItems callsItems).Decides "interpreter::calls" .trace ∧
      t.filter.enables .trace "interpreter::calls" = true) ∧
    ∃ t', initial.setFilter "interpreter::call=trace,warn, interpreter=debug " = .ok t' ∧
      ∀ level target, t'.filter.enables level target = t.filter.enables level target := by
  have hdescribes : Describes callsSpec callsItems := mapM_part_eq_ok.1 (by decide +kernel)
  have hdecides : (ofItems callsItems).Decides "interpreter::calls" .trace :=
    decides_levelFor (ofItems callsItems) "interpreter::calls"
  obtain ⟨htaken, hlaw⟩ := enables_of_setFilter initial callsSpec
  obtain ⟨t, ht⟩ := htaken.2 ⟨callsItems, hdescribes⟩
  obtain ⟨hrecords, horder⟩ := hlaw t callsItems ht hdescribes
  have htrace := ((hrecords "interpreter::calls").2 .trace hdecides .trace).2
    ⟨by decide, by decide⟩
  exact ⟨t, ht, ⟨hdescribes, hdecides, htrace⟩,
    horder (by decide) (by decide) _ (by decide +kernel)⟩

end Setting

end ClassLang.Log
