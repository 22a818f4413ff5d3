import ClassLang.Text.Role

/-!
Clusters: what a reader takes for single characters. A text is divided between two characters
unless a rule joins them, and the rules look at nothing behind the second one, so a text is divided
in one pass that remembers a little of what stands before.
-/

namespace ClassLang.Text

/-- How far a pair of linked consonants has come. -/
inductive Conjunct where
  | none
  /-- A consonant stands before, with extending marks. -/
  | begun
  /-- A consonant stands before, with a linker among its marks. -/
  | linked
deriving DecidableEq, Repr

/-- What counts of the text before a place. -/
structure Before where
  last : Role
  /-- Whether it ends with a pictograph, extending marks, and at most one joiner. -/
  pictograph : Bool
  /-- Whether it ends with an odd number of regional signs, the first one unpaired. -/
  unpaired : Bool
  conjunct : Conjunct
deriving DecidableEq, Repr

namespace Before

/-- What counts of a text that consists of one character. -/
def start (c : Char) : Before :=
  let r := role c
  ⟨r, r = .pictograph, r = .regional, if r = .consonant then .begun else .none⟩

/-- What a character makes of linked consonants. -/
def nextConjunct (b : Before) (c : Char) : Conjunct :=
  match role c with
  | .consonant => .begun
  | .joiner => b.conjunct
  | .extend =>
    if isLinker c then (if b.conjunct = .none then .none else .linked)
    else if c = '\u200c' then .none
    else b.conjunct
  | _ => .none

/-- What counts of the text with one character more. -/
def next (b : Before) (c : Char) : Before :=
  let r := role c
  let pictograph := match r with
    | .pictograph => true
    | .extend | .joiner => b.pictograph && b.last ≠ .joiner
    | _ => false
  ⟨r, pictograph, r = .regional && !b.unpaired, b.nextConjunct c⟩

/-- Whether a character in a role belongs to the cluster before it. -/
def joins (b : Before) (r : Role) : Bool :=
  match b.last, r with
  | .carriageReturn, .lineFeed => true
  | .control, _ | .carriageReturn, _ | .lineFeed, _ => false
  | _, .control | _, .carriageReturn | _, .lineFeed => false
  | .leading, .leading | .leading, .vowel | .leading, .openSyllable
  | .leading, .closedSyllable => true
  | .openSyllable, .vowel | .openSyllable, .trailing | .vowel, .vowel | .vowel, .trailing => true
  | .closedSyllable, .trailing | .trailing, .trailing => true
  | _, .extend | _, .joiner | _, .spacing => true
  | .prepend, _ => true
  | _, .consonant => b.conjunct = .linked
  | .joiner, .pictograph => b.pictograph
  | .regional, .regional => b.unpaired
  | _, _ => false

end Before

/-- The clusters of a text behind the characters of a begun cluster, the last of which comes
first. -/
def clustersFrom (b : Before) (begun : List Char) : List Char → List (List Char)
  | [] => [begun.reverse]
  | c :: cs =>
    if b.joins (role c) then clustersFrom (b.next c) (c :: begun) cs
    else begun.reverse :: clustersFrom (b.next c) [c] cs

/-- The clusters of a text. -/
def clusters : List Char → List (List Char)
  | [] => []
  | c :: cs => clustersFrom (.start c) [c] cs

theorem flatten_clustersFrom (b : Before) (begun cs : List Char) :
    (clustersFrom b begun cs).flatten = begun.reverse ++ cs := by
  induction cs generalizing b begun with
  | nil => simp [clustersFrom]
  | cons c cs ih => rw [clustersFrom]; split <;> simp [ih]

theorem flatten_clusters (cs : List Char) : (clusters cs).flatten = cs := by
  cases cs with
  | nil => rfl
  | cons c cs => simp [clusters, flatten_clustersFrom]

end ClassLang.Text
