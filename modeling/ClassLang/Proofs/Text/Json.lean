import ClassLang.Text.Json
import Mathlib.Data.List.Forall2
import Mathlib.Data.List.TakeWhile
import Mathlib.Data.Option.Basic

/-!
Reading JSON, and what is read where JSON was written. The reader takes all JSON texts: white space
around each token, every escape, pairs of surrogates, and numbers with fractions and exponents.
What the writer puts down, at any depth inside an object, is read back as it was meant, and no
character of it is a control character.
-/

namespace ClassLang.Text.Json

/-- JSON values. The members of an object stand in the order of the text, with repeated names. -/
inductive Value where
  | null
  | bool (b : Bool)
  /-- The number `mantissa * 10 ^ exponent`. -/
  | number (mantissa exponent : Int)
  | string (s : String)
  | array (items : List Value)
  | object (members : List (String × Value))

/-! Reading -/

/-- What is left of a text, with fewer than `bound` characters. -/
structure Tail (bound : Nat) where
  rest : List Char
  shorter : rest.length < bound

/-- The same rest under a larger bound. -/
def Tail.widen {m n : Nat} (t : Tail m) (h : m ≤ n) : Tail n :=
  ⟨t.rest, Nat.lt_of_lt_of_le t.shorter h⟩

/-- White space. -/
def isSpace (c : Char) : Bool := c == ' ' || c == '\t' || c == '\n' || c == '\r'

/-- The next character that is no white space, and what stands behind it. -/
def next? : (cs : List Char) → Option (Char × Tail cs.length)
  | [] => none
  | c :: cs =>
    if isSpace c then (next? cs).map fun p => (p.1, p.2.widen (Nat.le_succ _))
    else some (c, ⟨cs, Nat.lt_succ_self _⟩)

/-- The value of a digit in base sixteen. -/
def hexValue? (c : Char) : Option Nat :=
  if '0' ≤ c ∧ c ≤ '9' then some (c.toNat - '0'.toNat)
  else if 'a' ≤ c ∧ c ≤ 'f' then some (c.toNat - 'a'.toNat + 10)
  else if 'A' ≤ c ∧ c ≤ 'F' then some (c.toNat - 'A'.toNat + 10)
  else none

/-- The number that digits in base sixteen write. -/
def hex? (ds : List Char) : Option Nat :=
  ds.foldlM (fun n d => (hexValue? d).map (16 * n + ·)) 0

/-- A part of a string: a character, or a code unit of sixteen bits. -/
inductive Part where
  | char (c : Char)
  | unit (n : Nat)

/-- The character of an escape by one letter. -/
def letter? : Char → Option Char
  | '"' => some '"'
  | '\\' => some '\\'
  | '/' => some '/'
  | 'b' => some '\x08'
  | 'f' => some '\x0c'
  | 'n' => some '\n'
  | 'r' => some '\r'
  | 't' => some '\t'
  | _ => none

/-- Reads the parts of a string behind its opening quote, and the closing quote. -/
def readParts : (cs : List Char) → Option (List Part × Tail cs.length)
  | [] => none
  | '"' :: cs => some ([], ⟨cs, Nat.lt_succ_self _⟩)
  | '\\' :: 'u' :: a :: b :: c :: d :: cs => do
    let n ← hex? [a, b, c, d]
    let (ps, tail) ← readParts cs
    return (.unit n :: ps, tail.widen (by simp only [List.length_cons]; omega))
  | '\\' :: e :: cs => do
    let c ← letter? e
    let (ps, tail) ← readParts cs
    return (.char c :: ps, tail.widen (by simp only [List.length_cons]; omega))
  | c :: cs =>
    if c = '\\' ∨ c.toNat < 0x20 then none
    else (readParts cs).map fun p => (.char c :: p.1, p.2.widen (Nat.le_succ _))

/-- The characters of parts. Two surrogates make one character, and one alone makes none. -/
def resolve : List Part → Option (List Char)
  | [] => some []
  | .char c :: ps => (resolve ps).map (c :: ·)
  | .unit n :: ps =>
    if n < 0xd800 ∨ 0xe000 ≤ n then (resolve ps).map (Char.ofNat n :: ·)
    else match ps with
      | .unit low :: ps =>
        if n < 0xdc00 ∧ 0xdc00 ≤ low ∧ low < 0xe000 then
          (resolve ps).map (Char.ofNat (0x10000 + (n - 0xd800) * 0x400 + (low - 0xdc00)) :: ·)
        else none
      | _ => none

/-- Reads a string behind its opening quote. -/
def readString (cs : List Char) : Option (String × Tail cs.length) := do
  let (ps, tail) ← readParts cs
  let s ← resolve ps
  return (String.ofList s, tail)

/-- The characters of numbers and of the literal names. -/
def isBare (c : Char) : Bool := c.isAlphanum || c == '+' || c == '-' || c == '.'

/-- The digits at the front of a text, of which there is one at least, and what follows. -/
def digits? (cs : List Char) : Option (List Char × List Char) :=
  let ds := cs.takeWhile Char.isDigit
  if ds = [] then none else some (ds, cs.dropWhile Char.isDigit)

/-- The sign in front of a number, as a factor, and what follows. -/
def signed : List Char → Int × List Char
  | '-' :: cs => (-1, cs)
  | cs => (1, cs)

/-- The exponent that ends a number. Where nothing is left it is zero. -/
def exponent? : List Char → Option Int
  | [] => some 0
  | e :: cs =>
    if e = 'e' ∨ e = 'E' then do
      let (sign, cs) := match cs with
        | '+' :: cs => (1, cs)
        | cs => signed cs
      let (ds, rest) ← digits? cs
      if rest = [] then some (sign * Nat.ofDigitChars 10 ds 0) else none
    else none

/-- The value of a number. No zero stands in front of other digits. -/
def number? (cs : List Char) : Option Value := do
  let (sign, cs) := signed cs
  let (whole, cs) ← digits? cs
  guard (whole.head? = some '0' → whole = ['0'])
  let (fraction, cs) ← match cs with
    | '.' :: cs => digits? cs
    | cs => some ([], cs)
  let e ← exponent? cs
  return .number (sign * Nat.ofDigitChars 10 (whole ++ fraction) 0) (e - fraction.length)

/-- The value of a row of bare characters. -/
def bare? (cs : List Char) : Option Value :=
  if cs = ['n', 'u', 'l', 'l'] then some .null
  else if cs = ['t', 'r', 'u', 'e'] then some (.bool true)
  else if cs = ['f', 'a', 'l', 's', 'e'] then some (.bool false)
  else number? cs

mutual

/-- Reads a value. -/
def readValue (cs : List Char) : Option (Value × Tail cs.length) := do
  let (c, t) ← next? cs
  have _ht := t.shorter
  if c = '"' then
    let (s, u) ← readString t.rest
    return (.string s, u.widen (by omega))
  else if c = '[' then
    let (vs, u) ← readArray t.rest
    return (.array vs, u.widen (by omega))
  else if c = '{' then
    let (ms, u) ← readObject t.rest
    return (.object ms, u.widen (by omega))
  else if isBare c then
    let v ← bare? (c :: t.rest.takeWhile isBare)
    return (v, ⟨t.rest.dropWhile isBare,
      Nat.lt_of_le_of_lt (List.dropWhile_suffix _).length_le t.shorter⟩)
  else none
termination_by (cs.length, 0)

/-- Reads the items of an array behind its opening bracket. -/
def readArray (cs : List Char) : Option (List Value × Tail cs.length) := do
  let (c, t) ← next? cs
  if c = ']' then return ([], t) else readItems cs
termination_by (cs.length, 2)

/-- Reads items, of which there is one at least, and the closing bracket. -/
def readItems (cs : List Char) : Option (List Value × Tail cs.length) := do
  let (v, t) ← readValue cs
  let (c, u) ← next? t.rest
  have _ht := t.shorter
  have _hu := u.shorter
  if c = ']' then return ([v], u.widen (by omega))
  else if c = ',' then
    let (vs, w) ← readItems u.rest
    return (v :: vs, w.widen (by omega))
  else none
termination_by (cs.length, 1)

/-- Reads the members of an object behind its opening brace. -/
def readObject (cs : List Char) : Option (List (String × Value) × Tail cs.length) := do
  let (c, t) ← next? cs
  if c = '}' then return ([], t) else readMembers cs
termination_by (cs.length, 2)

/-- Reads members, of which there is one at least, and the closing brace. -/
def readMembers (cs : List Char) : Option (List (String × Value) × Tail cs.length) := do
  let (quote, t₀) ← next? cs
  guard (quote = '"')
  let (k, t₁) ← readString t₀.rest
  let (colon, t₂) ← next? t₁.rest
  guard (colon = ':')
  have h₂ : t₂.rest.length < cs.length :=
    Nat.lt_trans (Nat.lt_trans t₂.shorter t₁.shorter) t₀.shorter
  let (v, t₃) ← readValue t₂.rest
  let (c, t₄) ← next? t₃.rest
  have h₄ : t₄.rest.length < cs.length := Nat.lt_trans (Nat.lt_trans t₄.shorter t₃.shorter) h₂
  if c = '}' then return ([(k, v)], ⟨t₄.rest, h₄⟩)
  else if c = ',' then
    let (ms, t₅) ← readMembers t₄.rest
    return ((k, v) :: ms, t₅.widen (Nat.le_of_lt h₄))
  else none
termination_by (cs.length, 1)

end

/-- Reads a text that is one value. -/
def read (text : String) : Option Value := do
  let (v, t) ← readValue text.toList
  guard (t.rest.all isSpace)
  return v

variable {c : Char} {cs w rest : List Char} {v : Value}

/-! Characters -/

theorem next?_of_isSpace_eq_false (h : isSpace c = false) (cs : List Char) :
    next? (c :: cs) = some (c, ⟨cs, Nat.lt_succ_self _⟩) := by
  rw [next?, h, if_neg Bool.false_ne_true]

theorem hexValue?_hexDigit (n : Nat) : hexValue? (hexDigit n) = some (n % 16) := by
  have hall : ∀ d < 16, hexValue? (Nat.digitChar d) = some d := by decide
  exact hall _ (Nat.mod_lt _ (by decide))

theorem hex?_control {n : Nat} (h : n < 0x20) :
    hex? ['0', '0', hexDigit (n / 16), hexDigit n] = some n := by
  have hzero : hexValue? '0' = some 0 := rfl
  have hhigh : n / 16 % 16 = n / 16 := by omega
  simp [hex?, List.foldlM, hzero, hexValue?_hexDigit, hhigh]
  omega

/-! Strings -/

/-- Holds of a reading that gives a value and leaves a text. -/
def Gives {α : Type} {n : Nat} (x : Option (α × Tail n)) (a : α) (rest : List Char) : Prop :=
  ∃ h, x = some (a, ⟨rest, h⟩)

/-- Holds of a part of a string and the one character that it is. -/
inductive Part.Is : Part → Char → Prop where
  | char {c : Char} : Is (.char c) c
  | unit {c : Char} : c.toNat < 0x20 → Is (.unit c.toNat) c

theorem resolve_of_is {ps : List Part} (h : List.Forall₂ Part.Is ps cs) : resolve ps = some cs := by
  induction h with
  | nil => rfl
  | @cons p c ps cs hp _ ih =>
    cases hp with
    | char => rw [resolve, ih, Option.map_some]
    | unit hc =>
      unfold resolve
      rw [if_pos (.inl (by omega)), ih, Option.map_some, Char.ofNat_toNat]

example : resolve [.unit 0xd83d, .unit 0xde00] = some ['😀'] := rfl

theorem gives_close (rest : List Char) : Gives (readParts ('"' :: rest)) [] rest :=
  ⟨Nat.lt_succ_self _, by rw [readParts]⟩

theorem gives_letter {ps : List Part} {e : Char} (he : letter? e = some c)
    (h : Gives (readParts cs) ps rest) :
    Gives (readParts ('\\' :: e :: cs)) (.char c :: ps) rest := by
  obtain ⟨hrest, h⟩ := h
  have hu : e ≠ 'u' := by
    rintro rfl
    cases he
  refine ⟨by simp only [List.length_cons]; omega, ?_⟩
  unfold readParts
  simp [he, h, hu, Tail.widen]

theorem gives_unit {ps : List Part} {a b d : Char} {n : Nat} (hn : hex? [a, b, c, d] = some n)
    (h : Gives (readParts cs) ps rest) :
    Gives (readParts ('\\' :: 'u' :: a :: b :: c :: d :: cs)) (.unit n :: ps) rest := by
  obtain ⟨hrest, h⟩ := h
  refine ⟨by simp only [List.length_cons]; omega, ?_⟩
  unfold readParts
  simp [hn, h, Tail.widen]

theorem gives_char {ps : List Part} (hquote : c ≠ '"') (hback : c ≠ '\\') (hc : 0x20 ≤ c.toNat)
    (h : Gives (readParts cs) ps rest) : Gives (readParts (c :: cs)) (.char c :: ps) rest := by
  obtain ⟨hrest, h⟩ := h
  refine ⟨by simp only [List.length_cons]; omega, ?_⟩
  unfold readParts
  simp [hback, hc, h, Tail.widen]

/-- One character that was written is read as one part. -/
theorem readParts_escape {ps : List Part} (h : Gives (readParts cs) ps rest) (c : Char) :
    ∃ p, Part.Is p c ∧ Gives (readParts (escape c ++ cs)) (p :: ps) rest := by
  fun_cases escape c with
  | case8 _ _ _ _ _ _ _ _ hc => exact ⟨_, .unit hc, gives_unit (hex?_control hc) h⟩
  | case9 _ hquote hback _ _ _ _ _ hc =>
    exact ⟨_, .char, gives_char hquote hback (Nat.le_of_not_lt hc) h⟩
  | _ => exact ⟨_, .char, gives_letter rfl h⟩

/-- A string that was written is read back behind its opening quote. -/
theorem readString_string (s : String) (rest : List Char) :
    Gives (readString (s.toList.flatMap escape ++ '"' :: rest)) s rest := by
  have hparts : ∃ ps, List.Forall₂ Part.Is ps s.toList ∧
      Gives (readParts (s.toList.flatMap escape ++ '"' :: rest)) ps rest := by
    induction s.toList with
    | nil => exact ⟨[], .nil, gives_close rest⟩
    | cons c cs ih =>
      obtain ⟨ps, hps, hread⟩ := ih
      obtain ⟨p, hp, hread⟩ := readParts_escape hread c
      rw [List.flatMap_cons, List.append_assoc]
      exact ⟨p :: ps, .cons hp hps, hread⟩
  obtain ⟨ps, hps, hrest, hread⟩ := hparts
  refine ⟨hrest, ?_⟩
  simp [readString, hread, resolve_of_is hps]

theorem control_escape (c : Char) : ∀ d ∈ escape c, 0x20 ≤ d.toNat := by
  have hhex (n : Nat) : 0x20 ≤ (hexDigit n).toNat := by
    have hall : ∀ d < 16, 0x20 ≤ (Nat.digitChar d).toNat := by decide
    exact hall _ (Nat.mod_lt _ (by decide))
  fun_cases escape c with
  | case8 => simp [hhex]
  | case9 _ _ _ _ _ _ _ _ hc => simpa using hc
  | _ => simp

/-! Values -/

/-- Holds of the written form of a value: it is read as this value wherever it ends, and it has no
control character in it. -/
structure Writes (w : List Char) (v : Value) : Prop where
  gives : ∀ rest, (∀ c ∈ rest.head?, isBare c = false) → Gives (readValue (w ++ rest)) v rest
  inline : ∀ c ∈ w, 0x20 ≤ c.toNat

theorem inline_string (s : String) : ∀ c ∈ string s, 0x20 ≤ c.toNat := by
  have hquote : 0x20 ≤ '"'.toNat := by decide
  intro c hc
  simp only [string, List.mem_cons, List.mem_append, List.mem_flatMap, List.not_mem_nil,
    or_false] at hc
  obtain rfl | ⟨d, -, hc⟩ | rfl := hc
  · exact hquote
  · exact control_escape d c hc
  · exact hquote

theorem string_append (s : String) (rest : List Char) :
    string s ++ rest = '"' :: (s.toList.flatMap escape ++ '"' :: rest) := by
  simp [string]

theorem writes_string (s : String) : Writes (string s) (.string s) := by
  refine ⟨fun rest _ => ?_, inline_string s⟩
  obtain ⟨hrest, hread⟩ := readString_string s rest
  rw [string_append]
  refine ⟨Nat.lt_succ_of_lt hrest, ?_⟩
  unfold readValue
  simp [next?_of_isSpace_eq_false (show isSpace '"' = false from rfl), hread, Tail.widen]

theorem digits?_of_isDigit (hne : w ≠ []) (hw : ∀ c ∈ w, c.isDigit = true) :
    digits? w = some (w, []) := by
  have htake : w.takeWhile Char.isDigit = w := List.takeWhile_eq_self_iff.2 hw
  have hdrop : w.dropWhile Char.isDigit = [] := List.dropWhile_eq_nil_iff.2 hw
  rw [digits?, htake, hdrop, if_neg hne]

/-- No zero is written in front of other digits. -/
theorem eq_of_head?_toDigits {n : Nat} (h : (Nat.toDigits 10 n).head? = some '0') :
    Nat.toDigits 10 n = ['0'] := by
  induction n using Nat.strongRecOn with
  | ind n ih =>
    by_cases hn : n < 10
    · rw [Nat.toDigits_of_lt_base hn] at h ⊢
      rw [Option.some.inj h]
    · have hle : 10 ≤ n := Nat.le_of_not_lt hn
      rw [Nat.toDigits_of_base_le (by decide) hle, List.head?_append,
        Option.or_of_isSome (List.isSome_head?.2 Nat.toDigits_ne_nil)] at h
      have hfront := ih (n / 10) (by omega) h
      have hvalue : Nat.ofDigitChars 10 (Nat.toDigits 10 (n / 10)) 0 = n / 10 :=
        Nat.ofDigitChars_ten_toDigits
      rw [hfront] at hvalue
      have hzero : Nat.ofDigitChars 10 ['0'] 0 = 0 := rfl
      omega

theorem number?_toDigits (n : Nat) : number? (Nat.toDigits 10 n) = some (.number n 0) := by
  have hdigits : ∀ c ∈ Nat.toDigits 10 n, c.isDigit = true :=
    fun c hc => Nat.isDigit_of_mem_toDigits (by decide) (by decide) hc
  have hread := digits?_of_isDigit Nat.toDigits_ne_nil hdigits
  have hsign : signed (Nat.toDigits 10 n) = (1, Nat.toDigits 10 n) := by
    unfold signed
    split
    · rename_i heq
      cases hdigits '-' (by rw [heq]; exact List.mem_cons_self)
    · rfl
  have hguard : guard ((Nat.toDigits 10 n).head? = some '0' → Nat.toDigits 10 n = ['0']) =
      some () := if_pos eq_of_head?_toDigits
  simp [number?, hsign, hread, hguard, exponent?, Nat.ofDigitChars_ten_toDigits]

example : number? ['-', '1', '.', '5', '0', 'e', '+', '3'] = some (.number (-150) 1) := rfl

theorem bare?_toDigits (n : Nat) : bare? (Nat.toDigits 10 n) = some (.number n 0) := by
  have hname {w : List Char} (h : ∃ c ∈ w, c.isDigit = false) : Nat.toDigits 10 n ≠ w := by
    rintro rfl
    obtain ⟨c, hc, hletter⟩ := h
    rw [Nat.isDigit_of_mem_toDigits (by decide) (by decide) hc] at hletter
    cases hletter
  rw [bare?, if_neg (hname ⟨'n', List.mem_cons_self, rfl⟩),
    if_neg (hname ⟨'t', List.mem_cons_self, rfl⟩), if_neg (hname ⟨'f', List.mem_cons_self, rfl⟩),
    number?_toDigits]

theorem isBare_of_isDigit (h : c.isDigit = true) : isBare c = true := by
  simp [isBare, Char.isAlphanum, h]

theorem bounds_of_isDigit (h : c.isDigit = true) : 48 ≤ c.toNat ∧ c.toNat ≤ 57 := by
  simpa [Char.isDigit, UInt32.le_iff_toNat_le] using h

theorem start_of_isDigit (h : c.isDigit = true) :
    isSpace c = false ∧ c ≠ '"' ∧ c ≠ '[' ∧ c ≠ '{' := by
  have hne {d : Char} (hd : d.isDigit = false) : c ≠ d := by
    rintro rfl
    rw [h] at hd
    cases hd
  have hspace : isSpace c = false := by
    simp [isSpace, hne (d := ' ') rfl, hne (d := '\t') rfl, hne (d := '\n') rfl,
      hne (d := '\r') rfl]
  exact ⟨hspace, hne rfl, hne rfl, hne rfl⟩

/-- A row of bare characters ends where no such character follows. -/
theorem span_isBare (hw : ∀ c ∈ w, isBare c = true) (hrest : ∀ c ∈ rest.head?, isBare c = false) :
    (w ++ rest).takeWhile isBare = w ∧ (w ++ rest).dropWhile isBare = rest := by
  rw [List.takeWhile_append_of_pos hw, List.dropWhile_append_of_pos hw]
  cases rest with
  | nil => simp
  | cons c cs =>
    have hc : isBare c = false := hrest c rfl
    simp [hc]

/-- A number in decimals is its value. -/
theorem writes_number (n : Nat) : Writes (toString n).toList (.number n 0) := by
  have htext : (toString n).toList = Nat.toDigits 10 n := Nat.toList_repr
  have hdigits : ∀ c ∈ Nat.toDigits 10 n, c.isDigit = true :=
    fun c hc => Nat.isDigit_of_mem_toDigits (by decide) (by decide) hc
  have hinline (c : Char) (hc : c ∈ Nat.toDigits 10 n) : 0x20 ≤ c.toNat := by
    have := bounds_of_isDigit (hdigits c hc)
    omega
  rw [htext]
  refine ⟨fun rest hrest => ?_, hinline⟩
  obtain ⟨d, ds, hds⟩ := List.exists_cons_of_ne_nil (Nat.toDigits_ne_nil (n := n) (b := 10))
  have hbare := bare?_toDigits n
  rw [hds] at hdigits hbare ⊢
  obtain ⟨hd, hds⟩ := List.forall_mem_cons.1 hdigits
  obtain ⟨hspace, hquote, hbracket, hbrace⟩ := start_of_isDigit hd
  obtain ⟨htake, hdrop⟩ := span_isBare (fun c hc => isBare_of_isDigit (hds c hc)) hrest
  refine ⟨by simp only [List.length_append, List.length_cons]; omega, ?_⟩
  unfold readValue
  simp [next?_of_isSpace_eq_false hspace, hquote, hbracket, hbrace, isBare_of_isDigit hd, htake,
    hdrop, hbare]

/-- The members of an object as they stand between its braces. -/
def inside (members : List (String × List Char)) : List Char :=
  ((members.map fun m => string m.1 ++ ':' :: m.2).intersperse [',']).flatten

theorem inside_singleton (m : String × List Char) : inside [m] = string m.1 ++ ':' :: m.2 := by
  simp [inside]

theorem inside_cons_cons (m m' : String × List Char) (ms : List (String × List Char)) :
    inside (m :: m' :: ms) = string m.1 ++ ':' :: (m.2 ++ ',' :: inside (m' :: ms)) := by
  simp [inside]

theorem object_append (ms : List (String × List Char)) (rest : List Char) :
    object ms ++ rest = '{' :: (inside ms ++ '}' :: rest) := by
  simp [object, inside]

/-- Members begin with the quote of a name. -/
theorem exists_inside_cons (m : String × List Char) (ms : List (String × List Char)) :
    ∃ cs, inside (m :: ms) = '"' :: cs := by
  cases ms with
  | nil =>
    rw [inside_singleton, string_append]
    exact ⟨_, rfl⟩
  | cons m' ms =>
    rw [inside_cons_cons, string_append]
    exact ⟨_, rfl⟩

theorem gives_last {k : String} (h : Writes w v) (rest : List Char) :
    Gives (readMembers (string k ++ ':' :: (w ++ '}' :: rest))) [(k, v)] rest := by
  obtain ⟨hkey, hk⟩ := readString_string k (':' :: (w ++ '}' :: rest))
  obtain ⟨hvalue, hv⟩ := h.gives ('}' :: rest) (by simp [isBare])
  rw [string_append]
  refine ⟨by simp only [List.length_append, List.length_cons]; omega, ?_⟩
  unfold readMembers
  simp [next?_of_isSpace_eq_false, isSpace, hk, hv]

theorem gives_more {k : String} {ms : List (String × Value)} (h : Writes w v)
    (hmore : Gives (readMembers cs) ms rest) :
    Gives (readMembers (string k ++ ':' :: (w ++ ',' :: cs))) ((k, v) :: ms) rest := by
  obtain ⟨hrest, hmore⟩ := hmore
  obtain ⟨hkey, hk⟩ := readString_string k (':' :: (w ++ ',' :: cs))
  obtain ⟨hvalue, hv⟩ := h.gives (',' :: cs) (by simp [isBare])
  rw [string_append]
  refine ⟨by simp only [List.length_append, List.length_cons]; omega, ?_⟩
  unfold readMembers
  simp [next?_of_isSpace_eq_false, isSpace, hk, hv, hmore, Tail.widen]

/-- Holds of members that are written and of those that they are. -/
def WritesAll : List (String × List Char) → List (String × Value) → Prop :=
  List.Forall₂ fun m f => m.1 = f.1 ∧ Writes m.2 f.2

variable {m : String × List Char} {ms : List (String × List Char)} {vs : List (String × Value)}

/-- Members that were written are read up to the closing brace. -/
theorem WritesAll.gives (h : WritesAll (m :: ms) vs) (rest : List Char) :
    Gives (readMembers (inside (m :: ms) ++ '}' :: rest)) vs rest := by
  induction ms generalizing m vs with
  | nil =>
    obtain _ | @⟨_, ⟨k, v⟩, _, _, ⟨rfl, hv⟩, _ | _⟩ := h
    rw [inside_singleton, List.append_assoc, List.cons_append]
    exact gives_last hv rest
  | cons m' ms ih =>
    obtain _ | @⟨_, ⟨k, v⟩, _, _, ⟨rfl, hv⟩, hms⟩ := h
    rw [inside_cons_cons, List.append_assoc, List.cons_append, List.append_assoc, List.cons_append]
    exact gives_more hv (ih hms)

theorem WritesAll.inline (h : WritesAll ms vs) : ∀ c ∈ inside ms, 0x20 ≤ c.toNat := by
  have hcolon : 0x20 ≤ ':'.toNat := by decide
  have hcomma : 0x20 ≤ ','.toNat := by decide
  induction h with
  | nil => exact List.forall_mem_nil _
  | @cons m f ms vs hm _ ih =>
    have hmember : ∀ c ∈ string m.1 ++ ':' :: m.2, 0x20 ≤ c.toNat :=
      List.forall_mem_append.2 ⟨inline_string m.1, List.forall_mem_cons.2 ⟨hcolon, hm.2.inline⟩⟩
    cases ms with
    | nil => rwa [inside_singleton]
    | cons m' ms =>
      have htext : inside (m :: m' :: ms) =
          string m.1 ++ ':' :: m.2 ++ ',' :: inside (m' :: ms) := by
        rw [inside_cons_cons, List.append_assoc, List.cons_append]
      rw [htext]
      exact List.forall_mem_append.2 ⟨hmember, List.forall_mem_cons.2 ⟨hcomma, ih⟩⟩

theorem gives_none (rest : List Char) : Gives (readObject ('}' :: rest)) [] rest := by
  refine ⟨Nat.lt_succ_self _, ?_⟩
  unfold readObject
  simp [next?_of_isSpace_eq_false, isSpace]

theorem gives_some (h : Gives (readMembers ('"' :: cs)) vs rest) :
    Gives (readObject ('"' :: cs)) vs rest := by
  obtain ⟨hrest, h⟩ := h
  refine ⟨hrest, ?_⟩
  unfold readObject
  simp [next?_of_isSpace_eq_false, isSpace, h]

theorem gives_object (h : Gives (readObject cs) vs rest) :
    Gives (readValue ('{' :: cs)) (.object vs) rest := by
  obtain ⟨hrest, h⟩ := h
  refine ⟨Nat.lt_succ_of_lt hrest, ?_⟩
  unfold readValue
  simp [next?_of_isSpace_eq_false, isSpace, h, Tail.widen]

/-- An object of members that were written is the object of their values. -/
theorem writes_object (h : WritesAll ms vs) : Writes (object ms) (.object vs) := by
  have hopen : 0x20 ≤ '{'.toNat := by decide
  have hclose : 0x20 ≤ '}'.toNat := by decide
  refine ⟨fun rest _ => ?_, ?_⟩
  · rw [object_append]
    apply gives_object
    cases ms with
    | nil =>
      cases h
      exact gives_none rest
    | cons m ms =>
      obtain ⟨cs, hcs⟩ := exists_inside_cons m ms
      have hread := h.gives rest
      rw [hcs, List.cons_append] at hread ⊢
      exact gives_some hread
  · rw [← List.append_nil (object ms), object_append]
    exact List.forall_mem_cons.2 ⟨hopen,
      List.forall_mem_append.2 ⟨h.inline, List.forall_mem_singleton.2 hclose⟩⟩

/-- A text that was written for a value is this value. -/
theorem Writes.read_eq (h : Writes w v) : read (String.ofList w) = some v := by
  have hread := h.gives [] nofun
  have htext : w ++ [] = (String.ofList w).toList := by rw [List.append_nil, String.toList_ofList]
  rw [htext] at hread
  obtain ⟨hrest, hread⟩ := hread
  rw [read, hread]
  rfl

end ClassLang.Text.Json
