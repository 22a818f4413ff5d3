import ClassLang.Text.Search

/-!
Coloured text for terminals. A style is on between its codes and a reset; where the text itself
resets, the style is put on again.
-/

namespace ClassLang

/-- The codes of a style. -/
structure Style where
  codes : List Nat
deriving DecidableEq, Repr

namespace Style

def red : Style := ⟨[31]⟩
def green : Style := ⟨[32]⟩
def yellow : Style := ⟨[33]⟩
def cyan : Style := ⟨[36]⟩
def dim : Style := ⟨[2]⟩

/-- The same style in bold. -/
def bold (s : Style) : Style := ⟨1 :: s.codes⟩

/-- What switches a style on. -/
def lead (s : Style) : String := "\x1b[" ++ ";".intercalate (s.codes.map toString) ++ "m"

/-- What switches every style off. -/
def reset : String := "\x1b[0m"

/-- A text with a style switched on again behind each reset in it. -/
def resume (again : List Char) : List Char → List Char
  | '\x1b' :: '[' :: '0' :: 'm' :: cs => '\x1b' :: '[' :: '0' :: 'm' :: (again ++ resume again cs)
  | c :: cs => c :: resume again cs
  | [] => []

end Style

/-- Whether text is coloured. -/
structure Palette where
  coloured : Bool
deriving DecidableEq, Repr, Inhabited

namespace Palette

/-- A text in a style, brought to a width inside it. -/
def paintWide (p : Palette) (s : Style) (width : Nat) (text : String) : String :=
  if p.coloured then
    let inner := String.ofList (Style.resume s.lead.toList text.toList)
    s.lead ++ Text.padRight width inner ++ Style.reset
  else Text.padRight width text

/-- A text in a style. -/
def paint (p : Palette) (s : Style) (text : String) : String := p.paintWide s 0 text

/-- Text without colours. -/
def plain : Palette := ⟨false⟩

end Palette

end ClassLang
