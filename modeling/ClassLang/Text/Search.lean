/-!
Looking for one text inside another, and bringing a text to a width.
-/

namespace ClassLang.Text

/-- Whether `needle` stands anywhere in the text. -/
def occursIn (needle : List Char) : List Char → Bool
  | [] => needle.isEmpty
  | c :: cs => needle.isPrefixOf (c :: cs) || occursIn needle cs

/-- Whether one string contains another. -/
def contains (text part : String) : Bool := occursIn part.toList text.toList

/-- A text written `n` times. -/
def times (n : Nat) (text : String) : String := String.join (List.replicate n text)

/-- The text followed by spaces up to a width counted in characters. -/
def padRight (width : Nat) (text : String) : String := text ++ times (width - text.length) " "

/-- The text after spaces up to a width counted in characters. -/
def padLeft (width : Nat) (text : String) : String := times (width - text.length) " " ++ text

end ClassLang.Text
