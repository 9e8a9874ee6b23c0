/-!
# Splitting text

Cutting a text at a separator, and cutting off its front.
-/

namespace Stylesheet.Text

/-- The pieces of a list between separators: one more than there are
separators. -/
def splitChars (separator : Char) : List Char → List (List Char)
  | [] => [[]]
  | c :: cs =>
      if c = separator then [] :: splitChars separator cs
      else match splitChars separator cs with
        | [] => [[c]]
        | piece :: pieces => (c :: piece) :: pieces

/-- A text without another one in front of it, if it begins with that. -/
def cutFront (front text : String) : String :=
  if front.toList.isPrefixOf text.toList then
    String.ofList (text.toList.drop front.toList.length)
  else text

end Stylesheet.Text
