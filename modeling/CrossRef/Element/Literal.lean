import CrossRef.Element
import CrossRef.Number.Shortest
import CrossRef.Text.Quoted

/-!
# Written form of elements

How an element is written in messages and dumps.  A node stands in parentheses, with a comma after a
single element, and a list in brackets.
-/

namespace CrossRef.Element

mutual

/-- The written form of an element. -/
def literal : Element → String
  | .null => "None"
  | .bool true => "True"
  | .bool false => "False"
  | .int value => toString value
  | .float value => value.text
  | .text value => Text.quoted value
  | .node [] => "()"
  | .node [element] => "(" ++ element.literal ++ ",)"
  | .node elements => "(" ++ String.intercalate ", " (literals elements) ++ ")"
  | .list elements => "[" ++ String.intercalate ", " (literals elements) ++ "]"

/-- The written forms of some elements. -/
def literals : List Element → List String
  | [] => []
  | element :: rest => element.literal :: literals rest

end

/-- The form of an element inside a sentence: a text stands there as it is. -/
def shown : Element → String
  | .text value => value
  | element => element.literal

end CrossRef.Element
