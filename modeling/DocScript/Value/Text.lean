import DocScript.Decimal.Positional
import DocScript.Text.Quoted
import DocScript.Value.Basic

/-!
# Values as text

A text shows as itself at the top and in quotes inside a list or map. The text of
a value is what `print` writes, what the shell replies, and what chooses the case
of a `switch`.
-/

namespace DocScript
namespace Value

/-- The characters between the parts of a list or map. -/
def separator : List Char := [',', ' ']

mutual

/-- The text of a value at the top. -/
def chars : Value → List Char
  | .null => "null".toList
  | .boolean b => if b then "true".toList else "false".toList
  | .number x => Decimal.numberChars x
  | .string s => s.toList
  | .list items => '[' :: (itemChars items ++ [']'])
  | .map entries => '{' :: (entryChars entries ++ ['}'])
  | .function name => "<function ".toList ++ (name.toList ++ ['>'])

/-- The text of a value inside a list or map. -/
def nestedChars : Value → List Char
  | .null => "null".toList
  | .boolean b => if b then "true".toList else "false".toList
  | .number x => Decimal.numberChars x
  | .string s => Text.quoteChars s.toList
  | .list items => '[' :: (itemChars items ++ [']'])
  | .map entries => '{' :: (entryChars entries ++ ['}'])
  | .function name => "<function ".toList ++ (name.toList ++ ['>'])

/-- The texts of items, separated. -/
def itemChars : List Value → List Char
  | [] => []
  | [item] => nestedChars item
  | item :: rest => nestedChars item ++ (separator ++ itemChars rest)

/-- The texts of entries, separated: the name in quotes, then the value. -/
def entryChars : List (String × Value) → List Char
  | [] => []
  | [(name, item)] => Text.quoteChars name.toList ++ (':' :: ' ' :: nestedChars item)
  | (name, item) :: rest =>
      Text.quoteChars name.toList ++
        (':' :: ' ' :: (nestedChars item ++ (separator ++ entryChars rest)))

end

/-- The text of a value. -/
def text (v : Value) : String :=
  String.ofList v.chars

end Value
end DocScript
