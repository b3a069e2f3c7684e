import ScriptOptimizer.Text.Utf8
import ScriptOptimizer.Decimal.Shortest

/-!
JSON documents whose objects keep the order in which their keys were set, and their compact and
indented texts. The text is always well-formed UTF-8: a malformed byte is written as U+FFFD.
-/

namespace ScriptOptimizer

/-- A JSON document. Whole numbers are kept apart from double-precision ones. -/
inductive Json where
  | null
  | bool (value : Bool)
  | int (value : Int)
  | number (value : Binary64)
  | text (value : Bytes)
  | array (items : List Json)
  | object (fields : List (Bytes × Json))
deriving Inhabited

namespace Json

/-- The first value stored under a key. -/
def get? (key : Bytes) (fields : List (Bytes × Json)) : Option Json :=
  (fields.find? fun field => field.1 = key).map (·.2)

/-- A code point inside a string: the quote, the backslash, controls and the two line separators are
escaped. -/
def escape (rune : Nat) : Bytes :=
  match rune with
  | 0x22 => "\\\""
  | 0x5C => "\\\\"
  | 0x08 => "\\b"
  | 0x0C => "\\f"
  | 0x0A => "\\n"
  | 0x0D => "\\r"
  | 0x09 => "\\t"
  | 0x2028 => "\\u2028"
  | 0x2029 => "\\u2029"
  | _ => if rune < 0x20 then Bytes.ofString "\\u" ++ Bytes.hexDigits 4 rune else Utf8.encode rune

/-- A text as a JSON string. For a byte that is no part of UTF-8 the replacement character stands
there itself, and not its escape. -/
def quote (text : Bytes) : Bytes :=
  [Bytes.byte '"'] ++ (Utf8.runes text).flatMap (fun (rune, _) => escape rune) ++ [Bytes.byte '"']

mutual

/-- The compact text. -/
def compact : Json → Bytes
  | null => "null"
  | bool value => if value then "true" else "false"
  | int value => Bytes.ofInt value
  | number value => value.jsonText
  | text value => quote value
  | array items => Bytes.ofString "[" ++ compactItems items ++ Bytes.ofString "]"
  | object fields => Bytes.ofString "\x7b" ++ compactFields fields ++ Bytes.ofString "\x7d"

/-- The items of an array, separated by commas. -/
def compactItems : List Json → Bytes
  | [] => []
  | [item] => compact item
  | item :: items => compact item ++ Bytes.ofString "," ++ compactItems items

/-- The fields of an object, separated by commas. -/
def compactFields : List (Bytes × Json) → Bytes
  | [] => []
  | [(key, value)] => quote key ++ Bytes.ofString ":" ++ compact value
  | (key, value) :: fields =>
    quote key ++ Bytes.ofString ":" ++ compact value ++ Bytes.ofString "," ++ compactFields fields

end

/-- A line break followed by an indentation of `depth` steps. -/
def lineBreak (step : Bytes) (depth : Nat) : Bytes :=
  Bytes.byte '\n' :: (List.replicate depth step).flatten

mutual

/-- The text with one item or field a line, each nesting indented by one more `step`. Empty arrays
and objects stay on one line. -/
def indented (step : Bytes) (depth : Nat) : Json → Bytes
  | array [] => "[]"
  | array items =>
    Bytes.ofString "[" ++ indentedItems step (depth + 1) items ++ lineBreak step depth ++
      Bytes.ofString "]"
  | object [] => "\x7b\x7d"
  | object fields =>
    Bytes.ofString "\x7b" ++ indentedFields step (depth + 1) fields ++ lineBreak step depth ++
      Bytes.ofString "\x7d"
  | null => "null"
  | bool value => if value then "true" else "false"
  | int value => Bytes.ofInt value
  | number value => value.jsonText
  | text value => quote value

/-- The items of an array, each on a line of its own. -/
def indentedItems (step : Bytes) (depth : Nat) : List Json → Bytes
  | [] => []
  | [item] => lineBreak step depth ++ indented step depth item
  | item :: items =>
    lineBreak step depth ++ indented step depth item ++ Bytes.ofString "," ++
      indentedItems step depth items

/-- The fields of an object, each on a line of its own. -/
def indentedFields (step : Bytes) (depth : Nat) : List (Bytes × Json) → Bytes
  | [] => []
  | [(key, value)] =>
    lineBreak step depth ++ quote key ++ Bytes.ofString ": " ++ indented step depth value
  | (key, value) :: fields =>
    lineBreak step depth ++ quote key ++ Bytes.ofString ": " ++ indented step depth value ++
      Bytes.ofString "," ++ indentedFields step depth fields

end

end Json

end ScriptOptimizer
