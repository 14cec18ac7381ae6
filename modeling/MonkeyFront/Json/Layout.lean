import MonkeyFront.Json.Value
import MonkeyFront.Text.Quoted

/-!
# Layout of JSON text

Every item of an array or an object stands on a line of its own, two spaces further in than what
holds it. Text outside ASCII is escaped.
-/

namespace MonkeyFront.JsonValue

/-- An escape of one unit of sixteen bits. -/
def escapeUnit (unit : Nat) : List Char := '\\' :: 'u' :: Text.hexDigits 4 unit

/-- A character as it is written in a JSON string. Above U+FFFF it takes a pair of surrogates. -/
def escapeChar (c : Char) : List Char :=
  if c = '\x22' ∨ c = '\\' then ['\\', c]
  else if c = '\n' then ['\\', 'n']
  else if c = '\r' then ['\\', 'r']
  else if c = '\t' then ['\\', 't']
  else if c = '\x08' then ['\\', 'b']
  else if c = '\x0c' then ['\\', 'f']
  else if ' ' ≤ c ∧ c ≤ '~' then [c]
  else if c.toNat < 0x10000 then escapeUnit c.toNat
  else
    escapeUnit (0xD800 + (c.toNat - 0x10000) / 0x400)
      ++ escapeUnit (0xDC00 + (c.toNat - 0x10000) % 0x400)

def stringText (text : String) : String :=
  String.ofList ('\x22' :: text.toList.flatMap escapeChar ++ ['\x22'])

/-- A new line at a depth. -/
def newLine (depth : Nat) : String := String.ofList ('\n' :: List.replicate (2 * depth) ' ')

mutual

/-- A value as text, where its first character stands at a depth. -/
def layoutAt (depth : Nat) : JsonValue → String
  | null => "null"
  | bool value => if value then "true" else "false"
  | int value => toString value
  | string text => stringText text
  | array [] => "[]"
  | array (first :: others) =>
      "[" ++ newLine (depth + 1) ++ layoutAt (depth + 1) first ++ itemsAt (depth + 1) others
        ++ newLine depth ++ "]"
  | object [] => "\x7b\x7d"
  | object ((key, value) :: others) =>
      "\x7b" ++ newLine (depth + 1) ++ stringText key ++ ": " ++ layoutAt (depth + 1) value
        ++ fieldsAt (depth + 1) others ++ newLine depth ++ "\x7d"

/-- The items of an array after its first. -/
def itemsAt (depth : Nat) : List JsonValue → String
  | [] => ""
  | first :: others => "," ++ newLine depth ++ layoutAt depth first ++ itemsAt depth others

/-- The fields of an object after its first. -/
def fieldsAt (depth : Nat) : List (String × JsonValue) → String
  | [] => ""
  | (key, value) :: others =>
      "," ++ newLine depth ++ stringText key ++ ": " ++ layoutAt depth value
        ++ fieldsAt depth others

end

def layout (value : JsonValue) : String := value.layoutAt 0

end MonkeyFront.JsonValue
