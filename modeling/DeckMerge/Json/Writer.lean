import DeckMerge.Value

/-!
The JSON text of a value on one line, in ASCII: other characters are written as UTF-16 units.
-/

namespace DeckMerge.Json

def unit (n : Nat) : Text := "\\u" ++ Text.hex 4 n

def writeChar (c : Char) : Text :=
  if c = '"' then "\\\""
  else if c = '\\' then "\\\\"
  else if c = '\n' then "\\n"
  else if c = '\r' then "\\r"
  else if c = '\t' then "\\t"
  else if c = '\x08' then "\\b"
  else if c = '\x0c' then "\\f"
  else if 0x20 ≤ c.toNat ∧ c.toNat < 0x7f then [c]
  else if c.toNat < 0x10000 then unit c.toNat
  else
    let n := c.toNat - 0x10000
    unit (0xd800 + n / 0x400) ++ unit (0xdc00 + n % 0x400)

def writeText (s : Text) : Text := '"' :: s.flatMap writeChar ++ ['"']

def writeReal : Binary64 → Text
  | .infinity false => "Infinity"
  | .infinity true => "-Infinity"
  | .nan => "NaN"
  | x => x.toText

def writeBool (b : Bool) : Text := if b then "true" else "false"

def writeKey : Key → Text
  | .text s => writeText s
  | .int n => writeText (Text.ofInt n)
  | .real x => writeText (writeReal x)
  | .bool b => writeText (writeBool b)
  | .null => writeText "null"

mutual

def write : Value → Text
  | .null => "null"
  | .bool b => writeBool b
  | .int n => Text.ofInt n
  | .real x => writeReal x
  | .text s => writeText s
  | .list items => "[" ++ writeItems items ++ "]"
  | .mapping fields => "\x7b" ++ writeFields fields ++ "\x7d"

def writeItems : List Value → Text
  | [] => []
  | [v] => write v
  | v :: vs => write v ++ ", " ++ writeItems vs

def writeFields : List (Key × Value) → Text
  | [] => []
  | [(k, v)] => writeKey k ++ ": " ++ write v
  | (k, v) :: fields => writeKey k ++ ": " ++ write v ++ ", " ++ writeFields fields

end

end DeckMerge.Json
