/-!
# JSON strings — texts in double quotes with escapes.

Quotes, backslashes and the control characters below the blank are escaped, the usual five of them
by a letter and the others by their code.  Every other character stands for itself.
-/

namespace AlgebraSql.Text

/-- A hexadecimal digit in small letters. -/
def hexDigit (n : Nat) : Char :=
  Nat.digitChar (n % 16)

/-- One character inside a JSON string. -/
def jsonChar (c : Char) : List Char :=
  match c.toNat with
  | 0x22 => ['\\', '"']
  | 0x5C => ['\\', '\\']
  | 0x08 => ['\\', 'b']
  | 0x09 => ['\\', 't']
  | 0x0A => ['\\', 'n']
  | 0x0C => ['\\', 'f']
  | 0x0D => ['\\', 'r']
  | n =>
    if n < 0x20 then ['\\', 'u', '0', '0', hexDigit (n / 16), hexDigit n]
    else [c]

/-- A text as a JSON string. -/
def jsonString (s : String) : String :=
  "\"" ++ String.ofList (s.toList.flatMap jsonChar) ++ "\""

/-- A JSON object of members that are written already. -/
def jsonObject (members : List (String × String)) : String :=
  let texts := members.map fun (key, value) => jsonString key ++ ":" ++ value
  "\x7b" ++ ",".intercalate texts ++ "\x7d"

/-- A JSON array of items that are written already. -/
def jsonArray (items : List String) : String :=
  "[" ++ ",".intercalate items ++ "]"

end AlgebraSql.Text
