import RootCx.Lib.Text

/-! # JSON values

Numbers are kept as their text, objects as the list of their entries in the order
in which they are visited. -/

namespace RootCx

inductive Json where
  | null
  | bool (value : Bool)
  | number (text : Text)
  | str (value : Text)
  | arr (items : List Json)
  | obj (entries : List (Text × Json))
  deriving Repr

namespace Json

def isNull : Json → Bool
  | .null => true
  | _ => false

def isStr : Json → Bool
  | .str _ => true
  | _ => false

def asBool : Json → Option Bool
  | .bool value => some value
  | _ => none

def hexDigit (n : Nat) : Char := if n < 10 then Char.ofNat (48 + n) else Char.ofNat (87 + n)

/-- The escapes of a string in compact JSON. -/
def escape (c : Char) : Text :=
  if c = '"' then ['\\', '"']
  else if c = '\\' then ['\\', '\\']
  else if c = '\x08' then ['\\', 'b']
  else if c = '\x0c' then ['\\', 'f']
  else if c = '\n' then ['\\', 'n']
  else if c = '\r' then ['\\', 'r']
  else if c = '\t' then ['\\', 't']
  else if c.toNat < 32 then ['\\', 'u', '0', '0', hexDigit (c.toNat / 16), hexDigit (c.toNat % 16)]
  else [c]

def quoted (value : Text) : Text := '"' :: value.flatMap escape ++ ['"']

mutual

/-- The compact text of a value. -/
def compact : Json → Text
  | .null => "null"
  | .bool value => (if value then "true" else "false").toList
  | .number text => text
  | .str value => quoted value
  | .arr items => '[' :: compactItems items ++ [']']
  | .obj entries => '\x7b' :: compactEntries entries ++ ['\x7d']

def compactItems : List Json → Text
  | [] => []
  | [item] => compact item
  | item :: rest => compact item ++ ',' :: compactItems rest

def compactEntries : List (Text × Json) → Text
  | [] => []
  | [(key, value)] => quoted key ++ ':' :: compact value
  | (key, value) :: rest => quoted key ++ ':' :: compact value ++ ',' :: compactEntries rest

end

end Json

end RootCx
