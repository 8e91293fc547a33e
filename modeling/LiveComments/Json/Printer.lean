import LiveComments.Json.Basic
import LiveComments.Number.Shortest
import LiveComments.Text.Digits

namespace LiveComments.Json

def escape (c : Char) : List Char :=
  if c = '"' ∨ c = '\\' then ['\\', c]
  else if c = '\n' then ['\\', 'n']
  else if c = '\r' then ['\\', 'r']
  else if c = '\t' then ['\\', 't']
  else if c.toNat < 0x20 then
    ['\\', 'u', '0', '0', Nat.digitChar (c.toNat / 16), Nat.digitChar (c.toNat % 16)]
  else [c]

def printText (s : String) : String := String.ofList ('"' :: s.toList.flatMap escape ++ ['"'])

mutual

def print : Json → String
  | .null => "null"
  | .bool b => if b then "true" else "false"
  | .int n => toString n
  | .float x => x.text
  | .str s => printText s
  | .arr items => "[" ++ printItems items ++ "]"
  | .obj members => "\x7b" ++ printMembers members ++ "\x7d"

def printItems : List Json → String
  | [] => ""
  | [v] => print v
  | v :: vs => print v ++ "," ++ printItems vs

def printMembers : List (String × Json) → String
  | [] => ""
  | [(k, v)] => printText k ++ ":" ++ print v
  | (k, v) :: vs => printText k ++ ":" ++ print v ++ "," ++ printMembers vs

end

end LiveComments.Json
