import LiveComments.Text.Form
import LiveComments.Url.Basic

namespace LiveComments.Http

structure Uri where
  path : List String
  query : List (String × String)

namespace Uri

def shaping (b : UInt8) : Bool := b = 0x25 || b = 0x2f || b = 0x2b

def segments (path : List Char) : List String :=
  match path with
  | '/' :: rest =>
    (Text.split '/' rest).map fun part => String.ofList (Percent.decoded shaping part)
  | _ => []

/-- A part taken as a value is read once more, by itself. -/
def captured (part : String) : String :=
  String.ofList (Percent.decoded (fun _ => false) part.toList)

def onServer (cs : List Char) : List Char :=
  match cs.dropWhile Url.schemeChar with
  | ':' :: '/' :: '/' :: rest => rest.dropWhile fun c => c ≠ '/' ∧ c ≠ '?'
  | _ => cs

def of (s : String) : Uri :=
  let (path, query) := Text.cut '?' (onServer (s.toList.takeWhile (· ≠ '#')))
  ⟨segments path, Form.pairs (query.getD [])⟩

end Uri

end LiveComments.Http
