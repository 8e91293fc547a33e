import LiveComments.Comment.Page
import LiveComments.Http.Uri

namespace LiveComments.Http

inductive QueryMismatch where
  | repeated (name : String)
  | noDigits
  | badDigit
  | tooLarge
  | tooSmall

def QueryMismatch.message : QueryMismatch → String
  | repeated name => s!"duplicate field `{name}`"
  | noDigits => "cannot parse integer from empty string"
  | badDigit => "invalid digit found in string"
  | tooLarge => "number too large to fit in target type"
  | tooSmall => "number too small to fit in target type"

def boundedDigits (bound : Nat) (beyond : QueryMismatch) : Nat → List Char →
    Except QueryMismatch Nat
  | n, [] => .ok n
  | n, c :: cs =>
    if !c.isDigit then .error .badDigit else
    let next := n * 10 + (c.toNat - 48)
    if bound < next then .error beyond else boundedDigits bound beyond next cs

def someDigits (bound : Nat) (beyond : QueryMismatch) (cs : List Char) :
    Except QueryMismatch Nat :=
  if cs = [] then .error .badDigit else boundedDigits bound beyond 0 cs

def int64 (s : String) : Except QueryMismatch Int :=
  match s.toList with
  | [] => .error .noDigits
  | '-' :: cs => (someDigits (Nat.pow 2 63) .tooSmall cs).map fun n => -(n : Int)
  | '+' :: cs => (someDigits (Nat.pow 2 63 - 1) .tooLarge cs).map fun n => (n : Int)
  | cs => (someDigits (Nat.pow 2 63 - 1) .tooLarge cs).map fun n => (n : Int)

def once {α : Type} (name : String) (old : Option α) (new : Except QueryMismatch α) :
    Except QueryMismatch (Option α) :=
  match old with
  | some _ => .error (.repeated name)
  | none => new.map some

def pageStep (q : Page.Query) (pair : String × String) : Except QueryMismatch Page.Query :=
  let (name, value) := pair
  match name with
  | "page" => (once name q.number (int64 value)).map ({ q with number := · })
  | "page_size" => (once name q.size (int64 value)).map ({ q with size := · })
  | "sort_by" => (once name q.key (.ok value)).map ({ q with key := · })
  | "sort_order" => (once name q.order (.ok value)).map ({ q with order := · })
  | _ => .ok q

def pageQuery (ps : List (String × String)) : Except QueryMismatch Page.Query :=
  ps.foldlM pageStep {}

def tokenStep (token : Option String) (pair : String × String) :
    Except QueryMismatch (Option String) :=
  if pair.1 = "token" then once pair.1 token (.ok pair.2) else .ok token

def tokenQuery (ps : List (String × String)) : Except QueryMismatch (Option String) :=
  ps.foldlM tokenStep none

end LiveComments.Http
