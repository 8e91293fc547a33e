import LiveComments.Fault
import LiveComments.Text.Blank
import LiveComments.Text.Digits
import LiveComments.Text.Quoted

/-!
Pages of a listing: which one is asked for, how many entries lie before it, and what is told about
the whole. Numbers are of 64 bits.
-/

namespace LiveComments

inductive SortKey where
  | createdAt
  | updatedAt
  deriving DecidableEq

inductive SortOrder where
  | ascending
  | descending
  deriving DecidableEq

def SortKey.field : SortKey → String
  | createdAt => "created_at"
  | updatedAt => "updated_at"

def SortOrder.sign : SortOrder → Int
  | ascending => 1
  | descending => -1

def SortKey.ofWord? : String → Option SortKey
  | "created_at" => some createdAt
  | "updated_at" => some updatedAt
  | _ => none

def SortOrder.ofWord? : String → Option SortOrder
  | "asc" => some ascending
  | "desc" => some descending
  | _ => none

structure Page where
  number : Int
  size : Int
  key : SortKey
  order : SortOrder
  deriving DecidableEq

namespace Page

def defaultSize : Int := 10

def defaultKey : SortKey := .createdAt

def defaultOrder : SortOrder := .descending

def normalized (number size : Int) (key : SortKey) (order : SortOrder) : Page :=
  ⟨max number 1, if size ≤ 0 then defaultSize else size, key, order⟩

/-- How many entries lie before the page, unless 64 bits cannot say. -/
def exactOffset? (p : Page) : Option Int :=
  let n := (p.number - 1) * p.size
  if Text.fitsInt64 n then some n else none

def offset (p : Page) : Int := Text.clampInt64 ((p.number - 1) * p.size)

def limit (p : Page) : Int := p.size

structure Query where
  number : Option Int := none
  size : Option Int := none
  key : Option String := none
  order : Option String := none

def word {α : Type} (read : String → Option α) (absent : α) (message : String) (s : Option String) :
    Except Fault α :=
  let s := Text.trim (s.getD "")
  if s = "" then .ok absent else
  match read s with
  | some a => .ok a
  | none => .error (.invalid s!"{message}, got {Text.quoted s}")

def ofQuery (q : Query) : Except Fault Page := do
  let number := q.number.getD 0
  let size := q.size.getD 0
  if number < 0 then throw (.invalid "page must not be negative")
  if size < 0 then throw (.invalid "page_size must not be negative")
  let key ← word SortKey.ofWord? defaultKey "sort_by must be created_at or updated_at" q.key
  let order ← word SortOrder.ofWord? defaultOrder "sort_order must be asc or desc" q.order
  let page := normalized number size key order
  if page.exactOffset? = none then throw (.invalid "page is out of range for this page_size")
  return page

end Page

structure PageSummary where
  current : Int := 0
  size : Int := 0
  first : Int := 0
  last : Int := 0
  total : Int := 0
  deriving DecidableEq

namespace PageSummary

def wrap (n : Int) : Int := n.bmod (Nat.pow 2 64)

/-- All zero for no entries. Else the last page is counted with division toward zero; there is no
summary when 64 bits do not hold the quotient. -/
def of? (total number size : Int) : Option PageSummary :=
  if total = 0 then some {} else
  let before := wrap (total - 1)
  if size = 0 ∨ !Text.fitsInt64 (before.tdiv size) then none
  else some ⟨number, size, 1, wrap (before.tdiv size + 1), total⟩

def toJson (m : PageSummary) : Json :=
  .obj [("current_page", .int m.current), ("page_size", .int m.size), ("first_page", .int m.first),
    ("last_page", .int m.last), ("total_records", .int m.total)]

end PageSummary

end LiveComments
