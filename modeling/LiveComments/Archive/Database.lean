import LiveComments.Archive.Query
import LiveComments.Table

namespace LiveComments.Archive

namespace Value

def same : Value → Value → Bool
  | .null, .null => true
  | .bool a, .bool b => a = b
  | .int a, .int b => a = b
  | .text a, .text b => a = b
  | .objectId a, .objectId b => a = b
  | .time a, .time b => a = b
  | _, _ => false

def le : Value → Value → Bool
  | .int a, .int b => a ≤ b
  | .time a, .time b => a ≤ b
  | _, _ => true

end Value

namespace Document

def set (d : Document) (field : String × Value) : Document := Table.put field.1 field.2 d

def fits (d filter : Document) : Bool :=
  filter.all fun (name, v) => (get? d name).any (Value.same v)

def sameId (a b : Document) : Bool :=
  match get? a "_id", get? b "_id" with
  | some v, some w => v.same w
  | _, _ => false

def fieldLe (name : String) (a b : Document) : Bool :=
  ((get? a name).getD .null).le ((get? b name).getD .null)

def sorted (sort : Document) (ds : List Document) : List Document :=
  match sort with
  | (name, .int sign) :: _ =>
    ds.mergeSort fun a b => if 0 < sign then fieldLe name a b else fieldLe name b a
  | _ => ds

end Document

structure Database where
  collections : Table String (List Document) := {}

namespace Database

def documents (db : Database) (collection : String) : List Document :=
  (db.collections.get? collection).getD []

def found (db : Database) (collection : String) (filter : Document) : List Document :=
  (db.documents collection).filter (·.fits filter)

def store (db : Database) (collection : String) (ds : List Document) : Database :=
  ⟨db.collections.insert collection ds⟩

def change (f : Document → Document) (filter : Document) : List Document → List Document
  | [] => []
  | d :: ds => if d.fits filter then f d :: ds else d :: change f filter ds

def reply (db : Database) : Query → Reply × Database
  | .ping => (.number 1, db)
  | .findOne c filter => (.documents ((db.found c filter).take 1), db)
  | .findPage c filter sort skip limit =>
    (.documents (((Document.sorted sort (db.found c filter)).drop skip.toNat).take limit.toNat), db)
  | .count c filter => (.number (db.found c filter).length, db)
  | .insert c d =>
    let ds := db.documents c
    if ds.any (·.sameId d) then (.refused, db) else (.number 1, db.store c (ds ++ [d]))
  | .update c filter fields =>
    let ds := db.documents c
    if ds.any (·.fits filter) then
      (.number 1, db.store c (change (fields.foldl Document.set) filter ds))
    else (.number 0, db)
  | .replace c filter d =>
    let ds := db.documents c
    if ds.any (·.fits filter) then (.number 1, db.store c (change (fun _ => d) filter ds))
    else (.number 0, db.store c (ds ++ [d]))
  | .delete c filter =>
    let ds := db.documents c
    if ds.any (·.fits filter) then (.number 1, db.store c (ds.eraseP (·.fits filter)))
    else (.number 0, db)

end Database

end LiveComments.Archive
