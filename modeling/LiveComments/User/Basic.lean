import LiveComments.Json.Decoder

namespace LiveComments

structure User where
  id : Int
  firstName : String
  lastName : String
  avatarUrl : String
  deriving DecidableEq, Inhabited

namespace User

def record : Json.Record User :=
  .ofFields "User" 4 (((((Json.Fields.pure User.mk).and
    (Json.field 0 "id" Json.asInt64 none)).and
    (Json.field 1 "first_name" Json.asString none)).and
    (Json.field 2 "last_name" Json.asString none)).and
    (Json.field 3 "avatar_url" Json.asString none))

def fieldNames : List String := ["id", "first_name", "last_name", "avatar_url"]

def ofText? (cs : List Json.Symbol) : Option User := record.ofText? fieldNames cs

def profile (u : User) : List (String × Json) :=
  [("first_name", .str u.firstName), ("last_name", .str u.lastName),
    ("avatar_url", .str u.avatarUrl)]

def toJson (u : User) : Json := .obj (("id", .int u.id) :: u.profile)

end User

end LiveComments
