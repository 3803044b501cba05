import ImportAtlas.Json.Value

/-! # Records in JSON

A record with named fields is written as an object or as an array. In an object the fields come in
any order, each at most once, and members that are no fields are passed over; their names must
still be texts, while their values may be anything. In an array all fields come in their order and
nothing else does.
-/

namespace ImportAtlas.Json

/-- The value of a field among members with decoded names: none if the field is repeated, and an
absent value if it is missing. -/
def field? (members : List (List Char × Json)) (name : String) : Option (Option Json) :=
  match members.filter fun member => member.1 == name.toList with
  | [] => some none
  | [member] => some (some member.2)
  | _ => none

/-- Members with their names decoded. -/
def decodeNames? (members : List (List Char × Json)) : Option (List (List Char × Json)) :=
  members.mapM fun member => (unescape? member.1).map (·, member.2)

/-- The values of the fields of a record, in the order of the fields. -/
def record? (fields : List String) : Json → Option (List (Option Json))
  | .object members => do
    let members ← decodeNames? members
    fields.mapM (field? members)
  | .array items => if items.length = fields.length then some (items.map some) else none
  | _ => none

end ImportAtlas.Json
