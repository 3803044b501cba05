import ImportAtlas.Path

/-! # Owning modules

By convention the modules of a source tree lie in directories of one name. The owning module of a
file is the entry right below the first such directory on the way to it.
-/

namespace ImportAtlas.Source

/-- The segments up to the first one that equals `marker`, and one more if there is one. -/
def ownerSegments? (marker : List Char) : List (List Char) → Option (List (List Char))
  | [] => none
  | segment :: rest =>
    if segment = marker then some (segment :: rest.take 1)
    else (ownerSegments? marker rest).map (segment :: ·)

/-- The owning module of the file with a given key: none if no segment of the key is the marker. -/
def owner? (key marker : String) : Option String :=
  (ownerSegments? marker.toList (Path.segments key.toList)).map
    fun segments => String.ofList (Path.ofSegments segments)

end ImportAtlas.Source
