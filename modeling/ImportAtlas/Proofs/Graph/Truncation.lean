import ImportAtlas.Proofs.Graph.Snapshot
import ImportAtlas.Proofs.Json.Truncation

/-! # Truncated snapshots

Writing a file is not atomic, so a snapshot may be found cut short. Wherever the cut falls, no graph is
loaded: inside of a character the bytes are no text, and elsewhere the text lacks its last brace.
-/

namespace ImportAtlas.Snapshot

variable {graph : Graph} {fs : FileSystem} {path : Path}

theorem head?_text (graph : Graph) : (text graph).head? = some '\x7b' := rfl

theorem getLast?_text (graph : Graph) : (text graph).getLast? = some '\x7d' := by
  rw [text, Json.pretty, ofGraph, ofRecord, graphFields, List.map_cons, List.zip_cons_cons, Json.print]
  exact List.getLast?_concat

/-- The text of a snapshot stands for no graph without its end. -/
theorem read?_eq_none_of_truncated {chars : List Char} (cut : chars <+: text graph)
    (proper : chars ≠ text graph) : read? chars = none := by
  have denotes : (Json.parse? (text graph)).isSome := by
    rw [text, Json.parse?_pretty (isWellFormed_ofGraph graph)]
    rfl
  rw [read?, Json.parse?_eq_none_of_truncated denotes (head?_text graph) (getLast?_text graph) cut proper,
    Option.bind_none]

theorem load_of_decode? {bytes : Bytes} {chars : List Char} (stored : fs.readBytes path = .ok bytes)
    (decoded : Utf8.decode? bytes = some chars) (unread : read? chars = none) :
    load fs path = .error .snapshot := by
  simp only [load, FileSystem.readText, stored, decoded, unread]

theorem load_of_decode?_eq_none {bytes : Bytes} (stored : fs.readBytes path = .ok bytes)
    (broken : Utf8.decode? bytes = none) : load fs path = .error (.file path .notText) := by
  simp only [load, FileSystem.readText, stored, broken]

/-- A snapshot that was cut short is never loaded. Saving writes the bytes of the text of a snapshot. A file
that holds fewer of these bytes is refused: as a file that is no text if they end inside of a character, and
as no snapshot otherwise. -/
theorem truncated_snapshot_is_refused (graph : Graph) :
    (∀ (fs after : FileSystem) (path : Path), save fs path graph = (.ok (), after) →
        after.readBytes path = .ok (Utf8.encode (text graph))) ∧
      ∀ bytes : Bytes, bytes <+: Utf8.encode (text graph) → bytes ≠ Utf8.encode (text graph) →
        ∀ (fs : FileSystem) (path : Path), fs.readBytes path = .ok bytes →
          (Utf8.EndsInside bytes (text graph) → load fs path = .error (.file path .notText)) ∧
            (¬Utf8.EndsInside bytes (text graph) → load fs path = .error .snapshot) := by
  refine ⟨fun fs after path saved => readBytes_of_save saved, ?_⟩
  intro bytes cut proper fs path stored
  constructor
  · intro inside
    exact load_of_decode?_eq_none stored (Utf8.decode?_of_endsInside inside)
  · intro between
    obtain ⟨chars, begins, rfl⟩ := (Utf8.exists_encode_or_endsInside cut).resolve_right between
    have shorter : chars ≠ text graph := by
      rintro rfl
      exact proper rfl
    exact load_of_decode? stored (Utf8.decode?_encode chars) (read?_eq_none_of_truncated begins shorter)

/-- A graph with one entry, whose key has more bytes than characters. -/
def shortGraph : Graph where
  ids := [("é", 12)]
  levels := []
  nodes := []

/-- A file system that holds the first bytes of the snapshot of `shortGraph`. -/
def cutShort (count : Nat) : FileSystem :=
  .holding [['g']] ((Utf8.encode (text shortGraph)).take count)

theorem truncated_snapshot_is_refused_of_shortGraph :
    (Utf8.EndsInside ((Utf8.encode (text shortGraph)).take 27) (text shortGraph) ∧
        load (cutShort 27) (.ofString "g") = .error (.file (.ofString "g") .notText)) ∧
      ¬Utf8.EndsInside ((Utf8.encode (text shortGraph)).take 32) (text shortGraph) ∧
        load (cutShort 32) (.ofString "g") = .error .snapshot := by
  have cut (count : Nat) := (truncated_snapshot_is_refused shortGraph).2 _
    (List.take_prefix count (Utf8.encode (text shortGraph)))
  have inside : Utf8.EndsInside ((Utf8.encode (text shortGraph)).take 27) (text shortGraph) := by
    refine ⟨(text shortGraph).take 26, 'é', (text shortGraph).drop 27, [0xC3], ?_, ?_, ?_, ?_, ?_⟩
    all_goals decide +kernel
  have between : ¬Utf8.EndsInside ((Utf8.encode (text shortGraph)).take 32) (text shortGraph) := by
    intro inside
    have broken := Utf8.decode?_of_endsInside inside
    revert broken
    decide +kernel
  have refusedInside := (cut 27 (by decide +kernel) (cutShort 27) (.ofString "g") (by decide +kernel)).1 inside
  have refusedBetween := (cut 32 (by decide +kernel) (cutShort 32) (.ofString "g") (by decide +kernel)).2 between
  exact ⟨⟨inside, refusedInside⟩, between, refusedBetween⟩

end ImportAtlas.Snapshot
