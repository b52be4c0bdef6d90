import Observatory.Model.Queue
import Mathlib

/-!
# The fields of an entry

What `_handle_entry` of `apps/worker/worker.py` makes of the fields of a stream entry before it
looks for a run: the `data` field, decoded and parsed.  A client that does not decode responses
gives bytes, its keys included; `loads` is `json.loads`.
-/

namespace Observatory

/-- A key or a value of an entry. -/
inductive FieldText where
  | text (s : String)
  | bytes (b : ByteArray)
deriving DecidableEq

namespace FieldText

/-- Python truth value. -/
def truthy : FieldText → Bool
  | text s => s ≠ ""
  | bytes b => b.size ≠ 0

end FieldText

/-- The fields of an entry. -/
abbrev EntryFields := List (FieldText × FieldText)

namespace EntryFields

/-- `fields.get("data") or fields.get(b"data")` -/
def data (fields : EntryFields) : Option FieldText :=
  match List.lookup (.text "data") fields with
  | some raw => if raw.truthy then some raw else List.lookup (.bytes "data".toUTF8) fields
  | none => List.lookup (.bytes "data".toUTF8) fields

/-- The `data` field as far as it can be read. -/
def body (loads : String → Option Json) (fields : EntryFields) : Body :=
  let parsed (s : String) : Body := (loads s).elim .notJson .json
  match fields.data with
  | none => .missing
  | some (.text s) => parsed s
  | some (.bytes b) => (String.fromUTF8? b).elim .undecodable parsed

end EntryFields

end Observatory
