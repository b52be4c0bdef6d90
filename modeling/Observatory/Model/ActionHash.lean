import Mathlib.Data.List.Lex
import Mathlib.Order.Fin.Basic
import Observatory.Data.Utf16
import Observatory.Model.Canonical

/-!
# Hashes of actions

`canonical_json` and `action_hash` of `packages/policy/engine.py`, over the strings of the language,
and the hash that `ApprovalService.create` of `packages/policy/approval.py` stores.  The interpreter
sets limits to the depth of a value and to the digits of an integer; here there are none.
-/

namespace Observatory.ActionHash

open Canonical (Str ofString)
open JsonText

/-- `json.dumps(payload, sort_keys=True, separators=(",", ":"), default=str)`.  What is not ASCII
is escaped. -/
def canonicalJson (payload : Value Str) : String :=
  String.ofList (payload.sorted.write fun s => Utf16.quote (Utf16.units s))

/-- `action_hash`, for `hashlib.sha256(…).hexdigest()`. -/
def actionHash (sha256 : ByteArray → String) (actionClass target : Str) (payload : Value Str) :
    String :=
  let material := canonicalJson (.obj [(ofString "action_class", .str actionClass),
    (ofString "target", .str target), (ofString "payload", payload)])
  sha256 material.toUTF8

/-- `create` up to the hash. -/
def createHash (sha256 : ByteArray → String) (actionId tool : Str)
    (arguments : List (Str × Value Str)) (actionClass target : Str) : String :=
  let payload := .obj [(ofString "action_id", .str actionId), (ofString "tool", .str tool),
    (ofString "arguments", .obj arguments)]
  actionHash sha256 actionClass target payload

end Observatory.ActionHash
