import Observatory.Model.AgentScorer
import Observatory.Model.NonceTable

/-!
# Columns

The columns of `packages/observability/models.py` that hold counters of the connector, and what
`next_nonce_db` and `set_cursor` of `packages/connectors/technocore.py` write there.
-/

namespace Observatory

inductive ColumnType where
  | integer
  | bigInteger
deriving DecidableEq, Repr

namespace ColumnType

/-- How many bits a value has. -/
def bits : ColumnType → Nat
  | integer => 32
  | bigInteger => 64

/-- PostgreSQL takes the value. -/
def stores (t : ColumnType) (n : Int) : Bool := -2 ^ (t.bits - 1) ≤ n && n < 2 ^ (t.bits - 1)

end ColumnType

/-- `TechnocoreNonce.last_nonce` -/
def NonceTable.lastNonceColumn : ColumnType := .integer

/-- `TechnocoreCursor.last_seq` -/
def AgentScorer.lastSeqColumn : ColumnType := .integer

/-- `AgentEvaluation.seq` -/
def AgentScorer.seqColumn : ColumnType := .bigInteger

/-- The row that a statement of `next_nonce_db` writes. -/
def NonceTable.Op.row? : NonceTable.Op → Option NonceTable.TechnocoreNonce
  | .insertRow row => some row
  | .updateRow row => some row
  | _ => none

/-- What `set_cursor` writes, if it writes anything. -/
def AgentScorer.World.cursorWritten (w : AgentScorer.World) (room : String) (seq : Int) :
    Option Int :=
  match w.current.cursors room with
  | none => some seq
  | some lastSeq => if lastSeq < seq then some seq else none

end Observatory
