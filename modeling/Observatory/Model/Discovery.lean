import Mathlib.Logic.Relation
import Observatory.Effect.Run
import Observatory.Model.AgentScorer

/-!
# A scorer over its polls

The rooms discovered are kept in memory (`_discovered`), the cursors in the database.  Here polls
follow one another, each in a session of its own as in `run_forever`; the process may die within one
and is started again with an empty set.  What the rooms answer is any JSON.
-/

namespace Observatory.AgentScorer

open Effect

variable (py : Python)

/-! ## What a room answers -/

/-- A room with its answer, none if the request failed. -/
abbrev Answer := String × Option Dict

def answerOf (e : Performed Sys) : Option Answer :=
  match e with
  | ⟨.fetchRoom room _, res⟩ => some (room, res.toOption)
  | _ => none

/-- The rooms read along a trace, each with its answer. -/
def answers (t : List (Performed Sys)) : List Answer := t.filterMap answerOf

/-- The valid room a message of `/r/events` announces, with the message's `seq`. -/
def announced : Json → Option (Int × String)
  | .obj m =>
    match candidate py m with
    | .ok (some room) => if matchesRoom room then some (seqOf py m, room) else none
    | _ => none
  | _ => none

/-- The candidate of the message is no text: `.strip()` raises. -/
def isMalformed : Json → Bool
  | .obj m => !(candidate py m).isOk
  | _ => false

/-- What the loops of `poll_once` go through. -/
def batchOf (data : Dict) : List Json := (messagesOf data).toOption.getD []

/-- The rooms announced by an answer of `/r/events`. -/
def announcedIn : Answer → List (Int × String)
  | (room, some data) => if room = "events" then (batchOf data).filterMap (announced py) else []
  | (_, none) => []

/-- The rooms announced before the first malformed candidate. -/
def readIn : Option Dict → List String
  | some data =>
    (((batchOf data).takeWhile (!isMalformed py ·)).filterMap (announced py)).map Prod.snd
  | none => []

/-- The rooms a poll can learn of: the first answer is that of the discovery. -/
def learned : List Answer → List String
  | (_, data) :: _ => readIn py data
  | [] => []

/-! ## Polls and restarts -/

/-- An `AgentScorer` in memory. -/
structure Scorer where
  cfg : Settings
  discovered : List String := []

/-- The committed tables, the scorer if its process runs, and what `/r/events` has announced. -/
structure Watch where
  tables : Tables
  scorer : Option Scorer := none
  heard : List (Int × String) := []

/-- A `poll_once` is seen by the rooms it reads and their answers. -/
inductive Event where
  | started (cfg : Settings)
  | polled (as : List Answer)
  /-- the process ends within a poll -/
  | died (as : List Answer)

inductive Step : Watch → Event → Watch → Prop where
  | started (s : Watch) (cfg : Settings) :
    Step s (.started cfg) { s with scorer := some { cfg } }
  | disabled {s : Watch} {sc : Scorer} (hs : s.scorer = some sc) (hoff : sc.cfg.enabled = false) :
    Step s (.polled []) s
  | polled {s : Watch} {sc : Scorer} {found : List String} {res : Except LibError Nat}
      {t₁ t₂ : List (Performed Sys)} {w₁ w₂ : World} (hs : s.scorer = some sc)
      (hon : sc.cfg.enabled = true)
      (hfound : (discover py sc.cfg sc.discovered).Runs World.exec { committed := s.tables } t₁
        (.ok found) w₁)
      (hrooms : (pollRooms py (sc.cfg.rooms ++ found.insertionSort (· ≤ ·))).Runs World.exec w₁ t₂
        res w₂) :
    Step s (.polled (answers (t₁ ++ t₂)))
      { tables := w₂.committed
        scorer := some { sc with discovered := found }
        heard := s.heard ++ (answers (t₁ ++ t₂)).flatMap (announcedIn py) }
  | died {s : Watch} {sc : Scorer} {t t' : List (Performed Sys)} {res : Except LibError Nat}
      {w : World} (hs : s.scorer = some sc)
      (htrace : (pollOnce py sc.cfg sc.discovered).Exec (t ++ t') res)
      (hworld : Steps World.exec { committed := s.tables } t w) :
    Step s (.died (answers t))
      { tables := w.committed
        scorer := none
        heard := s.heard ++ (answers t).flatMap (announcedIn py) }

/-- One history after another, all of its steps as `ok` says. -/
def History (ok : Watch → Event → Prop) : Watch → Watch → Prop :=
  Relation.ReflTransGen fun s s' => ∃ e, Step py s e s' ∧ ok s e

/-- The cursor of the room is at `seq` or past it. -/
def Tables.Passed (tb : Tables) (room : String) (seq : Int) : Prop :=
  ∃ c, tb.cursors room = some c ∧ seq ≤ c

/-- Every room announced at or below the `events` cursor is read by every later poll. -/
def StaysMonitored (ok : Watch → Event → Prop) : Prop :=
  ∀ (tables : Tables) (s₁ s₂ s₃ : Watch) (as : List Answer) (seq : Int) (room : String),
    History py ok { tables } s₁ → (seq, room) ∈ s₁.heard → s₁.tables.Passed "events" seq →
      History py ok s₁ s₂ → Step py s₂ (.polled as) s₃ → ok s₂ (.polled as) →
        ∃ answer, (room, answer) ∈ as

end Observatory.AgentScorer
