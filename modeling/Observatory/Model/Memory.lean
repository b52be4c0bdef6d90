import Observatory.Model.Value
import Mathlib.Data.List.Sort

/-!
# Memory

`packages/memory/service.py`: items from candidate to active, superseded or expired, and the
searches that put them into a context; `decide_memory` of `apps/api/app.py`.  Every method is one
transaction.
-/

namespace Observatory

inductive MemoryStatus where
  | candidate | approved | autoApproved | active | superseded | expired | rejected | deleted
deriving DecidableEq, Repr

namespace MemoryStatus

def value : MemoryStatus → String
  | candidate => "CANDIDATE"
  | approved => "APPROVED"
  | autoApproved => "AUTO_APPROVED"
  | active => "ACTIVE"
  | superseded => "SUPERSEDED"
  | expired => "EXPIRED"
  | rejected => "REJECTED"
  | deleted => "DELETED"

/-- `RETRIEVAL_ALLOWED_STATUSES` -/
def retrievable : MemoryStatus → Bool
  | active | approved | autoApproved => true
  | _ => false

end MemoryStatus

inductive VerificationStatus where
  | unverified | verified
deriving DecidableEq, Repr

abbrev MemoryId := Nat

abbrev Embedding := List Rat

/-- The dimension of the column `embedding_vector`. -/
def vectorDim : Nat := 1536

/-- What the column holds. -/
abbrev StoredVector := { v : Embedding // v.length = vectorDim }

/-- What the column takes of a value; for another dimension the database raises. -/
def storeVector : Option Embedding → Option (Option StoredVector)
  | none => some none
  | some v => if h : v.length = vectorDim then some (some ⟨v, h⟩) else none

structure MemoryItem where
  content : String
  source : String
  observedAt : Time
  confidence : Rat
  ttl : Option Int
  status : MemoryStatus := .candidate
  verificationStatus : VerificationStatus := .unverified
  embedding : Option Embedding := none
  embeddingVector : Option StoredVector := none
  category : Option String
  expiresAt : Option Time
  createdAt : Time
deriving DecidableEq, Repr

inductive RelationType where
  | contradicts | supersedes
deriving DecidableEq, Repr

structure MemoryRelation where
  fromMemoryId : MemoryId
  toMemoryId : MemoryId
  relationType : RelationType
deriving DecidableEq, Repr

/-- The two tables; an item is named by its position. -/
structure MemoryDb where
  items : List MemoryItem := []
  relations : List MemoryRelation := []
deriving DecidableEq, Repr

/-- What the service does not decide itself. -/
structure MemoryEnv where
  redact : String → String
  /-- `MEMORY_AUTO_PROMOTE_THRESHOLD` -/
  threshold : Rat
  /-- `ILIKE` takes the characters for the same -/
  same : Char → Char → Bool
  /-- `<=>` of pgvector -/
  distance : Embedding → Embedding → Rat
  /-- the order in which the database returns rows it was not told to sort -/
  arrange : List (MemoryId × MemoryItem) → List (MemoryId × MemoryItem)
  arrange_perm : ∀ rows, (arrange rows).Perm rows

/-! ## Patterns -/

/-- `s.replace(c, new)` -/
def replaceChar (c : Char) (new s : List Char) : List Char :=
  s.flatMap fun d => if d = c then new else [d]

/-- `_escape_ilike` -/
def escapeIlike (q : List Char) : List Char :=
  replaceChar '_' ['\\', '_'] (replaceChar '%' ['\\', '%'] (replaceChar '\\' ['\\', '\\'] q))

/-- `text ILIKE pattern ESCAPE '\'` -/
def ilike (same : Char → Char → Bool) : (pattern text : List Char) → Bool
  | [], text => text.isEmpty
  | '%' :: p, text => text.tails.any fun rest => ilike same p rest
  | '_' :: _, [] => false
  | '_' :: p, _ :: text => ilike same p text
  | '\\' :: _ :: _, [] => false
  | '\\' :: c :: p, d :: text => same c d && ilike same p text
  | _ :: _, [] => false
  | c :: p, d :: text => same c d && ilike same p text

namespace MemoryDb

/-- The rows with their names. -/
def rows (db : MemoryDb) : List (MemoryId × MemoryItem) := db.items.zipIdx.map Prod.swap

def update (db : MemoryDb) (id : MemoryId) (f : MemoryItem → MemoryItem) : MemoryDb :=
  { db with items := db.items.modify id f }

def relate (db : MemoryDb) (fromId toId : MemoryId) (relation : RelationType) : MemoryDb :=
  { db with relations := db.relations ++ [⟨fromId, toId, relation⟩] }

end MemoryDb

namespace MemoryService

/-- The arguments of `create_candidate`. -/
structure Candidate where
  content : String
  source : String
  confidence : Rat := 1 / 2
  ttlSeconds : Option Int := none
  category : Option String := none
  observedAt : Option Time := none
  embedding : Option Embedding := none
  embeddingVector : Option Embedding := none
deriving Repr

/-- `datetime.now(UTC) + timedelta(seconds=ttl_seconds) if ttl_seconds else None` -/
def expiry (now : Time) : Option Int → Option Time
  | none => none
  | some ttl => if ttl = 0 then none else some (now + ttl * 1000)

/-- Not expired by its time. -/
def unexpired (now : Time) (item : MemoryItem) : Bool := item.expiresAt.all (now < ·)

variable (env : MemoryEnv) (now : Time) (db : MemoryDb)

/-- `create_candidate`, unless the flush raises. -/
def createCandidate (c : Candidate) : Option (MemoryDb × MemoryId) :=
  (storeVector (c.embeddingVector <|> c.embedding)).map fun embeddingVector =>
    ({ db with items := db.items ++ [
        { content := env.redact c.content
          source := env.redact c.source
          observedAt := c.observedAt.getD now
          confidence := max 0 (min 1 c.confidence)
          ttl := c.ttlSeconds
          embedding := c.embedding
          embeddingVector
          category := c.category
          expiresAt := expiry now c.ttlSeconds
          createdAt := now }] },
      db.items.length)

/-- `approve`: only a candidate; the answer tells whether it was one. -/
def approve (id : MemoryId) (auto : Bool) : MemoryDb × Bool :=
  match db.items[id]? with
  | none => (db, false)
  | some item =>
    if item.status ≠ .candidate then (db, false)
    else (db.update id ({ · with
      status := if auto then .autoApproved else .approved, verificationStatus := .verified }), true)

def reject (id : MemoryId) : MemoryDb :=
  match db.items[id]? with
  | none => db
  | some _ => db.update id ({ · with status := .rejected })

def markActive (id : MemoryId) : MemoryDb :=
  match db.items[id]? with
  | none => db
  | some item =>
    if item.status = .approved ∨ item.status = .autoApproved then
      db.update id ({ · with status := .active, verificationStatus := .verified })
    else db

def supersede (oldId newId : MemoryId) : MemoryDb :=
  match db.items[newId]? with
  | none => db
  | some new =>
    if new.status ≠ .active then db
    else match db.items[oldId]? with
      | none => db
      | some _ =>
        if oldId = newId then db
        else (db.relate newId oldId .supersedes).update oldId ({ · with status := .superseded })

/-- `link_contradiction`: the foreign keys refuse a row that does not exist. -/
def linkContradiction (a b : MemoryId) : Option MemoryDb :=
  if a < db.items.length ∧ b < db.items.length then some (db.relate a b .contradicts) else none

/-- The conditions of `search`. -/
def matching (q : String) (status : Option String) (verifiedOnly allowExpired : Bool)
    (item : MemoryItem) : Bool :=
  let asked := status.filter (· ≠ "")
  ilike env.same (['%'] ++ escapeIlike q.toList ++ ['%']) item.content.toList &&
  (match asked, verifiedOnly with
    | some s, true => item.status.value = s && item.verificationStatus = .verified
    | none, true => item.status.retrievable && item.verificationStatus = .verified
    | some s, false => item.status.value = s
    | none, false => true) &&
  (allowExpired || (unexpired now item && item.status ≠ .expired))

/-- The rows that `search` returns. -/
def found (q : String) (status : Option String) (limit : Nat) (verifiedOnly allowExpired : Bool) :
    List (MemoryId × MemoryItem) :=
  (((env.arrange (db.rows.filter fun x => matching env now q status verifiedOnly allowExpired x.2))
    |>.insertionSort fun x y => y.2.confidence ≤ x.2.confidence).take limit).map
    fun (id, item) => (id, { item with content := env.redact item.content })

/-- `search`: the items found, redacted once more, also in the table. -/
def search (q : String) (status : Option String) (limit : Nat) (verifiedOnly allowExpired : Bool) :
    MemoryDb × List (MemoryId × MemoryItem) :=
  let items := found env now db q status limit verifiedOnly allowExpired
  (items.foldl (fun db x => db.update x.1 fun item => { item with content := x.2.content }) db,
    items)

def retrieveForContext (q : String) (limit : Nat) : MemoryDb × List (MemoryId × MemoryItem) :=
  search env now db q none limit true false

/-- The first query of `vector_search`; `<=>` raises for a vector of another dimension. -/
def vectorQuery (embedding : Embedding) (limit : Nat) : Option (List MemoryId) :=
  let near := (env.arrange db.rows).filterMap fun x =>
    if x.2.verificationStatus = .verified ∧ x.2.status.retrievable ∧ unexpired now x.2 then
      x.2.embeddingVector.map fun v => (v, x.1)
    else none
  if near.any fun x => x.1.1.length ≠ embedding.length then none
  else
    let ranked := near.map fun x => (env.distance x.1.1 embedding, x.2)
    some (((ranked.insertionSort fun x y => x.1 ≤ y.1).take limit).map Prod.snd)

/-- `vector_search`; an exception on the way, that of the query or another, `failed`, gives
nothing. -/
def vectorSearch (embedding : Embedding) (limit : Nat) (failed : Bool) :
    List (MemoryId × MemoryItem) :=
  if failed then []
  else
    match vectorQuery env now db embedding limit with
    | none => []
    | some ids =>
      if ids.isEmpty then []
      else env.arrange (db.rows.filter fun x => x.1 ∈ ids)

def listStatus (status : String) (limit : Nat) : List (MemoryId × MemoryItem) :=
  ((env.arrange (db.rows.filter fun x => x.2.status.value = status && unexpired now x.2))
    |>.insertionSort fun x y => y.2.createdAt ≤ x.2.createdAt).take limit

/-- The test of `expire_sweep`. -/
def overdue (item : MemoryItem) : Bool :=
  item.expiresAt.any (· ≤ now) &&
    item.status ≠ .expired && item.status ≠ .deleted && item.status ≠ .superseded

def expireSweep : MemoryDb × Nat :=
  ({ db with items := db.items.map fun item =>
      if overdue now item then { item with status := .expired } else item },
    db.items.countP (overdue now))

/-- The test of `auto_promote_candidates`. -/
def promotable (threshold : Rat) (item : MemoryItem) : Bool :=
  item.status = .candidate && threshold < item.confidence && unexpired now item

/-- `auto_promote_candidates`, when `completed` runs are COMPLETED. -/
def autoPromoteCandidates (threshold : Option Rat) (minRuns completed : Nat) : MemoryDb × Nat :=
  let thr := threshold.getD env.threshold
  if min completed minRuns < minRuns then (db, 0)
  else
    ({ db with items := db.items.map fun item =>
        if promotable now thr item then
          { item with status := .autoApproved, verificationStatus := .verified }
        else item },
      db.items.countP (promotable now thr))

end MemoryService

/-- What an endpoint answers. -/
inductive MemoryReply where
  | ok (status : String)
  | httpError (code : Nat) (detail : String)
deriving DecidableEq, Repr

/-- `decide_memory`, for a `memory_id` that is a UUID or not. -/
def decideMemory (db : MemoryDb) (memoryId : Option MemoryId) (d : Dict) : MemoryDb × MemoryReply :=
  match memoryId with
  | none => (db, .httpError 400 "memory id geçersiz")
  | some uid =>
    match db.items[uid]? with
    | none => (db, .httpError 404 "kayıt yok")
    | some _ =>
      match Dict.get d "decision" with
      | some (.text (.str action)) =>
        if action = "approve" ∨ action = "activate" then
          (MemoryService.markActive db uid, .ok action)
        else if action = "reject" then (MemoryService.reject db uid, .ok action)
        else (db, .httpError 400 "bilinmeyen decision")
      | _ => (db, .httpError 400 "bilinmeyen decision")

/-- A call of the service. -/
inductive MemoryCall where
  | createCandidate (c : MemoryService.Candidate)
  | approve (id : MemoryId) (auto : Bool)
  | reject (id : MemoryId)
  | markActive (id : MemoryId)
  | supersede (oldId newId : MemoryId)
  | linkContradiction (a b : MemoryId)
  | expireSweep
  | autoPromoteCandidates (threshold : Option Rat) (minRuns completed : Nat)
  | search (q : String) (status : Option String) (limit : Nat) (verifiedOnly allowExpired : Bool)
deriving Repr

/-- What a call leaves in the tables; one that is refused leaves them alone. -/
def MemoryCall.perform (env : MemoryEnv) (now : Time) (db : MemoryDb) : MemoryCall → MemoryDb
  | createCandidate c => ((MemoryService.createCandidate env now db c).map Prod.fst).getD db
  | approve id auto => (MemoryService.approve db id auto).1
  | reject id => MemoryService.reject db id
  | markActive id => MemoryService.markActive db id
  | supersede oldId newId => MemoryService.supersede db oldId newId
  | linkContradiction a b => (MemoryService.linkContradiction db a b).getD db
  | expireSweep => (MemoryService.expireSweep now db).1
  | autoPromoteCandidates threshold minRuns completed =>
    (MemoryService.autoPromoteCandidates env now db threshold minRuns completed).1
  | search q status limit verifiedOnly allowExpired =>
    (MemoryService.search env now db q status limit verifiedOnly allowExpired).1

end Observatory
