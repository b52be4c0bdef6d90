import Observatory.Model.EventLog

/-!
# The event log

`Discipline` is the protocol of a session: it inserts an event only under the advisory lock, and
with the number after the highest `seq` it has read since.  Every program of the model keeps to it
(`program_keeps`).  The lock lasts to the end of the transaction, so of all sessions only its holder
has uncommitted events, and what it sees is what will be committed.  `Ordered` is the resulting
invariant: in what any session sees, the `seq` of a run count from 0 and the `global_seq` increase.
-/

namespace Observatory.EventLog

open Effect

/-- What a session has done: whether it has the advisory lock, the highest `seq` it has read since
its last insert, the events it has written, and the events it has committed. -/
structure Session where
  locked : Bool := false
  read : Option (RunId × Int) := none
  written : List Append := []
  added : List Append := []

namespace Session

variable (g : Session)

/-- The end of a transaction. -/
def closed (added : List Append) : Session := { added := added }

def allows : Op → Prop
  | .insertEvent a seq globalSeq => g.locked = true ∧ g.read = some (a.runId, seq - 1) ∧
      globalSeq = none
  | .returned a => g.added = [a]
  | .raised _ => g.added = []
  | _ => True

def next : (o : Op) → Except LibError o.Ans → Session
  | .advisoryXactLock, .ok _ => { g with locked := true, read := none }
  | .maxSeq r, .ok n => { g with read := some (r, n) }
  | .insertEvent a _ _, .ok _ => { g with read := none, written := g.written ++ [a] }
  | .commit, .ok _ => closed (g.added ++ g.written)
  | .commit, .error _ => closed g.added
  | .rollback, _ => closed g.added
  | _, _ => g

end Session

/-- The protocol of a session. -/
def Discipline : Protocol Sys Session where
  allows := Session.allows
  next := Session.next

/-! ## The programs keep to it -/

section programs

variable {g : Session} {a : Append}

/-- What a part of a transaction leaves: it commits nothing, and writes `as` if it returns. -/
def Wrote {α : Type} (g : Session) (as : List Append) : Except LibError α → Session → Prop
  | .ok _, g' => g'.added = g.added ∧ g'.written = g.written ++ as
  | .error _, g' => g'.added = g.added

theorem wp_perform {o : Op} {Q : Except LibError o.Ans → Session → Prop} :
    (perform o).wp Discipline Q g ↔
      g.allows o ∧ (∀ x, Q (.ok x) (g.next o (.ok x))) ∧
        ∀ x, Q (.error x) (g.next o (.error x)) := Prog.wp_call

/-- **An append** locks, reads and inserts. -/
theorem appendRunEventInSession_keeps :
    (appendRunEventInSession .postgresql a).wp Discipline (Wrote g [a]) g := by
  unfold appendRunEventInSession
  simp only [Prog.bind_eq, Prog.wp_bind]
  refine wp_perform.2 ⟨trivial, fun _ => ?_, fun _ => rfl⟩
  simp only [Prog.bindPost_ok, Prog.wp_bind]
  refine wp_perform.2 ⟨trivial, fun _ => ?_, fun _ => rfl⟩
  simp only [Prog.bindPost_ok, Prog.wp_bind]
  refine wp_perform.2 ⟨trivial, fun (n : Int) => ?_, fun _ => rfl⟩
  refine wp_perform.2 ⟨⟨rfl, ?_, rfl⟩, fun _ => ⟨rfl, rfl⟩, fun _ => rfl⟩
  have hread : n = n + 1 - 1 := by omega
  exact congrArg (fun n => some (a.runId, n)) hread

/-- What a transaction leaves: its events are committed if it returns, and lost if it raises. -/
def Closed {α : Type} (g : Session) (as : List Append) : Except LibError α → Session → Prop
  | .ok _, g' => g' = .closed (g.added ++ as)
  | .error _, g' => g' = .closed g.added

/-- **A transaction** commits all its events or none. -/
theorem inTransaction_keeps {α : Type} {body : Proc α} {Q : Except LibError α → Session → Prop}
    (hbody : body.wp Discipline (fun r g' => g'.added = g.added ∧
      match r with
      | .ok x => Q (.ok x) (.closed (g.added ++ g'.written)) ∧
          ∀ e, Q (.error e) (.closed g.added)
      | .error _ => ∀ e, Q (.error e) (.closed g.added)) g) :
    (inTransaction body).wp Discipline Q g := by
  unfold inTransaction
  simp only [Prog.bind_eq, Prog.wp_bind, Prog.wp_attempt]
  refine Prog.wp_mono ?_ hbody
  rintro (x | x) g' ⟨hadded, hQ⟩
  · simp only [Prog.bindPost_ok, Prog.wp_bind]
    refine wp_perform.2 ⟨trivial, fun _ => ?_, fun e => ?_⟩
    · show Q (.error x) (.closed g'.added)
      rw [hadded]
      exact hQ x
    · show Q (.error e) (.closed g'.added)
      rw [hadded]
      exact hQ e
  · simp only [Prog.bindPost_ok, Prog.wp_bind]
    refine wp_perform.2 ⟨trivial, fun _ => ?_, fun e => ?_⟩
    · show Q (.ok x) (.closed (g'.added ++ g'.written))
      rw [hadded]
      exact hQ.1
    · show Q (.error e) (.closed g'.added)
      rw [hadded]
      exact hQ.2 e

/-- **The attempts** add the event once if they return, and nothing if they raise. -/
theorem attempts_keeps {n : ℕ} {lastExc : Option LibError} (hn : 0 < n ∨ lastExc.isSome) :
    (attempts .postgresql a n lastExc).wp Discipline (Closed (.closed []) [a]) (.closed []) := by
  induction n generalizing lastExc with
  | zero =>
    cases lastExc with
    | none => simp at hn
    | some x => exact rfl
  | succ n ih =>
    unfold attempts
    simp only [Prog.bind_eq, Prog.wp_bind, Prog.wp_attempt]
    refine inTransaction_keeps (Prog.wp_mono ?_ appendRunEventInSession_keeps)
    have hretry : ∀ x : LibError, (if isIntegrityError x then attempts .postgresql a n (some x)
        else throw x).wp Discipline (Closed (.closed []) [a]) (.closed []) := by
      intro x
      split
      · exact ih (.inr rfl)
      · exact rfl
    rintro (x | x) g' hwrote
    · exact ⟨hwrote, hretry⟩
    · refine ⟨hwrote.1, ?_, hretry⟩
      rw [hwrote.2]
      exact rfl

theorem appendRunEventSafe_keeps {n : ℕ} (hn : 0 < n) :
    (appendRunEventSafe .postgresql a n).wp Discipline (Closed (.closed []) [a]) (.closed []) :=
  attempts_keeps (.inl hn)

theorem runStatements_keeps {body : List Statement} :
    (runStatements .postgresql body).wp Discipline (fun _ g' => g'.added = g.added) g := by
  induction body generalizing g with
  | nil => exact rfl
  | cons s rest ih =>
    have hstatement : (s.proc .postgresql).wp Discipline (fun _ g' => g'.added = g.added) g := by
      cases s with
      | append a handled =>
        unfold Statement.proc
        simp only [Prog.bind_eq, Prog.wp_bind]
        refine Prog.wp_mono ?_ appendRunEventInSession_keeps
        rintro (x | x) g' hwrote
        · exact hwrote
        · exact hwrote.1
      | updateRun r handled => exact wp_perform.2 ⟨trivial, fun _ => rfl, fun _ => rfl⟩
    unfold runStatements
    simp only [Prog.bind_eq, Prog.wp_bind, Prog.wp_attempt]
    refine Prog.wp_mono ?_ hstatement
    rintro (x | x) g' hadded
    · simp only [Prog.bindPost_ok]
      split
      · exact Prog.wp_mono (fun _ _ h => h.trans hadded) ih
      · exact hadded
    · exact Prog.wp_mono (fun _ _ h => h.trans hadded) ih

/-- **Every program keeps to the discipline.** -/
theorem program_keeps (q : Req) :
    (q.program .postgresql).wp Discipline (fun _ _ => True) {} := by
  cases q with
  | transaction body commits =>
    refine inTransaction_keeps ?_
    simp only [Prog.bind_eq, Prog.wp_bind]
    refine Prog.wp_mono ?_ runStatements_keeps
    rintro (x | x) g' hadded
    · exact ⟨hadded, fun _ => trivial⟩
    · cases commits with
      | true => exact ⟨hadded, trivial, fun _ => trivial⟩
      | false => exact ⟨hadded, fun _ => trivial⟩
  | safe a =>
    unfold Req.program
    simp only [Prog.bind_eq, Prog.wp_bind, Prog.wp_attempt]
    refine Prog.wp_mono ?_ (appendRunEventSafe_keeps (by decide))
    rintro (x | x) g' rfl
    · exact wp_perform.2 ⟨rfl, fun _ => trivial, fun _ => trivial⟩
    · exact wp_perform.2 ⟨rfl, fun _ => trivial, fun _ => trivial⟩

end programs

/-! ## Sequenced events -/

/-- The events of every run are numbered from 0 on, and the global numbers increase up to `last`. -/
structure Sequenced (last : Int) (events : List RunEvent) : Prop where
  numbered : ∀ r, (events.filter (·.runId = r)).map (·.seq) =
    (List.range (events.countP (·.runId = r))).map Nat.cast
  increasing : events.Pairwise fun e e' => e.globalSeq < e'.globalSeq
  below : ∀ e ∈ events, e.globalSeq ≤ last

namespace Sequenced

variable {last last' : Int} {events : List RunEvent} {e : RunEvent} {r : RunId}

theorem nil : Sequenced last [] :=
  ⟨fun _ => rfl, List.Pairwise.nil, fun _ he => absurd he List.not_mem_nil⟩

theorem mono (h : Sequenced last events) (hle : last ≤ last') : Sequenced last' events :=
  ⟨h.numbered, h.increasing, fun e he => (h.below e he).trans hle⟩

theorem foldl_max_range (n : ℕ) :
    ((List.range n).map (Nat.cast : ℕ → Int)).foldl max (-1) = (n : Int) - 1 := by
  induction n with
  | zero => rfl
  | succ n ih =>
    rw [List.range_succ, List.map_append, List.foldl_append, ih]
    simp only [List.map_cons, List.map_nil, List.foldl_cons, List.foldl_nil]
    omega

/-- The highest `seq` of a run is one below the number of its events. -/
theorem maxSeqOf_eq (h : Sequenced last events) :
    maxSeqOf r events = (events.countP (·.runId = r) : Int) - 1 := by
  unfold maxSeqOf
  rw [h.numbered r]
  exact foldl_max_range _

/-- **One more event**, with the next number of its run and a new global number. -/
theorem append (h : Sequenced last events) (hseq : e.seq = maxSeqOf e.runId events + 1)
    (hlast : last < e.globalSeq) : Sequenced e.globalSeq (events ++ [e]) := by
  refine ⟨fun r => ?_, ?_, ?_⟩
  · rw [List.filter_append, List.map_append, List.countP_append, h.numbered r]
    by_cases hr : e.runId = r
    · rw [h.maxSeqOf_eq, hr] at hseq
      have hfilter : [e].filter (·.runId = r) = [e] := by simp [hr]
      have hcount : [e].countP (·.runId = r) = 1 := by simp [hr]
      rw [hfilter, hcount, List.range_succ, List.map_append]
      simp only [List.map_cons, List.map_nil, hseq]
      congr 2
      omega
    · have hfilter : [e].filter (·.runId = r) = [] := by simp [hr]
      have hcount : [e].countP (·.runId = r) = 0 := by simp [hr]
      rw [hfilter, hcount, List.map_nil, List.append_nil, Nat.add_zero]
  · refine List.pairwise_append.2 ⟨h.increasing, List.pairwise_singleton _ _, ?_⟩
    intro x hx y hy
    rw [List.mem_singleton.1 hy]
    exact (h.below x hx).trans_lt hlast
  · intro x hx
    rcases List.mem_append.1 hx with hx | hx
    · exact (h.below x hx).trans hlast.le
    · rw [List.mem_singleton.1 hx]

end Sequenced

/-! ## Sessions and the table -/

/-- What `append_run_event_safe` was asked to add. -/
def RunEvent.asked (e : RunEvent) : Append := ⟨e.runId, e.eventType, e.payload⟩

/-- **The invariant**: what a session sees is in order, and only the holder of the advisory lock has
uncommitted events. -/
structure Ordered (φ : Pid → Option Session) (w : World) : Prop where
  committed : Sequenced w.identity w.log.committed
  visible : ∀ p, Sequenced w.identity (w.log.visible p)
  guarded : ∀ p, w.log.own p ≠ [] → w.locks .advisory = some p
  idle : ∀ p, φ p = none → w.log.own p = []
  locked : ∀ p g, φ p = some g → g.locked = true → w.locks .advisory = some p
  written : ∀ p g, φ p = some g → (w.log.own p).map RunEvent.asked = g.written
  read : ∀ p g r n, φ p = some g → g.locked = true → g.read = some (r, n) →
    n = maxSeqOf r (w.log.visible p)

/-- What an operation of the session `p` does to its phase and to the world. -/
inductive Outcome (w : World) (p : Pid) (g : Session) : World → Session → Prop where
  | kept {w' : World} {g' : Session} (log : w'.log = w.log) (identity : w.identity ≤ w'.identity)
      (locks : ∀ k q, w.locks k = some q → w'.locks k = some q)
      (locked : g'.locked = true → w'.locks .advisory = some p)
      (read : ∀ r n, g'.locked = true → g'.read = some (r, n) →
        n = maxSeqOf r (w.log.visible p))
      (written : g'.written = g.written) (added : g'.added = g.added) : Outcome w p g w' g'
  | inserted (e : RunEvent) (holder : w.locks .advisory = some p)
      (seq : e.seq = maxSeqOf e.runId (w.log.visible p) + 1) (last : w.identity < e.globalSeq) :
      Outcome w p g { w with log := w.log.insert p e, identity := e.globalSeq }
        { g with read := none, written := g.written ++ [e.asked] }
  | committed : Outcome w p g { w with log := w.log.commit p, locks := w.locks.release p }
      (.closed (g.added ++ g.written))
  | aborted : Outcome w p g (w.abort p) (.closed g.added)

section step

variable {φ : Pid → Option Session} {w w' : World} {p : Pid} {g g' : Session}

/-- Nothing happened to the session. -/
theorem Outcome.same (h : Ordered φ w) (hg : φ p = some g) : Outcome w p g w g :=
  .kept rfl le_rfl (fun _ _ hq => hq) (h.locked p g hg) (fun r n => h.read p g r n hg) rfl rfl

theorem lock_kept {k : Lock} : (w.lock p k).1.log = w.log ∧
    (w.lock p k).1.identity = w.identity ∧
    ∀ k' q, w.locks k' = some q → (w.lock p k).1.locks k' = some q := by
  unfold World.lock
  split
  · next hfree =>
    refine ⟨rfl, rfl, fun k' q hq => ?_⟩
    by_cases hk : k' = k
    · subst hk
      obtain rfl := Locks.free_iff.1 hfree q hq
      exact Locks.acquire_self
    · exact (Locks.acquire_other hk).trans hq
  · exact ⟨rfl, rfl, fun _ _ hq => hq⟩

theorem lockRow_kept {r : RunId} : (w.lockRow p r).1.log = w.log ∧
    (w.lockRow p r).1.identity = w.identity ∧
    ∀ k q, w.locks k = some q → (w.lockRow p r).1.locks k = some q := by
  unfold World.lockRow
  split
  · exact lock_kept
  · exact ⟨rfl, rfl, fun _ _ hq => hq⟩

/-- An operation that leaves the phase as it is, and of the world all but some locks. -/
theorem Outcome.of_locks (h : Ordered φ w) (hg : φ p = some g)
    (hw : w'.log = w.log ∧ w'.identity = w.identity ∧
      ∀ k q, w.locks k = some q → w'.locks k = some q) : Outcome w p g w' g :=
  .kept hw.1 hw.2.1.ge hw.2.2 (fun hl => hw.2.2 _ _ (h.locked p g hg hl))
    (fun r n => h.read p g r n hg) rfl rfl

theorem outcome_insert (h : Ordered φ w) (hg : φ p = some g) {a : Append} {seq : Int}
    {gap : ℕ} (hallowed : g.allows (.insertEvent a seq none)) :
    Outcome w p g (w.insert p a seq none gap).1
      (g.next (.insertEvent a seq none) (w.insert p a seq none gap).2) := by
  obtain ⟨hlocked, hread, -⟩ := hallowed
  have hseq := h.read p g _ _ hg hlocked hread
  let e : RunEvent := ⟨a.runId, seq, w.identity + 1 + gap, a.etype, a.payload⟩
  by_cases hviolated : a.runId ∉ w.runs ∨ w.log.blocked clash e
  · -- the constraint is violated, and a value of the identity column is lost
    have hins : w.insert p a seq none gap =
        ({ w with identity := w.identity + 1 + gap }, .error integrityError) := if_pos hviolated
    rw [hins]
    refine .kept rfl ?_ (fun _ _ hq => hq) (h.locked p g hg) (fun r n => h.read p g r n hg) rfl rfl
    show w.identity ≤ w.identity + 1 + gap
    omega
  · have hins : w.insert p a seq none gap =
        ({ w with log := w.log.insert p e, identity := e.globalSeq }, .ok e) := if_neg hviolated
    rw [hins]
    refine .inserted e (h.locked p g hg hlocked) ?_ ?_
    · show seq = maxSeqOf a.runId _ + 1
      omega
    · show w.identity < w.identity + 1 + gap
      omega

theorem outcome_exec (h : Ordered φ w) (hg : φ p = some g) {o : Op} (ch : Choice)
    (hallowed : g.allows o) :
    Outcome w p g (w.exec p ch o).1 (g.next o (w.exec p ch o).2) := by
  cases o with
  | advisoryXactLock =>
    by_cases hfree : w.locks.free p .advisory
    · have hlock : w.exec p ch .advisoryXactLock =
          ({ w with locks := w.locks.acquire p .advisory }, .ok ()) := if_pos hfree
      obtain ⟨-, -, hkept⟩ := lock_kept (w := w) (p := p) (k := .advisory)
      rw [hlock]
      refine .kept rfl le_rfl ?_ ?_ (fun r n _ hr => ?_) rfl rfl
      · intro k q hq
        have := hkept k q hq
        rwa [show w.lock p .advisory = _ from hlock] at this
      · intro _
        show w.locks.acquire p .advisory .advisory = some p
        exact Locks.acquire_self
      · cases hr
    · have hlock : w.exec p ch .advisoryXactLock = (w, .error lockNotAvailable) := if_neg hfree
      rw [hlock]
      exact .same h hg
  | lockRun r => exact .of_locks h hg lockRow_kept
  | maxSeq r =>
    refine .kept rfl le_rfl (fun _ _ hq => hq) (h.locked p g hg) (fun r' n _ hr => ?_) rfl rfl
    cases hr
    rfl
  | maxGlobalSeq => exact .same h hg
  | insertEvent a seq globalSeq =>
    obtain rfl := hallowed.2.2
    exact outcome_insert h hg hallowed
  | updateRun r => exact .of_locks h hg lockRow_kept
  | commit => exact .committed
  | rollback => exact .aborted
  | returned a => exact .same h hg
  | raised a => exact .same h hg

/-- **What an operation does**, disturbed or not. -/
theorem outcome_perform (h : Ordered φ w) (hg : φ p = some g) {o : Op} {ch : Choice}
    (hallowed : g.allows o) :
    Outcome w p g (w.perform p o ch).1 (g.next o (w.perform p o ch).2) := by
  rcases ch with ⟨fault, gap⟩
  cases fault with
  | none =>
    cases o <;> exact outcome_exec h hg ⟨none, gap⟩ hallowed
  | some x =>
    cases o with
    | commit => exact .aborted
    | rollback => exact .aborted
    | insertEvent a seq globalSeq =>
      refine .kept rfl ?_ (fun _ _ hq => hq) (h.locked p g hg) (fun r n => h.read p g r n hg) rfl
        rfl
      show w.identity ≤ w.identity + gap
      omega
    | returned a => exact .same h hg
    | raised a => exact .same h hg
    | advisoryXactLock => exact .same h hg
    | lockRun r => exact .same h hg
    | maxSeq r => exact .same h hg
    | maxGlobalSeq => exact .same h hg
    | updateRun r => exact .same h hg

/-- What the phase of a session tells of the world. -/
structure Tells (w : World) (p : Pid) (g : Session) : Prop where
  locked : g.locked = true → w.locks .advisory = some p
  written : (w.log.own p).map RunEvent.asked = g.written
  read : ∀ r n, g.locked = true → g.read = some (r, n) → n = maxSeqOf r (w.log.visible p)

theorem Ordered.tells (h : Ordered φ w) (hg : φ p = some g) : Tells w p g :=
  ⟨h.locked p g hg, h.written p g hg, fun r n => h.read p g r n hg⟩

/-- **One session moves on**, and the phases still tell what is the case. -/
theorem Ordered.moves {φ' : Pid → Option Session} (hother : ∀ q, q ≠ p → φ' q = φ q)
    (committed : Sequenced w'.identity w'.log.committed)
    (visible : ∀ q, Sequenced w'.identity (w'.log.visible q))
    (guarded : ∀ q, w'.log.own q ≠ [] → w'.locks .advisory = some q)
    (idle : ∀ q, φ' q = none → w'.log.own q = [])
    (self : ∀ g', φ' p = some g' → Tells w' p g')
    (others : ∀ q g', q ≠ p → φ q = some g' → Tells w' q g') : Ordered φ' w' := by
  have htells : ∀ q g', φ' q = some g' → Tells w' q g' := by
    intro q g' hg'
    by_cases hq : q = p
    · subst hq
      exact self g' hg'
    · rw [hother q hq] at hg'
      exact others q g' hq hg'
  exact ⟨committed, visible, guarded, idle, fun q g' hg' => (htells q g' hg').locked,
    fun q g' hg' => (htells q g' hg').written, fun q g' r n hg' => (htells q g' hg').read r n⟩

/-- **A transaction is undone**, and its session goes on or ends. -/
theorem Ordered.aborts (h : Ordered φ w) {φ' : Pid → Option Session}
    (hother : ∀ q, q ≠ p → φ' q = φ q)
    (hself : ∀ g', φ' p = some g' → g'.locked = false ∧ g'.written = []) :
    Ordered φ' (w.abort p) := by
  have hvisible : ∀ {q}, q ≠ p → (w.log.rollback p).visible q = w.log.visible q := by
    intro q hq
    unfold Store.visible
    rw [Store.own_rollback_of_ne hq, Store.committed_rollback]
  refine .moves hother h.committed (fun q => ?_) (fun q hne => ?_) (fun q hnone => ?_)
    (fun g' hg' => ?_) fun q g' hq hg' => ?_
  · show Sequenced _ ((w.log.rollback p).visible q)
    by_cases hq : q = p
    · subst hq
      rw [Store.visible_of_own_nil Store.own_rollback_self]
      exact h.committed
    · rw [hvisible hq]
      exact h.visible q
  · have hne' : (w.log.rollback p).own q ≠ [] := hne
    have hq : q ≠ p := by
      rintro rfl
      exact hne' Store.own_rollback_self
    rw [Store.own_rollback_of_ne hq] at hne'
    exact (Locks.release_of_ne hq).2 (h.guarded q hne')
  · show (w.log.rollback p).own q = []
    by_cases hq : q = p
    · subst hq
      exact Store.own_rollback_self
    · rw [hother q hq] at hnone
      rw [Store.own_rollback_of_ne hq]
      exact h.idle q hnone
  · obtain ⟨hunlocked, hnothing⟩ := hself g' hg'
    refine ⟨fun hl => ?_, ?_, fun r n hl => ?_⟩
    · rw [hunlocked] at hl
      cases hl
    · show ((w.log.rollback p).own p).map _ = _
      rw [Store.own_rollback_self, hnothing]
      rfl
    · rw [hunlocked] at hl
      cases hl
  · have ht := h.tells hg'
    refine ⟨fun hl => (Locks.release_of_ne hq).2 (ht.locked hl), ?_, fun r n hl hr => ?_⟩
    · show ((w.log.rollback p).own q).map _ = _
      rw [Store.own_rollback_of_ne hq]
      exact ht.written
    · show n = maxSeqOf r ((w.log.rollback p).visible q)
      rw [hvisible hq]
      exact ht.read r n hl hr

/-- A session ends. -/
theorem Ordered.leaves (h : Ordered φ w) : Ordered (Function.update φ p none) (w.abort p) := by
  refine h.aborts (fun q hq => Function.update_of_ne hq _ _) fun g' hg' => ?_
  rw [Function.update_self] at hg'
  cases hg'

/-- A session begins. -/
theorem Ordered.begins (h : Ordered φ w) (hp : φ p = none) :
    Ordered (Function.update φ p (some {})) w := by
  refine .moves (fun q hq => Function.update_of_ne hq _ _) h.committed h.visible h.guarded
    (fun q hnone => ?_) (fun g' hg' => ?_) fun q g' _ hg' => h.tells hg'
  · have hq : q ≠ p := by
      rintro rfl
      rw [Function.update_self] at hnone
      cases hnone
    rw [Function.update_of_ne hq] at hnone
    exact h.idle q hnone
  · rw [Function.update_self] at hg'
    obtain rfl := Option.some.inj hg'
    refine ⟨nofun, ?_, nofun⟩
    rw [h.idle p hp]
    rfl

/-- One session that runs acts. -/
theorem Ordered.acting (committed : Sequenced w'.identity w'.log.committed)
    (visible : ∀ q, Sequenced w'.identity (w'.log.visible q))
    (guarded : ∀ q, w'.log.own q ≠ [] → w'.locks .advisory = some q)
    (idle : ∀ q, q ≠ p → φ q = none → w'.log.own q = []) (self : Tells w' p g')
    (others : ∀ q g₁, q ≠ p → φ q = some g₁ → Tells w' q g₁) :
    Ordered (Function.update φ p (some g')) w' := by
  refine .moves (fun q hq => Function.update_of_ne hq _ _) committed visible guarded
    (fun q hnone => ?_) (fun g₁ hg₁ => ?_) others
  · have hq : q ≠ p := by
      rintro rfl
      rw [Function.update_self] at hnone
      cases hnone
    rw [Function.update_of_ne hq] at hnone
    exact idle q hq hnone
  · rw [Function.update_self] at hg₁
    obtain rfl := Option.some.inj hg₁
    exact self

/-- A session acts and the log stays. -/
theorem Ordered.keeps (h : Ordered φ w) (hg : φ p = some g) (log : w'.log = w.log)
    (identity : w.identity ≤ w'.identity)
    (locks : ∀ k q, w.locks k = some q → w'.locks k = some q)
    (locked : g'.locked = true → w'.locks .advisory = some p)
    (read : ∀ r n, g'.locked = true → g'.read = some (r, n) → n = maxSeqOf r (w.log.visible p))
    (written : g'.written = g.written) : Ordered (Function.update φ p (some g')) w' := by
  have hown : ∀ q, w'.log.own q = w.log.own q := fun q => by rw [log]
  have hvisible : ∀ q, w'.log.visible q = w.log.visible q := fun q => by rw [log]
  refine .acting ?_ (fun q => ?_) (fun q hne => ?_) (fun q _ hnone => ?_) ⟨locked, ?_, ?_⟩
    fun q g₁ _ hg₁ => ⟨fun hl => ?_, ?_, fun r n hl hr => ?_⟩
  · rw [log]
    exact h.committed.mono identity
  · rw [hvisible]
    exact (h.visible q).mono identity
  · rw [hown] at hne
    exact locks _ _ (h.guarded q hne)
  · rw [hown]
    exact h.idle q hnone
  · rw [hown, written]
    exact h.written p g hg
  · rw [hvisible]
    exact read
  · exact locks _ _ (h.locked q g₁ hg₁ hl)
  · rw [hown]
    exact h.written q g₁ hg₁
  · rw [hvisible]
    exact h.read q g₁ r n hg₁ hl hr

/-- **The holder of the lock inserts an event.** -/
theorem Ordered.inserts (h : Ordered φ w) (hg : φ p = some g) (e : RunEvent)
    (holder : w.locks .advisory = some p)
    (seq : e.seq = maxSeqOf e.runId (w.log.visible p) + 1) (last : w.identity < e.globalSeq) :
    Ordered (Function.update φ p
      (some { g with read := none, written := g.written ++ [e.asked] }))
        { w with log := w.log.insert p e, identity := e.globalSeq } := by
  have hholder : ∀ {q}, w.locks .advisory = some q → q = p := by
    intro q hq
    rw [holder] at hq
    exact (Option.some.inj hq).symm
  -- the other sessions do not hold the lock, so they have written nothing
  have hother : ∀ {q}, q ≠ p → w.log.own q = [] := by
    intro q hq
    by_contra hne
    exact hq (hholder (h.guarded q hne))
  refine .acting (h.committed.mono last.le) (fun q => ?_) (fun q hne => ?_) (fun q hq _ => ?_)
    ⟨fun _ => holder, ?_, nofun⟩ fun q g₁ hq hg₁ => ⟨h.locked q g₁ hg₁, ?_, fun r n hl _ => ?_⟩
  · by_cases hq : q = p
    · subst hq
      show Sequenced _ ((w.log.insert q e).visible q)
      rw [Store.visible_insert_self]
      exact (h.visible q).append seq last
    · have hnil : (w.log.insert p e).own q = [] := by
        rw [Store.own_insert_of_ne hq]
        exact hother hq
      show Sequenced _ ((w.log.insert p e).visible q)
      rw [Store.visible_of_own_nil hnil]
      exact h.committed.mono last.le
  · by_cases hq : q = p
    · rw [hq]
      exact holder
    · have hne' : (w.log.insert p e).own q ≠ [] := hne
      rw [Store.own_insert_of_ne hq] at hne'
      exact absurd (hother hq) hne'
  · exact (Store.own_insert_of_ne hq).trans (hother hq)
  · show ((w.log.insert p e).own p).map _ = _
    rw [Store.own_insert_self, List.map_append, h.written p g hg]
    rfl
  · show ((w.log.insert p e).own q).map _ = _
    rw [Store.own_insert_of_ne hq]
    exact h.written q g₁ hg₁
  · exact absurd (hholder (h.locked q g₁ hg₁ hl)) hq

/-- **A session commits** and releases its locks. -/
theorem Ordered.commits (h : Ordered φ w) (added : List Append) :
    Ordered (Function.update φ p (some (.closed added)))
      { w with log := w.log.commit p, locks := w.locks.release p } := by
  -- if somebody else holds the lock, this session has written nothing
  have hvisible : ∀ {q}, q ≠ p → w.locks .advisory = some q →
      (w.log.commit p).visible q = w.log.visible q := by
    intro q hq hlock
    have hown : w.log.visible p = w.log.committed := by
      refine Store.visible_of_own_nil ?_
      by_contra hne
      have hguarded := h.guarded p hne
      rw [hlock] at hguarded
      exact hq (Option.some.inj hguarded)
    unfold Store.visible
    rw [Store.own_commit_of_ne hq, Store.committed_commit, hown]
  have hne : ∀ {q}, (w.log.commit p).own q ≠ [] → q ≠ p ∧ w.log.own q ≠ [] := by
    intro q hne
    have hq : q ≠ p := by
      rintro rfl
      exact hne Store.own_commit_self
    rw [Store.own_commit_of_ne hq] at hne
    exact ⟨hq, hne⟩
  refine .acting (h.visible p) (fun q => ?_) (fun q hown => ?_) (fun q hq hnone => ?_)
    ⟨nofun, ?_, nofun⟩ fun q g₁ hq hg₁ => ⟨fun hl => ?_, ?_, fun r n hl hr => ?_⟩
  · show Sequenced _ ((w.log.commit p).visible q)
    by_cases hnil : (w.log.commit p).own q = []
    · rw [Store.visible_of_own_nil hnil]
      exact h.visible p
    · obtain ⟨hq, hown⟩ := hne hnil
      rw [hvisible hq (h.guarded q hown)]
      exact h.visible q
  · obtain ⟨hq, hown⟩ := hne hown
    exact (Locks.release_of_ne hq).2 (h.guarded q hown)
  · exact (Store.own_commit_of_ne hq).trans (h.idle q hnone)
  · show ((w.log.commit p).own p).map _ = _
    rw [Store.own_commit_self]
    rfl
  · exact (Locks.release_of_ne hq).2 (h.locked q g₁ hg₁ hl)
  · show ((w.log.commit p).own q).map _ = _
    rw [Store.own_commit_of_ne hq]
    exact h.written q g₁ hg₁
  · show n = maxSeqOf r ((w.log.commit p).visible q)
    rw [hvisible hq (h.locked q g₁ hg₁ hl)]
    exact h.read q g₁ r n hg₁ hl hr

/-- **A session acts**: the invariant is kept. -/
theorem Ordered.acts (h : Ordered φ w) (hg : φ p = some g) (ho : Outcome w p g w' g') :
    Ordered (Function.update φ p (some g')) w' := by
  cases ho with
  | kept log identity locks locked read written added =>
    exact h.keeps hg log identity locks locked read written
  | inserted e holder seq last => exact h.inserts hg e holder seq last
  | committed => exact h.commits _
  | aborted =>
    refine h.aborts (fun q hq => Function.update_of_ne hq _ _) fun g₁ hg₁ => ?_
    rw [Function.update_self] at hg₁
    obtain rfl := Option.some.inj hg₁
    exact ⟨rfl, rfl⟩

/-- What an operation commits, the session knows. -/
theorem Outcome.grows (h : Ordered φ w) (hg : φ p = some g) (ho : Outcome w p g w' g') :
    ∃ new, w'.log.committed = w.log.committed ++ new ∧
      g'.added = g.added ++ new.map RunEvent.asked := by
  cases ho with
  | kept log identity locks locked read written added =>
    refine ⟨[], ?_, ?_⟩
    · rw [log, List.append_nil]
    · rw [added, List.map_nil, List.append_nil]
  | inserted e holder seq last => exact ⟨[], by simp, by simp⟩
  | committed =>
    refine ⟨w.log.own p, rfl, ?_⟩
    rw [h.written p g hg]
    rfl
  | aborted => exact ⟨[], by simp [World.abort], by simp [Session.closed]⟩

end step

/-! ## Runs -/

abbrev Log := eventLog .postgresql

/-- The events that the process `p` has committed since it was started. -/
def addedBy (h : List (Machine.Event Log)) (p : Pid) : List RunEvent :=
  (Machine.course h p).foldr
    (fun e added => added ++ e.after.log.committed.drop e.before.log.committed.length) []

section addedBy

variable {h : List (Machine.Event Log)} {e : Machine.Event Log} {p : Pid}

theorem addedBy_started {q : Req} {stays : Bool} (he : e.act = .started p q stays) :
    addedBy (e :: h) p = [] := by
  unfold addedBy
  rw [Machine.course_started he]
  rfl

theorem addedBy_did {o : Op} {r : Except LibError o.Ans} {stays : Bool}
    (he : e.act = .did p o r stays) : addedBy (e :: h) p =
      addedBy h p ++ e.after.log.committed.drop e.before.log.committed.length := by
  unfold addedBy
  rw [Machine.course_did he]
  rfl

theorem addedBy_other (he : e.act.pid? ≠ some p) : addedBy (e :: h) p = addedBy h p := by
  unfold addedBy
  rw [Machine.course_of_other he]

end addedBy

/-- A commit appends events, with larger global numbers than all there were. -/
def Appends (_ : List (Machine.Event Log)) (e : Machine.Event Log) : Prop :=
  ∃ new, e.after.log.committed = e.before.log.committed ++ new ∧
    ∀ x ∈ e.before.log.committed, ∀ y ∈ new, x.globalSeq < y.globalSeq

/-- `append_run_event_safe` has added the event it was called with when it returns, and none when it
raises. -/
def Answered (h : List (Machine.Event Log)) (e : Machine.Event Log) : Prop :=
  match e.act with
  | .did p (.returned a) _ _ => ∃ ev, addedBy h p = [ev] ∧ ev.asked = a
  | .did p (.raised _) _ _ => addedBy h p = []
  | _ => True

/-- The phases of the sessions. -/
abbrev sessions (h : List (Machine.Event Log)) : Pid → Option Session :=
  Machine.phase Discipline (fun _ => {}) h

/-- The invariant of a run. -/
structure Kept (h : List (Machine.Event Log)) (w : World) : Prop where
  ordered : Ordered (sessions h) w
  added : ∀ p g, sessions h p = some g → (addedBy h p).map RunEvent.asked = g.added

theorem Kept.initial {w : World} (hw : World.Initial w) : Kept [] w := by
  obtain ⟨hlog, hlocks⟩ := hw
  have hcommitted : w.log.committed = [] := by rw [hlog]
  have hown : ∀ p, w.log.own p = [] := fun p => by
    rw [hlog]
    rfl
  have hvisible : ∀ p, w.log.visible p = [] := fun p => by
    rw [Store.visible_of_own_nil (hown p), hcommitted]
  refine ⟨⟨?_, fun p => ?_, fun p hp => absurd (hown p) hp, fun p _ => hown p, ?_, ?_, ?_⟩, ?_⟩
  · rw [hcommitted]
    exact .nil
  · rw [hvisible]
    exact .nil
  · intro p g hg
    cases hg
  · intro p g hg
    cases hg
  · intro p g r n hg
    cases hg
  · intro p g hg
    cases hg

section run

variable {h : List (Machine.Event Log)} {w : World} {e : Machine.Event Log}

theorem Ordered.ticks {w' : World} (ho : Ordered (sessions h) w) (hlog : w'.log = w.log)
    (hidentity : w'.identity = w.identity) (hlocks : w'.locks = w.locks) :
    Ordered (sessions h) w' := by
  refine ⟨?_, ?_, ?_, ?_, ?_, ?_, ?_⟩
  · rw [hlog, hidentity]
    exact ho.committed
  · rw [hlog, hidentity]
    exact ho.visible
  · rw [hlog, hlocks]
    exact ho.guarded
  · rw [hlog]
    exact ho.idle
  · rw [hlocks]
    exact ho.locked
  · rw [hlog]
    exact ho.written
  · rw [hlog]
    exact ho.read

theorem Kept.ordered_step (hk : Kept h w) (hl : Machine.Legal Discipline (fun _ => {}) h w e) :
    Ordered (sessions (e :: h)) e.after := by
  cases hl with
  | @started p q stays idle =>
    have hphase : sessions (⟨w, .started p q stays, Log.settle w p stays⟩ :: h) =
        Function.update (sessions h) p (if stays then some {} else none) := Machine.phase_started
    rw [hphase]
    cases stays with
    | true => exact hk.ordered.begins idle
    | false => exact hk.ordered.leaves
  | @did p o g ch stays running allowed =>
    have hphase : sessions (⟨w, .did p o (w.perform p o ch).2 stays,
        Log.settle (w.perform p o ch).1 p stays⟩ :: h) = Function.update (sessions h) p
          (if stays then some (g.next o (w.perform p o ch).2) else none) :=
      Machine.phase_did running
    have ho : Outcome w p g (w.perform p o ch).1 (g.next o (w.perform p o ch).2) :=
      outcome_perform hk.ordered running allowed
    have hacts := hk.ordered.acts running ho
    refine hphase ▸ ?_
    cases stays with
    | true => exact hacts
    | false =>
      have hleaves := hacts.leaves (p := p)
      rw [Function.update_idem] at hleaves
      exact hleaves
  | @crashed p g running =>
    have hphase : sessions (⟨w, .crashed p, Log.leave w p⟩ :: h) =
        Function.update (sessions h) p none := Machine.phase_crashed
    rw [hphase]
    exact hk.ordered.leaves
  | ticked r => exact hk.ordered.ticks rfl rfl rfl

/-- **What a session has added**, it has committed. -/
theorem Kept.added_step (hk : Kept h w) (hl : Machine.Legal Discipline (fun _ => {}) h w e) {p : Pid}
    {g : Session} (hg : sessions (e :: h) p = some g) :
    (addedBy (e :: h) p).map RunEvent.asked = g.added := by
  cases hl.moved hg with
  | kept running other =>
    rw [addedBy_other other]
    exact hk.added p g running
  | started q act phase =>
    rw [addedBy_started act, phase]
    rfl
  | did act running allowed phase =>
    rw [addedBy_did act, List.map_append, hk.added p _ running, phase]
    cases hl with
    | did ch stays running' allowed' =>
      cases act
      have ho : Outcome w p _ (w.perform p _ ch).1 (Session.next _ _ (w.perform p _ ch).2) :=
        outcome_perform hk.ordered running allowed
      obtain ⟨new, hnew, hadded⟩ := ho.grows hk.ordered running
      refine Eq.trans ?_ hadded.symm
      show _ ++ List.map _ ((w.perform p _ ch).1.log.committed.drop w.log.committed.length) = _
      rw [hnew, List.drop_left]
    | started q stays idle => cases act
    | crashed running' => cases act
    | ticked r => cases act

theorem Kept.step (hk : Kept h w) (hl : Machine.Legal Discipline (fun _ => {}) h w e) :
    Kept (e :: h) e.after :=
  ⟨hk.ordered_step hl, fun _ _ hg => hk.added_step hl hg⟩

theorem Kept.appends (hk : Kept h w) (hl : Machine.Legal Discipline (fun _ => {}) h w e) :
    Appends h e := by
  have hnext := (hk.step hl).ordered.committed.increasing
  have hgrows : ∃ new, e.after.log.committed = e.before.log.committed ++ new := by
    cases hl with
    | started q stays idle => cases stays <;> exact ⟨[], (List.append_nil _).symm⟩
    | @did p o g ch stays running allowed =>
      have ho : Outcome w p g (w.perform p o ch).1 (g.next o (w.perform p o ch).2) :=
        outcome_perform hk.ordered running allowed
      obtain ⟨new, hnew, -⟩ := ho.grows hk.ordered running
      cases stays <;> exact ⟨new, hnew⟩
    | crashed running => exact ⟨[], (List.append_nil _).symm⟩
    | ticked r => exact ⟨[], (List.append_nil _).symm⟩
  obtain ⟨new, hnew⟩ := hgrows
  rw [hnew] at hnext
  exact ⟨new, hnew, fun x hx y hy => (List.pairwise_append.1 hnext).2.2 x hx y hy⟩

theorem Kept.answered (hk : Kept h w) (hl : Machine.Legal Discipline (fun _ => {}) h w e) :
    Answered h e := by
  cases hl with
  | @did p o g ch stays running allowed =>
    have hadded := hk.added p g running
    cases o with
    | returned a =>
      have hone : (addedBy h p).map RunEvent.asked = [a] := hadded.trans allowed
      obtain ⟨ev, hev, hasked⟩ := List.map_eq_singleton_iff.1 hone
      exact ⟨ev, hev, hasked⟩
    | raised a =>
      have hnone : (addedBy h p).map RunEvent.asked = [] := hadded.trans allowed
      exact List.map_eq_nil_iff.1 hnone
    | _ => trivial
  | _ => trivial

/-- **Event log integrity.**  In every reachable state the committed events of each run are numbered
from 0 on in the order of their commits, and the global numbers increase in that order; a commit
only appends; and `append_run_event_safe` adds its event exactly if it returns. -/
theorem event_log_integrity {c : Machine.Config Log}
    (hc : Machine.Reaches Log World.Initial Machine.anyEvent c) :
    (∀ r, (c.world.log.committed.filter (·.runId = r)).map (·.seq) =
      (List.range (c.world.log.committed.countP (·.runId = r))).map Nat.cast) ∧
    c.world.log.committed.Pairwise (fun e e' => e.globalSeq < e'.globalSeq) ∧
    Historically Appends c.hist ∧ Historically Answered c.hist := by
  have hkept := hc.induct program_keeps (P := Kept) (fun w hw => .initial hw)
    fun h w e hk hl _ => hk.step hl
  have hpast := hc.historically program_keeps (P := Kept)
    (G := fun h e => Appends h e ∧ Answered h e) (fun w hw => .initial hw)
    fun h w e hk hl _ => ⟨hk.step hl, hk.appends hl, hk.answered hl⟩
  exact ⟨hkept.ordered.committed.numbered, hkept.ordered.committed.increasing,
    hpast.mono fun _ _ hboth => hboth.1, hpast.mono fun _ _ hboth => hboth.2⟩

/-- A transaction over two runs, and an append that waits for it. -/
theorem event_log_integrity_two_runs : ∃ c : Machine.Config Log,
    (c.world.log.committed.map fun e => (e.runId, e.seq, e.globalSeq)) =
      [(0, 0, 1), (1, 0, 2), (0, 1, 3)] ∧ Historically Answered c.hist := by
  have hrun : (((Machine.Config.initial (World.empty [0, 1]) : Machine.Config Log).run
      Machine.anyEvent ([.start 1 (.transaction [.append ⟨0, "STUCK_RECOVERED", []⟩ false,
        .append ⟨1, "DLQ", []⟩ false] true), .start 2 (.safe ⟨0, "FATAL", []⟩)] ++
        List.replicate 9 (.perform 1 {}) ++ List.replicate 6 (.perform 2 {}))).map fun c =>
          c.world.log.committed.map fun e => (e.runId, e.seq, e.globalSeq)) =
      some [(0, 0, 1), (1, 0, 2), (0, 1, 3)] := by
    rfl
  obtain ⟨c, hc, hsee⟩ := Option.map_eq_some_iff.1 hrun
  have hreach := (Machine.Reaches.init (World.empty_initial [0, 1])).run hc
  exact ⟨c, hsee, (event_log_integrity hreach).2.2.2⟩

end run

end Observatory.EventLog
