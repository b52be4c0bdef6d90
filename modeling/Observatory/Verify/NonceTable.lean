import Observatory.Model.NonceTable
import Observatory.Verify.Nonces

/-!
# Nonces in the database

A transaction writes a row only under its lock, and only a nonce that exceeds the last one it has
read since it got the lock (`program_keeps`).  So the versions of a row increase, in the order of
the commits (`Effect.Store.Chained`), and with them the nonces of the calls that were committed
(`committed_nonces_increase`).  A row that does not exist cannot be locked; the unique constraint
takes the part of the lock, and of the transactions that insert it one at most commits.
-/

namespace Observatory.NonceTable

open Effect
open Technocore (ProcessId lt_next_iff)

/-! ## The protocol of a transaction -/

/-- How far a call has come. -/
inductive Stage where
  | idle
  | selected (key : Key) (row : Option Int)
  | drawn (key : Key) (row : Option Int) (candidate : Int)
  | written (row : TechnocoreNonce)
  /-- the transaction has ended -/
  | closed

/-- The row that has been read, and is under the lock if there is one. -/
def Stage.row : Stage → Option (Key × Option Int)
  | selected key row => some (key, row)
  | drawn key row _ => some (key, row)
  | _ => none

/-- What a transaction has done: the calls that have returned, and the rows it has inserted. -/
structure Session where
  stage : Stage := .idle
  done : List TechnocoreNonce := []
  inserted : List Key := []

namespace Session

variable (g : Session)

/-- The versions it has written. -/
def rows : List TechnocoreNonce :=
  match g.stage with
  | .written row => g.done ++ [row]
  | _ => g.done

def move (stage : Stage) : Session := { g with stage }

def allows : Op → Prop
  | .selectForUpdate _ => g.stage = .idle
  | .nextNonce _ => ∃ key row, g.stage = .selected key row
  | .insertRow row => g.stage = .drawn row.key none row.lastNonce
  | .updateRow row => ∃ last candidate, g.stage = .drawn row.key (some last) candidate ∧
      row.lastNonce = nonceAfter candidate last
  | .returned row => g.stage = .written row
  | .commit => g.stage = .idle
  | .rollback => True

def next : (o : Op) → Except LibError o.Ans → Session
  | .selectForUpdate key, .ok row => g.move (.selected key row)
  | .nextNonce _, .ok candidate =>
    match g.stage with
    | .selected key row => g.move (.drawn key row candidate)
    | _ => g.move .idle
  | .insertRow row, .ok _ => { g with stage := .written row, inserted := row.key :: g.inserted }
  | .updateRow row, .ok _ => g.move (.written row)
  | .returned row, _ => { g with stage := .idle, done := g.done ++ [row] }
  | .commit, _ => { stage := .closed }
  | .rollback, _ => { stage := .closed }
  | _, .error _ => g.move .idle

end Session

def Discipline : Protocol Sys Session where
  allows := Session.allows
  next := Session.next

section programs

variable {g : Session} {proc : ProcessId} {key : Key}

theorem wp_perform {o : Op} {Q : Except LibError o.Ans → Session → Prop} :
    (perform o).wp Discipline Q g ↔
      g.allows o ∧ (∀ x, Q (.ok x) (g.next o (.ok x))) ∧
        ∀ x, Q (.error x) (g.next o (.error x)) := Prog.wp_call

/-- **A call** locks, draws and writes. -/
theorem nextNonceDb_keeps (hg : g.stage = .idle) :
    (nextNonceDb proc key).wp Discipline (Prog.Ends (fun n g' => g'.stage = .written ⟨key, n⟩)
      fun g' => g'.stage = .idle) g := by
  unfold nextNonceDb
  simp only [Prog.bind_eq]
  split
  · exact hg
  · refine Prog.Ends.call hg (fun row => ?_) fun _ => rfl
    refine Prog.Ends.call ⟨key, row, rfl⟩ (fun (candidate : Int) => ?_) fun _ => rfl
    cases row with
    | none => exact Prog.Ends.call rfl (fun _ => rfl) fun _ => rfl
    | some last => exact Prog.Ends.call ⟨last, candidate, rfl, rfl⟩ (fun _ => rfl) fun _ => rfl

theorem runCalls_keeps {calls : List Call} (hg : g.stage = .idle) :
    (runCalls proc calls).wp Discipline (fun _ g' => g'.stage = .idle) g := by
  induction calls generalizing g with
  | nil => exact hg
  | cons call rest ih =>
    unfold runCalls
    simp only [Prog.bind_eq, Prog.wp_bind, Prog.wp_attempt]
    refine Prog.wp_mono ?_ (nextNonceDb_keeps hg)
    rintro (x | n) g' hstage
    · simp only [Prog.bindPost_ok]
      split
      · exact ih hstage
      · exact hstage
    · simp only [Prog.bindPost_ok, Prog.wp_bind]
      exact wp_perform.2 ⟨hstage, fun _ => ih rfl, fun _ => rfl⟩

/-- **Every transaction keeps to the protocol.** -/
theorem program_keeps (q : Transaction) :
    q.program.wp Discipline (fun _ _ => True) {} := by
  unfold Transaction.program
  simp only [Prog.bind_eq, Prog.wp_bind, Prog.wp_attempt]
  refine Prog.wp_mono ?_ (runCalls_keeps rfl)
  rintro (x | _) g' hstage
  · simp only [Prog.bindPost_ok, Prog.wp_bind]
    exact wp_perform.2 ⟨trivial, fun _ => trivial, fun _ => trivial⟩
  · simp only [Prog.bindPost_ok]
    split
    · exact wp_perform.2 ⟨hstage, fun _ => trivial, fun _ => trivial⟩
    · exact wp_perform.2 ⟨trivial, fun _ => trivial, fun _ => trivial⟩

end programs

/-! ## What an operation does to the table -/

/-- Newer versions are greater. -/
def Older (row row' : TechnocoreNonce) : Prop := row.lastNonce < row'.lastNonce

/-- The table and the locks under the transactions. -/
structure Ordered (w : World) : Prop where
  chained : Store.Chained Older (·.key) w.table w.locks
  /-- a row that is locked is there -/
  held : ∀ p key, w.locks key = some p → w.table.seen (·.key) p key ≠ []

/-- What an operation of `p` makes of table and locks. -/
inductive Change (p : Pid) (w w' : World) : Prop where
  | same (table : w'.table = w.table) (locks : w'.locks = w.locks)
  | locked (key : Key) (free : w.locks.free p key = true)
      (there : w.table.seen (·.key) p key ≠ []) (table : w'.table = w.table)
      (locks : w'.locks = w.locks.acquire p key)
  | wrote (row : TechnocoreNonce) (free : w.locks.free p row.key = true)
      (newest : ∀ old ∈ w.table.seen (·.key) p row.key, Older old row)
      (table : w'.table = w.table.insert p row) (locks : w'.locks = w.locks.acquire p row.key)
  | committed (table : w'.table = w.table.commit p) (locks : w'.locks = w.locks.release p)
  | aborted (table : w'.table = w.table.rollback p) (locks : w'.locks = w.locks.release p)

/-- What a transaction knows of the table; `none` is one that is not running. -/
structure Sound (w : World) (p : Pid) (s : Option Session) : Prop where
  own : w.table.own p = s.elim [] Session.rows
  read : ∀ g ∈ s, ∀ key last, g.stage.row = some (key, some last) →
    w.locks key = some p ∧ w.lastNonce p key = some last
  inserted : ∀ g ∈ s, ∀ key ∈ g.inserted, w.locks key = some p ∧ w.table.rows (·.key) key = []

section change

variable {w w' : World} {p q : Pid} {s : Option Session} {key : Key}

theorem held_of_release (h : w.locks.release p key = some q) : q ≠ p ∧ w.locks key = some q := by
  unfold Locks.release at h
  split at h
  · cases h
  · next hne =>
    refine ⟨?_, h⟩
    rintro rfl
    exact hne h

/-- **Table and locks stay in order.** -/
theorem Ordered.change (h : Ordered w) (hc : Change p w w') : Ordered w' := by
  obtain ⟨hchained, hheld⟩ := h
  cases hc with
  | same table locks =>
    refine ⟨?_, fun q key hl => ?_⟩
    · rw [table, locks]
      exact hchained
    · rw [table]
      rw [locks] at hl
      exact hheld q key hl
  | locked key free there table locks =>
    refine ⟨?_, fun q key' hl => ?_⟩
    · rw [table, locks]
      exact hchained.acquire free
    · rw [table]
      rw [locks] at hl
      by_cases hk : key' = key
      · subst hk
        rw [Locks.acquire_self] at hl
        cases hl
        exact there
      · rw [Locks.acquire_other hk] at hl
        exact hheld q key' hl
  | wrote row free newest table locks =>
    refine ⟨?_, fun q key' hl => ?_⟩
    · rw [table, locks]
      exact (hchained.acquire free).insert Locks.acquire_self newest
    · rw [table]
      rw [locks] at hl
      by_cases hk : key' = row.key
      · subst hk
        rw [Locks.acquire_self] at hl
        cases hl
        rw [Store.seen_insert_self, if_pos rfl]
        exact List.append_ne_nil_of_right_ne_nil _ (List.cons_ne_nil _ _)
      · rw [Locks.acquire_other hk] at hl
        by_cases hq : q = p
        · subst hq
          rw [Store.seen_insert_self, if_neg (Ne.symm hk), List.append_nil]
          exact hheld q key' hl
        · rw [Store.seen_insert_of_ne hq]
          exact hheld q key' hl
  | committed table locks =>
    refine ⟨?_, fun q key hl => ?_⟩
    · rw [table, locks]
      exact hchained.commit
    · rw [locks] at hl
      obtain ⟨-, hl⟩ := held_of_release hl
      rw [table, hchained.guarded.seen_commit_holder hl]
      exact hheld q key hl
  | aborted table locks =>
    refine ⟨?_, fun q key hl => ?_⟩
    · rw [table, locks]
      exact hchained.rollback
    · rw [locks] at hl
      obtain ⟨hq, hl⟩ := held_of_release hl
      rw [table, Store.seen_rollback_of_ne hq]
      exact hheld q key hl

/-- **The other transactions** do not notice. -/
theorem Sound.frame (hs : Sound w q s) (h : Ordered w) (hc : Change p w w') (hq : q ≠ p) :
    Sound w' q s := by
  -- what they hold and what they see of it
  have hkeeps : w'.table.own q = w.table.own q ∧ ∀ key, w.locks key = some q →
      w'.locks key = some q ∧ w'.table.seen (·.key) q key = w.table.seen (·.key) q key ∧
        w'.table.rows (·.key) key = w.table.rows (·.key) key := by
    have hother : ∀ {key}, w.locks key = some q → w.locks key ≠ some p := fun hl heq =>
      hq (Option.some.inj (hl.symm.trans heq))
    have hacquire : ∀ {key key'}, w.locks.free p key = true → w.locks key' = some q →
        w.locks.acquire p key key' = some q := by
      intro key key' free hl
      have hk : key' ≠ key := by
        rintro rfl
        exact hq (Locks.free_iff.1 free q hl)
      rw [Locks.acquire_other hk]
      exact hl
    cases hc with
    | same table locks =>
      rw [table, locks]
      exact ⟨rfl, fun key hl => ⟨hl, rfl, rfl⟩⟩
    | locked key free there table locks =>
      rw [table, locks]
      exact ⟨rfl, fun key' hl => ⟨hacquire free hl, rfl, rfl⟩⟩
    | wrote row free newest table locks =>
      rw [table, locks]
      exact ⟨Store.own_insert_of_ne hq, fun key' hl =>
        ⟨hacquire free hl, Store.seen_insert_of_ne hq, Store.rows_insert⟩⟩
    | committed table locks =>
      rw [table, locks]
      refine ⟨Store.own_commit_of_ne hq, fun key hl => ⟨(Locks.release_of_ne hq).2 hl, ?_, ?_⟩⟩
      · exact h.chained.guarded.seen_commit_holder hl
      · rw [Store.rows_commit]
        exact h.chained.guarded.seen_eq_rows (hother hl)
    | aborted table locks =>
      rw [table, locks]
      exact ⟨Store.own_rollback_of_ne hq, fun key hl => ⟨(Locks.release_of_ne hq).2 hl,
        Store.seen_rollback_of_ne hq, Store.rows_rollback⟩⟩
  obtain ⟨hown, hkept⟩ := hkeeps
  refine ⟨hown.trans hs.own, fun g hg key last hrow => ?_, fun g hg key hkey => ?_⟩
  · obtain ⟨hl, hlast⟩ := hs.read g hg key last hrow
    obtain ⟨hl', hseen, -⟩ := hkept key hl
    refine ⟨hl', ?_⟩
    rw [World.lastNonce, hseen]
    exact hlast
  · obtain ⟨hl, hnone⟩ := hs.inserted g hg key hkey
    obtain ⟨hl', -, hrows⟩ := hkept key hl
    exact ⟨hl', hrows.trans hnone⟩

end change

/-! ## What an operation tells the transaction -/

section acts

variable {w w' : World} {p : Pid} {g g' : Session} {row : TechnocoreNonce} {key : Key} {last : Int}

/-- Nothing is written, and nothing new is read. -/
theorem Sound.still (hs : Sound w p (some g)) (table : w'.table = w.table)
    (locks : w'.locks = w.locks) (hrows : g'.rows = g.rows) (hinserted : g'.inserted = g.inserted)
    (hread : ∀ key last, g'.stage.row = some (key, some last) →
      g.stage.row = some (key, some last)) : Sound w' p (some g') := by
  refine ⟨?_, fun g₁ hg₁ key last hrow => ?_, fun g₁ hg₁ key hkey => ?_⟩
  · rw [table]
    exact hs.own.trans hrows.symm
  · cases hg₁
    rw [World.lastNonce, table, locks]
    exact hs.read g rfl key last (hread key last hrow)
  · cases hg₁
    rw [table, locks]
    exact hs.inserted g rfl key (hinserted ▸ hkey)

/-- **The last nonce** is the greatest one. -/
theorem Ordered.le_last (h : Ordered w) (hlast : w.lastNonce p key = some last) :
    ∀ old ∈ w.table.seen (·.key) p key, old.lastNonce ≤ last := by
  intro old hold
  obtain ⟨newest, hnewest, rfl⟩ := Option.map_eq_some_iff.1 hlast
  have hsplit := List.dropLast_append_getLast? _ hnewest
  have hsorted := h.chained.seen p key
  rw [← hsplit] at hold hsorted
  rcases List.mem_append.1 hold with hold | hold
  · have hlt : old.lastNonce < newest.lastNonce :=
      (List.pairwise_append.1 hsorted).2.2 old hold newest (List.mem_singleton_self _)
    exact hlt.le
  · rw [List.mem_singleton.1 hold]

theorem lt_nonceAfter (candidate last : Int) : last < nonceAfter candidate last := by
  unfold nonceAfter
  split <;> omega

/-- **A transaction writes** what it has drawn. -/
theorem Sound.wrote (hs : Sound w p (some g)) (hrows : g.rows = g.done)
    (hinserted : ∀ key ∈ g'.inserted, key ∈ g.inserted ∨
      key = row.key ∧ w.table.rows (·.key) key = [])
    (hwritten : g'.stage = .written row ∧ g'.done = g.done) :
    Sound (w.write p row) p (some g') := by
  refine ⟨?_, fun g₁ hg₁ key last hrow => ?_, fun g₁ hg₁ key hkey => ?_⟩
  · have hown : w.table.own p = g.done := hs.own.trans hrows
    have hnew : g'.rows = g.done ++ [row] := by
      rw [Session.rows, hwritten.1, hwritten.2]
    exact (Store.own_insert_self.trans (congrArg (· ++ [row]) hown)).trans hnew.symm
  · cases hg₁
    rw [hwritten.1] at hrow
    cases hrow
  · cases hg₁
    show w.locks.acquire p row.key key = some p ∧ w.table.rows (·.key) key = []
    rcases hinserted key hkey with hkey | ⟨rfl, hnone⟩
    · obtain ⟨hl, hnone⟩ := hs.inserted g rfl key hkey
      refine ⟨?_, hnone⟩
      by_cases hk : key = row.key
      · rw [hk]
        exact Locks.acquire_self
      · rw [Locks.acquire_other hk]
        exact hl
    · exact ⟨Locks.acquire_self, hnone⟩

theorem Sound.closed (hown : w.table.own p = []) : Sound w p (some { stage := .closed }) := by
  refine ⟨hown, fun g hg key last hrow => ?_, fun g hg key hkey => ?_⟩
  · cases hg
    cases hrow
  · cases hg
    cases hkey

/-- An operation of `p` that comes out as `r`. -/
def Acts (w : World) (p : Pid) (g : Session) (o : Op) (r : World × Except LibError o.Ans) : Prop :=
  Change p w r.1 ∧ Sound r.1 p (some (g.next o r.2))

theorem acts_select (hs : Sound w p (some g)) (hidle : g.stage = .idle) :
    Acts w p g (.selectForUpdate key) (w.exec p (.selectForUpdate key)) := by
  have hrows : ∀ stage, (g.move (.selected key stage)).rows = g.rows := by
    intro stage
    simp only [Session.rows, Session.move, hidle]
  cases hlast : w.lastNonce p key with
  | none =>
    simp only [World.exec, hlast]
    refine ⟨.same rfl rfl, hs.still rfl rfl (hrows none) rfl fun key last hrow => ?_⟩
    cases hrow
  | some last =>
    by_cases hfree : w.locks.free p key = true
    · have hexec : w.exec p (.selectForUpdate key) =
          ({ w with locks := w.locks.acquire p key }, .ok (some last)) := by
        simp only [World.exec, hlast, hfree, if_true]
      rw [hexec]
      have hthere : w.table.seen (·.key) p key ≠ [] := by
        intro hnil
        rw [World.lastNonce, hnil] at hlast
        cases hlast
      refine ⟨.locked key hfree hthere rfl rfl, ?_, fun g₁ hg₁ key' last' hrow => ?_,
        fun g₁ hg₁ key' hkey => ?_⟩
      · exact hs.own.trans (hrows (some last)).symm
      · cases hg₁
        cases hrow
        exact ⟨Locks.acquire_self, hlast⟩
      · cases hg₁
        obtain ⟨hl, hnone⟩ := hs.inserted g rfl key' hkey
        refine ⟨?_, hnone⟩
        show w.locks.acquire p key key' = some p
        by_cases hk : key' = key
        · rw [hk]
          exact Locks.acquire_self
        · rw [Locks.acquire_other hk]
          exact hl
    · have hexec : w.exec p (.selectForUpdate key) = (w, .error lockNotAvailable) := by
        simp only [World.exec, hlast]
        exact if_neg hfree
      rw [hexec]
      refine ⟨.same rfl rfl, hs.still rfl rfl ?_ rfl fun key last hrow => ?_⟩
      · simp only [Session.rows, Session.move, Session.next, hidle]
      · cases hrow

theorem acts_insert (h : Ordered w) (hs : Sound w p (some g))
    (hdrawn : g.stage = .drawn row.key none row.lastNonce) :
    Acts w p g (.insertRow row) (w.exec p (.insertRow row)) := by
  have hrows : g.rows = g.done := by rw [Session.rows, hdrawn]
  cases hblocked : w.table.blocked clash row with
  | true =>
    have hexec : w.exec p (.insertRow row) = (w, .error integrityError) := if_pos hblocked
    rw [hexec]
    refine ⟨.same rfl rfl, hs.still rfl rfl hrows.symm rfl fun key last hrow => ?_⟩
    cases hrow
  | false =>
    have hexec : w.exec p (.insertRow row) = (w.write p row, .ok ()) :=
      if_neg (by rw [hblocked]; exact Bool.false_ne_true)
    -- no version of the row is there, committed or not
    have hseen : ∀ q, w.table.seen (·.key) q row.key = [] := by
      intro q
      refine List.eq_nil_iff_forall_not_mem.2 fun old hold => ?_
      obtain ⟨hall, hkey⟩ := Store.mem_all_of_seen hold
      have hclash := Store.blocked_eq_false.1 hblocked old hall
      exact absurd hkey.symm (of_decide_eq_false hclash)
    have hfree : w.locks.free p row.key = true := by
      refine Locks.free_iff.2 fun q hl => ?_
      exact absurd (hseen q) (h.held q row.key hl)
    rw [hexec]
    refine ⟨.wrote row hfree ?_ rfl rfl, hs.wrote hrows (fun key hkey => ?_) ⟨rfl, rfl⟩⟩
    · rw [hseen p]
      exact fun old hold => absurd hold List.not_mem_nil
    · rcases List.mem_cons.1 hkey with rfl | hkey
      · refine .inr ⟨rfl, ?_⟩
        have hsub : (w.table.rows (·.key) row.key).Sublist (w.table.seen (·.key) p row.key) :=
          Store.rows_sublist_seen
        rw [hseen p] at hsub
        exact List.sublist_nil.1 hsub
      · exact .inl hkey

theorem acts_update (h : Ordered w) (hs : Sound w p (some g))
    (hallowed : g.allows (.updateRow row)) :
    Acts w p g (.updateRow row) (w.exec p (.updateRow row)) := by
  obtain ⟨last, candidate, hdrawn, hnonce⟩ := hallowed
  have hrows : g.rows = g.done := by rw [Session.rows, hdrawn]
  obtain ⟨hl, hlast⟩ := hs.read g rfl row.key last (by rw [hdrawn]; rfl)
  have hfree : w.locks.free p row.key = true := by
    refine Locks.free_iff.2 fun q hq => ?_
    exact Option.some.inj (hq.symm.trans hl)
  have hexec : w.exec p (.updateRow row) = (w.write p row, .ok ()) := if_pos hfree
  rw [hexec]
  refine ⟨.wrote row hfree (fun old hold => ?_) rfl rfl,
    hs.wrote hrows (fun key hkey => .inl hkey) ⟨rfl, rfl⟩⟩
  show old.lastNonce < row.lastNonce
  rw [hnonce]
  exact (h.le_last hlast old hold).trans_lt (lt_nonceAfter candidate last)

/-- A transaction ends, with a commit or without. -/
theorem acts_end {o : Op} {r : Except LibError o.Ans}
    (hc : w' = { w with table := w.table.commit p, locks := w.locks.release p } ∨ w' = w.abort p)
    (hnext : g.next o r = { stage := .closed }) : Acts w p g o (w', r) := by
  unfold Acts
  rw [hnext]
  rcases hc with rfl | rfl
  · exact ⟨.committed rfl rfl, .closed Store.own_commit_self⟩
  · exact ⟨.aborted rfl rfl, .closed Store.own_rollback_self⟩

theorem acts_draw {proc : ProcessId} (hs : Sound w p (some g))
    (hselected : ∃ key row, g.stage = .selected key row) :
    Acts w p g (.nextNonce proc) (w.exec p (.nextNonce proc)) := by
  obtain ⟨key, row, hselected⟩ := hselected
  have hrows : g.rows = g.done := by rw [Session.rows, hselected]
  unfold Acts
  simp only [World.exec, Session.next, hselected]
  refine ⟨.same rfl rfl, hs.still rfl rfl hrows.symm rfl fun key' last hrow => ?_⟩
  rw [hselected]
  exact hrow

/-- A statement that fails. -/
theorem acts_failed {o : Op} {x : LibError} (hs : Sound w p (some g)) (hrows : g.rows = g.done)
    (hnext : g.next o (.error x) = g.move .idle) : Acts w p g o (w, .error x) := by
  refine ⟨.same rfl rfl, ?_⟩
  simp only [hnext]
  refine hs.still rfl rfl hrows.symm rfl fun key last hrow => ?_
  cases hrow

/-- **Every operation** of a transaction, disturbed or not. -/
theorem acts (h : Ordered w) (hs : Sound w p (some g)) {o : Op} (hallowed : g.allows o)
    (ch : Choice) : Acts w p g o (w.perform p o ch) := by
  rcases ch with ⟨fault⟩
  cases o with
  | selectForUpdate key =>
    have hidle : g.stage = .idle := hallowed
    cases fault with
    | none => exact acts_select hs hidle
    | some x => exact acts_failed hs (by rw [Session.rows, hidle]) rfl
  | nextNonce proc => cases fault <;> exact acts_draw hs hallowed
  | insertRow row =>
    have hdrawn : g.stage = .drawn row.key none row.lastNonce := hallowed
    cases fault with
    | none => exact acts_insert h hs hdrawn
    | some x => exact acts_failed hs (by rw [Session.rows, hdrawn]) rfl
  | updateRow row =>
    cases fault with
    | none => exact acts_update h hs hallowed
    | some x =>
      obtain ⟨last, candidate, hdrawn, -⟩ := hallowed
      exact acts_failed hs (by rw [Session.rows, hdrawn]) rfl
  | commit =>
    cases fault with
    | none => exact acts_end (.inl rfl) rfl
    | some x => exact acts_end (.inr rfl) rfl
  | rollback => cases fault <;> exact acts_end (.inr rfl) rfl
  | returned row =>
    have hwritten : g.stage = .written row := hallowed
    have hrows : g.rows = g.done ++ [row] := by rw [Session.rows, hwritten]
    cases fault <;>
      exact ⟨.same rfl rfl, hs.still rfl rfl hrows.symm rfl fun key last hrow => by cases hrow⟩

end acts

/-! ## Runs -/

abbrev Event := Machine.Event nonceTable

/-- A call returns a nonce. -/
def returnedRow : nonceTable.Act → Option TechnocoreNonce
  | .did _ (.returned row) _ _ => some row
  | _ => none

/-- A row is inserted. -/
def insertedKey : nonceTable.Act → Option Key
  | .did _ (.insertRow row) (.ok _) _ => some row.key
  | _ => none

/-- A transaction is committed. -/
def commits : nonceTable.Act → Option Pid
  | .did p .commit (.ok _) _ => some p
  | _ => none

/-- What the calls have returned, in the order of the calls. -/
def returns (es : List Event) : List TechnocoreNonce := es.reverse.filterMap (returnedRow ·.act)

def returnedBy (h : List Event) (p : Pid) : List TechnocoreNonce := returns (Machine.course h p)

/-- The transaction has inserted the row of the key. -/
def InsertedBy (h : List Event) (p : Pid) (key : Key) : Prop :=
  ∃ e ∈ Machine.course h p, insertedKey e.act = some key

instance (h : List Event) (p : Pid) (key : Key) : Decidable (InsertedBy h p key) :=
  inferInstanceAs (Decidable (∃ e ∈ _, _))

/-- The nonces that committed calls have returned for the key, in the order of the commits. -/
def committedNonces (key : Key) : List Event → List Int
  | [] => []
  | e :: h => committedNonces key h ++
    match commits e.act with
    | some p => ((returnedBy h p).filter (·.key = key)).map (·.lastNonce)
    | none => []

/-- How many committed transactions have inserted the row of the key. -/
def committedInserts (key : Key) : List Event → Nat
  | [] => 0
  | e :: h => committedInserts key h +
    match commits e.act with
    | some p => if InsertedBy h p key then 1 else 0
    | none => 0

/-- The sessions as the history tells them. -/
abbrev sessions (h : List Event) : Pid → Option Session :=
  Machine.phase Discipline (fun _ => {}) h

/-- A transaction that has not ended knows its course. -/
structure Knows (g : Session) (es : List Event) : Prop where
  done : g.stage ≠ .closed → g.done = returns es
  inserted : g.stage ≠ .closed → ∀ key, key ∈ g.inserted ↔ ∃ e ∈ es, insertedKey e.act = some key

section knows

variable {g : Session} {es : List Event} {e : Event} {p : Pid}

theorem returns_cons : returns (e :: es) = returns es ++ (returnedRow e.act).toList := by
  simp only [returns, List.reverse_cons, List.filterMap_append, List.filterMap_cons,
    List.filterMap_nil]
  cases returnedRow e.act with
  | none => rfl
  | some row => rfl

theorem Knows.did (hk : Knows g es) {o : Op} {r : Except LibError o.Ans} {stays : Bool}
    (he : e.act = .did p o r stays) (hallowed : g.allows o) : Knows (g.next o r) (e :: es) := by
  have hadds : ∀ {g' : Session}, g.stage ≠ .closed →
      g'.done = g.done ++ (returnedRow e.act).toList →
      g'.inserted = (insertedKey e.act).toList ++ g.inserted → Knows g' (e :: es) := by
    intro g' hopen hdone hinserted
    refine ⟨fun _ => ?_, fun _ key => ?_⟩
    · rw [hdone, hk.done hopen, returns_cons]
    · rw [hinserted, List.mem_append, hk.inserted hopen, List.exists_mem_cons_iff,
        Option.mem_toList]
  have hclosed : ∀ {g' : Session}, g'.stage = .closed → Knows g' (e :: es) := fun hg' =>
    ⟨fun hopen => absurd hg' hopen, fun hopen => absurd hg' hopen⟩
  cases o with
  | selectForUpdate key =>
    have hidle : g.stage = .idle := hallowed
    have hopen : g.stage ≠ .closed := by rw [hidle]; exact Stage.noConfusion
    cases r <;> exact hadds hopen (by rw [he]; exact (List.append_nil _).symm) (by rw [he]; rfl)
  | nextNonce proc =>
    obtain ⟨key, row, hselected⟩ := hallowed
    have hopen : g.stage ≠ .closed := by rw [hselected]; exact Stage.noConfusion
    have hdone : ∀ stage, (g.move stage).done = g.done ++ (returnedRow e.act).toList := by
      intro stage
      rw [he]
      exact (List.append_nil _).symm
    cases r with
    | error x => exact hadds hopen (hdone _) (by rw [he]; rfl)
    | ok candidate =>
      simp only [Session.next, hselected]
      exact hadds hopen (hdone _) (by rw [he]; rfl)
  | insertRow row =>
    have hdrawn : g.stage = .drawn row.key none row.lastNonce := hallowed
    have hopen : g.stage ≠ .closed := by rw [hdrawn]; exact Stage.noConfusion
    cases r <;> exact hadds hopen (by rw [he]; exact (List.append_nil _).symm) (by rw [he]; rfl)
  | updateRow row =>
    obtain ⟨last, candidate, hdrawn, -⟩ := hallowed
    have hopen : g.stage ≠ .closed := by rw [hdrawn]; exact Stage.noConfusion
    cases r <;> exact hadds hopen (by rw [he]; exact (List.append_nil _).symm) (by rw [he]; rfl)
  | returned row =>
    have hwritten : g.stage = .written row := hallowed
    have hopen : g.stage ≠ .closed := by rw [hwritten]; exact Stage.noConfusion
    cases r <;> exact hadds hopen (by rw [he]; rfl) (by rw [he]; rfl)
  | commit => cases r <;> exact hclosed rfl
  | rollback => cases r <;> exact hclosed rfl

end knows

/-- The invariant of a run. -/
structure Kept (h : List Event) (w : World) : Prop where
  ordered : Ordered w
  sound : ∀ p, Sound w p (sessions h p)
  knows : ∀ p g, sessions h p = some g → Knows g (Machine.course h p)
  nonces : ∀ key, committedNonces key h <:+ (w.table.rows (·.key) key).map (·.lastNonce)
  inserts : ∀ key, committedInserts key h ≤ 1 ∧
    (committedInserts key h = 1 → w.table.rows (·.key) key ≠ [])

theorem Kept.initial {w : World} (hw : w.Initial) : Kept [] w := by
  have hown : ∀ p, w.table.own p = [] := fun p => by
    rw [Store.own, hw.pending]
    rfl
  have hrows : ∀ key, (w.table.rows (·.key) key).Pairwise Older := by
    intro key
    have hsingle := hw.single key
    generalize w.table.rows (·.key) key = rows at hsingle ⊢
    rcases rows with _ | ⟨row, _ | ⟨row', rows⟩⟩
    · exact .nil
    · exact List.pairwise_singleton _ _
    · simp at hsingle
  refine ⟨⟨⟨fun p row hrow => ?_, fun p key => ?_, hrows⟩, fun p key hl => ?_⟩,
    fun p => ⟨hown p, ?_, ?_⟩, ?_, fun key => List.nil_suffix, fun key => ?_⟩
  · rw [hown p] at hrow
    cases hrow
  · rw [Store.seen, Store.visible_of_own_nil (hown p)]
    exact hrows key
  · rw [hw.locks key] at hl
    cases hl
  · rintro g ⟨⟩
  · rintro g ⟨⟩
  · rintro p g ⟨⟩
  · exact ⟨Nat.zero_le _, fun hone => by cases hone⟩

section run

variable {h : List Event} {w w' : World} {e : Event} {p : Pid} {φ : Pid → Option Session}
  {s : Option Session} {key : Key}

/-- One transaction acts, and the others do not notice. -/
theorem Sound.update (hs : ∀ q, Sound w q (φ q)) (h : Ordered w) (hc : Change p w w')
    (hself : Sound w' p s) : ∀ q, Sound w' q (Function.update φ p s q) := by
  intro q
  by_cases hq : q = p
  · subst hq
    rw [Function.update_self]
    exact hself
  · rw [Function.update_of_ne hq]
    exact (hs q).frame h hc hq

/-- What is left of a transaction goes with it. -/
theorem Sound.leaves (hs : ∀ q, Sound w q (φ q)) (h : Ordered w) :
    ∀ q, Sound (w.abort p) q (Function.update φ p none q) := by
  refine Sound.update hs h (.aborted rfl rfl) ⟨Store.own_rollback_self, ?_, ?_⟩
  · rintro g ⟨⟩
  · rintro g ⟨⟩

theorem Ordered.leaves (h : Ordered w) : Ordered (w.abort p) := h.change (.aborted rfl rfl)

/-- A transaction begins. -/
theorem Sound.begins (hs : ∀ q, Sound w q (φ q)) (h : Ordered w) (hp : φ p = none) :
    ∀ q, Sound w q (Function.update φ p (some {}) q) := by
  have hown := (hs p).own
  rw [hp] at hown
  refine Sound.update hs h (.same rfl rfl) ⟨hown, ?_, ?_⟩
  · rintro g ⟨⟩ key last hrow
    cases hrow
  · rintro g ⟨⟩ key hkey
    cases hkey

/-- Only a commit changes what is committed. -/
theorem rows_perform {o : Op} {ch : Choice} {stays : Bool} :
    (w.perform p o ch).1.table.rows (·.key) key =
      match commits (.did p o (w.perform p o ch).2 stays) with
      | some _ => w.table.seen (·.key) p key
      | none => w.table.rows (·.key) key := by
  rcases ch with ⟨fault⟩
  cases o with
  | selectForUpdate key' =>
    cases fault with
    | some x => rfl
    | none =>
      simp only [World.perform, World.exec, commits]
      split
      · rfl
      · split <;> rfl
  | insertRow row =>
    cases fault with
    | some x => rfl
    | none =>
      simp only [World.perform, World.exec, commits]
      split <;> rfl
  | updateRow row =>
    cases fault with
    | some x => rfl
    | none =>
      simp only [World.perform, World.exec, commits]
      split <;> rfl
  | _ => cases fault <;> rfl

theorem eq_of_commits {q : Pid} {o : Op} {r : Except LibError o.Ans} {stays : Bool}
    (hc : commits (.did p o r stays) = some q) : p = q := by
  cases o with
  | commit =>
    cases r with
    | ok _ => exact Option.some.inj hc
    | error x => cases hc
  | _ => cases hc

theorem rows_settle {stays : Bool} :
    (Machine.settle nonceTable w p stays).table.rows (·.key) key = w.table.rows (·.key) key := by
  cases stays <;> rfl

theorem Kept.knows_step (hk : Kept h w) (hl : Machine.Legal Discipline (fun _ => {}) h w e) :
    ∀ p g, sessions (e :: h) p = some g → Knows g (Machine.course (e :: h) p) := by
  intro p g hg
  rcases hl.moved hg with ⟨running, other⟩ | ⟨q, act, rfl⟩ | ⟨act, running, allowed, rfl⟩
  · rw [Machine.course_of_other other]
    exact hk.knows p g running
  · rw [Machine.course_started act]
    exact ⟨fun _ => rfl, fun _ key => by simp⟩
  · rw [Machine.course_did act]
    exact (hk.knows p _ running).did act allowed

/-- **Table and transactions** stay in order. -/
theorem Kept.sound_step (hk : Kept h w) (hl : Machine.Legal Discipline (fun _ => {}) h w e) :
    Ordered e.after ∧ ∀ p, Sound e.after p (sessions (e :: h) p) := by
  cases hl with
  | @started p q stays idle =>
    have hphase : sessions (⟨w, .started p q stays, nonceTable.settle w p stays⟩ :: h) =
        Function.update (sessions h) p (if stays then some {} else none) := Machine.phase_started
    rw [hphase]
    cases stays with
    | true => exact ⟨hk.ordered, Sound.begins hk.sound hk.ordered idle⟩
    | false => exact ⟨hk.ordered.leaves, Sound.leaves hk.sound hk.ordered⟩
  | @did p o g ch stays running allowed =>
    have hrunning : sessions h p = some g := running
    have hsound := hk.sound p
    rw [hrunning] at hsound
    obtain ⟨hchange, hself⟩ := acts hk.ordered hsound allowed ch
    have hphase : sessions (⟨w, .did p o (w.perform p o ch).2 stays,
        nonceTable.settle (w.perform p o ch).1 p stays⟩ :: h) = Function.update (sessions h) p
          (if stays then some (g.next o (w.perform p o ch).2) else none) :=
      Machine.phase_did running
    have hupdate := Sound.update hk.sound hk.ordered hchange hself
    have hordered := hk.ordered.change hchange
    rw [hphase]
    cases stays with
    | true => exact ⟨hordered, hupdate⟩
    | false =>
      have hleaves := Sound.leaves (p := p) hupdate hordered
      rw [Function.update_idem] at hleaves
      exact ⟨hordered.leaves, hleaves⟩
  | @crashed p g running =>
    have hphase : sessions (⟨w, .crashed p, nonceTable.leave w p⟩ :: h) =
        Function.update (sessions h) p none := Machine.phase_crashed
    rw [hphase]
    exact ⟨hk.ordered.leaves, Sound.leaves hk.sound hk.ordered⟩
  | ticked t =>
    have hsame : (w.tick t).table = w.table ∧ (w.tick t).locks = w.locks := by
      cases t <;> exact ⟨rfl, rfl⟩
    have hc : ∀ p, Change p w (w.tick t) := fun p => .same hsame.1 hsame.2
    refine ⟨hk.ordered.change (hc 0), fun p => ?_⟩
    -- any other transaction may be taken for the one that acts
    exact (hk.sound p).frame hk.ordered (hc (p + 1)) (Nat.ne_of_lt (Nat.lt_succ_self p))

/-- An event that commits nothing. -/
theorem Kept.quiet (hk : Kept h w) (hc : commits e.act = none)
    (hrows : ∀ key, w'.table.rows (·.key) key = w.table.rows (·.key) key) :
    ∀ key, committedNonces key (e :: h) <:+ (w'.table.rows (·.key) key).map (·.lastNonce) ∧
      committedInserts key (e :: h) ≤ 1 ∧
        (committedInserts key (e :: h) = 1 → w'.table.rows (·.key) key ≠ []) := by
  intro key
  have hnonces : committedNonces key (e :: h) = committedNonces key h := by
    simp only [committedNonces, hc, List.append_nil]
  have hinserts : committedInserts key (e :: h) = committedInserts key h := by
    simp only [committedInserts, hc, Nat.add_zero]
  rw [hnonces, hinserts, hrows]
  exact ⟨hk.nonces key, hk.inserts key⟩

/-- **A commit** makes the versions of its transaction the newest ones; a row that it has inserted
was not there. -/
theorem Kept.commit (hk : Kept h w) {g : Session} (hc : commits e.act = some p)
    (running : sessions h p = some g) (hidle : g.stage = .idle)
    (hrows : ∀ key, w'.table.rows (·.key) key = w.table.seen (·.key) p key) :
    ∀ key, committedNonces key (e :: h) <:+ (w'.table.rows (·.key) key).map (·.lastNonce) ∧
      committedInserts key (e :: h) ≤ 1 ∧
        (committedInserts key (e :: h) = 1 → w'.table.rows (·.key) key ≠ []) := by
  intro key
  have hopen : g.stage ≠ .closed := by rw [hidle]; exact Stage.noConfusion
  have hsound := hk.sound p
  rw [running] at hsound
  have hown : w.table.own p = returnedBy h p := by
    have hgrows : g.rows = g.done := by rw [Session.rows, hidle]
    exact (hsound.own.trans hgrows).trans ((hk.knows p g running).done hopen)
  rw [hrows]
  refine ⟨?_, ?_⟩
  · simp only [committedNonces, hc]
    rw [Store.seen_eq, hown, List.map_append]
    obtain ⟨before, hbefore⟩ := hk.nonces key
    exact ⟨before, by rw [← hbefore, List.append_assoc]⟩
  · obtain ⟨hle, hthere⟩ := hk.inserts key
    simp only [committedInserts, hc]
    by_cases hinserted : InsertedBy h p key
    · rw [if_pos hinserted]
      have hkey := ((hk.knows p g running).inserted hopen key).2 hinserted
      obtain ⟨hlock, hnone⟩ := hsound.inserted g rfl key hkey
      have hzero : committedInserts key h = 0 := by
        by_contra hne
        exact hthere (by omega) hnone
      rw [hzero]
      exact ⟨le_refl _, fun _ => hk.ordered.held p key hlock⟩
    · rw [if_neg hinserted, Nat.add_zero]
      refine ⟨hle, fun hone hnil => hthere hone ?_⟩
      have hsub : (w.table.rows (·.key) key).Sublist (w.table.seen (·.key) p key) :=
        Store.rows_sublist_seen
      rw [hnil] at hsub
      exact List.sublist_nil.1 hsub

theorem Kept.step (hk : Kept h w) (hl : Machine.Legal Discipline (fun _ => {}) h w e) :
    Kept (e :: h) e.after := by
  obtain ⟨hordered, hsound⟩ := hk.sound_step hl
  have hcommitted : ∀ key,
      committedNonces key (e :: h) <:+ (e.after.table.rows (·.key) key).map (·.lastNonce) ∧
        committedInserts key (e :: h) ≤ 1 ∧
          (committedInserts key (e :: h) = 1 → e.after.table.rows (·.key) key ≠ []) := by
    cases hl with
    | started q stays idle => exact hk.quiet rfl fun key => rows_settle
    | @did p o g ch stays running allowed =>
      have hrows : ∀ key, (nonceTable.settle (w.perform p o ch).1 p stays).table.rows (·.key) key =
          match commits (.did p o (w.perform p o ch).2 stays) with
          | some _ => w.table.seen (·.key) p key
          | none => w.table.rows (·.key) key := fun key => rows_settle.trans rows_perform
      cases hc : commits (.did p o (w.perform p o ch).2 stays) with
      | none =>
        simp only [hc] at hrows
        exact hk.quiet hc hrows
      | some p' =>
        simp only [hc] at hrows
        cases o with
        | commit =>
          obtain rfl := eq_of_commits hc
          exact hk.commit hc running allowed hrows
        | _ => cases hc
    | crashed running => exact hk.quiet rfl fun key => Store.rows_rollback
    | ticked t => exact hk.quiet rfl fun key => by cases t <;> rfl
  exact ⟨hordered, hsound, hk.knows_step hl, fun key => (hcommitted key).1,
    fun key => (hcommitted key).2⟩

end run

/-- **The committed nonces of a key increase** in the order of the commits, whatever the processes,
their clocks and the interleaving of their transactions are, and at most one transaction that is
committed has inserted the row. -/
theorem committed_nonces_increase {c : nonceTable.Config}
    (hc : Machine.Reaches nonceTable World.Initial Machine.anyEvent c) (key : Key) :
    (committedNonces key c.hist).Pairwise (· < ·) ∧ committedInserts key c.hist ≤ 1 := by
  have hkept : Kept c.hist c.world := hc.induct program_keeps (fun _ hw => .initial hw)
    fun h w e hk hl _ => hk.step hl
  refine ⟨?_, (hkept.inserts key).1⟩
  have hsorted : ((c.world.table.rows (·.key) key).map (·.lastNonce)).Pairwise (· < ·) :=
    List.pairwise_map.2 (hkept.ordered.chained.rows key)
  exact hsorted.sublist (hkept.nonces key).sublist

def sampleKey : Key := ⟨"lobby", "did:key:z6Mk"⟩

/-- Two processes look for the row at the same time; one inserts it, the other fails and tries again
in a new transaction, with its clock behind. -/
def twoWriters : List nonceTable.Move :=
  [.tick (.clock 0 1000), .tick (.clock 1 500), .start 0 ⟨0, [⟨sampleKey, false⟩], true⟩,
    .start 1 ⟨1, [⟨sampleKey, false⟩], true⟩] ++
    List.replicate 2 (.perform 1 {}) ++ List.replicate 5 (.perform 0 {}) ++
    List.replicate 2 (.perform 1 {}) ++ [.start 2 ⟨1, [⟨sampleKey, false⟩], true⟩] ++
    List.replicate 5 (.perform 2 {})

def noRows : World := { clock := fun _ => 0 }

theorem noRows_initial : noRows.Initial := ⟨rfl, fun _ => rfl, fun _ => Nat.zero_le 1, fun _ => rfl⟩

/-- The second nonce exceeds the first although its candidate does not. -/
theorem committed_nonces_increase_writers : ∃ c : nonceTable.Config,
    Machine.Reaches nonceTable World.Initial Machine.anyEvent c ∧
      committedNonces sampleKey c.hist = [1000, 1001] ∧
      (committedNonces sampleKey c.hist).Pairwise (· < ·) ∧
      committedInserts sampleKey c.hist ≤ 1 := by
  have hrun : ((Machine.Config.initial noRows : nonceTable.Config).run Machine.anyEvent
      twoWriters).map (fun c => committedNonces sampleKey c.hist) = some [1000, 1001] := by
    rfl
  obtain ⟨c, hc, hsee⟩ := Option.map_eq_some_iff.1 hrun
  have hreach := (Machine.Reaches.init noRows_initial).run hc
  exact ⟨c, hreach, hsee, committed_nonces_increase hreach sampleKey⟩

end Observatory.NonceTable
