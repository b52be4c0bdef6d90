import Observatory.Data.Rank
import Observatory.Effect.Protocol
import Observatory.Model.Scheduler

/-!
# The outbox publisher

One call of `publish_outbox` looks at the twenty oldest messages that are not processed and sends
those of them that are due.  What is loaded is known without sorting the table: a message is among
the twenty iff fewer than twenty unprocessed ones come before it (`mem_selectOutbox`).  Whether a
message is due is only asked afterwards, so messages that gave up, or that are for later, take up
places, and a due message behind twenty of them is not reached by this call or any later one.
-/

namespace Observatory

open Effect Effect.Prog

namespace Db

/-- Message `i` waits to be published, and may be published now. -/
def Due (db : Db) (now : Time) (i : MessageId) (m : OutboxMessage) : Prop :=
  db.outbox[i]? = some m ∧ m.processed = false ∧ SchedulerLoop.due now m = true

/-- The order of the query: by age, rows of the same age as the table holds them. -/
def Older (x y : MessageId × OutboxMessage) : Prop :=
  x.2.createdAt < y.2.createdAt ∨ (x.2.createdAt = y.2.createdAt ∧ x.1 < y.1)

instance : DecidableRel Older := fun x y =>
  inferInstanceAs (Decidable (x.2.createdAt < y.2.createdAt ∨ _))

/-- The messages that are not processed. -/
def unprocessed (db : Db) : List (MessageId × OutboxMessage) :=
  db.outbox.zipIdx.filterMap fun (m, i) => if m.processed then none else some (i, m)

/-- How many unprocessed messages come before message `i`. -/
def ahead (db : Db) (i : MessageId) (m : OutboxMessage) : Nat :=
  db.unprocessed.countP fun y => Older y (i, m)

end Db

section select

variable {db : Db} {i : MessageId} {m : OutboxMessage} {x : MessageId × OutboxMessage}

theorem Db.mem_unprocessed :
    (i, m) ∈ db.unprocessed ↔ db.outbox[i]? = some m ∧ m.processed = false := by
  simp only [unprocessed, List.mem_filterMap, Prod.exists, List.mem_zipIdx_iff_getElem?]
  constructor
  · rintro ⟨m', i', hrow, heq⟩
    split at heq
    · cases heq
    · next hp =>
      cases heq
      exact ⟨hrow, by simpa using hp⟩
  · rintro ⟨hrow, hp⟩
    exact ⟨m, i, hrow, by simp [hp]⟩

/-- The table lists its rows in the order of their positions. -/
theorem Db.unprocessed_pairwise : db.unprocessed.Pairwise fun x y => x.1 < y.1 := by
  have hindex : db.outbox.zipIdx.Pairwise fun x y => x.2 < y.2 := by
    have hmap : (db.outbox.zipIdx.map Prod.snd).Pairwise (· < ·) := by
      rw [List.zipIdx_map_snd]
      exact List.pairwise_lt_range'
    exact List.pairwise_map.1 hmap
  refine List.pairwise_filterMap.2 (hindex.imp ?_)
  rintro ⟨m, i⟩ ⟨m', i'⟩ hlt y hy y' hy'
  obtain ⟨-, rfl⟩ : m.processed = false ∧ (i, m) = y := by simpa using hy
  obtain ⟨-, rfl⟩ : m'.processed = false ∧ (i', m') = y' := by simpa using hy'
  exact hlt

theorem Db.Older.asymm {x y : MessageId × OutboxMessage} (h : Older x y) : ¬Older y x := by
  rintro (hlt | ⟨heq, hlt⟩)
  · rcases h with hlt' | ⟨heq', -⟩
    · exact lt_asymm hlt hlt'
    · exact hlt.ne heq'.symm
  · rcases h with hlt' | ⟨-, hlt'⟩
    · exact hlt'.ne heq.symm
    · exact lt_asymm hlt hlt'

/-- **What the query returns**: the unprocessed messages with fewer than twenty ahead of them. -/
theorem Db.mem_selectOutbox : (i, m) ∈ db.selectOutbox ↔
    db.outbox[i]? = some m ∧ m.processed = false ∧ db.ahead i m < 20 := by
  let byAge : MessageId × OutboxMessage → MessageId × OutboxMessage → Prop :=
    fun x y => x.2.createdAt ≤ y.2.createdAt
  have : Std.Total byAge := ⟨fun x y => Int.le_total _ _⟩
  have : IsTrans _ byAge := ⟨fun x y z => Int.le_trans⟩
  have hstable := Rank.pairwise_insertionSort_stable (r := byAge) db.unprocessed_pairwise
  have hsorted : (db.unprocessed.insertionSort byAge).Pairwise Older := by
    refine hstable.imp ?_
    rintro x y ⟨hle, hbefore⟩
    rcases Int.lt_or_eq_of_le hle with hlt | heq
    · exact .inl hlt
    · exact .inr ⟨heq, hbefore (Int.le_of_eq heq.symm)⟩
  have hperm := List.perm_insertionSort byAge db.unprocessed
  have hmem := Rank.mem_take_iff_rank (x := (i, m)) (n := 20) hsorted fun y z h => h.asymm
  rw [hperm.mem_iff, hperm.countP_eq, mem_unprocessed, and_assoc] at hmem
  exact hmem

end select

namespace SchedulerLoop

/-- The clock says `now`, the table is that of `db`, Redis takes every entry, and the commit goes
through. -/
def Accepted (db : Db) (now : Time) : Performed Sys → Prop
  | ⟨.ext .utcnow, res⟩ => res = .ok now
  | ⟨.db .selectOutbox, res⟩ => res = .ok db.selectOutbox
  | ⟨.redis (.publishToStream ..), res⟩ => ∃ streamId, res = .ok streamId
  | ⟨.db (.commitOutbox _), res⟩ => res = .ok ()
  | _ => True

/-- Message `i` was sent to the stream, and the commit marks it as published. -/
def Publishes (t : List (Performed Sys)) (i : MessageId) (m : OutboxMessage) : Prop :=
  ∃ streamId attempts,
    ⟨.redis (.publishToStream m.payload (some m.idempotencyKey)), .ok streamId⟩ ∈ t ∧
      ⟨.db (.commitOutbox attempts), .ok ()⟩ ∈ t ∧ (i, m, .published streamId) ∈ attempts

section publish

variable {db : Db} {now : Time} {msgs : List (MessageId × OutboxMessage)}
  {t : List (Performed Sys)} {i : MessageId} {m : OutboxMessage}

theorem exec_publish {res : Except PyExc Db.Attempt} (hexec : Exec (publish m) t res)
    (hacc : ∀ e ∈ t, Accepted db now e) :
    ∃ streamId, res = .ok (.published streamId) ∧
      t = [⟨.redis (.publishToStream m.payload (some m.idempotencyKey)), .ok streamId⟩] := by
  obtain ⟨out, t₁, t₂, rfl, hsent, hrest⟩ := exec_attempt_bind.1 hexec
  rcases exec_call.1 hsent with ⟨streamId, rfl, rfl⟩ | ⟨x, rfl, rfl⟩
  · obtain ⟨rfl, rfl⟩ := exec_ret.1 hrest
    exact ⟨streamId, rfl, rfl⟩
  · obtain ⟨streamId, hok⟩ := hacc _ List.mem_cons_self
    cases hok

/-- What the loop over `msgs` does: it sends every message that is due, and nothing else. -/
structure Sends (now : Time) (msgs : List (MessageId × OutboxMessage)) (t : List (Performed Sys))
    (attempts : List (MessageId × OutboxMessage × Db.Attempt)) : Prop where
  redis : ∀ e ∈ t, ∀ o, e.op ≠ .db o
  only : ∀ x ∈ attempts, (x.1, x.2.1) ∈ msgs ∧ due now x.2.1 = true
  all : ∀ x ∈ msgs, due now x.2 = true → ∃ streamId,
    ⟨.redis (.publishToStream x.2.payload (some x.2.idempotencyKey)), .ok streamId⟩ ∈ t ∧
      (x.1, x.2, .published streamId) ∈ attempts

theorem Sends.nil : Sends now [] [] [] := by
  constructor <;> simp

theorem Sends.skip {attempts : List (MessageId × OutboxMessage × Db.Attempt)}
    (hs : Sends now msgs t attempts) (hdue : due now m ≠ true) :
    Sends now ((i, m) :: msgs) t attempts := by
  refine ⟨hs.redis, fun x hx => ?_, fun x hx hd => ?_⟩
  · obtain ⟨hin, hd⟩ := hs.only x hx
    exact ⟨List.mem_cons_of_mem _ hin, hd⟩
  · rcases List.mem_cons.1 hx with rfl | hx
    · exact absurd hd hdue
    · exact hs.all x hx hd

theorem Sends.cons {attempts : List (MessageId × OutboxMessage × Db.Attempt)} {streamId : EntryId}
    (hs : Sends now msgs t attempts) (hdue : due now m = true) :
    Sends now ((i, m) :: msgs)
      (⟨.redis (.publishToStream m.payload (some m.idempotencyKey)), .ok streamId⟩ :: t)
      ((i, m, .published streamId) :: attempts) := by
  refine ⟨fun e he => ?_, fun x hx => ?_, fun x hx hd => ?_⟩
  · rcases List.mem_cons.1 he with rfl | he
    · intro o heq
      cases heq
    · exact hs.redis e he
  · rcases List.mem_cons.1 hx with rfl | hx
    · exact ⟨List.mem_cons_self, hdue⟩
    · obtain ⟨hin, hd⟩ := hs.only x hx
      exact ⟨List.mem_cons_of_mem _ hin, hd⟩
  · rcases List.mem_cons.1 hx with rfl | hx
    · exact ⟨streamId, List.mem_cons_self, List.mem_cons_self⟩
    · obtain ⟨sid, hxadd, hin⟩ := hs.all x hx hd
      exact ⟨sid, List.mem_cons_of_mem _ hxadd, List.mem_cons_of_mem _ hin⟩

/-- **The loop**, by induction on the messages. -/
theorem exec_publishAll {res : Except PyExc (List (MessageId × OutboxMessage × Db.Attempt))}
    (hexec : Exec (publishAll now msgs) t res) (hacc : ∀ e ∈ t, Accepted db now e) :
    ∃ attempts, res = .ok attempts ∧ Sends now msgs t attempts := by
  induction msgs generalizing t res with
  | nil =>
    obtain ⟨rfl, rfl⟩ := exec_ret.1 hexec
    exact ⟨[], rfl, .nil⟩
  | cons x msgs ih =>
    obtain ⟨i, m⟩ := x
    simp only [publishAll] at hexec
    split at hexec
    · next hdue =>
      rcases exec_bind.1 hexec with ⟨att, t₁, t₂, rfl, hsent, hrest⟩ | ⟨x, -, hraised⟩
      · obtain ⟨streamId, hatt, rfl⟩ :=
          exec_publish hsent fun e he => hacc e (List.mem_append_left _ he)
        obtain rfl : att = .published streamId := Except.ok.inj hatt
        replace hacc : ∀ e ∈ t₂, Accepted db now e := fun e he =>
          hacc e (List.mem_append_right _ he)
        rcases exec_bind.1 hrest with ⟨attempts, t₃, t₄, rfl, hall, hret⟩ | ⟨x, -, hraised⟩
        · obtain ⟨attempts', hres, hs⟩ := ih hall fun e he => hacc e (List.mem_append_left _ he)
          obtain rfl : attempts = attempts' := Except.ok.inj hres
          obtain ⟨rfl, rfl⟩ := exec_ret.1 hret
          rw [List.append_nil]
          exact ⟨_, rfl, hs.cons hdue⟩
        · obtain ⟨attempts', hres, -⟩ := ih hraised hacc
          cases hres
      · obtain ⟨streamId, hatt, -⟩ := exec_publish hraised hacc
        cases hatt
    · next hdue =>
      obtain ⟨attempts, rfl, hs⟩ := ih hexec hacc
      exact ⟨attempts, rfl, hs.skip hdue⟩

/-- **What one call publishes**: of the twenty oldest unprocessed messages those that are due. -/
theorem exec_publishOutbox {res : Except PyExc Unit} (hexec : Exec publishOutbox t res)
    (hacc : ∀ e ∈ t, Accepted db now e) :
    Publishes t i m ↔ (i, m) ∈ db.selectOutbox ∧ due now m = true := by
  have hclock : ∀ res, (⟨.ext .utcnow, res⟩ : Performed Sys) ∈ t → res = .ok now :=
    fun res he => hacc _ he
  have hselect : ∀ res, (⟨.db .selectOutbox, res⟩ : Performed Sys) ∈ t →
      res = .ok db.selectOutbox := fun res he => hacc _ he
  simp only [publishOutbox, bind_eq] at hexec
  obtain ⟨t₁, rfl, hexec₁⟩ := exec_call_bind hexec hclock
  obtain ⟨t₂, rfl, hexec₂⟩ := exec_call_bind hexec₁ fun res he => hselect res (.tail _ he)
  replace hacc : ∀ e ∈ t₂, Accepted db now e := fun e he => hacc e (.tail _ (.tail _ he))
  rcases exec_bind.1 hexec₂ with ⟨attempts, t₃, t₄, rfl, hloop, hcommit⟩ | ⟨x, -, hloop⟩
  swap
  · obtain ⟨attempts, hres, -⟩ := exec_publishAll hloop hacc
    cases hres
  obtain ⟨attempts', hres, hs⟩ := exec_publishAll hloop fun e he => hacc e (List.mem_append_left _ he)
  obtain rfl : attempts = attempts' := Except.ok.inj hres
  replace hacc : ∀ e ∈ t₄, Accepted db now e := fun e he => hacc e (List.mem_append_right _ he)
  constructor
  · rintro ⟨streamId, attempts'', -, hmem, hin⟩
    -- the loop commits nothing, so this is the commit at the end
    have hlast : ⟨.db (.commitOutbox attempts''), .ok ()⟩ ∈ t₄ := by
      rcases List.mem_cons.1 hmem with heq | hmem
      · cases heq
      rcases List.mem_cons.1 hmem with heq | hmem
      · cases heq
      rcases List.mem_append.1 hmem with hmem | hmem
      · exact absurd rfl (hs.redis _ hmem _)
      · exact hmem
    split at hcommit
    · rcases exec_call.1 hcommit with ⟨u, rfl, -⟩ | ⟨x, rfl, -⟩
      · cases List.mem_singleton.1 hlast
        exact hs.only _ hin
      · cases List.mem_singleton.1 hlast
    · obtain ⟨rfl, -⟩ := exec_ret.1 hcommit
      cases hlast
  · rintro ⟨hmem, hdue⟩
    obtain ⟨streamId, hxadd, hin⟩ := hs.all _ hmem hdue
    have hne : db.selectOutbox.isEmpty = false := by
      cases hsel : db.selectOutbox with
      | nil =>
        rw [hsel] at hmem
        cases hmem
      | cons => rfl
    rw [hne] at hcommit
    rcases exec_call.1 hcommit with ⟨u, rfl, -⟩ | ⟨x, rfl, -⟩
    · refine ⟨streamId, attempts, ?_, ?_, hin⟩
      · exact .tail _ (.tail _ (List.mem_append_left _ hxadd))
      · exact .tail _ (.tail _ (List.mem_append_right _ List.mem_cons_self))
    · cases hacc _ List.mem_cons_self

end publish

/-- **The publisher does not starve** exactly while some message that is due has fewer than twenty
unprocessed messages before it. -/
theorem publishes_due_iff {db : Db} {now : Time} {t : List (Performed Sys)}
    {res : Except PyExc Unit} (hexec : Exec publishOutbox t res)
    (hacc : ∀ e ∈ t, Accepted db now e) :
    ((∃ i m, db.Due now i m) → ∃ i m, db.Due now i m ∧ Publishes t i m) ↔
      ((∃ i m, db.Due now i m) → ∃ i m, db.Due now i m ∧ db.ahead i m < 20) := by
  refine imp_congr_right fun _ => exists_congr fun i => exists_congr fun m => ?_
  refine and_congr_right fun hdue => ?_
  rw [exec_publishOutbox hexec hacc, Db.mem_selectOutbox]
  constructor
  · rintro ⟨⟨-, -, hahead⟩, -⟩
    exact hahead
  · intro hahead
    exact ⟨⟨hdue.1, hdue.2.1, hahead⟩, hdue.2.2⟩

/-- The answers to a call that nothing disturbs. -/
def undisturbed (db : Db) (now : Time) : (o : Op) → Sys.Result o
  | .ext .utcnow => .ok now
  | .db .selectOutbox => .ok db.selectOutbox
  | .db (.commitOutbox _) => .ok ()
  | .redis (.publishToStream ..) => .ok (0 : EntryId)
  | _ => .error ⟨"RuntimeError", ""⟩

theorem undisturbed_accepted {db : Db} {now : Time} {p : Proc Unit} :
    ∀ e ∈ (p.play (undisturbed db now)).1, Accepted db now e := by
  rintro ⟨o, res⟩ he
  obtain rfl : res = undisturbed db now o := result_of_mem_play he
  cases o with
  | ext o => cases o <;> first | rfl | trivial
  | db o => cases o <;> first | rfl | trivial
  | redis o => cases o <;> first | exact ⟨(0 : EntryId), rfl⟩ | trivial

/-- A message that gave up, one that is for later, and one that is due. -/
def backlog : Db :=
  { outbox := [
      { payload := [], idempotencyKey := [.str "dead"], attempts := 11, createdAt := 0 },
      { payload := [], idempotencyKey := [.str "later"], createdAt := 1, notBefore := some 100 },
      { payload := [("run_id", .uuid 0)], idempotencyKey := [.str "due"], createdAt := 2 }] }

/-- A message that gave up and one for later do not yet keep a due one from being published. -/
theorem publishes_due_backlog :
    ∃ i m, backlog.Due 10 i m ∧ Publishes (publishOutbox.play (undisturbed backlog 10)).1 i m :=
  (publishes_due_iff (exec_play (undisturbed backlog 10) publishOutbox) undisturbed_accepted).2
    (fun _ => ⟨2, _, ⟨rfl, rfl, rfl⟩, by decide⟩) ⟨2, _, rfl, rfl, rfl⟩

/-- Twenty messages that gave up during an outage, and a younger one that is due. -/
def afterOutage : Db :=
  { outbox :=
      (List.range 20).map (fun r =>
        { payload := [("run_id", .uuid r)], idempotencyKey := [.str "run:", .uuid r],
          attempts := 11, createdAt := r }) ++
      [{ payload := [("run_id", .uuid 20)], idempotencyKey := [.str "run:", .uuid 20],
         createdAt := 20 }] }

/-- **The publisher starves**: it loads the messages that gave up, skips them all, and never sees
the one that is due. -/
theorem publisher_starves : ¬∀ (db : Db) (now : Time) (t : List (Performed Sys))
    (res : Except PyExc Unit), Exec publishOutbox t res → (∀ e ∈ t, Accepted db now e) →
      (∃ i m, db.Due now i m) → ∃ i m, db.Due now i m ∧ Publishes t i m := by
  intro hclaim
  have hexec := exec_play (undisturbed afterOutage 30) publishOutbox
  obtain ⟨i, m, -, hpub⟩ :=
    hclaim _ _ _ _ hexec undisturbed_accepted ⟨20, _, rfl, rfl, rfl⟩
  obtain ⟨hmem, hdue⟩ := (exec_publishOutbox hexec undisturbed_accepted).1 hpub
  have hskipped : ∀ x ∈ afterOutage.selectOutbox, due 30 x.2 = false := by decide
  rw [hskipped _ hmem] at hdue
  cases hdue

end SchedulerLoop

end Observatory
