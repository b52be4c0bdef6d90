import Observatory.Verify.Webhook

/-!
# Concurrent deliveries of one update

`Handling` is the protocol of a delivery, seen from one update.  The row of the update is written
PENDING by the delivery that handles it and stays so until the handler is through; meanwhile the
lookup of another delivery finds a row that is not PROCESSED, and runs the handler again
(`handled_twice`).  A run without such a lookup hands the update to the bot once (`handled_once`):
whoever looks before the row is there loses the race for it at the INSERT.
-/

namespace Observatory

open Effect Effect.Machine

namespace Webhook

/-- The update a delivery hands to the bot, if it gets that far. -/
def Delivery.updateId? (env : Env) (d : Delivery) : Option Int :=
  match accept env d with
  | .ok (.obj body) => recId ((Dict.get body "update_id").getD .null)
  | _ => none

/-- The inbox row an operation is about. -/
def Op.row? : Op → Option Int
  | .get id | .insert id _ | .finish id _ => some id
  | _ => none

/-- How far a delivery of the update has come. -/
inductive Stage where
  /-- it is a delivery of something else -/
  | other
  | entered
  /-- no row was found -/
  | missing
  | handling
  /-- the handler has returned -/
  | returned
  /-- the handler has raised -/
  | failing
  | deduped
  | finished
  | rejected
deriving DecidableEq, Repr

namespace Stage

variable (u : Int)

def allows : Stage → Op → Prop
  | .other, o => o.row? ≠ some u
  | .entered, .get id => id = u
  | .missing, .insert id _ => id = u
  | .handling, .hasApp | .handling, .build | .handling, .deJson _
  | .handling, .processUpdate _ => True
  | .returned, .finish id status => id = u ∧ status = .processed
  | .failing, .finish id status => id = u ∧ status = .failed
  | .deduped, .respond a => ∃ v, a = .dedup v
  | .finished, .respond _ | .rejected, .respond _ => True
  | _, _ => False

def next (g : Stage) : (o : Op) → Except LibError o.Ans → Stage
  | .get _, .ok row =>
    match g, row with
    | .entered, none => .missing
    | .entered, some row => if row.status = .processed then .deduped else .handling
    | _, _ => g
  | .get _, .error x =>
    if g = .entered then (if isDuplicate (.lib x) then .deduped else .handling) else g
  | .insert .., .error x =>
    if g = .missing then (if isDuplicate (.lib x) then .deduped else .handling) else g
  | .insert .., .ok _ => if g = .missing then .handling else g
  | .hasApp, .error _ | .build, .error _ => if g = .handling then .failing else g
  | .deJson _, .error _ | .processUpdate _, _ => if g = .handling then .returned else g
  | .finish .., _ =>
    match g with
    | .returned => .finished
    | .failing => .rejected
    | _ => g
  | _, _ => g

/-- The stage a delivery starts in. -/
def start (env : Env) (d : Delivery) : Stage :=
  if d.updateId? env = some u then .entered else .other

/-- The update is in the hands of this delivery. -/
def Busy (g : Stage) : Prop := g = .handling ∨ g = .returned

instance (g : Stage) : Decidable g.Busy := inferInstanceAs (Decidable (_ ∨ _))

/-- A delivery is not busy with the update, and will not answer that it failed. -/
def Rests (g : Stage) : Prop := ¬g.Busy ∧ g ≠ .failing ∧ g ≠ .rejected

instance (g : Stage) : Decidable g.Rests := inferInstanceAs (Decidable (_ ∧ _))

end Stage

/-- The protocol of the deliveries, for the update `u`. -/
def Handling (u : Int) : Protocol Hook Stage where
  allows := Stage.allows u
  next := Stage.next

/-! ## The deliveries keep to it -/

section programs

variable {u : Int} {env : Env} {d : Delivery} {g : Stage} {id : Option Int} {v : Json} {body : Dict}

theorem wp_perform {o : Op} {Q : Except PyExc o.Ans → Stage → Prop} :
    (perform o).wp (Handling u) Q g ↔
      g.allows u o ∧ (∀ x, Q (.ok x) (g.next o (.ok x))) ∧
        ∀ x, Q (.error (.lib x)) (g.next o (.error x)) := Prog.wp_call

theorem next_other {o : Op} (r : Except LibError o.Ans) : Stage.next .other o r = .other := by
  cases o <;> cases r <;> rfl

/-- A program that has nothing to do with the update. -/
def Away {α : Type} (u : Int) (p : Proc α) : Prop :=
  p.wp (Handling u) (fun _ g => g = .other) .other

namespace Away

variable {α β : Type}

theorem ret (a : α) : Away u (.ret a) := rfl

theorem perform {o : Op} (ho : o.row? ≠ some u) : Away u (perform o) :=
  wp_perform.2 ⟨ho, fun x => next_other (.ok x), fun x => next_other (.error x)⟩

theorem bind {p : Proc α} {f : α → Proc β} (hp : Away u p) (hf : ∀ a, Away u (f a)) :
    Away u (p.bind f) := by
  unfold Away
  rw [Prog.wp_bind]
  refine Prog.wp_mono ?_ hp
  rintro (x | a) g rfl
  · rfl
  · exact hf a

theorem attempt {p : Proc α} (hp : Away u p) : Away u p.attempt := Prog.wp_attempt.2 hp

theorem swallow {p : Proc α} (hp : Away u p) : Away u p.swallow := Prog.wp_swallow.2 hp

end Away

theorem handleRawUpdate_away : Away u (handleRawUpdate body) := by
  have hdispatch : Away u (Prog.swallow ((perform (.deJson body)).bind fun upd =>
      perform (.processUpdate upd))) :=
    .swallow (.bind (.perform (by simp [Op.row?])) fun _ => .perform (by simp [Op.row?]))
  refine .bind (.perform (by simp [Op.row?])) fun (app : Bool) => ?_
  cases app with
  | true => exact hdispatch
  | false => exact .bind (.perform (by simp [Op.row?])) fun _ => hdispatch

theorem finish_away {status : UpdateStatus} (hid : id ≠ some u) : Away u (finish id status) := by
  cases id with
  | none => exact .ret ()
  | some id => exact .swallow (.perform hid)

theorem handle_away (hid : id ≠ some u) : Away u (handle id v body) := by
  refine .bind (.attempt handleRawUpdate_away) fun r => ?_
  cases r with
  | error x => exact .bind (finish_away hid) fun _ => .ret _
  | ok y => exact .bind (finish_away hid) fun _ => .ret _

theorem openInbox_away {id : Int} {hash : String} (hid : id ≠ u) : Away u (openInbox id hash) := by
  have hne : some id ≠ some u := fun h => hid (Option.some.inj h)
  refine .bind (.attempt (.bind (.perform hne) fun (row : Option TelegramUpdate) => ?_)) fun r => ?_
  · cases row with
    | some existing => exact .ret _
    | none => exact .bind (.perform hne) fun _ => .ret _
  · cases r with
    | error x => exact .ret _
    | ok dedup => exact .ret _

/-- The inbox answers the delivery, or leaves it to the handler. -/
theorem openInbox_keeps {hash : String} :
    (openInbox u hash).wp (Handling u)
      (fun r g => r = .ok true ∧ g = .deduped ∨ r = .ok false ∧ g = .handling) .entered := by
  have hraised : ∀ x : LibError, (Except.ok (isDuplicate (.lib x)) : Except PyExc Bool) = .ok true ∧
      (if isDuplicate (.lib x) then Stage.deduped else .handling) = .deduped ∨
      (Except.ok (isDuplicate (.lib x)) : Except PyExc Bool) = .ok false ∧
      (if isDuplicate (.lib x) then Stage.deduped else .handling) = .handling := by
    intro x
    cases isDuplicate (.lib x) with
    | true => exact .inl ⟨rfl, rfl⟩
    | false => exact .inr ⟨rfl, rfl⟩
  unfold openInbox
  simp only [Prog.bind_eq, Prog.wp_bind, Prog.wp_attempt]
  refine wp_perform.2 ⟨rfl, fun (row : Option TelegramUpdate) => ?_, fun x => hraised x⟩
  cases row with
  | some existing =>
    by_cases hs : existing.status = .processed
    · exact .inl ⟨by rw [hs]; rfl, if_pos hs⟩
    · exact .inr ⟨congrArg Except.ok (decide_eq_false hs), if_neg hs⟩
  | none =>
    rw [Prog.bindPost_ok, Prog.wp_bind]
    exact wp_perform.2 ⟨rfl, fun _ => .inr ⟨rfl, rfl⟩, fun x => hraised x⟩

theorem handleRawUpdate_keeps :
    (handleRawUpdate body).wp (Handling u)
      (fun r g => r = .ok () ∧ g = .returned ∨ (∃ x, r = .error x) ∧ g = .failing) .handling := by
  have hdispatch : (Prog.swallow ((perform (.deJson body)).bind fun upd =>
      perform (.processUpdate upd))).wp (Handling u)
      (fun r g => r = .ok () ∧ g = .returned ∨ (∃ x, r = .error x) ∧ g = .failing) .handling := by
    rw [Prog.wp_swallow, Prog.wp_bind]
    refine wp_perform.2 ⟨trivial, fun _ => ?_, fun _ => .inl ⟨rfl, rfl⟩⟩
    exact wp_perform.2 ⟨trivial, fun _ => .inl ⟨rfl, rfl⟩, fun _ => .inl ⟨rfl, rfl⟩⟩
  unfold handleRawUpdate
  simp only [Prog.bind_eq, Prog.wp_bind]
  refine wp_perform.2 ⟨trivial, fun (app : Bool) => ?_, fun x => .inr ⟨⟨_, rfl⟩, rfl⟩⟩
  cases app with
  | true => exact hdispatch
  | false =>
    rw [Prog.bindPost_ok, Bool.not_false, if_pos rfl, Prog.wp_bind]
    exact wp_perform.2 ⟨trivial, fun _ => hdispatch, fun x => .inr ⟨⟨_, rfl⟩, rfl⟩⟩

/-- The handler's delivery answers, whatever the handler does. -/
theorem handle_keeps : (handle (some u) v body).wp (Handling u)
    (fun r g => (∃ a, r = .ok a) ∧ (g = .finished ∨ g = .rejected)) .handling := by
  unfold handle finish
  simp only [Prog.bind_eq, Prog.wp_bind, Prog.wp_attempt]
  refine Prog.wp_mono ?_ handleRawUpdate_keeps
  rintro r g (⟨rfl, rfl⟩ | ⟨⟨x, rfl⟩, rfl⟩)
  · simp only [Prog.bindPost_ok, Prog.wp_bind, Prog.wp_swallow]
    exact wp_perform.2 ⟨⟨rfl, rfl⟩, fun _ => ⟨⟨_, rfl⟩, .inl rfl⟩, fun _ => ⟨⟨_, rfl⟩, .inl rfl⟩⟩
  · simp only [Prog.bindPost_ok, Prog.wp_bind, Prog.wp_swallow]
    exact wp_perform.2 ⟨⟨rfl, rfl⟩, fun _ => ⟨⟨_, rfl⟩, .inr rfl⟩, fun _ => ⟨⟨_, rfl⟩, .inr rfl⟩⟩

/-- **The endpoint** keeps to the protocol, and is about to answer as it says. -/
theorem telegramWebhook_keeps : (telegramWebhook env d).wp (Handling u)
    (fun r g => g = .other ∨ ∃ a, r = .ok a ∧ g.allows u (.respond a)) (.start u env d) := by
  have haway : d.updateId? env ≠ some u → Away u (telegramWebhook env d) →
      (telegramWebhook env d).wp (Handling u)
        (fun r g => g = .other ∨ ∃ a, r = .ok a ∧ g.allows u (.respond a)) (.start u env d) := by
    intro hne hp
    rw [Stage.start, if_neg hne]
    exact Prog.wp_mono (fun r g hg => .inl hg) hp
  unfold telegramWebhook at haway ⊢
  have hid : ∀ {body}, accept env d = .ok (.obj body) →
      d.updateId? env = recId ((Dict.get body "update_id").getD .null) := by
    intro body haccept
    simp only [Delivery.updateId?, haccept]
  split at haway
  · next answer haccept =>
    refine haway ?_ (.ret answer)
    simp [Delivery.updateId?, haccept]
  · next body haccept =>
    replace hid := hid haccept
    simp only at haway ⊢
    split at haway
    · next hnone =>
      refine haway (by simp [hid, hnone]) (handle_away (by simp))
    · next id hrec =>
      by_cases hu : id = u
      · subst hu
        rw [Stage.start, if_pos (hid.trans hrec)]
        simp only [Prog.bind_eq, Prog.wp_bind]
        refine Prog.wp_mono ?_ openInbox_keeps
        rintro r g (⟨rfl, rfl⟩ | ⟨rfl, rfl⟩)
        · exact .inr ⟨_, rfl, _, rfl⟩
        · refine Prog.wp_mono ?_ handle_keeps
          rintro r g ⟨⟨a, rfl⟩, rfl | rfl⟩
          · exact .inr ⟨a, rfl, trivial⟩
          · exact .inr ⟨a, rfl, trivial⟩
      · refine haway (by simpa [hid, hrec] using hu) (.bind (openInbox_away hu) fun dedup => ?_)
        cases dedup with
        | true => exact .ret _
        | false => exact handle_away fun h => hu (Option.some.inj h)
  · next body hbody haccept =>
    refine haway ?_ rfl
    simp only [Delivery.updateId?, haccept]
    split
    · next body' heq =>
      cases heq
      exact (hbody _ rfl).elim
    · simp

/-- **Every delivery keeps to the protocol.** -/
theorem program_keeps (d : (machine env).Req) :
    ((machine env).program d).wp (Handling u) (fun _ _ => True) (.start u env d) := by
  refine Prog.wp_bind.2 (Prog.wp_mono ?_ telegramWebhook_keeps)
  rintro (x | a) g hg
  · trivial
  · refine wp_perform.2 ⟨?_, fun _ => trivial, fun _ => trivial⟩
    rcases hg with rfl | ⟨a', ha, hallows⟩
    · simp [Stage.allows, Op.row?]
    · cases ha
      exact hallows

end programs

/-! ## The row and who works on it -/

/-- The invariant of the stages `φ`, the number `n` of handlers that have returned, and the row: it
is PENDING while one delivery is busy with the update, and PROCESSED afterwards. -/
structure Tidy (u : Int) (φ : Pid → Option Stage) (n : Nat) (w : World) : Prop where
  absent : w.inbox u = none → n = 0
  status : ∀ row, w.inbox u = some row → row.status = .pending ∨ row.status = .processed
  busy : ∀ p g, φ p = some g → g.Busy → ∃ row, w.inbox u = some row ∧ row.status = .pending
  alone : ∀ p p' g g', φ p = some g → φ p' = some g' → g.Busy → g'.Busy → p = p'
  fresh : ∀ p, φ p = some .handling → n = 0
  once : n ≤ 1
  built : ∀ p g, φ p = some g → g ≠ .failing ∧ g ≠ .rejected

section tidy

variable {u : Int} {φ : Pid → Option Stage} {n : Nat} {w w' : World} {p : Pid} {g : Stage}

/-- Only the row of the update matters. -/
theorem Tidy.elsewhere (h : Tidy u φ n w) (hinbox : w'.inbox u = w.inbox u) : Tidy u φ n w' :=
  { h with
    absent := by rw [hinbox]; exact h.absent
    status := by rw [hinbox]; exact h.status
    busy := by rw [hinbox]; exact h.busy }

/-- A delivery that is not busy is of no account. -/
theorem Tidy.rests (h : Tidy u φ n w) {next : Option Stage}
    (hnext : ∀ g, next = some g → g.Rests) : Tidy u (Function.update φ p next) n w := by
  have hcases : ∀ {p' g}, Function.update φ p next p' = some g → φ p' = some g ∨ g.Rests := by
    intro p' g hp'
    by_cases hp : p' = p
    · subst hp
      rw [Function.update_self] at hp'
      exact .inr (hnext g hp')
    · rw [Function.update_of_ne hp] at hp'
      exact .inl hp'
  have hbusy : ∀ {p' g}, Function.update φ p next p' = some g → g.Busy → φ p' = some g :=
    fun hp' hb => (hcases hp').resolve_right fun hr => hr.1 hb
  refine ⟨h.absent, h.status, ?_, ?_, ?_, h.once, ?_⟩
  · intro p' g hp' hb
    exact h.busy p' g (hbusy hp' hb) hb
  · intro p₁ p₂ g₁ g₂ h₁ h₂ hb₁ hb₂
    exact h.alone p₁ p₂ g₁ g₂ (hbusy h₁ hb₁) (hbusy h₂ hb₂) hb₁ hb₂
  · exact fun p' hp' => h.fresh p' (hbusy hp' (.inl rfl))
  · intro p' g hp'
    exact (hcases hp').elim (h.built p' g) (·.2)

/-- The process that acts may be done afterwards. -/
theorem Tidy.settled (h : Tidy u (Function.update φ p (some g)) n w) (stays : Bool) :
    Tidy u (Function.update φ p (if stays then some g else none)) n w := by
  cases stays with
  | true => exact h
  | false =>
    have hleft : Tidy u (Function.update (Function.update φ p (some g)) p none) n w :=
      h.rests fun _ hnone => by cases hnone
    rwa [Function.update_idem] at hleft

/-- Only the acting delivery is busy. -/
theorem busy_self (hother : ∀ p' g', p' ≠ p → φ p' = some g' → ¬g'.Busy) {p' : Pid} {g' : Stage}
    (hp' : Function.update φ p (some g) p' = some g') (hb : g'.Busy) : p' = p := by
  by_contra hne
  rw [Function.update_of_ne hne] at hp'
  exact hother p' g' hne hp' hb

theorem Tidy.built_update (h : Tidy u φ n w) (hg : g ≠ .failing ∧ g ≠ .rejected) (p' : Pid)
    (g' : Stage) (hp' : Function.update φ p (some g) p' = some g') :
    g' ≠ .failing ∧ g' ≠ .rejected := by
  by_cases hne : p' = p
  · subst hne
    rw [Function.update_self] at hp'
    cases hp'
    exact hg
  · rw [Function.update_of_ne hne] at hp'
    exact h.built p' g' hp'

/-- A delivery writes the row. -/
theorem Tidy.writes (h : Tidy u φ n w) (hnone : w.inbox u = none) {row : TelegramUpdate}
    (hrow : w'.inbox u = some row) (hstatus : row.status = .pending) :
    Tidy u (Function.update φ p (some .handling)) n w' := by
  have hidle : ∀ p' g', p' ≠ p → φ p' = some g' → ¬g'.Busy := by
    intro p' g' _ hp' hb
    obtain ⟨row', hrow', -⟩ := h.busy p' g' hp' hb
    rw [hnone] at hrow'
    cases hrow'
  refine ⟨fun _ => h.absent hnone, fun row' hrow' => ?_, fun _ _ _ _ => ⟨row, hrow, hstatus⟩, ?_,
    fun _ _ => h.absent hnone, h.once, h.built_update (by decide)⟩
  · rw [hrow] at hrow'
    cases hrow'
    exact .inl hstatus
  · intro p₁ p₂ g₁ g₂ h₁ h₂ hb₁ hb₂
    exact (busy_self hidle h₁ hb₁).trans (busy_self hidle h₂ hb₂).symm

theorem Tidy.idle_others (h : Tidy u φ n w) (hp : φ p = some g) (hb : g.Busy) :
    ∀ p' g', p' ≠ p → φ p' = some g' → ¬g'.Busy :=
  fun p' g' hne hp' hb' => hne (h.alone p' p g' g hp' hp hb' hb)

/-- The handler of a delivery returns. -/
theorem Tidy.returns (h : Tidy u φ n w) (hp : φ p = some .handling) :
    Tidy u (Function.update φ p (some .returned)) (n + 1) w := by
  have hothers := h.idle_others hp (.inl rfl)
  obtain ⟨row, hrow, hstatus⟩ := h.busy p _ hp (.inl rfl)
  have hzero : n = 0 := h.fresh p hp
  refine ⟨fun hnone => ?_, h.status, fun _ _ _ _ => ⟨row, hrow, hstatus⟩, ?_, ?_, by omega,
    h.built_update (by decide)⟩
  · rw [hrow] at hnone
    cases hnone
  · intro p₁ p₂ g₁ g₂ h₁ h₂ hb₁ hb₂
    exact (busy_self hothers h₁ hb₁).trans (busy_self hothers h₂ hb₂).symm
  · intro p' hp'
    obtain rfl := busy_self hothers hp' (.inl rfl)
    rw [Function.update_self] at hp'
    cases hp'

/-- The row becomes PROCESSED. -/
theorem Tidy.finishes (h : Tidy u φ n w) (hp : φ p = some .returned) {row : TelegramUpdate}
    (hrow : w'.inbox u = some row) (hstatus : row.status = .processed) :
    Tidy u (Function.update φ p (some .finished)) n w' := by
  have hothers := h.idle_others hp (.inr rfl)
  have hidle : ∀ {p' g'}, Function.update φ p (some .finished) p' = some g' → ¬g'.Busy := by
    intro p' g' hp' hb
    obtain rfl := busy_self hothers hp' hb
    rw [Function.update_self] at hp'
    cases hp'
    rcases hb with hb | hb
    · cases hb
    · cases hb
  refine ⟨fun hnone => ?_, fun row' hrow' => ?_, fun p' g' hp' hb => (hidle hp' hb).elim,
    fun p₁ p₂ g₁ g₂ h₁ _ hb₁ _ => (hidle h₁ hb₁).elim,
    fun p' hp' => (hidle hp' (.inl rfl)).elim, h.once, h.built_update (by decide)⟩
  · rw [hrow] at hnone
    cases hnone
  · rw [hrow] at hrow'
    cases hrow'
    exact .inr hstatus

end tidy

/-! ## Runs -/

abbrev Event (env : Env) := (machine env).Event

section runs

variable {env : Env} {u : Int} {h : List (Event env)} {w : World} {e : Event env} {p : Pid}

/-- Process `p` delivers the update `u`. -/
def delivers (env : Env) (u : Int) (h : List (Event env)) (p : Pid) : Bool :=
  (request h p).bind (Delivery.updateId? env) = some u

/-- The process whose handler returns with this action. -/
def returns : (machine env).Act → Option Pid
  | .did p (.processUpdate _) _ _ | .did p (.deJson _) (.error _) _ => some p
  | _ => none

/-- How many handlers of the update `u` have returned with the event `e`. -/
def completion (env : Env) (u : Int) (h : List (Event env)) (e : Event env) : Nat :=
  match returns e.act with
  | some p => if delivers env u h p then 1 else 0
  | none => 0

def completions (env : Env) (u : Int) : List (Event env) → Nat
  | [] => 0
  | e :: h => completions env u h + completion env u h e

/-- At most one handler of the update has returned, and every other delivery of it is answered as a
duplicate. -/
structure HandledOnce (env : Env) (u : Int) (h : List (Event env)) : Prop where
  once : completions env u h ≤ 1
  dedup : Historically (fun h e => ∀ p a r stays, e.act = .did p (.respond a) r stays →
    delivers env u h p = true →
      (∃ v, a = .dedup v) ∨ ∃ e' ∈ course h p, returns e'.act = some p) h

/-- The operation comes back with what the table has. -/
def works (w : World) : (o : Op) → Except LibError o.Ans → Bool
  | .get id, r => r = (w.exec {} (.get id)).2
  | .insert id hash, r => r = (w.exec {} (.insert id hash)).2
  | .finish id status, r => r = (w.exec {} (.finish id status)).2
  | _, _ => true

/-- No crash, and a working database. -/
def Undisturbed (_ : List (Event env)) (e : Event env) : Prop :=
  match e.act with
  | .crashed _ => False
  | .did _ o r _ => works e.before o r = true
  | _ => True

instance (h : List (Event env)) (e : Event env) : Decidable (Undisturbed h e) :=
  match e with
  | ⟨_, .started .., _⟩ | ⟨_, .ticked _, _⟩ => .isTrue trivial
  | ⟨w, .did _ o r _, _⟩ => inferInstanceAs (Decidable (works w o r = true))
  | ⟨_, .crashed _, _⟩ => .isFalse id

/-- The row of `u` is looked up. -/
def looksUp (u : Int) : (machine env).Act → Bool
  | .did _ (.get id) _ _ => id = u
  | _ => false

/-- The process that finds that the bot cannot be built. -/
def cannotBuild : (machine env).Act → Option Pid
  | .did p .build (.error _) _ => some p
  | _ => none

/-- No delivery looks the row up while it is PENDING, and the bot can be built. -/
structure Unhurried (u : Int) (h : List (Event env)) (e : Event env) : Prop where
  settled : looksUp u e.act = true → ∀ row, e.before.inbox u = some row → row.status ≠ .pending
  built : ∀ p, cannotBuild e.act = some p → delivers env u h p = false

instance (u : Int) (h : List (Event env)) (e : Event env) : Decidable (Unhurried u h e) :=
  decidable_of_iff ((looksUp u e.act = true → ∀ row ∈ e.before.inbox u, row.status ≠ .pending) ∧
    ∀ p ∈ cannotBuild e.act, delivers env u h p = false)
    ⟨fun hu => ⟨hu.1, hu.2⟩, fun hu => ⟨hu.1, hu.2⟩⟩

abbrev stages (env : Env) (u : Int) (h : List (Event env)) : Pid → Option Stage :=
  phase (Handling u) (Stage.start u env) h

/-- The invariant of the histories. -/
structure Kept (env : Env) (u : Int) (h : List (Event env)) (w : World) : Prop where
  about : ∀ p g, stages env u h p = some g → (delivers env u h p = true ↔ g ≠ .other)
  done : ∀ p, stages env u h p = some .returned ∨ stages env u h p = some .finished →
    ∃ e ∈ course h p, returns e.act = some p
  tidy : Tidy u (stages env u h) (completions env u h) w

theorem Kept.initial (hw : w.Initial) : Kept env u [] w := by
  refine ⟨?_, ?_, ?_⟩
  · rintro p g ⟨⟩
  · rintro p (⟨⟨⟩⟩ | ⟨⟨⟩⟩)
  · refine ⟨fun _ => rfl, fun row hrow => ?_, ?_, ?_, ?_, Nat.zero_le 1, ?_⟩
    · rw [hw.inbox] at hrow
      cases hrow
    · rintro p g ⟨⟩
    · rintro p p' g g' ⟨⟩
    · rintro p ⟨⟩
    · rintro p g ⟨⟩

/-! ### What the stages tell -/

theorem next_eq_other {g : Stage} {o : Op} {r : Except LibError o.Ans} :
    g.next o r = .other ↔ g = .other := by
  constructor
  · intro hnext
    unfold Stage.next at hnext
    repeat' split at hnext
    all_goals first | exact hnext | cases hnext
  · rintro rfl
    exact next_other r

/-- A delivery whose handler has returned has just seen it, or knew. -/
theorem next_returned {g : Stage} {o : Op} {r : Except LibError o.Ans} (stays : Bool)
    (hnext : g.next o r = .returned ∨ g.next o r = .finished) :
    (g = .returned ∨ g = .finished) ∨
      returns (.did p o r stays : (machine env).Act) = some p := by
  unfold Stage.next at hnext
  split at hnext
  -- the handler returns when parsing raises, and after dispatch
  case h_7 => exact .inr rfl
  case h_8 => exact .inr rfl
  all_goals
    refine .inl ?_
    repeat' split at hnext
    all_goals first | exact hnext | exact .inl rfl | simp at hnext

theorem Kept.about_step (hk : Kept env u h w) (hl : Legal (Handling u) (Stage.start u env) h w e)
    (p : Pid) (g : Stage) (hg : stages env u (e :: h) p = some g) :
    delivers env u (e :: h) p = true ↔ g ≠ .other := by
  unfold delivers
  rcases hl.moved hg with ⟨running, other⟩ | ⟨q, act, rfl⟩ | ⟨act, running, -, rfl⟩
  · rw [request_other fun q stays he => other (by rw [he]; rfl)]
    exact hk.about p g running
  · rw [request_started act, decide_eq_true_eq]
    show Delivery.updateId? env q = some u ↔ _
    unfold Stage.start
    split
    · next hq => exact ⟨fun _ => by simp, fun _ => hq⟩
    · next hq => exact ⟨fun heq => (hq heq).elim, fun hne => (hne rfl).elim⟩
  · rw [request_other fun q stays he => by rw [act] at he; cases he]
    exact (hk.about p _ running).trans (not_congr next_eq_other.symm)

theorem Kept.done_step (hk : Kept env u h w) (hl : Legal (Handling u) (Stage.start u env) h w e)
    (p : Pid) (hp : stages env u (e :: h) p = some .returned ∨
      stages env u (e :: h) p = some .finished) :
    ∃ e' ∈ course (e :: h) p, returns e'.act = some p := by
  obtain ⟨g, hg, hphase⟩ : ∃ g, (g = .returned ∨ g = .finished) ∧
      stages env u (e :: h) p = some g := by
    rcases hp with hp | hp
    · exact ⟨_, .inl rfl, hp⟩
    · exact ⟨_, .inr rfl, hp⟩
  have hbefore : ∀ {g : Stage}, (g = .returned ∨ g = .finished) → stages env u h p = some g →
      ∃ e' ∈ course h p, returns e'.act = some p := by
    rintro g (rfl | rfl) hg
    · exact hk.done p (.inl hg)
    · exact hk.done p (.inr hg)
  rcases hl.moved hphase with ⟨running, other⟩ | ⟨q, act, rfl⟩ | ⟨act, running, -, rfl⟩
  · rw [course_of_other other]
    exact hbefore hg running
  · unfold Stage.start at hg
    split at hg
    · rcases hg with hg | hg <;> cases hg
    · rcases hg with hg | hg <;> cases hg
  · rw [course_did act]
    rcases next_returned true hg with hg | hreturns
    · obtain ⟨e', he', hr⟩ := hbefore hg running
      exact ⟨e', List.mem_cons_of_mem _ he', hr⟩
    · exact ⟨e, List.mem_cons_self, by rw [act]; exact hreturns⟩

/-! ### One operation on the row -/

theorem exec_world {ch : Choice} {o : Op} (ho : o.row? = none) : (w.exec ch o).1 = w := by
  cases o with
  | get id => cases ho
  | insert id hash => cases ho
  | finish id status => cases ho
  | _ => cases hfault : ch.fault <;> simp only [World.exec, hfault]

theorem exec_inbox_other {ch : Choice} {o : Op} (ho : o.row? ≠ some u) :
    (w.exec ch o).1.inbox u = w.inbox u := by
  have hput : ∀ {id row}, some id ≠ some u → (w.put id row).inbox u = w.inbox u := fun hne =>
    Function.update_of_ne (fun heq => hne (congrArg some heq.symm)) _ _
  cases o with
  | insert id hash =>
    cases hfault : ch.fault with
    | some x => simp only [World.exec, hfault]
    | none =>
      simp only [World.exec, hfault]
      split
      · split
        · rfl
        · exact hput ho
      · rfl
  | finish id status =>
    cases hfault : ch.fault with
    | some x => simp only [World.exec, hfault]
    | none =>
      simp only [World.exec, hfault]
      split
      · split
        · exact hput ho
        · rfl
      · rfl
  | get id =>
    cases hfault : ch.fault with
    | some x => simp only [World.exec, hfault]
    | none =>
      simp only [World.exec, hfault]
      split <;> rfl
  | _ => rw [exec_world rfl]

theorem get_world {ch : Choice} : (w.exec ch (.get u)).1 = w := by
  cases hfault : ch.fault with
  | some x => simp only [World.exec, hfault]
  | none =>
    simp only [World.exec, hfault]
    split <;> rfl

variable (hu : inRange u = true)

include hu

theorem get_works {r : Except LibError (Option TelegramUpdate)} (hr : works w (.get u) r = true) :
    r = .ok (w.inbox u) := by
  have hexec : (w.exec {} (.get u)).2 = .ok (w.inbox u) := by simp only [World.exec, hu, if_true]
  exact (of_decide_eq_true hr).trans hexec

/-- An `INSERT` that works: the row is there now, and it was not or was not touched. -/
theorem insert_works {ch : Choice} {hash : String}
    (hr : works w (.insert u hash) (w.exec ch (.insert u hash)).2 = true) :
    (w.inbox u = none ∧ (w.exec ch (.insert u hash)).2 = .ok () ∧
      (w.exec ch (.insert u hash)).1 = w.put u { payloadHash := hash, processedAt := w.now }) ∨
    (w.exec ch (.insert u hash)).2 = .error uniqueViolation ∧
      (w.exec ch (.insert u hash)).1 = w := by
  have heq := of_decide_eq_true hr
  cases hrow : w.inbox u with
  | none =>
    have hok : (w.exec {} (.insert u hash)).2 = .ok () := by
      simp only [World.exec, hu, hrow, if_true]
    rw [hok] at heq
    refine .inl ⟨rfl, heq, ?_⟩
    cases hfault : ch.fault with
    | some x =>
      simp only [World.exec, hfault] at heq
      cases heq
    | none => simp only [World.exec, hfault, hu, hrow, if_true]
  | some row =>
    have herr : (w.exec {} (.insert u hash)).2 = .error uniqueViolation := by
      simp only [World.exec, hu, hrow, if_true]
    rw [herr] at heq
    refine .inr ⟨heq, ?_⟩
    cases hfault : ch.fault with
    | some x => simp only [World.exec, hfault]
    | none => simp only [World.exec, hfault, hu, hrow, if_true]

/-- The final status is written to a row that is there. -/
theorem finish_works {ch : Choice} {status : UpdateStatus} {row : TelegramUpdate}
    (hrow : w.inbox u = some row)
    (hr : works w (.finish u status) (w.exec ch (.finish u status)).2 = true) :
    (w.exec ch (.finish u status)).1.inbox u = some (w.done row status) := by
  have hok : (w.exec {} (.finish u status)).2 = .ok () := by
    simp only [World.exec, hu, hrow, if_true]
  have heq := (of_decide_eq_true hr).trans hok
  cases hfault : ch.fault with
  | some x =>
    simp only [World.exec, hfault] at heq
    cases heq
  | none =>
    simp only [World.exec, hfault, hu, hrow, if_true]
    exact Function.update_self _ _ _

omit hu in
/-- The handlers of other updates do not count. -/
theorem completion_other {o : Op} {r : Except LibError o.Ans} {stays : Bool} {w' : World}
    (hp : delivers env u h p = false) : completion env u h ⟨w, .did p o r stays, w'⟩ = 0 := by
  have hcount : ∀ q, returns (.did p o r stays : (machine env).Act) = some q →
      delivers env u h q = false := by
    intro q hq
    unfold returns at hq
    split at hq
    · next heq =>
      cases heq
      cases hq
      exact hp
    · next heq =>
      cases heq
      cases hq
      exact hp
    · cases hq
  unfold completion
  split
  · next q hq =>
    rw [hcount q hq]
    rfl
  · rfl

omit hu in
/-- While the update is handled the row stays; it is returned at most once. -/
theorem Kept.handling_step (hk : Kept env u h w) {o : Op} {ch : Choice} {stays : Bool} {w' : World}
    (running : stages env u h p = some .handling) (allowed : Stage.handling.allows u o)
    (hq : Unhurried u h (⟨w, .did p o (w.exec ch o).2 stays, w'⟩ : Event env)) :
    Tidy u (Function.update (stages env u h) p (some (Stage.handling.next o (w.exec ch o).2)))
      (completions env u h + completion env u h ⟨w, .did p o (w.exec ch o).2 stays, w'⟩)
      (w.exec ch o).1 := by
  have htidy := hk.tidy
  have hdel := (hk.about p _ running).2 (by simp)
  have hstays : Tidy u (Function.update (stages env u h) p (some .handling)) (completions env u h)
      w := by
    rw [← running, Function.update_eq_self p]
    exact htidy
  have hreturns : Tidy u (Function.update (stages env u h) p (some .returned))
      (completions env u h + if delivers env u h p then 1 else 0) w := by
    rw [if_pos hdel]
    exact htidy.returns running
  cases o with
  | hasApp =>
    have hok : (w.exec ch .hasApp).2 = .ok ch.hasApp := by
      cases ch.fault <;> simp only [World.exec]
    rw [exec_world rfl, hok]
    exact hstays
  | build =>
    have hok : (w.exec ch .build).2 = .ok () := by
      cases hr : (w.exec ch .build).2 with
      | ok x => rfl
      | error x =>
        rw [hr] at hq
        rw [hq.built p rfl] at hdel
        cases hdel
    rw [exec_world rfl, hok]
    exact hstays
  | deJson body =>
    rw [exec_world rfl]
    cases hr : (w.exec ch (.deJson body)).2 with
    | ok upd => exact hstays
    | error x => exact hreturns
  | processUpdate upd =>
    rw [exec_world rfl]
    exact hreturns
  | _ => exact allowed.elim

/-- **One operation of a delivery.** -/
theorem Kept.did_step (hk : Kept env u h w) {o : Op} {g : Stage} {ch : Choice} {stays : Bool}
    {w' : World} (running : stages env u h p = some g) (allowed : g.allows u o)
    (hd : Undisturbed h (⟨w, .did p o (w.exec ch o).2 stays, w'⟩ : Event env))
    (hq : Unhurried u h (⟨w, .did p o (w.exec ch o).2 stays, w'⟩ : Event env)) :
    Tidy u (Function.update (stages env u h) p (some (g.next o (w.exec ch o).2)))
      (completions env u h + completion env u h ⟨w, .did p o (w.exec ch o).2 stays, w'⟩)
      (w.exec ch o).1 := by
  have habout := hk.about p g running
  have htidy := hk.tidy
  have hbuilt := htidy.built p g running
  cases g with
  | other =>
    have hnot : delivers env u h p = false := by
      rw [← Bool.not_eq_true]
      exact fun hdel => habout.1 hdel rfl
    rw [completion_other hnot, next_other]
    refine Tidy.elsewhere (htidy.rests fun g hg => ?_) (exec_inbox_other allowed)
    obtain rfl := Option.some.inj hg
    decide
  | failing => exact (hbuilt.1 rfl).elim
  | rejected => exact (hbuilt.2 rfl).elim
  | entered =>
    cases o with
    | get id =>
      obtain rfl : id = u := allowed
      rw [get_world, get_works hu hd]
      refine htidy.rests fun g hg => ?_
      obtain rfl := Option.some.inj hg
      cases hrow : w.inbox id with
      | none =>
        show Stage.Rests .missing
        decide
      | some row =>
        have hprocessed := (htidy.status row hrow).resolve_left
          (hq.settled (decide_eq_true rfl) row hrow)
        simp only [Stage.next, hprocessed, if_true]
        decide
    | _ => exact allowed.elim
  | missing =>
    cases o with
    | insert id hash =>
      obtain rfl : id = u := allowed
      rcases insert_works hu hd with ⟨hnone, hok, hput⟩ | ⟨herr, hsame⟩
      · rw [hok, hput]
        exact htidy.writes hnone (Function.update_self _ _ _) rfl
      · -- somebody else has written the row in the meantime
        have hdup : isDuplicate (.lib uniqueViolation) = true := by rfl
        rw [herr, hsame]
        refine htidy.rests fun g hg => ?_
        simp only [Stage.next, hdup, if_true] at hg
        obtain rfl := Option.some.inj hg
        decide
    | _ => exact allowed.elim
  | handling => exact hk.handling_step running allowed hq
  | returned =>
    cases o with
    | finish id status =>
      obtain ⟨rfl, rfl⟩ := allowed
      obtain ⟨row, hrow, -⟩ := htidy.busy p _ running (.inr rfl)
      exact htidy.finishes running (finish_works hu hrow hd) rfl
    | _ => exact allowed.elim
  | deduped =>
    cases o with
    | respond a =>
      rw [exec_world rfl]
      refine htidy.rests fun g hg => ?_
      obtain rfl := Option.some.inj hg
      show Stage.Rests .deduped
      decide
    | _ => exact allowed.elim
  | finished =>
    cases o with
    | respond a =>
      rw [exec_world rfl]
      refine htidy.rests fun g hg => ?_
      obtain rfl := Option.some.inj hg
      show Stage.Rests .finished
      decide
    | _ => exact allowed.elim

omit hu in
theorem settle_eq (stays : Bool) : (machine env).settle w p stays = w := by
  cases stays <;> rfl

theorem Kept.step (hk : Kept env u h w) (hl : Legal (Handling u) (Stage.start u env) h w e)
    (hd : Undisturbed h e) (hq : Unhurried u h e) : Kept env u (e :: h) e.after := by
  refine ⟨hk.about_step hl, hk.done_step hl, ?_⟩
  cases hl with
  | @started p d stays idle =>
    rw [stages, phase_started, settle_eq]
    refine Tidy.settled (hk.tidy.rests fun g hg => ?_) stays
    obtain rfl := Option.some.inj hg
    unfold Stage.start
    split <;> decide
  | @did p o g ch stays running allowed =>
    rw [stages, phase_did running, settle_eq]
    exact (hk.did_step hu running allowed hd hq).settled stays
  | crashed running => exact hd.elim
  | ticked t => exact hk.tidy.elsewhere rfl

omit hu in
/-- What a delivery of the update answers. -/
theorem Kept.answered (hk : Kept env u h w)
    (hl : Legal (Handling u) (Stage.start u env) h w e) (p : Pid) (a : Answer)
    (r : Except LibError Unit) (stays : Bool) (he : e.act = .did p (.respond a) r stays)
    (hp : delivers env u h p = true) :
    (∃ v, a = .dedup v) ∨ ∃ e' ∈ course h p, returns e'.act = some p := by
  cases hl with
  | @did p' o g ch stays' running allowed =>
    obtain ⟨rfl, rfl, -⟩ : p' = p ∧ o = .respond a ∧ stays' = stays := by
      injection he with h₁ h₂ h₃ h₄
      exact ⟨h₁, h₂, h₄⟩
    cases g with
    | other => exact ((hk.about _ _ running).1 hp rfl).elim
    | deduped => exact .inl allowed
    | finished => exact .inr (hk.done _ (.inr running))
    | rejected => exact ((hk.tidy.built _ _ running).2 rfl).elim
    | _ => exact allowed.elim
  | _ => cases he

end runs

/-- **An update is handled at most once** in a run where nobody looks its row up while the row is
PENDING and the bot can be built. -/
theorem handled_once {env : Env} {u : Int} (hu : inRange u = true) {c : (machine env).Config}
    (hc : Reaches (machine env) World.Initial (fun h e => Undisturbed h e ∧ Unhurried u h e) c) :
    HandledOnce env u c.hist := by
  refine ⟨?_, ?_⟩
  · exact (hc.induct program_keeps (P := Kept env u) (fun w hw => .initial hw)
      fun h w e hk hl hK => hk.step hu hl hK.1 hK.2).tidy.once
  · exact hc.historically program_keeps (P := Kept env u) (fun w hw => .initial hw)
      fun h w e hk hl hK => ⟨hk.step hu hl hK.1 hK.2, hk.answered hl⟩

def noUpdates : World := ⟨fun _ => none, 0⟩

theorem noUpdates_initial : noUpdates.Initial := ⟨fun _ => rfl⟩

/-- Two deliveries of update 7, one after the other. -/
theorem handled_once_redelivered : inRange 7 = true ∧ ∃ c : (machine sampleEnv).Config,
    Reaches (machine sampleEnv) World.Initial (fun h e => Undisturbed h e ∧ Unhurried 7 h e) c ∧
      completions sampleEnv 7 c.hist = 1 ∧ HandledOnce sampleEnv 7 c.hist := by
  have hrun : ((Config.initial noUpdates : (machine sampleEnv).Config).run
      (fun h e => Undisturbed h e ∧ Unhurried 7 h e)
      (.start 0 sample :: List.replicate 7 (.perform 0 {}) ++
        .start 1 sample :: List.replicate 2 (.perform 1 {}))).map
      (fun c => completions sampleEnv 7 c.hist) = some 1 := by rfl
  obtain ⟨c, hc, hone⟩ := Option.map_eq_some_iff.1 hrun
  have hreach := (Reaches.init noUpdates_initial).run hc
  have hu : inRange 7 = true := by decide
  exact ⟨hu, c, hreach, hone, handled_once hu hreach⟩

/-- A delivery that finds the row PENDING runs the handler a second time. -/
theorem handled_twice : ¬∀ (env : Env) (u : Int) (c : (machine env).Config),
    Reaches (machine env) World.Initial Undisturbed c → HandledOnce env u c.hist := by
  intro hclaim
  have hrun : ((Config.initial noUpdates : (machine sampleEnv).Config).run Undisturbed
      ([.start 0 sample, .perform 0 {}, .perform 0 {}, .start 1 sample, .perform 1 {}] ++
        List.replicate 3 (.perform 0 {}) ++ List.replicate 3 (.perform 1 {}))).map
      (fun c => completions sampleEnv 7 c.hist) = some 2 := by rfl
  obtain ⟨c, hc, htwo⟩ := Option.map_eq_some_iff.1 hrun
  have honce := (hclaim sampleEnv 7 c ((Reaches.init noUpdates_initial).run hc)).once
  omega

end Webhook

end Observatory
