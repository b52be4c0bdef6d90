import Observatory.Model.Columns
import Observatory.Verify.AgentScorer
import Observatory.Verify.NonceTable

/-!
# Counters and their columns

A nonce counts milliseconds, and since 2020 none of these fits the column that keeps it; what is
written fits only while a clock runs past the 19 digits and the generator starts from one
(`stored_iff`).  A cursor fits as long as no message has a number that does not
(`pollOnce_fits`), which the column of the messages does not ask for.
-/

namespace Observatory

open Effect

theorem stores_integer {n : Int} :
    ColumnType.integer.stores n = true ↔ -2 ^ 31 ≤ n ∧ n < 2 ^ 31 := by
  rw [ColumnType.stores, Bool.and_eq_true, decide_eq_true_eq, decide_eq_true_eq]
  rfl

namespace NonceTable

open Technocore (MonotonicNonce ProcessId lt_next_iff)

/-! ## The nonce that is written -/

/-- 1 January 2020, in milliseconds. -/
def epoch2020 : Int := 1577836800000

/-- What `next_nonce_db` writes for a candidate, where it has read a row or none. -/
def nonceFor (candidate : Int) : Option Int → Int
  | none => candidate
  | some last => nonceAfter candidate last

/-- **A nonce fits its column** only if the clock runs past the largest one. -/
theorem nonceFor_stored_iff {g : MonotonicNonce} {nowMs : Int} {row : Option Int}
    (hlast : 0 ≤ g.last) (hnow : epoch2020 ≤ nowMs) :
    lastNonceColumn.stores (nonceFor (g.next nowMs).2 row) = true ↔
      MonotonicNonce.maxNonce < nowMs ∧ g.last + 1 < 2 ^ 31 ∧ ∀ last ∈ row, last + 1 < 2 ^ 31 := by
  have hcandidate : 0 < (g.next nowMs).2 ∧ ((g.next nowMs).2 < 2 ^ 31 ↔
      MonotonicNonce.maxNonce < nowMs ∧ g.last + 1 < 2 ^ 31) := by
    unfold MonotonicNonce.next
    unfold epoch2020 at hnow
    simp only [MonotonicNonce.maxNonce]
    grind
  rw [lastNonceColumn, stores_integer]
  cases row with
  | none =>
    simp only [nonceFor]
    grind
  | some last =>
    simp only [nonceFor, nonceAfter, Option.mem_def, Option.some.injEq, forall_eq']
    grind

/-- A draw: the generator, and what the clock shows. -/
def drawOf (e : Event) : Option (MonotonicNonce × Int) :=
  match e.act with
  | .did _ (.nextNonce proc) (.ok _) _ => some (e.before.gens proc, e.before.clock proc)
  | _ => none

/-- The row that a call has read, if there was one. -/
def readOf (e : Event) : Option (Option Int) :=
  match e.act with
  | .did _ (.selectForUpdate _) (.ok row) _ => some row
  | _ => none

/-- A statement of `next_nonce_db` that writes a row. -/
def writtenBy : nonceTable.Act → Option (Pid × TechnocoreNonce)
  | .did p o _ _ => o.row?.map fun row => (p, row)
  | _ => none

/-- All clocks are past 2020 when nonces are drawn. -/
def After2020 (_ : List Event) (e : Event) : Prop := ∀ d ∈ drawOf e, epoch2020 ≤ d.2

/-- What is written fits the column. -/
def Stored (_ : List Event) (e : Event) : Prop :=
  ∀ x ∈ writtenBy e.act, lastNonceColumn.stores x.2.lastNonce = true

/-- The clock was past the largest nonce when the candidate was drawn, and neither the generator nor
the row had come to the end of the column. -/
def StartsOver (h : List Event) (e : Event) : Prop :=
  ∀ x ∈ writtenBy e.act, ∀ d ∈ ((Machine.course h x.1).filterMap drawOf).head?,
    ∀ row ∈ ((Machine.course h x.1).filterMap readOf).head?,
      MonotonicNonce.maxNonce < d.2 ∧ d.1.last + 1 < 2 ^ 31 ∧ ∀ last ∈ row, last + 1 < 2 ^ 31

/-- What a stage tells of the course of its transaction. -/
def Stage.Recalls (es : List Event) : Stage → Prop
  | .selected _ row => (es.filterMap readOf).head? = some row
  | .drawn _ row candidate => (es.filterMap readOf).head? = some row ∧
      ∃ d, (es.filterMap drawOf).head? = some d ∧ 0 ≤ d.1.last ∧ epoch2020 ≤ d.2 ∧
        candidate = (d.1.next d.2).2
  | _ => True

section run

variable {h : List Event} {w : World} {e : Event} {p : Pid} {g : Session}

/-- The invariant of a run after 2020. -/
structure Dated (h : List Event) (w : World) : Prop where
  gens : ∀ proc, 0 ≤ (w.gens proc).last
  recalls : ∀ p g, sessions h p = some g → g.stage.Recalls (Machine.course h p)

theorem last_next_nonneg {g : MonotonicNonce} {nowMs : Int} (h : 0 ≤ g.last) :
    0 ≤ (g.next nowMs).1.last := h.trans (lt_next_iff.2 (.inl (le_refl g.last))).le

theorem last_ensureGreater_nonneg {g : MonotonicNonce} {candidate : Int} (h : 0 ≤ g.last) :
    0 ≤ (g.ensureGreater candidate).1.last := by
  simp only [MonotonicNonce.ensureGreater]
  split <;> omega

theorem gens_update {gens : ProcessId → MonotonicNonce} (h : ∀ proc, 0 ≤ (gens proc).last)
    {proc : ProcessId} {g : MonotonicNonce} (hg : 0 ≤ g.last) :
    ∀ proc', 0 ≤ (Function.update gens proc g proc').last := by
  intro proc'
  by_cases hp : proc' = proc
  · rw [hp, Function.update_self]
    exact hg
  · rw [Function.update_of_ne hp]
    exact h proc'

theorem gens_perform (h : ∀ proc, 0 ≤ (w.gens proc).last) (o : Op) (ch : Choice) :
    ∀ proc, 0 ≤ ((w.perform p o ch).1.gens proc).last := by
  rcases ch with ⟨fault⟩
  cases o with
  | nextNonce proc => cases fault <;> exact gens_update h (last_next_nonneg (h proc))
  | selectForUpdate key =>
    cases fault with
    | some x => exact h
    | none =>
      simp only [World.perform, World.exec]
      split
      · exact h
      · split <;> exact h
  | insertRow row =>
    cases fault with
    | some x => exact h
    | none =>
      simp only [World.perform, World.exec]
      split <;> exact h
  | updateRow row =>
    cases fault with
    | some x => exact h
    | none =>
      simp only [World.perform, World.exec]
      split <;> exact h
  | _ => cases fault <;> exact h

/-- **A stage remembers** what was read and drawn. -/
theorem Stage.Recalls.did {es : List Event} (hg : g.stage.Recalls es) {o : Op} {ch : Choice}
    {stays : Bool} (hbefore : e.before = w) (he : e.act = .did p o (w.perform p o ch).2 stays)
    (hgens : ∀ proc, 0 ≤ (w.gens proc).last) (hdate : After2020 h e) (hallowed : g.allows o) :
    (g.next o (w.perform p o ch).2).stage.Recalls (e :: es) := by
  cases o with
  | selectForUpdate key =>
    generalize (w.perform p (.selectForUpdate key) ch).2 = r at he
    cases r with
    | error x => trivial
    | ok row =>
      have hread : readOf e = some row := by rw [readOf, he]
      exact congrArg List.head? (List.filterMap_cons_some hread)
  | nextNonce proc =>
    obtain ⟨key, row, hselected⟩ := hallowed
    have hresult : (w.perform p (.nextNonce proc) ch).2 =
        .ok ((w.gens proc).next (w.clock proc)).2 := by
      rcases ch with ⟨fault⟩
      cases fault <;> rfl
    rw [hresult] at he ⊢
    rw [hselected] at hg
    have hdraw : drawOf e = some (w.gens proc, w.clock proc) := by rw [drawOf, he, ← hbefore]
    have hread : readOf e = none := by rw [readOf, he]
    simp only [Session.next, hselected]
    refine ⟨?_, _, ?_, hgens proc, hdate _ hdraw, rfl⟩
    · rw [List.filterMap_cons_none hread]
      exact hg
    · exact congrArg List.head? (List.filterMap_cons_some hdraw)
  | insertRow row => cases (w.perform p (.insertRow row) ch).2 <;> trivial
  | updateRow row => cases (w.perform p (.updateRow row) ch).2 <;> trivial
  | returned row => cases (w.perform p (.returned row) ch).2 <;> trivial
  | commit => cases (w.perform p .commit ch).2 <;> trivial
  | rollback => cases (w.perform p .rollback ch).2 <;> trivial

theorem gens_settle (hgens : ∀ proc, 0 ≤ (w.gens proc).last) (stays : Bool) :
    ∀ proc, 0 ≤ ((Machine.settle nonceTable w p stays).gens proc).last := by
  cases stays <;> exact hgens

theorem Dated.step (hd : Dated h w) (hl : Machine.Legal Discipline (fun _ => {}) h w e)
    (hdate : After2020 h e) : Dated (e :: h) e.after := by
  refine ⟨?_, fun p g hg => ?_⟩
  · cases hl with
    | started q stays idle => exact gens_settle hd.gens stays
    | did ch stays running allowed => exact gens_settle (gens_perform hd.gens _ ch) stays
    | crashed running => exact hd.gens
    | ticked t =>
      cases t with
      | clock proc nowMs => exact hd.gens
      | next proc => exact gens_update hd.gens (last_next_nonneg (hd.gens proc))
      | ensureGreater proc candidate =>
        exact gens_update hd.gens (last_ensureGreater_nonneg (hd.gens proc))
      | restart proc => exact gens_update hd.gens (le_refl _)
  · by_cases hp : e.act.pid? = some p
    swap
    · rw [Machine.course_of_other hp]
      exact hd.recalls p g ((Machine.phase_of_other hp).symm.trans hg)
    cases hl with
    | started q stays idle =>
      cases hp
      cases stays with
      | true =>
        obtain rfl : g = {} := by simpa [Machine.phase] using hg.symm
        trivial
      | false => simp [Machine.phase] at hg
    | @did p' o g₀ ch stays running allowed =>
      cases hp
      cases stays with
      | true =>
        have hnext : sessions (⟨w, .did p o (w.perform p o ch).2 true,
            nonceTable.settle (w.perform p o ch).1 p true⟩ :: h) p =
              some (g₀.next o (w.perform p o ch).2) := by
          rw [sessions, Machine.phase_did running, Function.update_self]
          rfl
        obtain rfl := Option.some.inj (hnext.symm.trans hg)
        rw [Machine.course_did rfl]
        exact (hd.recalls p g₀ running).did rfl rfl hd.gens hdate allowed
      | false => simp [Machine.phase] at hg
    | crashed running =>
      cases hp
      simp [Machine.phase] at hg
    | ticked t => cases hp

/-- **A statement writes what fits** just if the generator has started over. -/
theorem Dated.stored_iff (hd : Dated h w) (hl : Machine.Legal Discipline (fun _ => {}) h w e) :
    Stored h e ↔ StartsOver h e := by
  refine forall_congr' fun x => forall_congr' fun hx => ?_
  cases hl with
  | @did p o g ch stays running allowed =>
    have hrecalls := hd.recalls p g running
    have hwritten : ∃ row candidate, x = (p, ⟨x.2.key, nonceFor candidate row⟩) ∧
        g.stage = .drawn x.2.key row candidate := by
      cases o with
      | insertRow row =>
        cases hx
        exact ⟨none, row.lastNonce, rfl, allowed⟩
      | updateRow row =>
        cases hx
        obtain ⟨last, candidate, hdrawn, hnonce⟩ := allowed
        refine ⟨some last, candidate, ?_, hdrawn⟩
        rw [nonceFor, ← hnonce]
      | _ => cases hx
    obtain ⟨row, candidate, hx, hdrawn⟩ := hwritten
    rw [hdrawn] at hrecalls
    obtain ⟨hread, d, hdraw, hlast, hnow, rfl⟩ := hrecalls
    rw [hx]
    simp only [hread, hdraw, Option.mem_def, Option.some.injEq, forall_eq']
    exact nonceFor_stored_iff hlast hnow
  | _ => cases hx

end run

/-- **What a run writes fits** just if the generators start over each time. -/
theorem nonces_stored_iff {c : nonceTable.Config}
    (hc : Machine.Reaches nonceTable World.Initial After2020 c) :
    Historically Stored c.hist ↔ Historically StartsOver c.hist := by
  have hpast : Historically (fun h e => Stored h e ↔ StartsOver h e) c.hist :=
    hc.historically program_keeps (P := Dated)
      (fun w hw => ⟨fun proc => by rw [hw.gens proc], fun p g hg => by cases hg⟩)
      fun h w e hd hl hdate => ⟨hd.step hl hdate, hd.stored_iff hl⟩
  constructor
  · intro hstored
    exact (hpast.and hstored).mono fun h e hboth => hboth.1.1 hboth.2
  · intro hover
    exact (hpast.and hover).mono fun h e hboth => hboth.1.2 hboth.2

end NonceTable

namespace AgentScorer

open Prog

variable {py : Python} {room : String} {seq : Int} {w w' : World} {t : List (Performed Sys)}

/-! ## The cursor that is written -/

theorem advanced_eq :
    w.advanced room seq = ((w.cursorWritten room seq).or (w.current.cursors room)).getD seq := by
  unfold World.advanced World.cursorWritten
  cases w.current.cursors room with
  | none => rfl
  | some lastSeq =>
    simp only [Option.elim_some]
    split
    · next hlt => exact max_eq_left hlt.le
    · next hnot => exact max_eq_right (Int.not_lt.1 hnot)

theorem stores_lastSeq {n : Int} (hn : 0 ≤ n) : lastSeqColumn.stores n = true ↔ n < 2 ^ 31 := by
  rw [lastSeqColumn, stores_integer]
  omega

/-- **A cursor fits its column** if the number does, or if the row is not changed. -/
theorem cursorWritten_stored_iff (hseq : 0 ≤ seq) :
    (∀ v ∈ w.cursorWritten room seq, lastSeqColumn.stores v = true) ↔
      seq < 2 ^ 31 ∨ ∃ last, w.current.cursors room = some last ∧ seq ≤ last := by
  unfold World.cursorWritten
  cases w.current.cursors room with
  | none =>
    simp only [Option.mem_def, Option.some.injEq, forall_eq', stores_lastSeq hseq]
    simp
  | some lastSeq =>
    by_cases hlt : lastSeq < seq
    · simp only [if_pos hlt, Option.mem_def, Option.some.injEq, forall_eq', stores_lastSeq hseq]
      constructor
      · exact .inl
      · rintro (h | ⟨last, rfl, hle⟩)
        · exact h
        · omega
    · simp only [if_neg hlt]
      refine ⟨fun _ => .inr ⟨lastSeq, rfl, Int.not_lt.1 hlt⟩, ?_⟩
      rintro - v ⟨⟩

/-! ## What a poll writes -/

/-- The numbers of a response fit the column of the cursors. -/
structure Small (py : Python) (data : Dict) : Prop where
  lastSeq : ∀ x, data.get "last_seq" = some x → ∀ v, toInt py x = .ok v → v < 2 ^ 31
  messages : ∀ msgs, messagesOf data = .ok msgs → ∀ msg, .obj msg ∈ msgs → seqOf py msg < 2 ^ 31

/-- The phase says whether all that has been read so far fits. -/
def Fitting (py : Python) : Protocol Sys Prop where
  allows
    | fits, .setCursor _ seq => 0 ≤ seq ∧ (fits → seq < 2 ^ 31)
    | _, _ => True
  next
    | fits, .getCursor _, .ok cursor => fits ∧ cursor < 2 ^ 31
    | fits, .fetchRoom .., .ok data => fits ∧ Small py data
    | fits, _, _ => fits

section programs

variable {fits : Prop} {α : Type}

/-- What a part of a poll has read. -/
abbrev Reads (fits : Prop) (P : α → Prop) : Except LibError α → Prop → Prop :=
  Ends (fun a fits' => (fits' → fits) ∧ (fits' → P a)) fun fits' => fits' → fits

/-- Rows and commits do not read numbers. -/
theorem rowOps_fit {p : Proc α} (hp : p.Only RowOp) :
    p.wp (Fitting py) (fun _ fits' => fits' = fits) fits :=
  hp.wp fun o ho => by cases ho <;> exact ⟨trivial, fun r => rfl⟩

theorem setCursor_fits (hseq : fits → seq < 2 ^ 31) :
    (setCursor room seq).wp (Fitting py) (fun _ fits' => fits' = fits) fits := by
  unfold setCursor
  split
  · exact rfl
  · next hneg => exact wp_call.2 ⟨⟨Int.not_lt.1 hneg, hseq⟩, fun _ => rfl, fun _ => rfl⟩

theorem lastSeq_small {data : Dict} (h : Small py data) {cursor v : Int} (hcursor : cursor < 2 ^ 31)
    (hv : toInt py (orElse (getD data "last_seq" (.int cursor)) (.int cursor)) = .ok v) :
    v < 2 ^ 31 := by
  unfold orElse getD at hv
  cases hget : data.get "last_seq" with
  | none =>
    rw [hget, Option.getD_none, ite_self] at hv
    cases hv
    exact hcursor
  | some x =>
    rw [hget, Option.getD_some] at hv
    split at hv
    · exact h.lastSeq x hget v hv
    · cases hv
      exact hcursor

theorem lastSeqOf_small {data : Dict} (h : Small py data) {cursor : Int}
    (hcursor : cursor < 2 ^ 31) : lastSeqOf py data cursor < 2 ^ 31 := by
  unfold lastSeqOf
  split
  · exact hcursor
  · cases hget : data.get "last_seq" with
    | none =>
      rw [getD, hget, Option.getD_none]
      exact hcursor
    | some x =>
      rw [getD, hget, Option.getD_some]
      cases hv : toInt py x with
      | ok v => exact h.lastSeq x hget v hv
      | error e => exact hcursor

theorem advanceCursor_fits {data : Dict} (hdata : fits → Small py data) :
    (advanceCursor py room data).wp (Fitting py) (fun _ fits' => fits' = fits) fits := by
  unfold advanceCursor
  simp only [bind_eq, wp_bind, wp_ofExcept]
  cases hv : toInt py (orElse (getD data "last_seq" (.int 0)) (.int 0)) with
  | error x => exact rfl
  | ok v => exact setCursor_fits fun hfits => lastSeq_small (hdata hfits) (by decide) hv

theorem cursorOf_fits :
    (cursorOf room).wp (Fitting py) (Reads fits (· < 2 ^ 31)) fits := by
  unfold cursorOf
  simp only [bind_eq]
  refine Ends.attempt trivial (fun (cursor : Int) => ?_) fun x => ?_
  · exact ⟨And.left, And.right⟩
  · exact ⟨fun hfits => hfits, fun _ => by decide⟩

theorem readRoom_fits {since : Int} :
    (readRoom py room since).wp (Fitting py) (Reads fits (Small py)) fits := by
  unfold readRoom
  simp only [bind_eq]
  split
  · exact fun hfits => hfits
  · refine Ends.call trivial (fun (data : Dict) => ?_) fun x hfits => hfits
    rw [wp_bind, wp_swallow]
    refine wp_mono ?_ (advanceCursor_fits And.right)
    rintro r fits' rfl
    exact ⟨And.left, And.right⟩

theorem committing_fits {body : Proc Unit}
    (hbody : body.wp (Fitting py) (fun _ fits' => fits' = fits) fits) :
    (committing body).wp (Fitting py) (fun _ _ => True) fits := by
  refine wp_bind.2 (wp_attempt.2 (wp_bind.2 (wp_mono ?_ hbody)))
  have hrollback : ∀ g, rollback.wp (Fitting py) (fun _ _ => True) g := fun g =>
    wp_swallow.2 (wp_call.2 ⟨trivial, fun _ => trivial, fun _ => trivial⟩)
  rintro (x | u) g rfl
  · exact hrollback g
  · exact wp_call.2 ⟨trivial, fun _ => trivial, fun x => hrollback g⟩

/-- The highest number of the messages. -/
theorem handleMessages_fits {msgs : List Json} {maxSeq : Int} {processed : Nat}
    (hmax : fits → maxSeq < 2 ^ 31)
    (hmsgs : fits → ∀ msg, .obj msg ∈ msgs → seqOf py msg < 2 ^ 31) :
    (handleMessages py room msgs maxSeq processed).wp (Fitting py)
      (Reads fits fun r => r.1 < 2 ^ 31) fits := by
  have htail : ∀ {m : Json} {rest : List Json},
      (fits → ∀ msg, .obj msg ∈ m :: rest → seqOf py msg < 2 ^ 31) →
        fits → ∀ msg, .obj msg ∈ rest → seqOf py msg < 2 ^ 31 := fun h hfits msg hmem =>
    h hfits msg (List.mem_cons_of_mem _ hmem)
  fun_induction handleMessages py room msgs maxSeq processed with
  | case1 maxSeq processed => exact ⟨fun hfits => hfits, hmax⟩
  | case2 maxSeq processed msg rest seq hseq ih => exact ih hmax (htail hmsgs)
  | case3 maxSeq processed msg rest seq hseq ih =>
    refine wp_bind.2 (wp_mono ?_ (rowOps_fit handleMessage_only))
    rintro (x | n) fits' rfl
    · exact fun hfits => hfits
    · refine ih n (fun hfits => ?_) (htail hmsgs)
      exact max_lt (hmax hfits) (hmsgs hfits _ List.mem_cons_self)
  | case4 msg rest maxSeq processed hmsg ih => exact ih hmax (htail hmsgs)

theorem pollRoom_fits : (pollRoom py room).wp (Fitting py) (fun _ _ => True) fits := by
  unfold pollRoom
  simp only [bind_eq]
  refine wp_bind.2 (wp_mono ?_ cursorOf_fits)
  rintro (x | cursor) fits₁ hcursor
  · trivial
  refine wp_bind.2 (wp_attempt.2 (wp_mono ?_ readRoom_fits))
  rintro (x | data) fits₂ hdata
  · trivial
  obtain ⟨hback, hsmall⟩ := hdata
  rw [bindPost_ok, wp_bind, wp_ofExcept]
  cases hmsgs : messagesOf data with
  | error x => trivial
  | ok msgs =>
    rw [bindPost_ok, wp_bind]
    refine wp_mono ?_ (handleMessages_fits (fun hfits => hcursor.2 (hback hfits)) fun hfits =>
      (hsmall hfits).messages msgs hmsgs)
    rintro (x | ⟨maxSeq, processed⟩) fits₃ hmax
    · trivial
    rw [bindPost_ok, wp_bind]
    refine wp_mono (fun r g _ => ?_) (@committing_fits py fits₃ _ ?_)
    · cases r <;> trivial
    · split
      · refine setCursor_fits fun hfits => max_lt ?_ (hmax.2 hfits)
        exact lastSeqOf_small (hsmall (hmax.1 hfits)) (hcursor.2 (hback (hmax.1 hfits)))
      · exact rfl

theorem pollRooms_fits {rooms : List String} :
    (pollRooms py rooms).wp (Fitting py) (fun _ _ => True) fits := by
  induction rooms generalizing fits with
  | nil => trivial
  | cons room rest ih =>
    refine wp_bind.2 (wp_mono ?_ pollRoom_fits)
    rintro (x | n) fits' -
    · trivial
    refine wp_bind.2 (wp_mono ?_ ih)
    rintro (x | m) fits'' - <;> trivial

theorem discover_fits {cfg : Settings} {discovered : List String} :
    (discover py cfg discovered).wp (Fitting py) (fun _ _ => True) fits := by
  unfold discover
  simp only [bind_eq]
  refine wp_bind.2 (wp_mono ?_ cursorOf_fits)
  rintro (x | since) fits₁ hsince
  · trivial
  refine wp_bind.2 (wp_attempt.2 (wp_mono ?_ readRoom_fits))
  rintro (x | data) fits₂ hdata
  · trivial
  obtain ⟨hback, hsmall⟩ := hdata
  simp only [bindPost_ok]
  split
  · trivial
  · split
    · trivial
    · split
      · refine wp_bind.2 (wp_swallow.2 (wp_call.2 ⟨trivial, fun _ => trivial, fun _ => trivial⟩))
      · next last hlast =>
        split
        · refine wp_bind.2 (wp_mono (fun r g _ => ?_)
            (committing_fits (setCursor_fits fun hfits => ?_)))
          · cases r <;> trivial
          · exact lastSeq_small (hsmall hfits) (hsince.2 (hback hfits)) hlast
        · trivial

theorem pollOnce_fits_wp {cfg : Settings} {discovered : List String} :
    (pollOnce py cfg discovered).wp (Fitting py) (fun _ _ => True) fits := by
  unfold pollOnce
  split
  · trivial
  · refine wp_bind.2 (wp_mono ?_ discover_fits)
    rintro (x | found) fits' -
    · trivial
    · exact pollRooms_fits

end programs

/-- All cursors fit their column, the committed ones and the session's. -/
structure CursorsFit (w : World) : Prop where
  committed : ∀ room v, w.committed.cursors room = some v → lastSeqColumn.stores v = true
  moved : ∀ x ∈ w.moved, lastSeqColumn.stores x.2 = true

theorem CursorsFit.current (hw : CursorsFit w) {v : Int}
    (hv : w.current.cursors room = some v) : lastSeqColumn.stores v = true := by
  have hv' : (w.moved.lookup room).or (w.committed.cursors room) = some v := hv
  cases hl : w.moved.lookup room with
  | none =>
    rw [hl, Option.none_or] at hv'
    exact hw.committed room v hv'
  | some u =>
    rw [hl, Option.some_or] at hv'
    cases hv'
    obtain ⟨before, after, hmoved, -⟩ := List.lookup_eq_some_iff.1 hl
    exact hw.moved (room, v) (hmoved ▸ by simp)

theorem CursorsFit.statement {α : Type} {ch : Choice} {effect : Except LibError (World × α)}
    (hw : CursorsFit w) (heffect : ∀ w' a, effect = .ok (w', a) → CursorsFit w') :
    CursorsFit (w.statement ch effect).1 := by
  unfold World.statement
  split
  · exact hw
  · split
    · exact ⟨hw.committed, hw.moved⟩
    · exact ⟨hw.committed, hw.moved⟩
    · exact heffect _ _ rfl

theorem CursorsFit.exec (hw : CursorsFit w) (ch : Choice) (o : Op)
    (hset : ∀ room seq, o = .setCursor room seq → lastSeqColumn.stores seq = true) :
    CursorsFit (w.exec ch o).1 := by
  cases o with
  | getCursor room => exact hw.statement fun w' a heq => by cases heq; exact hw
  | setCursor room seq =>
    refine hw.statement fun w' a heq => ?_
    cases heq
    refine ⟨hw.committed, List.forall_mem_cons.2 ⟨?_, hw.moved⟩⟩
    show lastSeqColumn.stores (w.advanced room seq) = true
    unfold World.advanced
    cases hc : w.current.cursors room with
    | none => exact hset room seq rfl
    | some last =>
      rw [Option.elim_some]
      rcases max_choice seq last with hmax | hmax
      · rw [hmax]
        exact hset room seq rfl
      · rw [hmax]
        exact hw.current hc
  | selectEvaluation room seq => exact hw.statement fun w' a heq => by cases heq; exact hw
  | insertEvaluation row =>
    refine hw.statement fun w' a heq => ?_
    split at heq
    · cases heq
    · cases heq
      exact ⟨hw.committed, hw.moved⟩
  | commit =>
    refine hw.statement fun w' a heq => ?_
    cases heq
    exact ⟨fun room v hv => hw.current hv, fun x hx => by cases hx⟩
  | rollback =>
    rcases ch with ⟨fault, data, result⟩
    cases fault with
    | some x => exact ⟨hw.committed, hw.moved⟩
    | none => exact ⟨hw.committed, fun x hx => by cases hx⟩
  | fetchRoom room since => exact hw
  | evaluate call => exact hw
  | sendRiskAlert row => exact hw

/-- A response that was read along the trace. -/
def Fetched (t : List (Performed Sys)) (data : Dict) : Prop :=
  ∃ room since, (⟨.fetchRoom room since, .ok data⟩ : Performed Sys) ∈ t

/-- Along the trace, only numbers that fit are written to the column. -/
def WritesFit (t : List (Performed Sys)) : Prop :=
  ∀ room seq r, (⟨.setCursor room seq, r⟩ : Performed Sys) ∈ t → lastSeqColumn.stores seq = true

theorem getCursor_low {ch : Choice} {cursor : Int} (hw : CursorsFit w)
    (hr : (w.exec ch (.getCursor room)).2 = .ok cursor) : cursor < 2 ^ 31 := by
  have hread : cursor = (w.current.cursors room).getD 0 := by
    simp only [World.exec, World.statement] at hr
    split at hr
    · cases hr
    · split at hr
      · cases hr
      · next heq => cases heq
      · next heq =>
        cases heq
        exact (Except.ok.inj hr).symm
  rw [hread]
  cases hc : w.current.cursors room with
  | none => exact of_decide_eq_true rfl
  | some v =>
    have hstores := hw.current hc
    rw [lastSeqColumn, stores_integer] at hstores
    exact hstores.2

theorem steps_fit {fits : Prop} (hsteps : Steps World.exec w t w')
    (hadmits : (Fitting py).Admits fits t) (hfits : fits) (hw : CursorsFit w)
    (hdata : ∀ data, Fetched t data → Small py data) : WritesFit t ∧ CursorsFit w' := by
  induction hsteps generalizing fits with
  | nil w => exact ⟨fun room seq r hmem => absurd hmem List.not_mem_nil, hw⟩
  | @cons w w' t ch o hrest ih =>
    obtain ⟨hallowed, hadmits⟩ := hadmits
    have hset : ∀ room seq, o = .setCursor room seq → lastSeqColumn.stores seq = true := by
      rintro room seq rfl
      exact (stores_lastSeq hallowed.1).2 (hallowed.2 hfits)
    have hnext : (Fitting py).next fits o (w.exec ch o).2 := by
      cases o with
      | getCursor room =>
        cases hr : (w.exec ch (.getCursor room)).2 with
        | error x => exact hfits
        | ok cursor => exact ⟨hfits, getCursor_low hw hr⟩
      | fetchRoom room since =>
        cases hr : (w.exec ch (.fetchRoom room since)).2 with
        | error x => exact hfits
        | ok data => exact ⟨hfits, hdata data ⟨room, since, by rw [hr]; exact List.mem_cons_self⟩⟩
      | _ => exact hfits
    have hdata' : ∀ data, Fetched t data → Small py data := by
      rintro data ⟨room, since, hmem⟩
      exact hdata data ⟨room, since, List.mem_cons_of_mem _ hmem⟩
    obtain ⟨hwrites, hw'⟩ := ih hadmits hnext (hw.exec ch o hset) hdata'
    refine ⟨fun room seq r hmem => ?_, hw'⟩
    rcases List.mem_cons.1 hmem with heq | hmem
    · exact hset room seq (congrArg Performed.op heq).symm
    · exact hwrites room seq r hmem

/-- **A poll writes cursors that fit** if the numbers of the responses do. -/
theorem pollOnce_fits {cfg : Settings} {discovered : List String} {res : Except LibError Nat}
    (hrun : (pollOnce py cfg discovered).Runs World.exec w t res w') (hw : CursorsFit w)
    (hdata : ∀ data, Fetched t data → Small py data) : WritesFit t ∧ CursorsFit w' :=
  steps_fit hrun.world (hrun.trace.sound (@pollOnce_fits_wp py True cfg discovered)).1 trivial hw hdata

end AgentScorer

/-! ## Counters and columns -/

open NonceTable AgentScorer in
/-- **What fits its column.**  Since 2020 a nonce does only if its clock has run past 19 digits and
its generator starts over; a cursor does just if its number does or the row is left as it is, and in
a poll all cursors do as long as the numbers of the responses do. -/
theorem counters_stored_iff {c : nonceTable.Config} {w₀ w w' : AgentScorer.World} {room : String}
    {seq : Int} {py : Python} {cfg : AgentScorer.Settings} {discovered : List String}
    {t : List (Performed AgentScorer.Sys)} {res : Except LibError Nat}
    (hc : Machine.Reaches nonceTable NonceTable.World.Initial After2020 c) (hseq : 0 ≤ seq)
    (hrun : (pollOnce py cfg discovered).Runs AgentScorer.World.exec w t res w')
    (hw : CursorsFit w) :
    (Historically Stored c.hist ↔ Historically StartsOver c.hist) ∧
    ((∀ v ∈ w₀.cursorWritten room seq, lastSeqColumn.stores v = true) ↔
      seq < 2 ^ 31 ∨ ∃ last, w₀.current.cursors room = some last ∧ seq ≤ last) ∧
    ((∀ data, Fetched t data → Small py data) → WritesFit t ∧ CursorsFit w') :=
  ⟨nonces_stored_iff hc, cursorWritten_stored_iff hseq, pollOnce_fits hrun hw⟩

section samples

open NonceTable AgentScorer

instance (h : List NonceTable.Event) (e : NonceTable.Event) : Decidable (After2020 h e) :=
  inferInstanceAs (Decidable (∀ d ∈ drawOf e, epoch2020 ≤ d.2))

instance (h : List NonceTable.Event) (e : NonceTable.Event) : Decidable (Stored h e) :=
  inferInstanceAs (Decidable (∀ x ∈ writtenBy e.act, lastNonceColumn.stores x.2.lastNonce = true))

/-- A nonce is drawn on 1 January 2025. -/
def newYear : List nonceTable.Move :=
  [.tick (.clock 0 1735689600000), .start 0 ⟨0, [⟨sampleKey, false⟩], true⟩] ++
    List.replicate 5 (.perform 0 {})

/-- A poll of one room with one response, whose messages are not evaluated.  `/r/events` is out of
reach. -/
def polledOnce (data : Dict) :
    Option (List (Performed AgentScorer.Sys) × Except LibError Nat × AgentScorer.World) :=
  let quiet : AgentScorer.Choice := {}
  (pollOnce batchPython ⟨true, ["lobby"]⟩ []).drive AgentScorer.World.exec {}
    ([quiet, { fault := some ⟨"ConnectError", ""⟩ }, quiet, { data }] ++ List.replicate 5 quiet)

def fetchedData (e : Performed AgentScorer.Sys) : Option Dict :=
  match e with
  | ⟨.fetchRoom .., .ok data⟩ => some data
  | _ => none

def writtenSeq (e : Performed AgentScorer.Sys) : Option Int :=
  match e with
  | ⟨.setCursor _ seq, _⟩ => some seq
  | _ => none

/-- One message, with a number of its own. -/
def oneMessage (seq : Int) : Dict := [("messages", .list [.obj [("seq", .int seq)]])]

theorem cursorsFit_empty : CursorsFit {} := by
  refine ⟨fun room v hv => ?_, fun x hx => ?_⟩
  · cases hv
  · cases hx

theorem messagesOf_oneMessage {seq : Int} :
    messagesOf (oneMessage seq) = .ok [.obj [("seq", .int seq)]] := rfl

theorem fetchedData_of {t : List (Performed AgentScorer.Sys)} {data : Dict}
    (h : Fetched t data) : data ∈ t.filterMap fetchedData := by
  obtain ⟨room, since, hmem⟩ := h
  exact List.mem_filterMap.2 ⟨_, hmem, rfl⟩

theorem small_oneMessage : Small batchPython (oneMessage 5) := by
  refine ⟨fun x hx => ?_, fun msgs hmsgs msg hmem => ?_⟩
  · cases hx
  · rw [messagesOf_oneMessage] at hmsgs
    cases hmsgs
    cases List.mem_singleton.1 hmem
    decide

/-- A nonce of 2025, and a poll of a message with a small number. -/
theorem counters_stored_iff_samples :
    ∃ (c : nonceTable.Config) (t : List (Performed AgentScorer.Sys)) (w' : AgentScorer.World),
      committedNonces sampleKey c.hist = [1735689600000] ∧ t.filterMap writtenSeq = [0, 5] ∧
      (Historically Stored c.hist ↔ Historically StartsOver c.hist) ∧
      (∀ v ∈ ({} : AgentScorer.World).cursorWritten "lobby" 5, lastSeqColumn.stores v = true) ∧
      WritesFit t ∧ CursorsFit w' := by
  have hrun : ((Machine.Config.initial noRows : nonceTable.Config).run After2020 newYear).map
      (fun c => committedNonces sampleKey c.hist) = some [1735689600000] := by rfl
  obtain ⟨c, hc, hnonces⟩ := Option.map_eq_some_iff.1 hrun
  have hreach := (Machine.Reaches.init noRows_initial).run hc
  have hsee : (polledOnce (oneMessage 5)).map (fun x => (x.1.filterMap writtenSeq,
      x.1.filterMap fetchedData)) = some ([0, 5], [oneMessage 5]) := by rfl
  obtain ⟨⟨t, res, w'⟩, hdrive, hseen⟩ := Option.map_eq_some_iff.1 hsee
  obtain ⟨hwritten, hfetched⟩ := Prod.mk.inj hseen
  obtain ⟨hstored, hcursor, hpoll⟩ := @counters_stored_iff c {} {} w' "lobby" 5 _ _ _ t res hreach
    (by decide) (Prog.runs_of_drive hdrive) cursorsFit_empty
  refine ⟨c, t, w', hnonces, hwritten, hstored, hcursor.2 (.inl (by decide)),
    hpoll fun data hdata => ?_⟩
  have hmem := fetchedData_of hdata
  rw [hfetched] at hmem
  rw [List.mem_singleton.1 hmem]
  exact small_oneMessage

/-- The nonces of 2025 do not fit, nor does the cursor for a message with the number `2 ^ 31`, which
its own column takes. -/
theorem counters_overflow :
    (¬∀ c : nonceTable.Config, Machine.Reaches nonceTable NonceTable.World.Initial After2020 c →
      Historically Stored c.hist) ∧
    ¬∀ (py : Python) (cfg : AgentScorer.Settings) (discovered : List String) (w : AgentScorer.World)
      (t : List (Performed AgentScorer.Sys)) (res : Except LibError Nat) (w' : AgentScorer.World),
      (pollOnce py cfg discovered).Runs AgentScorer.World.exec w t res w' → CursorsFit w →
        (∀ data, Fetched t data → ∀ msgs, messagesOf data = .ok msgs → ∀ msg, .obj msg ∈ msgs →
          seqColumn.stores (seqOf py msg) = true) → WritesFit t := by
  refine ⟨fun hclaim => ?_, fun hclaim => ?_⟩
  · have hrun : ((Machine.Config.initial noRows : nonceTable.Config).run After2020 newYear).map
        (fun c => decide (Historically Stored c.hist)) = some false := by rfl
    obtain ⟨c, hc, hsee⟩ := Option.map_eq_some_iff.1 hrun
    exact of_decide_eq_false hsee (hclaim c ((Machine.Reaches.init noRows_initial).run hc))
  · have hsee : (polledOnce (oneMessage (2 ^ 31))).map (fun x => (x.1.filterMap writtenSeq,
        x.1.filterMap fetchedData)) = some ([0, 2 ^ 31], [oneMessage (2 ^ 31)]) := by rfl
    obtain ⟨⟨t, res, w'⟩, hdrive, hseen⟩ := Option.map_eq_some_iff.1 hsee
    obtain ⟨hwritten, hfetched⟩ := Prod.mk.inj hseen
    have hwrites := hclaim _ _ _ _ t res w' (Prog.runs_of_drive hdrive) cursorsFit_empty
      fun data hdata msgs hmsgs msg hmem => by
        have hone := fetchedData_of hdata
        rw [hfetched] at hone
        rw [List.mem_singleton.1 hone, messagesOf_oneMessage] at hmsgs
        cases hmsgs
        cases List.mem_singleton.1 hmem
        decide
    have hmem : (2 ^ 31 : Int) ∈ t.filterMap writtenSeq := by
      rw [hwritten]
      exact List.mem_cons_of_mem _ (List.mem_singleton_self _)
    obtain ⟨⟨o, r⟩, hmem, hseq⟩ := List.mem_filterMap.1 hmem
    unfold writtenSeq at hseq
    split at hseq
    · next room seq r heq =>
      cases heq
      have hfits := hwrites room seq r hmem
      rw [Option.some.inj hseq] at hfits
      exact absurd hfits (by decide)
    · cases hseq

end samples

end Observatory
