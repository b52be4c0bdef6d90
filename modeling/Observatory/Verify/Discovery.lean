import Observatory.Model.Discovery
import Observatory.Verify.AgentScorer

/-!
# Rooms that stay monitored

The `events` cursor is committed while the rooms it stands for are in memory: a restart forgets
them.  A candidate that is no text ends the batch, but `read_room` has moved the cursor past all of
it, and the next commit of the session keeps that.  Where neither happens, every room announced at
or below the cursor is read by every later poll (`staysMonitored_sound`).
-/

namespace Observatory.AgentScorer

open Effect

variable {py : Python} {t t' : List (Performed Sys)} {w w' : World}

/-! ## What is read, and which cursors are moved -/

/-- The cursor of a room is moved only once the room has answered. -/
def reading : Protocol Sys (List Answer) where
  allows g
    | .setCursor room _ => ∃ data, (room, some data) ∈ g
    | _ => True
  next g o res := g ++ (answerOf ⟨o, res⟩).toList

theorem answers_cons {e : Performed Sys} : answers (e :: t) = (answerOf e).toList ++ answers t := by
  cases h : answerOf e with
  | none => simp [answers, h]
  | some a => simp [answers, h]

theorem after_reading {g : List Answer} : reading.after g t = g ++ answers t := by
  induction t generalizing g with
  | nil => exact (List.append_nil g).symm
  | cons e t ih =>
    rw [answers_cons, ← List.append_assoc]
    exact ih

/-- A room whose cursor is moved has answered. -/
theorem answered_of_admits {g : List Answer} {room : String} {seq : Int}
    {res : Except LibError Unit} (h : reading.Admits g t)
    (hmem : (⟨.setCursor room seq, res⟩ : Performed Sys) ∈ t) :
    ∃ data, (room, some data) ∈ g ++ answers t := by
  obtain ⟨t₁, t₂, rfl⟩ := List.append_of_mem hmem
  obtain ⟨-, ⟨data, hdata⟩, -⟩ := (Protocol.admits_append reading).1 h
  rw [after_reading] at hdata
  refine ⟨data, ?_⟩
  rw [answers, List.filterMap_append, ← List.append_assoc]
  exact List.mem_append_left _ hdata

section programs

open Prog

variable {α : Type} {g : List Answer} {room : String}

/-- No room is read, and only cursors of rooms that have answered are moved. -/
def Moves (g : List Answer) : Op → Prop
  | .fetchRoom .. => False
  | .setCursor room _ => ∃ data, (room, some data) ∈ g
  | _ => True

theorem moves_wp {p : Proc α} (hp : p.Only (Moves g)) : wp reading p (fun _ g' => g' = g) g := by
  refine Only.wp hp fun o ho => ?_
  cases o with
  | fetchRoom => exact ho.elim
  | setCursor => exact ⟨ho, fun _ => List.append_nil g⟩
  | _ => exact ⟨trivial, fun _ => List.append_nil g⟩

theorem RowOp.moves {o : Op} (ho : RowOp o) : Moves g o := by
  cases ho <;> trivial

theorem setCursor_moves {seq : Int} {data : Dict} (hdata : (room, some data) ∈ g) :
    (setCursor room seq).Only (Moves g) := by
  refine setCursor_only.mono ?_
  rintro o ⟨seq, rfl⟩
  exact ⟨data, hdata⟩

/-- A part of the poll that reads no room and does not raise. -/
def Calm (g : List Answer) (p : Proc α) : Prop :=
  wp reading p (Ends (fun _ g' => g' = g) fun _ => False) g

namespace Calm

variable {β : Type} {p : Proc α}

theorem ret {a : α} : Calm g (.ret a) := rfl

theorem bind {f : α → Proc β} (hp : Calm g p) (hf : ∀ a, Calm g (f a)) : Calm g (p.bind f) := by
  refine Ends.bind hp fun a g' hg => ?_
  subst hg
  exact hf a

theorem attempt (hp : p.Only (Moves g)) : Calm g p.attempt :=
  wp_attempt.2 (wp_mono (fun _ _ hg => hg) (moves_wp hp))

theorem swallow (hp : p.Only (Moves g)) : Calm g p.swallow := (attempt hp).bind fun _ => ret

end Calm

theorem cursorOf_calm : Calm g (cursorOf room) := by
  refine .bind (.attempt (.call (by trivial))) fun res => ?_
  split
  · exact .ret
  · exact .ret

theorem rollback_calm : Calm g rollback := .swallow (.call (by trivial))

theorem committing_calm {body : Proc Unit} (hbody : body.Only (Moves g)) :
    Calm g (committing body) := by
  refine .bind (.attempt (.bind hbody fun _ => .call (by trivial))) fun res => ?_
  split
  · exact .ret
  · exact rollback_calm

theorem evaluate_calm {seq : Int} {msg : Dict} : Calm g (evaluate py room seq msg) := by
  refine .bind (.attempt (.bind .ofExcept fun _ => .call (by trivial))) fun res => ?_
  split
  · exact .ret
  · split
    · exact .ret
    · refine .bind (.attempt (.call (by trivial))) fun res => ?_
      split
      · exact .ret
      · exact .ret

theorem handleMessage_calm {seq : Int} {msg : Dict} : Calm g (handleMessage py room seq msg) := by
  refine .bind evaluate_calm fun result => ?_
  split
  · exact .ret
  · refine .bind (.attempt (writeRow_only.mono fun _ => RowOp.moves)) fun res => ?_
    split
    · exact .bind rollback_calm fun _ => .ret
    · exact .ret
    · exact .bind (.swallow (.call (by trivial))) fun _ => .ret

theorem handleMessages_calm {msgs : List Json} {maxSeq : Int} {processed : Nat} :
    Calm g (handleMessages py room msgs maxSeq processed) := by
  fun_induction handleMessages py room msgs maxSeq processed with
  | case1 => exact .ret
  | case2 maxSeq processed msg rest seq hseq ih => exact ih
  | case3 maxSeq processed msg rest seq hseq ih => exact .bind handleMessage_calm ih
  | case4 msg rest maxSeq processed hmsg ih => exact ih

/-- A room whose name is valid is read. -/
theorem readRoom_wp {since : Int} (hroom : matchesRoom room = true) :
    wp reading (readRoom py room since) (fun res g' => g' = g ++ [(room, res.toOption)]) g := by
  have hrest : wp reading ((AgentScorer.perform (.fetchRoom room since)).bind fun data =>
      ((advanceCursor py room data).swallow).bind fun _ => .ret data)
      (fun res g' => g' = g ++ [(room, res.toOption)]) g := by
    refine wp_bind.2 (wp_call.2 ⟨trivial, fun data => ?_, fun x => rfl⟩)
    have hmem : (room, some data) ∈ g ++ [(room, some data)] :=
      List.mem_append_right _ (List.mem_singleton_self _)
    have hadvance : (advanceCursor py room data).Only (Moves (g ++ [(room, some data)])) :=
      .bind .ofExcept fun _ => setCursor_moves hmem
    refine wp_bind.2 (wp_swallow.2 (wp_mono ?_ (moves_wp hadvance)))
    rintro res g' rfl
    exact rfl
  simp only [readRoom, hroom, Bool.not_true, Bool.false_eq_true, ite_false, bind_eq]
  exact hrest

theorem readRoom_invalid {since : Int} (hroom : matchesRoom room = false) :
    ∃ x, readRoom py room since = .raise x := by
  refine ⟨⟨"TechnocoreError", "geçersiz room: " ++ room⟩, ?_⟩
  simp only [readRoom, hroom]
  rfl

/-! ## Discovery -/

theorem malformed_obj {m : Dict} {x : LibError} (h : candidate py m = .error x) :
    isMalformed py (.obj m) = true := by
  rw [isMalformed, h]
  rfl

theorem wellFormed_obj {m : Dict} {named : Option String} (h : candidate py m = .ok named) :
    isMalformed py (.obj m) = false := by
  rw [isMalformed, h]
  rfl

/-- **What a batch adds**: the rooms announced before the first malformed candidate. -/
theorem mem_discoverIn {cfg : Settings} {msgs : List Json} {found : List String} :
    room ∈ cfg.rooms ∨ room ∈ (discoverIn py cfg msgs found).1 ↔
      room ∈ cfg.rooms ∨ room ∈ found ∨
        room ∈ ((msgs.takeWhile (!isMalformed py ·)).filterMap (announced py)).map Prod.snd := by
  fun_induction discoverIn py cfg msgs found with
  | case1 found => simp
  | case2 m rest found x hcand =>
    rw [List.takeWhile_cons_of_neg (by simp [malformed_obj hcand])]
    simp
  | case3 m rest found new hcand hnew ih =>
    have hann : announced py (.obj m) = some (seqOf py m, new) := by
      simp only [announced, hcand, hnew.2.2.2, if_true]
    rw [ih, List.takeWhile_cons_of_pos (by simp [wellFormed_obj hcand]),
      List.filterMap_cons_some hann, List.map_cons, List.mem_cons, List.mem_append,
      List.mem_singleton, or_assoc]
  | case4 m rest found new hcand hold ih =>
    rw [ih, List.takeWhile_cons_of_pos (by simp [wellFormed_obj hcand])]
    by_cases hvalid : matchesRoom new = true
    · have hann : announced py (.obj m) = some (seqOf py m, new) := by
        simp only [announced, hcand, hvalid, if_true]
      have hne : new ≠ "" := by
        rintro rfl
        cases hvalid
      have hknown : new ∈ cfg.rooms ∨ new ∈ found := by
        by_contra hnone
        rw [not_or] at hnone
        exact hold ⟨hne, hnone.1, hnone.2, hvalid⟩
      rw [List.filterMap_cons_some hann, List.map_cons, List.mem_cons]
      constructor
      · rintro (h | h | h)
        · exact .inl h
        · exact .inr (.inl h)
        · exact .inr (.inr (.inr h))
      · rintro (h | h | rfl | h)
        · exact .inl h
        · exact .inr (.inl h)
        · exact hknown.imp_right .inl
        · exact .inr (.inr h)
    · have hann : announced py (.obj m) = none := by
        simp only [announced, hcand, if_neg hvalid]
      rw [List.filterMap_cons_none hann]
  | case5 m rest found hcand ih =>
    have hann : announced py (.obj m) = none := by
      simp only [announced, hcand]
    rw [ih, List.takeWhile_cons_of_pos (by simp [wellFormed_obj hcand]),
      List.filterMap_cons_none hann]
  | case6 msg rest found hmsg ih =>
    have hplain : isMalformed py msg = false ∧ announced py msg = none := by
      cases msg with
      | obj m => exact (hmsg m rfl).elim
      | _ => exact ⟨rfl, rfl⟩
    rw [ih, List.takeWhile_cons_of_pos (by simp [hplain.1]), List.filterMap_cons_none hplain.2]

/-- The rooms monitored after the discovery. -/
def Finds (py : Python) (cfg : Settings) (discovered : List String) (data : Option Dict)
    (found : List String) : Prop :=
  ∀ room, room ∈ cfg.rooms ∨ room ∈ found ↔
    room ∈ cfg.rooms ∨ room ∈ discovered ∨ room ∈ readIn py data

theorem Finds.nothing {cfg : Settings} {discovered : List String} {data : Option Dict}
    (h : readIn py data = []) : Finds py cfg discovered data discovered := by
  intro room
  rw [h]
  simp

theorem Finds.of_batch {cfg : Settings} {discovered : List String} {data : Dict}
    {msgs : List Json} (h : messagesOf data = .ok msgs) :
    Finds py cfg discovered (some data) (discoverIn py cfg msgs discovered).1 := by
  intro room
  have hbatch : batchOf data = msgs := by
    rw [batchOf, h]
    rfl
  rw [mem_discoverIn, readIn, hbatch]

/-- **The discovery** reads `/r/events` once and never raises. -/
theorem discover_wp {cfg : Settings} {discovered : List String} :
    wp reading (discover py cfg discovered)
      (fun res g' => ∃ found data, res = .ok found ∧ g' = g ++ [("events", data)] ∧
        Finds py cfg discovered data found) g := by
  refine wp_bind.2 (wp_mono ?_ cursorOf_calm)
  rintro (x | since) g hg
  · exact hg.elim
  obtain rfl := hg
  refine wp_bind.2 (wp_attempt.2 (wp_mono ?_ (readRoom_wp (by decide))))
  rintro (x | data) _ rfl
  · exact ⟨discovered, none, rfl, rfl, .nothing rfl⟩
  have hmem : ("events", some data) ∈ g ++ [("events", some data)] :=
    List.mem_append_right _ (List.mem_singleton_self _)
  have hdone : ∀ {found : List String} {p : Proc Unit},
      Calm (g ++ [("events", some data)]) p → Finds py cfg discovered (some data) found →
        wp reading (p.bind fun _ => .ret found) (fun res g' => ∃ found data, res = .ok found ∧
          g' = g ++ [("events", data)] ∧ Finds py cfg discovered data found)
          (g ++ [("events", some data)]) := by
    intro found p hp hfound
    refine wp_bind.2 (wp_mono ?_ hp)
    rintro (x | u) g' hg
    · exact hg.elim
    · exact ⟨found, some data, rfl, hg, hfound⟩
  rw [bindPost_ok]
  cases hmsgs : messagesOf data with
  | error x =>
    simp only [hmsgs]
    have hnone : readIn py (some data) = [] := by
      rw [readIn, batchOf, hmsgs]
      rfl
    exact ⟨discovered, some data, rfl, rfl, .nothing hnone⟩
  | ok msgs =>
    have hfound : Finds py cfg discovered (some data) (discoverIn py cfg msgs discovered).1 :=
      .of_batch hmsgs
    rcases hdiscover : discoverIn py cfg msgs discovered with ⟨found, _ | x⟩
    · simp only [hdiscover] at hfound
      simp only [hmsgs, hdiscover]
      split
      · exact hdone rollback_calm hfound
      · split
        · exact hdone (committing_calm (setCursor_moves hmem)) hfound
        · exact ⟨found, some data, rfl, rfl, hfound⟩
    · simp only [hdiscover] at hfound
      simp only [hmsgs, hdiscover]
      exact ⟨found, some data, rfl, rfl, hfound⟩

/-! ## Rooms -/

/-- **One room**: it is read if its name is valid, and the poll goes on unless what it answers
cannot be gone through. -/
theorem pollRoom_reading : wp reading (pollRoom py room) (fun res g' => ∃ as, g' = g ++ as ∧
    (matchesRoom room = true → ∃ answer, (room, answer) ∈ as) ∧
      ∀ x, res = .error x → ∃ data, (room, some data) ∈ as ∧ messagesOf data = .error x) g := by
  refine wp_bind.2 (wp_mono ?_ cursorOf_calm)
  rintro (x | cursor) g hg
  · exact hg.elim
  obtain rfl := hg
  by_cases hroom : matchesRoom room = true
  · refine wp_bind.2 (wp_attempt.2 (wp_mono ?_ (readRoom_wp hroom)))
    rintro (x | data) _ rfl
    · exact ⟨[(room, none)], rfl, fun _ => ⟨none, List.mem_singleton_self _⟩, fun y hy => by cases hy⟩
    have hmem : (room, some data) ∈ g ++ [(room, some data)] :=
      List.mem_append_right _ (List.mem_singleton_self _)
    rw [bindPost_ok]
    refine wp_bind.2 ?_
    rw [wp_ofExcept]
    cases hmsgs : messagesOf data with
    | error x =>
      refine ⟨[(room, some data)], rfl, fun _ => ⟨some data, List.mem_singleton_self _⟩, ?_⟩
      intro y hy
      cases hy
      exact ⟨data, List.mem_singleton_self _, hmsgs⟩
    | ok msgs =>
      rw [bindPost_ok]
      refine wp_bind.2 (wp_mono ?_ handleMessages_calm)
      rintro (x | ⟨maxSeq, processed⟩) g' hg
      · exact hg.elim
      obtain rfl := hg
      refine wp_bind.2 (wp_mono ?_ (committing_calm ?_))
      · rintro (x | u) g' hg
        · exact hg.elim
        · exact ⟨[(room, some data)], hg, fun _ => ⟨some data, List.mem_singleton_self _⟩,
            fun y hy => by cases hy⟩
      · split
        · exact setCursor_moves hmem
        · exact .ret
  · obtain ⟨x, hx⟩ : ∃ x, readRoom py room cursor = .raise x :=
      readRoom_invalid (Bool.eq_false_of_not_eq_true hroom)
    refine wp_bind.2 (wp_attempt.2 ?_)
    rw [hx]
    exact ⟨[], (List.append_nil g).symm, fun h => absurd h hroom, fun y hy => by cases hy⟩

/-- **All rooms** whose names are valid are read, unless an answer cannot be gone through. -/
theorem pollRooms_reading {rooms : List String} :
    wp reading (pollRooms py rooms) (fun _ g' => ∃ as, g' = g ++ as ∧
      ((∀ room ∈ rooms, matchesRoom room = true → ∃ answer, (room, answer) ∈ as) ∨
        ∃ x room data, (room, some data) ∈ as ∧ messagesOf data = .error x)) g := by
  induction rooms generalizing g with
  | nil => exact ⟨[], (List.append_nil g).symm, .inl fun room hroom => by cases hroom⟩
  | cons room rooms ih =>
    refine wp_bind.2 (wp_mono ?_ pollRoom_reading)
    rintro (x | n) _ ⟨as, rfl, hread, hraised⟩
    · obtain ⟨data, hdata, hx⟩ := hraised x rfl
      exact ⟨as, rfl, .inr ⟨x, room, data, hdata, hx⟩⟩
    · refine wp_bind.2 (wp_mono ?_ ih)
      have hall : ∀ as', ((∀ r ∈ rooms, matchesRoom r = true → ∃ answer, (r, answer) ∈ as') ∨
          ∃ x r data, (r, some data) ∈ as' ∧ messagesOf data = .error x) →
          (∀ r ∈ room :: rooms, matchesRoom r = true → ∃ answer, (r, answer) ∈ as ++ as') ∨
            ∃ x r data, (r, some data) ∈ as ++ as' ∧ messagesOf data = .error x := by
        rintro as' (hrest | ⟨x, r, data, hdata, hx⟩)
        · refine .inl fun r hr hvalid => ?_
          rcases List.mem_cons.1 hr with rfl | hr
          · obtain ⟨answer, hmem⟩ := hread hvalid
            exact ⟨answer, List.mem_append_left _ hmem⟩
          · obtain ⟨answer, hmem⟩ := hrest r hr hvalid
            exact ⟨answer, List.mem_append_right _ hmem⟩
        · exact .inr ⟨x, r, data, List.mem_append_right _ hdata, hx⟩
      rintro (x | m) _ ⟨as', rfl, hrest⟩
      · exact ⟨as ++ as', List.append_assoc .., hall as' hrest⟩
      · exact ⟨as ++ as', List.append_assoc .., hall as' hrest⟩

end programs

/-! ## The cursors along a trace -/

variable {room : String} {seq : Int}

theorem Tables.Passed.of_eq {tb tb' : Tables} (h : tb.Passed room seq)
    (heq : tb'.cursors = tb.cursors) : tb'.Passed room seq := by
  rw [Tables.Passed, heq]
  exact h

/-- What one operation does to the committed cursors and to those moved. -/
inductive CursorStep (w : World) : Performed Sys → World → Prop where
  | same {e : Performed Sys} {w' : World} (hc : w'.committed.cursors = w.committed.cursors)
      (hm : w'.moved = w.moved) : CursorStep w e w'
  | moved {room : String} {seq : Int} {w' : World}
      (hc : w'.committed.cursors = w.committed.cursors)
      (hm : w'.moved = (room, w.advanced room seq) :: w.moved) :
      CursorStep w ⟨.setCursor room seq, .ok ()⟩ w'
  | dropped {e : Performed Sys} {w' : World} (hc : w'.committed.cursors = w.committed.cursors)
      (hm : w'.moved = []) : CursorStep w e w'
  | committed {e : Performed Sys} {w' : World} (hc : w'.committed.cursors = w.current.cursors)
      (hm : w'.moved = []) : CursorStep w e w'

/-- A statement does to the cursors what it does where it goes through. -/
theorem cursorStep_statement {o : Op} {ch : Choice} {effect : Except LibError (World × o.Ans)}
    (hok : ∀ w' a, effect = .ok (w', a) → CursorStep w ⟨o, .ok a⟩ w') :
    CursorStep w ⟨o, (w.statement ch effect).2⟩ (w.statement ch effect).1 := by
  cases hres : (w.statement ch effect).2 with
  | error x =>
    have hfail : ∀ a, (w.statement ch effect).2 ≠ .ok a := by
      intro a heq
      rw [hres] at heq
      cases heq
    rw [statement_error hfail]
    exact .same rfl rfl
  | ok a => exact hok _ a (statement_ok hres).1

/-- **What an operation does to the cursors.** -/
theorem cursorStep (w : World) (ch : Choice) (o : Op) :
    CursorStep w ⟨o, (w.exec ch o).2⟩ (w.exec ch o).1 := by
  cases o with
  | getCursor room =>
    refine cursorStep_statement fun w' a heff => ?_
    cases heff
    exact .same rfl rfl
  | setCursor room seq =>
    refine cursorStep_statement fun w' a heff => ?_
    cases heff
    exact .moved rfl rfl
  | selectEvaluation room seq =>
    refine cursorStep_statement fun w' a heff => ?_
    cases heff
    exact .same rfl rfl
  | insertEvaluation row =>
    refine cursorStep_statement fun w' a heff => ?_
    split at heff
    · cases heff
    · cases heff
      exact .same rfl rfl
  | commit =>
    refine cursorStep_statement fun w' a heff => ?_
    cases heff
    exact .committed rfl rfl
  | rollback =>
    cases hfault : ch.fault with
    | some x =>
      simp only [World.exec, hfault]
      exact .same rfl rfl
    | none =>
      simp only [World.exec, hfault]
      exact .dropped rfl rfl
  | fetchRoom room since => exact .same rfl rfl
  | evaluate call => exact .same rfl rfl
  | sendRiskAlert row => exact .same rfl rfl

theorem cursors_cons {e : Performed Sys} (h : Steps World.exec w (e :: t) w') :
    ∃ w₁, CursorStep w e w₁ ∧ Steps World.exec w₁ t w' := by
  cases h with
  | cons ch o h => exact ⟨_, cursorStep w ch o, h⟩

theorem World.current_cursor (w : World) (room : String) :
    w.current.cursors room = (w.moved.lookup room).or (w.committed.cursors room) := rfl

/-- No cursor the session sees is behind the committed one. -/
def World.Ahead (w : World) : Prop :=
  ∀ room seq, w.committed.Passed room seq → w.current.Passed room seq

theorem World.current_cursors (hm : w.moved = []) : w.current.cursors = w.committed.cursors := by
  funext room
  rw [World.current_cursor, hm]
  rfl

theorem World.ahead_of_moved (hm : w.moved = []) : w.Ahead :=
  fun _ _ h => h.of_eq (World.current_cursors hm)

/-- A cursor does not go back within a transaction. -/
theorem passed_moved {r : String} {q : Int} (hc : w'.committed.cursors = w.committed.cursors)
    (hm : w'.moved = (room, w.advanced room seq) :: w.moved) (h : w.current.Passed r q) :
    w'.current.Passed r q := by
  obtain ⟨c, hcur, hle⟩ := h
  by_cases hr : r = room
  · subst hr
    refine ⟨max seq c, ?_, le_max_of_le_right hle⟩
    rw [World.current_cursor, hm, List.lookup_cons_self, World.advanced, hcur]
    rfl
  · refine ⟨c, ?_, hle⟩
    rw [World.current_cursor, hm, List.lookup_cons, beq_false_of_ne hr, hc]
    exact hcur

/-- One operation takes no committed cursor back. -/
theorem CursorStep.rises {e : Performed Sys} (h : CursorStep w e w') (ha : w.Ahead) :
    w'.Ahead ∧ ∀ room seq, w.committed.Passed room seq → w'.committed.Passed room seq := by
  cases h with
  | same hc hm =>
    have hcur : w'.current.cursors = w.current.cursors := by
      funext room
      rw [World.current_cursor, World.current_cursor, hm, hc]
    exact ⟨fun r q hq => (ha r q (hq.of_eq hc.symm)).of_eq hcur, fun r q hq => hq.of_eq hc⟩
  | moved hc hm =>
    exact ⟨fun r q hq => passed_moved hc hm (ha r q (hq.of_eq hc.symm)), fun r q hq => hq.of_eq hc⟩
  | dropped hc hm => exact ⟨World.ahead_of_moved hm, fun r q hq => hq.of_eq hc⟩
  | committed hc hm => exact ⟨World.ahead_of_moved hm, fun r q hq => (ha r q hq).of_eq hc⟩

/-- **No committed cursor goes back.** -/
theorem passed_steps (h : Steps World.exec w t w') (ha : w.Ahead)
    (hp : w.committed.Passed room seq) : w'.committed.Passed room seq := by
  induction t generalizing w with
  | nil =>
    cases h
    exact hp
  | cons e t ih =>
    obtain ⟨w₁, hstep, hrest⟩ := cursors_cons h
    obtain ⟨ha₁, hrises⟩ := hstep.rises ha
    exact ih hrest ha₁ (hrises room seq hp)

/-- **A cursor that no operation moves stays.** -/
theorem cursor_same (h : Steps World.exec w t w') (hm : w.moved.lookup room = none)
    (hnot : ∀ seq res, (⟨.setCursor room seq, res⟩ : Performed Sys) ∉ t) :
    w'.committed.cursors room = w.committed.cursors room := by
  induction t generalizing w with
  | nil =>
    cases h
    rfl
  | cons e t ih =>
    obtain ⟨w₁, hstep, hrest⟩ := cursors_cons h
    have hone : w₁.moved.lookup room = none ∧
        w₁.committed.cursors room = w.committed.cursors room := by
      cases hstep with
      | same hc hm₁ => exact ⟨by rw [hm₁, hm], by rw [hc]⟩
      | @moved room' seq w₁ hc hm₁ =>
        have hne : room ≠ room' := by
          rintro rfl
          exact hnot seq _ List.mem_cons_self
        exact ⟨by rw [hm₁, List.lookup_cons, beq_false_of_ne hne, hm], by rw [hc]⟩
      | dropped hc hm₁ => exact ⟨by rw [hm₁]; rfl, by rw [hc]⟩
      | committed hc hm₁ =>
        refine ⟨by rw [hm₁]; rfl, ?_⟩
        rw [hc, World.current_cursor, hm]
        rfl
    rw [ih hrest hone.1 fun seq res hmem => hnot seq res (List.mem_cons_of_mem e hmem), hone.2]

/-! ## One poll -/

/-- The scorer knows the room. -/
def Scorer.Knows (sc : Scorer) (room : String) : Prop := room ∈ sc.cfg.rooms ∨ room ∈ sc.discovered

/-- What a poll does, from the committed tables `tb`: its answers `as`, the rooms discovered
afterwards and the tables it leaves. -/
structure Polls (py : Python) (tb : Tables) (sc : Scorer) (as : List Answer) (found : List String)
    (tb' : Tables) : Prop where
  finds : ∀ room, sc.Knows room ∨ room ∈ learned py as →
    room ∈ sc.cfg.rooms ∨ room ∈ found
  reads : (∀ a ∈ as.tail, ∀ data x, a.2 = some data → messagesOf data ≠ .error x) →
    ∀ room, room ∈ sc.cfg.rooms ∨ room ∈ found → matchesRoom room = true →
      ∃ answer, (room, answer) ∈ as
  rises : ∀ room seq, tb.Passed room seq → tb'.Passed room seq
  still : ∀ room, (∀ data, (room, some data) ∉ as) → tb'.cursors room = tb.cursors room

theorem answers_append : answers (t ++ t') = answers t ++ answers t' := List.filterMap_append

theorem polls {tb : Tables} {sc : Scorer} {found : List String} {res : Except LibError Nat}
    {t₁ t₂ : List (Performed Sys)} {w₁ w₂ : World}
    (hfound : (discover py sc.cfg sc.discovered).Runs World.exec { committed := tb } t₁
      (.ok found) w₁)
    (hrooms : (pollRooms py (sc.cfg.rooms ++ found.insertionSort (· ≤ ·))).Runs World.exec w₁ t₂
      res w₂) : Polls py tb sc (answers (t₁ ++ t₂)) found w₂.committed := by
  obtain ⟨hadm₁, found', data, heq, hg₁, hfinds⟩ := hfound.trace.sound (discover_wp (g := []))
  cases heq
  rw [after_reading, List.nil_append, List.nil_append] at hg₁
  obtain ⟨hadm₂, as, hg₂, hread⟩ := hrooms.trace.sound (pollRooms_reading (g := answers t₁))
  rw [after_reading, List.append_cancel_left_eq] at hg₂
  have hadm : reading.Admits [] (t₁ ++ t₂) := by
    rw [Protocol.admits_append, after_reading, List.nil_append]
    exact ⟨hadm₁, hadm₂⟩
  have hworld : Steps World.exec { committed := tb } (t₁ ++ t₂) w₂ :=
    steps_append.2 ⟨w₁, hfound.world, hrooms.world⟩
  have has : answers (t₁ ++ t₂) = ("events", data) :: as := by
    rw [answers_append, hg₁, hg₂]
    rfl
  refine ⟨fun room hroom => ?_, fun hplain room hroom hvalid => ?_, fun room seq hp => ?_,
    fun room hnone => ?_⟩
  · rw [has] at hroom
    exact (hfinds room).2 (or_assoc.1 hroom)
  · rw [has] at hplain ⊢
    rcases hread with hall | ⟨x, r, data', hmem, hx⟩
    · have hmem : room ∈ sc.cfg.rooms ++ found.insertionSort (· ≤ ·) := by
        rw [List.mem_append, List.mem_insertionSort]
        exact hroom
      obtain ⟨answer, hanswer⟩ := hall room hmem hvalid
      exact ⟨answer, List.mem_cons_of_mem _ hanswer⟩
    · exact absurd hx (hplain _ hmem data' x rfl)
  · exact passed_steps hworld (World.ahead_of_moved rfl) hp
  · refine cursor_same hworld rfl fun seq res hmem => ?_
    obtain ⟨data', hdata⟩ := answered_of_admits hadm hmem
    exact hnone data' hdata

/-- A run of `poll_once` is a poll of the history. -/
theorem polled_of_run {s : Watch} {sc : Scorer} {res : Except LibError Nat}
    (hsc : s.scorer = some sc) (hon : sc.cfg.enabled = true)
    (h : (pollOnce py sc.cfg sc.discovered).Runs World.exec { committed := s.tables } t res w) :
    ∃ found, Step py s (.polled (answers t))
      { tables := w.committed
        scorer := some { sc with discovered := found }
        heard := s.heard ++ (answers t).flatMap (announcedIn py) } := by
  have hbind : ((discover py sc.cfg sc.discovered).bind fun found =>
      pollRooms py (roomsOf sc.cfg found)).Runs World.exec { committed := s.tables } t res w := by
    simp only [pollOnce, hon, Bool.not_true, Bool.false_eq_true, ite_false] at h
    exact h
  rcases Prog.runs_bind.1 hbind with ⟨found, t₁, t₂, w₁, rfl, hfound, hrooms⟩ | ⟨x, rfl, hfound⟩
  · exact ⟨found, .polled hsc hon hfound hrooms⟩
  · -- the discovery does not raise
    obtain ⟨-, found, data, heq, -⟩ := hfound.trace.sound (discover_wp (g := []))
    cases heq

/-! ## Every history -/

/-- What keeps the rooms monitored: a scorer is started only with every room already passed by
configured; a batch tells of every new room before any malformed candidate; no answer of a room
ends the poll. -/
def Sound (py : Python) (s : Watch) : Event → Prop
  | .started cfg => ∀ x ∈ s.heard, s.tables.Passed "events" x.1 →
      cfg.enabled = true ∧ x.2 ∈ cfg.rooms
  | .polled as =>
      (∀ data, ("events", some data) ∈ as →
        ∀ x ∈ s.heard ++ announcedIn py ("events", some data),
          (∃ sc, s.scorer = some sc ∧ sc.Knows x.2) ∨ x.2 ∈ learned py as) ∧
      ∀ a ∈ as.tail, ∀ data x, a.2 = some data → messagesOf data ≠ .error x
  | .died _ => True

/-- Every room passed by is monitored. -/
structure Watched (s : Watch) : Prop where
  valid : ∀ x ∈ s.heard, matchesRoom x.2 = true
  known : ∀ sc, s.scorer = some sc → ∀ x ∈ s.heard, s.tables.Passed "events" x.1 →
    sc.cfg.enabled = true ∧ sc.Knows x.2

theorem Watched.start (tables : Tables) : Watched { tables } := by
  refine ⟨fun x hx => ?_, fun sc hsc => ?_⟩
  · cases hx
  · cases hsc

theorem announced_valid {m : Json} {x : Int × String} (h : announced py m = some x) :
    matchesRoom x.2 = true := by
  unfold announced at h
  split at h
  · split at h
    · split at h
      · next hvalid =>
        cases h
        exact hvalid
      · cases h
    · cases h
  · cases h

theorem mem_announcedIn {a : Answer} {x : Int × String} (h : x ∈ announcedIn py a) :
    matchesRoom x.2 = true ∧ ∃ data, a = ("events", some data) := by
  obtain ⟨room, _ | data⟩ := a
  · cases h
  · change x ∈ if room = "events" then (batchOf data).filterMap (announced py) else [] at h
    by_cases hroom : room = "events"
    · rw [if_pos hroom] at h
      obtain ⟨m, -, hm⟩ := List.mem_filterMap.1 h
      exact ⟨announced_valid hm, data, by rw [hroom]⟩
    · rw [if_neg hroom] at h
      cases h

/-- What is heard was heard before, or an answer of `/r/events` announces it. -/
theorem mem_heard {s : Watch} {as : List Answer} {x : Int × String}
    (h : x ∈ s.heard ++ as.flatMap (announcedIn py)) :
    x ∈ s.heard ∨ ∃ data, ("events", some data) ∈ as ∧ x ∈ announcedIn py ("events", some data) := by
  rcases List.mem_append.1 h with h | h
  · exact .inl h
  · obtain ⟨a, ha, hx⟩ := List.mem_flatMap.1 h
    obtain ⟨-, data, rfl⟩ := mem_announcedIn hx
    exact .inr ⟨data, ha, hx⟩

theorem Watched.valid_append {s : Watch} {as : List Answer} (hs : Watched s) :
    ∀ x ∈ s.heard ++ as.flatMap (announcedIn py), matchesRoom x.2 = true := by
  intro x hx
  rcases mem_heard hx with hx | ⟨data, -, hx⟩
  · exact hs.valid x hx
  · exact (mem_announcedIn hx).1

/-- **Each step keeps the rooms monitored.** -/
theorem Watched.step {s s' : Watch} {e : Event} (hs : Watched s) (h : Step py s e s')
    (hok : Sound py s e) : Watched s' := by
  cases h with
  | started cfg =>
    refine ⟨hs.valid, fun sc hsc x hx hp => ?_⟩
    cases hsc
    obtain ⟨hon, hmem⟩ := hok x hx hp
    exact ⟨hon, .inl hmem⟩
  | disabled => exact hs
  | @polled sc found res t₁ t₂ w₁ w₂ hsc hon hfound hrooms =>
    have hp := polls hfound hrooms
    refine ⟨hs.valid_append, fun sc' hsc' x hx hpassed => ?_⟩
    cases hsc'
    refine ⟨hon, hp.finds x.2 ?_⟩
    by_cases hbatch : ∃ data, ("events", some data) ∈ answers (t₁ ++ t₂)
    · have htold : ∃ data, ("events", some data) ∈ answers (t₁ ++ t₂) ∧
          x ∈ s.heard ++ announcedIn py ("events", some data) := by
        rcases mem_heard hx with hold | ⟨data, hdata, hnew⟩
        · obtain ⟨data, hdata⟩ := hbatch
          exact ⟨data, hdata, List.mem_append_left _ hold⟩
        · exact ⟨data, hdata, List.mem_append_right _ hnew⟩
      obtain ⟨data, hdata, hmem⟩ := htold
      refine (hok.1 data hdata x hmem).imp_left ?_
      rintro ⟨sc', hsc', hknows⟩
      rw [hsc] at hsc'
      cases hsc'
      exact hknows
    · -- without a batch the cursor has not moved
      rcases mem_heard hx with hold | ⟨data, hdata, -⟩
      · have hsame := hp.still "events" fun data hdata => hbatch ⟨data, hdata⟩
        refine .inl (hs.known sc hsc x hold ?_).2
        rw [Tables.Passed, ← hsame]
        exact hpassed
      · exact absurd ⟨data, hdata⟩ hbatch
  | died => exact ⟨hs.valid_append, fun sc hsc => by cases hsc⟩

theorem Watched.history {s s' : Watch} (hs : Watched s) (h : History py (Sound py) s s') :
    Watched s' := by
  induction h with
  | refl => exact hs
  | tail _ hstep ih =>
    obtain ⟨e, hstep, hok⟩ := hstep
    exact ih.step hstep hok

/-- What has been passed by stays so. -/
theorem passed_step {s s' : Watch} {e : Event} {x : Int × String} (h : Step py s e s')
    (hx : x ∈ s.heard ∧ s.tables.Passed "events" x.1) :
    x ∈ s'.heard ∧ s'.tables.Passed "events" x.1 := by
  cases h with
  | started => exact hx
  | disabled => exact hx
  | polled hsc hon hfound hrooms =>
    exact ⟨List.mem_append_left _ hx.1, (polls hfound hrooms).rises _ _ hx.2⟩
  | died hsc htrace hworld =>
    exact ⟨List.mem_append_left _ hx.1, passed_steps hworld (World.ahead_of_moved rfl) hx.2⟩

theorem passed_history {ok : Watch → Event → Prop} {s s' : Watch} {x : Int × String}
    (h : History py ok s s') (hx : x ∈ s.heard ∧ s.tables.Passed "events" x.1) :
    x ∈ s'.heard ∧ s'.tables.Passed "events" x.1 := by
  induction h with
  | refl => exact hx
  | tail _ hstep ih =>
    obtain ⟨e, hstep, -⟩ := hstep
    exact passed_step hstep ih

/-- **Rooms stay monitored** over every history whose steps are sound. -/
theorem staysMonitored_sound (py : Python) : StaysMonitored py (Sound py) := by
  intro tables s₁ s₂ s₃ as seq room h₁ hheard hpassed h₂ hstep hok
  have hs₂ : Watched s₂ := ((Watched.start tables).history h₁).history h₂
  obtain ⟨hheard₂, hpassed₂⟩ := passed_history h₂ ⟨hheard, hpassed⟩
  cases hstep with
  | disabled hsc hoff =>
    have hon := (hs₂.known _ hsc _ hheard₂ hpassed₂).1
    rw [hoff] at hon
    cases hon
  | polled hsc hon hfound hrooms =>
    have hp := polls hfound hrooms
    refine hp.reads hok.2 room (hp.finds room (.inl ?_)) (hs₂.valid _ hheard₂)
    exact (hs₂.known _ hsc _ hheard₂ hpassed₂).2

/-! ## A restart -/

/-- A poll computed, the outside deciding as listed on the discovery and on the rooms. -/
def drivePoll (py : Python) (s : Watch) (chs chs' : List Choice) : Option (List Answer × Watch) :=
  match s.scorer with
  | none => none
  | some sc =>
    match (discover py sc.cfg sc.discovered).drive World.exec { committed := s.tables } chs with
    | some (t₁, .ok found, w₁) =>
      let rooms := sc.cfg.rooms ++ found.insertionSort (· ≤ ·)
      ((pollRooms py rooms).drive World.exec w₁ chs').map fun (t₂, _, w₂) =>
        (answers (t₁ ++ t₂),
          { tables := w₂.committed
            scorer := some { sc with discovered := found }
            heard := s.heard ++ (answers (t₁ ++ t₂)).flatMap (announcedIn py) })
    | _ => none

theorem step_of_drivePoll {s s' : Watch} {as : List Answer} {chs chs' : List Choice}
    (hon : ∀ sc, s.scorer = some sc → sc.cfg.enabled = true)
    (h : drivePoll py s chs chs' = some (as, s')) : Step py s (.polled as) s' := by
  unfold drivePoll at h
  split at h
  · cases h
  · next sc hsc =>
    split at h
    · next t₁ found w₁ hdiscover =>
      obtain ⟨⟨t₂, res, w₂⟩, hrooms, heq⟩ := Option.map_eq_some_iff.1 h
      cases heq
      exact .polled hsc (hon sc hsc) (Prog.runs_of_drive hdiscover) (Prog.runs_of_drive hrooms)
    · cases h

/-- What is to be seen of a poll. -/
def seenOf (x : List Answer × Watch) :
    List Answer × List (Int × String) × Option Int × Option Scorer :=
  (x.1, x.2.heard, x.2.tables.cursors "events", x.2.scorer)

/-- Two polls on empty tables.  `/r/events` answers the first with `data`, the second finds it out
of reach; `again` happens in between. -/
def polledTwice (cfg : Settings) (data : Dict) (rooms : List Choice) (again : Watch → Watch)
    (rooms' : List Choice) :=
  (drivePoll batchPython { tables := {}, scorer := some { cfg } } [{}, { data }, {}, {}, {}]
    rooms).bind fun x =>
      (drivePoll batchPython (again x.2) [{}, { fault := some ⟨"ConnectError", ""⟩ }]
        rooms').map fun y => (seenOf x, y.1)

theorem polledTwice_steps {cfg : Settings} {data : Dict} {rooms rooms' : List Choice}
    {again : Watch → Watch} {as : List Answer} {heard : List (Int × String)} {cursor : Option Int}
    {sc : Scorer} {as' : List Answer} (hcfg : cfg.enabled = true) (hsc : sc.cfg.enabled = true)
    (hagain : ∀ s, s.scorer = some sc → (again s).scorer = some sc ∨ (again s).scorer = some { cfg })
    (h : polledTwice cfg data rooms again rooms' = some ((as, heard, cursor, some sc), as')) :
    ∃ s s', s.heard = heard ∧ s.tables.cursors "events" = cursor ∧
      Step batchPython { tables := {}, scorer := some { cfg } } (.polled as) s ∧
        Step batchPython (again s) (.polled as') s' := by
  obtain ⟨⟨as₁, s⟩, hfirst, hrest⟩ := Option.bind_eq_some_iff.1 h
  obtain ⟨⟨as₂, s'⟩, hsecond, heq⟩ := Option.map_eq_some_iff.1 hrest
  obtain ⟨hseen, rfl⟩ := Prod.ext_iff.1 heq
  have hscorer : s.scorer = some sc := congrArg (·.2.2.2) hseen
  have hstep : Step batchPython { tables := {}, scorer := some { cfg } } (.polled as₁) s := by
    refine step_of_drivePoll (fun sc' hsc' => ?_) hfirst
    cases hsc'
    exact hcfg
  refine ⟨s, s', congrArg (·.2.1) hseen, congrArg (·.2.2.1) hseen, ?_, ?_⟩
  · rw [show as₁ = as from congrArg (·.1) hseen] at hstep
    exact hstep
  · refine step_of_drivePoll (fun sc' hsc' => ?_) hsecond
    rcases hagain s hscorer with heq | heq
    · rw [heq] at hsc'
      cases hsc'
      exact hsc
    · rw [heq] at hsc'
      cases hsc'
      exact hcfg

/-- No room is configured. -/
def unconfigured : Settings := ⟨true, []⟩

/-- An announcement of a room. -/
def alpha : Json := .obj [("room", .str "alpha"), ("seq", .int 1)]

def announcement : Dict := [("messages", .list [alpha]), ("last_seq", .int 1)]

/-- The announcement after a candidate that is a number. -/
def hiddenAnnouncement : Dict :=
  [("messages", .list [.obj [("room", .int 5)], alpha]), ("last_seq", .int 1)]

theorem events_ne_alpha : "events" ≠ "alpha" := by decide

theorem passed_alpha {s : Watch} (hheard : s.heard = [(1, "alpha")])
    (hcursor : s.tables.cursors "events" = some 1) :
    (1, "alpha") ∈ s.heard ∧ s.tables.Passed "events" 1 := by
  refine ⟨?_, 1, hcursor, le_refl 1⟩
  rw [hheard]
  exact List.mem_singleton_self _

/-- A room discovered stays monitored while the process runs. -/
theorem staysMonitored_sound_alpha : ∃ s s' as,
    Step batchPython s (.polled as) s' ∧ (1, "alpha") ∈ s.heard ∧
      ∃ answer, ("alpha", answer) ∈ as := by
  have hpolls : polledTwice unconfigured announcement [{}, { fault := some ⟨"ConnectError", ""⟩ }] id
      [{}, {}, {}, {}] =
        some (([("events", some announcement), ("alpha", none)], [(1, "alpha")], some 1,
          some { cfg := unconfigured, discovered := ["alpha"] }),
          [("events", none), ("alpha", some [])]) := by
    rfl
  obtain ⟨s, s', hheard, hcursor, hfirst, hsecond⟩ :=
    polledTwice_steps rfl rfl (fun s hs => .inl hs) hpolls
  obtain ⟨hheard, hpassed⟩ := passed_alpha hheard hcursor
  have hstarted : Step batchPython { tables := {} } (.started unconfigured) _ := .started _ _
  have hstart : Sound batchPython { tables := {} } (.started unconfigured) := by
    intro x hx
    cases hx
  have hann : Sound batchPython { tables := {}, scorer := some { cfg := unconfigured } }
      (.polled [("events", some announcement), ("alpha", none)]) := by
    refine ⟨fun data hdata x hx => .inr ?_, fun a ha data x hdata => ?_⟩
    · rcases List.mem_cons.1 hdata with heq | hmem
      · cases heq
        obtain rfl : x = (1, "alpha") := List.mem_singleton.1 hx
        exact List.mem_singleton_self _
      · exact absurd (congrArg Prod.fst (List.mem_singleton.1 hmem)) events_ne_alpha
    · obtain rfl : a = ("alpha", none) := List.mem_singleton.1 ha
      cases hdata
  refine ⟨s, s', _, hsecond, hheard, ?_⟩
  refine staysMonitored_sound batchPython {} s s s' _ 1 "alpha"
    ((Relation.ReflTransGen.single ⟨_, hstarted, hstart⟩).tail ⟨_, hfirst, hann⟩) hheard hpassed
    .refl hsecond ⟨fun data hdata => ?_, fun a ha data x hdata => ?_⟩
  · rcases List.mem_cons.1 hdata with heq | hmem
    · cases heq
    · exact absurd (congrArg Prod.fst (List.mem_singleton.1 hmem)) events_ne_alpha
  · obtain rfl : a = ("alpha", some []) := List.mem_singleton.1 ha
    cases hdata
    exact nofun

/-- **A restart forgets a room** whose announcement the cursor has passed. -/
theorem not_staysMonitored : ¬StaysMonitored batchPython fun _ _ => True := by
  have hpolls : polledTwice unconfigured announcement [{}, { fault := some ⟨"ConnectError", ""⟩ }]
      (fun s => { s with scorer := some { cfg := unconfigured } }) [] =
        some (([("events", some announcement), ("alpha", none)], [(1, "alpha")], some 1,
          some { cfg := unconfigured, discovered := ["alpha"] }), [("events", none)]) := by
    rfl
  obtain ⟨s, s', hheard, hcursor, hfirst, hsecond⟩ :=
    polledTwice_steps rfl rfl (fun s hs => .inr rfl) hpolls
  obtain ⟨hheard, hpassed⟩ := passed_alpha hheard hcursor
  intro h
  have hstarted : Step batchPython { tables := {} } (.started unconfigured) _ := .started _ _
  have hrestarted : Step batchPython s (.started unconfigured) _ := .started _ _
  obtain ⟨answer, hmem⟩ := h {} s _ s' _ 1 "alpha"
    ((Relation.ReflTransGen.single ⟨_, hstarted, trivial⟩).tail ⟨_, hfirst, trivial⟩) hheard hpassed
    (.single ⟨_, hrestarted, trivial⟩) hsecond trivial
  exact absurd (congrArg Prod.fst (List.mem_singleton.1 hmem)).symm events_ne_alpha

/-- **A malformed candidate hides a room**, with no restart: the commit of another room keeps the
cursor that `read_room` has moved past the batch. -/
theorem not_staysMonitored_malformed :
    ¬StaysMonitored batchPython fun s e => ∀ cfg, e = .started cfg → s.heard = [] := by
  have hpolls : polledTwice ⟨true, ["lobby"]⟩ hiddenAnnouncement [{}, {}, {}, {}] id
      [{}, { fault := some ⟨"ConnectError", ""⟩ }] =
        some (([("events", some hiddenAnnouncement), ("lobby", some [])], [(1, "alpha")], some 1,
          some { cfg := ⟨true, ["lobby"]⟩ }), [("events", none), ("lobby", none)]) := by
    rfl
  obtain ⟨s, s', hheard, hcursor, hfirst, hsecond⟩ :=
    polledTwice_steps rfl rfl (fun s hs => .inl hs) hpolls
  obtain ⟨hheard, hpassed⟩ := passed_alpha hheard hcursor
  intro h
  have hstarted : Step batchPython { tables := {} } (.started ⟨true, ["lobby"]⟩) _ := .started _ _
  have hpolled : ∀ {as : List Answer} {heard : List (Int × String)} (cfg : Settings),
      Event.polled as = .started cfg → heard = [] := fun _ heq => by cases heq
  obtain ⟨answer, hmem⟩ := h {} s s s' _ 1 "alpha"
    ((Relation.ReflTransGen.single ⟨_, hstarted, fun _ _ => rfl⟩).tail ⟨_, hfirst, hpolled⟩) hheard
    hpassed .refl hsecond hpolled
  rcases List.mem_cons.1 hmem with heq | hmem
  · exact absurd (congrArg Prod.fst heq).symm events_ne_alpha
  · have hne : "alpha" ≠ "lobby" := by decide
    exact hne (congrArg Prod.fst (List.mem_singleton.1 hmem))

end Observatory.AgentScorer
