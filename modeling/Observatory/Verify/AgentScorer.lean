import Observatory.Model.AgentScorer

/-!
# What a poll keeps

All messages of a room share one transaction, and a message whose row cannot be written rolls it
back: the rows of the messages before it are gone, while the cursor still moves past them.  A room's
poll goes through the messages of one response in turn (`Batch`) and commits once, at its very end
(`pollRoom_wp`), so the row of a message is kept exactly if no write of a later message fails, or if
a row for it is inserted again afterwards (`rows_kept_iff`).
-/

namespace Observatory.AgentScorer

open Effect

variable {py : Python} {room : String} {seq : Int} {w w' : World} {t t' : List (Performed Sys)}

/-! ## What the parts of a poll perform -/

section programs

open Prog

/-- What is done about a cursor: rows are left alone. -/
inductive CursorOp : Op → Prop where
  | getCursor (room : String) : CursorOp (.getCursor room)
  | fetchRoom (room : String) (since : Int) : CursorOp (.fetchRoom room since)
  | setCursor (room : String) (seq : Int) : CursorOp (.setCursor room seq)

theorem setCursor_only : (setCursor room seq).Only fun o : Op => ∃ seq, o = .setCursor room seq := by
  unfold setCursor
  split
  · exact .raise
  · exact .call ⟨seq, rfl⟩

theorem setCursor_cursorOp : (setCursor room seq).Only CursorOp := by
  refine setCursor_only.mono ?_
  rintro o ⟨seq, rfl⟩
  exact .setCursor room seq

theorem readRoom_only {since : Int} : (readRoom py room since).Only CursorOp := by
  have hrest : ((AgentScorer.perform (.fetchRoom room since)).bind fun data =>
      ((advanceCursor py room data).swallow).bind fun _ => .ret data).Only CursorOp := by
    refine .bind (.call (.fetchRoom room since)) fun data => .bind (.swallow ?_) fun _ => .ret
    exact .bind .ofExcept fun _ => setCursor_cursorOp
  simp only [readRoom, bind_eq]
  split
  · exact .raise
  · exact hrest

theorem cursorOf_only : (cursorOf room).Only CursorOp := by
  refine .bind (.attempt (.call (.getCursor room))) fun res => ?_
  split
  · exact .ret
  · exact .ret

/-- What is done for a message: cursors and rooms are left alone. -/
inductive RowOp : Op → Prop where
  | rollback : RowOp .rollback
  | evaluate (call : Evaluate) : RowOp (.evaluate call)
  | selectEvaluation (room : String) (seq : Int) : RowOp (.selectEvaluation room seq)
  | insertEvaluation (row : AgentEvaluation) : RowOp (.insertEvaluation row)
  | sendRiskAlert (row : AgentEvaluation) : RowOp (.sendRiskAlert row)

theorem evaluate_calls {msg : Dict} :
    (evaluate py room seq msg).Only fun o : Op => ∃ call, o = .evaluate call := by
  refine .bind (.attempt (.bind .ofExcept fun _ => .call ⟨_, rfl⟩)) fun res => ?_
  split
  · exact .ret
  · split
    · exact .ret
    · refine .bind (.attempt (.call ⟨_, rfl⟩)) fun res => ?_
      split
      · exact .ret
      · exact .ret

theorem evaluate_only {msg : Dict} : (evaluate py room seq msg).Only RowOp := by
  refine evaluate_calls.mono ?_
  rintro o ⟨call, rfl⟩
  exact .evaluate call

theorem writeRow_only {msg result : Dict} : (writeRow py room seq msg result).Only RowOp := by
  refine .bind (.call (.selectEvaluation room seq)) fun dup => ?_
  split
  · exact .ret
  · refine .bind .ofExcept fun row => ?_
    exact .bind (.call (.insertEvaluation row)) fun _ => .ret

theorem handleMessage_only {msg : Dict} : (handleMessage py room seq msg).Only RowOp := by
  refine .bind evaluate_only fun result => ?_
  split
  · exact .ret
  · refine .bind (.attempt writeRow_only) fun res => ?_
    split
    · exact .bind (.swallow (.call .rollback)) fun _ => .ret
    · exact .ret
    · exact .bind (.swallow (.call (.sendRiskAlert _))) fun _ => .ret

theorem handleMessages_only {msgs : List Json} {maxSeq : Int} {processed : Nat} :
    (handleMessages py room msgs maxSeq processed).Only RowOp := by
  fun_induction handleMessages py room msgs maxSeq processed with
  | case1 => exact .ret
  | case2 maxSeq processed msg rest seq hseq ih => exact ih
  | case3 maxSeq processed msg rest seq hseq ih =>
    exact .bind handleMessage_only ih
  | case4 msg rest maxSeq processed hmsg ih => exact ih

theorem rollback_only : rollback.Only RowOp := .swallow (.call .rollback)

end programs

/-! ## The session along a trace -/

/-- The trace rolls the session back, or tries to. -/
def RollsBack (t : List (Performed Sys)) : Prop := ∃ res, (⟨.rollback, res⟩ : Performed Sys) ∈ t

/-- The row for the message is inserted. -/
def Inserts (t : List (Performed Sys)) (room : String) (seq : Int) : Prop :=
  ∃ row, (⟨.insertEvaluation row, .ok ()⟩ : Performed Sys) ∈ t ∧ row.room = room ∧ row.seq = seq

/-- The row for the message is inserted, and no write that fails afterwards rolls it back. -/
def InsertsForGood (t : List (Performed Sys)) (room : String) (seq : Int) : Prop :=
  ∃ t₁ row t₂, t = t₁ ++ ⟨.insertEvaluation row, .ok ()⟩ :: t₂ ∧ row.room = room ∧ row.seq = seq ∧
    ¬RollsBack t₂

theorem rollsBack_cons {e : Performed Sys} :
    RollsBack (e :: t) ↔ e.op = .rollback ∨ RollsBack t := by
  constructor
  · rintro ⟨res, hmem⟩
    rcases List.mem_cons.1 hmem with rfl | hmem
    · exact .inl rfl
    · exact .inr ⟨res, hmem⟩
  · rintro (ho | ⟨res, hmem⟩)
    · obtain ⟨o, res⟩ := e
      cases ho
      exact ⟨res, List.mem_cons_self⟩
    · exact ⟨res, List.mem_cons_of_mem _ hmem⟩

/-- What one operation does to the committed rows and to those still pending. -/
inductive RowStep (w : World) : Performed Sys → World → Prop where
  | same {e : Performed Sys} {w' : World} (hc : w'.committed = w.committed)
      (hp : w'.pending = w.pending) (ha : w.aborted = true → w'.aborted = true)
      (ho : e.op ≠ .rollback) (hi : ∀ row, e ≠ ⟨.insertEvaluation row, .ok ()⟩)
      (hn : e ≠ ⟨.commit, .ok ()⟩) : RowStep w e w'
  | inserted {row : AgentEvaluation} {w' : World} (hc : w'.committed = w.committed)
      (hp : w'.pending = w.pending ++ [row])
      (hnew : ¬w.current.Evaluated row.room row.seq) (ha : w.aborted = false) :
      RowStep w ⟨.insertEvaluation row, .ok ()⟩ w'
  | rolledBack {w' : World} (hc : w'.committed = w.committed) (hp : w'.pending = []) :
      RowStep w ⟨.rollback, .ok ()⟩ w'
  | notRolledBack {x : LibError} {w' : World} (hc : w'.committed = w.committed)
      (ha : w'.aborted = true) : RowStep w ⟨.rollback, .error x⟩ w'
  | committed {w' : World} (hc : w'.committed.evaluations = w.current.evaluations)
      (ha : w.aborted = false) : RowStep w ⟨.commit, .ok ()⟩ w'

/-- A statement that failed, or that was refused. -/
theorem statement_error {α : Type} {ch : Choice} {effect : Except LibError (World × α)}
    (h : ∀ a, (w.statement ch effect).2 ≠ .ok a) :
    (w.statement ch effect).1 = { w with aborted := true } := by
  unfold World.statement at h ⊢
  by_cases ha : w.aborted = true
  · rw [if_pos ha, ← ha]
  · rw [if_neg ha] at h ⊢
    split
    · rfl
    · rfl
    · next hfault =>
      simp only [hfault] at h
      exact absurd rfl (h _)

/-- A statement that went through. -/
theorem statement_ok {α : Type} {ch : Choice} {effect : Except LibError (World × α)} {a : α}
    (h : (w.statement ch effect).2 = .ok a) :
    effect = .ok ((w.statement ch effect).1, a) ∧ w.aborted = false := by
  unfold World.statement at h ⊢
  by_cases ha : w.aborted = true
  · rw [if_pos ha] at h
    cases h
  · rw [if_neg ha] at h ⊢
    refine ⟨?_, Bool.eq_false_of_not_eq_true ha⟩
    split at h
    · cases h
    · cases h
    · cases h
      rfl

/-- A statement that failed leaves the rows alone. -/
theorem rowStep_failed {o : Op} {ch : Choice} {effect : Except LibError (World × o.Ans)}
    {x : LibError} (ho : o ≠ .rollback) (hres : (w.statement ch effect).2 = .error x) :
    RowStep w ⟨o, .error x⟩ (w.statement ch effect).1 := by
  have hfail : ∀ a, (w.statement ch effect).2 ≠ .ok a := by
    intro a heq
    rw [hres] at heq
    cases heq
  rw [statement_error hfail]
  refine .same rfl rfl (fun _ => rfl) ho (fun row heq => ?_) fun heq => ?_
  · cases heq
  · cases heq

/-- A statement that writes no rows. -/
theorem rowStep_statement {o : Op} {ch : Choice} {effect : Except LibError (World × o.Ans)}
    (hr : o ≠ .rollback) (ho : ∀ row, o ≠ .insertEvaluation row) (hn : o ≠ .commit)
    (hsame : ∀ w' a, effect = .ok (w', a) → w'.committed = w.committed ∧ w'.pending = w.pending ∧
      w'.aborted = w.aborted) :
    RowStep w ⟨o, (w.statement ch effect).2⟩ (w.statement ch effect).1 := by
  cases hres : (w.statement ch effect).2 with
  | error x => exact rowStep_failed hr hres
  | ok a =>
    obtain ⟨heff, -⟩ := statement_ok hres
    obtain ⟨hc, hp, ha⟩ := hsame _ a heff
    refine .same hc hp ha.trans hr (fun row heq => ?_) fun heq => ?_
    · exact ho row (congrArg Performed.op heq)
    · exact hn (congrArg Performed.op heq)

/-- **What an operation does to the rows.** -/
theorem rowStep (w : World) (ch : Choice) (o : Op) :
    RowStep w ⟨o, (w.exec ch o).2⟩ (w.exec ch o).1 := by
  cases o with
  | getCursor room =>
    refine rowStep_statement (by simp) (by simp) (by simp) fun w' a heff => ?_
    cases heff
    exact ⟨rfl, rfl, rfl⟩
  | setCursor room seq =>
    refine rowStep_statement (by simp) (by simp) (by simp) fun w' a heff => ?_
    cases heff
    exact ⟨rfl, rfl, rfl⟩
  | selectEvaluation room seq =>
    refine rowStep_statement (by simp) (by simp) (by simp) fun w' a heff => ?_
    cases heff
    exact ⟨rfl, rfl, rfl⟩
  | insertEvaluation row =>
    cases hres : (w.exec ch (.insertEvaluation row)).2 with
    | error x => exact rowStep_failed (by simp) hres
    | ok u =>
      obtain ⟨heff, ha⟩ := statement_ok hres
      by_cases hdup : w.current.Evaluated row.room row.seq
      · rw [if_pos hdup] at heff
        cases heff
      · have hw : (w.exec ch (.insertEvaluation row)).1 = { w with pending := w.pending ++ [row] } := by
          simp only [World.exec, if_neg hdup] at heff ⊢
          exact (congrArg Prod.fst (Except.ok.inj heff)).symm
        exact .inserted (by rw [hw]) (by rw [hw]) hdup ha
  | commit =>
    cases hres : (w.exec ch .commit).2 with
    | error x => exact rowStep_failed (by simp) hres
    | ok u =>
      obtain ⟨heff, ha⟩ := statement_ok hres
      have hw : (w.exec ch .commit).1 =
          { w with committed := w.current, pending := [], moved := [] } :=
        (congrArg Prod.fst (Except.ok.inj heff)).symm
      exact .committed (by rw [hw]) ha
  | rollback =>
    cases hfault : ch.fault with
    | some x =>
      simp only [World.exec, hfault]
      exact .notRolledBack rfl rfl
    | none =>
      simp only [World.exec, hfault]
      exact .rolledBack rfl rfl
  | fetchRoom room since =>
    refine .same rfl rfl id (by simp) (fun row heq => ?_) fun heq => ?_
    · cases congrArg Performed.op heq
    · cases congrArg Performed.op heq
  | evaluate call =>
    refine .same rfl rfl id (by simp) (fun row heq => ?_) fun heq => ?_
    · cases congrArg Performed.op heq
    · cases congrArg Performed.op heq
  | sendRiskAlert row =>
    refine .same rfl rfl id (by simp) (fun row heq => ?_) fun heq => ?_
    · cases congrArg Performed.op heq
    · cases congrArg Performed.op heq

theorem steps_cons {e : Performed Sys} (h : Steps World.exec w (e :: t) w') :
    ∃ w₁, RowStep w e w₁ ∧ Steps World.exec w₁ t w' := by
  cases h with
  | cons ch o h => exact ⟨_, rowStep w ch o, h⟩

/-- The trace has no commit. -/
def Uncommitted (t : List (Performed Sys)) : Prop := ∀ res, (⟨.commit, res⟩ : Performed Sys) ∉ t

theorem Uncommitted.of_cons {e : Performed Sys} (hu : Uncommitted (e :: t)) : Uncommitted t :=
  fun res hmem => hu res (List.mem_cons_of_mem e hmem)

theorem Uncommitted.of_append (hu : Uncommitted (t ++ t')) : Uncommitted t ∧ Uncommitted t' :=
  ⟨fun res hmem => hu res (List.mem_append_left _ hmem),
    fun res hmem => hu res (List.mem_append_right _ hmem)⟩

/-- Without a commit, nothing is committed. -/
theorem committed_same (h : Steps World.exec w t w') (hu : Uncommitted t) :
    w'.committed = w.committed := by
  induction t generalizing w with
  | nil =>
    cases h
    rfl
  | cons e t ih =>
    obtain ⟨w₁, hstep, hrest⟩ := steps_cons h
    rw [ih hrest hu.of_cons]
    cases hstep with
    | same hc => exact hc
    | inserted hc => exact hc
    | rolledBack hc => exact hc
    | notRolledBack hc ha => exact hc
    | committed hc ha => exact absurd List.mem_cons_self (hu _)

theorem evaluated_current (hc : w'.committed = w.committed) (hp : w'.pending = w.pending) :
    w'.current.Evaluated room seq ↔ w.current.Evaluated room seq := by
  simp only [Tables.Evaluated, World.current, hc, hp]

theorem evaluated_inserted {row : AgentEvaluation} (hc : w'.committed = w.committed)
    (hp : w'.pending = w.pending ++ [row]) :
    w'.current.Evaluated room seq ↔
      w.current.Evaluated room seq ∨ row.room = room ∧ row.seq = seq := by
  simp only [Tables.Evaluated, World.current, hc, hp, ← List.append_assoc]
  constructor
  · rintro ⟨row', hmem, hkey⟩
    rcases List.mem_append.1 hmem with hmem | hmem
    · exact .inl ⟨row', hmem, hkey⟩
    · obtain rfl := List.mem_singleton.1 hmem
      exact .inr hkey
  · rintro (⟨row', hmem, hkey⟩ | hkey)
    · exact ⟨row', List.mem_append_left _ hmem, hkey⟩
    · exact ⟨row, List.mem_append_right _ (List.mem_singleton_self row), hkey⟩

theorem inserts_cons {e : Performed Sys} :
    Inserts (e :: t) room seq ↔
      (∃ row, e = ⟨.insertEvaluation row, .ok ()⟩ ∧ row.room = room ∧ row.seq = seq) ∨
        Inserts t room seq := by
  constructor
  · rintro ⟨row, hmem, hkey⟩
    rcases List.mem_cons.1 hmem with heq | hmem
    · exact .inl ⟨row, heq.symm, hkey⟩
    · exact .inr ⟨row, hmem, hkey⟩
  · rintro (⟨row, rfl, hkey⟩ | ⟨row, hmem, hkey⟩)
    · exact ⟨row, List.mem_cons_self, hkey⟩
    · exact ⟨row, List.mem_cons_of_mem _ hmem, hkey⟩

/-- **Without a rollback, insertions add up**, and a session that has failed stays so. -/
theorem evaluated_iff (h : Steps World.exec w t w') (hu : Uncommitted t) (hr : ¬RollsBack t) :
    (w'.current.Evaluated room seq ↔ w.current.Evaluated room seq ∨ Inserts t room seq) ∧
      (w.aborted = true → w'.aborted = true) := by
  induction t generalizing w with
  | nil =>
    cases h
    refine ⟨⟨.inl, fun hor => hor.resolve_right ?_⟩, id⟩
    rintro ⟨row, hmem, -⟩
    cases hmem
  | cons e t ih =>
    obtain ⟨w₁, hstep, hrest⟩ := steps_cons h
    have hne : e.op ≠ .rollback := fun ho => hr (rollsBack_cons.2 (.inl ho))
    obtain ⟨hiff, haborted⟩ := ih hrest hu.of_cons fun h' => hr (rollsBack_cons.2 (.inr h'))
    rw [hiff, inserts_cons]
    cases hstep with
    | same hc hp ha ho hi hn =>
      rw [evaluated_current hc hp]
      refine ⟨or_congr_right ⟨.inr, fun hor => hor.resolve_left ?_⟩, fun h' => haborted (ha h')⟩
      rintro ⟨row, heq, -⟩
      exact hi row heq
    | @inserted row w₁ hc hp hnew ha =>
      rw [evaluated_inserted hc hp, or_assoc]
      refine ⟨or_congr_right (or_congr_left ⟨fun hkey => ⟨row, rfl, hkey⟩, ?_⟩), fun h' => ?_⟩
      · rintro ⟨row', heq, hkey⟩
        cases heq
        exact hkey
      · rw [ha] at h'
        cases h'
    | rolledBack => exact absurd rfl hne
    | notRolledBack => exact absurd rfl hne
    | committed => exact absurd List.mem_cons_self (hu _)

/-- What is inserted was not committed before. -/
theorem inserts_new (h : Steps World.exec w t w') (hu : Uncommitted t)
    (hi : Inserts t room seq) : ¬w.committed.Evaluated room seq := by
  obtain ⟨row, hmem, rfl, rfl⟩ := hi
  obtain ⟨t₁, t₂, rfl⟩ := List.append_of_mem hmem
  obtain ⟨w₁, h₁, h₂⟩ := steps_append.1 h
  obtain ⟨w₂, hstep, -⟩ := steps_cons h₂
  rintro ⟨row', hrow', hkey⟩
  cases hstep with
  | same hc hp ha ho hne hn => exact hne row rfl
  | inserted hc hp hnew ha =>
    refine hnew ⟨row', List.mem_append_left _ ?_, hkey⟩
    rwa [committed_same h₁ hu.of_append.1]

/-- The last rollback of a trace. -/
theorem exists_last_rollback (hr : RollsBack t) :
    ∃ t₁ res t₂, t = t₁ ++ ⟨.rollback, res⟩ :: t₂ ∧ ¬RollsBack t₂ := by
  induction t with
  | nil =>
    obtain ⟨res, hmem⟩ := hr
    cases hmem
  | cons e t ih =>
    by_cases hrest : RollsBack t
    · obtain ⟨t₁, res, t₂, rfl, hnone⟩ := ih hrest
      exact ⟨e :: t₁, res, t₂, rfl, hnone⟩
    · obtain ⟨o, res⟩ := e
      have ho : o = .rollback := (rollsBack_cons.1 hr).resolve_right hrest
      subst ho
      exact ⟨[], res, t, rfl, hrest⟩

/-- **What the commit finds.**  An inserted row is still there exactly if it was inserted for
good. -/
theorem kept_iff (h : Steps World.exec w t w') (hu : Uncommitted t) (ha : w'.aborted = false)
    (hi : Inserts t room seq) : w'.current.Evaluated room seq ↔ InsertsForGood t room seq := by
  constructor
  · intro hkept
    by_cases hr : RollsBack t
    · obtain ⟨t₁, res, t₂, rfl, hnone⟩ := exists_last_rollback hr
      obtain ⟨w₁, h₁, h₂⟩ := steps_append.1 h
      obtain ⟨w₂, hstep, h₃⟩ := steps_cons h₂
      have hlast : (w'.current.Evaluated room seq ↔ w₂.current.Evaluated room seq ∨
          Inserts t₂ room seq) ∧ (w₂.aborted = true → w'.aborted = true) :=
        evaluated_iff h₃ hu.of_append.2.of_cons hnone
      have hnew : ¬w.committed.Evaluated room seq := inserts_new h hu hi
      cases hstep with
      | same hc hp ha' ho hi hn => exact absurd rfl ho
      | notRolledBack hc ha' =>
        rw [hlast.2 ha'] at ha
        cases ha
      | rolledBack hc hp =>
        rcases hlast.1.1 hkept with ⟨row, hmem, hkey⟩ | ⟨row, hmem, rfl, rfl⟩
        · refine absurd ⟨row, ?_, hkey⟩ hnew
          rw [World.current, hp, List.append_nil, hc, committed_same h₁ hu.of_append.1] at hmem
          exact hmem
        · obtain ⟨t₃, t₄, rfl⟩ := List.append_of_mem hmem
          refine ⟨t₁ ++ ⟨.rollback, .ok ()⟩ :: t₃, row, t₄, by simp, rfl, rfl, ?_⟩
          rintro ⟨res, hres⟩
          exact hnone ⟨res, List.mem_append_right _ (List.mem_cons_of_mem _ hres)⟩
    · obtain ⟨row, hmem, rfl, rfl⟩ := hi
      obtain ⟨t₁, t₂, rfl⟩ := List.append_of_mem hmem
      refine ⟨t₁, row, t₂, rfl, rfl, rfl, fun ⟨res, hres⟩ => hr ⟨res, ?_⟩⟩
      exact List.mem_append_right _ (List.mem_cons_of_mem _ hres)
  · rintro ⟨t₁, row, t₂, rfl, rfl, rfl, hnone⟩
    obtain ⟨w₁, h₁, h₂⟩ := steps_append.1 h
    obtain ⟨w₂, hstep, h₃⟩ := steps_cons h₂
    refine (evaluated_iff h₃ hu.of_append.2.of_cons hnone).1.2 (.inl ?_)
    cases hstep with
    | same hc hp ha ho hne hn => exact absurd rfl (hne row)
    | inserted hc hp hnew ha => exact (evaluated_inserted hc hp).2 (.inr ⟨rfl, rfl⟩)

/-! ## The messages of a response -/

/-- What became of a message. -/
inductive Verdict where
  /-- `evaluate` gave no result -/
  | unevaluated
  /-- there was a row for it -/
  | present
  | inserted
  /-- its row could not be written -/
  | failed
deriving DecidableEq

/-- The loop's work on a message: it is evaluated, looked up, inserted and reported; a write that
fails is rolled back. -/
inductive Handles (py : Python) (room : String) (seq : Int) (msg : Dict) :
    Verdict → List (Performed Sys) → Prop where
  | unevaluated {t : List (Performed Sys)} (he : (evaluate py room seq msg).Exec t (.ok none)) :
      Handles py room seq msg .unevaluated t
  | present {result : Dict} {t₁ t₂ : List (Performed Sys)}
      (he : (evaluate py room seq msg).Exec t₁ (.ok (some result)))
      (hw : (writeRow py room seq msg result).Exec t₂ (.ok none)) :
      Handles py room seq msg .present (t₁ ++ t₂)
  | inserted {result : Dict} {row : AgentEvaluation} {t₁ t₂ t₃ : List (Performed Sys)}
      (he : (evaluate py room seq msg).Exec t₁ (.ok (some result)))
      (hw : (writeRow py room seq msg result).Exec t₂ (.ok (some row)))
      (ha : (AgentScorer.perform (.sendRiskAlert row)).swallow.Exec t₃ (.ok ())) :
      Handles py room seq msg .inserted (t₁ ++ (t₂ ++ t₃))
  | failed {result : Dict} {x : LibError} {t₁ t₂ t₃ : List (Performed Sys)}
      (he : (evaluate py room seq msg).Exec t₁ (.ok (some result)))
      (hw : (writeRow py room seq msg result).Exec t₂ (.error x))
      (hr : rollback.Exec t₃ (.ok ())) :
      Handles py room seq msg .failed (t₁ ++ (t₂ ++ t₃))

/-- **The messages of a response**, one after the other: what is no message or has no `seq` is
passed over, any other is handled. -/
inductive Batch (py : Python) (room : String) :
    List Json → List (Int × Verdict) → List (Performed Sys) → Prop where
  | nil : Batch py room [] [] []
  | passed {x : Json} {msgs : List Json} {vs : List (Int × Verdict)} {t : List (Performed Sys)}
      (hx : ∀ msg, x = .obj msg → seqOf py msg = 0) (h : Batch py room msgs vs t) :
      Batch py room (x :: msgs) vs t
  | handled {msg : Dict} {v : Verdict} {msgs : List Json} {vs : List (Int × Verdict)}
      {t t' : List (Performed Sys)} (hseq : seqOf py msg ≠ 0)
      (hv : Handles py room (seqOf py msg) msg v t) (h : Batch py room msgs vs t') :
      Batch py room (.obj msg :: msgs) ((seqOf py msg, v) :: vs) (t ++ t')

/-- The message's row is inserted, and the write of no message after it fails. -/
def InsertedForGood (vs : List (Int × Verdict)) (seq : Int) : Prop :=
  ∃ vs₁ vs₂, vs = vs₁ ++ (seq, .inserted) :: vs₂ ∧ ∀ x ∈ vs₂, x.2 ≠ .failed

theorem insertedForGood_cons {x : Int × Verdict} {vs : List (Int × Verdict)} :
    InsertedForGood (x :: vs) seq ↔
      (x = (seq, .inserted) ∧ ∀ x ∈ vs, x.2 ≠ .failed) ∨ InsertedForGood vs seq := by
  constructor
  · rintro ⟨vs₁, vs₂, heq, hnone⟩
    cases vs₁ with
    | nil =>
      cases heq
      exact .inl ⟨rfl, hnone⟩
    | cons y vs₁ =>
      cases heq
      exact .inr ⟨vs₁, vs₂, rfl, hnone⟩
  · rintro (⟨rfl, hnone⟩ | ⟨vs₁, vs₂, rfl, hnone⟩)
    · exact ⟨[], vs, rfl, hnone⟩
    · exact ⟨x :: vs₁, vs₂, rfl, hnone⟩

theorem rollsBack_append : RollsBack (t ++ t') ↔ RollsBack t ∨ RollsBack t' := by
  simp only [RollsBack, List.mem_append, exists_or]

theorem inserts_append : Inserts (t ++ t') room seq ↔ Inserts t room seq ∨ Inserts t' room seq := by
  simp only [Inserts, List.mem_append, or_and_right, exists_or]

/-- A row inserted for good, in a trace of two parts. -/
theorem insertsForGood_append : InsertsForGood (t ++ t') room seq ↔
    (InsertsForGood t room seq ∧ ¬RollsBack t') ∨ InsertsForGood t' room seq := by
  constructor
  · rintro ⟨t₁, row, t₂, heq, hroom, hseq, hnone⟩
    rcases List.append_eq_append_iff.1 heq with ⟨t₃, rfl, rfl⟩ | ⟨t₃, rfl, hcons⟩
    · exact .inr ⟨t₃, row, t₂, rfl, hroom, hseq, hnone⟩
    · cases t₃ with
      | nil => exact .inr ⟨[], row, t₂, hcons.symm, hroom, hseq, hnone⟩
      | cons e t₃ =>
        cases hcons
        have hnone := not_or.1 (rollsBack_append.not.1 hnone)
        exact .inl ⟨⟨t₁, row, t₃, rfl, hroom, hseq, hnone.1⟩, hnone.2⟩
  · rintro (⟨⟨t₁, row, t₂, rfl, hroom, hseq, hnone⟩, hnone'⟩ | ⟨t₁, row, t₂, rfl, hroom, hseq, hnone⟩)
    · exact ⟨t₁, row, t₂ ++ t', by simp, hroom, hseq,
        rollsBack_append.not.2 (not_or.2 ⟨hnone, hnone'⟩)⟩
    · exact ⟨t ++ t₁, row, t₂, by simp, hroom, hseq, hnone⟩

/-- The trace neither inserts nor rolls back. -/
def Aside (t : List (Performed Sys)) : Prop :=
  ¬RollsBack t ∧ ∀ room seq, ¬Inserts t room seq

theorem aside_of_ops (h : ∀ e ∈ t, e.op ≠ .rollback ∧ ∀ row, e.op ≠ .insertEvaluation row) :
    Aside t := by
  refine ⟨fun ⟨res, hmem⟩ => (h _ hmem).1 rfl, ?_⟩
  rintro room seq ⟨row, hmem, -⟩
  exact (h _ hmem).2 row rfl

theorem Aside.rollsBack (h : Aside t) : RollsBack (t ++ t') ↔ RollsBack t' := by
  rw [rollsBack_append, or_iff_right h.1]

theorem Aside.inserts (h : Aside t) : Inserts (t ++ t') room seq ↔ Inserts t' room seq := by
  rw [inserts_append, or_iff_right (h.2 room seq)]

theorem aside_of_cursorOp (h : ∀ e ∈ t, CursorOp e.op) : Aside t := by
  refine aside_of_ops fun e he => ?_
  have ho := h e he
  constructor
  · intro heq
    rw [heq] at ho
    cases ho
  · intro row heq
    rw [heq] at ho
    cases ho

theorem evaluate_aside {msg : Dict} {r : Except LibError (Option Dict)}
    (h : (evaluate py room seq msg).Exec t r) : Aside t := by
  refine aside_of_ops fun e he => ?_
  obtain ⟨call, ho⟩ := Prog.exec_only h evaluate_calls e he
  rw [ho]
  exact ⟨Op.noConfusion, fun row => Op.noConfusion⟩

theorem rowOf_key {msg result : Dict} {row : AgentEvaluation}
    (h : rowOf py room seq msg result = .ok row) : row.room = room ∧ row.seq = seq := by
  simp only [rowOf, bind, Except.bind] at h
  split at h
  · cases h
  · cases h
    exact ⟨rfl, rfl⟩

/-- **A row is written** if there is none and its `INSERT` goes through. -/
theorem writeRow_exec {msg result : Dict} {r : Except LibError (Option AgentEvaluation)}
    (h : (writeRow py room seq msg result).Exec t r) :
    ¬RollsBack t ∧ ∀ room' seq',
      Inserts t room' seq' ↔ (∃ row, r = .ok (some row)) ∧ room' = room ∧ seq' = seq := by
  have hbind : ((AgentScorer.perform (.selectEvaluation room seq)).bind fun present =>
      if present then .ret none
      else (Prog.ofExcept (rowOf py room seq msg result)).bind fun row =>
        (AgentScorer.perform (.insertEvaluation row)).bind fun _ => .ret (some row)).Exec t r := h
  rcases Prog.exec_bind.1 hbind with ⟨present, t₁, t₂, rfl, hselect, hrest⟩ | ⟨x, rfl, hselect⟩
  · obtain rfl := Prog.exec_call_ok.1 hselect
    cases present with
    | true =>
      obtain ⟨rfl, rfl⟩ := Prog.exec_ret.1 hrest
      simp [RollsBack, Inserts]
    | false =>
      rcases Prog.exec_bind.1 hrest with ⟨row, t₃, t₄, rfl, hrow, hinsert⟩ | ⟨x, rfl, hrow⟩
      · obtain ⟨rfl, hrow'⟩ := Prog.exec_ofExcept.1 hrow
        obtain ⟨rfl, rfl⟩ := rowOf_key hrow'.symm
        rcases Prog.exec_bind.1 hinsert with ⟨u, t₅, t₆, rfl, hcall, hret⟩ | ⟨x, rfl, hcall⟩
        · obtain rfl := Prog.exec_call_ok.1 hcall
          obtain ⟨rfl, rfl⟩ := Prog.exec_ret.1 hret
          refine ⟨by simp [RollsBack], fun room' seq' => ?_⟩
          simp [Inserts, eq_comm]
        · obtain ⟨y, rfl, -⟩ := Prog.exec_call_error.1 hcall
          simp [RollsBack, Inserts]
      · obtain ⟨rfl, -⟩ := Prog.exec_ofExcept.1 hrow
        simp [RollsBack, Inserts]
  · obtain ⟨y, rfl, -⟩ := Prog.exec_call_error.1 hselect
    simp [RollsBack, Inserts]

/-- What the handling of a message does to the session. -/
theorem Handles.spec {msg : Dict} {v : Verdict} (h : Handles py room seq msg v t) :
    (RollsBack t ↔ v = .failed) ∧
      ∀ room' seq', Inserts t room' seq' ↔ v = .inserted ∧ room' = room ∧ seq' = seq := by
  cases h with
  | unevaluated he =>
    have haside := evaluate_aside he
    exact ⟨iff_of_false haside.1 Verdict.noConfusion, fun room' seq' =>
      iff_of_false (haside.2 room' seq') fun hv => Verdict.noConfusion hv.1⟩
  | present he hw =>
    obtain ⟨hnone, hinserts⟩ := writeRow_exec hw
    rw [(evaluate_aside he).rollsBack]
    refine ⟨iff_of_false hnone Verdict.noConfusion, fun room' seq' => ?_⟩
    rw [(evaluate_aside he).inserts, hinserts]
    simp
  | @inserted result row t₁ t₂ t₃ he hw ha =>
    obtain ⟨hnone, hinserts⟩ := writeRow_exec hw
    have halert : Aside t₃ := by
      obtain ⟨-, s, ha⟩ := Prog.exec_swallow.1 ha
      obtain ⟨res, rfl, -⟩ := Prog.exec_call_lift.1 ha
      exact aside_of_ops (by simp)
    rw [(evaluate_aside he).rollsBack, rollsBack_append]
    refine ⟨iff_of_false (not_or.2 ⟨hnone, halert.1⟩) Verdict.noConfusion, fun room' seq' => ?_⟩
    rw [(evaluate_aside he).inserts, inserts_append, or_iff_left (halert.2 room' seq'), hinserts]
    simp
  | @failed result x t₁ t₂ t₃ he hw hr =>
    obtain ⟨hnone, hinserts⟩ := writeRow_exec hw
    obtain ⟨-, s, hr⟩ := Prog.exec_swallow.1 hr
    obtain ⟨res, rfl, -⟩ := Prog.exec_call_lift.1 hr
    rw [(evaluate_aside he).rollsBack, rollsBack_append]
    refine ⟨iff_of_true (.inr ⟨res, List.mem_singleton_self _⟩) rfl, fun room' seq' => ?_⟩
    rw [(evaluate_aside he).inserts, inserts_append, hinserts]
    simp [Inserts]

/-- Without a rollback, what is inserted is inserted for good. -/
theorem insertsForGood_of_not_rollsBack (hnone : ¬RollsBack t) :
    InsertsForGood t room seq ↔ Inserts t room seq := by
  constructor
  · rintro ⟨t₁, row, t₂, rfl, hroom, hseq, -⟩
    exact ⟨row, by simp, hroom, hseq⟩
  · rintro ⟨row, hmem, hroom, hseq⟩
    obtain ⟨t₁, t₂, rfl⟩ := List.append_of_mem hmem
    refine ⟨t₁, row, t₂, rfl, hroom, hseq, fun ⟨res, hres⟩ => hnone ⟨res, ?_⟩⟩
    exact List.mem_append_right _ (List.mem_cons_of_mem _ hres)

theorem InsertsForGood.inserts (h : InsertsForGood t room seq) : Inserts t room seq := by
  obtain ⟨t₁, row, t₂, rfl, hroom, hseq, -⟩ := h
  exact ⟨row, by simp, hroom, hseq⟩

theorem Aside.insertsForGood (h : Aside t) :
    InsertsForGood (t ++ t') room seq ↔ InsertsForGood t' room seq := by
  rw [insertsForGood_append, or_iff_right fun hgood => h.2 room seq hgood.1.inserts]

/-- **What a batch does to the session**, message by message. -/
theorem Batch.spec {msgs : List Json} {vs : List (Int × Verdict)} (h : Batch py room msgs vs t) :
    (RollsBack t ↔ ∃ x ∈ vs, x.2 = .failed) ∧
      (∀ seq, Inserts t room seq ↔ (seq, .inserted) ∈ vs) ∧
      ∀ seq, InsertsForGood t room seq ↔ InsertedForGood vs seq := by
  induction h with
  | nil => simp [RollsBack, Inserts, InsertsForGood, InsertedForGood]
  | passed hx h ih => exact ih
  | @handled msg v msgs vs t t' hseq hv h ih =>
    obtain ⟨hrolls, hinserts⟩ := hv.spec
    obtain ⟨ihrolls, ihinserts, ihgood⟩ := ih
    refine ⟨?_, fun seq => ?_, fun seq => ?_⟩
    · rw [rollsBack_append, hrolls, ihrolls, List.exists_mem_cons_iff]
    · rw [inserts_append, hinserts, ihinserts, List.mem_cons, Prod.mk.injEq]
      tauto
    · rw [insertsForGood_append, ihrolls, ihgood, insertedForGood_cons]
      refine or_congr_left (and_congr ?_ (by simp only [not_exists, not_and, ne_eq]))
      rw [Prod.mk.injEq]
      constructor
      · intro hgood
        obtain ⟨hv, -, hsame⟩ := (hinserts room seq).1 hgood.inserts
        exact ⟨hsame.symm, hv⟩
      · rintro ⟨rfl, rfl⟩
        refine (insertsForGood_of_not_rollsBack fun hr => ?_).2 ((hinserts _ _).2 ⟨rfl, rfl, rfl⟩)
        exact Verdict.noConfusion (hrolls.1 hr)

/-! ## The poll of a room -/

/-- The highest `seq` seen. -/
def highest (cursor : Int) (vs : List (Int × Verdict)) : Int :=
  vs.foldl (fun m x => max m x.1) cursor

theorem le_highest {cursor : Int} {vs : List (Int × Verdict)} :
    cursor ≤ highest cursor vs ∧ ∀ x ∈ vs, x.1 ≤ highest cursor vs := by
  induction vs generalizing cursor with
  | nil => exact ⟨le_rfl, fun x hx => absurd hx List.not_mem_nil⟩
  | cons y vs ih =>
    obtain ⟨hcursor, hvs⟩ := @ih (max cursor y.1)
    refine ⟨(le_max_left _ _).trans hcursor, fun x hx => ?_⟩
    rcases List.mem_cons.1 hx with rfl | hx
    · exact (le_max_right _ _).trans hcursor
    · exact hvs x hx

/-- The cursor after the messages: `last_seq`, or the highest `seq` seen. -/
def newCursorOf (py : Python) (data : Dict) (cursor : Int) (vs : List (Int × Verdict)) : Int :=
  max (lastSeqOf py data cursor) (highest cursor vs)

/-- A poll of a room that has come to its end: the cursor and the response it has read, what became
of the messages, and the trace of each part. -/
structure Polled (py : Python) (room : String) (t : List (Performed Sys)) where
  cursor : Int
  data : Dict
  msgs : List Json
  verdicts : List (Int × Verdict)
  asked : List (Performed Sys)
  fetched : List (Performed Sys)
  handled : List (Performed Sys)
  written : List (Performed Sys)
  trace : t = asked ++ (fetched ++ (handled ++ written))
  of_cursor : (cursorOf room).Exec asked (.ok cursor)
  of_data : (readRoom py room cursor).Exec fetched (.ok data)
  of_msgs : messagesOf data = .ok msgs
  of_batch : Batch py room msgs verdicts handled
  of_written : (committing (if cursor < newCursorOf py data cursor verdicts then
    setCursor room (newCursorOf py data cursor verdicts) else .ret ())).Exec written (.ok ())

theorem handleMessage_handles {msg : Dict} {n : Nat}
    (h : (handleMessage py room seq msg).Exec t (.ok n)) : ∃ v, Handles py room seq msg v t := by
  obtain ⟨result, t₁, t₂, rfl, he, hrest⟩ := Prog.exec_bind_ok.1 h
  cases result with
  | none =>
    obtain ⟨rfl, -⟩ := Prog.exec_ret.1 hrest
    rw [List.append_nil]
    exact ⟨_, .unevaluated he⟩
  | some result =>
    obtain ⟨r, t₃, t₄, rfl, hw, hrest⟩ := Prog.exec_attempt_bind.1 hrest
    match r, hw, hrest with
    | .error x, hw, hrest =>
      obtain ⟨u, t₅, t₆, rfl, hr, hret⟩ := Prog.exec_bind_ok.1 hrest
      obtain ⟨rfl, -⟩ := Prog.exec_ret.1 hret
      rw [List.append_nil]
      exact ⟨_, .failed he hw hr⟩
    | .ok none, hw, hrest =>
      obtain ⟨rfl, -⟩ := Prog.exec_ret.1 hrest
      rw [List.append_nil]
      exact ⟨_, .present he hw⟩
    | .ok (some row), hw, hrest =>
      obtain ⟨u, t₅, t₆, rfl, ha, hret⟩ := Prog.exec_bind_ok.1 hrest
      obtain ⟨rfl, -⟩ := Prog.exec_ret.1 hret
      rw [List.append_nil]
      exact ⟨_, .inserted he hw ha⟩

/-- **The loop goes through the whole batch.** -/
theorem handleMessages_batch {msgs : List Json} {maxSeq : Int} {processed : Nat} {r : Int × Nat} :
    ∀ {t}, (handleMessages py room msgs maxSeq processed).Exec t (.ok r) →
      ∃ vs, Batch py room msgs vs t ∧ r.1 = highest maxSeq vs := by
  fun_induction handleMessages py room msgs maxSeq processed with
  | case1 maxSeq processed =>
    intro t h
    obtain ⟨rfl, hr⟩ := Prog.exec_ret.1 h
    cases hr
    exact ⟨[], .nil, rfl⟩
  | case2 msg rest maxSeq processed seq hseq =>
    rename_i ih
    intro t h
    obtain ⟨vs, hbatch, hr⟩ := ih h
    refine ⟨vs, .passed (fun msg' heq => ?_) hbatch, hr⟩
    cases heq
    exact hseq
  | case3 msg rest maxSeq processed seq hseq =>
    rename_i ih
    intro t h
    obtain ⟨n, t₁, t₂, rfl, hone, hrest⟩ := Prog.exec_bind_ok.1 h
    obtain ⟨v, hv⟩ := handleMessage_handles hone
    obtain ⟨vs, hbatch, hr⟩ := ih n hrest
    exact ⟨_, .handled hseq hv hbatch, hr⟩
  | case4 x rest maxSeq processed hmsg ih =>
    intro t h
    obtain ⟨vs, hbatch, hr⟩ := ih h
    exact ⟨vs, .passed (fun msg heq => absurd heq (hmsg msg)) hbatch, hr⟩

theorem uncommitted_of_only {α : Type} {p : Proc α} {r : Except LibError α} {P : Op → Prop}
    (h : p.Exec t r) (hp : p.Only P) (hP : ¬P .commit) : Uncommitted t :=
  fun _ hmem => hP (Prog.exec_only h hp _ hmem)

theorem commit_not_cursorOp : ¬CursorOp .commit := fun h => by cases h

theorem commit_not_rowOp : ¬RowOp .commit := fun h => by cases h

/-- **A commit that went through** is the last operation. -/
theorem committing_exec {body : Proc Unit} {r : Except LibError Unit} (hbody : body.Only CursorOp)
    (h : (committing body).Exec t r) (hcommit : (⟨.commit, .ok ()⟩ : Performed Sys) ∈ t) :
    r = .ok () ∧ ∃ t₀, t = t₀ ++ [⟨.commit, .ok ()⟩] ∧ body.Exec t₀ (.ok ()) := by
  obtain ⟨s, t₁, t₂, rfl, htry, hend⟩ := Prog.exec_attempt_bind.1 h
  have hrollback : ∀ x, s = .error x → (⟨.commit, .ok ()⟩ : Performed Sys) ∉ t₂ := by
    rintro x rfl
    exact uncommitted_of_only hend rollback_only commit_not_rowOp _
  rcases Prog.exec_bind.1 htry with ⟨u, t₃, t₄, rfl, hb, hc⟩ | ⟨x, rfl, hb⟩
  · have hu := uncommitted_of_only hb hbody commit_not_cursorOp
    rcases Prog.exec_call.1 hc with ⟨u', rfl, rfl⟩ | ⟨x, rfl, rfl⟩
    · obtain ⟨rfl, rfl⟩ := Prog.exec_ret.1 hend
      exact ⟨rfl, t₃, List.append_nil _, hb⟩
    · rcases List.mem_append.1 hcommit with hmem | hmem
      · rcases List.mem_append.1 hmem with hmem | hmem
        · exact absurd hmem (hu _)
        · cases List.mem_singleton.1 hmem
      · exact absurd hmem (hrollback _ rfl)
  · rcases List.mem_append.1 hcommit with hmem | hmem
    · exact absurd hmem (uncommitted_of_only hb hbody commit_not_cursorOp _)
    · exact absurd hmem (hrollback _ rfl)

theorem body_only {cursor newCursor : Int} :
    (if cursor < newCursor then setCursor room newCursor else .ret ()).Only CursorOp := by
  split
  · exact setCursor_cursorOp
  · exact .ret

/-- **A committed poll has gone through its response.** -/
theorem exists_polled {res : Except LibError Nat} (h : (pollRoom py room).Exec t res)
    (hcommit : (⟨.commit, .ok ()⟩ : Performed Sys) ∈ t) : Nonempty (Polled py room t) := by
  have hnot : ∀ {α : Type} {p : Proc α} {r : Except LibError α} {P : Op → Prop}
      {t' : List (Performed Sys)}, p.Exec t' r → p.Only P → ¬P .commit →
      (⟨.commit, .ok ()⟩ : Performed Sys) ∉ t' := fun h hp hP =>
    uncommitted_of_only h hp hP _
  rcases Prog.exec_bind.1 h with ⟨cursor, t₁, t₂, rfl, hcursor, hrest⟩ | ⟨x, -, hcursor⟩
  · obtain ⟨s, t₃, t₄, rfl, hdata, hrest⟩ := Prog.exec_attempt_bind.1 hrest
    have hasked := hnot hcursor cursorOf_only commit_not_cursorOp
    have hfetched := hnot hdata readRoom_only commit_not_cursorOp
    cases s with
    | error x =>
      obtain ⟨rfl, -⟩ := Prog.exec_ret.1 hrest
      simp [hasked, hfetched] at hcommit
    | ok data =>
      have hrest : ((Prog.ofExcept (messagesOf data)).bind fun msgs =>
          (handleMessages py room msgs cursor 0).bind fun last =>
            (committing (if cursor < max (lastSeqOf py data cursor) last.1 then
                setCursor room (max (lastSeqOf py data cursor) last.1)
              else .ret ())).bind fun _ => .ret last.2).Exec t₄ res := hrest
      rcases Prog.exec_bind.1 hrest with ⟨msgs, t₅, t₆, rfl, hmsgs, hpoll⟩ | ⟨x, -, hmsgs⟩
      · obtain ⟨rfl, hmsgs'⟩ := Prog.exec_ofExcept.1 hmsgs
        rcases Prog.exec_bind.1 hpoll with ⟨last, t₇, t₈, rfl, hloop, hend⟩ | ⟨x, -, hloop⟩
        · have hhandled := hnot hloop handleMessages_only commit_not_rowOp
          obtain ⟨vs, hbatch, hlast⟩ := handleMessages_batch hloop
          rw [hlast] at hend
          rcases Prog.exec_bind.1 hend with ⟨u, t₉, t₁₀, rfl, hwritten, hret⟩ | ⟨x, -, hwritten⟩
          · obtain ⟨rfl, -⟩ := Prog.exec_ret.1 hret
            exact ⟨⟨cursor, data, msgs, vs, t₁, t₃, t₇, t₉, by simp, hcursor, hdata, hmsgs'.symm,
              hbatch, hwritten⟩⟩
          · have hwrites : (⟨.commit, .ok ()⟩ : Performed Sys) ∈ t₈ := by
              simpa [hasked, hfetched, hhandled] using hcommit
            cases (committing_exec body_only hwritten hwrites).1
        · have hhandled := hnot hloop handleMessages_only commit_not_rowOp
          simp [hasked, hfetched, hhandled] at hcommit
      · obtain ⟨rfl, -⟩ := Prog.exec_ofExcept.1 hmsgs
        simp [hasked, hfetched] at hcommit
  · exact absurd hcommit (hnot hcursor cursorOf_only commit_not_cursorOp)

/-- Every operation of the trace is one on a cursor. -/
theorem aside_of_only {α : Type} {p : Proc α} {r : Except LibError α} (h : p.Exec t r)
    (hp : p.Only CursorOp) : Aside t ∧ Uncommitted t :=
  ⟨aside_of_cursorOp (Prog.exec_only h hp), uncommitted_of_only h hp commit_not_cursorOp⟩

theorem Uncommitted.append (hu : Uncommitted t) (hu' : Uncommitted t') : Uncommitted (t ++ t') :=
  fun res hmem => (List.mem_append.1 hmem).elim (hu res) (hu' res)

theorem Handles.ops {msg : Dict} {v : Verdict} (h : Handles py room seq msg v t) :
    ∀ e ∈ t, RowOp e.op := by
  cases h with
  | unevaluated he => exact Prog.exec_only he evaluate_only
  | present he hw =>
    exact List.forall_mem_append.2 ⟨Prog.exec_only he evaluate_only, Prog.exec_only hw writeRow_only⟩
  | inserted he hw ha =>
    refine List.forall_mem_append.2 ⟨Prog.exec_only he evaluate_only, ?_⟩
    refine List.forall_mem_append.2 ⟨Prog.exec_only hw writeRow_only, ?_⟩
    exact Prog.exec_only ha (.swallow (.call (.sendRiskAlert _)))
  | failed he hw hr =>
    refine List.forall_mem_append.2 ⟨Prog.exec_only he evaluate_only, ?_⟩
    exact List.forall_mem_append.2 ⟨Prog.exec_only hw writeRow_only, Prog.exec_only hr rollback_only⟩

theorem Batch.ops {msgs : List Json} {vs : List (Int × Verdict)} (h : Batch py room msgs vs t) :
    ∀ e ∈ t, RowOp e.op := by
  induction h with
  | nil => exact fun e he => absurd he List.not_mem_nil
  | passed hx h ih => exact ih
  | handled hseq hv h ih => exact List.forall_mem_append.2 ⟨hv.ops, ih⟩

theorem Batch.uncommitted {msgs : List Json} {vs : List (Int × Verdict)}
    (h : Batch py room msgs vs t) : Uncommitted t :=
  fun _ hmem => commit_not_rowOp (h.ops _ hmem)

/-- **The part before the commit**: only the batch inserts and rolls back. -/
theorem Polled.before_commit (p : Polled py room t)
    (hcommit : (⟨.commit, .ok ()⟩ : Performed Sys) ∈ t) : ∃ tb,
      (if p.cursor < newCursorOf py p.data p.cursor p.verdicts then
        setCursor room (newCursorOf py p.data p.cursor p.verdicts) else .ret ()).Exec tb (.ok ()) ∧
      t = (p.asked ++ (p.fetched ++ (p.handled ++ tb))) ++ [⟨.commit, .ok ()⟩] ∧
      Uncommitted (p.asked ++ (p.fetched ++ (p.handled ++ tb))) ∧
      (∀ seq, Inserts (p.asked ++ (p.fetched ++ (p.handled ++ tb))) room seq ↔
        (seq, .inserted) ∈ p.verdicts) ∧
      ∀ seq, InsertsForGood (p.asked ++ (p.fetched ++ (p.handled ++ tb))) room seq ↔
        InsertedForGood p.verdicts seq := by
  obtain ⟨hasked, huasked⟩ := aside_of_only p.of_cursor cursorOf_only
  obtain ⟨hfetched, hufetched⟩ := aside_of_only p.of_data readRoom_only
  have huhandled := p.of_batch.uncommitted
  obtain ⟨-, hinserts, hgood⟩ := p.of_batch.spec
  have hwritten : (⟨.commit, .ok ()⟩ : Performed Sys) ∈ p.written := by
    rw [p.trace] at hcommit
    simpa only [List.mem_append, huasked _, hufetched _, huhandled _, false_or] using hcommit
  obtain ⟨-, tb, htb, hbody⟩ := committing_exec body_only p.of_written hwritten
  obtain ⟨haside, hu⟩ := aside_of_only hbody body_only
  refine ⟨tb, hbody, p.trace.trans (by rw [htb]; simp), ?_, fun seq => ?_, fun seq => ?_⟩
  · exact huasked.append (hufetched.append (huhandled.append hu))
  · rw [hasked.inserts, hfetched.inserts, inserts_append, or_iff_left (haside.2 room seq), hinserts]
  · rw [hasked.insertsForGood, hfetched.insertsForGood, insertsForGood_append,
      or_iff_left fun h => haside.2 room seq h.inserts, and_iff_left haside.1, hgood]

theorem steps_exec {e : Performed Sys} (h : Steps World.exec w (e :: t) w') :
    ∃ ch, (w.exec ch e.op).2 = e.result ∧ Steps World.exec (w.exec ch e.op).1 t w' := by
  cases h with
  | cons ch o h => exact ⟨ch, rfl, h⟩

/-- The cursor that is written is past the `seq` it is set to. -/
theorem cursor_moved {seq : Int}
    (h : Steps World.exec w
      [(⟨.setCursor room seq, .ok ()⟩ : Performed Sys), ⟨.commit, .ok ()⟩] w') :
    ∃ c, w'.committed.cursors room = some c ∧ seq ≤ c := by
  obtain ⟨ch, hset, h⟩ := steps_exec h
  obtain ⟨ch', hcommit, h⟩ := steps_exec h
  cases h
  obtain ⟨hw, -⟩ := statement_ok hset
  obtain ⟨hw', -⟩ := statement_ok hcommit
  refine ⟨w.advanced room seq, ?_, ?_⟩
  · have hmoved : (w.exec ch (.setCursor room seq)).1 =
        { w with moved := (room, w.advanced room seq) :: w.moved } :=
      (congrArg Prod.fst (Except.ok.inj hw)).symm
    have hcommitted := congrArg (fun r : World × Unit => r.1.committed.cursors room)
      (Except.ok.inj hw')
    refine hcommitted.symm.trans ?_
    simp only [hmoved, World.current, List.lookup_cons_self, Option.some_or]
  · unfold World.advanced
    cases w.current.cursors room with
    | none => exact le_rfl
    | some c => exact le_max_left seq c

/-- **What one room's poll keeps**, if it commits: the cursor is past every message of the response,
and the messages whose rows were inserted have them in the table exactly if each of those rows was
inserted for good. -/
def KeepsRows (py : Python) (room : String) (t : List (Performed Sys)) (w' : World) : Prop :=
  ⟨.commit, .ok ()⟩ ∈ t → Nonempty (Polled py room t) ∧ ∀ p : Polled py room t,
    (∀ x ∈ p.verdicts, x.1 ≤ p.cursor ∨ ∃ c, w'.committed.cursors room = some c ∧ x.1 ≤ c) ∧
    ((∀ seq, (seq, .inserted) ∈ p.verdicts → w'.committed.Evaluated room seq) ↔
      ∀ seq, (seq, .inserted) ∈ p.verdicts → InsertedForGood p.verdicts seq)

/-- The cursor passes every message. -/
theorem Polled.behind (p : Polled py room t) (h : Steps World.exec w t w')
    (hcommit : (⟨.commit, .ok ()⟩ : Performed Sys) ∈ t) {x : Int × Verdict} (hx : x ∈ p.verdicts) :
    x.1 ≤ p.cursor ∨ ∃ c, w'.committed.cursors room = some c ∧ x.1 ≤ c := by
  obtain ⟨tb, hbody, ht, -⟩ := p.before_commit hcommit
  have hx : x.1 ≤ newCursorOf py p.data p.cursor p.verdicts :=
    (le_highest.2 x hx).trans (le_max_right _ _)
  by_cases hlt : p.cursor < newCursorOf py p.data p.cursor p.verdicts
  · right
    rw [if_pos hlt, setCursor] at hbody
    split at hbody
    · cases (Prog.exec_raise.1 hbody).2
    · obtain rfl := Prog.exec_call_ok.1 hbody
      have hsplit : t = (p.asked ++ (p.fetched ++ p.handled)) ++ [⟨.setCursor room
          (newCursorOf py p.data p.cursor p.verdicts), .ok ()⟩,
          ⟨.commit, .ok ()⟩] := ht.trans (by simp)
      rw [hsplit] at h
      obtain ⟨w₁, -, h₂⟩ := steps_append.1 h
      obtain ⟨c, hc, hle⟩ := cursor_moved h₂
      exact ⟨c, hc, hx.trans hle⟩
  · exact .inl (hx.trans (not_lt.1 hlt))

/-- **What one room's poll keeps.** -/
theorem pollRoom_keeps {res : Except LibError Nat}
    (h : (pollRoom py room).Runs World.exec w t res w') : KeepsRows py room t w' := by
  intro hcommit
  refine ⟨exists_polled h.trace hcommit, fun p => ⟨fun x hx => p.behind h.world hcommit hx, ?_⟩⟩
  obtain ⟨tb, -, ht, hu, hinserts, hgood⟩ := p.before_commit hcommit
  have hworld := h.world
  rw [ht] at hworld
  obtain ⟨w₁, h₁, h₂⟩ := steps_append.1 hworld
  obtain ⟨w₂, hstep, hnil⟩ := steps_cons h₂
  cases hnil
  obtain ⟨hc, ha⟩ : w'.committed.evaluations = w₁.current.evaluations ∧ w₁.aborted = false := by
    cases hstep with
    | committed hc ha => exact ⟨hc, ha⟩
    | same hc hp ha ho hi hn => exact absurd rfl hn
  have hfound : ∀ seq, w'.committed.Evaluated room seq ↔ w₁.current.Evaluated room seq := by
    intro seq
    simp only [Tables.Evaluated, hc]
  refine forall_congr' fun seq => imp_congr_right fun hi => ?_
  rw [hfound, kept_iff h₁ hu ha ((hinserts seq).2 hi), hgood]

/-! ## All rooms -/

/-- The rooms one after the other, each with its part of the trace; the last one may have raised. -/
inductive RoomRuns (P : String → World → List (Performed Sys) → World → Prop) :
    List String → World → List (Performed Sys) → World → Prop where
  | nil (w : World) : RoomRuns P [] w [] w
  | cons {room : String} {rooms : List String} {w w₁ w' : World} {t t' : List (Performed Sys)}
      (h : P room w t w₁) (hs : RoomRuns P rooms w₁ t' w') : RoomRuns P (room :: rooms) w (t ++ t') w'

/-- The poll of one room. -/
def PollsRoom (py : Python) (room : String) (w : World) (t : List (Performed Sys)) (w' : World) :
    Prop := ∃ res, (pollRoom py room).Runs World.exec w t res w'

theorem pollRooms_rooms {rooms : List String} {res : Except LibError Nat}
    (h : (pollRooms py rooms).Runs World.exec w t res w') :
    ∃ polled, polled <+: rooms ∧ (∀ n, res = .ok n → polled = rooms) ∧
      RoomRuns (PollsRoom py) polled w t w' := by
  induction rooms generalizing w t res with
  | nil =>
    obtain ⟨htrace, hworld⟩ := h
    obtain ⟨rfl, -⟩ := Prog.exec_ret.1 htrace
    cases hworld
    exact ⟨[], List.prefix_rfl, fun _ _ => rfl, .nil w'⟩
  | cons room rooms ih =>
    have hbind : ((pollRoom py room).bind fun n => (pollRooms py rooms).bind fun m =>
        .ret (n + m)).Runs World.exec w t res w' := h
    rcases Prog.runs_bind.1 hbind with ⟨n, t₁, t₂, w₁, rfl, hroom, hrest⟩ | ⟨x, rfl, hroom⟩
    · obtain ⟨res', hres, hrooms⟩ : ∃ res', (∀ k, res = .ok k → ∃ m, res' = .ok m) ∧
          (pollRooms py rooms).Runs World.exec w₁ t₂ res' w' := by
        rcases Prog.runs_bind.1 hrest with ⟨m, t₃, t₄, w₂, rfl, hrooms, hret⟩ | ⟨x, rfl, hrooms⟩
        · obtain ⟨htrace, hworld⟩ := hret
          obtain ⟨rfl, -⟩ := Prog.exec_ret.1 htrace
          cases hworld
          rw [List.append_nil]
          exact ⟨_, fun _ _ => ⟨m, rfl⟩, hrooms⟩
        · exact ⟨_, fun k hk => (by cases hk), hrooms⟩
      obtain ⟨polled, hprefix, hall, hruns⟩ := ih hrooms
      refine ⟨room :: polled, (List.prefix_cons_inj room).2 hprefix, fun k hk => ?_,
        .cons ⟨_, hroom⟩ hruns⟩
      obtain ⟨m, hm⟩ := hres k hk
      rw [hall m hm]
    · have hone : RoomRuns (PollsRoom py) [room] w (t ++ []) w' := .cons ⟨_, hroom⟩ (.nil w')
      rw [List.append_nil] at hone
      exact ⟨[room], (List.prefix_cons_inj room).2 List.nil_prefix, fun k hk => (by cases hk), hone⟩

theorem RoomRuns.mono {P Q : String → World → List (Performed Sys) → World → Prop}
    {rooms : List String} (hPQ : ∀ room w t w', P room w t w' → Q room w t w')
    (h : RoomRuns P rooms w t w') : RoomRuns Q rooms w t w' := by
  induction h with
  | nil w => exact .nil w
  | cons h hs ih => exact .cons (hPQ _ _ _ _ h) ih

/-- The rooms a poll goes through, the discovered ones after the configured ones. -/
def roomsOf (cfg : Settings) (found : List String) : List String :=
  cfg.rooms ++ found.insertionSort (· ≤ ·)

/-- **What `poll_once` keeps.**  After the discovery every room is polled in a part of the trace of
its own.  If that part commits, the cursor is past every message of the response, and the messages
whose rows were inserted have them exactly if no write that failed later has rolled one of them back
without its being inserted again. -/
theorem rows_kept_iff {cfg : Settings} {discovered : List String} {res : Except LibError Nat}
    (henabled : cfg.enabled = true)
    (h : (pollOnce py cfg discovered).Runs World.exec w t res w') :
    ∃ found t₀ w₀ t₁ polled, t = t₀ ++ t₁ ∧
      (discover py cfg discovered).Runs World.exec w t₀ found w₀ ∧
      polled <+: roomsOf cfg (found.toOption.getD []) ∧
      (∀ n, res = .ok n → polled = roomsOf cfg (found.toOption.getD [])) ∧
      RoomRuns (fun room w t w' => PollsRoom py room w t w' ∧ KeepsRows py room t w') polled w₀ t₁
        w' := by
  have hbind : ((discover py cfg discovered).bind fun found =>
      pollRooms py (roomsOf cfg found)).Runs World.exec w t res w' := by
    simp only [pollOnce, henabled, Bool.not_true, Bool.false_eq_true, ite_false] at h
    exact h
  rcases Prog.runs_bind.1 hbind with ⟨found, t₀, t₁, w₀, rfl, hfound, hrooms⟩ | ⟨x, rfl, hfound⟩
  · obtain ⟨polled, hprefix, hall, hruns⟩ := pollRooms_rooms hrooms
    refine ⟨.ok found, t₀, w₀, t₁, polled, rfl, hfound, hprefix, hall, hruns.mono ?_⟩
    rintro room w t w' ⟨res, hroom⟩
    exact ⟨⟨res, hroom⟩, pollRoom_keeps hroom⟩
  · refine ⟨.error x, t, w', [], [], (List.append_nil t).symm, hfound, List.nil_prefix, ?_, .nil w'⟩
    intro n hn
    cases hn

/-! ## A batch -/

/-- Python on the values of one batch. -/
def batchPython : Python where
  str
    | .text (.str s) => s
    | _ => ""
  intOfStr _ := none
  strip s := s

/-- Two messages of a room. -/
def batch : Dict :=
  [("messages", .list [.obj [("seq", .int 1), ("text", .str "first")],
    .obj [("seq", .int 2), ("text", .str "second")]]), ("last_seq", .int 2)]

/-- A poll of one room with that batch, from a new session on empty tables.  `/r/events` is out of
reach; then come the cursor, the response and the cursor again; each message is evaluated, looked
up, inserted and reported; then the cursor and the commit.  `second` is what the outside decides on
the second insertion and on what follows it. -/
def polledBatch (second : List Choice) :
    Option (List (Performed Sys) × Except LibError Nat × World) :=
  let quiet : Choice := {}
  (pollOnce batchPython ⟨true, ["lobby"]⟩ []).drive World.exec {}
    ([quiet, { fault := some ⟨"ConnectError", ""⟩ }, quiet, { data := batch }, quiet,
      { result := some [] }, quiet, quiet, quiet, { result := some [] }, quiet] ++
      second ++ [quiet, quiet])

/-- The `seq` of the row an operation has inserted for the room. -/
def insertedSeq (e : Performed Sys) : Option Int :=
  match e with
  | ⟨.insertEvaluation row, .ok _⟩ => if row.room = "lobby" then some row.seq else none
  | _ => none

/-- What the room was fetched with. -/
def fetchedData (e : Performed Sys) : Option Dict :=
  match e with
  | ⟨.fetchRoom room _, .ok data⟩ => if room = "lobby" then some data else none
  | _ => none

def isCommit (e : Performed Sys) : Bool :=
  match e with
  | ⟨.commit, .ok _⟩ => true
  | _ => false

theorem inserts_of_insertedSeq (h : seq ∈ t.filterMap insertedSeq) : Inserts t "lobby" seq := by
  obtain ⟨⟨o, res⟩, hmem, hseq⟩ := List.mem_filterMap.1 h
  unfold insertedSeq at hseq
  split at hseq
  · next row u heq =>
    cases heq
    split at hseq
    · next hroom =>
      cases hseq
      exact ⟨row, hmem, hroom, rfl⟩
    · cases hseq
  · cases hseq

theorem fetchRoom_of_fetchedData {data : Dict} (h : data ∈ t.filterMap fetchedData) :
    ∃ since, (⟨.fetchRoom "lobby" since, .ok data⟩ : Performed Sys) ∈ t := by
  obtain ⟨⟨o, res⟩, hmem, hdata⟩ := List.mem_filterMap.1 h
  unfold fetchedData at hdata
  split at hdata
  · next room since data' heq =>
    cases heq
    split at hdata
    · next hroom =>
      cases hdata
      subst hroom
      exact ⟨since, hmem⟩
    · cases hdata
  · cases hdata

theorem commit_of_isCommit (h : t.any isCommit = true) :
    (⟨.commit, .ok ()⟩ : Performed Sys) ∈ t := by
  obtain ⟨⟨o, res⟩, hmem, hcommit⟩ := List.any_eq_true.1 h
  unfold isCommit at hcommit
  split at hcommit
  · next u heq =>
    cases heq
    exact hmem
  · cases hcommit

/-- What is to be seen of a polled batch: what was fetched and inserted, whether it was committed,
the rows and the cursor. -/
def seen (x : List (Performed Sys) × Except LibError Nat × World) :
    List Dict × List Int × Bool × List Int × Option Int :=
  (x.1.filterMap fetchedData, x.1.filterMap insertedSeq, x.1.any isCommit,
    x.2.2.committed.evaluations.map (·.seq), x.2.2.committed.cursors "lobby")

/-- Both rows of the batch are kept. -/
theorem rows_kept_iff_batch : ∃ t res w',
    (pollOnce batchPython ⟨true, ["lobby"]⟩ []).Runs World.exec {} t res w' ∧
      w'.committed.evaluations.map (·.seq) = [1, 2] ∧
      ∃ polled w₀ t₁,
        RoomRuns (fun room w t w' => PollsRoom batchPython room w t w' ∧
          KeepsRows batchPython room t w') polled w₀ t₁ w' := by
  have hsee : (polledBatch [{}, {}]).map seen =
      some ([batch], [1, 2], true, [1, 2], some 2) := by
    rfl
  obtain ⟨⟨t, res, w'⟩, hdrive, hseen⟩ := Option.map_eq_some_iff.1 hsee
  have hruns := Prog.runs_of_drive hdrive
  obtain ⟨found, t₀, w₀, t₁, polled, -, -, -, -, hrooms⟩ := rows_kept_iff rfl hruns
  exact ⟨t, res, w', hruns, congrArg (·.2.2.2.1) hseen, polled, w₀, t₁, hrooms⟩

/-- **A row is lost.**  The second insertion fails and rolls the first one back; the cursor moves
past both messages. -/
theorem row_lost : ∃ t res w',
    (pollOnce batchPython ⟨true, ["lobby"]⟩ []).Runs World.exec {} t res w' ∧
      (∃ since, (⟨.fetchRoom "lobby" since, .ok batch⟩ : Performed Sys) ∈ t) ∧
      Inserts t "lobby" 1 ∧ ⟨.commit, .ok ()⟩ ∈ t ∧ w'.committed.cursors "lobby" = some 2 ∧
      ¬w'.committed.Evaluated "lobby" 1 := by
  have hsee : (polledBatch [{ fault := some ⟨"DataError", "value too long"⟩ }, {}]).map seen =
      some ([batch], [1], true, [], some 2) := by
    rfl
  obtain ⟨⟨t, res, w'⟩, hdrive, hseen⟩ := Option.map_eq_some_iff.1 hsee
  have hfetched : t.filterMap fetchedData = [batch] := congrArg (·.1) hseen
  have hinserted : t.filterMap insertedSeq = [1] := congrArg (·.2.1) hseen
  have hrows : w'.committed.evaluations.map (·.seq) = [] := congrArg (·.2.2.2.1) hseen
  refine ⟨t, res, w', Prog.runs_of_drive hdrive, ?_, ?_, ?_, congrArg (·.2.2.2.2) hseen, ?_⟩
  · exact fetchRoom_of_fetchedData (by rw [hfetched]; exact List.mem_singleton_self batch)
  · exact inserts_of_insertedSeq (by rw [hinserted]; exact List.mem_singleton_self 1)
  · exact commit_of_isCommit (congrArg (·.2.2.1) hseen)
  · rintro ⟨row, hmem, -⟩
    rw [List.map_eq_nil_iff.1 hrows] at hmem
    cases hmem

end Observatory.AgentScorer
