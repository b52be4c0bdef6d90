import Observatory.Model.EntryFields
import Observatory.Verify.Duplicates

/-!
# Entries that name no run

Such an entry gets nowhere near a tool.  Where the worker looks for what is wrong with it, it is
acknowledged (`handleEntry_discards`); everything else raises before the ACK (`handleEntry_raises`),
so that the entry stays pending and is delivered again.
-/

namespace Observatory

open Effect

namespace WorkerLoop

/-- The worker looks for this: no `data`, no JSON, or an object without a `run_id`. -/
def Discarded (body : Body) : Prop :=
  body = .missing ∨ body = .notJson ∨
    ∃ kvs, body = .json (.obj kvs) ∧ ((Dict.get kvs "run_id").getD .null).truthy = false

/-- In the trace the entry is acknowledged and no tool is called. -/
structure DealtWith (e : EntryId) (t : List (Performed Sys)) : Prop where
  acked : .redis (.ack e) ∈ t.map (·.op)
  noTool : ∀ r caller tool args, .ext (.callTool r caller tool args) ∉ t.map (·.op)

variable {cfg : Settings} {e : EntryId} {body : Body} {t : List (Performed Sys)}
  {res : Except PyExc Unit}

theorem handleEntry_discards (h : Discarded body) : handleEntry cfg e body = ackEntry e := by
  rcases h with rfl | rfl | ⟨kvs, rfl, hfalsy⟩
  · rfl
  · rfl
  · simp only [handleEntry, getRunId, Prog.ofExcept, Prog.bind_eq, Prog.ret_bind, hfalsy,
      Bool.false_eq_true, ite_false]

/-- **What is not looked for raises** before anything is done. -/
theorem handleEntry_raises (hnone : body.runId? = none) (h : ¬Discarded body) :
    ∃ x, handleEntry cfg e body = .raise x := by
  cases body with
  | missing => exact absurd (.inl rfl) h
  | notJson => exact absurd (.inr (.inl rfl)) h
  | undecodable => exact ⟨_, rfl⟩
  | json payload =>
    cases hid : getRunId payload with
    | error x => exact ⟨x, by simp [handleEntry, hid, Prog.ofExcept]⟩
    | ok runId =>
      have htruthy : runId.truthy = true := by
        cases payload with
        | obj kvs =>
          cases hid
          by_contra hfalsy
          exact h (.inr (.inr ⟨kvs, rfl, by simpa using hfalsy⟩))
        | _ => cases hid
      rw [runId?_of_truthy hid htruthy] at hnone
      cases hp : parseUuid runId with
      | ok r =>
        rw [hp] at hnone
        cases hnone
      | error x => exact ⟨x, by simp [handleEntry, processRun, hid, htruthy, hp, Prog.ofExcept]⟩

theorem dealtWith_of_ack (h : Prog.Exec (ackEntry e) t res) : DealtWith e t := by
  have htrace := ackEntry_trace h
  refine ⟨?_, ?_⟩
  · rw [htrace]
    exact List.mem_singleton_self _
  · intro r caller tool args hmem
    rw [htrace] at hmem
    cases List.mem_singleton.1 hmem

/-- **No poison entry**, exactly: an entry that names no run is acknowledged whatever happens, and no
tool is called, just if the worker looks for what is wrong with it. -/
theorem poison_dealtWith_iff (cfg : Settings) (e : EntryId) (loads : String → Option Json)
    (fields : EntryFields) (hnone : (fields.body loads).runId? = none) :
    (∀ t res, Prog.Exec (handleEntry cfg e (fields.body loads)) t res → DealtWith e t) ↔
      Discarded (fields.body loads) := by
  constructor
  · intro h
    by_contra hnot
    obtain ⟨x, hx⟩ := @handleEntry_raises cfg e _ hnone hnot
    have hacked := (h [] (.error x) (by rw [hx]; exact .raise x)).acked
    cases hacked
  · intro h t res hexec
    rw [handleEntry_discards h] at hexec
    exact dealtWith_of_ack hexec

/-! ## A list in an entry -/

/-- `json.loads` on an empty list. -/
def loadsList (s : String) : Option Json := if s = "[]" then some (.list []) else none

theorem poison_dealtWith_iff_text : (∀ t res, Prog.Exec (handleEntry {} 0
      (EntryFields.body loadsList [(.text "data", .text "x")])) t res → DealtWith 0 t) ∧
    Discarded (EntryFields.body loadsList [(.text "data", .text "x")]) := by
  have hdiscarded : Discarded (EntryFields.body loadsList [(.text "data", .text "x")]) :=
    .inr (.inl rfl)
  exact ⟨(poison_dealtWith_iff {} 0 loadsList [(.text "data", .text "x")] rfl).2 hdiscarded,
    hdiscarded⟩

/-- The entry is not acknowledged. -/
theorem list_not_dealtWith : ¬∀ (cfg : Settings) (e : EntryId) (loads : String → Option Json)
    (fields : EntryFields), (fields.body loads).runId? = none →
    ∀ t res, Prog.Exec (handleEntry cfg e (fields.body loads)) t res → DealtWith e t := by
  intro h
  have hexec : Prog.Exec (handleEntry {} 0 (EntryFields.body loadsList
      [(.text "data", .text "[]")])) [] (.error (.mk "AttributeError" "object has no attribute 'get'")) :=
    .raise _
  cases (h {} 0 loadsList [(.text "data", .text "[]")] rfl [] _ hexec).acked

end WorkerLoop

end Observatory
