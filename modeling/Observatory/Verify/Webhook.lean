import Observatory.Model.Webhook

/-!
# What the webhook answers

`handle_raw_update` swallows whatever parsing and dispatch raise, so the endpoint cannot tell an
update that was handled from one that was not: its own handler only sees a bot that could not be
built.
-/

namespace Observatory

open Effect Effect.Prog

namespace Webhook

/-! ## Parsing and dispatch -/

/-- A parse or a dispatch that raises. -/
def raises : Performed Hook → Bool
  | ⟨.deJson _, .error _⟩ | ⟨.processUpdate _, .error _⟩ => true
  | _ => false

/-- Parsing or dispatch has raised. -/
def Raised (t : List (Performed Hook)) : Prop := ∃ e ∈ t, raises e = true

/-- The update was parsed and dispatched. -/
def Completed (t : List (Performed Hook)) : Prop :=
  ∃ body upd, (⟨.deJson body, .ok upd⟩ : Performed Hook) ∈ t ∧
    (⟨.processUpdate upd, .ok ()⟩ : Performed Hook) ∈ t

section traces

variable {t t' : List (Performed Hook)} {env : Env} {d : Delivery} {body : Dict}

theorem raised_append : Raised (t ++ t') ↔ Raised t ∨ Raised t' := by
  simp only [Raised, List.mem_append, or_and_right, exists_or]

theorem Completed.append (h : Completed t) : Completed (t ++ t') := by
  obtain ⟨body, upd, hparse, hdispatch⟩ := h
  exact ⟨body, upd, List.mem_append_left _ hparse, List.mem_append_left _ hdispatch⟩

theorem Completed.append_right (h : Completed t') : Completed (t ++ t') := by
  obtain ⟨body, upd, hparse, hdispatch⟩ := h
  exact ⟨body, upd, List.mem_append_right _ hparse, List.mem_append_right _ hdispatch⟩

/-- Parsing and dispatch: one raises, or the update is dealt with. -/
theorem exec_dispatch {s : Except PyExc Unit} (h : Exec ((perform (.deJson body)).bind fun upd =>
    perform (.processUpdate upd)) t s) : Raised t ∨ Completed t ∧ ¬Raised t := by
  rcases exec_bind.1 h with ⟨upd, t₁, t₂, rfl, h₁, h₂⟩ | ⟨x, rfl, h₁⟩
  · obtain ⟨res, rfl, hres⟩ := exec_call_lift.1 h₁
    rcases res with x | upd'
    · cases hres
    cases hres
    obtain ⟨res, rfl, -⟩ := exec_call_lift.1 h₂
    rcases res with x | u
    · exact .inl ⟨⟨.processUpdate upd, .error x⟩, by simp, rfl⟩
    · exact .inr ⟨⟨body, upd, by simp, by simp⟩, by simp [Raised, raises]⟩
  · obtain ⟨res, rfl, hres⟩ := exec_call_lift.1 h₁
    rcases res with y | upd
    · exact .inl ⟨⟨.deJson body, .error y⟩, by simp, rfl⟩
    · cases hres

/-- **The handler** returns whatever parsing and dispatch did; it only raises before them. -/
theorem exec_handleRawUpdate {r : Except PyExc Unit} (h : Exec (handleRawUpdate body) t r) :
    (r = .ok () ∧ (Raised t ∨ Completed t ∧ ¬Raised t)) ∨ (∃ x, r = .error x) ∧ ¬Raised t := by
  have hdispatch : ∀ {t₁ t₂}, ¬Raised t₁ → Exec (((perform (.deJson body)).bind fun upd =>
      perform (.processUpdate upd)).swallow) t₂ r →
      r = .ok () ∧ (Raised (t₁ ++ t₂) ∨ Completed (t₁ ++ t₂) ∧ ¬Raised (t₁ ++ t₂)) := by
    intro t₁ t₂ hquiet h₂
    obtain ⟨rfl, s, hs⟩ := exec_swallow.1 h₂
    refine ⟨rfl, ?_⟩
    rcases exec_dispatch hs with hraised | ⟨hcompleted, hnot⟩
    · exact .inl (raised_append.2 (.inr hraised))
    · exact .inr ⟨hcompleted.append_right, fun hr => (raised_append.1 hr).elim hquiet hnot⟩
  unfold handleRawUpdate at h
  simp only [bind_eq] at h
  rcases exec_bind.1 h with ⟨app, t₁, t₂, rfl, h₁, h₂⟩ | ⟨x, rfl, h₁⟩
  swap
  · obtain ⟨res, rfl, -⟩ := exec_call_lift.1 h₁
    exact .inr ⟨⟨x, rfl⟩, by simp [Raised, raises]⟩
  obtain ⟨res, rfl, -⟩ := exec_call_lift.1 h₁
  have hquiet : ¬Raised [(⟨.hasApp, res⟩ : Performed Hook)] := by simp [Raised, raises]
  cases app with
  | true => exact .inl (hdispatch hquiet h₂)
  | false =>
    rcases exec_bind.1 h₂ with ⟨u, t₃, t₄, rfl, h₃, h₄⟩ | ⟨x, rfl, h₃⟩
    · obtain ⟨res', rfl, -⟩ := exec_call_lift.1 h₃
      rw [← List.append_assoc]
      refine .inl (hdispatch ?_ h₄)
      simp [Raised, raises]
    · obtain ⟨res', rfl, -⟩ := exec_call_lift.1 h₃
      exact .inr ⟨⟨x, rfl⟩, by simp [Raised, raises]⟩

theorem exec_finish {id : Option Int} {status : UpdateStatus} {r : Except PyExc Unit}
    (h : Exec (finish id status) t r) : r = .ok () ∧ ¬Raised t := by
  cases id with
  | none =>
    obtain ⟨rfl, rfl⟩ := exec_ret.1 h
    exact ⟨rfl, by simp [Raised]⟩
  | some id =>
    obtain ⟨rfl, s, hs⟩ := exec_swallow.1 h
    obtain ⟨res, rfl, -⟩ := exec_call_lift.1 hs
    exact ⟨rfl, by simp [Raised, raises]⟩

/-- An update that was handed to the bot is answered as handled, unless the bot could not be
built. -/
theorem exec_handle {id : Option Int} {u : Json} {r : Except PyExc Answer}
    (h : Exec (handle id u body) t r) :
    (r = .ok (.handled u) ∧ (Raised t ∨ Completed t ∧ ¬Raised t)) ∨
      r = .ok .processingFailed ∧ ¬Raised t := by
  unfold handle at h
  simp only [bind_eq, pure_eq] at h
  obtain ⟨s, t₁, t₂, rfl, h₁, h₂⟩ := exec_attempt_bind.1 h
  have hfinish : ∀ {status a}, Exec ((finish id status).bind fun _ => .ret a) t₂ r →
      r = .ok a ∧ ¬Raised t₂ := by
    intro status a h₂
    rcases exec_bind.1 h₂ with ⟨u, t₃, t₄, rfl, h₃, h₄⟩ | ⟨x, -, h₃⟩
    · obtain ⟨rfl, rfl⟩ := exec_ret.1 h₄
      exact ⟨rfl, by rw [List.append_nil]; exact (exec_finish h₃).2⟩
    · cases (exec_finish h₃).1
  rcases exec_handleRawUpdate h₁ with ⟨rfl, hcases⟩ | ⟨⟨x, rfl⟩, hnot⟩
  · obtain ⟨rfl, hquiet⟩ := hfinish h₂
    refine .inl ⟨rfl, ?_⟩
    rcases hcases with hraised | ⟨hcompleted, hnot⟩
    · exact .inl (raised_append.2 (.inl hraised))
    · exact .inr ⟨hcompleted.append, fun hr => (raised_append.1 hr).elim hnot hquiet⟩
  · obtain ⟨rfl, hquiet⟩ := hfinish h₂
    exact .inr ⟨rfl, fun hr => (raised_append.1 hr).elim hnot hquiet⟩

theorem exec_openInbox {id : Int} {hash : String} {r : Except PyExc Bool}
    (h : Exec (openInbox id hash) t r) : ¬Raised t := by
  unfold openInbox at h
  simp only [bind_eq, pure_eq] at h
  obtain ⟨s, t₁, t₂, rfl, h₁, h₂⟩ := exec_attempt_bind.1 h
  obtain rfl : t₂ = [] := by
    rcases s with x | dedup
    · exact (exec_ret.1 h₂).1
    · exact (exec_ret.1 h₂).1
  rw [List.append_nil]
  rcases exec_bind.1 h₁ with ⟨row, t₃, t₄, rfl, h₃, h₄⟩ | ⟨x, -, h₃⟩
  swap
  · obtain ⟨res, rfl, -⟩ := exec_call_lift.1 h₃
    simp [Raised, raises]
  obtain ⟨res, rfl, -⟩ := exec_call_lift.1 h₃
  cases row with
  | some existing =>
    obtain ⟨rfl, -⟩ := exec_ret.1 h₄
    simp [Raised, raises]
  | none =>
    rcases exec_bind.1 h₄ with ⟨u, t₅, t₆, rfl, h₅, h₆⟩ | ⟨x, -, h₅⟩
    · obtain ⟨res', rfl, -⟩ := exec_call_lift.1 h₅
      obtain ⟨rfl, -⟩ := exec_ret.1 h₆
      simp [Raised, raises]
    · obtain ⟨res', rfl, -⟩ := exec_call_lift.1 h₅
      simp [Raised, raises]

theorem accept_error {a : Answer} (h : accept env d = .error a) :
    ∃ code detail, a = .refused code detail := by
  unfold accept at h
  simp only at h
  repeat' split at h
  all_goals
    cases h
    try exact ⟨_, _, rfl⟩

/-- **The endpoint** answers 200 to an update whose handling raised. -/
theorem exec_telegramWebhook {r : Except PyExc Answer} (h : Exec (telegramWebhook env d) t r) :
    (Raised t → ∃ u, r = .ok (.handled u)) ∧
      ((∃ u, r = .ok (.handled u)) → Raised t ∨ Completed t) := by
  have hquiet : ∀ {r : Except PyExc Answer} {t}, ¬Raised t → (∀ u, r ≠ .ok (.handled u)) →
      (Raised t → ∃ u, r = .ok (.handled u)) ∧
        ((∃ u, r = .ok (.handled u)) → Raised t ∨ Completed t) := fun hnot hne =>
    ⟨fun hr => (hnot hr).elim, fun ⟨u, hu⟩ => (hne u hu).elim⟩
  have hhandle : ∀ {id u body t₁ t₂}, ¬Raised t₁ → Exec (handle id u body) t₂ r →
      (Raised (t₁ ++ t₂) → ∃ u, r = .ok (.handled u)) ∧
        ((∃ u, r = .ok (.handled u)) → Raised (t₁ ++ t₂) ∨ Completed (t₁ ++ t₂)) := by
    intro id u body t₁ t₂ hbefore h₂
    rcases exec_handle h₂ with ⟨rfl, hcases⟩ | ⟨rfl, hnot⟩
    · refine ⟨fun _ => ⟨u, rfl⟩, fun _ => ?_⟩
      rcases hcases with hraised | ⟨hcompleted, -⟩
      · exact .inl (raised_append.2 (.inr hraised))
      · exact .inr hcompleted.append_right
    · exact hquiet (fun hr => (raised_append.1 hr).elim hbefore hnot) (by simp)
  have hempty : ¬Raised [] := by simp [Raised]
  unfold telegramWebhook at h
  split at h
  · next answer haccept =>
    obtain ⟨rfl, rfl⟩ := exec_ret.1 h
    obtain ⟨code, detail, rfl⟩ := accept_error haccept
    exact hquiet hempty (by simp)
  · next body haccept =>
    simp only at h
    split at h
    · exact hhandle hempty h
    · simp only [bind_eq, pure_eq] at h
      rcases exec_bind.1 h with ⟨dedup, t₁, t₂, rfl, h₁, h₂⟩ | ⟨x, rfl, h₁⟩
      · cases dedup with
        | true =>
          obtain ⟨rfl, rfl⟩ := exec_ret.1 h₂
          refine hquiet ?_ (by simp)
          rw [List.append_nil]
          exact exec_openInbox h₁
        | false => exact hhandle (exec_openInbox h₁) h₂
      · exact hquiet (exec_openInbox h₁) (by simp)
  · obtain ⟨rfl, rfl⟩ := exec_raise.1 h
    exact hquiet hempty (by simp)

end traces

/-! ## The status and the answer -/

/-- The inbox row a delivery is about. -/
def Delivery.recId? (d : Delivery) : Option Int :=
  match d.body with
  | some (.obj body) => recId ((Dict.get body "update_id").getD .null)
  | _ => none

/-- A call that hands an update to the bot leaves its row PROCESSED and answers 200 only if parsing
and dispatch completed; if one of them raised, the row is FAILED with one attempt more, and the
answer is 500. -/
structure Honest (d : Delivery) (w : World) (t : List (Performed Hook)) (r : Except PyExc Answer)
    (w' : World) : Prop where
  processed : ∀ id row, d.recId? = some id → w'.inbox id = some row → row.status = .processed →
    (∃ u, r = .ok (.handled u)) → Completed t
  failed : Raised t → r = .ok .processingFailed ∧ ∀ id, d.recId? = some id →
    ∃ row, w'.inbox id = some row ∧ row.status = .failed ∧
      row.attemptCount = ((w.inbox id).elim 0 (·.attemptCount)) + 1

/-- **PROCESSED means processed** just if neither parsing nor dispatch raises. -/
theorem honest_iff {env : Env} {d : Delivery} {w w' : World} {t : List (Performed Hook)}
    {r : Except PyExc Answer} (h : (telegramWebhook env d).Runs World.exec w t r w') :
    Honest d w t r w' ↔ ¬Raised t := by
  obtain ⟨hraised, hhandled⟩ := exec_telegramWebhook h.trace
  constructor
  · intro hh hr
    obtain ⟨u, hu⟩ := hraised hr
    cases hu.symm.trans (hh.failed hr).1
  · intro hnot
    refine ⟨fun id row _ _ _ hu => ?_, fun hr => (hnot hr).elim⟩
    exact (hhandled hu).resolve_left hnot

/-- A secret that is its own digest, and a delivery of update 7. -/
def sampleEnv : Env := ⟨"secret", fun s => s, fun _ => "hash"⟩

def sample : Delivery := ⟨"secret", "secret", some (.obj [("update_id", .int 7)])⟩

/-- The sample delivered to an empty inbox, the outside deciding as listed. -/
def sampleRun (chs : List Choice) : Option (List (Performed Hook) × Except PyExc Answer × World) :=
  (telegramWebhook sampleEnv sample).drive World.exec ⟨fun _ => none, 0⟩ chs

def isHandled : Except PyExc Answer → Bool
  | .ok (.handled _) => true
  | _ => false

/-- Nothing raises. -/
theorem honest_iff_sample : ∃ t r w', (telegramWebhook sampleEnv sample).Runs World.exec
    ⟨fun _ => none, 0⟩ t r w' ∧ isHandled r = true ∧ Honest sample ⟨fun _ => none, 0⟩ t r w' := by
  have hsee : (sampleRun (List.replicate 6 ({} : Choice))).map (fun x => (x.1.any raises, isHandled x.2.1)) =
      some (false, true) := by rfl
  obtain ⟨⟨t, r, w'⟩, hrun, heq⟩ := Option.map_eq_some_iff.1 hsee
  obtain ⟨hraises, hanswer⟩ := Prod.mk.inj heq
  have hruns := runs_of_drive hrun
  refine ⟨t, r, w', hruns, hanswer, (honest_iff hruns).2 ?_⟩
  rintro ⟨e, he, hr⟩
  exact List.any_eq_false.1 hraises e he hr

/-- Dispatch raises, and the update is answered as handled all the same. -/
theorem dispatch_failure_answered : ¬∀ (env : Env) (d : Delivery) (w w' : World)
    (t : List (Performed Hook)) (r : Except PyExc Answer),
    (telegramWebhook env d).Runs World.exec w t r w' → Honest d w t r w' := by
  intro hclaim
  have hsee : (sampleRun (List.replicate 4 ({} : Choice) ++
      [{ fault := some ⟨"TimedOut", ""⟩ }, ({} : Choice)])).map
      (fun x => (x.1.any raises, isHandled x.2.1)) = some (true, true) := by rfl
  obtain ⟨⟨t, r, w'⟩, hrun, heq⟩ := Option.map_eq_some_iff.1 hsee
  obtain ⟨hraises, hanswer⟩ := Prod.mk.inj heq
  have hh := hclaim _ _ _ _ _ _ (runs_of_drive hrun)
  rw [(hh.failed (List.any_eq_true.1 hraises)).1] at hanswer
  cases hanswer

end Webhook

end Observatory
