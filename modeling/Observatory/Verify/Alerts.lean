import Observatory.Model.Alerts
import Observatory.Verify.Settings

/-!
# An alert is told to those who may know

`send_risk_alert` writes to nobody but those on the two allow lists, to nobody twice in the same way,
and by the bot only if the Bot API has told nobody (`Discreet`).  It never raises, with a token
everyone is written to whom the two lists gave, and it is true just if someone has been told
(`alert_discreet`).
-/

namespace Observatory.Alerts

open Effect Effect.Prog
open AgentScorer (AgentEvaluation)
open Canonical (ofString)

/-! ## The discipline -/

/-- What an alert has done so far. -/
structure Told where
  /-- what the selects gave, the last one first -/
  rows : List (Finset Int) := []
  /-- who has been written to by the Bot API -/
  posted : List Int := []
  /-- who has been written to by the bot -/
  sent : List Int := []
  /-- the Bot API has told someone -/
  direct : Bool := false
  /-- the bot has told someone -/
  bot : Bool := false

/-- Who may be told. -/
def Told.targets (env : Env) (g : Told) : Finset Int := listed env ∪ g.rows.headD ∅

def confirms : Except LibError PostResult → Bool
  | .ok r => r.statusCode = 200 && r.ok
  | .error _ => false

def Discreet (env : Env) (msg : String) : Protocol Net Told where
  allows g
    | .post uid text => text = msg ∧ uid ∈ g.targets env ∧ uid ∉ g.posted ∧ g.sent = []
    | .sendMessage uid text => text = msg ∧ uid ∈ g.targets env ∧ uid ∉ g.sent ∧ g.direct = false
    | _ => True
  next g
    | .allowedRows, .ok rows => { g with rows := rows.toFinset :: g.rows }
    | .allowedRows, .error _ => { g with rows := ∅ :: g.rows }
    | .post uid _, r => { g with posted := g.posted ++ [uid], direct := g.direct || confirms r }
    | .sendMessage uid _, r => { g with sent := g.sent ++ [uid], bot := g.bot || r.isOk }
    | _, _ => g

section alert

variable {env : Env} {msg : String} {g : Told}

theorem recipients_wp {Q : Except LibError (Finset Int) → Told → Prop}
    (hQ : ∀ R, Q (.ok (listed env ∪ R)) { g with rows := R :: g.rows }) :
    (recipients env).wp (Discreet env msg) Q g := by
  refine wp_bind.2 (wp_attempt.2 (wp_call.2 ⟨trivial, fun rows => hQ _, fun x => ?_⟩))
  have hnone := hQ ∅
  rwa [Finset.union_empty] at hnone

/-- A set is gone through without coming back. -/
theorem SetOrder.fresh {order : SetOrder} {s : Finset Int} {done : List Int} {uid : Int}
    (h : done ++ [uid] <+: order.list s) : uid ∈ s ∧ uid ∉ done := by
  refine ⟨order.mem.1 (h.subset (by simp)), fun hold => ?_⟩
  have hnodup := (order.nodup s).sublist h.sublist
  exact List.disjoint_of_nodup_append hnodup hold (List.mem_singleton_self uid)

/-- The loop over the Bot API, after the select. -/
theorem posts_wp {R : Finset Int} {Q : Except LibError Bool → Told → Prop}
    (hQ : ∀ ok, Q (.ok ok) ⟨[R], env.order.list (listed env ∪ R), [], ok, false⟩) :
    ((env.order.list (listed env ∪ R)).foldlM (postTo msg) false).wp (Discreet env msg) Q
      ⟨[R], [], [], false, false⟩ := by
  refine wp_foldlM (I := fun done ok g => g = ⟨[R], done, [], ok, false⟩) ?_ ?_ rfl
  · rintro done uid ok g hprefix rfl
    obtain ⟨hmem, hfresh⟩ := SetOrder.fresh hprefix
    refine wp_bind.2 (wp_attempt.2 (wp_call.2 ⟨⟨rfl, hmem, hfresh, rfl⟩, fun r => rfl, fun x => ?_⟩))
    exact congrArg (Told.mk [R] (done ++ [uid]) [] · false) (Bool.or_false ok)
  · rintro ok g rfl
    exact hQ ok

/-- The loop of the bot. -/
theorem sends_wp {R : Finset Int} {rows : List (Finset Int)} {posted : List Int}
    {Q : Except LibError Bool → Told → Prop}
    (hQ : ∀ ok sent, Q (.ok ok) ⟨R :: rows, posted, sent, false, ok⟩) :
    ((env.order.list (listed env ∪ R)).foldlM (sendTo msg) false).wp (Discreet env msg) Q
      ⟨R :: rows, posted, [], false, false⟩ := by
  refine wp_foldlM (I := fun done ok g => g = ⟨R :: rows, posted, done, false, ok⟩) ?_ ?_ rfl
  · rintro done uid ok g hprefix rfl
    obtain ⟨hmem, hfresh⟩ := SetOrder.fresh hprefix
    refine wp_bind.2 (wp_attempt.2 (wp_call.2 ⟨⟨rfl, hmem, hfresh, rfl⟩, fun _ => ?_, fun x => ?_⟩))
    · exact congrArg (Told.mk (R :: rows) posted (done ++ [uid]) false) (Bool.or_true ok)
    · exact congrArg (Told.mk (R :: rows) posted (done ++ [uid]) false) (Bool.or_false ok)
  · rintro ok g rfl
    exact hQ ok _

/-! ## The alert -/

/-- Everyone on the lists has been written to, if there is a token; of a select that failed, the
list is empty. -/
def Complete (env : Env) (g : Told) : Prop :=
  env.settings.telegramBotToken ≠ [] →
    ∃ R ∈ g.rows, ∀ uid, uid ∈ g.posted ↔ uid ∈ listed env ∪ R

/-- What an alert ends with. -/
def Settled (env : Env) (r : Except LibError Bool) (g : Told) : Prop :=
  r = .ok (g.direct || g.bot) ∧ Complete env g

theorem direct_wp {Q : Except LibError Bool → Told → Prop}
    (hQ : ∀ ok rows posted, Complete env ⟨rows, posted, [], ok, false⟩ →
      Q (.ok ok) ⟨rows, posted, [], ok, false⟩) :
    (direct env msg).wp (Discreet env msg) Q {} := by
  unfold direct
  split_ifs with htoken
  · exact hQ false [] [] fun h => absurd htoken h
  · refine wp_bind.2 (recipients_wp fun R => posts_wp fun ok => hQ ok _ _ fun _ => ?_)
    exact ⟨R, List.mem_singleton_self R, fun uid => env.order.mem⟩

theorem sendToAllowed_wp {svc : Service} {rows : List (Finset Int)} {posted : List Int}
    (hcomplete : Complete env ⟨rows, posted, [], false, false⟩) :
    (sendToAllowed env svc msg).wp (Discreet env msg) (Settled env)
      ⟨rows, posted, [], false, false⟩ := by
  have hnone : Settled env (.ok false) ⟨rows, posted, [], false, false⟩ := ⟨rfl, hcomplete⟩
  have hsends : wp (Discreet env msg) ((recipients env).bind fun uids =>
      (env.order.list uids).foldlM (sendTo msg) false) (Settled env)
      ⟨rows, posted, [], false, false⟩ := by
    refine wp_bind.2 (recipients_wp fun R => sends_wp fun ok sent => ⟨rfl, fun htoken => ?_⟩)
    obtain ⟨R', hR', hposted⟩ := hcomplete htoken
    exact ⟨R', List.mem_cons_of_mem R hR', hposted⟩
  unfold sendToAllowed ready
  split_ifs with hempty happ
  · exact hnone
  · exact hsends
  · refine wp_bind.2 (wp_bind.2 (wp_attempt.2 (wp_call.2 ⟨trivial, fun _ => hsends, fun x => hnone⟩)))

theorem sendRiskAlert_wp {ev : AgentEvaluation} :
    (sendRiskAlert env ev).wp (Discreet env (formatMsg env ev))
      (fun r g => env.upper ev.tier ∈ alertTiers ∧ Settled env r g ∨
        env.upper ev.tier ∉ alertTiers ∧ r = .ok false ∧ g = {}) {} := by
  unfold sendRiskAlert
  by_cases hin : env.upper ev.tier ∈ alertTiers
  swap
  · rw [if_pos hin]
    exact .inr ⟨hin, rfl, rfl⟩
  · rw [if_neg (not_not.2 hin)]
    refine wp_bind.2 (direct_wp fun ok rows posted hcomplete => ?_)
    cases ok with
    | true => exact .inl ⟨hin, rfl, hcomplete⟩
    | false =>
      refine wp_bind.2 (wp_attempt.2 (wp_call.2 ⟨trivial, fun svc => ?_, fun x => ?_⟩))
      · refine wp_bind.2 (wp_attempt.2 (wp_mono ?_ (sendToAllowed_wp hcomplete)))
        rintro r g ⟨rfl, hdone⟩
        exact .inl ⟨hin, rfl, hdone⟩
      · exact .inl ⟨hin, rfl, hcomplete⟩

/-- **An alert.**  Of a tier that is not risky nothing is told and nothing selected.  Otherwise only
those on the two lists are written to, each at most once in each way and by the bot only if the Bot
API has told nobody; with a token everyone on the list of the settings is, and everyone whom the
select gave; and the result, which there always is, is true just if someone has been told. -/
theorem alert_discreet {ev : AgentEvaluation} {t : List (Performed Net)} {r : Except LibError Bool}
    (h : Exec (sendRiskAlert env ev) t r) :
    (env.upper ev.tier ∉ alertTiers → t = [] ∧ r = .ok false) ∧
      (Discreet env (formatMsg env ev)).Admits {} t ∧
      (env.upper ev.tier ∈ alertTiers →
        Settled env r ((Discreet env (formatMsg env ev)).after {} t)) := by
  obtain ⟨hadmits, hsettled⟩ := h.sound sendRiskAlert_wp
  refine ⟨fun htier => ?_, hadmits, fun htier => ?_⟩
  · unfold sendRiskAlert at h
    rw [if_pos htier] at h
    exact exec_ret.1 h
  · rcases hsettled with ⟨-, hsettled⟩ | ⟨hnot, -⟩
    · exact hsettled
    · exact absurd htier hnot

end alert

/-! ### One of two cannot be told -/

def ascending : SetOrder where
  list := Config.sorted
  nodup s := s.sort_nodup _
  mem := Finset.mem_sort _

/-- The list of the settings has the user 7. -/
def sevenListed : Env where
  settings := { telegramBotToken := ofString "token", telegramAllowedUserIds := ofString "7" }
  uni := Config.asciiUnicode
  upper := String.toUpper
  strip text := text
  order := ascending

def riskyRow : AgentEvaluation :=
  ⟨"lobby", 3, 5, "ada", none, "", [], 31, "RISKY", "asks for keys", .null, ""⟩

/-- The table has the user 8, who has blocked the bot. -/
def oneBlocked : (o : Op) → Net.Result o
  | .allowedRows => .ok [8]
  | .post uid _ => .ok (if uid = 8 then ⟨403, false⟩ else ⟨200, true⟩)
  | .getService => .error ⟨"ImportError", ""⟩
  | .build => .ok ()
  | .sendMessage .. => .ok ()

theorem alert_discreet_blocked :
    let p := (sendRiskAlert sevenListed riskyRow).play oneBlocked
    (Discreet sevenListed (formatMsg sevenListed riskyRow)).Admits {} p.1 ∧
      Settled sevenListed p.2
        ((Discreet sevenListed (formatMsg sevenListed riskyRow)).after {} p.1) := by
  obtain ⟨-, hadmits, hsettled⟩ := alert_discreet
    (exec_play oneBlocked (sendRiskAlert sevenListed riskyRow))
  exact ⟨hadmits, hsettled (by decide +kernel)⟩

end Observatory.Alerts
