import Observatory.Model.Bot
import Observatory.Verify.Duplicates
import Observatory.Verify.Settings

/-!
# The bot lets in whom it should

What an update may do depends on its sender.  Until the sender has been found on one of the two
allow lists, its handler performs no operation of the system and reads nothing but these lists
(`gate`); afterwards it carries out one request of the system, the one the update asks for.  So the
system behind the bot goes through a run of its own (`bot_mediates`), and what is known of the
reachable states of the system holds behind the bot as well.
-/

namespace Observatory.Bot

open Effect Effect.Prog Effect.Front Effect.Machine

variable {cfg : Settings} {env : Env} {u : Update} {q : Req}

/-! ## What is granted -/

/-- The request an update asks for, on behalf of a user. -/
def asks (env : Env) (u : Update) (user : Option Nat) : Option Req :=
  match u.content with
  | .command "ask" args => some (.cmdAsk (" ".intercalate args))
  | .command "task" args => some (.cmdTask (" ".intercalate args))
  | .command "pause" args => some (.cmdPause (env.text (firstArg args)))
  | .command "resume" args => some (.cmdResume (env.text (firstArg args)))
  | .command "stop" args => some (.cmdStop (env.text (firstArg args)))
  | .command "approve" args => some (.cmdApprove (env.text (firstArg args)) user)
  | .command "reject" args => some (.cmdReject (env.text (firstArg args)) user)
  | .callbackQuery data =>
    match splitOnce data with
    | some ("approve", aid) => some (.cmdApprove (env.text aid) user)
    | some ("reject", aid) => some (.cmdReject (env.text aid) user)
    | _ => none
  | _ => none

/-- The user id is on the list of the settings. -/
def Listed (env : Env) (uid : Int) : Prop :=
  ∃ allowed, env.settings.allowedUserIds env.uni = .ok allowed ∧ uid ∈ allowed

/-- On whose behalf a decision is made. -/
def decidesFor : Req → Option (Option Nat)
  | .cmdApprove _ user | .cmdReject _ user => some user
  | _ => none

inductive Stage where
  | direct (q : Req)
  /-- an update is handled; its sender has been cleared, and has been found to be this user -/
  | update (u : Update) (cleared : Prop) (found : Option (Option Nat))

def stageOf (env : Env) : Request → Stage
  | .direct q => .direct q
  | .update u => .update u (∃ uid, u.effectiveUser = some uid ∧ Listed env uid) none

/-- Only the sender is looked up, and nothing is selected for a sender who has not been cleared. -/
def gate : Protocol Chat Stage where
  allows
    | .update u _ _, .inr (.allowedRow uid) => u.effectiveUser = some uid
    | .update u cleared _, .inr (.identity uid) => u.effectiveUser = some uid ∧ cleared
    | .update _ cleared _, .inr (.select _) => cleared
    | .direct _, .inr (.select _) => False
    | _, _ => True
  next
    | .update u _ found, .inr (.allowedRow _), .ok true => .update u True found
    | .update u cleared _, .inr (.identity _), .ok user => .update u cleared (some user)
    | .update u cleared _, .inr (.identity _), .error _ => .update u cleared (some none)
    | g, _, _ => g

/-- A decision waits for the user to be looked up. -/
def grants (env : Env) : Stage → Req → Prop
  | .direct q', q => q = q'
  | .update u cleared found, q => cleared ∧ (∃ user, asks env u user = some q) ∧
      ∀ user, decidesFor q = some user → found = some user

section waits

variable {found : Option (Option Nat)} {cleared : Prop} {body : Proc Unit} {g : Stage}

theorem allows_inl (g : Stage) (o : Observatory.Op) : gate.allows g (.inl o) := by
  cases g <;> trivial

theorem allows_tell (g : Stage) (text : String) : gate.allows g (.inr (.tell text)) := by
  cases g <;> trivial

theorem tell_aside (text : String) : (tell text).Only (Aside gate) :=
  .call fun g => allows_tell g text

theorem waits_tell (text : String) : Waits (system cfg) gate (grants env) g (tell text) :=
  waits_of_aside (tell_aside text)

/-! ### Who is let in -/

theorem allowedWithDb_wp {uid : Int} {Q : Except PyExc Bool → Stage → Prop}
    (hu : u.effectiveUser = some uid)
    (hno : ∀ r, r ≠ .ok true → Q r (stageOf env (.update u)))
    (hyes : ∀ cleared, cleared → Q (.ok true) (.update u cleared none)) :
    wp (own gate) (allowedWithDb env uid) Q (stageOf env (.update u)) := by
  refine wp_bind.2 ?_
  rw [wp_ofExcept]
  cases hlist : env.settings.allowedUserIds env.uni with
  | error x => exact hno _ (fun h => by cases h)
  | ok allowed =>
    simp only [bindPost_ok]
    split_ifs with hmem
    · exact hyes _ ⟨uid, hu, allowed, hlist, hmem⟩
    · refine wp_bind.2 (wp_attempt.2 (wp_call.2 ⟨hu, fun found => ?_, fun x => ?_⟩))
      · cases found with
        | true => exact hyes True trivial
        | false => exact hno _ (fun h => by cases h)
      · exact hno _ (fun h => by cases h)

theorem refuse_wp {text : String} {Q : Except PyExc Unit → Stage → Prop} (hQ : Q (.ok ()) g) :
    wp (own gate) (tell text).swallow Q g := by
  refine wp_swallow.2 (wp_call.2 ⟨allows_tell g text, fun _ => ?_, fun _ => ?_⟩)
  · cases g <;> exact hQ
  · cases g <;> exact hQ

/-- **A guarded handler** waits for its sender to be cleared. -/
theorem waits_guarded (hbody : ∀ uid cleared, u.effectiveUser = some uid → cleared →
      Waits (system cfg) gate (grants env) (.update u cleared none) body) :
    Waits (system cfg) gate (grants env) (stageOf env (.update u)) (guarded env u body) := by
  have hno : ∀ r, r ≠ .ok true → waitsPost (system cfg) gate (grants env)
      (fun ok => if ok = true then body else pure ()) r (stageOf env (.update u)) := by
    intro r hr
    cases r with
    | error x => trivial
    | ok b =>
      cases b with
      | true => exact absurd rfl hr
      | false => trivial
  have hfalse := hno (.ok false) (fun h => by cases h)
  refine waits_bind ?_
  unfold require
  split
  · exact hfalse
  · next uid hu =>
    split_ifs with hzero
    · exact hfalse
    · refine wp_bind.2 (allowedWithDb_wp hu (fun r hr => ?_) fun cleared hcleared => ?_)
      · cases r with
        | error x => trivial
        | ok b =>
          cases b with
          | true => exact absurd rfl hr
          | false => exact wp_bind.2 (refuse_wp hfalse)
      · exact hbody uid cleared hu hcleared

/-! ### What the handlers ask for -/

theorem waits_request (hq : grants env g q) :
    Waits (system cfg) gate (grants env) g (q.program cfg).lift :=
  waits_lift (M := system cfg) allows_inl hq

theorem waits_report {query : Query} (hcleared : cleared) :
    Waits (system cfg) gate (grants env) (.update u cleared found) (report query) := by
  refine waits_bind (wp_call.2 ⟨hcleared, fun message => ?_, fun x => trivial⟩)
  exact waits_tell message

/-- A reply is all that the system has left to do. -/
theorem quiet_reply {text : String} : Quiet (system cfg) (Telegram.replyText text) :=
  ⟨.ok (), fun _ _ => ⟨{}, rfl⟩, trivial⟩

theorem resolveUser_wp {uid : Int} {Q : Except PyExc (Option Nat) → Stage → Prop}
    (hu : u.effectiveUser = some uid) (hcleared : cleared)
    (hQ : ∀ user, Q (.ok user) (.update u cleared (some user))) :
    wp (own gate) (resolveUser uid) Q (.update u cleared none) := by
  refine wp_bind.2 (wp_attempt.2 (wp_call.2 ⟨⟨hu, hcleared⟩, fun user => ?_, fun x => ?_⟩))
  · exact hQ user
  · exact hQ none

/-- **A decision** is asked for once the user behind the sender has been looked up. -/
theorem waits_decide {aid : Text} {decision : String} {uid : Int}
    {f : Bool × String → Proc Unit} {R : Option Nat → Req}
    (hu : u.effectiveUser = some uid) (hcleared : cleared)
    (hprogram : ∀ user, (R user).program cfg = Telegram.decideApproval aid decision user)
    (hrequest : ∀ user, asks env u user = some (R user))
    (hfor : ∀ user user', decidesFor (R user) = some user' → some user = some user')
    (hf : ∀ result, (f result).Only (Aside gate)) :
    Waits (system cfg) gate (grants env) (.update u cleared none)
      ((decideApproval aid decision uid).bind f) := by
  unfold decideApproval
  cases haid : aid.toUuid? with
  | none => exact waits_of_aside (hf _)
  | some r =>
    simp only [bind_eq, bind_bind]
    refine waits_bind (resolveUser_wp hu hcleared fun user => ?_)
    have hgranted : grants env (.update u cleared (some user)) (R user) :=
      ⟨hcleared, ⟨user, hrequest user⟩, fun user' huser => hfor user user' huser⟩
    refine ⟨R user, hgranted, trivial, ?_⟩
    have hsame : (system cfg).program (R user) = Telegram.decideApproval aid decision user :=
      hprogram user
    rw [hsame, Telegram.decideApproval, haid]
    refine ⟨_, rfl, fun res => ?_⟩
    -- both have their answer, and nothing is left but to show it
    cases res with
    | ok decided => exact acts_of_aside (hf _) quiet_reply rfl
    | error x =>
      have hreply : ∀ text, Acts (system cfg) gate (.update u cleared (some user))
          (f (outcome decision (.error (.lib x)))) (Telegram.replyText text) :=
        fun text => acts_of_aside (hf _) quiet_reply rfl
      simp only [attempt, ret_bind]
      split
      · exact hreply _
      · split
        · exact hreply _
        · exact hreply _

/-! ### The handlers -/

theorem waits_withArg {args : List String} {usage : String} {f : Text → Proc Unit}
    (hf : Waits (system cfg) gate (grants env) g (f (env.text (firstArg args)))) :
    Waits (system cfg) gate (grants env) g (withArg env args usage f) := by
  unfold withArg
  split_ifs
  · exact waits_tell usage
  · exact hf

theorem showDecision_aside {action aid : String} {result : Bool × String} :
    (showDecision action aid result).Only (Aside gate) := by
  refine .bind (.swallow (tell_aside _)) fun _ => .bind (.attempt (tell_aside _)) fun shown => ?_
  cases shown with
  | ok _ => exact .ret
  | error x => exact .swallow (tell_aside _)

theorem waits_cmdDecide {decision : String} {args : List String} {R : Option Nat → Req}
    {uid : Int} (hu : u.effectiveUser = some uid) (hcleared : cleared)
    (hprogram : ∀ user, (R user).program cfg =
      Telegram.decideApproval (env.text (firstArg args)) decision user)
    (hrequest : ∀ user, asks env u user = some (R user))
    (hfor : ∀ user user', decidesFor (R user) = some user' → some user = some user') :
    Waits (system cfg) gate (grants env) (.update u cleared none)
      (cmdDecide env decision u args) := by
  refine waits_withArg ?_
  rw [hu]
  exact waits_decide hu hcleared hprogram hrequest hfor fun result => tell_aside _

theorem waits_callback {data : String} (hcontent : u.content = .callbackQuery data) :
    Waits (system cfg) gate (grants env) (stageOf env (.update u)) (onCallback env u data) := by
  have hrefused : ∀ g, Waits (system cfg) gate (grants env) g (tell "⛔ Yetkin yok").swallow :=
    fun g => (waits_tell _).swallow
  unfold onCallback
  split
  · exact hrefused _
  next uid hu =>
  split_ifs with hzero
  · exact hrefused _
  refine waits_bind (allowedWithDb_wp hu (fun r hr => ?_) fun cleared hcleared => ?_)
  · cases r with
    | error x => trivial
    | ok b =>
      cases b with
      | true => exact absurd rfl hr
      | false => exact hrefused _
  · unfold waitsPost decideCallback
    simp only [if_true]
    split
    · exact waits_tell _
    next action aid hsplit =>
    split_ifs with haction
    · exact waits_tell _
    have hshow : ∀ result, (showDecision action aid result).Only (Aside gate) :=
      fun result => showDecision_aside
    rcases Decidable.not_and_iff_not_or_not.1 haction with happrove | hreject
    · obtain rfl := not_not.1 happrove
      exact waits_decide hu hcleared (R := fun user => .cmdApprove (env.text aid) user)
        (fun user => rfl) (fun user => by simp only [asks, hcontent, hsplit])
        (fun user user' h => h) hshow
    · obtain rfl := not_not.1 hreject
      exact waits_decide hu hcleared (R := fun user => .cmdReject (env.text aid) user)
        (fun user => rfl) (fun user => by simp only [asks, hcontent, hsplit])
        (fun user user' h => h) hshow

theorem waits_dispatch :
    Waits (system cfg) gate (grants env) (stageOf env (.update u)) (dispatch env u) := by
  have hreport : ∀ query, Waits (system cfg) gate (grants env) (stageOf env (.update u))
      (guarded env u (report query)) :=
    fun query => waits_guarded fun uid cleared hu hcleared => waits_report hcleared
  have hrequest : ∀ q, asks env u none = some q → decidesFor q = none → ∀ cleared, cleared →
      Waits (system cfg) gate (grants env) (.update u cleared none) (q.program cfg).lift := by
    intro q hq hno cleared hcleared
    refine waits_request ⟨hcleared, ⟨none, hq⟩, fun user huser => ?_⟩
    rw [hno] at huser
    cases huser
  unfold dispatch
  split
  case h_1 | h_2 => exact waits_tell _
  case h_3 | h_7 | h_8 | h_14 => exact hreport _
  case h_4 args hcontent =>
    exact waits_guarded fun uid cleared hu hcleared =>
      hrequest (.cmdAsk _) (by simp only [asks, hcontent]) rfl cleared hcleared
  case h_5 args hcontent =>
    exact waits_guarded fun uid cleared hu hcleared =>
      hrequest (.cmdTask _) (by simp only [asks, hcontent]) rfl cleared hcleared
  case h_6 args hcontent =>
    refine waits_guarded fun uid cleared hu hcleared => waits_withArg ?_
    split
    · exact waits_tell _
    · exact waits_report hcleared
  case h_9 args hcontent =>
    exact waits_guarded fun uid cleared hu hcleared => waits_cmdDecide (R := .cmdApprove _) hu
      hcleared (fun user => rfl) (fun user => by simp only [asks, hcontent]) fun user user' h => h
  case h_10 args hcontent =>
    exact waits_guarded fun uid cleared hu hcleared => waits_cmdDecide (R := .cmdReject _) hu
      hcleared (fun user => rfl) (fun user => by simp only [asks, hcontent]) fun user user' h => h
  case h_11 args hcontent =>
    exact waits_guarded fun uid cleared hu hcleared => waits_withArg
      (hrequest (.cmdPause _) (by simp only [asks, hcontent]) rfl cleared hcleared)
  case h_12 args hcontent =>
    exact waits_guarded fun uid cleared hu hcleared => waits_withArg
      (hrequest (.cmdResume _) (by simp only [asks, hcontent]) rfl cleared hcleared)
  case h_13 args hcontent =>
    exact waits_guarded fun uid cleared hu hcleared => waits_withArg
      (hrequest (.cmdStop _) (by simp only [asks, hcontent]) rfl cleared hcleared)
  case h_15 | h_17 => trivial
  case h_16 data hcontent =>
    split_ifs
    · exact waits_callback hcontent
    · trivial

/-- **Every request waits to be granted.** -/
theorem waits_program (q : Request) :
    Waits (system cfg) gate (grants env) (stageOf env q) ((front env cfg).program q) := by
  cases q with
  | direct q => exact waits_request rfl
  | update u => exact waits_dispatch.swallow

end waits

/-! ## What has been granted -/

/-- The user id has a row that is allowed. -/
def Allowed (rows : List TelegramIdentity) (uid : Int) : Prop :=
  ∃ x ∈ rows, x.telegramUserId = uid ∧ x.isAllowed = true

section history

variable {h : List (front env cfg).machine.Event} {e : (front env cfg).machine.Event} {p : Pid}
  {w : World × List TelegramIdentity}

/-- The sender is on the list of the settings, or was allowed by the table when the process that
handles the update looked. -/
def Permitted (h : List (front env cfg).machine.Event) (p : Pid) (u : Update) : Prop :=
  ∃ uid, u.effectiveUser = some uid ∧
    (Listed env uid ∨ ∃ e ∈ course h p, Allowed e.before.2 uid)

/-- The process has looked up the sender: this is the user of the row that the table had then, or
the select failed and it is none. -/
def ActsFor (h : List (front env cfg).machine.Event) (p : Pid) (u : Update)
    (user : Option Nat) : Prop :=
  ∃ uid, u.effectiveUser = some uid ∧ ∃ e ∈ course h p, ∃ stays,
    (e.act = .did p (.inr (.identity uid)) (.ok user) stays ∧ user = userOf e.before.2 uid) ∨
      ∃ x, e.act = .did p (.inr (.identity uid)) (.error x) stays ∧ user = none

/-- What the stage of a process says of its past. -/
def Meant (h : List (front env cfg).machine.Event) (p : Pid) : Stage → Prop
  | .direct q => request h p = some (.direct q)
  | .update u cleared found => request h p = some (.update u) ∧ (cleared → Permitted h p u) ∧
      ∀ user, found = some user → ActsFor h p u user

theorem Permitted.grows (hp : Permitted h p u) (hcourse : course h p ⊆ course (e :: h) p) :
    Permitted (e :: h) p u := by
  obtain ⟨uid, hu, hlisted | ⟨e', he', hallowed⟩⟩ := hp
  · exact ⟨uid, hu, .inl hlisted⟩
  · exact ⟨uid, hu, .inr ⟨e', hcourse he', hallowed⟩⟩

theorem ActsFor.grows {user : Option Nat} (ha : ActsFor h p u user)
    (hcourse : course h p ⊆ course (e :: h) p) : ActsFor (e :: h) p u user := by
  obtain ⟨uid, hu, e', he', hlooked⟩ := ha
  exact ⟨uid, hu, e', hcourse he', hlooked⟩

theorem Meant.grows {g : Stage} (hm : Meant h p g) (hrequest : request (e :: h) p = request h p)
    (hcourse : course h p ⊆ course (e :: h) p) : Meant (e :: h) p g := by
  cases g with
  | direct q => exact hrequest.trans hm
  | update u cleared found =>
    obtain ⟨hu, hpermitted, hfor⟩ := hm
    exact ⟨hrequest.trans hu, fun hcleared => (hpermitted hcleared).grows hcourse,
      fun user huser => (hfor user huser).grows hcourse⟩

theorem respond_ok {rows : List TelegramIdentity} {ch : Choice} {o : Op} {a : o.Ans}
    (h : respond rows ch o = .ok a) : a = answer rows ch.text o := by
  unfold respond at h
  split at h
  · cases h
  · exact (Except.ok.inj h).symm

/-- What an operation of the bot is answered with. -/
theorem answered {o : Op} {a : o.Ans} {stays : Bool} (hl : Legal gate (stageOf env) h w e)
    (act : e.act = .did p (.inr o) (.ok a) stays) : ∃ text, a = answer e.before.2 text o := by
  cases hl with
  | @did p' o' g ch stays' running allowed =>
    injection act with hp ho hr hstays
    subst ho
    exact ⟨ch.2.text, respond_ok (eq_of_heq hr)⟩
  | _ => cases act

theorem allowed_of_answer {rows : List TelegramIdentity} {text : String} {uid : Int}
    (h : answer rows text (.allowedRow uid) = true) : Allowed rows uid := by
  obtain ⟨x, hx, hrow⟩ := List.any_eq_true.1 h
  obtain ⟨huid, hallowed⟩ := (Bool.and_eq_true ..).mp hrow
  exact ⟨x, hx, of_decide_eq_true huid, hallowed⟩

/-- What is looked up tells about the sender. -/
theorem Meant.did {g : Stage} {o : Observatory.Op ⊕ Op} {r : Chat.Result o} {stays : Bool}
    (hm : Meant (e :: h) p g) (hcourse : e ∈ course (e :: h) p)
    (hl : Legal gate (stageOf env) h w e) (act : e.act = .did p o r stays)
    (allowed : gate.allows g o) : Meant (e :: h) p (gate.next g o r) := by
  cases g with
  | direct q => exact hm
  | update u cleared found =>
    obtain ⟨hu, hpermitted, hfor⟩ := id hm
    cases o with
    | inl o => exact hm
    | inr o =>
      cases o with
      | allowedRow uid =>
        cases r with
        | error x => exact hm
        | ok found =>
          cases found with
          | false => exact hm
          | true =>
            obtain ⟨text, htext⟩ := answered hl act
            exact ⟨hu, fun _ => ⟨uid, allowed, .inr ⟨e, hcourse, allowed_of_answer htext.symm⟩⟩,
              hfor⟩
      | identity uid =>
        cases r with
        | error x =>
          refine ⟨hu, hpermitted, fun user huser => ?_⟩
          cases huser
          exact ⟨uid, allowed.1, e, hcourse, stays, .inr ⟨x, act, rfl⟩⟩
        | ok user' =>
          refine ⟨hu, hpermitted, fun user huser => ?_⟩
          cases huser
          obtain ⟨text, htext⟩ := answered hl act
          exact ⟨uid, allowed.1, e, hcourse, stays, .inl ⟨act, htext⟩⟩
      | select query => exact hm
      | tell text => exact hm

/-- **What a stage says of the past** stays true. -/
theorem meant_step (hm : ∀ p g, phase gate (stageOf env) h p = some g → Meant h p g)
    (hl : Legal gate (stageOf env) h w e) {g : Stage}
    (hg : phase gate (stageOf env) (e :: h) p = some g) : Meant (e :: h) p g := by
  have hgrows : ∀ g, phase gate (stageOf env) h p = some g → Meant (e :: h) p g :=
    fun g running => (hm p g running).grows (request_other (hl.not_started running))
      (hl.course_grows running)
  cases hl.moved hg with
  | kept running other => exact hgrows g running
  | started q act phase =>
    subst phase
    have hrequest : request (e :: h) p = some q := request_started act
    cases q with
    | direct q => exact hrequest
    | update u =>
      refine ⟨hrequest, ?_, fun user huser => by cases huser⟩
      rintro ⟨uid, hu, hlisted⟩
      exact ⟨uid, hu, .inl hlisted⟩
  | did act running allowed phase =>
    subst phase
    have hcourse : e ∈ course (e :: h) p := by
      rw [course_did act]
      exact List.mem_cons_self
    exact (hgrows _ running).did hcourse hl act allowed

end history

/-! ## The bot in front of the system -/

/-- In every run whatever is selected is selected for a permitted sender. -/
def Selects (h : List (front env cfg).machine.Event) (e : (front env cfg).machine.Event) : Prop :=
  ∀ p query r stays, e.act = .did p (.inr (.select query)) r stays →
    ∃ u, request h p = some (.update u) ∧ Permitted h p u

/-- The process handles this request, or an update that asks for it and comes from who may; a
decision is made for the user that the sender was found to be. -/
def Asked (h : List (front env cfg).machine.Event) (p : Pid) (q : Req) : Prop :=
  request h p = some (.direct q) ∨ ∃ u, request h p = some (.update u) ∧ Permitted h p u ∧
    (∃ user, asks env u user = some q) ∧ ∀ user, decidesFor q = some user → ActsFor h p u user

section system

variable {c : (front env cfg).machine.Config}

theorem conforms_program (q : Request) :
    ((front env cfg).machine.program q).wp gate (fun _ _ => True) (stageOf env q) :=
  (waits_program q).wp

theorem meant_run
    (hc : Reaches (front env cfg).machine (fun w => World.Initial w.1) anyEvent c) :
    ∀ before, before <:+ c.hist → ∀ p g, phase gate (stageOf env) before p = some g →
      Meant before p g := by
  refine hc.induct conforms_program (P := fun h _ => ∀ before, before <:+ h → ∀ p g,
    phase gate (stageOf env) before p = some g → Meant before p g) ?_ ?_
  · intro w hw before hbefore p g hg
    obtain rfl := List.suffix_nil.1 hbefore
    cases hg
  · intro h w e hm hl _ before hbefore p g hg
    rcases List.suffix_cons_iff.1 hbefore with rfl | hbefore
    · exact meant_step (hm h (List.suffix_refl h)) hl hg
    · exact hm before hbefore p g hg

theorem selects_run
    (hc : Reaches (front env cfg).machine (fun w => World.Initial w.1) anyEvent c) :
    Historically Selects c.hist := by
  refine hc.historically conforms_program (P := fun h _ => ∀ p g,
    phase gate (stageOf env) h p = some g → Meant h p g) ?_ ?_
  · intro w hw p g hg
    cases hg
  · intro h w e hm hl _
    refine ⟨fun p g hg => meant_step hm hl hg, ?_⟩
    rintro p query r stays act
    cases hl with
    | @did p' o g ch stays' running allowed =>
      injection act with hp ho hr hstays
      subst hp ho
      have hmeant := hm p' g running
      cases g with
      | direct q => exact allowed.elim
      | update u cleared found => exact ⟨u, hmeant.1, hmeant.2.1 allowed⟩
    | _ => cases act

/-- An idle process of the system has no heartbeat task. -/
theorem leavesNothing_system : LeavesNothing (system cfg) World.Initial := by
  intro c p hc hidle
  have hu : Undertaken c.hist c.world :=
    Reachable.induct (fun w hw => .initial hw) (fun h w e _ hu hl _ => hu.step hl) hc
  have hphase : phaseOf cfg c.hist p = none := (hc.conforms (program_conforms cfg)).idle hidle
  have hnone : c.world.beats p = none := by
    cases hb : c.world.beats p with
    | none => rfl
    | some b =>
      obtain ⟨⟨g, hg⟩, -⟩ := hu.beating hb
      rw [hphase] at hg
      cases hg
  have hbeats : Function.update c.world.beats p none = c.world.beats := by
    rw [← hnone, Function.update_eq_self]
  exact congrArg (fun beats => { c.world with beats }) hbeats

/-- **The bot mediates.**  However updates and other requests interleave, and whatever becomes of
the table of identities meanwhile, the system behind the bot is in a state it can reach by itself,
through requests that were made directly or by an update of a permitted sender, on behalf of whose
user decisions are made; and nothing is selected for anyone else. -/
theorem bot_mediates
    (hc : Reaches (front env cfg).machine (fun w => World.Initial w.1) anyEvent c) :
    (∃ c', Reachable cfg anyEvent c' ∧ c'.world = c.world.1 ∧
      ∀ e ∈ c'.hist, ∀ p q stays, e.act = .started p q stays →
        ∃ before, before <:+ c.hist ∧ Asked before p q) ∧
      Historically Selects c.hist := by
  refine ⟨?_, selects_run hc⟩
  obtain ⟨c', hc', hs⟩ := reaches_follow waits_program leavesNothing_system hc
  refine ⟨c', hc', hs.world, fun e he p q stays act => ?_⟩
  obtain ⟨before, hbefore, g, hg, hgrants⟩ := hs.granted e he p q stays act
  have hmeant := meant_run hc before hbefore p g hg
  refine ⟨before, hbefore, ?_⟩
  cases g with
  | direct q' =>
    cases hgrants
    exact .inl hmeant
  | update u cleared found =>
    obtain ⟨hu, hpermitted, hfor⟩ := hmeant
    obtain ⟨hcleared, hasked, hfound⟩ := hgrants
    exact .inr ⟨u, hu, hpermitted hcleared, hasked,
      fun user huser => hfor user (hfound user huser)⟩

end system

/-! ### A stranger and a friend -/

/-- The list of the settings is empty; `"5"` stands for an identifier. -/
def tableOnly : Env :=
  ⟨{}, Config.asciiUnicode, fun s => if s = "5" then .uuid 5 else .str s⟩

/-- Both ask for something, and the friend decides about the approval 5; only the friend has a
row. -/
def strangerAndFriend : List (front tableOnly {}).machine.Move :=
  [.start 0 (.update ⟨some 9, .command "ask" ["spam"]⟩),
    .start 1 (.update ⟨some 7, .command "ask" ["merhaba"]⟩),
    .start 2 (.update ⟨some 7, .command "approve" ["5"]⟩)] ++
  List.replicate 2 (.perform 0 ({}, {})) ++ List.replicate 4 (.perform 1 ({}, {})) ++
  List.replicate 4 (.perform 2 ({}, {}))

/-- For whom a decision is made. -/
def decider (e : (front tableOnly {}).machine.Event) : Option (Option Nat) :=
  match e.act with
  | .did _ (.inl (.db (.decide _ _ user))) _ _ => some user
  | _ => none

theorem bot_mediates_friend : ∃ c : (front tableOnly {}).machine.Config,
    (c.procs 0).isNone ∧ (c.procs 1).isNone ∧ c.world.1.db.tasks.map (·.prompt) = ["merhaba"] ∧
    c.hist.filterMap decider = [some 3] ∧
    (∃ c', Reachable {} anyEvent c' ∧ c'.world = c.world.1 ∧
      ∀ e ∈ c'.hist, ∀ p q stays, e.act = .started p q stays →
        ∃ before, before <:+ c.hist ∧ Asked before p q) ∧
    Historically Selects c.hist := by
  have hrun : ((Config.initial (World.empty 0, [⟨7, some 3, true⟩])).run (M := (front tableOnly
      {}).machine) anyEvent strangerAndFriend).map (fun c => ((c.procs 0).isNone,
        (c.procs 1).isNone, c.world.1.db.tasks.map (·.prompt), c.hist.filterMap decider)) =
      some (true, true, ["merhaba"], [some 3]) := by
    decide +kernel
  obtain ⟨c, hc, hsee⟩ := Option.map_eq_some_iff.1 hrun
  simp only [Prod.mk.injEq] at hsee
  obtain ⟨hstranger, hfriend, htasks, hdecider⟩ := hsee
  obtain ⟨hbehind, hselects⟩ := bot_mediates ((Reaches.init (World.empty_initial 0 [])).run hc)
  exact ⟨c, hstranger, hfriend, htasks, hdecider, hbehind, hselects⟩

end Observatory.Bot
