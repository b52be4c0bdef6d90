import Observatory.Model.Technocore

/-!
# Nonces across processes

The tool draws its nonces from the generator of its process, which knows nothing of the other
processes nor of what was drawn before a restart.  A nonce exceeds another just if the generator has
passed that one or the clock has (`lt_next_iff`), so the posts for a room are in the order of their
nonces exactly if this held, at every draw, of all nonces posted before the post
(`nonces_increase_iff`).  Two processes whose clocks agree post the same nonce (`nonce_repeated`);
`next_nonce_db`, which would keep them apart, is given no session to work with.
-/

namespace Observatory.Technocore

open Effect Effect.Machine

/-! ## The generator -/

/-- **What the next nonce exceeds**: what the generator has passed, and what the clock has. -/
theorem lt_next_iff {g : MonotonicNonce} {nowMs m : Int} :
    m < (g.next nowMs).2 ↔ m ≤ g.last ∨ m < nowMs ∧ nowMs ≤ MonotonicNonce.maxNonce := by
  unfold MonotonicNonce.next
  simp only
  by_cases hlast : nowMs ≤ g.last
  · have hnext : (if MonotonicNonce.maxNonce < g.last + 1 then g.last + 1 else g.last + 1) =
        g.last + 1 := ite_self _
    rw [if_pos hlast, hnext]
    omega
  · rw [if_neg hlast]
    by_cases hmax : MonotonicNonce.maxNonce < nowMs
    · rw [if_pos hmax]
      omega
    · rw [if_neg hmax]
      omega

/-! ## A call -/

/-- How far a call has come. -/
inductive Stage where
  | starting
  | holding (n : Int)
  | posting (room : String) (body : Body)

/-- The protocol of a call: one nonce is drawn, and every attempt posts the same body with it. -/
def Posting : Protocol Net Stage where
  allows
    | .starting, .nextNonce _ => True
    | .holding _, .validateBaseHost => True
    | .holding n, .post _ body => body.nonce = n
    | .posting room body, .post room' body' => room' = room ∧ body' = body
    | _, _ => False
  next
    | .starting, .nextNonce _, .ok n => .holding n
    | .holding _, .post room body, _ => .posting room body
    | g, _, _ => g

section programs

variable {env : Env} {room : String} {body : Body}

theorem wp_perform {o : Op} {Q : Except PyExc o.Ans → Stage → Prop} {g : Stage} :
    (perform o).wp Posting Q g ↔
      Posting.allows g o ∧ (∀ x, Q (.ok x) (Posting.next g o (.ok x))) ∧
        ∀ x, Q (.error (.lib x)) (Posting.next g o (.error x)) := Prog.wp_call

theorem attempt_posts {again : PyExc → Proc Json} {g : Stage}
    (hg : g = .holding body.nonce ∨ g = .posting room body)
    (hagain : ∀ x, (again x).wp Posting (fun _ _ => True) (.posting room body)) :
    (attempt room body again).wp Posting (fun _ _ => True) g := by
  unfold attempt
  simp only [Prog.bind_eq, Prog.wp_bind, Prog.wp_attempt]
  have hnext : ∀ r, Posting.next g (.post room body) r = .posting room body := by
    intro r
    rcases hg with rfl | rfl <;> rfl
  refine wp_perform.2 ⟨?_, fun (r : Response) => ?_, fun x => ?_⟩
  · rcases hg with rfl | rfl
    · exact rfl
    · exact ⟨rfl, rfl⟩
  · rw [hnext, Prog.bindPost_ok]
    by_cases hbusy : r.statusCode = 429
    · simp only [if_pos hbusy]
      exact hagain _
    · simp only [if_neg hbusy, Prog.wp_ofExcept]
  · rw [hnext, Prog.bindPost_ok]
    exact hagain _

theorem attempts_posts (left : Nat) {g : Stage}
    (hg : g = .holding body.nonce ∨ g = .posting room body) :
    (attempts room body left).wp Posting (fun _ _ => True) g := by
  induction left generalizing g with
  | zero => exact attempt_posts hg fun x => trivial
  | succ left ih => exact attempt_posts hg fun x => ih (.inr rfl)

theorem bodyOf_nonce {text : String} {signature : Option String} {n : Int}
    (h : bodyOf env room text signature n = .ok body) : body.nonce = n := by
  unfold bodyOf at h
  simp only [bind, Except.bind] at h
  repeat' split at h
  all_goals
    cases h
    try rfl

theorem signedPost_posts {proc : ProcessId} {payload : Json} {signature : Option String} :
    (signedPost env proc room payload signature none).wp Posting (fun _ _ => True) .starting := by
  unfold signedPost
  simp only [Prog.bind_eq, Prog.wp_bind, Prog.wp_ofExcept]
  cases prepare env room payload with
  | error x => trivial
  | ok text =>
    rw [Prog.bindPost_ok, Prog.wp_bind]
    refine wp_perform.2 ⟨trivial, fun (n : Int) => ?_, fun x => trivial⟩
    simp only [Prog.bindPost_ok, Prog.wp_bind, Prog.wp_ofExcept]
    cases hbody : bodyOf env room text signature n with
    | error x => trivial
    | ok body =>
      rw [Prog.bindPost_ok, Prog.wp_bind]
      refine wp_perform.2 ⟨trivial, fun _ => ?_, fun x => trivial⟩
      rw [← bodyOf_nonce hbody]
      exact attempts_posts _ (.inl rfl)

/-- **A call keeps to the protocol.** -/
theorem program_posts (q : (machine env).Req) :
    ((machine env).program q).wp Posting (fun _ _ => True) .starting := by
  have hcall : (tcWrite env q).wp Posting (fun _ _ => True) .starting := by
    unfold tcWrite
    split
    · trivial
    · exact signedPost_posts
  refine Prog.wp_bind.2 (Prog.wp_mono ?_ hcall)
  rintro (x | v) g -
  · trivial
  · trivial

end programs

/-! ## Runs -/

abbrev Event (env : Env) := (machine env).Event

/-- A call sends its body. -/
structure Attempt where
  pid : Pid
  room : String
  body : Body

def posted {env : Env} : (machine env).Act → Option Attempt
  | .did p (.post room body) _ _ => some ⟨p, room, body⟩
  | _ => none

/-- A call gets its nonce from a process. -/
structure Draw where
  pid : Pid
  proc : ProcessId
  nonce : Int

def drawn {env : Env} : (machine env).Act → Option Draw
  | .did p (.nextNonce proc) (.ok n) _ => some ⟨p, proc, n⟩
  | _ => none

section runs

variable {env : Env} {h : List (Event env)} {w : World} {e : Event env} {p : Pid} {g : Stage}

/-- The call has made no attempt yet. -/
def Unposted (h : List (Event env)) (p : Pid) : Prop := ∀ e ∈ course h p, posted e.act = none

/-- The nonces of all posts so far for a room and a DID. -/
def noncesFor (h : List (Event env)) (room did : String) : List Int :=
  h.filterMap fun e =>
    match posted e.act with
    | some a => if a.room = room ∧ a.body.did = did then some a.body.nonce else none
    | none => none

/-- A call that issues its post has a greater nonce than all posts before it for the same room and
DID. -/
def Exceeds (h : List (Event env)) (e : Event env) : Prop :=
  ∀ a ∈ posted e.act, Unposted h a.pid → ∀ m ∈ noncesFor h a.room a.body.did, m < a.body.nonce

/-- A further attempt of a call is the same post. -/
def Repeats (h : List (Event env)) (e : Event env) : Prop :=
  ∀ a ∈ posted e.act, ∀ e' ∈ course h a.pid, ∀ a' ∈ posted e'.act,
    a'.room = a.room ∧ a'.body = a.body

/-- The nonces of the calls that post are strictly increasing in the order of the posts. -/
def NoncesIncrease (h : List (Event env)) : Prop :=
  Historically (fun h e => Exceeds h e ∧ Repeats h e) h

/-- When a call issues its post, all nonces posted before for the same room and DID are ones that the
generator of its process or the clock had passed when the call drew its own. -/
def Ahead (h : List (Event env)) (e : Event env) : Prop :=
  ∀ a ∈ posted e.act, Unposted h a.pid →
    ∀ d ∈ course h a.pid, ∀ x ∈ drawn d.act, ∀ m ∈ noncesFor h a.room a.body.did,
      m ≤ (d.before.gens x.proc).last ∨
        m < d.before.clock x.proc ∧ d.before.clock x.proc ≤ MonotonicNonce.maxNonce

/-- What a stage tells of the course of a call. -/
def Stage.Tells (es : List (Event env)) : Stage → Prop
  | .starting => ∀ e ∈ es, posted e.act = none ∧ drawn e.act = none
  | .holding n => (∀ e ∈ es, posted e.act = none) ∧
      (∃ d ∈ es, ∃ x ∈ drawn d.act, x.nonce = n) ∧ ∀ d ∈ es, ∀ x ∈ drawn d.act, x.nonce = n
  | .posting room body => (∃ e ∈ es, posted e.act ≠ none) ∧
      ∀ e ∈ es, ∀ a ∈ posted e.act, a.room = room ∧ a.body = body

abbrev stages (h : List (Event env)) : Pid → Option Stage :=
  phase Posting (fun _ => Stage.starting) h

/-- The invariant of the histories. -/
structure Kept (h : List (Event env)) : Prop where
  tells : ∀ p g, stages h p = some g → g.Tells (course h p)
  draws : ∀ d ∈ h, ∀ x ∈ drawn d.act,
    x.nonce = ((d.before.gens x.proc).next (d.before.clock x.proc)).2

theorem Kept.initial : Kept ([] : List (Event env)) := by
  refine ⟨?_, ?_⟩
  · rintro p g ⟨⟩
  · rintro d ⟨⟩

/-- One operation of a call. -/
theorem Stage.Tells.did {es : List (Event env)} (hg : g.Tells es) {o : Op}
    {r : Except LibError o.Ans} {stays : Bool} (he : e.act = .did p o r stays)
    (allowed : Posting.allows g o) : (Posting.next g o r).Tells (e :: es) := by
  cases g with
  | starting =>
    cases o with
    | nextNonce proc =>
      cases r with
      | error x =>
        refine List.forall_mem_cons.2 ⟨?_, hg⟩
        rw [he]
        exact ⟨rfl, rfl⟩
      | ok n =>
        have hdrawn : drawn e.act = some ⟨p, proc, n⟩ := by rw [he]; rfl
        refine ⟨List.forall_mem_cons.2 ⟨by rw [he]; rfl, fun e' he' => (hg e' he').1⟩,
          ⟨e, List.mem_cons_self, _, hdrawn, rfl⟩, List.forall_mem_cons.2 ⟨?_, ?_⟩⟩
        · rintro x hx
          rw [hdrawn] at hx
          cases hx
          rfl
        · intro d hd x hx
          rw [(hg d hd).2] at hx
          cases hx
    | _ => exact allowed.elim
  | holding n =>
    obtain ⟨hpost, ⟨d, hd, hdrawn⟩, hsame⟩ := hg
    cases o with
    | validateBaseHost =>
      refine ⟨List.forall_mem_cons.2 ⟨by rw [he]; rfl, hpost⟩,
        ⟨d, List.mem_cons_of_mem e hd, hdrawn⟩, List.forall_mem_cons.2 ⟨?_, hsame⟩⟩
      intro x hx
      rw [he] at hx
      cases hx
    | post room body =>
      have hposted : posted e.act = some ⟨p, room, body⟩ := by rw [he]; rfl
      refine ⟨⟨e, List.mem_cons_self, by rw [hposted]; simp⟩, List.forall_mem_cons.2 ⟨?_, ?_⟩⟩
      · intro x hx
        rw [hposted] at hx
        cases hx
        exact ⟨rfl, rfl⟩
      · intro e' he' x hx
        rw [hpost e' he'] at hx
        cases hx
    | _ => exact allowed.elim
  | posting room body =>
    obtain ⟨⟨e₀, he₀, hfirst⟩, hsame⟩ := hg
    cases o with
    | post room' body' =>
      obtain ⟨rfl, rfl⟩ := allowed
      refine ⟨⟨e₀, List.mem_cons_of_mem e he₀, hfirst⟩, List.forall_mem_cons.2 ⟨?_, hsame⟩⟩
      intro x hx
      rw [he] at hx
      cases hx
      exact ⟨rfl, rfl⟩
    | _ => exact allowed.elim

theorem Kept.step (hk : Kept h) (hl : Legal Posting (fun _ => Stage.starting) h w e) :
    Kept (e :: h) := by
  refine ⟨fun p g hg => ?_, List.forall_mem_cons.2 ⟨?_, hk.draws⟩⟩
  · rcases hl.moved hg with ⟨running, other⟩ | ⟨q, act, rfl⟩ | ⟨act, running, allowed, rfl⟩
    · rw [course_of_other other]
      exact hk.tells p g running
    · rw [course_started act]
      rintro e' ⟨⟩
    · rw [course_did act]
      exact (hk.tells p _ running).did act allowed
  · intro x hx
    cases hl with
    | @did p' o g ch stays running allowed =>
      cases o with
      | nextNonce proc =>
        cases hx
        rfl
      | _ => cases hx
    | _ => cases hx

/-- The stage of a call that makes an attempt. -/
theorem Legal.attempting (hl : Legal Posting (fun _ => Stage.starting) h w e) {a : Attempt}
    (ha : a ∈ posted e.act) : stages h a.pid = some (.holding a.body.nonce) ∨
      stages h a.pid = some (.posting a.room a.body) := by
  cases hl with
  | @did p o g ch stays running allowed =>
    cases o with
    | post room body =>
      cases ha
      cases g with
      | starting => exact allowed.elim
      | holding n =>
        obtain rfl : body.nonce = n := allowed
        exact .inl running
      | posting room' body' =>
        obtain ⟨rfl, rfl⟩ := allowed
        exact .inr running
    | _ => cases ha
  | _ => cases ha

/-- **An attempt repeats the body of its call.** -/
theorem Kept.repeats (hk : Kept h) (hl : Legal Posting (fun _ => Stage.starting) h w e) :
    Repeats h e := by
  intro a ha
  rcases Legal.attempting hl ha with hphase | hphase
  · intro e' he' a' ha'
    rw [(hk.tells _ _ hphase).1 e' he'] at ha'
    cases ha'
  · exact (hk.tells _ _ hphase).2

/-- **A post exceeds those before it just if the clock was ahead of them.** -/
theorem Kept.exceeds_iff (hk : Kept h) (hl : Legal Posting (fun _ => Stage.starting) h w e) :
    Exceeds h e ↔ Ahead h e := by
  refine forall_congr' fun a => forall_congr' fun ha => forall_congr' fun hfirst => ?_
  -- all draws of the call have given it the nonce of its body
  obtain ⟨⟨d₀, hd₀, x₀, hx₀, hbody₀⟩, hall⟩ :
      (∃ d ∈ course h a.pid, ∃ x ∈ drawn d.act, x.nonce = a.body.nonce) ∧
        ∀ d ∈ course h a.pid, ∀ x ∈ drawn d.act, x.nonce = a.body.nonce := by
    rcases Legal.attempting hl ha with hphase | hphase
    · exact (hk.tells _ _ hphase).2
    · obtain ⟨e₀, he₀, hne⟩ := (hk.tells _ _ hphase).1
      exact (hne (hfirst e₀ he₀)).elim
  constructor
  · intro hexceeds d hd x hx m hm
    have hnext := hk.draws d (course_subset hd) x hx
    rw [← lt_next_iff, ← hnext, hall d hd x hx]
    exact hexceeds m hm
  · intro hahead m hm
    have hnext := hk.draws d₀ (course_subset hd₀) x₀ hx₀
    rw [← hbody₀, hnext, lt_next_iff]
    exact hahead d₀ hd₀ x₀ hx₀ m hm

end runs

/-- **Nonces increase along the posts** of any processes exactly if every post was ahead of those
before it. -/
theorem nonces_increase_iff {env : Env} {c : (machine env).Config}
    (hc : Reaches (machine env) World.Initial anyEvent c) :
    NoncesIncrease c.hist ↔ Historically Ahead c.hist := by
  have hpast : Historically (fun h e => (Exceeds h e ↔ Ahead h e) ∧ Repeats h e) c.hist :=
    hc.historically program_posts (P := fun h _ => Kept h) (fun _ _ => .initial)
      fun h w e hk hl _ => ⟨hk.step hl, hk.exceeds_iff hl, hk.repeats hl⟩
  constructor
  · intro hinc
    exact (hpast.and hinc).mono fun h e hboth => hboth.1.1.1 hboth.2.1
  · intro hahead
    exact (hpast.and hahead).mono fun h e hboth => ⟨hboth.1.1.2 hboth.2, hboth.1.2⟩

section decidable

variable {env : Env} (h : List (Event env)) (e : Event env)

instance (p : Pid) : Decidable (Unposted h p) :=
  inferInstanceAs (Decidable (∀ e ∈ course h p, posted e.act = none))

instance : Decidable (Exceeds h e) :=
  inferInstanceAs (Decidable (∀ a ∈ posted e.act, Unposted h a.pid →
    ∀ m ∈ noncesFor h a.room a.body.did, m < a.body.nonce))

instance : Decidable (Ahead h e) :=
  inferInstanceAs (Decidable (∀ a ∈ posted e.act, Unposted h a.pid →
    ∀ d ∈ course h a.pid, ∀ x ∈ drawn d.act, ∀ m ∈ noncesFor h a.room a.body.did,
      m ≤ (d.before.gens x.proc).last ∨
        m < d.before.clock x.proc ∧ d.before.clock x.proc ≤ MonotonicNonce.maxNonce))

end decidable

/-- A key with its DID, and a signature. -/
def sampleEnv : Env where
  enabled := true
  maxRetries := 2
  did := "did:key:z6Mk11111111111111111111111111111111111111111111"
  signCanonical _ := String.ofList (List.replicate 86 'A')
  category _ := "Ll"
  isSpace c := c = ' '
  textOf _ := "hello"
  dumps _ := ""

/-- Two processes, at 1000 ms and at `ms`, write to one room, one after the other. -/
def twoProcesses (ms : Int) : List (machine sampleEnv).Move :=
  [.tick (0, 1000), .tick (1, ms), .start 0 ⟨0, "lobby", .str "hello", ""⟩,
    .start 1 ⟨1, "lobby", .str "hello", ""⟩] ++
    List.replicate 3 (.perform 0 {}) ++ List.replicate 3 (.perform 1 {})

def noNonces : World := ⟨fun _ => {}, fun _ => 0⟩

theorem noNonces_initial : noNonces.Initial := ⟨fun _ => rfl⟩

/-- The second clock is ahead. -/
theorem nonces_increase_iff_ahead : ∃ c : (machine sampleEnv).Config,
    Reaches (machine sampleEnv) World.Initial anyEvent c ∧
      noncesFor c.hist "lobby" sampleEnv.did = [1001, 1000] ∧ NoncesIncrease c.hist := by
  have hrun : ((Config.initial noNonces : (machine sampleEnv).Config).run anyEvent
      (twoProcesses 1001)).map (fun c => (noncesFor c.hist "lobby" sampleEnv.did,
        decide (Historically Ahead c.hist))) = some ([1001, 1000], true) := by decide +kernel
  obtain ⟨c, hc, hsee⟩ := Option.map_eq_some_iff.1 hrun
  obtain ⟨hnonces, hahead⟩ := Prod.mk.inj hsee
  have hreach := (Reaches.init noNonces_initial).run hc
  exact ⟨c, hreach, hnonces, (nonces_increase_iff hreach).2 (of_decide_eq_true hahead)⟩

/-- The clocks agree, and both processes post the same nonce. -/
theorem nonce_repeated : ¬∀ (env : Env) (c : (machine env).Config),
    Reaches (machine env) World.Initial anyEvent c → NoncesIncrease c.hist := by
  intro hclaim
  have hrun : ((Config.initial noNonces : (machine sampleEnv).Config).run anyEvent
      (twoProcesses 1000)).map (fun c => decide (Historically Exceeds c.hist)) = some false := by
    decide +kernel
  obtain ⟨c, hc, hsee⟩ := Option.map_eq_some_iff.1 hrun
  have hinc := hclaim sampleEnv c ((Reaches.init noNonces_initial).run hc)
  exact of_decide_eq_false hsee (hinc.mono fun h e hboth => hboth.1)

end Observatory.Technocore
