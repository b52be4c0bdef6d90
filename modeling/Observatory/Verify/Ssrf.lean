import Observatory.Model.Ssrf

/-!
# What the validation of a URL is worth

Every URL the client fetches was validated right before (`getJson_wp`), so a host that is an address
is not a blocked one.  A host name was resolved, and what it resolved to was checked, but nothing
of that reaches the client: it resolves the name again (`name_unprotected`).  The connections of a
run are all unblocked exactly if DNS never answers the client itself with a blocked address
(`connections_unblocked_iff`).
-/

namespace Observatory.Ssrf

open Effect Effect.Machine

variable {lib : Library}

/-! ## What validation establishes -/

/-- What `validate_url` has found about a URL when it returns. -/
structure Admissible (lib : Library) (url : String) (parts : ParseResult)
    (allowedHosts : Option (List String)) : Prop where
  parsed : lib.urlparse url = .ok parts
  scheme : parts.scheme ∈ ["http", "https"]
  host : checkHost lib (lib.lower (rstripDot (parts.hostname.getD ""))) allowedHosts = .ok ()
  literal : (IpAddress.ofText (rstripDot (parts.hostname.getD ""))).isSome = true →
    ipIsBlocked (rstripDot (parts.hostname.getD "")) = false

/-- What validating a URL takes. -/
def Op.isLookup : Op → Bool
  | .stream _ => false
  | _ => true

/-- The lookups are allowed, and change nothing. -/
structure LetsLookUp {σ : Type} (T : Protocol Sys σ) : Prop where
  allows : ∀ {g o}, Op.isLookup o = true → T.allows g o
  next : ∀ {g o r}, Op.isLookup o = true → T.next g o r = g

/-- Only validated URLs are fetched. -/
def guarded (lib : Library) : Protocol Sys (Option (List String)) where
  allows allowedHosts
    | .stream url => ∃ parts, Admissible lib url parts allowedHosts
    | _ => True
  next allowedHosts _ _ := allowedHosts

theorem guarded_letsLookUp : LetsLookUp (guarded lib) where
  allows {g o} h := by
    cases o with
    | stream url => cases h
    | _ => trivial
  next _ := rfl

section validation

open Prog

variable {σ : Type} {T : Protocol Sys σ} {g : σ} {allowedHosts : Option (List String)}
  {raw url : String}

/-- One lookup, whatever it comes back with. -/
theorem lookup_wp (hT : LetsLookUp T) {o : Op} (ho : o.isLookup = true)
    {Q : Except LibError o.Ans → σ → Prop} (hQ : ∀ res, Q res g) : wp T (perform o) Q g := by
  have hnext : ∀ r, T.next g o r = g := fun r => hT.next ho
  refine wp_call.2 ⟨hT.allows ho, fun a => ?_, fun x => ?_⟩
  · rw [hnext]
    exact hQ _
  · rw [hnext]
    exact hQ _

theorem resolveAll_wp (hT : LetsLookUp T) {host : String}
    {Q : Except LibError (List String) → σ → Prop} (hQ : ∀ res, Q res g) :
    wp T (resolveAll lib host) Q g := by
  simp only [resolveAll, bind_eq]
  rw [wp_bind]
  refine lookup_wp hT rfl fun now => ?_
  cases now with
  | error x => exact hQ _
  | ok now =>
    rw [bindPost_ok, wp_bind]
    refine lookup_wp hT rfl fun cached => ?_
    cases cached with
    | error x => exact hQ _
    | ok cached =>
      rw [bindPost_ok]
      split
      · exact hQ _
      · rw [wp_bind, wp_attempt]
        refine lookup_wp hT rfl fun infos => ?_
        rw [bindPost_ok]
        cases infos with
        | error x =>
          dsimp only
          split
          · exact hQ _
          · exact hQ _
        | ok infos =>
          dsimp only
          split
          · exact hQ _
          · rw [wp_bind]
            refine lookup_wp hT rfl fun res => ?_
            cases res with
            | error x => exact hQ _
            | ok u => exact hQ _

theorem validateHost_wp (hT : LetsLookUp T) {Q : Except LibError Unit → σ → Prop} (herr : ∀ x, Q (.error x) g)
    (hok : checkHost lib (lib.lower (rstripDot raw)) allowedHosts = .ok () →
      ((IpAddress.ofText (rstripDot raw)).isSome = true → ipIsBlocked (rstripDot raw) = false) →
      Q (.ok ()) g) :
    wp T (validateHost lib raw allowedHosts) Q g := by
  simp only [validateHost, bind_eq]
  rw [wp_bind, wp_ofExcept]
  cases hcheck : checkHost lib (lib.lower (rstripDot raw)) allowedHosts with
  | error x => exact herr x
  | ok u =>
    have hok := hok hcheck
    rw [bindPost_ok]
    generalize ipIsBlocked (rstripDot raw) = isBlocked at hok ⊢
    generalize (IpAddress.ofText (rstripDot raw)).isSome = isAddress at hok ⊢
    cases isAddress with
    | true =>
      cases isBlocked with
      | true => exact herr _
      | false => exact hok fun _ => rfl
    | false =>
      simp only [Bool.false_eq_true, ite_false]
      rw [wp_bind]
      refine resolveAll_wp hT fun res => ?_
      cases res with
      | error x => exact herr x
      | ok ips =>
        rw [bindPost_ok]
        split
        · exact herr _
        · exact hok fun h => Bool.noConfusion h

/-- The checks in turn: none of them has raised. -/
theorem checkUrl_ok {parts : ParseResult} {hostname : String}
    (h : checkUrl lib url parts allowedHosts = .ok hostname) :
    parts.scheme ∈ ["http", "https"] ∧ hostname = parts.hostname.getD "" := by
  unfold checkUrl at h
  by_cases hscheme : parts.scheme ∈ ["http", "https"]
  swap
  · rw [if_pos hscheme] at h
    cases h
  refine ⟨hscheme, ?_⟩
  rw [if_neg (not_not.2 hscheme)] at h
  by_cases hhost : (!given parts.hostname) = true
  · rw [if_pos hhost] at h
    cases h
  rw [if_neg hhost] at h
  by_cases huser : (given parts.username || given parts.password) = true
  · rw [if_pos huser] at h
    cases h
  rw [if_neg huser] at h
  by_cases hunix : occursIn "unix:" (lib.lower url) = true
  · rw [if_pos hunix] at h
    cases h
  rw [if_neg hunix] at h
  cases hport : parts.port with
  | error x =>
    rw [hport] at h
    cases h
  | ok port =>
    rw [hport] at h
    cases port with
    | none =>
      cases h
      rfl
    | some port =>
      change (if _ then _ else _) = _ at h
      split at h
      · cases h
      · cases h
        rfl

theorem validateUrl_wp (hT : LetsLookUp T) {Q : Except LibError Unit → σ → Prop}
    (herr : ∀ x, Q (.error x) g)
    (hok : ∀ parts, Admissible lib url parts allowedHosts → Q (.ok ()) g) :
    wp T (validateUrl lib url allowedHosts) Q g := by
  simp only [validateUrl, bind_eq]
  rw [wp_bind, wp_ofExcept]
  cases hparse : lib.urlparse url with
  | error x => exact herr x
  | ok parts =>
    rw [bindPost_ok, wp_bind, wp_ofExcept]
    cases hcheck : checkUrl lib url parts allowedHosts with
    | error x => exact herr x
    | ok hostname =>
      obtain ⟨hscheme, rfl⟩ := checkUrl_ok hcheck
      rw [bindPost_ok]
      exact validateHost_wp hT herr fun hhost hlit => hok parts ⟨hparse, hscheme, hhost, hlit⟩

theorem resolveRedirectUrl_wp (hT : LetsLookUp T) {location : String}
    {Q : Except LibError String → σ → Prop} (hQ : ∀ res, Q res g) :
    wp T (resolveRedirectUrl lib url location allowedHosts) Q g := by
  simp only [resolveRedirectUrl, bind_eq]
  split
  · exact hQ _
  · rw [wp_bind, wp_ofExcept]
    cases lib.urljoin url location with
    | error x => exact hQ _
    | ok resolved =>
      rw [bindPost_ok, wp_bind]
      exact validateUrl_wp hT (fun x => hQ _) fun parts hadm => hQ _

end validation

section requests

open Prog

variable {g : Option (List String)} {url : String}

/-- A request goes to what has been validated. -/
theorem validated_wp {conn : HttpJsonConnector} {Q : Except LibError Json → _ → Prop}
    {f : Response → Proc Json} (hg : g = conn.allowedHosts) (hQ : ∀ res, Q res g)
    (hf : ∀ resp, wp (guarded lib) (f resp) Q g) :
    wp (guarded lib) ((validateUrl lib url conn.allowedHosts).bind fun _ =>
      (Ssrf.perform (.stream url)).bind f) Q g := by
  rw [wp_bind]
  refine validateUrl_wp guarded_letsLookUp (fun x => hQ _) fun parts hadm => ?_
  rw [bindPost_ok, wp_bind]
  refine wp_call.2 ⟨⟨parts, hg ▸ hadm⟩, fun resp => ?_, fun x => hQ _⟩
  rw [bindPost_ok]
  exact hf resp

/-- The loop of `get_json` fetches what it has validated. -/
theorem fetch_wp {conn : HttpJsonConnector} {Q : Except LibError Json → _ → Prop}
    (hg : g = conn.allowedHosts) (hQ : ∀ res, Q res g) (n : Nat) :
    wp (guarded lib) (fetch lib conn url n) Q g := by
  induction n generalizing url with
  | zero =>
    rw [fetch]
    refine validated_wp hg hQ fun resp => ?_
    split
    · exact hQ _
    · rw [wp_ofExcept]
      exact hQ _
  | succ n ih =>
    rw [fetch]
    refine validated_wp hg hQ fun resp => ?_
    split
    · dsimp only
      rw [bind_eq, wp_bind]
      refine resolveRedirectUrl_wp guarded_letsLookUp fun res => ?_
      cases res with
      | error x => exact hQ _
      | ok next => exact ih
    · rw [wp_ofExcept]
      exact hQ _

/-- **`get_json` fetches what it has validated.** -/
theorem getJson_wp {conn : HttpJsonConnector} {Q : Except LibError Json → _ → Prop}
    (hg : g = conn.allowedHosts) (hQ : ∀ res, Q res g) :
    wp (guarded lib) (getJson lib conn url) Q g := by
  rw [getJson, bind_eq, wp_bind]
  exact validateUrl_wp guarded_letsLookUp (fun x => hQ _) fun parts hadm => fetch_wp hg hQ conn.maxRedirects

/-- What a request may fetch. -/
def Req.hosts : Req → Option (List String)
  | .getJson conn _ => conn.allowedHosts
  | .validateHost _ allowedHosts => allowedHosts

theorem program_guarded (q : Req) :
    (Req.program lib q).wp (guarded lib) (fun _ _ => True) q.hosts := by
  cases q with
  | getJson conn url =>
    simp only [Req.program, bind_eq]
    rw [wp_bind]
    refine getJson_wp rfl fun res => ?_
    cases res with
    | error x => trivial
    | ok value => trivial
  | validateHost host allowedHosts =>
    exact validateHost_wp guarded_letsLookUp (fun _ => trivial) fun _ _ => trivial

end requests

/-! ## Connections -/

/-- Nothing has been fetched yet; the pins may be anything. -/
def World.Idle (w : World) : Prop := w.opened = []

/-- A connection of the client, with the URL it fetches. -/
structure Guarded (lib : Library) (o : Connection) : Prop where
  admissible : ∃ parts allowedHosts, Admissible lib o.url parts allowedHosts ∧
    o.host = parts.hostname.getD ""

/-- A validated host that is an address is not blocked. -/
theorem Guarded.literal {o : Connection} (ho : Guarded lib o) (hlit : o.isLiteral = true) :
    ipIsBlocked o.host = false := by
  obtain ⟨parts, allowedHosts, hadm, hhost⟩ := ho.admissible
  simp only [Connection.isLiteral, Bool.and_eq_true, decide_eq_true_eq] at hlit
  obtain ⟨hdot, hsome⟩ := hlit
  have hblocked := hadm.literal
  rw [← hhost, hdot] at hblocked
  exact hblocked hsome

/-- The connections opened so far, the newest first. -/
def connections (c : Config (system lib)) : List Connection := World.opened c.world

section runs

variable {K : List (Event (system lib)) → Event (system lib) → Prop} {c : Config (system lib)}

/-- A process that ends leaves nothing behind. -/
theorem mem_settle {w : World} {p : Pid} {stays : Bool} {o : Connection} :
    o ∈ World.opened (Machine.settle (system lib) w p stays) ↔ o ∈ w.opened := by
  cases stays with
  | true => exact Iff.rfl
  | false => exact Iff.rfl

/-- What one operation adds to the connections. -/
theorem exec_opened {w : World} {ch : Choice} {op : Op} {o : Connection}
    (ho : o ∈ (w.exec lib ch op).1.opened) :
    o ∈ w.opened ∨ ∃ parts, op = .stream o.url ∧ lib.urlparse o.url = .ok parts ∧
      o.host = parts.hostname.getD "" := by
  cases op with
  | stream url =>
    simp only [World.exec] at ho
    cases hparse : lib.urlparse url with
    | error x =>
      rw [hparse] at ho
      exact .inl ho
    | ok parts =>
      rw [hparse] at ho
      rcases List.mem_cons.1 ho with rfl | ho
      · exact .inr ⟨parts, rfl, hparse, rfl⟩
      · exact .inl ho
  | _ => exact .inl ho

/-- **Every connection is guarded**, in every run. -/
theorem connections_guarded (hc : Reaches (system lib) World.Idle K c) :
    ∀ o ∈ connections c, Guarded lib o := by
  have hprog : ∀ q, ((system lib).program q).wp (guarded lib) (fun _ _ => True) q.hosts :=
    program_guarded
  refine Reaches.induct hprog (P := fun _ (w : World) => ∀ o ∈ w.opened, Guarded lib o) ?_ ?_ hc
  · intro w hw o ho
    rw [show w.opened = [] from hw] at ho
    cases ho
  · intro h w e hP hl _ o ho
    cases hl with
    | started q stays idle =>
      exact hP o (mem_settle.1 ho)
    | crashed running => exact hP o ho
    | ticked t => exact t.elim
    | @did p op g ch stays running allowed =>
      rcases exec_opened (mem_settle.1 ho) with ho | ⟨parts, rfl, hparse, hhost⟩
      · exact hP o ho
      · obtain ⟨parts', hadm⟩ := allowed
        cases hparse.symm.trans hadm.parsed
        exact ⟨parts, g, hadm, hhost⟩

end runs

/-- **No blocked address is connected to exactly if DNS names none to the client.**  The hosts that
are addresses have been checked; of the others it is the client's own lookup that decides, as far
down its answer as the client tries. -/
theorem connections_unblocked_iff {c : Config (system lib)}
    (hc : Reaches (system lib) World.Idle anyEvent c) :
    (∀ o ∈ connections c, ∀ a ∈ o.addresses, ipIsBlocked a = false) ↔
      ∀ o ∈ connections c, o.isLiteral = false →
        ∀ a ∈ o.answer.take o.tried, ipIsBlocked a = false := by
  constructor
  · intro hsafe o ho hname a ha
    refine hsafe o ho a ?_
    rw [Connection.addresses, hname]
    exact ha
  · intro hsteady o ho a ha
    rw [Connection.addresses] at ha
    cases hlit : o.isLiteral with
    | true =>
      rw [hlit] at ha
      obtain rfl := List.mem_singleton.1 (List.mem_of_mem_take ha)
      exact (connections_guarded hc o ho).literal hlit
    | false =>
      rw [hlit] at ha
      exact hsteady o ho hlit a ha

/-- **A name protects from nothing.**  Whatever the validator has found, DNS can send the next
connection of the client anywhere. -/
theorem name_unprotected {c : Config (system lib)} {p : Pid} {url : String}
    {k : Except LibError Response → Proc Unit} {parts : ParseResult}
    (hp : c.procs p = some (.op (.stream url) k)) (hparse : lib.urlparse url = .ok parts)
    (hname : (IpAddress.ofText (parts.hostname.getD "")).isSome = false) (a : String) :
    ∃ ch c', c.step (.perform p ch) = some c' ∧
      ∃ o ∈ connections c', o.url = url ∧ o.addresses = [a] := by
  let ch : Choice := { infos := .ok [a], tried := 1 }
  let o : Connection := ⟨url, parts.hostname.getD "", [a], 1⟩
  let wr := (system lib).perform c.world p (.stream url) ch
  have hstep : c.step (.perform p ch) =
      some (c.advance p (k wr.2) wr.1 (.did p (.stream url) wr.2)) := by
    simp only [Config.step, hp]
    rfl
  refine ⟨ch, _, hstep, o, mem_settle.2 ?_, rfl, ?_⟩
  · have hopened : (World.exec lib c.world ch (.stream url)).1.opened = o :: World.opened c.world := by
      simp only [World.exec, hparse]
      rfl
    change o ∈ (World.exec lib c.world ch (.stream url)).1.opened
    rw [hopened]
    exact List.mem_cons_self
  · have hlit : o.isLiteral = false := by
      simp only [Connection.isLiteral, o, hname, Bool.and_false]
    rw [Connection.addresses, hlit]
    rfl

/-! ## A rebinding name -/

/-- Python's library on one URL. -/
def rebindLibrary : Library where
  lower := id
  urlparse url :=
    if url = "http://rebind.example/latest" then
      .ok ⟨"http", some "rebind.example", none, none, .ok none⟩
    else .error ⟨"ValueError", url⟩
  urljoin _ location := .ok location
  int _ := none
  loads _ := .ok (.obj [])
  decode _ := ""

/-- The validator is told a public address, twice asked and once answered from its pin; then the
client is told `answer`. -/
def rebinding (answer : String) : List (Move (system rebindLibrary)) :=
  .start 0 (.getJson { allowedHosts := some ["rebind.example"] } "http://rebind.example/latest") ::
    List.replicate 6 (.perform 0 { infos := .ok ["93.184.216.34"] }) ++
      [.perform 0 { infos := .ok [answer] }]

theorem rebinding_reached (answer : String) (os : List Connection)
    (hrun : ((Config.initial (M := system rebindLibrary) ⟨fun _ => none, []⟩).run anyEvent
      (rebinding answer)).map connections = some os) :
    ∃ c : Config (system rebindLibrary), Reaches (system rebindLibrary) World.Idle anyEvent c ∧
      connections c = os := by
  obtain ⟨c, hc, hos⟩ := Option.map_eq_some_iff.1 hrun
  have hidle : World.Idle (⟨fun _ => none, []⟩ : World) := rfl
  exact ⟨c, (Reaches.init hidle).run hc, hos⟩

/-- A name that keeps to its address. -/
theorem connections_unblocked_iff_steady : ∃ c : Config (system rebindLibrary),
    (connections c).length = 1 ∧ ∀ o ∈ connections c, ∀ a ∈ o.addresses, ipIsBlocked a = false := by
  obtain ⟨c, hc, hos⟩ := rebinding_reached "93.184.216.34"
    [⟨"http://rebind.example/latest", "rebind.example", ["93.184.216.34"], 1⟩]
    (by decide +kernel)
  refine ⟨c, by rw [hos]; rfl, (connections_unblocked_iff hc).2 ?_⟩
  rw [hos]
  decide +kernel

/-- **The client is sent elsewhere.**  The validator sees a public address, the client the loopback
address. -/
theorem connections_rebound : ∃ c : Config (system rebindLibrary),
    Reaches (system rebindLibrary) World.Idle anyEvent c ∧
      ∃ o ∈ connections c, ∃ a ∈ o.addresses, ipIsBlocked a = true := by
  obtain ⟨c, hc, hos⟩ := rebinding_reached "127.0.0.1"
    [⟨"http://rebind.example/latest", "rebind.example", ["127.0.0.1"], 1⟩]
    (by decide +kernel)
  refine ⟨c, hc, ?_⟩
  rw [hos]
  decide +kernel

end Observatory.Ssrf
