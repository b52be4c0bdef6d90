import Observatory.Verify.Ssrf

/-!
# Following redirects

One call of `get_json` as the hops it makes (`Followed`): each hop validates its URL, fetches it, and
ends the call or goes on to a redirect target with one redirect less.  The counter bounds the
requests and the validation stands before each of them, whatever the server answers.  What the type
of a body is worth is another matter: an empty body is returned before its type is looked at
(`mediated_iff`).
-/

namespace Observatory.Ssrf

open Effect Prog

/-! ## The hops -/

/-- A request, and what it came back with. -/
def request (url : String) (r : Except LibError Response) : Performed Sys := ⟨.stream url, r⟩

/-- The URL passes `validate_url` with the connector's own allowlist, in these lookups. -/
def Validated (lib : Library) (conn : HttpJsonConnector) (url : String)
    (t : List (Performed Sys)) : Prop :=
  Exec (validateUrl lib url conn.allowedHosts) t (.ok ())

/-- What the loop does from a URL on, with `n` redirects left. -/
inductive Followed (lib : Library) (conn : HttpJsonConnector) :
    Nat → String → List (Performed Sys) → Except LibError Json → Prop
  | refused {n url t x} (ht : Exec (validateUrl lib url conn.allowedHosts) t (.error x)) :
      Followed lib conn n url t (.error x)
  | failed {n url t x} (ht : Validated lib conn url t) :
      Followed lib conn n url (t ++ [request url (.error x)]) (.error x)
  | read {n url t resp} (ht : Validated lib conn url t) (hresp : resp.redirects = false) :
      Followed lib conn n url (t ++ [request url (.ok resp)]) (readBody lib conn resp)
  | exhausted {url t resp x} (ht : Validated lib conn url t) (hresp : resp.redirects = true) :
      Followed lib conn 0 url (t ++ [request url (.ok resp)]) (.error x)
  | misled {n url t t' resp x} (ht : Validated lib conn url t) (hresp : resp.redirects = true)
      (ht' : ∀ e ∈ t', e.op.isLookup = true) :
      Followed lib conn (n + 1) url (t ++ request url (.ok resp) :: t') (.error x)
  | redirected {n url next t t₁ t₂ resp res} (ht : Validated lib conn url t)
      (hresp : resp.redirects = true) (ht₁ : ∀ e ∈ t₁, e.op.isLookup = true)
      (ht₂ : Followed lib conn n next t₂ res) :
      Followed lib conn (n + 1) url (t ++ request url (.ok resp) :: (t₁ ++ t₂)) res

variable {lib : Library} {conn : HttpJsonConnector} {url : String} {n : Nat}
  {t t₁ t₂ t₃ : List (Performed Sys)} {res : Except LibError Json} {resp : Response}

/-- Nothing is requested. -/
def lookups : Protocol Sys Unit where
  allows _ o := o.isLookup = true
  next _ _ _ := ()

theorem lookups_letsLookUp : LetsLookUp lookups where
  allows h := h
  next _ := rfl

theorem lookups_admits {g : Unit} (h : lookups.Admits g t) : ∀ e ∈ t, e.op.isLookup = true := by
  induction t generalizing g with
  | nil =>
    intro e he
    cases he
  | cons e t ih =>
    intro e' he'
    rcases List.mem_cons.1 he' with rfl | he'
    · exact h.1
    · exact ih h.2 e' he'

theorem validateUrl_lookups {allowedHosts : Option (List String)} {r : Except LibError Unit}
    (h : Exec (validateUrl lib url allowedHosts) t r) : ∀ e ∈ t, e.op.isLookup = true := by
  have hwp : wp lookups (validateUrl lib url allowedHosts) (fun _ _ => True) () :=
    validateUrl_wp lookups_letsLookUp (fun _ => trivial) fun _ _ => trivial
  exact lookups_admits (h.sound hwp).1

theorem resolveRedirectUrl_lookups {location : String} {allowedHosts : Option (List String)}
    {r : Except LibError String}
    (h : Exec (resolveRedirectUrl lib url location allowedHosts) t r) :
    ∀ e ∈ t, e.op.isLookup = true := by
  have hwp : wp lookups (resolveRedirectUrl lib url location allowedHosts) (fun _ _ => True) () :=
    resolveRedirectUrl_wp lookups_letsLookUp fun _ => trivial
  exact lookups_admits (h.sound hwp).1

/-- One hop: validation, the request, and what `next` makes of a response. -/
theorem exec_hop {next : Response → Proc Json}
    (h : Exec ((validateUrl lib url conn.allowedHosts).bind fun _ =>
      (perform (.stream url)).bind next) t res) :
    (∃ x, res = .error x ∧ Exec (validateUrl lib url conn.allowedHosts) t (.error x)) ∨
      (∃ t₁ x, res = .error x ∧ Validated lib conn url t₁ ∧ t = t₁ ++ [request url (.error x)]) ∨
      ∃ t₁ resp t₂, Validated lib conn url t₁ ∧ t = t₁ ++ request url (.ok resp) :: t₂ ∧
        Exec (next resp) t₂ res := by
  rcases exec_bind.1 h with ⟨u, t₁, t₂, rfl, hval, hrest⟩ | ⟨x, rfl, hval⟩
  · rcases exec_bind.1 hrest with ⟨resp, t₃, t₄, rfl, hcall, hnext⟩ | ⟨x, rfl, hcall⟩
    · rw [perform, exec_call_ok] at hcall
      subst hcall
      exact .inr (.inr ⟨t₁, resp, t₄, hval, rfl, hnext⟩)
    · rw [perform, exec_call_error] at hcall
      obtain ⟨x, rfl, rfl⟩ := hcall
      exact .inr (.inl ⟨t₁, x, rfl, hval, rfl⟩)
  · exact .inl ⟨x, rfl, hval⟩

theorem exec_fetch (h : Exec (fetch lib conn url n) t res) : Followed lib conn n url t res := by
  induction n generalizing url t with
  | zero =>
    rw [fetch] at h
    rcases exec_hop h with ⟨x, rfl, hval⟩ | ⟨t₁, x, rfl, hval, rfl⟩ | ⟨t₁, resp, t₂, hval, rfl, hnext⟩
    · exact .refused hval
    · exact .failed hval
    · cases hresp : resp.redirects with
      | true =>
        rw [hresp] at hnext
        obtain ⟨rfl, rfl⟩ := exec_raise.1 hnext
        exact .exhausted hval hresp
      | false =>
        rw [hresp] at hnext
        obtain ⟨rfl, rfl⟩ := exec_ofExcept.1 hnext
        exact .read hval hresp
  | succ n ih =>
    rw [fetch] at h
    rcases exec_hop h with ⟨x, rfl, hval⟩ | ⟨t₁, x, rfl, hval, rfl⟩ | ⟨t₁, resp, t₂, hval, rfl, hnext⟩
    · exact .refused hval
    · exact .failed hval
    · cases hresp : resp.redirects with
      | true =>
        rw [hresp] at hnext
        rcases exec_bind.1 hnext with ⟨next, t₃, t₄, rfl, hres, hfetch⟩ | ⟨x, rfl, hres⟩
        · exact .redirected hval hresp (resolveRedirectUrl_lookups hres) (ih hfetch)
        · exact .misled hval hresp (resolveRedirectUrl_lookups hres)
      | false =>
        rw [hresp] at hnext
        obtain ⟨rfl, rfl⟩ := exec_ofExcept.1 hnext
        exact .read hval hresp

/-! ## What holds of all of them -/

def isRequest (e : Performed Sys) : Bool := !e.op.isLookup

theorem countP_lookups (ht : ∀ e ∈ t, e.op.isLookup = true) : t.countP isRequest = 0 := by
  refine List.countP_eq_zero.2 fun e he => ?_
  rw [isRequest, ht e he]
  exact Bool.false_ne_true

/-- The lookups before a request are not the place of another. -/
theorem skip_lookups {pre post : List (Performed Sys)} {r : Except LibError Response}
    (ht : ∀ e ∈ t₁, e.op.isLookup = true) (h : t₁ ++ t₂ = pre ++ request url r :: post) :
    ∃ c, pre = t₁ ++ c ∧ t₂ = c ++ request url r :: post := by
  rcases List.append_eq_append_iff.1 h with ⟨c, hpre, ht₂⟩ | ⟨c, ht₁, hpost⟩
  · exact ⟨c, hpre, ht₂⟩
  · cases c with
    | nil =>
      refine ⟨[], ?_, hpost.symm⟩
      rw [ht₁, List.append_nil, List.append_nil]
    | cons e c =>
      have he : request url r = e := (List.cons.inj hpost).1
      have hmem : request url r ∈ t₁ := by
        rw [ht₁, he]
        exact List.mem_append_right _ List.mem_cons_self
      exact Bool.noConfusion (ht _ hmem)

/-- A request of a hop is the hop's own, or a later one. -/
theorem hop_split {pre post : List (Performed Sys)} {url' : String} {r r' : Except LibError Response}
    (ht : ∀ e ∈ t₁, e.op.isLookup = true)
    (h : t₁ ++ request url r :: t₂ = pre ++ request url' r' :: post) :
    (pre = t₁ ∧ request url r = request url' r' ∧ t₂ = post) ∨
      ∃ c, pre = t₁ ++ request url r :: c ∧ t₂ = c ++ request url' r' :: post := by
  obtain ⟨c, rfl, hc⟩ := skip_lookups ht h
  cases c with
  | nil =>
    obtain ⟨he, ht₂⟩ := List.cons.inj hc
    exact .inl ⟨List.append_nil _, he, ht₂⟩
  | cons e c =>
    obtain ⟨rfl, ht₂⟩ := List.cons.inj hc
    exact .inr ⟨c, rfl, ht₂⟩

theorem Validated.lookups (ht : Validated lib conn url t) : ∀ e ∈ t, e.op.isLookup = true :=
  validateUrl_lookups ht

/-- **The counter bounds the requests.** -/
theorem Followed.bounded (h : Followed lib conn n url t res) : t.countP isRequest ≤ n + 1 := by
  induction h with
  | refused ht =>
    rw [countP_lookups (validateUrl_lookups ht)]
    exact Nat.zero_le _
  | failed ht =>
    rw [List.countP_append, countP_lookups ht.lookups, Nat.zero_add]
    exact Nat.le_add_left 1 _
  | read ht _ =>
    rw [List.countP_append, countP_lookups ht.lookups, Nat.zero_add]
    exact Nat.le_add_left 1 _
  | exhausted ht _ =>
    rw [List.countP_append, countP_lookups ht.lookups]
    exact Nat.le_refl 1
  | misled ht _ ht' =>
    rw [List.countP_append, countP_lookups ht.lookups, List.countP_cons, countP_lookups ht']
    exact Nat.le_add_left 1 _
  | redirected ht _ ht₁ _ ih =>
    rw [List.countP_append, countP_lookups ht.lookups, List.countP_cons, List.countP_append,
      countP_lookups ht₁, Nat.zero_add, Nat.zero_add]
    exact Nat.add_le_add_right ih 1

/-- Right before each request its URL was validated. -/
def Mediates (lib : Library) (conn : HttpJsonConnector) (t : List (Performed Sys)) : Prop :=
  ∀ pre url r post, t = pre ++ request url r :: post →
    ∃ t₁ t₂, pre = t₁ ++ t₂ ∧ Validated lib conn url t₂

theorem Mediates.of_lookups (ht : ∀ e ∈ t, e.op.isLookup = true) : Mediates lib conn t := by
  rintro pre url r post rfl
  exact Bool.noConfusion (ht (request url r) (List.mem_append_right _ List.mem_cons_self))

theorem Mediates.lookups_append (ht₁ : ∀ e ∈ t₁, e.op.isLookup = true)
    (ht₂ : Mediates lib conn t₂) : Mediates lib conn (t₁ ++ t₂) := by
  intro pre url r post h
  obtain ⟨c, rfl, hc⟩ := skip_lookups ht₁ h
  obtain ⟨t₃, t₄, rfl, hval⟩ := ht₂ c url r post hc
  exact ⟨t₁ ++ t₃, t₄, (List.append_assoc ..).symm, hval⟩

theorem Mediates.hop {r : Except LibError Response} (ht₁ : Validated lib conn url t₁)
    (ht₂ : Mediates lib conn t₂) : Mediates lib conn (t₁ ++ request url r :: t₂) := by
  intro pre url' r' post h
  rcases hop_split ht₁.lookups h with ⟨rfl, he, -⟩ | ⟨c, rfl, hc⟩
  · cases he
    exact ⟨[], pre, rfl, ht₁⟩
  · obtain ⟨t₃, t₄, rfl, hval⟩ := ht₂ c url' r' post hc
    exact ⟨t₁ ++ request url r :: t₃, t₄, List.append_assoc t₁ (request url r :: t₃) t₄ ▸ rfl, hval⟩

/-- **Validation stands before every request.** -/
theorem Followed.mediates (h : Followed lib conn n url t res) : Mediates lib conn t := by
  have hnil : Mediates lib conn [] := .of_lookups fun e he => by cases he
  induction h with
  | refused ht => exact .of_lookups (validateUrl_lookups ht)
  | failed ht => exact .hop ht hnil
  | read ht _ => exact .hop ht hnil
  | exhausted ht _ => exact .hop ht hnil
  | misled ht _ ht' => exact .hop ht (.of_lookups ht')
  | redirected ht _ ht₁ _ ih => exact .hop ht (.lookups_append ht₁ ih)

/-- What is returned was read from the last response, the only one that is no redirect. -/
theorem Followed.returned {value : Json} (h : Followed lib conn n url t (.ok value)) :
    ∃ pre url resp, t = pre ++ [request url (.ok resp)] ∧ resp.redirects = false ∧
      readBody lib conn resp = .ok value := by
  generalize hres : (Except.ok value : Except LibError Json) = res at h
  induction h with
  | refused _ => cases hres
  | failed _ => cases hres
  | @read n url t resp _ hresp => exact ⟨t, url, resp, rfl, hresp, rfl⟩
  | exhausted _ _ => cases hres
  | misled _ _ _ => cases hres
  | @redirected n url next t t₁ t₂ resp res _ _ _ _ ih =>
    obtain ⟨pre, url', resp', rfl, hresp', hbody⟩ := ih hres
    refine ⟨t ++ request url (.ok resp) :: (t₁ ++ pre), url', resp', ?_, hresp', hbody⟩
    simp only [List.append_assoc, List.cons_append]

/-- A request is not one of these lookups. -/
theorem request_mem_append {r : Except LibError Response} (ht₁ : ∀ e ∈ t₁, e.op.isLookup = true)
    (hmem : request url r ∈ t₁ ++ t₂) : request url r ∈ t₂ := by
  rcases List.mem_append.1 hmem with hmem | hmem
  · exact Bool.noConfusion (ht₁ _ hmem)
  · exact hmem

/-- A request of a hop is the hop's own, or a later one. -/
theorem Validated.request_mem {url' : String} {r r' : Except LibError Response}
    (ht : Validated lib conn url t₁) (hmem : request url' r' ∈ t₁ ++ request url r :: t₂) :
    request url' r' = request url r ∨ request url' r' ∈ t₂ :=
  List.mem_cons.1 (request_mem_append ht.lookups hmem)

/-- A response that is no redirect ends the call. -/
theorem Followed.read_of_mem {url' : String} (h : Followed lib conn n url t res)
    (hmem : request url' (.ok resp) ∈ t) (hresp : resp.redirects = false) :
    res = readBody lib conn resp ∧ ∃ pre, t = pre ++ [request url' (.ok resp)] := by
  induction h with
  | refused ht => exact Bool.noConfusion (validateUrl_lookups ht _ hmem)
  | failed ht =>
    rcases ht.request_mem hmem with he | hmem
    · cases he
    · cases hmem
  | @read n url t resp ht _ =>
    rcases ht.request_mem hmem with he | hmem
    · cases he
      exact ⟨rfl, t, rfl⟩
    · cases hmem
  | exhausted ht hredirects =>
    rcases ht.request_mem hmem with he | hmem
    · cases he
      cases hresp.symm.trans hredirects
    · cases hmem
  | misled ht hredirects ht' =>
    rcases ht.request_mem hmem with he | hmem
    · cases he
      cases hresp.symm.trans hredirects
    · exact Bool.noConfusion (ht' _ hmem)
  | @redirected n url next t t₁ t₂ resp₀ res ht hredirects ht₁ _ ih =>
    rcases ht.request_mem hmem with he | hmem
    · cases he
      cases hresp.symm.trans hredirects
    · obtain ⟨hres, pre, rfl⟩ := ih (request_mem_append ht₁ hmem)
      refine ⟨hres, t ++ request url (.ok resp₀) :: (t₁ ++ pre), ?_⟩
      simp only [List.append_assoc, List.cons_append]

/-! ## The call -/

/-- Nothing but lookups stands before the loop. -/
theorem exec_getJson (h : Exec (getJson lib conn url) t res) :
    ∃ t₁ t₂, t = t₁ ++ t₂ ∧ (∀ e ∈ t₁, e.op.isLookup = true) ∧
      (t₂ = [] ∧ (∃ x, res = .error x) ∨ Followed lib conn conn.maxRedirects url t₂ res) := by
  rcases exec_bind.1 h with ⟨u, t₁, t₂, rfl, hval, hfetch⟩ | ⟨x, rfl, hval⟩
  · exact ⟨t₁, t₂, rfl, validateUrl_lookups hval, .inr (exec_fetch hfetch)⟩
  · exact ⟨t, [], (List.append_nil t).symm, validateUrl_lookups hval, .inl ⟨rfl, x, rfl⟩⟩

/-- The types `get_json` reads: JSON, or a text to wrap. -/
def Response.hasAllowedType (lib : Library) (resp : Response) : Bool :=
  resp.ctype lib ∈ allowedContentTypes || occursIn "json" (resp.ctype lib) ||
    resp.ctype lib ∈ textFallbackTypes

/-- A response whose body would be read, but is empty and of another type. -/
structure EmptyOfOtherType (lib : Library) (conn : HttpJsonConnector) (resp : Response) :
    Prop where
  final : resp.redirects = false
  announced : (resp.contentLength.bind lib.int).any (Int.ofNat conn.maxBytes < ·) = false
  status : 200 ≤ resp.statusCode ∧ resp.statusCode ≤ 299
  empty : resp.chunks.flatten = []
  other : resp.hasAllowedType lib = false

/-- What a body has passed to be returned. -/
theorem readBody_ok {value : Json} (h : readBody lib conn resp = .ok value) :
    (resp.contentLength.bind lib.int).any (Int.ofNat conn.maxBytes < ·) = false ∧
      (200 ≤ resp.statusCode ∧ resp.statusCode ≤ 299) ∧
      resp.chunks.flatten.length ≤ conn.maxBytes ∧
      (resp.chunks.flatten = [] ∨ resp.hasAllowedType lib = true) := by
  unfold readBody at h
  dsimp only at h
  by_cases hlen : (resp.contentLength.bind lib.int).any (Int.ofNat conn.maxBytes < ·) = true
  · rw [if_pos hlen] at h
    cases h
  rw [if_neg hlen] at h
  by_cases hstatus : resp.statusCode < 200 ∨ 299 < resp.statusCode
  · rw [if_pos hstatus] at h
    cases h
  rw [if_neg hstatus] at h
  by_cases hmax : conn.maxBytes < resp.chunks.flatten.length
  · rw [if_pos hmax] at h
    cases h
  rw [if_neg hmax] at h
  refine ⟨Bool.eq_false_iff.2 hlen, by omega, Nat.le_of_not_lt hmax, ?_⟩
  by_cases hbody : resp.chunks.flatten = []
  · exact .inl hbody
  refine .inr ?_
  rw [if_neg hbody] at h
  rw [Response.hasAllowedType, Bool.or_eq_true]
  split at h
  next hjson => exact .inl hjson
  next hjson =>
    split at h
    next htext => exact .inr htext
    next htext => cases h

theorem readBody_emptyOfOtherType (h : EmptyOfOtherType lib conn resp) :
    readBody lib conn resp = .ok (.obj []) := by
  unfold readBody
  have hstatus : ¬ (resp.statusCode < 200 ∨ 299 < resp.statusCode) := by
    have := h.status
    omega
  simp only [h.announced, h.empty, Bool.false_eq_true, ite_false, if_neg hstatus, List.length_nil,
    Nat.not_lt_zero, ite_true]
  rfl

/-- The promise of `get_json`: bounded, mediated, and read from a body of a limited size and an
allowed type. -/
structure Mediated (lib : Library) (conn : HttpJsonConnector) (t : List (Performed Sys))
    (res : Except LibError Json) : Prop where
  bounded : t.countP isRequest ≤ conn.maxRedirects + 1
  mediates : Mediates lib conn t
  returned : ∀ value, res = .ok value → ∃ pre url resp, t = pre ++ [request url (.ok resp)] ∧
    readBody lib conn resp = .ok value ∧ resp.chunks.flatten.length ≤ conn.maxBytes ∧
    resp.hasAllowedType lib = true

/-- An empty body of another type breaks the promise: it is returned. -/
theorem Mediated.not_emptyOfOtherType (hmed : Mediated lib conn t res)
    (h : Exec (getJson lib conn url) t res) {url' : String} (hmem : request url' (.ok resp) ∈ t) :
    ¬ EmptyOfOtherType lib conn resp := by
  intro hempty
  obtain ⟨t₁, t₂, rfl, ht₁, hrest⟩ := exec_getJson h
  rcases hrest with ⟨rfl, x, rfl⟩ | hfollowed
  · cases request_mem_append ht₁ hmem
  · have hread := hfollowed.read_of_mem (request_mem_append ht₁ hmem) hempty.final
    obtain ⟨hres, pre, rfl⟩ := hread
    have hok := hres.trans (readBody_emptyOfOtherType hempty)
    obtain ⟨pre', url'', resp', hlast, -, -, htype⟩ := hmed.returned _ hok
    rw [← List.append_assoc] at hlast
    cases (List.append_inj' hlast rfl).2
    rw [hempty.other] at htype
    cases htype

/-- **`get_json` is bounded and mediated whatever the server answers, and keeps its promise about
what it returns unless it is sent an empty body of another type.** -/
theorem mediated_iff (h : Exec (getJson lib conn url) t res) :
    Mediated lib conn t res ↔
      ∀ url resp, request url (.ok resp) ∈ t → ¬ EmptyOfOtherType lib conn resp := by
  constructor
  · intro hmed url' resp hmem
    exact hmed.not_emptyOfOtherType h hmem
  · intro hno
    obtain ⟨t₁, t₂, rfl, ht₁, hrest⟩ := exec_getJson h
    rcases hrest with ⟨rfl, x, rfl⟩ | hfollowed
    · rw [List.append_nil]
      refine ⟨?_, .of_lookups ht₁, fun value hres => ?_⟩
      · rw [countP_lookups ht₁]
        exact Nat.zero_le _
      · cases hres
    · refine ⟨?_, .lookups_append ht₁ hfollowed.mediates, ?_⟩
      · rw [List.countP_append, countP_lookups ht₁, Nat.zero_add]
        exact hfollowed.bounded
      · rintro value rfl
        obtain ⟨pre, url', resp, rfl, hfinal, hread⟩ := hfollowed.returned
        obtain ⟨hannounced, hstatus, hmax, hbody⟩ := readBody_ok hread
        have hmem : request url' (.ok resp) ∈ t₁ ++ (pre ++ [request url' (.ok resp)]) :=
          List.mem_append_right _ (List.mem_append_right _ List.mem_cons_self)
        refine ⟨t₁ ++ pre, url', resp, (List.append_assoc ..).symm, hread, hmax, ?_⟩
        rcases hbody with hempty | htype
        · cases htype : resp.hasAllowedType lib with
          | true => rfl
          | false => exact (hno url' resp hmem ⟨hfinal, hannounced, hstatus, hempty, htype⟩).elim
        · exact htype

/-- A server that answers everything alike, on a public address. -/
def serving (resp : Response) : (o : Op) → Except LibError o.Ans
  | .monotonic => .ok 0
  | .pinned _ => .ok none
  | .getaddrinfo _ => .ok ["93.184.216.34"]
  | .pin .. => .ok ()
  | .stream _ => .ok resp

def sampleGet : Proc Json := getJson rebindLibrary {} "http://rebind.example/latest"

/-- A redirect to itself is followed three times, with four requests. -/
theorem mediated_iff_redirects :
    let resp : Response :=
      { statusCode := 302, location := some "http://rebind.example/latest" }
    let run := sampleGet.play (serving resp)
    run.1.countP isRequest = 4 ∧ (Mediated rebindLibrary {} run.1 run.2 ↔
      ∀ url resp, request url (.ok resp) ∈ run.1 → ¬ EmptyOfOtherType rebindLibrary {} resp) :=
  ⟨by decide +kernel, mediated_iff (exec_play _ _)⟩

/-- **An error page without a body is returned.** -/
theorem empty_page_returned :
    let resp : Response := { statusCode := 200, contentType := some "text/html" }
    let run := sampleGet.play (serving resp)
    run.2.toOption = some (.obj []) ∧ ¬ Mediated rebindLibrary {} run.1 run.2 := by
  intro resp run
  have hempty : EmptyOfOtherType rebindLibrary {} resp := by
    constructor <;> decide
  have hmem : request "http://rebind.example/latest" (.ok resp) ∈ run.1 := by
    have hlast : run.1[8]? = some (request "http://rebind.example/latest" (.ok resp)) := by
      rfl
    exact List.mem_of_getElem? hlast
  exact ⟨rfl, fun hmed => hmed.not_emptyOfOtherType (exec_play _ _) hmem hempty⟩

end Observatory.Ssrf
