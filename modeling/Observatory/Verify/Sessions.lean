import Observatory.Verify.Auth

/-!
# Sessions

A session is worth what its login found: the token holds the id and the role, and nothing is looked
up when it is presented.  So whoever is let in has logged in with a password at most
`SESSION_TTL_SECONDS` before, as a user who was active then and had the role that the endpoint asks
for (`admitted_of_login`).  Deactivating a user, changing the role or the password, logging out:
none of it ends a session, but time does (`session_until_expiry`).

Tokens are signed: what the server reads in a token that is presented to it, it has signed itself
when it answered a login (`Unforged`).
-/

namespace Observatory.Auth

open Canonical (Str ofString)
open Config (Unicode)

variable {Token : Type} {uni : Unicode} {pbkdf2 : Pbkdf2} {jwt : Jwt Token} {s : Config.Settings}

/-! ## Runs -/

/-- What every entry of a log says: the answer is the one of the step. -/
def Logged (uni : Unicode) (pbkdf2 : Pbkdf2) (jwt : Jwt Token) (s : Config.Settings)
    (log : List (Entry Token)) : Prop :=
  ∀ x ∈ log, x.answer = (step uni pbkdf2 jwt s x.world x.event).2

theorem run_logged {w : World} {log : List (Entry Token)} {events : List (Event Token)}
    (h : Logged uni pbkdf2 jwt s log) :
    Logged uni pbkdf2 jwt s (run uni pbkdf2 jwt s w log events).2 := by
  induction events generalizing w log with
  | nil => exact h
  | cons e events ih => exact ih (List.forall_mem_cons.2 ⟨rfl, h⟩)

/-- The claims that the server reads in a token are those that it signed for an earlier login. -/
def Unforged (jwt : Jwt Token) (s : Config.Settings) : List (Entry Token) → Prop
  | [] => True
  | x :: log =>
    (∀ e token p, x.event = .request e (some token) →
      decodeSessionToken jwt s x.world.now token = .ok p →
      ∃ y ∈ log, ∃ session, y.answer = .session session ∧
        session.token = jwt.encode s.jwtSecret p) ∧
    Unforged jwt s log

theorem Unforged.suffix {new log : List (Entry Token)} (h : Unforged jwt s (new ++ log)) :
    Unforged jwt s log := by
  induction new with
  | nil => exact h
  | cons x new ih => exact ih h.2

/-! ## Logging in -/

/-- The session of `token` was opened in the world `v` for the row `u`. -/
structure Opened (uni : Unicode) (pbkdf2 : Pbkdf2) (jwt : Jwt Token) (s : Config.Settings)
    (v : World) (email password : Str) (jti : ℕ) (token : Token) (u : User) : Prop where
  mem : u ∈ v.users
  name : u.username = email
  active : u.isActive = true
  verified : verifyPassword uni pbkdf2 password u.passwordHash = true
  token : token = createSessionToken jwt s v.now jti u.id u.role s.sessionTtlSeconds

theorem opened_of_login {v : World} {email password : Str} {jti : ℕ} {session : Session Token}
    (h : login uni pbkdf2 jwt s v.users v.now jti email password = .ok (.ok session)) :
    ∃ u, Opened uni pbkdf2 jwt s v email password jti session.token u := by
  unfold login at h
  cases hfound : withName v.users email with
  | nil =>
    rw [hfound] at h
    cases h
  | cons u rest =>
    cases rest with
    | cons u' rest =>
      rw [hfound] at h
      cases h
    | nil =>
      obtain ⟨hmem, hname⟩ := List.mem_filter.1
        (hfound ▸ List.mem_singleton_self u : u ∈ withName v.users email)
      rw [hfound] at h
      simp only [scalarOneOrNone, bind, Except.bind] at h
      split_ifs at h with hbad
      · cases h
      · simp only [Bool.or_eq_true, Bool.not_eq_true', decide_eq_true_eq, not_or,
          Bool.not_eq_false] at hbad
        cases h
        exact ⟨u, hmem, of_decide_eq_true hname, hbad.1.1, hbad.2, rfl⟩

/-- Only a login opens a session. -/
theorem step_session {v : World} {event : Event Token} {session : Session Token}
    (h : (step uni pbkdf2 jwt s v event).2 = .session session) :
    ∃ email password jti u, event = .login email password jti ∧
      Opened uni pbkdf2 jwt s v email password jti session.token u := by
  cases event with
  | started id =>
    simp only [step] at h
    split at h <;> cases h
  | login email password jti =>
    simp only [step] at h
    split at h
    · cases h
    · cases h
    · next hlogin =>
      cases h
      obtain ⟨u, hu⟩ := opened_of_login hlogin
      exact ⟨email, password, jti, u, rfl, hu⟩
  | logout => cases h
  | request e creds =>
    simp only [step] at h
    split at h <;> cases h
  | edited users => cases h
  | ticked ms => cases h

/-! ## What a session is worth -/

section worth

variable {v v₀ : World} {email password : Str} {jti : ℕ} {token : Token} {u : User}

/-- The times at which the token of a login is taken. -/
structure Lasting (s : Config.Settings) (opened now : Time) : Prop where
  begun : opened / 1000 * 1000 ≤ now
  lasts : now < (opened + s.sessionTtlSeconds * 1000) / 1000 * 1000

theorem Lasting.lt {opened now : Time} (h : Lasting s opened now) :
    now < opened + s.sessionTtlSeconds * 1000 :=
  lt_of_lt_of_le h.lasts (Int.ediv_mul_le _ (by decide))

theorem decode_opened (hjwt : jwt.Documented)
    (h : Opened uni pbkdf2 jwt s v₀ email password jti token u) {now : Time} {p : Payload} :
    decodeSessionToken jwt s now token = .ok p ↔ Lasting s v₀.now now ∧
      p = { sub := u.id, role := some u.role, iat := v₀.now / 1000,
            exp := (v₀.now + s.sessionTtlSeconds * 1000) / 1000, jti := jti, iss := issuer } := by
  rw [h.token, createSessionToken, decodeSessionToken, hjwt.encoded]
  split_ifs with hearly hlate hissuer
  · constructor
    · intro herr
      cases herr
    · rintro ⟨hlasting, -⟩
      exact absurd hlasting.begun (not_le.2 hearly)
  · constructor
    · intro herr
      cases herr
    · rintro ⟨hlasting, -⟩
      exact absurd hlasting.lasts (not_lt.2 hlate)
  · exact absurd rfl hissuer
  · refine ⟨fun h => ⟨⟨not_lt.1 hearly, not_le.1 hlate⟩, (Except.ok.inj h).symm⟩, ?_⟩
    rintro ⟨-, rfl⟩
    rfl

/-- The role suffices for the endpoint. -/
structure Suffices (e : Endpoint) (role : Str) : Prop where
  operator : e.dependency = .role "operator" → role = ofString "operator" ∨ role = ofString "admin"
  admin : e.dependency = .role "admin" → role = ofString "admin"

theorem reaches_operator {role : Str} : ¬(roleOrder role).getD (-1) < 1 ↔
    role = ofString "operator" ∨ role = ofString "admin" := by
  unfold roleOrder
  by_cases hviewer : role = ofString "viewer"
  · subst hviewer
    exact iff_of_false (by decide) (by decide)
  by_cases hoperator : role = ofString "operator"
  · rw [if_neg hviewer, if_pos hoperator]
    exact iff_of_true (by decide) (.inl hoperator)
  by_cases hadmin : role = ofString "admin"
  · rw [if_neg hviewer, if_neg hoperator, if_pos hadmin]
    exact iff_of_true (by decide) (.inr hadmin)
  · rw [if_neg hviewer, if_neg hoperator, if_neg hadmin]
    exact iff_of_false (by decide) (not_or.2 ⟨hoperator, hadmin⟩)

theorem reaches_admin {role : Str} : ¬(roleOrder role).getD (-1) < 2 ↔
    role = ofString "admin" := by
  unfold roleOrder
  by_cases hviewer : role = ofString "viewer"
  · subst hviewer
    exact iff_of_false (by decide) (by decide)
  by_cases hoperator : role = ofString "operator"
  · subst hoperator
    exact iff_of_false (by decide) (by decide)
  by_cases hadmin : role = ofString "admin"
  · rw [if_neg hviewer, if_neg hoperator, if_pos hadmin]
    exact iff_of_true (by decide) hadmin
  · rw [if_neg hviewer, if_neg hoperator, if_neg hadmin]
    exact iff_of_false (by decide) hadmin

theorem requireRole_ok {minRole : String} {user x : CurrentUser} :
    requireRole minRole user = .ok x ↔
      ¬(roleOrder user.role).getD (-1) < (roleOrder (ofString minRole)).getD 0 ∧ user = x := by
  unfold requireRole
  split_ifs with hlow
  · constructor
    · intro h
      cases h
    · rintro ⟨h, -⟩
      exact absurd hlow h
  · constructor
    · intro h
      cases h
      exact ⟨hlow, rfl⟩
    · rintro ⟨-, rfl⟩
      rfl

theorem getCurrentUser_ok {now : Time} {user : CurrentUser} :
    getCurrentUser jwt s now (some token) = .ok user ↔ ∃ p,
      decodeSessionToken jwt s now token = .ok p ∧ user = ⟨p.sub, p.role.getD (ofString "viewer")⟩ := by
  simp only [getCurrentUser]
  cases hread : decodeSessionToken jwt s now token with
  | error x =>
    cases x <;> exact iff_of_false (fun h => by cases h) (by rintro ⟨p, h, -⟩; cases h)
  | ok p =>
    constructor
    · intro h
      cases h
      exact ⟨p, rfl, rfl⟩
    · rintro ⟨p', h, rfl⟩
      cases h
      rfl

theorem streamUser_ok {now : Time} {user : CurrentUser} :
    streamUser jwt s now (some token) = .ok user ↔ ∃ p,
      decodeSessionToken jwt s now token = .ok p ∧ user = ⟨p.sub, p.role.getD (ofString "viewer")⟩ := by
  simp only [streamUser]
  cases hread : decodeSessionToken jwt s now token with
  | error x => exact iff_of_false (fun h => by cases h) (by rintro ⟨p, h, -⟩; cases h)
  | ok p =>
    constructor
    · intro h
      cases h
      exact ⟨p, rfl, rfl⟩
    · rintro ⟨p', h, rfl⟩
      cases h
      rfl

theorem exists_opened (hjwt : jwt.Documented)
    (h : Opened uni pbkdf2 jwt s v₀ email password jti token u) {now : Time} {user : CurrentUser} :
    (∃ p, decodeSessionToken jwt s now token = .ok p ∧
      user = ⟨p.sub, p.role.getD (ofString "viewer")⟩) ↔
      Lasting s v₀.now now ∧ user = ⟨u.id, u.role⟩ := by
  constructor
  · rintro ⟨p, hread, rfl⟩
    obtain ⟨hlasting, rfl⟩ := (decode_opened hjwt h).1 hread
    exact ⟨hlasting, rfl⟩
  · rintro ⟨hlasting, rfl⟩
    exact ⟨_, (decode_opened hjwt h).2 ⟨hlasting, rfl⟩, rfl⟩

theorem dependency_cases (e : Endpoint) : e.dependency = .anyone ∨ e.dependency = .currentUser ∨
    e.dependency = .bearer ∨ e.dependency = .role "operator" ∨ e.dependency = .role "admin" := by
  cases e <;> decide

theorem map_some_eq_ok {ε α : Type} {x : Except ε α} {a : α} {P : Prop}
    (h : ∀ y, x = .ok y ↔ P ∧ y = a) {y : Option α} : x.map some = .ok y ↔ P ∧ y = some a := by
  cases x with
  | error e =>
    constructor
    · intro hok
      cases hok
    · rintro ⟨hP, -⟩
      cases (h a).2 ⟨hP, rfl⟩
  | ok b =>
    obtain ⟨hP, rfl⟩ := (h b).1 rfl
    constructor
    · intro hok
      cases hok
      exact ⟨hP, rfl⟩
    · rintro ⟨-, rfl⟩
      rfl

theorem bind_requireRole {P : Prop} {x : Except HttpException CurrentUser} {a : CurrentUser}
    (h : ∀ y, x = .ok y ↔ P ∧ y = a) {minRole : String} (y : CurrentUser) :
    x.bind (requireRole minRole) = .ok y ↔
      (P ∧ ¬(roleOrder a.role).getD (-1) < (roleOrder (ofString minRole)).getD 0) ∧ y = a := by
  cases x with
  | error e =>
    constructor
    · intro hok
      cases hok
    · rintro ⟨⟨hP, -⟩, -⟩
      cases (h a).2 ⟨hP, rfl⟩
  | ok b =>
    obtain ⟨hP, rfl⟩ := (h b).1 rfl
    refine requireRole_ok.trans ⟨fun hok => ⟨⟨hP, hok.1⟩, hok.2.symm⟩, fun hok => ?_⟩
    exact ⟨hok.1.2, hok.2.symm⟩

/-- **Who is let in** to an endpoint that asks for a session. -/
theorem admit_opened (hjwt : jwt.Documented)
    (h : Opened uni pbkdf2 jwt s v₀ email password jti token u) {e : Endpoint}
    (he : e.dependency ≠ .anyone) {now : Time} {user : Option CurrentUser} :
    authorize jwt s now e (some token) = .ok user ↔
      (Lasting s v₀.now now ∧ Suffices e u.role) ∧ user = some ⟨u.id, u.role⟩ := by
  have hcurrent : ∀ y, getCurrentUser jwt s now (some token) = .ok y ↔
      Lasting s v₀.now now ∧ y = ⟨u.id, u.role⟩ := fun y =>
    getCurrentUser_ok.trans (exists_opened hjwt h)
  have hstream : ∀ y, streamUser jwt s now (some token) = .ok y ↔
      Lasting s v₀.now now ∧ y = ⟨u.id, u.role⟩ := fun y =>
    streamUser_ok.trans (exists_opened hjwt h)
  unfold authorize
  rcases dependency_cases e with hdep | hdep | hdep | hdep | hdep
  · exact absurd hdep he
  · have hany : Suffices e u.role := ⟨fun h => by simp [hdep] at h, fun h => by simp [hdep] at h⟩
    rw [hdep, and_iff_left hany]
    exact map_some_eq_ok hcurrent
  · have hany : Suffices e u.role := ⟨fun h => by simp [hdep] at h, fun h => by simp [hdep] at h⟩
    rw [hdep, and_iff_left hany]
    exact map_some_eq_ok hstream
  · have hrole : Suffices e u.role ↔ ¬(roleOrder u.role).getD (-1) <
        (roleOrder (ofString "operator")).getD 0 := by
      refine Iff.trans ?_ reaches_operator.symm
      exact ⟨fun h => h.operator hdep, fun h => ⟨fun _ => h, fun h => by simp [hdep] at h⟩⟩
    rw [hdep, hrole]
    exact map_some_eq_ok (bind_requireRole hcurrent)
  · have hrole : Suffices e u.role ↔ ¬(roleOrder u.role).getD (-1) <
        (roleOrder (ofString "admin")).getD 0 := by
      refine Iff.trans ?_ reaches_admin.symm
      exact ⟨fun h => h.admin hdep, fun h => ⟨fun h => by simp [hdep] at h, fun _ => h⟩⟩
    rw [hdep, hrole]
    exact map_some_eq_ok (bind_requireRole hcurrent)

/-- A token counts for what is read in it. -/
theorem authorize_congr {e : Endpoint} {now : Time} {token' : Token}
    (h : decodeSessionToken jwt s now token = decodeSessionToken jwt s now token') :
    authorize jwt s now e (some token) = authorize jwt s now e (some token') := by
  have hcurrent : getCurrentUser jwt s now (some token) = getCurrentUser jwt s now (some token') := by
    simp only [getCurrentUser, h]
  have hstream : streamUser jwt s now (some token) = streamUser jwt s now (some token') := by
    simp only [streamUser, h]
  simp only [authorize, hcurrent, hstream]

/-- Who is let in as somebody has presented a token that could be read. -/
theorem read_of_admit {e : Endpoint} {now : Time} {creds : Option Token} {user : CurrentUser}
    (h : authorize jwt s now e creds = .ok (some user)) : e.dependency ≠ .anyone ∧
      ∃ token p, creds = some token ∧ decodeSessionToken jwt s now token = .ok p := by
  have hfail : ∀ {x x'}, getCurrentUser jwt s now creds = .error x →
      streamUser jwt s now creds = .error x' → False := by
    intro x x' hx hx'
    unfold authorize at h
    rcases dependency_cases e with hdep | hdep | hdep | hdep | hdep
    · rw [hdep] at h
      cases h
    · rw [hdep, hx] at h
      cases h
    · rw [hdep, hx'] at h
      cases h
    · rw [hdep, hx] at h
      cases h
    · rw [hdep, hx] at h
      cases h
  refine ⟨fun hdep => ?_, ?_⟩
  · unfold authorize at h
    rw [hdep] at h
    cases h
  · cases creds with
    | none => exact (hfail rfl rfl).elim
    | some token =>
      cases hread : decodeSessionToken jwt s now token with
      | ok p => exact ⟨token, p, rfl, hread⟩
      | error x =>
        have hstream : streamUser jwt s now (some token) =
            .error ⟨401, "geçersiz session token"⟩ := by
          simp only [streamUser, hread]
        cases x with
        | expired =>
          refine (hfail (x := ⟨401, "session süresi doldu"⟩) ?_ hstream).elim
          simp only [getCurrentUser, hread]
        | invalid =>
          refine (hfail (x := ⟨401, "geçersiz session token"⟩) ?_ hstream).elim
          simp only [getCurrentUser, hread]

end worth

/-! ## Sessions over a run -/

section run

variable {w : World} {events : List (Event Token)} {log : List (Entry Token)}

theorem admit_of_logged {x : Entry Token} (hlog : Logged uni pbkdf2 jwt s log) (hx : x ∈ log)
    {e : Endpoint} {creds : Option Token} (hevent : x.event = .request e creds)
    (user : Option CurrentUser) :
    x.answer = .admitted user ↔ authorize jwt s x.world.now e creds = .ok user := by
  rw [hlog x hx, hevent]
  simp only [step]
  cases hadmit : authorize jwt s x.world.now e creds with
  | error y => exact iff_of_false (fun h => by cases h) (fun h => by cases h)
  | ok y =>
    constructor
    · intro h
      cases h
      rfl
    · intro h
      cases h
      rfl

theorem opened_of_logged {x : Entry Token} (hlog : Logged uni pbkdf2 jwt s log) (hx : x ∈ log)
    {session : Session Token} (hanswer : x.answer = .session session) :
    ∃ email password jti u, x.event = .login email password jti ∧
      Opened uni pbkdf2 jwt s x.world email password jti session.token u :=
  step_session ((hlog x hx).symm.trans hanswer)

/-- A request that is let in has an earlier login. -/
theorem login_of_admitted (hjwt : jwt.Documented)
    (hforge : Unforged jwt s (run uni pbkdf2 jwt s w [] events).2) {new log : List (Entry Token)}
    {v : World} {e : Endpoint} {creds : Option Token} {user : CurrentUser}
    (hrun : (run uni pbkdf2 jwt s w [] events).2 =
      new ++ ⟨v, .request e creds, .admitted (some user)⟩ :: log) :
    ∃ v₀ email password jti session u,
      ⟨v₀, .login email password jti, .session session⟩ ∈ log ∧
        (∃ token p, creds = some token ∧ decodeSessionToken jwt s v.now token = .ok p ∧
          decodeSessionToken jwt s v.now session.token = .ok p) ∧
        Opened uni pbkdf2 jwt s v₀ email password jti session.token u ∧ user = ⟨u.id, u.role⟩ ∧
        Suffices e u.role ∧ Lasting s v₀.now v.now := by
  have hlogged : Logged uni pbkdf2 jwt s (run uni pbkdf2 jwt s w [] events).2 :=
    run_logged fun x hx => absurd hx List.not_mem_nil
  rw [hrun] at hlogged hforge
  have hadmit : authorize jwt s v.now e creds = .ok (some user) :=
    (admit_of_logged hlogged (List.mem_append_right new List.mem_cons_self) rfl _).1 rfl
  obtain ⟨hne, token, p, rfl, hread⟩ := read_of_admit hadmit
  obtain ⟨y, hy, session, hanswer, htoken⟩ := hforge.suffix.1 e token p rfl hread
  obtain ⟨email, password, jti, u, hevent, hopen⟩ := opened_of_logged hlogged
    (List.mem_append_right new (List.mem_cons_of_mem _ hy)) hanswer
  -- the token of that login is read as the one that is presented
  have hsame : decodeSessionToken jwt s v.now session.token = .ok p := by
    rw [htoken]
    exact hjwt.decode_encode hread
  rw [authorize_congr (hread.trans hsame.symm)] at hadmit
  obtain ⟨⟨hlasting, hrole⟩, huser⟩ := (admit_opened hjwt hopen hne).1 hadmit
  refine ⟨y.world, email, password, jti, session, u, ?_, ⟨token, p, rfl, hread, hsame⟩, hopen,
    Option.some.inj huser, hrole, hlasting⟩
  rw [← hevent, ← hanswer]
  exact hy

/-- **Nobody gets in without a login.**  A request that is let in as `user` shows the claims of an
earlier login, less than `SESSION_TTL_SECONDS` old; the password was right, the row was active, and
its role then is enough for the endpoint. -/
theorem admitted_of_login (hjwt : jwt.Documented)
    (hforge : Unforged jwt s (run uni pbkdf2 jwt s w [] events).2) {new log : List (Entry Token)}
    {v : World} {e : Endpoint} {creds : Option Token} {user : CurrentUser}
    (hrun : (run uni pbkdf2 jwt s w [] events).2 =
      new ++ ⟨v, .request e creds, .admitted (some user)⟩ :: log) :
    ∃ v₀ email password jti session u,
      ⟨v₀, .login email password jti, .session session⟩ ∈ log ∧
        (∃ token p, creds = some token ∧ decodeSessionToken jwt s v.now token = .ok p ∧
          decodeSessionToken jwt s v.now session.token = .ok p) ∧
        u ∈ v₀.users ∧ u.username = email ∧ u.isActive = true ∧
        verifyPassword uni pbkdf2 password u.passwordHash = true ∧
        user = ⟨u.id, u.role⟩ ∧ Suffices e u.role ∧
        v₀.now / 1000 * 1000 ≤ v.now ∧ v.now < v₀.now + s.sessionTtlSeconds * 1000 := by
  obtain ⟨v₀, email, password, jti, session, u, hlogin, hcreds, hopen, huser, hrole, hlasting⟩ :=
    login_of_admitted hjwt hforge hrun
  exact ⟨v₀, email, password, jti, session, u, hlogin, hcreds, hopen.mem, hopen.name,
    hopen.active, hopen.verified, huser, hrole, hlasting.begun, hlasting.lt⟩

/-- **A session ends with time only.**  Whatever has become of its user since, a token is taken
from the second of its login until its lifetime is over, wherever the role it was opened with
suffices.  So a user whom nobody finds active from `t₀` on is out `SESSION_TTL_SECONDS` later. -/
theorem session_until_expiry (hjwt : jwt.Documented)
    (hforge : Unforged jwt s (run uni pbkdf2 jwt s w [] events).2) :
    (∀ y ∈ (run uni pbkdf2 jwt s w [] events).2, ∀ session, y.answer = .session session →
      ∃ u ∈ y.world.users, u.isActive = true ∧
        ∀ x ∈ (run uni pbkdf2 jwt s w [] events).2, ∀ e,
          x.event = .request e (some session.token) → e.dependency ≠ .anyone →
          (x.answer = .admitted (some ⟨u.id, u.role⟩) ↔
            Lasting s y.world.now x.world.now ∧ Suffices e u.role)) ∧
    ∀ t₀ userId, (∀ x ∈ (run uni pbkdf2 jwt s w [] events).2, t₀ ≤ x.world.now →
        ∀ u ∈ x.world.users, u.id = userId → u.isActive = false) →
      ∀ x ∈ (run uni pbkdf2 jwt s w [] events).2, ∀ e creds user,
        x.event = .request e creds → x.answer = .admitted (some user) → user.userId = userId →
        x.world.now < t₀ + s.sessionTtlSeconds * 1000 := by
  have hlogged : Logged uni pbkdf2 jwt s (run uni pbkdf2 jwt s w [] events).2 :=
    run_logged fun x hx => absurd hx List.not_mem_nil
  refine ⟨fun y hy session hanswer => ?_, fun t₀ userId hout x hx e creds user hevent hanswer hid => ?_⟩
  · obtain ⟨email, password, jti, u, -, hopen⟩ := opened_of_logged hlogged hy hanswer
    refine ⟨u, hopen.mem, hopen.active, fun x hx e hevent hne => ?_⟩
    rw [admit_of_logged hlogged hx hevent, admit_opened hjwt hopen hne]
    exact and_iff_left rfl
  · obtain ⟨new, old, hsplit⟩ := List.append_of_mem hx
    have hentry : (⟨x.world, .request e creds, .admitted (some user)⟩ : Entry Token) = x := by
      rw [← hevent, ← hanswer]
    obtain ⟨v₀, email, password, jti, session, u, hlogin, -, hopen, huser, -, hlasting⟩ :=
      login_of_admitted hjwt hforge (hsplit.trans (by rw [hentry]))
    rw [huser] at hid
    -- the login was before `t₀`, since it found the row active
    have hbefore : v₀.now < t₀ := by
      by_contra hlate
      have hmem : (⟨v₀, .login email password jti, .session session⟩ : Entry Token) ∈
          (run uni pbkdf2 jwt s w [] events).2 := by
        rw [hsplit]
        exact List.mem_append_right new (List.mem_cons_of_mem _ hlogin)
      have hinactive := hout _ hmem (not_lt.1 hlate) u hopen.mem hid
      rw [hopen.active] at hinactive
      cases hinactive
    exact hlasting.lt.trans (Int.add_lt_add_right hbefore _)

end run

/-! ## One day of a server -/

section sample

/-- The administrator of the row 7. -/
def sampleUser : User :=
  { id := 7, username := ofString "admin@example.com", displayName := ofString "Admin",
    passwordHash := sampleSettings.adminPasswordHash }

def sampleToken : Str × Payload :=
  createSessionToken sampleJwt sampleSettings 1700000000000 42 7 (ofString "admin")
    sampleSettings.sessionTtlSeconds

def sampleSession : Session (Str × Payload) where
  token := sampleToken
  role := ofString "admin"
  email := ofString "admin@example.com"
  displayName := ofString "Admin"

/-- The administrator logs in, is removed, and goes on working. -/
def sampleEvents : List (Event (Str × Payload)) :=
  [.started 7, .login (ofString "admin@example.com") samplePassword 42, .edited sampleUsers,
    .request .createTask (some sampleToken)]

def sampleLog : List (Entry (Str × Payload)) :=
  [⟨⟨sampleUsers, 1700000000000⟩, .request .createTask (some sampleToken),
      .admitted (some ⟨7, ofString "admin"⟩)⟩,
    ⟨⟨seededUsers, 1700000000000⟩, .edited sampleUsers, .none⟩,
    ⟨⟨seededUsers, 1700000000000⟩, .login (ofString "admin@example.com") samplePassword 42,
      .session sampleSession⟩,
    ⟨⟨sampleUsers, 1700000000000⟩, .started 7, .none⟩]

theorem login_sample : login Config.asciiUnicode samplePbkdf2 sampleJwt sampleSettings seededUsers
    1700000000000 42 (ofString "admin@example.com") samplePassword = .ok (.ok sampleSession) := by
  have hone : withName seededUsers (ofString "admin@example.com") = [sampleUser] := by
    have hnone : withName sampleUsers (ofString "admin@example.com") = [] := by decide
    rw [seededUsers, withName, List.filter_append, List.filter_cons_of_pos (by decide)]
    exact congrArg (· ++ _) hnone
  have hsame : sampleUser.passwordHash = sampleSettings.adminPasswordHash := by
    rw [sampleUser]
  have hverify : verifyPassword Config.asciiUnicode samplePbkdf2 samplePassword
      sampleUser.passwordHash = true := by
    rw [hsame]
    obtain ⟨bytes, hbytes⟩ := Option.isSome_iff_exists.1
      (show (Canonical.encodeUtf8 samplePassword).isSome by decide +kernel)
    have hkey : samplePbkdf2 bytes sampleSalt iterations = some sampleKey :=
      if_pos ⟨hbytes, rfl, rfl⟩
    exact (verifyPassword_iff hashPassword_sample).2 ⟨bytes, bytes, _, hbytes, hbytes, hkey, hkey⟩
  have hash : decide (sampleUser.passwordHash = []) = false := by decide +kernel
  unfold login
  simp only [hone, scalarOneOrNone, bind, Except.bind, hverify, hash]
  rfl

theorem run_sample : (run Config.asciiUnicode samplePbkdf2 sampleJwt sampleSettings
    ⟨sampleUsers, 1700000000000⟩ [] sampleEvents).2 = sampleLog := by
  have hadmit : authorize sampleJwt sampleSettings 1700000000000 .createTask (some sampleToken) =
      .ok (some ⟨7, ofString "admin"⟩) := by rfl
  simp only [sampleEvents, run, step, lifespan_sample, login_sample, hadmit]
  rfl

theorem unforged_sample : Unforged sampleJwt sampleSettings
    (run Config.asciiUnicode samplePbkdf2 sampleJwt sampleSettings
      ⟨sampleUsers, 1700000000000⟩ [] sampleEvents).2 := by
  rw [run_sample]
  refine ⟨fun e token p h hread => ?_, fun e token p h => ?_, fun e token p h => ?_,
    fun e token p h => ?_, trivial⟩
  on_goal 2 => cases h
  on_goal 2 => cases h
  on_goal 2 => cases h
  have htoken : sampleToken = token := Option.some.inj (Event.request.inj h).2
  have hsigned : sampleToken = sampleJwt.encode sampleSettings.jwtSecret p := by
    subst htoken
    cases hread
    rfl
  exact ⟨_, List.mem_cons_of_mem _ List.mem_cons_self, sampleSession, rfl, hsigned⟩

theorem admitted_of_login_sample : ∃ v₀ email password jti session u,
    ⟨v₀, .login email password jti, .session session⟩ ∈ sampleLog.tail ∧
      (∃ token p, some sampleToken = some token ∧
        decodeSessionToken sampleJwt sampleSettings 1700000000000 token = .ok p ∧
        decodeSessionToken sampleJwt sampleSettings 1700000000000 session.token = .ok p) ∧
      u ∈ v₀.users ∧ u.username = email ∧ u.isActive = true ∧
      verifyPassword Config.asciiUnicode samplePbkdf2 password u.passwordHash = true ∧
      (⟨7, ofString "admin"⟩ : CurrentUser) = ⟨u.id, u.role⟩ ∧ Suffices .createTask u.role ∧
      v₀.now / 1000 * 1000 ≤ 1700000000000 ∧
      1700000000000 < v₀.now + sampleSettings.sessionTtlSeconds * 1000 :=
  admitted_of_login sampleJwt_documented unforged_sample
    (run_sample.trans (List.nil_append sampleLog).symm)

theorem session_until_expiry_sample :
    (∀ y ∈ sampleLog, ∀ session, y.answer = .session session →
      ∃ u ∈ y.world.users, u.isActive = true ∧
        ∀ x ∈ sampleLog, ∀ e, x.event = .request e (some session.token) →
          e.dependency ≠ .anyone →
          (x.answer = .admitted (some ⟨u.id, u.role⟩) ↔
            Lasting sampleSettings y.world.now x.world.now ∧ Suffices e u.role)) ∧
    ∀ t₀ userId, (∀ x ∈ sampleLog, t₀ ≤ x.world.now →
        ∀ u ∈ x.world.users, u.id = userId → u.isActive = false) →
      ∀ x ∈ sampleLog, ∀ e creds user,
        x.event = .request e creds → x.answer = .admitted (some user) → user.userId = userId →
        x.world.now < t₀ + sampleSettings.sessionTtlSeconds * 1000 := by
  have h := session_until_expiry sampleJwt_documented unforged_sample
  rw [run_sample] at h
  exact h

end sample

end Observatory.Auth
