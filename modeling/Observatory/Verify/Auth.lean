import Observatory.Model.Auth
import Observatory.Verify.Settings

/-!
# Passwords

A stored hash names its own salt and its own number of iterations, so what `hash_password` writes
can be read back (`verifyPassword_iff`): a password is accepted if and only if it derives the same
key.
The administrator that a starting process finds or makes can therefore log in with the configured
password, unless the row has been deactivated (`lifespan_login`).
-/

namespace Observatory.Auth

open Canonical (Str CodePoint ofChar ofString)
open Config (Unicode)
open Technocore (Bytes)

/-! ## Bytes as text -/

theorem hexChar_spec : ∀ d < 16, hexValue (hexChar d) = some d ∧
    isAsciiSpace (hexChar d) = false ∧ hexChar d ≠ dollar := by decide

/-- **`bytes.fromhex` undoes `hex`.** -/
theorem fromHex_hex (bs : Bytes) : fromHex (hex bs) = some bs := by
  induction bs with
  | nil => rfl
  | cons b bs ih =>
    have hlt : b.toNat < 256 := b.toNat_lt
    obtain ⟨hhi, hspace, -⟩ := hexChar_spec (b.toNat / 16) (by omega)
    obtain ⟨hlo, -, -⟩ := hexChar_spec (b.toNat % 16) (by omega)
    have hbyte : UInt8.ofNat (16 * (b.toNat / 16) + b.toNat % 16) = b := by
      rw [Nat.div_add_mod, UInt8.ofNat_toNat]
    change fromHex (hexChar (b.toNat / 16) :: hexChar (b.toNat % 16) :: hex bs) = some (b :: bs)
    simp only [fromHex, hspace, Bool.false_eq_true, if_false, hhi, hlo, ih, hbyte,
      Option.bind_eq_bind, Option.bind_some, Option.pure_def]

theorem dollar_notMem_hex (bs : Bytes) : dollar ∉ hex bs := by
  intro hmem
  obtain ⟨b, -, hb⟩ := List.mem_flatMap.1 hmem
  have hlt : b.toNat < 256 := b.toNat_lt
  rcases List.mem_pair.1 hb with h | h
  · exact (hexChar_spec (b.toNat / 16) (by omega)).2.2 h.symm
  · exact (hexChar_spec (b.toNat % 16) (by omega)).2.2 h.symm

/-! ## Passwords -/

section password

variable {uni : Unicode} {pbkdf2 : Pbkdf2} {p q stored : Str} {salt : Bytes}

/-- The parts of a hash. -/
theorem split_hashed {saltHex dkHex : Str} (hsalt : dollar ∉ saltHex) (hdk : dollar ∉ dkHex) :
    (ofString "pbkdf2_sha256" ++ dollar :: (Technocore.str iterations ++ dollar ::
      (saltHex ++ dollar :: dkHex))).splitOn dollar =
      [ofString "pbkdf2_sha256", Technocore.str iterations, saltHex, dkHex] := by
  have hjoin : ofString "pbkdf2_sha256" ++ dollar :: (Technocore.str iterations ++ dollar ::
      (saltHex ++ dollar :: dkHex)) = [dollar].intercalate
        [ofString "pbkdf2_sha256", Technocore.str iterations, saltHex, dkHex] := by
    simp only [List.intercalate_cons_cons, List.intercalate_singleton, List.append_assoc,
      List.singleton_append]
  rw [hjoin]
  refine List.splitOn_intercalate dollar (fun l hl => ?_) (List.cons_ne_nil _ _)
  simp only [List.mem_cons, List.not_mem_nil, or_false] at hl
  rcases hl with rfl | rfl | rfl | rfl
  · decide
  · decide
  · exact hsalt
  · exact hdk

/-- **A password is accepted if and only if it derives the key of the one that was stored.** -/
theorem verifyPassword_iff (h : hashPassword pbkdf2 p salt = some stored) :
    verifyPassword uni pbkdf2 q stored = true ↔ ∃ bytes bytes' dk,
      Canonical.encodeUtf8 p = some bytes ∧ Canonical.encodeUtf8 q = some bytes' ∧
        pbkdf2 bytes salt iterations = some dk ∧ pbkdf2 bytes' salt iterations = some dk := by
  simp only [hashPassword, Option.bind_eq_bind, Option.bind_eq_some_iff, Option.pure_def,
    Option.some.injEq] at h
  obtain ⟨bytes, hbytes, dk, hdk, rfl⟩ := h
  have hiters : uni.int (Technocore.str iterations) = some iterations :=
    Config.int_str (by decide)
  rw [verifyPassword, split_hashed (dollar_notMem_hex salt) (dollar_notMem_hex dk)]
  simp only [derive, fromHex_hex, hiters, Option.bind_eq_bind, Option.bind_some, Option.pure_def,
    decide_eq_true_eq, Option.bind_eq_some_iff, Option.some.injEq]
  constructor
  · rintro ⟨bytes', hbytes', dk', hdk', heq⟩
    have hsame : dk' = dk := by
      have := congrArg fromHex heq
      rwa [fromHex_hex, fromHex_hex, Option.some.injEq] at this
    subst hsame
    exact ⟨bytes, bytes', dk', hbytes, hbytes', hdk, hdk'⟩
  · rintro ⟨b, bytes', dk', hb, hbytes', hdk₁, hdk'⟩
    rw [hbytes, Option.some.injEq] at hb
    subst hb
    rw [hdk, Option.some.injEq] at hdk₁
    subst hdk₁
    exact ⟨bytes', hbytes', dk, hdk', rfl⟩

end password

/-! ## The administrator -/

section lifespan

variable {Token : Type} {uni : Unicode} {pbkdf2 : Pbkdf2} {jwt : Jwt Token} {s : Config.Settings}
  {users users' : List User} {id : UserId} {u : User}

/-- The rows of the table: two rows differ in their ids and in their names. -/
structure Keyed (users : List User) : Prop where
  ids : (users.map User.id).Nodup
  names : (users.map User.username).Nodup

theorem withName_eq_of_mem (h : (users.map User.username).Nodup) (hu : u ∈ users) :
    withName users u.username = [u] := by
  induction users with
  | nil => cases hu
  | cons x users ih =>
    obtain ⟨hx, hrest⟩ := List.nodup_cons.1 h
    rcases List.mem_cons.1 hu with rfl | hu
    · have hnone : withName users u.username = [] := by
        refine List.filter_eq_nil_iff.2 fun y hy heq => hx ?_
        exact List.mem_map.2 ⟨y, hy, of_decide_eq_true heq⟩
      rw [withName, List.filter_cons_of_pos (by simp)]
      exact congrArg (u :: ·) hnone
    · have hne : x.username ≠ u.username := fun heq =>
        hx (List.mem_map.2 ⟨u, hu, heq.symm⟩)
      rw [withName, List.filter_cons_of_neg (by simpa using hne)]
      exact ih hrest hu

theorem withName_cases (h : (users.map User.username).Nodup) (name : Str) :
    withName users name = [] ∨ ∃ u ∈ users, u.username = name ∧ withName users name = [u] := by
  cases hfound : withName users name with
  | nil => exact .inl rfl
  | cons u rest =>
    have hu : u ∈ withName users name := hfound ▸ List.mem_cons_self
    obtain ⟨hmem, hname⟩ := List.mem_filter.1 hu
    have hname : u.username = name := of_decide_eq_true hname
    have hone := withName_eq_of_mem h hmem
    rw [hname, hfound] at hone
    exact .inr ⟨u, hmem, hname, hone⟩

/-- The row of the administrator after a start. -/
def seeded (s : Config.Settings) (u : User) : User := { u with passwordHash := s.adminPasswordHash }

/-- What a start does to the rows. -/
inductive Seeded (s : Config.Settings) (users : List User) (id : UserId) : List User → Prop where
  | off (hash : s.adminPasswordHash = []) : Seeded s users id users
  | added (absent : withName users s.adminEmail = []) : Seeded s users id
      (users ++ [{ id, username := s.adminEmail, displayName := ofString "Admin",
                   passwordHash := s.adminPasswordHash }])
  | renewed (u : User) (mem : u ∈ users) (name : u.username = s.adminEmail) :
      Seeded s users id (users.map fun x => if x.id = u.id then seeded s x else x)

theorem Keyed.eq_of_id (hkey : Keyed users) {x : User} (hx : x ∈ users) (hu : u ∈ users)
    (h : x.id = u.id) : x = u :=
  List.inj_on_of_nodup_map hkey.ids hx hu h

/-- **What a start comes to.** -/
theorem seeded_of_lifespan (hkey : Keyed users) (h : lifespan s users id = .ok users') :
    Seeded s users id users' := by
  unfold lifespan at h
  cases hvalid : s.validateProduction with
  | error x =>
    rw [hvalid] at h
    cases h
  | ok valid =>
    rw [hvalid] at h
    by_cases hash : s.adminPasswordHash = []
    · simp only [bind, Except.bind, if_pos hash] at h
      cases h
      exact .off hash
    rcases withName_cases hkey.names s.adminEmail with hnone | ⟨u, hu, hname, hone⟩
    · simp only [bind, Except.bind, if_neg hash, hnone, scalarOneOrNone] at h
      cases h
      exact .added hnone
    · have hrenewed : users' = users.map fun x => if x.id = u.id then seeded s x else x := by
        simp only [bind, Except.bind, if_neg hash, hone, scalarOneOrNone] at h
        split_ifs at h with hsame
        · cases h
          rfl
        · cases h
          -- the row has the hash already
          refine ((List.map_congr_left fun x hx => ?_).trans (List.map_id' _)).symm
          by_cases hid : x.id = u.id
          · rw [if_pos hid, hkey.eq_of_id hx hu hid, seeded, ← not_not.1 hsame]
          · rw [if_neg hid]
      exact hrenewed ▸ .renewed u hu hname

theorem withName_renewed (name : Str) :
    withName (users.map fun x => if x.id = u.id then seeded s x else x) name =
      (withName users name).map fun x => if x.id = u.id then seeded s x else x := by
  have hname : ∀ x : User, (if x.id = u.id then seeded s x else x).username = x.username := by
    intro x
    split <;> rfl
  rw [withName, List.filter_map]
  refine congrArg _ (List.filter_congr fun x _ => ?_)
  rw [Function.comp_apply, hname]

/-- The other rows stay. -/
theorem Seeded.others (hkey : Keyed users) (h : Seeded s users id users') {name : Str}
    (hname : name ≠ s.adminEmail) : withName users' name = withName users name := by
  cases h with
  | off hash => rfl
  | added absent =>
    rw [withName, List.filter_append, List.filter_cons_of_neg (by simpa using hname.symm),
      List.filter_nil, List.append_nil, withName]
  | renewed u hu hu' =>
    rw [withName_renewed]
    refine (List.map_congr_left fun x hx => ?_).trans (List.map_id' _)
    obtain ⟨hmem, hx⟩ := List.mem_filter.1 hx
    refine if_neg fun hid => hname ?_
    rw [← hu', ← hkey.eq_of_id hmem hu hid, of_decide_eq_true hx]

/-- The administrator has the configured hash. -/
theorem Seeded.admin (hkey : Keyed users) (h : Seeded s users id users')
    (hash : s.adminPasswordHash ≠ []) : ∃ u, withName users' s.adminEmail = [u] ∧
      u.passwordHash = s.adminPasswordHash ∧
      ∀ u₀ ∈ withName users s.adminEmail, u = seeded s u₀ := by
  cases h with
  | off h => exact absurd h hash
  | added absent =>
    refine ⟨{ id, username := s.adminEmail, displayName := ofString "Admin",
              passwordHash := s.adminPasswordHash }, ?_, rfl, fun u₀ hu₀ => ?_⟩
    · rw [withName, List.filter_append, List.filter_cons_of_pos (by simp), List.filter_nil]
      exact congrArg (· ++ _) absent
    · rw [absent] at hu₀
      cases hu₀
  | renewed u hu hname =>
    have hone : withName users s.adminEmail = [u] := hname ▸ withName_eq_of_mem hkey.names hu
    refine ⟨seeded s u, ?_, rfl, fun u₀ hu₀ => ?_⟩
    · rw [withName_renewed, hone, List.map_singleton, if_pos rfl]
    · rw [hone, List.mem_singleton] at hu₀
      rw [hu₀]

theorem Seeded.keyed (hkey : Keyed users) (h : Seeded s users id users')
    (hid : ∀ u ∈ users, u.id ≠ id) : Keyed users' := by
  cases h with
  | off hash => exact hkey
  | added absent =>
    refine ⟨?_, ?_⟩
    · rw [List.map_append, List.nodup_append]
      refine ⟨hkey.ids, List.nodup_singleton _, ?_⟩
      intro x hx y hy
      obtain ⟨u, hu, rfl⟩ := List.mem_map.1 hx
      rw [List.mem_singleton.1 hy]
      exact hid u hu
    · rw [List.map_append, List.nodup_append]
      refine ⟨hkey.names, List.nodup_singleton _, ?_⟩
      intro x hx y hy
      obtain ⟨u, hu, rfl⟩ := List.mem_map.1 hx
      rw [List.mem_singleton.1 hy]
      intro heq
      have hmem : u ∈ withName users s.adminEmail :=
        List.mem_filter.2 ⟨hu, decide_eq_true heq⟩
      rw [absent] at hmem
      cases hmem
  | renewed u hu hname =>
    have hsame : ∀ (f : User → ℕ × Str), (∀ x, f (seeded s x) = f x) →
        (users.map fun x => if x.id = u.id then seeded s x else x).map f = users.map f := by
      intro f hf
      rw [List.map_map]
      refine List.map_congr_left fun x _ => ?_
      rw [Function.comp_apply]
      split
      · exact hf x
      · rfl
    have hboth := hsame (fun x => (x.id, x.username)) fun x => rfl
    have hids := congrArg (List.map Prod.fst) hboth
    have hnames := congrArg (List.map Prod.snd) hboth
    simp only [List.map_map] at hids hnames
    refine ⟨?_, ?_⟩
    · rw [List.map_map]
      exact hids ▸ hkey.ids
    · rw [List.map_map]
      exact hnames ▸ hkey.names

/-- A login where there is one row of the name. -/
theorem login_of_one {now : Time} {jti : ℕ} {email password : Str}
    (hone : withName users email = [u]) :
    (∃ session, login uni pbkdf2 jwt s users now jti email password = .ok (.ok session)) ↔
      u.isActive = true ∧ u.passwordHash ≠ [] ∧
        verifyPassword uni pbkdf2 password u.passwordHash = true := by
  unfold login
  rw [hone]
  simp only [scalarOneOrNone, bind, Except.bind]
  by_cases hbad : (!u.isActive || decide (u.passwordHash = []) ||
      !verifyPassword uni pbkdf2 password u.passwordHash) = true
  · rw [if_pos hbad]
    simp only [Bool.or_eq_true, Bool.not_eq_true', decide_eq_true_eq] at hbad
    constructor
    · rintro ⟨session, h⟩
      cases h
    · rintro ⟨hactive, hne, hverify⟩
      rcases hbad with (h | h) | h
      · rw [h] at hactive
        cases hactive
      · exact absurd h hne
      · rw [h] at hverify
        cases hverify
  · rw [if_neg hbad]
    simp only [Bool.or_eq_true, Bool.not_eq_true', decide_eq_true_eq, not_or,
      Bool.not_eq_false] at hbad
    exact ⟨fun _ => ⟨hbad.1.1, hbad.1.2, hbad.2⟩, fun _ => ⟨_, rfl⟩⟩

/-- A second start finds nothing to do. -/
theorem lifespan_settled (hvalid : s.validateProduction = .ok ())
    (hone : withName users s.adminEmail = [u]) (hash : u.passwordHash = s.adminPasswordHash) :
    lifespan s users id = .ok users := by
  unfold lifespan
  rw [hvalid]
  simp only [bind, Except.bind, hone, scalarOneOrNone, hash, ne_eq, not_true_eq_false, if_false]
  split <;> rfl

/-- **Seeding.**  A start leaves all other users alone and gives the administrator the configured
hash; a row that was there keeps its role and its state, so the configured password opens a session
if and only if the row is active.  A second start changes nothing. -/
theorem lifespan_login {p : Str} {salt : Bytes} (hkey : Keyed users) (hid : ∀ u ∈ users, u.id ≠ id)
    (hhash : hashPassword pbkdf2 p salt = some s.adminPasswordHash)
    (h : lifespan s users id = .ok users') :
    Keyed users' ∧ (∀ name ≠ s.adminEmail, withName users' name = withName users name) ∧
      (∀ id', lifespan s users' id' = .ok users') ∧
      ∃ u, withName users' s.adminEmail = [u] ∧
        (∀ u₀ ∈ withName users s.adminEmail, u = { u₀ with passwordHash := s.adminPasswordHash }) ∧
        ∀ now jti q,
          (∃ session, login uni pbkdf2 jwt s users' now jti s.adminEmail q = .ok (.ok session)) ↔
            u.isActive = true ∧ ∃ bytes bytes' dk,
              Canonical.encodeUtf8 p = some bytes ∧ Canonical.encodeUtf8 q = some bytes' ∧
                pbkdf2 bytes salt iterations = some dk ∧
                pbkdf2 bytes' salt iterations = some dk := by
  have hne : s.adminPasswordHash ≠ [] := by
    simp only [hashPassword, Option.bind_eq_bind, Option.bind_eq_some_iff, Option.pure_def,
      Option.some.injEq] at hhash
    obtain ⟨bytes, -, dk, -, hstored⟩ := hhash
    rw [← hstored]
    exact List.append_ne_nil_of_right_ne_nil _ (List.cons_ne_nil _ _)
  have hvalid : s.validateProduction = .ok () := by
    cases hvalid : s.validateProduction with
    | error x =>
      unfold lifespan at h
      rw [hvalid] at h
      cases h
    | ok valid => rfl
  have hseeded := seeded_of_lifespan hkey h
  obtain ⟨u, hone, hash, hfrom⟩ := hseeded.admin hkey hne
  refine ⟨hseeded.keyed hkey hid, fun name hname => hseeded.others hkey hname,
    fun id' => lifespan_settled hvalid hone hash, u, hone, hfrom, fun now jti q => ?_⟩
  rw [login_of_one hone, hash, verifyPassword_iff hhash]
  exact and_congr_right fun _ => and_iff_right hne

end lifespan

/-! ## A server with one user -/

def samplePassword : Str := ofString "gizli-parola-123"

def sampleSalt : Bytes := [0, 1, 2, 3, 4, 5, 6, 7, 8, 9, 10, 11, 12, 13, 14, 15]

def sampleKey : Bytes :=
  [23, 100, 220, 244, 199, 19, 2, 145, 175, 43, 194, 213, 97, 199, 222, 63,
   59, 177, 79, 66, 26, 146, 235, 170, 80, 18, 44, 130, 169, 23, 93, 104]

/-- The key of the sample password, and no other. -/
def samplePbkdf2 : Pbkdf2 := fun bytes salt n =>
  if Canonical.encodeUtf8 samplePassword = some bytes ∧ salt = sampleSalt ∧ n = iterations then
    some sampleKey
  else none

/-- Tokens as what they say. -/
def sampleJwt : Jwt (Str × Payload) where
  encode key p := (key, p)
  decode key issuer now token :=
    if token.1 ≠ key then .error .invalid
    else if now < token.2.iat * 1000 then .error .invalid
    else if token.2.exp * 1000 ≤ now then .error .expired
    else if token.2.iss ≠ issuer then .error .invalid
    else .ok token.2

theorem sampleJwt_documented : sampleJwt.Documented where
  encoded key issuer now p := if_neg (not_not.2 rfl)
  checked := by
    intro key issuer now token p h
    simp only [sampleJwt] at h
    split_ifs at h with hkey hearly hlate hissuer
    cases h
    exact ⟨not_lt.1 hearly, not_le.1 hlate, not_not.1 hissuer⟩

def sampleSettings : Config.Settings :=
  { jwtSecret := ofString "dev-only-change-me"
    adminPasswordHash := ofString ("pbkdf2_sha256$240000$000102030405060708090a0b0c0d0e0f$" ++
      "1764dcf4c7130291af2bc2d561c7de3f3bb14f421a92ebaa50122c82a9175d68") }

theorem stored_sample : ofString "pbkdf2_sha256" ++ dollar :: (Technocore.str iterations ++
    dollar :: (hex sampleSalt ++ dollar :: hex sampleKey)) = sampleSettings.adminPasswordHash := by
  decide +kernel

theorem hashPassword_sample :
    hashPassword samplePbkdf2 samplePassword sampleSalt = some sampleSettings.adminPasswordHash := by
  obtain ⟨bytes, hbytes⟩ := Option.isSome_iff_exists.1
    (show (Canonical.encodeUtf8 samplePassword).isSome by decide +kernel)
  have hkey : samplePbkdf2 bytes sampleSalt iterations = some sampleKey :=
    if_pos ⟨hbytes, rfl, rfl⟩
  simp only [hashPassword, hbytes, hkey, Option.bind_eq_bind, Option.bind_some, Option.pure_def]
  exact congrArg some stored_sample

/-- A viewer, and the administrator that a start adds. -/
def sampleUsers : List User :=
  [{ id := 1, username := ofString "bakan@example.com", role := ofString "viewer" }]

def seededUsers : List User :=
  sampleUsers ++ [{ id := 7, username := ofString "admin@example.com",
                    displayName := ofString "Admin",
                    passwordHash := sampleSettings.adminPasswordHash }]

theorem lifespan_sample : lifespan sampleSettings sampleUsers 7 = .ok seededUsers := by
  have hnone : withName sampleUsers sampleSettings.adminEmail = [] := by decide
  have hash : sampleSettings.adminPasswordHash ≠ [] := by decide +kernel
  unfold lifespan
  simp only [bind, Except.bind, if_neg hash, hnone, scalarOneOrNone]
  rfl

theorem lifespan_login_sample :
    Keyed seededUsers ∧ (∀ name ≠ sampleSettings.adminEmail,
        withName seededUsers name = withName sampleUsers name) ∧
      (∀ id', lifespan sampleSettings seededUsers id' = .ok seededUsers) ∧
      ∃ u, withName seededUsers sampleSettings.adminEmail = [u] ∧
        (∀ u₀ ∈ withName sampleUsers sampleSettings.adminEmail,
          u = { u₀ with passwordHash := sampleSettings.adminPasswordHash }) ∧
        ∀ now jti q, (∃ session, login Config.asciiUnicode samplePbkdf2 sampleJwt sampleSettings
            seededUsers now jti sampleSettings.adminEmail q = .ok (.ok session)) ↔
          u.isActive = true ∧ ∃ bytes bytes' dk,
            Canonical.encodeUtf8 samplePassword = some bytes ∧
              Canonical.encodeUtf8 q = some bytes' ∧
              samplePbkdf2 bytes sampleSalt iterations = some dk ∧
              samplePbkdf2 bytes' sampleSalt iterations = some dk :=
  lifespan_login ⟨by decide, by decide⟩ (by decide) hashPassword_sample lifespan_sample

end Observatory.Auth
