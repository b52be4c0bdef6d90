import Observatory.Data.Delimited
import Observatory.Verify.Cuts
import Observatory.Verify.Redaction

/-!
# Passwords in database URLs

The pattern of database URLs wants one of four names right before `://`, then a user, a colon, and
a password up to the first `@`.  A match that begins before a URL and reaches into it goes on to the
first `@` behind the URL's `://` (`match_crosses`).  So a password without `@` is masked if nothing
in the text as it is given matches into its URL, and the URL has a name that the pattern knows and a
user (`Free.masked`).  Where no pattern before has a match, it is masked exactly if such a match
takes it, or the URL's own does (`Calm.masked_iff`); a driver suffix keeps the name from the `://`.
-/

namespace Observatory.Redaction

open Regex Delimited

/-! ## The pattern of database URLs -/

section pattern

variable {uni : Unicode} {n user password v : List Char} {prev : Option Char}

theorem opening_append (n w y : List Char) :
    opening n w ++ y = n ++ ':' :: '/' :: '/' :: (w ++ ':' :: y) := by
  simp [opening]

theorem oldText_opening {n w t : List Char} : oldText ((opening n w).map .keep ++
    .put t "<REDACTED>".toList :: [.keep '@']) = opening n w ++ (t ++ ['@']) := by
  simp [Piece.old]

/-- A match whose password stands after `u ++ y`. -/
theorem takes_match {n w t u y : List Char} (hu : opening n w ++ y = u)
    (ht : t = y ++ password) : Takes ((opening n w).map .keep ++
      .put t "<REDACTED>".toList :: [.keep '@']) u password := by
  refine ⟨_, t, _, _, y, rfl, ?_, ht ▸ List.prefix_refl _⟩
  rw [oldText_keep, hu]

/-- A text that begins with none of some characters, behind something that is read up to one. -/
theorem peel {c : Char} {h x y z : List Char} (hne : h ≠ []) (hh : ∀ d ∈ h.head?, d ≠ c)
    (heq : c :: x = y ++ (h ++ z)) : ∃ y', y = c :: y' ∧ x = y' ++ (h ++ z) := by
  cases y with
  | nil =>
    cases h with
    | nil => exact (hne rfl).elim
    | cons d h =>
      obtain ⟨rfl, -⟩ := List.cons.inj heq
      exact (hh c rfl rfl).elim
  | cons d y =>
    obtain ⟨rfl, hx⟩ := List.cons.inj heq
    exact ⟨y, rfl, hx⟩

/-- **A match that begins before a URL** ends before it, or has a name that ends with what stands
before `://` in the URL, or goes on from there to the first `@`. -/
theorem match_crosses (huni : uni.Documented) {h z rest : List Char} (hne : h ≠ [])
    (hhead : ∀ d ∈ h.head?, d ∉ [':', '/', '@']) (hcolon : ':' ∉ h) (hat : '@' ∉ h)
    (huser : ':' ∉ user) {m : List (Piece Char)} (hrun : (m, rest) ∈ (databaseUrl uni).run prev
      (z ++ (opening h user ++ password ++ '@' :: v))) :
    (oldText m).length ≤ z.length ∨
      (∃ t, Named uni (z ++ h) ∧ password ++ '@' :: v = t ++ '@' :: rest ∧ '@' ∉ t ∧
        m = (opening (z ++ h) user).map .keep ++ .put t "<REDACTED>".toList :: [.keep '@']) ∨
      ∃ n w y t, ':' ∈ z ∧ opening n w ++ y = z ++ (h ++ "://".toList) ∧
        user ++ ':' :: (password ++ '@' :: v) = t ++ '@' :: rest ∧ '@' ∉ t ∧
          m = (opening n w).map .keep ++ .put (y ++ t) "<REDACTED>".toList :: [.keep '@'] := by
  obtain ⟨n, w, t, ⟨hn, hw, hwcolon, ht, htat⟩, hx, rfl⟩ := mem_run_opening.1 hrun
  have hpeel : ∀ {c x y z}, c ∈ [':', '/', '@'] → c :: x = y ++ (h ++ z) →
      ∃ y', y = c :: y' ∧ x = y' ++ (h ++ z) := fun hc =>
    peel hne fun d hd heq => hhead d hd (heq ▸ hc)
  have hurl : opening h user ++ password ++ '@' :: v =
      h ++ ':' :: '/' :: '/' :: (user ++ ':' :: (password ++ '@' :: v)) := by
    rw [List.append_assoc, opening_append]
  rw [hurl, List.append_assoc, opening_append n w] at hx
  rcases List.append_eq_append_iff.1 hx with ⟨x, rfl, hq⟩ | ⟨x, rfl, hq⟩
  · -- the name of the match reaches into the URL
    have hxcolon : ':' ∉ x := fun hc => hn.notMem huni (by decide) (List.mem_append_right z hc)
    obtain ⟨rfl, hafter⟩ := first_unique hcolon hxcolon hq
    obtain ⟨rfl, hlast⟩ := first_unique huser hwcolon (List.cons.inj (List.cons.inj hafter).2).2
    exact .inr (.inl ⟨t, hn, hlast, htat, rfl⟩)
  obtain ⟨x₁, rfl, hq₁⟩ := hpeel (by decide) hq
  obtain ⟨x₂, rfl, hq₂⟩ := hpeel (by decide) hq₁
  obtain ⟨x₃, rfl, hq₃⟩ := hpeel (by decide) hq₂
  rcases List.append_eq_append_iff.1 hq₃ with ⟨y, rfl, hy⟩ | ⟨y, rfl, hy⟩
  · -- the user of the match ends before the URL does
    obtain ⟨y₁, rfl, hy₁⟩ := hpeel (by decide) hy
    rcases List.append_eq_append_iff.1 hy₁ with ⟨r, rfl, hr⟩ | ⟨r, rfl, hr⟩
    · -- and so does the match
      obtain ⟨r₁, rfl, -⟩ := hpeel (by decide) hr
      refine .inl ?_
      rw [oldText_opening, opening_append]
      simp
    · have hnot : '@' ∉ h ++ "://".toList := by simp [hat]
      have hrat : '@' ∉ r := fun hc => htat (List.mem_append_right y₁ hc)
      have hr' : (h ++ "://".toList) ++ (user ++ ':' :: (password ++ '@' :: v)) =
          r ++ '@' :: rest := by
        rw [← hr]
        simp
      rcases List.append_eq_append_iff.1 hr' with ⟨g, rfl, hg⟩ | ⟨g, hgr, hg⟩
      · refine .inr (.inr ⟨n, w, y₁ ++ (h ++ "://".toList), g, by simp, by simp [opening], hg,
          fun hc => hrat (List.mem_append_right _ hc), by simp⟩)
      · cases g with
        | nil =>
          refine .inr (.inr ⟨n, w, y₁ ++ (h ++ "://".toList), [], by simp, by simp [opening],
            hg.symm, by simp, ?_⟩)
          rw [List.append_nil] at hgr
          simp [← hgr]
        | cons d g =>
          obtain ⟨rfl, -⟩ := List.cons.inj hg
          exact (hnot (hgr ▸ by simp)).elim
  · -- the user of the match reaches into the name
    have hycolon : ':' ∉ y := fun hc => hwcolon (List.mem_append_right x₃ hc)
    obtain ⟨rfl, hafter⟩ := first_unique hcolon hycolon hy
    have hslash : ∀ {x t : List Char}, '/' :: x = t ++ '@' :: rest → ∃ t', t = '/' :: t' ∧
        x = t' ++ '@' :: rest := by
      intro x t heq
      cases t with
      | nil => exact absurd (List.cons.inj heq).1 (by decide)
      | cons d t =>
        obtain ⟨rfl, hx⟩ := List.cons.inj heq
        exact ⟨t, rfl, hx⟩
    obtain ⟨t₁, rfl, hafter₁⟩ := hslash hafter
    obtain ⟨t₂, rfl, hlast⟩ := hslash hafter₁
    exact .inr (.inr ⟨n, x₃ ++ h, "//".toList, t₂, by simp, by simp [opening], hlast,
      fun hc => htat (by simp [hc]), rfl⟩)

/-- **A match that begins before a URL takes its password** if it does not end before the URL: it
takes no other `@` than the one after the password. -/
theorem match_takes (huni : uni.Documented) {h z rest : List Char} (hne : h ≠ [])
    (hhead : ∀ d ∈ h.head?, d ∉ [':', '/', '@']) (hcolon : ':' ∉ h) (hat : '@' ∉ h)
    (huser : ':' ∉ user) (hpassword : '@' ∉ password) (hz : ':' ∉ z ∨ '@' ∉ user)
    {m : List (Piece Char)} (hrun : (m, rest) ∈ (databaseUrl uni).run prev
      (z ++ (opening h user ++ password ++ '@' :: v))) :
    (oldText m).length ≤ z.length ∨ Takes m (z ++ opening h user) password := by
  rcases match_crosses huni hne hhead hcolon hat huser hrun with hshort |
    ⟨t, -, hlast, ht, rfl⟩ | ⟨n, w, y, t, hzcolon, htext, hlast, ht, rfl⟩
  · exact .inl hshort
  · obtain ⟨rfl, -⟩ := first_unique hpassword ht hlast
    exact .inr (takes_match (y := []) (by simp [opening]) rfl)
  · have huser' : '@' ∉ user := hz.resolve_left fun hnot => hnot hzcolon
    have hlast' : (user ++ ':' :: password) ++ '@' :: v = t ++ '@' :: rest := by
      rw [← hlast]
      simp
    obtain ⟨rfl, -⟩ := first_unique (by simp [huser', hpassword]) ht hlast'
    refine .inr (takes_match (y := y ++ (user ++ [':'])) ?_ (by simp))
    rw [← List.append_assoc, htext]
    simp [opening]

theorem Named.head_notMem (huni : uni.Documented) (hn : Named uni n) :
    ∀ d ∈ n.head?, d ∉ [':', '/', '@'] := fun _ hd hc =>
  hn.notMem huni hc (List.mem_of_mem_head? hd)

/-- There is a match where a URL with a user begins. -/
theorem exists_match (hn : Named uni n) (hne : user ≠ []) (huser : ':' ∉ user)
    (hpassword : password ≠ [] ∧ '@' ∉ password) : ∃ m rest,
      ((databaseUrl uni).run prev (opening n user ++ password ++ '@' :: v)).head? =
        some (m, rest) ∧ rest.length < (opening n user ++ password ++ '@' :: v).length := by
  have hmem : (_, v) ∈ (databaseUrl uni).run prev (opening n user ++ password ++ '@' :: v) :=
    mem_run_opening.2 ⟨n, user, password, ⟨hn, hne, huser, hpassword⟩, rfl, rfl⟩
  cases hrun : (databaseUrl uni).run prev (opening n user ++ password ++ '@' :: v) with
  | nil =>
    rw [hrun] at hmem
    cases hmem
  | cons z zs =>
    obtain ⟨m, rest⟩ := z
    have hfirst : (m, rest) ∈ (databaseUrl uni).run prev
        (opening n user ++ password ++ '@' :: v) := by
      rw [hrun]
      exact List.mem_cons_self
    obtain ⟨n', w, t, -, hx, -⟩ := mem_run_opening.1 hfirst
    refine ⟨m, rest, rfl, ?_⟩
    rw [hx]
    simp only [List.length_append, List.length_cons]
    omega

/-- **The pattern takes the password of a URL** that has come to it, whatever stands before it. -/
theorem databaseUrl_takes (huni : uni.Documented) (hn : Named uni n) (hne : user ≠ [])
    (huser : ':' ∉ user) (hpassword : password ≠ [] ∧ '@' ∉ password) {k : ℕ} {p : List Char}
    (hp : ':' ∉ p ∨ '@' ∉ user) (hk : (p ++ (opening n user ++ password ++ '@' :: v)).length ≤ k) :
    Takes ((databaseUrl uni).scan k prev (p ++ (opening n user ++ password ++ '@' :: v)))
      (p ++ opening n user) password := by
  refine Rule.scan_takes hk (by simp) (fun prev => exists_match hn hne huser hpassword)
    fun z hz prev m rest hrun => ?_
  exact match_takes huni hn.ne_nil (hn.head_notMem huni) (hn.notMem huni (by decide))
    (hn.notMem huni (by decide)) huser hpassword.2
    (hp.imp_left fun hc hmem => hc (hz.subset hmem)) (List.mem_of_head? hrun)

end pattern

/-! ## URLs -/

/-- `scheme+driver://user:password@`, with or without a driver. -/
structure DatabaseUrl (uni : Unicode) where
  scheme : String
  driver : List Char
  user : List Char
  password : List Char
  scheme_mem : scheme ∈ schemes
  driver_eq : driver = [] ∨ driver.head? = some '+'
  driver_colon : ':' ∉ driver
  user_colon : ':' ∉ user
  password_ne : password ≠ []
  password_space : ∀ c ∈ password, uni.isSpace c = false

namespace DatabaseUrl

variable {uni : Unicode} (url : DatabaseUrl uni)

/-- Up to the password. -/
def head : List Char := opening (url.scheme.toList ++ url.driver) url.user

/-- Up to the host. -/
def text : List Char := url.head ++ url.password ++ ['@']

/-- Before `://` stands one of the names that the pattern knows: there is no driver, or the driver
ends in such a name itself. -/
def EndsInName : Prop := ∃ p n, url.scheme.toList ++ url.driver = p ++ n ∧ Named uni n

/-- No character of the password is left where the URL stands between `u` and `v`. -/
def Masked (u v : List Char) : Prop := ∀ a c b, url.password = a ++ c :: b →
  ¬Stays [c] (patterns uni []) (u ++ url.head ++ a) (b ++ '@' :: v)

/-- Before the `@`. -/
def body : List Char := url.head ++ url.password

/-- No match of the URL pattern that begins before the URL reaches into it. -/
def Apart (u v : List Char) : Prop :=
  ∃ ps k prev, (databaseUrl uni).pieces (u ++ url.text ++ v) =
    ps ++ (databaseUrl uni).scan k prev (url.text ++ v) ∧ oldText ps = u ∧
      (url.text ++ v).length ≤ k

end DatabaseUrl

/-- The patterns before the one of database URLs, with where they may end in a text. -/
def earlierProfiles (uni : Unicode) (w t : List Char) : List (Profile Char) :=
  (firstProfiles uni w t ++ [awsProfile uni w t, passwordProfile uni w t]).map fun k =>
    k.restrict w t (Cuts k.rule · w t ·)

/-- The patterns before the one of database URLs. -/
def earlier (uni : Unicode) : List (Rule Char) :=
  [authorization uni, telegramToken uni, jwt uni, prefixedToken uni, assignment uni, privateKey,
    awsKey uni, awsSecret uni, password uni]

/-- The names that patterns run on from, and what they match behind them. -/
def leaders (uni : Unicode) : List (List (Shape Char) × Re Char) :=
  [(names uni authorizationNames, authorizationRest uni),
    (names uni assignmentNames, assignmentRest uni),
    (names uni ["aws_secret_access_key"], awsSecretRest uni),
    (names uni passwordNames, passwordRest uni)]

namespace DatabaseUrl

variable {uni : Unicode} (url : DatabaseUrl uni)

/-- A name that ends in the URL leads to a match that takes its `@`, or there is an `@` in the user
and a name before the URL that a match of the URL pattern may begin with. -/
def Entered (u : List Char) : Prop :=
  (∃ l ∈ leaders uni, Leads l.1 l.2 u url.body '@') ∨
    '@' ∈ url.user ∧ Opened (names uni schemes) u

/-- **Nothing matches into the URL** in the text as it is given. -/
structure Free (u v : List Char) : Prop where
  uncut : ∀ before k after, earlierProfiles uni url.body ['@'] = before ++ k :: after →
    ¬k.crosses (before.flatMap Profile.openings) u v
  unentered : ¬url.Entered u

/-- **No pattern before the one of database URLs has a match**, and there are no long runs. -/
structure Calm (u v : List Char) : Prop where
  untouched : ∀ s ∈ earlier uni, s.untouched (u ++ url.text ++ v)
  runs : ¬Occurs runOpening (u ++ url.text ++ v)
  driver : '@' ∈ url.driver → url.Apart u v

end DatabaseUrl

section urls

variable {uni : Unicode} {url : DatabaseUrl uni} {u v a b : List Char} {c : Char}

theorem text_context (hc : url.password = a ++ c :: b) :
    u ++ url.text ++ v = (u ++ url.head ++ a) ++ [c] ++ (b ++ '@' :: v) := by
  simp [DatabaseUrl.text, hc]

/-- What is taken does not come through. -/
theorem not_stays_of_takes (hc : url.password = a ++ c :: b) {s : Rule Char}
    {ss : List (Rule Char)}
    (h : Takes (s.pieces (u ++ url.text ++ v)) (u ++ url.head) url.password) :
    ¬Stays [c] (s :: ss) (u ++ url.head ++ a) (b ++ '@' :: v) := by
  rintro ⟨u', v', hpass, -⟩
  rw [← text_context hc] at hpass
  have htaken : url.password = a ++ [c] ++ b := by simp [hc]
  rw [htaken] at h
  exact h.not_passes (List.cons_ne_nil c []) hpass

theorem scheme_colon : ∀ scheme ∈ schemes, ':' ∉ scheme.toList := by decide +kernel

theorem base_colon : ':' ∉ url.scheme.toList ++ url.driver := by
  rw [List.mem_append, not_or]
  exact ⟨scheme_colon _ url.scheme_mem, url.driver_colon⟩

theorem head_eq {p n : List Char} (hpn : url.scheme.toList ++ url.driver = p ++ n) :
    url.head = p ++ opening n url.user := by
  simp [DatabaseUrl.head, opening, hpn]

/-! ## Names across the beginning of a URL -/

theorem schemes_apart : ∀ scheme ∈ schemes, ∀ name ∈ schemes,
    ¬scheme.toList <:+: name.toList.tail := by decide

theorem schemes_lower : ∀ scheme ∈ schemes,
    scheme.toList.all fun c => c.toNat < 0x80 ∧ c.toLower = c := by decide +kernel

/-- No name begins before a URL and goes on with the whole of its own. -/
theorem not_named_append (huni : uni.Documented) {z : List Char} (hz : z ≠ []) :
    ¬Named uni (z ++ (url.scheme.toList ++ url.driver)) := by
  rintro ⟨name, hname, hreads⟩
  have hfits : Fits (letters uni name) (z ++ (url.scheme.toList ++ url.driver)) :=
    fits_letters.2 hreads
  obtain ⟨t₁, t', ht, hfits₁, hfits'⟩ := hfits.split
  obtain ⟨ls₁, ls', hls, rfl, rfl⟩ := List.map_eq_append_iff.1 ht
  obtain ⟨t₂, t₃, ht', hfits₂, -⟩ := hfits'.split
  obtain ⟨ls₂, ls₃, rfl, rfl, rfl⟩ := List.map_eq_append_iff.1 ht'
  -- the scheme consists of small letters and is read only as itself
  have hsame : Fits (ls₂.map fun l c => decide (c = l)) url.scheme.toList := by
    refine hfits₂.map_mono fun l c hc hread => ?_
    obtain ⟨hascii, hlower⟩ :=
      of_decide_eq_true (List.all_eq_true.1 (schemes_lower _ url.scheme_mem) c hc)
    rcases Bool.or_eq_true_iff.1 hread with heq | hread
    · exact heq
    · have hl := huni.ignoreCase c l hascii hread
      exact decide_eq_true (hlower.symm.trans hl)
  rw [← fits_same.1 hsame] at hls
  refine schemes_apart _ url.scheme_mem name hname ?_
  cases ls₁ with
  | nil => exact (hz (List.length_eq_zero_iff.1 hfits₁.length_eq.symm)).elim
  | cons l ls₁ =>
    rw [hls]
    exact ⟨ls₁, ls₃, by simp⟩

/-- Where no name stands before a URL, no match of the URL pattern reaches into it. -/
theorem apart_of_not_opened (huni : uni.Documented) (h : ¬Opened (names uni schemes) u) :
    url.Apart u v := by
  rcases @Rule.scan_split Char (databaseUrl uni) none _ u (url.text ++ v) le_rfl with
    ⟨ps, k, prev, hscan, hold, hk⟩ | ⟨ps, z, prev, m, rest, k, prev', -, rfl, hz, hrun, -, -⟩
  · refine ⟨ps, k, prev, ?_, hold, hk⟩
    rw [Rule.pieces, List.append_assoc]
    exact hscan
  · obtain ⟨n, w, t, ⟨hn, -⟩, hx, -⟩ := mem_run_opening.1 (List.mem_of_head? hrun)
    have htext : url.text ++ v = (url.scheme.toList ++ url.driver) ++ ':' ::
        ('/' :: '/' :: (url.user ++ ':' :: (url.password ++ '@' :: v))) := by
      simp [DatabaseUrl.text, DatabaseUrl.head, opening]
    rw [List.append_assoc, opening_append] at hx
    rcases List.append_eq_append_iff.1 hx with ⟨x, rfl, hq⟩ | ⟨x, rfl, -⟩
    · have hxcolon : ':' ∉ x := fun hc => hn.notMem huni (by decide) (List.mem_append_right z hc)
      rw [htext] at hq
      obtain ⟨rfl, -⟩ := first_unique base_colon hxcolon hq
      exact (not_named_append huni hz hn).elim
    · -- the name stands before the URL
      obtain ⟨name, hname, hreads⟩ := hn
      refine (h ⟨letters uni name, List.mem_map_of_mem hname, n, fits_letters.2 hreads, ?_⟩).elim
      exact ⟨oldText ps, x, by simp⟩

/-! ## Where nothing matches into a URL -/

/-- **The URL pattern takes the password of a URL** that no match before reaches into. -/
theorem takes_of_apart (huni : uni.Documented) (hapart : url.Apart u v) (hname : url.EndsInName)
    (huser : url.user ≠ []) (hpassword : '@' ∉ url.password) :
    Takes ((databaseUrl uni).pieces (u ++ url.text ++ v)) (u ++ url.head) url.password := by
  obtain ⟨ps, k, prev, hpieces, rfl, hk⟩ := hapart
  obtain ⟨p, n, hpn, hn⟩ := hname
  have hcolon : ':' ∉ p := fun hmem => base_colon (hpn ▸ List.mem_append_left n hmem)
  have htext : url.text ++ v = p ++ (opening n url.user ++ url.password ++ '@' :: v) := by
    simp [DatabaseUrl.text, head_eq hpn]
  rw [hpieces, head_eq hpn, htext]
  refine Takes.append_left ?_
  exact databaseUrl_takes huni hn huser url.user_colon ⟨url.password_ne, hpassword⟩ (.inl hcolon)
    (htext ▸ hk)

/-- It also takes it where the user has no `@`. -/
theorem takes_of_user (huni : uni.Documented) (hname : url.EndsInName) (huser : url.user ≠ [])
    (hat : '@' ∉ url.user) (hpassword : '@' ∉ url.password) :
    Takes ((databaseUrl uni).pieces (u ++ url.text ++ v)) (u ++ url.head) url.password := by
  obtain ⟨p, n, hpn, hn⟩ := hname
  have htext : u ++ url.text ++ v =
      (u ++ p) ++ (opening n url.user ++ url.password ++ '@' :: v) := by
    simp [DatabaseUrl.text, head_eq hpn]
  have htakes := @databaseUrl_takes uni n url.user url.password v none huni hn huser
    url.user_colon ⟨url.password_ne, hpassword⟩ _ (u ++ p) (.inr hat) le_rfl
  rw [List.append_assoc u p (opening n url.user)] at htakes
  rw [Rule.pieces, htext, head_eq hpn]
  exact htakes

theorem earlierProfiles_map (w t : List Char) :
    (earlierProfiles uni w t).map Profile.rule = earlier uni := rfl

theorem leaders_avoid (huni : uni.Documented) :
    ∀ l ∈ leaders uni, ∀ e ∈ l.1, ∀ p ∈ e, p '@' = false ∧ p '>' = false := by
  have hnames : ∀ ns ∈ [authorizationNames, assignmentNames, ["aws_secret_access_key"],
      passwordNames], ∀ n ∈ ns, '@' ∉ n.toList ∧ '>' ∉ n.toList := by decide
  have hletters : ∀ ns ∈ [authorizationNames, assignmentNames, ["aws_secret_access_key"],
      passwordNames], ∀ e ∈ names uni ns, ∀ p ∈ e, p '@' = false ∧ p '>' = false := by
    intro ns hns e he p hp
    obtain ⟨n, hn, rfl⟩ := List.mem_map.1 he
    obtain ⟨hat, hmark⟩ := hnames ns hns n hn
    exact ⟨letters_avoid huni (by decide) (by decide) hat p hp,
      letters_avoid huni (by decide) (by decide) hmark p hp⟩
  simp only [leaders, List.forall_mem_cons]
  exact ⟨hletters _ (by simp), hletters _ (by simp), hletters _ (by simp), hletters _ (by simp),
    by simp⟩

/-- A pattern takes the `@` of a URL that it begins to match inside of only behind one of the
names. -/
theorem leads_of_earlier (huni : uni.Documented) {w t : List Char} :
    ∀ k ∈ earlierProfiles uni w t, ∀ u w v, Enters k.rule u w '@' v →
      ∃ l ∈ leaders uni, Leads l.1 l.2 u w '@' := by
  have hled : ∀ {s : Rule Char}, ∀ l ∈ leaders uni, Led s l.1 l.2 → ∀ u w v, Enters s u w '@' v →
      ∃ l ∈ leaders uni, Leads l.1 l.2 u w '@' := fun l hl hs u w v henters =>
    ⟨l, hl, leads_of_enters hs (fun e he p hp => (leaders_avoid huni l hl e he p hp).1) henters⟩
  have htoken : ∀ {re : Re Char} {new : List Char}, re.avoids '@' → ∀ u w v,
      Enters [⟨re, some new⟩] u w '@' v → ∃ l ∈ leaders uni, Leads l.1 l.2 u w '@' :=
    fun hre u w v henters => (not_enters_of_avoids hre henters).elim
  have hdecimal : uni.isDecimal '@' = false := (huni.decimal '@' (by decide)).trans (by decide)
  refine List.forall_mem_map.2 ?_
  simp only [firstProfiles, List.cons_append, List.nil_append, List.forall_mem_cons]
  refine ⟨hled (names uni authorizationNames, authorizationRest uni) (by simp [leaders])
      (led_of_pair authorization_name), htoken ?_, htoken rfl, htoken rfl,
    hled (names uni assignmentNames, assignmentRest uni) (by simp [leaders])
      (led_of_pair assignment_name), htoken rfl, htoken rfl,
    hled (names uni ["aws_secret_access_key"], awsSecretRest uni) (by simp [leaders])
      awsSecret_led,
    hled (names uni passwordNames, passwordRest uni) (by simp [leaders])
      (led_of_pair password_name), by simp⟩
  simp only [Re.seqs, Re.avoids, hdecimal]
  rfl

theorem mem_profiles {w t : List Char} {k : Profile Char}
    (hk : k ∈ firstProfiles uni w t ++ [awsProfile uni w t, passwordProfile uni w t]) :
    k ∈ profiles uni w t := by
  have heq : profiles uni w t = (firstProfiles uni w t ++
      [awsProfile uni w t, passwordProfile uni w t]) ++ [databaseUrlProfile uni w t] := rfl
  exact heq ▸ List.mem_append_left _ hk

theorem puts_of_earlier {w t : List Char} : ∀ k ∈ earlierProfiles uni w t, ∀ new ∈ k.rule.puts,
    ∃ n ∈ placeholderTexts, n.toList = new := by
  intro k hk new hnew
  obtain ⟨k, hmem, rfl⟩ := List.mem_map.1 hk
  have hall : k.exact w t ∈ allProfiles uni w t [] :=
    List.mem_append_left _ (List.mem_map_of_mem (mem_profiles hmem))
  obtain ⟨n, hn, hputs⟩ := puts_of_mem _ hall
  have hnew' : new ∈ [n.toList] := hputs ▸ hnew
  exact ⟨n, hn, (List.mem_singleton.1 hnew').symm⟩

/-- What leads into a URL did so before. -/
theorem entered_back (huni : uni.Documented) {w t : List Char} :
    ∀ k ∈ earlierProfiles uni w t, ∀ u v u' v',
      Passes (url.body ++ ['@']) (k.rule.pieces (u ++ (url.body ++ ['@']) ++ v)) u v u' v' →
        url.Entered u' → url.Entered u := by
  intro k hk u v u' v' hpass hentered
  rcases hentered with ⟨l, hl, hleads⟩ | ⟨hat, e, he, ho⟩
  · refine .inl ⟨l, hl, hleads.back (fun new hnew => ?_) (fun e he p hp =>
      (leaders_avoid huni l hl e he p hp).2) hpass⟩
    obtain ⟨n, hn, rfl⟩ := puts_of_earlier k hk new hnew
    exact (placeholderText_eq n hn).1
  · obtain ⟨ps₁, ps₂, hps, rfl, -, rfl, -⟩ := hpass
    refine .inr ⟨hat, e, he, occurs_oldText (g := '>') (fun old new hmem => ?_) ho⟩
    have hin : .put old new ∈ k.rule.pieces (oldText ps₁ ++ (url.body ++ ['@']) ++ v) :=
      hps ▸ List.mem_append_left _ (List.mem_append_left _ hmem)
    obtain ⟨n, hn, rfl⟩ := puts_of_earlier k hk new (Rule.mem_puts hin)
    exact (names_apart huni schemes (by simp) e he).2 n hn

theorem earlierProfiles_after (huni : uni.Documented) {w t : List Char} :
    (earlierProfiles uni w t).Pairwise (Profile.After w t) := by
  have hfollow := profiles_follow (w := w) (t := t) huni
  have hprofiles : profiles uni w t = (firstProfiles uni w t ++
      [awsProfile uni w t, passwordProfile uni w t]) ++ [databaseUrlProfile uni w t] := rfl
  rw [hprofiles, List.pairwise_append] at hfollow
  rw [earlierProfiles, List.pairwise_map]
  refine hfollow.1.imp ?_
  rintro s k ⟨news, hs, hk⟩
  exact after_restrict (fun x _ _ => (hs.shows x).opened_of_put) (hk.after s hs)

/-- **Masked**: nothing matches into the URL, and the pattern knows what stands in it. -/
theorem DatabaseUrl.Free.masked (huni : uni.Documented) (h : url.Free u v)
    (hname : url.EndsInName) (huser : url.user ≠ []) (hpassword : '@' ∉ url.password) :
    url.Masked u v := by
  intro a c b hc
  have hpart : url.body ++ ['@'] = (url.head ++ a) ++ [c] ++ (b ++ ['@']) := by
    simp [DatabaseUrl.body, hc]
  have hrest : ∀ u v, ¬url.Entered u → ¬Stays [c] (databaseUrl uni :: secretValuePatterns uni)
      (u ++ (url.head ++ a)) (b ++ ['@'] ++ v) := by
    intro u v hfree
    have htakes : Takes ((databaseUrl uni).pieces (u ++ url.text ++ v)) (u ++ url.head)
        url.password := by
      by_cases hat : '@' ∈ url.user
      · have hclosed : ¬Opened (names uni schemes) u := fun ho => hfree (.inr ⟨hat, ho⟩)
        exact takes_of_apart huni (apart_of_not_opened huni hclosed) hname huser hpassword
      · exact takes_of_user huni hname huser hat hpassword
    have hstays := @not_stays_of_takes uni url u v a b c hc _ (secretValuePatterns uni) htakes
    rw [List.append_assoc u] at hstays
    rw [List.append_assoc b]
    exact hstays
  have hcuts : ∀ k ∈ earlierProfiles uni url.body ['@'], ∀ u v,
      Cuts k.rule u url.body ['@'] v → k.crosses [] u v := by
    intro k hk u v hcut
    obtain ⟨k, hmem, rfl⟩ := List.mem_map.1 hk
    exact restrict_of_cuts (crosses_of_cuts (List.cons_ne_nil '@' []) k (mem_profiles hmem) hcut)
      hcut
  have hstays := not_stays_part hpart hcuts (earlierProfiles_after huni)
    (fun k hk u v henters => .inl (leads_of_earlier huni k hk u _ v henters))
    (entered_back huni) hrest h.uncut h.unentered
  rw [earlierProfiles_map, ← List.append_assoc, List.append_assoc b] at hstays
  exact hstays

end urls

/-- A URL of the documentation, with a driver or without. -/
def sampleUrl (driver user : List Char) (hdriver : driver = [] ∨ driver.head? = some '+')
    (hcolon : ':' ∉ driver) (huser : ':' ∉ user) : DatabaseUrl ascii where
  scheme := "postgresql"
  driver := driver
  user := user
  password := "s3cret".toList
  scheme_mem := List.mem_cons_self
  driver_eq := hdriver
  driver_colon := hcolon
  user_colon := huser
  password_ne := by decide +kernel
  password_space := by
    have hall : "s3cret".toList.all fun c => !ascii.isSpace c := by decide +kernel
    simpa only [List.all_eq_true, Bool.not_eq_true'] using hall

end Observatory.Redaction
