import Mathlib.Data.List.TakeDrop
import Observatory.Model.Technocore
import Observatory.Verify.Canonical

/-!
# The bodies that are sent

`signed_post` sweeps the text of the payload and cuts it off, makes the caller's nonce greater if
the generator has passed it, and signs what has come of them.  A signature of the caller is taken as
it is: whatever becomes of text and nonce, it is posted with them.  A posted body can therefore be
checked against its own signature exactly if there was none, or there was nothing to change
(`posted_body_iff`); it is always swept and short enough, and all attempts post the same one
(`posted_body`).

The signed strings are those of the model over code points (`canonicalString_ofString`), whose
unique decoding is what makes the condition necessary.
-/

namespace Observatory.Technocore

open Effect Effect.Prog Canonical

/-! ## Characters -/

section characters

variable {s : String} {c d : Char}

theorem ofChar_inj : ofChar c = ofChar d ↔ c = d := by
  rw [Fin.ext_iff]
  exact ⟨Char.ext_iff.2 ∘ UInt32.toNat_inj.1, congrArg Char.toNat⟩

theorem ofString_append {s' : String} : ofString (s ++ s') = ofString s ++ ofString s' := by
  unfold ofString
  rw [String.toList_append, List.map_append]

theorem ofString_inj {s' : String} : ofString s = ofString s' ↔ s = s' := by
  unfold ofString
  rw [(List.map_injective_iff.2 fun c d => ofChar_inj.1).eq_iff, String.toList_inj]

/-- `$` on the characters of a string. -/
theorem chomp_ofString : chomp (ofString s) =
    (if s.toList.getLast? = some '\n' then s.toList.dropLast else s.toList).map ofChar := by
  unfold chomp ofString
  have hlast : (s.toList.map ofChar).getLast? = some (ofChar '\n') ↔
      s.toList.getLast? = some '\n' := by
    rw [List.getLast?_map, Option.map_eq_some_iff]
    constructor
    · rintro ⟨c, hc, heq⟩
      rw [← ofChar_inj.1 heq]
      exact hc
    · intro hc
      exact ⟨_, hc, rfl⟩
  by_cases h : s.toList.getLast? = some '\n'
  · rw [if_pos (hlast.2 h), if_pos h, List.map_dropLast]
  · rw [if_neg (mt hlast.1 h), if_neg h]

theorem isDigit_ofChar : isDigit (ofChar c) = c.isDigit := by
  rfl

theorem isRoomStart_ofChar : isRoomStart (ofChar c) = AgentScorer.isRoomStart c := by
  rfl

theorem decide_ofChar (c d : Char) : decide ((ofChar c).val = d.toNat) = decide (c = d) :=
  decide_eq_decide.2 (Fin.ext_iff.symm.trans ofChar_inj)

theorem isRoomChar_ofChar : isRoomChar (ofChar c) = AgentScorer.isRoomChar c := by
  unfold isRoomChar AgentScorer.isRoomChar
  rw [isRoomStart_ofChar, ← decide_ofChar c '_', ← decide_ofChar c '-']
  rfl

theorem all_map_ofChar {p : CodePoint → Bool} {q : Char → Bool} (hpq : ∀ c, p (ofChar c) = q c)
    (cs : List Char) : (cs.map ofChar).all p = cs.all q := by
  rw [List.all_map]
  exact congrArg cs.all (funext hpq)

/-- **The rooms** of both models. -/
theorem matchesRoom_ofString : matchesRoom (ofString s) = AgentScorer.matchesRoom s := by
  unfold matchesRoom AgentScorer.matchesRoom
  rw [chomp_ofString]
  simp only
  cases if s.toList.getLast? = some '\n' then s.toList.dropLast else s.toList with
  | nil => rfl
  | cons c rest =>
    simp only [List.map_cons, List.length_map, isRoomStart_ofChar,
      all_map_ofChar fun c => isRoomChar_ofChar]

/-- **The nonces** of both models. -/
theorem matchesNonce_ofString : Canonical.matchesNonce (ofString s) = (nonceOf? s).isSome := by
  unfold Canonical.matchesNonce nonceOf?
  rw [chomp_ofString]
  simp only [List.length_map, all_map_ofChar (fun c => isDigit_ofChar), ne_eq, List.map_eq_nil_iff]
  generalize (if s.toList.getLast? = some '\n' then s.toList.dropLast else s.toList) = cs
  by_cases h : ¬cs = [] ∧ cs.all Char.isDigit ∧ cs.length ≤ 19
  · rw [if_pos h, decide_eq_true h.1, h.2.1, decide_eq_true h.2.2]
    rfl
  · rw [if_neg h, Option.isSome_none, Bool.eq_false_iff]
    intro hmatch
    simp only [Bool.and_eq_true, decide_eq_true_eq] at hmatch
    exact h ⟨hmatch.1.1, hmatch.1.2, hmatch.2⟩

/-! ## Numbers -/

theorem foldl_digits {cs : List Char} (hcs : ∀ c ∈ cs, c.isDigit = true) (m : ℕ) :
    cs.foldl (fun (n : Int) c => 10 * n + (c.toNat - '0'.toNat)) m = Nat.ofDigitChars 10 cs m := by
  induction cs generalizing m with
  | nil => rfl
  | cons c cs ih =>
    have hdigit : '0'.toNat ≤ c.toNat := by
      have := hcs c List.mem_cons_self
      simp [Char.isDigit] at this
      exact this.1
    rw [List.foldl_cons, Nat.ofDigitChars_cons,
      ← ih (fun d hd => hcs d (List.mem_cons_of_mem c hd))]
    congr 1
    omega

theorem toString_ofNat (m : ℕ) : (toString (m : Int)).toList = Nat.toDigits 10 m :=
  Nat.toList_repr

/-- **A number is read as it is written.** -/
theorem nonceOf?_toString {n : Int} (h : Technocore.matchesNonce n) :
    nonceOf? (toString n) = some n := by
  simp only [Technocore.matchesNonce, Bool.and_eq_true, decide_eq_true_eq] at h
  obtain ⟨m, rfl⟩ := Int.eq_ofNat_of_zero_le h.1
  have hdigits : ∀ c ∈ Nat.toDigits 10 m, c.isDigit = true := fun c hc =>
    Nat.isDigit_of_mem_toDigits (by decide) (by decide) hc
  have hlast : (Nat.toDigits 10 m).getLast? ≠ some '\n' := by
    intro hlast
    exact absurd (hdigits _ (List.mem_of_getLast? hlast)) (by decide)
  have hlength : (Nat.toDigits 10 m).length ≤ 19 := by
    rw [Nat.length_toDigits_le_iff (by decide) (by decide)]
    have hmax : (m : Int) < (10 : ℕ) ^ 19 := Int.lt_of_le_sub_one h.2
    exact_mod_cast hmax
  unfold nonceOf?
  simp only [toString_ofNat, if_neg hlast]
  rw [if_pos ⟨Nat.toDigits_ne_nil, List.all_eq_true.2 hdigits, hlength⟩]
  have hvalue := foldl_digits hdigits 0
  rw [Nat.ofDigitChars_ten_toDigits] at hvalue
  exact congrArg some hvalue

end characters

/-! ## Sweeping and signing -/

section signing

variable {env : Env} {lib : Checker} {room text s : String} {n : Int} {c : Char}

theorem startsWith_name (k : Category) : k.name.startsWith "C" = k.isOther := by
  cases k <;> decide +kernel

theorem name_eq_separator (k : Category) :
    decide (k.name = "Zl") = decide (k = .zl) ∧ decide (k.name = "Zp") = decide (k = .zp) := by
  cases k <;> decide

theorem mem_map_toNat {cs : List Char} : c.toNat ∈ cs.map Char.toNat ↔ c ∈ cs := by
  refine List.mem_map_of_injective fun d d' h => ?_
  exact ofChar_inj.1 (Fin.ext h)

/-- The libraries agree with the connector's own, and accept what is signed with its key. -/
structure Checks (env : Env) (lib : Checker) : Prop where
  documented : Documented lib.category
  category : ∀ c, env.category c = (lib.category (ofChar c)).name
  signed : ∀ canon, lib.accepts env.did (ofString canon) (env.signCanonical canon) = true

variable (hlib : Checks env lib)

include hlib

theorem invisible_ofChar : Canonical.invisible lib.category (ofChar c) = invisible env c := by
  unfold Canonical.invisible invisible
  obtain ⟨hline, hparagraph⟩ := name_eq_separator (lib.category (ofChar c))
  simp only [hlib.category, startsWith_name, hline, hparagraph]
  rw [← decide_eq_decide.2 (mem_map_toNat (c := c))]
  rfl

theorem sweepText_ofString : Canonical.sweepText lib.category (ofString text) =
    ofString (sweepText env text) := by
  unfold Canonical.sweepText sweepText ofString
  rw [String.toList_map, List.map_map, List.map_map]
  refine List.map_congr_left fun c _ => ?_
  simp only [Function.comp_apply, invisible_ofChar hlib]
  split
  · rfl
  · rfl

/-- **Sweeping twice.** -/
theorem sweepText_swept : sweepText env (sweepText env text) = sweepText env text := by
  rw [← ofString_inj, ← sweepText_ofString hlib, ← sweepText_ofString hlib,
    sweepText_sweepText hlib.documented]

/-- **The canonical strings** of both models. -/
theorem canonicalString_ofString (h : canonicalString env room n text = .ok s) :
    Canonical.canonicalString lib.category (ofString room) (ofString (toString n))
      (ofString text) = .ok (ofString s) := by
  unfold canonicalString at h
  split at h
  · cases h
  · rename_i hroom
    split at h
    · cases h
    · rename_i hnonce
      cases h
      rw [Bool.not_eq_true', Bool.not_eq_false] at hroom hnonce
      rw [canonicalString_eq_ok_iff, matchesRoom_ofString, matchesNonce_ofString,
        nonceOf?_toString hnonce, sweepText_ofString hlib]
      refine ⟨⟨hroom, rfl⟩, ?_⟩
      simp only [ofString_append, List.append_assoc]
      rfl

theorem verify_sign {sig : String} (hdid : matchesDid env.did)
    (h : sign env room n text = .ok sig) :
    lib.verify env.did (ofString room) (ofString (toString n)) (ofString text) sig = true := by
  unfold sign at h
  cases hcanon : canonicalString env room n text with
  | error x =>
    rw [hcanon] at h
    cases h
  | ok canon =>
    rw [hcanon] at h
    simp only [bind, Except.bind] at h
    split at h
    · cases h
    · cases h
      unfold Checker.verify
      rw [hdid, canonicalString_ofString hlib hcanon]
      exact hlib.signed canon

end signing

/-! ## What is sent -/

/-- The body of a request. -/
def sent : Performed Net → Option (String × Body)
  | ⟨.post room body, _⟩ => some (room, body)
  | _ => none

/-- The rooms and bodies of all requests. -/
def bodies (t : List (Performed Net)) : List (String × Body) := t.filterMap sent

section calls

variable {env : Env} {proc : ProcessId} {room : String} {payload : Json}
  {signature nonce : Option String} {body : Body} {t t' : List (Performed Net)}
  {res : Except PyExc Json}

theorem bodies_append : bodies (t ++ t') = bodies t ++ bodies t' := List.filterMap_append

/-- All that is sent is one body. -/
def Sends (room : String) (body : Body) : Protocol Net Unit where
  allows _ o := o = .post room body
  next _ _ _ := ()

theorem attempts_sends (left : ℕ) :
    (attempts room body left).wp (Sends room body) (fun _ _ => True) () := by
  have hattempt : ∀ {again : PyExc → Proc Json},
      (∀ x, (again x).wp (Sends room body) (fun _ _ => True) ()) →
        (attempt room body again).wp (Sends room body) (fun _ _ => True) () := by
    intro again hagain
    unfold attempt
    rw [Prog.bind_eq, wp_bind, wp_attempt]
    refine wp_call.2 ⟨rfl, fun (r : Response) => ?_, fun x => ?_⟩
    · rw [bindPost_ok]
      by_cases hbusy : r.statusCode = 429
      · simp only [if_pos hbusy]
        exact hagain _
      · simp only [if_neg hbusy, wp_ofExcept]
    · rw [bindPost_ok]
      exact hagain _
  induction left with
  | zero => exact hattempt fun x => trivial
  | succ left ih => exact hattempt fun x => ih

theorem Admits.bodies (h : (Sends room body).Admits () t) : ∀ p ∈ bodies t, p = (room, body) := by
  induction t with
  | nil =>
    rintro p ⟨⟩
  | cons e t ih =>
    obtain ⟨o, r⟩ := e
    obtain ⟨ho, hrest⟩ := h
    obtain rfl : o = .post room body := ho
    rintro p (_ | ⟨_, hp⟩)
    · rfl
    · exact ih hrest p hp

/-- What is drawn, and with which answer of the generator. -/
theorem exec_drawNonce {n : Int} (h : Exec (drawNonce proc nonce) t (.ok n)) :
    (nonce = none ∧ t = [⟨.nextNonce proc, .ok n⟩]) ∨
      ∃ s candidate, nonce = some s ∧ nonceOf? s = some candidate ∧
        t = [⟨.ensureGreater proc candidate, .ok n⟩] := by
  cases nonce with
  | none => exact .inl ⟨rfl, exec_call_ok.1 h⟩
  | some s =>
    cases hs : nonceOf? s with
    | none =>
      simp only [drawNonce, hs] at h
      cases h
    | some candidate =>
      simp only [drawNonce, hs] at h
      exact .inr ⟨s, candidate, rfl, hs, exec_call_ok.1 h⟩

theorem bodies_drawNonce {r : Except PyExc Int} (h : Exec (drawNonce proc nonce) t r) :
    bodies t = [] := by
  unfold drawNonce at h
  split at h
  · obtain ⟨answer, rfl, -⟩ := exec_call_lift.1 h
    rfl
  · split at h
    · cases h
      rfl
    · obtain ⟨answer, rfl, -⟩ := exec_call_lift.1 h
      rfl

/-- **A call that sends a body** has prepared the text, drawn the nonce and made the body of them,
and sends nothing else. -/
theorem exec_signedPost (h : Exec (signedPost env proc room payload signature nonce) t res)
    (hsent : bodies t ≠ []) :
    ∃ text n body drawn rest, prepare env room payload = .ok text ∧ t = drawn ++ rest ∧
      Exec (drawNonce proc nonce) drawn (.ok n) ∧ bodyOf env room text signature n = .ok body ∧
      ∀ p ∈ bodies t, p = (room, body) := by
  unfold signedPost at h
  rcases exec_bind.1 h with ⟨text, t₁, t₂, rfl, hprepare, hdrawing⟩ | ⟨x, -, hprepare⟩
  swap
  · obtain ⟨rfl, -⟩ := exec_ofExcept.1 hprepare
    exact (hsent rfl).elim
  obtain ⟨rfl, hok⟩ := exec_ofExcept.1 hprepare
  rcases exec_bind.1 hdrawing with ⟨n, drawn, rest, rfl, hdraw, hmaking⟩ | ⟨x, -, hdraw⟩
  swap
  · exact (hsent (bodies_drawNonce hdraw)).elim
  have hnone := bodies_drawNonce hdraw
  rw [List.nil_append, bodies_append, hnone, List.nil_append] at hsent ⊢
  rcases exec_bind.1 hmaking with ⟨body, t₃, t₄, rfl, hbody, hposting⟩ | ⟨x, -, hbody⟩
  swap
  · obtain ⟨rfl, -⟩ := exec_ofExcept.1 hbody
    exact (hsent rfl).elim
  obtain ⟨rfl, hmade⟩ := exec_ofExcept.1 hbody
  refine ⟨text, n, body, drawn, t₄, hok.symm, rfl, hdraw, hmade.symm, ?_⟩
  rcases exec_bind.1 hposting with ⟨_, t₅, t₆, rfl, hhost, hsends⟩ | ⟨x, -, hhost⟩
  · obtain ⟨answer, rfl, -⟩ := exec_call_lift.1 hhost
    exact fun p hp => Admits.bodies (hsends.sound (attempts_sends _)).1 p hp
  · obtain ⟨answer, rfl, -⟩ := exec_call_lift.1 hhost
    rintro p ⟨⟩

end calls

/-! ## Texts -/

section texts

variable {env : Env} {lib : Checker} {room text : String} {payload : Json} {n : ℕ} {s : String}

theorem toList_clip : (clip n s).toList = s.toList.take n := String.toList_copy_take

theorem clip_eq_self_iff : clip n s = s ↔ s.length ≤ n := by
  rw [← String.toList_inj, toList_clip, List.take_eq_self_iff, String.length_toList]

theorem toList_sweepText : (sweepText env s).toList =
    s.toList.map fun c => if invisible env c then ' ' else c := String.toList_map

/-- What is posted is swept, and what is left of it after the cut. -/
theorem postText_eq (h : postText env payload = .ok text) :
    ∃ raw, rawText env payload = .ok raw ∧ text = clip 4096 (sweepText env raw) := by
  unfold postText at h
  cases hraw : rawText env payload with
  | error x =>
    rw [hraw] at h
    cases h
  | ok raw =>
    rw [hraw] at h
    simp only [bind, Except.bind] at h
    refine ⟨raw, rfl, ?_⟩
    split at h
    · cases h
    · cases h
      split
      · rfl
      · rename_i hshort
        exact (clip_eq_self_iff.2 (not_lt.1 hshort)).symm

/-- A part of a swept text is swept. -/
theorem sweepText_clip (hlib : Checks env lib) :
    sweepText env (clip n (sweepText env s)) = clip n (sweepText env s) := by
  rw [← String.toList_inj, toList_sweepText, toList_clip, List.map_take, ← toList_sweepText,
    sweepText_swept hlib]

/-- What `signed_post` has checked when a text is prepared. -/
theorem prepare_eq (h : prepare env room payload = .ok text) :
    postText env payload = .ok text := by
  unfold prepare at h
  by_cases hroom : AgentScorer.matchesRoom room
  · by_cases hkey : env.did = ""
    · simp [hroom, hkey, bind, Except.bind, throw, throwThe, MonadExceptOf.throw] at h
    · simpa [hroom, hkey] using h
  · simp [hroom, bind, Except.bind, throw, throwThe, MonadExceptOf.throw] at h

theorem of_check {ok : Bool} {msg : String} {u : Unit} (h : check ok msg = .ok u) : ok = true := by
  unfold check at h
  split at h
  · assumption
  · cases h

theorem bind_eq_ok {α β : Type} {x : Except PyExc α} {f : α → Except PyExc β} {b : β} :
    x >>= f = .ok b ↔ ∃ a, x = .ok a ∧ f a = .ok b := by
  cases x <;> simp [bind, Except.bind]

/-- **The parts of a body**, and what has been asserted of them. -/
theorem bodyOf_eq {signature : Option String} {m : Int} {body : Body}
    (h : bodyOf env room text signature m = .ok body) :
    body.text = text ∧ body.did = env.did ∧ body.nonce = m ∧ matchesDid env.did ∧ matchesNonce m ∧
      ((∃ sig ∈ signature, sig ≠ "" ∧ body.sig = sig) ∨
        (∀ sig ∈ signature, sig = "") ∧ sign env room m text = .ok body.sig) := by
  -- what follows the choice of the signature
  have hmade : ∀ sig, (do
      check (matchesDid env.did) ("DID pattern hatası: " ++ env.did)
      check (matchesSig sig) "sig pattern hatası"
      check (matchesNonce m) "nonce pattern hatası"
      return (⟨text, env.did, sig, m⟩ : Body) : Except PyExc Body) = .ok body →
      (matchesDid env.did ∧ matchesNonce m) ∧ body = ⟨text, env.did, sig, m⟩ := by
    intro sig hsig
    obtain ⟨_, hdid, hsig⟩ := bind_eq_ok.1 hsig
    obtain ⟨_, -, hsig⟩ := bind_eq_ok.1 hsig
    obtain ⟨_, hnonce, hsig⟩ := bind_eq_ok.1 hsig
    cases hsig
    exact ⟨⟨of_check hdid, of_check hnonce⟩, rfl⟩
  unfold bodyOf at h
  cases signature with
  | none =>
    obtain ⟨sig, hsig, h⟩ := bind_eq_ok.1 h
    obtain ⟨⟨hdid, hnonce⟩, rfl⟩ := hmade sig h
    exact ⟨rfl, rfl, rfl, hdid, hnonce, .inr ⟨by simp, hsig⟩⟩
  | some given =>
    by_cases hempty : given = ""
    · simp only [if_pos hempty] at h
      obtain ⟨sig, hsig, h⟩ := bind_eq_ok.1 h
      obtain ⟨⟨hdid, hnonce⟩, rfl⟩ := hmade sig h
      exact ⟨rfl, rfl, rfl, hdid, hnonce, .inr ⟨by simp [hempty], hsig⟩⟩
    · simp only [if_neg hempty] at h
      obtain ⟨sig, hsig, h⟩ := bind_eq_ok.1 h
      obtain ⟨⟨hdid, hnonce⟩, rfl⟩ := hmade sig h
      cases hsig
      exact ⟨rfl, rfl, rfl, hdid, hnonce, .inl ⟨given, rfl, hempty, rfl⟩⟩

end texts

/-! ## The law -/

section law

/-- The generator answers from its state, and the clock shows some time. -/
structure Drawn (g : MonotonicNonce) (nowMs : Int) (t : List (Performed Net)) : Prop where
  next : ∀ proc r, (⟨.nextNonce proc, r⟩ : Performed Net) ∈ t → r = .ok (g.next nowMs).2
  ensure : ∀ proc m r, (⟨.ensureGreater proc m, r⟩ : Performed Net) ∈ t →
    r = .ok (g.ensureGreater m).2

/-- Anyone can check the body against its own signature, and it is the only one of the call. -/
structure SelfConsistent (env : Env) (lib : Checker) (room : String) (t : List (Performed Net))
    (body : Body) : Prop where
  verifies : lib.verify body.did (ofString room) (ofString (toString body.nonce))
    (ofString body.text) body.sig = true
  swept : sweepText env body.text = body.text
  short : body.text.length ≤ 4096
  same : ∀ p ∈ bodies t, p = (room, body)

/-- A signature of the caller is one for the nonce of the caller and the text of the payload. -/
def CallerSigns (env : Env) (lib : Checker) (room : String) (payload : Json)
    (signature nonce : Option String) : Prop :=
  ∀ sig ∈ signature, sig ≠ "" → ∃ s ∈ nonce, ∃ raw, rawText env payload = .ok raw ∧
    lib.verify env.did (ofString room) (ofString s) (ofString raw) sig = true

/-- A signature of the caller is one of a single string. -/
def SignsOne (env : Env) (lib : Checker) (signature : Option String) : Prop :=
  ∀ sig ∈ signature, sig ≠ "" → ∀ canon canon', lib.accepts env.did canon sig = true →
    lib.accepts env.did canon' sig = true → canon = canon'

/-- If the caller signs, the nonce of the caller is a number as it is written, above those the
generator has passed, and the text is not cut off. -/
def LeftAlone (env : Env) (g : MonotonicNonce) (payload : Json)
    (signature nonce : Option String) : Prop :=
  ∀ sig ∈ signature, sig ≠ "" →
    (∃ s ∈ nonce, ∃ m ∈ nonceOf? s, g.last < m ∧ toString m = s) ∧
      ∀ raw, rawText env payload = .ok raw → (sweepText env raw).length ≤ 4096

variable {env : Env} {lib : Checker} {g : MonotonicNonce} {nowMs : Int} {proc : ProcessId}
  {room : String} {payload : Json} {signature nonce : Option String} {body : Body}
  {t : List (Performed Net)} {res : Except PyExc Json}

theorem verify_iff {did sig : String} {r n text : Str} : lib.verify did r n text sig = true ↔
    matchesDid did ∧ ∃ canon, Canonical.canonicalString lib.category r n text = .ok canon ∧
      lib.accepts did canon sig = true := by
  unfold Checker.verify
  by_cases hdid : matchesDid did
  · rw [if_neg (by simp [hdid])]
    cases Canonical.canonicalString lib.category r n text with
    | error x => simp
    | ok canon => simp [hdid]
  · rw [if_pos (by simp [hdid])]
    simp [hdid]

theorem ensureGreater_of_lt {m : Int} (h : g.last < m) : (g.ensureGreater m).2 = m :=
  if_neg (not_le.2 h)

/-- A candidate that the generator returns as it is was above those it had passed. -/
theorem lt_of_ensureGreater {m : Int} (h : (g.ensureGreater m).2 = m) : g.last < m := by
  by_contra hle
  have hnext : (g.ensureGreater m).2 = g.last + 1 := if_pos (not_lt.1 hle)
  omega

/-- The nonce that comes of the caller's. -/
theorem drawn_nonce {n : Int} {drawn rest : List (Performed Net)} {s : String}
    (hdraw : Exec (drawNonce proc nonce) drawn (.ok n)) (hs : s ∈ nonce)
    (hgen : Drawn g nowMs (drawn ++ rest)) :
    ∃ m ∈ nonceOf? s, n = (g.ensureGreater m).2 := by
  rcases exec_drawNonce hdraw with ⟨rfl, -⟩ | ⟨s', m, rfl, hm, rfl⟩
  · cases hs
  · cases hs
    have hanswer := hgen.ensure proc m _ (List.mem_append_left _ List.mem_cons_self)
    cases hanswer
    exact ⟨m, hm, rfl⟩

variable (hlib : Checks env lib)
  (h : Exec (signedPost env proc room payload signature nonce) t res)
  (hgen : Drawn g nowMs t) (hcaller : CallerSigns env lib room payload signature nonce)

include hlib h hgen hcaller

/-- **What a posted body consists of**: the text of the payload, swept and cut off, a nonce, and
the connector's own signature of them or the caller's, which was one for the caller's nonce and the
text before the cut. -/
theorem posted_body {p : String × Body} (hp : p ∈ bodies t) :
    ∃ raw, rawText env payload = .ok raw ∧ p.1 = room ∧ (∀ q ∈ bodies t, q = p) ∧
      p.2.text = clip 4096 (sweepText env raw) ∧ p.2.did = env.did ∧ matchesDid env.did ∧
      matchesNonce p.2.nonce ∧
      ((∀ sig ∈ signature, sig = "") ∧ lib.verify env.did (ofString room)
          (ofString (toString p.2.nonce)) (ofString p.2.text) p.2.sig = true ∨
        p.2.sig ∈ signature ∧ p.2.sig ≠ "" ∧ ∃ s ∈ nonce, ∃ m ∈ nonceOf? s,
          p.2.nonce = (g.ensureGreater m).2 ∧
          lib.verify env.did (ofString room) (ofString s) (ofString raw) p.2.sig = true) := by
  obtain ⟨text, n, body, drawn, rest, hprepare, rfl, hdraw, hbody, hall⟩ :=
    exec_signedPost h (List.ne_nil_of_mem hp)
  obtain rfl := hall p hp
  obtain ⟨raw, hraw, rfl⟩ := postText_eq (prepare_eq hprepare)
  obtain ⟨htext, hdid, rfl, hmatch, hnonce, hsig⟩ := bodyOf_eq hbody
  refine ⟨raw, hraw, rfl, hall, htext, hdid, hmatch, hnonce, ?_⟩
  rcases hsig with ⟨sig, hmem, hne, rfl⟩ | ⟨hnone, hsign⟩
  · obtain ⟨s, hs, raw', hraw', hverify⟩ := hcaller body.sig hmem hne
    rw [hraw] at hraw'
    cases hraw'
    obtain ⟨m, hm, hdrawn⟩ := drawn_nonce hdraw hs hgen
    exact .inr ⟨hmem, hne, s, hs, m, hm, hdrawn, hverify⟩
  · rw [← htext] at hsign
    exact .inl ⟨hnone, verify_sign hlib hmatch hsign⟩

/-- **What is sent verifies** if the caller's signature, if any, is for what is sent. -/
theorem selfConsistent_of_leftAlone {p : String × Body} (hp : p ∈ bodies t)
    (halone : LeftAlone env g payload signature nonce) :
    p.1 = room ∧ SelfConsistent env lib room t p.2 := by
  obtain ⟨raw, hraw, rfl, hall, htext, hdid, -, -, hsig⟩ := posted_body hlib h hgen hcaller hp
  refine ⟨rfl, ?_, ?_, ?_, hall⟩
  · rw [hdid]
    rcases hsig with ⟨-, hverify⟩ | ⟨hmem, hne, s, hs, m, hm, hnonce, hverify⟩
    · exact hverify
    · obtain ⟨⟨s', hs', m', hm', hlt, hwritten⟩, hshort⟩ := halone _ hmem hne
      obtain rfl := Option.mem_unique hs hs'
      obtain rfl := Option.mem_unique hm hm'
      rw [hnonce, ensureGreater_of_lt hlt, hwritten, htext, clip_eq_self_iff.2 (hshort raw hraw),
        ← sweepText_ofString hlib]
      obtain ⟨hdid', canon, hcanon, haccepts⟩ := verify_iff.1 hverify
      exact verify_iff.2 ⟨hdid', canon, canonicalString_sweepText hlib.documented hcanon, haccepts⟩
  · rw [htext, sweepText_clip hlib]
  · rw [htext, ← String.length_toList, toList_clip]
    exact List.length_take_le _ _

/-- What is sent does not verify otherwise. -/
theorem leftAlone_of_verifies {p : String × Body} (hp : p ∈ bodies t)
    (hone : SignsOne env lib signature)
    (hverify : lib.verify p.2.did (ofString room) (ofString (toString p.2.nonce))
      (ofString p.2.text) p.2.sig = true) :
    LeftAlone env g payload signature nonce := by
  obtain ⟨raw, hraw, -, -, htext, hdid, -, hnumber, hsig⟩ := posted_body hlib h hgen hcaller hp
  rcases hsig with ⟨hnone, -⟩ | ⟨hmem, hne, s, hs, m, hm, hnonce, hcalled⟩
  · intro sig hsig hne
    exact (hne (hnone sig hsig)).elim
  · rw [hdid] at hverify
    obtain ⟨-, canon, hcanon, haccepts⟩ := verify_iff.1 hverify
    obtain ⟨-, canon', hcanon', haccepts'⟩ := verify_iff.1 hcalled
    obtain rfl := hone _ hmem hne canon canon' haccepts haccepts'
    obtain ⟨-, hsame, hswept⟩ := canonicalString_decodes hcanon hcanon'
    rw [sweepText_ofString hlib, sweepText_ofString hlib, ofString_inj, htext,
      sweepText_clip hlib, eq_comm, clip_eq_self_iff] at hswept
    rw [ofString_inj] at hsame
    have hread : m = p.2.nonce := by
      have hnumber' := nonceOf?_toString hnumber
      rw [← hsame, Option.mem_def.1 hm] at hnumber'
      exact Option.some.inj hnumber'
    intro sig hsig' hne'
    refine ⟨⟨s, hs, m, hm, lt_of_ensureGreater ?_, ?_⟩, fun raw' hraw' => ?_⟩
    · rw [← hnonce, hread]
    · rw [hread, hsame]
    · rw [hraw] at hraw'
      cases hraw'
      exact hswept

/-- **A posted body is self-consistent** exactly if the signature, where it is the caller's, is for
what is posted. -/
theorem posted_body_iff {p : String × Body} (hp : p ∈ bodies t) :
    (LeftAlone env g payload signature nonce → p.1 = room ∧ SelfConsistent env lib room t p.2) ∧
      (SignsOne env lib signature → SelfConsistent env lib room t p.2 →
        LeftAlone env g payload signature nonce) := by
  constructor
  · exact selfConsistent_of_leftAlone hlib h hgen hcaller hp
  · intro hone hconsistent
    exact leftAlone_of_verifies hlib h hgen hcaller hp hone hconsistent.verifies

end law

/-! ## A caller that signs -/

/-- The caller's signature, and another. -/
def callerSig : String := String.ofList (List.replicate 86 'A')

/-- A key that signs one string with the caller's signature and all others with another one. -/
def signingEnv : Env where
  enabled := true
  maxRetries := 2
  did := "did:key:z6Mk11111111111111111111111111111111111111111111"
  signCanonical canon :=
    if canon = "lobby|5|hello" then callerSig else String.ofList (List.replicate 86 'B')
  category c := (sampleCategory (ofChar c)).name
  isSpace c := c = ' '
  textOf _ := "hello"
  dumps _ := ""

def signingLib : Checker where
  category := sampleCategory
  accepts _ canon sig := sig = if canon = ofString "lobby|5|hello" then callerSig
    else String.ofList (List.replicate 86 'B')

theorem signingLib_checks : Checks signingEnv signingLib where
  documented := sampleCategory_documented
  category _ := rfl
  signed canon := by
    simp only [signingLib, signingEnv, ofString_inj, decide_eq_true_eq]

/-- Everything succeeds, and the generator has last drawn `last`. -/
def answers (last : Int) : (o : Op) → Except LibError o.Ans
  | .nextNonce _ => .ok ((⟨last⟩ : MonotonicNonce).next 0).2
  | .ensureGreater _ m => .ok ((⟨last⟩ : MonotonicNonce).ensureGreater m).2
  | .validateBaseHost => .ok ()
  | .post .. => .ok ⟨200, none, ""⟩

/-- A call with the nonce 5 and a signature for it. -/
def signedCall : Proc Json :=
  signedPost signingEnv 0 "lobby" (.str "hello") (some callerSig) (some "5")

theorem signedCall_drawn (last : Int) :
    Drawn ⟨last⟩ 0 (signedCall.play (answers last)).1 where
  next _ _ h := result_of_mem_play h
  ensure _ _ _ h := result_of_mem_play h

theorem signedCall_signs : CallerSigns signingEnv signingLib "lobby" (.str "hello")
    (some callerSig) (some "5") := by
  rintro sig ⟨⟩ -
  refine ⟨"5", rfl, "hello", rfl, ?_⟩
  rfl

theorem signedCall_bodies : bodies (signedCall.play (answers 3)).1 =
    [("lobby", ⟨"hello", signingEnv.did, callerSig, 5⟩)] ∧
      bodies (signedCall.play (answers 10)).1 =
    [("lobby", ⟨"hello", signingEnv.did, callerSig, 11⟩)] := by
  decide +kernel

/-- The generator is below the caller's nonce. -/
theorem posted_body_iff_below :
    ∃ p ∈ bodies (signedCall.play (answers 3)).1, p.1 = "lobby" ∧
      SelfConsistent signingEnv signingLib "lobby" (signedCall.play (answers 3)).1 p.2 := by
  have hmem : ("lobby", (⟨"hello", signingEnv.did, callerSig, 5⟩ : Body)) ∈
      bodies (signedCall.play (answers 3)).1 := by
    rw [signedCall_bodies.1]
    exact List.mem_cons_self
  refine ⟨_, hmem, (posted_body_iff signingLib_checks (exec_play (answers 3) signedCall)
    (signedCall_drawn 3) signedCall_signs hmem).1 ?_⟩
  rintro sig ⟨⟩ -
  refine ⟨⟨"5", rfl, 5, by rfl, by decide, by rfl⟩, ?_⟩
  rintro raw ⟨⟩
  decide +kernel

/-- The generator has passed the caller's nonce, and the signature is posted with the next one. -/
theorem caller_signature_kept : ¬∀ (env : Env) (lib : Checker) (g : MonotonicNonce) (nowMs : Int)
    (proc : ProcessId) (room : String) (payload : Json) (signature nonce : Option String)
    (t : List (Performed Net)) (res : Except PyExc Json), Checks env lib →
      Exec (signedPost env proc room payload signature nonce) t res → Drawn g nowMs t →
        CallerSigns env lib room payload signature nonce → ∀ p ∈ bodies t,
          SelfConsistent env lib room t p.2 := by
  intro hclaim
  have hmem : ("lobby", (⟨"hello", signingEnv.did, callerSig, 11⟩ : Body)) ∈
      bodies (signedCall.play (answers 10)).1 := by
    rw [signedCall_bodies.2]
    exact List.mem_cons_self
  have hlaw := hclaim signingEnv signingLib ⟨10⟩ 0 0 "lobby" (.str "hello") (some callerSig)
    (some "5") _ _ signingLib_checks (exec_play (answers 10) signedCall) (signedCall_drawn 10)
    signedCall_signs _ hmem
  exact absurd hlaw.verifies (by decide)

end Observatory.Technocore
