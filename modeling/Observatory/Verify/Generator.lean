import Observatory.Model.Generator
import Observatory.Verify.Nonces
import Observatory.Verify.Posting

/-!
# The generator under its lock

A call goes well if the generator has a number of 19 digits left and the candidate, if there is one,
is a number with no more (`allowed_iff`); over a run of calls this is all it takes
(`orderly_iff`).  A candidate that is no number takes the lock with it (`generator_stuck`): the
handler calls `next`, which waits for the lock that the handler itself holds.
-/

namespace Observatory.Technocore

open Canonical (Str CodePoint ofChar)

/-! ## The digits of a nonce -/

theorem chomp_of_isDigit {s : Str} (h : ∀ c ∈ s, Canonical.isDigit c = true) :
    Canonical.chomp s = s := by
  unfold Canonical.chomp
  split
  · next hlast =>
    exact absurd (h _ (List.mem_of_getLast? hlast)) (by decide)
  · rfl

/-- **A nonce matches the pattern** if it has at most 19 digits and no sign. -/
theorem matchesNonce_str (n : Int) : Canonical.matchesNonce (str n) = matchesNonce n := by
  cases n with
  | ofNat n =>
    have hdigits : ∀ c ∈ str (.ofNat n), Canonical.isDigit c = true := by
      intro c hc
      obtain ⟨d, hd, rfl⟩ := List.mem_map.1 hc
      rw [isDigit_ofChar]
      exact Nat.isDigit_of_mem_toDigits (by decide) (by decide) hd
    have hne : str (.ofNat n) ≠ [] := fun h => Nat.toDigits_ne_nil (List.map_eq_nil_iff.1 h)
    have hlen : (str (.ofNat n)).length ≤ 19 ↔ n < 10 ^ 19 := by
      rw [str, List.length_map]
      exact Nat.length_toDigits_le_iff (by decide) (by decide)
    have hmax : Int.ofNat n ≤ MonotonicNonce.maxNonce ↔ n < 10 ^ 19 := by
      rw [MonotonicNonce.maxNonce, Int.ofNat_eq_natCast]
      omega
    rw [Canonical.matchesNonce, chomp_of_isDigit hdigits, matchesNonce,
      List.all_eq_true.2 hdigits]
    simp only [hne, hlen, hmax, ne_eq, not_false_eq_true, decide_true, Bool.and_true, Bool.true_and]
    rw [decide_eq_true (show 0 ≤ Int.ofNat n from Int.natCast_nonneg n), Bool.true_and]
  | negSucc n =>
    have hminus : ofChar '-' ∈ Canonical.chomp (str (.negSucc n)) := by
      rcases Canonical.mem_chomp_or_newline (s := str (.negSucc n)) List.mem_cons_self with h | h
      · exact h
      · exact absurd h (by decide)
    have hno : Canonical.matchesNonce (str (.negSucc n)) = false := by
      refine Bool.eq_false_of_not_eq_true fun h => ?_
      exact absurd (Canonical.isDigit_of_mem_chomp h hminus) (by decide)
    rw [hno]
    rfl

/-! ## Candidates of at most 19 digits -/

section candidate

variable {uni : Unicode} {s : Str} {c : CodePoint}

theorem digitOf_of_isDigit (h : Canonical.isDigit c = true) :
    uni.digitOf c = some (c.val - 0x30) ∧ c.val - 0x30 < 10 := by
  have hbounds : 0x30 ≤ c.val ∧ c.val ≤ 0x39 := by
    simpa only [Canonical.isDigit, Bool.and_eq_true, decide_eq_true_eq] using h
  refine ⟨?_, by omega⟩
  rw [Unicode.digitOf, if_pos (by omega), if_pos h]

theorem not_space_of_isDigit (h : Canonical.isDigit c = true) : uni.space c = false := by
  have hbounds : 0x30 ≤ c.val ∧ c.val ≤ 0x39 := by
    simpa only [Canonical.isDigit, Bool.and_eq_true, decide_eq_true_eq] using h
  rw [Unicode.space, if_pos (by omega)]
  simp only [Bool.or_eq_false_iff, Bool.and_eq_false_iff, decide_eq_false_iff_not]
  omega

theorem digitsOf_of_isDigit (hne : s ≠ []) (h : ∀ c ∈ s, Canonical.isDigit c = true) :
    uni.digitsOf s = some (s.map fun c => c.val - 0x30) := by
  induction s with
  | nil => exact absurd rfl hne
  | cons c s ih =>
    have hc := (@digitOf_of_isDigit uni c (h c List.mem_cons_self)).1
    cases s with
    | nil => simp only [Unicode.digitsOf, hc, Option.map_some, List.map_cons, List.map_nil]
    | cons d s =>
      have hd : d ≠ ofChar '_' := by
        rintro rfl
        exact absurd (h _ (List.mem_cons_of_mem c List.mem_cons_self)) (by decide)
      have hrest := ih (List.cons_ne_nil d s) fun e he => h e (List.mem_cons_of_mem c he)
      simp only [Unicode.digitsOf, hc, if_neg hd, hrest, Option.bind_eq_bind, Option.bind_some,
        Option.pure_def, List.map_cons]

theorem foldl_digits_lt {ds : List Nat} (h : ∀ d ∈ ds, d < 10) (n : Nat) :
    ds.foldl (fun n d => 10 * n + d) n < (n + 1) * 10 ^ ds.length := by
  induction ds generalizing n with
  | nil => simp
  | cons d ds ih =>
    have hd := h d List.mem_cons_self
    calc (d :: ds).foldl (fun n d => 10 * n + d) n
        < (10 * n + d + 1) * 10 ^ ds.length := ih (fun e he => h e (List.mem_cons_of_mem d he)) _
      _ ≤ (10 * (n + 1)) * 10 ^ ds.length := Nat.mul_le_mul_right _ (by omega)
      _ = (n + 1) * 10 ^ (ds.length + 1) := by rw [Nat.mul_comm 10, Nat.mul_assoc, ← Nat.pow_succ']

/-- The spaces around a number are not read. -/
theorem strip_eq (hspace : ∀ c ∈ Canonical.chomp s, uni.space c = false)
    (hne : Canonical.chomp s ≠ []) :
    ((s.dropWhile uni.space).reverse.dropWhile uni.space).reverse = Canonical.chomp s := by
  have hkeep : ∀ t : Str, (∀ c ∈ t, uni.space c = false) → t.dropWhile uni.space = t := by
    intro t ht
    cases t with
    | nil => rfl
    | cons c t => rw [List.dropWhile_cons_of_neg (by simp [ht c List.mem_cons_self])]
  have hfront : s.dropWhile uni.space = s := by
    unfold Canonical.chomp at hspace hne
    cases s with
    | nil => rfl
    | cons c s =>
      rw [List.dropWhile_cons_of_neg]
      refine (Bool.not_eq_true _).mpr (hspace c ?_)
      split
      · next hlast =>
        rw [if_pos hlast] at hne
        cases s with
        | nil => exact absurd rfl hne
        | cons d s => exact List.mem_cons_self
      · exact List.mem_cons_self
  rw [hfront]
  unfold Canonical.chomp at hspace ⊢
  split
  · next hlast =>
    rw [if_pos hlast] at hspace
    have hnewline : uni.space (ofChar '\n') = true := by
      rw [Unicode.space, if_pos (by decide)]
      decide
    have hsplit := List.dropLast_append_getLast? _ hlast
    conv_lhs => rw [← hsplit]
    rw [List.reverse_append, List.reverse_singleton, List.singleton_append,
      List.dropWhile_cons_of_pos hnewline,
      hkeep _ fun c hc => hspace c (List.mem_reverse.1 hc), List.reverse_reverse]
  · next hlast =>
    rw [if_neg hlast] at hspace
    rw [hkeep _ fun c hc => hspace c (List.mem_reverse.1 hc), List.reverse_reverse]

theorem natOf_of_isDigit (hne : s ≠ []) (h : ∀ c ∈ s, Canonical.isDigit c = true)
    (hlen : s.length ≤ 19) : ∃ n, uni.natOf s = some n ∧ n < 10 ^ 19 := by
  have hfew : ¬maxStrDigits < (s.map fun c => c.val - 0x30).length := by
    rw [List.length_map, maxStrDigits]
    omega
  have hnat : uni.natOf s =
      some ((s.map fun c => c.val - 0x30).foldl (fun n d => 10 * n + d) 0) := by
    rw [Unicode.natOf, digitsOf_of_isDigit hne h]
    simp only [Option.bind_eq_bind, Option.bind_some, if_neg hfew, Option.pure_def]
  have hsmall : ∀ d ∈ s.map fun c => c.val - 0x30, d < 10 := by
    intro d hd
    obtain ⟨c, hc, rfl⟩ := List.mem_map.1 hd
    exact (@digitOf_of_isDigit uni c (h c hc)).2
  have hlt := foldl_digits_lt hsmall 0
  rw [Nat.zero_add, Nat.one_mul, List.length_map] at hlt
  exact ⟨_, hnat, hlt.trans_le (Nat.pow_le_pow_right (by decide) hlen)⟩

/-- **A candidate that `signed_post` lets through** is a number of at most 19 digits. -/
theorem int_of_matchesNonce (h : Canonical.matchesNonce s = true) :
    ∃ v, uni.int s = some v ∧ v ≤ MonotonicNonce.maxNonce := by
  have hdigit : ∀ c ∈ Canonical.chomp s, Canonical.isDigit c = true := fun c hc =>
    Canonical.isDigit_of_mem_chomp h hc
  simp only [Canonical.matchesNonce, Bool.and_eq_true, decide_eq_true_eq] at h
  obtain ⟨⟨hne, -⟩, hlen⟩ := h
  obtain ⟨n, hnat, hlt⟩ := @natOf_of_isDigit uni _ hne hdigit hlen
  refine ⟨n, ?_, ?_⟩
  · rw [Unicode.int, strip_eq (fun c hc => not_space_of_isDigit (hdigit c hc)) hne]
    cases hchomp : Canonical.chomp s with
    | nil => exact absurd hchomp hne
    | cons c rest =>
      have hc : Canonical.isDigit c = true := hdigit c (hchomp ▸ List.mem_cons_self)
      have hminus : c ≠ ofChar '-' := by
        rintro rfl
        exact absurd hc (by decide)
      have hplus : c ≠ ofChar '+' := by
        rintro rfl
        exact absurd hc (by decide)
      rw [hchomp] at hnat
      simp only [if_neg hminus, if_neg hplus, hnat, Option.map_some, Int.ofNat_eq_natCast]
  · rw [MonotonicNonce.maxNonce]
    omega

end candidate

/-! ## A call -/

section step

variable {uni : Unicode} {g : LockedNonce} {call : LockedNonce.Call} {n : Int}

/-- **What a call needs**: a number that is left, and a candidate that is a number of 19 digits at
most. -/
def Allowed (uni : Unicode) (g : LockedNonce) : LockedNonce.Call → Prop
  | .next _ => g.gen.last < MonotonicNonce.maxNonce
  | .ensureGreater candidate _ => g.gen.last < MonotonicNonce.maxNonce ∧
      ∃ v, uni.int candidate = some v ∧ v ≤ MonotonicNonce.maxNonce

/-- The number that a call comes to, if it comes to one. -/
def comesTo (uni : Unicode) (g : LockedNonce) : LockedNonce.Call → Option Int
  | .next nowMs => some (g.gen.next nowMs).2
  | .ensureGreater candidate _ => (uni.int candidate).map fun v => (g.gen.ensureGreater v).2

/-- A body that comes to a number gives the lock back. -/
theorem withLock_ofInt {body : LockedNonce → LockedNonce × Outcome} (hfree : g.locked = false)
    (hbody : body { g with locked := true } = (⟨⟨n⟩, true⟩, .ofInt n)) :
    g.withLock body = ({ gen := ⟨n⟩ }, .ofInt n) := by
  have hcases : Outcome.ofInt n = .raised ∨ Outcome.ofInt n = .returned n := ite_eq_or_eq ..
  simp only [LockedNonce.withLock, hfree, Bool.false_eq_true, if_false, hbody]
  rcases hcases with h | h
  · rw [h]
  · rw [h]

/-- **A call under a free lock**: it comes to a number, or it waits for its own lock. -/
theorem step_eq (hfree : g.locked = false) : g.step uni call =
    match comesTo uni g call with
    | some n => ({ gen := ⟨n⟩ }, .ofInt n)
    | none => ({ g with locked := true }, .blocked) := by
  cases call with
  | next nowMs =>
    simp only [LockedNonce.step, LockedNonce.next, comesTo]
    exact withLock_ofInt hfree rfl
  | ensureGreater candidate nowMs =>
    cases hint : uni.int candidate with
    | none =>
      simp only [LockedNonce.step, LockedNonce.ensureGreater, LockedNonce.withLock, hfree, hint,
        LockedNonce.next, comesTo, Option.map_none, Bool.false_eq_true, if_false, if_true]
    | some v =>
      simp only [LockedNonce.step, LockedNonce.ensureGreater, hint, comesTo, Option.map_some]
      exact withLock_ofInt hfree rfl

/-- **Strictly monotone** whatever the clock shows and whoever chose the candidate. -/
theorem lt_comesTo (h : comesTo uni g call = some n) : g.gen.last < n := by
  cases call with
  | next nowMs =>
    cases h
    exact lt_next_iff.2 (.inl (le_refl _))
  | ensureGreater candidate nowMs =>
    obtain ⟨v, -, rfl⟩ := Option.map_eq_some_iff.1 h
    simp only [MonotonicNonce.ensureGreater]
    split <;> omega

/-- **What a call needs**, to come to a nonce. -/
theorem allowed_iff (hlast : 0 ≤ g.gen.last) :
    Allowed uni g call ↔ ∃ n, comesTo uni g call = some n ∧ matchesNonce n = true := by
  have hmatches : ∀ {n}, comesTo uni g call = some n →
      (matchesNonce n = true ↔ n ≤ MonotonicNonce.maxNonce) := by
    intro n hn
    have hlt := lt_comesTo hn
    simp only [matchesNonce, Bool.and_eq_true, decide_eq_true_eq]
    omega
  cases call with
  | next nowMs =>
    have hle : (g.gen.next nowMs).2 ≤ MonotonicNonce.maxNonce ↔
        g.gen.last < MonotonicNonce.maxNonce := by
      unfold MonotonicNonce.next
      grind
    constructor
    · intro h
      exact ⟨_, rfl, (hmatches rfl).2 (hle.2 h)⟩
    · rintro ⟨n, hn, h⟩
      cases hn
      exact hle.1 ((hmatches rfl).1 h)
  | ensureGreater candidate nowMs =>
    have hle : ∀ v, (g.gen.ensureGreater v).2 ≤ MonotonicNonce.maxNonce ↔
        g.gen.last < MonotonicNonce.maxNonce ∧ v ≤ MonotonicNonce.maxNonce := by
      intro v
      unfold MonotonicNonce.ensureGreater
      grind
    constructor
    · rintro ⟨hleft, v, hint, hv⟩
      have hn : comesTo uni g (.ensureGreater candidate nowMs) = some _ :=
        congrArg (Option.map _) hint
      exact ⟨_, hn, (hmatches hn).2 ((hle v).2 ⟨hleft, hv⟩)⟩
    · rintro ⟨n, hn, h⟩
      obtain ⟨v, hint, rfl⟩ := Option.map_eq_some_iff.1 hn
      obtain ⟨hleft, hv⟩ := (hle v).1 ((hmatches hn).1 h)
      exact ⟨hleft, v, hint, hv⟩

/-- A nonce has no more digits than the interpreter writes. -/
theorem ofInt_returned (h : matchesNonce n = true) : Outcome.ofInt n = .returned n := by
  simp only [matchesNonce, Bool.and_eq_true, decide_eq_true_eq] at h
  have hlt : n.natAbs < 10 ^ 19 := by
    have hmax := h.2
    rw [MonotonicNonce.maxNonce] at hmax
    omega
  have hlen := (Nat.length_toDigits_le_iff (b := 10) (by decide) (by decide)).2 hlt
  exact if_neg (Nat.not_lt.2 (hlen.trans (by decide)))

theorem of_ofInt_returned {m : Int} (h : Outcome.ofInt n = .returned m) : n = m := by
  unfold Outcome.ofInt at h
  split at h
  · cases h
  · exact Outcome.returned.inj h

/-- For a candidate of at most 19 digits it is enough that a number is left. -/
theorem allowed_of_matchesNonce {candidate : Str} {nowMs : Int}
    (h : Canonical.matchesNonce candidate = true) :
    Allowed uni g (.ensureGreater candidate nowMs) ↔ g.gen.last < MonotonicNonce.maxNonce :=
  and_iff_left (int_of_matchesNonce h)

end step

/-! ## Runs -/

/-- **An orderly run** after the nonce `last`: every call returns, the numbers increase strictly,
and each string matches the pattern. -/
def OrderlyAfter (last : Int) (results : List Outcome) : Prop :=
  ∃ ns : List Int, results = ns.map .returned ∧ (last :: ns).Pairwise (· < ·) ∧
    ∀ n ∈ ns, Canonical.matchesNonce (str n) = true

/-- Every call is allowed in the state in which it is made. -/
def AllAllowed (uni : Unicode) (g : LockedNonce) : List LockedNonce.Call → Prop
  | [] => True
  | call :: calls => Allowed uni g call ∧ AllAllowed uni (g.step uni call).1 calls

theorem orderlyAfter_iff {uni : Unicode} {g : LockedNonce} (hfree : g.locked = false)
    (hlast : 0 ≤ g.gen.last) (calls : List LockedNonce.Call) :
    OrderlyAfter g.gen.last (g.run uni calls) ↔ AllAllowed uni g calls := by
  induction calls generalizing g with
  | nil => exact ⟨fun _ => trivial, fun _ => ⟨[], rfl, List.pairwise_singleton _ _, by simp⟩⟩
  | cons call calls ih =>
    have hstep := @step_eq uni g call hfree
    constructor
    · rintro ⟨ns, hresults, hincreasing, hmatch⟩
      cases ns with
      | nil => cases hresults
      | cons n ns =>
        obtain ⟨hhead, htail⟩ := List.cons.inj hresults
        rw [hstep] at hhead
        cases hn : comesTo uni g call with
        | none =>
          rw [hn] at hhead
          cases hhead
        | some m =>
          rw [hn] at hhead hstep
          obtain rfl := of_ofInt_returned hhead
          have hm : matchesNonce m = true := by
            rw [← matchesNonce_str]
            exact hmatch m List.mem_cons_self
          have hpos : 0 ≤ m := hlast.trans (lt_comesTo hn).le
          refine ⟨(allowed_iff hlast).2 ⟨m, hn, hm⟩, ?_⟩
          rw [hstep] at htail ⊢
          refine (ih rfl hpos).1 ⟨ns, htail, (List.pairwise_cons.1 hincreasing).2, ?_⟩
          exact fun n hn => hmatch n (List.mem_cons_of_mem _ hn)
    · rintro ⟨hallowed, hrest⟩
      obtain ⟨m, hn, hm⟩ := (allowed_iff hlast).1 hallowed
      have hlt := lt_comesTo hn
      rw [hn] at hstep
      rw [hstep] at hrest
      obtain ⟨ns, hresults, hincreasing, hmatch⟩ := (ih rfl (hlast.trans hlt.le)).2 hrest
      refine ⟨m :: ns, ?_, List.pairwise_cons.2 ⟨?_, hincreasing⟩, ?_⟩
      · simp only [LockedNonce.run, hstep, hresults, ofInt_returned hm, List.map_cons]
      · rintro n hmem
        rcases List.mem_cons.1 hmem with rfl | hmem
        · exact hlt
        · exact hlt.trans ((List.pairwise_cons.1 hincreasing).1 n hmem)
      · rintro n hmem
        rcases List.mem_cons.1 hmem with rfl | hmem
        · rw [matchesNonce_str]
          exact hm
        · exact hmatch n hmem

/-- **A run of calls is orderly** just if each of them finds a number left and, if it brings a
candidate, brings a number of at most 19 digits. -/
theorem orderly_iff (uni : Unicode) (calls : List LockedNonce.Call) :
    OrderlyAfter 0 (LockedNonce.run uni {} calls) ↔ AllAllowed uni {} calls :=
  orderlyAfter_iff rfl (le_refl _) calls

/-- No digits and no spaces but those of ASCII. -/
def asciiOnly : Unicode := ⟨fun _ => none, fun _ => false⟩

/-- A candidate that is no number stops the generator for good, and one of 19 nines uses it up. -/
theorem generator_stuck :
    LockedNonce.run asciiOnly {} [.ensureGreater (Canonical.ofString "abc") 1, .next 2] =
      [.blocked, .blocked] ∧
    ¬(∀ (uni : Unicode) (calls : List LockedNonce.Call),
      OrderlyAfter 0 (LockedNonce.run uni {} calls)) ∧
    ¬OrderlyAfter 0 (LockedNonce.run asciiOnly {}
      [.ensureGreater (Canonical.ofString "9999999999999999999") 1, .next 2]) := by
  have hnone : asciiOnly.int (Canonical.ofString "abc") = none := by decide
  have hnines : asciiOnly.int (Canonical.ofString "9999999999999999999") =
      some MonotonicNonce.maxNonce := by decide
  refine ⟨?_, fun hclaim => ?_, fun horderly => ?_⟩
  · rfl
  · obtain ⟨⟨-, v, hint, -⟩, -⟩ := (orderlyAfter_iff rfl (le_refl _) _).1
      (hclaim asciiOnly [.ensureGreater (Canonical.ofString "abc") 1])
    rw [hnone] at hint
    cases hint
  · obtain ⟨-, hleft, -⟩ := (orderlyAfter_iff rfl (le_refl _) _).1 horderly
    have hstep := @step_eq asciiOnly {} (.ensureGreater
      (Canonical.ofString "9999999999999999999") 1) rfl
    simp only [comesTo, hnines, Option.map_some] at hstep
    rw [Allowed, hstep] at hleft
    exact absurd hleft (by decide)

end Observatory.Technocore
