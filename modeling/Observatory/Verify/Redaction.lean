import Mathlib.Data.List.TakeWhile
import Observatory.Verify.Cuts

/-!
# What redaction leaves of a secret

The pattern of a loaded value comes after the static ones and those of the values loaded before it,
and it only finds a value that has come to it whole.  It does if nothing in the text as it is given
matches across the value (`Guarded`), or nothing matches before it at all (`Untouched`).  Where a
static pattern takes a part of the value and nothing else is there to match, the rest is left
(`Lone.not_masks`, `secret_cut`).
-/

namespace Observatory.Redaction

open Regex

/-- The last eight characters of a value. -/
def tail (v : String) : List Char := v.toList.drop (v.length - 8)

/-- Neither the value nor its end is left of the text. -/
structure Masks (uni : Unicode) (loaded : List String) (p : List Char) (v : String)
    (q : List Char) : Prop where
  value : ¬v.toList <:+: redact uni loaded (p ++ v.toList ++ q)
  tail : ¬tail v <:+: redact uni loaded (p ++ v.toList ++ q)

/-! ## Loaded values -/

section loaded

variable {uni : Unicode} {v : String}

/-- Only long values are loaded. -/
def Long (loaded : List String) : Prop := ∀ v ∈ loaded, 12 ≤ v.length

theorem redact_eq {loaded : List String} (x : List Char) :
    redact uni loaded x = subAll (patterns uni loaded) x := by
  have hnil : ∀ ss : List (Rule Char), subAll ss [] = [] := by
    intro ss
    induction ss with
    | nil => rfl
    | cons s ss ih => exact ih
  cases x with
  | nil => exact (hnil _).symm
  | cons c x => rfl

/-- The values that are loaded before `v`. -/
def loadedBefore (loaded : List String) (v : String) : List String := loaded.takeWhile (· ≠ v)

/-- The values that are loaded after it. -/
def loadedAfter (loaded : List String) (v : String) : List String :=
  (loaded.dropWhile (· ≠ v)).tail

theorem eq_loadedBefore {loaded : List String} (hv : v ∈ loaded) :
    loaded = loadedBefore loaded v ++ v :: loadedAfter loaded v := by
  have hsplit := List.takeWhile_append_dropWhile (p := (· ≠ v)) (l := loaded)
  unfold loadedAfter
  cases hdrop : loaded.dropWhile (· ≠ v) with
  | nil =>
    rw [List.dropWhile_eq_nil_iff] at hdrop
    exact absurd rfl (of_decide_eq_true (hdrop v hv))
  | cons y after =>
    have hy := List.head?_dropWhile_not (· ≠ v) loaded
    rw [hdrop] at hy hsplit
    obtain rfl : y = v := by simpa using hy
    exact hsplit.symm

theorem tail_ne_nil (hv : 8 ≤ v.length) : tail v ≠ [] := by
  intro hnil
  have hlen := congrArg List.length hnil
  rw [tail, List.length_drop, String.length_toList, List.length_nil] at hlen
  omega

theorem take_append_tail (v : String) : v.toList.take (v.length - 8) ++ tail v = v.toList :=
  List.take_append_drop _ _

end loaded

/-! ## When nothing cuts a value -/

/-- All of a value but its last eight characters. -/
def front (v : String) : List Char := v.toList.take (v.length - 8)

/-- What a pattern puts in does not complete a copy of `t`: `t` is not in a placeholder, does not
begin with the end of one, and does not end with the beginning of one that could stand behind what
`t` begins with. -/
structure Separate (uni : Unicode) (t x : List Char) : Prop where
  inside : ∀ new ∈ placeholderTexts, ¬t <:+: new.toList
  ends : ∀ new ∈ placeholderTexts, ∀ n, n <:+ new.toList → n ≠ [] → ¬n <+: t
  starts : ∀ new ∈ placeholderTexts, new.toList.head? = some '<' →
    ∀ n, n <+: new.toList → n ≠ [] → ¬n <:+ t
  assigned : ∀ t₁ n, t = t₁ ++ n → n ≠ [] → n <+: "=<REDACTED>".toList →
    ∀ name ∈ authorizationNames ++ assignmentNames ++ passwordNames, ∀ y,
      Reads uni y name.toList → ¬y <:+ t₁ ∧ ¬t₁ <:+ y
  aws : (∀ n, n <+: "aws_secret_access_key=<REDACTED>".toList → n ≠ [] → ¬n <:+ t) ∨
    ¬Occurs (letters uni "aws_secret_access_key") x

/-- **Nothing matches across the value** in the text as it is given: its end stands nowhere else, and
no static pattern, and no copy of a value loaded before it or of the value itself, ends in its
front. -/
structure Guarded (uni : Unicode) (loaded : List String) (p : List Char) (v : String)
    (q : List Char) : Prop where
  once : ∀ a b, p ++ v.toList ++ q = a ++ tail v ++ b → a = p ++ front v
  separate : Separate uni (tail v) (p ++ v.toList ++ q)
  uncut : ∀ before k after,
    allProfiles uni (front v) (tail v) (loadedBefore loaded v ++ [v]) = before ++ k :: after →
      ¬k.crosses (before.flatMap Profile.openings) p q

/-- **Nothing matches before the value's own pattern**, and the value stands in one place. -/
structure Untouched (uni : Unicode) (loaded : List String) (p : List Char) (v : String)
    (q : List Char) : Prop where
  static : ∀ s ∈ staticPatterns uni, s.untouched (p ++ v.toList ++ q)
  values : ∀ y ∈ loadedBefore loaded v, ¬y.toList <:+: p ++ v.toList ++ q
  once : ∀ a b, p ++ v.toList ++ q = a ++ v.toList ++ b → a = p
  left : ¬tail v <:+: p
  right : ¬tail v <:+: q
  separate : Separate uni (tail v) (p ++ v.toList ++ q)

/-- **Only one pattern before the value's own may match**: what the others show or begin with is not
in the text, and neither are values loaded later or long runs, nor may what the pattern puts in be a
part of one. -/
structure Lone (uni : Unicode) (loaded : List String) (p : List Char) (v : String) (q : List Char)
    (before : List (Profile Char)) (k : Profile Char) (after : List (Profile Char)) : Prop where
  split : allProfiles uni (front v) (tail v) (loadedBefore loaded v) = before ++ k :: after
  before : ¬Opened (before.flatMap Profile.openings) (p ++ v.toList ++ q)
  after : ¬Opened (after.flatMap Profile.begins) (p ++ v.toList ++ q)
  later : ∀ y ∈ loadedAfter loaded v, ¬y.toList <:+: p ++ v.toList ++ q
  runs : ¬Occurs runOpening (p ++ v.toList ++ q)
  apart : ∀ e ∈ runOpening :: loaded.map exactly, ∀ new ∈ k.rule.puts, Apart '>' e new
  once : ∀ a b, p ++ v.toList ++ q = a ++ tail v ++ b → a = p ++ front v
  separate : Separate uni (tail v) (p ++ v.toList ++ q)

section completed

variable {uni : Unicode} {t x : List Char}

theorem placeholderText_long : ∀ new ∈ placeholderTexts, 8 ≤ new.toList.length := by
  decide +kernel

/-- What `Separate` says of the placeholder of a rule. -/
theorem Separate.puts (h : Separate uni t x) (ht : t.length = 8) {s : Rule Char} {new : String}
    (hs : s.puts = [new.toList]) (hnew : new ∈ placeholderTexts) :
    ∀ n ∈ s.puts, t.length ≤ n.length ∧ ¬t <:+: n ∧ ∀ m, m <:+ n → m ≠ [] → ¬m <+: t := by
  rw [hs, List.forall_mem_singleton, ht]
  exact ⟨placeholderText_long new hnew, h.inside new hnew, h.ends new hnew⟩

theorem mem_puts_singleton {s : Rule Char} {new : String} (hs : s.puts = [new.toList])
    {y ps₁ ps₂} {old n : List Char} (hps : s.pieces y = ps₁ ++ .put old n :: ps₂) :
    n = new.toList := by
  have hmem := Rule.mem_puts_of_eq hps
  rw [hs] at hmem
  exact List.mem_singleton.1 hmem

/-- A pattern that puts in a placeholder by itself. -/
theorem Separate.not_completed (h : Separate uni t x) (ht : t.length = 8) {s : Rule Char}
    (new : String) (hs : s.puts = [new.toList]) (hnew : new ∈ placeholderTexts)
    (hmark : new.toList.head? = some '<') (y u v : List Char) : ¬Completed t (s.pieces y) u v := by
  refine Regex.not_completed (h.puts ht hs hnew) fun ps₁ old n ps₂ hps t₁ m hm heq hpre _ => ?_
  rw [mem_puts_singleton hs hps] at hpre
  exact h.starts new hnew hmark m hpre hm ⟨t₁, heq.symm⟩

/-- A pattern that keeps a name and puts in a placeholder behind it. -/
theorem Separate.not_completed_named (h : Separate uni t x) (ht : t.length = 8) {s : Rule Char}
    (hs : s.puts = ["=<REDACTED>".toList]) {ns : List String} (hfollows : Follows s (names uni ns))
    (hns : ns ⊆ authorizationNames ++ assignmentNames ++ passwordNames) (y u v : List Char) :
    ¬Completed t (s.pieces y) u v := by
  refine Regex.not_completed (h.puts ht hs (by decide)) fun ps₁ old n ps₂ hps t₁ m hm heq hpre hsuf => ?_
  rw [mem_puts_singleton hs hps] at hpre
  obtain ⟨sh, hsh, z, hz, hname⟩ := hfollows y ps₁ old n ps₂ hps
  obtain ⟨name, hmem, hreads⟩ := fits_names.1 ⟨sh, hsh, hz⟩
  obtain ⟨hlong, hshort⟩ := h.assigned t₁ m heq hm hpre name (hns hmem) z hreads
  rcases List.suffix_or_suffix_of_suffix hname hsuf with hle | hle
  · exact hlong hle
  · exact hshort hle

theorem Separate.not_completed_aws (h : Separate uni t x) (ht : t.length = 8) {y u v : List Char}
    (hback : Occurs (letters uni "aws_secret_access_key") y →
      Occurs (letters uni "aws_secret_access_key") x) :
    ¬Completed t ((awsSecret uni).pieces y) u v := by
  have hs : (awsSecret uni).puts = ["aws_secret_access_key=<REDACTED>".toList] := rfl
  refine Regex.not_completed (h.puts ht hs (by decide)) fun ps₁ old n ps₂ hps t₁ m hm heq hpre _ => ?_
  rw [mem_puts_singleton hs hps] at hpre
  rcases h.aws with hstart | habsent
  · exact hstart m hpre hm ⟨t₁, heq.symm⟩
  · have hput : .put old n ∈ (awsSecret uni).pieces y := by
      rw [hps]
      exact List.mem_append_right _ List.mem_cons_self
    obtain ⟨e, he, hocc⟩ := awsSecret_found.opened_of_put hput
    rw [List.mem_singleton.1 he] at hocc
    exact habsent (hback hocc)

/-- **No placeholder completes a copy**, whatever the patterns find. -/
theorem Separate.uncompleted (huni : uni.Documented) (h : Separate uni t x) (ht : t.length = 8)
    (loaded : List String) : Uncompleted t (patterns uni loaded) x := by
  have hsplit : patterns uni loaded = (firstProfiles uni [] []).map Profile.rule ++
      (awsSecret uni :: ([password uni, databaseUrl uni] ++ loaded.map valuePattern ++
        secretValuePatterns uni)) := rfl
  have hfirst : ∀ s ∈ (firstProfiles uni [] []).map Profile.rule, ∀ y u v,
      ¬Completed t (s.pieces y) u v := by
    simp only [firstProfiles, List.map_cons, List.map_nil, List.forall_mem_cons]
    exact ⟨h.not_completed_named ht rfl (follows_of_pair authorization_name) (by decide),
      h.not_completed ht "<TG_TOKEN_REDACTED>" rfl (by decide) rfl,
      h.not_completed ht "<JWT_REDACTED>" rfl (by decide) rfl,
      h.not_completed ht "<SECRET_REDACTED>" rfl (by decide) rfl,
      h.not_completed_named ht rfl (follows_of_pair assignment_name) (by decide),
      h.not_completed ht "<PRIVATE_KEY_REDACTED>" rfl (by decide) rfl,
      h.not_completed ht "<AWS_KEY_REDACTED>" rfl (by decide) rfl, by simp⟩
  have hlater : ∀ s ∈ [password uni, databaseUrl uni] ++ loaded.map valuePattern ++
      secretValuePatterns uni, ∀ y u v, ¬Completed t (s.pieces y) u v := by
    refine List.forall_mem_append.2 ⟨List.forall_mem_append.2 ⟨?_, fun s hs => ?_⟩, ?_⟩
    · simp only [List.forall_mem_cons]
      exact ⟨h.not_completed_named ht rfl (follows_of_pair password_name) (by decide),
        h.not_completed ht "<REDACTED>" rfl (by decide) rfl, by simp⟩
    · obtain ⟨v, -, rfl⟩ := List.mem_map.1 hs
      exact h.not_completed ht "<ENV_REDACTED>" rfl (by decide) rfl
    · simp only [secretValuePatterns, List.forall_mem_cons]
      exact ⟨h.not_completed ht "<SECRET_REDACTED>" rfl (by decide) rfl,
        h.not_completed ht "<SECRET_REDACTED>" rfl (by decide) rfl, by simp⟩
  rw [hsplit]
  refine (Uncompleted.of_forall hfirst).append ⟨fun u v => ?_, .of_forall hlater⟩
  refine h.not_completed_aws ht (Occurs.back_all (g := '>') fun s hs new hnew => ?_)
  obtain ⟨k, hk, rfl⟩ := List.mem_map.1 hs
  obtain ⟨n, hn, rfl⟩ := (firstProfiles_open huni k hk).puts new hnew
  exact (awsName_apart huni _ List.mem_cons_self).2 n hn

end completed

theorem front_append_tail (v : String) : front v ++ tail v = v.toList := take_append_tail v

section masks

variable {uni : Unicode} {loaded : List String} {v : String} {p q : List Char}

theorem tail_length (hv : 8 ≤ v.length) : (tail v).length = 8 := by
  rw [tail, List.length_drop, String.length_toList]
  omega

theorem toList_ne_nil {y : String} (hy : 8 ≤ y.length) : y.toList ≠ [] := by
  intro hnil
  rw [← String.length_toList, hnil] at hy
  exact absurd hy (by decide)

/-- If no copy of its end comes through, a value is masked. -/
theorem masks_of_not_original (huni : uni.Documented) (hv : 8 ≤ v.length)
    (hseparate : Separate uni (tail v) (p ++ v.toList ++ q))
    (h : ¬OriginalCopy (tail v) (patterns uni loaded) (p ++ v.toList ++ q)) :
    Masks uni loaded p v q := by
  have htail : ¬tail v <:+: redact uni loaded (p ++ v.toList ++ q) := by
    rw [redact_eq, infix_subAll_iff (tail_ne_nil hv)]
    rintro (hcopy | hcopy)
    · exact h hcopy
    · exact (hseparate.uncompleted huni (tail_length hv) _).not_completedCopy hcopy
  have hend : tail v <:+: v.toList := (List.drop_suffix _ _).isInfix
  exact ⟨fun hin => htail (hend.trans hin), htail⟩

/-- The patterns around the value's own. -/
theorem patterns_around (hv : v ∈ loaded) (w t : List Char) : patterns uni loaded =
    (allProfiles uni w t (loadedBefore loaded v)).map Profile.rule ++ (valuePattern v ::
      ((loadedAfter loaded v).map valuePattern ++ secretValuePatterns uni)) := by
  rw [map_rule_allProfiles, patterns]
  conv_lhs => rw [eq_loadedBefore hv]
  simp

/-- **A value that nothing cuts is masked**: it comes to its own pattern whole, or its end has gone
before. -/
theorem Guarded.masks (huni : uni.Documented) (hlong : Long loaded) (hv : v ∈ loaded)
    (h : Guarded uni loaded p v q) : Masks uni loaded p v q := by
  have hvlong : 8 ≤ v.length := le_trans (by decide) (hlong v hv)
  have hvalue : ∀ y ∈ loadedBefore loaded v ++ [v], y.toList ≠ [] := by
    intro y hy
    have hmem : y ∈ loaded := by
      rw [eq_loadedBefore hv, ← List.singleton_append, ← List.append_assoc]
      exact List.mem_append_left _ hy
    exact toList_ne_nil (le_trans (by decide) (hlong y hmem))
  have hsplit : patterns uni loaded =
      (allProfiles uni (front v) (tail v) (loadedBefore loaded v ++ [v])).map Profile.rule ++
        ((loadedAfter loaded v).map valuePattern ++ secretValuePatterns uni) := by
    rw [patterns_around hv (front v) (tail v), map_rule_allProfiles, map_rule_allProfiles]
    simp
  refine masks_of_not_original huni hvlong h.separate ?_
  rintro ⟨a, b, htext, hcopy⟩
  obtain rfl := h.once a b htext
  have hrest : (p ++ front v ++ tail v) ++ q = (p ++ front v ++ tail v) ++ b := by
    rw [← htext, List.append_assoc p, front_append_tail]
  obtain rfl := List.append_cancel_left hrest
  rw [hsplit] at hcopy
  refine not_stays_of_profiles
    (fun k hk u v' => crosses_of_leaves (tail_ne_nil hvlong) hvalue k hk)
    (allProfiles_after huni) ?_ h.uncut hcopy
  refine ⟨(Profile.literal '>' v.toList "<ENV_REDACTED>".toList (front v)).exact (front v) (tail v),
    ?_, fun u v' u' v'' hpass => ?_⟩
  · exact List.mem_append_right _ (List.mem_map_of_mem (f := fun y : String =>
      (Profile.literal '>' y.toList _ (front v)).exact (front v) (tail v)) (by simp))
  · rw [front_append_tail] at hpass
    exact not_passes_whole (toList_ne_nil hvlong) hpass

/-- **A value to whose pattern the text comes as it is** is masked. -/
theorem Untouched.masks (huni : uni.Documented) (hlong : Long loaded) (hv : v ∈ loaded)
    (h : Untouched uni loaded p v q) : Masks uni loaded p v q := by
  have hvlong : 8 ≤ v.length := le_trans (by decide) (hlong v hv)
  refine masks_of_not_original huni hvlong h.separate ?_
  rintro ⟨a, b, htext, hcopy⟩
  have hbefore : (staticPatterns uni ++ (loadedBefore loaded v).map valuePattern).all fun s =>
      s.untouched (a ++ tail v ++ b) := by
    rw [← htext, List.all_eq_true]
    refine List.forall_mem_append.2 ⟨h.static, List.forall_mem_map.2 fun y hy => ?_⟩
    exact untouched_replacing (h.values y hy)
  rw [patterns_around hv [] [], map_rule_allProfiles,
    stays_append_iff (tail_ne_nil hvlong) hbefore] at hcopy
  obtain ⟨u', v', hpass, -⟩ := hcopy
  -- its own pattern replaces the whole value, and leaves what is beside it
  have hfirst : ∀ a' b', p ++ v.toList = a' ++ v.toList ++ b' → b' = [] := by
    intro a' b' hab
    obtain rfl := h.once a' (b' ++ q) (by rw [hab, List.append_assoc])
    exact List.append_right_eq_self.1 hab.symm
  obtain ⟨ps, hps⟩ := @Rule.scan_replacing Char _ v.toList "<ENV_REDACTED>".toList none
    (toList_ne_nil hvlong) p q _ le_rfl hfirst
  have hpieces : (valuePattern v).pieces (p ++ v.toList ++ q) =
      p.map .keep ++ .put v.toList "<ENV_REDACTED>".toList :: ps := hps
  have hrest : oldText ps = q := by
    have hold := Rule.oldText_pieces (valuePattern v) (p ++ v.toList ++ q)
    rw [hpieces, oldText_append, oldText_keep, oldText_cons, Piece.old, ← List.append_assoc] at hold
    exact List.append_cancel_left hold
  rw [← htext, hpieces] at hpass
  rcases hpass.beside with hin | hin
  · rw [oldText_keep] at hin
    exact h.left hin
  · exact h.right (hrest ▸ hin)

end masks

section lone

variable {uni : Unicode} {loaded : List String} {v : String} {p q : List Char}
  {before after : List (Profile Char)} {k : Profile Char}

theorem eq_front_tail : p ++ v.toList ++ q = p ++ front v ++ tail v ++ q := by
  rw [List.append_assoc p (front v), front_append_tail]

theorem Lone.mem (h : Lone uni loaded p v q before k after) {s : Profile Char}
    (hs : s ∈ before ++ k :: after) :
    s ∈ allProfiles uni (front v) (tail v) (loadedBefore loaded v) := h.split ▸ hs

theorem mem_of_loadedBefore {y : String} (hy : y ∈ loadedBefore loaded v) : y ∈ loaded :=
  (List.takeWhile_prefix _).subset hy

theorem Lone.untouched_before (h : Lone uni loaded p v q before k after) :
    ∀ s ∈ before, s.rule.untouched (p ++ v.toList ++ q) := by
  intro s hs
  refine untouched_of_openings s (h.mem (List.mem_append_left _ hs)) ?_
  rintro ⟨e, he, ho⟩
  exact h.before ⟨e, List.mem_flatMap.2 ⟨s, hs, he⟩, ho⟩

/-- The front of a value in its text. -/
theorem front_infix : p ++ front v <:+: p ++ v.toList ++ q := by
  rw [eq_front_tail, List.append_assoc (p ++ front v)]
  exact (List.prefix_append _ _).isInfix

/-- No loaded value contains the mark. -/
theorem Lone.mark (h : Lone uni loaded p v q before k after) : ∀ y ∈ loaded, '>' ∉ y.toList := by
  intro y hy hin
  obtain ⟨new, -, hputs⟩ := puts_of_mem k (h.mem (List.mem_append_right _ List.mem_cons_self))
  have hapart := h.apart _ (List.mem_cons_of_mem _ (List.mem_map_of_mem hy)) new.toList
    (hputs ▸ List.mem_cons_self)
  obtain ⟨c, hc, htrue⟩ := (fits_exactly (n := y)).mem hin
  rw [hapart.avoids c hc] at htrue
  cases htrue

/-- A pattern that comes no later than the one that may match has nothing to show before it. -/
theorem Lone.not_crosses_before (h : Lone uni loaded p v q before k after)
    (hleaves : ¬Leaves k.rule p (front v) (tail v) q) {ks ks' : List (Profile Char)}
    {s : Profile Char} (hsplit : before ++ [k] = ks ++ s :: ks') :
    ¬s.crosses (ks.flatMap Profile.openings) p q := by
  intro hcross
  have hprefix : ks <+: before := by
    refine List.prefix_of_prefix_length_le ⟨s :: ks', rfl⟩ ⟨[k], hsplit⟩ ?_
    have hlen := congrArg List.length hsplit
    simp only [List.length_append, List.length_cons, List.length_nil] at hlen
    omega
  have hmem : s ∈ before ++ [k] := by
    rw [hsplit]
    exact List.mem_append_right _ List.mem_cons_self
  have hall : s ∈ before ++ k :: after := by
    rw [← List.singleton_append, ← List.append_assoc]
    exact List.mem_append_left _ hmem
  rcases leaves_of_crosses s (h.mem hall) hcross with ⟨e, he, ho⟩ | hcut
  · rw [front_append_tail] at ho
    obtain ⟨s', hs', he'⟩ := List.mem_flatMap.1 he
    exact h.before ⟨e, List.mem_flatMap.2 ⟨s', hprefix.subset hs', he'⟩, ho⟩
  · rcases List.mem_append.1 hmem with hs | hs
    · -- a pattern that comes before has no match
      obtain ⟨ps₁, old, new, ps₂, f, c, hps, -⟩ := hcut.1
      rw [front_append_tail] at hps
      refine untouched_iff.1 (h.untouched_before s hs) old new ?_
      rw [hps]
      exact List.mem_append_right _ List.mem_cons_self
    · rw [List.mem_singleton.1 hs] at hcut
      exact hleaves hcut

/-- A copy of the value that ends in its front would end in its end elsewhere. -/
theorem not_ends_own (hv : 8 ≤ v.length) (hmark : '>' ∉ v.toList)
    (honce : ∀ a b, p ++ v.toList ++ q = a ++ tail v ++ b → a = p ++ front v) {f c : List Char}
    (hf : front v = f ++ c) : ¬Ends '>' v.toList (p ++ f) := by
  intro hends
  obtain ⟨a, ha⟩ := hends.suffix hmark
  have hfront : a ++ front v = p ++ front v := by
    refine honce _ (c ++ tail v ++ q) ?_
    rw [eq_front_tail, List.append_assoc a, front_append_tail, ha, hf]
    simp
  have hlen := congrArg List.length ha
  have hstart := congrArg List.length (List.append_cancel_right hfront)
  have hshort := congrArg List.length hf
  have hwhole := congrArg List.length (front_append_tail v)
  have hpos := List.length_pos_iff.2 (tail_ne_nil hv)
  simp only [List.length_append] at hlen hshort hwhole
  omega

/-- What comes after it has nothing to begin with, and the value's own pattern no other copy. -/
theorem Lone.not_crosses_after (h : Lone uni loaded p v q before k after) (hlong : 8 ≤ v.length)
    (hv : v ∈ loaded) {s : Profile Char} (hs : s ∈ after ++ valueProfiles (front v) (tail v) [v])
    (es : List (Shape Char)) : ¬s.crosses es p q := by
  intro hcross
  rcases List.mem_append.1 hs with hs | hs
  · obtain ⟨e, he, ho⟩ := begins_of_crosses (fun y hy => h.mark y (mem_of_loadedBefore hy)) s
      (h.mem (by simp [hs])) hcross
    exact h.after ⟨e, List.mem_flatMap.2 ⟨s, hs, he⟩, ho.mono front_infix⟩
  · rw [List.mem_singleton.1 hs] at hcross
    obtain ⟨⟨f, c, hf, -, hends⟩, -⟩ := hcross
    exact not_ends_own hlong (h.mark v hv) h.once hf hends

/-- **Where only one pattern may match** and does not cut the value, nothing does. -/
theorem Lone.guarded (h : Lone uni loaded p v q before k after) (hlong : 8 ≤ v.length)
    (hv : v ∈ loaded) (hleaves : ¬Leaves k.rule p (front v) (tail v) q) :
    Guarded uni loaded p v q where
  once := h.once
  separate := h.separate
  uncut ks s ks' hsplit := by
    have hown : allProfiles uni (front v) (tail v) (loadedBefore loaded v ++ [v]) =
        (before ++ [k]) ++ (after ++ valueProfiles (front v) (tail v) [v]) := by
      calc allProfiles uni (front v) (tail v) (loadedBefore loaded v ++ [v])
          = allProfiles uni (front v) (tail v) (loadedBefore loaded v) ++
              valueProfiles (front v) (tail v) [v] := by simp [allProfiles, valueProfiles]
        _ = _ := by simp [h.split]
    rcases List.append_eq_append_iff.1 (hown.symm.trans hsplit) with
      ⟨as, rfl, hrest⟩ | ⟨as, hbefore, hrest⟩
    · refine h.not_crosses_after hlong hv ?_ _
      rw [hrest]
      exact List.mem_append_right _ List.mem_cons_self
    · cases as with
      | nil => exact h.not_crosses_after hlong hv (hrest ▸ List.mem_cons_self) _
      | cons s' as =>
        obtain ⟨rfl, -⟩ := List.cons.inj hrest
        exact h.not_crosses_before hleaves hbefore

end lone

/-- What `re` and `str` know about ASCII. -/
def ascii : Unicode where
  isDecimal := isDigit
  isSpace c := c = ' ' || (9 ≤ c.toNat && c.toNat ≤ 13) || (28 ≤ c.toNat && c.toNat ≤ 31)
  isWord c := isAlnum c || c = '_'
  ignoreCase c l := c.toLower = l
  upper := String.map Char.toUpper

theorem ascii_documented : ascii.Documented where
  decimal _ _ := rfl
  space c hlow hhigh := by
    simp only [ascii, Bool.or_eq_false_iff, Bool.and_eq_false_iff, decide_eq_false_iff_not]
    refine ⟨⟨?_, by omega⟩, by omega⟩
    rintro rfl
    revert hlow
    decide
  ignoreCase c l _ h := of_decide_eq_true h

end Observatory.Redaction
