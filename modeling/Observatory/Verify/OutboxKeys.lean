import Observatory.Data.Delimited
import Observatory.Data.Utf16
import Observatory.Model.OutboxKeys

/-!
# The keys of the outbox

The keys of all producers share one unique column of 128 characters.  What stands before the first
colon names the kind of the key, and an id has always 36 characters, so a key can be read back up to
what a client wrote into it (`key_eq_iff`).  Two producers write keys of one kind: a client that
retries a run with the id of another run as its key takes the key of the scheduler.
-/

namespace Observatory.Outbox

open Canonical (Str CodePoint ofChar ofString)

/-! ## Ids -/

namespace Uuid

def digitOf (c : CodePoint) : ℕ := Utf16.hexVal (Char.ofNat c.val)

theorem digitOf_ofChar (c : Char) : digitOf (ofChar c) = Utf16.hexVal c := by
  rw [digitOf, ofChar, Char.ofNat_toNat]

theorem lt_of_mem_digits {u : Uuid} {d : ℕ} (hd : d ∈ Radix.fixed 16 32 u.int) : d < 16 :=
  Radix.lt_of_mem_fixed (by decide) hd

/-- The digits can be read. -/
theorem map_digitOf_hex (u : Uuid) : u.hex.map digitOf = Radix.fixed 16 32 u.int := by
  rw [hex, List.map_map]
  refine (List.map_congr_left fun d hd => ?_).trans (List.map_id _)
  rw [Function.comp_apply, digitOf_ofChar, Utf16.hexVal_digitChar d (lt_of_mem_digits hd), id]

theorem hex_inj {u v : Uuid} (h : u.hex = v.hex) : u = v := by
  obtain ⟨m, hm⟩ := u
  obtain ⟨n, hn⟩ := v
  have hdigits : Radix.fixed 16 32 m = Radix.fixed 16 32 n := by
    rw [← map_digitOf_hex ⟨m, hm⟩, ← map_digitOf_hex ⟨n, hn⟩, h]
  have hint : m = n := Radix.fixed_inj hm hn hdigits
  subst hint
  rfl

@[simp]
theorem length_hex (u : Uuid) : u.hex.length = 32 := by
  rw [hex, List.length_map, Radix.length_fixed]

@[simp]
theorem length_str (u : Uuid) : u.str.length = 36 := by
  simp only [str, List.length_append, List.length_cons, List.length_take, List.length_drop,
    length_hex]
  decide

theorem dash_notMem_hex (u : Uuid) : dash ∉ u.hex := by
  have hall : ∀ d < 16, ofChar d.digitChar ≠ dash := by decide
  intro hmem
  obtain ⟨d, hd, heq⟩ := List.mem_map.1 hmem
  exact hall d (lt_of_mem_digits hd) heq

/-- What is left of an id without its dashes. -/
theorem filter_str (u : Uuid) : u.str.filter (· ≠ dash) = u.hex := by
  have hkeep : ∀ part : Str, part.Sublist u.hex → part.filter (· ≠ dash) = part := by
    intro part hpart
    refine List.filter_eq_self.2 fun c hc => decide_eq_true ?_
    rintro rfl
    exact u.dash_notMem_hex (hpart.mem hc)
  have hpart (m n : ℕ) : ((u.hex.drop m).take n).filter (· ≠ dash) = (u.hex.drop m).take n :=
    hkeep _ ((List.take_sublist _ _).trans (List.drop_sublist _ _))
  have hdash (rest : Str) : (dash :: rest).filter (· ≠ dash) = rest.filter (· ≠ dash) :=
    List.filter_cons_of_neg (by simp)
  have hsplit (m n : ℕ) : (u.hex.drop m).take n ++ u.hex.drop (m + n) = u.hex.drop m := by
    rw [← List.drop_drop, List.take_append_drop]
  simp only [str, List.filter_append, hdash, hpart]
  rw [hkeep _ (List.take_sublist _ _), hkeep _ (List.drop_sublist _ _), hsplit 16 4, hsplit 12 4,
    hsplit 8 4, List.take_append_drop]

theorem str_inj {u v : Uuid} (h : u.str = v.str) : u = v :=
  hex_inj (by rw [← filter_str u, ← filter_str v, h])

end Uuid

/-! ## Kinds of keys -/

def colon : CodePoint := ofChar ':'

inductive Kind where
  | task | auto | retry | approve | run

namespace Kind

/-- What stands before the first colon. -/
def text : Kind → Str
  | task => ofString "task"
  | auto => ofString "auto"
  | retry => ofString "retry"
  | approve => ofString "approve"
  | run => ofString "run"

theorem text_inj {k k' : Kind} (h : k.text = k'.text) : k = k' := by
  cases k <;> cases k' <;> first | rfl | exact absurd h (by decide)

theorem colon_notMem_text (k : Kind) : colon ∉ k.text := by
  cases k <;> decide

end Kind

namespace Event

def kind : Event → Kind
  | task .. => .task
  | auto _ => .auto
  | retry .. | recover .. => .retry
  | approve _ => .approve
  | source _ => .run

/-- What stands behind the first colon. -/
def body (isSpace : CodePoint → Bool) : Event → Str
  | task key _ => key
  | auto uuid4 => uuid4.hex
  | retry run rawKey => run.str ++ colon :: clientKey isSpace rawKey
  | approve approval => approval.str
  | recover run newRun => run.str ++ colon :: newRun.str
  | source run => run.str

variable {isSpace : CodePoint → Bool} {e e' : Event}

theorem append_colon {k s : Str} (hs : s = k ++ [colon]) (b : Str) : s ++ b = k ++ colon :: b := by
  rw [hs, List.append_assoc, List.singleton_append]

theorem key_eq (e : Event) : e.key isSpace = e.kind.text ++ colon :: e.body isSpace := by
  have hids (run : Uuid) (b : Str) : ofString "retry:" ++ run.str ++ ofString ":" ++ b =
      ofString "retry" ++ colon :: (run.str ++ colon :: b) := by
    have hcolon : ofString ":" = [colon] := rfl
    rw [hcolon, List.append_assoc, List.append_assoc, List.singleton_append]
    exact append_colon (by rfl) _
  cases e with
  | task key => exact append_colon (by rfl) key
  | auto uuid4 => exact append_colon (by rfl) uuid4.hex
  | retry run rawKey => exact hids run (clientKey isSpace rawKey)
  | approve approval => exact append_colon (by rfl) approval.str
  | recover run newRun => exact hids run newRun.str
  | source run => exact append_colon (by rfl) run.str

theorem key_inj (h : e.key isSpace = e'.key isSpace) :
    e.kind = e'.kind ∧ e.body isSpace = e'.body isSpace := by
  rw [key_eq, key_eq] at h
  obtain ⟨hkind, hbody⟩ :=
    Delimited.first_unique e.kind.colon_notMem_text e'.kind.colon_notMem_text h
  exact ⟨Kind.text_inj hkind, hbody⟩

end Event

/-! ## When keys are kept apart -/

/-- What is left of the key of a retry. -/
def sent (isSpace : CodePoint → Bool) (rawKey : Str) : Str :=
  if rawKey = [] then ofString "default" else strip isSpace rawKey

variable {isSpace : CodePoint → Bool} {e e' : Event}

theorem clientKey_eq (rawKey : Str) : clientKey isSpace rawKey = (sent isSpace rawKey).take 128 := by
  cases rawKey with
  | nil => rfl
  | cons c rawKey =>
    rw [sent, if_neg (List.cons_ne_nil c rawKey)]
    rfl

theorem length_clientKey_le_iff {rawKey : Str} :
    (clientKey isSpace rawKey).length ≤ 85 ↔ (sent isSpace rawKey).length ≤ 85 := by
  rw [clientKey_eq, List.length_take]
  omega

theorem clientKey_of_short {rawKey : Str} (h : (sent isSpace rawKey).length ≤ 85) :
    clientKey isSpace rawKey = sent isSpace rawKey := by
  rw [clientKey_eq, List.take_of_length_le (h.trans (by decide))]

/-- What the client wrote is short enough. -/
def Event.Short (isSpace : CodePoint → Bool) : Event → Prop
  | .task key _ => key.length ≤ 123
  | .retry _ rawKey => (sent isSpace rawKey).length ≤ 85
  | _ => True

/-- Two retries of one run whose keys differ in their margin at most, or a retry whose key is the
name of the run that a recovery creates. -/
inductive Rivals (isSpace : CodePoint → Bool) : Event → Event → Prop
  | margin {run : Uuid} {rawKey rawKey' : Str} (hne : rawKey ≠ rawKey')
      (hsent : sent isSpace rawKey = sent isSpace rawKey') :
      Rivals isSpace (.retry run rawKey) (.retry run rawKey')
  | named {run newRun : Uuid} {rawKey : Str} (hsent : sent isSpace rawKey = newRun.str) :
      Rivals isSpace (.retry run rawKey) (.recover run newRun)
  | names {run newRun : Uuid} {rawKey : Str} (hsent : sent isSpace rawKey = newRun.str) :
      Rivals isSpace (.recover run newRun) (.retry run rawKey)

theorem Rivals.ne (h : Rivals isSpace e e') : e ≠ e' := by
  cases h with
  | margin hne => exact fun heq => hne (Event.retry.inj heq).2
  | named | names => exact nofun

/-- **The key fits its column** iff what the client wrote is short. -/
theorem length_key_le_iff : (e.key isSpace).length ≤ columnLength ↔ e.Short isSpace := by
  rw [Event.key_eq, List.length_append, List.length_cons, columnLength]
  cases e with
  | task key =>
    have hkind : Kind.task.text.length = 4 := rfl
    simp only [Event.kind, Event.body, Event.Short, hkind]
    omega
  | retry run rawKey =>
    have hkind : Kind.retry.text.length = 5 := rfl
    rw [Event.Short, ← length_clientKey_le_iff]
    simp only [Event.kind, Event.body, List.length_append, List.length_cons, Uuid.length_str, hkind]
    omega
  | auto | approve | recover | source =>
    have hkind (k : Kind) : k.text.length ≤ 7 := by cases k <;> decide
    refine iff_of_true ((Nat.add_le_add_right (hkind _) _).trans ?_) trivial
    simp [Event.body]

/-- **A key can be read back**, but for what a client wrote into it. -/
theorem key_eq_iff (hs : e.Short isSpace) (hs' : e'.Short isSpace) :
    e.key isSpace = e'.key isSpace ↔ e = e' ∨ Rivals isSpace e e' := by
  constructor
  · intro h
    obtain ⟨hkind, hbody⟩ := Event.key_inj h
    have hids {run run' : Uuid} {b b' : Str}
        (hb : run.str ++ colon :: b = run'.str ++ colon :: b') : run = run' ∧ b = b' := by
      obtain ⟨hrun, hrest⟩ := List.append_inj hb (by rw [Uuid.length_str, Uuid.length_str])
      exact ⟨Uuid.str_inj hrun, (List.cons.inj hrest).2⟩
    cases e with
    | task key hkey =>
      cases e' with
      | task key' =>
        obtain rfl : key = key' := hbody
        exact .inl rfl
      | _ => cases hkind
    | auto uuid4 =>
      cases e' with
      | auto => exact .inl (congrArg Event.auto (Uuid.hex_inj hbody))
      | _ => cases hkind
    | retry run rawKey =>
      cases e' with
      | retry run' rawKey' =>
        obtain ⟨rfl, hclient⟩ := hids hbody
        rw [clientKey_of_short hs, clientKey_of_short hs'] at hclient
        by_cases hraw : rawKey = rawKey'
        · exact .inl (congrArg (Event.retry run) hraw)
        · exact .inr (.margin hraw hclient)
      | recover run' newRun =>
        obtain ⟨rfl, hclient⟩ := hids hbody
        rw [clientKey_of_short hs] at hclient
        exact .inr (.named hclient)
      | _ => cases hkind
    | approve approval =>
      cases e' with
      | approve => exact .inl (congrArg Event.approve (Uuid.str_inj hbody))
      | _ => cases hkind
    | recover run newRun =>
      cases e' with
      | retry run' rawKey' =>
        obtain ⟨rfl, hclient⟩ := hids hbody
        rw [clientKey_of_short hs'] at hclient
        exact .inr (.names hclient.symm)
      | recover run' newRun' =>
        obtain ⟨rfl, hnew⟩ := hids hbody
        exact .inl (congrArg (Event.recover run) (Uuid.str_inj hnew))
      | _ => cases hkind
    | source run =>
      cases e' with
      | source => exact .inl (congrArg Event.source (Uuid.str_inj hbody))
      | _ => cases hkind
  · rintro (rfl | hrivals)
    · rfl
    · rw [Event.key_eq, Event.key_eq]
      cases hrivals with
      | margin _ hsent =>
        simp only [Event.kind, Event.body, clientKey_of_short hs, clientKey_of_short hs', hsent]
      | named hsent => simp only [Event.kind, Event.body, clientKey_of_short hs, hsent]
      | names hsent => simp only [Event.kind, Event.body, clientKey_of_short hs', hsent]

/-- Both keys fit the column, and no two events share one. -/
def Kept (isSpace : CodePoint → Bool) (e e' : Event) : Prop :=
  (e.key isSpace).length ≤ columnLength ∧ (e'.key isSpace).length ≤ columnLength ∧
    (e ≠ e' → e.key isSpace ≠ e'.key isSpace)

/-- **Keys are storable and apart** iff what the clients wrote is short and no retry takes the key of
another or of a recovery. -/
theorem keys_kept_iff (isSpace : CodePoint → Bool) (e e' : Event) :
    Kept isSpace e e' ↔ e.Short isSpace ∧ e'.Short isSpace ∧ ¬Rivals isSpace e e' := by
  rw [Kept, length_key_le_iff, length_key_le_iff]
  refine and_congr_right fun hs => and_congr_right fun hs' => ?_
  rw [Ne, Ne, key_eq_iff hs hs']
  constructor
  · exact fun h hrivals => h hrivals.ne (.inr hrivals)
  · rintro h hne (heq | hrivals)
    · exact hne heq
    · exact h hrivals

def spaceOnly (c : CodePoint) : Bool := c = ofChar ' '

/-- A client names the run that a recovery of the same run has created, and another sends a key of a
hundred characters. -/
theorem keys_not_kept :
    ¬Kept spaceOnly (.retry ⟨1, by decide⟩ (Uuid.str ⟨2, by decide⟩))
      (.recover ⟨1, by decide⟩ ⟨2, by decide⟩) ∧
    ¬Kept spaceOnly (.retry ⟨1, by decide⟩ (List.replicate 100 (ofChar 'k')))
      (.approve ⟨2, by decide⟩) := by
  refine ⟨fun h => h.2.2 nofun (by rfl), fun h => ?_⟩
  have hlength : (sent spaceOnly (List.replicate 100 (ofChar 'k'))).length = 100 := by rfl
  have hshort := length_key_le_iff.1 h.1
  rw [Event.Short, hlength] at hshort
  exact absurd hshort (by decide)

end Observatory.Outbox
