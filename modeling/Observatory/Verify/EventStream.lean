import Observatory.Data.Paging
import Observatory.Model.EventStream

/-!
# Nothing lost and nothing twice in the event stream

Whatever the generator yields is the text of an `Item`, and the client takes each such text, once
it is complete, for what it is (`dispatch_item`): the reconnection delay and the keep-alives leave
it alone, and an event is delivered once.  The bytes received and the bytes on the wire are
together the items not taken yet, so it plays no part where the network splits them.

An identifier of the log survives its way to the browser and back (`parseSseCursor_digits`).  The
client has heard a beginning of the log after its first cursor, the last identifier in it is the
one it reconnects with, and the generator of the new response begins right after it: the
invariant `Kept`, and with it `delivered_first`.
-/

namespace Observatory.EventStream

open Frames Paging

/-! ## The texts of the server -/

/-- A character of the printable ASCII range. -/
def Printable (c : Char) : Prop := 0x20 ≤ c.toNat ∧ c.toNat ≤ 0x7e

instance (c : Char) : Decidable (Printable c) := inferInstanceAs (Decidable (_ ∧ _))

theorem forall_of_all {P : Char → Prop} [DecidablePred P] {s : Text}
    (h : s.all (fun c => decide (P c)) = true) : ∀ c ∈ s, P c := by
  intro c hc
  exact of_decide_eq_true (List.all_eq_true.1 h c hc)

theorem isDigit_iff {c : Char} : c.isDigit = true ↔ 48 ≤ c.toNat ∧ c.toNat ≤ 57 := by
  have hzero : '0'.val.toNat = 48 := rfl
  have hnine : '9'.val.toNat = 57 := rfl
  simp only [Char.isDigit, ge_iff_le, Bool.and_eq_true, decide_eq_true_eq,
    UInt32.le_iff_toNat_le, hzero, hnine, Char.toNat]

theorem Printable.of_isDigit {c : Char} (h : c.isDigit = true) : Printable c := by
  rw [isDigit_iff] at h
  unfold Printable
  omega

theorem isDigit_of_mem_digits {n : Nat} : ∀ c ∈ digits n, c.isDigit = true := by
  intro c h
  exact Nat.isDigit_of_mem_toDigits (by decide) (by decide) h

theorem printable_digits {n : Nat} : ∀ c ∈ digits n, Printable c := by
  intro c h
  exact .of_isDigit (isDigit_of_mem_digits c h)

/-- What is padded with zeros keeps to its characters and the zero. -/
theorem forall_leftpad {P : Char → Prop} {z : Char} {width : Nat} {s : Text} (hz : P z)
    (hs : ∀ c ∈ s, P c) : ∀ c ∈ s.leftpad width z, P c := by
  intro c h
  unfold List.leftpad at h
  rcases List.mem_append.1 h with h | h
  · rw [List.eq_of_mem_replicate h]
    exact hz
  · exact hs c h

/-- A character of a time. -/
def TimeChar (c : Char) : Prop := c.isDigit = true ∨ c ∈ "-T:.+".toList

instance (c : Char) : Decidable (TimeChar c) := inferInstanceAs (Decidable (_ ∨ _))

theorem timeChar_isoformat {t : DateTime} : ∀ c ∈ t.isoformat, TimeChar c := by
  have hpad : ∀ width n, ∀ c ∈ (digits n).leftpad width '0', TimeChar c := by
    intro width n
    refine forall_leftpad (P := TimeChar) (.inl rfl) ?_
    intro c hc
    exact .inl (isDigit_of_mem_digits c hc)
  unfold DateTime.isoformat
  simp only [List.forall_mem_append, List.forall_mem_cons]
  have hdash : TimeChar '-' := by decide
  have hcolon : TimeChar ':' := by decide
  refine ⟨⟨⟨⟨⟨⟨⟨hpad _ _, hdash, hpad _ _⟩, hdash, hpad _ _⟩, by decide, hpad _ _⟩, hcolon,
    hpad _ _⟩, hcolon, hpad _ _⟩, ?_⟩, ?_⟩
  · split
    · exact List.forall_mem_nil _
    · exact List.forall_mem_cons.2 ⟨by decide, hpad _ _⟩
  · split
    · exact forall_of_all rfl
    · exact List.forall_mem_nil _

theorem TimeChar.printable {c : Char} (h : TimeChar c) : Printable c := by
  have hmarks : ∀ c ∈ "-T:.+".toList, Printable c := forall_of_all rfl
  rcases h with h | h
  · exact .of_isDigit h
  · exact hmarks c h

theorem printable_hexDigits (n : Nat) : ∀ c ∈ Nat.toDigits 16 n, Printable c := by
  have hall : ∀ d < 16, Printable (Nat.digitChar d) := by decide
  induction n using Nat.strong_induction_on with
  | _ n ih =>
    rw [Nat.toDigits_eq_if (by decide)]
    split
    · rename_i hlt
      exact List.forall_mem_singleton.2 (hall n hlt)
    · rename_i hge
      have hless : n / 16 < n := by omega
      refine List.forall_mem_append.2 ⟨ih _ hless, ?_⟩
      exact List.forall_mem_singleton.2 (hall _ (Nat.mod_lt _ (by decide)))

theorem printable_unicodeEscape {n : Nat} : ∀ c ∈ unicodeEscape n, Printable c := by
  refine List.forall_mem_append.2 ⟨forall_of_all rfl, ?_⟩
  exact forall_leftpad (by decide) (printable_hexDigits n)

theorem printable_escape {c : Char} : ∀ x ∈ escape c, Printable x := by
  unfold escape
  split
  case h_8 =>
    split
    · rename_i hrange
      exact List.forall_mem_singleton.2 hrange
    · split
      · exact printable_unicodeEscape
      · exact List.forall_mem_append.2 ⟨printable_unicodeEscape, printable_unicodeEscape⟩
  all_goals exact forall_of_all rfl

theorem printable_jsonString {s : Text} : ∀ c ∈ jsonString s, Printable c := by
  have hquote : ∀ c ∈ "\"".toList, Printable c := forall_of_all rfl
  have hbody : ∀ c ∈ s.flatMap escape, Printable c := by
    intro c hc
    obtain ⟨x, -, hx⟩ := List.mem_flatMap.1 hc
    exact printable_escape c hx
  exact List.forall_mem_append.2 ⟨List.forall_mem_append.2 ⟨hquote, hbody⟩, hquote⟩

theorem printable_jsonInt {n : Int} : ∀ c ∈ jsonInt n, Printable c := by
  cases n with
  | ofNat n => exact printable_digits
  | negSucc n => exact List.forall_mem_cons.2 ⟨by decide, printable_digits⟩

/-- **The payload is one line of ASCII**, whatever the event type says. -/
theorem printable_payload {e : RunEvent} : ∀ c ∈ e.payload, Printable c := by
  unfold RunEvent.payload
  simp only [List.forall_mem_append]
  exact ⟨⟨⟨⟨⟨⟨⟨⟨⟨⟨forall_of_all rfl, printable_digits⟩, forall_of_all rfl⟩, printable_jsonInt⟩,
    forall_of_all rfl⟩, printable_jsonString⟩, forall_of_all rfl⟩, printable_jsonString⟩,
    forall_of_all rfl⟩, printable_jsonString⟩, forall_of_all rfl⟩

/-! ## The frames of the server -/

/-- What the generator yields. -/
inductive Item where
  | retry
  | keepalive (now : DateTime)
  | event (e : RunEvent)

namespace Item

def lines : Item → List Text
  | retry => ["retry: 3000".toList]
  | keepalive now => [": keepalive ".toList ++ now.isoformat]
  | event e => ["id: ".toList ++ digits e.globalSeq, "data: ".toList ++ e.payload]

def text (i : Item) : Text := ['\n'].intercalate i.lines

theorem text_retry : retry.text = "retry: 3000".toList := List.intercalate_singleton

theorem text_keepalive {now : DateTime} :
    (keepalive now).text = ": keepalive ".toList ++ now.isoformat := List.intercalate_singleton

theorem text_event {e : RunEvent} : (event e).text =
    "id: ".toList ++ digits e.globalSeq ++ ['\n'] ++ ("data: ".toList ++ e.payload) := by
  unfold text lines
  rw [List.intercalate_cons_cons, List.intercalate_singleton]

theorem printable_lines {i : Item} : ∀ l ∈ i.lines, l ≠ [] ∧ ∀ c ∈ l, Printable c := by
  cases i with
  | retry => exact List.forall_mem_singleton.2 ⟨List.cons_ne_nil _ _, forall_of_all rfl⟩
  | keepalive now =>
    refine List.forall_mem_singleton.2 ⟨List.cons_ne_nil _ _, ?_⟩
    refine List.forall_mem_append.2 ⟨forall_of_all rfl, ?_⟩
    intro c hc
    exact (timeChar_isoformat c hc).printable
  | event e =>
    refine List.forall_mem_cons.2 ⟨⟨List.cons_ne_nil _ _, ?_⟩, ?_⟩
    · exact List.forall_mem_append.2 ⟨forall_of_all rfl, printable_digits⟩
    · refine List.forall_mem_singleton.2 ⟨List.cons_ne_nil _ _, ?_⟩
      exact List.forall_mem_append.2 ⟨forall_of_all rfl, printable_payload⟩

theorem newline_notMem {i : Item} : ∀ l ∈ i.lines, '\n' ∉ l := by
  intro l hl hc
  have hno : ¬Printable '\n' := by decide
  exact hno ((printable_lines l hl).2 _ hc)

theorem framed (i : Item) : Framed "\n\n".toList i.text := by
  apply framed_lines
  intro l hl
  exact ⟨(printable_lines l hl).1, newline_notMem l hl⟩

theorem splitOn_text (i : Item) : i.text.splitOn '\n' = i.lines := by
  apply List.splitOn_intercalate '\n' newline_notMem
  cases i <;> exact List.cons_ne_nil _ _

end Item

/-! ## The bytes -/

/-- A character of one byte. -/
def Ascii (c : Char) : Prop := c.toNat < 0x80

theorem Printable.ascii {c : Char} (h : Printable c) : Ascii c := by
  unfold Ascii
  have := h.2
  omega

instance (c : Char) : Decidable (Ascii c) := inferInstanceAs (Decidable (_ < _))

theorem Item.ascii_text (i : Item) : ∀ c ∈ i.text, Ascii c := by
  have hline : ∀ l ∈ i.lines, ∀ c ∈ l, Ascii c := by
    intro l hl c hc
    exact ((printable_lines l hl).2 c hc).ascii
  cases i with
  | retry =>
    rw [text_retry]
    exact hline _ List.mem_cons_self
  | keepalive now =>
    rw [text_keepalive]
    exact hline _ List.mem_cons_self
  | event e =>
    rw [text_event]
    refine List.forall_mem_append.2 ⟨?_, ?_⟩
    · exact List.forall_mem_append.2 ⟨hline _ List.mem_cons_self, forall_of_all rfl⟩
    · exact hline _ (List.mem_cons_of_mem _ List.mem_cons_self)

theorem encode_ascii {s : Text} (h : ∀ c ∈ s, Ascii c) :
    encode s = s.map fun c => UInt8.ofNat c.toNat := by
  unfold encode
  induction s with
  | nil => rfl
  | cons c s ih =>
    obtain ⟨hc, hs⟩ := List.forall_mem_cons.1 h
    have hone : String.utf8EncodeChar c = [UInt8.ofNat c.toNat] := by
      have hle : c.toNat ≤ 127 := Nat.le_of_lt_succ hc
      simp [String.utf8EncodeChar, hle]
    rw [List.flatMap_cons, List.map_cons, hone, ih hs, List.singleton_append]

/-- The bytes of a text can be cut anywhere. -/
theorem encode_take_drop {s : Text} (h : ∀ c ∈ s, Ascii c) (n : Nat) :
    (encode s).take n = encode (s.take n) ∧ (encode s).drop n = encode (s.drop n) := by
  rw [encode_ascii h, encode_ascii fun c hc => h c (List.mem_of_mem_take hc),
    encode_ascii fun c hc => h c (List.mem_of_mem_drop hc), List.map_take, List.map_drop]
  exact ⟨rfl, rfl⟩

/-- **A decoder between two characters reads a text as it was written**, and is between two
characters again. -/
theorem decode_encode {d : TextDecoder} {s : Text} (hd : d.bytesNeeded = 0)
    (h : ∀ c ∈ s, Ascii c) : (d.decode (encode s)).2 = s ∧
      (d.decode (encode s)).1.bytesNeeded = 0 := by
  rw [encode_ascii h]
  induction s generalizing d with
  | nil => exact ⟨rfl, hd⟩
  | cons c s ih =>
    obtain ⟨hc, hs⟩ := List.forall_mem_cons.1 h
    unfold Ascii at hc
    have hsize : (UInt8.ofNat c.toNat).toNat = c.toNat := by
      rw [UInt8.toNat_ofNat']
      omega
    have hbyte : d.byte (UInt8.ofNat c.toNat).toNat = (d, [c]) := by
      unfold TextDecoder.byte TextDecoder.lead
      rw [hsize, if_pos hd, if_pos (by omega), Char.ofNat_toNat]
    -- what is not a byte order mark is passed on
    have hserial : ∃ d' : TextDecoder, d.serialize [c] = (d', [c]) ∧ d'.bytesNeeded = 0 := by
      unfold TextDecoder.serialize
      split
      · rename_i heq
        obtain ⟨rfl, rfl⟩ := List.cons.inj heq
        refine ⟨{ d with bomSeen := true }, ?_, hd⟩
        rw [if_neg (by omega)]
      · exact ⟨d, rfl, hd⟩
    obtain ⟨d', hd', hzero⟩ := hserial
    obtain ⟨htext, hend⟩ := ih hzero hs
    rw [List.map_cons]
    unfold TextDecoder.decode
    simp only [hbyte, hd']
    exact ⟨congrArg (c :: ·) htext, hend⟩

/-! ## The client takes a frame -/

theorem jsSpace_digit {c : Char} (h : c.isDigit = true) : jsSpace c = false := by
  have hrange := isDigit_iff.1 h
  simp only [jsSpace, Bool.or_eq_false_iff, Bool.and_eq_false_iff, decide_eq_false_iff_not]
  omega

theorem dropWhile_eq_self {p : Char → Bool} {s : Text} (h : ∀ c ∈ s, p c = false) :
    s.dropWhile p = s := by
  cases s with
  | nil => rfl
  | cons c s => exact List.dropWhile_cons_of_neg (by rw [h c List.mem_cons_self]; decide)

/-- Nothing is taken off the ends of a text. -/
theorem dropWhile_ends {p : Char → Bool} {s : Text} (h : ∀ c ∈ s, p c = false) :
    ((s.dropWhile p).reverse.dropWhile p).reverse = s := by
  have hrev : ∀ c ∈ s.reverse, p c = false := by
    intro c hc
    exact h c (List.mem_reverse.1 hc)
  rw [dropWhile_eq_self h, dropWhile_eq_self hrev, List.reverse_reverse]

/-- `trim` drops the blank before a number. -/
theorem trim_digits {n : Nat} : trim (' ' :: digits n) = digits n := by
  have hno : ∀ c ∈ digits n, jsSpace c = false := by
    intro c hc
    exact jsSpace_digit (isDigit_of_mem_digits c hc)
  have hblank : jsSpace ' ' = true := by decide
  unfold trim trimStart
  rw [List.dropWhile_cons_of_pos hblank]
  exact dropWhile_ends hno

theorem digits_ne_nil {n : Nat} : digits n ≠ [] := Nat.toDigits_ne_nil

theorem trimStart_payload {e : RunEvent} : trimStart (' ' :: e.payload) = e.payload := by
  unfold trimStart
  have hblank : jsSpace ' ' = true := by decide
  rw [List.dropWhile_cons_of_pos hblank]
  obtain ⟨rest, hrest⟩ : ∃ rest, e.payload = '\x7b' :: rest := ⟨_, rfl⟩
  rw [hrest]
  exact List.dropWhile_cons_of_neg (by decide)

theorem payload_ne_nil {e : RunEvent} : e.payload ≠ [] := List.cons_ne_nil _ _

theorem includes_iff {s sub : Text} : includes s sub = true ↔ ∃ i ≤ s.length, sub <+: s.drop i := by
  unfold includes
  rw [Option.isSome_iff_ne_none, ne_eq, indexOf_eq_none_iff]
  push Not
  rfl

section Dispatch

variable {J : Type} (jsonParse : Text → Option J)

/-- The call of `onEvent` for an event. -/
def delivery (e : RunEvent) : Delivery J where
  e := match jsonParse e.payload with
    | some x => .inl x
    | none => .inr e.payload
  rawId := digits e.globalSeq

/-- What an item the server has sent does to the client. -/
def Client.hear (cl : Client J) : Item → Client J
  | .event e =>
    { cl with lastId := digits e.globalSeq, localStorage := digits e.globalSeq,
              delivered := cl.delivered ++ [delivery jsonParse e] }
  | _ => cl

theorem not_includes_keepalive {now : DateTime} :
    includes (Item.keepalive now).text "data:".toList = false := by
  apply Bool.eq_false_iff.2
  intro h
  obtain ⟨k, -, hpre⟩ := includes_iff.1 h
  have hd : 'd' ∈ (Item.keepalive now).text := List.mem_of_mem_drop (hpre.subset (by decide))
  rw [Item.text_keepalive] at hd
  have hno : ∀ c ∈ ": keepalive ".toList, c ≠ 'd' := forall_of_all rfl
  have htime : ¬TimeChar 'd' := by decide
  rcases List.mem_append.1 hd with hd | hd
  · exact hno _ hd rfl
  · exact htime (timeChar_isoformat _ hd)

theorem includes_event {e : RunEvent} : includes (Item.event e).text "data:".toList = true := by
  rw [Item.text_event]
  refine includes_iff.2 ⟨("id: ".toList ++ digits e.globalSeq ++ ['\n']).length, ?_, ?_⟩
  · exact (List.prefix_append _ _).length_le
  · rw [List.drop_left]
    exact ⟨' ' :: e.payload, rfl⟩

/-- **The client takes a frame for what it is**, and its variables are empty again. -/
theorem dispatch_item (cl : Client J) {r : Reader} (hid : r.curId = []) (hdata : r.curData = [])
    (i : Item) : cl.dispatch jsonParse ((i.text.splitOn '\n').foldl Reader.line r) i.text =
      (cl.hear jsonParse i, r) := by
  have hclear : { r with curId := [], curData := [] } = r := by
    cases r
    simp only at hid hdata
    rw [hid, hdata]
  rw [i.splitOn_text]
  unfold Client.dispatch
  cases i with
  | retry =>
    have hline : r.line "retry: 3000".toList = r := rfl
    have hno : ¬includes (Item.text .retry) "data:".toList = true := by decide
    have hcolon : ¬":".toList.isPrefixOf (trim (Item.text .retry)) = true := by decide
    rw [if_neg hno, if_neg hcolon]
    rfl
  | keepalive now =>
    have hline : (Item.keepalive now).lines.foldl Reader.line r = r := rfl
    rw [if_neg (Bool.eq_false_iff.1 not_includes_keepalive), hline, hclear]
    exact ite_self _
  | event e =>
    have hlines : (Item.event e).lines.foldl Reader.line r =
        { r with curId := digits e.globalSeq, curData := e.payload } := by
      have hid : r.line ("id: ".toList ++ digits e.globalSeq) =
          { r with curId := digits e.globalSeq } :=
        congrArg (fun s => { r with curId := s }) trim_digits
      have hdata : { r with curId := digits e.globalSeq }.line ("data: ".toList ++ e.payload) =
          { r with curId := digits e.globalSeq, curData := e.payload } := by
        have htext : r.curData ++ (if r.curData ≠ [] then ['\n'] else []) ++
            trimStart (' ' :: e.payload) = e.payload := by
          rw [hdata, trimStart_payload]
          rfl
        exact congrArg (fun s => { r with curId := digits e.globalSeq, curData := s }) htext
      exact (congrArg (Reader.line · ("data: ".toList ++ e.payload)) hid).trans hdata
    rw [if_pos includes_event, hlines]
    simp only [ne_eq, digits_ne_nil, not_false_eq_true, if_true, payload_ne_nil, hclear]
    rfl

end Dispatch

/-! ## The cursor of a request -/

theorem pyStrip_digits {n : Nat} : pyStrip (digits n) = digits n := by
  apply dropWhile_ends
  intro c hc
  have hrange := isDigit_iff.1 (isDigit_of_mem_digits c hc)
  simp only [pySpace, isSpaceCode, Bool.or_eq_false_iff, Bool.and_eq_false_iff, decide_eq_false_iff_not]
  omega

theorem isdigit_digits {n : Nat} : isdigit (digits n) = true := by
  unfold isdigit
  rw [Bool.and_eq_true, decide_eq_true_iff, List.all_eq_true]
  refine ⟨digits_ne_nil, ?_⟩
  intro c hc
  rw [isDigit_of_mem_digits c hc]
  rfl

/-- An identifier of the log has few enough digits. -/
theorem int_digits {n : Nat} (h : n < 2 ^ 63) : int (digits n) = .ok n := by
  have hall : (digits n).all Char.isDigit = true := List.all_eq_true.2 isDigit_of_mem_digits
  have hlen : (digits n).length ≤ 19 :=
    (Nat.length_toDigits_le_iff (by decide) (by decide)).2 (h.trans (by decide))
  have hshort : (digits n).length ≤ 4300 := by omega
  unfold int
  rw [hall, decide_eq_true hshort]
  exact congrArg Except.ok Nat.ofDigitChars_ten_toDigits

theorem orElse_digits {n : Nat} {s : Text} : orElse (some (digits n)) s = digits n := by
  obtain ⟨c, rest, h⟩ := List.exists_cons_of_ne_nil (digits_ne_nil (n := n))
  rw [h]
  rfl

theorem requestOf_digits {n : Nat} :
    requestOf (digits n) = some ⟨some (digits n), some (digits n), none⟩ := by
  have hnorm : normalize (digits n) = digits n := by
    apply dropWhile_ends
    intro c hc
    have hrange := isDigit_iff.1 (isDigit_of_mem_digits c hc)
    simp only [Bool.or_eq_false_iff, decide_eq_false_iff_not]
    omega
  have hvalue : isHeaderValue (digits n) = true := by
    apply List.all_eq_true.2
    intro c hc
    have hrange := isDigit_iff.1 (isDigit_of_mem_digits c hc)
    simp only [Bool.and_eq_true, decide_eq_true_iff]
    omega
  unfold requestOf
  rw [if_neg digits_ne_nil, hnorm, if_pos hvalue]

/-- **The server resumes where the client says it stopped.** -/
theorem parseSseCursor_digits {n : Nat} {request : Request} (h : n < 2 ^ 63)
    (hr : requestOf (digits n) = some request) : parseSseCursor request = .ok n := by
  rw [requestOf_digits] at hr
  obtain rfl := Option.some.inj hr
  unfold parseSseCursor
  simp only [orElse_digits, pyStrip_digits, isdigit_digits, if_true]
  exact int_digits h

theorem initialCursor_eq {stored : Text} {request : Request} {n : Nat}
    (hr : requestOf stored = some request) (hp : parseSseCursor request = .ok n) :
    initialCursor stored = n := by
  unfold initialCursor
  rw [hr]
  simp only [hp]
  rfl

/-! ## What the generator yields -/

/-- The events among the items. -/
def events (items : List Item) : List RunEvent :=
  items.filterMap fun
    | .event e => some e
    | _ => none

@[simp] theorem events_append (is js : List Item) : events (is ++ js) = events is ++ events js :=
  List.filterMap_append

namespace Gen

def cur : Gen → Nat
  | begun cur => cur
  | polling cur => cur
  | sending cur _ => cur

/-- The rows fetched and not yielded. -/
def rows : Gen → List RunEvent
  | sending _ rows => rows
  | _ => []

end Gen

variable {log got : List RunEvent} {c₀ : Nat}

theorem fetchSseEvents_eq (hlog : log.Pairwise (·.globalSeq < ·.globalSeq)) (cur limit : Nat) :
    fetchSseEvents log cur limit = (after (·.globalSeq) cur log).take limit := by
  unfold fetchSseEvents
  have hle : (after (·.globalSeq) cur log).Pairwise (·.globalSeq ≤ ·.globalSeq) :=
    (pairwise_after hlog).imp Nat.le_of_lt
  exact congrArg (List.take limit) hle.insertionSort_eq

/-- The generator has sent `sent`: its cursor is the last of it, and what it has fetched comes
next. -/
structure Gen.Sends (c₀ : Nat) (log sent : List RunEvent) (gen : Gen) : Prop where
  cursor : gen.cur = Paging.cursor (·.globalSeq) c₀ sent
  next : sent ++ gen.rows <+: after (·.globalSeq) c₀ log

theorem field_eq (e : RunEvent) : e.field = stream "\n\n".toList [(Item.event e).text] := by
  rw [stream_cons, stream_nil, List.append_nil, Item.text_event]
  unfold RunEvent.field
  simp only [List.append_assoc]
  rfl

theorem keepalive_eq (now : DateTime) :
    keepalive now = stream "\n\n".toList [(Item.keepalive now).text] := by
  rw [stream_cons, stream_nil, List.append_nil, Item.text_keepalive]
  rfl

theorem retryField_eq : retryField = stream "\n\n".toList [Item.retry.text] := by decide

/-- What is no event has been sent by a generator that has sent nothing more. -/
theorem Gen.Sends.quiet {sent : List RunEvent} {gen : Gen} {items : List Item}
    (h : gen.Sends c₀ log sent) (hquiet : events items = []) :
    gen.Sends c₀ log (sent ++ events items) := by
  rw [hquiet, List.append_nil]
  exact h

/-- **The generator yields frames, and in them the next events.** -/
theorem Gen.Sends.resume {sent : List RunEvent} {gen : Gen} (h : gen.Sends c₀ log sent)
    (hlog : log.Pairwise (·.globalSeq < ·.globalSeq)) (now : DateTime) :
    ∃ items : List Item, (gen.resume log now).2 = stream "\n\n".toList (items.map Item.text) ∧
      (gen.resume log now).1.Sends c₀ log (sent ++ events items) := by
  cases gen with
  | begun cur =>
    have hpolls : (polling cur).Sends c₀ log sent := ⟨h.cursor, h.next⟩
    exact ⟨[.retry], retryField_eq, hpolls.quiet rfl⟩
  | polling cur =>
    have hpage : sent ++ fetchSseEvents log cur 50 <+: after (·.globalSeq) c₀ log := by
      rw [fetchSseEvents_eq hlog, show cur = _ from h.cursor]
      exact read_more hlog ((List.prefix_append _ _).trans h.next) 50
    cases hfetch : fetchSseEvents log cur 50 with
    | nil =>
      have hres : (polling cur).resume log now = (polling cur, keepalive now) := by
        simp only [Gen.resume, hfetch]
      rw [hres]
      exact ⟨[.keepalive now], keepalive_eq now, h.quiet rfl⟩
    | cons e rows =>
      have hres : (polling cur).resume log now = (sending cur (e :: rows), []) := by
        simp only [Gen.resume, hfetch]
      have hsends : (sending cur (e :: rows)).Sends c₀ log sent := ⟨h.cursor, hfetch ▸ hpage⟩
      rw [hres]
      exact ⟨[], rfl, hsends.quiet rfl⟩
  | sending cur rows =>
    cases rows with
    | nil =>
      have hpolls : (polling cur).Sends c₀ log sent := ⟨h.cursor, h.next⟩
      exact ⟨[], rfl, hpolls.quiet rfl⟩
    | cons e rows =>
      have hlt : cur < e.globalSeq := by
        rw [show cur = _ from h.cursor]
        exact cursor_lt hlog h.next
      refine ⟨[.event e], field_eq e, ?_, ?_⟩
      · show max cur e.globalSeq = Paging.cursor (·.globalSeq) c₀ (sent ++ [e])
        rw [cursor_concat]
        exact max_eq_right hlt.le
      · show sent ++ [e] ++ rows <+: after (·.globalSeq) c₀ log
        rw [← List.append_cons]
        exact h.next

/-! ## The whole way -/

/-- What `connection` is going to deliver to a client that has heard `got`: the frames in the
buffer and on the wire, then what the generator sends. -/
structure Conveys (c₀ : Nat) (log got : List RunEvent) (c : Connection) (items : List Item)
    (later : Text) : Prop where
  wire : c.wire = encode later
  framed : c.reader.buf ++ later = stream "\n\n".toList (items.map Item.text)
  between : c.reader.decoder.bytesNeeded = 0
  curId : c.reader.curId = []
  curData : c.reader.curData = []
  sends : c.gen.Sends c₀ log (got ++ events items)

theorem Conveys.ascii {c : Connection} {items : List Item} {later : Text}
    (h : Conveys c₀ log got c items later) : ∀ x ∈ later, Ascii x := by
  intro x hx
  have hmem : x ∈ stream "\n\n".toList (items.map Item.text) :=
    h.framed ▸ List.mem_append_right _ hx
  obtain ⟨t, ht, hx⟩ := List.mem_flatMap.1 hmem
  obtain ⟨i, -, rfl⟩ := List.mem_map.1 ht
  have hnewline : ∀ x ∈ "\n\n".toList, Ascii x := forall_of_all rfl
  rcases List.mem_append.1 hx with hx | hx
  · exact i.ascii_text x hx
  · exact hnewline x hx

variable {J : Type} {jsonParse : Text → Option J} {stored : Text} {w w' : World J}

/-- What a step was, and what it required. -/
inductive Taken (jsonParse : Text → Option J) (w : World J) : Move → World J → Prop where
  | append {e : RunEvent} (hlast : ∀ x ∈ w.runEvents, x.globalSeq < e.globalSeq) :
    Taken jsonParse w (.append e) { w with runEvents := w.runEvents ++ [e] }
  | connect {request : Request} {n : Nat} (hr : requestOf w.client.lastId = some request)
      (hp : parseSseCursor request = .ok n) :
    Taken jsonParse w .connect { w with connection := some { gen := .begun n } }
  | resume {now : DateTime} {c : Connection} (hc : w.connection = some c) :
    Taken jsonParse w (.resume now)
      { w with connection := some { c with gen := (c.gen.resume w.runEvents now).1,
                                           wire := c.wire ++ encode (c.gen.resume w.runEvents now).2 } }
  | read {size : Nat} {c : Connection} (hc : w.connection = some c) :
    Taken jsonParse w (.read size)
      { w with connection := some { c with wire := c.wire.drop size,
                                           reader := c.reader.receive (c.wire.take size) } }
  | frame {c : Connection} {p : Client J × Reader} (hc : w.connection = some c)
      (hp : w.client.frame jsonParse c.reader = some p) :
    Taken jsonParse w .frame { w with client := p.1, connection := some { c with reader := p.2 } }
  | cut : Taken jsonParse w .cut { w with connection := none }
  | stop : Taken jsonParse w .stop { w with client := { w.client with closed := true } }

theorem taken_of_step {m : Move} (hm : w.step jsonParse m = some w') : Taken jsonParse w m w' := by
  cases m with
  | append e =>
    simp only [World.step, Option.ite_none_right_eq_some, Option.some.injEq] at hm
    obtain ⟨hlast, rfl⟩ := hm
    exact .append hlast
  | connect =>
    simp only [World.step] at hm
    split at hm
    · rename_i hr
      split at hm
      · rename_i hp
        obtain rfl := Option.some.inj hm
        exact .connect hr hp
      · cases hm
    · cases hm
  | resume now =>
    simp only [World.step, Option.map_eq_some_iff] at hm
    obtain ⟨c, hc, rfl⟩ := hm
    exact .resume hc
  | read size =>
    simp only [World.step] at hm
    split at hm
    · rename_i c hc
      rw [Option.ite_none_right_eq_some] at hm
      obtain rfl := Option.some.inj hm.2
      exact .read hc
    · cases hm
  | frame =>
    simp only [World.step] at hm
    split at hm
    · rename_i c hc
      obtain ⟨p, hp, rfl⟩ := Option.map_eq_some_iff.1 hm
      exact .frame hc hp
    · cases hm
  | cut =>
    simp only [World.step] at hm
    split at hm
    · rw [Option.ite_none_right_eq_some] at hm
      obtain rfl := Option.some.inj hm.2
      exact .cut
    · cases hm
  | stop =>
    obtain rfl := Option.some.inj hm
    exact .stop

/-- The client has heard exactly `got`, the beginning of the log after its first cursor. -/
structure Kept (jsonParse : Text → Option J) (stored : Text) (w : World J) (got : List RunEvent) :
    Prop where
  ordered : w.runEvents.Pairwise (·.globalSeq < ·.globalSeq)
  read : got <+: after (·.globalSeq) (initialCursor stored) w.runEvents
  delivered : w.client.delivered = got.map (delivery jsonParse)
  lastId : w.client.lastId = Paging.cursor (fun e => digits e.globalSeq) stored got
  localStorage : w.client.localStorage = w.client.lastId
  conveys : ∀ c, w.connection = some c →
    ∃ items later, Conveys (initialCursor stored) w.runEvents got c items later

theorem Kept.opened (hlog : log.Pairwise (·.globalSeq < ·.globalSeq)) :
    Kept jsonParse stored { World.opened stored with runEvents := log } [] where
  ordered := hlog
  read := List.nil_prefix
  delivered := rfl
  lastId := rfl
  localStorage := rfl
  conveys c hc := by cases hc

/-- **The identifier the client keeps is the cursor after what it has heard.** -/
theorem Kept.initialCursor_lastId (hk : Kept jsonParse stored w got) :
    initialCursor w.client.lastId =
      Paging.cursor (·.globalSeq) (initialCursor stored) got := by
  rw [hk.lastId]
  rcases List.eq_nil_or_concat got with rfl | ⟨init, e, rfl⟩
  · rfl
  · rw [List.concat_eq_append, cursor_concat, cursor_concat]
    exact initialCursor_eq requestOf_digits (parseSseCursor_digits e.bigint requestOf_digits)

/-- The generator's position is one in the grown log. -/
theorem Conveys.grown {c : Connection} {items : List Item} {later : Text}
    (h : Conveys c₀ log got c items later) (e : RunEvent) :
    Conveys c₀ (log ++ [e]) got c items later where
  wire := h.wire
  framed := h.framed
  between := h.between
  curId := h.curId
  curData := h.curData
  sends := ⟨h.sends.cursor, read_grown h.sends.next [e]⟩

/-- **The generator's next piece** goes on the wire. -/
theorem Conveys.resume {c : Connection} {items : List Item} {later : Text}
    (h : Conveys c₀ log got c items later) (hlog : log.Pairwise (·.globalSeq < ·.globalSeq))
    (now : DateTime) : ∃ items' later', Conveys c₀ log got
      { c with gen := (c.gen.resume log now).1,
               wire := c.wire ++ encode (c.gen.resume log now).2 } items' later' := by
  obtain ⟨more, htext, hsends⟩ := h.sends.resume hlog now
  refine ⟨items ++ more, later ++ (c.gen.resume log now).2, ?_, ?_, h.between, h.curId, h.curData,
    ?_⟩
  · show c.wire ++ encode _ = encode _
    rw [h.wire]
    exact List.flatMap_append.symm
  · show c.reader.buf ++ (later ++ _) = _
    rw [← List.append_assoc, h.framed, htext, List.map_append, stream_append]
  · rw [events_append, ← List.append_assoc]
    exact hsends

/-- **The next bytes** go from the wire into the buffer, wherever they end. -/
theorem Conveys.read {c : Connection} {items : List Item} {later : Text}
    (h : Conveys c₀ log got c items later) (size : Nat) : Conveys c₀ log got
      { c with wire := c.wire.drop size, reader := c.reader.receive (c.wire.take size) } items
      (later.drop size) := by
  obtain ⟨htake, hdrop⟩ := encode_take_drop h.ascii size
  have hascii : ∀ x ∈ later.take size, Ascii x := by
    intro x hx
    exact h.ascii x (List.mem_of_mem_take hx)
  obtain ⟨hread, hbetween⟩ := decode_encode h.between hascii
  rw [h.wire, htake, hdrop]
  refine ⟨rfl, ?_, hbetween, h.curId, h.curData, h.sends⟩
  show c.reader.buf ++ (c.reader.decoder.decode (encode (later.take size))).2 ++ later.drop size = _
  rw [hread, List.append_assoc, List.take_append_drop]
  exact h.framed

/-- **The next frame** is the text of the next item. -/
theorem Conveys.frame {c : Connection} {items : List Item} {later : Text}
    (h : Conveys c₀ log got c items later) {cl : Client J} {p : Client J × Reader}
    (hp : cl.frame jsonParse c.reader = some p) : ∃ i more, p.1 = cl.hear jsonParse i ∧
      Conveys c₀ log (got ++ events [i]) { c with reader := p.2 } more later := by
  obtain ⟨idx, hidx, rfl⟩ := Option.map_eq_some_iff.1 hp
  have hframes : ∀ f ∈ items.map Item.text, Framed "\n\n".toList f := by
    intro f hf
    obtain ⟨i, -, rfl⟩ := List.mem_map.1 hf
    exact i.framed
  obtain ⟨rest, hitems, hrest⟩ := take_frame (by decide) hframes h.framed hidx
  obtain ⟨i, more, rfl, hi, rfl⟩ := List.map_eq_cons_iff.1 hitems
  have hdispatch : cl.dispatch jsonParse
      (((c.reader.buf.take idx).splitOn '\n').foldl Reader.line
        { c.reader with buf := c.reader.buf.drop (idx + 2) }) (c.reader.buf.take idx) =
      (cl.hear jsonParse i, { c.reader with buf := c.reader.buf.drop (idx + 2) }) := by
    rw [← hi]
    exact dispatch_item jsonParse cl (r := { c.reader with buf := c.reader.buf.drop (idx + 2) })
      h.curId h.curData i
  refine ⟨i, more, congrArg Prod.fst hdispatch, ?_⟩
  simp only [hdispatch]
  refine ⟨h.wire, hrest, h.between, h.curId, h.curData, ?_⟩
  have hsplit : got ++ events (i :: more) = got ++ events [i] ++ events more := by
    rw [List.append_assoc, ← events_append]
    rfl
  exact hsplit ▸ h.sends

/-- What the client makes of an item, in terms of the events. -/
theorem Kept.hear (hk : Kept jsonParse stored w got) (i : Item) :
    (w.client.hear jsonParse i).delivered = (got ++ events [i]).map (delivery jsonParse) ∧
      (w.client.hear jsonParse i).lastId =
        Paging.cursor (fun e => digits e.globalSeq) stored (got ++ events [i]) ∧
      (w.client.hear jsonParse i).localStorage = (w.client.hear jsonParse i).lastId := by
  cases i with
  | event e =>
    have hevents : events [.event e] = [e] := rfl
    rw [hevents, cursor_concat, List.map_append, ← hk.delivered]
    exact ⟨rfl, rfl, rfl⟩
  | retry =>
    rw [show got ++ events [.retry] = got from List.append_nil got]
    exact ⟨hk.delivered, hk.lastId, hk.localStorage⟩
  | keepalive now =>
    rw [show got ++ events [.keepalive now] = got from List.append_nil got]
    exact ⟨hk.delivered, hk.lastId, hk.localStorage⟩

/-- **One step** delivers nothing, or the next event of the log. -/
theorem Kept.step (hk : Kept jsonParse stored w got) {m : Move}
    (hm : w.step jsonParse m = some w') : ∃ got', Kept jsonParse stored w' got' := by
  cases taken_of_step hm with
  | @append e hlast =>
    refine ⟨got, ?_, read_grown hk.read [e], hk.delivered, hk.lastId, hk.localStorage, ?_⟩
    · apply List.pairwise_append.2
      refine ⟨hk.ordered, List.pairwise_singleton _ _, ?_⟩
      intro x hx y hy
      rw [List.mem_singleton.1 hy]
      exact hlast x hx
    · intro c hc
      obtain ⟨items, later, hconv⟩ := hk.conveys c hc
      exact ⟨items, later, hconv.grown e⟩
  | @connect request n hr hp =>
    refine ⟨got, hk.ordered, hk.read, hk.delivered, hk.lastId, hk.localStorage, ?_⟩
    intro c hc
    obtain rfl := Option.some.inj hc
    refine ⟨[], [], rfl, rfl, rfl, rfl, rfl, ?_⟩
    have hsends : (Gen.begun n).Sends (initialCursor stored) w.runEvents got := by
      refine ⟨(initialCursor_eq hr hp).symm.trans hk.initialCursor_lastId, ?_⟩
      rw [show got ++ Gen.rows (.begun n) = got from List.append_nil got]
      exact hk.read
    exact hsends.quiet rfl
  | @resume now c hc =>
    obtain ⟨items, later, hconv⟩ := hk.conveys c hc
    refine ⟨got, hk.ordered, hk.read, hk.delivered, hk.lastId, hk.localStorage, ?_⟩
    intro c' hc'
    obtain rfl := Option.some.inj hc'
    exact hconv.resume hk.ordered now
  | @read size c hc =>
    obtain ⟨items, later, hconv⟩ := hk.conveys c hc
    refine ⟨got, hk.ordered, hk.read, hk.delivered, hk.lastId, hk.localStorage, ?_⟩
    intro c' hc'
    obtain rfl := Option.some.inj hc'
    exact ⟨items, _, hconv.read size⟩
  | @frame c p hc hp =>
    obtain ⟨items, later, hconv⟩ := hk.conveys c hc
    obtain ⟨i, more, hheard, hconv'⟩ := hconv.frame hp
    obtain ⟨hdelivered, hlastId, hlocalStorage⟩ := hk.hear i
    rw [← hheard] at hdelivered hlastId hlocalStorage
    refine ⟨got ++ events [i], hk.ordered, ?_, hdelivered, hlastId, hlocalStorage, ?_⟩
    · have hnext := hconv'.sends.next
      rw [List.append_assoc] at hnext
      exact (List.prefix_append _ _).trans hnext
    · intro c' hc'
      obtain rfl := Option.some.inj hc'
      exact ⟨more, later, hconv'⟩
  | cut =>
    refine ⟨got, hk.ordered, hk.read, hk.delivered, hk.lastId, hk.localStorage, ?_⟩
    intro c hc
    cases hc
  | stop => exact ⟨got, hk.ordered, hk.read, hk.delivered, hk.lastId, hk.localStorage, hk.conveys⟩

/-- The log only grows. -/
theorem runEvents_step {m : Move} (hm : w.step jsonParse m = some w') :
    w.runEvents <+: w'.runEvents := by
  cases taken_of_step hm with
  | append => exact List.prefix_append _ _
  | _ => exact List.prefix_refl _

/-- **A run** delivers a beginning of the log. -/
theorem Kept.run {moves : List Move} (hk : Kept jsonParse stored w got)
    (h : w.run jsonParse moves = some w') :
    w.runEvents <+: w'.runEvents ∧ ∃ got', Kept jsonParse stored w' got' := by
  induction moves generalizing w got with
  | nil =>
    obtain rfl := Option.some.inj h
    exact ⟨List.prefix_refl _, got, hk⟩
  | cons m moves ih =>
    obtain ⟨w₁, hm, hrest⟩ := Option.bind_eq_some_iff.1 h
    obtain ⟨got₁, hk₁⟩ := hk.step hm
    obtain ⟨hgrown, got', hk'⟩ := ih hk₁ hrest
    exact ⟨(runEvents_step hm).trans hgrown, got', hk'⟩

theorem Kept.ids (hk : Kept jsonParse stored w got) :
    w.client.delivered.map (·.rawId) = got.map fun e => digits e.globalSeq := by
  rw [hk.delivered, List.map_map]
  rfl

/-- The first so many of the events after a cursor are what is a beginning of them. -/
theorem take_of_read (h : got <+: after (·.globalSeq) c₀ log) :
    (log.filter fun e => c₀ < e.globalSeq).take got.length = got :=
  (List.prefix_iff_eq_take.1 h).symm

/-- **The stream is lossless and free of duplicates.**  Whatever the order of appends, polls,
reads, cuts and reconnections and wherever the bytes are split, the identifiers delivered so far
are those of the first committed events after the initial cursor, in increasing order. -/
theorem delivered_first {moves : List Move}
    (h : (World.opened stored).run jsonParse moves = some w) :
    ∃ k, w.client.delivered.map (·.rawId) =
        ((w.runEvents.filter fun e => initialCursor stored < e.globalSeq).take k).map
          (fun e => digits e.globalSeq) ∧
      ((w.runEvents.filter fun e => initialCursor stored < e.globalSeq).take k).Pairwise
        (·.globalSeq < ·.globalSeq) := by
  obtain ⟨-, got, hk⟩ := (Kept.opened .nil).run h
  refine ⟨got.length, ?_, ?_⟩
  · rw [take_of_read hk.read]
    exact hk.ids
  · exact (pairwise_after hk.ordered).sublist (List.take_sublist _ _)

/-- Two events are heard over two connections, the first of which breaks off inside a frame. -/
def reconnection : List Move :=
  let now : DateTime := ⟨2026, 1, 2, 3, 4, 5, 0, true⟩
  let e (n : Fin 9) : RunEvent := ⟨n, 3, "PLAN".toList, now, [], by omega⟩
  [.append (e 5), .append (e 7), .connect, .resume now, .resume now, .resume now, .read 40, .frame,
    .resume now, .read 150, .frame, .cut, .connect, .resume now, .resume now, .resume now,
    .read 300, .frame, .frame]

theorem delivered_first_reconnected : ∃ w : World Unit,
    (World.opened []).run (fun _ => none) reconnection = some w ∧
    w.client.delivered.map (·.rawId) = [['5'], ['7']] ∧
    ∃ k, w.client.delivered.map (·.rawId) =
        ((w.runEvents.filter fun e => initialCursor [] < e.globalSeq).take k).map
          (fun e => digits e.globalSeq) ∧
      ((w.runEvents.filter fun e => initialCursor [] < e.globalSeq).take k).Pairwise
        (·.globalSeq < ·.globalSeq) := by
  have hids : ((World.opened []).run (fun _ => (none : Option Unit)) reconnection).map
      (fun w => w.client.delivered.map (·.rawId)) = some [['5'], ['7']] := by decide +kernel
  obtain ⟨w, hw, hdelivered⟩ := Option.map_eq_some_iff.1 hids
  exact ⟨w, hw, hdelivered, delivered_first hw⟩

/-- **Nothing stays behind.**  Once the generator has nothing to send and the client has read what
was sent, every committed event after the initial cursor has been delivered. -/
theorem delivered_all {moves : List Move} {c : Connection}
    (h : (World.opened stored).run jsonParse moves = some w) (hc : w.connection = some c)
    (hfetch : fetchSseEvents w.runEvents c.gen.cur 50 = [])
    (hwire : c.wire = []) (hbuf : indexOf "\n\n".toList c.reader.buf = none) :
    w.client.delivered.map (·.rawId) =
      (w.runEvents.filter fun e => initialCursor stored < e.globalSeq).map
        fun e => digits e.globalSeq := by
  obtain ⟨-, got, hk⟩ := (Kept.opened .nil).run h
  obtain ⟨items, later, hconv⟩ := hk.conveys c hc
  have hlater : later = [] := by
    have hnil := (encode_ascii hconv.ascii).symm.trans (hconv.wire.symm.trans hwire)
    exact List.map_eq_nil_iff.1 hnil
  have hframed := hconv.framed
  rw [hlater, List.append_nil] at hframed
  rw [hframed] at hbuf
  have hitems : items = [] := List.map_eq_nil_iff.1 (stream_of_indexOf_none hbuf)
  subst hitems
  have hsent : got ++ events [] = got := List.append_nil got
  obtain ⟨hcur, -⟩ := hsent ▸ hconv.sends
  obtain ⟨more, hmore⟩ := hk.read
  have hnone : more = [] := by
    rw [fetchSseEvents_eq hk.ordered, hcur, after_cursor hk.ordered hmore] at hfetch
    rcases List.take_eq_nil_iff.1 hfetch with hzero | hnil
    · cases hzero
    · exact hnil
  rw [hnone, List.append_nil] at hmore
  rw [hk.ids, hmore]
  rfl

theorem delivered_all_reconnected : ∃ w : World Unit,
    (World.opened []).run (fun _ => none) reconnection = some w ∧
    w.client.delivered.map (·.rawId) =
      (w.runEvents.filter fun e => initialCursor [] < e.globalSeq).map fun e => digits e.globalSeq := by
  have hread : ((World.opened []).run (fun _ => (none : Option Unit)) reconnection).bind
      (fun w => w.connection.map fun c => ((fetchSseEvents w.runEvents c.gen.cur 50).isEmpty, c.wire,
        indexOf "\n\n".toList c.reader.buf)) = some (true, [], none) := by decide +kernel
  obtain ⟨w, hw, hrest⟩ := Option.bind_eq_some_iff.1 hread
  obtain ⟨c, hc, hseen⟩ := Option.map_eq_some_iff.1 hrest
  simp only [Prod.mk.injEq] at hseen
  exact ⟨w, hw, delivered_all hw hc (List.isEmpty_iff.1 hseen.1) hseen.2.1 hseen.2.2⟩

/-- **A page opened later continues.**  It starts from the identifier in the local storage, and
what the two have delivered together are the first events after the cursor of the first. -/
theorem delivered_across {moves moves' : List Move} {K : Type} {parse' : Text → Option K}
    {v : World K} (h : (World.opened stored).run jsonParse moves = some w)
    (h' : World.run parse' { World.opened w.client.localStorage with runEvents := w.runEvents }
      moves' = some v) :
    ∃ k, w.client.delivered.map (·.rawId) ++ v.client.delivered.map (·.rawId) =
      ((v.runEvents.filter fun e => initialCursor stored < e.globalSeq).take k).map
        fun e => digits e.globalSeq := by
  obtain ⟨-, got, hk⟩ := (Kept.opened .nil).run h
  obtain ⟨⟨more, hmore⟩, got', hk'⟩ := (Kept.opened hk.ordered).run h'
  have hread : got <+: after (·.globalSeq) (initialCursor stored) v.runEvents := by
    rw [← hmore]
    exact read_grown hk.read more
  have hcursor : initialCursor w.client.localStorage =
      Paging.cursor (·.globalSeq) (initialCursor stored) got := by
    rw [hk.localStorage]
    exact hk.initialCursor_lastId
  have hboth : got ++ got' <+: after (·.globalSeq) (initialCursor stored) v.runEvents := by
    obtain ⟨rest, hrest⟩ := hread
    have hnext := hk'.read
    rw [hcursor, after_cursor hk'.ordered hrest] at hnext
    rw [← hrest, List.prefix_append_right_inj]
    exact hnext
  refine ⟨(got ++ got').length, ?_⟩
  rw [take_of_read hboth, hk.ids, hk'.ids, List.map_append]

/-- Another event, and a page that is opened after the first one. -/
def openedLater : List Move :=
  let now : DateTime := ⟨2026, 1, 2, 3, 4, 6, 0, true⟩
  [.append ⟨9, 3, "PLAN".toList, now, [], by omega⟩, .connect, .resume now, .resume now,
    .resume now, .read 300, .frame, .frame]

theorem delivered_across_later : ∃ w v : World Unit,
    w.client.delivered.map (·.rawId) = [['5'], ['7']] ∧
    v.client.delivered.map (·.rawId) = [['9']] ∧
    ∃ k, w.client.delivered.map (·.rawId) ++ v.client.delivered.map (·.rawId) =
      ((v.runEvents.filter fun e => initialCursor [] < e.globalSeq).take k).map
        fun e => digits e.globalSeq := by
  have hids : ((World.opened []).run (fun _ => (none : Option Unit)) reconnection).bind (fun w =>
      (World.run (fun _ => (none : Option Unit))
        { World.opened w.client.localStorage with runEvents := w.runEvents } openedLater).map
          fun v => (w.client.delivered.map (·.rawId), v.client.delivered.map (·.rawId))) =
      some ([['5'], ['7']], [['9']]) := by decide +kernel
  obtain ⟨w, hw, hrest⟩ := Option.bind_eq_some_iff.1 hids
  obtain ⟨v, hv, hseen⟩ := Option.map_eq_some_iff.1 hrest
  simp only [Prod.mk.injEq] at hseen
  exact ⟨w, v, hseen.1, hseen.2, delivered_across hw hv⟩

end Observatory.EventStream
