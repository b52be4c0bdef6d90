import Mathlib.Data.List.Forall2
import Observatory.Data.Matches
import Observatory.Model.Redaction

/-!
# What the patterns match

Literals, names read without regard to case, and the pattern of database URLs, read back from their
results.
-/

namespace Observatory.Redaction

open Regex

section literals

variable {uni : Unicode} {prev : Option Char} {x : List Char} {y : List Char × List Char}

/-- The characters read as the letters of a name if the case is ignored. -/
def Reads (uni : Unicode) : List Char → List Char → Prop :=
  List.Forall₂ fun c l => c = l ∨ uni.ignoreCase c l = true

theorem Reads.refl (n : List Char) : Reads uni n n := List.forall₂_same.2 fun _ _ => .inl rfl

theorem mem_run_text {s : String} :
    y ∈ (text s).run prev x ↔ y.1 = s.toList ∧ s.toList ++ y.2 = x := by
  obtain ⟨m, rest⟩ := y
  rw [text, Re.run_literal]
  split
  · next h =>
    obtain ⟨rest', rfl⟩ := h
    simp
  · next h =>
    simp only [List.not_mem_nil, false_iff, not_and]
    rintro - rfl
    exact h ⟨rest, rfl⟩

theorem mem_run_letters {ls : List Char} :
    y ∈ (Re.seqs (ls.map fun l => .one fun c => c = l || uni.ignoreCase c l)).run prev x ↔
      Reads uni y.1 ls ∧ y.1 ++ y.2 = x := by
  induction ls generalizing prev x y with
  | nil =>
    obtain ⟨m, rest⟩ := y
    simp only [List.map_nil, Re.seqs, Re.run, List.mem_singleton, Prod.mk.injEq, Reads,
      List.forall₂_nil_right_iff]
    constructor
    · rintro ⟨rfl, rfl⟩
      exact ⟨rfl, rfl⟩
    · rintro ⟨rfl, rfl⟩
      exact ⟨rfl, rfl⟩
  | cons l ls ih =>
    rw [List.map_cons, Re.seqs, Re.mem_run_seq]
    constructor
    · rintro ⟨y₁, hy₁, y₂, hy₂, rfl⟩
      obtain ⟨c, hc, hone, rfl⟩ := Re.mem_run_one.1 hy₁
      obtain ⟨hreads, hrest⟩ := ih.1 hy₂
      rw [hone]
      exact ⟨List.Forall₂.cons (by simpa using hc) hreads, by rw [← hrest]; rfl⟩
    · rintro ⟨hreads, hx⟩
      obtain ⟨m, rest⟩ := y
      cases hreads with
      | @cons c _ m _ hc hreads =>
        refine ⟨([c], m ++ rest), Re.mem_run_one.2 ⟨c, by simpa using hc, rfl, hx.symm⟩,
          (m, rest), ih.2 ⟨hreads, rfl⟩, rfl⟩

theorem mem_run_itext {s : String} :
    y ∈ (itext uni s).run prev x ↔ Reads uni y.1 s.toList ∧ y.1 ++ y.2 = x :=
  mem_run_letters

end literals

/-! ## Names -/

section names

variable {uni : Unicode} (huni : uni.Documented) {n : List Char}

include huni

/-- A character of ASCII is read as its lower-case letter. -/
theorem Reads.toLower_mem {ls : List Char} (h : Reads uni n ls)
    (hls : ∀ l ∈ ls, l.toLower = l) : ∀ c ∈ n, c.toNat < 0x80 → c.toLower ∈ ls := by
  induction h with
  | nil =>
    rintro c ⟨⟩
  | @cons c l n ls hc h ih =>
    rintro d (_ | ⟨_, hd⟩) hascii
    · have hlower : c.toLower = l := by
        rcases hc with rfl | hc
        · exact hls c List.mem_cons_self
        · exact huni.ignoreCase c l hascii hc
      rw [hlower]
      exact List.mem_cons_self
    · exact List.mem_cons_of_mem _ (ih (fun l hl => hls l (List.mem_cons_of_mem _ hl)) d hd hascii)

end names

/-! ## Database URLs -/

/-- The names of the pattern of database URLs. -/
def schemes : List String := ["postgresql", "postgres", "mysql", "mongodb"]

def Named (uni : Unicode) (n : List Char) : Prop := ∃ name ∈ schemes, Reads uni n name.toList

section urls

variable {uni : Unicode} {prev : Option Char} {x rest n w t : List Char}
  {m : List (Piece Char)}

/-- What stands before the password. -/
def opening (n w : List Char) : List Char := n ++ "://".toList ++ w ++ [':']

theorem Named.ne_nil (h : Named uni n) : n ≠ [] := by
  obtain ⟨name, hname, hreads⟩ := h
  have hlen := hreads.length_eq
  intro hnil
  rw [hnil] at hlen
  revert hlen
  have hpos : ∀ name ∈ schemes, name.toList.length ≠ 0 := by decide
  exact fun hlen => hpos name hname hlen.symm

/-- Names consist of letters. -/
theorem Named.notMem (huni : uni.Documented) {d : Char} (hd : d ∈ [':', '/', '@'])
    (h : Named uni n) : d ∉ n := by
  obtain ⟨name, hname, hreads⟩ := h
  have hlower : schemes.all fun name => name.toList.all fun l => l.toLower = l := by
    rfl
  have hspecial : [':', '/', '@'].all fun d => d.toNat < 0x80 &&
      schemes.all fun name => d.toLower ∉ name.toList := by rfl
  simp only [List.all_eq_true, Bool.and_eq_true, decide_eq_true_eq] at hlower hspecial
  intro hmem
  obtain ⟨hascii, hnot⟩ := hspecial d hd
  exact hnot name hname (hreads.toLower_mem huni (hlower name hname) d hmem hascii)

theorem mem_run_schemes : (n, rest) ∈ (Re.alts (itext uni "postgresql") [itext uni "postgres",
    itext uni "mysql", itext uni "mongodb"]).run prev x ↔ Named uni n ∧ n ++ rest = x := by
  simp only [Re.mem_run_alts, List.exists_mem_cons_iff, mem_run_itext, Named, schemes]
  simp [or_and_right]

theorem mem_run_opening : (m, rest) ∈ (databaseUrl uni).run prev x ↔
    ∃ n w t, (Named uni n ∧ w ≠ [] ∧ ':' ∉ w ∧ t ≠ [] ∧ '@' ∉ t) ∧
      x = opening n w ++ t ++ '@' :: rest ∧
      m = (opening n w).map .keep ++ .put t "<REDACTED>".toList :: [.keep '@'] := by
  constructor
  · intro h
    obtain ⟨y, mid, ms, rfl, hopening, h⟩ := Rule.mem_run_cons.1 h
    obtain ⟨t, mid', ms', rfl, hpassword, h⟩ := Rule.mem_run_cons.1 h
    obtain ⟨e, mid'', ms'', rfl, hend, h⟩ := Rule.mem_run_cons.1 h
    obtain ⟨rfl, rfl⟩ := Rule.mem_run_nil.1 h
    simp only [kept, masked, Re.mem_run_seqs_cons, mem_run_schemes, mem_run_text, Re.mem_run_many,
      Re.mem_run_seqs_nil] at hopening hpassword hend
    obtain ⟨n, x₁, y₁, rfl, ⟨hn, rfl⟩, s, x₂, y₂, rfl, ⟨rfl, rfl⟩, w, x₃, y₃, rfl,
      ⟨rfl, hw, hwlen, -⟩, c, x₄, y₄, rfl, ⟨rfl, rfl⟩, rfl, rfl⟩ := hopening
    obtain ⟨t, x₅, y₅, rfl, ⟨rfl, ht, htlen, -⟩, rfl, rfl⟩ := hpassword
    obtain ⟨e, x₆, y₆, rfl, ⟨rfl, rfl⟩, rfl, rfl⟩ := hend
    refine ⟨n, w, t, ⟨hn, List.length_pos_iff.1 hwlen, fun hc => ?_, List.length_pos_iff.1 htlen,
      fun hc => ?_⟩, ?_, ?_⟩
    · simpa using hw _ hc
    · simpa using ht _ hc
    · simp [opening]
    · simp [opening, Portion.pieces, kept, masked]
  · rintro ⟨n, w, t, ⟨hn, hw, hcolon, ht, hat⟩, rfl, rfl⟩
    have hw' : ∀ c ∈ w, decide (c ≠ ':') = true := fun c hc =>
      decide_eq_true fun heq => hcolon (heq ▸ hc)
    have ht' : ∀ c ∈ t, decide (c ≠ '@') = true := fun c hc =>
      decide_eq_true fun heq => hat (heq ▸ hc)
    refine Rule.mem_run_cons.2 ⟨opening n w, t ++ '@' :: rest, _, ?_, ?_, Rule.mem_run_cons.2
      ⟨t, '@' :: rest, _, rfl, ?_, Rule.mem_run_cons.2 ⟨['@'], rest, [], rfl, ?_,
        Rule.mem_run_nil.2 ⟨rfl, rfl⟩⟩⟩⟩
    · rfl
    · simp only [kept, Re.mem_run_seqs_cons, mem_run_schemes, mem_run_text, Re.mem_run_many,
        Re.mem_run_seqs_nil]
      refine ⟨n, _, _, ?_, ⟨hn, ?_⟩, _, _, w ++ [':'], rfl, ⟨rfl, rfl⟩, w, ':' :: (t ++ '@' :: rest),
        [':'], rfl, ⟨rfl, hw', List.length_pos_iff.2 hw, by simp⟩, _, _, [], rfl, ⟨rfl, rfl⟩,
        rfl, rfl⟩
      · simp [opening]
      · simp [opening]
    · simp only [masked, Re.mem_run_seqs_cons, Re.mem_run_many, Re.mem_run_seqs_nil]
      exact ⟨t, _, [], (List.append_nil t).symm,
        ⟨rfl, ht', List.length_pos_iff.2 ht, by simp⟩, rfl, rfl⟩
    · simp only [kept, Re.mem_run_seqs_cons, mem_run_text, Re.mem_run_seqs_nil]
      exact ⟨['@'], rest, [], rfl, ⟨rfl, rfl⟩, rfl, rfl⟩

end urls

end Observatory.Redaction
