import Mathlib.Data.List.Induction
import Mathlib.Tactic.Common

/-!
# Paths in a tree of files

A tree is what stands at each absolute position.  A path is resolved one part after the other:
empty parts and dots stay where they are, two dots go to the directory above, and every part but the
last must be that of a directory.  There are no links.

A path that never climbs above its start ends below it (`Files.walk_stays`); a path that climbs far
enough ends wherever it likes (`Files.walk_climb`).
-/

namespace FileTree

abbrev Name := List Char

def slash : Char := '/'

/-- A name of an entry, as a file system has them. -/
structure IsName (x : Name) : Prop where
  ne_nil : x ≠ []
  ne_dot : x ≠ ['.']
  ne_dots : x ≠ ['.', '.']
  no_slash : slash ∉ x
  no_nul : '\x00' ∉ x

instance (x : Name) : Decidable (IsName x) :=
  decidable_of_iff (x ≠ [] ∧ x ≠ ['.'] ∧ x ≠ ['.', '.'] ∧ slash ∉ x ∧ '\x00' ∉ x)
    ⟨fun h => ⟨h.1, h.2.1, h.2.2.1, h.2.2.2.1, h.2.2.2.2⟩, fun h => ⟨h.1, h.2, h.3, h.4, h.5⟩⟩

inductive Node (C : Type*) where
  | file (contents : C)
  | dir
deriving DecidableEq

/-- Without links, and everything may be read. -/
structure Files (C : Type*) where
  node : List Name → Option (Node C)
  root : node [] = some .dir
  /-- Only a directory has entries, -/
  parent : ∀ {at_ : List Name} {x : Name}, (node (at_ ++ [x])).isSome → node at_ = some .dir
  /-- and they have names. -/
  named : ∀ {at_ : List Name} {x : Name}, (node (at_ ++ [x])).isSome → IsName x

variable {C : Type*}

namespace Files

/-- Every entry but the root has a name, and stands in a directory. -/
def Proper (entries : List (List Name × Node C)) : Prop :=
  ∀ e ∈ entries, ∀ x ∈ e.1.getLast?, entries.lookup e.1.dropLast = some .dir ∧ IsName x

theorem Proper.of_isSome {entries : List (List Name × Node C)} (h : Proper entries)
    {at_ : List Name} {x : Name} (hsome : (entries.lookup (at_ ++ [x])).isSome) :
    entries.lookup at_ = some .dir ∧ IsName x := by
  obtain ⟨node, hnode⟩ := Option.isSome_iff_exists.1 hsome
  obtain ⟨before, after, rfl, -⟩ := List.lookup_eq_some_iff.1 hnode
  have hentry := h (at_ ++ [x], node) (by simp) x (by simp)
  rw [List.dropLast_concat] at hentry
  exact hentry

/-- The tree with these entries. -/
def ofEntries (entries : List (List Name × Node C)) (hroot : entries.lookup [] = some .dir)
    (h : Proper entries) : Files C where
  node at_ := entries.lookup at_
  root := hroot
  parent hsome := (h.of_isSome hsome).1
  named hsome := (h.of_isSome hsome).2

/-- One part of a path. -/
def move (t : Files C) (at_ : List Name) (part : Name) : Option (List Name) :=
  match t.node at_ with
  | some .dir =>
    if part = [] ∨ part = ['.'] then some at_
    else if part = ['.', '.'] then some at_.dropLast
    else if (t.node (at_ ++ [part])).isSome then some (at_ ++ [part])
    else none
  | _ => none

def walk (t : Files C) (at_ : List Name) (parts : List Name) : Option (List Name) :=
  parts.foldlM t.move at_

/-- Where a path leads to. -/
def resolve (t : Files C) (cwd : List Name) (path : List Char) : Option (List Name) :=
  match path with
  | [] => none
  | c :: rest => if c = slash then t.walk [] (rest.splitOn slash) else t.walk cwd (path.splitOn slash)

/-- What a path leads to. -/
def stat (t : Files C) (cwd : List Name) (path : List Char) : Option (Node C) :=
  (t.resolve cwd path).bind t.node

end Files

/-- From a depth of `d` below the start, the parts never climb above the start. -/
def Stays : Nat → List Name → Bool
  | _, [] => true
  | d, part :: parts =>
    if part = [] ∨ part = ['.'] then Stays d parts
    else if part = ['.', '.'] then d ≠ 0 && Stays (d - 1) parts
    else Stays (d + 1) parts

/-- Up to the root from a depth of `d`, and down to `f`. -/
def climb (d : Nat) (f : List Name) : List Name := List.replicate d ['.', '.'] ++ f

/-- The parts, put together. -/
def text (parts : List Name) : List Char := [slash].intercalate parts

theorem splitOn_text {parts : List Name} (h : ∀ x ∈ parts, slash ∉ x) (hne : parts ≠ []) :
    (text parts).splitOn slash = parts := List.splitOn_intercalate slash h hne

theorem notMem_text {parts : List Name} {c : Char} (h : ∀ x ∈ parts, c ∉ x) (hc : c ≠ slash) :
    c ∉ text parts := by
  induction parts with
  | nil => exact List.not_mem_nil
  | cons x parts ih =>
    have hx : c ∉ x := h x List.mem_cons_self
    cases parts with
    | nil =>
      rw [text, List.intercalate_singleton]
      exact hx
    | cons y parts =>
      have hrest := ih fun z hz => h z (List.mem_cons_of_mem _ hz)
      rw [text, List.intercalate_cons_cons]
      simp only [List.mem_append, List.mem_singleton, not_or]
      exact ⟨⟨hx, hc⟩, hrest⟩

/-- What no name has, no part of a path that climbs has either. -/
theorem climb_forall {P : Name → Prop} {d : Nat} {f : List Name} (hdots : P ['.', '.'])
    (hf : ∀ x ∈ f, P x) : ∀ x ∈ climb d f, P x := by
  intro x hx
  rcases List.mem_append.1 hx with hx | hx
  · rw [List.eq_of_mem_replicate hx]
    exact hdots
  · exact hf x hx

namespace Files

variable {t : Files C} {cwd at_ start f q parts : List Name} {part x : Name} {p : List Name}
  {path rest : List Char}

theorem walk_cons : t.walk at_ (part :: parts) = (t.move at_ part).bind (t.walk · parts) := rfl

theorem walk_append : t.walk at_ (parts ++ f) = (t.walk at_ parts).bind (t.walk · f) :=
  List.foldlM_append

/-- What is joined by a slash is resolved from there. -/
theorem resolve_append (hpath : path ≠ []) :
    t.resolve cwd (path ++ slash :: rest) =
      (t.resolve cwd path).bind (t.walk · (rest.splitOn slash)) := by
  cases path with
  | nil => exact absurd rfl hpath
  | cons c path =>
    unfold resolve
    simp only [List.cons_append]
    split
    · rw [List.splitOn_append_cons_self, walk_append]
    · rw [← List.cons_append, List.splitOn_append_cons_self, walk_append]

theorem dir_of_isSome (h : (t.node (at_ ++ q)).isSome) (hq : q ≠ []) : t.node at_ = some .dir := by
  induction q using List.reverseRecOn with
  | nil => exact absurd rfl hq
  | append_singleton q x ih =>
    rw [← List.append_assoc] at h
    have hdir := t.parent h
    by_cases hnil : q = []
    · rw [hnil, List.append_nil] at hdir
      exact hdir
    · exact ih (by rw [hdir]; rfl) hnil

/-- Every part of a position is a name. -/
theorem isName_of_isSome (h : (t.node p).isSome) : ∀ x ∈ p, IsName x := by
  induction p using List.reverseRecOn with
  | nil => simp
  | append_singleton p x ih =>
    intro y hy
    rcases List.mem_append.1 hy with hy | hy
    · exact ih (by rw [t.parent h]; rfl) y hy
    · rw [List.mem_singleton.1 hy]
      exact t.named h

/-! ## What stays below -/

/-- **A path that stays** ends below its start. -/
theorem walk_stays (hstays : Stays q.length parts) (h : t.walk (start ++ q) parts = some p) :
    ∃ q', p = start ++ q' := by
  induction parts generalizing q with
  | nil =>
    cases h
    exact ⟨q, rfl⟩
  | cons part parts ih =>
    rw [walk_cons] at h
    obtain ⟨next, hmove, hwalk⟩ := Option.bind_eq_some_iff.1 h
    unfold move at hmove
    unfold Stays at hstays
    split at hmove
    · split_ifs at hmove hstays with hdot hdots hentry
      · cases hmove
        exact ih hstays hwalk
      · cases hmove
        rw [Bool.and_eq_true, decide_eq_true_iff] at hstays
        -- below the start there is a name to drop
        have hq : q ≠ [] := fun hnil => hstays.1 (by rw [hnil]; rfl)
        rw [List.dropLast_append_of_ne_nil hq] at hwalk
        exact ih (by rw [List.length_dropLast]; exact hstays.2) hwalk
      · cases hmove
        rw [List.append_assoc] at hwalk
        exact ih (by rw [List.length_append]; exact hstays) hwalk
    · cases hmove

/-! ## What climbs -/

theorem move_dots (h : t.node at_ = some .dir) : t.move at_ ['.', '.'] = some at_.dropLast := by
  unfold move
  rw [h]
  rfl

theorem move_name (hx : IsName x) (h : (t.node (at_ ++ [x])).isSome) :
    t.move at_ x = some (at_ ++ [x]) := by
  unfold move
  rw [t.parent h]
  simp only
  rw [if_neg (not_or.2 ⟨hx.ne_nil, hx.ne_dot⟩), if_neg hx.ne_dots, if_pos h]

theorem walk_up (h : t.node at_ = some .dir) :
    t.walk at_ (List.replicate at_.length ['.', '.']) = some [] := by
  induction at_ using List.reverseRecOn with
  | nil => rfl
  | append_singleton p x ih =>
    have hdir : t.node p = some .dir := t.parent (by rw [h]; rfl)
    rw [List.length_append, List.length_singleton, List.replicate_succ, walk_cons, move_dots h,
      Option.bind_some, List.dropLast_concat]
    exact ih hdir

theorem walk_down (h : (t.node (at_ ++ f)).isSome) : t.walk at_ f = some (at_ ++ f) := by
  induction f generalizing at_ with
  | nil => rw [List.append_nil]; rfl
  | cons x f ih =>
    rw [List.append_cons] at h
    have hx : (t.node (at_ ++ [x])).isSome := by
      by_cases hnil : f = []
      · rw [hnil, List.append_nil] at h
        exact h
      · rw [dir_of_isSome h hnil]
        rfl
    rw [walk_cons, move_name (t.named hx) hx, Option.bind_some, ih h, ← List.append_cons]

/-- **A path that climbs** to the root ends at any file. -/
theorem walk_climb (hat : t.node at_ = some .dir) (hf : (t.node f).isSome) :
    t.walk at_ (climb at_.length f) = some f := by
  rw [climb, walk_append, walk_up hat, Option.bind_some]
  exact walk_down hf

end Files

end FileTree
