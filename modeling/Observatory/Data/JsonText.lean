import Mathlib.Data.List.Forall2
import Mathlib.Data.List.Perm.Basic
import Mathlib.Data.List.Sort
import Mathlib.Data.Nat.Notation

/-!
# Compact JSON

Values of JSON over any type of texts, and what a compact writer makes of them, with the fields of
each object in their order.  If the texts can be told from what is written, whatever follows, so can
the values (`write_append_inj`): the first character tells the kind, a number ends where no digit
follows, and in a sequence a comma or the bracket comes after each item.  A writer that sorts the
fields first forgets their order and nothing else (`sorted_eq_iff_same`).
-/

namespace JsonText

/-- JSON values with texts from `σ`.  The fields of an object are in the order of insertion. -/
inductive Value (σ : Type) where
  | null
  | bool (b : Bool)
  | int (i : Int)
  | str (s : σ)
  | list (xs : List (Value σ))
  | obj (kvs : List (σ × Value σ))

namespace Value

variable {σ τ β : Type}

@[induction_eliminator]
theorem induct {P : Value σ → Prop} (null : P .null) (bool : ∀ b, P (.bool b))
    (int : ∀ i, P (.int i)) (str : ∀ s, P (.str s))
    (list : ∀ xs, (∀ x ∈ xs, P x) → P (.list xs))
    (obj : ∀ kvs, (∀ kv ∈ kvs, P kv.2) → P (.obj kvs)) (v : Value σ) : P v :=
  @Value.rec σ P (fun xs => ∀ x ∈ xs, P x) (fun kvs => ∀ kv ∈ kvs, P kv.2) (fun kv => P kv.2)
    null bool int str list obj
    (fun _ h => absurd h List.not_mem_nil) (fun _ _ h ih => List.forall_mem_cons.2 ⟨h, ih⟩)
    (fun _ h => absurd h List.not_mem_nil) (fun _ _ h ih => List.forall_mem_cons.2 ⟨h, ih⟩)
    (fun _ _ h => h) v

/-! ## Folds -/

/-- One clause for each constructor. -/
structure Clauses (σ β : Type) where
  null : β
  bool : Bool → β
  int : Int → β
  str : σ → β
  list : List β → β
  obj : List (σ × β) → β

mutual

def fold (a : Clauses σ β) : Value σ → β
  | .null => a.null
  | .bool b => a.bool b
  | .int i => a.int i
  | .str s => a.str s
  | .list xs => a.list (foldItems a xs)
  | .obj kvs => a.obj (foldFields a kvs)

def foldItems (a : Clauses σ β) : List (Value σ) → List β
  | [] => []
  | x :: xs => fold a x :: foldItems a xs

def foldFields (a : Clauses σ β) : List (σ × Value σ) → List (σ × β)
  | [] => []
  | (k, v) :: kvs => (k, fold a v) :: foldFields a kvs

end

theorem fold_list {a : Clauses σ β} {xs : List (Value σ)} :
    fold a (.list xs) = a.list (xs.map (fold a)) := by
  have hitems : foldItems a xs = xs.map (fold a) := by
    induction xs with
    | nil => rfl
    | cons x xs ih => rw [foldItems, ih, List.map_cons]
  rw [fold, hitems]

theorem fold_obj {a : Clauses σ β} {kvs : List (σ × Value σ)} :
    fold a (.obj kvs) = a.obj (kvs.map fun kv => (kv.1, fold a kv.2)) := by
  have hfields : foldFields a kvs = kvs.map fun kv => (kv.1, fold a kv.2) := by
    induction kvs with
    | nil => rfl
    | cons kv kvs ih => rw [foldFields, ih, List.map_cons]
  rw [fold, hfields]

/-! ## Texts and keys -/

/-- All keys and texts are in `S`. -/
def Texts (S : σ → Prop) : Value σ → Prop := fold
  { null := True
    bool := fun _ => True
    int := fun _ => True
    str := S
    list := fun ps => ∀ p ∈ ps, p
    obj := fun kps => ∀ kp ∈ kps, S kp.1 ∧ kp.2 }

/-- No object has a key twice. -/
def Distinct : Value σ → Prop := fold
  { null := True
    bool := fun _ => True
    int := fun _ => True
    str := fun _ => True
    list := fun ps => ∀ p ∈ ps, p
    obj := fun kps => (kps.map Prod.fst).Nodup ∧ ∀ kp ∈ kps, kp.2 }

/-- Each text in another alphabet. -/
def mapText (f : σ → τ) : Value σ → Value τ := fold
  { null := .null
    bool := .bool
    int := .int
    str := fun s => .str (f s)
    list := .list
    obj := fun kvs => .obj (kvs.map fun kv => (f kv.1, kv.2)) }

section texts

variable {S : σ → Prop} {f : σ → τ} {xs : List (Value σ)} {kvs : List (σ × Value σ)}

@[simp]
theorem texts_list : Texts S (.list xs) ↔ ∀ x ∈ xs, Texts S x := by
  unfold Texts
  rw [fold_list]
  exact List.forall_mem_map

@[simp]
theorem texts_obj : Texts S (.obj kvs) ↔ ∀ kv ∈ kvs, S kv.1 ∧ Texts S kv.2 := by
  unfold Texts
  rw [fold_obj]
  exact List.forall_mem_map

@[simp]
theorem distinct_list : Distinct (.list xs) ↔ ∀ x ∈ xs, Distinct x := by
  unfold Distinct
  rw [fold_list]
  exact List.forall_mem_map

@[simp]
theorem distinct_obj : Distinct (.obj kvs) ↔
    (kvs.map Prod.fst).Nodup ∧ ∀ kv ∈ kvs, Distinct kv.2 := by
  unfold Distinct
  rw [fold_obj]
  dsimp only
  rw [List.forall_mem_map, List.map_map]
  rfl

theorem mapText_list : mapText f (.list xs) = .list (xs.map (mapText f)) := fold_list

theorem mapText_obj : mapText f (.obj kvs) = .obj (kvs.map fun kv => (f kv.1, mapText f kv.2)) := by
  unfold mapText
  rw [fold_obj]
  dsimp only
  rw [List.map_map]
  rfl

/-- Lists are equal if a map is injective where it is used. -/
theorem map_inj_on {α γ : Type} {g : α → γ} {as bs : List α}
    (hinj : ∀ a ∈ as, ∀ b ∈ bs, g a = g b → a = b) (h : as.map g = bs.map g) : as = bs := by
  induction as generalizing bs with
  | nil => exact (List.map_eq_nil_iff.1 h.symm).symm
  | cons a as ih =>
    cases bs with
    | nil => cases h
    | cons b bs =>
      obtain ⟨hhead, htail⟩ := List.cons.inj h
      rw [hinj a List.mem_cons_self b List.mem_cons_self hhead, ih (fun a ha b hb =>
        hinj a (List.mem_cons_of_mem _ ha) b (List.mem_cons_of_mem _ hb)) htail]

/-- **Values are told apart** in another alphabet if their texts are. -/
theorem mapText_inj_on (hf : ∀ s t, S s → S t → f s = f t → s = t) {v w : Value σ}
    (hv : v.Texts S) (hw : w.Texts S) (h : v.mapText f = w.mapText f) : v = w := by
  induction v generalizing w with
  | null =>
    cases w <;> cases h
    rfl
  | bool b =>
    cases w <;> cases h
    rfl
  | int i =>
    cases w <;> cases h
    rfl
  | str s =>
    cases w with
    | str t => rw [hf s t hv hw (Value.str.inj h)]
    | _ => cases h
  | list xs ih =>
    rw [mapText_list] at h
    cases w with
    | list ys =>
      rw [texts_list] at hv hw
      rw [mapText_list] at h
      exact congrArg _ (map_inj_on (fun x hx y hy => ih x hx (hv x hx) (hw y hy)) (list.inj h))
    | obj kvs =>
      rw [mapText_obj] at h
      cases h
    | _ => cases h
  | obj kvs ih =>
    rw [mapText_obj] at h
    cases w with
    | obj kvs' =>
      rw [texts_obj] at hv hw
      rw [mapText_obj] at h
      refine congrArg _ (map_inj_on (fun kv hkv kv' hkv' heq => ?_) (obj.inj h))
      obtain ⟨hkey, hvalue⟩ := Prod.mk.inj heq
      exact Prod.ext (hf _ _ (hv kv hkv).1 (hw kv' hkv').1 hkey)
        (ih kv hkv (hv kv hkv).2 (hw kv' hkv').2 hvalue)
    | list ys =>
      rw [mapText_list] at h
      cases h
    | _ => cases h

end texts

/-! ## Sorted keys -/

section sorted

variable [LinearOrder σ] {xs : List (Value σ)} {kvs kvs' : List (σ × Value σ)}

/-- The fields in the order of their keys. -/
def byKey (kvs : List (σ × β)) : List (σ × β) := kvs.insertionSort fun kv kv' => kv.1 ≤ kv'.1

/-- The keys of each object in their order. -/
def sorted : Value σ → Value σ := fold
  { null := .null
    bool := .bool
    int := .int
    str := .str
    list := .list
    obj := fun kvs => .obj (byKey kvs) }

theorem sorted_list : sorted (.list xs) = .list (xs.map sorted) := fold_list

theorem byKey_map {γ : Type} {f : β → γ} {kvs : List (σ × β)} :
    byKey (kvs.map fun kv => (kv.1, f kv.2)) = (byKey kvs).map fun kv => (kv.1, f kv.2) :=
  (List.map_insertionSort (fun kv kv' : σ × β => kv.1 ≤ kv'.1)
    (fun kv kv' : σ × γ => kv.1 ≤ kv'.1) (fun kv => (kv.1, f kv.2)) kvs fun _ _ _ _ => Iff.rfl).symm

theorem sorted_obj : sorted (.obj kvs) = .obj ((byKey kvs).map fun kv => (kv.1, sorted kv.2)) := by
  rw [← byKey_map]
  exact fold_obj

theorem byKey_perm (kvs : List (σ × β)) : (byKey kvs).Perm kvs := List.perm_insertionSort _ _

/-- Fields with different keys are sorted in one way. -/
theorem byKey_eq_of_perm {kvs kvs' : List (σ × β)} (hperm : kvs.Perm kvs')
    (hkeys : (kvs.map Prod.fst).Nodup) : byKey kvs = byKey kvs' := by
  have hsorted : ∀ kvs : List (σ × β), (byKey kvs).Pairwise fun kv kv' => kv.1 ≤ kv'.1 :=
    fun kvs => List.pairwise_insertionSort _ _
  refine List.Perm.eq_of_pairwise (fun kv kv' hkv hkv' hle hge => ?_) (hsorted kvs) (hsorted kvs')
    ((byKey_perm kvs).trans (hperm.trans (byKey_perm kvs').symm))
  have hmem' := hperm.mem_iff.2 ((byKey_perm kvs').mem_iff.1 hkv')
  exact List.inj_on_of_nodup_map hkeys ((byKey_perm kvs).mem_iff.1 hkv) hmem' (le_antisymm hle hge)

theorem texts_sorted {S : σ → Prop} {v : Value σ} (h : v.Texts S) : v.sorted.Texts S := by
  induction v with
  | list xs ih =>
    rw [texts_list] at h
    rw [sorted_list, texts_list, List.forall_mem_map]
    exact fun x hx => ih x hx (h x hx)
  | obj kvs ih =>
    rw [texts_obj] at h
    rw [sorted_obj, texts_obj, List.forall_mem_map]
    intro kv hkv
    have hmem := (byKey_perm kvs).mem_iff.1 hkv
    exact ⟨(h kv hmem).1, ih kv hmem (h kv hmem).2⟩
  | _ => exact h

end sorted

/-- **Equal up to the order of the fields** of each object. -/
inductive Same : Value σ → Value σ → Prop
  | null : Same .null .null
  | bool (b : Bool) : Same (.bool b) (.bool b)
  | int (i : Int) : Same (.int i) (.int i)
  | str (s : σ) : Same (.str s) (.str s)
  | list {xs ys : List (Value σ)} : List.Forall₂ Same xs ys → Same (.list xs) (.list ys)
  | obj {kvs kvs' kvs'' : List (σ × Value σ)} : kvs.map Prod.fst = kvs'.map Prod.fst →
      List.Forall₂ Same (kvs.map Prod.snd) (kvs'.map Prod.snd) → kvs'.Perm kvs'' →
      Same (.obj kvs) (.obj kvs'')

section same

variable {v w : Value σ} {kvs kvs' : List (σ × Value σ)}

theorem forall₂_map_eq {α γ : Type} {g : α → γ} {as bs : List α} :
    List.Forall₂ (fun a b => g a = g b) as bs ↔ as.map g = bs.map g := by
  rw [← List.forall₂_eq_eq_eq, List.forall₂_map_left_iff, List.forall₂_map_right_iff]

theorem forall₂_imp {α γ : Type} {R S : α → γ → Prop} {as : List α} {bs : List γ}
    (himp : ∀ a ∈ as, ∀ b, R a b → S a b) (h : List.Forall₂ R as bs) : List.Forall₂ S as bs := by
  induction h with
  | nil => exact .nil
  | cons hab _ ih =>
    rw [List.forall_mem_cons] at himp
    exact .cons (himp.1 _ hab) (ih himp.2)

/-- Fields side by side. -/
theorem sameFields_iff : List.Forall₂ (fun kv kv' => kv.1 = kv'.1 ∧ Same kv.2 kv'.2) kvs kvs' ↔
    kvs.map Prod.fst = kvs'.map Prod.fst ∧
      List.Forall₂ Same (kvs.map Prod.snd) (kvs'.map Prod.snd) := by
  rw [← forall₂_map_eq, List.forall₂_map_left_iff, List.forall₂_map_right_iff]
  constructor
  · intro h
    exact ⟨h.imp fun _ _ hkv => hkv.1, h.imp fun _ _ hkv => hkv.2⟩
  · rintro ⟨hkeys, hvalues⟩
    induction hkeys with
    | nil => exact .nil
    | cons hkey _ ih =>
      cases hvalues with
      | cons hvalue hvalues => exact .cons ⟨hkey, hvalue⟩ (ih hvalues)

variable [LinearOrder σ]

theorem sorted_eq_of_same (hv : v.Distinct) (h : v.Same w) : v.sorted = w.sorted := by
  induction v generalizing w with
  | list xs ih =>
    rw [distinct_list] at hv
    cases h with
    | list hitems =>
      rw [sorted_list, sorted_list]
      refine congrArg _ (forall₂_map_eq.1 (forall₂_imp (fun x hx y => ?_) hitems))
      exact ih x hx (hv x hx)
  | obj kvs ih =>
    rw [distinct_obj] at hv
    cases h with
    | @obj _ kvs' kvs'' hkeys hvalues hperm =>
      have hrows : kvs.map (fun kv => (kv.1, sorted kv.2)) =
          kvs'.map (fun kv => (kv.1, sorted kv.2)) := by
        refine forall₂_map_eq.1 (forall₂_imp (fun kv hkv kv' hsame => ?_)
          (sameFields_iff.2 ⟨hkeys, hvalues⟩))
        exact Prod.ext hsame.1 (ih kv hkv (hv.2 kv hkv) hsame.2)
      rw [sorted_obj, sorted_obj, ← byKey_map, hrows, byKey_map,
        byKey_eq_of_perm hperm (hkeys ▸ hv.1)]
  | _ =>
    cases h
    rfl

theorem same_of_sorted_eq (h : v.sorted = w.sorted) : v.Same w := by
  induction v generalizing w with
  | list xs ih =>
    rw [sorted_list] at h
    cases w with
    | list ys =>
      rw [sorted_list] at h
      exact .list (forall₂_imp (fun x hx y => ih x hx) (forall₂_map_eq.2 (list.inj h)))
    | obj kvs =>
      rw [sorted_obj] at h
      cases h
    | _ => cases h
  | obj kvs ih =>
    rw [sorted_obj] at h
    cases w with
    | obj kvs' =>
      rw [sorted_obj] at h
      have hrows : List.Forall₂ (fun kv kv' => kv.1 = kv'.1 ∧ Same kv.2 kv'.2)
          (byKey kvs) (byKey kvs') := by
        refine forall₂_imp (fun kv hkv kv' heq => ?_) (forall₂_map_eq.2 (obj.inj h))
        obtain ⟨hkey, hvalue⟩ := Prod.mk.inj heq
        exact ⟨hkey, ih kv ((byKey_perm kvs).mem_iff.1 hkv) hvalue⟩
      -- the fields of the one as they were inserted, and those of the other beside them
      obtain ⟨rows, hbeside, hperm⟩ := List.perm_comp_forall₂ (byKey_perm kvs).symm hrows
      obtain ⟨hkeys, hvalues⟩ := sameFields_iff.1 hbeside
      exact .obj hkeys hvalues (hperm.trans (byKey_perm kvs'))
    | list ys =>
      rw [sorted_list] at h
      cases h
    | _ => cases h
  | _ =>
    cases w <;> cases h
    constructor

/-- **Sorting forgets the order of the fields** and nothing else. -/
theorem sorted_eq_iff_same (hv : v.Distinct) : v.sorted = w.sorted ↔ v.Same w :=
  ⟨same_of_sorted_eq, sorted_eq_of_same hv⟩

end same

/-! ## Writing -/

/-- With a comma before each. -/
def commaed (xs : List (List Char)) : List Char := xs.flatMap fun x => ',' :: x

/-- With a comma between two. -/
def separated : List (List Char) → List Char
  | [] => []
  | x :: xs => x ++ commaed xs

/-- The digits of a number, after its sign. -/
def intText : Int → List Char
  | .ofNat n => Nat.toDigits 10 n
  | .negSucc n => '-' :: Nat.toDigits 10 (n + 1)

/-- Without spaces, for a way to write the texts. -/
def write (quote : σ → List Char) : Value σ → List Char := fold
  { null := "null".toList
    bool := fun b => if b then "true".toList else "false".toList
    int := intText
    str := quote
    list := fun xs => '[' :: (separated xs ++ [']'])
    obj := fun kvs => '{' :: (separated (kvs.map fun kv => quote kv.1 ++ ':' :: kv.2) ++ ['}']) }

section write

variable {quote : σ → List Char} {xs : List (Value σ)} {kvs : List (σ × Value σ)}

theorem write_list :
    write quote (.list xs) = '[' :: (separated (xs.map (write quote)) ++ [']']) := fold_list

theorem write_obj : write quote (.obj kvs) =
    '{' :: (separated (kvs.map fun kv => quote kv.1 ++ ':' :: write quote kv.2) ++ ['}']) := by
  unfold write
  rw [fold_obj]
  dsimp only
  rw [List.map_map]
  rfl

/-- A change of the texts before they are written. -/
theorem write_mapText {quote : τ → List Char} {f : σ → τ} (v : Value σ) :
    write quote (v.mapText f) = write (fun s => quote (f s)) v := by
  induction v with
  | list xs ih =>
    rw [mapText_list, write_list, write_list, List.map_map]
    exact congrArg (fun items => '[' :: (separated items ++ [']'])) (List.map_congr_left ih)
  | obj kvs ih =>
    rw [mapText_obj, write_obj, write_obj, List.map_map]
    refine congrArg (fun rows => '{' :: (separated rows ++ ['}'])) (List.map_congr_left ?_)
    intro kv hkv
    exact congrArg (fun text => quote (f kv.1) ++ ':' :: text) (ih kv hkv)
  | _ => rfl

/-! ## Reading back -/

/-- No digit follows. -/
def NoDigit (r : List Char) : Prop := ∀ c ∈ r.head?, c.isDigit = false

theorem digits_append_inj {ds es r r' : List Char} (hds : ∀ c ∈ ds, c.isDigit)
    (hes : ∀ c ∈ es, c.isDigit) (hr : NoDigit r) (hr' : NoDigit r') (h : ds ++ r = es ++ r') :
    ds = es ∧ r = r' := by
  have htake : ∀ {ds r : List Char}, (∀ c ∈ ds, c.isDigit) → NoDigit r →
      (ds ++ r).takeWhile Char.isDigit = ds := by
    intro ds r hds hr
    rw [List.takeWhile_append_of_pos hds]
    cases r with
    | nil => exact List.append_nil ds
    | cons c r => rw [List.takeWhile_cons_of_neg (by simpa using hr c rfl), List.append_nil]
  have heq : ds = es := by rw [← htake hds hr, h, htake hes hr']
  rw [heq] at h
  exact ⟨heq, List.append_cancel_left h⟩

theorem toDigits_inj {m n : ℕ} (h : Nat.toDigits 10 m = Nat.toDigits 10 n) : m = n := by
  have hread := congrArg (fun cs => Nat.ofDigitChars 10 cs 0) h
  simpa only [Nat.ofDigitChars_toDigits (b := 10) (by decide) (by decide)] using hread

theorem isDigit_of_mem_toDigits {n : ℕ} : ∀ c ∈ Nat.toDigits 10 n, c.isDigit :=
  fun _ => Nat.isDigit_of_mem_toDigits (by decide) (by decide)

theorem toDigits_eq_cons (n : ℕ) : ∃ c cs, Nat.toDigits 10 n = c :: cs ∧ c.isDigit := by
  cases h : Nat.toDigits 10 n with
  | nil => exact absurd h Nat.toDigits_ne_nil
  | cons c cs => exact ⟨c, cs, rfl, isDigit_of_mem_toDigits c (h ▸ List.mem_cons_self)⟩

theorem intText_append_inj {i j : Int} {r r' : List Char} (hr : NoDigit r) (hr' : NoDigit r')
    (h : intText i ++ r = intText j ++ r') : i = j ∧ r = r' := by
  have hsign : ∀ {m n : ℕ} {r r' : List Char}, Nat.toDigits 10 m ++ r ≠ ('-' :: Nat.toDigits 10 n) ++ r' := by
    intro m n r r' heq
    obtain ⟨c, cs, hm, hc⟩ := toDigits_eq_cons m
    rw [hm] at heq
    rw [(List.cons.inj heq).1] at hc
    exact absurd hc (by decide)
  cases i with
  | ofNat m =>
    cases j with
    | ofNat n =>
      obtain ⟨hdigits, hrest⟩ :=
        digits_append_inj isDigit_of_mem_toDigits isDigit_of_mem_toDigits hr hr' h
      exact ⟨congrArg Int.ofNat (toDigits_inj hdigits), hrest⟩
    | negSucc n => exact absurd h hsign
  | negSucc m =>
    cases j with
    | ofNat n => exact absurd h.symm hsign
    | negSucc n =>
      obtain ⟨hdigits, hrest⟩ := digits_append_inj isDigit_of_mem_toDigits isDigit_of_mem_toDigits
        hr hr' (List.cons.inj h).2
      exact ⟨congrArg Int.negSucc (Nat.succ.inj (toDigits_inj hdigits)), hrest⟩

section sequence

variable {α : Type} {item : α → List Char} {close : Char} {as bs : List α} {r r' : List Char}

/-- An item that can be read where no digit follows. -/
def Readable (item : α → List Char) (a : α) : Prop :=
  ∀ b r r', NoDigit r → NoDigit r' → item a ++ r = item b ++ r' → a = b ∧ r = r'

theorem noDigit_commaed (hdigit : close.isDigit = false) (xs : List (List Char)) (r : List Char) :
    NoDigit (commaed xs ++ close :: r) := by
  intro c hc
  cases xs with
  | nil =>
    cases hc
    exact hdigit
  | cons x xs =>
    cases hc
    rfl

theorem commaed_append_inj (hcomma : close ≠ ',') (hdigit : close.isDigit = false)
    (hread : ∀ a ∈ as, Readable item a)
    (h : commaed (as.map item) ++ close :: r = commaed (bs.map item) ++ close :: r') :
    as = bs ∧ r = r' := by
  induction as generalizing bs with
  | nil =>
    cases bs with
    | nil => exact ⟨rfl, (List.cons.inj h).2⟩
    | cons b bs => exact absurd (List.cons.inj h).1 hcomma
  | cons a as ih =>
    cases bs with
    | nil => exact absurd (List.cons.inj h).1.symm hcomma
    | cons b bs =>
      rw [List.forall_mem_cons] at hread
      have htail : item a ++ (commaed (as.map item) ++ close :: r) =
          item b ++ (commaed (bs.map item) ++ close :: r') := by
        rw [← List.append_assoc, ← List.append_assoc]
        exact (List.cons.inj h).2
      obtain ⟨hab, hrest⟩ := hread.1 b _ _ (noDigit_commaed hdigit _ r)
        (noDigit_commaed hdigit _ r') htail
      obtain ⟨hbs, hr⟩ := ih hread.2 hrest
      exact ⟨by rw [hab, hbs], hr⟩

/-- **A sequence** can be read if its items can: a comma or the end follows each of them. -/
theorem separated_append_inj (hcomma : close ≠ ',') (hdigit : close.isDigit = false)
    (hstart : ∀ a, ∃ c cs, item a = c :: cs ∧ c ≠ close) (hread : ∀ a ∈ as, Readable item a)
    (h : separated (as.map item) ++ close :: r = separated (bs.map item) ++ close :: r') :
    as = bs ∧ r = r' := by
  cases as with
  | nil =>
    cases bs with
    | nil => exact ⟨rfl, (List.cons.inj h).2⟩
    | cons b bs =>
      obtain ⟨c, cs, hb, hc⟩ := hstart b
      rw [List.map_cons, separated, hb] at h
      exact absurd (List.cons.inj h).1.symm hc
  | cons a as =>
    cases bs with
    | nil =>
      obtain ⟨c, cs, ha, hc⟩ := hstart a
      rw [List.map_cons, separated, ha] at h
      exact absurd (List.cons.inj h).1 hc
    | cons b bs =>
      rw [List.forall_mem_cons] at hread
      rw [List.map_cons, separated, List.map_cons, separated, List.append_assoc,
        List.append_assoc] at h
      obtain ⟨hab, hrest⟩ := hread.1 b _ _ (noDigit_commaed hdigit _ r)
        (noDigit_commaed hdigit _ r') h
      obtain ⟨hbs, hr⟩ := commaed_append_inj hcomma hdigit hread.2 hrest
      exact ⟨by rw [hab, hbs], hr⟩

end sequence

inductive Kind
  | null | bool | int | str | list | obj

/-- What the first character tells. -/
def kindOf (c : Char) : Option Kind :=
  if c = 'n' then some .null
  else if c = 't' ∨ c = 'f' then some .bool
  else if c = '"' then some .str
  else if c = '[' then some .list
  else if c = '{' then some .obj
  else if c = '-' ∨ c.isDigit then some .int
  else none

theorem kindOf_of_isDigit {c : Char} (h : c.isDigit) : kindOf c = some .int := by
  have hne : ∀ {d : Char}, d.isDigit = false → c ≠ d := by
    rintro d hd rfl
    exact absurd (h.symm.trans hd) (by decide)
  rw [kindOf, if_neg (hne rfl), if_neg (not_or.2 ⟨hne rfl, hne rfl⟩), if_neg (hne rfl),
    if_neg (hne rfl), if_neg (hne rfl), if_pos (.inr h)]

def kind : Value σ → Kind
  | .null => .null
  | .bool _ => .bool
  | .int _ => .int
  | .str _ => .str
  | .list _ => .list
  | .obj _ => .obj

/-- The texts are quoted, and can be read whatever follows. -/
structure Quotes (quote : σ → List Char) : Prop where
  opens : ∀ s, ∃ cs, quote s = '"' :: cs
  reads : ∀ s t r r', quote s ++ r = quote t ++ r' → s = t ∧ r = r'

theorem write_eq_cons (hq : Quotes quote) (v : Value σ) :
    ∃ c cs, write quote v = c :: cs ∧ kindOf c = some v.kind := by
  cases v with
  | null => exact ⟨_, _, rfl, rfl⟩
  | bool b => cases b <;> exact ⟨_, _, rfl, rfl⟩
  | int i =>
    cases i with
    | ofNat n =>
      obtain ⟨c, cs, hcs, hc⟩ := toDigits_eq_cons n
      exact ⟨c, cs, hcs, kindOf_of_isDigit hc⟩
    | negSucc n => exact ⟨_, _, rfl, rfl⟩
  | str s =>
    obtain ⟨cs, hcs⟩ := hq.opens s
    exact ⟨_, cs, hcs, rfl⟩
  | list xs => exact ⟨_, _, write_list, rfl⟩
  | obj kvs => exact ⟨_, _, write_obj, rfl⟩

theorem kind_eq_of_write (hq : Quotes quote) {v w : Value σ} {r r' : List Char}
    (h : write quote v ++ r = write quote w ++ r') : v.kind = w.kind := by
  obtain ⟨c, cs, hv, hc⟩ := write_eq_cons hq v
  obtain ⟨d, ds, hw, hd⟩ := write_eq_cons hq w
  rw [hv, hw] at h
  rw [(List.cons.inj h).1] at hc
  exact Option.some.inj (hc.symm.trans hd)

/-- **What is written can be read**, where no digit follows. -/
theorem write_append_inj (hq : Quotes quote) {v w : Value σ} {r r' : List Char} (hr : NoDigit r)
    (hr' : NoDigit r') (h : write quote v ++ r = write quote w ++ r') : v = w ∧ r = r' := by
  have hkind := kind_eq_of_write hq h
  induction v generalizing w r r' with
  | null =>
    cases w with
    | null => exact ⟨rfl, List.append_cancel_left h⟩
    | _ => cases hkind
  | bool b =>
    cases w with
    | bool b' =>
      cases b <;> cases b' <;> first | exact ⟨rfl, List.append_cancel_left h⟩ | cases h
    | _ => cases hkind
  | int i =>
    cases w with
    | int j =>
      obtain ⟨hij, hrest⟩ := intText_append_inj hr hr' h
      exact ⟨congrArg int hij, hrest⟩
    | _ => cases hkind
  | str s =>
    cases w with
    | str t =>
      obtain ⟨hst, hrest⟩ := hq.reads s t r r' h
      exact ⟨congrArg str hst, hrest⟩
    | _ => cases hkind
  | list xs ih =>
    cases w with
    | list ys =>
      rw [write_list, write_list, List.cons_append, List.cons_append, List.append_assoc,
        List.append_assoc] at h
      have hstart : ∀ x : Value σ, ∃ c cs, write quote x = c :: cs ∧ c ≠ ']' := by
        intro x
        obtain ⟨c, cs, hx, hc⟩ := write_eq_cons hq x
        refine ⟨c, cs, hx, ?_⟩
        rintro rfl
        cases hc
      obtain ⟨hxs, hrest⟩ := separated_append_inj (by decide) (by decide) hstart
        (fun x hx w r r' hr hr' hw => ih x hx hr hr' hw (kind_eq_of_write hq hw)) (List.cons.inj h).2
      exact ⟨congrArg list hxs, hrest⟩
    | _ => cases hkind
  | obj kvs ih =>
    cases w with
    | obj kvs' =>
      rw [write_obj, write_obj, List.cons_append, List.cons_append, List.append_assoc,
        List.append_assoc] at h
      have hstart : ∀ kv : σ × Value σ, ∃ c cs,
          quote kv.1 ++ ':' :: write quote kv.2 = c :: cs ∧ c ≠ '}' := by
        intro kv
        obtain ⟨cs, hcs⟩ := hq.opens kv.1
        exact ⟨_, _, by rw [hcs, List.cons_append], by decide⟩
      have hread : ∀ kv ∈ kvs,
          Readable (fun kv : σ × Value σ => quote kv.1 ++ ':' :: write quote kv.2) kv := by
        intro kv hkv kv' r r' hr hr' hw
        rw [List.append_assoc, List.append_assoc] at hw
        obtain ⟨hkey, hcolon⟩ := hq.reads _ _ _ _ hw
        have hvalue := (List.cons.inj hcolon).2
        obtain ⟨hkv, hrest⟩ := ih kv hkv hr hr' hvalue (kind_eq_of_write hq hvalue)
        exact ⟨Prod.ext hkey hkv, hrest⟩
      obtain ⟨hkvs, hrest⟩ := separated_append_inj (by decide) (by decide) hstart hread
        (List.cons.inj h).2
      exact ⟨congrArg obj hkvs, hrest⟩
    | _ => cases hkind

/-- **Different values are written differently.** -/
theorem write_inj (hq : Quotes quote) {v w : Value σ} (h : write quote v = write quote w) :
    v = w := by
  have hnil : NoDigit [] := fun c hc => by cases hc
  have happend : write quote v ++ [] = write quote w ++ [] := by rw [h]
  exact (write_append_inj hq hnil hnil happend).1

end write

end Value

end JsonText
