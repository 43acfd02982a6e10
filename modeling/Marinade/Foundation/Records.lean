import Mathlib.Algebra.BigOperators.Group.List.Basic
import Mathlib.Algebra.Order.BigOperators.Group.List
import Mathlib.Algebra.Order.Ring.Nat
import Mathlib.Data.List.Induction
import Mathlib.Data.List.Nodup
import Mathlib.Data.List.Perm.Basic

/-!
# Lists of records whose order does not matter

A program that keeps records in a packed array removes one by moving the last one into its place.
The order is then meaningless, and everything worth keeping invariant (sums over the records,
distinct keys, a property of each record) is invariant under permutation.

So overwriting, appending and removing are stated here as permutations of a list with the touched
record in front: `l` is `a :: l.eraseIdx i`, overwriting gives `b :: l.eraseIdx i`, removing gives
`l.eraseIdx i`. A caller never looks at positions again.
-/

open List

namespace Foundation

variable {α κ : Type*}

/-- Remove the record at `i` by moving the last record there. -/
def swapRemove (l : List α) (i : ℕ) : List α :=
  match l.getLast? with
  | none => []
  | some last => (l.set i last).dropLast

variable {l l' : List α} {a b : α} {i : ℕ}

theorem swapRemove_concat_of_lt (l : List α) (a : α) (h : i < l.length) :
    swapRemove (l ++ [a]) i = l.set i a := by
  simp only [swapRemove, getLast?_concat, set_append_left _ _ h, dropLast_concat]

theorem swapRemove_concat_length (l : List α) (a : α) : swapRemove (l ++ [a]) l.length = l := by
  simp [swapRemove]

/-- What the records are called does not matter. -/
theorem swapRemove_map {β : Type*} (f : α → β) (l : List α) (i : ℕ) :
    swapRemove (l.map f) i = (swapRemove l i).map f := by
  rw [swapRemove, swapRemove, getLast?_map]
  cases l.getLast? with
  | none => rfl
  | some last =>
    change ((l.map f).set i (f last)).dropLast = ((l.set i last).dropLast).map f
    rw [map_dropLast, map_set]

theorem swapRemove_perm_eraseIdx (h : i < l.length) : swapRemove l i ~ l.eraseIdx i := by
  induction l using reverseRecOn with
  | nil => simp at h
  | append_singleton l a =>
    rw [length_append, length_singleton] at h
    rcases Nat.lt_or_eq_of_le (Nat.le_of_lt_succ h) with hi | rfl
    · rw [swapRemove_concat_of_lt l a hi, eraseIdx_append_of_lt_length hi]
      exact (set_perm_cons_eraseIdx hi a).trans (perm_append_singleton a _).symm
    · rw [swapRemove_concat_length, eraseIdx_append_of_length_le le_rfl]
      simp

/-- The record at `i` in front of the others. -/
theorem cons_eraseIdx_perm (h : l[i]? = some a) : a :: l.eraseIdx i ~ l := by
  obtain ⟨hi, rfl⟩ := List.getElem?_eq_some_iff.mp h
  exact getElem_cons_eraseIdx_perm hi

theorem set_perm (h : l[i]? = some a) (b : α) : l.set i b ~ b :: l.eraseIdx i :=
  set_perm_cons_eraseIdx (List.getElem?_eq_some_iff.mp h).1 b

theorem swapRemove_perm (h : l[i]? = some a) : swapRemove l i ~ l.eraseIdx i :=
  swapRemove_perm_eraseIdx (List.getElem?_eq_some_iff.mp h).1

theorem length_swapRemove (h : l[i]? = some a) : (swapRemove l i).length + 1 = l.length := by
  rw [(swapRemove_perm h).length_eq, ← length_cons (a := a), (cons_eraseIdx_perm h).length_eq]

/-- The last record is at `i` now, and its old place is gone. -/
theorem getElem?_swapRemove (h : i < l.length) (j : ℕ) :
    (swapRemove l i)[j]?
      = if j + 1 < l.length then (if j = i then l[l.length - 1]? else l[j]?) else none := by
  have hne : l ≠ [] := List.ne_nil_of_length_pos (by omega)
  rw [swapRemove, List.getLast?_eq_some_getLast hne]
  simp only
  rw [List.dropLast_eq_take, List.length_set, List.getElem?_take, List.getElem?_set]
  by_cases hj : j + 1 < l.length
  · rw [if_pos (by omega), if_pos hj]
    by_cases hi : j = i
    · rw [if_pos hi.symm, if_pos h, if_pos hi, List.getLast_eq_getElem,
        List.getElem?_eq_getElem (by omega)]
    · rw [if_neg (Ne.symm hi), if_neg hi]
  · rw [if_neg (by omega), if_neg hj]

/-! ## Totals -/

/-- The total of `g` over the records. -/
def total (g : α → ℕ) (l : List α) : ℕ :=
  (l.map g).sum

section Total

variable {g f : α → ℕ}

@[simp] theorem total_nil : total g [] = 0 := rfl

@[simp] theorem total_cons : total g (a :: l) = g a + total g l := by
  rw [total, map_cons, sum_cons, total]

@[simp] theorem total_append : total g (l ++ l') = total g l + total g l' := by
  rw [total, map_append, sum_append, total, total]

theorem total_perm (h : l ~ l') : total g l = total g l' :=
  (h.map g).sum_eq

theorem le_total (h : a ∈ l) : g a ≤ total g l :=
  single_le_sum (fun _ _ ↦ Nat.zero_le _) _ (mem_map_of_mem h)

theorem total_congr (h : ∀ a ∈ l, f a = g a) : total f l = total g l := by
  rw [total, map_congr_left h, total]

theorem total_le_total (h : ∀ a ∈ l, f a ≤ g a) : total f l ≤ total g l :=
  sum_le_sum h

/-- Totals that agree, of functions one of which is nowhere larger, agree record by record. -/
theorem eq_of_total_eq (h : ∀ a ∈ l, f a ≤ g a) (heq : total f l = total g l) :
    ∀ a ∈ l, f a = g a := by
  induction l with
  | nil => simp
  | cons b l ih =>
    have hb := h b mem_cons_self
    have hl := total_le_total fun a ha ↦ h a (mem_cons_of_mem b ha)
    rw [total_cons, total_cons] at heq
    intro a ha
    rcases mem_cons.mp ha with rfl | ha
    · omega
    · exact ih (fun a ha ↦ h a (mem_cons_of_mem b ha)) (by omega) a ha

theorem total_one : total (fun _ ↦ 1) l = l.length := by
  induction l with
  | nil => rfl
  | cons a l ih => rw [total_cons, ih, length_cons, Nat.add_comm]

theorem total_add : total (fun a ↦ f a + g a) l = total f l + total g l := by
  induction l with
  | nil => rfl
  | cons a l ih =>
    rw [total_cons, total_cons, total_cons, ih]
    omega

theorem total_map {β : Type*} (h : β → α) (m : List β) :
    total g (m.map h) = total (fun b ↦ g (h b)) m := by
  rw [total, map_map]
  rfl

/-- The total over some of the records. -/
theorem total_filter (p : α → Prop) [DecidablePred p] :
    total g (l.filter p) = total (fun a ↦ if p a then g a else 0) l := by
  induction l with
  | nil => rfl
  | cons a l ih =>
    by_cases hp : p a
    · rw [filter_cons_of_pos (by simpa using hp), total_cons, total_cons, if_pos hp, ih]
    · rw [filter_cons_of_neg (by simpa using hp), total_cons, if_neg hp, ih, Nat.zero_add]

theorem total_eq_zero_iff : total g l = 0 ↔ ∀ a ∈ l, g a = 0 := by
  induction l with
  | nil => simp
  | cons a l ih => simp [ih]

/-- The amounts that exceed others, and the others. -/
theorem total_sub_add (h : ∀ a ∈ l, g a ≤ f a) :
    total (fun a ↦ f a - g a) l + total g l = total f l := by
  rw [← total_add]
  exact total_congr fun a ha ↦ Nat.sub_add_cancel (h a ha)

/-- A table of amounts has the same total by rows and by columns. -/
theorem total_comm {β : Type*} (f : α → β → ℕ) (m : List β) :
    total (fun a ↦ total (f a) m) l = total (fun b ↦ total (fun a ↦ f a b) l) m := by
  induction l with
  | nil => exact (total_eq_zero_iff.mpr fun _ _ ↦ rfl).symm
  | cons a l ih =>
    rw [total_cons, ih, ← total_add]
    exact total_congr fun b _ ↦ (total_cons (g := fun a ↦ f a b)).symm

/-- Overwriting a record changes a total by what the record contributed. -/
theorem total_set (h : l[i]? = some a) (b : α) :
    total g (l.set i b) + g a = total g l + g b := by
  rw [total_perm (set_perm h b), ← total_perm (cons_eraseIdx_perm h), total_cons, total_cons]
  omega

theorem total_swapRemove (h : l[i]? = some a) : total g (swapRemove l i) + g a = total g l := by
  rw [total_perm (swapRemove_perm h), ← total_perm (cons_eraseIdx_perm h), total_cons]
  omega

/-! ### Shares in proportion to `g`

Every record gets its share of an amount, rounded down. Each loses less than one to the rounding. -/

theorem length_pos_of_total_pos (h : 0 < total g l) : 0 < l.length := by
  cases l with
  | nil => exact absurd h (lt_irrefl 0)
  | cons => exact Nat.succ_pos _

theorem total_const (n : ℕ) : total (fun _ ↦ n) l = l.length * n := by
  rw [total, map_const', sum_replicate_nat]

theorem total_mul (n : ℕ) : total (fun a ↦ n * g a) l = n * total g l := by
  induction l with
  | nil => rfl
  | cons a l ih => rw [total_cons, total_cons, ih, Nat.mul_add]

/-- Shares and remainders make up the amount, counted in units of the total. -/
theorem total_share_add_rest (n w : ℕ) :
    w * total (fun a ↦ n * g a / w) l + total (fun a ↦ n * g a % w) l = n * total g l := by
  rw [← total_mul, ← total_mul, ← total_add]
  exact total_congr fun a _ ↦ Nat.div_add_mod _ _

/-- The shares are no more than there is. -/
theorem total_share_le (n : ℕ) : total (fun a ↦ n * g a / total g l) l ≤ n := by
  rcases Nat.eq_zero_or_pos (total g l) with hzero | hpos
  · refine le_of_eq_of_le (total_eq_zero_iff.mpr fun a _ ↦ ?_) (Nat.zero_le n)
    rw [hzero, Nat.div_zero]
  · have hsum := total_share_add_rest (l := l) (g := g) n (total g l)
    refine Nat.le_of_mul_le_mul_left ?_ hpos
    rw [Nat.mul_comm _ n]
    omega

/-- All but less than one for each record is shared out. -/
theorem lt_total_share_add (n : ℕ) (hpos : 0 < total g l) :
    n < total (fun a ↦ n * g a / total g l) l + l.length := by
  have hsum := total_share_add_rest (l := l) (g := g) n (total g l)
  have hlength := length_pos_of_total_pos hpos
  have hrest : total (fun a ↦ n * g a % total g l) l ≤ l.length * (total g l - 1) := by
    rw [← total_const]
    exact total_le_total fun a _ ↦ Nat.le_sub_one_of_lt (Nat.mod_lt _ hpos)
  refine Nat.lt_of_mul_lt_mul_left (a := total g l) ?_
  calc total g l * n
    _ = total g l * total (fun a ↦ n * g a / total g l) l
        + total (fun a ↦ n * g a % total g l) l := by rw [hsum, Nat.mul_comm]
    _ ≤ total g l * total (fun a ↦ n * g a / total g l) l + l.length * (total g l - 1) := by omega
    _ < total g l * total (fun a ↦ n * g a / total g l) l + l.length * total g l :=
      Nat.add_lt_add_left (Nat.mul_lt_mul_of_pos_left (by omega) hlength) _
    _ = total g l * (total (fun a ↦ n * g a / total g l) l + l.length) := by
      rw [Nat.mul_add, Nat.mul_comm l.length]

/-- Of two totals, the larger one is larger at some record. -/
theorem exists_lt_of_total_lt (h : total f l < total g l) : ∃ a ∈ l, f a < g a :=
  exists_lt_of_sum_lt f g h

/-! ### From some record on -/

variable {n : ℕ}

theorem total_drop_eq_cons (h : l[n]? = some a) :
    total g (l.drop n) = g a + total g (l.drop (n + 1)) := by
  obtain ⟨hn, rfl⟩ := List.getElem?_eq_some_iff.mp h
  rw [drop_eq_getElem_cons hn, total_cons]

/-- Overwriting an earlier record changes nothing. -/
theorem total_drop_set_of_lt (h : i < n) (b : α) :
    total g ((l.set i b).drop n) = total g (l.drop n) := by
  rw [drop_set_of_lt h]

theorem total_drop_set (h : l[i]? = some a) (hn : n ≤ i) (b : α) :
    total g ((l.set i b).drop n) + g a = total g (l.drop n) + g b := by
  rw [drop_set, if_neg (Nat.not_lt.mpr hn)]
  refine total_set ?_ b
  rw [getElem?_drop, Nat.add_sub_cancel' hn, h]

end Total

/-! ## Distinct keys -/

section Keys

variable {key : α → κ}

/-- No two records carry the same key. -/
def KeysDistinct (key : α → κ) (l : List α) : Prop :=
  (l.map key).Nodup

theorem KeysDistinct.nil : KeysDistinct key [] := nodup_nil

theorem KeysDistinct.perm (h : KeysDistinct key l) (hp : l ~ l') : KeysDistinct key l' :=
  (hp.map key).nodup_iff.mp h

theorem keysDistinct_cons :
    KeysDistinct key (a :: l) ↔ (∀ b ∈ l, key b ≠ key a) ∧ KeysDistinct key l := by
  unfold KeysDistinct
  rw [map_cons, nodup_cons, mem_map]
  simp

theorem KeysDistinct.append_singleton (h : KeysDistinct key l) (ha : ∀ b ∈ l, key b ≠ key a) :
    KeysDistinct key (l ++ [a]) :=
  (keysDistinct_cons.mpr ⟨ha, h⟩).perm (perm_append_singleton a l).symm

theorem KeysDistinct.ne_of_mem_eraseIdx (h : KeysDistinct key l) (ha : l[i]? = some a)
    (hb : b ∈ l.eraseIdx i) : key b ≠ key a :=
  (keysDistinct_cons.mp (h.perm (cons_eraseIdx_perm ha).symm)).1 b hb

/-- Overwriting a record by one with the same key keeps the keys distinct. -/
theorem KeysDistinct.set (h : KeysDistinct key l) (ha : l[i]? = some a) (hb : key b = key a) :
    KeysDistinct key (l.set i b) := by
  have h' := keysDistinct_cons.mp (h.perm (cons_eraseIdx_perm ha).symm)
  refine KeysDistinct.perm (keysDistinct_cons.mpr ⟨?_, h'.2⟩) (set_perm ha b).symm
  rw [hb]
  exact h'.1

theorem KeysDistinct.swapRemove (h : KeysDistinct key l) (ha : l[i]? = some a) :
    KeysDistinct key (swapRemove l i) :=
  (keysDistinct_cons.mp (h.perm (cons_eraseIdx_perm ha).symm)).2.perm (swapRemove_perm ha).symm

/-- Overwriting a record by one with the same key changes no key. -/
theorem map_key_set (ha : l[i]? = some a) (hb : key b = key a) :
    (l.set i b).map key = l.map key := by
  rw [List.map_set, hb]
  obtain ⟨hi, rfl⟩ := List.getElem?_eq_some_iff.mp ha
  rw [← List.getElem_map key (h := by simpa using hi), List.set_getElem_self]

/-- A total to which only the records with one key contribute. -/
theorem KeysDistinct.total_eq {g : α → ℕ} (h : KeysDistinct key l) (ha : a ∈ l)
    (hzero : ∀ b, key b ≠ key a → g b = 0) : total g l = g a := by
  obtain ⟨i, hi⟩ := List.mem_iff_getElem?.mp ha
  have hrest : total g (l.eraseIdx i) = 0 :=
    total_eq_zero_iff.mpr fun b hb ↦ hzero b (h.ne_of_mem_eraseIdx hi hb)
  rw [← total_perm (cons_eraseIdx_perm hi), total_cons, hrest, Nat.add_zero]

/-- Records with equal keys are equal. -/
theorem KeysDistinct.eq_of_key_eq (h : KeysDistinct key l) (ha : a ∈ l) (hb : b ∈ l)
    (hk : key a = key b) : a = b :=
  inj_on_of_nodup_map h ha hb hk

/-- Records that agree but for an amount are equal, if the amounts agree key by key. -/
theorem KeysDistinct.eq_of_totals_eq [DecidableEq κ] {f : α → α} {g : α → ℕ}
    (h : KeysDistinct key l) (h' : KeysDistinct key l') (hmap : l.map f = l'.map f)
    (hkey : ∀ a b, f a = f b → key a = key b) (hext : ∀ a b, f a = f b → g a = g b → a = b)
    (htotal : ∀ k, total (fun a ↦ if k = key a then g a else 0) l
      = total (fun a ↦ if k = key a then g a else 0) l') : l = l' := by
  have hlength : l.length = l'.length := by simpa using congrArg List.length hmap
  refine List.ext_getElem hlength fun n hn hn' ↦ ?_
  have heq : f l[n] = f l'[n] := by
    rw [← List.getElem_map f (h := by simpa using hn), List.getElem_of_eq hmap, List.getElem_map]
  have hown : ∀ {m : List α} {a : α}, KeysDistinct key m → a ∈ m →
      total (fun b ↦ if key a = key b then g b else 0) m = g a := by
    intro m a hm ha
    rw [hm.total_eq ha fun b hb ↦ if_neg hb.symm, if_pos rfl]
  refine hext _ _ heq ?_
  have hamount := htotal (key l[n])
  rwa [hown h (List.getElem_mem hn), hkey _ _ heq, hown h' (List.getElem_mem hn')] at hamount

/-- A key is found in one place only. -/
theorem KeysDistinct.index_eq {j : ℕ} (h : KeysDistinct key l) (ha : l[i]? = some a)
    (hb : l[j]? = some b) (hk : key a = key b) : i = j := by
  have hi : (l.map key)[i]? = some (key a) := by rw [getElem?_map, ha, Option.map_some]
  have hj : (l.map key)[j]? = some (key a) := by rw [getElem?_map, hb, Option.map_some, hk]
  obtain ⟨hi, hi'⟩ := List.getElem?_eq_some_iff.mp hi
  obtain ⟨hj, hj'⟩ := List.getElem?_eq_some_iff.mp hj
  exact (Nodup.getElem_inj_iff h).mp (hi'.trans hj'.symm)

end Keys

/-! ## Replacing some records by others

One operation may touch several records. It replaces `olds` by `news` and keeps the `rest`. -/

/-- `l'` is `l` with `olds` replaced by `news`; the `rest` stays. -/
structure Replaced (l l' olds news rest : List α) : Prop where
  perm : l ~ olds ++ rest
  perm' : l' ~ news ++ rest

namespace Replaced

variable {olds news rest : List α} {a b c : α} {i j : ℕ} {f g : α → ℕ} {key : α → κ}

protected theorem refl (l : List α) : Replaced l l [] [] l :=
  ⟨.refl _, .refl _⟩

protected theorem set (h : l[i]? = some a) (b : α) :
    Replaced l (l.set i b) [a] [b] (l.eraseIdx i) :=
  ⟨(cons_eraseIdx_perm h).symm, set_perm h b⟩

protected theorem append (l : List α) (b : α) : Replaced l (l ++ [b]) [] [b] l :=
  ⟨.refl _, perm_append_singleton b l⟩

protected theorem swapRemove (h : l[i]? = some a) :
    Replaced l (swapRemove l i) [a] [] (l.eraseIdx i) :=
  ⟨(cons_eraseIdx_perm h).symm, swapRemove_perm h⟩

/-- Append a record, then overwrite one that was there before. -/
theorem append_set (h : l[i]? = some a) (b c : α) :
    Replaced l ((l ++ [c]).set i b) [a] [b, c] (l.eraseIdx i) := by
  obtain ⟨hi, -⟩ := List.getElem?_eq_some_iff.mp h
  refine ⟨(cons_eraseIdx_perm h).symm, ?_⟩
  rw [set_append_left _ _ hi]
  calc l.set i b ++ [c]
    _ ~ c :: l.set i b := perm_append_singleton _ _
    _ ~ c :: b :: l.eraseIdx i := (set_perm h b).cons c
    _ ~ b :: c :: l.eraseIdx i := Perm.swap b c _

/-- Append a record, then remove one that was there before. -/
theorem append_swapRemove (h : l[i]? = some a) (c : α) :
    Replaced l (Foundation.swapRemove (l ++ [c]) i) [a] [c] (l.eraseIdx i) := by
  obtain ⟨hi, -⟩ := List.getElem?_eq_some_iff.mp h
  have h' : (l ++ [c])[i]? = some a := by rw [List.getElem?_append_left hi, h]
  refine ⟨(cons_eraseIdx_perm h).symm, (swapRemove_perm h').trans ?_⟩
  rw [eraseIdx_append_of_lt_length hi]
  exact perm_append_singleton _ _

/-- Overwrite a record, then remove another one. -/
theorem set_swapRemove (h : l[i]? = some a) (h' : l[j]? = some c) (hij : i ≠ j) (b : α) :
    ∃ rest, Replaced l (Foundation.swapRemove (l.set i b) j) [a, c] [b] rest := by
  have hset : (l.set i b)[j]? = some c := by rw [List.getElem?_set_ne hij, h']
  have hperm : b :: l.eraseIdx i ~ c :: Foundation.swapRemove (l.set i b) j :=
    calc b :: l.eraseIdx i
      _ ~ l.set i b := (set_perm h b).symm
      _ ~ c :: (l.set i b).eraseIdx j := (cons_eraseIdx_perm hset).symm
      _ ~ c :: Foundation.swapRemove (l.set i b) j := ((swapRemove_perm hset).symm).cons c
  -- the removed record is among the others
  obtain ⟨k, hk⟩ : ∃ k, (l.eraseIdx i)[k]? = some c := by
    rcases Nat.lt_or_gt_of_ne hij with hlt | hlt
    · refine ⟨j - 1, ?_⟩
      rw [List.getElem?_eraseIdx_of_ge (by omega), Nat.sub_add_cancel (by omega), h']
    · exact ⟨j, by rw [List.getElem?_eraseIdx_of_lt hlt, h']⟩
  have hmem := (cons_eraseIdx_perm hk).symm
  refine ⟨(l.eraseIdx i).eraseIdx k, (cons_eraseIdx_perm h).symm.trans (hmem.cons a), ?_⟩
  have hswap : c :: Foundation.swapRemove (l.set i b) j ~ c :: b :: (l.eraseIdx i).eraseIdx k :=
    hperm.symm.trans ((hmem.cons b).trans (Perm.swap c b _))
  exact hswap.cons_inv

variable (h : Replaced l l' olds news rest)

include h

theorem mem_of_olds (ha : a ∈ olds) : a ∈ l :=
  h.perm.mem_iff.mpr (mem_append_left _ ha)

theorem mem_of_rest (ha : a ∈ rest) : a ∈ l :=
  h.perm.mem_iff.mpr (mem_append_right _ ha)

theorem mem_iff : a ∈ l' ↔ a ∈ news ∨ a ∈ rest := by
  rw [h.perm'.mem_iff, mem_append]

/-- A total changes by what the records on either side contribute. -/
theorem total_eq (hrest : ∀ a ∈ rest, g a = f a) :
    total g l' + total f olds = total f l + total g news := by
  rw [total_perm h.perm, total_perm h.perm', total_append, total_append, total_congr hrest]
  omega

theorem ne_of_olds_rest (hd : KeysDistinct key l) (ha : a ∈ olds) (hb : b ∈ rest) :
    key a ≠ key b := by
  have hnodup := hd.perm h.perm
  unfold KeysDistinct at hnodup
  rw [map_append, nodup_append] at hnodup
  exact hnodup.2.2 _ (mem_map_of_mem ha) _ (mem_map_of_mem hb)

theorem keysDistinct (hd : KeysDistinct key l) (hnews : KeysDistinct key news)
    (hne : ∀ a ∈ news, ∀ b ∈ rest, key a ≠ key b) : KeysDistinct key l' := by
  have hnodup := hd.perm h.perm
  unfold KeysDistinct at hnodup hnews
  rw [map_append, nodup_append] at hnodup
  refine KeysDistinct.perm ?_ h.perm'.symm
  unfold KeysDistinct
  rw [map_append, nodup_append]
  refine ⟨hnews, hnodup.2.1, fun x hx y hy ↦ ?_⟩
  obtain ⟨a, ha, rfl⟩ := mem_map.mp hx
  obtain ⟨b, hb, rfl⟩ := mem_map.mp hy
  exact hne a ha b hb

end Replaced

end Foundation
