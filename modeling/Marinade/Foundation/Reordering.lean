import Marinade.Foundation.System
import Mathlib.Data.List.Perm.Basic

/-!
# Runs in another order

A step overtakes the one before it if it could as well have been made first, with the same result.
Which steps do so is given by a relation on the labels, which need not be symmetric: it may be that
only one of the two orders follows from the other. A run is then rearranged by exchanging
neighbours, and leads to the same state.

Labels are listed newest first, as in a run: `I a b` is about a step `a` and a step `b` after it.
-/

namespace Foundation

namespace System

variable {σ ℓ : Type*} {S : System σ ℓ} {I : ℓ → ℓ → Prop} {s₀ s : σ} {ls ls' : List ℓ}

/-- Wherever `b` follows `a`, it may go first. -/
def Overtakes (S : System σ ℓ) (a b : ℓ) : Prop :=
  ∀ s t u, S.Reachable s → S.step s a t → S.step t b u → ∃ t', S.step s b t' ∧ S.step t' a u

/-- The second list comes from the first by letting steps overtake their neighbours. -/
inductive Reordered (I : ℓ → ℓ → Prop) : List ℓ → List ℓ → Prop
  | refl (ls : List ℓ) : Reordered I ls ls
  | swap {a b : ℓ} (ls : List ℓ) : I a b → Reordered I (b :: a :: ls) (a :: b :: ls)
  | cons (l : ℓ) {ls ls' : List ℓ} : Reordered I ls ls' → Reordered I (l :: ls) (l :: ls')
  | trans {ls ls' ls'' : List ℓ} :
    Reordered I ls ls' → Reordered I ls' ls'' → Reordered I ls ls''

/-- A run may be rearranged. -/
theorem Run.reordered (h : S.Run s₀ ls s) (h₀ : S.Reachable s₀)
    (hI : ∀ a b, I a b → S.Overtakes a b) (hr : Reordered I ls ls') : S.Run s₀ ls' s := by
  induction hr generalizing s with
  | refl ls => exact h
  | swap ls hab =>
    cases h with
    | snoc h hb =>
      cases h with
      | snoc h ha =>
        obtain ⟨t', hb', ha'⟩ := hI _ _ hab _ _ _ (h.reachable_of h₀) ha hb
        exact (h.snoc hb').snoc ha'
  | cons l hr ih =>
    cases h with
    | snoc h hl => exact (ih h).snoc hl
  | trans hr hr' ih ih' => exact ih' (ih h)

/-! ## Lists that are rearranged -/

theorem Reordered.append_left (front : List ℓ) (h : Reordered I ls ls') :
    Reordered I (front ++ ls) (front ++ ls') := by
  induction front with
  | nil => exact h
  | cons l front ih => exact .cons l ih

/-- The newest step goes behind all those that it overtakes. -/
theorem Reordered.sink {b : ℓ} {front : List ℓ} (h : ∀ a ∈ front, I a b) (ls : List ℓ) :
    Reordered I (b :: (front ++ ls)) (front ++ b :: ls) := by
  induction front with
  | nil => exact .refl _
  | cons a front ih =>
    have hb := ih fun a ha ↦ h a (List.mem_cons_of_mem _ ha)
    exact (Reordered.swap _ (h a List.mem_cons_self)).trans (hb.cons a)

/-- Steps that overtake one another, whichever comes first, stand in any order. -/
theorem Reordered.of_perm (hperm : ls.Perm ls') (h : ∀ a ∈ ls, ∀ b ∈ ls, I a b) :
    Reordered I ls ls' := by
  induction hperm with
  | nil => exact .refl _
  | cons l hperm ih =>
    exact .cons l (ih fun a ha b hb ↦
      h a (List.mem_cons_of_mem _ ha) b (List.mem_cons_of_mem _ hb))
  | swap b a ls => exact .swap ls (h b (by simp) a (by simp))
  | trans hperm hperm' ih ih' =>
    exact (ih h).trans (ih' fun a ha b hb ↦ h a (hperm.mem_iff.mpr ha) b (hperm.mem_iff.mpr hb))

/-- Steps of one kind that overtake all the others are made first. -/
theorem Reordered.filter_append {p : ℓ → Bool} (h : ∀ a ∈ ls, ∀ b ∈ ls, p b = true → I a b) :
    Reordered I ls (ls.filter (!p ·) ++ ls.filter p) := by
  induction ls with
  | nil => exact .refl _
  | cons l ls ih =>
    have hrest : Reordered I (l :: ls) (l :: (ls.filter (!p ·) ++ ls.filter p)) :=
      .cons l (ih fun a ha b hb ↦ h a (List.mem_cons_of_mem _ ha) b (List.mem_cons_of_mem _ hb))
    by_cases hl : p l = true
    · rw [List.filter_cons_of_neg (by simpa using hl), List.filter_cons_of_pos hl]
      refine hrest.trans (.sink (fun a ha ↦ ?_) _)
      exact h a (List.mem_cons_of_mem _ (List.mem_of_mem_filter ha)) l List.mem_cons_self hl
    · rw [List.filter_cons_of_pos (by simpa using hl), List.filter_cons_of_neg hl,
        List.cons_append]
      exact hrest

end System

end Foundation
