import Mathlib.Algebra.GroupWithZero.Nat
import Mathlib.Tactic.Common

/-!
# Labelled transition systems and their runs

A system is a set of initial states and a step relation labelled by what happened. A run keeps the
list of its labels, newest first, so that a property of a run may speak of everything that has
happened (no ticket is paid twice) as well as of the state reached.

Two ways of narrowing a system recur. `restrict C` keeps the steps that meet a condition `C` on the
state before and the label, `along R` those that meet a condition on the two states: a property of
the narrower system holds in every run of the full one whose steps all meet the condition. And an
invariant may be proved with the help of another one that is already known, which is the rule
`Reachable.induct`.
-/

namespace Foundation

/-- A labelled transition system on states `σ` with labels `ℓ`. -/
structure System (σ ℓ : Type*) where
  init : σ → Prop
  step : σ → ℓ → σ → Prop

namespace System

variable {σ ℓ : Type*}

/-- `S.Run s₀ ls s`: some steps labelled `ls`, the last one first, lead from `s₀` to `s`. -/
inductive Run (S : System σ ℓ) (s₀ : σ) : List ℓ → σ → Prop
  | nil : Run S s₀ [] s₀
  | snoc {ls s l s'} : Run S s₀ ls s → S.step s l s' → Run S s₀ (l :: ls) s'

/-- The states that some run from an initial state reaches. -/
def Reachable (S : System σ ℓ) (s : σ) : Prop :=
  ∃ s₀ ls, S.init s₀ ∧ S.Run s₀ ls s

/-- The same system, allowed only the steps that meet `C`. -/
def restrict (S : System σ ℓ) (C : σ → ℓ → Prop) : System σ ℓ where
  init := S.init
  step s l s' := S.step s l s' ∧ C s l

/-- The same system, allowed only the steps along which `R` holds of the states. -/
def along (S : System σ ℓ) (R : σ → σ → Prop) : System σ ℓ where
  init := S.init
  step s l s' := S.step s l s' ∧ R s s'

/-- The same steps from other initial states. -/
def startingFrom (S : System σ ℓ) (I : σ → Prop) : System σ ℓ where
  init := I
  step := S.step

variable {S : System σ ℓ} {s s' : σ} {l : ℓ} {P Q : σ → Prop}

namespace Reachable

theorem init (h : S.init s) : S.Reachable s :=
  ⟨s, [], h, .nil⟩

theorem step (h : S.Reachable s) (hs : S.step s l s') : S.Reachable s' :=
  let ⟨s₀, ls, h₀, hr⟩ := h
  ⟨s₀, l :: ls, h₀, hr.snoc hs⟩

/-- The invariant rule: what holds at the start and is kept by every step out of a reachable state
holds in every reachable state. -/
theorem induct (h : S.Reachable s) (h₀ : ∀ s, S.init s → P s)
    (hstep : ∀ s l s', S.Reachable s → P s → S.step s l s' → P s') : P s := by
  obtain ⟨s₀, ls, hi, hr⟩ := h
  have hall : P s ∧ S.Reachable s := by
    induction hr with
    | nil => exact ⟨h₀ _ hi, init hi⟩
    | snoc _ hs ih => exact ⟨hstep _ _ _ ih.2 ih.1 hs, ih.2.step hs⟩
  exact hall.1

/-- The invariant rule relative to an invariant `Q` that is already established. -/
theorem induct_of (h : S.Reachable s) (hQ : ∀ s, S.Reachable s → Q s)
    (h₀ : ∀ s, S.init s → Q s → P s)
    (hstep : ∀ s l s', Q s → Q s' → P s → S.step s l s' → P s') : P s :=
  h.induct (fun _ hi ↦ h₀ _ hi (hQ _ (init hi)))
    fun _ _ _ hr hP hs ↦ hstep _ _ _ (hQ _ hr) (hQ _ (hr.step hs)) hP hs

end Reachable

/-- Fewer initial states and fewer steps reach no other states. -/
theorem Reachable.mono {T : System σ ℓ} (h : S.Reachable s) (hinit : ∀ s, S.init s → T.init s)
    (hstep : ∀ s l s', S.step s l s' → T.step s l s') : T.Reachable s :=
  h.induct (P := T.Reachable) (fun _ hi ↦ .init (hinit _ hi))
    fun _ _ _ _ ih hs ↦ ih.step (hstep _ _ _ hs)

/-- What is reachable by steps that meet a condition is reachable. -/
theorem Reachable.of_restrict {C : σ → ℓ → Prop} (h : (S.restrict C).Reachable s) :
    S.Reachable s :=
  h.mono (fun _ hi ↦ hi) fun _ _ _ hs ↦ hs.1

/-- A property of runs that starts true and survives one more step holds of every run. -/
theorem Run.induct {s₀ : σ} {ls : List ℓ} {P : List ℓ → σ → Prop} (h : S.Run s₀ ls s)
    (h₀ : P [] s₀) (hstep : ∀ ls s l s', S.Run s₀ ls s → P ls s → S.step s l s' → P (l :: ls) s') :
    P ls s := by
  induction h with
  | nil => exact h₀
  | snoc hr hs ih => exact hstep _ _ _ _ hr ih hs

theorem Run.reachable {s₀ : σ} {ls : List ℓ} (h : S.Run s₀ ls s) (hi : S.init s₀) :
    S.Reachable s :=
  ⟨s₀, ls, hi, h⟩

/-- A run of another system that allows the same steps. -/
theorem Run.mono {T : System σ ℓ} {s₀ : σ} {ls : List ℓ} (h : S.Run s₀ ls s)
    (hstep : ∀ s l s', S.step s l s' → T.step s l s') : T.Run s₀ ls s := by
  induction h with
  | nil => exact .nil
  | snoc _ hs ih => exact ih.snoc (hstep _ _ _ hs)

/-- What a run that starts in a reachable state reaches is reachable. -/
theorem Run.reachable_of {s₀ : σ} {ls : List ℓ} (h : S.Run s₀ ls s) (h₀ : S.Reachable s₀) :
    S.Reachable s :=
  h.induct (P := fun _ s ↦ S.Reachable s) h₀ fun _ _ _ _ _ ih hs ↦ ih.step hs

/-- What holds at some reachable state and is kept by every step from there on holds ever after. -/
theorem Run.induct_from {s₀ : σ} {ls : List ℓ} (h : S.Run s₀ ls s) (h₀ : S.Reachable s₀)
    (hP : P s₀) (hstep : ∀ s l s', S.Reachable s → P s → S.step s l s' → P s') : P s :=
  h.induct (P := fun _ s ↦ P s) hP fun _ _ _ _ hr hs hl ↦ hstep _ _ _ (hr.reachable_of h₀) hs hl

/-- What every step keeps unless it meets `B` has been kept, or such a step has been made. -/
theorem Run.or_exists {P : List ℓ → σ → Prop} {B : ℓ → Prop} {s₀ : σ} {ls : List ℓ}
    (h : S.Run s₀ ls s) (h₀ : S.Reachable s₀) (hP : P [] s₀)
    (hstep : ∀ ls s l s', S.Reachable s → P ls s → S.step s l s' → P (l :: ls) s' ∨ B l) :
    P ls s ∨ ∃ l ∈ ls, B l := by
  induction h with
  | nil => exact .inl hP
  | snoc hr hs ih =>
    rcases ih with hP | ⟨l, hl, hB⟩
    · rcases hstep _ _ _ _ (hr.reachable_of h₀) hP hs with hP' | hB
      · exact .inl hP'
      · exact .inr ⟨_, List.mem_cons_self, hB⟩
    · exact .inr ⟨l, List.mem_cons_of_mem _ hl, hB⟩

/-- Every step takes its amount off a quantity: what a run has taken and what is left are what was
there. -/
theorem Run.sum_add_eq {φ : σ → ℕ} {f : ℓ → ℕ} {s₀ : σ} {ls : List ℓ} (h : S.Run s₀ ls s)
    (hP : P s₀) (hstep : ∀ s l s', P s → S.step s l s' → P s' ∧ f l + φ s' = φ s) :
    P s ∧ (ls.map f).sum + φ s = φ s₀ := by
  refine h.induct (P := fun ls s ↦ P s ∧ (ls.map f).sum + φ s = φ s₀) ⟨hP, by simp⟩ ?_
  rintro ls s l s' - ⟨hs, hsum⟩ hl
  obtain ⟨hs', hf⟩ := hstep s l s' hs hl
  rw [List.map_cons, List.sum_cons]
  exact ⟨hs', by omega⟩

/-- A step may take up to `c` more than there is, but only as long as there is something: then a run
takes up to `c` more than there was. -/
theorem Run.sum_le_add {φ : σ → ℕ} {f : ℓ → ℕ} {c : ℕ} {s₀ : σ} {ls : List ℓ}
    (h : S.Run s₀ ls s) (hP : P s₀)
    (hstep : ∀ s l s', P s → S.step s l s' →
      P s' ∧ φ s' ≤ φ s - f l ∧ (f l = 0 ∨ 0 < φ s ∧ f l ≤ φ s + c)) :
    P s ∧ (ls.map f).sum ≤ φ s₀ + c ∧ (0 < φ s → (ls.map f).sum + φ s ≤ φ s₀) := by
  refine h.induct (P := fun ls s ↦ P s ∧ (ls.map f).sum ≤ φ s₀ + c ∧
    (0 < φ s → (ls.map f).sum + φ s ≤ φ s₀)) ⟨hP, by simp, by simp⟩ ?_
  rintro ls s l s' - ⟨hs, hsum, hleft⟩ hl
  obtain ⟨hs', hle, hf⟩ := hstep s l s' hs hl
  rw [List.map_cons, List.sum_cons]
  rcases hf with hf | ⟨hpos, hf⟩
  · exact ⟨hs', by omega, fun hpos' ↦ by have := hleft (by omega); omega⟩
  · have := hleft hpos
    exact ⟨hs', by omega, fun hpos' ↦ by omega⟩

/-- Forward simulation: what corresponds at the start and is kept by every step of `S`, with a step
of `T` under the label's own name there, turns runs of `S` into runs of `T`. -/
theorem Run.simulate_map {τ ℓ' : Type*} {T : System τ ℓ'} {R : σ → τ → Prop} {g : ℓ → ℓ'}
    {s₀ : σ} {t₀ : τ} {ls : List ℓ} (h : S.Run s₀ ls s) (h₀ : R s₀ t₀)
    (hstep : ∀ s t l s', R s t → S.step s l s' → ∃ t', T.step t (g l) t' ∧ R s' t') :
    ∃ t, T.Run t₀ (ls.map g) t ∧ R s t := by
  induction h with
  | nil => exact ⟨t₀, .nil, h₀⟩
  | snoc _ hs ih =>
    obtain ⟨t, ht, hR⟩ := ih
    obtain ⟨t', ht', hR'⟩ := hstep _ _ _ _ hR hs
    exact ⟨t', ht.snoc ht', hR'⟩

/-- The same where the labels are the same. -/
theorem Run.simulate {τ : Type*} {T : System τ ℓ} {R : σ → τ → Prop} {s₀ : σ} {t₀ : τ}
    {ls : List ℓ} (h : S.Run s₀ ls s) (h₀ : R s₀ t₀)
    (hstep : ∀ s t l s', R s t → S.step s l s' → ∃ t', T.step t l t' ∧ R s' t') :
    ∃ t, T.Run t₀ ls t ∧ R s t := by
  have h' := h.simulate_map (g := id) h₀ hstep
  rwa [List.map_id] at h'

/-! ## History

What has happened is often not to be read off the state. A history kept beside it makes it a
property of reachable states, and changes nothing about the runs. -/

/-- The same system with a history, which every step extends and no step depends on. -/
def withHistory {η : Type*} (S : System σ ℓ) (η₀ : η) (record : σ → ℓ → σ → η → η) :
    System (σ × η) ℓ where
  init p := S.init p.1 ∧ p.2 = η₀
  step p l p' := S.step p.1 l p'.1 ∧ p'.2 = record p.1 l p'.1 p.2

section

variable {η : Type*} {η₀ : η} {record : σ → ℓ → σ → η → η}

theorem Reachable.of_withHistory {p : σ × η} (h : (S.withHistory η₀ record).Reachable p) :
    S.Reachable p.1 :=
  h.induct (P := fun p ↦ S.Reachable p.1) (fun _ hi ↦ .init hi.1) fun _ _ _ _ ih hs ↦ ih.step hs.1

/-- Every reachable state has a history. -/
theorem Reachable.withHistory (h : S.Reachable s) :
    ∃ past, (S.withHistory η₀ record).Reachable (s, past) := by
  refine h.induct (P := fun s ↦ ∃ past, (S.withHistory η₀ record).Reachable (s, past)) ?_ ?_
  · exact fun s hi ↦ ⟨η₀, .init ⟨hi, rfl⟩⟩
  · rintro s l s' - ⟨past, hpast⟩ hs
    exact ⟨record s l s' past, hpast.step (l := l) ⟨hs, rfl⟩⟩

end

/-! ## Attempts

What is tried and refused changes nothing. A run that also mentions it reaches the same states. -/

/-- The same system, in which an attempt that is refused is a step, too. -/
def withAttempts {κ : Type*} (S : System σ ℓ) (Refused : σ → κ → Prop) : System σ (ℓ ⊕ κ) where
  init := S.init
  step s l s' :=
    match l with
    | .inl l => S.step s l s'
    | .inr a => Refused s a ∧ s' = s

theorem reachable_withAttempts_iff {κ : Type*} {Refused : σ → κ → Prop} :
    (S.withAttempts Refused).Reachable s ↔ S.Reachable s := by
  constructor
  · intro h
    refine h.induct (P := S.Reachable) (fun _ hi ↦ .init hi) ?_
    rintro s (l | a) s' - ih hs
    · exact ih.step hs
    · obtain ⟨-, rfl⟩ := hs
      exact ih
  · intro h
    exact h.induct (P := (S.withAttempts Refused).Reachable) (fun _ hi ↦ .init hi)
      fun _ l _ _ ih hs ↦ ih.step (l := .inl l) hs

/-! ## Replaying

A run whose steps can be computed is found by computing it. -/

/-- Perform actions one after the other, as long as each step succeeds and is allowed. The labels
are added to those of the steps before. -/
def replay {α : Type*} (perform : σ → α → Option (ℓ × σ)) (allowed : σ → ℓ → Bool) :
    List ℓ → σ → List α → Option (List ℓ × σ)
  | ls, s, [] => some (ls, s)
  | ls, s, a :: as =>
    match perform s a with
    | some (l, s') =>
      if allowed s l then replay perform allowed (l :: ls) s' as else none
    | none => none

/-- What was replayed is a run. -/
theorem Run.replay {α : Type*} {perform : σ → α → Option (ℓ × σ)} {allowed : σ → ℓ → Bool}
    (hstep : ∀ s a l s', perform s a = some (l, s') → allowed s l = true → S.step s l s')
    {s₀ s s' : σ} {ls ls' : List ℓ} {as : List α} (h : S.Run s₀ ls s)
    (hr : replay perform allowed ls s as = some (ls', s')) : S.Run s₀ ls' s' := by
  induction as generalizing ls s with
  | nil =>
    cases hr
    exact h
  | cons a as ih =>
    rw [System.replay] at hr
    split at hr
    · split at hr
      · exact ih (h.snoc (hstep _ _ _ _ ‹_› ‹_›)) hr
      · cases hr
    · cases hr

end System

end Foundation
