import Mathlib.Tactic.Common

/-!
# Computations that may fail

Programs that stop at the first failed check are `do` blocks in `Except ε`. Two readings of such a
block are needed throughout. Forwards: it returned `b`, so every check held and every part returned
something. Backwards: it stopped with `e`, so some part stopped with `e` after all the earlier ones
returned. Both are equations here, so that a simp set turns a whole block into the list of facts it
stands for.

`Avoids` is the quantified form of the second reading, one equation for each way a block is built.
-/

namespace Foundation

universe u

variable {ε : Type*} {α β : Type u}

/-- Stop with `e` unless `c` holds. -/
def ensure (c : Prop) [Decidable c] (e : ε) : Except ε Unit :=
  if c then .ok () else .error e

/-- The value of an optional, or stop with `e`. -/
def orError (o : Option α) (e : ε) : Except ε α :=
  match o with
  | some a => .ok a
  | none => .error e

/-! ## What a block that returned has done -/

section Ok

variable {x : Except ε α} {f : α → Except ε β} {b : β} {a : α} {e : ε}

theorem bind_eq_ok : (x >>= f) = .ok b ↔ ∃ a, x = .ok a ∧ f a = .ok b := by
  cases x with
  | error e => exact ⟨nofun, fun ⟨_, h, _⟩ ↦ by cases h⟩
  | ok a => exact ⟨fun h ↦ ⟨a, rfl, h⟩, fun ⟨_, h, hf⟩ ↦ by cases h; exact hf⟩

/-- The first part of a block that is known to have returned. -/
theorem bind_of_ok (h : x = .ok a) : (x >>= f) = f a := by
  rw [h]
  rfl

theorem pure_eq_ok {a a' : α} : (pure a : Except ε α) = .ok a' ↔ a = a' :=
  ⟨fun h ↦ by cases h; rfl, fun h ↦ by rw [h]; rfl⟩

@[simp] theorem ensure_eq_ok {c : Prop} [Decidable c] {u : Unit} :
    ensure c e = .ok u ↔ c := by
  unfold ensure
  split <;> simp [*]

/-- A check in front of a block. -/
theorem ensure_bind_eq_ok {c : Prop} [Decidable c] {γ : Type} {g : Unit → Except ε γ} {r : γ} :
    (ensure c e >>= g) = .ok r ↔ c ∧ g () = .ok r := by
  simp only [bind_eq_ok, ensure_eq_ok]
  exact ⟨fun ⟨_, hc, hg⟩ ↦ ⟨hc, hg⟩, fun ⟨hc, hg⟩ ↦ ⟨(), hc, hg⟩⟩

@[simp] theorem orError_eq_ok {o : Option α} : orError o e = .ok a ↔ o = some a := by
  cases o <;> simp [orError]

/-- A checked operation in front of the rest returns the one value that passes its check. -/
theorem exists_checked_iff {p : Prop} {q : α → Prop} : (∃ b, (p ∧ a = b) ∧ q b) ↔ p ∧ q a := by
  constructor
  · rintro ⟨b, ⟨hp, rfl⟩, hq⟩
    exact ⟨hp, hq⟩
  · rintro ⟨hp, hq⟩
    exact ⟨a, ⟨hp, rfl⟩, hq⟩

/-- A computation that returned, and what it returned. -/
theorem eq_ok_get {x : Except ε α} (h : x.toOption.isSome = true) :
    x = .ok (x.toOption.get h) := by
  cases x with
  | ok a => rfl
  | error e => cases h

end Ok

/-! ## What a block that stopped has done -/

section Stopped

variable {x : Except ε α} {f : α → Except ε β} {b : β} {a : α} {e e' : ε}

theorem bind_eq_error :
    (x >>= f) = .error e ↔ x = .error e ∨ ∃ a, x = .ok a ∧ f a = .error e := by
  cases x with
  | error e =>
    exact ⟨fun h ↦ .inl (by cases h; rfl), fun h ↦ h.elim (fun h ↦ by cases h; rfl)
      fun ⟨_, h, _⟩ ↦ nomatch h⟩
  | ok a =>
    exact ⟨fun h ↦ .inr ⟨a, rfl, h⟩, fun h ↦ h.elim (nomatch ·)
      fun ⟨_, h, hf⟩ ↦ by cases h; exact hf⟩

@[simp] theorem pure_ne_error : (pure a : Except ε α) ≠ .error e := nofun

@[simp] theorem ensure_eq_error {c : Prop} [Decidable c] :
    ensure c e = .error e' ↔ ¬c ∧ e = e' := by
  unfold ensure
  split <;> simp [*]

@[simp] theorem orError_eq_error {o : Option α} :
    orError o e = .error e' ↔ o = none ∧ e = e' := by
  cases o <;> simp [orError]

/-- What a computation would have returned does not matter to why it stopped. -/
theorem map_eq_error : x.map (fun _ ↦ ()) = .error e ↔ x = .error e := by
  cases x with
  | ok a => exact ⟨nofun, nofun⟩
  | error e' => exact ⟨fun h ↦ by cases h; rfl, fun h ↦ by cases h; rfl⟩

end Stopped

/-! ## Errors a block never stops with -/

/-- `x` does not stop with an error of the kind `E`. -/
def Avoids (E : ε → Prop) (x : Except ε α) : Prop :=
  ∀ e, x = .error e → ¬E e

namespace Avoids

variable {E : ε → Prop} {x y : Except ε α} {f : α → Except ε β} {e : ε} {a : α}

@[simp] theorem bind_iff :
    Avoids E (x >>= f) ↔ Avoids E x ∧ ∀ a, x = .ok a → Avoids E (f a) := by
  constructor
  · exact fun h ↦ ⟨fun e he ↦ h e (bind_eq_error.mpr (.inl he)),
      fun a ha e he ↦ h e (bind_eq_error.mpr (.inr ⟨a, ha, he⟩))⟩
  · rintro ⟨hx, hf⟩ e h
    rcases bind_eq_error.mp h with h | ⟨a, ha, h⟩
    · exact hx e h
    · exact hf a ha e h

/-- One part after the other: the second may rely on what the first returned. -/
theorem bind (hx : Avoids E x) (hf : ∀ a, x = .ok a → Avoids E (f a)) : Avoids E (x >>= f) :=
  bind_iff.mpr ⟨hx, hf⟩

@[simp] theorem map_iff {g : α → β} : Avoids E (g <$> x) ↔ Avoids E x := by
  cases x with
  | ok a => exact ⟨fun _ ↦ nofun, fun _ ↦ nofun⟩
  | error e =>
    exact ⟨fun h e' he ↦ h e' (by cases he; rfl), fun h e' he ↦ h e' (by cases he; rfl)⟩

@[simp] theorem pure_iff : Avoids E (Pure.pure a : Except ε α) :=
  nofun

@[simp] theorem ok_iff : Avoids E (.ok a : Except ε α) :=
  nofun

@[simp] theorem error_iff : Avoids E (.error e : Except ε α) ↔ ¬E e :=
  ⟨fun h ↦ h e rfl, fun h e' he ↦ by cases he; exact h⟩

@[simp] theorem ensure_iff {c : Prop} [Decidable c] :
    Avoids E (Foundation.ensure c e) ↔ (E e → c) := by
  unfold Foundation.ensure
  split <;> simp [*]

@[simp] theorem orError_iff {o : Option α} :
    Avoids E (Foundation.orError o e) ↔ (E e → o ≠ none) := by
  cases o <;> simp [Foundation.orError]

@[simp] theorem ite_iff {c : Prop} [Decidable c] :
    Avoids E (if c then x else y) ↔ (c → Avoids E x) ∧ (¬c → Avoids E y) := by
  split <;> simp [*]

/-- A block that stops with no error at all returns. -/
theorem exists_ok (h : Avoids (fun _ ↦ True) x) : ∃ a, x = .ok a := by
  cases x with
  | ok a => exact ⟨a, rfl⟩
  | error e => exact absurd trivial (h e rfl)

end Avoids

end Foundation
