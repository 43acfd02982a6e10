import Marinade.Guarantees.Waiting
import Marinade.Invariants.Capital
import Marinade.Invariants.Frames

/-!
# The cap on moved stake

The validator manager may move only so much stake in an epoch. The state keeps the epoch of the last
move and what was moved in it, and starts again from nothing at the first move of a later epoch. So
what it counts is the sum of the moves of the epoch, which the history beside the state keeps.

The cap is a fee on the lamports under control, of any number of basis points. It is computed in 128
bits and cut to 64, and where it does not fit, a move within the cap is refused.
-/

open Foundation Foundation.Ledger

namespace Marinade

/-- The state a move is counted in. The cap may have been set to anything before it, and an account
that was split off is already listed. -/
def State.atMove (s : State) (cap : Fee) (stakeList : AccountList StakeRecord) : State :=
  { s with
    maxStakeMovedPerEpoch := cap
    stakeSystem := { s.stakeSystem with stakeList } }

/-- The cut does not matter to the sum of the moves of an epoch: the sum is above the cap anyway, or
there is room for it above every multiple of 2^64 that the cap reaches. A cap that fits in 64 bits
reaches none. -/
def State.CapHolds (s : State) (cap : Fee) (sum : ℕ) : Prop :=
  s.moveCap cap < sum ∨
    ∀ k, 0 < k → k * (u64Max + 1) ≤ s.moveCap cap → k * (u64Max + 1) + sum ≤ s.moveCap cap

/-- What a step moves: it cools down in an emergency. -/
def World.movedBy (w : World) (l : Label) (w' : World) : ℕ :=
  match l with
  | .instruction i _ =>
    if i.movesStake then w'.state.emergencyCoolingDown - w.state.emergencyCoolingDown else 0
  | .external _ => 0

/-- The sums of what was moved, epoch by epoch. -/
def World.tally (w : World) (l : Label) (w' : World) (moved : ℕ → ℕ) : ℕ → ℕ :=
  Function.update moved w.clock.epoch (moved w.clock.epoch + w.movedBy l w')

/-- The program with these sums beside its state. -/
def tallied (rt : Runtime) : System (World × (ℕ → ℕ)) Label :=
  (marinade rt).withHistory (fun _ ↦ 0) World.tally

section

variable {rt : Runtime} {w w' : World} {s s' : State} {i : Instruction} {e : Event} {l : Label}
  {clock : Clock} {n j x : ℕ} {moved : ℕ → ℕ}

theorem World.Counted.movedIn_self (h : w.Counted w' x) :
    w'.state.movedIn w.clock.epoch = w.state.movedIn w.clock.epoch + x := by
  rw [State.movedIn, if_neg (not_not.mpr h.epoch_eq.symm), h.moved_eq]

theorem World.Counted.movedIn_of_ne {E : ℕ} (h : w.Counted w' x) (hE : E ≠ w.clock.epoch) :
    w'.state.movedIn E = 0 := by
  rw [State.movedIn, h.epoch_eq, if_pos hE]

/-! ## The sums -/

/-- The sum of the epoch is what the state counts, and nothing is moved ahead of time. -/
structure World.Tallied (w : World) (moved : ℕ → ℕ) : Prop where
  counted : ∀ E, w.clock.epoch ≤ E → moved E = w.state.movedIn E
  later : ∀ E, w.clock.epoch < E → moved E = 0

theorem Fresh.tallied (h : Fresh rt w) : w.Tallied fun _ ↦ 0 := by
  obtain ⟨_, _, _, -, h⟩ := h
  refine ⟨fun E _ ↦ ?_, fun _ _ ↦ rfl⟩
  rw [State.movedIn, (Initialize.process_spec h).moved_eq, ite_self]

theorem State.SameMoves.movedIn_eq (h : s.SameMoves s') : s'.movedIn = s.movedIn := by
  funext E
  unfold State.movedIn
  rw [h.1, h.2]

theorem World.Tallied.of_sameMoves (h : w.Tallied moved) (hmoves : w.state.SameMoves w'.state)
    (hle : w.clock.epoch ≤ w'.clock.epoch) : w'.Tallied moved where
  counted E hE := by
    rw [hmoves.movedIn_eq]
    exact h.counted E (hle.trans hE)
  later E hE := h.later E (hle.trans_lt hE)

theorem World.Tallied.of_counted (h : w.Tallied moved) (hcounted : w.Counted w' x)
    (hclock : w'.clock = w.clock) :
    w'.Tallied (Function.update moved w.clock.epoch (moved w.clock.epoch + x)) := by
  have hlater : ∀ E, w'.clock.epoch < E →
      Function.update moved w.clock.epoch (moved w.clock.epoch + x) E = 0 := by
    intro E hE
    rw [hclock] at hE
    rw [Function.update_of_ne hE.ne']
    exact h.later E hE
  refine ⟨fun E hE ↦ ?_, hlater⟩
  rcases hE.eq_or_lt with rfl | hlt
  · rw [hclock, Function.update_self, h.counted _ le_rfl, hcounted.movedIn_self]
  · rw [hlater E hlt, hcounted.movedIn_of_ne (hclock ▸ hlt.ne')]

/-- A step that moves stake counts it. -/
theorem Step.counted_or (hs : Step rt w l w') (hw : WellFormed rt w) :
    w.movedBy l w' = 0 ∧ w.state.SameMoves w'.state ∨
      w'.clock = w.clock ∧ w.Counted w' (w.movedBy l w') := by
  cases l with
  | external => exact .inl ⟨rfl, by rw [hs.2]; exact .refl⟩
  | instruction i e =>
    have hclock := (executed_of_exec hs hw.stakes_sound).clock_eq
    cases hi : i.movesStake with
    | false =>
      exact .inl ⟨by simp [World.movedBy, hi],
        (executed_of_exec hs hw.stakes_sound).leaves.moves hi⟩
    | true =>
      have hmoved : w.movedBy (.instruction i e) w'
          = w'.state.emergencyCoolingDown - w.state.emergencyCoolingDown := by
        simp [World.movedBy, hi]
      have hcases : w'.state = w.state ∨ ∃ x, w.Counted w' x := by
        cases i with
        | emergencyUnstake =>
          obtain ⟨_, _, _, _, h⟩ := EmergencyUnstake.process_spec (silently_eq_ok hs)
          exact .inr ⟨_, h.counted rfl⟩
        | partialUnstake =>
          obtain h | ⟨_, _, _, _, h⟩ | ⟨_, _, _, _, _, _, h⟩ :=
            PartialUnstake.process_spec (silently_eq_ok hs) (hw.stakes_sound.funded _)
          · exact .inl h.state_eq
          · exact .inr ⟨_, h.counted rfl⟩
          · exact .inr ⟨_, h.counted rfl⟩
        | _ => cases hi
      rcases hcases with hstate | ⟨x, hx⟩
      · rw [hmoved, hstate, Nat.sub_self]
        exact .inl ⟨rfl, .refl⟩
      · rw [hmoved, hx.emergency_eq, Nat.add_sub_cancel_left]
        exact .inr ⟨hclock, hx⟩

theorem World.Tallied.step (h : w.Tallied moved) (hw : WellFormed rt w) (hs : Step rt w l w') :
    w'.Tallied (w.tally l w' moved) := by
  unfold World.tally
  rcases hs.counted_or hw with ⟨hzero, hmoves⟩ | ⟨hclock, hcounted⟩
  · rw [hzero, Nat.add_zero, Function.update_eq_self]
    exact h.of_sameMoves hmoves (hs.epoch_le hw)
  · exact h.of_counted hcounted hclock

theorem tallied_of_reachable {p : World × (ℕ → ℕ)} (h : (tallied rt).Reachable p) :
    p.1.Tallied p.2 := by
  refine h.induct (P := fun p ↦ p.1.Tallied p.2) ?_ ?_
  · rintro ⟨w, moved⟩ ⟨hfresh, rfl⟩
    exact hfresh.tallied
  · rintro ⟨w, moved⟩ l ⟨w', moved'⟩ hr ih ⟨hs, hmoved⟩
    rw [hmoved]
    exact ih.step (wellFormed_of_reachable (System.Reachable.of_withHistory hr)) hs

theorem tallied_reachable (h : (marinade rt).Reachable w) :
    ∃ moved, (tallied rt).Reachable (w, moved) :=
  h.withHistory

/-- What the state counts is what was moved in the epoch. -/
theorem moved_eq_of_reachable (h : (tallied rt).Reachable (w, moved)) :
    moved w.clock.epoch = w.state.movedIn w.clock.epoch :=
  (tallied_of_reachable h).counted _ le_rfl

/-! ## The cap -/

theorem State.moveCap_mono {cap cap' : Fee} (h : cap.basisPoints ≤ cap'.basisPoints) :
    s.moveCap cap ≤ s.moveCap cap' :=
  Nat.div_le_div_right (Nat.mul_le_mul_left _ h)

/-- A move passes when the sum of the epoch with it is within the cap as it was cut. -/
theorem onStakeMoved_iff_of_reachable (h : (tallied rt).Reachable (w, moved)) (cap : Fee)
    (stakeList : AccountList StakeRecord) :
    (∃ s', (w.state.atMove cap stakeList).onStakeMoved x w.clock = .ok s') ↔
      moved w.clock.epoch + x ≤ w.state.moveCap cap % (u64Max + 1) := by
  have hcontrolled := controlled_le_of_reachable (System.Reachable.of_withHistory h)
  simp only [State.onStakeMoved_iff, moved_eq_of_reachable h]
  constructor
  · rintro ⟨_, -, hle, -⟩
    exact hle
  · intro hle
    exact ⟨_, hcontrolled, hle, rfl⟩

/-- What is left of the cap is enough for a sum within it exactly where the cut does not matter. -/
theorem State.le_moveCap_iff {cap : Fee} :
    (x ≤ s.moveCap cap % (u64Max + 1) ↔ x ≤ s.moveCap cap) ↔ s.CapHolds cap x := by
  have hmod : s.moveCap cap % (u64Max + 1) ≤ s.moveCap cap := Nat.mod_le _ _
  have hdiv : s.moveCap cap / (u64Max + 1) * (u64Max + 1) + s.moveCap cap % (u64Max + 1)
      = s.moveCap cap := Nat.div_add_mod' _ _
  unfold CapHolds
  constructor
  · intro h
    by_cases hx : x ≤ s.moveCap cap
    · right
      intro k _ hk
      -- no multiple reaches further than the one the cut takes off
      have hle : k * (u64Max + 1) ≤ s.moveCap cap / (u64Max + 1) * (u64Max + 1) :=
        Nat.mul_le_mul_right _ ((Nat.le_div_iff_mul_le (by decide)).mpr hk)
      have hleft := h.mpr hx
      omega
    · exact .inl (Nat.lt_of_not_le hx)
  · rintro (habove | hroom)
    · exact ⟨fun hx ↦ hx.trans hmod, fun hx ↦ absurd hx (Nat.not_le_of_lt habove)⟩
    · refine ⟨fun hx ↦ hx.trans hmod, fun hx ↦ ?_⟩
      rcases Nat.eq_zero_or_pos (s.moveCap cap / (u64Max + 1)) with hzero | hpos
      · rw [hzero, Nat.zero_mul, Nat.zero_add] at hdiv
        rwa [hdiv]
      · have hle := hroom _ hpos (Nat.div_mul_le_self _ _)
        omega

/-- Whatever the cap is set to, a move passes exactly within it where the cut does not matter. Then
no move that passes fails under a higher cap. What was moved was within the cap. -/
theorem move_cap_iff (h : (tallied rt).Reachable (w, moved))
    (stakeList : AccountList StakeRecord) :
    (∀ cap x, ((∃ s', (w.state.atMove cap stakeList).onStakeMoved x w.clock = .ok s') ↔
        moved w.clock.epoch + x ≤ w.state.moveCap cap) ↔
      w.state.CapHolds cap (moved w.clock.epoch + x)) ∧
    (∀ cap cap' x, cap.basisPoints ≤ cap'.basisPoints →
      w.state.CapHolds cap' (moved w.clock.epoch + x) →
      (∃ s', (w.state.atMove cap stakeList).onStakeMoved x w.clock = .ok s') →
      ∃ s', (w.state.atMove cap' stakeList).onStakeMoved x w.clock = .ok s') ∧
    ∀ l w', Step rt w l w' → 0 < w.movedBy l w' →
      moved w.clock.epoch + w.movedBy l w' ≤ w.state.moveCap w.state.maxStakeMovedPerEpoch := by
  refine ⟨fun cap x ↦ ?_, fun cap cap' x hcap hholds hpasses ↦ ?_, fun l w' hs hpos ↦ ?_⟩
  · rw [onStakeMoved_iff_of_reachable h]
    exact State.le_moveCap_iff
  · rw [onStakeMoved_iff_of_reachable h] at hpasses ⊢
    have hle : moved w.clock.epoch + x ≤ w.state.moveCap cap := hpasses.trans (Nat.mod_le _ _)
    exact (State.le_moveCap_iff.mpr hholds).mpr (hle.trans (State.moveCap_mono hcap))
  · have hw := wellFormed_of_reachable (System.Reachable.of_withHistory h)
    rcases hs.counted_or hw with ⟨hzero, -⟩ | ⟨-, hcounted⟩
    · omega
    · rw [moved_eq_of_reachable h, ← hcounted.moved_eq]
      exact hcounted.moved_le

end

namespace Sample

/-- Large rewards are booked, the validator loses its score, and the cap is raised far above
100%. -/
def raising : List Action := [
  .run (.addValidator ⟨user, vote, .duplicationFlag vote, user⟩ 100),
  .run (.deposit ⟨user, treasury⟩ 40000000),
  .run (.stakeReserve ⟨vote, .external 30, user⟩ 0),
  .reward (.external 30) 100000000000000,
  .run (.updateActive ⟨.external 30⟩ 0 0),
  .run (.setValidatorScore ⟨user⟩ 0 vote 0),
  .run (.configMarinade user {
    rewardsFee := none, slotsForStakeDelta := none, minStake := none, minDeposit := none
    minWithdraw := none, stakingSolCap := none, liquiditySolCap := none
    withdrawStakeAccountEnabled := none, delayedUnstakeFee := none
    withdrawStakeAccountFee := none, maxStakeMovedPerEpoch := some ⟨1844674408⟩
    depositSolFee := none, depositStakeAccountFee := none })]

def raised : List Label × World :=
  (replay runtime (fun _ _ ↦ true) fresh raising).get (by decide +kernel)

theorem raised_reachable : (marinade runtime).Reachable raised.2 :=
  (run_of_replay (Option.some_get _).symm).reachable fresh_fresh

/-- The cap is left at 100%, and all stake is moved. -/
def relieved : List Label × World :=
  (replay runtime (fun _ _ ↦ true) fresh (raising.take 6 ++ [
    .run (.emergencyUnstake ⟨user, .external 30⟩ 0 0)])).get (by decide +kernel)

theorem relieved_reachable : (marinade runtime).Reachable relieved.2 :=
  (run_of_replay (Option.some_get _).symm).reachable fresh_fresh

end Sample

theorem move_cap_iff_sample : ∃ moved,
    (tallied Sample.runtime).Reachable (Sample.relieved.2, moved) ∧
    let w := Sample.relieved.2
    moved w.clock.epoch = 100000040000000 ∧
    (∀ cap x, ((∃ s', (w.state.atMove cap w.state.stakeSystem.stakeList).onStakeMoved x w.clock
          = .ok s') ↔ moved w.clock.epoch + x ≤ w.state.moveCap cap) ↔
        w.state.CapHolds cap (moved w.clock.epoch + x)) ∧
    (∀ cap cap' x, cap.basisPoints ≤ cap'.basisPoints →
      w.state.CapHolds cap' (moved w.clock.epoch + x) →
      (∃ s', (w.state.atMove cap w.state.stakeSystem.stakeList).onStakeMoved x w.clock
        = .ok s') →
      ∃ s', (w.state.atMove cap' w.state.stakeSystem.stakeList).onStakeMoved x w.clock
        = .ok s') ∧
    ∀ l w', Step Sample.runtime w l w' → 0 < w.movedBy l w' →
      moved w.clock.epoch + w.movedBy l w'
        ≤ w.state.moveCap w.state.maxStakeMovedPerEpoch := by
  obtain ⟨moved, h⟩ := tallied_reachable Sample.relieved_reachable
  refine ⟨moved, h, ?_, move_cap_iff h _⟩
  rw [moved_eq_of_reachable h]
  decide +kernel

/-- Before the cap was raised, the whole stake could have been moved; now this is refused, although
the cap is more than 100000 times the lamports under control. -/
theorem raised_cap_refuses : ∃ moved,
    (tallied Sample.runtime).Reachable (Sample.raised.2, moved) ∧
    let s := Sample.raised.2.state
    s.maxStakeMovedPerEpoch.basisPoints ≤ u32Max ∧
    moved Sample.raised.2.clock.epoch + 100000040000000 ≤ s.moveCap s.maxStakeMovedPerEpoch ∧
    exec Sample.runtime Sample.raised.2 (.emergencyUnstake ⟨Sample.user, .external 30⟩ 0 0)
      = .error (.marinade .movingStakeIsCapped) ∧
    (¬∃ s', (s.atMove s.maxStakeMovedPerEpoch s.stakeSystem.stakeList).onStakeMoved
      100000040000000 Sample.raised.2.clock = .ok s') ∧
    ∃ s', (s.atMove ⟨10000⟩ s.stakeSystem.stakeList).onStakeMoved
      100000040000000 Sample.raised.2.clock = .ok s' := by
  obtain ⟨moved, h⟩ := tallied_reachable Sample.raised_reachable
  have hmoved : moved Sample.raised.2.clock.epoch = 0 :=
    (moved_eq_of_reachable h).trans (by decide +kernel)
  refine ⟨moved, h, by decide +kernel, ?_, map_eq_error.mp (by decide +kernel), ?_, ?_⟩
  · rw [hmoved]
    decide +kernel
  · rw [onStakeMoved_iff_of_reachable h, hmoved]
    decide +kernel
  · rw [onStakeMoved_iff_of_reachable h, hmoved]
    decide +kernel

end Marinade
