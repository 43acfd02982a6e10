import Marinade.Invariants.Booked

/-!
# No lockup is in force

The stake program lets nobody withdraw from an account whose lockup is in force. The accounts of the
list are not locked up when they come to it: the program sets no lockup on those it creates, and a
deposited one must have outlived its own. Splitting hands a lockup on, and nothing else changes it.

So no listed account is ever locked up, provided that a lockup that is over stays over. Epochs do
not come back; of the time of day that is an assumption about the cluster, which never reports an
earlier one. `steady` is the program on such a cluster.
-/

open Foundation

namespace Marinade

/-- The program on a cluster whose time of day does not go back and is not before 1970. -/
def steady (rt : Runtime) : System World Label :=
  ((marinade rt).along fun w w' ↦ w.clock.unixTimestamp ≤ w'.clock.unixTimestamp).startingFrom
    fun w ↦ Fresh rt w ∧ 0 ≤ w.clock.unixTimestamp

/-- No listed account is locked up. -/
structure World.Unlocked (w : World) : Prop where
  started : 0 ≤ w.clock.unixTimestamp
  unlocked : ∀ r ∈ w.state.stakeSystem.records, ∀ lockup, w.lockupOf r.stakeAccount = some lockup →
    lockup.isInForce w.clock = false

section

variable {rt : Runtime} {w w' : World} {l : Label} {i : Instruction} {e : Event}
  {x : External} {k : Pubkey} {olds news rest : List StakeRecord}

theorem reachable_of_steady (h : (steady rt).Reachable w) : (marinade rt).Reachable w :=
  h.mono (fun _ hi ↦ hi.1) fun _ _ _ hs ↦ hs.1

/-! ## Lockups and time -/

/-- A lockup that is over stays over. -/
theorem Lockup.isInForce_of_le {lockup : Lockup} {clock clock' : Clock}
    (h : lockup.isInForce clock = false) (htime : clock.unixTimestamp ≤ clock'.unixTimestamp)
    (hepoch : clock.epoch ≤ clock'.epoch) : lockup.isInForce clock' = false := by
  simp only [isInForce, Bool.or_eq_false_iff, decide_eq_false_iff_not, not_lt] at h ⊢
  exact ⟨h.1.trans htime, h.2.trans hepoch⟩

/-- The default lockup is none. -/
theorem Lockup.isInForce_default {clock : Clock} (h : 0 ≤ clock.unixTimestamp) :
    Lockup.default.isInForce clock = false := by
  rw [isInForce, Bool.or_eq_false_iff]
  exact ⟨decide_eq_false h.not_gt, rfl⟩

/-! ## Steps -/

/-- A move hands lockups on, or leaves one that is not in force. -/
theorem Moved.unlocked (hm : Moved rt w w' olds news rest) (hr : Recorded w)
    (hclock : w'.clock = w.clock) (hu : w.Unlocked) : w'.Unlocked where
  started := by
    rw [hclock]
    exact hu.started
  unlocked r hmem lockup hlockup := by
    rw [hclock]
    rcases hm.replaced.mem_iff.mp hmem with hnew | hrest
    · rcases hm.lockups r hnew with ⟨r', hr', heq⟩ | ⟨lockup', hlockup', hover⟩
      · exact hu.unlocked r' (hm.replaced.mem_of_olds hr') lockup (heq ▸ hlockup)
      · obtain rfl := Option.some.inj (hlockup.symm.trans hlockup')
        rcases hover with rfl | hover
        · exact Lockup.isInForce_default hu.started
        · exact hover
    · rw [Chain.lockupOf_congr (hm.stakes_rest hr hrest)] at hlockup
      exact hu.unlocked r (hm.replaced.mem_of_rest hrest) lockup hlockup

/-- What happens outside sets no lockup. -/
theorem External.lockupOf_eq (h : x.Happens rt w.toChain w'.toChain) (hk : w.Managed k) :
    w'.lockupOf k = w.lockupOf k := by
  obtain ⟨account, ha, -⟩ := id hk
  obtain ⟨account', ha', hfollows⟩ := External.follows h hk ha
  rw [Chain.lockupOf, Chain.lockupOf, ha, ha', Option.map_some, Option.map_some, hfollows.meta_eq]

theorem World.Unlocked.step (hu : w.Unlocked) (hw : WellFormed rt w) (hr : Recorded w)
    (htime : w.clock.unixTimestamp ≤ w'.clock.unixTimestamp) (hs : Step rt w l w') :
    w'.Unlocked := by
  have hepoch := hs.epoch_le hw
  cases l with
  | instruction i e =>
    have hexecuted := executed_of_exec hs hw.stakes_sound
    obtain ⟨_, _, _, hm⟩ := hexecuted.moved hw hr.listed
    exact hm.unlocked hr hexecuted.clock_eq hu
  | external x =>
    refine ⟨hu.started.trans htime, fun r hmem lockup hlockup ↦ ?_⟩
    rw [hs.2] at hmem
    rw [External.lockupOf_eq hs.1 (hr.listed r hmem).managed] at hlockup
    exact Lockup.isInForce_of_le (hu.unlocked r hmem lockup hlockup) htime hepoch

/-- As long as the clock does not go back, no listed account is ever locked up. -/
theorem unlocked_of_reachable (h : (steady rt).Reachable w) : w.Unlocked := by
  refine h.induct_of (Q := fun w ↦ WellFormed rt w ∧ Recorded w)
    (fun w hr ↦ ⟨wellFormed_of_reachable (reachable_of_steady hr),
      (booked_of_reachable (reachable_of_steady hr)).toRecorded⟩) ?_ ?_
  · rintro w ⟨⟨accounts, data, c, -, hp⟩, hstarted⟩ -
    refine ⟨hstarted, fun r hmem ↦ ?_⟩
    rw [(Initialize.process_spec hp).records_eq] at hmem
    cases hmem
  · rintro w l w' ⟨hw, hr⟩ - hu ⟨hs, htime⟩
    exact hu.step hw hr htime hs

end

end Marinade
