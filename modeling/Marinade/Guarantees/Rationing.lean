import Marinade.Guarantees.Powers
import Marinade.Guarantees.Waiting

/-!
# How often the stake delta moves

The stake delta is worked off by bots, validator by validator. Each validator record keeps the epoch
in which the delta last moved stake to it, or a part of an account away from it. In that epoch no
part is taken away again, and stake goes to the validator again only at the expense of one of the
extra runs that the manager grants. Whole accounts are taken away without a limit.

How much may still be moved in an epoch is therefore a potential: one for each validator that has
not been visited, and the extra runs. It never rises within an epoch but for what the manager adds.
-/

open Foundation

namespace Marinade

/-- How many of these validators have not been visited in the epoch. -/
def unvisited (p : Pubkey → Bool) (epoch : ℕ) (visits : List (Pubkey × ℕ)) : ℕ :=
  total (fun v ↦ if p v.1 = true ∧ v.2 ≠ epoch then 1 else 0) visits

/-- The validators that the stake delta moved stake to, and those that it took parts of accounts
away from. -/
structure DeltaMoves where
  staked : List Pubkey
  split : List Pubkey
  deriving DecidableEq, Repr

namespace World

/-- Whom a step staked to. -/
def stakedTo : Label → List Pubkey
  | .instruction (.stakeReserve accounts _) (.stakeReserve ⟨some _⟩) => [accounts.validatorVote]
  | _ => []

/-- Whom a step took a part of an account from: the part has a record of its own. -/
def splitFrom (w : World) (l : Label) (w' : World) : List Pubkey :=
  match l with
  | .instruction (.deactivateStake _ _ j) (.deactivateStake ⟨some _⟩) =>
    if w'.state.stakeSystem.records.length = w.state.stakeSystem.records.length then []
    else (w.state.validatorSystem.records[j]?.map (·.validatorAccount)).toList
  | _ => []

/-- The moves with those of one more step. -/
def recordMoves (w : World) (l : Label) (w' : World) (past : DeltaMoves) : DeltaMoves where
  staked := stakedTo l ++ past.staked
  split := w.splitFrom l w' ++ past.split

end World

/-- The program with the moves of the stake delta beside its state. -/
def deltaMoves (rt : Runtime) : System (World × DeltaMoves) Label :=
  (marinade rt).withHistory ⟨[], []⟩ World.recordMoves

namespace Label

/-- How many of these validators a step adds. -/
def added (p : Pubkey → Bool) : Label → ℕ
  | .instruction (.addValidator accounts _) _ => if p accounts.validatorVote then 1 else 0
  | _ => 0

/-- How many extra runs a step grants. -/
def granted : Label → ℕ
  | .instruction (.configValidatorSystem _ extraRuns) _ => extraRuns
  | _ => 0

end Label

/-! ## Counting visits -/

section

variable {p : Pubkey → Bool} {epoch j : ℕ} {vs : List ValidatorRecord} {v v' : ValidatorRecord}

/-- A validator that is visited is crossed off. -/
theorem unvisited_set (hv : vs[j]? = some v) (hvisited : v'.lastStakeDeltaEpoch = epoch) :
    unvisited p epoch ((vs.set j v').map (·.visit))
        + (if p v.validatorAccount = true ∧ v.lastStakeDeltaEpoch ≠ epoch then 1 else 0)
      = unvisited p epoch (vs.map (·.visit)) := by
  rw [unvisited, unvisited, total_map, total_map]
  have hset := total_set (g := fun v : ValidatorRecord ↦
    if p v.visit.1 = true ∧ v.visit.2 ≠ epoch then 1 else 0) hv v'
  have hzero : (if p v'.visit.1 = true ∧ v'.visit.2 ≠ epoch then 1 else 0) = 0 :=
    if_neg fun h ↦ h.2 hvisited
  rw [hzero, Nat.add_zero] at hset
  exact hset

end

/-! ## One step and many -/

namespace World

/-- How many of these validators may still be visited in the epoch. -/
def unvisited (w : World) (p : Pubkey → Bool) : ℕ :=
  Marinade.unvisited p w.clock.epoch w.state.visits

/-- What a step moves is taken off what may be moved, and the rest is not more than what is left of
it with what the manager has added. -/
structure Rationed (w w' : World) (p : Pubkey → Bool) (staked split : List Pubkey)
    (added granted : ℕ) : Prop where
  split_le : split.countP p + w'.unvisited p ≤ w.unvisited p + added
  all_le : staked.countP p + split.countP p + w'.unvisited p
      + w'.state.stakeSystem.extraStakeDeltaRuns
    ≤ w.unvisited p + w.state.stakeSystem.extraStakeDeltaRuns + added + granted

end World

section

variable {rt : Runtime} {w w' : World} {i : Instruction} {e : Event} {l : Label} {p : Pubkey → Bool}

/-- Nothing is moved, and what may be moved is as it was. -/
theorem World.Rationed.of_eq {added granted : ℕ}
    (hunvisited : w'.unvisited p ≤ w.unvisited p + added)
    (hruns : w'.state.stakeSystem.extraStakeDeltaRuns
      ≤ w.state.stakeSystem.extraStakeDeltaRuns + granted) :
    w.Rationed w' p [] [] added granted := by
  refine ⟨?_, ?_⟩
  · rw [List.countP_nil]
    omega
  · rw [List.countP_nil]
    omega

/-- Visits that are as they were leave as many validators unvisited. -/
theorem World.unvisited_of_eq (hepoch : w'.clock.epoch = w.clock.epoch)
    (hvisits : w'.state.visits = w.state.visits) : w'.unvisited p = w.unvisited p := by
  rw [unvisited, unvisited, hepoch, hvisits]

theorem AddValidator.Spec.unvisited_le {accounts : AddValidator} {score topUp : ℕ}
    (h : AddValidator.Spec accounts score w w' topUp) :
    w'.unvisited p ≤ w.unvisited p + if p accounts.validatorVote then 1 else 0 := by
  have hclock : w'.clock = w.clock := by rw [h.frame]
  rw [World.unvisited, World.unvisited, hclock, State.visits, h.validators_eq, List.map_append,
    Marinade.unvisited, total_append, List.map_singleton, total_cons, total_nil, Nat.add_zero]
  refine Nat.add_le_add_left ?_ _
  by_cases hp : p accounts.validatorVote = true
  · rw [if_pos hp]
    split
    · exact le_rfl
    · exact Nat.zero_le 1
  · rw [if_neg fun hv ↦ hp hv.1]
    exact Nat.zero_le _

theorem RemoveValidator.Spec.unvisited_le {accounts : RemoveValidator} {j : ℕ} {vote : Pubkey}
    {v : ValidatorRecord} (h : RemoveValidator.Spec accounts j vote w w' v) :
    w'.unvisited p ≤ w.unvisited p := by
  have hclock : w'.clock = w.clock := by rw [h.frame]
  rw [World.unvisited, World.unvisited, hclock, State.visits, State.visits, h.validators_eq,
    Marinade.unvisited, Marinade.unvisited, total_map, total_map]
  exact (Nat.le_add_right _ _).trans (total_swapRemove h.validator).le

/-- Only the manager adds to the extra runs. -/
theorem Executed.runs_le (h : Executed rt w w' i e) (hb : Bounds w) :
    w'.state.stakeSystem.extraStakeDeltaRuns
      ≤ w.state.stakeSystem.extraStakeDeltaRuns + (Label.instruction i e).granted := by
  by_cases hi : i.configures = true
  · rw [(h.configured hi).1.runs_eq]
    cases i with
    | configValidatorSystem => exact Nat.le_add_left _ _
    | _ => exact Nat.le_add_right _ _
  · exact (h.leaves.undecided (by simpa using hi) hb).runs_le.trans (Nat.le_add_right _ _)

theorem StakeReserve.process_rationed {accounts : StakeReserve} {j : ℕ} {event : StakeReserveEvent}
    (h : accounts.process rt j w = .ok (w', event)) :
    w.Rationed w' p (World.stakedTo (.instruction (.stakeReserve accounts j) (.stakeReserve event)))
      [] 0 0 := by
  rcases process_spec h with ⟨hnone, found, hspec⟩ | ⟨v, x, hsome, topUp, hspec⟩
  · have hstaked : World.stakedTo (.instruction (.stakeReserve accounts j) (.stakeReserve event))
        = [] := by
      obtain ⟨amount⟩ := event
      obtain rfl : amount = none := hnone
      rfl
    obtain ⟨runs, hstate⟩ := hspec.state_eq
    rw [hstaked]
    refine .of_eq (World.unvisited_of_eq (by rw [hspec.frame]) ?_).le hspec.runs_le
    rw [hstate]
    rfl
  · have hstaked : World.stakedTo (.instruction (.stakeReserve accounts j) (.stakeReserve event))
        = [accounts.validatorVote] := by
      obtain ⟨amount⟩ := event
      obtain rfl : amount = some x := hsome
      rfl
    have hused := hspec.runs_eq
    have hclock : w'.clock = w.clock := by rw [hspec.frame]
    have hleft : w'.unvisited p + (if p v.validatorAccount = true ∧
        v.lastStakeDeltaEpoch ≠ w.clock.epoch then 1 else 0) = w.unvisited p := by
      rw [World.unvisited, hclock, State.visits, hspec.validators_eq]
      exact unvisited_set hspec.validator rfl
    rw [hstaked]
    constructor
    · rw [List.countP_nil]
      omega
    · rw [List.countP_nil, List.countP_singleton, ← hspec.voter]
      by_cases hvisited : v.lastStakeDeltaEpoch = w.clock.epoch
      · -- an extra run is used up
        rw [if_pos hvisited] at hused
        rw [if_neg fun h ↦ h.2 hvisited] at hleft
        split
        · omega
        · omega
      · -- the validator is crossed off
        rw [if_neg hvisited] at hused
        simp only [ne_eq, hvisited, not_false_eq_true, and_true] at hleft
        omega

/-- A part of an account is taken away only where the delta has not been in the epoch, and then it
has been there. -/
theorem DeactivateStake.process_visits {accounts : DeactivateStake} {k j : ℕ}
    {event : DeactivateStakeEvent} (h : accounts.process rt k j w = .ok (w', event))
    (hfunded : w.Funded accounts.stakeAccount) :
    (w'.state.visits = w.state.visits ∧ (event.unstakedAmount ≠ none →
      w'.state.stakeSystem.records.length = w.state.stakeSystem.records.length)) ∨
    ∃ v v', w.state.validatorSystem.records[j]? = some v ∧
      v.lastStakeDeltaEpoch ≠ w.clock.epoch ∧ v'.lastStakeDeltaEpoch = w.clock.epoch ∧
      w'.state.validatorSystem.records = w.state.validatorSystem.records.set j v' := by
  obtain ⟨hnone, h⟩ | ⟨_, _, _, v, h⟩ | ⟨_, _, _, v, _, _, h⟩ := process_spec h hfunded
  · exact .inl ⟨by rw [h.state_eq], fun hne ↦ absurd hnone hne⟩
  · exact .inl ⟨State.visits_set h.validator h.validators_eq rfl,
      fun _ ↦ by rw [h.records_eq, List.length_set]⟩
  · exact .inr ⟨v, _, h.validator, h.first rfl, rfl, h.validators_eq⟩

theorem DeactivateStake.process_rationed {accounts : DeactivateStake} {k j : ℕ}
    {event : DeactivateStakeEvent} (h : accounts.process rt k j w = .ok (w', event))
    (hfunded : w.Funded accounts.stakeAccount)
    (hclock : w'.clock = w.clock) (hruns : w'.state.stakeSystem.extraStakeDeltaRuns
      ≤ w.state.stakeSystem.extraStakeDeltaRuns) :
    w.Rationed w' p [] (w.splitFrom (.instruction (.deactivateStake accounts k j)
      (.deactivateStake event)) w') 0 0 := by
  rcases process_visits h hfunded with ⟨hvisits, hlength⟩ | ⟨v, v', hv, hfirst, hvisited, hset⟩
  · have hsplit : w.splitFrom (.instruction (.deactivateStake accounts k j)
        (.deactivateStake event)) w' = [] := by
      obtain ⟨_ | x⟩ := event
      · rfl
      · exact if_pos (hlength (by simp))
    rw [hsplit]
    exact .of_eq (World.unvisited_of_eq (by rw [hclock]) hvisits).le hruns
  · have hcrossed := unvisited_set (p := p) hv hvisited
    have hleft : w'.unvisited p + (if p v.validatorAccount = true then 1 else 0)
        = w.unvisited p := by
      rw [World.unvisited, hclock, State.visits, hset, World.unvisited, State.visits, ← hcrossed]
      simp only [hfirst, ne_eq, not_false_eq_true, and_true]
    have hsplit : (w.splitFrom (.instruction (.deactivateStake accounts k j)
        (.deactivateStake event)) w').countP p ≤ if p v.validatorAccount = true then 1 else 0 := by
      obtain ⟨_ | x⟩ := event
      · exact Nat.zero_le _
      · simp only [World.splitFrom, hv]
        split
        · exact Nat.zero_le _
        · simp [List.countP_singleton]
    constructor
    · omega
    · rw [List.countP_nil]
      omega

theorem Step.rationed (hs : Step rt w l w') (h : (marinade rt).Reachable w)
    (hepoch : w'.clock.epoch = w.clock.epoch) (p : Pubkey → Bool) :
    w.Rationed w' p (World.stakedTo l) (w.splitFrom l w') (l.added p) l.granted := by
  cases l with
  | external x =>
    exact .of_eq (World.unvisited_of_eq hepoch (by rw [hs.2])).le (by rw [hs.2]; exact le_rfl)
  | instruction i e =>
    have hsound := (wellFormed_of_reachable h).stakes_sound
    have hexecuted := executed_of_exec hs hsound
    have hruns := hexecuted.runs_le (bounds_of_reachable h)
    by_cases hi : i.visits = false
    · have hnone : World.stakedTo (.instruction i e) = [] ∧
          w.splitFrom (.instruction i e) w' = [] ∧ (Label.instruction i e).added p = 0 := by
        cases i with
        | addValidator | removeValidator | stakeReserve | deactivateStake => cases hi
        | _ => exact ⟨rfl, rfl, rfl⟩
      rw [hnone.1, hnone.2.1, hnone.2.2]
      exact .of_eq (World.unvisited_of_eq hepoch (hexecuted.leaves.visits_eq hi)).le hruns
    · cases i with
      | addValidator accounts score =>
        obtain ⟨_, hspec⟩ := AddValidator.process_spec (silently_eq_ok hs)
        exact .of_eq hspec.unvisited_le hruns
      | removeValidator accounts j vote =>
        obtain ⟨_, hspec⟩ := RemoveValidator.process_spec (silently_eq_ok hs)
        exact .of_eq hspec.unvisited_le hruns
      | stakeReserve accounts j =>
        obtain ⟨event, hp, rfl⟩ := reporting_eq_ok hs
        exact StakeReserve.process_rationed hp
      | deactivateStake accounts k j =>
        obtain ⟨event, hp, rfl⟩ := reporting_eq_ok hs
        exact DeactivateStake.process_rationed hp (hsound.funded _) hexecuted.clock_eq hruns
      | _ => exact absurd rfl hi

/-- One step after others. -/
theorem World.Rationed.trans {w₀ : World} {staked staked' split split' : List Pubkey}
    {added added' granted granted' : ℕ} (h : w₀.Rationed w p staked split added granted)
    (h' : w.Rationed w' p staked' split' added' granted') :
    w₀.Rationed w' p (staked' ++ staked) (split' ++ split) (added' + added)
      (granted' + granted) := by
  have hsplit := h.split_le
  have hall := h.all_le
  have hsplit' := h'.split_le
  have hall' := h'.all_le
  constructor
  · rw [List.countP_append]
    omega
  · rw [List.countP_append, List.countP_append]
    omega

theorem rationed_of_run {w₀ : World} {past : DeltaMoves} {ls : List Label}
    (h : (deltaMoves rt).Run (w₀, ⟨[], []⟩) ls (w, past)) (h₀ : (marinade rt).Reachable w₀)
    (hepoch : w.clock.epoch = w₀.clock.epoch) (p : Pubkey → Bool) :
    w₀.Rationed w p past.staked past.split (ls.map (Label.added p)).sum
      (ls.map Label.granted).sum := by
  have hall := h.induct (P := fun ls q ↦ (marinade rt).Reachable q.1 ∧
      w₀.clock.epoch ≤ q.1.clock.epoch ∧ (q.1.clock.epoch = w₀.clock.epoch →
        w₀.Rationed q.1 p q.2.staked q.2.split (ls.map (Label.added p)).sum
          (ls.map Label.granted).sum)) ?_ ?_
  · exact hall.2.2 hepoch
  · exact ⟨h₀, le_rfl, fun _ ↦ .of_eq (Nat.le_add_right _ _) (Nat.le_add_right _ _)⟩
  · rintro ls ⟨w, past⟩ l ⟨w', past'⟩ - ⟨hr, hle, ih⟩ ⟨hs, hpast⟩
    obtain rfl : past' = w.recordMoves l w' past := hpast
    have hle' := Step.epoch_le hs (wellFormed_of_reachable hr)
    refine ⟨hr.step hs, hle.trans hle', fun hepoch ↦ ?_⟩
    -- the epoch has not passed before the step either
    have hepoch' : w.clock.epoch = w₀.clock.epoch := le_antisymm (hle'.trans hepoch.le) hle
    rw [List.map_cons, List.sum_cons, List.map_cons, List.sum_cons]
    exact (ih hepoch').trans (Step.rationed hs hr (hepoch.trans hepoch'.symm) p)

/-- A validator is at one place of the list. -/
theorem unvisited_le_one (h : (marinade rt).Reachable w) (vote : Pubkey) :
    w.unvisited (fun k ↦ decide (k = vote)) ≤ 1 := by
  have hdistinct := (registered_of_reachable h).distinct
  rw [World.unvisited, Marinade.unvisited, State.visits, total_map]
  by_cases hlisted : ∃ v ∈ w.state.validatorSystem.records, v.validatorAccount = vote
  · obtain ⟨v, hv, rfl⟩ := hlisted
    rw [hdistinct.total_eq hv fun v' hne ↦ if_neg fun hv' ↦ hne (of_decide_eq_true hv'.1)]
    split
    · exact le_rfl
    · exact Nat.zero_le 1
  · have hzero : total (fun v : ValidatorRecord ↦
        if decide (v.visit.1 = vote) = true ∧ v.visit.2 ≠ w.clock.epoch then 1 else 0)
        w.state.validatorSystem.records = 0 :=
      total_eq_zero_iff.mpr fun v hv ↦
        if_neg fun hv' ↦ hlisted ⟨v, hv, of_decide_eq_true hv'.1⟩
    rw [hzero]
    exact Nat.zero_le 1

/-- In every run within an epoch the moves of the stake delta are taken off what may be moved in it.
So a part of an account is taken away from a validator at most once, and stake is moved to or from
it only once more than there are extra runs, unless the manager adds it anew or grants more. -/
theorem moves_rationed {w₀ : World} {past : DeltaMoves} {ls : List Label}
    (h : (deltaMoves rt).Run (w₀, ⟨[], []⟩) ls (w, past)) (h₀ : (marinade rt).Reachable w₀)
    (hepoch : w.clock.epoch = w₀.clock.epoch) :
    (∀ p, w₀.Rationed w p past.staked past.split (ls.map (Label.added p)).sum
      (ls.map Label.granted).sum) ∧
    ∀ vote, past.split.count vote ≤ 1 + (ls.map (Label.added (· = vote))).sum ∧
      past.staked.count vote + past.split.count vote
        ≤ 1 + w₀.state.stakeSystem.extraStakeDeltaRuns + (ls.map (Label.added (· = vote))).sum
          + (ls.map Label.granted).sum := by
  refine ⟨rationed_of_run h h₀ hepoch, fun vote ↦ ?_⟩
  have hone := unvisited_le_one h₀ vote
  obtain ⟨hsplit, hall⟩ := rationed_of_run h h₀ hepoch (fun k ↦ decide (k = vote))
  have hcount : ∀ l : List Pubkey, l.count vote = l.countP fun k ↦ decide (k = vote) :=
    fun _ ↦ rfl
  rw [hcount, hcount]
  constructor
  · omega
  · omega

end

/-! ## One visit -/

namespace Sample

/-- The first staking of the epoch. -/
def firstVisit : Instruction :=
  .stakeReserve ⟨vote, .external 30, user⟩ 0

theorem firstVisit_isSome : (exec runtime supplied.2 firstVisit).toOption.isSome = true := by
  decide +kernel

def rationed : World :=
  ((exec runtime supplied.2 firstVisit).toOption.get firstVisit_isSome).1

def rationedLabels : List Label :=
  [.instruction firstVisit (.stakeReserve ⟨some 40000000⟩)]

theorem rationed_run :
    (deltaMoves runtime).Run (supplied.2, ⟨[], []⟩) rationedLabels (rationed, ⟨[vote], []⟩) :=
  .snoc .nil ⟨step_of_isSome firstVisit_isSome (by decide +kernel), rfl⟩

end Sample

theorem moves_rationed_sample :
    (∀ p, Sample.supplied.2.Rationed Sample.rationed p [Sample.vote] []
      (Sample.rationedLabels.map (Label.added p)).sum
      (Sample.rationedLabels.map Label.granted).sum) ∧
    ∀ vote, ([] : List Pubkey).count vote
        ≤ 1 + (Sample.rationedLabels.map (Label.added (· = vote))).sum ∧
      [Sample.vote].count vote + ([] : List Pubkey).count vote
        ≤ 1 + Sample.supplied.2.state.stakeSystem.extraStakeDeltaRuns
          + (Sample.rationedLabels.map (Label.added (· = vote))).sum
          + (Sample.rationedLabels.map Label.granted).sum :=
  moves_rationed Sample.rationed_run Sample.supplied_reachable (by decide +kernel)

end Marinade
