import Marinade.Protocol

/-!
# Replaying a run

Instructions compute their effect, and so do the external events once they say what they are about.
A list of such actions is replayed into a run of the program.

A small pool to replay actions on: one validator, one user with plenty of SOL, and a treasury that
takes fees.
-/

open Foundation Foundation.Ledger

namespace Marinade

/-- A step with all that is needed to compute it. -/
inductive Action
  | run (i : Instruction)
  | tick (clock : Clock)
  | reward (stakeAccount : Pubkey) (lamports : ℕ)
  | deactivateDelinquent (stakeAccount : Pubkey)

/-- Change the delegation of an account. -/
def Chain.redelegate (c : Chain) (k : Pubkey) (account : StakeAccount) (d : Delegation) : Chain :=
  { c with stakes := Function.update c.stakes k (some { account with delegation := some d }) }

namespace Action

/-- What the step does, if it can happen. -/
def perform (rt : Runtime) (w : World) : Action → Option (Label × World)
  | run i =>
    match exec rt w i with
    | .ok (w', e) => some (.instruction i e, w')
    | .error _ => none
  | tick clock =>
    if w.clock.slot ≤ clock.slot ∧ w.clock.epoch ≤ clock.epoch then
      some (.external .tick, { w with clock })
    else none
  | reward k x => do
    let account ← w.stakes k
    let d ← account.delegation
    if w.lamports.total + x ≤ u64Max then
      some (.external (.reward k x), { w with
        toChain := { w.toChain.redelegate k account { d with stake := d.stake + x } with
          lamports := w.lamports.mint k x } })
    else none
  | deactivateDelinquent k => do
    let account ← w.stakes k
    let d ← account.delegation
    if d.deactivationEpoch = epochMax then
      some (.external (.deactivateDelinquent k), { w with
        toChain := w.toChain.redelegate k account
          { d with deactivationEpoch := w.clock.epoch } })
    else none

variable {rt : Runtime} {w w' : World} {l : Label}

/-- What can be performed is a step. -/
theorem step_of_perform {a : Action} (h : a.perform rt w = some (l, w')) : Step rt w l w' := by
  cases a with
  | run i =>
    rw [perform] at h
    split at h
    · cases h
      assumption
    · cases h
  | tick clock =>
    rw [perform] at h
    split at h
    · cases h
      exact ⟨⟨clock, (‹_ ∧ _› : _ ∧ _).1, (‹_ ∧ _› : _ ∧ _).2, rfl⟩, rfl⟩
    · cases h
  | reward k x =>
    simp only [perform, Option.bind_eq_bind, Option.bind_eq_some_iff] at h
    obtain ⟨account, ha, d, hd, h⟩ := h
    split at h
    · cases h
      exact ⟨⟨account, d, ha, hd, ‹_›, rfl⟩, rfl⟩
    · cases h
  | deactivateDelinquent k =>
    simp only [perform, Option.bind_eq_bind, Option.bind_eq_some_iff] at h
    obtain ⟨account, ha, d, hd, h⟩ := h
    split at h
    · cases h
      exact ⟨⟨account, d, ha, hd, ‹_›, rfl⟩, rfl⟩
    · cases h

end Action

/-- Replay actions from a world, allowing only some steps. -/
def replay (rt : Runtime) (allowed : World → Label → Bool) (w : World) (actions : List Action) :
    Option (List Label × World) :=
  System.replay (Action.perform rt) allowed [] w actions

theorem run_of_replay {rt : Runtime} {allowed : World → Label → Bool} {w : World}
    {actions : List Action} {p : List Label × World}
    (h : replay rt allowed w actions = some p) : (marinade rt).Run w p.1 p.2 :=
  System.Run.replay (fun _ _ _ _ hp _ ↦ Action.step_of_perform hp) .nil h

/-- The same from other initial worlds. -/
theorem startingFrom_run_of_replay {rt : Runtime} {allowed : World → Label → Bool}
    {I : World → Prop} {w : World} {actions : List Action} {p : List Label × World}
    (h : replay rt allowed w actions = some p) :
    ((marinade rt).startingFrom I).Run w p.1 p.2 :=
  (run_of_replay h).mono fun _ _ _ hs ↦ hs

/-- A replay in which every step was checked is a run of the restricted system. -/
theorem restrict_run_of_replay {rt : Runtime} {allowed : World → Label → Bool}
    {C : World → Label → Prop} (hC : ∀ w l, allowed w l = true → C w l) {S : System World Label}
    (hS : S.step = Step rt) {w : World} {actions : List Action} {p : List Label × World}
    (h : replay rt allowed w actions = some p) : (S.restrict C).Run w p.1 p.2 :=
  System.Run.replay (S := S.restrict C)
    (fun _ _ _ _ hp ha ↦ ⟨hS ▸ Action.step_of_perform hp, hC _ _ ha⟩) .nil h

/-- An instruction that is computed to succeed is a step. -/
theorem step_of_isSome {rt : Runtime} {w : World} {i : Instruction} {e : Event}
    (h : (exec rt w i).toOption.isSome = true) (he : ((exec rt w i).toOption.get h).2 = e) :
    Step rt w (.instruction i e) ((exec rt w i).toOption.get h).1 := by
  rw [Step, ← he]
  exact eq_ok_get h

/-! ## A small pool -/

namespace Sample

/-- Rent as on the main network; deactivated stake has cooled down one epoch later. -/
def runtime : Runtime where
  minimumBalance dataLen := (128 + dataLen) * 6960
  minimumBalance_pos dataLen := by omega
  lastSlotInEpoch epoch := (epoch + 1) * 432000 - 1
  effectiveStake d epoch := if epoch ≤ d.deactivationEpoch then d.stake else 0
  minimumDelegation := 1
  minimumDelegation_pos := Nat.one_pos
  mergeable d d' epoch := decide (d.activationEpoch = epoch) == decide (d'.activationEpoch = epoch)
  mergeDelegatesRent d d' epoch :=
    decide (d.activationEpoch = epoch) && decide (d'.activationEpoch = epoch)

/-- The user, who also is the admin and the manager. -/
def user : Pubkey := .external 1

def operationalSolAccount : Pubkey := .external 2

/-- Somebody the user lets spend the tokens in the treasury. -/
def delegate : Pubkey := .external 3

def treasury : Pubkey := .external 10

def msolAccount : Pubkey := .external 11

def lpAccount : Pubkey := .external 12

def vote : Pubkey := .external 20

def clock (slot epoch : ℕ) (h : epoch < epochMax) : Clock where
  slot := slot
  epoch := epoch
  epochStartTimestamp := 0
  unixTimestamp := 3600
  epoch_lt := h

/-- The first slot of an epoch. -/
def startOf (epoch : ℕ) : Clock :=
  clock (epoch * 432000) (epoch % epochMax) (Nat.mod_lt _ (by decide))

/-- Accounts the user has prepared for tickets. -/
def ticketAccounts : List Pubkey := [.external 40, .external 41, .external 42]

/-- The chain before the pool exists. -/
def chain : Chain where
  clock := startOf 1
  lamports := ticketAccounts.foldl (fun ledger k ↦ ledger.mint k runtime.ticketRent)
    (((default : Ledger Pubkey).mint user 1000000000000).mint .reserve
      runtime.tokenAccountRent |>.mint .solLeg runtime.tokenAccountRent)
  msol :=
    { ledger := default
      holder := fun k ↦
        if k = .msolLeg then some ⟨.msolLegAuthority, none, 0⟩
        else if k = treasury then some ⟨user, some delegate, u64Max⟩
        else if k = msolAccount then some ⟨user, none, 0⟩
        else none
      vault_holder := by
        intro k owner h
        cases k <;> cases h
        rfl }
  lp :=
    { ledger := default
      holder := fun k ↦ if k = lpAccount then some ⟨user, none, 0⟩ else none
      vault_holder := nofun }
  stakes := fun _ ↦ none
  tickets := ∅
  flags := fun _ ↦ false

def creation : Except Error World :=
  Initialize.process runtime
    { operationalSolAccount, treasuryMsolAccount := treasury, stakeListLen := 1008,
      validatorListLen := 1008 }
    { adminAuthority := user, validatorManagerAuthority := user, minStake := 10000000,
      rewardsFee := ⟨0⟩,
      liqPool := ⟨50000000000, ⟨300⟩, ⟨30⟩, ⟨2500⟩⟩
      additionalStakeRecordSpace := 0, additionalValidatorRecordSpace := 0
      slotsForStakeDelta := 432000, pauseAuthority := user } chain

theorem newChain : NewChain runtime chain where
  capital_le := by decide
  flags_eq _ := rfl
  no_tickets k ticket h := by
    cases h.1
  stakes_sound k account h := by
    cases h

/-- The pool right after its initialization. -/
def fresh : World :=
  creation.toOption.get (by decide +kernel)

theorem fresh_fresh : Fresh runtime fresh :=
  ⟨_, _, chain, newChain, eq_ok_get _⟩

/-- The validator is listed, the user buys mSOL, the reserve is staked, and rewards are booked. -/
def staking : List Action := [
  .run (.addValidator ⟨user, vote, .duplicationFlag vote, user⟩ 100),
  .run (.deposit ⟨user, treasury⟩ 40000000),
  .run (.stakeReserve ⟨vote, .external 30, user⟩ 0),
  .reward (.external 30) 20000000,
  .run (.updateActive ⟨.external 30⟩ 0 0)]

/-- There is a validator to stake to, and lamports to stake. -/
def supplied : List Label × World :=
  (replay runtime (fun _ _ ↦ true) fresh (staking.take 2)).get (by decide +kernel)

theorem supplied_reachable : (marinade runtime).Reachable supplied.2 :=
  (run_of_replay (Option.some_get _).symm).reachable fresh_fresh

def staked : List Label × World :=
  (replay runtime (fun _ _ ↦ true) fresh staking).get (by decide +kernel)

theorem staked_run : (marinade runtime).Run fresh staked.1 staked.2 :=
  run_of_replay (Option.some_get _).symm

theorem staked_reachable : (marinade runtime).Reachable staked.2 :=
  staked_run.reachable fresh_fresh

/-- The user buys mSOL, orders a delayed unstake and claims the ticket two epochs later. -/
def claiming : List Action := [
  .run (.deposit ⟨user, msolAccount⟩ 40000000),
  .run (.orderUnstake ⟨msolAccount, user, .external 40⟩ 7000000),
  .tick (startOf 3),
  .run (.claim ⟨.external 40, user⟩)]

def claimed : List Label × World :=
  (replay runtime (fun _ _ ↦ true) fresh claiming).get (by decide +kernel)

theorem claimed_run : (marinade runtime).Run fresh claimed.1 claimed.2 :=
  run_of_replay (Option.some_get _).symm

end Sample

end Marinade
