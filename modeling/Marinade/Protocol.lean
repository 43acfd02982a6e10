import Marinade.Foundation.System
import Marinade.Instructions.Admin.Config
import Marinade.Instructions.Admin.Initialize
import Marinade.Instructions.Crank.CreateCanonicalStake
import Marinade.Instructions.Crank.DeactivateStake
import Marinade.Instructions.Crank.FinalizeDelinquentUpgrade
import Marinade.Instructions.Crank.UpdateActive
import Marinade.Instructions.Crank.UpdateDeactivated
import Marinade.Instructions.DelayedUnstake.Claim
import Marinade.Instructions.DelayedUnstake.OrderUnstake
import Marinade.Instructions.LiqPool.AddLiquidity
import Marinade.Instructions.LiqPool.LiquidUnstake
import Marinade.Instructions.LiqPool.RemoveLiquidity
import Marinade.Instructions.Management.EmergencyUnstake
import Marinade.Instructions.Management.PartialUnstake
import Marinade.Instructions.Management.Validators
import Marinade.Instructions.User.Deposit
import Marinade.Instructions.User.DepositStakeAccount
import Marinade.Instructions.User.WithdrawStakeAccount

/-!
# The program and its surroundings

One pool lives on the chain together with everybody else. A step is an instruction of the program,
which runs to the end or leaves no trace, or something that happens without it: time passes, others
use their own accounts, the network pays rewards and slashes, and anybody deactivates a stake
account whose validator is delinquent.

What others can do is bounded by signatures. They cannot sign for the addresses of the program, so
lamports only flow into those, stake accounts under its authorities stay what they are, its tickets
stay where they are, and no mSOL and no LP tokens are minted; but of their own tokens they may burn
as many as they like.
-/

open Foundation Foundation.Ledger

namespace Marinade

/-! ## Instructions -/

/-- A call of the program, with its accounts and arguments. -/
inductive Instruction
  | changeAuthority (adminAuthority : Pubkey) (data : ChangeAuthorityData)
  | addValidator (accounts : AddValidator) (score : ℕ)
  | removeValidator (accounts : RemoveValidator) (index : ℕ) (validatorVote : Pubkey)
  | setValidatorScore (accounts : SetValidatorScore) (index : ℕ) (validatorVote : Pubkey)
      (score : ℕ)
  | configValidatorSystem (managerAuthority : Pubkey) (extraRuns : ℕ)
  | deposit (accounts : Deposit) (lamports : ℕ)
  | depositStakeAccount (accounts : DepositStakeAccount) (validatorIndex : ℕ)
  | liquidUnstake (accounts : LiquidUnstake) (msolAmount : ℕ)
  | addLiquidity (accounts : AddLiquidity) (lamports : ℕ)
  | removeLiquidity (accounts : RemoveLiquidity) (tokens : ℕ)
  | configLp (adminAuthority : Pubkey) (params : ConfigLpParams)
  | configMarinade (adminAuthority : Pubkey) (params : ConfigMarinadeParams)
  | orderUnstake (accounts : OrderUnstake) (msolAmount : ℕ)
  | claim (accounts : Claim)
  | stakeReserve (accounts : StakeReserve) (validatorIndex : ℕ)
  | updateActive (accounts : UpdateCommon) (stakeIndex validatorIndex : ℕ)
  | updateDeactivated (accounts : UpdateDeactivated) (stakeIndex validatorIndex : ℕ)
  | deactivateStake (accounts : DeactivateStake) (stakeIndex validatorIndex : ℕ)
  | emergencyUnstake (accounts : EmergencyUnstake) (stakeIndex validatorIndex : ℕ)
  | partialUnstake (accounts : PartialUnstake)
      (stakeIndex validatorIndex desiredUnstakeAmount : ℕ)
  | mergeStakes (accounts : MergeStakes)
      (canonicalStakeIndex sourceStakeIndex validatorIndex : ℕ)
  | createCanonicalStake (accounts : CreateCanonicalStake) (sourceStakeIndex validatorIndex : ℕ)
  | finalizeDelinquentUpgrade (maxValidators : ℕ)
  | pause (pauseAuthority : Pubkey)
  | resume (pauseAuthority : Pubkey)
  | withdrawStakeAccount (accounts : WithdrawStakeAccount)
      (stakeIndex validatorIndex msolAmount : ℕ) (beneficiary : Pubkey)
  | reallocValidatorList (accounts : ReallocList) (capacity : ℕ)
  | reallocStakeList (accounts : ReallocList) (capacity : ℕ)
  deriving DecidableEq, Repr

/-- What an instruction reports. -/
inductive Event
  | deposit (e : DepositEvent)
  | depositStakeAccount (e : DepositStakeAccountEvent)
  | withdrawStakeAccount (e : WithdrawStakeAccountEvent)
  | orderUnstake (e : OrderUnstakeEvent)
  | claim (e : ClaimEvent)
  | liquidUnstake (e : LiquidUnstakeEvent)
  | addLiquidity (e : AddLiquidityEvent)
  | removeLiquidity (e : RemoveLiquidityEvent)
  | stakeReserve (e : StakeReserveEvent)
  | deactivateStake (e : DeactivateStakeEvent)
  | mergeStakes (e : MergeStakesEvent)
  | silent
  deriving DecidableEq, Repr

/-- A call that reports something. -/
def reporting {α : Type} (event : α → Event) (x : Except Error (World × α)) :
    Except Error (World × Event) := do
  let r ← x
  return (r.1, event r.2)

/-- A call that reports nothing of interest. -/
def silently (x : Except Error World) : Except Error (World × Event) := do
  let w ← x
  return (w, .silent)

/-- A call that only touches the state account. -/
def onState (w : World) (f : State → Except Error State) : Except Error (World × Event) := do
  let state ← f w.state
  return ({ w with state }, .silent)

/-- Run an instruction. -/
def exec (rt : Runtime) (w : World) : Instruction → Except Error (World × Event)
  | .changeAuthority admin data => onState w (ChangeAuthority.process admin data)
  | .addValidator accounts score => silently (accounts.process rt score w)
  | .removeValidator accounts index vote => silently (accounts.process rt index vote w)
  | .setValidatorScore accounts index vote score =>
    silently (accounts.process index vote score w)
  | .configValidatorSystem manager extraRuns =>
    onState w (ConfigValidatorSystem.process manager extraRuns)
  | .deposit accounts lamports => reporting .deposit (accounts.process lamports w)
  | .depositStakeAccount accounts j => reporting .depositStakeAccount (accounts.process j w)
  | .liquidUnstake accounts msol => reporting .liquidUnstake (accounts.process msol w)
  | .addLiquidity accounts lamports => reporting .addLiquidity (accounts.process lamports w)
  | .removeLiquidity accounts tokens => reporting .removeLiquidity (accounts.process tokens w)
  | .configLp admin params => onState w (ConfigLp.process admin params)
  | .configMarinade admin params => onState w (ConfigMarinade.process admin params)
  | .orderUnstake accounts msol => reporting .orderUnstake (accounts.process rt msol w)
  | .claim accounts => reporting .claim (accounts.process w)
  | .stakeReserve accounts j => reporting .stakeReserve (accounts.process rt j w)
  | .updateActive accounts i j => silently (UpdateActive.process rt accounts i j w)
  | .updateDeactivated accounts i j => silently (UpdateDeactivated.process rt accounts i j w)
  | .deactivateStake accounts i j => reporting .deactivateStake (accounts.process rt i j w)
  | .emergencyUnstake accounts i j => silently (accounts.process i j w)
  | .partialUnstake accounts i j desired => silently (accounts.process rt i j desired w)
  | .mergeStakes accounts i i' j => reporting .mergeStakes (accounts.process rt i i' j w)
  | .createCanonicalStake accounts i j => silently (accounts.process rt i j w)
  | .finalizeDelinquentUpgrade n => onState w (FinalizeDelinquentUpgrade.process n)
  | .pause authority => onState w (EmergencyPause.pause authority)
  | .resume authority => onState w (EmergencyPause.resume authority)
  | .withdrawStakeAccount accounts i j msol beneficiary =>
    reporting .withdrawStakeAccount (accounts.process rt i j msol beneficiary w)
  | .reallocValidatorList accounts capacity =>
    silently (ReallocValidatorList.process rt accounts capacity w)
  | .reallocStakeList accounts capacity =>
    silently (ReallocStakeList.process rt accounts capacity w)

/-! ## What happens without the program -/

/-- A stake account under the program's authorities. -/
def Chain.Managed (c : Chain) (k : Pubkey) : Prop :=
  ∃ account, c.stakes k = some account ∧
    account.stakeMeta.staker = .stakeDepositAuthority ∧
    account.stakeMeta.withdrawer = .stakeWithdrawAuthority

/-- A ticket of this pool. -/
def Chain.OwnTicket (c : Chain) (k : Pubkey) (ticket : TicketAccountData) : Prop :=
  c.tickets.lookup k = some ticket ∧ ticket.stateAddress = .state

/-- What the stake program keeps true of an account at `k` with so many lamports: it holds its rent
and its delegation. The only accounts at a derived address are those this program puts there. -/
structure StakeAccount.Sound (rt : Runtime) (k : Pubkey) (lamports : ℕ)
    (account : StakeAccount) : Prop where
  place : k.holdsStake = true
  rent_eq : account.stakeMeta.rentExemptReserve = rt.stakeRent
  funded : ∀ d, account.delegation = some d → d.stake + rt.stakeRent ≤ lamports

/-- All stake accounts are sound. -/
def Chain.StakesSound (rt : Runtime) (c : Chain) : Prop :=
  ∀ k account, c.stakes k = some account → account.Sound rt k (c.lamportsOf k)

/-- Things that happen without the program. -/
inductive External
  | tick
  | outside
  | reward (stakeAccount : Pubkey) (lamports : ℕ)
  | slash (stakeAccount : Pubkey) (lamports stakeLeft : ℕ)
  | deactivateDelinquent (stakeAccount : Pubkey)
  deriving DecidableEq, Repr

/-- Others use their own accounts, and may send lamports and tokens to any account. -/
structure Outside (rt : Runtime) (c c' : Chain) : Prop where
  clock_eq : c'.clock = c.clock
  flags_eq : c'.flags = c.flags
  capital_le : c'.lamports.total ≤ u64Max
  lamports_le : ∀ k, k.canSign = false ∨ c.Managed k → c.lamportsOf k ≤ c'.lamportsOf k
  msol_supply_le : c'.msol.supply ≤ c.msol.supply
  msol_leg_le : c.msol.amount .msolLeg ≤ c'.msol.amount .msolLeg
  lp_supply_le : c'.lp.supply ≤ c.lp.supply
  stakes_eq : ∀ k, k.canSign = false ∨ c.Managed k → c'.stakes k = c.stakes k
  stakes_sound : c'.StakesSound rt
  tickets_iff : ∀ k ticket, c'.OwnTicket k ticket ↔ c.OwnTicket k ticket
  -- an account has one owner
  tickets_owner : ∀ k ticket, c.OwnTicket k ticket → c'.stakes k = none

/-- What an external event does to the chain. -/
def External.Happens (rt : Runtime) (c c' : Chain) : External → Prop
  | tick => ∃ clock, c.clock.slot ≤ clock.slot ∧ c.clock.epoch ≤ clock.epoch ∧
      c' = { c with clock }
  | outside => Outside rt c c'
  | reward k x => ∃ account d, c.stakes k = some account ∧ account.delegation = some d ∧
      c.lamports.total + x ≤ u64Max ∧
      c' = { c with
        lamports := c.lamports.mint k x
        stakes := Function.update c.stakes k (some { account with
          delegation := some { d with stake := d.stake + x } }) }
  -- what is taken away goes to an address nobody holds
  | slash k x stakeLeft => ∃ account d ledger, c.stakes k = some account ∧
      account.delegation = some d ∧ stakeLeft ≤ d.stake ∧
      c.lamports.transfer k .incinerator x = some ledger ∧
      stakeLeft + account.stakeMeta.rentExemptReserve ≤ ledger.balance k ∧
      c' = { c with
        lamports := ledger
        stakes := Function.update c.stakes k (some { account with
          delegation := some { d with stake := stakeLeft } }) }
  | deactivateDelinquent k => ∃ account d, c.stakes k = some account ∧
      account.delegation = some d ∧ d.deactivationEpoch = epochMax ∧
      c' = { c with
        stakes := Function.update c.stakes k (some { account with
          delegation := some { d with deactivationEpoch := c.clock.epoch } }) }

/-! ## Runs -/

/-- What a step was. -/
inductive Label
  | instruction (i : Instruction) (e : Event)
  | external (x : External)
  deriving DecidableEq, Repr

/-- One step: an instruction that succeeds, or an external event. An instruction that stops leaves
the world as it is and is no step. -/
def Step (rt : Runtime) (w : World) (l : Label) (w' : World) : Prop :=
  match l with
  | .instruction i e => exec rt w i = .ok (w', e)
  | .external x => x.Happens rt w.toChain w'.toChain ∧ w'.state = w.state

/-- The chain before a pool exists: nothing belongs to it yet. -/
structure NewChain (rt : Runtime) (c : Chain) : Prop where
  capital_le : c.lamports.total ≤ u64Max
  flags_eq : ∀ vote, c.flags vote = false
  no_tickets : ∀ k ticket, ¬c.OwnTicket k ticket
  stakes_sound : c.StakesSound rt

/-- A world in which the pool has just been initialized. -/
def Fresh (rt : Runtime) (w : World) : Prop :=
  ∃ accounts data c, NewChain rt c ∧ Initialize.process rt accounts data c = .ok w

/-- The program from its initialization on. -/
def marinade (rt : Runtime) : System World Label where
  init := Fresh rt
  step := Step rt

end Marinade
