import Marinade.Protocol

/-!
# Who signs

An instruction names the accounts that must have signed the transaction: the authorities it checks,
whoever pays, and every account that is created. A ticket account is created before the program is
called, by a signature for its address, so it is listed as well.

Nobody signs for the addresses of the program. What it takes from its own accounts it takes by
itself, and everything else needs a signature.
-/

open Foundation Foundation.Ledger

namespace Marinade

/-- The accounts that sign for an instruction. -/
def Instruction.signers : Instruction → List Pubkey
  | .changeAuthority adminAuthority _ => [adminAuthority]
  | .addValidator accounts _ => [accounts.managerAuthority, accounts.rentPayer]
  | .removeValidator accounts _ _ => [accounts.managerAuthority]
  | .setValidatorScore accounts _ _ _ => [accounts.managerAuthority]
  | .configValidatorSystem managerAuthority _ => [managerAuthority]
  | .deposit accounts _ => [accounts.transferFrom]
  | .depositStakeAccount accounts _ => [accounts.stakeAuthority]
  | .liquidUnstake accounts _ => [accounts.getMsolFromAuthority]
  | .addLiquidity accounts _ => [accounts.transferFrom]
  | .removeLiquidity accounts _ => [accounts.burnFromAuthority]
  | .configLp adminAuthority _ => [adminAuthority]
  | .configMarinade adminAuthority _ => [adminAuthority]
  | .orderUnstake accounts _ => [accounts.burnMsolAuthority, accounts.newTicketAccount]
  | .stakeReserve accounts _ => [accounts.rentPayer, accounts.stakeAccount]
  | .deactivateStake accounts _ _ =>
    [accounts.splitStakeRentPayer, accounts.splitStakeAccount]
  | .emergencyUnstake accounts _ _ => [accounts.validatorManagerAuthority]
  | .partialUnstake accounts _ _ _ =>
    [accounts.validatorManagerAuthority, accounts.splitStakeRentPayer,
      accounts.splitStakeAccount]
  | .pause pauseAuthority => [pauseAuthority]
  | .resume pauseAuthority => [pauseAuthority]
  | .withdrawStakeAccount accounts _ _ _ _ =>
    [accounts.burnMsolAuthority, accounts.splitStakeRentPayer, accounts.splitStakeAccount]
  | .reallocValidatorList accounts _ => [accounts.adminAuthority, accounts.rentFunds]
  | .reallocStakeList accounts _ => [accounts.adminAuthority, accounts.rentFunds]
  -- anybody may call these
  | .claim _ | .updateActive .. | .updateDeactivated .. | .mergeStakes ..
  | .createCanonicalStake .. | .finalizeDelinquentUpgrade _ => []

end Marinade
