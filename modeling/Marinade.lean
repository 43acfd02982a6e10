import Marinade.Guarantees.Backing
import Marinade.Guarantees.Chunks
import Marinade.Guarantees.ClaimOrder
import Marinade.Guarantees.Crank
import Marinade.Guarantees.Deposit
import Marinade.Guarantees.EarlyExits
import Marinade.Guarantees.Indexes
import Marinade.Guarantees.Ledger
import Marinade.Guarantees.Lifecycle
import Marinade.Guarantees.LiquidUnstake
import Marinade.Guarantees.LiquidityPool
import Marinade.Guarantees.MinStake
import Marinade.Guarantees.MoveCap
import Marinade.Guarantees.Ownership
import Marinade.Guarantees.PackedList
import Marinade.Guarantees.PartialUnstake
import Marinade.Guarantees.Pause
import Marinade.Guarantees.Powers
import Marinade.Guarantees.Price
import Marinade.Guarantees.Rationing
import Marinade.Guarantees.RecordBytes
import Marinade.Guarantees.Records
import Marinade.Guarantees.Reserve
import Marinade.Guarantees.RoundTrip
import Marinade.Guarantees.Sleeping
import Marinade.Guarantees.Solvency
import Marinade.Guarantees.StakeDelta
import Marinade.Guarantees.Targets
import Marinade.Guarantees.UpdateOrder
import Marinade.Guarantees.Updates
import Marinade.Guarantees.Upgrade
import Marinade.Guarantees.Validators
import Marinade.Guarantees.Waiting
import Marinade.Guarantees.Wealth
import Marinade.Guarantees.Withdrawal
