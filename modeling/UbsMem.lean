import UbsMem.MsgCodec
import UbsMem.ShmCreate
import UbsMem.ShmPermission
import UbsMem.StoreRestart
import UbsMem.StoreCrash
import UbsMem.LinkManager
import UbsMem.RackMemLib
import UbsMem.SuspendRounds
import UbsMem.LockTable
import UbsMem.DLockClients
import UbsMem.Services
import UbsMem.VotingOnly
import UbsMem.RegionRecovery
import UbsMem.OwnershipRanges
import UbsMem.DLockReinit
import UbsMem.DelayQueue
import UbsMem.MasterQuorum
import UbsMem.LockClientNode
import UbsMem.ShmMapFailure
import UbsMem.ShmMetaRuns
import UbsMem.PoolAllocator
import UbsMem.LeaseServe
import UbsMem.LeaseCacheDrop
import UbsMem.RegionGraph
import UbsMem.RegionListing
import UbsMem.JoinExchange
import UbsMem.MapUndo
import UbsMem.LogRotation
import UbsMem.NodeIdentity
import UbsMem.MapSizes
