import ClusterFs.Kernel.Boot
import ClusterFs.Kernel.Dispatch
import ClusterFs.MemoryDisk
import ClusterFs.UserCalls
import ClusterFs.Proofs.Crash
import ClusterFs.Proofs.Parents
import ClusterFs.Proofs.Persistence
import ClusterFs.Proofs.Frame
import ClusterFs.Proofs.Mirror
import ClusterFs.Proofs.FreeClusters
import ClusterFs.Proofs.Halting
import ClusterFs.Proofs.DriveContract
import ClusterFs.Proofs.DriveMedium
import ClusterFs.Proofs.Deliveries
import ClusterFs.Proofs.UserLibrary
import ClusterFs.Proofs.Ledger
import ClusterFs.Proofs.Outages
import ClusterFs.Proofs.Undo
import ClusterFs.Proofs.Formatting
import ClusterFs.Proofs.Capacity
import ClusterFs.Proofs.ChainWalks
import ClusterFs.Proofs.Refusals
import ClusterFs.Proofs.Listing
import ClusterFs.Proofs.CheckedData
import ClusterFs.Proofs.CheckedRequests
import ClusterFs.Proofs.DriveTiming
import ClusterFs.Proofs.CallPointers
import ClusterFs.Proofs.CallMemory
import ClusterFs.Proofs.CallResults
import ClusterFs.Proofs.FreeSearch
import ClusterFs.Proofs.NameText
import ClusterFs.Proofs.SerialLines
