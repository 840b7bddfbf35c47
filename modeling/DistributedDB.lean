import DistributedDB.ConcurrentJoins
import DistributedDB.ExecutionOwner
import DistributedDB.GracefulShutdown
import DistributedDB.JoinReplication
import DistributedDB.LeaveReplication
import DistributedDB.Membership
import DistributedDB.ControlSockets
import DistributedDB.ReplyMatching
import DistributedDB.CircularWaits
import DistributedDB.SharedBuffer
import DistributedDB.Disconnect
import DistributedDB.ConnectionHandles
import DistributedDB.Databases
import DistributedDB.OpenedDatabases
import DistributedDB.EndToEnd
import DistributedDB.Framing
import DistributedDB.FileTransfer
import DistributedDB.Refresh
import DistributedDB.MasterLoop
import DistributedDB.Divisors
import DistributedDB.ConnectionReferences
import DistributedDB.ClipFailure
import DistributedDB.Reopen
import DistributedDB.ConnectionRecords
import DistributedDB.Library.FileStore
import DistributedDB.StaleHandles
import DistributedDB.CircularQueue
import DistributedDB.QueueAssertions
import DistributedDB.SplitMerge
import DistributedDB.TableNeutrality
import DistributedDB.PacketRoundTrip
import DistributedDB.WorkerReplies
import DistributedDB.Balance
import DistributedDB.Library.InputLoop
import DistributedDB.TransferTermination
import DistributedDB.Library.Regex
import DistributedDB.ParseInput
import DistributedDB.SetCommand
import DistributedDB.CommandLines
import DistributedDB.KeyCommands
import DistributedDB.OpenCommand
import DistributedDB.ClientSession
import DistributedDB.NameBuffers
import DistributedDB.Load
import DistributedDB.RedoLoop
import DistributedDB.Durability
import DistributedDB.Linearizable
import DistributedDB.RepeatedRequests
import DistributedDB.ListPackets
import DistributedDB.ControlTermination
import DistributedDB.ControlRefinement
import DistributedDB.TypedSession
import DistributedDB.CloudNodes
import DistributedDB.ClientDescriptors
import DistributedDB.ControlErrno
