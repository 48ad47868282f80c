import HorsieActor.Verified.Schedule
import HorsieActor.Verified.Progress
import HorsieActor.Verified.Task
import HorsieActor.Verified.OrdMap
import HorsieActor.Verified.Watch
import HorsieActor.Verified.Channel
import HorsieActor.Verified.BigEndian
import HorsieActor.Verified.Codec
import HorsieActor.Verified.FileSystem
import HorsieActor.Verified.Folders
import HorsieActor.Verified.Framing
import HorsieActor.Verified.Ranking
import HorsieActor.Verified.Slots
import HorsieActor.Verified.Token
import HorsieActor.Verified.Delimited
import HorsieActor.Ports.Journal
import HorsieActor.Ports.JournalNumbering
import HorsieActor.Ports.PersistentLog
import HorsieActor.Ports.PersistentAcks
import HorsieActor.Ports.PersistentFence
import HorsieActor.Ports.PersistentRecovery
import HorsieActor.Ports.PersistentHistory
import HorsieActor.Ports.PersistentSuperseded
import HorsieActor.Ports.FailedForward
import HorsieActor.Ports.RefusedCommand
import HorsieActor.Ports.PathText
import HorsieActor.Ports.ScoreBytes
import HorsieActor.Ports.Rendezvous
import HorsieActor.Ports.DedupWindow
import HorsieActor.Ports.DispatchRepeats
import HorsieActor.Ports.AskRows
import HorsieActor.Ports.ReplyHandle
import HorsieActor.Ports.OneReply
import HorsieActor.Ports.Net
import HorsieActor.Ports.NetSystem
import HorsieActor.Ports.MessageIds
import HorsieActor.Ports.Correlations
import HorsieActor.Ports.Lifecycle
import HorsieActor.Ports.Hosting
import HorsieActor.Ports.Guardian
import HorsieActor.Ports.QuietSubtree
import HorsieActor.Ports.Tell
import HorsieActor.Ports.OneInstance
import HorsieActor.Ports.PendingStops
import HorsieActor.Ports.Leftovers
import HorsieActor.Ports.Sweep
import HorsieActor.Ports.StandDown
import HorsieActor.Ports.RaftStore
import HorsieActor.Ports.RaftReplay
import HorsieActor.Ports.RaftFiles
import HorsieActor.Ports.RaftFaults
import HorsieActor.Ports.RaftSnapshots
import HorsieActor.Ports.WatchCluster
import HorsieActor.Ports.RegistryRows
import HorsieActor.Ports.TcpPeer
import HorsieActor.Ports.TcpWholeFrames
import HorsieActor.Ports.TcpParkedRpc
import HorsieActor.Ports.TcpRequests
import HorsieActor.Ports.TcpRpc
import HorsieActor.Ports.FrameRoundTrip
import HorsieActor.Ports.RefusedRegistration
import HorsieActor.Ports.WaitingTable
import HorsieActor.Ports.RaftLog
import HorsieActor.Ports.SweepRows
import HorsieActor.Ports.StopsReturn
import HorsieActor.Ports.ServeLoop
import HorsieActor.Ports.Handshake
import HorsieActor.Ports.AcceptLoop
import HorsieActor.Ports.Consensus
import HorsieActor.Ports.Deliveries
import HorsieActor.Ports.Agreement
import HorsieActor.Ports.InProcess
import HorsieActor.Ports.InProcessCalls
import HorsieActor.Ports.RoundTrip
import HorsieActor.Ports.InProcessCuts
