import Tftp.Lib.Prog
import Tftp.Lib.Serial
import Tftp.Lib.Blocks
import Tftp.Wire
import Tftp.Options
import Tftp.AdaptiveTimeout
import Tftp.Server.World
import Tftp.Server.AcceptLoop
import Tftp.Server.WorkerPool
import Tftp.Server.Session
import Tftp.Server.Run
import Tftp.Server.Rules
import Tftp.Server.Control
import Tftp.Server.Accounting
import Tftp.Server.Ring
import Tftp.Server.Start
import Tftp.Server.Progress
import Tftp.Server.Window
import Tftp.Server.Trace
import Tftp.Server.Failures
import Tftp.Server.Packets
import Tftp.Server.Retransmit
import Tftp.Server.Timers
import Tftp.Server.Closing
import Tftp.Server.Settings
import Tftp.Server.Transfer
import Tftp.Server.Stream
import Tftp.Server.Reassembly
import Tftp.Lib.Ownership
import Tftp.Server.Descriptors
import Tftp.Server.OutputFile
import Tftp.Client.Request
import Tftp.Client.Process
import Tftp.Client.OptionAck
import Tftp.Client.Consent
import Tftp.Client.Reads
import Tftp.Client.Settings
import Tftp.Client.Parameters
import Tftp.OptionStrings
import Tftp.Lib.Accesses
import Tftp.OptionReads
import Tftp.OptionValues
import Tftp.Server.Negotiation
import Tftp.Server.Validation
import Tftp.RequestPacket
import Tftp.Server.BlockSize
import Tftp.Netascii
import Tftp.Server.Encoding
import Tftp.Server.Tally
import Tftp.Server.BytesSent
import Tftp.Client.Unacknowledged
import Tftp.Lib.Paths
import Tftp.Server.FilePath
import Tftp.OptionFormat
import Tftp.FormattedOptions
import Tftp.Lib.Checked
import Tftp.PacketCodec
import Tftp.Lib.Runs
import Tftp.Server.Dispatcher
import Tftp.Server.Shutdown
import Tftp.Server.Storage
import Tftp.Server.Retries
import Tftp.Client.Retries
import Tftp.RetryBound
import Tftp.Lib.Transmissions
import Tftp.RoundTrips
import Tftp.Server.RoundTrips
import Tftp.Client.RoundTrips
import Tftp.KarnRule
import Tftp.Client.Silence
import Tftp.WriteTransfer
import Tftp.FileSize
import Tftp.Server.AnnouncedSize
import Tftp.Server.Slots
import Tftp.Server.LongFile
import Tftp.Lib.OpenFiles
import Tftp.Server.SharedFiles
import Tftp.Client.Duplicates
import Tftp.Duplicates
import Tftp.Client.ReceivedFile
