import DropZone.Server.Answers
import DropZone.Server.Groups
import DropZone.Server.Reentry
import DropZone.Server.Backpressure
import DropZone.Handshake.Answering
import DropZone.Handshake.Pinning
import DropZone.Handshake.Transcripts
import DropZone.Wire.Messages
import DropZone.Transfer.EndToEnd
import DropZone.Transfer.Teardown
import DropZone.Server.Throttling
import DropZone.Server.HangUps
import DropZone.Server.Framing
import DropZone.Transfer.ChunkBuffers
import DropZone.Transfer.OfferSize
import DropZone.Transfer.Bounds
import DropZone.Transfer.Paths
import DropZone.Udp.Batch
import DropZone.Udp.OffPath
import DropZone.Udp.Punch
import DropZone.Udp.Window
import DropZone.Handshake.Authenticate
import DropZone.Transfer.Senders
import DropZone.Transfer.Barrier
import DropZone.Server.Wakeups
import DropZone.Wire.Gather
import DropZone.Server.Expiry
import DropZone.Server.Eviction
import DropZone.Udp.Congestion
import DropZone.Handshake.PeerLines
import DropZone.Setup.Config
import DropZone.Setup.Identity
