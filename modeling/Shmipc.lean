import Shmipc.Stream.EndOfStream
import Shmipc.V5.MpscFull
import Shmipc.V5.Wakeup
import Shmipc.V5.OwnershipSafety
import Shmipc.V5.BuddyComplete
import Shmipc.Session.V4OrderSafety
import Shmipc.Buffer.FreeListSafety
import Shmipc.Pool.Conservation
import Shmipc.Stream.FlushV4Safety
import Shmipc.Session.WakeupClaim
import Shmipc.Session.SocketDelivery
import Shmipc.Session.AcceptOnce
import Shmipc.Stream.Generation
import Shmipc.Queue.RingSafety
import Shmipc.Buffer.V5ReadSafety
import Shmipc.Pool.PeerMemory
import Shmipc.Pool.Registry
import Shmipc.Stream.CompactShutdown
import Shmipc.Pool.Recovered
import Shmipc.Session.FrameLength
import Shmipc.V5.FixedContract
import Shmipc.V5.RegionFree
import Shmipc.Session.V5FallbackFrames
import Shmipc.Pool.LinkedWrites
import Shmipc.V5.Geometry
import Shmipc.Util.BufReader
import Shmipc.V5.RegionIdle
import Shmipc.Session.ShmMetadata
import Shmipc.Session.Negotiation
import Shmipc.Buffer.V5ReadChunk
import Shmipc.Pool.ReadAvailable
import Shmipc.V5.DynShmLayout
