import RDrive.Lib.Path
import RDrive.Lib.Runs
import RDrive.Lib.RwLock
import RDrive.Lib.Outcome
import RDrive.Lib.Aead
import RDrive.Lib.Postcard
import RDrive.Lib.Hex
import RDrive.Crypto
import RDrive.Header
import RDrive.Frame
import RDrive.FrameStream
import RDrive.FileLock
import RDrive.LockTable
import RDrive.LockViews
import RDrive.Lib.Unwinding
import RDrive.Lib.Duplex
import RDrive.Lib.Wire
import RDrive.Host
import RDrive.Session
import RDrive.AuthKeys
import RDrive.Connection
import RDrive.Handshake
import RDrive.Stream
import RDrive.RoundTrip
import RDrive.Overwrite
import RDrive.Downloads
import RDrive.Replay
import RDrive.Whitelist
import RDrive.Trust
import RDrive.Agreement
import RDrive.Chunks
import RDrive.Clients
import RDrive.Responses
import RDrive.Serving
import RDrive.Integrity
import RDrive.Aborts
import RDrive.Lib.Crew
import RDrive.Buffers
import RDrive.Layers
import RDrive.LayerReaders
import RDrive.LayerDelta
import RDrive.RateLimit
import RDrive.RateLimitQuiet
import RDrive.Catalog
import RDrive.SharedCatalog
import RDrive.ConnectionLimit
import RDrive.AuthTrees
import RDrive.Rotation
import RDrive.Slots
import RDrive.Acceptance
import RDrive.Framing
import RDrive.Greeting
import RDrive.AuthBodies
import RDrive.Leftovers
import RDrive.Authenticity
import RDrive.Challenges
import RDrive.NewKeys
import RDrive.OutputPath
import RDrive.Statistics
import RDrive.Relocation
import RDrive.FrameDecoder
import RDrive.ResponseLimits
import RDrive.Tenants
import RDrive.Lib.Lossy
import RDrive.KeyFiles
import RDrive.Renames
import RDrive.Lockout
import RDrive.Tapped
import RDrive.Reflection
import RDrive.Lib.Authors
import RDrive.Lib.Guild
import RDrive.Durability
import RDrive.Doings
import RDrive.Authorised
import RDrive.Untampered
import RDrive.Identity
import RDrive.Lib.Window
import RDrive.EchoPerf
import RDrive.Lib.Object
import RDrive.Depot
import RDrive.DepotDisk
import RDrive.DepotServed
import RDrive.CatalogServed
