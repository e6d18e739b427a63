import Synvoid.Framework.Transition
import Synvoid.Framework.Threads
import Synvoid.Framework.Slice
import Synvoid.Framework.Table
import Synvoid.Framework.KeyedTable
import Synvoid.Framework.LastWriter
import Synvoid.Framework.HashTree
import Synvoid.Framework.SqlTable
import Synvoid.Framework.ByteReader
import Synvoid.Framework.BigEndian
import Synvoid.Framework.ByteSource
import Synvoid.Framework.Postcard
import Synvoid.Framework.NearestSelection
import Synvoid.Framework.Quorum
import Synvoid.Framework.Rewrite
import Synvoid.Framework.Checked
import Synvoid.Framework.RustStr
import Synvoid.Framework.ValidUtf8
import Synvoid.Framework.DnsName
import Synvoid.Framework.IpAddr
import Synvoid.Framework.FifoCache
import Synvoid.Framework.Recency
import Synvoid.Framework.Region
import Synvoid.Framework.Parts
import Synvoid.Framework.Glob
import Synvoid.Framework.Tournament
import Synvoid.Framework.Counters
import Synvoid.Framework.BitOrder
import Synvoid.RateLimit.SlidingWindow
import Synvoid.RateLimit.Interleaving
import Synvoid.Waf.Streaming
import Synvoid.Waf.RegularCoverage
import Synvoid.Waf.MultipartCoverage
import Synvoid.Waf.Normalizer
import Synvoid.Waf.Escapes
import Synvoid.Waf.PercentDecoding
import Synvoid.Waf.Folding
import Synvoid.Waf.NestedEscapes
import Synvoid.Waf.ViolationTracker
import Synvoid.Waf.SynFlood
import Synvoid.Dns.TrustAnchor
import Synvoid.Dns.TrustEarned
import Synvoid.Dns.TrustLifecycle
import Synvoid.Dns.Promotion
import Synvoid.Dns.Edns
import Synvoid.Dns.EdnsBounds
import Synvoid.Dns.ResponseEncoder
import Synvoid.Dns.OptRecord
import Synvoid.Dns.RdataLength
import Synvoid.Dns.CacheInvalidation
import Synvoid.Dns.CanonicalRdata
import Synvoid.Dns.WellFormedRr
import Synvoid.Dns.Tsig
import Synvoid.Dns.TsigReplay
import Synvoid.Dns.TsigRoundTrip
import Synvoid.Dns.ParsedQuery
import Synvoid.Dns.QuestionName
import Synvoid.Dns.Update
import Synvoid.Dns.UpdateBounds
import Synvoid.Dns.UpdateRecords
import Synvoid.Dns.ZoneUpdate
import Synvoid.Dns.ZoneVersions
import Synvoid.Dns.AxfrWire
import Synvoid.Dns.IxfrWire
import Synvoid.Dns.SerialAdvance
import Synvoid.Dns.ShardedStore
import Synvoid.Dns.ResponseTtl
import Synvoid.Dns.RequiredTsig
import Synvoid.Dns.Denial
import Synvoid.Dns.KeyPublication
import Synvoid.Dns.AuthoritativeAnswer
import Synvoid.Dns.DnssecOkAnswer
import Synvoid.Dns.QueryCache
import Synvoid.Dns.EcsFilter
import Synvoid.Dns.ZoneTrie
import Synvoid.Dns.Compression
import Synvoid.Mesh.HybridSignature
import Synvoid.Mesh.HybridEnvelope
import Synvoid.Mesh.KeyBinding
import Synvoid.Mesh.DhtKey
import Synvoid.Mesh.DhtRecord
import Synvoid.Mesh.QuorumProof
import Synvoid.Mesh.RecordStore
import Synvoid.Mesh.Publication
import Synvoid.Mesh.DeltaSync
import Synvoid.Mesh.Convergence
import Synvoid.Mesh.EdgeCache
import Synvoid.Mesh.MerkleTree
import Synvoid.Mesh.MerkleProofs
import Synvoid.Mesh.AdvertisedRoot
import Synvoid.Mesh.Slashing
import Synvoid.Mesh.ReplayProtection
import Synvoid.Mesh.ResponseHead
import Synvoid.Mesh.ResponseSequence
import Synvoid.Mesh.ChunkedResponse
import Synvoid.Mesh.ChunkedMemory
import Synvoid.Mesh.AnnouncedSizes
import Synvoid.Mesh.RequestHead
import Synvoid.Mesh.StrictHead
import Synvoid.Http.HeaderMap
import Synvoid.Http.ClientIp
import Synvoid.Http.Framing
import Synvoid.Http.Grammar
import Synvoid.Raft.LogStorage
import Synvoid.Raft.Snapshot
import Synvoid.Raft.SnapshotSuffix
import Synvoid.Raft.ReplayCache
import Synvoid.Routing.NodeId
import Synvoid.Routing.BucketRefresh
import Synvoid.Routing.Table
import Synvoid.Routing.TableInvariant
import Synvoid.Routing.EvictionOrder
import Synvoid.Routing.FindClosest
import Synvoid.Routing.ClosestCache
import Synvoid.Routing.LookupQuery
import Synvoid.Tls.Fingerprint
import Synvoid.Ipc.Framing
import Synvoid.Ipc.Signed
import Synvoid.Ipc.NonceReplay
import Synvoid.Ipc.Truncation
import Synvoid.Ipc.TokenBucket
import Synvoid.Jail.Protocol
import Synvoid.Jail.Wire
import Synvoid.Jail.RequestFits
import Synvoid.Jail.Serve
import Synvoid.Jail.TextBounds
import Synvoid.Plugin.AbiFrame
import Synvoid.BlockStore.Ordering
import Synvoid.BlockStore.Store
import Synvoid.BlockStore.Convergence
import Synvoid.BlockStore.StaleEvents
import Synvoid.BlockStore.EntryPresence
import Synvoid.BlockStore.Snapshot
import Synvoid.BlockStore.SnapshotMerge
import Synvoid.BlockStore.Catchup
import Synvoid.BlockStore.Accounting
import Synvoid.TrafficShaper.ConnectionLimiter
import Synvoid.Upstream.Pool
import Synvoid.Upstream.Health
import Synvoid.Upstream.WeightedShares
import Synvoid.Upstream.SharedState
import Synvoid.ProxyCache.CacheKey
import Synvoid.Proxy.RequestPath
import Synvoid.Proxy.CleanPath
import Synvoid.Proxy.ForwardHeaders
import Synvoid.Serverless.GlobMatch
import Synvoid.Serverless.GlobRoutes
import Synvoid.ProxyCache.Store
import Synvoid.Upload.Validator
import Synvoid.Utils.BufferPool
import Synvoid.Tunnel.UdpManager
import Synvoid.Dns.Base32
import Synvoid.Tarpit.Admission
import Synvoid.Dns.QueryCoalescer
import Synvoid.Proxy.LocationMatcher
