import RdmaKv.Library.ByteMemory
import RdmaKv.Library.LinkedChain
import RdmaKv.Library.Heap
import RdmaKv.Library.ByteStream
import RdmaKv.Library.Interaction
import RdmaKv.Library.QueuePair
import RdmaKv.Library.LockStep
import RdmaKv.Library.Aliasing
import RdmaKv.Ex4.Packet
import RdmaKv.Ex4.Layout
import RdmaKv.Ex4.Server
import RdmaKv.Ex4.Entries
import RdmaKv.Ex4.Handler
import RdmaKv.Ex4.Pool
import RdmaKv.Ex4.Maintenance
import RdmaKv.Ex4.Requests
import RdmaKv.Ex4.Sessions
import RdmaKv.Ex4.PoolRuns
import RdmaKv.Ex4.Host
import RdmaKv.Ex4.Client
import RdmaKv.Ex4.Cluster
import RdmaKv.Ex4.Atomic
import RdmaKv.Ex4.Represents
import RdmaKv.Ex4.Simulation
import RdmaKv.Ex4.Ledger
import RdmaKv.Ex4.Tracks
import RdmaKv.Ex4.Calls
import RdmaKv.Ex4.Posts
import RdmaKv.Ex4.Scripts
import RdmaKv.Ex4.Coherence
import RdmaKv.Ex4.Progress
import RdmaKv.Ex4.Schedule
import RdmaKv.Ex4.Latest
import RdmaKv.Ex4.DkvRuns
import RdmaKv.Ex4.Bounds
import RdmaKv.Ex4.NwebRuns
import RdmaKv.Ex4.Placement
import RdmaKv.Ex4.StaleReply
import RdmaKv.Ex4.Messages
import RdmaKv.Ex4.TaintedLoop
import RdmaKv.Ex4.Web
import RdmaKv.Ex4.WebRequests
import RdmaKv.Ex4.WebFill
import RdmaKv.Ex4.WebStore
import RdmaKv.Ex4.WebSession
import RdmaKv.Ex4.WebRuns
import RdmaKv.Ex4.WorkRequests
import RdmaKv.Ex4.LockStep
import RdmaKv.Ex3.EagerStore
import RdmaKv.Ex3.History
import RdmaKv.Ex3.EagerRuns
import RdmaKv.Ex3.Rendezvous
import RdmaKv.Ex3.RendezvousRuns
import RdmaKv.Ex1.Echo
import RdmaKv.Ex2.Throughput
import RdmaKv.Ex4.Routing
import RdmaKv.Ex4.Addresses
import RdmaKv.Ex4.Workload
import RdmaKv.Ex4.ThroughputTests
import RdmaKv.Ex3.ThroughputTests
import RdmaKv.Ex4.WireAddress
import RdmaKv.Ex4.Connect
import RdmaKv.Ex4.DkvOpen
import RdmaKv.Ex4.InPlace
import RdmaKv.Ex4.CacheTag
import RdmaKv.Ex4.GetStatus
import RdmaKv.Ex4.Receives
import RdmaKv.Ex3.CacheSearch
import RdmaKv.Ex3.Waits
import RdmaKv.Ex2.Select
import RdmaKv.Ex4.FillKeys
import RdmaKv.Ex4.Site
import RdmaKv.Ex4.FailedSet
import RdmaKv.Ex3.RndvPool
import RdmaKv.Ex3.HeapRuns
import RdmaKv.Ex4.EntryList
import RdmaKv.Ex4.EntryReturns
import RdmaKv.Ex4.EntryFree
import RdmaKv.Ex4.HeapRuns
import RdmaKv.Ex2.SendWindow
import RdmaKv.Ex2.PerfServer
import RdmaKv.Ex2.PerfSession
