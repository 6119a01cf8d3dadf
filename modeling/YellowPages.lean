import YellowPages.Lib.Trace
import YellowPages.Lib.Ordered
import YellowPages.Lib.Stamped
import YellowPages.Lib.Lww
import YellowPages.Lib.Join
import YellowPages.Lib.Replay
import YellowPages.Lib.Threads
import YellowPages.Lib.Strings
import YellowPages.Lib.Descent
import YellowPages.Lib.Scan
import YellowPages.Lib.Windows
import YellowPages.Lib.Encoding
import YellowPages.Lib.Keyed
import YellowPages.Lib.Indexed
import YellowPages.Lib.Gossip
import YellowPages.Lib.Latest
import YellowPages.Model
import YellowPages.Ratelimit
import YellowPages.Bootstrap.Token
import YellowPages.Migrate.ShadowDiff
import YellowPages.Watch.Watcher
import YellowPages.Watch.Index
import YellowPages.Watch.Waiters
import YellowPages.Watch.Persist
import YellowPages.Store.Memory
import YellowPages.Store.Atomic
import YellowPages.Store.Log
import YellowPages.Store.Names
import YellowPages.Store.Register
import YellowPages.Store.Renew
import YellowPages.Store.Expiry
import YellowPages.Store.Definitions
import YellowPages.Store.RegisterLoop
import YellowPages.Store.Replay
import YellowPages.Store.Announce
import YellowPages.Watch.Feed
import YellowPages.Watch.Track
import YellowPages.Wire
import YellowPages.Wire.RoundTrip
import YellowPages.Health
import YellowPages.Store.Merge
import YellowPages.Store.Attributes
import YellowPages.Store.Named
import YellowPages.Store.Capacity
import YellowPages.Store.Refused
import YellowPages.Store.Sweep
import YellowPages.Watch.Named
import YellowPages.Store.Lease
import YellowPages.Cred
import YellowPages.Cred.NodeID
import YellowPages.Cred.Reload
import YellowPages.Server.Service
import YellowPages.Server.Watch
import YellowPages.Server.StreamIndex
import YellowPages.Server.Track
import YellowPages.Server.Drain
import YellowPages.Server.Authz
import YellowPages.SeedClient.Lookup
import YellowPages.SeedClient.Cache
import YellowPages.SeedClient.Staleness
import YellowPages.SeedClient.Proxy
import YellowPages.SeedClient.Renew
import YellowPages.Healthcheck.Monitor
import YellowPages.Healthcheck.Leases
import YellowPages.Healthcheck.Loops
import YellowPages.Consuldns.Parser
import YellowPages.Consuldns.Handler
import YellowPages.Consuldns.Zones
import YellowPages.Consuldns.Forms
import YellowPages.Membership.Syncer
import YellowPages.Consul.Handler
import YellowPages.Consul.Updates
import YellowPages.Consul.Ownership
import YellowPages.Consuldns.Answers
import YellowPages.Consuldns.Typed
import YellowPages.Consuldns.Targets
import YellowPages.Consul.Filter
import YellowPages.Consul.FilterBytes
import YellowPages.Consul.FilterMeaning
import YellowPages.Consul.FilterGrammar
import YellowPages.Consul.Read
import YellowPages.Consul.Views
import YellowPages.Consul.AgentHealth
import YellowPages.Consul.ActiveChecks
import YellowPages.Consul.ServiceDef
import YellowPages.Membership.Exchange
import YellowPages.Membership.Join
import YellowPages.Membership.Gossip
import YellowPages.Federation.Pool
import YellowPages.SeedClient.Watch
import YellowPages.SeedClient.LookupIndex
import YellowPages.SeedClient.Fetches
import YellowPages.Store.Settle
import YellowPages.Store.Isolation
import YellowPages.Store.Table
import YellowPages.Store.Refines
import YellowPages.Store.Decay
import YellowPages.Store.Sustain
import YellowPages.SeedClient.KeepAlive
import YellowPages.Resolver
import YellowPages.SeedClient.Quorum
import YellowPages.SeedClient.QuorumRead
import YellowPages.Sdk.Replay
import YellowPages.SeedClient.Rounds
import YellowPages.Sdk.Watch
import YellowPages.Sdk.Deliver
import YellowPages.Grpcresolver
import YellowPages.App
import YellowPages.Cmd
import YellowPages.Surfaces
import YellowPages.Migrate.Import
import YellowPages.Config
import YellowPages.Bootstrap.Join
