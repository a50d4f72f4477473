import NemoServer.Foundations.Table
import NemoServer.Foundations.Interleave
import NemoServer.Foundations.Ledger
import NemoServer.Rendezvous.Proto
import NemoServer.Std.Str
import NemoServer.Integration.DeviceKeys
import NemoServer.Integration.Users
import NemoServer.Server.Database
import NemoServer.Server.State
import NemoServer.Server.Ops
import NemoServer.Server.Sem
import NemoServer.Server.PeerMap
import NemoServer.Management.Policy
import NemoServer.Management.Gates
import NemoServer.Rendezvous.PunchHole
import NemoServer.Rendezvous.Registration
import NemoServer.Rendezvous.HandleTcp
import NemoServer.Rendezvous.Listener
import NemoServer.Server.System
import NemoServer.Server.Footprint
import NemoServer.Server.Discipline
import NemoServer.Server.Verified
import NemoServer.Laws.Mediation
import NemoServer.Laws.Grants
import NemoServer.Laws.Responses
import NemoServer.Server.Connections
import NemoServer.Laws.Handshake
import NemoServer.Laws.Revocation
import NemoServer.Laws.Claims
import NemoServer.Relay.Hbbr
import NemoServer.Laws.Pairing
import NemoServer.Management.Replay
import NemoServer.Laws.Replay
import NemoServer.Management.DeviceProof
import NemoServer.Laws.DeviceProof
import NemoServer.Management.ClientPolicy
import NemoServer.Laws.FailClosed
import NemoServer.Server.Peers
import NemoServer.Server.Solo
import NemoServer.Laws.Persistence
import NemoServer.Laws.BlockFlag
import NemoServer.Server.Ownership
import NemoServer.Laws.Coherence
import NemoServer.Integration.Ldap
import NemoServer.Integration.Directory
import NemoServer.Laws.Login
import NemoServer.Server.Registry
import NemoServer.Laws.Denials
import NemoServer.Laws.PendingTable
import NemoServer.Management.Statistics
import NemoServer.Laws.Blocking
import NemoServer.Laws.Durability
import NemoServer.Foundations.FinMap
import NemoServer.Integration.Sessions
import NemoServer.Laws.Tokens
import NemoServer.Integration.Permissions
import NemoServer.Laws.Eviction
import NemoServer.Laws.Updates
import NemoServer.Laws.PolicyLists
import NemoServer.Laws.Disclosure
import NemoServer.Server.Watched
import NemoServer.Laws.Coverage
import NemoServer.Foundations.Files
import NemoServer.Foundations.Rely
import NemoServer.Keys.Generate
import NemoServer.Laws.KeyGeneration
import NemoServer.Std.Base64
import NemoServer.Keys.Rotation
import NemoServer.Laws.Rotation
import NemoServer.Laws.Archives
import NemoServer.Keys.Servers
import NemoServer.Laws.KeyAgreement
import NemoServer.Integration.ConfigFile
import NemoServer.Laws.ConfigFile
import NemoServer.Foundations.Lockstep
import NemoServer.Management.Secrets
import NemoServer.Laws.Unsealed
import NemoServer.Laws.Masking
import NemoServer.Management.PolicyRoutes
import NemoServer.Foundations.Capped
import NemoServer.Foundations.Meter
import NemoServer.Management.StatsStore
import NemoServer.Management.StatsEffects
import NemoServer.Laws.RelayTotal
import NemoServer.Laws.RelayBooks
import NemoServer.Laws.Pinning
import NemoServer.Laws.Usernames
import NemoServer.Foundations.Burst
import NemoServer.Server.IpBlocker
import NemoServer.Laws.RateLimit
import NemoServer.Laws.Refusals
import NemoServer.Server.Routing
import NemoServer.Server.Brokering
import NemoServer.Laws.Pushes
import NemoServer.Laws.Heartbeats
import NemoServer.Laws.OneGrant
import NemoServer.Laws.StatsBounds
import NemoServer.Laws.Identity
import NemoServer.Management.UpdateManifest
import NemoServer.Laws.Manifest
import NemoServer.Management.Endpoints
import NemoServer.Laws.Endpoints
import NemoServer.Laws.Markers
import NemoServer.Laws.PolicyStore
import NemoServer.Std.Authority
import NemoServer.Laws.ClientSetup
import NemoServer.Integration.LoginLimits
import NemoServer.Laws.Spray
import NemoServer.Laws.Backoff
import NemoServer.Server.Registering
import NemoServer.Laws.Registrations
import NemoServer.Laws.Solicited
import NemoServer.Integration.Certificates
import NemoServer.Laws.Certificates
import NemoServer.Laws.OnlineBitmap
import NemoServer.Foundations.Lanes
import NemoServer.Laws.ControlPermissions
import NemoServer.Integration.SearchFilter
import NemoServer.Std.LdapFilter
import NemoServer.Laws.Filters
import NemoServer.Laws.GrantCodec
import NemoServer.Laws.PublicCopy
import NemoServer.Foundations.Arith
import NemoServer.Relay.Admin
import NemoServer.Laws.Overflow
import NemoServer.Foundations.RoundRobin
import NemoServer.Rendezvous.RelayServers
import NemoServer.Laws.RelayServers
import NemoServer.Laws.RelayTurns
import NemoServer.Relay.Pump
import NemoServer.Laws.Pump
import NemoServer.Laws.UsageRows
import NemoServer.Std.Json
import NemoServer.Management.RelayUsage
import NemoServer.Laws.UsageReport
import NemoServer.Management.UsagePoller
import NemoServer.Laws.FleetUsage
import NemoServer.Foundations.Lift
import NemoServer.Management.AccountServer
import NemoServer.Management.AccountApi
import NemoServer.Laws.LoginGates
import NemoServer.Laws.AccountSessions
import NemoServer.Laws.AddressBook
