import Falcon.Machinery.Run
import Falcon.Machinery.Keyed
import Falcon.Machinery.Lineage
import Falcon.Machinery.Since
import Falcon.Machinery.Bytes
import Falcon.Machinery.Doubles
import Falcon.Machinery.Succession
import Falcon.Spy.Protocol
import Falcon.Enforcer.State
import Falcon.Enforcer.Step
import Falcon.Enforcer.Objects
import Falcon.Enforcer.Effect
import Falcon.Enforcer.Downs
import Falcon.Enforcer.Monitoring
import Falcon.Enforcer.Registration
import Falcon.Enforcer.License
import Falcon.Enforcer.Generations
import Falcon.Enforcer.GenerationLog
import Falcon.Enforcer.Tokens
import Falcon.Enforcer.Refusals
import Falcon.Enforcer.Handles
import Falcon.Enforcer.Collectable
import Falcon.Client.Callback
import Falcon.Client.Layer
import Falcon.Client.Watchdog
import Falcon.Client.Tree
import Falcon.Client.Fencing
import Falcon.Client.Frame
import Falcon.Client.Mirror
import Falcon.Client.Leaves
import Falcon.Client.Children
import Falcon.Client.Requests
import Falcon.Client.Builder
import Falcon.Client.Roles
import Falcon.Client.Routing
import Falcon.Client.Targets
import Falcon.Process.State
import Falcon.Process.Step
import Falcon.Process.KillReports
import Falcon.Process.Moves
import Falcon.Process.Records
import Falcon.Process.Incarnations
import Falcon.Process.Probes
import Falcon.Vmm.State
import Falcon.Vmm.Step
import Falcon.Vmm.Moves
import Falcon.Vmm.Watch
import Falcon.Vmm.Lookups
import Falcon.Vmm.Probes
import Falcon.Vmm.Budget
import Falcon.Os.State
import Falcon.Os.Step
import Falcon.Os.Workers
import Falcon.Os.Kills
import Falcon.Os.Host
import Falcon.System.Link
import Falcon.System.LostDown
import Falcon.System.Vectors
import Falcon.System.Durations
import Falcon.Replication.Protocol
import Falcon.Replication.Quorums
import Falcon.Replication.State
import Falcon.Replication.Step
import Falcon.Replication.Dispatch
import Falcon.Replication.Group
import Falcon.Replication.Choice
import Falcon.Replication.Vanilla
import Falcon.Replication.Shapes
import Falcon.Replication.Moves
import Falcon.Replication.Attempts
import Falcon.Replication.Assertions
import Falcon.Replication.Proposals
import Falcon.Replication.Promises
import Falcon.Replication.Trails
import Falcon.Replication.Offers
import Falcon.Replication.Network
import Falcon.Replication.Matching
import Falcon.Replication.Accepts
import Falcon.Replication.Reports
import Falcon.Replication.Overtaking
import Falcon.Replication.Pulls
import Falcon.Replication.Acks
import Falcon.Replication.Once
import Falcon.Replication.Histories
import Falcon.Replication.Positions
import Falcon.Replication.Chains
import Falcon.Replication.Fetches
import Falcon.Replication.Outcomes
import Falcon.Replication.Replies
import Falcon.Replication.Walks
import Falcon.Replication.Execution
import Falcon.Proxy.Client
import Falcon.Proxy.Requests
import Falcon.Proxy.Primary
import Falcon.Diomedes.Relay
import Falcon.Diomedes.Handover
import Falcon.Diomedes.State
import Falcon.Diomedes.Votes
import Falcon.Diomedes.Primary
import Falcon.Diomedes.Elections
import Falcon.Diomedes.Ackers
import Falcon.Diomedes.Responders
import Falcon.Diomedes.Cache
import Falcon.Diomedes.Settling
import Falcon.Diomedes.Backup
import Falcon.Diomedes.Identities
import Falcon.Diomedes.Instances
import Falcon.Diomedes.Datagrams
import Falcon.Diomedes.Chronicle
import Falcon.Diomedes.Group
import Falcon.Diomedes.Reigns
import Falcon.Diomedes.Durability
import Falcon.Diomedes.Machine
import Falcon.Client.WarPath
import Falcon.Client.Timers
import Falcon.Diomedes.Proxy
import Falcon.Diomedes.Bootstrap
import Falcon.Server.Handshake
import Falcon.Common.Config
