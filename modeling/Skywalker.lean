import Skywalker.Message
import Skywalker.Storage
import Skywalker.Machine
import Skywalker.Node
import Skywalker.Handlers
import Skywalker.Library.Run
import Skywalker.System
import Skywalker.Actions
import Skywalker.Effects
import Skywalker.Chain
import Skywalker.Recovery
import Skywalker.Store
import Skywalker.Events
import Skywalker.Execution
import Skywalker.Durable
import Skywalker.Proposing
import Skywalker.ProposeQueue
import Skywalker.Turns
import Skywalker.Outbidding
import Skywalker.Library.Highest
import Skywalker.Adoption
import Skywalker.Steps
import Skywalker.Messages
import Skywalker.Rounds
import Skywalker.Ballots
import Skywalker.Values
import Skywalker.Members
import Skywalker.Quorums
import Skywalker.Relays
import Skywalker.Library.Voting
import Skywalker.Votes
import Skywalker.Replies
import Skywalker.Promises
import Skywalker.Checkpoints
import Skywalker.Reconfiguration
import Skywalker.Proposals
import Skywalker.Learning
import Skywalker.Consensus
import Skywalker.Agreement
import Skywalker.Serving
import Skywalker.Origins
import Skywalker.Library.Lease
import Skywalker.Contexts
import Skywalker.Mastership
import Skywalker.LogRange
import Skywalker.Validity
import Skywalker.Verdicts
import Skywalker.Confinement
import Skywalker.Ownership
import Skywalker.Receiver
import Skywalker.Transfer
import Skywalker.Publishing
import Skywalker.Restart
import Skywalker.Cleaning
import Skywalker.Library.Framing
import Skywalker.Network
import Skywalker.SendWindow
import Skywalker.CheckpointFile
import Skywalker.TempDirectory
import Skywalker.MemberChanges
import Skywalker.MasterMachine
import Skywalker.Library.OrderedSet
import Skywalker.Timers
import Skywalker.RunLoop
import Skywalker.TimerPass
import Skywalker.Library.Lehmer
import Skywalker.Random
import Skywalker.Library.WireFormat
import Skywalker.Wire
import Skywalker.Contents
import Skywalker.Records
import Skywalker.Library.KeyValueStore
import Skywalker.Library.SortedTable
import Skywalker.Library.Simulation
import Skywalker.Table
import Skywalker.Library.LogDevice
import Skywalker.Durability
import Skywalker.ReplicatedLog
import Skywalker.Groups
import Skywalker.LoopQueue
import Skywalker.Connections
import Skywalker.CatchUp
import Skywalker.Rejoining
import Skywalker.Progress
import Skywalker.Library.CopyOnWrite
import Skywalker.Snapshots
import Skywalker.MasterLoop
