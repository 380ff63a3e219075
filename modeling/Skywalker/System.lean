import Skywalker.Handlers
import Skywalker.Library.Run
import Mathlib.Logic.Function.Basic

/-!
# Recovery and the system of nodes

`Node.recover` is the start of a process on the disk that an earlier one left: `Config::Recover`,
`Acceptor::Recover`, `LogManager::Recover` and the rest of `Instance::Recover`. `Node.step` is what
one node does for one event of its loops, and `System.step` puts the nodes of a group on a network
that may delay, lose, repeat and reorder messages: a message that was sent can be delivered at any
later time, any number of times or never.
-/

namespace Skywalker

/-! ## Recovery -/

/-- `LogManager::ReplayLog` for `n` instances from `instanceId` on. The result of `Execute` is not
looked at. -/
def LogManager.replayLog (E : Env) : ℕ → ℕ → Node → Option Node
  | 0, _, s => some s
  | n + 1, instanceId, s =>
    match s.db.get instanceId with
    | none => none
    | some temp =>
      let r := s.machines.execute s.config.codec E.nowMillis (E.executeOk s.trace.length) none
        instanceId temp.acceptedValue
      replayLog E n (instanceId + 1)
        { s with
          machines := r.2
          trace := .replayed instanceId temp.acceptedValue r.1 :: s.trace }

/-- `Acceptor::ReadFromDB` on a fresh acceptor. -/
def Acceptor.readFromDB (db : DB) : Option Acceptor :=
  match db.getMaxInstanceId with
  | none => some {}
  | some m =>
    match db.get m with
    | none => none
    | some temp => some
      { instanceId := m, promisedBallot := temp.promised, acceptedBallot := temp.accepted,
        acceptedValue := temp.acceptedValue }

/-- `MachineManager::Recover`: the id of the checkpoint that it restores, and the machines. -/
def MachineManager.recover (E : Env) (config : Config) (checkpoints : List (ℕ × Machines)) :
    ℕ × Machines :=
  let c := cleanCheckpoint config.keepCheckpointCount (checkpoints.map Prod.fst)
  let latest := c.checkpoints.getLastD 0
  let fresh : Machines := { membership := .ofOptions config.membership }
  if latest = 0 then (latest, fresh)
  else
    match checkpoints.lookup latest with
    | none => (latest, fresh)
    | some saved => (latest, saved.recover config.nodeId E.nowMillis)

/-- `Group::Recover` of a new process. The disk and the trace of the node are those that the process
before it left. -/
def Node.recover (E : Env) (config : Config) (db : DB) (checkpoints : List (ℕ × Machines))
    (trace : List Event) : Option Node :=
  let c := cleanCheckpoint config.keepCheckpointCount (checkpoints.map Prod.fst)
  let r := MachineManager.recover E config checkpoints
  (Acceptor.readFromDB db).bind fun a =>
    let instanceId := max (r.1 + 1) a.instanceId
    let s : Node :=
      { config := config
        machines := r.2
        instanceId := instanceId
        minChosenId := db.minChosen.getD 0
        maxChosenId := instanceId
        oldestCheckpointId := c.oldest
        db := db
        checkpoints := checkpoints.filter fun d => d.1 ∉ c.deleted
        trace := trace }
    -- `a.instanceId - (r.1 + 1)` is zero when the checkpoint is not behind the log.
    (LogManager.replayLog E (a.instanceId - (r.1 + 1)) (r.1 + 1) s).map fun s =>
      { s with
        acceptor := a.setInstanceId instanceId
        learner := { instanceId := instanceId }
        proposer := { instanceId := instanceId, proposalId := a.promisedBallot.proposalId + 1 }
        trace := .recovered instanceId s.machines.membership :: s.trace }

/-- The first process of a node, on an empty disk. -/
def Node.fresh (config : Config) : Node :=
  { config := config
    acceptor := { instanceId := 1 }
    proposer := { proposalId := 1 }
    machines := { membership := .ofOptions config.membership }
    maxChosenId := 1
    trace := [.recovered 1 (.ofOptions config.membership)] }

/-- `Node.fresh` is what recovery yields on an empty disk. -/
theorem Node.recover_empty (E : Env) (config : Config) :
    Node.recover E config {} [] [] = some (Node.fresh config) := by
  have hclean : cleanCheckpoint config.keepCheckpointCount [] = ⟨[], 0, []⟩ := by
    simp [cleanCheckpoint, CleanState.loop]
  simp [Node.recover, MachineManager.recover, hclean, Acceptor.readFromDB, DB.getMaxInstanceId,
    LogManager.replayLog, Node.fresh, Acceptor.setInstanceId]

/-! ## One node -/

/-- What the loops of a node can run. -/
inductive NodeEvent where
  /-- A client's proposal reaches `Instance::OnPropose`. -/
  | propose (machineId : ℕ) (value : List UInt8) (context : Option Context) (draw : ℕ)
  /-- `Group::TryBeMasterInLoop` with the number that is drawn. -/
  | tryBeMaster (draw : ℕ)
  /-- A timer that is pending fires. -/
  | timer (id : ℕ)
  /-- A `PaxosMessage` of the network reaches `Instance::OnContent`. -/
  | paxosMessage (msg : PaxosMessage)
  /-- A `CheckpointMessage` that does not install a checkpoint. -/
  | checkpointMessage
  /-- `Instance::SyncData` asks the other nodes for what is missing. -/
  | syncData (addTimer : Bool)
  /-- The learn loop runs its next function. -/
  | learnLoop
  /-- The machines finish a checkpoint of the last executed instance, before the next one is
  executed (the source waits for them any number of instances). -/
  | finishCheckpoint
  /-- The next part of `LogCleaner::GCLoop`. -/
  | gcLoop
deriving DecidableEq, Repr

/-- The range of `mrand` in `GetPaxosValueId`. -/
def drawOk (draw : ℕ) : Bool := 2 ^ 8 ≤ draw && draw ≤ 2 ^ 22

/-- The callback of a timer. -/
def Node.runTimer (E : Env) (s : Node) : TimerCallback → Node
  | .retry instanceId => Proposer.onRetryTimer E instanceId s
  | .propose => Instance.onProposeTimeout s
  | .learn => Learner.askForLearn E true s

/-- One event of the loops. A proposal starts only when none is outstanding, which `ProposeQueue`
sees to and `OnPropose` asserts. -/
def Node.step (E : Env) (s : Node) : NodeEvent → Option Node
  | .propose machineId value context draw =>
    if s.isProposing = false ∧ drawOk draw = true then
      some (Instance.onPropose E machineId value context draw s)
    else none
  | .tryBeMaster draw =>
    if s.isProposing = false ∧ drawOk draw = true then some (Group.tryBeMasterInLoop E draw s)
    else none
  | .timer id =>
    match s.timers.lookup id with
    | none => none
    | some cb => some ((s.removeTimer id).runTimer E cb)
  | .paxosMessage msg => some (Instance.onPaxosMessage E msg s)
  | .checkpointMessage => some (Learner.onSendCheckpoint s)
  | .syncData addTimer => some (Learner.askForLearn E addTimer s)
  | .learnLoop => if s.learnTasks = [] then none else some (Learner.runLearnLoop s)
  | .finishCheckpoint =>
    if 1 < s.instanceId ∧ s.instanceId - 1 ∉ s.checkpoints.map Prod.fst then
      some (MachineManager.finishCheckpoint s)
    else none
  | .gcLoop => some (LogCleaner.gcLoop E s)

/-! ## The system -/

/-- The configurations of the nodes of a group. -/
structure Setup where
  config : ℕ → Config
  /-- Each node has its own id. -/
  nodeId_eq : ∀ n, (config n).nodeId = n

/-- The group whose nodes all start with the same options. -/
def Setup.uniform (options : Config) : Setup where
  config n := { options with nodeId := n }
  nodeId_eq _ := rfl

/-- The nodes of a group. -/
abbrev Sys := ℕ → Node

/-- What can happen to the system. -/
inductive Label where
  /-- A node handles an event of its loops. -/
  | node (n : ℕ) (ev : NodeEvent)
  /-- A node crashes, and a new process recovers. -/
  | restart (n : ℕ)
  /-- A node has received the checkpoint `checkpointId` of `source`, exits, and a new process
  recovers. -/
  | install (n source checkpointId : ℕ)
deriving DecidableEq, Repr

/-- Whether an entry of the trace sends a message to a node. -/
def Event.delivers (n : ℕ) (msg : PaxosMessage) : Event → Bool
  | .send dest m => dest = n && m = msg
  | .broadcast m dests => m = msg && n ∈ dests
  | _ => false

/-- Whether a message to a node is or was in the network. Every message names its sender. -/
def Sys.inFlight (s : Sys) (n : ℕ) (msg : PaxosMessage) : Bool :=
  (s msg.nodeId).trace.any (Event.delivers n msg)

namespace System

/-- All nodes in their first process. -/
def init (C : Setup) : Sys := fun n => Node.fresh (C.config n)

/-- Whether an event of a node can come from the system: a message has to have been sent. -/
def allowed (s : Sys) (n : ℕ) : NodeEvent → Bool
  | .paxosMessage msg => s.inFlight n msg
  | _ => true

/-- One step of the system, in the environment that comes with its label. -/
def step (s : Sys) (a : Env × Label) : Option Sys :=
  match a.2 with
  | .node n ev =>
    if allowed s n ev then ((s n).step a.1 ev).map (Function.update s n) else none
  | .restart n =>
    (Node.recover a.1 (s n).config (s n).db (s n).checkpoints (s n).trace).map
      (Function.update s n)
  | .install n source checkpointId =>
    if checkpointId ∈ (s n).checkpoints.map Prod.fst then none
    else
      ((s source).checkpoints.lookup checkpointId).bind fun saved =>
        (Node.recover a.1 (s n).config (s n).db ((checkpointId, saved) :: (s n).checkpoints)
          (s n).trace).map (Function.update s n)

end System

end Skywalker
