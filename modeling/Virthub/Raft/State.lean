import Virthub.Klnk.Core.Domain
import Virthub.Lib.Trace

/-! The Raft engine of the metadata cluster. Every handler takes the write lock for its
whole body, so a call is one step. Terms and indices are 64-bit words as in the source;
the log length is compared as a natural number, since a vector is shorter than `2 ^ 64`. -/
namespace Virthub.Raft
open Virthub.Klnk (NodeId)

inductive RaftRole
  | follower
  | candidate
  | leader
  deriving DecidableEq, Repr

inductive RaftStateError
  | notLeader (node : NodeId) (leader : Option NodeId)
  | staleTerm (requestTerm currentTerm : UInt64)
  | logIndexOutOfBounds (index lastIndex : UInt64)
  | invalidPeerFormat (peer : String)
  deriving DecidableEq, Repr

structure RaftConfig where
  embedded : Bool
  initialPeers : List NodeId
  etcdEndpoints : List String
  deriving DecidableEq, Repr

def RaftConfig.defaultConfig (localNodeId : NodeId) : RaftConfig :=
  ⟨true, [localNodeId], ["http://127.0.0.1:2379"]⟩

inductive RaftLogEntry
  | command (index term : UInt64) (payload : List UInt8)
  | lockAcquire (resourceId : UInt64) (clientPid : UInt32)
  | lockRelease (resourceId : UInt64) (clientPid : UInt32)
  deriving DecidableEq, Repr

/-- Lock entries carry no term and report zero. -/
def RaftLogEntry.term : RaftLogEntry → UInt64
  | .command _ term _ => term
  | _ => 0

def RaftLogEntry.setTerm (term : UInt64) : RaftLogEntry → RaftLogEntry
  | .command index _ payload => .command index term payload
  | entry => entry

structure RaftSnapshot where
  lastIncludedIndex : UInt64
  lastIncludedTerm : UInt64
  data : List UInt8
  deriving DecidableEq, Repr

structure RaftNodeState where
  nodeId : NodeId
  role : RaftRole
  currentTerm : UInt64
  votedFor : Option NodeId
  leaderId : Option NodeId
  log : List RaftLogEntry
  commitIndex : UInt64
  lastApplied : UInt64
  peers : List NodeId
  nextIndex : NodeId → Option UInt64
  matchIndex : NodeId → Option UInt64
  lastSnapshot : Option RaftSnapshot

/-- `commitCallback` tells whether a callback is registered; `delivered` lists the slices
that it has been invoked with, oldest first. -/
structure RaftEngine where
  config : RaftConfig
  state : RaftNodeState
  termCounter : UInt64
  commitCallback : Bool
  delivered : List (List RaftLogEntry)

namespace RaftEngine

def new (nodeId : NodeId) (config : RaftConfig) : RaftEngine where
  config := config
  state :=
    { nodeId := nodeId
      role := .follower
      currentTerm := 0
      votedFor := none
      leaderId := none
      log := []
      commitIndex := 0
      lastApplied := 0
      peers := config.initialPeers
      nextIndex := fun _ => none
      matchIndex := fun _ => none
      lastSnapshot := none }
  termCounter := 0
  commitCallback := false
  delivered := []

def setCommitCallback (e : RaftEngine) : RaftEngine := { e with commitCallback := true }

def lastLogIndex (e : RaftEngine) : UInt64 := e.state.log.length.toUInt64

def lastLogTerm (e : RaftEngine) : UInt64 := (e.state.log.getLast?.map RaftLogEntry.term).getD 0

/-- Shared body of the three `propose_*` methods: only a leader appends, and it answers
with the one-based position of the entry it is about to push. -/
def propose (e : RaftEngine) (entry : UInt64 → UInt64 → RaftLogEntry) :
    Except RaftStateError UInt64 × RaftEngine :=
  if e.state.role ≠ .leader then (.error (.notLeader e.state.nodeId e.state.leaderId), e)
  else
    let newIndex := (e.state.log.length + 1).toUInt64
    (.ok newIndex,
      { e with state := { e.state with log := e.state.log ++ [entry newIndex e.state.currentTerm] } })

def proposeCommand (e : RaftEngine) (payload : List UInt8) :=
  e.propose fun index term => .command index term payload

def proposeLockAcquire (e : RaftEngine) (resourceId : UInt64) (clientPid : UInt32) :=
  e.propose fun _ _ => .lockAcquire resourceId clientPid

def proposeLockRelease (e : RaftEngine) (resourceId : UInt64) (clientPid : UInt32) :=
  e.propose fun _ _ => .lockRelease resourceId clientPid

/-- The part of a node that a vote request with a newer term resets. -/
def stepDown (e : RaftEngine) (term : UInt64) : RaftEngine :=
  if term > e.state.currentTerm then
    { e with
      state := { e.state with
        currentTerm := term, role := .follower, votedFor := none, leaderId := none }
      termCounter := term }
  else e

def logIsUpToDate (log : List RaftLogEntry) (lastLogIndex lastLogTerm : UInt64) : Bool :=
  let lastTerm := (log.getLast?.map RaftLogEntry.term).getD 0
  lastLogTerm > lastTerm || (lastLogTerm == lastTerm && lastLogIndex.toNat ≥ log.length)

def handleRequestVote (e : RaftEngine) (candidateId : NodeId)
    (term lastLogIndex lastLogTerm : UInt64) : Except RaftStateError Bool × RaftEngine :=
  if term < e.state.currentTerm then (.error (.staleTerm term e.state.currentTerm), e)
  else
    let e := e.stepDown term
    if (e.state.votedFor = none ∨ e.state.votedFor = some candidateId) ∧
        logIsUpToDate e.state.log lastLogIndex lastLogTerm then
      (.ok true, { e with state := { e.state with votedFor := some candidateId } })
    else (.ok false, e)

/-- What hearing from a leader changes before the log is looked at. The vote is cleared
whether or not the term is newer. -/
def recognizeLeader (e : RaftEngine) (leaderId : NodeId) (term : UInt64) : RaftEngine :=
  let e :=
    if term > e.state.currentTerm then
      { e with state := { e.state with currentTerm := term, role := .follower }, termCounter := term }
    else e
  { e with state := { e.state with leaderId := some leaderId, votedFor := none } }

/-- Append the entries, each restamped with the leader's term, and move the commit index. -/
def appendAndCommit (e : RaftEngine) (term : UInt64) (entries : List RaftLogEntry)
    (leaderCommit : UInt64) : RaftEngine :=
  let log := e.state.log ++ entries.map (RaftLogEntry.setTerm term)
  let commitIndex :=
    if leaderCommit > e.state.commitIndex then (min leaderCommit.toNat log.length).toUInt64
    else e.state.commitIndex
  { e with state := { e.state with log := log, commitIndex := commitIndex } }

def handleAppendEntries (e : RaftEngine) (leaderId : NodeId)
    (term prevLogIndex prevLogTerm : UInt64) (entries : List RaftLogEntry)
    (leaderCommit : UInt64) : Except RaftStateError Bool × RaftEngine :=
  if term < e.state.currentTerm then (.ok false, e)
  else
    let e := e.recognizeLeader leaderId term
    if prevLogIndex > 0 then
      match e.state.log[prevLogIndex.toNat - 1]? with
      -- `prev_log_index > log.len()`
      | none => (.ok false, e)
      | some prevEntry =>
        if prevEntry.term ≠ prevLogTerm then
          (.ok false,
            { e with state := { e.state with log := e.state.log.take (prevLogIndex.toNat - 1) } })
        else (.ok true, e.appendAndCommit term entries leaderCommit)
    else (.ok true, e.appendAndCommit term entries leaderCommit)

def promoteToLeader (e : RaftEngine) : RaftEngine :=
  let lastLogIdx := e.state.log.length.toUInt64
  let others := e.state.peers.filter (· ≠ e.state.nodeId)
  { e with state := { e.state with
      role := .leader
      leaderId := some e.state.nodeId
      nextIndex := fun n => if n ∈ others then some (lastLogIdx + 1) else e.state.nextIndex n
      matchIndex := fun n => if n ∈ others then some 0 else e.state.matchIndex n } }

/-- The term counter is incremented as a machine word. -/
def startElection (e : RaftEngine) : Except RaftStateError Unit × RaftEngine :=
  let term := e.state.currentTerm + 1
  (.ok (),
    { e with
      state := { e.state with
        currentTerm := term, role := .candidate, votedFor := some e.state.nodeId, leaderId := none }
      termCounter := term })

def commitToIndex (e : RaftEngine) (targetIndex : UInt64) :
    Except RaftStateError Unit × RaftEngine :=
  if targetIndex.toNat > e.state.log.length then
    (.error (.logIndexOutOfBounds targetIndex e.state.log.length.toUInt64), e)
  else if targetIndex > e.state.commitIndex then
    let newEntries := (e.state.log.take targetIndex.toNat).drop e.state.commitIndex.toNat
    (.ok (),
      { e with
        state := { e.state with commitIndex := targetIndex }
        delivered :=
          if e.commitCallback ∧ newEntries ≠ [] then e.delivered ++ [newEntries] else e.delivered })
  else (.ok (), e)

end RaftEngine

/-- The calls that a node serves. -/
inductive RaftCall
  | proposeCommand (payload : List UInt8)
  | proposeLockAcquire (resourceId : UInt64) (clientPid : UInt32)
  | proposeLockRelease (resourceId : UInt64) (clientPid : UInt32)
  | requestVote (candidateId : NodeId) (term lastLogIndex lastLogTerm : UInt64)
  | appendEntries (leaderId : NodeId) (term prevLogIndex prevLogTerm : UInt64)
      (entries : List RaftLogEntry) (leaderCommit : UInt64)
  | promoteToLeader
  | startElection
  | commitToIndex (targetIndex : UInt64)
  | setCommitCallback
  deriving DecidableEq, Repr

inductive RaftAnswer
  | index (result : Except RaftStateError UInt64)
  | granted (result : Except RaftStateError Bool)
  | appended (result : Except RaftStateError Bool)
  | done (result : Except RaftStateError Unit)

/-- One call on the engine. -/
def step (e : RaftEngine) : RaftCall → RaftAnswer × RaftEngine
  | .proposeCommand payload => (e.proposeCommand payload).map .index id
  | .proposeLockAcquire resourceId clientPid =>
    (e.proposeLockAcquire resourceId clientPid).map .index id
  | .proposeLockRelease resourceId clientPid =>
    (e.proposeLockRelease resourceId clientPid).map .index id
  | .requestVote candidateId term lastLogIndex lastLogTerm =>
    (e.handleRequestVote candidateId term lastLogIndex lastLogTerm).map .granted id
  | .appendEntries leaderId term prevLogIndex prevLogTerm entries leaderCommit =>
    (e.handleAppendEntries leaderId term prevLogIndex prevLogTerm entries leaderCommit).map
      .appended id
  | .promoteToLeader => (.done (.ok ()), e.promoteToLeader)
  | .startElection => e.startElection.map .done id
  | .commitToIndex targetIndex => (e.commitToIndex targetIndex).map .done id
  | .setCommitCallback => (.done (.ok ()), e.setCommitCallback)

end Virthub.Raft
