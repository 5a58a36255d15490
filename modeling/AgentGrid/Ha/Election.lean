import AgentGrid.Foundation.Transition
import AgentGrid.Foundation.Voting

/-!
# Leader election

The control plane's data nodes elect a leader with the votes of data nodes and
witnesses.  Each handler and each election round is cut at its await points:
the code between two awaits is one function here, run in one step.  The
network keeps every request and every answer ever sent and may deliver a
request late, twice or never.

Clock readings, failures to persist a vote, and what the store answers are
inputs of the step.  `votes` and `promoted` are kept for the proofs only: the
code does not read them.
-/

namespace AgentGrid.Ha

open AgentGrid.Foundation

abbrev NodeId := String

inductive RpoMode
  | snapshot
  | async
  | sync
deriving DecidableEq, Repr

/-! ## Quorums -/

structure VoterSet where
  data : Nat
  witnesses : Nat
deriving DecidableEq

namespace VoterSet

def total (v : VoterSet) : Nat := v.data + v.witnesses

def majority (v : VoterSet) : Nat := v.total / 2 + 1

def dataMajority (v : VoterSet) : Nat := v.data / 2 + 1

/-- In `sync` mode a witness does not stand in for a data replica. -/
def electionWon (v : VoterSet) (votes dataVotes : Nat) (rpo : RpoMode) : Bool :=
  decide (v.majority ≤ votes) &&
    (rpo != .sync || decide (v.dataMajority ≤ dataVotes))

def writeQuorumMet (v : VoterSet) (dataAcks : Nat) (rpo : RpoMode) : Bool :=
  rpo != .sync || decide (v.dataMajority ≤ dataAcks)

theorem majority_of_electionWon {v : VoterSet} {votes dataVotes : Nat} {rpo : RpoMode}
    (h : v.electionWon votes dataVotes rpo = true) : v.total < 2 * votes := by
  simp only [electionWon, Bool.and_eq_true, decide_eq_true_eq] at h
  have hmajority := h.1
  simp only [majority] at hmajority
  omega

end VoterSet

/-- The members of the cluster, each of which lists the others as its peers. -/
structure Cluster where
  clusterId : String
  data : List NodeId
  witnesses : List NodeId
  rpoMode : NodeId → RpoMode
  electionTimeoutMs : NodeId → Nat
  nodup : (data ++ witnesses).Nodup

namespace Cluster

def voterSet (C : Cluster) : VoterSet := ⟨C.data.length, C.witnesses.length⟩

def voters (C : Cluster) : List NodeId := C.data ++ C.witnesses

def peers (C : Cluster) (me : NodeId) : List NodeId := C.data.filter (· != me)

/-- Everyone a candidate asks. -/
def targets (C : Cluster) (me : NodeId) : List NodeId := C.peers me ++ C.witnesses

def won (C : Cluster) (me : NodeId) (votes dataVotes : Nat) : Bool :=
  C.voterSet.electionWon votes dataVotes (C.rpoMode me)

end Cluster

/-! ## Messages -/

structure VoteRequest where
  clusterId : String
  term : Nat
  candidateId : NodeId
  appliedSeq : Nat
  preVote : Bool
deriving DecidableEq

structure VoteResponse where
  term : Nat
  granted : Bool
  appliedSeq : Nat
deriving DecidableEq

structure HeartbeatRequest where
  clusterId : String
  term : Nat
  epoch : Nat
  leaderId : NodeId
  commitSeq : Nat
deriving DecidableEq

structure HeartbeatResponse where
  term : Nat
  ok : Bool
  appliedSeq : Nat
deriving DecidableEq

/-! ## The state of a node -/

inductive HaRole
  | single
  | standby
  | leader
  | witness
deriving DecidableEq

structure HaShared where
  term : Nat := 0
  votedFor : Option NodeId := none
  leader : Option NodeId := none
  lastContactMs : Nat := 0
  appliedSeq : Nat := 0
  needFullSnapshot : Bool := false
deriving DecidableEq

structure Ballot where
  votes : Nat
  dataVotes : Nat
  maxSeq : Nat
  newerTerm : Option Nat
deriving DecidableEq

/-- Where `election_round` waits. -/
inductive Round
  | idle
  | preVoting (bid : VoteRequest) (probe : Ballot) (pending : List NodeId)
  | voting (bid : VoteRequest) (probeMaxSeq : Nat) (ballot : Ballot)
      (pending : List NodeId)
  | locking (term : Nat)
  | storing (term : Nat)
deriving DecidableEq

structure Node where
  shared : HaShared := {}
  role : HaRole := .standby
  epoch : Nat := 0
  round : Round := .idle
  rounds : Nat := 0
deriving DecidableEq

namespace Node

def register (node : Node) : Register NodeId := ⟨node.shared.term, node.shared.votedFor⟩

def isLeader (node : Node) : Bool := node.role == .single || node.role == .leader

def setTermAndVote (node : Node) (term : Nat) (vote : Option NodeId) : Node :=
  { node with shared := { node.shared with term := term, votedFor := vote } }

/-- Moves on to a newer term. -/
def adopt (node : Node) (term : Nat) : Node :=
  if node.shared.term < term then node.setTermAndVote term none else node

def touchLeader (node : Node) (now : Nat) : Node :=
  { node with shared := { node.shared with lastContactMs := now } }

def setLeader (node : Node) (id : NodeId) : Node :=
  { node with shared := { node.shared with leader := some id } }

def goto (node : Node) (round : Round) : Node := { node with round := round }

/-- The part of `demote` before its first await. -/
def demote (node : Node) : Node :=
  if node.role = .leader then
    { node with role := .standby, shared := { node.shared with leader := none } }
  else node

end Node

/-! ## Voters -/

def deny (term appliedSeq : Nat) : VoteResponse := ⟨term, false, appliedSeq⟩

def handlePreVote (C : Cluster) (me : NodeId) (node : Node) (appliedSeq : Nat)
    (req : VoteRequest) (now : Nat) : VoteResponse :=
  let term := node.shared.term
  let stickiness := C.electionTimeoutMs me / 2
  if req.appliedSeq < appliedSeq then deny term appliedSeq
  else if node.shared.leader.isSome && decide (now - node.shared.lastContactMs < stickiness) then
    deny term appliedSeq
  else ⟨term, true, appliedSeq⟩

/-- The end of `handle_vote`, after the await of `demote`. -/
def grantVote (node : Node) (appliedSeq : Nat) (req : VoteRequest) (now : Nat)
    (persisted : Bool) : Node × VoteResponse :=
  let current := node.shared.term
  let node := node.touchLeader now
  if req.appliedSeq < appliedSeq then (node, deny current appliedSeq)
  else
    let grant := node.shared.votedFor.all fun v => v == req.candidateId
    if grant then
      let node := node.setTermAndVote current (some req.candidateId)
      if persisted then (node, ⟨current, true, appliedSeq⟩)
      else (node, deny current appliedSeq)
    else (node, ⟨current, false, appliedSeq⟩)

/-- `handle_vote` up to its answer, or up to the await of `demote` when the node
is a leader that learns of a newer term. -/
def handleVote (C : Cluster) (me : NodeId) (node : Node) (appliedSeq : Nat)
    (req : VoteRequest) (now : Nat) (persisted : Bool) : Node × Option VoteResponse :=
  let term := node.shared.term
  if req.clusterId ≠ C.clusterId then (node, some (deny term appliedSeq))
  else if req.term < term then (node, some (deny term appliedSeq))
  else if req.preVote then (node, some (handlePreVote C me node appliedSeq req now))
  else if term < req.term then
    let node := node.setTermAndVote req.term none
    if node.isLeader then (node.demote, none)
    else
      let (node, resp) := grantVote node appliedSeq req now persisted
      (node, some resp)
  else
    let (node, resp) := grantVote node appliedSeq req now persisted
    (node, some resp)

/-- The end of `handle_heartbeat`, after the await of `demote`. -/
def acceptLeader (node : Node) (appliedSeq : Nat) (req : HeartbeatRequest)
    (current now : Nat) : Node × HeartbeatResponse :=
  let node := { node with epoch := max node.epoch req.epoch }
  ((node.setLeader req.leaderId).touchLeader now, ⟨current, true, appliedSeq⟩)

/-- `handle_heartbeat` up to its answer, or up to the await of `demote`. -/
def handleHeartbeat (C : Cluster) (me : NodeId) (node : Node) (appliedSeq : Nat)
    (req : HeartbeatRequest) (now : Nat) : Node × Option HeartbeatResponse :=
  let term := node.shared.term
  if req.clusterId ≠ C.clusterId then (node, some ⟨term, false, appliedSeq⟩)
  else if req.term < term then (node, some ⟨term, false, appliedSeq⟩)
  else
    let node := node.adopt req.term
    if node.isLeader && req.leaderId != me then (node.demote, none)
    else
      let (node, resp) := acceptLeader node appliedSeq req node.shared.term now
      (node, some resp)

/-! ## Candidates -/

def Ballot.start (appliedSeq : Nat) : Ballot := ⟨1, 1, appliedSeq, none⟩

/-- One answer in the loop of `solicit`. -/
def Ballot.count (b : Ballot) (term : Nat) (isData : Bool) (resp : VoteResponse) : Ballot :=
  let b := { b with maxSeq := max b.maxSeq resp.appliedSeq }
  if term < resp.term then { b with newerTerm := some resp.term }
  else if resp.granted then
    { b with votes := b.votes + 1,
             dataVotes := if isData then b.dataVotes + 1 else b.dataVotes }
  else b

/-- What became of one request: its answer, or none when it failed. -/
def Ballot.take (b : Ballot) (term : Nat) (isData : Bool) : Option VoteResponse → Ballot
  | some resp => b.count term isData resp
  | none => b

/-- Whether `solicit` returns: on a newer term, on a quorum, or with no answer
left to wait for. -/
def solicited (C : Cluster) (me : NodeId) (b : Ballot) (pending : List NodeId) : Bool :=
  b.newerTerm.isSome || C.won me b.votes b.dataVotes || pending.isEmpty

/-- From the end of the second solicitation to the next await. -/
def afterBallot (C : Cluster) (me : NodeId) (node : Node) (bid : VoteRequest)
    (probeMaxSeq : Nat) (ballot : Ballot) : Node :=
  match ballot.newerTerm with
  | some newer => (node.setTermAndVote newer none).goto .idle
  | none =>
      if node.shared.appliedSeq < max ballot.maxSeq probeMaxSeq then node.goto .idle
      else if C.won me ballot.votes ballot.dataVotes then
        if node.shared.needFullSnapshot then node.goto .idle
        else node.goto (.locking bid.term)
      else node.goto .idle

def awaitBallot (C : Cluster) (me : NodeId) (node : Node) (bid : VoteRequest)
    (probeMaxSeq : Nat) (ballot : Ballot) (pending : List NodeId) : Node :=
  if solicited C me ballot pending then afterBallot C me node bid probeMaxSeq ballot
  else node.goto (.voting bid probeMaxSeq ballot pending)

/-- Whether the pre-vote lets the candidate campaign. -/
def campaigns (C : Cluster) (me : NodeId) (node : Node) (probe : Ballot) : Bool :=
  probe.newerTerm.isNone && C.won me probe.votes probe.dataVotes &&
    decide (probe.maxSeq ≤ node.shared.appliedSeq)

/-- From the end of the pre-vote to the next await: adopt a newer term, give up,
or vote for itself and ask for votes. -/
def afterProbe (C : Cluster) (me : NodeId) (node : Node) (bid : VoteRequest)
    (probe : Ballot) (persisted : Bool) : Node × List VoteRequest :=
  match probe.newerTerm with
  | some newer => ((node.setTermAndVote newer none).goto .idle, [])
  | none =>
      if campaigns C me node probe then
        let node := node.setTermAndVote bid.term (some me)
        if persisted then
          (awaitBallot C me node bid probe.maxSeq (.start node.shared.appliedSeq)
            (C.targets me), [bid])
        else (node.goto .idle, [])
      else (node.goto .idle, [])

def awaitProbe (C : Cluster) (me : NodeId) (node : Node) (bid : VoteRequest)
    (probe : Ballot) (pending : List NodeId) (persisted : Bool) :
    Node × List VoteRequest :=
  if solicited C me probe pending then afterProbe C me node bid probe persisted
  else (node.goto (.preVoting bid probe pending), [])

def bidOf (C : Cluster) (me : NodeId) (node : Node) : VoteRequest :=
  ⟨C.clusterId, node.shared.term + 1, me, node.shared.appliedSeq, false⟩

/-- `election_round` from its catch-up to the pre-vote. -/
def startRound (C : Cluster) (me : NodeId) (node : Node) (persisted : Bool) :
    Node × List VoteRequest :=
  if node.shared.needFullSnapshot then (node, [])
  else
    let node := { node with rounds := node.rounds + 1 }
    let bid := bidOf C me node
    let (node, sent) := awaitProbe C me node bid (.start node.shared.appliedSeq)
      (C.targets me) persisted
    (node, { bid with preVote := true } :: sent)

/-- `election_round` resumed by what became of its request to one voter. -/
def resumeRound (C : Cluster) (me : NodeId) (node : Node) (voter : NodeId)
    (answer : Option VoteResponse) (persisted : Bool) : Node × List VoteRequest :=
  let isData := C.data.contains voter
  match node.round with
  | .preVoting bid probe pending =>
      awaitProbe C me node bid (probe.take node.shared.term isData answer)
        (pending.erase voter) persisted
  | .voting bid probeMaxSeq ballot pending =>
      (awaitBallot C me node bid probeMaxSeq
        (ballot.take node.shared.term isData answer) (pending.erase voter), [])
  | _ => (node, [])

/-- `promote` once it holds its lock. -/
def promoteLocked (node : Node) (term : Nat) : Node :=
  if node.isLeader || node.shared.term != term then node.goto .idle
  else node.goto (.storing term)

/-- `promote` once the store has written the epoch. -/
def promoteStored (me : NodeId) (node : Node) (term dbEpoch seq now : Nat) : Node :=
  let node := { node with epoch := max term (dbEpoch + 1), role := .leader }
  let node := (node.setLeader me).touchLeader now
  { node with shared := { node.shared with appliedSeq := seq }, round := .idle }

/-- One answer in the leader's heartbeat loop. -/
def heartbeatAnswered (node : Node) (resp : HeartbeatResponse) : Node :=
  if node.shared.term < resp.term then (node.setTermAndVote resp.term none).demote
  else node

/-! ## The cluster -/

structure Envelope where
  candidate : NodeId
  round : Nat
  voter : NodeId
  req : VoteRequest
deriving DecidableEq

structure Answer where
  candidate : NodeId
  round : Nat
  voter : NodeId
  req : VoteRequest
  resp : VoteResponse
deriving DecidableEq

/-- A `handle_vote` waiting for `demote`. -/
structure ParkedVote where
  envelope : Envelope
  appliedSeq : Nat
deriving DecidableEq

structure ParkedHeartbeat where
  me : NodeId
  req : HeartbeatRequest
  appliedSeq : Nat
  current : Nat
deriving DecidableEq

structure Net where
  node : NodeId → Node := fun _ => {}
  requests : List Envelope := []
  answers : List Answer := []
  parkedVotes : List ParkedVote := []
  heartbeats : List (NodeId × HeartbeatRequest) := []
  heartbeatAnswers : List (NodeId × HeartbeatResponse) := []
  parkedHeartbeats : List ParkedHeartbeat := []
  votes : List (Vote NodeId NodeId) := []
  promoted : List (Nat × NodeId) := []

namespace Net

/-- Writes a node back and logs the vote it shows. -/
def put (s : Net) (me : NodeId) (node : Node) : Net :=
  { s with
    node := fun id => if id = me then node else s.node id
    votes := match node.shared.votedFor with
      | some c => ⟨me, node.shared.term, c⟩ :: s.votes
      | none => s.votes }

def send (s : Net) (C : Cluster) (me : NodeId) (reqs : List VoteRequest) : Net :=
  { s with
    requests := s.requests ++ reqs.flatMap fun req =>
      (C.targets me).map fun voter => ⟨me, (s.node me).rounds, voter, req⟩ }

def answerVote (s : Net) (e : Envelope) (resp : VoteResponse) : Net :=
  { s with answers := s.answers ++ [⟨e.candidate, e.round, e.voter, e.req, resp⟩] }

end Net

/-- The request whose answers a round counts. -/
def Round.asks : Round → Option (VoteRequest × List NodeId)
  | .preVoting bid _ pending => some ({ bid with preVote := true }, pending)
  | .voting bid _ _ pending => some (bid, pending)
  | _ => none

inductive Event
  | startRound (me : NodeId) (persisted : Bool)
  | deliverVote (e : Envelope) (now : Nat) (persisted : Bool)
  | resumeVote (p : ParkedVote) (now : Nat) (persisted : Bool)
  | answered (a : Answer) (persisted : Bool)
  | unanswered (me voter : NodeId) (persisted : Bool)
  | promoteLocked (me : NodeId)
  | promoteStored (me : NodeId) (dbEpoch seq now : Nat)
  | promoteFailed (me : NodeId)
  | heartbeat (me : NodeId)
  | deliverHeartbeat (me : NodeId) (req : HeartbeatRequest) (now : Nat)
  | resumeHeartbeat (p : ParkedHeartbeat) (now : Nat)
  | heartbeatAnswered (me : NodeId) (resp : HeartbeatResponse)
  | demote (me : NodeId)
  | replicated (me : NodeId) (appliedSeq : Nat) (needFullSnapshot : Bool)
deriving DecidableEq

/-- Resumes the round of `me` with what became of its request to `voter`. -/
def resumed (C : Cluster) (s : Net) (me voter : NodeId) (answer : Option VoteResponse)
    (persisted : Bool) : Net :=
  let (node, sent) := resumeRound C me (s.node me) voter answer persisted
  (s.put me node).send C me sent

/-- One step of the cluster, when the event can happen. -/
def step (C : Cluster) (s : Net) : Event → Option Net
  | .startRound me persisted =>
      if me ∈ C.data ∧ (s.node me).round = .idle then
        let (node, sent) := startRound C me (s.node me) persisted
        some ((s.put me node).send C me sent)
      else none
  | .deliverVote e now persisted =>
      if e ∈ s.requests then
        let appliedSeq := (s.node e.voter).shared.appliedSeq
        match handleVote C e.voter (s.node e.voter) appliedSeq e.req now persisted with
        | (node, some resp) => some ((s.put e.voter node).answerVote e resp)
        | (node, none) =>
            let s := s.put e.voter node
            some { s with parkedVotes := ⟨e, appliedSeq⟩ :: s.parkedVotes }
      else none
  | .resumeVote p now persisted =>
      if p ∈ s.parkedVotes then
        let me := p.envelope.voter
        let (node, resp) := grantVote (s.node me) p.appliedSeq p.envelope.req now persisted
        let s := { s with parkedVotes := s.parkedVotes.erase p }
        some ((s.put me node).answerVote p.envelope resp)
      else none
  | .answered a persisted =>
      match (s.node a.candidate).round.asks with
      | some (req, pending) =>
          if a ∈ s.answers ∧ a.round = (s.node a.candidate).rounds ∧ a.req = req ∧
              a.voter ∈ pending then
            some (resumed C s a.candidate a.voter (some a.resp) persisted)
          else none
      | none => none
  | .unanswered me voter persisted =>
      match (s.node me).round.asks with
      | some (_, pending) =>
          if voter ∈ pending then some (resumed C s me voter none persisted) else none
      | none => none
  | .promoteLocked me =>
      match (s.node me).round with
      | .locking term => some (s.put me (promoteLocked (s.node me) term))
      | _ => none
  | .promoteStored me dbEpoch seq now =>
      match (s.node me).round with
      | .storing term =>
          let s' := s.put me (promoteStored me (s.node me) term dbEpoch seq now)
          some { s' with promoted := (term, me) :: s'.promoted }
      | _ => none
  | .promoteFailed me =>
      match (s.node me).round with
      | .storing _ => some (s.put me ((s.node me).goto .idle))
      | _ => none
  | .heartbeat me =>
      if (s.node me).isLeader then
        let node := s.node me
        let req : HeartbeatRequest :=
          ⟨C.clusterId, node.shared.term, node.epoch, me, node.shared.appliedSeq⟩
        some { s with heartbeats := s.heartbeats ++ (C.targets me).map fun peer => (peer, req) }
      else none
  | .deliverHeartbeat me req now =>
      if (me, req) ∈ s.heartbeats then
        let appliedSeq := (s.node me).shared.appliedSeq
        match handleHeartbeat C me (s.node me) appliedSeq req now with
        | (node, some resp) =>
            let s := s.put me node
            some { s with heartbeatAnswers := s.heartbeatAnswers ++ [(req.leaderId, resp)] }
        | (node, none) =>
            let s := s.put me node
            some { s with
              parkedHeartbeats :=
                ⟨me, req, appliedSeq, node.shared.term⟩ :: s.parkedHeartbeats }
      else none
  | .resumeHeartbeat p now =>
      if p ∈ s.parkedHeartbeats then
        let (node, resp) := acceptLeader (s.node p.me) p.appliedSeq p.req p.current now
        let s := { s with parkedHeartbeats := s.parkedHeartbeats.erase p }
        let s := s.put p.me node
        some { s with heartbeatAnswers := s.heartbeatAnswers ++ [(p.req.leaderId, resp)] }
      else none
  | .heartbeatAnswered me resp =>
      if (me, resp) ∈ s.heartbeatAnswers then
        some (s.put me (heartbeatAnswered (s.node me) resp))
      else none
  | .demote me => some (s.put me (s.node me).demote)
  | .replicated me appliedSeq needFullSnapshot =>
      let node := s.node me
      let shared := { node.shared with
        appliedSeq := appliedSeq, needFullSnapshot := needFullSnapshot }
      some (s.put me { node with shared := shared })

def Step (C : Cluster) (s : Net) (e : Event) (s' : Net) : Prop := step C s e = some s'

end AgentGrid.Ha
