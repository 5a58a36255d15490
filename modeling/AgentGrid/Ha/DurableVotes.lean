import AgentGrid.Foundation.Transition
import AgentGrid.Ha.Election

/-!
# Votes across restarts

One voter with its state file.  A call changes the term and the vote in memory
and then saves them; a save may fail, and the process may die at any point of
a call, after which the node starts again from what the file holds.
-/

namespace AgentGrid.Ha

open AgentGrid.Foundation

/-- What the state file holds: a term and the vote given in it. -/
abbrev PersistedVote := Register NodeId

structure Voter where
  node : Node
  file : PersistedVote
  startRole : HaRole := .standby
  parkedVotes : List (VoteRequest × Nat) := []
  parkedHeartbeats : List (HeartbeatRequest × Nat × Nat) := []
  granted : List (Vote Unit NodeId) := []
deriving DecidableEq

/-- Which of the two saves of a `handle_vote` succeed. -/
structure Saves where
  adopted : Bool
  voted : Bool
deriving DecidableEq

namespace Voter

def setTermAndVote (v : Voter) (term : Nat) (vote : Option NodeId) (saved : Bool) : Voter :=
  { v with
    node := v.node.setTermAndVote term vote
    file := if saved then ⟨term, vote⟩ else v.file }

def demote (v : Voter) : Voter := { v with node := v.node.demote }

/-- The end of `handle_vote`, after the await of `demote`. -/
def grantVote (v : Voter) (appliedSeq : Nat) (req : VoteRequest) (now : Nat)
    (saved : Bool) : Voter × VoteResponse :=
  let current := v.node.shared.term
  let v := { v with node := v.node.touchLeader now }
  if req.appliedSeq < appliedSeq then (v, deny current appliedSeq)
  else
    let grant := v.node.shared.votedFor.all fun c => c == req.candidateId
    if grant then
      let v := v.setTermAndVote current (some req.candidateId) saved
      if saved then (v, ⟨current, true, appliedSeq⟩)
      else (v, deny current appliedSeq)
    else (v, ⟨current, false, appliedSeq⟩)

def handleVote (C : Cluster) (me : NodeId) (v : Voter) (appliedSeq : Nat)
    (req : VoteRequest) (now : Nat) (saves : Saves) : Voter × Option VoteResponse :=
  let term := v.node.shared.term
  if req.clusterId ≠ C.clusterId then (v, some (deny term appliedSeq))
  else if req.term < term then (v, some (deny term appliedSeq))
  else if req.preVote then (v, some (handlePreVote C me v.node appliedSeq req now))
  else if term < req.term then
    let v := v.setTermAndVote req.term none saves.adopted
    if v.node.isLeader then (v.demote, none)
    else
      let (v, resp) := v.grantVote appliedSeq req now saves.voted
      (v, some resp)
  else
    let (v, resp) := v.grantVote appliedSeq req now saves.voted
    (v, some resp)

def acceptLeader (v : Voter) (appliedSeq : Nat) (req : HeartbeatRequest)
    (current now : Nat) : Voter × HeartbeatResponse :=
  let (node, resp) := Ha.acceptLeader v.node appliedSeq req current now
  ({ v with node := node }, resp)

def handleHeartbeat (C : Cluster) (me : NodeId) (v : Voter) (appliedSeq : Nat)
    (req : HeartbeatRequest) (now : Nat) (saved : Bool) :
    Voter × Option HeartbeatResponse :=
  let term := v.node.shared.term
  if req.clusterId ≠ C.clusterId then (v, some ⟨term, false, appliedSeq⟩)
  else if req.term < term then (v, some ⟨term, false, appliedSeq⟩)
  else
    let v := if term < req.term then v.setTermAndVote req.term none saved else v
    if v.node.isLeader && req.leaderId != me then (v.demote, none)
    else
      let (v, resp) := v.acceptLeader appliedSeq req v.node.shared.term now
      (v, some resp)

end Voter

section Restriction

/-! Without the file, the handlers are those of the election. -/

variable (C : Cluster) (me : NodeId) (v : Voter)

theorem grantVote_node (appliedSeq : Nat) (req : VoteRequest) (now : Nat) (saved : Bool) :
    ((v.grantVote appliedSeq req now saved).1.node, (v.grantVote appliedSeq req now saved).2) =
      grantVote v.node appliedSeq req now saved := by
  simp only [Voter.grantVote, grantVote]
  split
  · rfl
  · split
    · split <;> rfl
    · rfl

theorem handleVote_node (appliedSeq : Nat) (req : VoteRequest) (now : Nat) (saves : Saves) :
    ((v.handleVote C me appliedSeq req now saves).1.node,
      (v.handleVote C me appliedSeq req now saves).2) =
        handleVote C me v.node appliedSeq req now saves.voted := by
  simp only [Voter.handleVote, handleVote]
  split
  · rfl
  · split
    · rfl
    · split
      · rfl
      · split
        · have hnode := grantVote_node (v.setTermAndVote req.term none saves.adopted)
            appliedSeq req now saves.voted
          rw [show (v.setTermAndVote req.term none saves.adopted).node =
            v.node.setTermAndVote req.term none from rfl] at hnode ⊢
          split
          · rfl
          · rw [← hnode]
        · rw [← grantVote_node v appliedSeq req now saves.voted]

theorem handleHeartbeat_node (appliedSeq : Nat) (req : HeartbeatRequest) (now : Nat)
    (saved : Bool) :
    ((v.handleHeartbeat C me appliedSeq req now saved).1.node,
      (v.handleHeartbeat C me appliedSeq req now saved).2) =
        handleHeartbeat C me v.node appliedSeq req now := by
  have hadopt : (if v.node.shared.term < req.term then
      v.setTermAndVote req.term none saved else v).node = v.node.adopt req.term := by
    unfold Node.adopt
    split <;> rfl
  simp only [Voter.handleHeartbeat, handleHeartbeat, Voter.acceptLeader, hadopt]
  split
  · rfl
  · split
    · rfl
    · split
      · rw [Voter.demote, hadopt]
      · rfl

end Restriction

inductive VoterCall
  | vote (req : VoteRequest) (appliedSeq now : Nat) (saves : Saves)
  | resumeVote (req : VoteRequest) (appliedSeq now : Nat) (saved : Bool)
  | heartbeat (req : HeartbeatRequest) (appliedSeq now : Nat) (saved : Bool)
  | resumeHeartbeat (req : HeartbeatRequest) (appliedSeq current now : Nat)

/-- A crash may fall into a call, whose answer is then never sent. -/
inductive VoterEvent
  | call (c : VoterCall)
  | crash (during : Option VoterCall) (epoch appliedSeq : Nat)

namespace Voter

/-- Notes a real vote that is granted. -/
def record (v : Voter) (req : VoteRequest) (resp : VoteResponse) : Voter :=
  if req.preVote = false ∧ resp.granted = true then
    { v with granted := ⟨(), resp.term, req.candidateId⟩ :: v.granted }
  else v

def call (C : Cluster) (me : NodeId) (v : Voter) : VoterCall → Option Voter
  | .vote req appliedSeq now saves =>
      match v.handleVote C me appliedSeq req now saves with
      | (v, some resp) => some (v.record req resp)
      | (v, none) => some { v with parkedVotes := (req, appliedSeq) :: v.parkedVotes }
  | .resumeVote req appliedSeq now saved =>
      if (req, appliedSeq) ∈ v.parkedVotes then
        let v := { v with parkedVotes := v.parkedVotes.erase (req, appliedSeq) }
        let (v, resp) := v.grantVote appliedSeq req now saved
        some (v.record req resp)
      else none
  | .heartbeat req appliedSeq now saved =>
      match v.handleHeartbeat C me appliedSeq req now saved with
      | (v, some _) => some v
      | (v, none) =>
          some { v with
            parkedHeartbeats := (req, appliedSeq, v.node.shared.term) :: v.parkedHeartbeats }
  | .resumeHeartbeat req appliedSeq current now =>
      if (req, appliedSeq, current) ∈ v.parkedHeartbeats then
        let v := { v with
          parkedHeartbeats := v.parkedHeartbeats.erase (req, appliedSeq, current) }
        some (v.acceptLeader appliedSeq req current now).1
      else none

/-- The node starts from the term and the vote of its file. -/
def restart (v : Voter) (epoch appliedSeq : Nat) : Voter :=
  { v with
    node := {
      shared := { term := v.file.term, votedFor := v.file.vote, appliedSeq := appliedSeq }
      role := v.startRole
      epoch := epoch }
    parkedVotes := []
    parkedHeartbeats := [] }

end Voter

def voterStep (C : Cluster) (me : NodeId) (v : Voter) : VoterEvent → Option Voter
  | .call c => v.call C me c
  | .crash none epoch appliedSeq => some (v.restart epoch appliedSeq)
  | .crash (some c) epoch appliedSeq =>
      (v.call C me c).map fun w =>
        { w.restart epoch appliedSeq with granted := v.granted }

def VoterStep (C : Cluster) (me : NodeId) (v : Voter) (e : VoterEvent) (v' : Voter) : Prop :=
  voterStep C me v e = some v'

section Discipline

variable {C : Cluster} {me : NodeId} {v v' v'' : Voter}

/-- The file is never ahead of the memory, and every vote granted is in it or
behind it. -/
structure Voter.Disciplined (v : Voter) : Prop where
  behind : v.file ≤ v.node.register
  votes : Logged (fun _ => v.file) v.granted

/-- Memory and file both move forward, the file behind the memory. -/
structure Voter.Moves (v v' : Voter) : Prop where
  memory : v.node.register ≤ v'.node.register
  file : v.file ≤ v'.file
  behind : v'.file ≤ v'.node.register

theorem Voter.Moves.refl (h : v.file ≤ v.node.register) : v.Moves v :=
  ⟨le_refl _, le_refl _, h⟩

theorem Voter.Moves.trans (first : v.Moves v') (second : v'.Moves v'') : v.Moves v'' :=
  ⟨first.memory.trans second.memory, first.file.trans second.file, second.behind⟩

theorem setTermAndVote_moves (h : v.file ≤ v.node.register) {term : Nat}
    {vote : Option NodeId} (hnext : v.node.register ≤ ⟨term, vote⟩) (saved : Bool) :
    v.Moves (v.setTermAndVote term vote saved) := by
  have hfile : v.file ≤ (⟨term, vote⟩ : Register NodeId) := h.trans hnext
  cases saved with
  | false => exact ⟨hnext, le_refl _, hfile⟩
  | true => exact ⟨hnext, hfile, le_refl _⟩

theorem adopt_moves (h : v.file ≤ v.node.register) {term : Nat}
    (hnewer : v.node.shared.term < term) (saved : Bool) :
    v.Moves (v.setTermAndVote term none saved) :=
  setTermAndVote_moves h (.inl hnewer) saved

theorem demote_register (node : Node) : node.demote.register = node.register := by
  unfold Node.demote
  split <;> rfl

theorem demote_moves (h : v.file ≤ v.node.register) : v.Moves v.demote := by
  have hsame : v.demote.node.register = v.node.register := demote_register v.node
  refine ⟨hsame.ge, le_refl _, ?_⟩
  rw [hsame]
  exact h

theorem vote_next {node : Node} {c : NodeId}
    (hgrant : (node.shared.votedFor.all fun d => d == c) = true) :
    node.register ≤ ⟨node.shared.term, some c⟩ := by
  refine .inr ⟨rfl, ?_⟩
  cases hvote : node.shared.votedFor with
  | none => exact .inl hvote
  | some d =>
      rw [hvote] at hgrant
      have hsame : d = c := by simpa using hgrant
      exact .inr (by rw [Node.register, hvote, hsame])

/-- A granted vote has been saved. -/
theorem grantVote_moves (h : v.file ≤ v.node.register) (appliedSeq : Nat)
    (req : VoteRequest) (now : Nat) (saved : Bool) :
    v.Moves (v.grantVote appliedSeq req now saved).1 ∧
      (v.grantVote appliedSeq req now saved).1.granted = v.granted ∧
      ((v.grantVote appliedSeq req now saved).2.granted = true → saved = true ∧
        (v.grantVote appliedSeq req now saved).1.file =
          ⟨(v.grantVote appliedSeq req now saved).2.term, some req.candidateId⟩) := by
  have htouched : v.Moves { v with node := v.node.touchLeader now } :=
    ⟨le_refl _, le_refl _, h⟩
  simp only [Voter.grantVote]
  split
  · exact ⟨htouched, rfl, by simp [deny]⟩
  · split
    · rename_i hgrant
      have hmoves := htouched.trans
        (setTermAndVote_moves htouched.behind (vote_next hgrant) saved)
      cases saved with
      | false => exact ⟨hmoves, rfl, by simp [deny]⟩
      | true => exact ⟨hmoves, rfl, fun _ => ⟨rfl, rfl⟩⟩
    · exact ⟨htouched, rfl, by simp⟩

theorem handleVote_moves (h : v.file ≤ v.node.register) (appliedSeq : Nat)
    (req : VoteRequest) (now : Nat) (saves : Saves) :
    v.Moves (v.handleVote C me appliedSeq req now saves).1 ∧
      (v.handleVote C me appliedSeq req now saves).1.granted = v.granted ∧
      ∀ resp, (v.handleVote C me appliedSeq req now saves).2 = some resp →
        req.preVote = false → resp.granted = true → saves.voted = true ∧
          (v.handleVote C me appliedSeq req now saves).1.file =
            ⟨resp.term, some req.candidateId⟩ := by
  unfold Voter.handleVote
  dsimp only
  split
  · exact ⟨.refl h, rfl, by simp [deny]⟩
  · split
    · exact ⟨.refl h, rfl, by simp [deny]⟩
    · split
      · rename_i hpre
        exact ⟨.refl h, rfl, by simp [hpre]⟩
      · split
        · rename_i hnewer
          have hadopted := adopt_moves h hnewer saves.adopted
          split
          · exact ⟨hadopted.trans (demote_moves hadopted.behind), rfl, by simp⟩
          · obtain ⟨hmoves, hsame, hsaved⟩ :=
              grantVote_moves hadopted.behind appliedSeq req now saves.voted
            refine ⟨hadopted.trans hmoves, hsame, ?_⟩
            rintro resp hresp _ hgranted
            cases hresp
            exact hsaved hgranted
        · obtain ⟨hmoves, hsame, hsaved⟩ := grantVote_moves h appliedSeq req now saves.voted
          refine ⟨hmoves, hsame, ?_⟩
          rintro resp hresp _ hgranted
          cases hresp
          exact hsaved hgranted

theorem acceptLeader_moves (h : v.file ≤ v.node.register) (appliedSeq : Nat)
    (req : HeartbeatRequest) (current now : Nat) :
    v.Moves (v.acceptLeader appliedSeq req current now).1 :=
  ⟨le_refl _, le_refl _, h⟩

theorem handleHeartbeat_moves (h : v.file ≤ v.node.register) (appliedSeq : Nat)
    (req : HeartbeatRequest) (now : Nat) (saved : Bool) :
    v.Moves (v.handleHeartbeat C me appliedSeq req now saved).1 ∧
      (v.handleHeartbeat C me appliedSeq req now saved).1.granted = v.granted := by
  unfold Voter.handleHeartbeat
  dsimp only
  split
  · exact ⟨.refl h, rfl⟩
  · split
    · exact ⟨.refl h, rfl⟩
    · have hadopted : v.Moves (if v.node.shared.term < req.term then
          v.setTermAndVote req.term none saved else v) := by
        split
        · rename_i hnewer
          exact adopt_moves h hnewer saved
        · exact .refl h
      have hsame : (if v.node.shared.term < req.term then
          v.setTermAndVote req.term none saved else v).granted = v.granted := by
        split <;> rfl
      generalize (if v.node.shared.term < req.term then
        v.setTermAndVote req.term none saved else v) = w at hadopted hsame ⊢
      split
      · exact ⟨hadopted.trans (demote_moves hadopted.behind), hsame⟩
      · exact ⟨hadopted.trans (acceptLeader_moves hadopted.behind appliedSeq req
          w.node.shared.term now), hsame⟩

theorem Voter.Disciplined.of_moves (h : v.Disciplined) (hmoves : v.Moves v')
    (hsame : v'.granted = v.granted) : v.Moves v' ∧ v'.Disciplined := by
  refine ⟨hmoves, hmoves.behind, ?_⟩
  rw [hsame]
  exact h.votes.advance fun _ => hmoves.file

/-- What is noted after a call was saved by it. -/
theorem record_disciplined (h : v.Disciplined) {req : VoteRequest} {resp : VoteResponse}
    (hmoves : v.Moves v') (hsame : v'.granted = v.granted)
    (hsaved : req.preVote = false → resp.granted = true →
      v'.file = ⟨resp.term, some req.candidateId⟩) :
    v.Moves (v'.record req resp) ∧ (v'.record req resp).Disciplined := by
  have hkept := (h.of_moves hmoves hsame).2
  unfold Voter.record
  split
  · rename_i hgranted
    have hfile := hsaved hgranted.1 hgranted.2
    refine ⟨⟨hmoves.memory, hmoves.file, hmoves.behind⟩, hkept.behind, ?_⟩
    have hvote : (v'.file).vote = some req.candidateId := by rw [hfile]
    have hnoted := @Logged.write Unit NodeId (fun _ => v'.file) _ hkept.votes () _ hvote
    have hterm : v'.file.term = resp.term := by rw [hfile]
    rwa [hterm] at hnoted
  · exact ⟨hmoves, hkept⟩

theorem call_moves (h : v.Disciplined) {c : VoterCall} (hcall : v.call C me c = some v') :
    v.Moves v' ∧ v'.Disciplined := by
  cases c with
  | vote req appliedSeq now saves =>
      simp only [Voter.call] at hcall
      obtain ⟨hmoves, hsame, hsaved⟩ :=
        @handleVote_moves C me v h.behind appliedSeq req now saves
      split at hcall <;> rename_i hhandled <;> cases hcall <;>
        rw [hhandled] at hmoves hsame hsaved
      · exact record_disciplined h hmoves hsame fun hreal hgranted =>
          (hsaved _ rfl hreal hgranted).2
      · exact h.of_moves ⟨hmoves.memory, hmoves.file, hmoves.behind⟩ hsame
  | resumeVote req appliedSeq now saved =>
      simp only [Voter.call] at hcall
      split at hcall
      · cases hcall
        have hresumed : v.Moves { v with
            parkedVotes := v.parkedVotes.erase (req, appliedSeq) } :=
          ⟨le_refl _, le_refl _, h.behind⟩
        obtain ⟨hmoves, hsame, hsaved⟩ :=
          grantVote_moves hresumed.behind appliedSeq req now saved
        exact record_disciplined h (hresumed.trans hmoves) hsame fun _ hgranted =>
          (hsaved hgranted).2
      · cases hcall
  | heartbeat req appliedSeq now saved =>
      simp only [Voter.call] at hcall
      obtain ⟨hmoves, hsame⟩ :=
        @handleHeartbeat_moves C me v h.behind appliedSeq req now saved
      split at hcall <;> rename_i hhandled <;> cases hcall <;>
        rw [hhandled] at hmoves hsame
      · exact h.of_moves hmoves hsame
      · exact h.of_moves ⟨hmoves.memory, hmoves.file, hmoves.behind⟩ hsame
  | resumeHeartbeat req appliedSeq current now =>
      simp only [Voter.call] at hcall
      split at hcall
      · cases hcall
        exact h.of_moves ⟨le_refl _, le_refl _, h.behind⟩ rfl
      · cases hcall

/-- Every step moves the file forward and keeps it behind the memory. -/
theorem voterStep_disciplined (h : v.Disciplined) {e : VoterEvent}
    (hstep : VoterStep C me v e v') : v'.Disciplined ∧ v.file ≤ v'.file := by
  cases e with
  | call c =>
      obtain ⟨hmoves, hkept⟩ := call_moves h hstep
      exact ⟨hkept, hmoves.file⟩
  | crash during epoch appliedSeq =>
      cases during with
      | none =>
          cases hstep
          exact ⟨⟨le_refl _, h.votes⟩, le_refl _⟩
      | some c =>
          obtain ⟨w, hcall, rfl⟩ := Option.map_eq_some_iff.mp hstep
          obtain ⟨hmoves, _⟩ := call_moves h hcall
          exact ⟨⟨le_refl _, h.votes.advance fun _ => hmoves.file⟩, hmoves.file⟩

/-- The node has just started from its file. -/
def Voter.Started (v : Voter) : Prop := v.node.register = v.file ∧ v.granted = []

theorem Voter.Started.disciplined (h : v.Started) : v.Disciplined := by
  refine ⟨h.1.ge, ?_⟩
  rw [h.2]
  exact .nil _

theorem disciplined_run {v₀ : Voter} {ops : List VoterEvent} (hstart : v₀.Started)
    (hrun : Runs (VoterStep C me) v₀ ops v) : v.Disciplined := by
  refine Runs.invariant Voter.Disciplined ?_ hrun hstart.disciplined
  exact fun hs hstep => (voterStep_disciplined hs hstep).1

/-- In every run of vote requests, heartbeats and crashes, whatever saves fail:
the term never decreases while the node runs, and a restart never takes it
below the term of a successful save; the real votes granted in a term are for
one candidate; a vote that is not saved is not granted; and a pre-vote leaves
node and file as they are. -/
theorem votes_disciplined {v₀ : Voter} {ops : List VoterEvent} (hstart : v₀.Started)
    (hrun : Runs (VoterStep C me) v₀ ops v) :
    (∀ c v', VoterStep C me v (.call c) v' → v.node.shared.term ≤ v'.node.shared.term) ∧
    (∀ ops' v', Runs (VoterStep C me) v ops' v' → v.file.term ≤ v'.node.shared.term) ∧
    (∀ a ∈ v.granted, ∀ b ∈ v.granted, a.term = b.term → a.candidate = b.candidate) ∧
    (∀ appliedSeq req now saves resp, req.preVote = false → saves.voted = false →
      (v.handleVote C me appliedSeq req now saves).2 = some resp → resp.granted = false) ∧
    ∀ appliedSeq req now saves, req.preVote = true →
      (v.handleVote C me appliedSeq req now saves).1 = v := by
  have h := disciplined_run hstart hrun
  refine ⟨?_, ?_, ?_, ?_, ?_⟩
  · intro c v' hcall
    exact Register.term_le (call_moves h hcall).1.memory
  · intro ops' v' hlater
    have hkept : v'.Disciplined ∧ v.file ≤ v'.file := by
      refine Runs.invariant (fun w => w.Disciplined ∧ v.file ≤ w.file) ?_ hlater
        ⟨h, le_refl _⟩
      intro w e w' hw hstep
      obtain ⟨hw', hfile⟩ := voterStep_disciplined hw.1 hstep
      exact ⟨hw', hw.2.trans hfile⟩
    exact Register.term_le (hkept.2.trans hkept.1.behind)
  · exact fun a ha b hb hterm => h.votes.once a ha b hb rfl hterm
  · intro appliedSeq req now saves resp hreal hunsaved hresp
    by_contra hgranted
    have hsaved := ((handleVote_moves h.behind appliedSeq req now saves).2.2 resp hresp hreal
      (by simpa using hgranted)).1
    rw [hunsaved] at hsaved
    cases hsaved
  · intro appliedSeq req now saves hpre
    unfold Voter.handleVote
    dsimp only
    split
    · rfl
    · split
      · rfl
      · rfl

/-- A voter of a cluster of one other data node, with an empty file. -/
def newVoter : Voter where
  node := {}
  file := ⟨0, none⟩

def pair : Cluster where
  clusterId := "c"
  data := ["cp-a", "cp-b"]
  witnesses := []
  rpoMode := fun _ => .async
  electionTimeoutMs := fun _ => 1000
  nodup := by decide

/-- It votes in term 1, crashes in a call for term 2 before the save, and is
asked again in term 1. -/
def voteCrashVote : List VoterEvent :=
  [.call (.vote ⟨"c", 1, "cp-b", 0, false⟩ 0 10 ⟨true, true⟩),
   .crash (some (.vote ⟨"c", 2, "cp-b", 0, false⟩ 0 20 ⟨false, false⟩)) 0 0,
   .call (.vote ⟨"c", 1, "cp-b", 0, false⟩ 0 30 ⟨true, true⟩)]

theorem votes_disciplined_crash : ∃ v, Runs (VoterStep pair "cp-a") newVoter voteCrashVote v ∧
    v.granted = [⟨(), 1, "cp-b"⟩, ⟨(), 1, "cp-b"⟩] ∧
    ∀ a ∈ v.granted, ∀ b ∈ v.granted, a.term = b.term → a.candidate = b.candidate := by
  have hstate : (voteCrashVote.foldlM (voterStep pair "cp-a") newVoter).map Voter.granted =
      some [⟨(), 1, "cp-b"⟩, ⟨(), 1, "cp-b"⟩] := by decide
  obtain ⟨v, hv, hgranted⟩ := Option.map_eq_some_iff.mp hstate
  have hrun : Runs (VoterStep pair "cp-a") newVoter voteCrashVote v := .of_foldlM hv
  exact ⟨v, hrun, hgranted, (votes_disciplined ⟨rfl, rfl⟩ hrun).2.2.1⟩

/-- The save of a newer term fails and is only logged; the term is gone after
the next crash. -/
theorem unsaved_term_lost : ¬ ∀ (C : Cluster) (me : NodeId) (v₀ v v' : Voter)
    (ops : List VoterEvent) (e : VoterEvent), v₀.Started →
    Runs (VoterStep C me) v₀ ops v → VoterStep C me v e v' →
    v.node.shared.term ≤ v'.node.shared.term := by
  intro h
  have hstate : (newVoter.call pair "cp-a"
      (.heartbeat ⟨"c", 5, 5, "cp-b", 0⟩ 0 10 false)).map (fun v =>
        (v.node.shared.term, v.file.term)) = some (5, 0) := by decide
  obtain ⟨v, hv, hseen⟩ := Option.map_eq_some_iff.mp hstate
  simp only [Prod.mk.injEq] at hseen
  have hlost := h pair "cp-a" newVoter v (v.restart 0 0)
    [.call (.heartbeat ⟨"c", 5, 5, "cp-b", 0⟩ 0 10 false)] (.crash none 0 0) ⟨rfl, rfl⟩
    (.single hv) rfl
  rw [hseen.1] at hlost
  have hterm : (v.restart 0 0).node.shared.term = 0 := hseen.2
  omega

end Discipline

end AgentGrid.Ha
