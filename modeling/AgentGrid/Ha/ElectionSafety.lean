import AgentGrid.Ha.Election

/-!
# Election safety

Every handler advances the register of its node.  So does a round, except at
the vote of a candidate for itself: the candidate has waited for the pre-votes
since it read its term, and may have voted for someone else or moved on in
between.  In the runs where it has not, the log of votes names one candidate for
each voter and term, and a promotion has a majority of it.
-/

namespace AgentGrid.Ha

open AgentGrid.Foundation

/-- When the pre-vote ends here and lets the candidate campaign, whether the
candidate's term and vote still allow its vote for itself. -/
def Node.keepsVote (C : Cluster) (me : NodeId) (node : Node) (voter : NodeId)
    (answer : Option VoteResponse) : Bool :=
  match node.round with
  | .preVoting bid probe pending =>
      let probe := probe.take node.shared.term (C.data.contains voter) answer
      !(solicited C me probe (pending.erase voter) && campaigns C me node probe) ||
        decide (node.register ≤ ⟨bid.term, some me⟩)
  | _ => true

def Event.keepsVote (C : Cluster) (s : Net) : Event → Bool
  | .answered a _ => (s.node a.candidate).keepsVote C a.candidate a.voter (some a.resp)
  | .unanswered me voter _ => (s.node me).keepsVote C me voter none
  | _ => true

/-! ## The registers -/

namespace Node

variable {node : Node}

@[simp] theorem register_goto (round : Round) : (node.goto round).register = node.register :=
  rfl

@[simp] theorem register_touchLeader (now : Nat) :
    (node.touchLeader now).register = node.register :=
  rfl

@[simp] theorem register_setLeader (id : NodeId) :
    (node.setLeader id).register = node.register :=
  rfl

@[simp] theorem register_setTermAndVote (term : Nat) (vote : Option NodeId) :
    (node.setTermAndVote term vote).register = ⟨term, vote⟩ :=
  rfl

@[simp] theorem register_demote : node.demote.register = node.register := by
  unfold demote
  split <;> rfl

@[simp] theorem round_demote : node.demote.round = node.round := by
  unfold demote
  split <;> rfl

theorem register_newer {newer : Nat} (h : node.shared.term < newer) :
    node.register ≤ (node.setTermAndVote newer none).register :=
  Register.le_of_term_lt h

theorem register_adopt (term : Nat) : node.register ≤ (node.adopt term).register := by
  unfold adopt
  split
  · rename_i hnewer
    exact register_newer hnewer
  · exact le_rfl

@[simp] theorem round_adopt (term : Nat) : (node.adopt term).round = node.round := by
  unfold adopt
  split <;> rfl

end Node

section Handlers

variable {C : Cluster} {me : NodeId} {node node' : Node} {appliedSeq now : Nat}
  {req : VoteRequest} {persisted : Bool}

/-- What granting a vote does: the round is left alone, and a granted answer
carries the vote the register now shows. -/
theorem grantVote_spec {resp : VoteResponse}
    (h : grantVote node appliedSeq req now persisted = (node', resp)) :
    node.register ≤ node'.register ∧ node'.round = node.round ∧
      (resp.granted = true → resp.term = node.shared.term ∧
        node'.register = ⟨resp.term, some req.candidateId⟩) := by
  unfold grantVote at h
  dsimp only at h
  split at h
  · obtain ⟨rfl, rfl⟩ := Prod.mk.inj h
    exact ⟨le_rfl, rfl, fun hgranted => by simp [deny] at hgranted⟩
  · split at h
    · rename_i hgrant
      have hle : node.register ≤ ⟨node.shared.term, some req.candidateId⟩ := by
        refine .inr ⟨rfl, ?_⟩
        cases hvote : node.shared.votedFor with
        | none => exact .inl hvote
        | some v =>
            have hv : v = req.candidateId := by
              simpa [Node.touchLeader, hvote] using hgrant
            exact .inr (by simp [Node.register, hvote, hv])
      split at h
      · obtain ⟨rfl, rfl⟩ := Prod.mk.inj h
        exact ⟨hle, rfl, fun _ => ⟨rfl, rfl⟩⟩
      · obtain ⟨rfl, rfl⟩ := Prod.mk.inj h
        exact ⟨hle, rfl, fun hgranted => by simp [deny] at hgranted⟩
    · obtain ⟨rfl, rfl⟩ := Prod.mk.inj h
      exact ⟨le_rfl, rfl, fun hgranted => by simp at hgranted⟩

/-- A handler that answers grants the vote its register shows, in a term no
older than the request's; one that waits has adopted the request's term. -/
theorem handleVote_spec {resp : Option VoteResponse}
    (h : handleVote C me node appliedSeq req now persisted = (node', resp)) :
    node.register ≤ node'.register ∧ node'.round = node.round ∧
      (∀ r, resp = some r → req.preVote = false → r.granted = true →
        req.term ≤ r.term ∧ node'.register = ⟨r.term, some req.candidateId⟩) ∧
      (resp = none → req.preVote = false ∧ req.term ≤ node'.shared.term) := by
  have hgrant : ∀ {n n' : Node} {r : VoteResponse}, n.round = node.round → node.register ≤ n.register → req.term ≤ n.shared.term →
      grantVote n appliedSeq req now persisted = (n', r) →
      node.register ≤ n'.register ∧ n'.round = node.round ∧
        (∀ r', some r = some r' → req.preVote = false → r'.granted = true →
          req.term ≤ r'.term ∧ n'.register = ⟨r'.term, some req.candidateId⟩) ∧
        (some r = none → req.preVote = false ∧ req.term ≤ n'.shared.term) := by
    intro n n' r hround hle hterm hr
    obtain ⟨hadvance, hsame, hgranted⟩ := grantVote_spec hr
    refine ⟨hle.trans hadvance, hsame.trans hround, ?_, by simp⟩
    rintro r' ⟨⟩ _ hr'
    obtain ⟨heq, hreg⟩ := hgranted hr'
    exact ⟨heq ▸ hterm, hreg⟩
  unfold handleVote at h
  dsimp only at h
  split at h
  · obtain ⟨rfl, rfl⟩ := Prod.mk.inj h
    exact ⟨le_rfl, rfl, by rintro r ⟨⟩ _ hr; simp [deny] at hr, by simp⟩
  · split at h
    · obtain ⟨rfl, rfl⟩ := Prod.mk.inj h
      exact ⟨le_rfl, rfl, by rintro r ⟨⟩ _ hr; simp [deny] at hr, by simp⟩
    · rename_i hterm
      split at h
      · rename_i hpre
        obtain ⟨rfl, rfl⟩ := Prod.mk.inj h
        exact ⟨le_rfl, rfl, by rintro r ⟨⟩ hreal; simp [hreal] at hpre, by simp⟩
      · rename_i hpre
        split at h
        · rename_i hnewer
          have hadopt := Node.register_newer hnewer
          split at h
          · obtain ⟨rfl, rfl⟩ := Prod.mk.inj h
            refine ⟨by simpa using hadopt, by simp [Node.setTermAndVote], by simp, ?_⟩
            have hkept : (node.setTermAndVote req.term none).demote.register =
                ⟨req.term, none⟩ := Node.register_demote
            exact fun _ => ⟨by simpa using hpre, (congrArg Register.term hkept).ge⟩
          · obtain ⟨rfl, rfl⟩ := Prod.mk.inj h
            exact @hgrant (node.setTermAndVote req.term none) _ _ rfl hadopt le_rfl rfl
        · obtain ⟨rfl, rfl⟩ := Prod.mk.inj h
          exact hgrant rfl le_rfl (by omega) rfl

theorem acceptLeader_spec {req : HeartbeatRequest} {current : Nat} :
    (acceptLeader node appliedSeq req current now).1.register = node.register ∧
      (acceptLeader node appliedSeq req current now).1.round = node.round :=
  ⟨rfl, rfl⟩

theorem handleHeartbeat_spec {req : HeartbeatRequest} :
    node.register ≤ (handleHeartbeat C me node appliedSeq req now).1.register ∧
      (handleHeartbeat C me node appliedSeq req now).1.round = node.round := by
  unfold handleHeartbeat
  dsimp only
  split
  · exact ⟨le_rfl, rfl⟩
  · split
    · exact ⟨le_rfl, rfl⟩
    · have hadopt : node.register ≤ (node.adopt req.term).register :=
        Node.register_adopt req.term
      split
      · exact ⟨by simpa using hadopt, by simp⟩
      · exact ⟨hadopt, Node.round_adopt req.term⟩

end Handlers

/-! ## The rounds -/

section Rounds

variable {C : Cluster} {me voter : NodeId} {node : Node} {bid : VoteRequest}
  {ballot : Ballot} {pending : List NodeId} {votes votes' : List (Vote NodeId NodeId)}

/-- The votes a candidate has counted are in the log, unless it has moved on to
a later term, in which no promotion for the bid happens. -/
def Counted (C : Cluster) (votes : List (Vote NodeId NodeId)) (me : NodeId) (node : Node)
    (term count : Nat) (pending : List NodeId) : Prop :=
  term < node.shared.term ∨
    ∃ quorum : Finset NodeId, Backs C.voters.toFinset votes term me quorum ∧
      count ≤ quorum.card ∧ ∀ v ∈ pending, v ∉ quorum

structure Asking (C : Cluster) (me : NodeId) (bid : VoteRequest)
    (pending : List NodeId) : Prop where
  member : me ∈ C.data
  candidate : bid.candidateId = me
  real : bid.preVote = false
  nodup : pending.Nodup
  voters : ∀ v ∈ pending, v ∈ C.voters

def RoundSound (C : Cluster) (votes : List (Vote NodeId NodeId)) (me : NodeId)
    (node : Node) : Prop :=
  match node.round with
  | .idle => True
  | .preVoting bid probe pending => Asking C me bid pending ∧ probe.newerTerm = none
  | .voting bid _ ballot pending =>
      Asking C me bid pending ∧ ballot.newerTerm = none ∧
        Counted C votes me node bid.term ballot.votes pending
  | .locking term =>
      term < node.shared.term ∨ Elected C.voters.toFinset votes term me
  | .storing term => Elected C.voters.toFinset votes term me

theorem Counted.mono {node' : Node} {term count : Nat} (hsub : votes ⊆ votes')
    (hterm : node.shared.term ≤ node'.shared.term)
    (h : Counted C votes me node term count pending) :
    Counted C votes' me node' term count pending := by
  rcases h with hlate | ⟨quorum, hbacks, hcount, hdisjoint⟩
  · exact .inl (hlate.trans_le hterm)
  · exact .inr ⟨quorum, hbacks.mono hsub, hcount, hdisjoint⟩

/-- A round stays sound while its node only moves on and the log grows. -/
theorem RoundSound.mono {node' : Node} (hsub : votes ⊆ votes')
    (hround : node'.round = node.round) (hterm : node.shared.term ≤ node'.shared.term)
    (h : RoundSound C votes me node) : RoundSound C votes' me node' := by
  unfold RoundSound at h ⊢
  rw [hround]
  split at h
  · trivial
  · exact h
  · exact ⟨h.1, h.2.1, h.2.2.mono hsub hterm⟩
  · rcases h with hlate | helected
    · exact .inl (hlate.trans_le hterm)
    · exact .inr (helected.mono hsub)
  · exact h.mono hsub

theorem roundSound_idle : RoundSound C votes me (node.goto .idle) := trivial

theorem Cluster.voters_card : C.voters.toFinset.card = C.voterSet.total := by
  have hnodup : C.voters.Nodup := C.nodup
  rw [List.toFinset_card_of_nodup hnodup]
  exact List.length_append

theorem Asking.targets (hme : me ∈ C.data) (hbid : bid.candidateId = me)
    (hreal : bid.preVote = false) : Asking C me bid (C.targets me) where
  member := hme
  candidate := hbid
  real := hreal
  nodup := C.nodup.sublist (List.Sublist.append List.filter_sublist (List.Sublist.refl _))
  voters v hv := by
    rcases List.mem_append.mp hv with hpeer | hwitness
    · exact List.mem_append_left _ (List.mem_filter.mp hpeer).1
    · exact List.mem_append_right _ hwitness

theorem Asking.erase (h : Asking C me bid pending) (voter : NodeId) :
    Asking C me bid (pending.erase voter) :=
  { h with
    nodup := h.nodup.erase voter
    voters := fun v hv => h.voters v (List.mem_of_mem_erase hv) }

theorem not_mem_targets (hme : me ∈ C.data) : me ∉ C.targets me := by
  intro h
  rcases List.mem_append.mp h with hpeer | hwitness
  · simpa using (List.mem_filter.mp hpeer).2
  · exact (List.disjoint_of_nodup_append C.nodup) hme hwitness

/-- The candidate's own vote. -/
theorem Counted.own (hme : me ∈ C.data) {term : Nat}
    (hvote : ⟨me, term, me⟩ ∈ votes) : Counted C votes me node term 1 (C.targets me) := by
  refine .inr ⟨{me}, ⟨?_, ?_⟩, le_rfl, ?_⟩
  · rw [Finset.singleton_subset_iff, List.mem_toFinset]
    exact List.mem_append_left _ hme
  · intro v hv
    rw [Finset.mem_singleton.mp hv]
    exact hvote
  · intro v hv hme'
    rw [Finset.mem_singleton.mp hme'] at hv
    exact not_mem_targets hme hv

/-- A counted answer is of the bid's term, or the candidate has moved on. -/
theorem Counted.take (hasking : Asking C me bid pending) {count : Nat}
    (h : Counted C votes me node bid.term count pending) (hpending : voter ∈ pending)
    {resp : VoteResponse} (hterm : resp.term ≤ node.shared.term)
    (hfresh : bid.term ≤ resp.term) (hvote : ⟨voter, resp.term, me⟩ ∈ votes) :
    Counted C votes me node bid.term (count + 1) (pending.erase voter) := by
  rcases h with hlate | ⟨quorum, hbacks, hcount, hdisjoint⟩
  · exact .inl hlate
  · by_cases hsame : resp.term = bid.term
    · rw [hsame] at hvote
      refine .inr ⟨insert voter quorum, hbacks.insert ?_ hvote, ?_, ?_⟩
      · exact List.mem_toFinset.mpr (hasking.voters voter hpending)
      · rw [Finset.card_insert_of_notMem (hdisjoint voter hpending)]
        omega
      · intro v hv hmem
        rcases Finset.mem_insert.mp hmem with rfl | hold
        · exact hasking.nodup.not_mem_erase hv
        · exact hdisjoint v (List.mem_of_mem_erase hv) hold
    · exact .inl (by omega)

theorem Counted.erase {term count : Nat} (h : Counted C votes me node term count pending) :
    Counted C votes me node term count (pending.erase voter) := by
  rcases h with hlate | ⟨quorum, hbacks, hcount, hdisjoint⟩
  · exact .inl hlate
  · exact .inr ⟨quorum, hbacks, hcount, fun v hv => hdisjoint v (List.mem_of_mem_erase hv)⟩

theorem Counted.elected {term count dataVotes : Nat}
    (h : Counted C votes me node term count pending)
    (hwon : C.won me count dataVotes = true) :
    term < node.shared.term ∨ Elected C.voters.toFinset votes term me := by
  rcases h with hlate | ⟨quorum, hbacks, hcount, _⟩
  · exact .inl hlate
  · have hmajority := VoterSet.majority_of_electionWon hwon
    refine .inr ⟨quorum, hbacks, ?_⟩
    rw [Cluster.voters_card]
    omega

/-- The log after the node's vote was written into it. -/
def Shows (votes : List (Vote NodeId NodeId)) (me : NodeId) (node : Node) : Prop :=
  ∀ c, node.register.vote = some c → ⟨me, node.register.term, c⟩ ∈ votes

theorem awaitBallot_spec (probeMaxSeq : Nat) (hasking : Asking C me bid pending)
    (hnewer : ∀ newer, ballot.newerTerm = some newer → node.shared.term < newer)
    (hcounted : ballot.newerTerm = none →
      Counted C votes me node bid.term ballot.votes pending) :
    node.register ≤ (awaitBallot C me node bid probeMaxSeq ballot pending).register ∧
      RoundSound C votes me (awaitBallot C me node bid probeMaxSeq ballot pending) := by
  unfold awaitBallot
  split
  · unfold afterBallot
    split
    · rename_i newer heq
      exact ⟨Node.register_newer (hnewer newer heq), roundSound_idle⟩
    · rename_i hnone
      split
      · exact ⟨le_rfl, roundSound_idle⟩
      · split
        · rename_i hwon
          split
          · exact ⟨le_rfl, roundSound_idle⟩
          · exact ⟨le_rfl, (hcounted hnone).elected hwon⟩
        · exact ⟨le_rfl, roundSound_idle⟩
  · rename_i hopen
    have hnone : ballot.newerTerm = none := by
      cases heq : ballot.newerTerm with
      | none => rfl
      | some newer => simp [solicited, heq] at hopen
    exact ⟨le_rfl, hasking, hnone, hcounted hnone⟩

theorem awaitBallot_register {probeMaxSeq : Nat} (hnone : ballot.newerTerm = none) :
    (awaitBallot C me node bid probeMaxSeq ballot pending).register = node.register := by
  unfold awaitBallot afterBallot
  rw [hnone]
  dsimp only
  split
  · split
    · rfl
    · split
      · split <;> rfl
      · rfl
  · rfl

/-- Once the vote of the candidate for itself is in the log its round is sound. -/
theorem awaitOwnBallot_spec {probeMaxSeq : Nat} (hasking : Asking C me bid (C.targets me))
    (hown : node.register = ⟨bid.term, some me⟩)
    (hshows : Shows votes me (awaitBallot C me node bid probeMaxSeq
      (.start node.shared.appliedSeq) (C.targets me))) :
    RoundSound C votes me (awaitBallot C me node bid probeMaxSeq
      (.start node.shared.appliedSeq) (C.targets me)) := by
  have hvote : ⟨me, bid.term, me⟩ ∈ votes := by
    unfold Shows at hshows
    rw [awaitBallot_register rfl, hown] at hshows
    exact hshows me rfl
  exact (awaitBallot_spec probeMaxSeq hasking (by simp [Ballot.start])
    fun _ => Counted.own hasking.member hvote).2

theorem awaitProbe_spec {probe : Ballot} {persisted : Bool} {node' : Node}
    {sent : List VoteRequest} (hasking : Asking C me bid pending)
    (hnewer : ∀ newer, probe.newerTerm = some newer → node.shared.term < newer)
    (hkeeps : solicited C me probe pending = true → campaigns C me node probe = true →
      node.register ≤ ⟨bid.term, some me⟩)
    (h : awaitProbe C me node bid probe pending persisted = (node', sent)) :
    node.register ≤ node'.register ∧ (∀ req ∈ sent, req.candidateId = me) ∧
      (Shows votes me node' → RoundSound C votes me node') := by
  unfold awaitProbe at h
  split at h
  · rename_i hdone
    unfold afterProbe at h
    split at h
    · rename_i newer heq
      obtain ⟨rfl, rfl⟩ := Prod.mk.inj h
      exact ⟨Node.register_newer (hnewer newer heq), by simp, fun _ => roundSound_idle⟩
    · split at h
      · rename_i hcampaigns
        have hle := hkeeps hdone hcampaigns
        dsimp only at h
        split at h
        · obtain ⟨rfl, rfl⟩ := Prod.mk.inj h
          have hown := Asking.targets hasking.member hasking.candidate hasking.real
          refine ⟨?_, by simpa using hasking.candidate, fun hshows => ?_⟩
          · rw [awaitBallot_register rfl]
            exact hle
          · exact awaitOwnBallot_spec hown rfl hshows
        · obtain ⟨rfl, rfl⟩ := Prod.mk.inj h
          exact ⟨hle, by simp, fun _ => roundSound_idle⟩
      · obtain ⟨rfl, rfl⟩ := Prod.mk.inj h
        exact ⟨le_rfl, by simp, fun _ => roundSound_idle⟩
  · rename_i hopen
    obtain ⟨rfl, rfl⟩ := Prod.mk.inj h
    have hnone : probe.newerTerm = none := by
      cases heq : probe.newerTerm with
      | none => rfl
      | some newer => simp [solicited, heq] at hopen
    exact ⟨le_rfl, by simp, fun _ => ⟨hasking, hnone⟩⟩

theorem startRound_spec {persisted : Bool} {node' : Node} {sent : List VoteRequest}
    (hme : me ∈ C.data) (hidle : node.round = .idle)
    (h : startRound C me node persisted = (node', sent)) :
    node.register ≤ node'.register ∧ (∀ req ∈ sent, req.candidateId = me) ∧
      (Shows votes me node' → RoundSound C votes me node') := by
  unfold startRound at h
  split at h
  · obtain ⟨rfl, rfl⟩ := Prod.mk.inj h
    refine ⟨le_rfl, by simp, fun _ => ?_⟩
    simp [RoundSound, hidle]
  · dsimp only at h
    obtain ⟨rfl, rfl⟩ := Prod.mk.inj h
    let begun : Node := { node with rounds := node.rounds + 1 }
    have hasking : Asking C me (bidOf C me begun) (C.targets me) := .targets hme rfl rfl
    have hspec : ∀ {n sent}, awaitProbe C me begun (bidOf C me begun)
        (.start begun.shared.appliedSeq) (C.targets me) persisted = (n, sent) →
        begun.register ≤ n.register ∧ (∀ req ∈ sent, req.candidateId = me) ∧
          (Shows votes me n → RoundSound C votes me n) :=
      awaitProbe_spec hasking (by simp [Ballot.start])
        fun _ _ => Register.le_of_term_lt (Nat.lt_succ_self node.shared.term)
    obtain ⟨hle, hsent, hround⟩ := hspec rfl
    refine ⟨hle, ?_, hround⟩
    intro req hreq
    rcases List.mem_cons.mp hreq with rfl | hmore
    · rfl
    · exact hsent req hmore

/-- An answer to the round's request: a vote granted to a bid is in the log. -/
def Granted (votes : List (Vote NodeId NodeId)) (me voter : NodeId) (req : VoteRequest)
    (answer : Option VoteResponse) : Prop :=
  ∀ resp, answer = some resp → req.preVote = false → resp.granted = true →
    req.term ≤ resp.term ∧ ⟨voter, resp.term, me⟩ ∈ votes

theorem Ballot.take_newerTerm {term : Nat} {isData : Bool} {answer : Option VoteResponse}
    (hnone : ballot.newerTerm = none) {newer : Nat}
    (h : (ballot.take term isData answer).newerTerm = some newer) : term < newer := by
  cases answer with
  | none => simp [Ballot.take, hnone] at h
  | some resp =>
      unfold Ballot.take Ballot.count at h
      dsimp only at h
      split at h
      · rename_i hlt
        obtain rfl : resp.term = newer := by simpa using h
        exact hlt
      · split at h <;> simp [hnone] at h

theorem Counted.answer {isData : Bool} {answer : Option VoteResponse}
    (hasking : Asking C me bid pending) (hpending : voter ∈ pending)
    (h : Counted C votes me node bid.term ballot.votes pending)
    (hanswer : Granted votes me voter bid answer)
    (hnone : (ballot.take node.shared.term isData answer).newerTerm = none) :
    Counted C votes me node bid.term
      (ballot.take node.shared.term isData answer).votes (pending.erase voter) := by
  cases answer with
  | none => exact h.erase
  | some resp =>
      unfold Ballot.take Ballot.count at hnone ⊢
      dsimp only at hnone ⊢
      split at hnone
      · simp at hnone
      · rename_i hterm
        rw [if_neg hterm]
        split
        · rename_i hgranted
          obtain ⟨hfresh, hvote⟩ := hanswer resp rfl hasking.real hgranted
          exact h.take hasking hpending (by omega) hfresh hvote
        · exact h.erase

theorem resumeRound_spec {answer : Option VoteResponse} {persisted : Bool} {node' : Node}
    {sent : List VoteRequest} {req : VoteRequest}
    (hsound : RoundSound C votes me node) (hasks : node.round.asks = some (req, pending))
    (hpending : voter ∈ pending) (hanswer : Granted votes me voter req answer)
    (hkeeps : node.keepsVote C me voter answer = true) (hsub : votes ⊆ votes')
    (h : resumeRound C me node voter answer persisted = (node', sent)) :
    node.register ≤ node'.register ∧ (∀ req ∈ sent, req.candidateId = me) ∧
      (Shows votes' me node' → RoundSound C votes' me node') := by
  unfold resumeRound at h
  unfold RoundSound at hsound
  unfold Node.keepsVote at hkeeps
  cases hround : node.round with
  | preVoting bid probe waiting =>
      rw [hround] at h hsound hkeeps hasks
      obtain ⟨rfl, rfl⟩ : _ = req ∧ waiting = pending := by simpa [Round.asks] using hasks
      refine awaitProbe_spec (hsound.1.erase voter)
        (fun _ => Ballot.take_newerTerm hsound.2) ?_ h
      intro hdone hcampaigns
      dsimp only at hkeeps
      rw [hdone, hcampaigns] at hkeeps
      exact of_decide_eq_true hkeeps
  | voting bid probeMaxSeq ballot waiting =>
      rw [hround] at h hsound hasks
      obtain ⟨rfl, rfl⟩ : bid = req ∧ waiting = pending := by simpa [Round.asks] using hasks
      obtain ⟨rfl, rfl⟩ := Prod.mk.inj h
      obtain ⟨hasking, hnone, hcounted⟩ := hsound
      have hcounted' : (ballot.take node.shared.term (C.data.contains voter)
          answer).newerTerm = none → Counted C votes' me node bid.term
            (ballot.take node.shared.term (C.data.contains voter) answer).votes
            (waiting.erase voter) := fun hopen =>
        (hcounted.answer hasking hpending hanswer hopen).mono hsub le_rfl
      have hspec := awaitBallot_spec probeMaxSeq (hasking.erase voter)
        (fun _ => Ballot.take_newerTerm hnone) hcounted'
      exact ⟨hspec.1, by simp, fun _ => hspec.2⟩
  | idle => rw [hround] at hasks; cases hasks
  | locking term => rw [hround] at hasks; cases hasks
  | storing term => rw [hround] at hasks; cases hasks

end Rounds

/-! ## The cluster -/

structure Safe (C : Cluster) (s : Net) : Prop where
  logged : Logged (fun id => (s.node id).register) s.votes
  asked : ∀ e ∈ s.requests, e.req.candidateId = e.candidate
  parked : ∀ p ∈ s.parkedVotes, p.envelope.req.candidateId = p.envelope.candidate ∧
    p.envelope.req.term ≤ (s.node p.envelope.voter).shared.term
  answered : ∀ a ∈ s.answers, Granted s.votes a.candidate a.voter a.req (some a.resp)
  rounds : ∀ me, RoundSound C s.votes me (s.node me)
  promoted : ∀ p ∈ s.promoted, Elected C.voters.toFinset s.votes p.1 p.2

/-- A step keeps the invariant and only advances registers. -/
structure Advanced (C : Cluster) (s s' : Net) : Prop where
  safe : Safe C s'
  registers : ∀ id, (s.node id).register ≤ (s'.node id).register

section Steps

variable {C : Cluster} {s s' : Net} {me : NodeId} {node : Node}

theorem Granted.mono {votes votes' : List (Vote NodeId NodeId)} {voter : NodeId}
    {req : VoteRequest} {answer : Option VoteResponse} (hsub : votes ⊆ votes')
    (h : Granted votes me voter req answer) : Granted votes' me voter req answer := by
  intro resp hresp hreal hgranted
  obtain ⟨hterm, hvote⟩ := h resp hresp hreal hgranted
  exact ⟨hterm, hsub hvote⟩

theorem Net.votes_put : s.votes ⊆ (s.put me node).votes := by
  intro v hv
  unfold Net.put
  dsimp only
  split
  · exact List.mem_cons_of_mem _ hv
  · exact hv

theorem Net.node_put_self : (s.put me node).node me = node := if_pos rfl

theorem Net.node_put_ne {id : NodeId} (h : id ≠ me) : (s.put me node).node id = s.node id :=
  if_neg h

theorem Net.put_shows : Shows (s.put me node).votes me node := by
  intro c hc
  have hvote : node.shared.votedFor = some c := hc
  simp [Net.put, hvote, Node.register]

theorem Net.register_put (hle : (s.node me).register ≤ node.register) (id : NodeId) :
    (s.node id).register ≤ ((s.put me node).node id).register := by
  by_cases hid : id = me
  · subst hid
    rw [node_put_self]
    exact hle
  · rw [node_put_ne hid]

theorem Logged.put (h : Logged (fun id => (s.node id).register) s.votes)
    (hle : (s.node me).register ≤ node.register) :
    Logged (fun id => ((s.put me node).node id).register) (s.put me node).votes := by
  have hadvanced := h.advance (Net.register_put hle)
  cases hvote : node.shared.votedFor with
  | none => simpa [Net.put, hvote] using hadvanced
  | some c =>
      have hshown : ((s.put me node).node me).register = ⟨node.shared.term, some c⟩ := by
        rw [Net.node_put_self, Node.register, hvote]
      have hwritten := hadvanced.write (congrArg Register.vote hshown)
      rw [hshown] at hwritten
      simpa [Net.put, hvote] using hwritten

/-- Writing back a node whose register advanced and whose round is sound. -/
theorem Safe.put (h : Safe C s) (hle : (s.node me).register ≤ node.register)
    (hround : RoundSound C (s.put me node).votes me node) :
    Advanced C s (s.put me node) where
  registers := Net.register_put hle
  safe :=
    { logged := Logged.put h.logged hle
      asked := h.asked
      parked := fun p hp => by
        obtain ⟨hid, hterm⟩ := h.parked p hp
        exact ⟨hid, hterm.trans (Register.term_le (Net.register_put hle _))⟩
      answered := fun a ha => (h.answered a ha).mono Net.votes_put
      rounds := fun id => by
        by_cases hid : id = me
        · subst hid
          rw [Net.node_put_self]
          exact hround
        · rw [Net.node_put_ne hid]
          exact (h.rounds id).mono Net.votes_put rfl le_rfl
      promoted := fun p hp => (h.promoted p hp).mono Net.votes_put }

/-- Writing back a node whose register advanced and whose round is the same. -/
theorem Safe.put_same (h : Safe C s) (hle : (s.node me).register ≤ node.register)
    (hround : node.round = (s.node me).round) : Advanced C s (s.put me node) :=
  h.put hle ((h.rounds me).mono Net.votes_put hround (Register.term_le hle))

theorem Advanced.send (h : Advanced C s s') {sent : List VoteRequest}
    (hsent : ∀ req ∈ sent, req.candidateId = me) : Advanced C s (s'.send C me sent) where
  registers := h.registers
  safe :=
    { h.safe with
      asked := fun e he => by
        rcases List.mem_append.mp he with hold | hnew
        · exact h.safe.asked e hold
        · obtain ⟨req, hreq, hmem⟩ := List.mem_flatMap.mp hnew
          obtain ⟨voter, _, rfl⟩ := List.mem_map.mp hmem
          exact hsent req hreq }

theorem Advanced.answerVote (h : Advanced C s s') {e : Envelope} {resp : VoteResponse}
    (hresp : Granted s'.votes e.candidate e.voter e.req (some resp)) :
    Advanced C s (s'.answerVote e resp) where
  registers := h.registers
  safe :=
    { h.safe with
      answered := fun a ha => by
        rcases List.mem_append.mp ha with hold | hnew
        · exact h.safe.answered a hold
        · rw [List.mem_singleton.mp hnew]
          exact hresp }

/-- A granted answer that carries the vote the register shows. -/
theorem granted_of_shown {e : Envelope} {resp : VoteResponse} {node : Node}
    (hid : e.req.candidateId = e.candidate)
    (h : e.req.preVote = false → resp.granted = true →
      e.req.term ≤ resp.term ∧ node.register = ⟨resp.term, some e.req.candidateId⟩) :
    Granted (s.put e.voter node).votes e.candidate e.voter e.req (some resp) := by
  rintro r ⟨⟩ hreal hgranted
  obtain ⟨hterm, hreg⟩ := h hreal hgranted
  have hshown : Shows (s.put e.voter node).votes e.voter node := Net.put_shows
  unfold Shows at hshown
  rw [hreg] at hshown
  exact ⟨hterm, hid ▸ hshown _ rfl⟩

theorem resumed_advanced (h : Safe C s) {voter : NodeId} {answer : Option VoteResponse}
    {persisted : Bool} {req : VoteRequest} {pending : List NodeId}
    (hasks : (s.node me).round.asks = some (req, pending)) (hpending : voter ∈ pending)
    (hanswer : Granted s.votes me voter req answer)
    (hkeeps : (s.node me).keepsVote C me voter answer = true) :
    Advanced C s (resumed C s me voter answer persisted) := by
  unfold resumed
  cases hres : resumeRound C me (s.node me) voter answer persisted with
  | mk node sent =>
      obtain ⟨hle, hsent, hround⟩ := resumeRound_spec (h.rounds me) hasks hpending hanswer
        hkeeps Net.votes_put hres
      exact (h.put hle (hround Net.put_shows)).send hsent

theorem startRound_advanced (h : Safe C s) {persisted : Bool}
    (hstep : step C s (.startRound me persisted) = some s') : Advanced C s s' := by
  unfold step at hstep
  simp only at hstep
  split at hstep
  · rename_i hcan
    cases hres : startRound C me (s.node me) persisted with
    | mk node sent =>
        rw [hres] at hstep
        obtain rfl := Option.some.inj hstep
        obtain ⟨hle, hsent, hround⟩ := startRound_spec hcan.1 hcan.2 hres
        exact (h.put hle (hround Net.put_shows)).send hsent
  · cases hstep

theorem deliverVote_advanced (h : Safe C s) {e : Envelope} {now : Nat} {persisted : Bool}
    (hstep : step C s (.deliverVote e now persisted) = some s') : Advanced C s s' := by
  unfold step at hstep
  simp only at hstep
  split at hstep
  · rename_i hsent
    have hid := h.asked e hsent
    split at hstep
    · rename_i node resp hres
      obtain rfl := Option.some.inj hstep
      obtain ⟨hle, hround, hgranted, _⟩ := handleVote_spec hres
      exact (h.put_same hle hround).answerVote (granted_of_shown hid (hgranted resp rfl))
    · rename_i node hres
      obtain rfl := Option.some.inj hstep
      obtain ⟨hle, hround, _, hparked⟩ := handleVote_spec hres
      have hput := h.put_same hle hround
      refine ⟨{ hput.safe with parked := ?_ }, hput.registers⟩
      intro p hp
      rcases List.mem_cons.mp hp with rfl | hold
      · refine ⟨hid, ?_⟩
        change e.req.term ≤ ((s.put e.voter node).node e.voter).shared.term
        rw [Net.node_put_self]
        exact (hparked rfl).2
      · exact hput.safe.parked p hold
  · cases hstep

theorem resumeVote_advanced (h : Safe C s) {p : ParkedVote} {now : Nat} {persisted : Bool}
    (hstep : step C s (.resumeVote p now persisted) = some s') : Advanced C s s' := by
  unfold step at hstep
  simp only at hstep
  split at hstep
  · rename_i hparked
    obtain ⟨hid, hterm⟩ := h.parked p hparked
    let freed : Net := { s with parkedVotes := s.parkedVotes.erase p }
    have hfreed : Safe C freed :=
      { h with parked := fun q hq => h.parked q (List.mem_of_mem_erase hq) }
    cases hres : grantVote (s.node p.envelope.voter) p.appliedSeq p.envelope.req now
        persisted with
    | mk node resp =>
        rw [hres] at hstep
        obtain rfl := Option.some.inj hstep
        obtain ⟨hle, hround, hgranted⟩ := grantVote_spec hres
        have hput : Advanced C freed (freed.put p.envelope.voter node) :=
          hfreed.put_same hle hround
        have hadvanced := hput.answerVote (granted_of_shown hid fun _ hgrant => by
          obtain ⟨heq, hreg⟩ := hgranted hgrant
          exact ⟨heq ▸ hterm, hreg⟩)
        exact ⟨hadvanced.safe, hadvanced.registers⟩
  · cases hstep

theorem answered_advanced (h : Safe C s) {a : Answer} {persisted : Bool}
    (hstep : step C s (.answered a persisted) = some s')
    (hkeeps : (s.node a.candidate).keepsVote C a.candidate a.voter (some a.resp) = true) :
    Advanced C s s' := by
  unfold step at hstep
  simp only at hstep
  split at hstep
  · rename_i req pending hasks
    split at hstep
    · rename_i hcan
      obtain ⟨hmem, _, rfl, hpending⟩ := hcan
      obtain rfl := Option.some.inj hstep
      exact resumed_advanced h hasks hpending (h.answered a hmem) hkeeps
    · cases hstep
  · cases hstep

theorem unanswered_advanced (h : Safe C s) {voter : NodeId} {persisted : Bool}
    (hstep : step C s (.unanswered me voter persisted) = some s')
    (hkeeps : (s.node me).keepsVote C me voter none = true) : Advanced C s s' := by
  unfold step at hstep
  simp only at hstep
  split at hstep
  · rename_i req pending hasks
    split at hstep
    · rename_i hpending
      obtain rfl := Option.some.inj hstep
      exact resumed_advanced h hasks hpending (fun _ hnone => by cases hnone) hkeeps
    · cases hstep
  · cases hstep

theorem promoteLocked_advanced (h : Safe C s)
    (hstep : step C s (.promoteLocked me) = some s') : Advanced C s s' := by
  unfold step at hstep
  simp only at hstep
  split at hstep
  · rename_i term hround
    obtain rfl := Option.some.inj hstep
    have hsound := h.rounds me
    unfold RoundSound at hsound
    rw [hround] at hsound
    unfold promoteLocked
    split
    · exact h.put le_rfl roundSound_idle
    · rename_i hcurrent
      have hterm : (s.node me).shared.term = term := by
        simp only [Bool.or_eq_true, bne_iff_ne, not_or, not_not] at hcurrent
        exact hcurrent.2
      have helected := hsound.resolve_left (by omega)
      exact h.put le_rfl (helected.mono Net.votes_put)
  · cases hstep

theorem promoteStored_advanced (h : Safe C s) {dbEpoch seq now : Nat}
    (hstep : step C s (.promoteStored me dbEpoch seq now) = some s') : Advanced C s s' := by
  unfold step at hstep
  simp only at hstep
  split at hstep
  · rename_i term hround
    obtain rfl := Option.some.inj hstep
    have helected := h.rounds me
    unfold RoundSound at helected
    rw [hround] at helected
    have hput : Advanced C s
        (s.put me (promoteStored me (s.node me) term dbEpoch seq now)) :=
      h.put le_rfl trivial
    refine ⟨{ hput.safe with promoted := ?_ }, hput.registers⟩
    intro p hp
    rcases List.mem_cons.mp hp with rfl | hold
    · exact helected.mono Net.votes_put
    · exact hput.safe.promoted p hold
  · cases hstep

theorem deliverHeartbeat_advanced (h : Safe C s) {req : HeartbeatRequest} {now : Nat}
    (hstep : step C s (.deliverHeartbeat me req now) = some s') : Advanced C s s' := by
  unfold step at hstep
  simp only at hstep
  split at hstep
  · have hput : Advanced C s (s.put me (handleHeartbeat C me (s.node me)
        (s.node me).shared.appliedSeq req now).1) :=
      h.put_same handleHeartbeat_spec.1 handleHeartbeat_spec.2
    split at hstep
    all_goals
      rename_i hres
      rw [hres] at hput
      obtain rfl := Option.some.inj hstep
      exact ⟨{ hput.safe with }, hput.registers⟩
  · cases hstep

theorem heartbeatAnswered_advanced (h : Safe C s) {resp : HeartbeatResponse}
    (hstep : step C s (.heartbeatAnswered me resp) = some s') : Advanced C s s' := by
  unfold step at hstep
  simp only at hstep
  split at hstep
  · obtain rfl := Option.some.inj hstep
    unfold heartbeatAnswered
    split
    · rename_i hnewer
      exact h.put_same (by simpa using Node.register_newer hnewer)
        (by simp [Node.setTermAndVote])
    · exact h.put_same le_rfl rfl
  · cases hstep

theorem step_advanced (h : Safe C s) {e : Event} (hstep : Step C s e s')
    (hkeeps : e.keepsVote C s = true) : Advanced C s s' := by
  cases e with
  | startRound me persisted => exact startRound_advanced h hstep
  | deliverVote e now persisted => exact deliverVote_advanced h hstep
  | resumeVote p now persisted => exact resumeVote_advanced h hstep
  | answered a persisted => exact answered_advanced h hstep hkeeps
  | unanswered me voter persisted => exact unanswered_advanced h hstep hkeeps
  | promoteLocked me => exact promoteLocked_advanced h hstep
  | promoteStored me dbEpoch seq now => exact promoteStored_advanced h hstep
  | promoteFailed me =>
      unfold Step step at hstep
      simp only at hstep
      split at hstep
      · obtain rfl := Option.some.inj hstep
        exact h.put le_rfl roundSound_idle
      · cases hstep
  | heartbeat me =>
      unfold Step step at hstep
      simp only at hstep
      split at hstep
      · obtain rfl := Option.some.inj hstep
        exact ⟨{ h with }, fun _ => le_rfl⟩
      · cases hstep
  | deliverHeartbeat me req now => exact deliverHeartbeat_advanced h hstep
  | resumeHeartbeat p now =>
      unfold Step step at hstep
      simp only at hstep
      split at hstep
      · obtain rfl := Option.some.inj hstep
        have hput : Advanced C s (s.put p.me (acceptLeader (s.node p.me) p.appliedSeq
            p.req p.current now).1) := h.put_same le_rfl rfl
        exact ⟨{ hput.safe with }, hput.registers⟩
      · cases hstep
  | heartbeatAnswered me resp => exact heartbeatAnswered_advanced h hstep
  | demote me =>
      obtain rfl := Option.some.inj hstep
      exact h.put_same (by simp) (by simp)
  | replicated me appliedSeq needFullSnapshot =>
      obtain rfl := Option.some.inj hstep
      exact h.put_same le_rfl rfl

/-- The nodes at rest, with the terms and votes they loaded, and nothing on the
network. -/
structure Net.Fresh (s : Net) : Prop where
  rounds : ∀ id, (s.node id).round = .idle
  requests : s.requests = []
  answers : s.answers = []
  parkedVotes : s.parkedVotes = []
  votes : s.votes = []
  promoted : s.promoted = []

theorem safe_of_fresh (h : s.Fresh) : Safe C s where
  logged := h.votes ▸ .nil _
  asked := by simp [h.requests]
  parked := by simp [h.parkedVotes]
  answered := by simp [h.answers]
  rounds me := by simp [RoundSound, h.rounds me]
  promoted := by simp [h.promoted]

theorem run_advanced {es : List Event}
    (hrun : Runs (During (Step C) fun s e => e.keepsVote C s = true) s es s') (h : Safe C s) :
    Advanced C s s' := by
  induction hrun with
  | refl => exact ⟨h, fun _ => le_rfl⟩
  | next hfirst _ ih =>
      have hnext := step_advanced h hfirst.1 hfirst.2
      have hrest := ih hnext.safe
      exact ⟨hrest.safe, fun id => (hnext.registers id).trans (hrest.registers id)⟩

end Steps

/-- In every run in which a candidate votes for itself only while its term and
vote allow it, a term has at most one promotion, no voter's term goes back, a
recorded vote stays for the rest of its term, and all votes ever recorded by
one voter in one term are for one candidate. -/
theorem election_safety {C : Cluster} {s₀ s₁ s₂ : Net} {es es' : List Event}
    (hfresh : s₀.Fresh)
    (hbefore : Runs (During (Step C) fun s e => e.keepsVote C s = true) s₀ es s₁)
    (hafter : Runs (During (Step C) fun s e => e.keepsVote C s = true) s₁ es' s₂) :
    (∀ term a b, (term, a) ∈ s₂.promoted → (term, b) ∈ s₂.promoted → a = b) ∧
      (∀ id, (s₁.node id).shared.term ≤ (s₂.node id).shared.term) ∧
      (∀ id c, (s₂.node id).shared.term = (s₁.node id).shared.term →
        (s₁.node id).shared.votedFor = some c → (s₂.node id).shared.votedFor = some c) ∧
      (∀ v ∈ s₂.votes, ∀ w ∈ s₂.votes, v.voter = w.voter → v.term = w.term →
        v.candidate = w.candidate) := by
  have hfirst := run_advanced hbefore (safe_of_fresh hfresh)
  have hsecond := run_advanced hafter hfirst.safe
  have hlog := hsecond.safe.logged
  refine ⟨?_, fun id => Register.term_le (hsecond.registers id), ?_, hlog.once⟩
  · intro term a b ha hb
    exact Elected.unique hlog (hsecond.safe.promoted _ ha) (hsecond.safe.promoted _ hb)
  · intro id c hterm hc
    exact Register.vote_of_le (hsecond.registers id) hterm hc

def trio : Cluster where
  clusterId := "prod"
  data := ["a", "b", "c"]
  witnesses := []
  rpoMode := fun _ => .sync
  electionTimeoutMs := fun _ => 600
  nodup := by decide

/-- The request of a candidate of term 1 and the answer that grants it. -/
def bidOne (candidate voter : NodeId) (preVote : Bool) : Envelope :=
  ⟨candidate, 1, voter, ⟨"prod", 1, candidate, 0, preVote⟩⟩

def grantOne (candidate voter : NodeId) (preVote : Bool) : Answer :=
  ⟨candidate, 1, voter, ⟨"prod", 1, candidate, 0, preVote⟩,
   ⟨if preVote then 0 else 1, true, 0⟩⟩

/-- `a` and `b` start a round, `c` grants both pre-votes, and `b`, with the vote
of `a`, wins term 1. -/
def electB : List Event :=
  [.startRound "a" true, .startRound "b" true,
   .deliverVote (bidOne "a" "c" true) 700 true, .deliverVote (bidOne "b" "c" true) 700 true,
   .answered (grantOne "b" "c" true) true, .deliverVote (bidOne "b" "a" false) 700 true,
   .answered (grantOne "b" "a" false) true, .promoteLocked "b", .promoteStored "b" 0 0 710]

/-- The election of `b` alone. -/
theorem election_safety_elected : ∃ s : Net, s.promoted = [(1, "b")] ∧
    ∀ term x y, (term, x) ∈ s.promoted → (term, y) ∈ s.promoted → x = y := by
  have hsome : (electB.foldlM (fun s e => if Event.keepsVote trio s e then
      step trio s e else none) {}).isSome = true := by decide
  obtain ⟨s, hs⟩ := Option.isSome_iff_exists.mp hsome
  have hpromoted : (electB.foldlM (fun s e => if Event.keepsVote trio s e then
      step trio s e else none) {}).map Net.promoted = some [(1, "b")] := by decide
  rw [hs] at hpromoted
  have hfresh : ({} : Net).Fresh := ⟨fun _ => rfl, rfl, rfl, rfl, rfl, rfl⟩
  exact ⟨s, Option.some.inj hpromoted,
    (election_safety hfresh (.refl _) (Runs.foldlM hs)).1⟩

/-- `a`, which waited for its pre-vote meanwhile, votes for itself in the term in
which it has voted for `b`, and is promoted with the vote of `c`. -/
def electBoth : List Event :=
  electB ++ [Event.answered (grantOne "a" "c" true) true,
    .deliverVote (bidOne "a" "c" false) 720 true, .answered (grantOne "a" "c" false) true,
    .promoteLocked "a", .promoteStored "a" 0 0 730]

theorem two_leaders_of_one_term : ¬ ∀ (C : Cluster) (s₀ s : Net) (es : List Event),
    s₀.Fresh → Runs (Step C) s₀ es s →
    ∀ term a b, (term, a) ∈ s.promoted → (term, b) ∈ s.promoted → a = b := by
  intro h
  have hsome : (electBoth.foldlM (fun s e => if true then step trio s e else none)
      {}).isSome = true := by decide
  obtain ⟨s, hs⟩ := Option.isSome_iff_exists.mp hsome
  have hpromoted : (electBoth.foldlM (fun s e => if true then step trio s e else none)
      {}).map Net.promoted = some [(1, "a"), (1, "b")] := by decide
  rw [hs] at hpromoted
  have hboth : s.promoted = [(1, "a"), (1, "b")] := Option.some.inj hpromoted
  have hrun : Runs (Step trio) {} electBoth s := (Runs.foldlM hs).mono And.left
  have heq := h trio {} s electBoth ⟨fun _ => rfl, rfl, rfl, rfl, rfl, rfl⟩ hrun 1 "a" "b"
    (by simp [hboth]) (by simp [hboth])
  exact absurd heq (by decide)

end AgentGrid.Ha
