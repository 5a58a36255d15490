import AgentGrid.Store.Refinement.Loss

/-!
# Node operations as ledger moves

Enrollment adds a host; heartbeats and status changes do not touch the slot
count; the offline sweeps are node losses.
-/

namespace AgentGrid.Store

open AgentGrid.Foundation AgentGrid.Foundation.Ledger

variable {db : Database} {quiet : String → Prop}

theorem ledger_updateNodes {p : Node → Bool} {f : Node → Node}
    (hf : ∀ n, (f n).host = n.host) : (db.updateNodes p f).ledger = db.ledger := by
  have hnodes : (updateWhere p f db.nodes).map Node.host = db.nodes.map Node.host :=
    map_updateWhere_of_eq fun n _ _ => hf n
  simp only [Database.ledger, Database.updateNodes, hnodes]

theorem updateNodes_traced {p : Node → Bool} {f : Node → Node}
    (hf : ∀ n, (f n).host = n.host) : Traced db (db.updateNodes p f) quiet :=
  .of_ledger_eq (ledger_updateNodes hf)

theorem Traced.audit {db' : Database} (h : Traced db db' quiet) (event : AuditEvent) :
    Traced db (db'.audit event) quiet :=
  h

theorem narrows_updateNodes (db : Database) (p : Node → Bool) (f : Node → Node) :
    Narrows db (db.updateNodes p f) :=
  ⟨fun _ h _ => h, fun _ => rfl, fun _ => rfl⟩

theorem insertNode_traced {n : Node} (hslots : n.activeAttempts = 0)
    (hfresh : db.node n.id = none) :
    Traced db { db with nodes := db.nodes ++ [n] } quiet := by
  refine .one (.enroll n.id) rfl ?_ ?_ (fun _ _ => trivial)
  · intro h hh
    obtain ⟨n', hn', rfl⟩ := List.mem_map.mp hh
    exact lookup_none hfresh n' hn'
  · simp [Database.ledger, Ledger.apply, Node.host, hslots]

theorem registerOrTouchNode_traced (req : PollRequest) (now : String) :
    Traced db (registerOrTouchNode db req now) quiet := by
  unfold registerOrTouchNode
  cases hrow : db.node req.nodeId with
  | none => exact insertNode_traced rfl hrow
  | some n => exact updateNodes_traced fun _ => rfl

theorem enrollNode_traced (req : EnrollRequest) (nodeId credHash now : String) :
    Traced db (enrollNode db req nodeId credHash now).1 quiet := by
  unfold enrollNode
  cases hrow : db.node nodeId with
  | some n => exact .of_ledger_eq rfl
  | none =>
      apply Traced.audit
      exact insertNode_traced rfl hrow

theorem rekeyNode_traced (nodeId credHash now : String) :
    Traced db (rekeyNode db nodeId credHash now).1 quiet := by
  unfold rekeyNode
  cases db.node nodeId with
  | none => exact .of_ledger_eq rfl
  | some n =>
      apply Traced.audit
      exact updateNodes_traced fun _ => rfl

theorem heartbeat_traced (nodeId : String) (req : HeartbeatRequest) (now : String) :
    Traced db (heartbeat db nodeId req now).1 quiet :=
  updateNodes_traced fun _ => rfl

theorem revokeNode_traced (nodeId now : String) :
    Traced db (revokeNode db nodeId now).1 quiet := by
  unfold revokeNode
  dsimp only
  split
  · apply Traced.audit
    exact updateNodes_traced fun _ => rfl
  · exact updateNodes_traced fun _ => rfl

theorem setNodeDrained_traced (nodeId : String) (drained : Bool) (now : String) :
    Traced db (setNodeDrained db nodeId drained now).1 quiet := by
  unfold setNodeDrained
  dsimp only
  split
  · apply Traced.audit
    exact updateNodes_traced fun _ => rfl
  · exact updateNodes_traced fun _ => rfl

theorem setNodeDegraded_traced (nodeId : String) :
    Traced db (setNodeDegraded db nodeId) quiet :=
  updateNodes_traced fun _ => rfl

theorem loseNodeAttemptsIfOffline_traced (hdb : db.Sound) (nodeId now : String) :
    Traced db (loseNodeAttemptsIfOffline db nodeId now) (fun k =>
      (∃ n ∈ db.nodes, n.id = nodeId ∧ n.status = .offline) →
        db.LossKeepsCancel nodeId k) := by
  unfold loseNodeAttemptsIfOffline
  split
  · rename_i n hrow
    obtain ⟨hn, hid⟩ := lookup_mem hrow
    split
    · rename_i hoffline
      exact (loseNodeAttempts_traced hdb nodeId now).1.mono
        fun k hk => hk ⟨n, hn, hid, hoffline⟩
    · exact .of_ledger_eq rfl
  · exact .of_ledger_eq rfl

/-- A status write on the node followed by its loss. -/
theorem offline_traced (hdb : db.Sound) {p : Node → Bool} {f : Node → Node}
    (hf : ∀ n, (f n).host = n.host) (nodeId now : String) :
    Traced db (loseNodeAttempts (db.updateNodes p f) nodeId now)
        (db.LossKeepsCancel nodeId) ∧
      Narrows db (loseNodeAttempts (db.updateNodes p f) nodeId now) := by
  have hledger : (db.updateNodes p f).ledger = db.ledger := ledger_updateNodes hf
  have hsound : (db.updateNodes p f).Sound := by
    rw [Database.Sound, hledger]
    exact hdb
  have hnarrows := narrows_updateNodes db p f
  obtain ⟨htraced, hlost⟩ := loseNodeAttempts_traced hsound nodeId now
  exact ⟨(Traced.of_ledger_eq hledger).trans
    (htraced.mono fun k hk => hnarrows.lossKeepsCancel hk), hnarrows.trans hlost⟩

theorem markNodeOffline_traced (hdb : db.Sound) (nodeId now : String) :
    Traced db (markNodeOffline db nodeId now).1 (fun k =>
      (∃ n ∈ db.nodes, n.id = nodeId ∧ n.canGoOffline = true) →
        db.LossKeepsCancel nodeId k) := by
  unfold markNodeOffline
  dsimp only
  split
  · rename_i haffected
    obtain ⟨n, hn, hhit⟩ := List.countP_pos_iff.mp
      (haffected.symm ▸ Nat.one_pos : 0 < db.nodes.countP
        fun n => n.id == nodeId && n.canGoOffline)
    rw [Bool.and_eq_true, beq_iff_eq] at hhit
    refine (offline_traced hdb ?_ nodeId now).1.mono fun k hk => hk ⟨n, hn, hhit⟩
    intro n
    rfl
  · exact updateNodes_traced fun _ => rfl

theorem markOffline_traced (hdb : db.Sound) (now : String) (row : Node) :
    Traced db (markOffline now db row) (db.LossKeepsCancel row.id) ∧
      Narrows db (markOffline now db row) := by
  unfold markOffline
  dsimp only
  split
  · exact ⟨updateNodes_traced fun _ => rfl, narrows_updateNodes db _ _⟩
  · refine offline_traced hdb ?_ row.id now
    intro n
    rfl

theorem foldl_markOffline_traced (now : String) (rows : List Node) (hdb : db.Sound) :
    Traced db (rows.foldl (markOffline now) db)
      (fun k => ∀ n ∈ rows, db.LossKeepsCancel n.id k) := by
  induction rows generalizing db with
  | nil => exact .of_ledger_eq rfl
  | cons row rows ih =>
      obtain ⟨hfirst, hnarrows⟩ := markOffline_traced hdb now row
      refine (hfirst.mono fun k hk => hk row (List.mem_cons_self ..)).trans
        ((ih (hfirst.sound hdb)).mono ?_)
      intro k hk n hn
      exact hnarrows.lossKeepsCancel (hk n (List.mem_cons_of_mem _ hn))

theorem markOfflineNodes_traced (hdb : db.Sound) (cutoff now : String) :
    Traced db (markOfflineNodes db cutoff now) (fun k =>
      ∀ n ∈ db.nodes, n.status = .online → n.lastHeartbeatAt.all (· < cutoff) = true →
        db.LossKeepsCancel n.id k) := by
  refine (foldl_markOffline_traced now _ hdb).mono ?_
  intro k hk n hn
  obtain ⟨hmem, hstale⟩ := List.mem_filter.mp hn
  rw [Bool.and_eq_true, beq_iff_eq] at hstale
  exact hk n hmem hstale.1 hstale.2

theorem inFlightCount_carried (nodeId : String) :
    inFlightCount db nodeId = carried discipline db.ledger.leases nodeId := by
  rw [inFlightCount, carried, Database.ledger, List.countP_map]
  rfl

theorem slots_exact (hdb : db.Sound) {n : Node} (hn : n ∈ db.nodes) :
    n.activeAttempts = inFlightCount db n.id := by
  rw [inFlightCount_carried]
  exact hdb.slots n.host (List.mem_map_of_mem hn)

theorem reconcileActiveAttempts_eq (hdb : db.Sound) :
    reconcileActiveAttempts db = (db, 0) := by
  have hexact : ∀ n ∈ db.nodes, (n.activeAttempts != inFlightCount db n.id) = false := by
    intro n hn
    simp [slots_exact hdb hn]
  have hcount : db.nodes.countP
      (fun n => n.activeAttempts != inFlightCount db n.id) = 0 := by
    rw [List.countP_eq_zero]
    intro n hn
    simp [hexact n hn]
  simp only [reconcileActiveAttempts, Database.updateNodes,
    updateWhere_of_forall_not hexact, hcount]

end AgentGrid.Store
