import AgentGrid.Acp.Replies
import AgentGrid.Foundation.Transition

/-!
# Requests of the client and of the server

`request` draws an id, registers a call, sends, and awaits the answer; the steps of
concurrent requests interleave with the reading loop, and a future may be dropped
at any await.  The client drains the map when its reader ends.  The server does not:
a call that waits when its reading loop ends, or whose request goes out later, waits
for ever.
-/

namespace AgentGrid.Acp

open AgentGrid.Foundation
open AgentGrid.Node (Json)

/-! ## The client -/

inductive AcpError
  | io (text : String)
  | rpc (e : RpcError)
  | channelClosed
  | unexpected

def clientResult : Message → Except AcpError Json
  | .response _ (.ok v) => .ok v
  | .response _ (.error e) => .error (.rpc e)
  | _ => .error .unexpected

structure Client where
  next : UInt64 := 1
  drawn : List Id := []
  pending : Replies AcpError := {}
  inbox : List Message := []
  notifications : List Message := []
  ended : Bool := false

namespace Client

variable (serde : Serde) (C : Client)

/-- `Id::Num(self.next.fetch_add(1) as i64)`. -/
def draw : Client :=
  { C with next := C.next + 1, drawn := C.drawn ++ [.num C.next.toInt64] }

def register (j : Nat) : Option Client :=
  C.drawn[j]?.map fun id =>
    { C with drawn := C.drawn.eraseIdx j, pending := C.pending.register id }

/-- The outcome of `self.send`. -/
def sent (i : Nat) (error : Option String) : Option Client :=
  match C.pending.calls[i]? with
  | some ⟨id, _, .sending⟩ =>
      match error with
      | none => some { C with pending := C.pending.move i .waiting }
      | some e =>
          some { C with
            pending := (C.pending.settle id .closed).move i (.returned (.error (.io e))) }
  | _ => none

def receive (msg : Message) : Client :=
  { C with
    pending := route C.pending C.inbox.length msg
    inbox := C.inbox ++ [msg]
    notifications :=
      match msg with
      | .response .. => C.notifications
      | _ => C.notifications ++ [msg] }

/-- The transport is closed: the requests in flight fail. -/
def close : Client :=
  { C with
    pending := C.pending.drain ⟨none, .response .null (.error transportClosed)⟩
    ended := true }

/-- One turn of the reader; `none` is a read error. -/
def read (input : Option (List UInt8)) : Client :=
  match input with
  | none | some [] => C.close
  | some buf =>
      if maxLineBytes ≤ buf.length && !endsLine buf then C.close
      else
        match decodeLine serde buf with
        | none => C
        | some msg => C.receive msg

end Client

inductive ClientEvent
  | draw
  | register (j : Nat)
  | sent (i : Nat) (error : Option String)
  | poll (i : Nat)
  | drop (i : Nat)
  | read (input : Option (List UInt8))

def Client.step (serde : Serde) (C : Client) : ClientEvent → Option Client
  | .draw => some C.draw
  | .register j => C.register j
  | .sent i error => C.sent i error
  | .poll i =>
      (poll clientResult .channelClosed C.pending i).map fun pending =>
        { C with pending := pending }
  | .drop i => (dropCall C.pending i).map fun pending => { C with pending := pending }
  | .read input => if C.ended then none else some (C.read serde input)

/-! ## The server -/

def serverResult : Message → Except RpcError Json
  | .response _ r => r
  | _ => .error ⟨-32603, "unexpected response shape", none⟩

structure Server where
  idgen : UInt64 := 1
  drawn : List Id := []
  pending : Replies RpcError := {}
  inbox : List Message := []
  notifications : List Json := []
  /-- Requests on tasks of their own. -/
  tasks : List (Id × String × Json) := []
  /-- The write task has not failed. -/
  writer : Bool := true
  ended : Bool := false

namespace Server

variable (serde : Serde) (S : Server)

/-- `AcpCtx::request` of a prompt that runs. -/
def draw (t : Nat) : Option Server :=
  match S.tasks[t]? with
  | some (_, "session/prompt", _) =>
      some { S with idgen := S.idgen + 1, drawn := S.drawn ++ [.num S.idgen.toInt64] }
  | _ => none

def register (j : Nat) : Option Server :=
  S.drawn[j]?.map fun id =>
    { S with drawn := S.drawn.eraseIdx j, pending := S.pending.register id }

/-- `self.sender.send`; the entry of a request that was not sent stays. -/
def sent (i : Nat) : Option Server :=
  match S.pending.calls[i]? with
  | some ⟨_, _, .sending⟩ =>
      let phase := if S.writer then .waiting else .returned (.error transportClosed)
      some { S with pending := S.pending.move i phase }
  | _ => none

def receive (msg : Message) : Server :=
  let S' := { S with
    pending := route S.pending S.inbox.length msg
    inbox := S.inbox ++ [msg] }
  match msg with
  | .request id method params => { S' with tasks := S.tasks ++ [(id, method, params)] }
  | .notification _ params => { S' with notifications := S.notifications ++ [params] }
  | .response .. => S'

/-- A frame without its newline is drained and skipped. -/
def read (input : Option (List UInt8)) : Server :=
  match input with
  | none | some [] => { S with ended := true }
  | some buf =>
      if !endsLine buf then S
      else
        match decodeLine serde buf with
        | none => S
        | some msg => S.receive msg

end Server

inductive ServerEvent
  | draw (t : Nat)
  | register (j : Nat)
  | sent (i : Nat)
  | poll (i : Nat)
  | drop (i : Nat)
  | finish (t : Nat)
  | writeFails
  | read (input : Option (List UInt8))

def Server.step (serde : Serde) (S : Server) : ServerEvent → Option Server
  | .draw t => S.draw t
  | .register j => S.register j
  | .sent i => S.sent i
  | .poll i =>
      (poll serverResult transportClosed S.pending i).map fun pending =>
        { S with pending := pending }
  | .drop i => (dropCall S.pending i).map fun pending => { S with pending := pending }
  | .finish t => if t < S.tasks.length then some { S with tasks := S.tasks.eraseIdx t } else none
  | .writeFails => some { S with writer := false }
  | .read input => if S.ended then none else some (S.read serde input)

/-! ## Answers -/

section Answers

variable {serde : Serde}

theorem Client.read_cases (serde : Serde) (C : Client) (input : Option (List UInt8)) :
    C.read serde input = C.close ∨ C.read serde input = C ∨
      ∃ msg, C.read serde input = C.receive msg := by
  rw [Client.read.eq_def]
  split
  · exact .inl rfl
  · exact .inl rfl
  · split
    · exact .inl rfl
    · split
      · exact .inr (.inl rfl)
      · exact .inr (.inr ⟨_, rfl⟩)

theorem Server.read_cases (serde : Serde) (S : Server) (input : Option (List UInt8)) :
    (S.read serde input = { S with ended := true } ∧ (input = none ∨ input = some [])) ∨
      S.read serde input = S ∨ ∃ msg, S.read serde input = S.receive msg := by
  rw [Server.read.eq_def]
  split
  · exact .inl ⟨rfl, .inl rfl⟩
  · exact .inl ⟨rfl, .inr rfl⟩
  · split
    · exact .inr (.inl rfl)
    · split
      · exact .inr (.inl rfl)
      · exact .inr (.inr ⟨_, rfl⟩)

theorem Server.receive_pending (S : Server) (msg : Message) :
    (S.receive msg).pending = route S.pending S.inbox.length msg ∧
      (S.receive msg).inbox = S.inbox ++ [msg] ∧ (S.receive msg).ended = S.ended := by
  cases msg <;> exact ⟨rfl, rfl, rfl⟩

theorem Client.traced_step {C C' : Client} {e : ClientEvent} (hstep : C.step serde e = some C')
    (h : Traced clientResult C.inbox C.pending) : Traced clientResult C'.inbox C'.pending := by
  cases e with
  | draw =>
      cases hstep
      exact h
  | register j =>
      obtain ⟨id, -, rfl⟩ := Option.map_eq_some_iff.mp hstep
      exact h.register id
  | sent i error =>
      unfold Client.step Client.sent at hstep
      simp only at hstep
      split at hstep
      · split at hstep <;> cases hstep
        · exact h.move i fun _ _ _ hr => by cases hr
        · rename_i e
          exact (h.forget _).move i fun _ _ _ hr => .inl ⟨.io e, (CallPhase.returned.inj hr).symm⟩
      · cases hstep
  | poll i =>
      obtain ⟨pending, hpoll, rfl⟩ := Option.map_eq_some_iff.mp hstep
      exact h.poll hpoll
  | drop i =>
      obtain ⟨pending, hdrop, rfl⟩ := Option.map_eq_some_iff.mp hstep
      exact h.dropCall hdrop
  | read input =>
      unfold Client.step at hstep
      simp only at hstep
      split at hstep <;> cases hstep
      obtain hclosed | hsame | ⟨msg, hreceived⟩ := C.read_cases serde input
      · rw [hclosed]
        exact h.drain ⟨_, rfl⟩
      · rw [hsame]
        exact h
      · rw [hreceived]
        exact h.receive msg

theorem Server.traced_step {S S' : Server} {e : ServerEvent} (hstep : S.step serde e = some S')
    (h : Traced serverResult S.inbox S.pending) : Traced serverResult S'.inbox S'.pending := by
  cases e with
  | draw t =>
      unfold Server.step Server.draw at hstep
      simp only at hstep
      split at hstep <;> cases hstep
      exact h
  | register j =>
      obtain ⟨id, -, rfl⟩ := Option.map_eq_some_iff.mp hstep
      exact h.register id
  | sent i =>
      unfold Server.step Server.sent at hstep
      simp only at hstep
      split at hstep <;> cases hstep
      refine h.move i fun _ r _ hr => .inl ⟨transportClosed, ?_⟩
      split at hr <;> cases hr
      rfl
  | poll i =>
      obtain ⟨pending, hpoll, rfl⟩ := Option.map_eq_some_iff.mp hstep
      exact h.poll hpoll
  | drop i =>
      obtain ⟨pending, hdrop, rfl⟩ := Option.map_eq_some_iff.mp hstep
      exact h.dropCall hdrop
  | finish t =>
      unfold Server.step at hstep
      simp only at hstep
      split at hstep <;> cases hstep
      exact h
  | writeFails =>
      cases hstep
      exact h
  | read input =>
      unfold Server.step at hstep
      simp only at hstep
      split at hstep <;> cases hstep
      obtain ⟨hended, -⟩ | hsame | ⟨msg, hreceived⟩ := S.read_cases serde input
      · rw [hended]
        exact h
      · rw [hsame]
        exact h
      · obtain ⟨hpending, hinbox, -⟩ := S.receive_pending msg
        rw [hreceived, hpending, hinbox]
        exact h.receive msg

end Answers

/-! ## No call is stranded -/

section Stranding

variable {ε : Type}

def emptyAt (C : Replies ε) (i : Nat) : Bool :=
  match C.calls[i]? with
  | some ⟨_, .empty, _⟩ => true
  | _ => false

def waits (c : Call Id Delivery (Except ε Json)) : Bool :=
  match c with
  | ⟨_, .empty, .waiting⟩ => true
  | _ => false

theorem answered_of_not_waits {C : Replies ε} (h : C.calls.any waits = false) : Answered C := by
  intro i c hc hwaiting hempty
  have hnot := List.any_eq_false.mp h c (List.mem_of_getElem? hc)
  obtain ⟨key, channel, phase⟩ := c
  cases hwaiting
  cases hempty
  exact hnot rfl

theorem ne_empty_of_emptyAt {C : Replies ε} {i : Nat} (h : emptyAt C i = false)
    {c : Call Id Delivery (Except ε Json)} (hc : C.calls[i]? = some c) : c.channel ≠ .empty := by
  intro hempty
  obtain ⟨key, channel, phase⟩ := c
  cases hempty
  rw [emptyAt, hc] at h
  cases h

/-- Once the reader has drained the map, no request that registers goes out. -/
def Client.timely (C : Client) : ClientEvent → Bool
  | .sent i none => !(C.ended && emptyAt C.pending i)
  | _ => true

/-- No request waits when the reading loop ends, and none that is still unanswered goes out
after it. -/
def Server.timely (S : Server) : ServerEvent → Bool
  | .sent i => !(S.ended && S.writer && emptyAt S.pending i)
  | .read none | .read (some []) => !S.pending.calls.any waits
  | _ => true

variable {serde : Serde}

theorem Client.answered_step {C C' : Client} {e : ClientEvent} (hstep : C.step serde e = some C')
    (htimely : C.timely e = true) (hsound : C.pending.Sound)
    (h : C.ended = true → Answered C.pending) : C'.ended = true → Answered C'.pending := by
  cases e with
  | draw =>
      cases hstep
      exact h
  | register j =>
      obtain ⟨id, -, rfl⟩ := Option.map_eq_some_iff.mp hstep
      exact fun hended => (h hended).register id
  | sent i error =>
      unfold Client.step Client.sent at hstep
      simp only at hstep
      split at hstep
      · split at hstep <;> cases hstep
        · intro hended
          refine (h hended).move i fun c hc _ => ?_
          change C.ended = true at hended
          simp only [Client.timely, hended, Bool.true_and, Bool.not_eq_true'] at htimely
          exact ne_empty_of_emptyAt htimely hc
        · intro hended
          refine Answered.move ?_ i fun _ _ hr => by cases hr
          exact (h hended).settle _ nofun
      · cases hstep
  | poll i =>
      obtain ⟨pending, hpoll, rfl⟩ := Option.map_eq_some_iff.mp hstep
      exact fun hended => (h hended).poll hpoll
  | drop i =>
      obtain ⟨pending, hdrop, rfl⟩ := Option.map_eq_some_iff.mp hstep
      exact fun hended => (h hended).dropCall hdrop
  | read input =>
      unfold Client.step at hstep
      simp only at hstep
      split at hstep <;> cases hstep
      obtain hclosed | hsame | ⟨msg, hreceived⟩ := C.read_cases serde input
      · rw [hclosed]
        exact fun _ => answered_drain hsound _
      · rw [hsame]
        exact h
      · rw [hreceived]
        exact fun hended => (h hended).route _ _

theorem Server.answered_step {S S' : Server} {e : ServerEvent} (hstep : S.step serde e = some S')
    (htimely : S.timely e = true) (h : S.ended = true → Answered S.pending) :
    S'.ended = true → Answered S'.pending := by
  cases e with
  | draw t =>
      unfold Server.step Server.draw at hstep
      simp only at hstep
      split at hstep <;> cases hstep
      exact h
  | register j =>
      obtain ⟨id, -, rfl⟩ := Option.map_eq_some_iff.mp hstep
      exact fun hended => (h hended).register id
  | sent i =>
      unfold Server.step Server.sent at hstep
      simp only at hstep
      split at hstep <;> cases hstep
      intro hended
      refine (h hended).move i fun c hc hwaiting => ?_
      change S.ended = true at hended
      split at hwaiting
      · rename_i hwriter
        simp only [Server.timely, hended, hwriter, Bool.true_and, Bool.not_eq_true'] at htimely
        exact ne_empty_of_emptyAt htimely hc
      · cases hwaiting
  | poll i =>
      obtain ⟨pending, hpoll, rfl⟩ := Option.map_eq_some_iff.mp hstep
      exact fun hended => (h hended).poll hpoll
  | drop i =>
      obtain ⟨pending, hdrop, rfl⟩ := Option.map_eq_some_iff.mp hstep
      exact fun hended => (h hended).dropCall hdrop
  | finish t =>
      unfold Server.step at hstep
      simp only at hstep
      split at hstep <;> cases hstep
      exact h
  | writeFails =>
      cases hstep
      exact h
  | read input =>
      unfold Server.step at hstep
      simp only at hstep
      split at hstep <;> cases hstep
      obtain ⟨hended, hinput⟩ | hsame | ⟨msg, hreceived⟩ := S.read_cases serde input
      · rw [hended]
        intro _
        apply answered_of_not_waits
        rcases hinput with rfl | rfl <;> simpa only [Server.timely, Bool.not_eq_true'] using htimely
      · rw [hsame]
        exact h
      · obtain ⟨hpending, -, hended⟩ := S.receive_pending msg
        rw [hreceived, hpending, hended]
        exact fun hended => (h hended).route _ _

end Stranding

/-! ## Whole runs -/

section Runs

variable {ε : Type} (result : Message → Except ε Json) (closed : ε)

/-- A request returns an error, or the response that carries its id. -/
def Completes (inbox : List Message) (C : Replies ε) : Prop :=
  ∀ c ∈ C.calls, ∀ r, c.phase = .returned r →
    (∃ e, r = .error e) ∨ ∃ n answer, inbox[n]? = some (.response c.key answer) ∧
      c.channel = .filled ⟨some n, .response c.key answer⟩ ∧
      r = result (.response c.key answer)

/-- No response is given to two requests. -/
def Unshared (C : Replies ε) : Prop :=
  ∀ (i j : Nat) c c' d d' n, C.calls[i]? = some c → C.calls[j]? = some c' →
    c.channel = .filled d → c'.channel = .filled d' → d.source = some n →
    d'.source = some n → i = j

/-- No waiting request is in the map, and each returns when it is polled. -/
def NoneStranded (C : Replies ε) : Prop :=
  (∀ k i c, C.pending k = some i → C.calls[i]? = some c → c.phase ≠ .waiting) ∧
    ∀ (i : Nat) c, C.calls[i]? = some c → c.phase = .waiting →
      ∃ r, poll result closed C i = some (C.move i (.returned r))

variable {result closed} {inbox : List Message} {C : Replies ε}

theorem Traced.completes (h : Traced result inbox C) : Completes result inbox C := by
  intro c hc r hr
  obtain ⟨i, hi⟩ := List.mem_iff_getElem?.mp hc
  rcases h.returned i c r hi hr with herror | ⟨d, hd, hresult⟩
  · exact .inl herror
  · obtain ⟨source, message⟩ := d
    cases source with
    | none =>
        obtain ⟨e, he⟩ := h.failed i c _ hi hd rfl
        exact .inl ⟨e, hresult.trans he⟩
    | some n =>
        obtain ⟨hinbox, answer, hanswer⟩ := h.own i c _ n hi hd rfl
        cases hanswer
        exact .inr ⟨n, answer, hinbox, hd, hresult⟩

theorem Answered.noneStranded (hsound : C.Sound) (h : Answered C) :
    NoneStranded result closed C := by
  refine ⟨?_, ?_⟩
  · intro k i c hk hc hwaiting
    obtain ⟨c₀, hc₀, -, hempty⟩ := hsound.held k i hk
    rw [hc] at hc₀
    cases hc₀
    exact h i c hc hwaiting hempty
  · intro i c hc hwaiting
    exact h.poll_isSome closed hc hwaiting

theorem not_noneStranded (h : C.calls.any waits = true) : ¬NoneStranded result closed C := by
  rintro ⟨-, hpolls⟩
  obtain ⟨c, hc, hwaits⟩ := List.any_eq_true.mp h
  obtain ⟨i, hi⟩ := List.mem_iff_getElem?.mp hc
  rw [waits.eq_def] at hwaits
  split at hwaits
  · obtain ⟨r, hr⟩ := hpolls i _ hi rfl
    rw [poll, hi] at hr
    cases hr
  · cases hwaits

end Runs

def ClientSteps (serde : Serde) (C : Client) (e : ClientEvent) (C' : Client) : Prop :=
  C.step serde e = some C'

def ServerSteps (serde : Serde) (S : Server) (e : ServerEvent) (S' : Server) : Prop :=
  S.step serde e = some S'

/-- In every run of either side a request returns an error or the response with its id, and
no response goes to two requests.  In a timely run no request waits in the map once the
reading loop has ended. -/
theorem no_stranded_request (serde : Serde) :
    (∀ es C, Runs (ClientSteps serde) {} es C →
      Completes clientResult C.inbox C.pending ∧ Unshared C.pending ∧
        (Runs (During (ClientSteps serde) fun C e => C.timely e = true) {} es C →
          C.ended = true → NoneStranded clientResult .channelClosed C.pending)) ∧
    (∀ es S, Runs (ServerSteps serde) {} es S →
      Completes serverResult S.inbox S.pending ∧ Unshared S.pending ∧
        (Runs (During (ServerSteps serde) fun S e => S.timely e = true) {} es S →
          S.ended = true → NoneStranded serverResult transportClosed S.pending)) := by
  refine ⟨?_, ?_⟩
  · intro es C hrun
    have htraced : Traced clientResult C.inbox C.pending :=
      hrun.invariant (fun C => Traced clientResult C.inbox C.pending)
        (fun h hstep => Client.traced_step hstep h) traced_init
    refine ⟨htraced.completes, htraced.once, ?_⟩
    intro htimely hended
    have hboth : Traced clientResult C.inbox C.pending ∧ (C.ended = true → Answered C.pending) :=
      htimely.invariant
        (fun C => Traced clientResult C.inbox C.pending ∧ (C.ended = true → Answered C.pending))
        (fun h hstep => ⟨Client.traced_step hstep.1 h.1,
          Client.answered_step hstep.1 hstep.2 h.1.sound h.2⟩)
        ⟨traced_init, fun h => by cases h⟩
    exact (hboth.2 hended).noneStranded htraced.sound
  · intro es S hrun
    have htraced : Traced serverResult S.inbox S.pending :=
      hrun.invariant (fun S => Traced serverResult S.inbox S.pending)
        (fun h hstep => Server.traced_step hstep h) traced_init
    refine ⟨htraced.completes, htraced.once, ?_⟩
    intro htimely hended
    have hanswered : S.ended = true → Answered S.pending :=
      htimely.invariant (fun S => S.ended = true → Answered S.pending)
        (fun h hstep => Server.answered_step hstep.1 hstep.2 h) (fun h => by cases h)
    exact (hanswered hended).noneStranded htraced.sound

def responseLine : List UInt8 :=
  "\x7b\"jsonrpc\":\"2.0\",\"id\":1,\"result\":true\x7d\n".toUTF8.data.toList

def promptLine : List UInt8 :=
  "\x7b\"jsonrpc\":\"2.0\",\"id\":1,\"method\":\"session/prompt\"\x7d\n".toUTF8.data.toList

/-- Reads the two lines. -/
def twoLines : Serde where
  parse line :=
    if line = responseLine then
      some (.object [("jsonrpc", .string "2.0"), ("id", .unsigned 1), ("result", .bool true)])
    else if line = promptLine then
      some (.object [("jsonrpc", .string "2.0"), ("id", .unsigned 1),
        ("method", .string "session/prompt")])
    else none
  rpcError _ := none

/-- Two requests; the first is answered and the transport closes. -/
def answeredThenClosed : List ClientEvent :=
  [.draw, .register 0, .sent 0 none, .draw, .register 0, .read (some responseLine), .poll 0,
    .sent 1 none, .read (some [])]

def promptAnswered : List ServerEvent :=
  [.read (some promptLine), .draw 0, .register 0, .sent 0, .read (some responseLine), .read (some [])]

theorem no_stranded_request_answered :
    (∃ C, Runs (ClientSteps twoLines) {} answeredThenClosed C ∧ C.ended = true ∧
      C.pending.calls.length = 2 ∧ NoneStranded clientResult .channelClosed C.pending) ∧
    ∃ S, Runs (ServerSteps twoLines) {} promptAnswered S ∧ S.ended = true ∧
      S.pending.calls.length = 1 ∧ NoneStranded serverResult transportClosed S.pending := by
  have hclient : (answeredThenClosed.foldlM (fun (C : Client) e =>
      if C.timely e then Client.step twoLines C e else none) {}).any
      (fun C : Client => C.ended && C.pending.calls.length == 2) = true := by decide +kernel
  have hserver : (promptAnswered.foldlM (fun (S : Server) e =>
      if S.timely e then Server.step twoLines S e else none) {}).any
      (fun S : Server => S.ended && S.pending.calls.length == 1) = true := by decide +kernel
  obtain ⟨C, hC, hclient⟩ := (Option.any_eq_true _ _).mp hclient
  obtain ⟨S, hS, hserver⟩ := (Option.any_eq_true _ _).mp hserver
  rw [Bool.and_eq_true, beq_iff_eq] at hclient hserver
  obtain ⟨hclients, hservers⟩ := no_stranded_request twoLines
  have hC := Runs.foldlM hC
  have hS := Runs.foldlM hS
  have hrunC : Runs (ClientSteps twoLines) {} answeredThenClosed C := hC.mono fun h => h.1
  have hrunS : Runs (ServerSteps twoLines) {} promptAnswered S := hS.mono fun h => h.1
  exact ⟨⟨C, hrunC, hclient.1, hclient.2, (hclients _ C hrunC).2.2 hC hclient.1⟩,
    S, hrunS, hserver.1, hserver.2, (hservers _ S hrunS).2.2 hS hserver.1⟩

/-- A request of the client that registers after the drain, and a prompt of the server that
asks before its client goes, wait in the map of a reader that has ended. -/
theorem request_stranded :
    (∃ C, Runs (ClientSteps twoLines) {} [.read (some []), .draw, .register 0, .sent 0 none] C ∧
      C.ended = true ∧ ¬NoneStranded clientResult .channelClosed C.pending) ∧
    ∃ S, Runs (ServerSteps twoLines) {}
        [.read (some promptLine), .draw 0, .register 0, .sent 0, .read (some [])] S ∧
      S.ended = true ∧ ¬NoneStranded serverResult transportClosed S.pending := by
  have hclient : ([.read (some []), .draw, .register 0, .sent 0 none].foldlM
      (Client.step twoLines) {}).any (fun C => C.ended && C.pending.calls.any waits) = true := by
    decide +kernel
  have hserver : ([.read (some promptLine), .draw 0, .register 0, .sent 0, .read (some [])].foldlM
      (Server.step twoLines) {}).any (fun S => S.ended && S.pending.calls.any waits) = true := by
    decide +kernel
  obtain ⟨C, hC, hclient⟩ := (Option.any_eq_true _ _).mp hclient
  obtain ⟨S, hS, hserver⟩ := (Option.any_eq_true _ _).mp hserver
  rw [Bool.and_eq_true] at hclient hserver
  exact ⟨⟨C, Runs.of_foldlM hC, hclient.1, not_noneStranded hclient.2⟩,
    S, Runs.of_foldlM hS, hserver.1, not_noneStranded hserver.2⟩

end AgentGrid.Acp
