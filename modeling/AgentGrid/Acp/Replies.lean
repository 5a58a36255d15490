import AgentGrid.Foundation.Calls
import AgentGrid.Node.Payload
import Mathlib.Data.List.Infix

/-!
# JSON-RPC messages and the routing of responses

Both ends of the protocol keep a map from the ids of their requests to the calls
that wait, and give a response to the call under its id.  An answer remembers the
message it came from: `source` is its place among the messages decoded so far.
-/

namespace AgentGrid.Acp

open AgentGrid.Foundation
open AgentGrid.Node (Json)

/-! ## Messages -/

inductive Id
  | num (n : Int64)
  | str (s : String)
  | null
deriving DecidableEq

structure RpcError where
  code : Int64
  message : String
  data : Option Json

inductive Message
  | request (id : Id) (method : String) (params : Json)
  | notification (method : String) (params : Json)
  | response (id : Id) (result : Except RpcError Json)

/-- `Number::as_i64`. -/
def asI64 : Json → Option Int64
  | .unsigned n => if n < 2 ^ 63 then some (Int64.ofNat n) else none
  | .negative n => if n ≤ 2 ^ 63 then some (Int64.ofInt (-n)) else none
  | _ => none

def idFromValue (v : Json) : Id :=
  match v with
  | .unsigned _ | .negative _ | .float _ => .num ((asI64 v).getD 0)
  | .string s => .str s
  | _ => .null

/-- What `serde_json` reads: the JSON text of a line, and an error object. -/
structure Serde where
  parse : List UInt8 → Option Json
  rpcError : Json → Option RpcError

def fromValue (serde : Serde) (v : Json) : Option Message :=
  match v with
  | .object _ =>
      if (v.get "jsonrpc").bind Json.asStr = some "2.0" then
        let params := (v.get "params").getD .null
        match (v.get "method").bind Json.asStr with
        | some method =>
            match v.get "id" with
            | some id => some (.request (idFromValue id) method params)
            | none => some (.notification method params)
        | none =>
            let id := ((v.get "id").map idFromValue).getD .null
            match v.get "error", v.get "result" with
            | some e, _ => (serde.rpcError e).map fun e => .response id (.error e)
            | none, some r => some (.response id (.ok r))
            | none, none => none
      else none
  | _ => none

def decodeLine (serde : Serde) (line : List UInt8) : Option Message :=
  (serde.parse line).bind (fromValue serde)

def maxLineBytes : Nat := 1024 * 1024

def endsLine (buf : List UInt8) : Bool := buf.getLast? == some 10

def transportClosed : RpcError := ⟨-32000, "transport closed", none⟩

/-! ## Calls -/

structure Delivery where
  source : Option Nat
  message : Message

abbrev Replies (ε : Type) := Calls Id Delivery (Except ε Json)

section Replies

variable {ε : Type} (result : Message → Except ε Json)

/-- A response goes to the call under its id. -/
def route (C : Replies ε) (n : Nat) (msg : Message) : Replies ε :=
  match msg with
  | .response id _ => C.settle id (.filled ⟨some n, msg⟩)
  | _ => C

/-- `rx.await`. -/
def poll (closed : ε) (C : Replies ε) (i : Nat) : Option (Replies ε) :=
  match C.calls[i]? with
  | some ⟨_, .filled d, .waiting⟩ => some (C.move i (.returned (result d.message)))
  | some ⟨_, .closed, .waiting⟩ => some (C.move i (.returned (.error closed)))
  | _ => none

/-- The future of a call is dropped. -/
def dropCall (C : Replies ε) (i : Nat) : Option (Replies ε) :=
  match C.calls[i]? with
  | some ⟨_, _, .sending⟩ | some ⟨_, _, .waiting⟩ => some (C.move i .dropped)
  | _ => none

/-- The answers are responses that carry the ids of their calls, each given to one call,
or errors. -/
structure Traced (inbox : List Message) (C : Replies ε) : Prop where
  sound : C.Sound
  own : ∀ (i : Nat) c d n, C.calls[i]? = some c → c.channel = .filled d → d.source = some n →
    inbox[n]? = some d.message ∧ ∃ r, d.message = .response c.key r
  failed : ∀ (i : Nat) c d, C.calls[i]? = some c → c.channel = .filled d → d.source = none →
    ∃ e, result d.message = .error e
  once : ∀ (i j : Nat) c c' d d' n, C.calls[i]? = some c → C.calls[j]? = some c' →
    c.channel = .filled d → c'.channel = .filled d' → d.source = some n →
    d'.source = some n → i = j
  returned : ∀ (i : Nat) c r, C.calls[i]? = some c → c.phase = .returned r →
    (∃ e, r = .error e) ∨ ∃ d, c.channel = .filled d ∧ r = result d.message

variable {result} {inbox inbox' : List Message} {C C' : Replies ε}

theorem traced_init : Traced result [] ({} : Replies ε) where
  sound := Calls.sound_init
  own _ _ _ _ h := by simp at h
  failed _ _ _ h := by simp at h
  once _ _ _ _ _ _ _ h := by simp at h
  returned _ _ _ h := by simp at h

/-- What a filled channel of the next table may hold. -/
def Fills (result : Message → Except ε Json) (inbox inbox' : List Message) (C : Replies ε)
    (fresh : Option Nat) (i : Nat) (key : Id) (d : Delivery) : Prop :=
  (∃ c, C.calls[i]? = some c ∧ c.key = key ∧ c.channel = .filled d) ∨
    (d.source = none ∧ ∃ e, result d.message = .error e) ∨
    (d.source = some inbox.length ∧ fresh = some i ∧
      inbox'[inbox.length]? = some d.message ∧ ∃ r, d.message = .response key r)

theorem Traced.next (h : Traced result inbox C) (fresh : Option Nat) (hsound : C'.Sound)
    (hgrow : inbox <+: inbox')
    (hfills : ∀ (i : Nat) c d, C'.calls[i]? = some c → c.channel = .filled d →
      Fills result inbox inbox' C fresh i c.key d)
    (hreturned : ∀ (i : Nat) c r, C'.calls[i]? = some c → c.phase = .returned r →
      (∃ e, r = .error e) ∨ ∃ d, c.channel = .filled d ∧ r = result d.message) :
    Traced result inbox' C' := by
  have hbefore : ∀ (i : Nat) c d n, C.calls[i]? = some c → c.channel = .filled d → d.source = some n →
      n < inbox.length := by
    intro i c d n hc hd hn
    exact (List.getElem?_eq_some_iff.mp (h.own i c d n hc hd hn).1).1
  refine ⟨hsound, ?_, ?_, ?_, hreturned⟩
  · intro i c d n hc hd hn
    obtain ⟨c₀, hc₀, hkey, hd₀⟩ | ⟨hnone, -⟩ | ⟨hsome, -, hmsg, r, hr⟩ := hfills i c d hc hd
    · obtain ⟨hmsg, r, hr⟩ := h.own i c₀ d n hc₀ hd₀ hn
      obtain ⟨rest, rfl⟩ := hgrow
      rw [List.getElem?_append_left (hbefore i c₀ d n hc₀ hd₀ hn)]
      exact ⟨hmsg, r, hkey ▸ hr⟩
    · rw [hnone] at hn
      cases hn
    · obtain rfl : inbox.length = n := Option.some.inj (hsome.symm.trans hn)
      exact ⟨hmsg, r, hr⟩
  · intro i c d hc hd hn
    obtain ⟨c₀, hc₀, -, hd₀⟩ | ⟨-, hfailed⟩ | ⟨hsome, -⟩ := hfills i c d hc hd
    · exact h.failed i c₀ d hc₀ hd₀ hn
    · exact hfailed
    · rw [hsome] at hn
      cases hn
  · intro i j c c' d d' n hc hc' hd hd' hn hn'
    obtain ⟨c₀, hc₀, -, hd₀⟩ | ⟨hnone, -⟩ | ⟨hsome, hi, -⟩ := hfills i c d hc hd
    · obtain ⟨c₁, hc₁, -, hd₁⟩ | ⟨hnone, -⟩ | ⟨hsome, -⟩ := hfills j c' d' hc' hd'
      · exact h.once i j c₀ c₁ d d' n hc₀ hc₁ hd₀ hd₁ hn hn'
      · rw [hnone] at hn'
        cases hn'
      · have hlt := hbefore i c₀ d n hc₀ hd₀ hn
        rw [← Option.some.inj (hsome.symm.trans hn')] at hlt
        exact absurd hlt (Nat.lt_irrefl _)
    · rw [hnone] at hn
      cases hn
    · obtain ⟨c₁, hc₁, -, hd₁⟩ | ⟨hnone, -⟩ | ⟨-, hj, -⟩ := hfills j c' d' hc' hd'
      · have hlt := hbefore j c₁ d' n hc₁ hd₁ hn'
        rw [← Option.some.inj (hsome.symm.trans hn)] at hlt
        exact absurd hlt (Nat.lt_irrefl _)
      · rw [hnone] at hn'
        cases hn'
      · exact Option.some.inj (hi.symm.trans hj)

theorem Traced.returned_settles (h : Traced result inbox C) {k : Id} {channel : Channel Delivery}
    {i : Nat} {c c' : Call Id Delivery (Except ε Json)} (hc : C.calls[i]? = some c)
    (hsettles : Calls.Settles C k channel i c c') (r : Except ε Json)
    (hr : c'.phase = .returned r) :
    (∃ e, r = .error e) ∨ ∃ d, c'.channel = .filled d ∧ r = result d.message := by
  rw [hsettles.phase] at hr
  rcases h.returned i c r hc hr with herror | ⟨d, hd, hresult⟩
  · exact .inl herror
  · obtain ⟨hpending, -⟩ | ⟨-, hsame⟩ := hsettles.channel
    · obtain ⟨c₀, hc₀, -, hempty⟩ := h.sound.held k i hpending
      obtain rfl : c = c₀ := Option.some.inj (hc.symm.trans hc₀)
      rw [hd] at hempty
      cases hempty
    · exact .inr ⟨d, hsame.trans hd, hresult⟩

theorem fills_settles {k : Id} {i : Nat} {fresh : Option Nat}
    {c c' : Call Id Delivery (Except ε Json)} {d : Delivery} (hc : C.calls[i]? = some c)
    (hsettles : Calls.Settles C k .closed i c c') (hd : c'.channel = .filled d) :
    Fills result inbox inbox' C fresh i c'.key d := by
  obtain ⟨-, hclosed⟩ | ⟨-, hsame⟩ := hsettles.channel
  · rw [hclosed] at hd
    cases hd
  · exact .inl ⟨c, hc, hsettles.key.symm, hsame.symm.trans hd⟩

theorem Traced.forget (h : Traced result inbox C) (k : Id) :
    Traced result inbox (C.settle k .closed) := by
  refine h.next none (h.sound.settle k nofun) List.prefix_rfl ?_ ?_
  · intro i c' d hc' hd
    obtain ⟨c, hc, hsettles⟩ := Calls.settle_get hc'
    exact fills_settles hc hsettles hd
  · intro i c' r hc' hr
    obtain ⟨c, hc, hsettles⟩ := Calls.settle_get hc'
    exact h.returned_settles hc hsettles r hr

theorem Traced.register (h : Traced result inbox C) (k : Id) :
    Traced result inbox (C.register k) := by
  refine h.next none (h.sound.register k) List.prefix_rfl ?_ ?_
  · intro i c' d hc' hd
    obtain ⟨c, hc, hsettles⟩ | ⟨-, rfl⟩ := Calls.register_get hc'
    · exact fills_settles hc hsettles hd
    · cases hd
  · intro i c' r hc' hr
    obtain ⟨c, hc, hsettles⟩ | ⟨-, rfl⟩ := Calls.register_get hc'
    · exact h.returned_settles hc hsettles r hr
    · cases hr

/-- The next message arrives. -/
theorem Traced.receive (h : Traced result inbox C) (msg : Message) :
    Traced result (inbox ++ [msg]) (route C inbox.length msg) := by
  have hkept : Traced result (inbox ++ [msg]) C :=
    h.next none h.sound (List.prefix_append _ _)
      (fun i c d hc hd => .inl ⟨c, hc, rfl, hd⟩) h.returned
  cases msg with
  | request id method params => exact hkept
  | notification method params => exact hkept
  | response id r =>
      refine h.next (C.pending id) (h.sound.settle id nofun) (List.prefix_append _ _) ?_ ?_
      · intro i c' d hc' hd
        obtain ⟨c, hc, hsettles⟩ := Calls.settle_get hc'
        obtain ⟨hpending, hfilled⟩ | ⟨-, hsame⟩ := hsettles.channel
        · obtain ⟨c₀, hc₀, hkey, -⟩ := h.sound.held id i hpending
          obtain rfl : c = c₀ := Option.some.inj (hc.symm.trans hc₀)
          rw [hfilled] at hd
          cases hd
          refine .inr (.inr ⟨rfl, hpending, List.getElem?_concat_length, r, ?_⟩)
          rw [hsettles.key, hkey]
        · exact .inl ⟨c, hc, hsettles.key.symm, hsame.symm.trans hd⟩
      · intro i c' r' hc' hr'
        obtain ⟨c, hc, hsettles⟩ := Calls.settle_get hc'
        exact h.returned_settles hc hsettles r' hr'

theorem Traced.drain (h : Traced result inbox C) {msg : Message}
    (hmsg : ∃ e, result msg = .error e) : Traced result inbox (C.drain ⟨none, msg⟩) := by
  refine h.next none (h.sound.drain _) List.prefix_rfl ?_ ?_
  · intro i c' d hc' hd
    obtain ⟨c, hc, hkey, -, ⟨-, hfilled⟩ | ⟨-, hsame⟩⟩ := Calls.drain_get hc'
    · rw [hfilled] at hd
      cases hd
      exact .inr (.inl ⟨rfl, hmsg⟩)
    · exact .inl ⟨c, hc, hkey.symm, hsame.symm.trans hd⟩
  · intro i c' r hc' hr
    obtain ⟨c, hc, -, hphase, hchannel⟩ := Calls.drain_get hc'
    rw [hphase] at hr
    rcases h.returned i c r hc hr with herror | ⟨d, hd, hresult⟩
    · exact .inl herror
    · obtain ⟨hpending, -⟩ | ⟨-, hsame⟩ := hchannel
      · obtain ⟨c₀, hc₀, -, hempty⟩ := h.sound.held c.key i hpending
        obtain rfl : c = c₀ := Option.some.inj (hc.symm.trans hc₀)
        rw [hd] at hempty
        cases hempty
      · exact .inr ⟨d, hsame.trans hd, hresult⟩

theorem Traced.move (h : Traced result inbox C) (j : Nat) {phase : CallPhase (Except ε Json)}
    (hphase : ∀ c r, C.calls[j]? = some c → phase = .returned r →
      (∃ e, r = .error e) ∨ ∃ d, c.channel = .filled d ∧ r = result d.message) :
    Traced result inbox (C.move j phase) := by
  refine h.next none (h.sound.move j phase) List.prefix_rfl ?_ ?_
  · intro i c' d hc' hd
    obtain ⟨c, hc, hkey, hchannel, -⟩ := Calls.move_get hc'
    exact .inl ⟨c, hc, hkey.symm, hchannel.symm.trans hd⟩
  · intro i c' r hc' hr
    obtain ⟨c, hc, -, hchannel, ⟨rfl, hnow⟩ | ⟨-, hsame⟩⟩ := Calls.move_get hc'
    · rw [hchannel]
      exact hphase c r hc (hnow.symm.trans hr)
    · rw [hchannel]
      exact h.returned i c r hc (hsame.symm.trans hr)

theorem Traced.poll {closed : ε} {i : Nat} (h : Traced result inbox C)
    (hpoll : poll result closed C i = some C') : Traced result inbox C' := by
  rw [Acp.poll] at hpoll
  split at hpoll <;> cases hpoll
  · rename_i k d hcall
    refine h.move i fun c r hc hr => .inr ⟨d, ?_, ?_⟩
    · rw [hcall] at hc
      cases hc
      rfl
    · cases hr
      rfl
  · refine h.move i fun c r hc hr => .inl ⟨closed, ?_⟩
    cases hr
    rfl

theorem Traced.dropCall {i : Nat} (h : Traced result inbox C)
    (hdrop : dropCall C i = some C') : Traced result inbox C' := by
  rw [Acp.dropCall] at hdrop
  split at hdrop <;> cases hdrop <;> exact h.move i fun _ _ _ hr => by cases hr

/-! ## Calls that will not wait for ever -/

/-- The next poll of every waiting call returns. -/
def Answered (C : Replies ε) : Prop :=
  ∀ (i : Nat) c, C.calls[i]? = some c → c.phase = .waiting → c.channel ≠ .empty

theorem Answered.settle (h : Answered C) (k : Id) {channel : Channel Delivery}
    (hchannel : channel ≠ .empty) : Answered (C.settle k channel) := by
  intro i c' hc' hwaiting
  obtain ⟨c, hc, hsettles⟩ := Calls.settle_get hc'
  obtain ⟨-, hnow⟩ | ⟨-, hsame⟩ := hsettles.channel
  · rw [hnow]
    exact hchannel
  · rw [hsame]
    exact h i c hc (hsettles.phase.symm.trans hwaiting)

theorem Answered.register (h : Answered C) (k : Id) : Answered (C.register k) := by
  intro i c' hc' hwaiting
  obtain ⟨c, hc, hsettles⟩ | ⟨-, rfl⟩ := Calls.register_get hc'
  · obtain ⟨-, hnow⟩ | ⟨-, hsame⟩ := hsettles.channel
    · rw [hnow]
      nofun
    · rw [hsame]
      exact h i c hc (hsettles.phase.symm.trans hwaiting)
  · cases hwaiting

theorem answered_drain (h : C.Sound) (answer : Delivery) : Answered (C.drain answer) := by
  intro i c' hc' _ hempty
  have hpending := (h.drain answer).empty i c' hc' hempty
  cases hpending

theorem Answered.move (h : Answered C) (j : Nat) {phase : CallPhase (Except ε Json)}
    (hphase : ∀ c, C.calls[j]? = some c → phase = .waiting → c.channel ≠ .empty) :
    Answered (C.move j phase) := by
  intro i c' hc' hwaiting
  obtain ⟨c, hc, -, hchannel, ⟨rfl, hnow⟩ | ⟨-, hsame⟩⟩ := Calls.move_get hc'
  · rw [hchannel]
    exact hphase c hc (hnow.symm.trans hwaiting)
  · rw [hchannel]
    exact h i c hc (hsame.symm.trans hwaiting)

theorem Answered.poll {closed : ε} {i : Nat} (h : Answered C)
    (hpoll : poll result closed C i = some C') : Answered C' := by
  rw [Acp.poll] at hpoll
  split at hpoll <;> cases hpoll <;> exact h.move i fun _ _ hwaiting => by cases hwaiting

theorem Answered.dropCall {i : Nat} (h : Answered C)
    (hdrop : dropCall C i = some C') : Answered C' := by
  rw [Acp.dropCall] at hdrop
  split at hdrop <;> cases hdrop <;> exact h.move i fun _ _ hwaiting => by cases hwaiting

theorem Answered.route (h : Answered C) (n : Nat) (msg : Message) : Answered (route C n msg) := by
  cases msg with
  | request id method params => exact h
  | notification method params => exact h
  | response id r => exact h.settle id nofun

theorem Answered.poll_isSome (h : Answered C) (closed : ε) {i : Nat}
    {c : Call Id Delivery (Except ε Json)} (hc : C.calls[i]? = some c) (hwaiting : c.phase = .waiting) :
    ∃ r, Acp.poll result closed C i = some (C.move i (.returned r)) := by
  obtain ⟨key, channel, phase⟩ := c
  cases hwaiting
  rw [Acp.poll, hc]
  cases channel with
  | empty => exact absurd rfl (h i _ hc rfl)
  | filled d => exact ⟨_, rfl⟩
  | closed => exact ⟨_, rfl⟩

end Replies

end AgentGrid.Acp
