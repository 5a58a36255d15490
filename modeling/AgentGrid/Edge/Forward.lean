import AgentGrid.Edge.Headers

/-!
# Forwarding a request

The forwarder sends a request to the leader and waits for the head of the answer.
After a standby's `503`, an error or a deadline that has passed it asks for the
leader again and sends the request a second time.
-/

namespace AgentGrid.Edge

structure EdgeConfig where
  maxHops : Option UInt32 := none
  allowedPaths : List (List Char) := []

def EdgeConfig.pathAllowed (edge : EdgeConfig) (path : List Char) : Bool :=
  edge.allowedPaths.isEmpty || edge.allowedPaths.any fun p => p.isPrefixOf path

def maxRequestBody : Nat := 64 * 1024 * 1024

structure Request where
  method : String
  path : List Char
  headers : HeaderMap := {}
  bodyLength : Nat := 0

structure Response where
  status : Nat
  headers : HeaderMap := {}
deriving Repr, DecidableEq

def roleHeader : String := "x-agentgrid-role"

/-- What becomes of the request at an upstream: an answer that arrives in time, or
none (no connection, the answer lost, or later than the deadline), and whether the
control plane has processed the request. -/
inductive Exchange
  | answered (response : Response) (processed : Bool)
  | failed (processed : Bool)
deriving Repr, DecidableEq

def Exchange.processed : Exchange → Bool
  | .answered _ processed | .failed processed => processed

inductive Reply
  | notFound
  | payloadTooLarge
  | noLeader
  | badGateway
  | forwarded (response : Response)
deriving Repr, DecidableEq

def standby (response : Response) : Bool :=
  response.status == 503 && !(response.headers.getAll roleHeader).isEmpty

def forwardResponse (response : Response) : Response where
  status := response.status
  headers := responseHeaders response.headers

/-- The loop of `proxy`.  A turn is the exchange with the leader that was found, if
one was; without a retry left, `retried` is set. -/
def proxyLoop (turns : Nat → Option Exchange) : (retries turn : Nat) → Reply × List Exchange
  | retries, turn =>
    match turns turn with
    | none => (.noLeader, [])
    | some (.answered response processed) =>
        match retries with
        | retries + 1 =>
            if standby response then
              let (reply, exchanges) := proxyLoop turns retries (turn + 1)
              (reply, .answered response processed :: exchanges)
            else (.forwarded (forwardResponse response), [.answered response processed])
        | 0 => (.forwarded (forwardResponse response), [.answered response processed])
    | some (.failed processed) =>
        match retries with
        | retries + 1 =>
            let (reply, exchanges) := proxyLoop turns retries (turn + 1)
            (reply, .failed processed :: exchanges)
        | 0 => (.badGateway, [.failed processed])

/-- The reply to the client, and the exchanges with upstreams. -/
def proxy (edge : EdgeConfig) (req : Request) (turns : Nat → Option Exchange) : Reply × List Exchange :=
  if !edge.pathAllowed req.path then (.notFound, [])
  else if maxRequestBody < req.bodyLength then (.payloadTooLarge, [])
  else proxyLoop turns 1 0

def Request.idempotent (req : Request) : Bool :=
  req.method ∈ ["GET", "HEAD", "OPTIONS", "TRACE", "PUT", "DELETE"]

/-- The request goes upstream. -/
def carried (edge : EdgeConfig) (req : Request) : Bool :=
  edge.pathAllowed req.path && req.bodyLength ≤ maxRequestBody

/-- The exchange leads to another one. -/
def Exchange.retried : Exchange → Bool
  | .answered response _ => standby response
  | .failed _ => true

def AtMostOnce (req : Request) (exchanges : List Exchange) : Prop :=
  req.idempotent = false → exchanges.countP Exchange.processed ≤ 1

/-- A response goes to the client with the lines of the answer it was made from. -/
def Transparent (reply : Reply) (exchanges : List Exchange) : Prop :=
  ∀ out, reply = .forwarded out → ∃ response processed,
    exchanges.getLast? = some (.answered response processed) ∧ out.status = response.status ∧
      ∀ name, isHopByHop name = false → out.headers.getAll name = response.headers.getAll name

/-- A control plane has processed the request, its answer is a standby's or does not
arrive in time, and the second one processes it as well. -/
def ProcessedTwice (turns : Nat → Option Exchange) : Prop :=
  ∃ first second, turns 0 = some first ∧ first.retried = true ∧ first.processed = true ∧
    turns 1 = some second ∧ second.processed = true

/-- The exchange after which the client is answered. -/
def lastTurn (turns : Nat → Option Exchange) : Option Exchange :=
  (turns 0).bind fun first => if first.retried then turns 1 else some first

/-- No name of a line that is passed on occurs twice. -/
def Distinct (headers : HeaderMap) : Prop :=
  ∀ name, isHopByHop name = false → (headers.getAll name).length ≤ 1

theorem responseHeaders_getAll_iff (headers : HeaderMap) {name : String}
    (h : isHopByHop name = false) :
    (responseHeaders headers).getAll name = headers.getAll name ↔
      (headers.getAll name).length ≤ 1 := by
  have hkept := @insertKept_getAll (fun name => !isHopByHop name) name (by simp [h]) {} headers.lines
  have hlines : HeaderMap.mk headers.lines = headers := rfl
  rw [responseHeaders, hkept, hlines]
  rcases hall : headers.getAll name with _ | ⟨value, _ | ⟨other, rest⟩⟩
  · simp [HeaderMap.getAll]
  · simp
  · have hlast : (value :: other :: rest).getLast? = some ((other :: rest).getLast (by simp)) := by
      rw [List.getLast?_cons_cons, List.getLast?_eq_some_getLast (by simp)]
    rw [hlast]
    simp

theorem transparent_forwarded {response : Response} {processed : Bool}
    {exchanges : List Exchange}
    (hlast : exchanges.getLast? = some (.answered response processed)) :
    Transparent (.forwarded (forwardResponse response)) exchanges ↔
      Distinct response.headers := by
  constructor
  · intro h name hname
    obtain ⟨answer, _, hanswer, -, hlines⟩ := h _ rfl
    rw [hlast] at hanswer
    cases hanswer
    exact (responseHeaders_getAll_iff response.headers hname).mp (hlines name hname)
  · rintro h out ⟨rfl⟩
    exact ⟨response, processed, hlast, rfl, fun name hname =>
      (responseHeaders_getAll_iff response.headers hname).mpr (h name hname)⟩

theorem transparent_of_ne {reply : Reply} (h : ∀ out, reply ≠ .forwarded out)
    (exchanges : List Exchange) : Transparent reply exchanges :=
  fun out hout => absurd hout (h out)

/-- The last turn of the loop decides the reply. -/
theorem proxyLoop_zero (turns : Nat → Option Exchange) (turn : Nat) :
    proxyLoop turns 0 turn = match turns turn with
      | none => (.noLeader, [])
      | some (.answered response processed) =>
          (.forwarded (forwardResponse response), [.answered response processed])
      | some (.failed processed) => (.badGateway, [.failed processed]) := by
  rw [proxyLoop]

/-- A first exchange that is not final is followed by one more. -/
theorem proxyLoop_retried {turns : Nat → Option Exchange} {first : Exchange}
    (hfirst : turns 0 = some first) (hretried : first.retried = true) :
    proxyLoop turns 1 0 =
      ((proxyLoop turns 0 1).1, first :: (proxyLoop turns 0 1).2) := by
  rw [proxyLoop, hfirst]
  cases first with
  | answered response processed => exact if_pos hretried
  | failed processed => rfl

theorem proxyLoop_final {turns : Nat → Option Exchange} {first : Exchange}
    (hfirst : turns 0 = some first) (hretried : first.retried = false) :
    ∃ response processed, first = .answered response processed ∧
      proxyLoop turns 1 0 = (.forwarded (forwardResponse response), [first]) := by
  cases first with
  | answered response processed =>
      refine ⟨response, processed, rfl, ?_⟩
      rw [proxyLoop, hfirst]
      exact if_neg (ne_true_of_eq_false hretried)
  | failed processed => cases hretried

/-- A request that is sent on after a first exchange. -/
theorem atMostOnce_retried {req : Request} {turns : Nat → Option Exchange} {first : Exchange}
    (hfirst : turns 0 = some first) (hretried : first.retried = true) :
    AtMostOnce req (first :: (turns 1).toList) ↔
      req.idempotent = true ∨ ¬ ProcessedTwice turns := by
  cases hsecond : turns 1 with
  | none =>
      refine iff_of_true ?_ (.inr ?_)
      · intro _
        rw [Option.toList_none, List.countP_singleton]
        split <;> decide
      · rintro ⟨_, second, -, -, -, hsome, -⟩
        rw [hsecond] at hsome
        cases hsome
  | some second =>
      have hcount : [first, second].countP Exchange.processed =
          first.processed.toNat + second.processed.toNat := by
        cases hone : first.processed <;> cases htwo : second.processed <;> simp [hone, htwo]
      rw [Option.toList_some]
      constructor
      · intro h
        cases hidem : req.idempotent with
        | true => exact .inl rfl
        | false =>
            right
            rintro ⟨_, _, hsome, -, hone, hsome', htwo⟩
            cases hfirst.symm.trans hsome
            cases hsecond.symm.trans hsome'
            have := h hidem
            rw [hcount, hone, htwo] at this
            exact absurd this (by decide)
      · rintro (hidem | hnever) hnot
        · rw [hidem] at hnot
          cases hnot
        · rw [hcount]
          cases hone : first.processed with
          | false => cases second.processed <;> decide
          | true =>
              cases htwo : second.processed with
              | false => decide
              | true =>
                  exact absurd ⟨first, second, hfirst, hretried, hone, hsecond, htwo⟩ hnever

/-- What the loop does with the request. -/
theorem proxyLoop_iff (req : Request) (turns : Nat → Option Exchange) :
    AtMostOnce req (proxyLoop turns 1 0).2 ∧
        Transparent (proxyLoop turns 1 0).1 (proxyLoop turns 1 0).2 ↔
      (req.idempotent = true ∨ ¬ ProcessedTwice turns) ∧
        ∀ response processed, lastTurn turns = some (.answered response processed) →
          Distinct response.headers := by
  cases hfirst : turns 0 with
  | none =>
      have hloop : proxyLoop turns 1 0 = (.noLeader, []) := by rw [proxyLoop, hfirst]
      rw [hloop]
      refine iff_of_true ⟨fun _ => by simp, transparent_of_ne (fun _ hout => by cases hout) _⟩ ⟨.inr ?_, ?_⟩
      · rintro ⟨first, _, hsome, -⟩
        rw [hfirst] at hsome
        cases hsome
      · intro response processed hlast
        simp [lastTurn, hfirst] at hlast
  | some first =>
  cases hretried : first.retried with
  | false =>
      obtain ⟨response, processed, rfl, hloop⟩ := proxyLoop_final hfirst hretried
      rw [hloop, transparent_forwarded rfl]
      have honce : AtMostOnce req [.answered response processed] := by
        intro _
        rw [List.countP_singleton]
        split <;> decide
      have hnever : ¬ ProcessedTwice turns := by
        rintro ⟨first, _, hsome, hagain, -⟩
        cases hfirst.symm.trans hsome
        rw [hretried] at hagain
        cases hagain
      have hlast : lastTurn turns = some (.answered response processed) := by
        rw [lastTurn, hfirst, Option.bind_some, hretried]
        rfl
      constructor
      · rintro ⟨-, hdistinct⟩
        refine ⟨.inr hnever, fun _ _ hsame => ?_⟩
        cases hlast.symm.trans hsame
        exact hdistinct
      · rintro ⟨-, hdistinct⟩
        exact ⟨honce, hdistinct response processed hlast⟩
  | true =>
      have hlast : lastTurn turns = turns 1 := by
        rw [lastTurn, hfirst, Option.bind_some, hretried]
        rfl
      have honce : AtMostOnce req (first :: (turns 1).toList) ↔ _ :=
        atMostOnce_retried hfirst hretried
      rw [proxyLoop_retried hfirst hretried, proxyLoop_zero, hlast]
      rcases hsecond : turns 1 with _ | ⟨response, processed⟩ | processed
      · rw [hsecond] at honce
        refine and_congr honce (iff_of_true (transparent_of_ne (fun _ hout => by cases hout) _) nofun)
      · rw [hsecond] at honce
        refine and_congr honce ((transparent_forwarded rfl).trans ⟨?_, fun h => h _ _ rfl⟩)
        rintro h _ _ ⟨rfl⟩
        exact h
      · rw [hsecond] at honce
        refine and_congr honce (iff_of_true (transparent_of_ne (fun _ hout => by cases hout) _) nofun)

/-- For every request and all that its upstreams do: the request is processed at
most once and the answer passed on whole exactly if the request is not carried at
all, or it is not processed by two control planes in turn and the answer that goes
back repeats no name. -/
theorem forwarding_iff (edge : EdgeConfig) (req : Request) (turns : Nat → Option Exchange) :
    AtMostOnce req (proxy edge req turns).2 ∧
        Transparent (proxy edge req turns).1 (proxy edge req turns).2 ↔
      carried edge req = false ∨
        (req.idempotent = true ∨ ¬ ProcessedTwice turns) ∧
          ∀ response processed, lastTurn turns = some (.answered response processed) →
            Distinct response.headers := by
  unfold proxy
  by_cases hpath : edge.pathAllowed req.path = true
  · by_cases hbody : maxRequestBody < req.bodyLength
    · rw [if_neg (by simp [hpath]), if_pos hbody]
      refine iff_of_true ⟨fun _ => by simp, transparent_of_ne (fun _ hout => by cases hout) _⟩ (.inl ?_)
      simp [carried, Nat.not_le.mpr hbody]
    · rw [if_neg (by simp [hpath]), if_neg hbody, proxyLoop_iff]
      have hcarried : carried edge req = true := by simp [carried, hpath, Nat.not_lt.mp hbody]
      rw [hcarried, Bool.true_eq_false, false_or]
  · rw [if_pos (by simpa using hpath)]
    refine iff_of_true ⟨fun _ => by simp, transparent_of_ne (fun _ hout => by cases hout) _⟩ (.inl ?_)
    simp [carried, ne_true_of_eq_false (Bool.not_eq_true _ |>.mp hpath)]

/-- A slow leader has taken up the request; the second answer sets two cookies. -/
def slowLeader : Nat → Option Exchange
  | 0 => some (.failed true)
  | _ => some (.answered ⟨201, ⟨[("set-cookie", "a=1".toList), ("set-cookie", "b=2".toList)]⟩⟩ true)

theorem slow_leader_twice :
    ¬ (AtMostOnce ⟨"POST", "/v1/tasks".toList, {}, 0⟩
        (proxy {} ⟨"POST", "/v1/tasks".toList, {}, 0⟩ slowLeader).2 ∧
      Transparent (proxy {} ⟨"POST", "/v1/tasks".toList, {}, 0⟩ slowLeader).1
        (proxy {} ⟨"POST", "/v1/tasks".toList, {}, 0⟩ slowLeader).2) := by
  rintro ⟨honce, -⟩
  exact absurd (honce (by decide)) (by decide)

end AgentGrid.Edge
