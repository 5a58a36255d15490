import AgentGrid.Foundation.Table
import AgentGrid.Foundation.Transition
import AgentGrid.Store.Artifacts
import Mathlib.Data.List.Infix
import Mathlib.Logic.Function.Basic

/-!
# The credential gateway

A sandbox holds a capability for one route, and the gateway swaps it for the key
of the route on the request it forwards.  Exchange routes hand out real tokens of
a provider instead.  `mint`, `revoke` and `proxy` are cut where they take and
leave a lock.

Tokens are drawn at random: a new one was not issued or named before and occurs in
no upstream and no credential.  `minted`, `exchanged` and `revoked` keep what was
issued and which revocations have returned, and a grant keeps when its request was
accepted and what was revoked by then.
-/

namespace AgentGrid.CredGateway

open AgentGrid.Foundation
open AgentGrid.Store (trim startsWith toAsciiLowercase)

/-! ## Configuration -/

/-- The header is in lower case. -/
structure Route where
  upstream : String
  header : String
  lower : toAsciiLowercase header = header

inductive ConfigError
  | fields (entry : String) (count : Nat)
  | emptyPart (entry : String)
  | notUrl (name upstream : String)
  | emptyAdmin
  | noRoutes
  | noKey (name : String)
  | declaredTwice (name : String)
deriving DecidableEq, Repr

theorem toLower_toLower (c : Char) : c.toLower.toLower = c.toLower := by
  by_cases h : c.val ≥ 'A'.val ∧ c.val ≤ 'Z'.val
  · have hlower : ¬(c.toLower.val ≥ 'A'.val ∧ c.toLower.val ≤ 'Z'.val) := by
      have hval : c.toLower.val = c.val + ('a'.val - 'A'.val) := congrArg Char.val (dif_pos h)
      rw [hval]
      rintro ⟨-, hle⟩
      have hle := UInt32.le_iff_toNat_le.mp hle
      have hz := UInt32.le_iff_toNat_le.mp h.2
      have ha := UInt32.le_iff_toNat_le.mp h.1
      simp only [UInt32.toNat_add, Char.reduceVal, UInt32.reduceToNat, UInt32.reduceSub] at hle hz ha
      omega
    exact dif_neg hlower
  · have hsame : c.toLower = c := dif_neg h
    rw [hsame, hsame]

theorem toAsciiLowercase_idem (text : String) :
    toAsciiLowercase (toAsciiLowercase text) = toAsciiLowercase text := by
  simp only [toAsciiLowercase, String.toList_ofList, List.map_map]
  congr 1
  exact List.map_congr_left fun c _ => toLower_toLower c

def splitTrim (c : Char) (text : String) : List String :=
  (text.toList.splitOn c).map fun part => trim (String.ofList part)

def trimEndSlash (text : String) : String :=
  String.ofList ((text.toList.reverse.dropWhile (· == '/')).reverse)

def parseRoute (entry : String) : Except ConfigError (String × Route) :=
  match splitTrim '|' entry with
  | [name, header, upstream] =>
      if name = "" || upstream = "" then .error (.emptyPart entry)
      else if startsWith upstream "https://" || startsWith upstream "http://" then
        .ok (name, ⟨trimEndSlash upstream, toAsciiLowercase header, toAsciiLowercase_idem header⟩)
      else .error (.notUrl name upstream)
  | parts => .error (.fields entry parts.length)

/-- An entry of a name that is there replaces it. -/
def parseRoutes (spec : String) : Except ConfigError (List (String × Route)) :=
  ((splitTrim ',' spec).filter (· != "")).foldlM
    (fun routes entry => do return (← parseRoute entry) :: routes) []

def splitOnce (c : Char) (text : String) : Option (String × String) :=
  if text.toList.contains c then
    some (String.ofList (text.toList.takeWhile (· != c)),
      String.ofList ((text.toList.dropWhile (· != c)).drop 1))
  else none

def parseKeys (spec : String) : List (String × String) :=
  ((((splitTrim ',' spec).filter (· != "")).filterMap (splitOnce '=')).map
    (fun (k, v) => (trim k, trim v))).filter (fun (k, v) => k != "" && v != "") |>.reverse

structure Gateway where
  routes : List (String × Route)
  keys : List (String × String)
  exchange : List String
  admin : String
  keyed : ∀ e ∈ routes, (keys.lookup e.1).isSome = true

def Gateway.build (routes : List (String × Route)) (keys : List (String × String))
    (exchange : List String) (admin : String) : Except ConfigError Gateway :=
  if trim admin = "" then .error .emptyAdmin
  else if routes.isEmpty && exchange.isEmpty then .error .noRoutes
  else if h : ∀ e ∈ routes, (keys.lookup e.1).isSome = true then
    match exchange.find? fun name => (routes.lookup name).isSome with
    | some name => .error (.declaredTwice name)
    | none => .ok ⟨routes, keys, exchange, admin, h⟩
  else
    .error (.noKey (((routes.find? fun e => (keys.lookup e.1).isNone).map Prod.fst).getD ""))

/-! ## Requests -/

def bytes (text : String) : List UInt8 := text.toUTF8.data.toList

/-- Names are in lower case, as `HeaderMap` has them. -/
structure Header where
  name : String
  value : List UInt8
deriving DecidableEq, Repr

/-- The text of the token occurs in the header. -/
def Header.shows (h : Header) (token : String) : Bool :=
  decide (token.toList <:+: h.name.toList) || decide (bytes token <:+: h.value)

def visibleAscii (b : UInt8) : Bool := b == 9 || (32 ≤ b && b < 127)

/-- `HeaderValue::to_str`. -/
def Header.toStr (h : Header) : Option String :=
  if h.value.all visibleAscii then some (String.ofList (h.value.map fun b => Char.ofNat b.toNat))
  else none

def getHeader (headers : List Header) (name : String) : Option String :=
  (headers.find? fun h => h.name == name).bind Header.toStr

def stripPrefix (start text : String) : Option String :=
  if startsWith text start then some (String.ofList (text.toList.drop start.length)) else none

def nonEmpty (text : String) : Option String := if trim text = "" then none else some (trim text)

def capabilityFrom (headers : List Header) (routeHeader : String) : Option String :=
  let direct := (getHeader headers routeHeader).bind nonEmpty
  let bearer := ((getHeader headers "authorization").bind (stripPrefix "Bearer ")).bind nonEmpty
  if routeHeader = "authorization" then bearer <|> direct else direct <|> bearer

def credentialValue (header secret : String) : String :=
  if header = "authorization" then "Bearer " ++ secret else secret

def hopByHop : List String :=
  ["connection", "keep-alive", "proxy-authenticate", "proxy-authorization", "te", "trailer",
    "trailers", "transfer-encoding", "upgrade", "host", "content-length"]

def maxRequestBytes : Nat := 64 * 1024 * 1024

structure Request where
  route : String
  rest : String
  query : Option String
  method : String
  headers : List Header
  body : List UInt8
deriving DecidableEq, Repr

structure Outgoing where
  method : String
  url : String
  headers : List Header
  body : List UInt8
deriving DecidableEq, Repr

def Outgoing.shows (out : Outgoing) (token : String) : Bool :=
  decide (token.toList <:+: out.method.toList) || decide (token.toList <:+: out.url.toList) ||
    out.headers.any (fun h => h.shows token) || decide (bytes token <:+: out.body)

def Route.url (route : Route) (req : Request) : String :=
  let base := trimEndSlash route.upstream ++ "/" ++ req.rest
  match req.query.filter (· != "") with
  | some q => base ++ "?" ++ q
  | none => base

/-- The client's header does not go on. -/
def Route.drops (route : Route) (h : Header) : Bool :=
  let lower := toAsciiLowercase h.name
  hopByHop.contains lower || lower == route.header

def Route.credential (route : Route) (secret : String) : Header :=
  ⟨route.header, bytes (credentialValue route.header secret)⟩

def Route.outgoing (route : Route) (secret : String) (req : Request) : Outgoing where
  method := req.method
  url := route.url req
  headers := req.headers.filter (fun h => !route.drops h) ++ [route.credential secret]
  body := req.body

def adminOk (G : Gateway) (headers : List Header) : Bool :=
  ((getHeader headers "authorization").bind (stripPrefix "Bearer ")).any fun t =>
    bytes t == bytes G.admin

/-- The text of two random UUIDs in their simple form. -/
def isNewToken (token : String) : Bool :=
  token.length == 64 && token.toList.all fun c => ('0' ≤ c && c ≤ '9') || ('a' ≤ c && c ≤ 'f')

def Gateway.hides (G : Gateway) (token : String) : Bool :=
  G.routes.all fun e =>
    !decide (token.toList <:+: e.2.upstream.toList) &&
      (G.keys.lookup e.1).all fun secret => !(e.2.credential secret).shows token

/-! ## The gateway at work -/

structure Cap where
  attemptId : String
  route : String
  expires : Nat
  quota : Option UInt32
  used : UInt32
deriving DecidableEq, Repr

structure ExchangeHandle where
  route : String
  expires : Nat
deriving DecidableEq, Repr

structure MintRequest where
  attemptId : String
  route : String
  ttlSecs : Nat
  quota : Option UInt32
deriving DecidableEq, Repr

structure Minted where
  token : String
  route : String
  expires : Nat
  quota : Option UInt32
deriving DecidableEq, Repr

structure Grant where
  token : String
  instant : Nat
  revoked : List String
deriving DecidableEq, Repr

inductive Phase
  | received
  | accepted (grant : Grant)
  | forwarded (grant : Grant) (out : Outgoing)
  | refused (status : Nat)
deriving DecidableEq, Repr

def Phase.grant : Phase → Option Grant
  | .accepted g | .forwarded g _ => some g
  | _ => none

structure Proxied where
  request : Request
  phase : Phase
deriving DecidableEq, Repr

structure State where
  caps : String → Option Cap := fun _ => none
  exchanges : String → Option ExchangeHandle := fun _ => none
  revoking : List String := []
  requests : List Proxied := []
  clock : Nat := 0
  minted : List Minted := []
  exchanged : List String := []
  revoked : List String := []

def nanos (secs : Nat) : Nat := secs * 10 ^ 9

namespace State

variable (G : Gateway) (S : State)

def issued : List String := S.minted.map Minted.token ++ S.exchanged

/-- What a random draw is: new, and nowhere in the configuration. -/
def unguessed (token : String) : Bool :=
  isNewToken token && !(S.issued ++ S.revoked).contains token && G.hides token

/-- A capability of an inject route. -/
def mint (req : MintRequest) (token : String) : Option State :=
  if G.exchange.contains req.route || (G.routes.lookup req.route).isNone ||
      !S.unguessed G token then none
  else
    let expires := S.clock + nanos (min (max req.ttlSecs 1) (24 * 60 * 60))
    some { S with
      caps := Function.update (fun t => (S.caps t).filter fun c => S.clock < c.expires) token
        (some ⟨req.attemptId, req.route, expires, req.quota, 0⟩)
      minted := S.minted ++ [⟨token, req.route, expires, req.quota⟩] }

/-- A token of the provider of an exchange route. -/
def exchange (req : MintRequest) (token : String) (expiresIn : Nat) : Option State :=
  if G.exchange.contains req.route && !S.issued.contains token then
    some { S with
      exchanges := Function.update
        (fun t => (S.exchanges t).filter fun h => S.clock < h.expires) token
        (some ⟨req.route, S.clock + nanos (max expiresIn 1)⟩)
      exchanged := S.exchanged ++ [token] }
  else none

/-- The first lock of `revoke`. -/
def revoke (token : String) : State :=
  match S.exchanges token with
  | some _ =>
      { S with
        exchanges := Function.update S.exchanges token none
        revoked := S.revoked ++ [token] }
  | none => { S with revoking := S.revoking ++ [token] }

/-- The second lock of `revoke`. -/
def revokeCap (i : Nat) : Option State :=
  match S.revoking[i]? with
  | none => none
  | some token =>
      some { S with
        revoking := S.revoking.eraseIdx i
        caps := Function.update S.caps token none
        revoked := S.revoked ++ [token] }

def setPhase (i : Nat) (p : Proxied) (phase : Phase) : State :=
  { S with requests := S.requests.set i { p with phase := phase } }

/-- The lock of `proxy`: the capability is validated and accounted. -/
def accept (i : Nat) (p : Proxied) (token : String) : State :=
  match S.caps token with
  | none => S.setPhase i p (.refused 401)
  | some cap =>
      if cap.expires ≤ S.clock then
        { S.setPhase i p (.refused 401) with caps := Function.update S.caps token none }
      else if cap.route ≠ p.request.route then S.setPhase i p (.refused 403)
      else if cap.quota.any fun quota => quota ≤ cap.used then S.setPhase i p (.refused 429)
      else
        { S.setPhase i p (.accepted ⟨token, S.clock, S.revoked⟩) with
          caps := Function.update S.caps token (some { cap with used := cap.used + 1 }) }

def validate (i : Nat) (p : Proxied) : State :=
  match G.routes.lookup p.request.route with
  | none => S.setPhase i p (.refused 404)
  | some route =>
      match capabilityFrom p.request.headers route.header with
      | none => S.setPhase i p (.refused 401)
      | some token => S.accept i p token

def send (i : Nat) (p : Proxied) (grant : Grant) : State :=
  match G.routes.lookup p.request.route, G.keys.lookup p.request.route with
  | some route, some secret =>
      if maxRequestBytes < p.request.body.length then S.setPhase i p (.refused 413)
      else S.setPhase i p (.forwarded grant (route.outgoing secret p.request))
  | _, _ => S.setPhase i p (.refused 500)

end State

inductive Event
  | mint (headers : List Header) (req : MintRequest) (token : String)
  | exchange (headers : List Header) (req : MintRequest) (token : String) (expiresIn : Nat)
  | revoke (headers : List Header) (token : String)
  | revokeCap (i : Nat)
  | arrive (request : Request)
  | validate (i : Nat)
  | send (i : Nat)
  | tick (nanos : Nat)
deriving DecidableEq, Repr

def step (G : Gateway) (S : State) : Event → Option State
  | .mint headers req token => if adminOk G headers then S.mint G req token else some S
  | .exchange headers req token expiresIn =>
      if adminOk G headers then S.exchange G req token expiresIn else some S
  | .revoke headers token => if adminOk G headers then some (S.revoke token) else some S
  | .revokeCap i => S.revokeCap i
  | .arrive request => some { S with requests := S.requests ++ [⟨request, .received⟩] }
  | .validate i =>
      match S.requests[i]? with
      | some ⟨request, .received⟩ => some (S.validate G i ⟨request, .received⟩)
      | _ => none
  | .send i =>
      match S.requests[i]? with
      | some ⟨request, .accepted grant⟩ => some (S.send G i ⟨request, .accepted grant⟩ grant)
      | _ => none
  | .tick n => some { S with clock := S.clock + n }

def Steps (G : Gateway) (S : State) (e : Event) (S' : State) : Prop := step G S e = some S'

end AgentGrid.CredGateway
