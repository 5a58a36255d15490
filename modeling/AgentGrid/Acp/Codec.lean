import AgentGrid.Acp.Replies
import AgentGrid.Store.Artifacts

/-!
# The frames of the codec

`encode_line` prints a message as a JSON object on a line, and `decode_line` reads it
back.  The parser of JSON is a parameter.  An optional member that is absent and one
that is null are different texts, and an id may be any JSON value.
-/

namespace AgentGrid.Acp.Codec

open AgentGrid.Node (Json)
open AgentGrid.Store (trimChars isWhitespace)

/-! ## Encoding -/

def i64Value (n : Int64) : Json :=
  if 0 ≤ n.toInt then .unsigned n.toInt.toNat else .negative (-n.toInt).toNat

def Id.value : Id → Json
  | .num n => i64Value n
  | .str s => .string s
  | .null => .null

def RpcError.value (e : RpcError) : Json :=
  .object ([("code", i64Value e.code), ("message", .string e.message)] ++
    (e.data.map fun data => ("data", data)).toList)

def Message.value : Message → Json
  | .request id method params =>
      .object [("jsonrpc", .string "2.0"), ("method", .string method), ("params", params),
        ("id", Id.value id)]
  | .notification method params =>
      .object [("jsonrpc", .string "2.0"), ("method", .string method), ("params", params)]
  | .response id (.ok v) =>
      .object [("jsonrpc", .string "2.0"), ("id", Id.value id), ("result", v)]
  | .response id (.error e) =>
      .object [("jsonrpc", .string "2.0"), ("id", Id.value id), ("error", RpcError.value e)]

def encodeLine (m : Message) : List Char := (Message.value m).text ++ ['\n']

/-! ## Decoding -/

/-- The derived reader takes a null for an option as its absence. -/
def optionFromValue : Json → Option Json
  | .null => none
  | v => some v

/-- The derived reader of `RpcError`, from an object or from a sequence. -/
def rpcErrorFromValue (v : Json) : Option RpcError :=
  match v with
  | .object _ =>
      match (v.get "code").bind asI64, (v.get "message").bind Json.asStr with
      | some code, some message => some ⟨code, message, (v.get "data").bind optionFromValue⟩
      | _, _ => none
  | .array (code :: message :: rest) =>
      match asI64 code, message.asStr, rest with
      | some code, some message, [] => some ⟨code, message, none⟩
      | some code, some message, [data] => some ⟨code, message, optionFromValue data⟩
      | _, _, _ => none
  | _ => none

inductive CodecError
  | emptyFrame
  | syntaxError
  | notAnObject
  | wrongVersion
  | unknownShape
  | badError
deriving DecidableEq

def messageFromValue (v : Json) : Except CodecError Message :=
  match v with
  | .object _ =>
      if (v.get "jsonrpc").bind Json.asStr = some "2.0" then
        let params := (v.get "params").getD .null
        match (v.get "method").bind Json.asStr with
        | some method =>
            match v.get "id" with
            | some id => .ok (.request (idFromValue id) method params)
            | none => .ok (.notification method params)
        | none =>
            let id := ((v.get "id").map idFromValue).getD .null
            match v.get "error", v.get "result" with
            | some e, _ =>
                match rpcErrorFromValue e with
                | some e => .ok (.response id (.error e))
                | none => .error .badError
            | none, some r => .ok (.response id (.ok r))
            | none, none => .error .unknownShape
      else .error .wrongVersion
  | _ => .error .notAnObject

/-- The reader that the two ends of a connection use. -/
theorem messageFromValue_eq (parse : List UInt8 → Option Json) (v : Json) :
    (messageFromValue v).toOption = fromValue ⟨parse, rpcErrorFromValue⟩ v := by
  unfold messageFromValue fromValue
  cases v with
  | object fields =>
      dsimp only
      split
      · cases ((Json.object fields).get "method").bind Json.asStr with
        | some method => cases (Json.object fields).get "id" <;> rfl
        | none =>
            cases (Json.object fields).get "error" with
            | some e =>
                dsimp only
                cases rpcErrorFromValue e <;> rfl
            | none => cases (Json.object fields).get "result" <;> rfl
      · rfl
  | _ => rfl

def decodeLine (parse : List Char → Option Json) (line : List Char) :
    Except CodecError Message :=
  let line := trimChars line
  if line = [] then .error .emptyFrame
  else
    match parse line with
    | some v => messageFromValue v
    | none => .error .syntaxError

/-! ## Ids -/

/-- The ids that an `Id` can hold. -/
def fitsId : Json → Bool
  | .null | .string _ => true
  | .unsigned n => decide (n < 2 ^ 63)
  | .negative n => decide (0 < n) && decide (n ≤ 2 ^ 63)
  | _ => false

theorem asI64_i64Value (n : Int64) : asI64 (i64Value n) = some n := by
  have hlow := Int64.le_toInt n
  have hhigh := Int64.toInt_lt n
  unfold i64Value
  split
  · rename_i hn
    have hsmall : n.toInt.toNat < 2 ^ 63 := by omega
    rw [asI64, if_pos hsmall, Option.some_inj]
    apply Int64.toInt_inj.mp
    rw [Int64.toInt_ofNat_of_lt hsmall]
    omega
  · rename_i hn
    have hsmall : (-n.toInt).toNat ≤ 2 ^ 63 := by omega
    rw [asI64, if_pos hsmall, Option.some_inj]
    have hback : -((-n.toInt).toNat : Int) = n.toInt := by omega
    rw [hback, Int64.ofInt_toInt]

theorem idFromValue_value (id : Id) : idFromValue (Id.value id) = id := by
  cases id with
  | num n =>
      have hread := asI64_i64Value n
      rw [Id.value]
      cases hv : i64Value n with
      | unsigned k => rw [idFromValue, ← hv, hread, Option.getD_some]
      | negative k => rw [idFromValue, ← hv, hread, Option.getD_some]
      | _ =>
          unfold i64Value at hv
          split at hv <;> cases hv
  | str s => rfl
  | null => rfl

/-- An id comes back as it was exactly when an `Id` can hold it. -/
theorem value_idFromValue_iff (v : Json) : Id.value (idFromValue v) = v ↔ fitsId v = true := by
  cases v with
  | null => simp [idFromValue, Id.value, fitsId]
  | bool b => simp [idFromValue, Id.value, fitsId]
  | float text =>
      have hzero : (0 : Int64).toInt = 0 := rfl
      simp [idFromValue, asI64, Id.value, i64Value, fitsId, hzero]
  | string s => simp [idFromValue, Id.value, fitsId]
  | array items => simp [idFromValue, Id.value, fitsId]
  | object fields => simp [idFromValue, Id.value, fitsId]
  | unsigned n =>
      simp only [idFromValue, asI64, Id.value, fitsId, decide_eq_true_eq]
      split
      · rename_i hn
        have hint := Int64.toInt_ofNat_of_lt hn
        rw [Option.getD_some, i64Value, hint, if_pos (by omega), Int.toNat_natCast]
        exact iff_of_true rfl hn
      · rename_i hn
        have hzero : (0 : Int64).toInt = 0 := rfl
        simp only [Option.getD_none, i64Value, hzero, le_refl, if_true, Json.unsigned.injEq, hn,
          iff_false]
        omega
  | negative n =>
      simp only [idFromValue, asI64, Id.value, fitsId, Bool.and_eq_true, decide_eq_true_eq]
      split
      · rename_i hn
        have hint : (Int64.ofInt (-(n : Int))).toInt = -(n : Int) := by
          rw [Int64.toInt_ofInt]
          apply Int.bmod_eq_of_le
          · simp only [Int64.size]
            omega
          · simp only [Int64.size]
            omega
        simp only [Option.getD_some, i64Value, hint, hn, and_true]
        split
        · rename_i hpos
          simp only [reduceCtorEq, false_iff]
          omega
        · rename_i hneg
          simp only [Int.neg_neg, Int.toNat_natCast, true_iff]
          omega
      · rename_i hn
        have hzero : (0 : Int64).toInt = 0 := rfl
        rw [Option.getD_none, i64Value, hzero, if_pos (le_refl 0)]
        exact iff_of_false nofun fun h => hn h.2

/-! ## Round trips -/

/-- An error whose data is a null. -/
def nullData : Message → Bool
  | .response _ (.error ⟨_, _, some .null⟩) => true
  | _ => false

theorem rpcErrorFromValue_value (e : RpcError) :
    rpcErrorFromValue (RpcError.value e) = some ⟨e.code, e.message,
      e.data.bind optionFromValue⟩ := by
  obtain ⟨code, message, data⟩ := e
  cases data <;>
    simp [RpcError.value, rpcErrorFromValue, Json.get, asI64_i64Value, Json.asStr]

/-- What a message reads back as; the data of an error goes through an option. -/
def reread : Message → Message
  | .response id (.error e) =>
      .response id (.error ⟨e.code, e.message, e.data.bind optionFromValue⟩)
  | m => m

theorem messageFromValue_value (m : Message) :
    messageFromValue (Message.value m) = .ok (reread m) := by
  cases m with
  | request id method params =>
      simp [Message.value, messageFromValue, reread, Json.get, Json.asStr, idFromValue_value]
  | notification method params =>
      simp [Message.value, messageFromValue, reread, Json.get, Json.asStr]
  | response id result =>
      cases result with
      | ok v =>
          simp [Message.value, messageFromValue, reread, Json.get, Json.asStr, idFromValue_value]
      | error e =>
          simp [Message.value, messageFromValue, reread, Json.get, Json.asStr, idFromValue_value,
            rpcErrorFromValue_value]

theorem reread_eq_iff (m : Message) : reread m = m ↔ nullData m = false := by
  cases m with
  | request id method params => simp [reread, nullData]
  | notification method params => simp [reread, nullData]
  | response id result =>
      cases result with
      | ok v => simp [reread, nullData]
      | error e =>
          obtain ⟨code, message, data⟩ := e
          cases data with
          | none => simp [reread, nullData]
          | some data => cases data <;> simp [reread, nullData, optionFromValue]

/-- An encoded message is one object and a newline, so trimming leaves the object. -/
theorem trimChars_encodeLine (m : Message) :
    trimChars (encodeLine m) = (Message.value m).text := by
  obtain ⟨fields, hfields⟩ : ∃ fields, Message.value m = .object fields := by
    cases m with
    | response id result => cases result <;> exact ⟨_, rfl⟩
    | _ => exact ⟨_, rfl⟩
  have hbrace : isWhitespace '\x7b' = false ∧ isWhitespace '\x7d' = false ∧
      isWhitespace '\n' = true := by decide
  simp [encodeLine, hfields, Json.text_object, trimChars, hbrace]

theorem decodeLine_encodeLine {parse : List Char → Option Json} {m : Message}
    (h : parse (Message.value m).text = some (Message.value m)) :
    decodeLine parse (encodeLine m) = .ok (reread m) := by
  have hne : (Message.value m).text ≠ [] := by
    cases m with
    | response id result => cases result <;> simp [Message.value, Json.text_object]
    | _ => simp [Message.value, Json.text_object]
  simp only [decodeLine, trimChars_encodeLine]
  rw [if_neg hne, h]
  exact messageFromValue_value m

/-- The id that a request is read with. -/
theorem request_id {v : Json} {id : Id} {method : String} {params : Json}
    (h : messageFromValue v = .ok (.request id method params)) :
    ∃ idv, v.get "id" = some idv ∧ id = idFromValue idv := by
  unfold messageFromValue at h
  split at h
  · split at h
    · dsimp only at h
      split at h
      · split at h
        · rename_i idv hid
          cases h
          exact ⟨idv, hid, rfl⟩
        · cases h
      · split at h
        · split at h <;> cases h
        · cases h
        · cases h
    · cases h
  · cases h

theorem response_id (id : Id) (result : Except RpcError Json) :
    (Message.value (.response id result)).get "id" = some (Id.value id) := by
  cases result <;> rfl

/-- A message comes back as it was unless it is an error with a null for its data, and a
response carries the id of its request exactly when an `Id` can hold it. -/
theorem codec_round_trip_iff {parse : List Char → Option Json} {m : Message}
    (hm : parse (Message.value m).text = some (Message.value m))
    {line : List Char} {frame : Json} {id : Id} {method : String} {params : Json}
    (hframe : parse (trimChars line) = some frame)
    (hrequest : decodeLine parse line = .ok (.request id method params))
    (result : Except RpcError Json) :
    (decodeLine parse (encodeLine m) = .ok m ↔ nullData m = false) ∧
      ((Message.value (.response id result)).get "id" = frame.get "id" ↔
        (frame.get "id").any fitsId = true) := by
  constructor
  · rw [decodeLine_encodeLine hm, Except.ok.injEq, reread_eq_iff]
  · unfold decodeLine at hrequest
    dsimp only at hrequest
    split at hrequest
    · cases hrequest
    · rw [hframe] at hrequest
      obtain ⟨idv, hid, rfl⟩ := request_id hrequest
      rw [response_id, hid, Option.some_inj, Option.any_some, value_idFromValue_iff]

/-- A parser that knows the text of one value. -/
def parserOf (v : Json) (text : List Char) : Option Json := if text = v.text then some v else none

def pingRequest : Message := .request (.num 7) "ping" .null

theorem ping_round_trip :
    (decodeLine (parserOf (Message.value pingRequest)) (encodeLine pingRequest) =
        .ok pingRequest ↔ nullData pingRequest = false) ∧
      ((Message.value (.response (.num 7) (.ok .null))).get "id" =
          (Message.value pingRequest).get "id" ↔
        ((Message.value pingRequest).get "id").any fitsId = true) := by
  have hm : parserOf (Message.value pingRequest) (Message.value pingRequest).text =
      some (Message.value pingRequest) := if_pos rfl
  have hframe : parserOf (Message.value pingRequest) (trimChars (encodeLine pingRequest)) =
      some (Message.value pingRequest) := by
    rw [trimChars_encodeLine, hm]
  exact codec_round_trip_iff hm hframe (decodeLine_encodeLine hm) (.ok .null)

def nullError : Message := .response .null (.error ⟨0, "", some .null⟩)

/-- A request whose id is no integer. -/
def floatFrame : Json :=
  .object [("jsonrpc", .string "2.0"), ("method", .string "ping"), ("id", .float "1.5")]

/-- An error loses a null for its data, and a request its id. -/
theorem null_data_lost :
    (∃ parse m, parse (Message.value m).text = some (Message.value m) ∧
      decodeLine parse (encodeLine m) ≠ .ok m) ∧
    ∃ parse line frame id method params, parse (trimChars line) = some frame ∧
      decodeLine parse line = .ok (.request id method params) ∧
        ∀ result, (Message.value (.response id result)).get "id" ≠ frame.get "id" := by
  refine ⟨⟨parserOf (Message.value nullError), nullError, if_pos rfl, ?_⟩,
    fun _ => some floatFrame, ['x'], floatFrame, .num 0, "ping", .null, rfl, ?_, ?_⟩
  · rw [decodeLine_encodeLine (if_pos rfl), ne_eq, Except.ok.injEq, reread_eq_iff]
    exact Bool.noConfusion
  · have htrim : trimChars ['x'] = ['x'] := by decide
    rw [decodeLine, htrim]
    simp [messageFromValue, floatFrame, Json.get, Json.asStr, idFromValue, asI64]
  · intro result
    rw [response_id]
    simp [floatFrame, Json.get, Id.value, i64Value]

end AgentGrid.Acp.Codec
