import Watchlist.Library.Json

/-!
`MqttMessages.cpp`: the request and acknowledgement envelopes, written by hand
and read through a JSON library. The library is a parameter: what a parser makes
of a text is a `Document`, which offers what the code asks of an
`nlohmann::json`, and `StrictParser` says what the code relies on.
-/

namespace Watchlist.Messaging

open Bytes

inductive MessageType
  | executeScript
  | sendToDevice
  | cmdToDevice
  | storeDatabaseValue
  | queryAiPrompt
  deriving DecidableEq

structure MqttRequest where
  id : Bytes
  type : MessageType
  createdUtc : Bytes
  sourceClientId : Bytes
  scriptName : Option Bytes
  deviceId : Option Bytes
  payload : Option Bytes
  command : Option Bytes
  key : Option Bytes
  value : Option Bytes
  prompt : Option Bytes
  deriving DecidableEq

structure MqttAck where
  requestId : Bytes
  status : Bytes
  message : Bytes
  completedUtc : Bytes
  deriving DecidableEq

structure ParseResult where
  request : Option MqttRequest
  requestId : Bytes
  sourceClientId : Bytes
  error : Bytes
  deriving DecidableEq

/-! ### The JSON library -/

/-- A parsed text: discarded, a value that is no object, or an object. `member`
answers `find`, and for a member that is found `is_string` and `get`. -/
inductive Document
  | discarded
  | notObject
  | object (member : Bytes → Option (Option Bytes))

/-- A strict RFC 8259 parser over UTF-8. What it makes of a repeated name is
left open, as the standard leaves it. -/
structure StrictParser (parse : Bytes → Document) : Prop where
  discarded : ∀ s, Json.decode s = none → parse s = .discarded
  notObject : ∀ s v, Json.decode s = some v → (∀ members, v ≠ .object members) →
    parse s = .notObject
  object : ∀ s members, Json.decode s = some (.object members) →
    ∃ member, parse s = .object member ∧
      (∀ k, member k = none ↔ k ∉ members.map Prod.fst) ∧
      ∀ k x, member k = some x → ∃ v, (k, v) ∈ members ∧ x = v.text?

/-- The parser that keeps the last of the members with one name. -/
def lastMemberParser (s : Bytes) : Document :=
  match Json.decode s with
  | none => .discarded
  | some (.object members) =>
      .object fun k => (members.reverse.find? fun m => m.1 = k).map fun m => m.2.text?
  | some _ => .notObject

theorem strictParser_lastMemberParser : StrictParser lastMemberParser where
  discarded := by
    intro s h
    simp [lastMemberParser, h]
  notObject := by
    intro s v h hv
    rw [lastMemberParser, h]
    cases v with
    | object members => exact absurd rfl (hv members)
    | null | boolean | number | string | array => rfl
  object := by
    intro s members h
    refine ⟨_, by rw [lastMemberParser, h], fun k => ?_, fun k x hx => ?_⟩
    · simp only [Option.map_eq_none_iff, List.find?_eq_none, List.mem_reverse, decide_eq_true_eq,
        List.mem_map, not_exists, not_and]
    · obtain ⟨m, hm, rfl⟩ := Option.map_eq_some_iff.mp hx
      obtain rfl : m.1 = k := by simpa using List.find?_some hm
      exact ⟨m.2, List.mem_reverse.mp (List.mem_of_find?_eq_some hm), rfl⟩

/-! ### Writing -/

def escapeChar (c : UInt8) : Bytes :=
  if c = 92 then ascii "\\\\"
  else if c = 34 then ascii "\\\""
  else if c = 10 then ascii "\\n"
  else if c = 13 then ascii "\\r"
  else if c = 9 then ascii "\\t"
  else [c]

def escapeJson (value : Bytes) : Bytes := value.flatMap escapeChar

/-- The stream written so far, and whether the next field is the first. -/
abbrev Stream := Bytes × Bool

def appendField (stream : Stream) (name value : Bytes) : Stream :=
  ((if stream.2 then stream.1 else stream.1 ++ ascii ",") ++
    ascii "\"" ++ name ++ ascii "\":\"" ++ escapeJson value ++ ascii "\"", false)

def appendOptionalField (stream : Stream) (name : Bytes) (value : Option Bytes) : Stream :=
  match value with
  | some value => appendField stream name value
  | none => stream

def toString : MessageType → Bytes
  | .executeScript => ascii "execute_script"
  | .sendToDevice => ascii "send_to_device"
  | .cmdToDevice => ascii "cmd_to_device"
  | .storeDatabaseValue => ascii "store_database_value"
  | .queryAiPrompt => ascii "query_AI_prompt"

def messageTypeFromString (value : Bytes) : Option MessageType :=
  if value = ascii "execute_script" then some .executeScript
  else if value = ascii "send_to_device" then some .sendToDevice
  else if value = ascii "cmd_to_device" then some .cmdToDevice
  else if value = ascii "store_database_value" then some .storeDatabaseValue
  else if value = ascii "query_AI_prompt" then some .queryAiPrompt
  else none

def isValidClientId (value : Bytes) : Bool :=
  if value.isEmpty || 128 < value.length then false
  else value.all fun c => isAlnum c || c == 45 || c == 95 || c == 46

def serializeRequest (request : MqttRequest) : Bytes :=
  let stream : Stream := (ascii "\x7b", true)
  let stream := appendField stream (ascii "id") request.id
  let stream := appendField stream (ascii "type") (toString request.type)
  let stream := appendField stream (ascii "created_utc") request.createdUtc
  let stream := appendField stream (ascii "source_client_id") request.sourceClientId
  let stream := appendOptionalField stream (ascii "script_name") request.scriptName
  let stream := appendOptionalField stream (ascii "device_id") request.deviceId
  let stream := appendOptionalField stream (ascii "payload") request.payload
  let stream := appendOptionalField stream (ascii "command") request.command
  let stream := appendOptionalField stream (ascii "key") request.key
  let stream := appendOptionalField stream (ascii "value") request.value
  let stream := appendOptionalField stream (ascii "prompt") request.prompt
  stream.1 ++ ascii "\x7d"

def serializeAck (ack : MqttAck) : Bytes :=
  let stream : Stream := (ascii "\x7b", true)
  let stream := appendField stream (ascii "request_id") ack.requestId
  let stream := appendField stream (ascii "status") ack.status
  let stream := appendField stream (ascii "message") ack.message
  let stream := appendField stream (ascii "completed_utc") ack.completedUtc
  stream.1 ++ ascii "\x7d"

/-- `now` is what `UtcNowIso8601` reads off the clock. -/
def makeAck (now requestId status message : Bytes) : MqttAck :=
  ⟨requestId, status, message, now⟩

/-! ### Reading -/

def jsonStringValue (member : Bytes → Option (Option Bytes)) (key : Bytes) : Option Bytes :=
  (member key).join

def missing (field : String) : Option Bytes :=
  some (ascii "missing required field: " ++ ascii field)

def missingRequiredField (request : MqttRequest) : Option Bytes :=
  if request.id.isEmpty then missing "id"
  else if request.createdUtc.isEmpty then missing "created_utc"
  else if request.sourceClientId.isEmpty then missing "source_client_id"
  else if !isValidClientId request.sourceClientId then
    some (ascii "invalid field: source_client_id")
  else
    match request.type with
    | .executeScript => if request.scriptName.isNone then missing "script_name" else none
    | .sendToDevice =>
        if request.deviceId.isNone then missing "device_id"
        else if request.payload.isNone then missing "payload"
        else none
    | .cmdToDevice =>
        if request.deviceId.isNone then missing "device_id"
        else if request.command.isNone then missing "command"
        else none
    | .storeDatabaseValue =>
        if request.key.isNone then missing "key"
        else if request.value.isNone then missing "value"
        else none
    | .queryAiPrompt => if request.prompt.isNone then missing "prompt" else none

/-- The members of the envelope. -/
def envelopeFields : List Bytes :=
  [ascii "id", ascii "type", ascii "created_utc", ascii "source_client_id", ascii "script_name",
    ascii "device_id", ascii "payload", ascii "command", ascii "key", ascii "value",
    ascii "prompt"]

def nonStringEnvelopeField (member : Bytes → Option (Option Bytes)) : Option Bytes :=
  (envelopeFields.find? fun field => member field = some none).map fun field =>
    ascii "field must be a string: " ++ field

/-- The request that the members of an object make. -/
def requestOf (member : Bytes → Option (Option Bytes)) (type : MessageType) : MqttRequest where
  id := (jsonStringValue member (ascii "id")).getD []
  type := type
  createdUtc := (jsonStringValue member (ascii "created_utc")).getD []
  sourceClientId := (jsonStringValue member (ascii "source_client_id")).getD []
  scriptName := jsonStringValue member (ascii "script_name")
  deviceId := jsonStringValue member (ascii "device_id")
  payload := jsonStringValue member (ascii "payload")
  command := jsonStringValue member (ascii "command")
  key := jsonStringValue member (ascii "key")
  value := jsonStringValue member (ascii "value")
  prompt := jsonStringValue member (ascii "prompt")

/-- `ParseRequest` on an object: the request, or the reason there is none. -/
def parseEnvelope (member : Bytes → Option (Option Bytes)) : Except Bytes MqttRequest :=
  match nonStringEnvelopeField member with
  | some error => .error error
  | none =>
      match jsonStringValue member (ascii "type") with
      | none => .error (ascii "missing required field: type")
      | some typeValue =>
          match messageTypeFromString typeValue with
          | none => .error (ascii "unknown message type: " ++ typeValue)
          | some type =>
              match missingRequiredField (requestOf member type) with
              | some error => .error error
              | none => .ok (requestOf member type)

def parseRequest (parse : Bytes → Document) (json : Bytes) : ParseResult :=
  match parse json with
  | .discarded | .notObject => ⟨none, [], [], ascii "invalid JSON object"⟩
  | .object member =>
      let requestId := (jsonStringValue member (ascii "id")).getD []
      let sourceClientId := (jsonStringValue member (ascii "source_client_id")).getD []
      match parseEnvelope member with
      | .error error => ⟨none, requestId, sourceClientId, error⟩
      | .ok request => ⟨some request, requestId, sourceClientId, []⟩

end Watchlist.Messaging
