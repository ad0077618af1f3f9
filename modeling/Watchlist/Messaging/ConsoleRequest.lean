import Watchlist.Library.Decimals
import Watchlist.Messaging.Envelope
import Watchlist.Mqtt.AppState

/-!
`ShowMqttConsole` of `WatchlistApp.cpp`: the request that its button makes of the form,
and what a server reads when it is given the serialized request. The request goes out
with every optional member, whatever its type asks for.
-/

namespace Watchlist.Messaging

open Bytes

/-- `static_cast<MessageType>` of the selected index; a value that is no enumerator is
written like the first. -/
def messageTypeOfIndex (index : ℤ) : MessageType :=
  if index = 1 then .sendToDevice
  else if index = 2 then .cmdToDevice
  else if index = 3 then .storeDatabaseValue
  else if index = 4 then .queryAiPrompt
  else .executeScript

/-- The request with the given number, made at the time `now`. -/
def consoleRequest (console : ConsoleState) (number : ℕ) (now : Bytes) : MqttRequest where
  id := console.clientId ++ ascii "-" ++ ofNat number
  type := messageTypeOfIndex console.selectedMessageType
  createdUtc := now
  sourceClientId := console.clientId
  scriptName := some console.scriptName
  deviceId := some console.deviceId
  payload := some console.payload
  command := some console.command
  key := some console.key
  value := some console.value
  prompt := some console.prompt

/-- The client and the number can be told from the id. -/
theorem consoleRequest_id_inj {a b : ConsoleState} {m n : ℕ} {now now' : Bytes} :
    (consoleRequest a m now).id = (consoleRequest b n now').id ↔
      a.clientId = b.clientId ∧ m = n := by
  have hid (console : ConsoleState) (k : ℕ) (time : Bytes) :
      (consoleRequest console k time).id = console.clientId ++ 45 :: ofNat k := by
    simp only [consoleRequest, List.append_assoc]
    rfl
  rw [hid, hid]
  exact numbered_inj (by decide)

/-- Nothing but its client id can be wrong with it. -/
theorem missingRequiredField_consoleRequest {console : ConsoleState} {number : ℕ} {now : Bytes}
    (hnow : now ≠ []) (hclient : isValidClientId console.clientId = true) :
    missingRequiredField (consoleRequest console number now) = none := by
  have hid : (consoleRequest console number now).id ≠ [] := by
    simp [consoleRequest, show ascii "-" = [45] from rfl]
  have hsource : console.clientId ≠ [] := by
    intro h
    rw [h] at hclient
    cases hclient
  unfold missingRequiredField
  rw [if_neg (by simpa using hid), if_neg (by simpa [consoleRequest] using hnow),
    if_neg (by simpa [consoleRequest] using hsource), if_neg (by simpa [consoleRequest] using hclient)]
  split <;> rfl

/-- What a server reads in the serialized request: the whole request, or nothing that it
could answer to a client. -/
theorem parseRequest_consoleRequest {parse : Bytes → Document} (hparse : StrictParser parse)
    {console : ConsoleState} {number : ℕ} {now : Bytes} (hnow : now ≠ [])
    (hanswers : isValidClientId (parseRequest parse
      (serializeRequest (consoleRequest console number now))).sourceClientId = true) :
    parseRequest parse (serializeRequest (consoleRequest console number now)) =
      ⟨some (consoleRequest console number now), (consoleRequest console number now).id,
        console.clientId, []⟩ := by
  cases hdecode : Json.decode (serializeRequest (consoleRequest console number now)) with
  | none =>
      rw [parseRequest, hparse.discarded _ hdecode] at hanswers
      cases hanswers
  | some v =>
      obtain rfl := object_of_decode_serializeRequest hdecode
      obtain ⟨member, hobject, hreads⟩ := readsEnvelope_of_strictParser hparse hdecode
      have hid : jsonStringValue member (ascii "id") = some (consoleRequest console number now).id :=
        jsonStringValue_of_readsEnvelope hreads (by simp [envelope])
      have hsource : jsonStringValue member (ascii "source_client_id") = some console.clientId :=
        jsonStringValue_of_readsEnvelope hreads (by simp [envelope, consoleRequest])
      have hclient : isValidClientId console.clientId = true := by
        rw [← hanswers, parseRequest, hobject]
        simp only [hsource, Option.getD_some]
        cases parseEnvelope member <;> rfl
      have hrequest := parseEnvelope_of_readsEnvelope hreads
        (missingRequiredField_consoleRequest hnow hclient)
      simp only [parseRequest, hobject, hrequest, hid, hsource, Option.getD_some]

end Watchlist.Messaging
