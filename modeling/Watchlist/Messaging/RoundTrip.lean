import Watchlist.Messaging.JsonText

/-!
Decoding after encoding a request. The envelope is written member by member and
read back by name, so the round trip holds as soon as the text is one that a
strict parser accepts; that is decided by the control characters in the fields.
-/

namespace Watchlist.Messaging

open Bytes

/-! ### The members of a request -/

/-- The members of the envelope in the order they are written. -/
def envelope (r : MqttRequest) : List (Bytes × Option Bytes) :=
  [(ascii "id", some r.id), (ascii "type", some (toString r.type)),
    (ascii "created_utc", some r.createdUtc), (ascii "source_client_id", some r.sourceClientId),
    (ascii "script_name", r.scriptName), (ascii "device_id", r.deviceId),
    (ascii "payload", r.payload), (ascii "command", r.command), (ascii "key", r.key),
    (ascii "value", r.value), (ascii "prompt", r.prompt)]

/-- The members that are there. -/
def present (members : List (Bytes × Option Bytes)) : List (Bytes × Bytes) :=
  members.filterMap fun m => m.2.map fun value => (m.1, value)

/-- The string fields of a request. -/
def MqttRequest.strings (r : MqttRequest) : List Bytes :=
  r.id :: r.createdUtc :: r.sourceClientId ::
    [r.scriptName, r.deviceId, r.payload, r.command, r.key, r.value, r.prompt].reduceOption

theorem mem_present {members : List (Bytes × Option Bytes)} {f : Bytes × Bytes} :
    f ∈ present members ↔ (f.1, some f.2) ∈ members := by
  simp only [present, List.mem_filterMap, Option.map_eq_some_iff]
  constructor
  · rintro ⟨⟨k, _⟩, hm, value, rfl, rfl⟩
    exact hm
  · intro hm
    exact ⟨_, hm, f.2, rfl, rfl⟩

theorem foldl_present (members : List (Bytes × Option Bytes)) (stream : Stream) :
    members.foldl (fun stream m => appendOptionalField stream m.1 m.2) stream =
      (present members).foldl (fun stream f => appendField stream f.1 f.2) stream := by
  induction members generalizing stream with
  | nil => rfl
  | cons m members ih =>
      obtain ⟨name, value⟩ := m
      cases value with
      | none => exact ih stream
      | some value => exact ih (appendField stream name value)

theorem serializeRequest_eq (r : MqttRequest) :
    serializeRequest r = objectText (present (envelope r)) := by
  rw [objectText, ← foldl_present]
  rfl

theorem names_envelope (r : MqttRequest) : (envelope r).map Prod.fst = envelopeFields := rfl

theorem nodup_envelopeFields : envelopeFields.Nodup := by decide

theorem plain_envelopeFields : ∀ name ∈ envelopeFields, Plain name ∧ Utf8.WellFormed name := by
  decide

theorem values_present (members : List (Bytes × Option Bytes)) :
    (present members).map Prod.snd = (members.map Prod.snd).reduceOption := by
  induction members with
  | nil => rfl
  | cons m members ih =>
      obtain ⟨name, value⟩ := m
      cases value with
      | none => simpa [present] using ih
      | some value => simpa [present] using ih

theorem values_envelope (r : MqttRequest) :
    (present (envelope r)).map Prod.snd = r.id :: toString r.type :: r.strings.tail := by
  rw [values_present]
  simp [envelope, MqttRequest.strings]

/-- A property of every member value is one of the type's name and every string field. -/
theorem forall_present_envelope {r : MqttRequest} {P : Bytes → Prop} :
    (∀ f ∈ present (envelope r), P f.2) ↔ P (toString r.type) ∧ ∀ s ∈ r.strings, P s := by
  have hvalues : (∀ f ∈ present (envelope r), P f.2) ↔
      ∀ s ∈ (present (envelope r)).map Prod.snd, P s := by
    simp only [List.forall_mem_map]
  have hstrings : r.strings = r.id :: r.strings.tail := rfl
  rw [hvalues, values_envelope, hstrings]
  simp only [List.forall_mem_cons, List.tail_cons]
  tauto

theorem emittable_toString (t : MessageType) : Emittable (toString t) := by
  cases t <;> decide

theorem wellFormed_toString (t : MessageType) : Utf8.WellFormed (toString t) := by
  cases t <;> decide

@[simp] theorem messageTypeFromString_toString (t : MessageType) :
    messageTypeFromString (toString t) = some t := by
  cases t <;> decide

/-- What the grammar makes of a serialized request. -/
theorem decode_serializeRequest {r : MqttRequest} (hutf8 : ∀ s ∈ r.strings, Utf8.WellFormed s) :
    Json.decode (serializeRequest r) =
      if ∀ s ∈ r.strings, Emittable s then
        some (.object ((present (envelope r)).map fun f => (f.1, .string f.2)))
      else none := by
  have hnames : ∀ f ∈ present (envelope r), Plain f.1 ∧ Utf8.WellFormed f.1 := by
    intro f hf
    refine plain_envelopeFields f.1 ?_
    rw [← names_envelope r]
    exact List.mem_map_of_mem (mem_present.mp hf)
  have hvalues : ∀ f ∈ present (envelope r), Utf8.WellFormed f.2 :=
    forall_present_envelope.mpr ⟨wellFormed_toString r.type, hutf8⟩
  have hall : AllEmittable (present (envelope r)) ↔ ∀ s ∈ r.strings, Emittable s := by
    rw [AllEmittable, forall_present_envelope, and_iff_right (emittable_toString r.type)]
  have hne : present (envelope r) ≠ [] := by simp [present, envelope]
  rw [serializeRequest_eq, decode_objectText hne (fun g hg => (hnames g hg).1) fun g hg =>
    ⟨(hnames g hg).2, hvalues g hg⟩]
  exact if_congr hall rfl rfl

/-! ### Reading the members by name -/

/-- An object that has exactly the members of the envelope that are there. -/
def ReadsEnvelope (member : Bytes → Option (Option Bytes)) (r : MqttRequest) : Prop :=
  ∀ m ∈ envelope r, member m.1 = m.2.map some

theorem readsEnvelope_of_strictParser {parse : Bytes → Document} (hparse : StrictParser parse)
    {s : Bytes} {r : MqttRequest}
    (hs : Json.decode s = some (.object ((present (envelope r)).map fun f => (f.1, .string f.2)))) :
    ∃ member, parse s = .object member ∧ ReadsEnvelope member r := by
  obtain ⟨member, hobject, habsent, hfound⟩ := hparse.object s _ hs
  refine ⟨member, hobject, ?_⟩
  rintro ⟨name, value⟩ hm
  have hnodup : ((envelope r).map Prod.fst).Nodup := names_envelope r ▸ nodup_envelopeFields
  have hunique : ∀ value', (name, value') ∈ envelope r → value' = value := fun value' hm' =>
    congrArg Prod.snd (List.inj_on_of_nodup_map hnodup hm' hm rfl)
  cases hmember : member name with
  | none =>
      cases value with
      | none => rfl
      | some value =>
          refine absurd ?_ ((habsent name).mp hmember)
          rw [List.map_map]
          exact List.mem_map.mpr ⟨(name, value), mem_present.mpr hm, rfl⟩
  | some x =>
      obtain ⟨v, hv, rfl⟩ := hfound name x hmember
      obtain ⟨f, hf, hfv⟩ := List.mem_map.mp hv
      obtain ⟨rfl, rfl⟩ := Prod.mk.inj hfv
      rw [← hunique (some f.2) (mem_present.mp hf)]
      rfl

section
variable {member : Bytes → Option (Option Bytes)} {r : MqttRequest}

theorem jsonStringValue_of_readsEnvelope (h : ReadsEnvelope member r) {name : Bytes}
    {value : Option Bytes} (hm : (name, value) ∈ envelope r) :
    jsonStringValue member name = value := by
  rw [jsonStringValue, h _ hm]
  cases value <;> rfl

theorem nonStringEnvelopeField_of_readsEnvelope (h : ReadsEnvelope member r) :
    nonStringEnvelopeField member = none := by
  rw [nonStringEnvelopeField, Option.map_eq_none_iff, List.find?_eq_none]
  intro name hname
  rw [← names_envelope r] at hname
  obtain ⟨m, hm, rfl⟩ := List.mem_map.mp hname
  rw [h m hm]
  cases m.2 <;> simp

theorem requestOf_of_readsEnvelope (h : ReadsEnvelope member r) : requestOf member r.type = r := by
  have hread : ∀ m ∈ envelope r, jsonStringValue member m.1 = m.2 := fun m hm =>
    jsonStringValue_of_readsEnvelope h hm
  simp only [envelope, List.forall_mem_cons] at hread
  obtain ⟨hid, -, hcreated, hsource, hscript, hdevice, hpayload, hcommand, hkey, hvalue, hprompt,
    -⟩ := hread
  simp only [requestOf, hid, hcreated, hsource, hscript, hdevice, hpayload, hcommand, hkey, hvalue,
    hprompt, Option.getD_some]

theorem parseEnvelope_of_readsEnvelope (h : ReadsEnvelope member r)
    (hrequired : missingRequiredField r = none) : parseEnvelope member = .ok r := by
  have htype : jsonStringValue member (ascii "type") = some (toString r.type) :=
    jsonStringValue_of_readsEnvelope h (by simp [envelope])
  simp only [parseEnvelope, nonStringEnvelopeField_of_readsEnvelope h, htype,
    messageTypeFromString_toString, requestOf_of_readsEnvelope h, hrequired]

end

/-! ### The round trip -/

theorem parseRequest_of_emittable {parse : Bytes → Document} (hparse : StrictParser parse)
    {r : MqttRequest} (hutf8 : ∀ s ∈ r.strings, Utf8.WellFormed s)
    (hrequired : missingRequiredField r = none) (hall : ∀ s ∈ r.strings, Emittable s) :
    parseRequest parse (serializeRequest r) = ⟨some r, r.id, r.sourceClientId, []⟩ := by
  have hdecode := decode_serializeRequest hutf8
  rw [if_pos hall] at hdecode
  obtain ⟨member, hobject, hreads⟩ := readsEnvelope_of_strictParser hparse hdecode
  have hid : jsonStringValue member (ascii "id") = some r.id :=
    jsonStringValue_of_readsEnvelope hreads (by simp [envelope])
  have hsource : jsonStringValue member (ascii "source_client_id") = some r.sourceClientId :=
    jsonStringValue_of_readsEnvelope hreads (by simp [envelope])
  simp only [parseRequest, hobject, parseEnvelope_of_readsEnvelope hreads hrequired, hid, hsource,
    Option.getD_some]

theorem parseRequest_of_not_emittable {parse : Bytes → Document} (hparse : StrictParser parse)
    {r : MqttRequest} (hutf8 : ∀ s ∈ r.strings, Utf8.WellFormed s)
    (hall : ¬∀ s ∈ r.strings, Emittable s) :
    parseRequest parse (serializeRequest r) = ⟨none, [], [], ascii "invalid JSON object"⟩ := by
  have hdecode := decode_serializeRequest hutf8
  rw [if_neg hall] at hdecode
  rw [parseRequest, hparse.discarded _ hdecode]

/-- A request that meets the requirements of its type comes back exactly when no
string field has a control character outside the escaping table. -/
theorem parseRequest_serializeRequest_iff {parse : Bytes → Document} (hparse : StrictParser parse)
    {r : MqttRequest} (hutf8 : ∀ s ∈ r.strings, Utf8.WellFormed s)
    (hrequired : missingRequiredField r = none) :
    (parseRequest parse (serializeRequest r)).request = some r ↔ ∀ s ∈ r.strings, Emittable s := by
  by_cases hall : ∀ s ∈ r.strings, Emittable s
  · rw [parseRequest_of_emittable hparse hutf8 hrequired hall]
    exact iff_of_true rfl hall
  · rw [parseRequest_of_not_emittable hparse hutf8 hall]
    exact iff_of_false nofun hall

/-- A request to store a value. -/
def storeRequest (value : Bytes) : MqttRequest where
  id := ascii "r1"
  type := .storeDatabaseValue
  createdUtc := ascii "2024-01-01T00:00:00Z"
  sourceClientId := ascii "client-1"
  scriptName := none
  deviceId := none
  payload := none
  command := none
  key := some (ascii "k")
  value := some value
  prompt := none

theorem parseRequest_serializeRequest_tab :
    (parseRequest lastMemberParser (serializeRequest (storeRequest [97, 9, 34, 0xC3, 0xA9]))).request
        = some (storeRequest [97, 9, 34, 0xC3, 0xA9]) :=
  (parseRequest_serializeRequest_iff strictParser_lastMemberParser (by decide) (by decide)).mpr
    (by decide)

/-- A backspace is not escaped, and the request is not read back. -/
theorem parseRequest_serializeRequest_backspace :
    StrictParser lastMemberParser ∧
      (∀ s ∈ (storeRequest [97, 8]).strings, Utf8.WellFormed s) ∧
      missingRequiredField (storeRequest [97, 8]) = none ∧
      (parseRequest lastMemberParser (serializeRequest (storeRequest [97, 8]))).request ≠
        some (storeRequest [97, 8]) := by
  have hutf8 : ∀ s ∈ (storeRequest [97, 8]).strings, Utf8.WellFormed s := by decide
  refine ⟨strictParser_lastMemberParser, hutf8, by decide, ?_⟩
  rw [parseRequest_of_not_emittable strictParser_lastMemberParser hutf8 (by decide)]
  nofun

end Watchlist.Messaging
