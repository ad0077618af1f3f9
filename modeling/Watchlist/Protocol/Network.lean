import Watchlist.Dispatch.AckRoutes
import Watchlist.Dispatch.ReadableAcks
import Watchlist.Messaging.ConsoleRequest
import Watchlist.Server.Coexistence

/-!
Client programs, the broker and the server. A client program makes requests of its form
and shows the acknowledgements that arrive on the topic of the id it has subscribed
under; the server is the dispatcher with its pool. Messages go with quality of service
1: the broker may deliver a message that it has taken at any time, more than once, or
never, and in any order. Anyone on the network may publish to the topic of the requests.

A client shows only what the server has answered, in this or in a later step, to a
payload that names this client.
-/

namespace Watchlist.Protocol

open Bytes Transition Messaging Mqtt Dispatch Server

/-! ### The parties -/

/-- A client program. -/
structure ClientProgram where
  console : ConsoleState
  /-- the id whose acknowledgements its MQTT thread has subscribed to -/
  subscribed : Option Bytes
  /-- `requestCounter` of `ShowMqttConsole` -/
  requestCounter : ℕ
  /-- `AppState::Acks` -/
  acks : List Bytes
  /-- the publications that have been delivered, by their numbers -/
  delivered : List ℕ

/-- A request as a client program has made it. -/
structure Sent where
  client : ℕ
  number : ℕ
  request : MqttRequest
  deriving DecidableEq

/-- A message on the topic of the requests, with its origin if that is a client program. -/
structure Published where
  origin : Option Sent
  payload : Bytes
  deriving DecidableEq

namespace ClientProgram

def initial (console : ConsoleState) : ClientProgram := ⟨console, none, 0, [], []⟩

/-- `++requestCounter`, in 64 bits -/
def nextNumber (client : ClientProgram) : ℕ := (client.requestCounter + 1) % 2 ^ 64

def subscribe (client : ClientProgram) : ClientProgram :=
  { client with subscribed := some client.console.clientId }

/-- The handler of the subscription adds the line to the history. -/
def addAck (client : ClientProgram) (publication : ℕ) (ack : MqttAck) : ClientProgram :=
  { client with
    acks := AppState.addBounded client.acks (serializeAck ack)
    delivered := client.delivered ++ [publication] }

end ClientProgram

/-- The network; `requests` is what the broker has taken on `RequestsTopic`, and `received`
which of it each call of `HandleIncomingPayload` has been given. -/
structure Network (n k : ℕ) where
  clients : ℕ → ClientProgram
  requests : List Published
  server : RequestDispatcher n k
  received : List (Fin k × ℕ)

namespace Network

variable {n k : ℕ}

def initial (n k : ℕ) (consoles : ℕ → ConsoleState) : Network n k where
  clients := fun c => .initial (consoles c)
  requests := []
  server := .initial n k
  received := []

def setClient (s : Network n k) (c : ℕ) (client : ClientProgram) : Network n k :=
  { s with clients := Function.update s.clients c client }

/-- The button; `taken` is whether the transport takes the message. -/
def send (s : Network n k) (c : ℕ) (now : Bytes) (taken : Bool) : Network n k :=
  let client := s.clients c
  let request := consoleRequest client.console client.nextNumber now
  { s.setClient c { client with requestCounter := client.nextNumber } with
    requests := s.requests ++
      if taken then [⟨some ⟨c, client.nextNumber, request⟩, serializeRequest request⟩] else [] }

inductive Label (n k : ℕ)
  /-- the user edits the form -/
  | edit (c : ℕ) (console : ConsoleState)
  | subscribe (c : ℕ)
  | send (c : ℕ) (now : Bytes) (taken : Bool)
  /-- another party publishes to the topic of the requests -/
  | publish (payload : Bytes)
  /-- a request is delivered to the server, which begins call `i` -/
  | deliverRequest (i : Fin k) (r : ℕ) (now : Bytes)
  | server (l : RequestDispatcher.Label n k)
  /-- an acknowledgement is delivered to a client program -/
  | deliverAck (c : ℕ) (p : ℕ)

def isNotCalled (d : RequestDispatcher n k) (i : Fin k) : Bool :=
  match d.calls i with
  | .notCalled => true
  | _ => false

/-- The step begins a call. -/
def begins (d : RequestDispatcher n k) : RequestDispatcher.Label n k → Bool
  | .advance i _ => isNotCalled d i
  | _ => false

/-- A message on the topic of the acknowledgements to `client` reaches a subscription. -/
def reaches (subscribed : Option Bytes) (client : Bytes) : Bool :=
  match subscribed with
  | none => false
  | some id => topicMatches (ackTopicForClient id) (ackTopicForClient client)

def step (parse : Bytes → Document) (payloads : Fin k → Bytes) (s : Network n k) :
    Label n k → Option (Network n k)
  | .edit c console => some (s.setClient c { s.clients c with console := console })
  | .subscribe c =>
      allow ((s.clients c).subscribed = none) (s.setClient c (s.clients c).subscribe)
  | .send c now taken => some (s.send c now taken)
  | .publish payload => some { s with requests := s.requests ++ [⟨none, payload⟩] }
  | .deliverRequest i r now =>
      if (s.requests[r]?).map Published.payload = some (payloads i) ∧ isNotCalled s.server i then
        (s.server.step parse payloads (.advance i now)).map fun d =>
          { s with server := d, received := s.received ++ [(i, r)] }
      else none
  | .server l =>
      if begins s.server l then none
      else (s.server.step parse payloads l).map fun d => { s with server := d }
  | .deliverAck c p =>
      match s.server.published[p]? with
      | none => none
      | some publication =>
          allow (reaches (s.clients c).subscribed publication.route.sourceClientId = true)
            (s.setClient c ((s.clients c).addAck p publication.ack))

def machine (n k : ℕ) (parse : Bytes → Document) (payloads : Fin k → Bytes) :
    Machine (Network n k) (Label n k) :=
  ⟨step parse payloads⟩

/-- The clocks read as `UtcNowIso8601` writes them: printable text, and not the empty one. -/
def Label.PrintableTime : Label n k → Prop
  | .send _ now _ => Printable now ∧ now ≠ []
  | .deliverRequest _ _ now => Printable now
  | .server l => l.PrintableTime
  | _ => True

instance (l : Label n k) : Decidable l.PrintableTime :=
  match l with
  | .send _ now _ => inferInstanceAs (Decidable (Printable now ∧ now ≠ []))
  | .deliverRequest _ _ now => inferInstanceAs (Decidable (Printable now))
  | .server l => inferInstanceAs (Decidable l.PrintableTime)
  | .edit .. | .subscribe _ | .publish _ | .deliverAck .. => .isTrue trivial

/-! ### What the server's steps do to the network -/

section Server

variable {parse : Bytes → Document} {payloads : Fin k → Bytes} {d d' : RequestDispatcher n k}
  {l : RequestDispatcher.Label n k}

theorem isNotCalled_iff {i : Fin k} : isNotCalled d i = true ↔ d.calls i = .notCalled := by
  unfold isNotCalled
  split
  · rename_i hat
    exact iff_of_true rfl hat
  · rename_i hat
    exact iff_of_false Bool.false_ne_true hat

/-- Only a step of a call that has not begun begins a call. -/
theorem called_of_step (hstep : d.step parse payloads l = some d') {i : Fin k}
    (hcalled : d'.calls i ≠ .notCalled) :
    d.calls i ≠ .notCalled ∨ ∃ now, l = .advance i now := by
  by_cases hl : ∃ j now, l = .advance j now
  · obtain ⟨j, now, rfl⟩ := hl
    by_cases hji : i = j
    · subst hji
      exact Or.inr ⟨now, rfl⟩
    · obtain ⟨hothers, -, -⟩ := RequestDispatcher.advance_cases hstep
      exact Or.inl (hothers i hji ▸ hcalled)
  · obtain ⟨hcalls, -⟩ := RequestDispatcher.step_frame hstep fun j now heq => hl ⟨j, now, heq⟩
    exact Or.inl (hcalls ▸ hcalled)

/-- Publications are only added. -/
theorem published_step (hstep : d.step parse payloads l = some d') :
    d.published <+: d'.published := by
  cases l with
  | advance i now =>
      simp only [RequestDispatcher.step, RequestDispatcher.advance] at hstep
      split at hstep
      · split at hstep <;> exact Option.some.inj hstep ▸ List.prefix_rfl
      · rename_i stage request _
        rw [← Option.some.inj hstep]
        cases stage with
        | noting => exact List.prefix_rfl
        | handling | dispatching | enqueueing =>
            rw [RequestDispatcher.prepare]
            split <;> exact List.prefix_rfl
      · exact Option.some.inj hstep ▸ List.prefix_rfl
      · exact Option.some.inj hstep ▸ List.prefix_append ..
      · cases hstep
  | work w now fails =>
      simp only [RequestDispatcher.step, RequestDispatcher.work] at hstep
      split at hstep
      · split at hstep
        · exact Option.some.inj hstep ▸ List.prefix_rfl
        · split at hstep <;> exact Option.some.inj hstep ▸ List.prefix_rfl
        · exact Option.some.inj hstep ▸ List.prefix_rfl
        · exact Option.some.inj hstep ▸ List.prefix_append ..
        · obtain ⟨pool, _, rfl⟩ := Option.map_eq_some_iff.mp hstep
          exact List.prefix_rfl
        · cases hstep
        · cases hstep
      · cases hstep
  | stopAccepting =>
      obtain rfl := Option.some.inj hstep
      exact List.prefix_rfl
  | lock w =>
      obtain ⟨pool, _, rfl⟩ := Option.map_eq_some_iff.mp hstep
      simp only [RequestDispatcher.startJob]
      split <;> exact List.prefix_rfl
  | setStop | notifyOne | notifyNobody | notifyAll | wakeSpuriously =>
      obtain ⟨pool, _, rfl⟩ := RequestDispatcher.poolStep_eq_some.mp hstep
      exact List.prefix_rfl

end Server

/-! ### The invariant -/

variable {parse : Bytes → Document} {payloads : Fin k → Bytes} {s t : Network n k} {l : Label n k}

/-- What the client programs show and the server handles comes from what has been sent. -/
structure Authentic (parse : Bytes → Document) (payloads : Fin k → Bytes) (s : Network n k) :
    Prop where
  tracked : RequestDispatcher.Tracked parse payloads s.server
  answered : RequestDispatcher.Answered parse payloads s.server
  vouched : Vouched parse payloads s.server
  called : ∀ i, s.server.calls i ≠ .notCalled → ∃ e ∈ s.requests, e.payload = payloads i
  origins : ∀ e ∈ s.requests, ∀ sent, e.origin = some sent → ∃ console now, now ≠ [] ∧
    sent.request = consoleRequest console sent.number now ∧
      e.payload = serializeRequest sent.request
  acks : ∀ c, ∀ line ∈ (s.clients c).acks, ∃ p ∈ s.server.published,
    reaches (s.clients c).subscribed p.route.sourceClientId = true ∧ line = serializeAck p.ack

theorem authentic_initial (consoles : ℕ → ConsoleState) :
    Authentic parse payloads (initial n k consoles) where
  tracked := RequestDispatcher.tracked_initial
  answered := RequestDispatcher.answered_initial
  vouched := vouched_initial
  called := fun _ h => absurd rfl h
  origins := fun _ h => absurd h List.not_mem_nil
  acks := fun _ _ h => absurd h List.not_mem_nil

/-- A step of the server keeps what holds of it; a call that begins has been sent. -/
theorem Authentic.server (h : Authentic parse payloads s) {l : RequestDispatcher.Label n k}
    {d : RequestDispatcher n k} (htime : l.PrintableTime)
    (hstep : s.server.step parse payloads l = some d)
    (hbegins : ∀ i now, l = .advance i now → s.server.calls i = .notCalled →
      ∃ e ∈ s.requests, e.payload = payloads i) (received : List (Fin k × ℕ)) :
    Authentic parse payloads { s with server := d, received := received } where
  tracked := h.tracked.step hstep
  answered := h.answered.step h.tracked htime hstep
  vouched := h.vouched.step h.tracked hstep
  called := by
    intro i hcalled
    by_cases hbefore : s.server.calls i = .notCalled
    · rcases called_of_step hstep hcalled with hold | ⟨now, rfl⟩
      · exact absurd hbefore hold
      · exact hbegins i now rfl hbefore
    · exact h.called i hbefore
  origins := h.origins
  acks := by
    intro c line hline
    obtain ⟨p, hp, hreaches, heq⟩ := h.acks c line hline
    exact ⟨p, (published_step hstep).subset hp, hreaches, heq⟩

/-- A change of one client program. -/
theorem Authentic.setClient (h : Authentic parse payloads s) {c : ℕ} {client : ClientProgram}
    (hacks : ∀ line ∈ client.acks, ∃ p ∈ s.server.published,
      reaches client.subscribed p.route.sourceClientId = true ∧ line = serializeAck p.ack) :
    Authentic parse payloads (s.setClient c client) :=
  { h with
    acks := by
      intro c' line hline
      by_cases hc : c' = c
      · subst hc
        simp only [Network.setClient, Function.update_self] at hline ⊢
        exact hacks line hline
      · simp only [Network.setClient, Function.update_of_ne hc] at hline ⊢
        exact h.acks c' line hline }

/-- A change of one client program that shows nothing new. -/
theorem Authentic.setClient_of_acks (h : Authentic parse payloads s) {c : ℕ}
    {client : ClientProgram} (hacks : client.acks = (s.clients c).acks)
    (hsubscribed : (s.clients c).subscribed = none ∨
      client.subscribed = (s.clients c).subscribed) :
    Authentic parse payloads (s.setClient c client) := by
  refine h.setClient fun line hline => ?_
  obtain ⟨p, hp, hreaches, heq⟩ := h.acks c line (hacks ▸ hline)
  rcases hsubscribed with hnone | hsame
  · rw [hnone] at hreaches
    cases hreaches
  · exact ⟨p, hp, hsame ▸ hreaches, heq⟩

theorem mem_of_mem_addBounded {lines : List Bytes} {line x : Bytes}
    (h : x ∈ AppState.addBounded lines line) : x ∈ lines ∨ x = line := by
  have hmem : x ∈ lines ++ [line] := by
    unfold AppState.addBounded at h
    split at h
    · exact List.mem_of_mem_drop h
    · exact h
  simpa using hmem

/-- A new message on the topic of the requests. -/
theorem Authentic.publish (h : Authentic parse payloads s) {requests : List Published}
    (horigins : ∀ e ∈ requests, ∀ sent, e.origin = some sent → ∃ console now, now ≠ [] ∧
      sent.request = consoleRequest console sent.number now ∧
        e.payload = serializeRequest sent.request) :
    Authentic parse payloads { s with requests := s.requests ++ requests } :=
  { h with
    called := by
      intro i hcalled
      obtain ⟨e, he, hpayload⟩ := h.called i hcalled
      exact ⟨e, List.mem_append_left _ he, hpayload⟩
    origins := fun e he => (List.mem_append.mp he).elim (h.origins e) (horigins e) }

theorem Authentic.step (h : Authentic parse payloads s) (htime : l.PrintableTime)
    (hstep : s.step parse payloads l = some t) : Authentic parse payloads t := by
  cases l with
  | edit c console =>
      obtain rfl := Option.some.inj hstep
      exact h.setClient_of_acks rfl (Or.inr rfl)
  | subscribe c =>
      obtain ⟨hnone, rfl⟩ := allow_eq_some.mp hstep
      exact h.setClient_of_acks rfl (Or.inl hnone)
  | send c now taken =>
      obtain rfl := Option.some.inj hstep
      have hcounted : Authentic parse payloads (s.setClient c
          { s.clients c with requestCounter := (s.clients c).nextNumber }) :=
        h.setClient_of_acks rfl (Or.inr rfl)
      refine hcounted.publish fun e he sent hsent => ?_
      split at he
      · obtain rfl := List.mem_singleton.mp he
        obtain rfl := Option.some.inj hsent
        exact ⟨(s.clients c).console, now, htime.2, rfl, rfl⟩
      · cases he
  | publish payload =>
      obtain rfl := Option.some.inj hstep
      refine h.publish fun e he sent hsent => ?_
      obtain rfl := List.mem_singleton.mp he
      cases hsent
  | deliverRequest i r now =>
      simp only [Network.step] at hstep
      split at hstep
      · rename_i hdelivered
        obtain ⟨d, hd, rfl⟩ := Option.map_eq_some_iff.mp hstep
        have htime' : (RequestDispatcher.Label.advance (n := n) i now).PrintableTime := htime
        refine h.server htime' hd (fun j now' hj _ => ?_) _
        obtain ⟨e, he, hpayload⟩ := Option.map_eq_some_iff.mp hdelivered.1
        injection hj with hij
        exact ⟨e, List.mem_of_getElem? he, hij ▸ hpayload⟩
      · cases hstep
  | server l =>
      simp only [Network.step] at hstep
      split at hstep
      · cases hstep
      · rename_i hbegins
        obtain ⟨d, hd, rfl⟩ := Option.map_eq_some_iff.mp hstep
        refine h.server htime hd (fun i now hl hcall => ?_) s.received
        subst hl
        exact absurd (isNotCalled_iff.mpr hcall) hbegins
  | deliverAck c p =>
      simp only [Network.step] at hstep
      split at hstep
      · cases hstep
      · rename_i publication hpublication
        obtain ⟨hreaches, rfl⟩ := allow_eq_some.mp hstep
        refine h.setClient fun line hline => ?_
        rcases mem_of_mem_addBounded hline with hold | hnew
        · exact h.acks c line hold
        · exact ⟨publication, List.mem_of_getElem? hpublication, hreaches, hnew⟩

theorem authentic_of_exec {consoles : ℕ → ConsoleState} {ls : List (Label n k)}
    (htime : ∀ l ∈ ls, l.PrintableTime)
    (hrun : (machine n k parse payloads).exec (initial n k consoles) ls = some t) :
    Authentic parse payloads t := by
  have hmeets : (machine n k parse payloads).Meets (fun _ l => l.PrintableTime)
      (initial n k consoles) ls := Machine.meets_of_forall fun l hl _ => htime l hl
  exact Machine.invariant_of_meets (Authentic parse payloads)
    (fun _ _ _ hs htime hstep => hs.step htime hstep) hmeets hrun (authentic_initial consoles)

/-! ### Where a shown acknowledgement comes from -/

/-- The line is the server's answer to a message that names the client. -/
structure AnswersClient (parse : Bytes → Document) (s : Network n k) (client line : Bytes)
    (e : Published) (ack : MqttAck) : Prop where
  line : line = serializeAck ack
  source : sourceClientOf parse e.payload = some client
  answer : Answer (parseRequest parse e.payload) ack
  /-- a value is said to be stored only once it is -/
  stored : ack.status = ascii "ok" → ∀ entry ∈ storeEntry parse e.payload, entry ∈ s.server.stored
  /-- the answer to a client program is one to its whole request -/
  program : ∀ sent, e.origin = some sent → e.payload = serializeRequest sent.request ∧
    sent.request.sourceClientId = client ∧ ack.requestId = sent.request.id ∧
      ∃ now, ack = shuttingDown now sent.request ∨ ack = handlerAck now sent.request

@[simp] theorem requestId_handlerAck (now : Bytes) (request : MqttRequest) :
    (handlerAck now request).requestId = request.id := by
  unfold handlerAck
  split
  · rw [executeScript]
    split <;> rfl
  all_goals rfl

/-- What has been published has been recorded. -/
theorem recorded_of_progress {p : ParseResult} {call : CallPc} {job : JobPc}
    {acks : List (Bool × MqttAck)} {published : List (MqttRequest × MqttAck)}
    (h : RequestDispatcher.Progress p call job acks published) :
    ∀ x ∈ published, call ≠ .notCalled ∧ x.2 ∈ acks.map Prod.snd := by
  have hone {route : MqttRequest} {ack : MqttAck} {byWorker : Bool} :
      ∀ x ∈ RequestDispatcher.publications p route ack, x.2 ∈ [(byWorker, ack)].map Prod.snd := by
    intro x hx
    unfold RequestDispatcher.publications at hx
    split at hx
    · obtain rfl := List.mem_singleton.mp hx
      exact List.mem_singleton.mpr rfl
    · cases hx
  cases h with
  | rejected => exact fun x hx => ⟨by rintro ⟨⟩, hone x hx⟩
  | answered => exact fun x hx => ⟨by rintro ⟨⟩, hone x hx⟩
  | notCalled | preparing | recording | publishing | queued | executing | upserting
  | jobRecording | jobPublishing | failed => exact fun x hx => absurd hx List.not_mem_nil

/-- The answers that there are to a request that was read whole. -/
theorem answer_to_request {p : ParseResult} {ack : MqttAck} {request : MqttRequest}
    (h : Answer p ack) (hrequest : p.request = some request) :
    ack.requestId = request.id ∧
      ∃ now, ack = shuttingDown now request ∨ ack = handlerAck now request := by
  have hsame {request' : MqttRequest} (h' : p.request = some request') : request' = request :=
    Option.some.inj (h'.symm.trans hrequest)
  cases h with
  | refused _ hnone => cases hrequest.symm.trans hnone
  | shuttingDown _ h' =>
      rw [hsame h']
      exact ⟨rfl, _, Or.inl rfl⟩
  | handled _ h' =>
      rw [hsame h']
      exact ⟨requestId_handlerAck _ _, _, Or.inr rfl⟩

theorem mem_publishedOf {d : RequestDispatcher n k} {p : Publication k} (h : p ∈ d.published) :
    (p.route, p.ack) ∈ d.publishedOf p.call :=
  List.mem_map.mpr ⟨p, List.mem_filter.mpr ⟨h, by simp⟩, rfl⟩

/-- The publication names the client of a subscription that it reaches. -/
theorem Authentic.client_of_reaches (h : Authentic parse payloads s) {p : Publication k}
    (hp : p ∈ s.server.published) {client : Bytes} (hclient : isValidClientId client = true)
    (hreaches : reaches (some client) p.route.sourceClientId = true) :
    (parseRequest parse (payloads p.call)).sourceClientId = client := by
  obtain ⟨hsource, hvalid⟩ := (h.tracked.progress p.call).route _ (mem_publishedOf hp)
  have heq := (topicMatches_ackTopicForClient hclient (hsource ▸ hvalid)).mp hreaches
  exact hsource.symm.trans heq.symm

theorem Authentic.answersClient (hparse : StrictParser parse) (h : Authentic parse payloads s)
    {p : Publication k} (hp : p ∈ s.server.published) {client : Bytes}
    (hclient : isValidClientId client = true)
    (hreaches : reaches (some client) p.route.sourceClientId = true) {e : Published}
    (he : e ∈ s.requests) (hpayload : e.payload = payloads p.call) :
    AnswersClient parse s client (serializeAck p.ack) e p.ack := by
  have hnamed := h.client_of_reaches hp hclient hreaches
  have hanswer : Answer (parseRequest parse (payloads p.call)) p.ack :=
    h.answered.acks p.call p.ack (Or.inr (Or.inr (Or.inr
      (List.mem_map.mpr ⟨_, mem_publishedOf hp, rfl⟩))))
  rw [← hpayload] at hnamed hanswer
  refine ⟨rfl, ?_, hanswer, fun hok entry hentry => ?_, fun sent hsent => ?_⟩
  · rw [← hnamed]
    exact RequestDispatcher.sourceClientOf_eq (hnamed.symm ▸ hclient)
  · obtain ⟨-, hrecorded⟩ := recorded_of_progress (h.tracked.progress p.call) _ (mem_publishedOf hp)
    obtain ⟨x, hx, hack⟩ := List.mem_map.mp hrecorded
    obtain ⟨a, ha, rfl⟩ := List.mem_map.mp hx
    obtain ⟨hmem, hcall⟩ := List.mem_filter.mp ha
    have hack' : a.ack = p.ack := hack
    refine h.vouched.acks a hmem (hack' ▸ hok) entry ?_
    rw [of_decide_eq_true hcall, ← hpayload]
    exact hentry
  · obtain ⟨console, now, hnow, hrequest, htext⟩ := h.origins e he sent hsent
    have hvalid : isValidClientId (parseRequest parse (serializeRequest
        (consoleRequest console sent.number now))).sourceClientId = true := by
      rw [← hrequest, ← htext, hnamed]
      exact hclient
    have hparsed := parseRequest_consoleRequest hparse hnow hvalid
    rw [← hrequest, ← htext] at hparsed
    have hread : (parseRequest parse e.payload).request = some sent.request := by rw [hparsed]
    have hsource : sent.request.sourceClientId = console.clientId := by
      rw [hrequest]
      rfl
    obtain ⟨hid, hack⟩ := answer_to_request hanswer hread
    exact ⟨htext, by rw [hsource, ← hnamed, hparsed], hid, hack⟩

/-- Whatever a client program shows that has subscribed under a valid client id, as
`Client::Run` sets one, is the server's answer to a message that names this id; and if that
message is a client program's request made under it, to the request, under its own id. -/
theorem shown_acks_are_answers (hparse : StrictParser parse) {consoles : ℕ → ConsoleState}
    {ls : List (Label n k)} (htime : ∀ l ∈ ls, l.PrintableTime)
    (hrun : (machine n k parse payloads).exec (initial n k consoles) ls = some t) {c : ℕ}
    {client : Bytes} (hsubscribed : (t.clients c).subscribed = some client)
    (hclient : isValidClientId client = true) :
    ∀ line ∈ (t.clients c).acks, ∃ e ∈ t.requests, ∃ ack, AnswersClient parse t client line e ack := by
  intro line hline
  have h := authentic_of_exec htime hrun
  obtain ⟨p, hp, hreaches, hshown⟩ := h.acks c line hline
  obtain ⟨hcall, -⟩ := recorded_of_progress (h.tracked.progress p.call) _ (mem_publishedOf hp)
  obtain ⟨e, he, hpayload⟩ := h.called p.call hcall
  rw [hsubscribed] at hreaches
  rw [hshown]
  exact ⟨e, he, p.ack, h.answersClient hparse hp hclient hreaches he hpayload⟩

/-- A client program with the initial form under the id `a`. -/
def clientA : ConsoleState := { ConsoleState.initial with clientId := ascii "a" }

def requestOfA (_ : Fin 1) : Bytes :=
  serializeRequest (consoleRequest clientA 1 (ascii "now"))

/-- One request, from the button of the client program to the line it shows. -/
def oneRequest {n k : ℕ} (i : Fin k) (w : Fin n) : List (Label n k) :=
  [.subscribe 0, .send 0 (ascii "now") true, .deliverRequest i 0 (ascii "now"),
    .server (.advance i (ascii "now")), .server (.advance i (ascii "now")),
    .server (.advance i (ascii "now")), .server (.advance i (ascii "now")), .server (.lock w),
    .server (.work w (ascii "now") false), .server (.work w (ascii "now") false),
    .server (.work w (ascii "now") false), .deliverAck 0 0]

theorem shown_acks_are_answers_oneRequest :
    ∃ t, (machine 1 1 lastMemberParser requestOfA).exec (initial 1 1 fun _ => clientA)
        (oneRequest 0 0) = some t ∧ (t.clients 0).acks.length = 1 ∧
      ∀ line ∈ (t.clients 0).acks, ∃ e ∈ t.requests, ∃ ack,
        AnswersClient lastMemberParser t (ascii "a") line e ack := by
  have hend : ((machine 1 1 lastMemberParser requestOfA).exec (initial 1 1 fun _ => clientA)
      (oneRequest 0 0)).map (fun t => ((t.clients 0).acks.length, (t.clients 0).subscribed)) =
        some (1, some (ascii "a")) := by decide +kernel
  obtain ⟨t, hrun, hend⟩ := Option.map_eq_some_iff.mp hend
  exact ⟨t, hrun, congrArg Prod.fst hend, shown_acks_are_answers strictParser_lastMemberParser
    (by decide) hrun (congrArg Prod.snd hend) (by decide)⟩

end Network

end Watchlist.Protocol
