import Watchlist.Dispatch.RequestDispatcher
import Watchlist.Messaging.RoundTrip

/-!
Every request is acknowledged once, unless a store throws. The invariant follows
one payload through the call that received it and the job that call may have
queued: at most one of the two is on its way to an acknowledgement, and what has
been recorded and published for the payload is known from where they are.
-/

namespace Watchlist.Dispatch

open Bytes Transition Concurrency Messaging

/-- What a valid request has in common with the result it is part of. -/
theorem parseRequest_recovered {parse : Bytes → Document} {payload : Bytes} {request : MqttRequest}
    (h : (parseRequest parse payload).request = some request) :
    request.id = (parseRequest parse payload).requestId ∧
    request.sourceClientId = (parseRequest parse payload).sourceClientId := by
  unfold parseRequest at h ⊢
  split at h
  · cases h
  · cases h
  · rename_i member hobject
    cases hparse : parseEnvelope member with
    | error e => simp [hparse] at h
    | ok r =>
        simp only [hparse, Option.some.injEq] at h
        subst h
        unfold parseEnvelope at hparse
        split at hparse
        · cases hparse
        · split at hparse
          · cases hparse
          · split at hparse
            · cases hparse
            · split at hparse
              · cases hparse
              · cases hparse
                exact ⟨rfl, rfl⟩

namespace RequestDispatcher

variable {n k : ℕ} {parse : Bytes → Document} {payloads : Fin k → Bytes}

/-- The calls of `AddAck` that a payload caused: by a worker or not, and with what. -/
def acksOf (d : RequestDispatcher n k) (i : Fin k) : List (Bool × MqttAck) :=
  (d.acks.filter fun a => a.call = i).map fun a => (a.byWorker, a.ack)

/-- The calls of `ackPublisher_` that a payload caused. -/
def publishedOf (d : RequestDispatcher n k) (i : Fin k) : List (MqttRequest × MqttAck) :=
  (d.published.filter fun p => p.call = i).map fun p => (p.route, p.ack)

/-! ### One payload -/

/-- An acknowledgement carries what was recovered from the payload. -/
structure Routed (p : ParseResult) (route : MqttRequest) (ack : MqttAck) : Prop where
  source : route.sourceClientId = p.sourceClientId
  id : ack.requestId = p.requestId

/-- The publications that a finished acknowledgement has led to. -/
def publications (p : ParseResult) (route : MqttRequest) (ack : MqttAck) :
    List (MqttRequest × MqttAck) :=
  if isValidClientId p.sourceClientId then [(route, ack)] else []

/-- Where the call and the job of a payload are, and what they have recorded and
published. -/
inductive Progress (p : ParseResult) :
    CallPc → JobPc → List (Bool × MqttAck) → List (MqttRequest × MqttAck) → Prop
  | notCalled : Progress p .notCalled .absent [] []
  | preparing {request : MqttRequest} (stage : Stage) (h : p.request = some request) :
      Progress p (.preparing stage request) .absent [] []
  | recording {route : MqttRequest} {ack : MqttAck} (h : Routed p route ack) :
      Progress p (.recording route ack) .absent [] []
  | publishing {route : MqttRequest} {ack : MqttAck} (h : Routed p route ack)
      (hvalid : isValidClientId p.sourceClientId = true) :
      Progress p (.publishing route ack) .absent [(false, ack)] []
  | rejected {route : MqttRequest} {ack : MqttAck} (h : Routed p route ack) :
      Progress p (.returned false) .absent [(false, ack)] (publications p route ack)
  | queued : Progress p (.returned true) .queued [] []
  | executing : Progress p (.returned true) .executing [] []
  | upserting : Progress p (.returned true) .upserting [] []
  | jobRecording {ack : MqttAck} (h : ack.requestId = p.requestId) :
      Progress p (.returned true) (.recording ack) [] []
  | jobPublishing {ack : MqttAck} (h : ack.requestId = p.requestId)
      (hvalid : isValidClientId p.sourceClientId = true) :
      Progress p (.returned true) (.publishing ack) [(true, ack)] []
  | answered {route : MqttRequest} {ack : MqttAck} (h : Routed p route ack) :
      Progress p (.returned true) (.ended false) [(true, ack)] (publications p route ack)
  | failed : Progress p (.returned true) (.ended true) [] []

/-- How the calls and jobs match what the pool holds. -/
structure Matched (parse : Bytes → Document) (payloads : Fin k → Bytes)
    (d : RequestDispatcher n k) : Prop where
  accepted : ∀ t ∈ d.pool.accepted, d.calls t.task.call = .returned true ∧
    (parseRequest parse (payloads t.task.call)).request = some t.task.request
  returned : ∀ i, d.calls i = .returned true → ∃ t ∈ d.pool.accepted, t.task.call = i
  once : (d.pool.accepted.map fun t => t.task.call).Nodup
  queued : ∀ t ∈ d.pool.tasks, d.jobs t.task.call = .queued
  running : ∀ w t, d.pool.workers w = .running t → d.jobs t.task.call ≠ .queued
  finished : ∀ f ∈ d.pool.finished, d.jobs f.1.task.call = .ended f.2

/-- The invariant of the dispatcher. -/
structure Tracked (parse : Bytes → Document) (payloads : Fin k → Bytes)
    (d : RequestDispatcher n k) : Prop where
  pool : d.pool.Accounted
  matched : Matched parse payloads d
  progress : ∀ i, Progress (parseRequest parse (payloads i)) (d.calls i) (d.jobs i) (d.acksOf i)
    (d.publishedOf i)

theorem tracked_initial : Tracked parse payloads (initial n k) where
  pool := ThreadPoolManager.accounted_initial
  matched := {
    accepted := by simp [initial, ThreadPoolManager.initial]
    returned := by simp [initial]
    once := by simp [initial, ThreadPoolManager.initial]
    queued := by simp [initial, ThreadPoolManager.initial]
    running := by simp [initial, ThreadPoolManager.initial]
    finished := by simp [initial, ThreadPoolManager.initial] }
  progress := fun _ => .notCalled

variable {d d' : RequestDispatcher n k} {i : Fin k}

/-! ### Reading the histories -/

@[simp] theorem acksOf_addAck (d : RequestDispatcher n k) (i i' : Fin k) (byWorker : Bool)
    (ack : MqttAck) :
    (d.addAck i byWorker ack).acksOf i' =
      d.acksOf i' ++ if i = i' then [(byWorker, ack)] else [] := by
  by_cases h : i = i' <;> simp [acksOf, addAck, h]

@[simp] theorem publishedOf_publish (d : RequestDispatcher n k) (i i' : Fin k) (route : MqttRequest)
    (ack : MqttAck) :
    (d.publish i route ack).publishedOf i' =
      d.publishedOf i' ++ if i = i' then [(route, ack)] else [] := by
  by_cases h : i = i' <;> simp [publishedOf, publish, h]

/-! ### Steps of a call -/

/-- A step of a call that leaves the pool's jobs alone. -/
theorem Tracked.of_call (h : Tracked parse payloads d) (hpool : d'.pool.Accounted)
    (haccepted : d'.pool.accepted = d.pool.accepted) (htasks : d'.pool.tasks = d.pool.tasks)
    (hworkers : d'.pool.workers = d.pool.workers) (hfinished : d'.pool.finished = d.pool.finished)
    (hjobs : d'.jobs = d.jobs) (hcalls : ∀ i' ≠ i, d'.calls i' = d.calls i')
    (hold : d.calls i ≠ .returned true) (hnew : d'.calls i ≠ .returned true)
    (hothers : ∀ i' ≠ i, d'.acksOf i' = d.acksOf i' ∧ d'.publishedOf i' = d.publishedOf i')
    (hprogress : Progress (parseRequest parse (payloads i)) (d'.calls i) (d.jobs i) (d'.acksOf i)
      (d'.publishedOf i)) : Tracked parse payloads d' where
  pool := hpool
  matched := {
    accepted := by
      intro t ht
      obtain ⟨hcall, hrequest⟩ := h.matched.accepted t (haccepted ▸ ht)
      refine ⟨?_, hrequest⟩
      rw [hcalls t.task.call (fun heq => hold (heq ▸ hcall)), hcall]
    returned := by
      intro i' hi'
      rw [haccepted]
      by_cases heq : i' = i
      · exact absurd (heq ▸ hi') hnew
      · exact h.matched.returned i' (hcalls i' heq ▸ hi')
    once := haccepted ▸ h.matched.once
    queued := by
      rw [htasks, hjobs]
      exact h.matched.queued
    running := by
      rw [hworkers, hjobs]
      exact h.matched.running
    finished := by
      rw [hfinished, hjobs]
      exact h.matched.finished }
  progress := by
    intro i'
    by_cases heq : i' = i
    · rw [heq, hjobs]
      exact hprogress
    · rw [hcalls i' heq, hjobs, (hothers i' heq).1, (hothers i' heq).2]
      exact h.progress i'

/-- A call that records and publishes nothing moves on. -/
theorem Tracked.setCall (h : Tracked parse payloads d) {at' : CallPc}
    (hold : d.calls i ≠ .returned true) (hnew : at' ≠ .returned true)
    (hprogress : Progress (parseRequest parse (payloads i)) at' (d.jobs i) (d.acksOf i)
      (d.publishedOf i)) : Tracked parse payloads (d.setCall i at') := by
  have hself : (d.setCall i at').calls i = at' := Function.update_self ..
  refine h.of_call h.pool rfl rfl rfl rfl rfl (fun i' hi' => Function.update_of_ne hi' ..) hold
    ?_ (fun _ _ => ⟨rfl, rfl⟩) ?_
  · rw [hself]
    exact hnew
  · rw [hself]
    exact hprogress

/-- What the dispatcher only keeps as a record, or looks at, does not matter. -/
theorem Tracked.of_records (h : Tracked parse payloads d) (accepting : Bool)
    (received activity : List Bytes) (stored : List (Bytes × Bytes)) :
    Tracked parse payloads { d with
      accepting := accepting, received := received, activity := activity, stored := stored } :=
  ⟨h.pool, ⟨h.matched.accepted, h.matched.returned, h.matched.once, h.matched.queued,
    h.matched.running, h.matched.finished⟩, h.progress⟩

section
variable {p : ParseResult} {request : MqttRequest} {ack : MqttAck} {job : JobPc}
  {acks : List (Bool × MqttAck)} {published : List (MqttRequest × MqttAck)}

theorem Progress.of_notCalled (h : Progress p .notCalled job acks published) :
    job = .absent ∧ acks = [] ∧ published = [] := by
  cases h with
  | notCalled => exact ⟨rfl, rfl, rfl⟩

theorem Progress.of_preparing {stage : Stage}
    (h : Progress p (.preparing stage request) job acks published) :
    p.request = some request ∧ job = .absent ∧ acks = [] ∧ published = [] := by
  cases h with
  | preparing _ hrequest => exact ⟨hrequest, rfl, rfl, rfl⟩

theorem Progress.of_recording (h : Progress p (.recording request ack) job acks published) :
    Routed p request ack ∧ job = .absent ∧ acks = [] ∧ published = [] := by
  cases h with
  | recording hrouted => exact ⟨hrouted, rfl, rfl, rfl⟩

theorem Progress.of_publishing (h : Progress p (.publishing request ack) job acks published) :
    Routed p request ack ∧ isValidClientId p.sourceClientId = true ∧ job = .absent ∧
      acks = [(false, ack)] ∧ published = [] := by
  cases h with
  | publishing hrouted hvalid => exact ⟨hrouted, hvalid, rfl, rfl, rfl⟩

end

section
variable {p : ParseResult} {ack : MqttAck} {call : CallPc} {acks : List (Bool × MqttAck)}
  {published : List (MqttRequest × MqttAck)}

theorem Progress.of_executing (h : Progress p call .executing acks published) :
    acks = [] ∧ published = [] := by
  cases h with
  | executing => exact ⟨rfl, rfl⟩

theorem Progress.of_upserting (h : Progress p call .upserting acks published) :
    acks = [] ∧ published = [] := by
  cases h with
  | upserting => exact ⟨rfl, rfl⟩

theorem Progress.of_jobRecording (h : Progress p call (.recording ack) acks published) :
    ack.requestId = p.requestId ∧ acks = [] ∧ published = [] := by
  cases h with
  | jobRecording hid => exact ⟨hid, rfl, rfl⟩

theorem Progress.of_jobPublishing (h : Progress p call (.publishing ack) acks published) :
    ack.requestId = p.requestId ∧ isValidClientId p.sourceClientId = true ∧
      acks = [(true, ack)] ∧ published = [] := by
  cases h with
  | jobPublishing hid hvalid => exact ⟨hid, hvalid, rfl, rfl⟩

theorem Progress.of_queued (h : Progress p call .queued acks published) :
    acks = [] ∧ published = [] := by
  cases h with
  | queued => exact ⟨rfl, rfl⟩

end

/-- An accepted request: the call returns and its job is queued. -/
theorem Tracked.accept (h : Tracked parse payloads d) {request : MqttRequest}
    (hat : d.calls i = .preparing .enqueueing request) (hstop : d.pool.stop = false) :
    Tracked parse payloads { (d.setCall i (.returned true)).setJob i .queued with
      pool := d.pool.enqueue ⟨i, request⟩ } := by
  have hprogress := h.progress i
  rw [hat] at hprogress
  obtain ⟨hrequest, hjob, hacks, hpublished⟩ := hprogress.of_preparing
  have hfresh : ∀ t ∈ d.pool.accepted, t.task.call ≠ i := by
    rintro t ht rfl
    rw [(h.matched.accepted t ht).1] at hat
    cases hat
  have hpool : d.pool.enqueue ⟨i, request⟩ = { d.pool with
      tasks := d.pool.tasks ++ [d.pool.nextTicket ⟨i, request⟩]
      accepted := d.pool.accepted ++ [d.pool.nextTicket ⟨i, request⟩]
      notifyOnes := d.pool.notifyOnes + 1 } := by
    simp [ThreadPoolManager.enqueue, hstop]
  have hcalls : ∀ i', (Function.update d.calls i (.returned true)) i' =
      if i' = i then .returned true else d.calls i' := fun i' => by
    rw [Function.update_apply]
  have hjobs : ∀ i' ≠ i, (Function.update d.jobs i .queued) i' = d.jobs i' := fun i' hi' =>
    Function.update_of_ne hi' ..
  exact {
    pool := h.pool.enqueue _
    matched := {
      accepted := by
        intro t ht
        rw [hpool] at ht
        rcases List.mem_append.mp ht with ht | ht
        · obtain ⟨hcall, hreq⟩ := h.matched.accepted t ht
          refine ⟨?_, hreq⟩
          exact (hcalls _).trans ((if_neg (hfresh t ht)).trans hcall)
        · obtain rfl := List.mem_singleton.mp ht
          exact ⟨Function.update_self .., hrequest⟩
      returned := by
        intro i' hi'
        rw [hpool]
        by_cases heq : i' = i
        · exact ⟨d.pool.nextTicket ⟨i, request⟩, by simp, heq.symm⟩
        · obtain ⟨t, ht, htcall⟩ := h.matched.returned i'
            (((hcalls i').trans (if_neg heq)).symm.trans hi')
          exact ⟨t, List.mem_append_left _ ht, htcall⟩
      once := by
        rw [hpool]
        change ((d.pool.accepted ++ [_]).map _).Nodup
        rw [List.map_append, List.nodup_append]
        refine ⟨h.matched.once, List.nodup_singleton _, ?_⟩
        intro a ha b hb
        obtain ⟨t, ht, rfl⟩ := List.mem_map.mp ha
        obtain rfl := List.mem_singleton.mp hb
        exact hfresh t ht
      queued := by
        intro t ht
        rw [hpool] at ht
        rcases List.mem_append.mp ht with ht | ht
        · refine (hjobs _ (hfresh t ?_)).trans (h.matched.queued t ht)
          rw [h.pool.queue]
          exact List.mem_append_right _ ht
        · obtain rfl := List.mem_singleton.mp ht
          exact Function.update_self ..
      running := by
        intro w t hw
        rw [hpool] at hw
        have ht : t ∈ d.pool.accepted := by
          rw [h.pool.queue]
          exact List.mem_append_left _ (h.pool.running w t hw).1
        change Function.update d.jobs i .queued t.task.call ≠ .queued
        rw [hjobs _ (hfresh t ht)]
        exact h.matched.running w t hw
      finished := by
        intro f hf
        rw [hpool] at hf
        have hstarted := h.pool.finished_started f.1 (List.mem_map_of_mem hf)
        have ht : f.1 ∈ d.pool.accepted := by
          rw [h.pool.queue]
          exact List.mem_append_left _ hstarted
        exact (hjobs _ (hfresh f.1 ht)).trans (h.matched.finished f hf) }
    progress := by
      intro i'
      by_cases heq : i' = i
      · subst heq
        change Progress _ (Function.update d.calls i' _ i') (Function.update d.jobs i' _ i')
          (d.acksOf i') (d.publishedOf i')
        rw [Function.update_self, Function.update_self, hacks, hpublished]
        exact .queued
      · change Progress _ (Function.update d.calls i _ i') (Function.update d.jobs i _ i')
          (d.acksOf i') (d.publishedOf i')
        rw [Function.update_of_ne heq, Function.update_of_ne heq]
        exact h.progress i' }

/-- A refused request: the call goes on to answer that the server is shutting down. -/
theorem Tracked.refuse (h : Tracked parse payloads d) {stage : Stage} {request : MqttRequest}
    (hat : d.calls i = .preparing stage request) (now : Bytes) :
    Tracked parse payloads (d.setCall i (.recording request (shuttingDown now request))) := by
  have hprogress := h.progress i
  rw [hat] at hprogress
  obtain ⟨hrequest, hjob, hacks, hpublished⟩ := hprogress.of_preparing
  obtain ⟨hid, hsource⟩ := parseRequest_recovered hrequest
  refine h.setCall (by simp [hat]) (by simp) ?_
  rw [hjob, hacks, hpublished]
  exact .recording ⟨hsource, hid⟩

theorem Tracked.moveOn (h : Tracked parse payloads d) {stage : Stage} {request : MqttRequest}
    (hat : d.calls i = .preparing stage request) (stage' : Stage) :
    Tracked parse payloads (d.setCall i (.preparing stage' request)) := by
  have hprogress := h.progress i
  rw [hat] at hprogress
  obtain ⟨hrequest, hjob, hacks, hpublished⟩ := hprogress.of_preparing
  refine h.setCall (by simp [hat]) (by simp) ?_
  rw [hjob, hacks, hpublished]
  exact .preparing stage' hrequest

theorem Tracked.prepare (h : Tracked parse payloads d) {stage : Stage} {request : MqttRequest}
    (hat : d.calls i = .preparing stage request) (now : Bytes) :
    Tracked parse payloads (d.prepare i now request stage) := by
  cases stage with
  | handling =>
      rw [RequestDispatcher.prepare]
      split
      · exact h.moveOn hat .dispatching
      · exact h.refuse hat now
  | dispatching =>
      rw [RequestDispatcher.prepare]
      split
      · exact h.moveOn hat .noting
      · exact h.refuse hat now
  | noting => exact (h.moveOn hat .enqueueing).of_records ..
  | enqueueing =>
      rw [RequestDispatcher.prepare]
      split
      · rename_i hstop
        have hrefused := h.refuse hat now
        refine hrefused.of_call (i := i) (h.pool.enqueue _) ?_ ?_ ?_ ?_ rfl (fun _ _ => rfl) ?_ ?_
          (fun _ _ => ⟨rfl, rfl⟩) (hrefused.progress i)
        all_goals simp [RequestDispatcher.setCall, ThreadPoolManager.enqueue, hstop]
      · rename_i hstop
        exact h.accept hat (by simpa using hstop)

/-- `AddAck` in a call: the publication is next, if there is a topic to publish to. -/
theorem Tracked.record (h : Tracked parse payloads d) {route : MqttRequest} {ack : MqttAck}
    (hat : d.calls i = .recording route ack) :
    Tracked parse payloads ((d.addAck i false ack).setCall i
      (if isValidClientId route.sourceClientId then .publishing route ack else .returned false)) := by
  have hprogress := h.progress i
  rw [hat] at hprogress
  obtain ⟨hrouted, hjob, hacks, hpublished⟩ := hprogress.of_recording
  have hacks' : (d.addAck i false ack).acksOf i = [(false, ack)] := by
    rw [acksOf_addAck, hacks, if_pos rfl]
    rfl
  refine h.of_call (i := i) h.pool rfl rfl rfl rfl rfl
    (fun i' hi' => Function.update_of_ne hi' ..) (by simp [hat]) ?_ (fun i' hi' => ⟨?_, rfl⟩) ?_
  · simp only [RequestDispatcher.setCall, Function.update_self]
    split <;> simp
  · exact (acksOf_addAck d i i' false ack).trans (by rw [if_neg (Ne.symm hi'), List.append_nil])
  · change Progress _ (Function.update d.calls i _ i) (d.jobs i) ((d.addAck i false ack).acksOf i)
      (d.publishedOf i)
    rw [Function.update_self, hjob, hacks', hpublished, hrouted.source]
    by_cases hvalid : isValidClientId (parseRequest parse (payloads i)).sourceClientId = true
    · rw [if_pos hvalid]
      exact .publishing hrouted hvalid
    · have hrejected := Progress.rejected hrouted
      rw [publications, if_neg hvalid] at hrejected
      rwa [if_neg hvalid]

theorem Tracked.publish (h : Tracked parse payloads d) {route : MqttRequest} {ack : MqttAck}
    (hat : d.calls i = .publishing route ack) :
    Tracked parse payloads ((d.publish i route ack).setCall i (.returned false)) := by
  have hprogress := h.progress i
  rw [hat] at hprogress
  obtain ⟨hrouted, hvalid, hjob, hacks, hpublished⟩ := hprogress.of_publishing
  have hpublished' : (d.publish i route ack).publishedOf i = [(route, ack)] := by
    rw [publishedOf_publish, hpublished, if_pos rfl]
    rfl
  refine h.of_call (i := i) h.pool rfl rfl rfl rfl rfl
    (fun i' hi' => Function.update_of_ne hi' ..) (by simp [hat])
    (by simp [RequestDispatcher.setCall]) (fun i' hi' => ⟨rfl, ?_⟩) ?_
  · exact (publishedOf_publish d i i' route ack).trans
      (by rw [if_neg (Ne.symm hi'), List.append_nil])
  · change Progress _ (Function.update d.calls i _ i) (d.jobs i) (d.acksOf i)
      ((d.publish i route ack).publishedOf i)
    rw [Function.update_self, hjob, hacks, hpublished']
    have hrejected := Progress.rejected hrouted
    rwa [publications, if_pos hvalid] at hrejected

/-- A step of a call. -/
theorem Tracked.advance (h : Tracked parse payloads d) {now : Bytes}
    (hstep : d.advance parse payloads i now = some d') : Tracked parse payloads d' := by
  have hprogress := h.progress i
  unfold RequestDispatcher.advance at hstep
  split at hstep
  · rename_i hat
    have hold : d.calls i ≠ .returned true := by simp [hat]
    rw [hat] at hprogress
    obtain ⟨hjob, hacks, hpublished⟩ := hprogress.of_notCalled
    have hreceived := h.of_records d.accepting (d.received ++ [payloads i]) d.activity d.stored
    simp only at hstep
    split at hstep
    · obtain rfl := Option.some.inj hstep
      refine hreceived.setCall hold (by simp) ?_
      change Progress _ _ (d.jobs i) (d.acksOf i) (d.publishedOf i)
      rw [hjob, hacks, hpublished]
      exact .recording ⟨rfl, rfl⟩
    · rename_i request hrequest
      obtain rfl := Option.some.inj hstep
      refine hreceived.setCall hold (by simp) ?_
      change Progress _ _ (d.jobs i) (d.acksOf i) (d.publishedOf i)
      rw [hjob, hacks, hpublished]
      exact .preparing .handling hrequest
  · rename_i stage request hat
    obtain rfl := Option.some.inj hstep
    exact h.prepare hat now
  · rename_i route ack hat
    obtain rfl := Option.some.inj hstep
    exact h.record hat
  · rename_i route ack hat
    obtain rfl := Option.some.inj hstep
    exact h.publish hat
  · cases hstep

/-! ### Steps of the workers -/

theorem running_of_setWorker_ready {pool : ThreadPoolManager n (Job k)} {w w' : Fin n}
    {t : Ticket (Job k)} (h : (pool.setWorker w .ready).workers w' = .running t) :
    pool.workers w' = .running t := by
  rw [ThreadPoolManager.workers_setWorker] at h
  split at h
  · cases h
  · exact h

/-- A step of the pool that starts and ends no job. -/
theorem Tracked.of_pool (h : Tracked parse payloads d) {pool : ThreadPoolManager n (Job k)}
    (hpool : pool.Accounted) (haccepted : pool.accepted = d.pool.accepted)
    (htasks : pool.tasks = d.pool.tasks) (hfinished : pool.finished = d.pool.finished)
    (hrunning : ∀ w t, pool.workers w = .running t → d.pool.workers w = .running t) :
    Tracked parse payloads { d with pool := pool } where
  pool := hpool
  matched := {
    accepted := fun t ht => h.matched.accepted t (haccepted ▸ ht)
    returned := fun i hi => haccepted.symm ▸ h.matched.returned i hi
    once := haccepted.symm ▸ h.matched.once
    queued := fun t ht => h.matched.queued t (htasks ▸ ht)
    running := fun w t hw => h.matched.running w t (hrunning w t hw)
    finished := fun f hf => h.matched.finished f (hfinished ▸ hf) }
  progress := h.progress

/-- The jobs of two accepted tasks are two jobs. -/
theorem Matched.unique (h : Matched parse payloads d) {t t' : Ticket (Job k)}
    (ht : t ∈ d.pool.accepted) (ht' : t' ∈ d.pool.accepted) (heq : t.task.call = t'.task.call) :
    t = t' := List.inj_on_of_nodup_map h.once ht ht' heq

/-- A job that is neither queued nor finished moves on. -/
theorem Tracked.of_job (h : Tracked parse payloads d) {t : Ticket (Job k)}
    (ht : t ∈ d.pool.accepted) (hqueued : t ∉ d.pool.tasks)
    (hfinished : t ∉ d.pool.finished.map Prod.fst) (hpool : d'.pool = d.pool)
    (hcalls : d'.calls = d.calls) (hjobs : ∀ i ≠ t.task.call, d'.jobs i = d.jobs i)
    (hnew : d'.jobs t.task.call ≠ .queued)
    (hothers : ∀ i ≠ t.task.call, d'.acksOf i = d.acksOf i ∧ d'.publishedOf i = d.publishedOf i)
    (hprogress : Progress (parseRequest parse (payloads t.task.call)) (.returned true)
      (d'.jobs t.task.call) (d'.acksOf t.task.call) (d'.publishedOf t.task.call)) :
    Tracked parse payloads d' where
  pool := hpool ▸ h.pool
  matched := {
    accepted := by
      rw [hpool, hcalls]
      exact h.matched.accepted
    returned := by
      rw [hpool, hcalls]
      exact h.matched.returned
    once := hpool ▸ h.matched.once
    queued := by
      intro t' ht'
      rw [hpool] at ht'
      have haccepted : t' ∈ d.pool.accepted := by
        rw [h.pool.queue]
        exact List.mem_append_right _ ht'
      rw [hjobs]
      · exact h.matched.queued t' ht'
      · intro heq
        exact hqueued (h.matched.unique haccepted ht heq ▸ ht')
    running := by
      intro w t' hw
      by_cases heq : t'.task.call = t.task.call
      · rwa [heq]
      · rw [hjobs _ heq]
        exact h.matched.running w t' (hpool ▸ hw)
    finished := by
      intro f hf
      rw [hpool] at hf
      have hstarted := h.pool.finished_started f.1 (List.mem_map_of_mem hf)
      have haccepted : f.1 ∈ d.pool.accepted := by
        rw [h.pool.queue]
        exact List.mem_append_left _ hstarted
      rw [hjobs]
      · exact h.matched.finished f hf
      · intro heq
        exact hfinished (h.matched.unique haccepted ht heq ▸ List.mem_map_of_mem hf) }
  progress := by
    intro i
    by_cases heq : i = t.task.call
    · rw [heq, hcalls, (h.matched.accepted t ht).1]
      exact hprogress
    · rw [hcalls, hjobs i heq, (hothers i heq).1, (hothers i heq).2]
      exact h.progress i

theorem mem_accepted_of_running (h : Tracked parse payloads d) {w : Fin n} {t : Ticket (Job k)}
    (hw : d.pool.workers w = .running t) : t ∈ d.pool.accepted := by
  rw [h.pool.queue]
  exact List.mem_append_left _ (h.pool.running w t hw).1

/-- The job that a worker runs moves on, with what it records and publishes. -/
theorem Tracked.of_work (h : Tracked parse payloads d) {w : Fin n} {t : Ticket (Job k)}
    (hw : d.pool.workers w = .running t) (hpool : d'.pool = d.pool)
    (hcalls : d'.calls = d.calls) (hjobs : ∀ i ≠ t.task.call, d'.jobs i = d.jobs i)
    (hnew : d'.jobs t.task.call ≠ .queued)
    (hothers : ∀ i ≠ t.task.call, d'.acksOf i = d.acksOf i ∧ d'.publishedOf i = d.publishedOf i)
    (hprogress : Progress (parseRequest parse (payloads t.task.call)) (.returned true)
      (d'.jobs t.task.call) (d'.acksOf t.task.call) (d'.publishedOf t.task.call)) :
    Tracked parse payloads d' := by
  have hqueued : t ∉ d.pool.tasks := fun ht =>
    h.matched.running w t hw (h.matched.queued t ht)
  exact h.of_job (mem_accepted_of_running h hw) hqueued (h.pool.running w t hw).2 hpool hcalls
    hjobs hnew hothers hprogress

/-- A job that records and publishes nothing moves on. -/
theorem Tracked.setJob (h : Tracked parse payloads d) {w : Fin n} {t : Ticket (Job k)}
    {at' : JobPc} (hw : d.pool.workers w = .running t) (hnew : at' ≠ .queued)
    (hacks : d.acksOf t.task.call = []) (hpublished : d.publishedOf t.task.call = [])
    (hprogress : Progress (parseRequest parse (payloads t.task.call)) (.returned true) at' [] []) :
    Tracked parse payloads (d.setJob t.task.call at') := by
  have hself : (d.setJob t.task.call at').jobs t.task.call = at' := Function.update_self ..
  refine h.of_work hw rfl rfl (fun i hi => Function.update_of_ne hi ..) ?_ (fun _ _ => ⟨rfl, rfl⟩) ?_
  · rw [hself]
    exact hnew
  · change Progress _ _ _ (d.acksOf t.task.call) (d.publishedOf t.task.call)
    rw [hself, hacks, hpublished]
    exact hprogress

/-- A handler's acknowledgement carries the id of its request. -/
theorem progress_executeWorkerRequest {p : ParseResult} {request : MqttRequest}
    (hid : request.id = p.requestId) (now : Bytes) (fails : Bool) :
    executeWorkerRequest now fails request ≠ .queued ∧
      Progress p (.returned true) (executeWorkerRequest now fails request) [] [] := by
  unfold executeWorkerRequest
  split
  · refine ⟨by simp, .jobRecording ?_⟩
    unfold executeScript
    split <;> exact hid
  · exact ⟨by simp, .jobRecording hid⟩
  · exact ⟨by simp, .jobRecording hid⟩
  · cases fails with
    | true => exact ⟨by simp, .failed⟩
    | false => exact ⟨by simp, .upserting⟩
  · exact ⟨by simp, .jobRecording hid⟩

theorem Tracked.jobRecord (h : Tracked parse payloads d) {w : Fin n} {t : Ticket (Job k)}
    {ack : MqttAck} (hw : d.pool.workers w = .running t)
    (hat : d.jobs t.task.call = .recording ack) :
    Tracked parse payloads ((d.addAck t.task.call true ack).setJob t.task.call
      (if isValidClientId t.task.request.sourceClientId then .publishing ack
        else .ended false)) := by
  have hprogress := h.progress t.task.call
  rw [hat] at hprogress
  obtain ⟨hid, hacks, hpublished⟩ := hprogress.of_jobRecording
  have haccepted := h.matched.accepted t (mem_accepted_of_running h hw)
  have hsource := (parseRequest_recovered haccepted.2).2
  have hacks' : (d.addAck t.task.call true ack).acksOf t.task.call = [(true, ack)] := by
    rw [acksOf_addAck, hacks, if_pos rfl]
    rfl
  refine h.of_work hw rfl rfl (fun i hi => Function.update_of_ne hi ..) ?_
    (fun i hi => ⟨?_, rfl⟩) ?_
  · simp only [RequestDispatcher.setJob, Function.update_self]
    split <;> simp
  · exact (acksOf_addAck d t.task.call i true ack).trans
      (by rw [if_neg (Ne.symm hi), List.append_nil])
  · change Progress _ _ (Function.update d.jobs t.task.call _ t.task.call)
      ((d.addAck t.task.call true ack).acksOf t.task.call) (d.publishedOf t.task.call)
    rw [Function.update_self, hacks', hpublished, hsource]
    by_cases hvalid :
        isValidClientId (parseRequest parse (payloads t.task.call)).sourceClientId = true
    · rw [if_pos hvalid]
      exact .jobPublishing hid hvalid
    · have hanswered := Progress.answered ⟨hsource, hid⟩
      rw [publications, if_neg hvalid] at hanswered
      rwa [if_neg hvalid]

theorem Tracked.jobPublish (h : Tracked parse payloads d) {w : Fin n} {t : Ticket (Job k)}
    {ack : MqttAck} (hw : d.pool.workers w = .running t)
    (hat : d.jobs t.task.call = .publishing ack) :
    Tracked parse payloads ((d.publish t.task.call t.task.request ack).setJob t.task.call
      (.ended false)) := by
  have hprogress := h.progress t.task.call
  rw [hat] at hprogress
  obtain ⟨hid, hvalid, hacks, hpublished⟩ := hprogress.of_jobPublishing
  have haccepted := h.matched.accepted t (mem_accepted_of_running h hw)
  have hsource := (parseRequest_recovered haccepted.2).2
  have hpublished' : (d.publish t.task.call t.task.request ack).publishedOf t.task.call =
      [(t.task.request, ack)] := by
    rw [publishedOf_publish, hpublished, if_pos rfl]
    rfl
  refine h.of_work hw rfl rfl (fun i hi => Function.update_of_ne hi ..)
    (by simp [RequestDispatcher.setJob]) (fun i hi => ⟨rfl, ?_⟩) ?_
  · exact (publishedOf_publish d t.task.call i t.task.request ack).trans
      (by rw [if_neg (Ne.symm hi), List.append_nil])
  · change Progress _ _ (Function.update d.jobs t.task.call _ t.task.call) (d.acksOf t.task.call)
      ((d.publish t.task.call t.task.request ack).publishedOf t.task.call)
    rw [Function.update_self, hacks, hpublished']
    have hanswered := Progress.answered ⟨hsource, hid⟩
    rwa [publications, if_pos hvalid] at hanswered

/-- The pool takes note of a job that has ended. -/
theorem Tracked.finish (h : Tracked parse payloads d) {w : Fin n} {t : Ticket (Job k)}
    {threw : Bool} (hw : d.pool.workers w = .running t)
    (hat : d.jobs t.task.call = .ended threw) :
    Tracked parse payloads { d with pool :=
      { d.pool.setWorker w .ready with finished := d.pool.finished ++ [(t, threw)] } } where
  pool := h.pool.finish threw hw
  matched := {
    accepted := h.matched.accepted
    returned := h.matched.returned
    once := h.matched.once
    queued := h.matched.queued
    running := by
      intro w' t' hw'
      exact h.matched.running w' t' (running_of_setWorker_ready (w := w) hw')
    finished := by
      intro f hf
      rcases List.mem_append.mp hf with hf | hf
      · exact h.matched.finished f hf
      · obtain rfl := List.mem_singleton.mp hf
        exact hat }
  progress := h.progress

theorem Tracked.work (h : Tracked parse payloads d) {w : Fin n} {now : Bytes} {fails : Bool}
    (hstep : d.work w now fails = some d') : Tracked parse payloads d' := by
  unfold RequestDispatcher.work at hstep
  split at hstep
  · rename_i t hw
    have haccepted := h.matched.accepted t (mem_accepted_of_running h hw)
    have hid := (parseRequest_recovered haccepted.2).1
    have hprogress := h.progress t.task.call
    simp only at hstep
    split at hstep
    · rename_i hat
      rw [hat] at hprogress
      obtain ⟨hacks, hpublished⟩ := hprogress.of_executing
      obtain rfl := Option.some.inj hstep
      obtain ⟨hnew, hnext⟩ := progress_executeWorkerRequest hid now fails
      exact h.setJob hw hnew hacks hpublished hnext
    · rename_i hat
      rw [hat] at hprogress
      obtain ⟨hacks, hpublished⟩ := hprogress.of_upserting
      split at hstep
      · obtain rfl := Option.some.inj hstep
        exact h.setJob hw (by simp) hacks hpublished .failed
      · obtain rfl := Option.some.inj hstep
        exact (h.setJob hw (by simp) hacks hpublished (.jobRecording hid)).of_records ..
    · rename_i ack hat
      obtain rfl := Option.some.inj hstep
      exact h.jobRecord hw hat
    · rename_i ack hat
      obtain rfl := Option.some.inj hstep
      exact h.jobPublish hw hat
    · rename_i threw hat
      simp only [ThreadPoolManager.step, hw, Option.map_some, Option.some.injEq] at hstep
      subst hstep
      exact h.finish hw hat
    · cases hstep
    · cases hstep
  · cases hstep

/-- A worker takes the front of the queue, and its job starts. -/
theorem Tracked.take (h : Tracked parse payloads d) {w : Fin n} {t : Ticket (Job k)}
    {rest : List (Ticket (Job k))} (hw : d.pool.workers w = .ready)
    (htasks : d.pool.tasks = t :: rest) :
    Tracked parse payloads { d.setJob t.task.call .executing with
      pool := { d.pool.setWorker w (.running t) with
        tasks := rest, started := d.pool.started ++ [t] } } := by
  have hmem : ∀ t' ∈ d.pool.tasks, t' ∈ d.pool.accepted := by
    intro t' ht'
    rw [h.pool.queue]
    exact List.mem_append_right _ ht'
  have ht : t ∈ d.pool.tasks := htasks ▸ List.mem_cons_self
  have hprogress := h.progress t.task.call
  rw [h.matched.queued t ht] at hprogress
  obtain ⟨hacks, hpublished⟩ := hprogress.of_queued
  have hjobs : ∀ i ≠ t.task.call, (d.setJob t.task.call .executing).jobs i = d.jobs i :=
    fun i hi => Function.update_of_ne hi ..
  have hself : (d.setJob t.task.call .executing).jobs t.task.call = .executing :=
    Function.update_self ..
  have hnodup : (t :: rest).Nodup := by
    have haccepted := ThreadPoolManager.accepted_nodup h.pool.numbers
    rw [h.pool.queue, htasks] at haccepted
    exact (List.nodup_append.mp haccepted).2.1
  exact {
    pool := h.pool.take hw htasks
    matched := {
      accepted := h.matched.accepted
      returned := h.matched.returned
      once := h.matched.once
      queued := by
        intro t' ht'
        have ht'' : t' ∈ d.pool.tasks := htasks ▸ List.mem_cons_of_mem _ ht'
        refine (hjobs _ fun heq => ?_).trans (h.matched.queued t' ht'')
        obtain rfl := h.matched.unique (hmem t' ht'') (hmem t ht) heq
        exact (List.nodup_cons.mp hnodup).1 ht'
      running := by
        intro w' t' hw'
        by_cases heq : t'.task.call = t.task.call
        · rw [heq, show _ = (d.setJob t.task.call .executing).jobs t.task.call from rfl, hself]
          simp
        · rw [show _ = (d.setJob t.task.call .executing).jobs t'.task.call from rfl, hjobs _ heq]
          rw [show _ = (d.pool.setWorker w (.running t)).workers w' from rfl,
            ThreadPoolManager.workers_setWorker] at hw'
          split at hw'
          · cases hw'
            exact absurd rfl heq
          · exact h.matched.running w' t' hw'
      finished := by
        intro f hf
        have hfinished := h.matched.finished f hf
        refine (hjobs _ fun heq => ?_).trans hfinished
        rw [heq, h.matched.queued t ht] at hfinished
        cases hfinished }
    progress := by
      intro i
      change Progress _ (d.calls i) ((d.setJob t.task.call .executing).jobs i) (d.acksOf i)
        (d.publishedOf i)
      by_cases heq : i = t.task.call
      · rw [heq, hself, hacks, hpublished, (h.matched.accepted t (hmem t ht)).1]
        exact .executing
      · rw [hjobs i heq]
        exact h.progress i }

theorem Tracked.lock (h : Tracked parse payloads d) {w : Fin n}
    (hstep : ((d.pool.step (.lock w)).map fun pool => { d.startJob with pool := pool }) =
      some d') : Tracked parse payloads d' := by
  obtain ⟨pool, hpool, rfl⟩ := Option.map_eq_some_iff.mp hstep
  obtain ⟨hready, rfl⟩ := allow_eq_some.mp hpool
  have hw := ThreadPoolManager.workers_of_isReady hready
  cases htasks : d.pool.tasks with
  | cons t rest =>
      rw [ThreadPoolManager.lock, startJob, htasks]
      exact h.take hw htasks
  | nil =>
      have haccounted := h.pool.lock hw
      rw [ThreadPoolManager.lock, htasks] at haccounted
      rw [ThreadPoolManager.lock, startJob, htasks]
      refine h.of_pool haccounted ?_ ?_ ?_ fun w' t' hw' => ?_
      · simp only
        split <;> rfl
      · simp only
        split <;> rfl
      · simp only
        split <;> rfl
      · simp only at hw'
        split at hw' <;> rw [ThreadPoolManager.workers_setWorker] at hw' <;> split at hw' <;>
          first | cases hw' | exact hw'

/-- The step lemma. -/
theorem Tracked.step (h : Tracked parse payloads d) {l : Label n k}
    (hstep : d.step parse payloads l = some d') : Tracked parse payloads d' := by
  cases l with
  | advance i now => exact h.advance hstep
  | work w now fails => exact h.work hstep
  | stopAccepting =>
      obtain rfl := Option.some.inj hstep
      exact h.of_records ..
  | lock w => exact h.lock hstep
  | setStop =>
      obtain ⟨pool, hpool, rfl⟩ := poolStep_eq_some.mp hstep
      obtain rfl := Option.some.inj hpool
      exact h.of_pool (h.pool.step hpool) rfl rfl rfl fun _ _ => id
  | notifyOne w =>
      obtain ⟨pool, hpool, rfl⟩ := poolStep_eq_some.mp hstep
      obtain ⟨_, rfl⟩ := allow_eq_some.mp hpool
      refine h.of_pool (h.pool.step hpool) rfl rfl rfl fun w' t hw' => ?_
      exact running_of_setWorker_ready hw'
  | notifyNobody =>
      obtain ⟨pool, hpool, rfl⟩ := poolStep_eq_some.mp hstep
      obtain ⟨_, rfl⟩ := allow_eq_some.mp hpool
      exact h.of_pool (h.pool.step hpool) rfl rfl rfl fun _ _ => id
  | notifyAll =>
      obtain ⟨pool, hpool, rfl⟩ := poolStep_eq_some.mp hstep
      obtain ⟨_, rfl⟩ := allow_eq_some.mp hpool
      exact h.of_pool (h.pool.step hpool) rfl rfl rfl fun _ _ =>
        ThreadPoolManager.workers_wakeAll_running.mp
  | wakeSpuriously w =>
      obtain ⟨pool, hpool, rfl⟩ := poolStep_eq_some.mp hstep
      obtain ⟨_, rfl⟩ := allow_eq_some.mp hpool
      refine h.of_pool (h.pool.step hpool) rfl rfl rfl fun w' t hw' => ?_
      exact running_of_setWorker_ready hw'

/-! ### Failed stores -/

/-- No job has ended with an exception. -/
def NoneFailed (d : RequestDispatcher n k) : Prop := ∀ i, d.jobs i ≠ .ended true

/-- SQLite throws in this step: a worker is inside `StoreDatabaseValue`. -/
def StoreFails (d : RequestDispatcher n k) : Label n k → Prop
  | .work w _ true => ∃ t, d.pool.workers w = .running t ∧
      (d.jobs t.task.call = .upserting ∨
        d.jobs t.task.call = .executing ∧ t.task.request.type = .storeDatabaseValue)
  | _ => False

theorem noneFailed_of_jobs (hjobs : d'.jobs = d.jobs) : NoneFailed d' ↔ NoneFailed d := by
  rw [NoneFailed, NoneFailed, hjobs]

theorem noneFailed_of_job (hjobs : ∀ i' ≠ i, d'.jobs i' = d.jobs i')
    (hold : d.jobs i ≠ .ended true) :
    NoneFailed d' ↔ NoneFailed d ∧ d'.jobs i ≠ .ended true := by
  constructor
  · intro h
    refine ⟨fun i' => ?_, h i⟩
    by_cases heq : i' = i
    · exact heq ▸ hold
    · exact hjobs i' heq ▸ h i'
  · rintro ⟨h, hi⟩ i'
    by_cases heq : i' = i
    · exact heq ▸ hi
    · exact hjobs i' heq ▸ h i'

theorem jobs_advance {now : Bytes} (hstep : d.advance parse payloads i now = some d') :
    d'.jobs = d.jobs ∨
    (∃ request, d.calls i = .preparing .enqueueing request) ∧
      d'.jobs = Function.update d.jobs i .queued := by
  unfold RequestDispatcher.advance at hstep
  split at hstep
  · simp only at hstep
    split at hstep <;> exact Or.inl (congrArg jobs (Option.some.inj hstep)).symm
  · rename_i stage request hat
    obtain rfl := Option.some.inj hstep
    cases stage with
    | handling | dispatching =>
        rw [RequestDispatcher.prepare]
        split <;> exact Or.inl rfl
    | noting => exact Or.inl rfl
    | enqueueing =>
        rw [RequestDispatcher.prepare]
        split
        · exact Or.inl rfl
        · exact Or.inr ⟨⟨request, hat⟩, rfl⟩
  · exact Or.inl (congrArg jobs (Option.some.inj hstep)).symm
  · exact Or.inl (congrArg jobs (Option.some.inj hstep)).symm
  · cases hstep

theorem executeWorkerRequest_eq_ended {now : Bytes} {fails : Bool} {request : MqttRequest} :
    executeWorkerRequest now fails request = .ended true ↔
      fails = true ∧ request.type = .storeDatabaseValue := by
  unfold executeWorkerRequest
  cases hrequest : request.type with
  | storeDatabaseValue => cases fails <;> simp
  | executeScript | sendToDevice | cmdToDevice | queryAiPrompt => simp

/-- A worker's step adds a failed job exactly when SQLite throws in it. -/
theorem noneFailed_work {w : Fin n} {now : Bytes} {fails : Bool}
    (hstep : d.work w now fails = some d') :
    NoneFailed d' ↔ NoneFailed d ∧ ¬StoreFails d (.work w now fails) := by
  unfold RequestDispatcher.work at hstep
  split at hstep
  · rename_i t hw
    have hfails : StoreFails d (.work w now fails) ↔ fails = true ∧
        (d.jobs t.task.call = .upserting ∨
          d.jobs t.task.call = .executing ∧ t.task.request.type = .storeDatabaseValue) := by
      cases fails <;> simp [StoreFails, hw]
    have hset : ∀ at', ∀ i ≠ t.task.call, Function.update d.jobs t.task.call at' i = d.jobs i :=
      fun at' i hi => Function.update_of_ne hi ..
    rw [hfails]
    simp only at hstep
    split at hstep
    · rename_i hat
      obtain rfl := Option.some.inj hstep
      refine (noneFailed_of_job (hset _) (by simp [hat])).trans ?_
      simp [RequestDispatcher.setJob, hat, executeWorkerRequest_eq_ended]
    · rename_i hat
      split at hstep
      · rename_i hfailed
        obtain rfl := Option.some.inj hstep
        refine (noneFailed_of_job (hset _) (by simp [hat])).trans ?_
        simp [RequestDispatcher.setJob, hat, hfailed]
      · rename_i hfailed
        obtain rfl := Option.some.inj hstep
        refine (noneFailed_of_job (hset _) (by simp [hat])).trans ?_
        simp [RequestDispatcher.setJob, hfailed]
    · rename_i ack hat
      obtain rfl := Option.some.inj hstep
      refine (noneFailed_of_job (hset _) (by simp [hat])).trans ?_
      simp only [RequestDispatcher.setJob, Function.update_self, hat]
      split <;> simp
    · rename_i ack hat
      obtain rfl := Option.some.inj hstep
      refine (noneFailed_of_job (hset _) (by simp [hat])).trans ?_
      simp [RequestDispatcher.setJob, hat]
    · rename_i threw hat
      obtain ⟨pool, _, rfl⟩ := Option.map_eq_some_iff.mp hstep
      refine (noneFailed_of_jobs (d := d) rfl).trans ?_
      simp [hat]
    · cases hstep
    · cases hstep
  · cases hstep

theorem noneFailed_step (h : Tracked parse payloads d) {l : Label n k}
    (hstep : d.step parse payloads l = some d') :
    NoneFailed d' ↔ NoneFailed d ∧ ¬StoreFails d l := by
  cases l with
  | work w now fails => exact noneFailed_work hstep
  | advance i now =>
      refine Iff.trans ?_ (and_iff_left (show ¬StoreFails d (.advance i now) from id)).symm
      rcases jobs_advance hstep with hjobs | ⟨⟨request, hat⟩, hjobs⟩
      · exact noneFailed_of_jobs hjobs
      · have hprogress := h.progress i
        rw [hat] at hprogress
        have hjob := hprogress.of_preparing.2.1
        rw [noneFailed_of_job (i := i) (d := d) ?_ (by simp [hjob]), hjobs, Function.update_self]
        · simp
        · intro i' hi'
          rw [hjobs, Function.update_of_ne hi']
  | lock w =>
      obtain ⟨pool, _, rfl⟩ := Option.map_eq_some_iff.mp hstep
      refine Iff.trans ?_ (and_iff_left (show ¬StoreFails d (.lock w) from id)).symm
      cases htasks : d.pool.tasks with
      | nil => exact noneFailed_of_jobs (by rw [startJob, htasks])
      | cons t rest =>
          have hjob := h.matched.queued t (htasks ▸ List.mem_cons_self)
          rw [startJob, htasks]
          refine (noneFailed_of_job (fun i hi => Function.update_of_ne hi ..)
            (by simp [hjob] : d.jobs t.task.call ≠ .ended true)).trans ?_
          simp [RequestDispatcher.setJob]
  | stopAccepting =>
      obtain rfl := Option.some.inj hstep
      exact (noneFailed_of_jobs rfl).trans (and_iff_left (id : ¬False)).symm
  | setStop | notifyOne | notifyNobody | notifyAll | wakeSpuriously =>
      obtain ⟨pool, _, rfl⟩ := poolStep_eq_some.mp hstep
      exact (noneFailed_of_jobs rfl).trans (and_iff_left (id : ¬False)).symm

/-! ### Once everything has been answered -/

/-- All calls have returned and the pool has drained. -/
structure Drained (d : RequestDispatcher n k) : Prop where
  calls : ∀ i, ∃ b, d.calls i = .returned b
  workers : ∀ w, d.pool.workers w = .exited

/-- One acknowledgement has been recorded for the payload, with its id; it has been
published, once, if the payload names a client to publish it to; and it comes from
a worker exactly when the call returned true. -/
def AcknowledgedOnce (parse : Bytes → Document) (payloads : Fin k → Bytes)
    (d : RequestDispatcher n k) (i : Fin k) : Prop :=
  ∃ byWorker route ack,
    d.acksOf i = [(byWorker, ack)] ∧
    d.publishedOf i =
      (if isValidClientId (parseRequest parse (payloads i)).sourceClientId then [(route, ack)]
        else []) ∧
    route.sourceClientId = (parseRequest parse (payloads i)).sourceClientId ∧
    ack.requestId = (parseRequest parse (payloads i)).requestId ∧
    (d.calls i = .returned true ↔ byWorker = true)

theorem Tracked.acknowledgedOnce_iff (h : Tracked parse payloads d) (hn : 0 < n)
    (hdrained : Drained d) (i : Fin k) :
    AcknowledgedOnce parse payloads d i ↔ d.jobs i ≠ .ended true := by
  have hprogress := h.progress i
  obtain ⟨b, hcall⟩ := hdrained.calls i
  have hended : b = true → ∃ threw, d.jobs i = .ended threw := by
    rintro rfl
    obtain ⟨t, ht, rfl⟩ := h.matched.returned i hcall
    obtain ⟨f, hf, rfl⟩ := List.mem_map.mp
      ((h.pool.drained hn hdrained.workers).2.mem_iff.mpr ht)
    exact ⟨f.2, h.matched.finished f hf⟩
  unfold AcknowledgedOnce
  rw [hcall] at hprogress ⊢
  generalize hjob : d.jobs i = job at hprogress hended
  generalize d.acksOf i = acks at hprogress
  generalize d.publishedOf i = published at hprogress
  cases hprogress with
  | rejected hrouted =>
      exact iff_of_true ⟨false, _, _, rfl, rfl, hrouted.source, hrouted.id, by simp⟩ (by simp)
  | answered hrouted =>
      exact iff_of_true ⟨true, _, _, rfl, rfl, hrouted.source, hrouted.id, by simp⟩ (by simp)
  | failed =>
      refine iff_of_false ?_ (by simp)
      rintro ⟨_, _, _, hacks, _⟩
      cases hacks
  | queued | executing | upserting | jobRecording | jobPublishing =>
      obtain ⟨_, hfalse⟩ := hended rfl
      cases hfalse

theorem tracked_of_exec {ls : List (Label n k)}
    (h : (machine n k parse payloads).exec (initial n k) ls = some d) : Tracked parse payloads d :=
  Machine.invariant (Tracked parse payloads) (fun _ _ _ hd hstep => hd.step hstep) ⟨ls, h⟩
    tracked_initial

/-- Every payload is acknowledged once exactly when SQLite has thrown in no step of
the run. -/
theorem acknowledgedOnce_iff_no_store_fails (hn : 0 < n) {ls : List (Label n k)}
    (hrun : (machine n k parse payloads).exec (initial n k) ls = some d) (hdrained : Drained d) :
    (∀ i, AcknowledgedOnce parse payloads d i) ↔
      (machine n k parse payloads).Meets (fun d l => ¬StoreFails d l) (initial n k) ls := by
  have htracked := tracked_of_exec hrun
  have hclean := Machine.meets_iff (Tracked parse payloads) NoneFailed
    (fun _ _ _ hd hstep => hd.step hstep) (fun _ _ _ hd hstep => noneFailed_step hd hstep) hrun
    tracked_initial
  have hinitial : NoneFailed (initial n k) := fun _ => by simp [initial]
  rw [and_iff_right hinitial] at hclean
  rw [← hclean]
  exact forall_congr' fun i => htracked.acknowledgedOnce_iff hn hdrained i

/-- A run that starts with the arrival of a valid request. -/
theorem exec_advance_notCalled {request : MqttRequest} (hat : d.calls i = .notCalled)
    (hrequest : (parseRequest parse (payloads i)).request = some request) (now : Bytes)
    (ls : List (Label n k)) :
    (machine n k parse payloads).exec d (.advance i now :: ls) =
      (machine n k parse payloads).exec
        ({ d with received := d.received ++ [payloads i] }.setCall i
          (.preparing .handling request)) ls := by
  have hstep : d.advance parse payloads i now =
      some ({ d with received := d.received ++ [payloads i] }.setCall i
        (.preparing .handling request)) := by
    rw [advance, hat]
    simp only [hrequest]
  exact Machine.exec_cons_of_step hstep ls

/-- The only payload of the runs below, and the only worker. -/
def sole : Fin 1 := ⟨0, Nat.one_pos⟩

def storePayload (_ : Fin 1) : Bytes := serializeRequest (storeRequest [97])

theorem parseRequest_storePayload :
    (parseRequest lastMemberParser (storePayload 0)).request = some (storeRequest [97]) := by
  rw [storePayload, parseRequest_of_emittable strictParser_lastMemberParser (by decide) (by decide)
    (by decide)]

/-- A store request is accepted, taken by the worker, and executed as the flags say;
then the pool is drained. -/
def storingRun (work : List (Label 1 1)) : List (Label 1 1) :=
  (List.replicate 5 (.advance sole []) : List (Label 1 1)) ++
    ([.lock sole] : List (Label 1 1)) ++ work ++
    ([.stopAccepting, .setStop, .lock sole] : List (Label 1 1))

theorem exec_storingRun (work : List (Label 1 1)) :
    (machine 1 1 lastMemberParser storePayload).exec (initial 1 1) (storingRun work) =
      (machine 1 1 lastMemberParser storePayload).exec
        ({ initial 1 1 with received := [storePayload 0] }.setCall 0
          (.preparing .handling (storeRequest [97]))) (storingRun work).tail :=
  exec_advance_notCalled rfl parseRequest_storePayload [] _

theorem acknowledgedOnce_iff_no_store_fails_storing :
    ∃ d, (machine 1 1 lastMemberParser storePayload).exec (initial 1 1) (storingRun
        [.work 0 [] false, .work 0 [] false, .work 0 [] false, .work 0 [] false,
          .work 0 [] false]) = some d ∧
      ∀ i, AcknowledgedOnce lastMemberParser storePayload d i := by
  have hrun := exec_storingRun [.work 0 [] false, .work 0 [] false, .work 0 [] false,
    .work 0 [] false, .work 0 [] false]
  obtain ⟨d, hd, hdrained⟩ : ∃ d, (machine 1 1 lastMemberParser storePayload).exec (initial 1 1)
      (storingRun [.work 0 [] false, .work 0 [] false, .work 0 [] false, .work 0 [] false,
        .work 0 [] false]) = some d ∧ Drained d := by
    refine ⟨_, hrun.trans rfl, ⟨fun i => ⟨true, ?_⟩, fun w => ?_⟩⟩
    · rw [Subsingleton.elim i 0]
      rfl
    · rw [Subsingleton.elim w 0]
      rfl
  refine ⟨d, hd, (acknowledgedOnce_iff_no_store_fails Nat.one_pos hd hdrained).mpr ?_⟩
  refine Machine.meets_of_forall fun l hl s => ?_
  fin_cases hl <;> exact id

/-- When SQLite throws, the accepted request is never acknowledged. -/
theorem failed_store_is_not_acknowledged :
    ∃ d, (machine 1 1 lastMemberParser storePayload).exec (initial 1 1)
        (storingRun [.work 0 [] true, .work 0 [] false]) = some d ∧
      Drained d ∧ d.calls 0 = .returned true ∧
      ¬AcknowledgedOnce lastMemberParser storePayload d 0 := by
  refine ⟨_, (exec_storingRun _).trans rfl, ⟨fun i => ⟨true, ?_⟩, fun w => ?_⟩, rfl, ?_⟩
  · rw [Subsingleton.elim i 0]
    rfl
  · rw [Subsingleton.elim w 0]
    rfl
  · rintro ⟨_, _, _, hacks, _⟩
    cases hacks

end RequestDispatcher

end Watchlist.Dispatch
