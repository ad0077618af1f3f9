import Watchlist.Dispatch.Acknowledgements
import Watchlist.Messaging.ReadableAck

/-!
Every acknowledgement can be read, unless it repeats a control character. The
invariant says what an acknowledgement for a payload is made of, wherever it is
between its making and its publication; a run that takes a payload through a
worker shows that each string it echoes does come out.
-/

namespace Watchlist.Dispatch

open Bytes Transition Concurrency Messaging

/-- What a worker answers to a request, if nothing throws. -/
def handlerAck (now : Bytes) (request : MqttRequest) : MqttAck :=
  match request.type with
  | .executeScript => executeScript now request
  | .sendToDevice => sendToDevice now request
  | .cmdToDevice => cmdToDevice now request
  | .storeDatabaseValue => storeDatabaseValue now request
  | .queryAiPrompt => queryAiPrompt now request

/-- The acknowledgements there can be for a payload. -/
inductive Answer (p : ParseResult) : MqttAck → Prop
  | refused {now : Bytes} (hnow : Printable now) (h : p.request = none) :
      Answer p (makeAck now p.requestId (ascii "error") p.error)
  | shuttingDown {now : Bytes} {request : MqttRequest} (hnow : Printable now)
      (h : p.request = some request) : Answer p (shuttingDown now request)
  | handled {now : Bytes} {request : MqttRequest} (hnow : Printable now)
      (h : p.request = some request) : Answer p (handlerAck now request)

/-! ### Reading an answer -/

theorem wellFormed_getD {s : Option Bytes} {default' : Bytes} (h : Utf8.WellFormed default')
    (hs : ∀ x ∈ s.toList, Utf8.WellFormed x) : Utf8.WellFormed (s.getD default') := by
  cases s with
  | none => exact h
  | some s => exact hs s (by simp)

/-- A handler's acknowledgement: the id, and texts of the code around what it quotes. -/
theorem handlerAck_spec (now : Bytes) (request : MqttRequest)
    (hutf8 : ∀ s ∈ request.quoted, Utf8.WellFormed s) :
    (handlerAck now request).requestId = request.id ∧
    (handlerAck now request).completedUtc = now ∧
    Printable (handlerAck now request).status ∧
    Utf8.WellFormed (handlerAck now request).message ∧
    (Emittable (handlerAck now request).message ↔ ∀ s ∈ request.quoted, Emittable s) := by
  have hempty : Emittable [] := by decide
  have hdevice : Emittable (ascii "device") := by decide
  have hok : Printable (ascii "ok") := by decide
  have herror : Printable (ascii "error") := by decide
  unfold MqttRequest.quoted at hutf8 ⊢
  unfold handlerAck
  generalize request.type = type at hutf8 ⊢
  cases type with
  | executeScript =>
      by_cases hscript : request.scriptName = some (ascii "script1")
      · rw [show executeScript now request = makeAck now request.id (ascii "ok")
          (ascii "script1 executed") from if_neg (not_not.mpr hscript)]
        exact ⟨rfl, rfl, hok, (by decide : Utf8.WellFormed (ascii "script1 executed")),
          iff_of_true (by decide : Emittable (ascii "script1 executed")) nofun⟩
      · rw [show executeScript now request = makeAck now request.id (ascii "error")
          (ascii "script is not allowlisted") from if_pos hscript]
        exact ⟨rfl, rfl, herror, (by decide : Utf8.WellFormed (ascii "script is not allowlisted")),
          iff_of_true (by decide : Emittable (ascii "script is not allowlisted")) nofun⟩
  | sendToDevice =>
      refine ⟨rfl, rfl, hok, ?_, ?_⟩
      · exact Utf8.WellFormed.append (by decide) (wellFormed_getD (by decide) hutf8)
      · rw [sendToDevice, makeAck, emittable_append_of_printable (by decide),
          emittable_getD hdevice]
  | cmdToDevice =>
      obtain ⟨hcommand, hdevice'⟩ := List.forall_mem_append.mp hutf8
      refine ⟨rfl, rfl, hok, ?_, ?_⟩
      · exact Utf8.WellFormed.append (.append (.append (by decide)
          (wellFormed_getD (by decide) hcommand)) (by decide)) (wellFormed_getD (by decide) hdevice')
      · rw [cmdToDevice, makeAck, List.append_assoc, List.append_assoc,
          emittable_append_of_printable (by decide), emittable_append,
          emittable_append_of_printable (by decide), emittable_getD hempty,
          emittable_getD hdevice, List.forall_mem_append]
  | storeDatabaseValue =>
      refine ⟨rfl, rfl, hok, ?_, ?_⟩
      · exact Utf8.WellFormed.append (.append (by decide) (wellFormed_getD (by decide) hutf8))
          (by decide)
      · rw [storeDatabaseValue, makeAck, List.append_assoc,
          emittable_append_of_printable (by decide), emittable_append,
          and_iff_left (show Emittable (ascii "'") by decide), emittable_getD hempty]
  | queryAiPrompt =>
      refine ⟨rfl, rfl, hok, ?_, ?_⟩
      · exact Utf8.WellFormed.append (by decide) (wellFormed_getD (by decide) hutf8)
      · rw [queryAiPrompt, makeAck, emittable_append_of_printable (by decide),
          emittable_getD hempty]

/-- When an acknowledgement made of well-formed strings can be read. -/
theorem readable_iff_fields {ack : MqttAck} (hid : Utf8.WellFormed ack.requestId)
    (hstatus : Printable ack.status) (hmessage : Utf8.WellFormed ack.message)
    (hnow : Printable ack.completedUtc) :
    Readable ack ↔ Emittable ack.requestId ∧ Emittable ack.message := by
  have hutf8 : ∀ m ∈ ackMembers ack, Utf8.WellFormed m.2 := by
    simp only [ackMembers, List.forall_mem_cons]
    exact ⟨hid, hstatus.wellFormed, hmessage, hnow.wellFormed, List.forall_mem_nil _⟩
  rw [readable_iff hutf8]
  simp only [AllEmittable, ackMembers, List.forall_mem_cons]
  constructor
  · rintro ⟨hid, -, hmessage, -⟩
    exact ⟨hid, hmessage⟩
  · rintro ⟨hid, hmessage⟩
    exact ⟨hid, hstatus.emittable, hmessage, hnow.emittable, List.forall_mem_nil _⟩

section
variable {parse : Bytes → Document} {payload : Bytes}

/-- The answer to a refused payload, and a handler's answer, repeat everything the
payload's acknowledgements echo. -/
theorem readable_refused (hparse : StrictParser parse) {now : Bytes} (hnow : Printable now)
    (h : (parseRequest parse payload).request = none) :
    Readable (makeAck now (parseRequest parse payload).requestId (ascii "error")
      (parseRequest parse payload).error) ↔ ∀ s ∈ echoed parse payload, Emittable s := by
  obtain ⟨hid, herror, hiff⟩ := refused_payload hparse h
  rw [readable_iff_fields hid (show Printable (ascii "error") by decide) herror hnow]
  exact hiff

theorem readable_handled (hparse : StrictParser parse) {now : Bytes} (hnow : Printable now)
    {request : MqttRequest} (h : (parseRequest parse payload).request = some request) :
    Readable (handlerAck now request) ↔ ∀ s ∈ echoed parse payload, Emittable s := by
  obtain ⟨hid, hquoted, hiff⟩ := accepted_payload hparse h
  obtain ⟨hid', hnow', hstatus, hmessage, hmessage'⟩ := handlerAck_spec now request hquoted
  rw [readable_iff_fields (hid'.symm ▸ hid) hstatus hmessage (hnow'.symm ▸ hnow), hid', hmessage']
  exact hiff

/-- No answer repeats anything else. -/
theorem Answer.readable (hparse : StrictParser parse) {ack : MqttAck}
    (h : Answer (parseRequest parse payload) ack)
    (hechoed : ∀ s ∈ echoed parse payload, Emittable s) : Readable ack := by
  cases h with
  | refused hnow hrefused => exact (readable_refused hparse hnow hrefused).mpr hechoed
  | handled hnow haccepted => exact (readable_handled hparse hnow haccepted).mpr hechoed
  | shuttingDown hnow haccepted =>
      obtain ⟨hid, -, hiff⟩ := accepted_payload hparse haccepted
      refine (readable_iff_fields hid (show Printable (ascii "error") by decide)
        (by decide : Utf8.WellFormed (ascii "server shutting down")) hnow).mpr ?_
      exact ⟨(hiff.mpr hechoed).1, (by decide : Emittable (ascii "server shutting down"))⟩

end

namespace RequestDispatcher

variable {n k : ℕ} {parse : Bytes → Document} {payloads : Fin k → Bytes}

/-! ### Where acknowledgements are -/

/-- The acknowledgement that a call is about to record or publish. -/
def callAck : CallPc → Option MqttAck
  | .recording _ ack | .publishing _ ack => some ack
  | _ => none

def jobAck : JobPc → Option MqttAck
  | .recording ack | .publishing ack => some ack
  | _ => none

/-- An acknowledgement for a payload: on its way, recorded or published. -/
def Holds (d : RequestDispatcher n k) (i : Fin k) (ack : MqttAck) : Prop :=
  callAck (d.calls i) = some ack ∨ jobAck (d.jobs i) = some ack ∨
    ack ∈ (d.acksOf i).map Prod.snd ∨ ack ∈ (d.publishedOf i).map Prod.snd

/-- Every acknowledgement is an answer to its payload. -/
structure Answered (parse : Bytes → Document) (payloads : Fin k → Bytes)
    (d : RequestDispatcher n k) : Prop where
  acks : ∀ i ack, d.Holds i ack → Answer (parseRequest parse (payloads i)) ack
  upserting : ∀ i request, d.jobs i = .upserting →
    (parseRequest parse (payloads i)).request = some request → request.type = .storeDatabaseValue

/-- The clock reads as printable text. -/
def Label.PrintableTime : Label n k → Prop
  | .advance _ now | .work _ now _ => Printable now
  | _ => True

instance (l : Label n k) : Decidable l.PrintableTime :=
  match l with
  | .advance _ now | .work _ now _ => inferInstanceAs (Decidable (Printable now))
  | .stopAccepting | .setStop | .lock _ | .notifyOne _ | .notifyNobody | .notifyAll
  | .wakeSpuriously _ => isTrue trivial

variable {d d' : RequestDispatcher n k} {i i' : Fin k} {ack ack' : MqttAck}

theorem answered_initial : Answered parse payloads (initial n k) where
  acks := by
    intro i ack hack
    simp [Holds, initial, callAck, jobAck, acksOf, publishedOf] at hack
  upserting := by simp [initial]

@[simp] theorem calls_setCall (d : RequestDispatcher n k) (i i' : Fin k) (pc : CallPc) :
    (d.setCall i pc).calls i' = if i' = i then pc else d.calls i' := Function.update_apply ..

@[simp] theorem jobs_setJob (d : RequestDispatcher n k) (i i' : Fin k) (pc : JobPc) :
    (d.setJob i pc).jobs i' = if i' = i then pc else d.jobs i' := Function.update_apply ..

theorem holds_setCall {pc : CallPc} (h : (d.setCall i pc).Holds i' ack) :
    d.Holds i' ack ∨ i' = i ∧ callAck pc = some ack := by
  rw [Holds, calls_setCall] at h
  by_cases heq : i' = i
  · rw [if_pos heq] at h
    exact h.elim (fun hpc => Or.inr ⟨heq, hpc⟩) fun hrest => Or.inl (Or.inr hrest)
  · rw [if_neg heq] at h
    exact Or.inl h

theorem holds_setJob {pc : JobPc} (h : (d.setJob i pc).Holds i' ack) :
    d.Holds i' ack ∨ i' = i ∧ jobAck pc = some ack := by
  rw [Holds, jobs_setJob] at h
  by_cases heq : i' = i
  · rw [if_pos heq] at h
    rcases h with hcall | hpc | hrest
    · exact Or.inl (Or.inl hcall)
    · exact Or.inr ⟨heq, hpc⟩
    · exact Or.inl (Or.inr (Or.inr hrest))
  · rw [if_neg heq] at h
    exact Or.inl h

theorem holds_addAck {byWorker : Bool} (h : (d.addAck i byWorker ack').Holds i' ack) :
    d.Holds i' ack ∨ i' = i ∧ ack = ack' := by
  rcases h with h | h | h | h
  · exact Or.inl (Or.inl h)
  · exact Or.inl (Or.inr (Or.inl h))
  · rw [acksOf_addAck, List.map_append, List.mem_append] at h
    rcases h with h | h
    · exact Or.inl (Or.inr (Or.inr (Or.inl h)))
    · by_cases heq : i = i'
      · rw [if_pos heq] at h
        exact Or.inr ⟨heq.symm, List.mem_singleton.mp h⟩
      · rw [if_neg heq] at h
        cases h
  · exact Or.inl (Or.inr (Or.inr (Or.inr h)))

theorem holds_publish {route : MqttRequest} (h : (d.publish i route ack').Holds i' ack) :
    d.Holds i' ack ∨ i' = i ∧ ack = ack' := by
  rcases h with h | h | h | h
  · exact Or.inl (Or.inl h)
  · exact Or.inl (Or.inr (Or.inl h))
  · exact Or.inl (Or.inr (Or.inr (Or.inl h)))
  · rw [publishedOf_publish, List.map_append, List.mem_append] at h
    rcases h with h | h
    · exact Or.inl (Or.inr (Or.inr (Or.inr h)))
    · by_cases heq : i = i'
      · rw [if_pos heq] at h
        exact Or.inr ⟨heq.symm, List.mem_singleton.mp h⟩
      · rw [if_neg heq] at h
        cases h

/-! ### Every acknowledgement is an answer -/

theorem Answered.setCall (h : Answered parse payloads d) {pc : CallPc}
    (hpc : ∀ ack, callAck pc = some ack → Answer (parseRequest parse (payloads i)) ack) :
    Answered parse payloads (d.setCall i pc) where
  acks := by
    intro i' ack hack
    rcases holds_setCall hack with hack | ⟨rfl, hnew⟩
    · exact h.acks i' ack hack
    · exact hpc ack hnew
  upserting := h.upserting

theorem Answered.setJob (h : Answered parse payloads d) {pc : JobPc}
    (hpc : ∀ ack, jobAck pc = some ack → Answer (parseRequest parse (payloads i)) ack)
    (hupserting : ∀ request, pc = .upserting →
      (parseRequest parse (payloads i)).request = some request →
        request.type = .storeDatabaseValue) :
    Answered parse payloads (d.setJob i pc) where
  acks := by
    intro i' ack hack
    rcases holds_setJob hack with hack | ⟨rfl, hnew⟩
    · exact h.acks i' ack hack
    · exact hpc ack hnew
  upserting := by
    intro i' request hjob
    rw [jobs_setJob] at hjob
    by_cases heq : i' = i
    · rw [if_pos heq] at hjob
      exact heq ▸ hupserting request hjob
    · rw [if_neg heq] at hjob
      exact h.upserting i' request hjob

theorem Answered.addAck (h : Answered parse payloads d) {byWorker : Bool}
    (hack : Answer (parseRequest parse (payloads i)) ack) :
    Answered parse payloads (d.addAck i byWorker ack) where
  acks := by
    intro i' ack' hack'
    rcases holds_addAck hack' with hack' | ⟨rfl, rfl⟩
    · exact h.acks i' ack' hack'
    · exact hack
  upserting := h.upserting

theorem Answered.publish (h : Answered parse payloads d) {route : MqttRequest}
    (hack : Answer (parseRequest parse (payloads i)) ack) :
    Answered parse payloads (d.publish i route ack) where
  acks := by
    intro i' ack' hack'
    rcases holds_publish hack' with hack' | ⟨rfl, rfl⟩
    · exact h.acks i' ack' hack'
    · exact hack
  upserting := h.upserting

/-- Nothing that the invariant reads has changed. -/
theorem Answered.of_records (h : Answered parse payloads d) (hcalls : d'.calls = d.calls)
    (hjobs : d'.jobs = d.jobs) (hacks : d'.acks = d.acks) (hpublished : d'.published = d.published) :
    Answered parse payloads d' where
  acks := by
    intro i ack hack
    rw [Holds, acksOf, publishedOf, hcalls, hjobs, hacks, hpublished] at hack
    exact h.acks i ack hack
  upserting := by
    rw [hjobs]
    exact h.upserting

theorem Answered.prepare (h : Answered parse payloads d) {now : Bytes} (hnow : Printable now)
    {request : MqttRequest} (hrequest : (parseRequest parse (payloads i)).request = some request)
    (stage : Stage) : Answered parse payloads (d.prepare i now request stage) := by
  have hshutting : Answered parse payloads
      (d.setCall i (.recording request (Dispatch.shuttingDown now request))) := by
    refine h.setCall fun ack hack => ?_
    obtain rfl := Option.some.inj hack
    exact .shuttingDown hnow hrequest
  have hpreparing : ∀ stage, Answered parse payloads (d.setCall i (.preparing stage request)) :=
    fun stage => h.setCall (by rintro _ ⟨⟩)
  cases stage with
  | handling | dispatching =>
      rw [RequestDispatcher.prepare]
      split
      · exact hpreparing _
      · exact hshutting
  | noting => exact (hpreparing .enqueueing).of_records rfl rfl rfl rfl
  | enqueueing =>
      rw [RequestDispatcher.prepare]
      split
      · exact hshutting.of_records rfl rfl rfl rfl
      · have hreturned : Answered parse payloads (d.setCall i (.returned true)) := h.setCall (by rintro _ ⟨⟩)
        have hqueued : Answered parse payloads ((d.setCall i (.returned true)).setJob i .queued) :=
          hreturned.setJob (by rintro _ ⟨⟩) (by rintro _ ⟨⟩)
        exact hqueued.of_records rfl rfl rfl rfl

theorem Answered.advance (h : Answered parse payloads d) (htracked : Tracked parse payloads d)
    {now : Bytes} (hnow : Printable now) (hstep : d.advance parse payloads i now = some d') :
    Answered parse payloads d' := by
  have hprogress := htracked.progress i
  unfold RequestDispatcher.advance at hstep
  split at hstep
  · have hreceived : Answered parse payloads { d with received := d.received ++ [payloads i] } :=
      h.of_records rfl rfl rfl rfl
    simp only at hstep
    split at hstep
    · rename_i hrefused
      obtain rfl := Option.some.inj hstep
      refine hreceived.setCall fun ack hack => ?_
      obtain rfl := Option.some.inj hack
      exact .refused hnow hrefused
    · obtain rfl := Option.some.inj hstep
      exact hreceived.setCall nofun
  · rename_i stage request hat
    obtain rfl := Option.some.inj hstep
    rw [hat] at hprogress
    exact h.prepare hnow hprogress.of_preparing.1 stage
  · rename_i route ack hat
    obtain rfl := Option.some.inj hstep
    have hack := h.acks i ack (Or.inl (by rw [hat, callAck]))
    refine (h.addAck hack).setCall fun ack' hack' => ?_
    split at hack'
    · obtain rfl := Option.some.inj hack'
      exact hack
    · cases hack'
  · rename_i route ack hat
    obtain rfl := Option.some.inj hstep
    exact (h.publish (h.acks i ack (Or.inl (by rw [hat, callAck])))).setCall nofun
  · cases hstep

theorem jobAck_executeWorkerRequest {now : Bytes} {fails : Bool} {request : MqttRequest}
    (h : jobAck (executeWorkerRequest now fails request) = some ack) :
    ack = handlerAck now request := by
  unfold executeWorkerRequest at h
  unfold handlerAck
  cases htype : request.type with
  | storeDatabaseValue =>
      rw [htype] at h
      cases fails <;> cases h
  | executeScript | sendToDevice | cmdToDevice | queryAiPrompt =>
      rw [htype] at h
      exact (Option.some.inj h).symm

theorem type_of_executeWorkerRequest {now : Bytes} {fails : Bool} {request : MqttRequest}
    (h : executeWorkerRequest now fails request = .upserting) :
    request.type = .storeDatabaseValue := by
  unfold executeWorkerRequest at h
  cases htype : request.type with
  | storeDatabaseValue => rfl
  | executeScript | sendToDevice | cmdToDevice | queryAiPrompt =>
      rw [htype] at h
      cases h

theorem Answered.work (h : Answered parse payloads d) (htracked : Tracked parse payloads d)
    {w : Fin n} {now : Bytes} {fails : Bool} (hnow : Printable now)
    (hstep : d.work w now fails = some d') : Answered parse payloads d' := by
  unfold RequestDispatcher.work at hstep
  split at hstep
  · rename_i t hw
    have hrequest := (htracked.matched.accepted t (mem_accepted_of_running htracked hw)).2
    have hanswer : Answer (parseRequest parse (payloads t.task.call))
        (handlerAck now t.task.request) := .handled hnow hrequest
    simp only at hstep
    split at hstep
    · obtain rfl := Option.some.inj hstep
      refine h.setJob (fun ack hack => ?_) fun request hjob hrequest' => ?_
      · rwa [jobAck_executeWorkerRequest hack]
      · obtain rfl := Option.some.inj (hrequest.symm.trans hrequest')
        exact type_of_executeWorkerRequest hjob
    · rename_i hat
      split at hstep
      · obtain rfl := Option.some.inj hstep
        exact h.setJob (by rintro _ ⟨⟩) (by rintro _ ⟨⟩)
      · obtain rfl := Option.some.inj hstep
        have htype := h.upserting _ _ hat hrequest
        have hstored : Answered parse payloads
            (d.setJob t.task.call (.recording (storeDatabaseValue now t.task.request))) := by
          refine h.setJob (fun ack hack => ?_) (by rintro _ ⟨⟩)
          obtain rfl := Option.some.inj hack
          rwa [handlerAck, htype] at hanswer
        exact hstored.of_records rfl rfl rfl rfl
    · rename_i ack hat
      obtain rfl := Option.some.inj hstep
      have hack := h.acks t.task.call ack (Or.inr (Or.inl (by rw [hat, jobAck])))
      refine (h.addAck hack).setJob (fun ack' hack' => ?_) fun request hjob => ?_
      · split at hack'
        · obtain rfl := Option.some.inj hack'
          exact hack
        · cases hack'
      · split at hjob <;> cases hjob
    · rename_i ack hat
      obtain rfl := Option.some.inj hstep
      exact (h.publish (h.acks t.task.call ack (Or.inr (Or.inl (by rw [hat, jobAck]))))).setJob
        (by rintro _ ⟨⟩) (by rintro _ ⟨⟩)
    · obtain ⟨pool, _, rfl⟩ := Option.map_eq_some_iff.mp hstep
      exact h.of_records rfl rfl rfl rfl
    · cases hstep
    · cases hstep
  · cases hstep

theorem Answered.step (h : Answered parse payloads d) (htracked : Tracked parse payloads d)
    {l : Label n k} (htime : l.PrintableTime) (hstep : d.step parse payloads l = some d') :
    Answered parse payloads d' := by
  cases l with
  | advance i now => exact h.advance htracked htime hstep
  | work w now fails => exact h.work htracked htime hstep
  | stopAccepting =>
      obtain rfl := Option.some.inj hstep
      exact h.of_records rfl rfl rfl rfl
  | lock w =>
      obtain ⟨pool, _, rfl⟩ := Option.map_eq_some_iff.mp hstep
      refine Answered.of_records (d := d.startJob) ?_ rfl rfl rfl rfl
      unfold startJob
      split
      · exact h
      · exact h.setJob (by rintro _ ⟨⟩) (by rintro _ ⟨⟩)
  | setStop | notifyOne | notifyNobody | notifyAll | wakeSpuriously =>
      obtain ⟨pool, _, rfl⟩ := poolStep_eq_some.mp hstep
      exact h.of_records rfl rfl rfl rfl

theorem answered_of_exec {ls : List (Label n k)} (htime : ∀ l ∈ ls, l.PrintableTime)
    (hrun : (machine n k parse payloads).exec (initial n k) ls = some d) :
    Answered parse payloads d :=
  (Machine.invariant_of_meets (C := fun _ l => l.PrintableTime)
    (fun d => Tracked parse payloads d ∧ Answered parse payloads d)
    (fun _ _ _ hd htime hstep => ⟨hd.1.step hstep, hd.2.step hd.1 htime hstep⟩)
    (Machine.meets_of_forall fun l hl _ => htime l hl) hrun
    ⟨tracked_initial, answered_initial⟩).2

/-! ### What is echoed does come out -/

theorem exec_refused (hrefused : (parseRequest parse (payloads i)).request = none) :
    ∃ d, (machine n k parse payloads).exec (initial n k) [.advance i [], .advance i []] = some d ∧
      makeAck [] (parseRequest parse (payloads i)).requestId (ascii "error")
        (parseRequest parse (payloads i)).error ∈ (d.acksOf i).map Prod.snd := by
  simp [machine, RequestDispatcher.step, RequestDispatcher.advance, initial, hrefused,
    RequestDispatcher.setCall, acksOf, RequestDispatcher.addAck]

/-- The call hands the request over, and a worker starts on it. -/
def startingRun (w : Fin n) (i : Fin k) : List (Label n k) :=
  [.advance i [], .advance i [], .advance i [], .advance i [], .advance i [], .lock w]

theorem exec_handled (w : Fin n) {request : MqttRequest}
    (hrequest : (parseRequest parse (payloads i)).request = some request) :
    ∃ work d, (∀ l ∈ work, l.PrintableTime) ∧
      (machine n k parse payloads).exec (initial n k) (startingRun w i ++ work) = some d ∧
      handlerAck [] request ∈ (d.acksOf i).map Prod.snd := by
  have htime : Printable [] := by decide
  by_cases htype : request.type = .storeDatabaseValue
  · refine ⟨[.work w [] false, .work w [] false, .work w [] false], ?_⟩
    have hjob : executeWorkerRequest [] false request = .upserting := by
      rw [executeWorkerRequest, htype]
      rfl
    have hack : handlerAck [] request = storeDatabaseValue [] request := by
      rw [handlerAck, htype]
    simp [machine, startingRun, Label.PrintableTime, htime, RequestDispatcher.step,
      RequestDispatcher.advance, initial, hrequest, RequestDispatcher.setCall, acksOf,
      RequestDispatcher.addAck, RequestDispatcher.prepare, ThreadPoolManager.initial,
      ThreadPoolManager.enqueue, ThreadPoolManager.nextTicket, ThreadPoolManager.step,
      ThreadPoolManager.lock, ThreadPoolManager.setWorker, allow, ThreadPoolManager.isReady,
      startJob, RequestDispatcher.setJob, RequestDispatcher.work, hjob, hack]
  · refine ⟨[.work w [] false, .work w [] false], ?_⟩
    have hjob : executeWorkerRequest [] false request = .recording (handlerAck [] request) := by
      unfold executeWorkerRequest handlerAck
      split <;> simp_all
    simp [machine, startingRun, Label.PrintableTime, htime, RequestDispatcher.step,
      RequestDispatcher.advance, initial, hrequest, RequestDispatcher.setCall, acksOf,
      RequestDispatcher.addAck, RequestDispatcher.prepare, ThreadPoolManager.initial,
      ThreadPoolManager.enqueue, ThreadPoolManager.nextTicket, ThreadPoolManager.step,
      ThreadPoolManager.lock, ThreadPoolManager.setWorker, allow, ThreadPoolManager.isReady,
      startJob, RequestDispatcher.setJob, RequestDispatcher.work, hjob]

/-- Whatever is recorded or published for the payload, in any run, can be read. -/
def AcksReadable (n : ℕ) {k : ℕ} (parse : Bytes → Document) (payloads : Fin k → Bytes)
    (i : Fin k) : Prop :=
  ∀ (ls : List (Label n k)) (d : RequestDispatcher n k), (∀ l ∈ ls, l.PrintableTime) →
    (machine n k parse payloads).exec (initial n k) ls = some d →
    ∀ ack ∈ (d.acksOf i).map Prod.snd ++ (d.publishedOf i).map Prod.snd, Readable ack

/-- Every acknowledgement for a payload can be read exactly when no string it echoes
has a control character outside the escaping table. -/
theorem acksReadable_iff (hparse : StrictParser parse) (hn : 0 < n) :
    AcksReadable n parse payloads i ↔ ∀ s ∈ echoed parse (payloads i), Emittable s := by
  have htime : Printable [] := by decide
  constructor
  · intro hreadable
    cases hrequest : (parseRequest parse (payloads i)).request with
    | none =>
        obtain ⟨d, hrun, hack⟩ := exec_refused (n := n) hrequest
        refine (readable_refused hparse htime hrequest).mp ?_
        exact hreadable _ d (by simp [Label.PrintableTime, htime]) hrun _
          (List.mem_append_left _ hack)
    | some request =>
        obtain ⟨work, d, hwork, hrun, hack⟩ := exec_handled (n := n) ⟨0, hn⟩ hrequest
        refine (readable_handled hparse htime hrequest).mp ?_
        refine hreadable _ d (List.forall_mem_append.mpr ⟨?_, hwork⟩) hrun _
          (List.mem_append_left _ hack)
        simp [startingRun, Label.PrintableTime, htime]
  · intro hechoed ls d htime hrun ack hack
    have hanswered := answered_of_exec htime hrun
    refine (hanswered.acks i ack (Or.inr (Or.inr ?_))).readable hparse hechoed
    exact List.mem_append.mp hack

theorem acksReadable_storePayload : AcksReadable 1 lastMemberParser storePayload 0 :=
  (acksReadable_iff strictParser_lastMemberParser Nat.one_pos).mpr (by decide +kernel)

/-- A payload whose id is an escaped control character. -/
def controlPayload (_ : Fin 1) : Bytes := ascii "\x7b\"id\":\"\\u0001\"\x7d"

/-- The id is decoded, and written into the acknowledgement as it is. -/
theorem not_acksReadable_controlPayload :
    StrictParser lastMemberParser ∧ ¬AcksReadable 1 lastMemberParser controlPayload 0 := by
  refine ⟨strictParser_lastMemberParser, fun hreadable => ?_⟩
  have hrefused : (parseRequest lastMemberParser (controlPayload 0)).request = none := by
    decide +kernel
  have htime : Printable [] := by decide
  obtain ⟨d, hrun, hack⟩ := exec_refused (n := 1) hrefused
  have hread := hreadable _ d (by simp [Label.PrintableTime, htime]) hrun _
    (List.mem_append_left _ hack)
  have hechoed := (readable_refused strictParser_lastMemberParser htime hrefused).mp hread
  have hid : [1] ∈ echoed lastMemberParser (controlPayload 0) := by decide +kernel
  exact absurd (hechoed [1] hid) (by decide)

end RequestDispatcher

end Watchlist.Dispatch
