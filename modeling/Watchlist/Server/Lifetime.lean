import Watchlist.Dispatch.AcceptanceOrder

/-!
How long the pool and the dispatcher of `Server::Run` live. On its normal way `Run` stops
accepting, unsubscribes, waits for the broker, destroys the pool, which joins the workers,
and then the dispatcher. An exception in the block destroys the local variables instead, the
dispatcher before the pool, whose destructor still lets the workers run what is queued.
Beside `Run` are the workers; the MQTT thread, which subscribes; and the callbacks of
messages, which copy the handler and with it the dispatcher's address.

On the normal way the jobs of the workers are over when the dispatcher is destroyed; after an
exception they need not be, and a callback may come later in both cases. What a job or a
callback then uses is gone, and a flag is set; nothing is said of what it does.
-/

namespace Watchlist.Server

open Bytes Transition Concurrency Messaging Dispatch

/-- Where `Run` is, after it has started the MQTT thread. -/
inductive RunPc
  | serving
  /-- after `StopAccepting` -/
  | refusing
  | unsubscribed
  /-- the pool is the next to be destroyed -/
  | waited
  /-- in the destructor of the pool, after `stop_` has been set -/
  | stopped
  | joining
  | poolGone
  /-- after the block -/
  | left
  deriving DecidableEq

/-- What has become of a message on the topic of the requests. -/
inductive Arrival
  | notArrived
  /-- `message_arrived` has copied the handler -/
  | handled
  | unhandled
  deriving DecidableEq

structure ServerRun (n k : ℕ) where
  dispatcher : RequestDispatcher n k
  pc : RunPc
  /-- an exception has left the block -/
  threw : Bool
  /-- the MQTT thread has called `Subscribe` -/
  subscribeCalled : Bool
  /-- the handler is in `subscriptions_` -/
  subscribed : Bool
  arrivals : Fin k → Arrival
  /-- the pool has been used after its destruction -/
  poolUsedLate : Bool
  /-- the dispatcher has been used after its destruction -/
  dispatcherUsedLate : Bool

inductive Part
  | pool
  | dispatcher
  deriving DecidableEq

namespace ServerRun

variable {n k : ℕ} {parse : Bytes → Document} {payloads : Fin k → Bytes}

def initial (n k : ℕ) : ServerRun n k where
  dispatcher := .initial n k
  pc := .serving
  threw := false
  subscribeCalled := false
  subscribed := false
  arrivals := fun _ => .notArrived
  poolUsedLate := false
  dispatcherUsedLate := false

inductive Label (n k : ℕ)
  /-- the next step of `Run` -/
  | run
  /-- something in the block throws, and the dispatcher is destroyed -/
  | throws
  | subscribe
  /-- `message_arrived` with mutex_ locked -/
  | arrive (i : Fin k)
  /-- the next step of the handler -/
  | callback (i : Fin k) (now : Bytes)
  | work (w : Fin n) (now : Bytes) (fails : Bool)
  | lock (w : Fin n)
  | wakeSpuriously (w : Fin n)
  /-- the `notify_one` that ends an `enqueue` of a callback -/
  | notifyOne (w : Fin n)
  | notifyNobody

def hasReturned : CallPc → Bool
  | .returned _ => true
  | _ => false

def isEnqueueing : CallPc → Bool
  | .preparing .enqueueing _ => true
  | _ => false

def hasExited {τ : Type*} : WorkerPc τ → Bool
  | .exited => true
  | _ => false

/-- The job has been accepted and is not over. -/
def isUnfinished : JobPc → Bool
  | .absent | .ended _ => false
  | _ => true

/-- The next step of the job is one of the dispatcher's own functions. -/
def usesDispatcher : JobPc → Bool
  | .executing | .recording _ | .publishing _ => true
  | _ => false

def poolDestroyed : RunPc → Bool
  | .poolGone | .left => true
  | _ => false

/-- The dispatcher is destroyed after the pool, or by an exception. -/
def dispatcherDestroyed (s : ServerRun n k) : Bool := s.threw || s.pc = .left

/-- What the next step of the handler uses, if it has been destroyed. -/
def goneForCallback (s : ServerRun n k) (i : Fin k) : Option Part :=
  if s.dispatcherDestroyed then some .dispatcher
  else if poolDestroyed s.pc ∧ isEnqueueing (s.dispatcher.calls i) = true then some .pool
  else none

/-- What the next step in a worker's job uses, if it has been destroyed. -/
def goneForJob (s : ServerRun n k) (w : Fin n) : Option Part :=
  if poolDestroyed s.pc then some .pool
  else
    match s.dispatcher.pool.workers w with
    | .running t =>
        if s.dispatcherDestroyed ∧ usesDispatcher (s.dispatcher.jobs t.task.call) = true then
          some .dispatcher
        else none
    | _ => none

def goneForPool (s : ServerRun n k) : Option Part :=
  if poolDestroyed s.pc then some .pool else none

def useLate (s : ServerRun n k) : Part → ServerRun n k
  | .pool => { s with poolUsedLate := true }
  | .dispatcher => { s with dispatcherUsedLate := true }

/-- A step of the dispatcher, or a use of what is gone. -/
def use (s : ServerRun n k) (gone : Option Part) (next : Option (RequestDispatcher n k)) :
    Option (ServerRun n k) :=
  next.map fun d =>
    match gone with
    | none => { s with dispatcher := d }
    | some part => s.useLate part

/-- The next step of `Run`. -/
def advance (parse : Bytes → Document) (payloads : Fin k → Bytes) (s : ServerRun n k) :
    Option (ServerRun n k) :=
  match s.pc with
  | .serving => (s.dispatcher.step parse payloads .stopAccepting).map fun d =>
      { s with dispatcher := d, pc := .refusing }
  | .refusing => some { s with subscribed := false, pc := .unsubscribed }
  | .unsubscribed => some { s with pc := .waited }
  | .waited => (s.dispatcher.step parse payloads .setStop).map fun d =>
      { s with dispatcher := d, pc := .stopped }
  | .stopped => (s.dispatcher.step parse payloads .notifyAll).map fun d =>
      { s with dispatcher := d, pc := .joining }
  | .joining =>
      allow (∀ w, hasExited (s.dispatcher.pool.workers w) = true) { s with pc := .poolGone }
  | .poolGone => some { s with pc := .left }
  | .left => none

/-- Before the destruction of the pool, which throws nothing. -/
def mayThrow : RunPc → Bool
  | .serving | .refusing | .unsubscribed | .waited => true
  | _ => false

def step (parse : Bytes → Document) (payloads : Fin k → Bytes) (s : ServerRun n k) :
    Label n k → Option (ServerRun n k)
  | .run => s.advance parse payloads
  | .throws =>
      -- `storage` and the dispatcher are destroyed, and the pool is next
      allow (mayThrow s.pc = true ∧ s.threw = false) { s with threw := true, pc := .waited }
  | .subscribe =>
      allow (s.subscribeCalled = false) { s with subscribeCalled := true, subscribed := true }
  | .arrive i => allow (s.arrivals i = .notArrived) { s with
      arrivals := Function.update s.arrivals i (if s.subscribed then .handled else .unhandled) }
  | .callback i now =>
      if s.arrivals i = .handled then
        s.use (s.goneForCallback i) (s.dispatcher.step parse payloads (.advance i now))
      else none
  | .work w now fails =>
      s.use (s.goneForJob w) (s.dispatcher.step parse payloads (.work w now fails))
  | .lock w => s.use s.goneForPool (s.dispatcher.step parse payloads (.lock w))
  | .wakeSpuriously w =>
      s.use s.goneForPool (s.dispatcher.step parse payloads (.wakeSpuriously w))
  | .notifyOne w => s.use s.goneForPool (s.dispatcher.step parse payloads (.notifyOne w))
  | .notifyNobody => s.use s.goneForPool (s.dispatcher.step parse payloads .notifyNobody)

def machine (n k : ℕ) (parse : Bytes → Document) (payloads : Fin k → Bytes) :
    Machine (ServerRun n k) (Label n k) :=
  ⟨step parse payloads⟩

variable {s t : ServerRun n k} {l : Label n k}

/-! ### What a step can do -/

/-- The steps of `Run` on the dispatcher and the pool. -/
def ofRun : RequestDispatcher.Label n k → Bool
  | .stopAccepting | .setStop | .notifyAll => true
  | _ => false

/-- The steps of the workers, and the notifications of the callbacks. -/
def ofPool : RequestDispatcher.Label n k → Bool
  | .work .. | .lock _ | .wakeSpuriously _ | .notifyOne _ | .notifyNobody => true
  | _ => false

/-- The ways a step can come out. -/
inductive Does (parse : Bytes → Document) (payloads : Fin k → Bytes) (s : ServerRun n k) :
    Label n k → ServerRun n k → Prop
  /-- `Run` goes on, and the dispatcher with it -/
  | goOn {pc : RunPc} {l : RequestDispatcher.Label n k} {d : RequestDispatcher n k}
      (hnow : poolDestroyed s.pc = false) (hnext : poolDestroyed pc = false) (hl : ofRun l = true)
      (hstep : s.dispatcher.step parse payloads l = some d) :
      Does parse payloads s .run { s with dispatcher := d, pc := pc }
  | wait {pc : RunPc} {subscribed : Bool} (hnow : poolDestroyed s.pc = false)
      (hnext : poolDestroyed pc = false) (hsubscribed : subscribed = true → s.subscribed = true) :
      Does parse payloads s .run { s with subscribed := subscribed, pc := pc }
  | join (hnow : poolDestroyed s.pc = false) (hexited : ∀ w, s.dispatcher.pool.workers w = .exited) :
      Does parse payloads s .run { s with pc := .poolGone }
  | leave (hnow : s.pc = .poolGone) : Does parse payloads s .run { s with pc := .left }
  | throws (hnow : poolDestroyed s.pc = false) (hfirst : s.threw = false) :
      Does parse payloads s .throws { s with threw := true, pc := .waited }
  | subscribe (hfirst : s.subscribeCalled = false) :
      Does parse payloads s .subscribe { s with subscribeCalled := true, subscribed := true }
  | arrive {i : Fin k} (hnew : s.arrivals i = .notArrived) :
      Does parse payloads s (.arrive i) { s with
        arrivals := Function.update s.arrivals i (if s.subscribed then .handled else .unhandled) }
  | callback {i : Fin k} {now : Bytes} {d : RequestDispatcher n k} (hhandled : s.arrivals i = .handled)
      (hthere : s.goneForCallback i = none)
      (hstep : s.dispatcher.advance parse payloads i now = some d) :
      Does parse payloads s (.callback i now) { s with dispatcher := d }
  | lateCallback {i : Fin k} {now : Bytes} {d : RequestDispatcher n k} {part : Part}
      (hhandled : s.arrivals i = .handled) (hgone : s.goneForCallback i = some part)
      (hstep : s.dispatcher.advance parse payloads i now = some d) :
      Does parse payloads s (.callback i now) (s.useLate part)
  | pool {l : Label n k} {l' : RequestDispatcher.Label n k} {d : RequestDispatcher n k}
      (hnow : poolDestroyed s.pc = false) (hl' : ofPool l' = true)
      (hthere : ∀ w now fails, l' = .work w now fails → s.goneForJob w = none)
      (hstep : s.dispatcher.step parse payloads l' = some d) :
      Does parse payloads s l { s with dispatcher := d }
  | lateJob {l : Label n k} {w : Fin n} (hnow : poolDestroyed s.pc = false)
      (hgone : s.goneForJob w = some .dispatcher) : Does parse payloads s l (s.useLate .dispatcher)
  | latePool {l : Label n k} {l' : RequestDispatcher.Label n k} {d : RequestDispatcher n k}
      (hgone : poolDestroyed s.pc = true) (hl' : ofPool l' = true)
      (hstep : s.dispatcher.step parse payloads l' = some d) :
      Does parse payloads s l (s.useLate .pool)

theorem goneForJob_eq_some {w : Fin n} {part : Part} (h : s.goneForJob w = some part) :
    poolDestroyed s.pc = true ∧ part = .pool ∨
      poolDestroyed s.pc = false ∧ part = .dispatcher ∧ s.dispatcherDestroyed = true ∧
        ∃ t, s.dispatcher.pool.workers w = .running t ∧
          usesDispatcher (s.dispatcher.jobs t.task.call) = true := by
  unfold goneForJob at h
  split at h
  · rename_i hgone
    exact Or.inl ⟨hgone, (Option.some.inj h).symm⟩
  · rename_i hthere
    split at h
    · rename_i t hw
      split at h
      · rename_i huses
        exact Or.inr ⟨Bool.eq_false_of_not_eq_true hthere, (Option.some.inj h).symm, huses.1, t, hw,
          huses.2⟩
      · cases h
    · cases h

theorem goneForCallback_eq_some {i : Fin k} {part : Part} (h : s.goneForCallback i = some part) :
    s.dispatcherDestroyed = true ∧ part = .dispatcher ∨
      s.dispatcherDestroyed = false ∧ poolDestroyed s.pc = true ∧ part = .pool := by
  unfold goneForCallback at h
  split at h
  · rename_i hgone
    exact Or.inl ⟨hgone, (Option.some.inj h).symm⟩
  · rename_i hthere
    split at h
    · rename_i hpool
      exact Or.inr ⟨Bool.eq_false_of_not_eq_true hthere, hpool.1, (Option.some.inj h).symm⟩
    · cases h

theorem does_usePool {l' : RequestDispatcher.Label n k} (hl' : ofPool l' = true)
    (hjob : ∀ w now fails, l' ≠ .work w now fails)
    (h : s.use s.goneForPool (s.dispatcher.step parse payloads l') = some t) :
    Does parse payloads s l t := by
  obtain ⟨d, hstep, rfl⟩ := Option.map_eq_some_iff.mp h
  unfold goneForPool
  cases hgone : poolDestroyed s.pc with
  | true => exact .latePool hgone hl' hstep
  | false => exact .pool hgone hl' (fun w now fails heq => absurd heq (hjob w now fails)) hstep

theorem does_work {w : Fin n} {now : Bytes} {fails : Bool}
    (h : s.use (s.goneForJob w) (s.dispatcher.step parse payloads (.work w now fails)) = some t) :
    Does parse payloads s l t := by
  obtain ⟨d, hstep, rfl⟩ := Option.map_eq_some_iff.mp h
  cases hgone : s.goneForJob w with
  | none =>
      have hnow : poolDestroyed s.pc = false := by
        by_contra hdestroyed
        unfold goneForJob at hgone
        rw [if_pos (Bool.eq_true_of_not_eq_false hdestroyed)] at hgone
        cases hgone
      refine .pool hnow rfl (fun w' now' fails' heq => ?_) hstep
      rw [← (RequestDispatcher.Label.work.inj heq).1]
      exact hgone
  | some part =>
      rcases goneForJob_eq_some hgone with ⟨hdestroyed, rfl⟩ | ⟨hnow, rfl, -⟩
      · exact .latePool hdestroyed rfl hstep
      · exact .lateJob hnow hgone

theorem does_advance (h : s.advance parse payloads = some t) : Does parse payloads s .run t := by
  have hgoOn {pc : RunPc} {l' : RequestDispatcher.Label n k} (hl' : ofRun l' = true)
      (hnow : poolDestroyed s.pc = false) (hnext : poolDestroyed pc = false)
      (h : (s.dispatcher.step parse payloads l').map (fun d =>
        ({ s with dispatcher := d, pc := pc } : ServerRun n k)) = some t) :
      Does parse payloads s .run t := by
    obtain ⟨d, hstep, rfl⟩ := Option.map_eq_some_iff.mp h
    exact .goOn hnow hnext hl' hstep
  unfold advance at h
  split at h <;> rename_i hpc
  · exact hgoOn rfl (by rw [hpc]; rfl) rfl h
  · obtain rfl := Option.some.inj h
    exact .wait (by rw [hpc]; rfl) rfl nofun
  · obtain rfl := Option.some.inj h
    exact .wait (by rw [hpc]; rfl) rfl id
  · exact hgoOn rfl (by rw [hpc]; rfl) rfl h
  · exact hgoOn rfl (by rw [hpc]; rfl) rfl h
  · obtain ⟨hexited, rfl⟩ := allow_eq_some.mp h
    refine .join (by rw [hpc]; rfl) fun w => ?_
    have hw := hexited w
    unfold hasExited at hw
    split at hw
    · assumption
    · cases hw
  · obtain rfl := Option.some.inj h
    exact .leave hpc
  · cases h

theorem does_of_step (h : s.step parse payloads l = some t) : Does parse payloads s l t := by
  cases l with
  | run => exact does_advance h
  | throws =>
      obtain ⟨⟨hmay, hfirst⟩, rfl⟩ := allow_eq_some.mp h
      refine .throws ?_ hfirst
      cases hpc : s.pc <;> first | rfl | (rw [hpc] at hmay; cases hmay)
  | subscribe =>
      obtain ⟨hfirst, rfl⟩ := allow_eq_some.mp h
      exact .subscribe hfirst
  | arrive i =>
      obtain ⟨hnew, rfl⟩ := allow_eq_some.mp h
      exact .arrive hnew
  | callback i now =>
      simp only [step] at h
      split at h
      · rename_i hhandled
        obtain ⟨d, hstep, rfl⟩ := Option.map_eq_some_iff.mp h
        cases hgone : s.goneForCallback i with
        | some part => exact .lateCallback hhandled hgone hstep
        | none => exact .callback hhandled hgone hstep
      · cases h
  | work w now fails => exact does_work h
  | lock w | wakeSpuriously w | notifyOne w | notifyNobody =>
      exact does_usePool rfl (by rintro w now fails ⟨⟩) h

/-! ### The jobs -/

/-- A handler that does not enqueue leaves the pool alone. -/
theorem pool_advance {d d' : RequestDispatcher n k} {i : Fin k} {now : Bytes}
    (hcall : isEnqueueing (d.calls i) = false) (h : d.advance parse payloads i now = some d') :
    d'.pool = d.pool := by
  unfold RequestDispatcher.advance at h
  split at h
  · simp only at h
    split at h <;> (obtain rfl := Option.some.inj h; rfl)
  · rename_i stage request hat
    obtain rfl := Option.some.inj h
    cases stage with
    | enqueueing => rw [hat] at hcall; cases hcall
    | handling | dispatching => rw [RequestDispatcher.prepare]; split <;> rfl
    | noting => rfl
  · obtain rfl := Option.some.inj h
    rfl
  · obtain rfl := Option.some.inj h
    rfl
  · cases h

/-- A call is stepped by its callback only. -/
theorem calls_advance {d d' : RequestDispatcher n k} {i j : Fin k} {now : Bytes} (hji : j ≠ i)
    (h : d.advance parse payloads i now = some d') : d'.calls j = d.calls j :=
  (RequestDispatcher.advance_cases h).1 j hji

/-- `Run` touches neither a call nor a job. -/
theorem frame_ofRun {d d' : RequestDispatcher n k} {l : RequestDispatcher.Label n k}
    (hl : ofRun l = true) (h : d.step parse payloads l = some d') :
    d'.calls = d.calls ∧ d'.jobs = d.jobs := by
  cases l with
  | stopAccepting =>
      obtain rfl := Option.some.inj h
      exact ⟨rfl, rfl⟩
  | setStop | notifyAll =>
      obtain ⟨pool, -, rfl⟩ := RequestDispatcher.poolStep_eq_some.mp h
      exact ⟨rfl, rfl⟩
  | advance | work | lock | notifyOne | notifyNobody | wakeSpuriously => cases hl

theorem calls_ofPool {d d' : RequestDispatcher n k} {l : RequestDispatcher.Label n k}
    (hl : ofPool l = true) (h : d.step parse payloads l = some d') : d'.calls = d.calls := by
  refine (RequestDispatcher.step_frame h ?_).1
  rintro i now rfl
  cases hl

/-- When no job is waiting or running, the workers have none to work on. -/
theorem jobs_ofPool {d d' : RequestDispatcher n k} {l : RequestDispatcher.Label n k}
    (htracked : RequestDispatcher.Tracked parse payloads d)
    (hover : ∀ i, isUnfinished (d.jobs i) = false) (hl : ofPool l = true)
    (h : d.step parse payloads l = some d') : d'.jobs = d.jobs := by
  cases l with
  | work w now fails =>
      cases hw : d.pool.workers w with
      | ready | asleep | exited => simp [RequestDispatcher.step, RequestDispatcher.work, hw] at h
      | running t =>
          have hjob := hover t.task.call
          simp only [RequestDispatcher.step, RequestDispatcher.work, hw] at h
          cases hat : d.jobs t.task.call with
          | absent => simp [hat] at h
          | ended threw =>
              simp only [hat] at h
              obtain ⟨pool, -, rfl⟩ := Option.map_eq_some_iff.mp h
              rfl
          | queued | executing | upserting | recording | publishing =>
              rw [hat] at hjob
              cases hjob
  | lock w =>
      obtain ⟨pool, -, rfl⟩ := Option.map_eq_some_iff.mp h
      have hempty : d.pool.tasks = [] := by
        refine List.eq_nil_iff_forall_not_mem.mpr fun t ht => ?_
        have hjob := hover t.task.call
        rw [htracked.matched.queued t ht] at hjob
        cases hjob
      simp only [RequestDispatcher.startJob, hempty]
  | wakeSpuriously | notifyOne | notifyNobody =>
      obtain ⟨pool, -, rfl⟩ := RequestDispatcher.poolStep_eq_some.mp h
      rfl
  | advance | stopAccepting | setStop | notifyAll => cases hl

/-- What holds of the server in every state. -/
structure Lasting (parse : Bytes → Document) (payloads : Fin k → Bytes) (s : ServerRun n k) :
    Prop where
  tracked : RequestDispatcher.Tracked parse payloads s.dispatcher
  exited : poolDestroyed s.pc = true → ∀ w, s.dispatcher.pool.workers w = .exited
  poolUnused : poolDestroyed s.pc = false → s.poolUsedLate = false
  dispatcherUnused : s.dispatcherDestroyed = false → s.dispatcherUsedLate = false
  /-- the handler is called by the callbacks that have copied it -/
  uncalled : ∀ i, s.arrivals i ≠ .handled → s.dispatcher.calls i = .notCalled

/-- While the pool is there, only an exception can have destroyed the dispatcher. -/
theorem dispatcherDestroyed_eq (h : poolDestroyed s.pc = false) : s.dispatcherDestroyed = s.threw := by
  unfold dispatcherDestroyed
  cases hpc : s.pc with
  | left =>
      rw [hpc] at h
      cases h
  | _ => exact Bool.or_false _

theorem Lasting.does (h : Lasting parse payloads s) (hdoes : Does parse payloads s l t) :
    Lasting parse payloads t := by
  have hnever {pc : RunPc} {p : Prop} (hnow : poolDestroyed pc = false)
      (hgone : poolDestroyed pc = true) : p := by
    rw [hnow] at hgone
    cases hgone
  have hthrew {pc : RunPc} (hnow : poolDestroyed s.pc = false) (hthere : (s.threw || decide (pc = .left)) = false) :
      s.dispatcherUsedLate = false := by
    refine h.dispatcherUnused ((dispatcherDestroyed_eq hnow).trans ?_)
    exact (Bool.or_eq_false_iff.mp hthere).1
  cases hdoes with
  | goOn hnow hnext hl hstep =>
      exact ⟨h.tracked.step hstep, hnever hnext, fun _ => h.poolUnused hnow, hthrew hnow,
        fun i hi => (congrFun (frame_ofRun hl hstep).1 i).trans (h.uncalled i hi)⟩
  | wait hnow hnext =>
      exact ⟨h.tracked, hnever hnext, fun _ => h.poolUnused hnow, hthrew hnow, h.uncalled⟩
  | join hnow hexited =>
      exact ⟨h.tracked, fun _ => hexited, fun hpc => hnever hpc rfl, hthrew hnow, h.uncalled⟩
  | leave hnow =>
      refine ⟨h.tracked, fun _ => h.exited (by rw [hnow]; rfl), fun hpc => hnever hpc rfl, ?_,
        h.uncalled⟩
      intro hthere
      cases (Bool.or_eq_false_iff.mp hthere).2
  | throws hnow hfirst =>
      refine ⟨h.tracked, (by rintro ⟨⟩), fun _ => h.poolUnused hnow, ?_, h.uncalled⟩
      intro hthere
      cases (Bool.or_eq_false_iff.mp hthere).1
  | subscribe => exact ⟨h.tracked, h.exited, h.poolUnused, h.dispatcherUnused, h.uncalled⟩
  | @arrive i hnew =>
      refine ⟨h.tracked, h.exited, h.poolUnused, h.dispatcherUnused, fun j hj => ?_⟩
      by_cases hji : j = i
      · rw [hji]
        exact h.uncalled i (by rw [hnew]; rintro ⟨⟩)
      · exact h.uncalled j fun heq => hj ((Function.update_of_ne hji ..).trans heq)
  | @callback i now d hhandled hthere hstep =>
      refine ⟨h.tracked.advance hstep, fun hpc w => ?_, h.poolUnused, h.dispatcherUnused,
        fun j hj => ?_⟩
      · have hcall : isEnqueueing (s.dispatcher.calls i) = false := by
          unfold goneForCallback at hthere
          split at hthere
          · cases hthere
          · split at hthere
            · cases hthere
            · rename_i hneither
              exact Bool.eq_false_of_not_eq_true fun hcall => hneither ⟨hpc, hcall⟩
        rw [show d.pool = s.dispatcher.pool from pool_advance hcall hstep]
        exact h.exited hpc w
      · have hji : j ≠ i := by
          rintro rfl
          exact hj hhandled
        exact (calls_advance hji hstep).trans (h.uncalled j hj)
  | @lateCallback i now d part hhandled hgone hstep =>
      rcases goneForCallback_eq_some hgone with ⟨hdestroyed, rfl⟩ | ⟨hthere, hpool, rfl⟩
      · refine ⟨h.tracked, h.exited, h.poolUnused, fun hthere => ?_, h.uncalled⟩
        exact absurd hthere (ne_false_of_eq_true hdestroyed)
      · exact ⟨h.tracked, h.exited, fun hpc => hnever hpc hpool, h.dispatcherUnused, h.uncalled⟩
  | pool hnow hl' hthere hstep =>
      exact ⟨h.tracked.step hstep, fun hpc => hnever hnow hpc, h.poolUnused, h.dispatcherUnused,
        fun i hi => (congrFun (calls_ofPool hl' hstep) i).trans (h.uncalled i hi)⟩
  | lateJob hnow hgone =>
      rcases goneForJob_eq_some hgone with ⟨-, ⟨⟩⟩ | ⟨-, -, hdestroyed, -⟩
      refine ⟨h.tracked, h.exited, h.poolUnused, fun hthere => ?_, h.uncalled⟩
      exact absurd hthere (ne_false_of_eq_true hdestroyed)
  | latePool hgone hl' hstep =>
      exact ⟨h.tracked, h.exited, fun hpc => hnever hpc hgone, h.dispatcherUnused, h.uncalled⟩

/-- When all workers have left, an accepted request has been answered, unless its job threw. -/
theorem Lasting.jobs_over (h : Lasting parse payloads s) (hn : 0 < n)
    (hgone : poolDestroyed s.pc = true) {i : Fin k}
    (haccepted : s.dispatcher.calls i = .returned true) :
    s.dispatcher.jobs i = .ended true ∨ s.dispatcher.jobs i = .ended false ∧
      ∃ route ack, RequestDispatcher.Routed (parseRequest parse (payloads i)) route ack ∧
        s.dispatcher.acksOf i = [(true, ack)] ∧
        s.dispatcher.publishedOf i =
          RequestDispatcher.publications (parseRequest parse (payloads i)) route ack := by
  have hended : ∃ threw, s.dispatcher.jobs i = .ended threw := by
    obtain ⟨t, ht, rfl⟩ := h.tracked.matched.returned i haccepted
    obtain ⟨f, hf, rfl⟩ := List.mem_map.mp
      ((h.tracked.pool.drained hn (h.exited hgone)).2.mem_iff.mpr ht)
    exact ⟨f.2, h.tracked.matched.finished f hf⟩
  obtain ⟨threw, hthrew⟩ := hended
  cases threw with
  | true => exact Or.inl hthrew
  | false =>
      have hprogress := h.tracked.progress i
      rw [haccepted, hthrew] at hprogress
      generalize s.dispatcher.acksOf i = acks at hprogress
      generalize s.dispatcher.publishedOf i = published at hprogress
      cases hprogress with
      | answered hrouted => exact Or.inr ⟨hthrew, _, _, hrouted, rfl, rfl⟩

/-- Of the pool nothing moves any more but the end of an `enqueue`. -/
theorem Lasting.pool_rests (h : Lasting parse payloads s) (hgone : poolDestroyed s.pc = true)
    {l' : RequestDispatcher.Label n k} {d : RequestDispatcher n k}
    (hstep : s.dispatcher.step parse payloads l' = some d) (hl' : ofPool l' = true) :
    l' = .notifyNobody ∧ 0 < s.dispatcher.pool.notifyOnes := by
  have hexited := h.exited hgone
  have hasleep (w : Fin n) : s.dispatcher.pool.isAsleep w = false := by
    rw [ThreadPoolManager.isAsleep, hexited w]
  cases l' with
  | work w now fails => simp [RequestDispatcher.step, RequestDispatcher.work, hexited w] at hstep
  | lock w =>
      obtain ⟨pool, hpool, -⟩ := Option.map_eq_some_iff.mp hstep
      have hready := (allow_eq_some.mp hpool).1
      rw [ThreadPoolManager.isReady, hexited w] at hready
      cases hready
  | wakeSpuriously w =>
      obtain ⟨pool, hpool, -⟩ := RequestDispatcher.poolStep_eq_some.mp hstep
      have hw := (allow_eq_some.mp hpool).1
      rw [hasleep w] at hw
      cases hw
  | notifyOne w =>
      obtain ⟨pool, hpool, -⟩ := RequestDispatcher.poolStep_eq_some.mp hstep
      have hw := (allow_eq_some.mp hpool).1.2
      rw [hasleep w] at hw
      cases hw
  | notifyNobody =>
      obtain ⟨pool, hpool, -⟩ := RequestDispatcher.poolStep_eq_some.mp hstep
      exact ⟨rfl, (allow_eq_some.mp hpool).1.1⟩
  | advance | stopAccepting | setStop | notifyAll => cases hl'

/-! ### Jobs that outlive the dispatcher -/

section Progress

variable {p : ParseResult} {call : CallPc} {job : JobPc} {acks : List (Bool × MqttAck)}
  {published : List (MqttRequest × MqttAck)}

/-- A job is waiting or running once its call has returned. -/
theorem returned_of_unfinished (h : RequestDispatcher.Progress p call job acks published)
    (hjob : isUnfinished job = true) : call = .returned true := by
  cases h <;> first | rfl | cases hjob

theorem unfinished_of_uses (h : usesDispatcher job = true) : isUnfinished job = true := by
  cases job <;> first | rfl | cases h

end Progress

theorem Lasting.finished (h : Lasting parse payloads s) (hn : 0 < n)
    (hgone : poolDestroyed s.pc = true) (i : Fin k) : isUnfinished (s.dispatcher.jobs i) = false := by
  by_contra hjob
  have hreturned := returned_of_unfinished (h.tracked.progress i) (Bool.eq_true_of_not_eq_false hjob)
  rcases h.jobs_over hn hgone hreturned with hended | ⟨hended, -⟩
  all_goals
    rw [hended] at hjob
    exact hjob rfl

section Late

variable {w : Fin n} {t : Ticket (Job k)}

end Late

/-- A job that uses the dispatcher is not over; a callback is under way in the handler; or a
message may still come and find the handler. -/
def StillReachable (s : ServerRun n k) : Prop :=
  (∃ i, isUnfinished (s.dispatcher.jobs i) = true) ∨
    (∃ i, s.arrivals i = .handled ∧ hasReturned (s.dispatcher.calls i) = false) ∨
      (s.subscribed = true ∨ s.subscribeCalled = false) ∧ ∃ i, s.arrivals i = .notArrived

/-- Nobody can reach the destroyed dispatcher, and nobody has. -/
structure Unreachable (s : ServerRun n k) : Prop where
  destroyed : s.dispatcherDestroyed = true
  unreachable : ¬StillReachable s
  unused : s.dispatcherUsedLate = false

theorem Unreachable.does (h : Unreachable s) (hlasting : Lasting parse payloads s)
    (hdoes : Does parse payloads s l t) : Unreachable t := by
  have hover (i : Fin k) : isUnfinished (s.dispatcher.jobs i) = false :=
    Bool.eq_false_of_not_eq_true fun hjob => h.unreachable (Or.inl ⟨i, hjob⟩)
  have hthrew (hnow : poolDestroyed s.pc = false) : s.threw = true :=
    (dispatcherDestroyed_eq hnow).symm.trans h.destroyed
  -- what is reachable afterwards was reachable before, if calls and jobs have not moved
  have hkeep {d : RequestDispatcher n k} (hcalls : d.calls = s.dispatcher.calls)
      (hjobs : d.jobs = s.dispatcher.jobs) {subscribed : Bool}
      (hsubscribed : subscribed = true → s.subscribed = true) {pc : RunPc} :
      ¬StillReachable { s with dispatcher := d, subscribed := subscribed, pc := pc } := by
    rintro (⟨i, hjob⟩ | ⟨i, hhandled, hcall⟩ | ⟨hhandler, hnew⟩)
    · exact h.unreachable (Or.inl ⟨i, hjobs ▸ hjob⟩)
    · exact h.unreachable (Or.inr (Or.inl ⟨i, hhandled, hcalls ▸ hcall⟩))
    · exact h.unreachable (Or.inr (Or.inr ⟨hhandler.imp_left hsubscribed, hnew⟩))
  cases hdoes with
  | goOn hnow hnext hl hstep =>
      obtain ⟨hcalls, hjobs⟩ := frame_ofRun hl hstep
      exact ⟨by simp [dispatcherDestroyed, hthrew hnow], hkeep hcalls hjobs id, h.unused⟩
  | wait hnow hnext hsubscribed =>
      exact ⟨by simp [dispatcherDestroyed, hthrew hnow], hkeep rfl rfl hsubscribed, h.unused⟩
  | join hnow hexited =>
      exact ⟨by simp [dispatcherDestroyed, hthrew hnow], hkeep rfl rfl id, h.unused⟩
  | leave hnow => exact ⟨by simp [dispatcherDestroyed], hkeep rfl rfl id, h.unused⟩
  | throws hnow hfirst =>
      rw [hthrew hnow] at hfirst
      cases hfirst
  | subscribe hfirst =>
      refine ⟨h.destroyed, ?_, h.unused⟩
      rintro (hjob | hcalling | ⟨-, hnew⟩)
      · exact h.unreachable (Or.inl hjob)
      · exact h.unreachable (Or.inr (Or.inl hcalling))
      · exact h.unreachable (Or.inr (Or.inr ⟨Or.inr hfirst, hnew⟩))
  | @arrive i hnew =>
      have hnone : ¬s.subscribed = true := fun hsubscribed =>
        h.unreachable (Or.inr (Or.inr ⟨Or.inl hsubscribed, i, hnew⟩))
      have hother {j : Fin k} {a : Arrival} (ha : a ≠ .unhandled)
          (hj : Function.update s.arrivals i (if s.subscribed then .handled else .unhandled) j = a) :
          s.arrivals j = a := by
        by_cases hji : j = i
        · subst hji
          rw [Function.update_self, if_neg hnone] at hj
          exact absurd hj.symm ha
        · rwa [Function.update_of_ne hji] at hj
      refine ⟨h.destroyed, ?_, h.unused⟩
      rintro (hjob | ⟨j, hj, hcall⟩ | ⟨hhandler, j, hj⟩)
      · exact h.unreachable (Or.inl hjob)
      · exact h.unreachable (Or.inr (Or.inl ⟨j, hother (by rintro ⟨⟩) hj, hcall⟩))
      · exact h.unreachable (Or.inr (Or.inr ⟨hhandler, j, hother (by rintro ⟨⟩) hj⟩))
  | @callback i now d hhandled hthere =>
      rw [goneForCallback, if_pos h.destroyed] at hthere
      cases hthere
  | @lateCallback i now d part hhandled hgone hstep =>
      have hopen := (RequestDispatcher.advance_cases hstep).2.1
      refine absurd (Or.inr (Or.inl ⟨i, hhandled, ?_⟩)) h.unreachable
      cases hcall : s.dispatcher.calls i with
      | returned b => exact absurd hcall (hopen b)
      | _ => rfl
  | pool hnow hl' hthere hstep =>
      exact ⟨h.destroyed, hkeep (calls_ofPool hl' hstep)
        (jobs_ofPool hlasting.tracked hover hl' hstep) id, h.unused⟩
  | lateJob hnow hgone =>
      rcases goneForJob_eq_some hgone with ⟨-, ⟨⟩⟩ | ⟨-, -, -, t, -, huses⟩
      exact absurd (unfinished_of_uses huses) (ne_true_of_eq_false (hover t.task.call))
  | latePool hgone hl' hstep => exact ⟨h.destroyed, h.unreachable, h.unused⟩

/-- After the block no `enqueue` is at its end, and the pool has not been used. -/
structure PoolAtRest (s : ServerRun n k) : Prop where
  left : s.pc = .left
  notified : s.dispatcher.pool.notifyOnes = 0
  unused : s.poolUsedLate = false

theorem PoolAtRest.does (h : PoolAtRest s) (hlasting : Lasting parse payloads s)
    (hdoes : Does parse payloads s l t) : PoolAtRest t := by
  have hdestroyed : s.dispatcherDestroyed = true := by simp [dispatcherDestroyed, h.left]
  have hnever {p : Prop} (hnow : poolDestroyed s.pc = false) : p := by
    rw [h.left] at hnow
    cases hnow
  cases hdoes with
  | goOn hnow | wait hnow | join hnow | throws hnow | pool hnow | lateJob hnow => exact hnever hnow
  | leave hnow => exact ⟨rfl, h.notified, h.unused⟩
  | subscribe | arrive => exact ⟨h.left, h.notified, h.unused⟩
  | callback hhandled hthere =>
      rw [goneForCallback, if_pos hdestroyed] at hthere
      cases hthere
  | lateCallback hhandled hgone hstep =>
      rw [goneForCallback, if_pos hdestroyed] at hgone
      obtain rfl := Option.some.inj hgone
      exact ⟨h.left, h.notified, h.unused⟩
  | latePool hgone hl' hstep =>
      have hpending := (hlasting.pool_rests hgone hstep hl').2
      rw [h.notified] at hpending
      exact absurd hpending (lt_irrefl 0)

/-- The constructor of `storage` throws with a request in the queue: the dispatcher goes, and
then a worker runs the job on it. -/
example : ((machine 1 1 lastMemberParser RequestDispatcher.storePayload).exec (initial 1 1)
    (([.subscribe, .arrive 0] : List (Label 1 1)) ++ List.replicate 5 (.callback 0 (ascii "now")) ++
      ([.throws, .run, .lock 0, .work 0 (ascii "now") false] : List (Label 1 1)))).map
        (fun s => (s.pc, s.dispatcherUsedLate)) = some (.stopped, true) := by
  decide +kernel

end ServerRun

end Watchlist.Server
