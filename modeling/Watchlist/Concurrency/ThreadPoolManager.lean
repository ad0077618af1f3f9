import Watchlist.Library.Transition

/-!
`ThreadPoolManager.hpp`: a queue, a stop flag and a fixed number of workers under
one mutex. A step is one locked section, one notification, one return of a task,
or a worker falling asleep or being woken; the label says which thread moves.
`condition_.wait` gives up the mutex and sleeps in one step, so a notification
reaches only the workers that already sleep.

The history (what was accepted, refused, taken and finished) is carried along to
state what the pool promises; no step reads it.
-/

namespace Watchlist.Concurrency

open Transition

/-- An accepted task, under its number in the order of acceptance. -/
structure Ticket (τ : Type*) where
  number : ℕ
  task : τ

/-- Where a worker is in `WorkerThread`. -/
inductive WorkerPc (τ : Type*)
  /-- about to take the lock and look at the wait predicate -/
  | ready
  | asleep
  | running (t : Ticket τ)
  | exited

structure ThreadPoolManager (n : ℕ) (τ : Type*) where
  stop : Bool
  tasks : List (Ticket τ)
  workers : Fin n → WorkerPc τ
  /-- `notify_one` calls still to be made by threads past their locked section -/
  notifyOnes : ℕ
  notifyAlls : ℕ
  accepted : List (Ticket τ)
  rejected : List τ
  started : List (Ticket τ)
  /-- each with whether it threw -/
  finished : List (Ticket τ × Bool)

namespace ThreadPoolManager

variable {n : ℕ} {τ : Type*}

/-- A pool as its constructor leaves it. -/
def initial (n : ℕ) (τ : Type*) : ThreadPoolManager n τ where
  stop := false
  tasks := []
  workers := fun _ => .ready
  notifyOnes := 0
  notifyAlls := 0
  accepted := []
  rejected := []
  started := []
  finished := []

def setWorker (p : ThreadPoolManager n τ) (w : Fin n) (pc : WorkerPc τ) : ThreadPoolManager n τ :=
  { p with workers := Function.update p.workers w pc }

/-- The ticket the next accepted task gets. -/
def nextTicket (p : ThreadPoolManager n τ) (task : τ) : Ticket τ := ⟨p.accepted.length, task⟩

/-- The locked section of `enqueue`; the call throws when `stop_` is set. -/
def enqueue (p : ThreadPoolManager n τ) (task : τ) : ThreadPoolManager n τ :=
  if p.stop then { p with rejected := p.rejected ++ [task] }
  else { p with
    tasks := p.tasks ++ [p.nextTicket task]
    accepted := p.accepted ++ [p.nextTicket task]
    notifyOnes := p.notifyOnes + 1 }

/-- The locked section of `StopAndJoinWorkers`. -/
def setStop (p : ThreadPoolManager n τ) : ThreadPoolManager n τ :=
  { p with stop := true, notifyAlls := p.notifyAlls + 1 }

/-- The locked section of a worker: wait while the predicate is false, leave when
there is nothing left to drain, else take the front of the queue. -/
def lock (p : ThreadPoolManager n τ) (w : Fin n) : ThreadPoolManager n τ :=
  match p.tasks with
  | [] => if p.stop then p.setWorker w .exited else p.setWorker w .asleep
  | t :: rest =>
      { p.setWorker w (.running t) with tasks := rest, started := p.started ++ [t] }

/-- Every sleeping worker goes back to its predicate. -/
def wakeAll (p : ThreadPoolManager n τ) : ThreadPoolManager n τ :=
  { p with workers := fun w => match p.workers w with | .asleep => .ready | pc => pc }

def isAsleep (p : ThreadPoolManager n τ) (w : Fin n) : Bool :=
  match p.workers w with | .asleep => true | _ => false

def isReady (p : ThreadPoolManager n τ) (w : Fin n) : Bool :=
  match p.workers w with | .ready => true | _ => false

inductive Label (n : ℕ) (τ : Type*)
  | enqueue (task : τ)
  | setStop
  /-- `notify_one`, waking the given sleeper -/
  | notifyOne (w : Fin n)
  /-- `notify_one` with nobody asleep -/
  | notifyNobody
  | notifyAll
  | wakeSpuriously (w : Fin n)
  | lock (w : Fin n)
  /-- the task returns; what it throws goes into its future -/
  | finish (w : Fin n) (threw : Bool)

def step (p : ThreadPoolManager n τ) : Label n τ → Option (ThreadPoolManager n τ)
  | .enqueue task => some (p.enqueue task)
  | .setStop => some p.setStop
  | .notifyOne w =>
      allow (0 < p.notifyOnes ∧ p.isAsleep w)
        { p.setWorker w .ready with notifyOnes := p.notifyOnes - 1 }
  | .notifyNobody =>
      allow (0 < p.notifyOnes ∧ ∀ w, p.isAsleep w = false)
        { p with notifyOnes := p.notifyOnes - 1 }
  | .notifyAll => allow (0 < p.notifyAlls) { p.wakeAll with notifyAlls := p.notifyAlls - 1 }
  | .wakeSpuriously w => allow (p.isAsleep w) (p.setWorker w .ready)
  | .lock w => allow (p.isReady w) (p.lock w)
  | .finish w threw =>
      match p.workers w with
      | .running t => some { p.setWorker w .ready with finished := p.finished ++ [(t, threw)] }
      | _ => none

def machine (n : ℕ) (τ : Type*) : Machine (ThreadPoolManager n τ) (Label n τ) :=
  ⟨step⟩

/-! ### The invariant -/

/-- What holds of the queue, the workers and the history in every state. -/
structure Accounted (p : ThreadPoolManager n τ) : Prop where
  /-- the queue is what has been accepted and not taken, in order -/
  queue : p.accepted = p.started ++ p.tasks
  numbers : p.accepted.map Ticket.number = List.range p.accepted.length
  finished_nodup : (p.finished.map Prod.fst).Nodup
  finished_started : ∀ t ∈ p.finished.map Prod.fst, t ∈ p.started
  /-- a taken task has finished or is running -/
  started : ∀ t ∈ p.started, t ∈ p.finished.map Prod.fst ∨ ∃ w, p.workers w = .running t
  running : ∀ w t, p.workers w = .running t →
    t ∈ p.started ∧ t ∉ p.finished.map Prod.fst
  running_once : ∀ w w' t, p.workers w = .running t → p.workers w' = .running t → w = w'
  /-- a worker has left only after the stop and with nothing queued -/
  exited : ∀ w, p.workers w = .exited → p.stop = true ∧ p.tasks = []

theorem accepted_nodup {p : ThreadPoolManager n τ}
    (h : p.accepted.map Ticket.number = List.range p.accepted.length) : p.accepted.Nodup :=
  List.Nodup.of_map Ticket.number (h ▸ List.nodup_range)

theorem accounted_initial : Accounted (initial n τ) where
  queue := rfl
  numbers := rfl
  finished_nodup := List.nodup_nil
  finished_started := by simp [initial]
  started := by simp [initial]
  running := by simp [initial]
  running_once := by simp [initial]
  exited := by simp [initial]

/-- A step that leaves queue and history alone, and in which no worker starts,
ends or leaves, keeps the invariant. -/
theorem Accounted.of_frame {p q : ThreadPoolManager n τ} (h : Accounted p)
    (htasks : q.tasks = p.tasks) (haccepted : q.accepted = p.accepted)
    (hstarted : q.started = p.started) (hfinished : q.finished = p.finished)
    (hstop : p.stop = true → q.stop = true)
    (hrunning : ∀ w t, q.workers w = .running t ↔ p.workers w = .running t)
    (hexited : ∀ w, q.workers w = .exited → p.workers w = .exited) : Accounted q where
  queue := by rw [htasks, haccepted, hstarted, h.queue]
  numbers := by rw [haccepted, h.numbers]
  finished_nodup := by rw [hfinished]; exact h.finished_nodup
  finished_started := by rw [hfinished, hstarted]; exact h.finished_started
  started := by simpa only [hfinished, hstarted, hrunning] using h.started
  running := by simpa only [hfinished, hstarted, hrunning] using h.running
  running_once := by simpa only [hrunning] using h.running_once
  exited := by
    intro w hw
    obtain ⟨hs, ht⟩ := h.exited w (hexited w hw)
    exact ⟨hstop hs, htasks.trans ht⟩

@[simp] theorem workers_setWorker (p : ThreadPoolManager n τ) (w w' : Fin n) (pc : WorkerPc τ) :
    (p.setWorker w pc).workers w' = if w' = w then pc else p.workers w' := by
  simp [setWorker, Function.update_apply]

theorem workers_wakeAll_running {p : ThreadPoolManager n τ} {w : Fin n} {t : Ticket τ} :
    p.wakeAll.workers w = .running t ↔ p.workers w = .running t := by
  simp only [wakeAll]
  split <;> simp_all

theorem workers_wakeAll_exited {p : ThreadPoolManager n τ} {w : Fin n}
    (h : p.wakeAll.workers w = .exited) : p.workers w = .exited := by
  simp only [wakeAll] at h
  split at h
  · cases h
  · exact h

theorem workers_of_isAsleep {p : ThreadPoolManager n τ} {w : Fin n} (h : p.isAsleep w = true) :
    p.workers w = .asleep := by
  unfold isAsleep at h
  split at h
  · assumption
  · cases h

theorem workers_of_isReady {p : ThreadPoolManager n τ} {w : Fin n} (h : p.isReady w = true) :
    p.workers w = .ready := by
  unfold isReady at h
  split at h
  · assumption
  · cases h

/-- Moving a worker that runs nothing to a place where it runs nothing. -/
theorem Accounted.setWorker_idle {p : ThreadPoolManager n τ} (h : Accounted p) {w : Fin n}
    {pc : WorkerPc τ} (hw : ∀ t, p.workers w ≠ .running t) (hpc : ∀ t, pc ≠ .running t)
    (hexit : pc = .exited → p.stop = true ∧ p.tasks = []) : Accounted (p.setWorker w pc) where
  queue := h.queue
  numbers := h.numbers
  finished_nodup := h.finished_nodup
  finished_started := h.finished_started
  started := by
    intro t ht
    refine (h.started t ht).imp_right ?_
    rintro ⟨w', hw'⟩
    refine ⟨w', ?_⟩
    rw [workers_setWorker, if_neg, hw']
    rintro rfl
    exact hw t hw'
  running := by
    intro w' t hrun
    rw [workers_setWorker] at hrun
    split at hrun
    · exact absurd hrun (hpc t)
    · exact h.running w' t hrun
  running_once := by
    intro w₁ w₂ t h₁ h₂
    rw [workers_setWorker] at h₁ h₂
    split at h₁
    · exact absurd h₁ (hpc t)
    · split at h₂
      · exact absurd h₂ (hpc t)
      · exact h.running_once w₁ w₂ t h₁ h₂
  exited := by
    intro w' hw'
    rw [workers_setWorker] at hw'
    split at hw'
    · exact hexit hw'
    · exact h.exited w' hw'

theorem Accounted.enqueue {p : ThreadPoolManager n τ} (h : Accounted p) (task : τ) :
    Accounted (p.enqueue task) := by
  unfold ThreadPoolManager.enqueue
  split
  · exact h.of_frame rfl rfl rfl rfl id (fun _ _ => Iff.rfl) (fun _ => id)
  · rename_i hstop
    exact {
      queue := by simp [h.queue]
      numbers := by simp [h.numbers, nextTicket, List.range_succ]
      finished_nodup := h.finished_nodup
      finished_started := h.finished_started
      started := h.started
      running := h.running
      running_once := h.running_once
      exited := fun w hw => absurd (h.exited w hw).1 hstop }

theorem Accounted.setStop {p : ThreadPoolManager n τ} (h : Accounted p) : Accounted p.setStop :=
  h.of_frame rfl rfl rfl rfl (fun _ => rfl) (fun _ _ => Iff.rfl) (fun _ => id)

/-- The front of the queue has never been taken. -/
theorem Accounted.front_not_started {p : ThreadPoolManager n τ} (h : Accounted p) {t : Ticket τ}
    {rest : List (Ticket τ)} (htasks : p.tasks = t :: rest) : t ∉ p.started := by
  have hnodup := accepted_nodup h.numbers
  rw [h.queue, htasks, List.nodup_append] at hnodup
  exact fun ht => hnodup.2.2 t ht t List.mem_cons_self rfl

theorem Accounted.take {p : ThreadPoolManager n τ} (h : Accounted p) {w : Fin n} {t : Ticket τ}
    {rest : List (Ticket τ)} (hw : p.workers w = .ready) (htasks : p.tasks = t :: rest) :
    Accounted { p.setWorker w (.running t) with tasks := rest, started := p.started ++ [t] } := by
  have hfresh := h.front_not_started htasks
  have hnew : ∀ w', p.workers w' ≠ .running t := fun w' hw' => hfresh (h.running w' t hw').1
  have hworkers : ∀ w' t', (p.setWorker w (.running t)).workers w' = .running t' ↔
      (w' = w ∧ t = t') ∨ p.workers w' = .running t' := by
    intro w' t'
    rw [workers_setWorker]
    by_cases hww : w' = w
    · simp [hww, hw]
    · simp [hww]
  exact {
    queue := by
      change p.accepted = _
      rw [h.queue, htasks]
      simp
    numbers := h.numbers
    finished_nodup := h.finished_nodup
    finished_started := fun t' ht' => List.mem_append_left _ (h.finished_started t' ht')
    started := by
      intro t' ht'
      rcases List.mem_append.mp ht' with ht' | ht'
      · refine (h.started t' ht').imp_right ?_
        rintro ⟨w', hw'⟩
        exact ⟨w', (hworkers w' t').mpr (Or.inr hw')⟩
      · obtain rfl := List.mem_singleton.mp ht'
        exact Or.inr ⟨w, (hworkers w t').mpr (Or.inl ⟨rfl, rfl⟩)⟩
    running := by
      intro w' t' hrun
      rcases (hworkers w' t').mp hrun with ⟨_, rfl⟩ | hrun
      · exact ⟨List.mem_append_right _ List.mem_cons_self,
          fun hfin => hfresh (h.finished_started t hfin)⟩
      · obtain ⟨hs, hf⟩ := h.running w' t' hrun
        exact ⟨List.mem_append_left _ hs, hf⟩
    running_once := by
      intro w₁ w₂ t' h₁ h₂
      rcases (hworkers w₁ t').mp h₁ with ⟨rfl, rfl⟩ | h₁
      · rcases (hworkers w₂ t).mp h₂ with ⟨rfl, _⟩ | h₂
        · rfl
        · exact absurd h₂ (hnew w₂)
      · rcases (hworkers w₂ t').mp h₂ with ⟨_, rfl⟩ | h₂
        · exact absurd h₁ (hnew w₁)
        · exact h.running_once w₁ w₂ t' h₁ h₂
    exited := by
      intro w' hw'
      have hexited : p.workers w' = .exited := by
        rw [show ({ p.setWorker w (.running t) with
          tasks := rest, started := p.started ++ [t] } : ThreadPoolManager n τ).workers w' =
          (p.setWorker w (.running t)).workers w' from rfl, workers_setWorker] at hw'
        split at hw'
        · cases hw'
        · exact hw'
      simp [(h.exited w' hexited).2] at htasks }

theorem Accounted.lock {p : ThreadPoolManager n τ} (h : Accounted p) {w : Fin n}
    (hw : p.workers w = .ready) : Accounted (p.lock w) := by
  have hidle : ∀ t, p.workers w ≠ .running t := by simp [hw]
  unfold ThreadPoolManager.lock
  split
  · rename_i htasks
    split
    · rename_i hstop
      exact h.setWorker_idle hidle (by simp) fun _ => ⟨hstop, htasks⟩
    · exact h.setWorker_idle hidle (by simp) (by simp)
  · rename_i t rest htasks
    exact h.take hw htasks

theorem Accounted.finish {p : ThreadPoolManager n τ} (h : Accounted p) {w : Fin n} {t : Ticket τ}
    (threw : Bool) (hw : p.workers w = .running t) :
    Accounted { p.setWorker w .ready with finished := p.finished ++ [(t, threw)] } := by
  obtain ⟨hstarted, hfresh⟩ := h.running w t hw
  have hworkers : ∀ w' t', (p.setWorker w .ready).workers w' = .running t' ↔
      w' ≠ w ∧ p.workers w' = .running t' := by
    intro w' t'
    rw [workers_setWorker]
    by_cases hww : w' = w <;> simp [hww]
  have hfinished : (p.finished ++ [(t, threw)]).map Prod.fst = p.finished.map Prod.fst ++ [t] := by
    simp
  exact {
    queue := h.queue
    numbers := h.numbers
    finished_nodup := by
      change ((p.finished ++ [(t, threw)]).map Prod.fst).Nodup
      rw [hfinished, List.nodup_append]
      exact ⟨h.finished_nodup, List.nodup_singleton t, by
        rintro a ha b hb rfl
        exact hfresh (List.mem_singleton.mp hb ▸ ha)⟩
    finished_started := by
      intro t' ht'
      rw [hfinished] at ht'
      rcases List.mem_append.mp ht' with ht' | ht'
      · exact h.finished_started t' ht'
      · exact List.mem_singleton.mp ht' ▸ hstarted
    started := by
      intro t' ht'
      rw [hfinished]
      rcases h.started t' ht' with hfin | ⟨w', hw'⟩
      · exact Or.inl (List.mem_append_left _ hfin)
      · by_cases hww : w' = w
        · rw [hww, hw] at hw'
          cases hw'
          exact Or.inl (List.mem_append_right _ List.mem_cons_self)
        · exact Or.inr ⟨w', (hworkers w' t').mpr ⟨hww, hw'⟩⟩
    running := by
      intro w' t' hrun
      obtain ⟨hne, hbefore⟩ := (hworkers w' t').mp hrun
      obtain ⟨hs, hf⟩ := h.running w' t' hbefore
      refine ⟨hs, ?_⟩
      rw [hfinished, List.mem_append, List.mem_singleton]
      rintro (hfin | rfl)
      · exact hf hfin
      · exact hne (h.running_once w' w t' ((hworkers w' t').mp hrun).2 hw)
    running_once := by
      intro w₁ w₂ t' h₁ h₂
      exact h.running_once w₁ w₂ t' ((hworkers w₁ t').mp h₁).2 ((hworkers w₂ t').mp h₂).2
    exited := by
      intro w' hw'
      refine h.exited w' ?_
      rw [show ({ p.setWorker w .ready with
        finished := p.finished ++ [(t, threw)] } : ThreadPoolManager n τ).workers w' =
        (p.setWorker w .ready).workers w' from rfl, workers_setWorker] at hw'
      split at hw'
      · cases hw'
      · exact hw' }

/-- The step lemma. -/
theorem Accounted.step {p q : ThreadPoolManager n τ} {l : Label n τ} (h : Accounted p)
    (hstep : p.step l = some q) : Accounted q := by
  cases l with
  | enqueue task =>
      obtain rfl := Option.some.inj hstep
      exact h.enqueue task
  | setStop =>
      obtain rfl := Option.some.inj hstep
      exact h.setStop
  | notifyOne w =>
      obtain ⟨⟨_, hasleep⟩, rfl⟩ := allow_eq_some.mp hstep
      have hidle : Accounted (p.setWorker w .ready) :=
        h.setWorker_idle (by simp [workers_of_isAsleep hasleep]) (by simp) (by simp)
      exact hidle.of_frame rfl rfl rfl rfl id (fun _ _ => Iff.rfl) (fun _ => id)
  | notifyNobody =>
      obtain ⟨_, rfl⟩ := allow_eq_some.mp hstep
      exact h.of_frame rfl rfl rfl rfl id (fun _ _ => Iff.rfl) (fun _ => id)
  | notifyAll =>
      obtain ⟨_, rfl⟩ := allow_eq_some.mp hstep
      exact h.of_frame rfl rfl rfl rfl id (fun _ _ => workers_wakeAll_running)
        (fun _ => workers_wakeAll_exited)
  | wakeSpuriously w =>
      obtain ⟨hasleep, rfl⟩ := allow_eq_some.mp hstep
      exact h.setWorker_idle (by simp [workers_of_isAsleep hasleep]) (by simp) (by simp)
  | lock w =>
      obtain ⟨hready, rfl⟩ := allow_eq_some.mp hstep
      exact h.lock (workers_of_isReady hready)
  | finish w threw =>
      simp only [ThreadPoolManager.step] at hstep
      split at hstep
      · rename_i t hw
        obtain rfl := Option.some.inj hstep
        exact h.finish threw hw
      · cases hstep

theorem accounted_of_reaches {p : ThreadPoolManager n τ}
    (h : (machine n τ).Reaches (initial n τ) p) : Accounted p :=
  Machine.invariant Accounted (fun _ _ _ hp hstep => hp.step hstep) h accounted_initial

/-! ### What the pool promises -/

/-- `enqueue` throws exactly when `stop_` is set, and then changes no queue. -/
theorem enqueue_cases {p q : ThreadPoolManager n τ} {task : τ}
    (h : p.step (.enqueue task) = some q) :
    (p.stop = true ∧ q = { p with rejected := p.rejected ++ [task] }) ∨
    (p.stop = false ∧ q.rejected = p.rejected ∧ q.tasks = p.tasks ++ [p.nextTicket task] ∧
      q.accepted = p.accepted ++ [p.nextTicket task]) := by
  obtain rfl := Option.some.inj h
  unfold enqueue
  cases hstop : p.stop with
  | true => exact Or.inl ⟨rfl, rfl⟩
  | false => exact Or.inr ⟨rfl, rfl, rfl, rfl⟩

/-- A worker leaves `WorkerThread` only with nothing queued. -/
theorem tasks_eq_nil_of_exits {p q : ThreadPoolManager n τ} {l : Label n τ} {w : Fin n}
    (hw : p.workers w ≠ .exited) (h : p.step l = some q) (hexited : q.workers w = .exited) :
    p.tasks = [] := by
  cases l with
  | enqueue task =>
      obtain rfl := Option.some.inj h
      unfold enqueue at hexited
      split at hexited <;> exact absurd hexited hw
  | setStop =>
      obtain rfl := Option.some.inj h
      exact absurd hexited hw
  | notifyOne w' =>
      obtain ⟨_, rfl⟩ := allow_eq_some.mp h
      change (p.setWorker w' .ready).workers w = .exited at hexited
      rw [workers_setWorker] at hexited
      split at hexited
      · cases hexited
      · exact absurd hexited hw
  | notifyNobody =>
      obtain ⟨_, rfl⟩ := allow_eq_some.mp h
      exact absurd hexited hw
  | notifyAll =>
      obtain ⟨_, rfl⟩ := allow_eq_some.mp h
      exact absurd (workers_wakeAll_exited hexited) hw
  | wakeSpuriously w' =>
      obtain ⟨_, rfl⟩ := allow_eq_some.mp h
      rw [workers_setWorker] at hexited
      split at hexited
      · cases hexited
      · exact absurd hexited hw
  | lock w' =>
      obtain ⟨_, rfl⟩ := allow_eq_some.mp h
      cases htasks : p.tasks with
      | nil => rfl
      | cons t rest =>
          simp only [lock, htasks, setWorker, Function.update_apply] at hexited
          split at hexited
          · cases hexited
          · exact absurd hexited hw
  | finish w' threw =>
      simp only [step] at h
      split at h
      · obtain rfl := Option.some.inj h
        change (p.setWorker w' .ready).workers w = .exited at hexited
        rw [workers_setWorker] at hexited
        split at hexited
        · cases hexited
        · exact absurd hexited hw
      · cases h

/-- Once every worker has left, exactly the accepted tasks have run, each once. -/
theorem Accounted.drained {p : ThreadPoolManager n τ} (h : Accounted p) (hn : 0 < n)
    (hexited : ∀ w, p.workers w = .exited) :
    p.tasks = [] ∧ (p.finished.map Prod.fst).Perm p.accepted := by
  have hempty : p.tasks = [] := (h.exited ⟨0, hn⟩ (hexited _)).2
  refine ⟨hempty, ?_⟩
  rw [List.perm_ext_iff_of_nodup h.finished_nodup (accepted_nodup h.numbers)]
  intro t
  rw [h.queue, hempty, List.append_nil]
  constructor
  · exact h.finished_started t
  · intro ht
    rcases h.started t ht with hfin | ⟨w, hw⟩
    · exact hfin
    · rw [hexited w] at hw
      cases hw

/-- The pool neither loses nor repeats a task: an `enqueue` throws or is accepted,
tasks are taken in the order of acceptance and never twice, no worker leaves work
behind, and when all have left every accepted task has run to its end once. -/
theorem pool_neither_loses_nor_repeats (hn : 0 < n) {p : ThreadPoolManager n τ}
    (h : (machine n τ).Reaches (initial n τ) p) :
    (∀ task q, p.step (.enqueue task) = some q →
      (p.stop = true ∧ q = { p with rejected := p.rejected ++ [task] }) ∨
      (p.stop = false ∧ q.rejected = p.rejected ∧ q.tasks = p.tasks ++ [p.nextTicket task] ∧
        q.accepted = p.accepted ++ [p.nextTicket task])) ∧
    p.accepted.Nodup ∧ p.started.Nodup ∧ p.started <+: p.accepted ∧
    (∀ w l q, p.workers w ≠ .exited → p.step l = some q → q.workers w = .exited → p.tasks = []) ∧
    ((∀ w, p.workers w = .exited) →
      p.tasks = [] ∧ (p.finished.map Prod.fst).Perm p.accepted) := by
  have hp := accounted_of_reaches h
  have hnodup := accepted_nodup hp.numbers
  have hbegins : p.started <+: p.accepted := ⟨p.tasks, hp.queue.symm⟩
  exact ⟨fun _ _ => enqueue_cases, hnodup, hbegins.sublist.nodup hnodup, hbegins,
    fun _ _ _ => tasks_eq_nil_of_exits, hp.drained hn⟩

/-- One worker takes one of two tasks, the stop comes, and the queue is drained. -/
def drainingRun : List (Label 1 ℕ) :=
  [.enqueue 7, .enqueue 8, .lock 0, .setStop, .enqueue 9, .finish 0 true, .lock 0, .finish 0 false,
    .lock 0]

theorem drainingRun_drains :
    ∃ p, (machine 1 ℕ).exec (initial 1 ℕ) drainingRun = some p ∧
      (∀ w, p.workers w = .exited) ∧ p.tasks = [] ∧ (p.finished.map Prod.fst).Perm p.accepted := by
  refine ⟨_, rfl, ?_, ?_⟩
  · intro w
    rw [Subsingleton.elim w 0]
    rfl
  · exact (pool_neither_loses_nor_repeats Nat.one_pos ⟨drainingRun, rfl⟩).2.2.2.2.2 (fun w => by
      rw [Subsingleton.elim w 0]
      rfl)

end ThreadPoolManager

end Watchlist.Concurrency
