import Watchlist.Dispatch.Acknowledgements
import Watchlist.Storage.KeyValueStore

/-!
The dispatcher with the file that `StoreDatabaseValue` writes. Each worker has a
connection of its own, so what the connections do is interleaved statement by
statement, and the values end up as the statements ran, not as the requests came.
Two requests change places only when two workers ran them at the same time.
-/

namespace Watchlist.Dispatch

open Bytes Transition Concurrency Messaging Sqlite Faulty Storage KeyValueStore

/-- The dispatcher, and the file at its path. -/
structure StoringDispatcher (n k : ℕ) where
  dispatcher : RequestDispatcher n k
  database : Database
  /-- the calls whose values have been stored, in order -/
  stores : List (Fin k)

namespace StoringDispatcher

variable {n k : ℕ}

def initial (n k : ℕ) (db : Database) : StoringDispatcher n k := ⟨.initial n k, db, []⟩

/-- What the next step of the job that worker `w` runs has SQLite do. -/
def statements (d : RequestDispatcher n k) (w : Fin n) (clock : Bytes) : Sql Unit :=
  match d.pool.workers w with
  | .running t =>
      match d.jobs t.task.call, t.task.request.type with
      | .executing, .storeDatabaseValue => do
          construct
          initializeStore
      | .upserting, _ =>
          upsert (t.task.request.key.getD []) (t.task.request.value.getD []) clock
      | _, _ => pure ()
  | _ => pure ()

/-- The call whose value that step stores. -/
def storing (d : RequestDispatcher n k) (w : Fin n) : Option (Fin k) :=
  match d.pool.workers w with
  | .running t =>
      match d.jobs t.task.call with
      | .upserting => some t.task.call
      | _ => none
  | _ => none

/-- A step of the dispatcher, with the time and the failures that SQLite sees if it
is used. -/
structure Label (n k : ℕ) where
  step : RequestDispatcher.Label n k
  clock : Bytes
  faults : List Bool

/-- How the statements of a worker's step end, and the file after them. -/
def outcome (s : StoringDispatcher n k) (w : Fin n) (l : Label n k) :
    Except StorageError Unit × World Database :=
  statements s.dispatcher w l.clock ⟨s.database, l.faults⟩

def storesAfter (s : StoringDispatcher n k) (w : Fin n) (fails : Bool) : List (Fin k) :=
  if fails then s.stores else s.stores ++ (storing s.dispatcher w).toList

/-- The job throws when one of the statements does. -/
def step (parse : Bytes → Document) (payloads : Fin k → Bytes) (s : StoringDispatcher n k)
    (l : Label n k) : Option (StoringDispatcher n k) :=
  match l.step with
  | .work w _ fails =>
      if fails = !(s.outcome w l).1.isOk then
        (s.dispatcher.step parse payloads l.step).map fun d =>
          ⟨d, (s.outcome w l).2.state, s.storesAfter w fails⟩
      else none
  | _ => (s.dispatcher.step parse payloads l.step).map fun d => { s with dispatcher := d }

def machine (n k : ℕ) (parse : Bytes → Document) (payloads : Fin k → Bytes) :
    Machine (StoringDispatcher n k) (Label n k) :=
  ⟨step parse payloads⟩

/-! ### The property -/

/-- A call is made once the calls before it have returned `true`. -/
def OneByOne (s : StoringDispatcher n k) (l : Label n k) : Prop :=
  match l.step with
  | .advance i _ => ∀ j < i, s.dispatcher.calls j = .returned true
  | _ => True

/-- Nothing is queued and no worker runs a job. -/
def Idle (s : StoringDispatcher n k) : Prop :=
  s.dispatcher.pool.tasks = [] ∧ ∀ w t, s.dispatcher.pool.workers w ≠ .running t

/-- Two workers run the jobs of the two calls at the same time. -/
def RunTogether (s : StoringDispatcher n k) (i j : Fin k) : Prop :=
  ∃ w w' t t', w ≠ w' ∧ s.dispatcher.pool.workers w = .running t ∧ t.task.call = i ∧
    s.dispatcher.pool.workers w' = .running t' ∧ t'.task.call = j

def entry (request : MqttRequest) : Bytes × Bytes :=
  (request.key.getD [], request.value.getD [])

/-! ### What one step stores -/

section Steps

variable {parse : Bytes → Document} {payloads : Fin k → Bytes} {s s' : StoringDispatcher n k}
  {l : Label n k}

/-- The job has stored its value. -/
def HasStored : JobPc → Prop
  | .recording _ | .publishing _ | .ended false => True
  | _ => False

theorem dispatcher_step (hstep : s.step parse payloads l = some s') :
    s.dispatcher.step parse payloads l.step = some s'.dispatcher := by
  unfold StoringDispatcher.step at hstep
  split at hstep
  · split at hstep
    · obtain ⟨d, hd, rfl⟩ := Option.map_eq_some_iff.mp hstep
      exact hd
    · cases hstep
  · obtain ⟨d, hd, rfl⟩ := Option.map_eq_some_iff.mp hstep
    exact hd

/-- A step that is not a worker's leaves the file alone. -/
theorem frame_step (hstep : s.step parse payloads l = some s')
    (hl : ∀ w now fails, l.step ≠ .work w now fails) :
    s'.database = s.database ∧ s'.stores = s.stores := by
  unfold StoringDispatcher.step at hstep
  split at hstep
  · rename_i w now fails hwork
    exact absurd hwork (hl w now fails)
  · obtain ⟨d, _, rfl⟩ := Option.map_eq_some_iff.mp hstep
    exact ⟨rfl, rfl⟩

theorem work_step {w : Fin n} {now : Bytes} {fails : Bool} (hl : l.step = .work w now fails)
    (hstep : s.step parse payloads l = some s') :
    fails = (!(s.outcome w l).1.isOk) ∧ s'.database = (s.outcome w l).2.state ∧
      s'.stores = s.storesAfter w fails := by
  simp only [StoringDispatcher.step, hl] at hstep
  split at hstep
  · rename_i hfails
    obtain ⟨d, _, rfl⟩ := Option.map_eq_some_iff.mp hstep
    exact ⟨hfails, rfl, rfl⟩
  · cases hstep

/-- A step that stores nothing. -/
structure Quiet (s s' : StoringDispatcher n k) : Prop where
  stores : s'.stores = s.stores
  jobs : ∀ i, HasStored (s'.dispatcher.jobs i) ↔ HasStored (s.dispatcher.jobs i)
  file : StoreFile s.database → StoreFile s'.database ∧ values s'.database = values s.database ∧
    ((s.database.findTable kvStoreName).isSome = true →
      (s'.database.findTable kvStoreName).isSome = true)

/-- The step in which worker `w` stores the value of its job. -/
structure StoresValue (s s' : StoringDispatcher n k) (w : Fin n) (t : Ticket (Job k)) : Prop where
  running : s.dispatcher.pool.workers w = .running t
  before : s.dispatcher.jobs t.task.call = .upserting
  workers : s'.dispatcher.pool = s.dispatcher.pool
  stores : s'.stores = s.stores ++ [t.task.call]
  after : HasStored (s'.dispatcher.jobs t.task.call)
  jobs : ∀ i ≠ t.task.call, s'.dispatcher.jobs i = s.dispatcher.jobs i
  file : StoreFile s.database → StoreFile s'.database ∧
    values s'.database = store (values s.database) (entry t.task.request) ∧
    (s'.database.findTable kvStoreName).isSome = true

theorem hasStored_update {jobs : Fin k → JobPc} {i : Fin k} {at' : JobPc}
    (h : HasStored at' ↔ HasStored (jobs i)) (i' : Fin k) :
    HasStored (Function.update jobs i at' i') ↔ HasStored (jobs i') := by
  by_cases hi : i' = i
  · rw [hi, Function.update_self, h]
  · rw [Function.update_of_ne hi]

/-- Statements that throw leave the file alone. -/
theorem database_of_error {w : Fin n} (h : (s.outcome w l).1.isOk = false) :
    (s.outcome w l).2.state = s.database := by
  have hatomic : (statements s.dispatcher w l.clock).Atomic := by
    unfold statements
    split
    · split
      · exact Program.atomic_bind readOnly_construct fun _ => atomic_initializeStore
      · exact atomic_upsert _ _ _
      · exact (Program.readOnly_pure _).atomic
    · exact (Program.readOnly_pure _).atomic
  rcases hrun : s.outcome w l with ⟨e | a, v⟩
  · exact hatomic _ e v hrun
  · rw [hrun] at h
    cases h

theorem Quiet.of_failed {w : Fin n} {now : Bytes} (hl : l.step = .work w now true)
    (hstep : s.step parse payloads l = some s')
    (hjobs : ∀ i, HasStored (s'.dispatcher.jobs i) ↔ HasStored (s.dispatcher.jobs i)) :
    Quiet s s' := by
  obtain ⟨hfails, hdatabase, hstores⟩ := work_step hl hstep
  rw [database_of_error (by simpa using hfails.symm)] at hdatabase
  exact ⟨hstores, hjobs, fun hfile => by rw [hdatabase]; exact ⟨hfile, rfl, id⟩⟩

/-- A job starts its store: the table is made when it is not there. -/
theorem Quiet.of_executing {w : Fin n} {t : Ticket (Job k)} {now : Bytes}
    (hw : s.dispatcher.pool.workers w = .running t)
    (hat : s.dispatcher.jobs t.task.call = .executing)
    (htype : t.task.request.type = .storeDatabaseValue) (hl : l.step = .work w now false)
    (hstep : s.step parse payloads l = some s')
    (hjobs : ∀ i, HasStored (s'.dispatcher.jobs i) ↔ HasStored (s.dispatcher.jobs i)) :
    Quiet s s' := by
  obtain ⟨hok, hdatabase, hstores⟩ := work_step hl hstep
  refine ⟨by simpa [storesAfter, storing, hw, hat] using hstores, hjobs, fun hfile => ?_⟩
  rcases hrun : s.outcome w l with ⟨e | a, v⟩
  · rw [hrun] at hok
    cases hok
  · rw [hrun] at hdatabase
    simp only [outcome, statements, hw, hat, htype] at hrun
    obtain ⟨_, w₁, hopen, hinit⟩ := Program.bind_eq_ok.mp hrun
    have hstate : w₁.state = s.database := construct_eq_ok hopen
    obtain ⟨hfile', hvalues, hsome⟩ := StoreFile.initializeStore (hstate.symm ▸ hfile) hinit
    rw [hdatabase]
    exact ⟨hfile', hvalues.trans (congrArg values hstate), fun _ => hsome⟩

/-- A job stores its value. -/
theorem StoresValue.of_upserting {w : Fin n} {t : Ticket (Job k)} {now : Bytes}
    (hw : s.dispatcher.pool.workers w = .running t)
    (hat : s.dispatcher.jobs t.task.call = .upserting) (hl : l.step = .work w now false)
    (hstep : s.step parse payloads l = some s') : StoresValue s s' w t := by
  have hwork := dispatcher_step hstep
  rw [hl] at hwork
  simp only [RequestDispatcher.step, RequestDispatcher.work, hw, hat, Bool.false_eq_true,
    if_false, Option.some.injEq] at hwork
  obtain ⟨hok, hdatabase, hstores⟩ := work_step hl hstep
  have hjob : s'.dispatcher.jobs = Function.update s.dispatcher.jobs t.task.call
      (.recording (storeDatabaseValue now t.task.request)) := congrArg _ hwork.symm
  refine ⟨hw, hat, by rw [← hwork]; rfl, by simpa [storesAfter, storing, hw, hat] using hstores,
    ?_, fun i hi => ?_, fun hfile => ?_⟩
  · rw [hjob, Function.update_self]
    trivial
  · rw [hjob, Function.update_of_ne hi]
  · rcases hrun : s.outcome w l with ⟨e | a, v⟩
    · rw [hrun] at hok
      cases hok
    · rw [hrun] at hdatabase
      simp only [outcome, statements, hw, hat] at hrun
      rw [hdatabase]
      exact StoreFile.upsert hfile hrun

theorem Quiet.of_pure {w : Fin n} {now : Bytes} {fails : Bool} (hl : l.step = .work w now fails)
    (hpure : statements s.dispatcher w l.clock = pure ()) (hstoring : storing s.dispatcher w = none)
    (hstep : s.step parse payloads l = some s')
    (hjobs : ∀ i, HasStored (s'.dispatcher.jobs i) ↔ HasStored (s.dispatcher.jobs i)) :
    Quiet s s' := by
  obtain ⟨_, hdatabase, hstores⟩ := work_step hl hstep
  have hsame : s'.database = s.database := by
    rw [hdatabase, outcome, hpure]
    rfl
  refine ⟨?_, hjobs, fun hfile => by rw [hsame]; exact ⟨hfile, rfl, id⟩⟩
  rw [hstores, storesAfter, hstoring]
  simp

/-- A worker's step stores the value of its job, or nothing. -/
theorem work_cases {w : Fin n} {now : Bytes} {fails : Bool} (hl : l.step = .work w now fails)
    (hstore : ∀ t, s.dispatcher.pool.workers w = .running t →
      t.task.request.type = .storeDatabaseValue)
    (hstep : s.step parse payloads l = some s') : Quiet s s' ∨ ∃ t, StoresValue s s' w t := by
  have hwork := dispatcher_step hstep
  rw [hl] at hwork
  cases hw : s.dispatcher.pool.workers w with
  | ready | asleep | exited => simp [RequestDispatcher.step, RequestDispatcher.work, hw] at hwork
  | running t =>
      have htype := hstore t hw
      simp only [RequestDispatcher.step, RequestDispatcher.work, hw] at hwork
      cases hat : s.dispatcher.jobs t.task.call with
      | absent | queued => simp [hat] at hwork
      | executing =>
          simp only [hat, Option.some.injEq, RequestDispatcher.executeWorkerRequest, htype] at hwork
          cases fails with
          | false =>
              refine Or.inl (.of_executing hw hat htype hl hstep ?_)
              exact hwork ▸ hasStored_update (by rw [hat]; exact Iff.rfl)
          | true =>
              refine Or.inl (.of_failed hl hstep ?_)
              exact hwork ▸ hasStored_update (by rw [hat]; exact Iff.rfl)
      | upserting =>
          cases fails with
          | false => exact Or.inr ⟨t, .of_upserting hw hat hl hstep⟩
          | true =>
              simp only [hat, if_true, Option.some.injEq] at hwork
              refine Or.inl (.of_failed hl hstep ?_)
              exact hwork ▸ hasStored_update (by rw [hat]; exact Iff.rfl)
      | recording ack =>
          simp only [hat, Option.some.injEq] at hwork
          refine Or.inl (.of_pure hl (by simp [statements, hw, hat]) (by simp [storing, hw, hat])
            hstep ?_)
          refine hwork ▸ hasStored_update ?_
          rw [show (s.dispatcher.addAck t.task.call true ack).jobs = s.dispatcher.jobs from rfl, hat]
          split <;> exact Iff.rfl
      | publishing ack =>
          simp only [hat, Option.some.injEq] at hwork
          refine Or.inl (.of_pure hl (by simp [statements, hw, hat]) (by simp [storing, hw, hat])
            hstep ?_)
          refine hwork ▸ hasStored_update ?_
          rw [show (s.dispatcher.publish t.task.call t.task.request ack).jobs = s.dispatcher.jobs
            from rfl, hat]
          exact Iff.rfl
      | ended threw =>
          simp only [hat] at hwork
          obtain ⟨pool, _, hd⟩ := Option.map_eq_some_iff.mp hwork
          refine Or.inl (.of_pure hl (by simp [statements, hw, hat]) (by simp [storing, hw, hat])
            hstep fun i => ?_)
          rw [← hd]

/-- What one step stores. -/
theorem step_cases (htracked : RequestDispatcher.Tracked parse payloads s.dispatcher)
    (hstore : ∀ i request, (parseRequest parse (payloads i)).request = some request →
      request.type = .storeDatabaseValue)
    (hstep : s.step parse payloads l = some s') : Quiet s s' ∨ ∃ w t, StoresValue s s' w t := by
  have hd := dispatcher_step hstep
  have hquiet : (∀ w now fails, l.step ≠ .work w now fails) →
      (∀ i, HasStored (s'.dispatcher.jobs i) ↔ HasStored (s.dispatcher.jobs i)) → Quiet s s' := by
    intro hl hjobs
    obtain ⟨hdatabase, hstores⟩ := frame_step hstep hl
    exact ⟨hstores, hjobs, fun hfile => by rw [hdatabase]; exact ⟨hfile, rfl, id⟩⟩
  cases hl : l.step with
  | work w now fails =>
      refine (work_cases hl (fun t ht => ?_) hstep).imp_right fun ⟨t, ht⟩ => ⟨w, t, ht⟩
      have haccepted := RequestDispatcher.mem_accepted_of_running htracked ht
      exact hstore _ _ (htracked.matched.accepted t haccepted).2
  | advance i now =>
      rw [hl] at hd
      refine Or.inl (hquiet (by simp [hl]) ?_)
      rcases RequestDispatcher.jobs_advance hd with hjobs | ⟨⟨request, hat⟩, hjobs⟩
      · exact fun i' => by rw [hjobs]
      · have hprogress := htracked.progress i
        rw [hat] at hprogress
        rw [hjobs]
        exact hasStored_update (by rw [hprogress.of_preparing.2.1]; exact Iff.rfl)
  | lock w =>
      rw [hl] at hd
      obtain ⟨pool, _, hd'⟩ := Option.map_eq_some_iff.mp hd
      refine Or.inl (hquiet (by simp [hl]) ?_)
      rw [← hd']
      cases htasks : s.dispatcher.pool.tasks with
      | nil => exact fun i => by rw [RequestDispatcher.startJob, htasks]
      | cons t rest =>
          have hjob := htracked.matched.queued t (htasks ▸ List.mem_cons_self)
          rw [RequestDispatcher.startJob, htasks]
          exact hasStored_update (by rw [hjob]; exact Iff.rfl)
  | stopAccepting =>
      rw [hl] at hd
      exact Or.inl (hquiet (by simp [hl]) fun i => by rw [← Option.some.inj hd])
  | setStop | notifyOne | notifyNobody | notifyAll | wakeSpuriously =>
      rw [hl] at hd
      obtain ⟨pool, _, hd'⟩ := RequestDispatcher.poolStep_eq_some.mp hd
      exact Or.inl (hquiet (by simp [hl]) fun i => by rw [← hd'])

end Steps

end StoringDispatcher

end Watchlist.Dispatch
