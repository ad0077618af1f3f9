import Watchlist.Dispatch.AcceptanceOrder
import Watchlist.Server.Sessions

/-!
The two stores of the server coexist as long as `Initialize` looks at the objects of the
file before the key/value store has made its table; after that `Initialize` throws, in
this session and in all later ones.

Each store keeps to its own table. The invariant says what each has left in the file,
that what is left of `Initialize` ends, and that a value is acknowledged with `ok` only
after it has been stored.
-/

namespace Watchlist

open Bytes Transition Concurrency Messaging Sqlite Faulty Storage KeyValueStore Gui Dispatch

namespace Server

variable {n k : ℕ} {parse : Bytes → Document}

/-! ### What is acknowledged has been stored -/

section Acknowledgements

variable {payloads : Fin k → Bytes} {d d' : RequestDispatcher n k}

theorem eq_entry_of_mem {payload : Bytes} {request : MqttRequest} {e : Bytes × Bytes}
    (hparsed : (parseRequest parse payload).request = some request)
    (he : e ∈ storeEntry parse payload) :
    request.type = .storeDatabaseValue ∧ e = StoringDispatcher.entry request := by
  simp only [storeEntry, hparsed, Option.mem_def] at he
  split at he
  · rename_i htype
    exact ⟨htype, (Option.some.inj he).symm⟩
  · cases he

/-- A worker that is about to record, and an `ok` that has been recorded, have the value
of their request in the store. -/
structure Vouched (parse : Bytes → Document) (payloads : Fin k → Bytes)
    (d : RequestDispatcher n k) : Prop where
  /-- the calls themselves only record errors -/
  calls : ∀ i route ack, d.calls i = .recording route ack → ack.status = ascii "error"
  jobs : ∀ i ack, d.jobs i = .recording ack →
    ∀ e ∈ storeEntry parse (payloads i), e ∈ d.stored
  acks : ∀ a ∈ d.acks, a.ack.status = ascii "ok" →
    ∀ e ∈ storeEntry parse (payloads a.call), e ∈ d.stored

theorem vouched_initial : Vouched parse payloads (.initial n k) where
  calls := by simp [RequestDispatcher.initial]
  jobs := by simp [RequestDispatcher.initial]
  acks := by simp [RequestDispatcher.initial]

/-- A step that records nothing, and starts no recording but of errors. -/
theorem Vouched.of_quiet (h : Vouched parse payloads d) (hstored : d'.stored = d.stored)
    (hacks : d'.acks = d.acks)
    (hcalls : ∀ i route ack, d'.calls i = .recording route ack →
      d.calls i = .recording route ack ∨ ack.status = ascii "error")
    (hjobs : ∀ i ack, d'.jobs i = .recording ack → d.jobs i = .recording ack) :
    Vouched parse payloads d' where
  calls := fun i route ack hat => (hcalls i route ack hat).elim (h.calls i route ack) id
  jobs := by
    intro i ack hat
    rw [hstored]
    exact h.jobs i ack (hjobs i ack hat)
  acks := by
    rw [hstored, hacks]
    exact h.acks

theorem calls_setCall {i i' : Fin k} {at' : CallPc} {route : MqttRequest} {ack : MqttAck}
    (h : (d.setCall i at').calls i' = .recording route ack) :
    d.calls i' = .recording route ack ∨ at' = .recording route ack := by
  change Function.update d.calls i at' i' = _ at h
  by_cases hi : i' = i
  · rw [hi, Function.update_self] at h
    exact Or.inr h
  · rw [Function.update_of_ne hi] at h
    exact Or.inl h

theorem jobs_setJob {i i' : Fin k} {at' : JobPc} {ack : MqttAck}
    (h : (d.setJob i at').jobs i' = .recording ack) :
    d.jobs i' = .recording ack ∨ i' = i ∧ at' = .recording ack := by
  change Function.update d.jobs i at' i' = _ at h
  by_cases hi : i' = i
  · rw [hi, Function.update_self] at h
    exact Or.inr ⟨hi, h⟩
  · rw [Function.update_of_ne hi] at h
    exact Or.inl h

theorem Vouched.prepare (h : Vouched parse payloads d) (i : Fin k) (now : Bytes)
    (request : MqttRequest) (stage : Stage) :
    Vouched parse payloads (d.prepare i now request stage) := by
  have hmoved : ∀ at', (∀ route ack, at' = .recording route ack → ack.status = ascii "error") →
      Vouched parse payloads (d.setCall i at') := by
    intro at' herror
    refine h.of_quiet rfl rfl (fun i' route ack hat => ?_) fun _ _ => id
    exact (calls_setCall hat).imp_right (herror route ack)
  have hrefused : Vouched parse payloads
      (d.setCall i (.recording request (shuttingDown now request))) := by
    apply hmoved
    rintro _ _ ⟨⟩
    rfl
  have hgoes : ∀ stage', Vouched parse payloads (d.setCall i (.preparing stage' request)) :=
    fun _ => hmoved _ (by rintro _ _ ⟨⟩)
  cases stage with
  | handling | dispatching =>
      rw [RequestDispatcher.prepare]
      split
      · exact hgoes _
      · exact hrefused
  | noting =>
      have hnoted := hgoes .enqueueing
      exact ⟨hnoted.calls, hnoted.jobs, hnoted.acks⟩
  | enqueueing =>
      rw [RequestDispatcher.prepare]
      split
      · exact ⟨hrefused.calls, hrefused.jobs, hrefused.acks⟩
      · refine h.of_quiet rfl rfl (fun i' route ack hat => Or.inl ?_) fun i' ack hat => ?_
        · exact (calls_setCall hat).resolve_right (by rintro ⟨⟩)
        · exact (jobs_setJob (d := d) hat).resolve_right (by rintro ⟨-, ⟨⟩⟩)

theorem Vouched.advance (h : Vouched parse payloads d) {i : Fin k} {now : Bytes}
    (hstep : d.advance parse payloads i now = some d') : Vouched parse payloads d' := by
  cases hat : d.calls i with
  | notCalled =>
      cases hrequest : (parseRequest parse (payloads i)).request with
      | none =>
          simp only [RequestDispatcher.advance, hat, hrequest, Option.some.injEq] at hstep
          subst hstep
          refine h.of_quiet rfl rfl (fun i' route ack hat' => ?_) fun _ _ => id
          refine (calls_setCall hat').imp_right ?_
          rintro ⟨⟩
          rfl
      | some request =>
          simp only [RequestDispatcher.advance, hat, hrequest, Option.some.injEq] at hstep
          subst hstep
          refine h.of_quiet rfl rfl (fun i' route ack hat' => Or.inl ?_) fun _ _ => id
          exact (calls_setCall hat').resolve_right (by rintro ⟨⟩)
  | preparing stage request =>
      simp only [RequestDispatcher.advance, hat, Option.some.injEq] at hstep
      exact hstep ▸ h.prepare i now request stage
  | recording route ack =>
      simp only [RequestDispatcher.advance, hat, Option.some.injEq] at hstep
      subst hstep
      refine ⟨fun i' route' ack' hat' => ?_, h.jobs, fun a ha hok => ?_⟩
      · refine h.calls i' route' ack' ((calls_setCall hat').resolve_right ?_)
        split <;> rintro ⟨⟩
      · -- the call records an error
        rcases List.mem_append.mp ha with ha | ha
        · exact h.acks a ha hok
        · obtain rfl := List.mem_singleton.mp ha
          have herror := (h.calls i route ack hat).symm.trans hok
          exact absurd herror (by decide)
  | publishing route ack =>
      simp only [RequestDispatcher.advance, hat, Option.some.injEq] at hstep
      subst hstep
      refine ⟨fun i' route' ack' hat' => ?_, h.jobs, h.acks⟩
      exact h.calls i' route' ack' ((calls_setCall hat').resolve_right (by rintro ⟨⟩))
  | returned b => simp [RequestDispatcher.advance, hat] at hstep

/-- What the step of a worker does to the history of the store. -/
theorem stored_work {w : Fin n} {now : Bytes} {fails : Bool}
    (hstep : d.work w now fails = some d') :
    (d'.stored = d.stored ∧ ∀ t, d.pool.workers w = .running t →
      d.jobs t.task.call = .upserting → fails = true) ∨
    ∃ t, d.pool.workers w = .running t ∧ d.jobs t.task.call = .upserting ∧ fails = false ∧
      d'.stored = d.stored ++ [StoringDispatcher.entry t.task.request] := by
  cases hw : d.pool.workers w with
  | ready | asleep | exited => simp [RequestDispatcher.work, hw] at hstep
  | running t =>
      simp only [RequestDispatcher.work, hw] at hstep
      cases hat : d.jobs t.task.call with
      | absent | queued => simp [hat] at hstep
      | executing | recording | publishing =>
          simp only [hat, Option.some.injEq] at hstep
          refine Or.inl ⟨by rw [← hstep]; rfl, fun t' ht' hup => ?_⟩
          obtain rfl : t = t' := by simpa using ht'
          simp [hat] at hup
      | ended threw =>
          simp only [hat] at hstep
          obtain ⟨pool, _, rfl⟩ := Option.map_eq_some_iff.mp hstep
          refine Or.inl ⟨rfl, fun t' ht' hup => ?_⟩
          obtain rfl : t = t' := by simpa using ht'
          simp [hat] at hup
      | upserting =>
          cases fails with
          | true =>
              simp only [hat, if_true, Option.some.injEq] at hstep
              exact Or.inl ⟨by rw [← hstep]; rfl, fun _ _ _ => rfl⟩
          | false =>
              simp only [hat, Bool.false_eq_true, if_false, Option.some.injEq] at hstep
              exact Or.inr ⟨t, rfl, hat, rfl, by rw [← hstep]; rfl⟩

/-- A worker that has stored its value, or needs to store none, may record an `ok`. -/
theorem Vouched.work (h : Vouched parse payloads d)
    (htracked : RequestDispatcher.Tracked parse payloads d) {w : Fin n} {now : Bytes} {fails : Bool}
    (hstep : d.work w now fails = some d') : Vouched parse payloads d' := by
  cases hw : d.pool.workers w with
  | ready | asleep | exited => simp [RequestDispatcher.work, hw] at hstep
  | running t =>
      have haccepted := RequestDispatcher.mem_accepted_of_running htracked hw
      have hparsed := (htracked.matched.accepted t haccepted).2
      simp only [RequestDispatcher.work, hw] at hstep
      cases hat : d.jobs t.task.call with
      | absent | queued => simp [hat] at hstep
      | executing =>
          simp only [hat, Option.some.injEq] at hstep
          subst hstep
          refine ⟨h.calls, fun i ack hat' e he => ?_, h.acks⟩
          rcases jobs_setJob hat' with hold | ⟨rfl, hnew⟩
          · exact h.jobs i ack hold e he
          · -- a request to store a value does not record yet
            obtain ⟨htype, -⟩ := eq_entry_of_mem hparsed he
            simp only [RequestDispatcher.executeWorkerRequest, htype] at hnew
            split at hnew <;> cases hnew
      | upserting =>
          cases fails with
          | true =>
              simp only [hat, if_true, Option.some.injEq] at hstep
              subst hstep
              refine h.of_quiet rfl rfl (fun _ _ _ => Or.inl) fun i ack hat' => ?_
              exact (jobs_setJob hat').resolve_right (by rintro ⟨-, ⟨⟩⟩)
          | false =>
              simp only [hat, Bool.false_eq_true, if_false, Option.some.injEq] at hstep
              subst hstep
              have hmono : ∀ e ∈ d.stored, e ∈ d.stored ++
                  [(t.task.request.key.getD [], t.task.request.value.getD [])] :=
                fun e => List.mem_append_left _
              refine ⟨h.calls, fun i ack hat' e he => ?_,
                fun a ha hok e he => hmono e (h.acks a ha hok e he)⟩
              rcases jobs_setJob (d := d) hat' with hold | ⟨rfl, -⟩
              · exact hmono e (h.jobs i ack hold e he)
              · obtain ⟨-, rfl⟩ := eq_entry_of_mem hparsed he
                exact List.mem_append_right _ List.mem_cons_self
      | recording ack =>
          simp only [hat, Option.some.injEq] at hstep
          subst hstep
          refine ⟨h.calls, fun i ack' hat' => ?_, fun a ha hok => ?_⟩
          · refine h.jobs i ack' ((jobs_setJob (d := d.addAck t.task.call true ack)
              hat').resolve_right fun hnew => ?_)
            have hnever := hnew.2
            split at hnever <;> cases hnever
          · rcases List.mem_append.mp ha with ha | ha
            · exact h.acks a ha hok
            · obtain rfl := List.mem_singleton.mp ha
              exact h.jobs t.task.call ack hat
      | publishing ack =>
          simp only [hat, Option.some.injEq] at hstep
          subst hstep
          refine ⟨h.calls, fun i ack' hat' => ?_, h.acks⟩
          exact h.jobs i ack' ((jobs_setJob (d := d.publish t.task.call t.task.request ack)
            hat').resolve_right (by rintro ⟨-, ⟨⟩⟩))
      | ended threw =>
          simp only [hat] at hstep
          obtain ⟨pool, _, rfl⟩ := Option.map_eq_some_iff.mp hstep
          exact ⟨h.calls, h.jobs, h.acks⟩

theorem jobs_startJob {i : Fin k} {ack : MqttAck} (h : d.startJob.jobs i = .recording ack) :
    d.jobs i = .recording ack := by
  unfold RequestDispatcher.startJob at h
  split at h
  · exact h
  · exact (jobs_setJob h).resolve_right fun hnew => nomatch hnew.2

theorem startJob_records : d.startJob.stored = d.stored ∧ d.startJob.acks = d.acks ∧
    d.startJob.calls = d.calls := by
  unfold RequestDispatcher.startJob
  split <;> exact ⟨rfl, rfl, rfl⟩

theorem Vouched.step (h : Vouched parse payloads d)
    (htracked : RequestDispatcher.Tracked parse payloads d) {l : RequestDispatcher.Label n k}
    (hstep : d.step parse payloads l = some d') : Vouched parse payloads d' := by
  cases l with
  | advance i now => exact h.advance hstep
  | work w now fails => exact h.work htracked hstep
  | stopAccepting =>
      obtain rfl := Option.some.inj hstep
      exact ⟨h.calls, h.jobs, h.acks⟩
  | lock w =>
      obtain ⟨pool, _, rfl⟩ := Option.map_eq_some_iff.mp hstep
      obtain ⟨hstored, hacks, hcalls⟩ := startJob_records (d := d)
      exact h.of_quiet hstored hacks (fun i route ack hat => Or.inl (hcalls ▸ hat))
        fun i ack => jobs_startJob
  | setStop | notifyOne | notifyNobody | notifyAll | wakeSpuriously =>
      obtain ⟨pool, _, rfl⟩ := RequestDispatcher.poolStep_eq_some.mp hstep
      exact ⟨h.calls, h.jobs, h.acks⟩

/-- Only workers store. -/
theorem stored_step {l : RequestDispatcher.Label n k} (hstep : d.step parse payloads l = some d')
    (hl : ∀ w now fails, l ≠ .work w now fails) : d'.stored = d.stored := by
  cases l with
  | work w now fails => exact absurd rfl (hl w now fails)
  | advance i now =>
      simp only [RequestDispatcher.step, RequestDispatcher.advance] at hstep
      split at hstep
      · split at hstep <;> exact Option.some.inj hstep ▸ rfl
      · rename_i stage request _
        rw [← Option.some.inj hstep]
        cases stage with
        | noting => rfl
        | handling | dispatching | enqueueing =>
            rw [RequestDispatcher.prepare]
            split <;> rfl
      · exact Option.some.inj hstep ▸ rfl
      · exact Option.some.inj hstep ▸ rfl
      · cases hstep
  | stopAccepting =>
      obtain rfl := Option.some.inj hstep
      rfl
  | lock w =>
      obtain ⟨pool, _, rfl⟩ := Option.map_eq_some_iff.mp hstep
      exact startJob_records.1
  | setStop | notifyOne | notifyNobody | notifyAll | wakeSpuriously =>
      obtain ⟨pool, _, rfl⟩ := RequestDispatcher.poolStep_eq_some.mp hstep
      rfl

end Acknowledgements

/-! ### What the dispatcher does to the file -/

section Store

theorem storeOnly_initializeStore {w w' : World Database} {u : Unit} (h : StoreFile w.state)
    (hrun : initializeStore w = (.ok u, w')) : StoreOnly w.state w'.state := by
  have hsome := (h.initializeStore hrun).2.2
  unfold initializeStore at hrun
  have habsent : w'.state.findTable kvStoreName = none → w'.state = w.state := by
    intro hnone
    rw [hnone] at hsome
    cases hsome
  rcases h.initialized (execute_eq_ok hrun) with ⟨hstate, -⟩ | ⟨-, hstate⟩
  · exact ⟨by rw [hstate], by rw [hstate], habsent⟩
  · refine ⟨by rw [hstate], ?_, habsent⟩
    have hother : [kvStoreTable].find? (fun t => t.name = itemsName) = none := by decide
    rw [hstate, Database.findTable, Database.findTable, List.find?_append, hother, Option.or_none]

theorem storeOnly_upsert {key value now : Bytes} {w w' : World Database} {u : Unit}
    (h : StoreFile w.state) (hrun : upsert key value now w = (.ok u, w')) :
    StoreOnly w.state w'.state := by
  have hsome := (h.upsert hrun).2.2
  obtain ⟨t, t', ht, hupsert, hstate⟩ := Database.onTable_eq_ok (execute_eq_ok hrun)
  have hname : t'.name = kvStoreName :=
    ((h.table t ht).upsert hupsert).1.trans (Database.findTable_name ht)
  refine ⟨by rw [hstate]; rfl, ?_, fun hnone => ?_⟩
  · rw [hstate]
    exact Database.findTable_setTable_of_ne (by decide) hname
  · rw [hnone] at hsome
    cases hsome

variable {payloads : Fin k → Bytes} {s s' : StoringDispatcher n k} {l : StoringDispatcher.Label n k}

/-- What a step of the dispatcher does to a file with a key/value store. -/
structure Stores (s s' : StoringDispatcher n k) : Prop where
  file : StoreFile s'.database
  only : StoreOnly s.database s'.database
  kept : (s.database.findTable kvStoreName).isSome = true →
    (s'.database.findTable kvStoreName).isSome = true
  values : (s'.dispatcher.stored = s.dispatcher.stored ∧ values s'.database = values s.database) ∨
    ∃ e, s'.dispatcher.stored = s.dispatcher.stored ++ [e] ∧
      values s'.database = store (values s.database) e ∧
      (s'.database.findTable kvStoreName).isSome = true

theorem Stores.of_same (hfile : StoreFile s.database) (hdatabase : s'.database = s.database)
    (hstored : s'.dispatcher.stored = s.dispatcher.stored) : Stores s s' where
  file := hdatabase ▸ hfile
  only := hdatabase ▸ .refl _
  kept := by
    rw [hdatabase]
    exact id
  values := Or.inl ⟨hstored, by rw [hdatabase]⟩

theorem Stores.of_work (hfile : StoreFile s.database) {w : Fin n} {now : Bytes} {fails : Bool}
    (hl : l.step = .work w now fails) (hstep : s.step parse payloads l = some s') :
    Stores s s' := by
  have hwork := StoringDispatcher.dispatcher_step hstep
  rw [hl] at hwork
  obtain ⟨hfails, hdatabase, -⟩ := StoringDispatcher.work_step hl hstep
  rcases stored_work hwork with ⟨hstored, hquiet⟩ | ⟨t, hw, hat, rfl, hstored⟩
  · cases hok : (s.outcome w l).1.isOk with
    | false =>
        rw [StoringDispatcher.database_of_error hok] at hdatabase
        exact .of_same hfile hdatabase hstored
    | true =>
        rw [hok] at hfails
        rcases hrun : s.outcome w l with ⟨e | u, v⟩
        · rw [hrun] at hok
          cases hok
        · rw [hrun] at hdatabase
          have hnothing : (pure () : Sql Unit) ⟨s.database, l.faults⟩ = (.ok u, v) →
              Stores s s' := by
            intro hpure
            obtain ⟨-, rfl⟩ := Prod.mk.inj hpure
            exact .of_same hfile hdatabase hstored
          rw [StoringDispatcher.outcome, StoringDispatcher.statements] at hrun
          cases hw : s.dispatcher.pool.workers w with
          | ready | asleep | exited =>
              simp only [hw] at hrun
              exact hnothing hrun
          | running t =>
              simp only [hw] at hrun
              cases hat : s.dispatcher.jobs t.task.call with
              | upserting =>
                  rw [hquiet t hw hat] at hfails
                  cases hfails
              | absent | queued | recording | publishing | ended =>
                  simp only [hat] at hrun
                  exact hnothing hrun
              | executing =>
                  simp only [hat] at hrun
                  cases htype : t.task.request.type with
                  | executeScript | sendToDevice | cmdToDevice | queryAiPrompt =>
                      simp only [htype] at hrun
                      exact hnothing hrun
                  | storeDatabaseValue =>
                      -- the table is made when it is not there
                      simp only [htype] at hrun
                      obtain ⟨_, w₁, hopen, hinit⟩ := Program.bind_eq_ok.mp hrun
                      have hstate : w₁.state = s.database := construct_eq_ok hopen
                      rw [← hstate] at hfile
                      obtain ⟨hfile', hvalues, hsome⟩ := StoreFile.initializeStore hfile hinit
                      have honly := storeOnly_initializeStore hfile hinit
                      rw [hstate] at hvalues honly
                      rw [← hdatabase] at hfile' hvalues hsome honly
                      exact ⟨hfile', honly, fun _ => hsome, Or.inl ⟨hstored, hvalues⟩⟩
  · rcases hrun : s.outcome w l with ⟨e | u, v⟩
    · rw [hrun] at hfails
      cases hfails
    · rw [hrun] at hdatabase
      simp only [StoringDispatcher.outcome, StoringDispatcher.statements, hw, hat] at hrun
      obtain ⟨hfile', hvalues, hsome⟩ := StoreFile.upsert hfile hrun
      have honly := storeOnly_upsert hfile hrun
      rw [← hdatabase] at hfile' hvalues hsome honly
      exact ⟨hfile', honly, fun _ => hsome, Or.inr ⟨_, hstored, hvalues, hsome⟩⟩

theorem Stores.of_step (hfile : StoreFile s.database)
    (hstep : s.step parse payloads l = some s') : Stores s s' := by
  by_cases hl : ∃ w now fails, l.step = .work w now fails
  · obtain ⟨w, now, fails, hl⟩ := hl
    exact .of_work hfile hl hstep
  · have hl' : ∀ w now fails, l.step ≠ .work w now fails :=
      fun w now fails heq => hl ⟨w, now, fails, heq⟩
    exact .of_same hfile (StoringDispatcher.frame_step hstep hl').1
      (stored_step (StoringDispatcher.dispatcher_step hstep) hl')

end Store

/-! ### What a device command does to the file -/

section Commands

open Faulty.Program

theorem operation_eq_ok {α : Type} {p : Sql α} (hp : ChangesRows p) {w w' : World SQLiteDatabase}
    {a : α} (h : SQLiteDatabase.operation p w = (.ok a, w')) :
    RowsOnly w.state.database w'.state.database := by
  have hready : SQLiteDatabase.ensureInitialized.ReadOnly :=
    readOnly_bind (readOnly_inspect _) fun _ => readOnly_require _ _
  obtain ⟨_, w₁, hcheck, hfile⟩ := bind_eq_ok.mp h
  obtain ⟨v, hv, rfl⟩ := zoom_eq hfile
  rw [← hready.of_eq hcheck]
  exact hp _ _ _ hv

theorem atomic_operation {α : Type} {p : Sql α} (hp : p.Atomic) :
    (SQLiteDatabase.operation p).Atomic := by
  refine atomic_bind (readOnly_bind (readOnly_inspect _) fun _ => readOnly_require _ _) fun _ => ?_
  exact atomic_zoom (fun _ => rfl) hp

theorem atomic_executeCommand (c : DeviceCommand) : (executeCommand sqliteDatabase c).Atomic := by
  have hwrite : ∀ (r : Except StorageError Unit) f,
      (SQLiteDatabase.operation (do ofExcept r; Storage.execute f)).Atomic := fun r f =>
    atomic_operation (atomic_bind (readOnly_ofExcept _) fun _ => atomic_command _ _)
  unfold executeCommand
  cases c.kind with
  | refresh => exact (readOnly_pure _).atomic
  | add | edit | setAlive =>
      cases c.device with
      | none => exact (readOnly_fail _).atomic
      | some device => exact hwrite _ _
  | delete =>
      intro w e w' h
      rcases bind_eq_error.mp h with hremove | ⟨_, _, _, hpure⟩
      · exact atomic_operation (atomic_statement _ _) w e w' hremove
      · cases hpure

theorem executeCommand_eq_ok {c : DeviceCommand} {w w' : World SQLiteDatabase} {u : Unit}
    (h : executeCommand sqliteDatabase c w = (.ok u, w')) :
    RowsOnly w.state.database w'.state.database := by
  have hchecked {r : Except StorageError Unit} {p : Sql Unit} (hp : ChangesRows p) :
      ChangesRows (do ofExcept r; p) :=
    (changesRows_of_readOnly (readOnly_ofExcept r)).bind fun _ => hp
  unfold executeCommand at h
  cases hkind : c.kind with
  | refresh =>
      simp only [hkind] at h
      obtain ⟨-, rfl⟩ := Prod.mk.inj h
      exact .refl _
  | add =>
      cases hdevice : c.device with
      | none => simp [hkind, hdevice] at h
      | some device =>
          simp only [hkind, hdevice] at h
          exact operation_eq_ok (hchecked (changesRows_insertItem _)) h
  | edit | setAlive =>
      cases hdevice : c.device with
      | none => simp [hkind, hdevice] at h
      | some device =>
          simp only [hkind, hdevice] at h
          exact operation_eq_ok
            (hchecked (changesRows_onTable fun _ _ => sameDefinition_upsert)) h
  | delete =>
      simp only [hkind] at h
      obtain ⟨b, w₁, hremove, hpure⟩ := bind_eq_ok.mp h
      obtain ⟨-, rfl⟩ := Prod.mk.inj hpure
      exact operation_eq_ok (changesRows_deleteItem _) hremove

theorem currentFile_of_rows {db db' : Database} {m m' : DeviceMap} (h : CurrentFile db m)
    (hrows : RowsOnly db db') (hm : Represents db' m') :
    CurrentFile db' m' ∧ ItemsOnly db db' := by
  have hstore : db'.findTable kvStoreName = db.findTable kvStoreName :=
    hrows.tables kvStoreName (by decide)
  refine ⟨⟨hm, ?_, fun hnone => ?_⟩, hstore, hrows.others⟩
  · obtain ⟨t, sql, ht, hnamed, hsql, htext⟩ := h.definition
    obtain ⟨t', ht', hsame⟩ := hrows.items t ht
    exact ⟨t', sql, ht', hsame.quotableIndexes hnamed, hsame.sql.trans hsql, htext⟩
  · rw [userObjects, hrows.master]
    exact h.objects (hstore ▸ hnone)

/-- A device command returns and takes the step of the map, or throws and does nothing. -/
theorem executeCommand_cases {db : Database} {m : DeviceMap} (h : CurrentFile db m)
    (c : DeviceCommand) :
    (∃ u w m', executeCommand sqliteDatabase c ⟨⟨db, true⟩, []⟩ = (.ok u, w) ∧
      applyCommand m c = .ok m' ∧ CurrentFile w.state.database m' ∧
      ItemsOnly db w.state.database) ∨
    ∃ e w, executeCommand sqliteDatabase c ⟨⟨db, true⟩, []⟩ = (.error e, w) ∧
      w.state.database = db := by
  have hkeeps := executeCommand_keeps sqliteDatabase_refines
    (w := ⟨⟨db, true⟩, []⟩) (show Holds ⟨db, true⟩ m from h.holds) c
  rcases hrun : executeCommand sqliteDatabase c ⟨⟨db, true⟩, []⟩ with ⟨e | u, w⟩
  · exact Or.inr ⟨e, w, rfl, by rw [atomic_executeCommand c _ _ _ hrun]⟩
  · rw [hrun] at hkeeps
    obtain ⟨m', happlied, hm'⟩ := hkeeps
    obtain ⟨hcurrent, hitems⟩ := currentFile_of_rows h (executeCommand_eq_ok hrun) hm'
    exact Or.inl ⟨u, w, m', rfl, happlied, hcurrent, hitems⟩

end Commands

/-! ### The invariant -/

/-- What is left of `Initialize` ends, and commands find a current file. -/
def GoesWell (storage : StoragePc) (db : Database) : Prop :=
  match storage with
  | .notStarted => True
  | .initializing rest => rest.Ends SchemaQuery.answer StoreOnly KeepsDevices BeforeStore
      (fun _ db' => db'.userVersion = 1) db
  | .serving => db.userVersion = 1
  | .failed _ => False

theorem GoesWell.stable {storage : StoragePc} {db db' : Database} (h : GoesWell storage db)
    (hstore : StoreOnly db db') : GoesWell storage db' := by
  cases storage with
  | notStarted => trivial
  | initializing rest => exact Script.Ends.stable (fun _ _ _ => .trans) h hstore
  | serving => exact hstore.version.trans h
  | failed e => exact h

theorem goesWell_settle {rest : SqlScript Unit} {db : Database}
    (h : GoesWell (.initializing rest) db) : GoesWell (settle rest) db := by
  cases rest with
  | ret u => exact h db (.refl db)
  | throw e => exact h
  | ask q rest => exact h

variable {payloads : ℕ → Fin k → Bytes} {s s' : Server n k} {l : Label n k}

structure Coexists (parse : Bytes → Document) (payloads : ℕ → Fin k → Bytes)
    (s : Server n k) : Prop where
  file : StoreFile s.file
  values : values s.file = s.stored.foldl store fun _ => none
  table : s.stored ≠ [] → (s.file.findTable kvStoreName).isSome = true
  devices : ∃ m, applyAll .empty s.commands = .ok m ∧ DeviceFile s.file m
  thread : GoesWell s.storage s.file
  tracked : RequestDispatcher.Tracked parse (payloads s.session) s.dispatcher.dispatcher
  vouched : Vouched parse (payloads s.session) s.dispatcher.dispatcher
  before : ∀ e ∈ s.acknowledgedBefore, e ∈ s.storedBefore

theorem coexists_initial : Coexists parse payloads (initial n k) where
  file := StoringDispatcher.storeFile_empty
  values := rfl
  table := fun h => absurd rfl h
  devices := ⟨.empty, rfl, .fresh ⟨rfl, rfl, fun _ => rfl⟩⟩
  thread := trivial
  tracked := RequestDispatcher.tracked_initial
  vouched := vouched_initial
  before := by simp [initial]

/-- What is acknowledged with `ok` has been stored. -/
theorem Coexists.stored_of_acknowledged (h : Coexists parse payloads s) {e : Bytes × Bytes}
    (he : e ∈ s.acknowledged parse payloads) : e ∈ s.stored := by
  rcases List.mem_append.mp he with he | he
  · exact List.mem_append_left _ (h.before e he)
  · apply List.mem_append_right
    obtain ⟨a, ha, hentry⟩ := List.mem_filterMap.mp he
    obtain ⟨hmem, hok⟩ := List.mem_filter.mp ha
    exact h.vouched.acks a hmem (of_decide_eq_true hok) e hentry

/-- The device storage takes a step, and leaves the store alone. -/
theorem Coexists.of_items (h : Coexists parse payloads s) {storage : StoragePc} {db : Database}
    {commands : List DeviceCommand} (hitems : ItemsOnly s.file db)
    (hdevices : ∃ m, applyAll .empty commands = .ok m ∧ DeviceFile db m)
    (hthread : GoesWell storage db) :
    Coexists parse payloads { s.setFile db with storage := storage, commands := commands } where
  file := hitems.storeFile h.file
  values := hitems.values.trans h.values
  table := fun hne => hitems.store.symm ▸ h.table hne
  devices := hdevices
  thread := hthread
  tracked := h.tracked
  vouched := h.vouched
  before := h.before

theorem Coexists.query (h : Coexists parse payloads s) {rest : SqlScript Unit}
    (hrest : s.storage = .initializing rest) (hfirst : ObjectsReadFirst s .query) :
    Coexists parse payloads (s.query rest) := by
  have hthread := h.thread
  rw [hrest] at hthread
  cases rest with
  | ret u => exact h.of_items (.refl _) h.devices (goesWell_settle hthread)
  | throw e => exact hthread.elim
  | ask q rest =>
      have hsuits : BeforeStore _ q s.file := by
        simpa only [ObjectsReadFirst, hrest] using hfirst
      obtain ⟨b, db, hstep, hkeeps, hends⟩ := Script.Ends.step StoreOnly.refl hthread hsuits
      obtain ⟨m, happlied, hm⟩ := h.devices
      rw [Server.query, hstep]
      exact h.of_items hkeeps.items ⟨m, happlied, hkeeps.devices m hm⟩ (goesWell_settle hends)

theorem applyAll_concat {m m₁ m₂ : DeviceMap} {commands : List DeviceCommand} {c : DeviceCommand}
    (h : applyAll m commands = .ok m₁) (hc : applyCommand m₁ c = .ok m₂) :
    applyAll m (commands ++ [c]) = .ok m₂ := by
  rw [applyAll_append, h]
  show (applyAll m₁ [c]) = _
  rw [applyAll_cons, hc]
  rfl

theorem Coexists.current (h : Coexists parse payloads s) (hserving : s.storage = .serving) :
    ∃ m, applyAll .empty s.commands = .ok m ∧ CurrentFile s.file m := by
  have hversion := h.thread
  rw [hserving] at hversion
  obtain ⟨m, happlied, hm⟩ := h.devices
  cases hm with
  | fresh hfresh => exact absurd (hversion.symm.trans hfresh.version) (by decide)
  | current hcurrent => exact ⟨m, happlied, hcurrent⟩

theorem Coexists.command (h : Coexists parse payloads s) (hserving : s.storage = .serving)
    (c : DeviceCommand) : Coexists parse payloads (s.command c) := by
  obtain ⟨m, happlied, hcurrent⟩ := h.current hserving
  rcases executeCommand_cases hcurrent c with
    ⟨u, w, m', hrun, hstep, hcurrent', hitems⟩ | ⟨e, w, hrun, hfile⟩
  · rw [Server.command, hrun]
    have hthread : GoesWell s.storage w.state.database := by
      rw [hserving]
      exact hcurrent'.holds.version
    exact h.of_items hitems ⟨m', applyAll_concat happlied hstep, .current hcurrent'⟩ hthread
  · rw [Server.command, hrun]
    show Coexists parse payloads (s.setFile w.state.database)
    rw [hfile]
    exact h

theorem Coexists.dispatch (h : Coexists parse payloads s) {d : StoringDispatcher n k}
    {l : StoringDispatcher.Label n k}
    (hstep : s.dispatcher.step parse (payloads s.session) l = some d) :
    Coexists parse payloads { s with dispatcher := d } := by
  have hdispatcher := StoringDispatcher.dispatcher_step hstep
  have hstores : Stores s.dispatcher d := .of_step h.file hstep
  obtain ⟨m, happlied, hm⟩ := h.devices
  have hvalues : KeyValueStore.values d.database =
      (s.storedBefore ++ d.dispatcher.stored).foldl KeyValueStore.store (fun _ => none) ∧
      (s.storedBefore ++ d.dispatcher.stored ≠ [] →
        (d.database.findTable kvStoreName).isSome = true) := by
    have hbefore : KeyValueStore.values s.dispatcher.database =
        (s.storedBefore ++ s.dispatcher.dispatcher.stored).foldl _ _ := h.values
    rcases hstores.values with ⟨hstored, hvalues⟩ | ⟨e, hstored, hvalues, hsome⟩
    · rw [hstored, hvalues]
      exact ⟨hbefore, fun hne => hstores.kept (h.table hne)⟩
    · refine ⟨?_, fun _ => hsome⟩
      rw [hstored, hvalues, hbefore, ← List.append_assoc]
      exact (List.foldl_concat ..).symm
  exact {
    file := hstores.file
    values := hvalues.1
    table := hvalues.2
    devices := ⟨m, happlied, hm.stable hstores.only⟩
    thread := h.thread.stable hstores.only
    tracked := h.tracked.step hdispatcher
    vouched := h.vouched.step h.tracked hdispatcher
    before := h.before }

theorem Coexists.restart (h : Coexists parse payloads s) :
    Coexists parse payloads (s.restart parse payloads) := by
  have hstored : (s.restart parse payloads).stored = s.stored := List.append_nil _
  exact {
    file := h.file
    values := by
      rw [hstored]
      exact h.values
    table := by
      rw [hstored]
      exact h.table
    devices := h.devices
    thread := trivial
    tracked := RequestDispatcher.tracked_initial
    vouched := vouched_initial
    before := fun e => h.stored_of_acknowledged }

/-- The step lemma. -/
theorem Coexists.step (h : Coexists parse payloads s) (hfirst : ObjectsReadFirst s l)
    (hstep : s.step parse payloads l = some s') : Coexists parse payloads s' := by
  cases l with
  | run =>
      cases hstorage : s.storage with
      | notStarted =>
          simp only [Server.step, hstorage, Option.some.injEq] at hstep
          subst hstep
          obtain ⟨m, happlied, hm⟩ := h.devices
          exact h.of_items (.refl _) ⟨m, happlied, hm⟩ (InitializeScript.ends_initializeFile hm)
      | initializing | serving | failed => simp [Server.step, hstorage] at hstep
  | query =>
      cases hstorage : s.storage with
      | initializing rest =>
          simp only [Server.step, hstorage, Option.some.injEq] at hstep
          exact hstep ▸ h.query hstorage hfirst
      | notStarted | serving | failed => simp [Server.step, hstorage] at hstep
  | command c =>
      cases hstorage : s.storage with
      | serving =>
          simp only [Server.step, hstorage, Option.some.injEq] at hstep
          exact hstep ▸ h.command hstorage c
      | notStarted | initializing | failed => simp [Server.step, hstorage] at hstep
  | dispatch l clock =>
      obtain ⟨d, hd, rfl⟩ := Option.map_eq_some_iff.mp hstep
      exact h.dispatch hd
  | restart => exact Option.some.inj hstep ▸ h.restart

/-! ### The stores coexist -/

theorem returns_getAllSortedById {db : Database} {m : DeviceMap} (h : Represents db m) :
    sqliteDatabase.getAllSortedById.Returns ⟨db, true⟩ m.getAllSortedById ⟨db, true⟩ := by
  obtain ⟨items, t, hreturns⟩ := sqliteDatabase_answers.getAllSortedById ⟨db, true⟩ m ⟨rfl, h⟩
  have hkeeps := sqliteDatabase_refines.getAllSortedById ⟨⟨db, true⟩, []⟩ m h
  have hrun : sqliteDatabase.getAllSortedById ⟨⟨db, true⟩, []⟩ = (.ok items, ⟨t, []⟩) := hreturns
  rw [hrun] at hkeeps
  obtain ⟨_, ⟨rfl, -⟩, -⟩ := hkeeps
  have hread : sqliteDatabase.getAllSortedById.ReadOnly := by
    refine Program.readOnly_bind ?_ fun _ => ?_
    · exact Program.readOnly_bind (Program.readOnly_inspect _) fun _ => Program.readOnly_require _ _
    · exact Program.readOnly_zoom (fun _ => rfl) (SQLiteDatabase.readOnly_readItems _)
  obtain rfl : t = ⟨db, true⟩ := hread.of_eq hrun
  exact hreturns

/-- In every run in which `Initialize` reads the objects of the file before the key/value
store has made its table: `Initialize` does not throw, the devices that it exposes are
what the device commands so far have made of none, and what has been acknowledged with
`ok` is what `Get` returns, up to later stores of its key. -/
theorem stores_coexist {ls : List (Label n k)}
    (hmeets : (machine n k parse payloads).Meets ObjectsReadFirst (initial n k) ls)
    (hrun : (machine n k parse payloads).exec (initial n k) ls = some s) :
    (∀ e, s.storage ≠ .failed e) ∧
    (∃ m, applyAll .empty s.commands = .ok m ∧ (s.storage = .serving →
      sqliteDatabase.getAllSortedById.Returns ⟨s.file, true⟩ m.getAllSortedById ⟨s.file, true⟩)) ∧
    (∀ e ∈ s.acknowledged parse payloads, e ∈ s.stored) ∧
    ∀ before e after, s.stored = before ++ e :: after → (∀ e' ∈ after, e'.1 ≠ e.1) →
      (get e.1).Returns s.file (some e.2) s.file := by
  have h : Coexists parse payloads s := Machine.invariant_of_meets (Coexists parse payloads)
    (fun _ _ _ hs hfirst hstep => hs.step hfirst hstep) hmeets hrun coexists_initial
  refine ⟨fun e hfailed => ?_, ?_, fun e => h.stored_of_acknowledged, ?_⟩
  · have hthread := h.thread
    rw [hfailed] at hthread
    exact hthread
  · obtain ⟨m, happlied, -⟩ := h.devices
    refine ⟨m, happlied, fun hserving => ?_⟩
    obtain ⟨m', happlied', hcurrent⟩ := h.current hserving
    obtain rfl := Except.ok.inj (happlied.symm.trans happlied')
    exact returns_getAllSortedById hcurrent.holds
  · intro before e after hstored hlast
    have hvalue : values s.file e.1 = some e.2 := by
      rw [h.values, hstored]
      exact foldl_store_append hlast _
    exact hvalue ▸ returns_get (h.table (by simp [hstored])) e.1

/-! ### Two sessions and one value -/

def objectsReadFirst (s : Server n k) (l : Label n k) : Bool :=
  match l, s.storage with
  | .query, .initializing (.ask q _) =>
      !q.readsObjects || (s.file.findTable kvStoreName).isNone
  | _, _ => true

theorem objectsReadFirst_iff : objectsReadFirst s l = true ↔ ObjectsReadFirst s l := by
  cases l with
  | query =>
      cases hstorage : s.storage with
      | initializing rest =>
          cases rest with
          | ask q rest =>
              simp only [objectsReadFirst, ObjectsReadFirst, hstorage, BeforeStore, Bool.or_eq_true,
                Bool.not_eq_true', Option.isNone_iff_eq_none]
              cases q.readsObjects <;> simp
          | ret | throw => simp [objectsReadFirst, ObjectsReadFirst, hstorage]
      | notStarted | serving | failed => simp [objectsReadFirst, ObjectsReadFirst, hstorage]
  | run | command | dispatch | restart => simp [objectsReadFirst, ObjectsReadFirst]

instance (s : Server n k) (l : Label n k) : Decidable (ObjectsReadFirst s l) :=
  decidable_of_iff _ objectsReadFirst_iff

def storePayloads (_ : ℕ) (_ : Fin 1) : Bytes := serializeRequest (storeRequest (ascii "v"))

/-- The same step of the dispatcher several times. -/
def dispatches (m : ℕ) (l : RequestDispatcher.Label 1 1) : List (Label 1 1) :=
  List.replicate m (.dispatch l [])

/-- `Initialize` returns, a device is added, and then a value is stored. -/
def firstSession : List (Label 1 1) :=
  .run :: List.replicate 4 .query ++
    .command (.add ⟨ascii "a", ascii "A", ascii "10.0.0.1", 80, true⟩) ::
    dispatches 5 (.advance RequestDispatcher.sole []) ++
    dispatches 1 (.lock RequestDispatcher.sole) ++
    dispatches 5 (.work RequestDispatcher.sole [] false)

theorem meets_firstSession : (machine 1 1 lastMemberParser storePayloads).Meets ObjectsReadFirst
    (initial 1 1) firstSession := by
  decide +kernel

theorem stores_coexist_first :
    ∃ s, (machine 1 1 lastMemberParser storePayloads).exec (initial 1 1) firstSession = some s ∧
      (∀ e, s.storage ≠ .failed e) ∧
      (get (ascii "k")).Returns s.file (some (ascii "v")) s.file := by
  have hrun : ((machine 1 1 lastMemberParser storePayloads).exec (initial 1 1) firstSession).map
      stored = some [(ascii "k", ascii "v")] := by
    decide +kernel
  obtain ⟨s, hs, hstored⟩ := Option.map_eq_some_iff.mp hrun
  obtain ⟨hgoes, -, -, hget⟩ := stores_coexist meets_firstSession hs
  exact ⟨s, hs, hgoes, hget [] (ascii "k", ascii "v") [] hstored nofun⟩

def thrown (s : Server 1 1) : Option Bytes :=
  match s.storage with
  | .failed (.databaseSchemaError message) => some message
  | _ => none

/-- In the next session `Initialize` throws. -/
theorem next_session_fails :
    ∃ s, (machine 1 1 lastMemberParser storePayloads).exec (initial 1 1)
        (firstSession ++ [.restart, .run, .query, .query]) = some s ∧
      s.storage = .failed (.databaseSchemaError
        (ascii "database contains an unexpected table, view, or trigger")) := by
  have hrun : ((machine 1 1 lastMemberParser storePayloads).exec (initial 1 1)
      (firstSession ++ [.restart, .run, .query, .query])).map thrown =
        some (some (ascii "database contains an unexpected table, view, or trigger")) := by
    decide +kernel
  obtain ⟨s, hs, hthrown⟩ := Option.map_eq_some_iff.mp hrun
  refine ⟨s, hs, ?_⟩
  unfold thrown at hthrown
  split at hthrown
  · rename_i message hstorage
    rw [hstorage, Option.some.inj hthrown]
  · cases hthrown

end Server

end Watchlist
