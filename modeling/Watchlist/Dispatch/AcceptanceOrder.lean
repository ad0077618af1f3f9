import Watchlist.Dispatch.StoredValues

/-!
Stored values and the order of acceptance. The queue hands the jobs out in the
order in which their calls were accepted, so a value can be stored before an
older one only while the older job is being run by another worker.
-/

namespace Watchlist.Dispatch

open Bytes Transition Concurrency Messaging Sqlite Faulty Storage KeyValueStore

/-! ### The queue is in the order of the calls -/

namespace RequestDispatcher

variable {n k : ℕ} {parse : Bytes → Document} {payloads : Fin k → Bytes}
  {d d' : RequestDispatcher n k}

/-- What holds when the calls are made one after the other. -/
structure InOrder (d : RequestDispatcher n k) : Prop where
  /-- a call has been made only after the calls before it -/
  called : ∀ i j, i < j → d.calls j ≠ .notCalled → d.calls i = .returned true
  accepted : d.pool.accepted.Pairwise fun t t' => t.task.call < t'.task.call

theorem inOrder_initial : InOrder (initial n k) where
  called := fun _ _ _ hj => absurd rfl hj
  accepted := List.Pairwise.nil

/-- What a step of a call does to the calls and to the queue's history. -/
theorem advance_cases {i : Fin k} {now : Bytes}
    (hstep : d.advance parse payloads i now = some d') :
    (∀ j ≠ i, d'.calls j = d.calls j) ∧ (∀ b, d.calls i ≠ .returned b) ∧
      (d'.pool.accepted = d.pool.accepted ∨
        ∃ t, t.task.call = i ∧ d'.pool.accepted = d.pool.accepted ++ [t]) := by
  have hset : ∀ at', ∀ j ≠ i, Function.update d.calls i at' j = d.calls j :=
    fun _ j hj => Function.update_of_ne hj ..
  cases hat : d.calls i with
  | notCalled =>
      cases hrequest : (parseRequest parse (payloads i)).request with
      | none =>
          simp only [advance, hat, hrequest, Option.some.injEq] at hstep
          exact hstep ▸ ⟨hset _, by simp, Or.inl rfl⟩
      | some request =>
          simp only [advance, hat, hrequest, Option.some.injEq] at hstep
          exact hstep ▸ ⟨hset _, by simp, Or.inl rfl⟩
  | preparing stage request =>
      simp only [advance, hat, Option.some.injEq] at hstep
      subst hstep
      refine ⟨fun j hj => ?_, by simp, ?_⟩
      · cases stage with
        | handling | dispatching => rw [prepare]; split <;> exact hset _ j hj
        | noting => exact hset _ j hj
        | enqueueing => rw [prepare]; split <;> exact hset _ j hj
      · cases stage with
        | handling | dispatching => rw [prepare]; split <;> exact Or.inl rfl
        | noting => exact Or.inl rfl
        | enqueueing =>
            cases hstop : d.pool.stop with
            | true =>
                rw [prepare, if_pos hstop]
                exact Or.inl (by simp [ThreadPoolManager.enqueue, hstop])
            | false =>
                rw [prepare, if_neg (by simp [hstop])]
                refine Or.inr ⟨d.pool.nextTicket ⟨i, request⟩, rfl, ?_⟩
                simp [ThreadPoolManager.enqueue, hstop]
  | recording route ack =>
      simp only [advance, hat, Option.some.injEq] at hstep
      exact hstep ▸ ⟨hset _, by simp, Or.inl rfl⟩
  | publishing route ack =>
      simp only [advance, hat, Option.some.injEq] at hstep
      exact hstep ▸ ⟨hset _, by simp, Or.inl rfl⟩
  | returned b => simp [advance, hat] at hstep

/-- Only `enqueue` accepts. -/
theorem accepted_of_pool {p q : ThreadPoolManager n (Job k)}
    {l : ThreadPoolManager.Label n (Job k)} (h : p.step l = some q)
    (hl : ∀ job, l ≠ .enqueue job) : q.accepted = p.accepted := by
  cases l with
  | enqueue job => exact absurd rfl (hl job)
  | setStop =>
      obtain rfl := Option.some.inj h
      rfl
  | notifyOne | notifyNobody | notifyAll | wakeSpuriously =>
      obtain ⟨_, rfl⟩ := allow_eq_some.mp h
      rfl
  | lock w =>
      obtain ⟨_, rfl⟩ := allow_eq_some.mp h
      cases htasks : p.tasks with
      | nil =>
          rw [ThreadPoolManager.lock, htasks]
          simp only
          split <;> rfl
      | cons t rest => rw [ThreadPoolManager.lock, htasks]; rfl
  | finish w threw =>
      cases hw : p.workers w with
      | running t =>
          simp only [ThreadPoolManager.step, hw, Option.some.injEq] at h
          exact h ▸ rfl
      | ready | asleep | exited => simp [ThreadPoolManager.step, hw] at h

/-- A worker's step makes and accepts no call. -/
theorem work_frame {w : Fin n} {now : Bytes} {fails : Bool} (hstep : d.work w now fails = some d') :
    d'.calls = d.calls ∧ d'.pool.accepted = d.pool.accepted := by
  cases hw : d.pool.workers w with
  | ready | asleep | exited => simp [work, hw] at hstep
  | running t =>
      simp only [work, hw] at hstep
      cases hat : d.jobs t.task.call with
      | absent | queued => simp [hat] at hstep
      | executing | recording | publishing =>
          simp only [hat, Option.some.injEq] at hstep
          exact hstep ▸ ⟨rfl, rfl⟩
      | upserting =>
          cases fails <;> simp only [hat, if_true, Bool.false_eq_true, if_false,
            Option.some.injEq] at hstep <;> exact hstep ▸ ⟨rfl, rfl⟩
      | ended threw =>
          simp only [hat] at hstep
          obtain ⟨pool, hpool, rfl⟩ := Option.map_eq_some_iff.mp hstep
          exact ⟨rfl, accepted_of_pool hpool (by simp)⟩

/-- Neither does any other step outside the calls. -/
theorem step_frame {l : Label n k} (hstep : d.step parse payloads l = some d')
    (hl : ∀ i now, l ≠ .advance i now) :
    d'.calls = d.calls ∧ d'.pool.accepted = d.pool.accepted := by
  cases l with
  | advance i now => exact absurd rfl (hl i now)
  | work w now fails => exact work_frame hstep
  | stopAccepting =>
      obtain rfl := Option.some.inj hstep
      exact ⟨rfl, rfl⟩
  | lock w =>
      obtain ⟨pool, hpool, rfl⟩ := Option.map_eq_some_iff.mp hstep
      refine ⟨?_, accepted_of_pool hpool (by simp)⟩
      simp only [startJob]
      split <;> rfl
  | setStop | notifyOne | notifyNobody | notifyAll | wakeSpuriously =>
      obtain ⟨pool, hpool, rfl⟩ := poolStep_eq_some.mp hstep
      exact ⟨rfl, accepted_of_pool hpool (by simp)⟩

theorem InOrder.advance (h : InOrder d) (htracked : Tracked parse payloads d) {i : Fin k}
    {now : Bytes} (hbefore : ∀ j < i, d.calls j = .returned true)
    (hstep : d.advance parse payloads i now = some d') : InOrder d' := by
  obtain ⟨hcalls, hopen, haccepted⟩ := advance_cases hstep
  refine ⟨fun i' j hij hj => ?_, ?_⟩
  · have hreturned : d.calls i' = .returned true := by
      by_cases hji : j = i
      · exact hbefore i' (hji ▸ hij)
      · exact h.called i' j hij (hcalls j hji ▸ hj)
    rwa [hcalls i']
    rintro rfl
    exact hopen true hreturned
  · rcases haccepted with hsame | ⟨t, ht, hmore⟩
    · exact hsame ▸ h.accepted
    · -- the accepted calls have returned, so they come before this one
      rw [hmore, List.pairwise_append]
      refine ⟨h.accepted, List.pairwise_singleton _ t, fun t₀ ht₀ t' ht' => ?_⟩
      obtain rfl := List.mem_singleton.mp ht'
      have hreturned := (htracked.matched.accepted t₀ ht₀).1
      rw [ht]
      rcases lt_trichotomy t₀.task.call i with hlt | heq | hgt
      · exact hlt
      · exact absurd (heq ▸ hreturned) (hopen true)
      · exact absurd (h.called i _ hgt (by simp [hreturned])) (hopen true)

/-- A job is taken after the jobs of all earlier calls. -/
theorem InOrder.mem_started (h : InOrder d) (htracked : Tracked parse payloads d)
    {t t' : Ticket (Job k)} (ht' : t' ∈ d.pool.started) (ht : t ∈ d.pool.accepted)
    (hlt : t.task.call < t'.task.call) : t ∈ d.pool.started := by
  have haccepted := h.accepted
  rw [htracked.pool.queue] at ht haccepted
  rcases List.mem_append.mp ht with hstarted | hqueued
  · exact hstarted
  · exact absurd ((List.pairwise_append.mp haccepted).2.2 t' ht' t hqueued) (asymm hlt)

end RequestDispatcher

namespace StoringDispatcher

variable {n k : ℕ} {parse : Bytes → Document} {payloads : Fin k → Bytes}
  {requests : Fin k → MqttRequest} {db : Database} {s s' : StoringDispatcher n k}
  {l : Label n k}

/-- All payloads are valid requests to store a value. -/
def StoreRequests (parse : Bytes → Document) (payloads : Fin k → Bytes)
    (requests : Fin k → MqttRequest) : Prop :=
  ∀ i, (parseRequest parse (payloads i)).request = some (requests i) ∧
    (requests i).type = .storeDatabaseValue

/-! ### What is stored -/

/-- The file holds what the stores so far have made of its first contents. -/
structure Stores (parse : Bytes → Document) (payloads : Fin k → Bytes)
    (requests : Fin k → MqttRequest) (db : Database) (s : StoringDispatcher n k) : Prop where
  tracked : RequestDispatcher.Tracked parse payloads s.dispatcher
  file : StoreFile s.database
  values : values s.database =
    (s.stores.map fun i => entry (requests i)).foldl store (values db)
  table : s.stores ≠ [] → (s.database.findTable kvStoreName).isSome = true
  mem : ∀ i, i ∈ s.stores ↔ HasStored (s.dispatcher.jobs i)
  nodup : s.stores.Nodup

theorem stores_initial (hfile : StoreFile db) :
    Stores parse payloads requests db (initial n k db) where
  tracked := RequestDispatcher.tracked_initial
  file := hfile
  values := rfl
  table := fun h => absurd rfl h
  mem := fun _ => iff_of_false List.not_mem_nil id
  nodup := List.nodup_nil

theorem Stores.quiet (h : Stores parse payloads requests db s)
    (htracked : RequestDispatcher.Tracked parse payloads s'.dispatcher) (hquiet : Quiet s s') :
    Stores parse payloads requests db s' := by
  obtain ⟨hfile, hvalues, htable⟩ := hquiet.file h.file
  exact {
    tracked := htracked
    file := hfile
    values := by rw [hvalues, hquiet.stores, h.values]
    table := fun hne => htable (h.table (hquiet.stores ▸ hne))
    mem := fun i => by rw [hquiet.stores, hquiet.jobs, h.mem]
    nodup := hquiet.stores ▸ h.nodup }

theorem Stores.storesValue (h : Stores parse payloads requests db s)
    (hrequests : StoreRequests parse payloads requests)
    (htracked : RequestDispatcher.Tracked parse payloads s'.dispatcher) {w : Fin n}
    {t : Ticket (Job k)} (hstores : StoresValue s s' w t) :
    Stores parse payloads requests db s' := by
  obtain ⟨hfile, hvalues, htable⟩ := hstores.file h.file
  have hrequest : t.task.request = requests t.task.call := by
    have haccepted := RequestDispatcher.mem_accepted_of_running h.tracked hstores.running
    have hparsed := (h.tracked.matched.accepted t haccepted).2
    rw [(hrequests t.task.call).1] at hparsed
    exact (Option.some.inj hparsed).symm
  have hnew : t.task.call ∉ s.stores := by
    rw [h.mem, hstores.before]
    exact id
  exact {
    tracked := htracked
    file := hfile
    values := by
      rw [hvalues, hstores.stores, List.map_append, List.foldl_append, ← h.values, hrequest]
      rfl
    table := fun _ => htable
    mem := by
      intro i
      rw [hstores.stores, List.mem_append, List.mem_singleton]
      by_cases hi : i = t.task.call
      · exact iff_of_true (Or.inr hi) (hi ▸ hstores.after)
      · rw [hstores.jobs i hi, or_iff_left hi, h.mem]
    nodup := by
      rw [hstores.stores, List.nodup_append]
      refine ⟨h.nodup, List.nodup_singleton _, fun a ha b hb => ?_⟩
      rintro rfl
      exact hnew (List.mem_singleton.mp hb ▸ ha) }

theorem Stores.step (h : Stores parse payloads requests db s)
    (hrequests : StoreRequests parse payloads requests)
    (hstep : s.step parse payloads l = some s') : Stores parse payloads requests db s' := by
  have htracked := h.tracked.step (dispatcher_step hstep)
  have hstore : ∀ i request, (parseRequest parse (payloads i)).request = some request →
      request.type = .storeDatabaseValue := by
    intro i request hparsed
    rw [(hrequests i).1] at hparsed
    exact Option.some.inj hparsed ▸ (hrequests i).2
  rcases step_cases h.tracked hstore hstep with hquiet | ⟨w, t, hstores⟩
  · exact h.quiet htracked hquiet
  · exact h.storesValue hrequests htracked hstores

/-- The calls in order, and what has been stored for them. -/
structure Ordered (parse : Bytes → Document) (payloads : Fin k → Bytes)
    (requests : Fin k → MqttRequest) (db : Database) (s : StoringDispatcher n k) : Prop where
  stores : Stores parse payloads requests db s
  order : RequestDispatcher.InOrder s.dispatcher

theorem Ordered.step (h : Ordered parse payloads requests db s)
    (hrequests : StoreRequests parse payloads requests) (hone : OneByOne s l)
    (hstep : s.step parse payloads l = some s') : Ordered parse payloads requests db s' := by
  refine ⟨h.stores.step hrequests hstep, ?_⟩
  have hd := dispatcher_step hstep
  cases hl : l.step with
  | advance i now =>
      rw [hl] at hd
      refine h.order.advance h.stores.tracked ?_ hd
      simpa only [OneByOne, hl] using hone
  | work | stopAccepting | setStop | lock | notifyOne | notifyNobody | notifyAll
    | wakeSpuriously =>
      obtain ⟨hcalls, haccepted⟩ := RequestDispatcher.step_frame hd (by simp [hl])
      exact ⟨by rw [hcalls]; exact h.order.called, by rw [haccepted]; exact h.order.accepted⟩

theorem ordered_of_exec (hfile : StoreFile db) (hrequests : StoreRequests parse payloads requests)
    {ls : List (Label n k)} (hmeets : (machine n k parse payloads).Meets OneByOne (initial n k db) ls)
    (hrun : (machine n k parse payloads).exec (initial n k db) ls = some s) :
    Ordered parse payloads requests db s :=
  Machine.invariant_of_meets (Ordered parse payloads requests db)
    (fun _ _ _ hs hone hstep => hs.step hrequests hone hstep) hmeets hrun
    ⟨stores_initial hfile, RequestDispatcher.inOrder_initial⟩

/-! ### Overtaking -/

/-- In some state of the run two workers run the jobs of the two calls. -/
def RanTogether (parse : Bytes → Document) (payloads : Fin k → Bytes) (db : Database)
    (ls : List (Label n k)) (i j : Fin k) : Prop :=
  ∃ ls₁ ls₂ u, ls = ls₁ ++ ls₂ ∧
    (machine n k parse payloads).exec (initial n k db) ls₁ = some u ∧ RunTogether u i j

/-- The value of a call can be stored before that of an earlier one only while the
earlier job runs too. -/
theorem Ordered.runTogether (h : Ordered parse payloads requests db s)
    (hnone : RequestDispatcher.NoneFailed s.dispatcher) {w : Fin n} {t : Ticket (Job k)}
    (hstores : StoresValue s s' w t) {j : Fin k} (hj : j < t.task.call) (hopen : j ∉ s.stores) :
    RunTogether s t.task.call j := by
  have htracked := h.stores.tracked
  have haccepted := RequestDispatcher.mem_accepted_of_running htracked hstores.running
  have hcalled := (htracked.matched.accepted t haccepted).1
  have hreturned : s.dispatcher.calls j = .returned true :=
    h.order.called j _ hj (by simp [hcalled])
  obtain ⟨t', ht', hcall⟩ := htracked.matched.returned j hreturned
  have hstarted : t' ∈ s.dispatcher.pool.started :=
    h.order.mem_started htracked (htracked.pool.running w t hstores.running).1 ht' (hcall ▸ hj)
  rcases htracked.pool.started t' hstarted with hfinished | ⟨w', hw'⟩
  · -- a finished job has stored its value
    obtain ⟨f, hf, rfl⟩ := List.mem_map.mp hfinished
    have hended := htracked.matched.finished f hf
    rw [hcall] at hended
    cases hthrew : f.2 with
    | true => exact absurd (hthrew ▸ hended) (hnone j)
    | false =>
        refine absurd ((h.stores.mem j).mpr ?_) hopen
        rw [hended, hthrew]
        trivial
  · refine ⟨w, w', t, t', ?_, hstores.running, rfl, hw', hcall⟩
    rintro rfl
    have hsame : t = t' := by simpa [hstores.running] using hw'
    exact absurd hcall (hsame ▸ ne_of_gt hj)

theorem ranTogether_of_overtakes (hfile : StoreFile db)
    (hrequests : StoreRequests parse payloads requests) {ls : List (Label n k)}
    (hmeets : (machine n k parse payloads).Meets OneByOne (initial n k db) ls)
    (hrun : (machine n k parse payloads).exec (initial n k db) ls = some s)
    (hnone : RequestDispatcher.NoneFailed s.dispatcher) {before after : List (Fin k)}
    {i j : Fin k} (hstores : s.stores = before ++ i :: after) (hj : j < i) (hlater : j ∉ before) :
    RanTogether parse payloads db ls i j := by
  refine Machine.invariant_of_run (M := machine n k parse payloads)
    (fun ls s => (machine n k parse payloads).Meets OneByOne (initial n k db) ls →
      RequestDispatcher.NoneFailed s.dispatcher → ∀ before i after, s.stores = before ++ i :: after →
        ∀ j < i, j ∉ before → RanTogether parse payloads db ls i j)
    ?_ ?_ hrun hmeets hnone before i after hstores j hj hlater
  · intro _ _ before i after hnil
    cases before <;> cases hnil
  · intro ls u l v hu ih hstep hmeets hnone before i after hstores j hj hlater
    have hordered := ordered_of_exec hfile hrequests hmeets.left hu
    have hnone' : RequestDispatcher.NoneFailed u.dispatcher :=
      ((RequestDispatcher.noneFailed_step hordered.stores.tracked (dispatcher_step hstep)).mp
        hnone).1
    have hextend : RanTogether parse payloads db ls i j →
        RanTogether parse payloads db (ls ++ [l]) i j := by
      rintro ⟨ls₁, ls₂, w, rfl, hw⟩
      exact ⟨ls₁, ls₂ ++ [l], w, List.append_assoc .., hw⟩
    have hstore : ∀ i request, (parseRequest parse (payloads i)).request = some request →
        request.type = .storeDatabaseValue := by
      intro i request hparsed
      rw [(hrequests i).1] at hparsed
      exact Option.some.inj hparsed ▸ (hrequests i).2
    rcases step_cases hordered.stores.tracked hstore hstep with hquiet | ⟨w, t, hnew⟩
    · exact hextend (ih hmeets.left hnone' before i after (hquiet.stores ▸ hstores) j hj hlater)
    · rw [hnew.stores] at hstores
      rcases List.eq_nil_or_concat after with rfl | ⟨after', last, rfl⟩
      · -- the value stored by this step
        obtain ⟨rfl, hlast⟩ := List.append_inj' hstores rfl
        obtain rfl : t.task.call = i := List.singleton_inj.mp hlast
        exact ⟨ls, [l], u, rfl, hu, hordered.runTogether hnone' hnew hj hlater⟩
      · rw [List.concat_eq_append, ← List.cons_append, ← List.append_assoc] at hstores
        obtain ⟨hfirst, _⟩ := List.append_inj' hstores rfl
        exact hextend (ih hmeets.left hnone' before i after' hfirst j hj hlater)

/-! ### Once the pool has drained -/

theorem Ordered.mem_stores (h : Ordered parse payloads requests db s) (hidle : Idle s)
    (hnone : RequestDispatcher.NoneFailed s.dispatcher) {i : Fin k}
    (hreturned : s.dispatcher.calls i = .returned true) : i ∈ s.stores := by
  have htracked := h.stores.tracked
  obtain ⟨t, ht, rfl⟩ := htracked.matched.returned i hreturned
  rw [htracked.pool.queue, hidle.1, List.append_nil] at ht
  rcases htracked.pool.started t ht with hfinished | ⟨w, hw⟩
  · obtain ⟨f, hf, rfl⟩ := List.mem_map.mp hfinished
    have hended := htracked.matched.finished f hf
    rw [h.stores.mem, hended]
    cases hthrew : f.2 with
    | true => exact absurd (hthrew ▸ hended) (hnone _)
    | false => trivial
  · exact absurd hw (hidle.2 w t)

/-- The last element with a property. -/
theorem exists_last {α : Type*} {p : α → Prop} {l : List α} (h : ∃ a ∈ l, p a) :
    ∃ before a after, l = before ++ a :: after ∧ p a ∧ ∀ b ∈ after, ¬p b := by
  induction l using List.reverseRecOn with
  | nil => simp at h
  | append_singleton l a ih =>
      by_cases ha : p a
      · exact ⟨l, a, [], rfl, ha, by simp⟩
      · obtain ⟨b, hb, hp⟩ := h
        have hmem : b ∈ l := by
          rcases List.mem_append.mp hb with hb | hb
          · exact hb
          · exact absurd (List.mem_singleton.mp hb ▸ hp) ha
        obtain ⟨before, c, after, rfl, hc, hafter⟩ := ih ⟨b, hmem, hp⟩
        refine ⟨before, c, after ++ [a], by simp, hc, fun d hd => ?_⟩
        rcases List.mem_append.mp hd with hd | hd
        · exact hafter d hd
        · exact List.mem_singleton.mp hd ▸ ha

/-- Once the pool has drained, `Get` returns for a key the value of an accepted
request that every later one for the key has run together with; with one worker
that is the last. The other keys are as they were. -/
theorem get_returns_accepted (hfile : StoreFile db)
    (hrequests : StoreRequests parse payloads requests) {ls : List (Label n k)}
    (hmeets : (machine n k parse payloads).Meets OneByOne (initial n k db) ls)
    (hrun : (machine n k parse payloads).exec (initial n k db) ls = some s)
    (hreturned : ∀ i, s.dispatcher.calls i = .returned true) (hidle : Idle s)
    (hnone : RequestDispatcher.NoneFailed s.dispatcher) :
    (∀ key, (∀ i, (entry (requests i)).1 ≠ key) → values s.database key = values db key) ∧
    (∀ i, ∃ j, (entry (requests j)).1 = (entry (requests i)).1 ∧
      (get (entry (requests i)).1).Returns s.database (some (entry (requests j)).2) s.database ∧
      ∀ i' > j, (entry (requests i')).1 = (entry (requests i)).1 →
        RanTogether parse payloads db ls i' j) ∧
    (n = 1 → ∀ i, (∀ i' > i, (entry (requests i')).1 ≠ (entry (requests i)).1) →
      (get (entry (requests i)).1).Returns s.database (some (entry (requests i)).2) s.database) := by
  have hordered := ordered_of_exec hfile hrequests hmeets hrun
  have hmem : ∀ i, i ∈ s.stores := fun i => hordered.mem_stores hidle hnone (hreturned i)
  have hnamed : ∀ i, ∃ j, (entry (requests j)).1 = (entry (requests i)).1 ∧
      (get (entry (requests i)).1).Returns s.database (some (entry (requests j)).2) s.database ∧
      ∀ i' > j, (entry (requests i')).1 = (entry (requests i)).1 →
        RanTogether parse payloads db ls i' j := by
    intro i
    obtain ⟨before, j, after, hstores, hkey, hafter⟩ :=
      exists_last (p := fun j => (entry (requests j)).1 = (entry (requests i)).1) ⟨i, hmem i, rfl⟩
    have hvalue : values s.database (entry (requests i)).1 = some (entry (requests j)).2 := by
      rw [hordered.stores.values, hstores, List.map_append, List.map_cons, ← hkey]
      refine foldl_store_append (fun e he => ?_) _
      obtain ⟨b, hb, rfl⟩ := List.mem_map.mp he
      exact hkey ▸ hafter b hb
    refine ⟨j, hkey, ?_, fun i' hi' hkey' => ?_⟩
    · have htable := hordered.stores.table (List.ne_nil_of_mem (hmem i))
      exact hvalue ▸ returns_get htable _
    · -- the later request stored its value before
      have hi'mem : i' ∈ before := by
        have hin := hmem i'
        rw [hstores] at hin
        rcases List.mem_append.mp hin with hin | hin
        · exact hin
        · rcases List.mem_cons.mp hin with rfl | hin
          · exact absurd hi' (lt_irrefl _)
          · exact absurd hkey' (hafter i' hin)
      obtain ⟨first, rest, rfl⟩ := List.append_of_mem hi'mem
      have hsplit : s.stores = first ++ i' :: (rest ++ j :: after) := by simp [hstores]
      refine ranTogether_of_overtakes hfile hrequests hmeets hrun hnone hsplit hi' fun hj => ?_
      have hnodup := hordered.stores.nodup
      rw [hstores] at hnodup
      exact (List.nodup_append.mp hnodup).2.2 j (List.mem_append_left _ hj) j List.mem_cons_self rfl
  refine ⟨fun key hkey => ?_, hnamed, ?_⟩
  · rw [hordered.stores.values]
    refine foldl_store_of_notMem (fun e he => ?_) _
    obtain ⟨i, _, rfl⟩ := List.mem_map.mp he
    exact hkey i
  · rintro rfl i hlast
    obtain ⟨j, hkey, hget, htogether⟩ := hnamed i
    rcases lt_trichotomy j i with hlt | rfl | hgt
    · obtain ⟨_, _, _, _, _, w, w', _, _, hne, _⟩ := htogether i hlt rfl
      exact absurd (Subsingleton.elim w w') hne
    · exact hget
    · exact absurd hkey (hlast j hgt)

/-! ### Two workers and one key -/

def returnedTrue : CallPc → Bool
  | .returned true => true
  | _ => false

theorem returnedTrue_iff {c : CallPc} : returnedTrue c = true ↔ c = .returned true := by
  unfold returnedTrue
  split
  · simp
  · simpa using ‹_›

def oneByOne (s : StoringDispatcher n k) (l : Label n k) : Bool :=
  match l.step with
  | .advance i _ => decide (∀ j < i, returnedTrue (s.dispatcher.calls j) = true)
  | _ => true

theorem oneByOne_iff : oneByOne s l = true ↔ OneByOne s l := by
  cases hl : l.step <;> simp [oneByOne, OneByOne, hl, returnedTrue_iff]

instance (s : StoringDispatcher n k) (l : Label n k) : Decidable (OneByOne s l) :=
  decidable_of_iff _ oneByOne_iff

/-- All calls have returned `true`, all jobs have stored, and the workers are idle. -/
def settled (s : StoringDispatcher n k) : Bool :=
  decide (∀ i, returnedTrue (s.dispatcher.calls i) = true ∧
      (match s.dispatcher.jobs i with | .ended false => true | _ => false) = true) &&
    s.dispatcher.pool.tasks.isEmpty && decide (∀ w, s.dispatcher.pool.isReady w = true)

theorem of_settled (h : settled s = true) :
    (∀ i, s.dispatcher.calls i = .returned true) ∧ Idle s ∧
      RequestDispatcher.NoneFailed s.dispatcher := by
  simp only [settled, Bool.and_eq_true, decide_eq_true_eq, List.isEmpty_iff] at h
  obtain ⟨⟨hcalls, htasks⟩, hworkers⟩ := h
  refine ⟨fun i => returnedTrue_iff.mp (hcalls i).1, ⟨htasks, fun w t hw => ?_⟩, fun i hi => ?_⟩
  · rw [ThreadPoolManager.workers_of_isReady (hworkers w)] at hw
    cases hw
  · have hjob := (hcalls i).2
    rw [hi] at hjob
    cases hjob

/-- Two requests to store a value under the key `k`: first `a`, then `b`. -/
def twoRequests (i : Fin 2) : MqttRequest := storeRequest [97 + UInt8.ofNat i.val]

def twoPayloads (i : Fin 2) : Bytes := serializeRequest (twoRequests i)

theorem storeRequests_two : StoreRequests lastMemberParser twoPayloads twoRequests := by
  intro i
  refine ⟨?_, rfl⟩
  rw [twoPayloads, parseRequest_of_emittable strictParser_lastMemberParser]
  all_goals fin_cases i <;> decide

/-- The same step several times, at one time and with no failures. -/
def steps (m : ℕ) (l : RequestDispatcher.Label 2 2) : List (Label 2 2) :=
  List.replicate m ⟨l, [], []⟩

/-- Both requests are accepted, each is taken by a worker, and the second worker
stores its value first. -/
def overtakingRun : List (Label 2 2) :=
  steps 5 (.advance 0 []) ++ steps 5 (.advance 1 []) ++ steps 1 (.lock 0) ++ steps 1 (.lock 1) ++
    steps 5 (.work 1 [] false) ++ steps 5 (.work 0 [] false)

theorem storeFile_empty : StoreFile Database.empty where
  table := by
    intro t ht
    simp [Database.findTable, Database.empty] at ht
  free := by simp [Database.empty]

theorem meets_overtakingRun : (machine 2 2 lastMemberParser twoPayloads).Meets OneByOne
    (initial 2 2 Database.empty) overtakingRun := by
  decide +kernel

theorem exec_overtakingRun : ∃ s, (machine 2 2 lastMemberParser twoPayloads).exec
    (initial 2 2 Database.empty) overtakingRun = some s ∧ settled s = true ∧
      values s.database (ascii "k") = some (ascii "a") := by
  have hrun : ((machine 2 2 lastMemberParser twoPayloads).exec (initial 2 2 Database.empty)
      overtakingRun).map (fun s => (settled s, values s.database (ascii "k"))) =
        some (true, some (ascii "a")) := by
    decide +kernel
  obtain ⟨s, hs, hview⟩ := Option.map_eq_some_iff.mp hrun
  obtain ⟨hsettled, hvalue⟩ := Prod.mk.inj hview
  exact ⟨s, hs, hsettled, hvalue⟩

theorem get_returns_accepted_overtaking :
    ∃ s j, (machine 2 2 lastMemberParser twoPayloads).exec (initial 2 2 Database.empty)
        overtakingRun = some s ∧
      (get (ascii "k")).Returns s.database (some (entry (twoRequests j)).2) s.database ∧
      ∀ i > j, RanTogether lastMemberParser twoPayloads Database.empty overtakingRun i j := by
  obtain ⟨s, hrun, hsettled, _⟩ := exec_overtakingRun
  obtain ⟨hreturned, hidle, hnone⟩ := of_settled hsettled
  obtain ⟨j, _, hget, htogether⟩ := (get_returns_accepted storeFile_empty storeRequests_two
    meets_overtakingRun hrun hreturned hidle hnone).2.1 0
  exact ⟨s, j, hrun, hget, fun i hi => htogether i hi rfl⟩

/-- The value of the first request stays, although the second was accepted later. -/
theorem older_value_overwrites_newer :
    ∃ s, (machine 2 2 lastMemberParser twoPayloads).exec (initial 2 2 Database.empty)
        overtakingRun = some s ∧
      (machine 2 2 lastMemberParser twoPayloads).Meets OneByOne (initial 2 2 Database.empty)
        overtakingRun ∧
      StoreRequests lastMemberParser twoPayloads twoRequests ∧
      (∀ i, s.dispatcher.calls i = .returned true) ∧ Idle s ∧
      RequestDispatcher.NoneFailed s.dispatcher ∧
      entry (twoRequests 1) = (ascii "k", ascii "b") ∧
      ¬(get (ascii "k")).Returns s.database (some (ascii "b")) s.database := by
  obtain ⟨s, hrun, hsettled, hvalue⟩ := exec_overtakingRun
  obtain ⟨hreturned, hidle, hnone⟩ := of_settled hsettled
  refine ⟨s, hrun, meets_overtakingRun, storeRequests_two, hreturned, hidle, hnone, rfl, ?_⟩
  intro hget
  have hread := (get_eq_ok hget).1
  rw [hvalue] at hread
  exact absurd hread (by decide)

end StoringDispatcher

end Watchlist.Dispatch
