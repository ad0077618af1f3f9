import Watchlist.Library.Bytes

/-!
The queue of `EventLoopGenerator`: what `queue_mutex_` protects, the promises of
the submissions, and which actions have been called. A submission is known by its
number, and its promise by the same number. `UInt64` is the identifier type of the
source; the limit on identifiers is part of `schedule`.

The accounting at the end is about the queue alone: the accepted events are those
that have been executed, then the one the worker has taken, then the ones in the
queue, and a promise is set once, when its event has been executed or at once when
it is rejected.
-/

namespace Watchlist.Concurrency

abbrev EventId := UInt64

structure Event where
  id : EventId
  name : Bytes
  /-- the function to call, by its number -/
  action : ℕ
  deriving DecidableEq

inductive SubmissionStatus
  | accepted
  | rejectedStopped
  | rejectedIdExhausted
  deriving DecidableEq

inductive EventStatus
  | executed
  | failed
  | rejectedStopped
  | rejectedIdExhausted
  deriving DecidableEq

structure EventResult where
  id : EventId
  status : EventStatus
  exception : Option Bytes
  deriving DecidableEq

structure SubmissionResult where
  id : EventId
  status : SubmissionStatus
  /-- the number of the future -/
  completion : ℕ

/-- An event with the number of its promise. -/
structure QueuedEvent where
  event : Event
  completion : ℕ
  deriving DecidableEq

/-- The outcomes that a submission may have. -/
def SubmissionStatus.Allows : SubmissionStatus → EventStatus → Prop
  | .accepted, .executed | .accepted, .failed | .rejectedStopped, .rejectedStopped
  | .rejectedIdExhausted, .rejectedIdExhausted => True
  | _, _ => False

structure EventQueue where
  events : List QueuedEvent
  lastIssued : EventId
  accepting : Bool
  /-- what has been submitted, and how that was answered -/
  submitted : List (Event × SubmissionStatus)
  /-- the events whose action has been called -/
  executed : List QueuedEvent
  /-- the values that each promise has been set to -/
  promises : ℕ → List EventResult

namespace EventQueue

/-- `std::numeric_limits<EventId>::max()` -/
def maxId : EventId := 0xffffffffffffffff

/-- The queue of a new loop. -/
def initial (lastIssued : EventId) : EventQueue where
  events := []
  lastIssued := lastIssued
  accepting := true
  submitted := []
  executed := []
  promises := fun _ => []

/-- `set_value` -/
def setValue (q : EventQueue) (completion : ℕ) (result : EventResult) : EventQueue :=
  { q with promises :=
      Function.update q.promises completion (q.promises completion ++ [result]) }

/-- An answer without an event: the promise is set at once. -/
def refuse (q : EventQueue) (name : Bytes) (action : ℕ) (answer : SubmissionStatus)
    (status : EventStatus) : EventQueue × SubmissionResult :=
  ({ q.setValue q.submitted.length ⟨0, status, none⟩ with
    submitted := q.submitted ++ [(⟨0, name, action⟩, answer)] },
    ⟨0, answer, q.submitted.length⟩)

/-- The locked section of `schedule_event`. -/
def schedule (q : EventQueue) (name : Bytes) (action : ℕ) : EventQueue × SubmissionResult :=
  if !q.accepting then q.refuse name action .rejectedStopped .rejectedStopped
  else if q.lastIssued = maxId then q.refuse name action .rejectedIdExhausted .rejectedIdExhausted
  else
    let event : Event := ⟨q.lastIssued + 1, name, action⟩
    ({ q with
      lastIssued := event.id
      events := q.events ++ [⟨event, q.submitted.length⟩]
      submitted := q.submitted ++ [(event, .accepted)] },
      ⟨event.id, .accepted, q.submitted.length⟩)

/-- What `schedule_event` returns is what it records. -/
theorem submitted_schedule (q : EventQueue) (name : Bytes) (action : ℕ) :
    (q.schedule name action).1.submitted = q.submitted ++
        [(⟨(q.schedule name action).2.id, name, action⟩, (q.schedule name action).2.status)] ∧
      (q.schedule name action).2.completion = q.submitted.length := by
  unfold schedule
  split
  · exact ⟨rfl, rfl⟩
  · split <;> exact ⟨rfl, rfl⟩

def close (q : EventQueue) : EventQueue := { q with accepting := false }

/-- The action of an event is called. -/
def call (q : EventQueue) (e : QueuedEvent) : EventQueue :=
  { q with executed := q.executed ++ [e] }

/-! ### What has been accepted -/

def acceptedFrom (start : ℕ) : List (Event × SubmissionStatus) → List QueuedEvent
  | [] => []
  | (event, .accepted) :: rest => ⟨event, start⟩ :: acceptedFrom (start + 1) rest
  | (_, _) :: rest => acceptedFrom (start + 1) rest

/-- The accepted events, in the order of their acceptance. -/
def accepted (q : EventQueue) : List QueuedEvent := acceptedFrom 0 q.submitted

theorem acceptedFrom_append (start : ℕ) (l l' : List (Event × SubmissionStatus)) :
    acceptedFrom start (l ++ l') = acceptedFrom start l ++ acceptedFrom (start + l.length) l' := by
  induction l generalizing start with
  | nil => rfl
  | cons x l ih =>
      obtain ⟨event, status⟩ := x
      have hstart : start + (l.length + 1) = start + 1 + l.length := by omega
      cases status <;> simp only [List.cons_append, acceptedFrom, ih, List.length_cons, hstart]

theorem mem_acceptedFrom {start : ℕ} {l : List (Event × SubmissionStatus)} {e : QueuedEvent} :
    e ∈ acceptedFrom start l ↔
      start ≤ e.completion ∧ l[e.completion - start]? = some (e.event, .accepted) := by
  induction l generalizing start with
  | nil => simp [acceptedFrom]
  | cons x l ih =>
      obtain ⟨event, status⟩ := x
      have hlater : start + 1 ≤ e.completion →
          ((event, status) :: l)[e.completion - start]? = l[e.completion - (start + 1)]? := by
        intro h
        rw [show e.completion - start = e.completion - (start + 1) + 1 by omega,
          List.getElem?_cons_succ]
      by_cases hhead : e.completion = start
      · have hnot : ¬start + 1 ≤ e.completion := by omega
        obtain ⟨event', completion⟩ := e
        cases hhead
        cases status <;> simp [acceptedFrom, ih, hnot, eq_comm]
      · have hiff : start ≤ e.completion ↔ start + 1 ≤ e.completion := by omega
        have hne : e ≠ ⟨event, start⟩ := by
          rintro rfl
          exact hhead rfl
        rw [hiff]
        have htail : e ∈ acceptedFrom start ((event, status) :: l) ↔
            e ∈ acceptedFrom (start + 1) l := by
          cases status <;> simp [acceptedFrom, hne]
        rw [htail, ih]
        exact and_congr_right fun h => by rw [hlater h]

theorem mem_accepted {q : EventQueue} {e : QueuedEvent} :
    e ∈ q.accepted ↔ q.submitted[e.completion]? = some (e.event, .accepted) := by
  rw [accepted, mem_acceptedFrom, Nat.sub_zero]
  exact and_iff_right (Nat.zero_le _)

/-- Each accepted event has a promise of its own. -/
theorem pairwise_acceptedFrom (start : ℕ) (l : List (Event × SubmissionStatus)) :
    (acceptedFrom start l).Pairwise fun a b => a.completion < b.completion := by
  induction l generalizing start with
  | nil => exact List.Pairwise.nil
  | cons x l ih =>
      obtain ⟨event, status⟩ := x
      cases status with
      | rejectedStopped | rejectedIdExhausted => exact ih (start + 1)
      | accepted =>
          refine List.pairwise_cons.mpr ⟨fun b hb => ?_, ih (start + 1)⟩
          have := (mem_acceptedFrom.mp hb).1
          show start < b.completion
          omega

/-! ### The accounting -/

/-- The result of an event whose action has returned, or has thrown. -/
def Settles (q : EventQueue) (e : QueuedEvent) : Prop :=
  ∃ result, q.promises e.completion = [result] ∧ result.id = e.event.id ∧
    SubmissionStatus.accepted.Allows result.status

/-- The value that a rejection sets its promise to. -/
def Refused (q : EventQueue) (n : ℕ) : SubmissionStatus → Prop
  | .accepted => True
  | .rejectedStopped => q.promises n = [⟨0, .rejectedStopped, none⟩]
  | .rejectedIdExhausted => q.promises n = [⟨0, .rejectedIdExhausted, none⟩]

/-- The worker is in the actions of `current`, and has taken `taken`; both have at
most one element. -/
structure Accounts (last : EventId) (q : EventQueue) (current taken : List QueuedEvent) : Prop where
  order : q.accepted = q.executed ++ (taken ++ q.events)
  ids : q.accepted.map (·.event.id.toNat) = List.range' (last.toNat + 1) q.accepted.length
  issued : q.lastIssued.toNat = last.toNat + q.accepted.length
  unused : ∀ n, q.submitted.length ≤ n → q.promises n = []
  refused : ∀ n event status, q.submitted[n]? = some (event, status) →
    q.Refused n status ∧ (status ≠ .accepted → event.id = 0)
  settled : ∃ done, q.executed = done ++ current ∧ ∀ e ∈ done, q.Settles e
  waiting : ∀ e ∈ current ++ (taken ++ q.events), q.promises e.completion = []

theorem accounts_initial (last : EventId) : Accounts last (initial last) [] [] where
  order := rfl
  ids := rfl
  issued := rfl
  unused := fun _ _ => rfl
  refused := nofun
  settled := ⟨[], rfl, nofun⟩
  waiting := nofun

variable {last : EventId} {q : EventQueue} {current taken : List QueuedEvent}

theorem toNat_succ {id : EventId} (h : id ≠ maxId) : (id + 1).toNat = id.toNat + 1 := by
  have hne : id.toNat ≠ maxId.toNat := fun heq => h (UInt64.toNat_inj.mp heq)
  have hlt := id.toNat_lt
  rw [UInt64.toNat_add, show (1 : UInt64).toNat = 1 from rfl]
  rw [show maxId.toNat = 2 ^ 64 - 1 from rfl] at hne
  omega

/-- Setting one promise leaves the others alone. -/
theorem promises_setValue_of_ne {n m : ℕ} (h : m ≠ n) (result : EventResult) :
    (q.setValue n result).promises m = q.promises m := Function.update_of_ne h ..

@[simp] theorem promises_setValue_self (q : EventQueue) (n : ℕ) (result : EventResult) :
    (q.setValue n result).promises n = q.promises n ++ [result] := Function.update_self ..

theorem completion_lt {e : QueuedEvent} (h : e ∈ q.accepted) : e.completion < q.submitted.length := by
  obtain ⟨hlt, -⟩ := List.getElem?_eq_some_iff.mp (mem_accepted.mp h)
  exact hlt

theorem Accounts.mem_accepted (h : Accounts last q current taken) {e : QueuedEvent} :
    e ∈ q.accepted ↔ e ∈ q.executed ∨ e ∈ taken ∨ e ∈ q.events := by
  rw [h.order, List.mem_append, List.mem_append]

/-- A rejection sets the promise of its own number. -/
theorem accounts_refuse (h : Accounts last q current taken) (name : Bytes) (action : ℕ)
    {answer : SubmissionStatus} {status : EventStatus} (hanswer : answer ≠ .accepted)
    (hrefused : ∀ q n, Refused q n answer ↔ q.promises n = [⟨0, status, none⟩]) :
    Accounts last (q.refuse name action answer status).1 current taken := by
  have haccepted : (q.refuse name action answer status).1.accepted = q.accepted := by
    show acceptedFrom 0 (q.submitted ++ [(⟨0, name, action⟩, answer)]) = acceptedFrom 0 q.submitted
    rw [acceptedFrom_append]
    cases answer <;> first | exact List.append_nil _ | contradiction
  have hothers : ∀ m, m ≠ q.submitted.length →
      (q.refuse name action answer status).1.promises m = q.promises m := by
    intro m hm
    exact promises_setValue_of_ne hm _
  have hkept : ∀ e ∈ q.accepted, (q.refuse name action answer status).1.promises e.completion =
      q.promises e.completion := by
    intro e he
    have := completion_lt he
    exact hothers _ (by omega)
  constructor
  · rw [haccepted]
    exact h.order
  · rw [haccepted]
    exact h.ids
  · rw [haccepted]
    exact h.issued
  · intro n hn
    have hlength : q.submitted.length + 1 ≤ n := by
      simpa [refuse, setValue] using hn
    rw [hothers n (by omega)]
    exact h.unused n (by omega)
  · intro n event status' hn
    have hsubmitted : (q.submitted ++ [(⟨0, name, action⟩, answer)])[n]? =
        some (event, status') := hn
    by_cases hlt : n < q.submitted.length
    · rw [List.getElem?_append_left hlt] at hsubmitted
      obtain ⟨hold, hid⟩ := h.refused n event status' hsubmitted
      refine ⟨?_, hid⟩
      cases status' with
      | accepted => trivial
      | rejectedStopped | rejectedIdExhausted => exact (hothers n (by omega)).trans hold
    · rw [List.getElem?_append_right (by omega)] at hsubmitted
      have hn' : n = q.submitted.length := by
        obtain ⟨hlt', -⟩ := List.getElem?_eq_some_iff.mp hsubmitted
        simp only [List.length_singleton] at hlt'
        omega
      subst hn'
      simp only [Nat.sub_self, List.getElem?_cons_zero, Option.some.injEq, Prod.mk.injEq]
        at hsubmitted
      obtain ⟨rfl, rfl⟩ := hsubmitted
      refine ⟨(hrefused _ _).mpr ?_, fun _ => rfl⟩
      show (q.setValue _ _).promises _ = _
      rw [promises_setValue_self, h.unused _ le_rfl]
      rfl
  · obtain ⟨done, hexecuted, hdone⟩ := h.settled
    refine ⟨done, hexecuted, fun e he => ?_⟩
    obtain ⟨result, hresult, hrest⟩ := hdone e he
    refine ⟨result, ?_, hrest⟩
    rw [hkept e (h.mem_accepted.mpr (Or.inl (hexecuted ▸ List.mem_append_left _ he)))]
    exact hresult
  · intro e he
    have hmem : e ∈ q.accepted := by
      obtain ⟨done, hexecuted, -⟩ := h.settled
      rw [h.order, hexecuted]
      rcases List.mem_append.mp he with he | he
      · exact List.mem_append_left _ (List.mem_append_right _ he)
      · exact List.mem_append_right _ he
    rw [hkept e hmem]
    exact h.waiting e he

/-- An acceptance issues the next identifier, below the limit. -/
theorem accounts_accept (h : Accounts last q current taken) (name : Bytes) (action : ℕ)
    (hlimit : q.lastIssued ≠ maxId) :
    Accounts last { q with
      lastIssued := q.lastIssued + 1
      events := q.events ++ [⟨⟨q.lastIssued + 1, name, action⟩, q.submitted.length⟩]
      submitted := q.submitted ++ [(⟨q.lastIssued + 1, name, action⟩, .accepted)] }
      current taken := by
  have hid := toNat_succ hlimit
  have haccepted : acceptedFrom 0 (q.submitted ++ [(⟨q.lastIssued + 1, name, action⟩, .accepted)]) =
      q.accepted ++ [⟨⟨q.lastIssued + 1, name, action⟩, q.submitted.length⟩] := by
    rw [acceptedFrom_append, Nat.zero_add]
    rfl
  constructor
  · show acceptedFrom 0 (q.submitted ++ _) = _
    rw [haccepted, h.order]
    simp only [List.append_assoc]
  · show (acceptedFrom 0 (q.submitted ++ _)).map _ = List.range' _ (acceptedFrom 0 (_ ++ _)).length
    rw [haccepted, List.map_append, h.ids, List.length_append, List.length_singleton,
      List.range'_concat]
    simp only [List.map_cons, List.map_nil, hid, h.issued]
    congr 2
    omega
  · show (q.lastIssued + 1).toNat = last.toNat + (acceptedFrom 0 (q.submitted ++ _)).length
    rw [haccepted, hid, h.issued, List.length_append, List.length_singleton]
    omega
  · intro n hn
    simp only [List.length_append, List.length_singleton] at hn
    exact h.unused n (by omega)
  · intro n event status hn
    have hsubmitted : (q.submitted ++ [(⟨q.lastIssued + 1, name, action⟩, .accepted)])[n]? =
        some (event, status) := hn
    by_cases hlt : n < q.submitted.length
    · rw [List.getElem?_append_left hlt] at hsubmitted
      obtain ⟨hold, hzero⟩ := h.refused n event status hsubmitted
      refine ⟨?_, hzero⟩
      cases status <;> exact hold
    · rw [List.getElem?_append_right (by omega)] at hsubmitted
      have hmem := List.mem_of_getElem? hsubmitted
      obtain ⟨rfl, rfl⟩ := Prod.mk.inj (List.mem_singleton.mp hmem)
      exact ⟨trivial, fun hne => absurd rfl hne⟩
  · exact h.settled
  · intro e he
    have hcases : e ∈ current ++ (taken ++ q.events) ∨
        e = ⟨⟨q.lastIssued + 1, name, action⟩, q.submitted.length⟩ := by
      simpa only [List.mem_append, List.mem_singleton, or_assoc] using he
    rcases hcases with hold | rfl
    · exact h.waiting e hold
    · exact h.unused _ le_rfl

/-- The locked section of `schedule_event` keeps the accounts. -/
theorem accounts_schedule (h : Accounts last q current taken) (name : Bytes) (action : ℕ) :
    Accounts last (q.schedule name action).1 current taken := by
  unfold schedule
  split
  · exact accounts_refuse h name action (by simp) fun _ _ => Iff.rfl
  · split
    · exact accounts_refuse h name action (by simp) fun _ _ => Iff.rfl
    · rename_i hlimit
      exact accounts_accept h name action hlimit

theorem accounts_close (h : Accounts last q current taken) : Accounts last q.close current taken where
  order := h.order
  ids := h.ids
  issued := h.issued
  unused := h.unused
  refused := fun n event status hn => by
    have := h.refused n event status hn
    cases status <;> exact this
  settled := h.settled
  waiting := h.waiting

/-- The worker takes the front of the queue. -/
theorem accounts_pop {e : QueuedEvent} {rest : List QueuedEvent} (h : Accounts last q current [])
    (hevents : q.events = e :: rest) : Accounts last { q with events := rest } current [e] where
  order := h.order.trans (by rw [hevents]; rfl)
  ids := h.ids
  issued := h.issued
  unused := h.unused
  refused := fun n event status hn => by
    have := h.refused n event status hn
    cases status <;> exact this
  settled := h.settled
  waiting := fun x hx => h.waiting x (by rwa [hevents])

/-- The worker calls the action it has taken. -/
theorem accounts_call {e : QueuedEvent} (h : Accounts last q [] [e]) :
    Accounts last (q.call e) [e] [] where
  order := h.order.trans (by simp [call])
  ids := h.ids
  issued := h.issued
  unused := h.unused
  refused := fun n event status hn => by
    have := h.refused n event status hn
    cases status <;> exact this
  settled := by
    obtain ⟨done, hexecuted, hdone⟩ := h.settled
    refine ⟨done, ?_, hdone⟩
    show q.executed ++ [e] = _
    rw [hexecuted, List.append_nil]
  waiting := h.waiting

/-- The worker sets the promise of the event it has executed. -/
theorem accounts_setValue {e : QueuedEvent} {result : EventResult} (h : Accounts last q [e] [])
    (hid : result.id = e.event.id) (hstatus : SubmissionStatus.accepted.Allows result.status) :
    Accounts last (q.setValue e.completion result) [] [] := by
  obtain ⟨done, hexecuted, hdone⟩ := h.settled
  have hmine : e ∈ q.accepted :=
    h.mem_accepted.mpr (Or.inl (hexecuted ▸ List.mem_append_right _ (List.mem_singleton_self e)))
  -- every other accepted event has another promise
  have hpairwise := pairwise_acceptedFrom 0 q.submitted
  rw [← accepted, h.order, hexecuted, List.append_assoc, List.pairwise_append] at hpairwise
  obtain ⟨-, hlater, hbefore⟩ := hpairwise
  have hdone' : ∀ x ∈ done, x.completion ≠ e.completion := fun x hx =>
    ne_of_lt (hbefore x hx e List.mem_cons_self)
  have hqueue : ∀ x ∈ q.events, x.completion ≠ e.completion := fun x hx =>
    ne_of_gt ((List.pairwise_cons.mp hlater).1 x hx)
  constructor
  · exact h.order
  · exact h.ids
  · exact h.issued
  · intro n hn
    have := completion_lt hmine
    rw [promises_setValue_of_ne (by rintro rfl; exact absurd hn (by simpa [setValue] using this))]
    exact h.unused n hn
  · intro n event status hn
    obtain ⟨hold, hzero⟩ := h.refused n event status hn
    refine ⟨?_, hzero⟩
    have hne : status ≠ .accepted → n ≠ e.completion := by
      rintro hstatus rfl
      have hsubmitted := EventQueue.mem_accepted.mp hmine
      have heq := Option.some.inj (hsubmitted.symm.trans hn)
      exact hstatus (congrArg Prod.snd heq).symm
    cases status with
    | accepted => trivial
    | rejectedStopped | rejectedIdExhausted =>
        exact (promises_setValue_of_ne (hne (by simp)) result).trans hold
  · refine ⟨done ++ [e], by rw [List.append_nil]; exact hexecuted, fun x hx => ?_⟩
    rcases List.mem_append.mp hx with hx | hx
    · obtain ⟨result', hresult, hrest⟩ := hdone x hx
      exact ⟨result', (promises_setValue_of_ne (hdone' x hx) result).trans hresult, hrest⟩
    · obtain rfl := List.mem_singleton.mp hx
      refine ⟨result, ?_, hid, hstatus⟩
      rw [promises_setValue_self, h.waiting x List.mem_cons_self]
      rfl
  · intro x hx
    have hx : x ∈ q.events := hx
    rw [promises_setValue_of_ne (hqueue x hx)]
    exact h.waiting x (List.mem_cons_of_mem e hx)

/-! ### What the accounts say -/

theorem Accounts.executed_prefix (h : Accounts last q current taken) : q.executed <+: q.accepted := by
  rw [h.order]
  exact List.prefix_append _ _

theorem Accounts.executed_increasing (h : Accounts last q current taken) :
    (q.executed.map (·.event.id.toNat)).Pairwise (· < ·) := by
  have hsublist : (q.executed.map (·.event.id.toNat)).Sublist (q.accepted.map (·.event.id.toNat)) :=
    h.executed_prefix.sublist.map _
  rw [h.ids] at hsublist
  exact List.Pairwise.sublist hsublist List.pairwise_lt_range'

/-- Identifiers do not wrap. -/
theorem Accounts.below_limit (h : Accounts last q current taken) :
    last.toNat + q.accepted.length < 2 ^ 64 := by
  rw [← h.issued]
  exact q.lastIssued.toNat_lt

/-- What a submission's promise holds, if it holds anything. -/
theorem Accounts.promise (h : Accounts last q current taken) {n : ℕ} {event : Event}
    {status : SubmissionStatus} (hn : q.submitted[n]? = some (event, status)) :
    q.promises n = [] ∨
      ∃ result, q.promises n = [result] ∧ result.id = event.id ∧ status.Allows result.status := by
  obtain ⟨hrefused, hzero⟩ := h.refused n event status hn
  cases status with
  | rejectedStopped =>
      exact Or.inr ⟨_, hrefused, (hzero (by simp)).symm, trivial⟩
  | rejectedIdExhausted =>
      exact Or.inr ⟨_, hrefused, (hzero (by simp)).symm, trivial⟩
  | accepted =>
      have hmem : (⟨event, n⟩ : QueuedEvent) ∈ q.accepted := EventQueue.mem_accepted.mpr hn
      obtain ⟨done, hexecuted, hdone⟩ := h.settled
      rw [h.order, hexecuted, List.append_assoc] at hmem
      rcases List.mem_append.mp hmem with hmem | hmem
      · obtain ⟨result, hresult, hrest⟩ := hdone _ hmem
        exact Or.inr ⟨result, hresult, hrest⟩
      · exact Or.inl (h.waiting _ hmem)

/-- With an empty queue and an idle worker everything has been answered. -/
theorem Accounts.drained (h : Accounts last q [] []) (hevents : q.events = []) :
    q.executed = q.accepted ∧ ∀ n < q.submitted.length, q.promises n ≠ [] := by
  have hall : q.executed = q.accepted := by
    rw [h.order, hevents, List.nil_append, List.append_nil]
  refine ⟨hall, fun n hn hnone => ?_⟩
  obtain ⟨⟨event, status⟩, hsubmitted⟩ : ∃ x, q.submitted[n]? = some x :=
    ⟨_, List.getElem?_eq_getElem hn⟩
  obtain ⟨hrefused, -⟩ := h.refused n event status hsubmitted
  cases status with
  | rejectedStopped | rejectedIdExhausted =>
      rw [Refused, hnone] at hrefused
      cases hrefused
  | accepted =>
      have hmem : (⟨event, n⟩ : QueuedEvent) ∈ q.accepted := EventQueue.mem_accepted.mpr hsubmitted
      obtain ⟨done, hexecuted, hdone⟩ := h.settled
      rw [← hall, hexecuted, List.append_nil] at hmem
      obtain ⟨result, hresult, -⟩ := hdone _ hmem
      rw [hnone] at hresult
      cases hresult

end EventQueue

end Watchlist.Concurrency
