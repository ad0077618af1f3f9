import Watchlist.Logger.Logger

/-!
What the reader of the log sees. Records are numbered from one in the order in
which they are stored, and the deque is the end of that numbering since it was
last cleared, so a record is missed only when it has left the deque before the
first poll after it.
-/

namespace Watchlist.Logger

open Transition

variable {timeText : ℤ → Bytes}

/-- The number of records among the sections of a run. -/
def records (ls : List Section) : ℕ :=
  ls.countP fun
    | .emit _ => true
    | _ => false

/-- The numbering of the stored records, what is left of them, and how far the reader is. -/
structure Numbered (s : Reading) : Prop where
  stored : s.stored.map LogEntry.sequence = List.range' 1 s.stored.length
  next : s.logger.nextSequence = (s.stored.length + 1) % 2 ^ 64
  suffix : s.logger.entries <:+ s.stored
  bounded : s.logger.entries.length ≤ maxLogEntries
  seen : s.lastSequence ≤ s.stored.length
  increasing : (s.received.map LogEntry.sequence).Pairwise (· < ·)
  below : ∀ entry ∈ s.received, entry.sequence ≤ s.lastSequence

theorem numbered_initial : Numbered .initial where
  stored := rfl
  next := rfl
  suffix := List.suffix_refl _
  bounded := Nat.zero_le _
  seen := le_rfl
  increasing := .nil
  below := nofun

section
variable {s : Reading}

/-- The numbers in the deque follow one another. -/
theorem Numbered.consecutive (h : Numbered s) :
    ∃ first, s.logger.entries.map LogEntry.sequence =
      List.range' first s.logger.entries.length := by
  obtain ⟨evicted, hstored⟩ := h.suffix
  refine ⟨1 + evicted.length, ?_⟩
  have hmap := h.stored
  rw [← hstored, List.map_append, List.length_append, ← List.range'_append_1] at hmap
  exact (List.append_inj hmap (by simp)).2

/-- A record in the deque has a number that has been given. -/
theorem Numbered.sequence_le (h : Numbered s) {entry : LogEntry}
    (hentry : entry ∈ s.logger.entries) : entry.sequence ≤ s.stored.length := by
  have hmem : entry.sequence ∈ s.stored.map LogEntry.sequence :=
    List.mem_map_of_mem (h.suffix.subset hentry)
  rw [h.stored, List.mem_range'_1] at hmem
  omega

/-- What a poll returns is in order, and above all that the reader has. -/
theorem Numbered.pairwise_since (h : Numbered s) :
    ((getLogEntriesSince s.logger s.lastSequence).map LogEntry.sequence).Pairwise (· < ·) := by
  obtain ⟨first, hconsecutive⟩ := h.consecutive
  have hentries : (s.logger.entries.map LogEntry.sequence).Pairwise (· < ·) := by
    rw [hconsecutive]
    exact List.pairwise_lt_range'
  exact hentries.sublist (List.filter_sublist.map LogEntry.sequence)

theorem numbered_emit (h : Numbered s) (record : Record) (hfew : s.stored.length + 1 < 2 ^ 64) :
    Numbered (s.enter timeText (.emit record)) := by
  have hnext : s.logger.nextSequence = s.stored.length + 1 := by
    rw [h.next, Nat.mod_eq_of_lt hfew]
  have hsuffix : s.logger.entries ++ [record.entry s.logger.nextSequence] <:+
      s.stored ++ [record.entry s.logger.nextSequence] := by
    obtain ⟨evicted, hstored⟩ := h.suffix
    exact ⟨evicted, by rw [← hstored, List.append_assoc]⟩
  refine ⟨?_, ?_, ?_, ?_, ?_, h.increasing, h.below⟩
  · show (s.stored ++ [record.entry s.logger.nextSequence]).map LogEntry.sequence = _
    rw [List.map_append, h.stored, hnext]
    show _ = List.range' 1 (s.stored ++ [_]).length
    rw [List.length_append, List.length_singleton, List.range'_concat]
    simp [Record.entry, Nat.add_comm]
  · show (s.logger.nextSequence + 1) % 2 ^ 64 = ((s.stored ++ [_]).length + 1) % 2 ^ 64
    rw [hnext, List.length_append, List.length_singleton]
  · show (if _ then _ else _) <:+ _
    split
    · exact (List.tail_suffix _).trans hsuffix
    · exact hsuffix
  · show (if _ then _ else _ : List LogEntry).length ≤ _
    have hbounded := h.bounded
    split
    · rw [List.length_tail, List.length_append, List.length_singleton]
      omega
    · omega
  · show s.lastSequence ≤ (s.stored ++ [_]).length
    rw [List.length_append]
    exact h.seen.trans (Nat.le_add_right _ _)

theorem numbered_poll (h : Numbered s) : Numbered s.poll := by
  have hpairwise := h.pairwise_since
  have hmem : ∀ entry ∈ getLogEntriesSince s.logger s.lastSequence,
      s.lastSequence < entry.sequence ∧ entry ∈ s.logger.entries := by
    intro entry hentry
    obtain ⟨hentries, hlater⟩ := List.mem_filter.mp hentry
    exact ⟨of_decide_eq_true hlater, hentries⟩
  -- the reader goes on from the last entry it gets
  have hlast : s.lastSequence ≤ s.poll.lastSequence ∧ s.poll.lastSequence ≤ s.stored.length ∧
      ∀ entry ∈ getLogEntriesSince s.logger s.lastSequence,
        entry.sequence ≤ s.poll.lastSequence := by
    rw [Reading.poll]
    cases hnew : (getLogEntriesSince s.logger s.lastSequence).getLast? with
    | none =>
        rw [List.getLast?_eq_none_iff.mp hnew]
        exact ⟨le_rfl, h.seen, nofun⟩
    | some last =>
        obtain ⟨earlier, hearlier⟩ := List.getLast?_eq_some_iff.mp hnew
        have hlast := hmem last (by rw [hearlier]; exact List.mem_concat_self)
        refine ⟨hlast.1.le, h.sequence_le hlast.2, fun entry hentry => ?_⟩
        rw [hearlier, List.map_append, List.pairwise_append] at hpairwise
        rw [hearlier] at hentry
        rcases List.mem_append.mp hentry with hentry | hentry
        · exact (hpairwise.2.2 _ (List.mem_map_of_mem hentry) _ (List.mem_singleton.mpr rfl)).le
        · rw [List.mem_singleton.mp hentry]
          exact le_rfl
  refine ⟨h.stored, h.next, h.suffix, h.bounded, hlast.2.1, ?_, ?_⟩
  · show ((s.received ++ _).map LogEntry.sequence).Pairwise (· < ·)
    rw [List.map_append, List.pairwise_append]
    refine ⟨h.increasing, hpairwise, fun a ha b hb => ?_⟩
    obtain ⟨old, hold, rfl⟩ := List.mem_map.mp ha
    obtain ⟨new, hnew, rfl⟩ := List.mem_map.mp hb
    exact (h.below old hold).trans_lt (hmem new hnew).1
  · show ∀ entry ∈ s.received ++ _, entry.sequence ≤ s.poll.lastSequence
    intro entry hentry
    rcases List.mem_append.mp hentry with hentry | hentry
    · exact (h.below entry hentry).trans hlast.1
    · exact hlast.2.2 entry hentry

/-- One section keeps the numbering, as long as numbers are left. -/
theorem numbered_enter (h : Numbered s) (l : Section)
    (hfew : (s.enter timeText l).stored.length < 2 ^ 64) : Numbered (s.enter timeText l) := by
  cases l with
  | emit record => exact numbered_emit h record (by simpa [Reading.enter] using hfew)
  | formattingFailure =>
      exact ⟨h.stored, h.next, h.suffix, h.bounded, h.seen, h.increasing, h.below⟩
  | clear =>
      exact ⟨h.stored, h.next, List.nil_suffix, Nat.zero_le _, h.seen, h.increasing, h.below⟩
  | poll => exact numbered_poll h

end

/-! ### Runs -/

section
variable {s t : Reading}

theorem step_eq_some {l : Section} :
    (machine timeText).step s l = some t ↔ s.enter timeText l = t := by
  simp [machine]

/-- Every record that a run emits is stored. -/
theorem length_stored_enter (l : Section) :
    (s.enter timeText l).stored.length = s.stored.length + records [l] := by
  cases l with
  | emit record => simp [Reading.enter, records]
  | formattingFailure | clear | poll => rfl

theorem length_stored {ls : List Section} (hrun : (machine timeText).exec s ls = some t) :
    t.stored.length = s.stored.length + records ls := by
  induction ls generalizing s with
  | nil =>
      obtain rfl := Option.some.inj hrun
      rfl
  | cons l ls ih =>
      have hcons : records (l :: ls) = records [l] + records ls := by
        rw [← List.singleton_append]
        exact List.countP_append
      rw [ih hrun, length_stored_enter, hcons, Nat.add_assoc]

/-- The numbering holds in every state of a run that has numbers enough. -/
theorem numbered_of_exec {ls : List Section} (hrun : (machine timeText).exec s ls = some t)
    (h : Numbered s) (hfew : t.stored.length < 2 ^ 64) : Numbered t := by
  refine Machine.invariant (M := machine timeText)
    (fun u => u.stored.length < 2 ^ 64 → Numbered u) ?_ ⟨ls, hrun⟩ (fun _ => h) hfew
  intro u l v hu hl hv
  obtain rfl := step_eq_some.mp hl
  refine numbered_enter (hu ?_) l hv
  rw [length_stored_enter] at hv
  omega

theorem received_grows {ls : List Section} (hrun : (machine timeText).exec s ls = some t) :
    s.received <+: t.received := by
  refine Machine.invariant (M := machine timeText) (fun u => s.received <+: u.received) ?_
    ⟨ls, hrun⟩ (List.prefix_refl _)
  intro u l v hu hl
  obtain rfl := step_eq_some.mp hl
  cases l with
  | emit | formattingFailure | clear => exact hu
  | poll => exact hu.trans (List.prefix_append _ _)

/-- A record that is in the deque, with the number of those behind it. -/
def Holds (s : Reading) (entry : LogEntry) (newer : ℕ) : Prop :=
  ∃ older behind, s.logger.entries = older ++ entry :: behind ∧ behind.length = newer

/-- What `EmitRecord` leaves in the deque. -/
theorem entries_emit (s : Reading) (record : Record) :
    (s.enter timeText (.emit record)).logger.entries =
      if maxLogEntries < (s.logger.entries ++ [record.entry s.logger.nextSequence]).length then
        (s.logger.entries ++ [record.entry s.logger.nextSequence]).tail
      else s.logger.entries ++ [record.entry s.logger.nextSequence] := rfl

theorem holds_new (s : Reading) (record : Record) :
    Holds (s.enter timeText (.emit record)) (record.entry s.logger.nextSequence) 0 := by
  rw [Holds, entries_emit]
  split
  · rename_i hfull
    cases hentries : s.logger.entries with
    | nil =>
        rw [hentries] at hfull
        exact absurd hfull (by simp [maxLogEntries])
    | cons oldest older => exact ⟨older, [], rfl, rfl⟩
  · exact ⟨s.logger.entries, [], rfl, rfl⟩

theorem holds_emit {entry : LogEntry} {newer : ℕ} (h : Holds s entry newer) (record : Record)
    (hfew : newer + 1 < maxLogEntries) :
    Holds (s.enter timeText (.emit record)) entry (newer + 1) := by
  obtain ⟨older, behind, hentries, hlength⟩ := h
  rw [Holds, entries_emit, hentries, List.append_assoc, List.cons_append]
  split
  · -- the deque was full, so what it drops is older
    rename_i hfull
    cases older with
    | nil =>
        simp only [List.nil_append, List.length_cons, List.length_append, List.length_nil] at hfull
        omega
    | cons oldest older => exact ⟨older, behind ++ [_], rfl, by simp [hlength]⟩
  · exact ⟨older, behind ++ [_], rfl, by simp [hlength]⟩

/-- Between two polls a record stays in the deque until it is cleared or as many newer ones
are stored as the deque holds. -/
theorem holds_of_exec {entry : LogEntry} {newer : ℕ} {ls : List Section}
    (hrun : (machine timeText).exec s ls = some t) (h : Holds s entry newer)
    (hpoll : Section.poll ∉ ls) (hclear : Section.clear ∉ ls)
    (hfew : newer + records ls < maxLogEntries) :
    Holds t entry (newer + records ls) ∧ t.lastSequence = s.lastSequence := by
  induction ls generalizing s newer with
  | nil =>
      obtain rfl := Option.some.inj hrun
      exact ⟨h, rfl⟩
  | cons l ls ih =>
      obtain ⟨hpoll', hpolls⟩ := not_or.mp (List.mem_cons.not.mp hpoll)
      obtain ⟨hclear', hclears⟩ := not_or.mp (List.mem_cons.not.mp hclear)
      rw [Machine.exec_cons_of_step (t := s.enter timeText l) rfl] at hrun
      cases l with
      | poll => exact absurd rfl hpoll'
      | clear => exact absurd rfl hclear'
      | formattingFailure => exact ih (s := s.enter timeText _) hrun h hpolls hclears hfew
      | emit record =>
          have hcount : newer + records (.emit record :: ls) = newer + 1 + records ls := by
            rw [records, List.countP_cons_of_pos rfl, records]
            omega
          rw [hcount] at hfew ⊢
          exact ih (s := s.enter timeText _) hrun (holds_emit h record (by omega)) hpolls hclears
            hfew

/-- A poll hands over what the deque holds beyond the reader's last number. -/
theorem mem_received_poll {entry : LogEntry} {newer : ℕ} (h : Holds s entry newer)
    (hlater : s.lastSequence < entry.sequence) : entry ∈ s.poll.received := by
  obtain ⟨older, behind, hentries, -⟩ := h
  refine List.mem_append_right _ (List.mem_filter.mpr ⟨?_, decide_eq_true hlater⟩)
  rw [hentries]
  exact List.mem_append_right _ List.mem_cons_self

end

/-- In every run with fewer than `2 ^ 64` records: the deque holds consecutive numbers, at
most as many as its limit; no number is given twice; the reader receives records in order;
and a record that it does not receive was cleared, or had as many newer records stored as the
deque holds, before the first poll after it. -/
theorem reading_is_incremental {ls : List Section} {s : Reading}
    (hrun : (machine timeText).exec .initial ls = some s) (hfew : records ls < 2 ^ 64) :
    (∃ first, s.logger.entries.map LogEntry.sequence =
      List.range' first s.logger.entries.length) ∧
    s.logger.entries.length ≤ 10000 ∧
    s.stored.map LogEntry.sequence = List.range' 1 (records ls) ∧
    (s.received.map LogEntry.sequence).Pairwise (· < ·) ∧
    ∀ ls₁ record ls₂ ls₃, ls = ls₁ ++ .emit record :: ls₂ ++ .poll :: ls₃ → .poll ∉ ls₂ →
      record.entry (records ls₁ + 1) ∈ s.received ∨ .clear ∈ ls₂ ∨ 10000 ≤ records ls₂ := by
  have hcount : s.stored.length = records ls := by
    rw [length_stored hrun]
    exact Nat.zero_add _
  have hnumbered := numbered_of_exec hrun numbered_initial (hcount ▸ hfew)
  refine ⟨hnumbered.consecutive, hnumbered.bounded, hcount ▸ hnumbered.stored,
    hnumbered.increasing, ?_⟩
  intro ls₁ record ls₂ ls₃ hls hpoll
  by_contra hmissed
  push Not at hmissed
  obtain ⟨hreceived, hclear, hnewer⟩ := hmissed
  have htotal : records ls₁ + 1 ≤ records ls := by
    rw [hls, records, records, List.countP_append, List.countP_append,
      List.countP_cons_of_pos rfl]
    omega
  -- the states before the record, and at the poll
  rw [hls, List.append_assoc, Machine.exec_append] at hrun
  obtain ⟨before, hbefore, hrun⟩ := Option.bind_eq_some_iff.mp hrun
  rw [List.cons_append, Machine.exec_cons_of_step (t := before.enter timeText _) rfl,
    Machine.exec_append] at hrun
  obtain ⟨polled, hpolled, hrun⟩ := Option.bind_eq_some_iff.mp hrun
  rw [Machine.exec_cons_of_step (t := polled.poll) rfl] at hrun
  have hstored : before.stored.length = records ls₁ := by
    rw [length_stored hbefore]
    exact Nat.zero_add _
  have hearlier := numbered_of_exec hbefore numbered_initial (by omega)
  have hnext : before.logger.nextSequence = records ls₁ + 1 := by
    rw [hearlier.next, hstored, Nat.mod_eq_of_lt (by omega)]
  have hholds : Holds (before.enter timeText (.emit record)) _ 0 := holds_new before record
  rw [hnext] at hholds
  obtain ⟨hheld, hlast⟩ := holds_of_exec hpolled hholds hpoll hclear
    (by rw [Nat.zero_add]; exact hnewer)
  refine hreceived ((received_grows hrun).subset (mem_received_poll hheld ?_))
  rw [hlast]
  show before.lastSequence < records ls₁ + 1
  have := hearlier.seen
  omega

/-- A record that is cleared before the reader comes is missed, and the next one is not. -/
theorem reading_is_incremental_cleared :
    ∃ s, (machine fun _ => []).exec .initial
        [.emit ⟨.info, [97], [], 1, 0⟩, .clear, .emit ⟨.error, [98], [], 2, 0⟩, .poll] = some s ∧
      (s.received.map LogEntry.sequence).Pairwise (· < ·) ∧
      (s.received.map LogEntry.sequence) = [2] := by
  obtain ⟨s, hrun, hlast⟩ : ∃ s, (machine fun _ => []).exec .initial
      [.emit ⟨.info, [97], [], 1, 0⟩, .clear, .emit ⟨.error, [98], [], 2, 0⟩, .poll] = some s ∧
      (s.received.map LogEntry.sequence) = [2] := ⟨_, rfl, by decide⟩
  exact ⟨s, hrun, (reading_is_incremental hrun (by decide)).2.2.2.1, hlast⟩

end Watchlist.Logger
