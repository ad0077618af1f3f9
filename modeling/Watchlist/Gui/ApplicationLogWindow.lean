import Watchlist.Library.Ends
import Watchlist.Library.Parts
import Watchlist.Library.Simulation
import Watchlist.Logger.IncrementalReading

/-!
`ShowApplicationLog` of `ApplicationLogWindow.cpp`, beside threads that log. A frame gets
the entries after the last one it has, cuts its own copy back to the newest, and draws the
lines of those that the boxes let through. The only calls under the mutex of the logger are
the one that gets the entries and the one behind the button, so the threads log in between.

The window is compared with one that has no numbers and no bounds to look after: it keeps
all that was logged since the log was cleared, copies it in every frame, and draws from its
end what the logger wrote. The scroll bar is left out, and as in the logger so are the
fatal records.
-/

namespace Watchlist.Gui.ApplicationLogWindow

open Bytes Ends Logger Transition

def maxDisplayedEntries : ℕ := 10000

structure DisplayEntry where
  entry : LogEntry
  lines : List Bytes

structure DisplayRow where
  entryIndex : ℕ
  lineIndex : ℕ

/-- The levels of `SeverityDisplays`, in the order of their boxes. -/
def severityDisplays : List LogLevel := [.error, .warning, .info, .debug, .trace]

/-- What is read behind `c_str()`: the text up to its first zero byte. -/
def cStr (text : Bytes) : Bytes := text.takeWhile (· ≠ 0)

def severityIndex (level : LogLevel) : ℕ :=
  (severityDisplays.findIdx? (· == level)).getD (severityDisplays.length - 1)

section
variable (timeText : ℤ → Bytes)

def formattedEntry (entry : LogEntry) : Bytes :=
  ascii "[" ++ [entry.level.toChar] ++ ascii "] " ++ timeText entry.timestamp ++ ascii " | " ++
    entry.source ++ ascii " | " ++ entry.message

/-- The loop over `find`, unless the fuel runs out. -/
def formatLogEntryLinesRun (fuel : ℕ) (entry : LogEntry) : Option (List Bytes) :=
  (partsLoop 10 (formattedEntry timeText entry) (fun lines line _ => some (lines ++ [line]))
    fuel 0 []).join

def formatLogEntryLines (entry : LogEntry) : List Bytes :=
  (formatLogEntryLinesRun timeText ((formattedEntry timeText entry).length + 1) entry).getD []

def display (entry : LogEntry) : DisplayEntry := ⟨entry, formatLogEntryLines timeText entry⟩

/-! ### The window -/

/-- How far `ShowApplicationLog` is in a frame. -/
inductive Stage
  | outside
  | polled
  | toolbar
  | filters
  | rows
  deriving DecidableEq

/-- The logger with the window's `lastSequence`, the other variables of the window, and the
texts that the frame has drawn; an index that is out of range has none. -/
structure ApplicationLog where
  reading : Reading
  displayedEntries : List DisplayEntry
  severityEnabled : List Bool
  stage : Stage
  visibleRows : List DisplayRow
  drawn : List (Option Bytes)

def ApplicationLog.initial : ApplicationLog where
  reading := .initial
  displayedEntries := []
  severityEnabled := severityDisplays.map fun _ => true
  stage := .outside
  visibleRows := []
  drawn := []

inductive Action
  /-- another thread logs -/
  | log (record : Record)
  | formattingFailure
  | poll
  /-- `ImGui::Begin`, which tells whether anything of the window is to be seen -/
  | begin (visible : Bool)
  /-- the button `Clear` -/
  | button (pressed : Bool)
  /-- a click into one of the boxes -/
  | check (index : ℕ)
  | filter
  /-- the rows that the clipper asks for -/
  | draw (first last : ℕ)
  | finish

namespace ApplicationLog

def poll (s : ApplicationLog) : ApplicationLog :=
  let newEntries := getLogEntriesSince s.reading.logger s.reading.lastSequence
  { s with
    reading := s.reading.poll
    displayedEntries :=
      if newEntries.isEmpty then s.displayedEntries
      else trim maxDisplayedEntries (s.displayedEntries ++ newEntries.map (display timeText))
    stage := .polled }

def clear (s : ApplicationLog) : ApplicationLog :=
  { s with
    reading := s.reading.enter timeText .clear
    displayedEntries := [] }

def rows (s : ApplicationLog) : List DisplayRow :=
  s.displayedEntries.zipIdx.flatMap fun displayed =>
    if s.severityEnabled.getD (severityIndex displayed.1.entry.level) false then
      (List.range displayed.1.lines.length).map (DisplayRow.mk displayed.2)
    else []

def rowText (s : ApplicationLog) (row : DisplayRow) : Option Bytes :=
  s.displayedEntries[row.entryIndex]?.bind fun displayed => displayed.lines[row.lineIndex]?

def advance (s : ApplicationLog) : Action → Option ApplicationLog
  | .log record => some { s with reading := s.reading.enter timeText (.emit record) }
  | .formattingFailure => some { s with reading := s.reading.enter timeText .formattingFailure }
  | .poll => allow (s.stage = .outside) (s.poll timeText)
  | .begin visible =>
      allow (s.stage = .polled) { s with stage := if visible then .toolbar else .outside }
  | .button pressed =>
      allow (s.stage = .toolbar)
        { (if pressed then s.clear timeText else s) with stage := .filters }
  | .check index =>
      allow (s.stage = .filters) { s with severityEnabled := s.severityEnabled.modify index not }
  | .filter =>
      allow (s.stage = .filters) { s with visibleRows := s.rows, drawn := [], stage := .rows }
  | .draw first last =>
      allow (s.stage = .rows ∧ first ≤ last ∧ last ≤ s.visibleRows.length)
        { s with
          drawn := s.drawn ++ ((s.visibleRows.drop first).take (last - first)).map fun row =>
            (s.rowText row).map cStr }
  | .finish => allow (s.stage = .rows) { s with stage := .outside }

end ApplicationLog

def machine : Machine ApplicationLog Action := ⟨ApplicationLog.advance timeText⟩

/-! ### The whole log -/

/-- What the logger writes for the entry. -/
def written (entry : LogEntry) : Bytes := formattedEntry timeText entry ++ [10]

def writtenLines (entry : LogEntry) : List Bytes := (split 10 (written timeText entry)).dropLast

/-- A window that copies the whole log in every frame. -/
structure WholeLog where
  /-- the number of records so far -/
  count : ℕ
  /-- all that was logged since the log was cleared -/
  logged : List LogEntry
  /-- the same, when the frame began -/
  shown : List LogEntry
  enabled : LogLevel → Bool
  stage : Stage
  rows : List Bytes
  drawn : List Bytes

def WholeLog.initial : WholeLog where
  count := 0
  logged := []
  shown := []
  enabled := fun _ => true
  stage := .outside
  rows := []
  drawn := []

/-- The lines of the last entries that are shown, of the levels that are enabled. -/
def WholeLog.lines (w : WholeLog) : List Bytes :=
  ((w.shown.rtake maxDisplayedEntries).filter fun entry => w.enabled entry.level).flatMap
    (writtenLines timeText)

def WholeLog.advance (w : WholeLog) : Action → Option WholeLog
  | .log record =>
      some { w with count := w.count + 1, logged := w.logged ++ [record.entry (w.count + 1)] }
  | .formattingFailure => some w
  | .poll => allow (w.stage = .outside) { w with shown := w.logged, stage := .polled }
  | .begin visible =>
      allow (w.stage = .polled) { w with stage := if visible then .toolbar else .outside }
  | .button pressed =>
      allow (w.stage = .toolbar)
        { (if pressed then { w with logged := [], shown := [] } else w) with stage := .filters }
  | .check index =>
      allow (w.stage = .filters)
        { w with
          enabled := fun level =>
            if severityDisplays[index]? = some level then !w.enabled level else w.enabled level }
  | .filter =>
      allow (w.stage = .filters) { w with rows := w.lines timeText, drawn := [], stage := .rows }
  | .draw first last =>
      allow (w.stage = .rows ∧ first ≤ last ∧ last ≤ w.rows.length)
        { w with drawn := w.drawn ++ ((w.rows.drop first).take (last - first)).map cStr }
  | .finish => allow (w.stage = .rows) { w with stage := .outside }

def wholeMachine : Machine WholeLog Action := ⟨WholeLog.advance timeText⟩

end

variable {timeText : ℤ → Bytes}

/-! ### Lines and rows -/

theorem foldParts_lines (parts lines : List Bytes) :
    foldParts (fun lines line _ => some (lines ++ [line])) parts lines = some (lines ++ parts) := by
  induction parts generalizing lines with
  | nil => rw [foldParts, List.append_nil]
  | cons part rest ih =>
      rw [foldParts, Option.bind_some, ih, List.append_assoc, List.singleton_append]

theorem writtenLines_eq (entry : LogEntry) :
    writtenLines timeText entry = split 10 (formattedEntry timeText entry) := by
  have hlines : split 10 (written timeText entry) =
      split 10 (formattedEntry timeText entry) ++ split 10 [] :=
    List.splitOn_append_cons_self _ _
  have hempty : split 10 [] = [[]] := rfl
  rw [writtenLines, hlines, hempty, List.dropLast_concat]

/-- The loop ends, and its lines are those that the logger wrote. -/
theorem formatLogEntryLinesRun_eq {fuel : ℕ} {entry : LogEntry}
    (hfuel : (formattedEntry timeText entry).length < fuel) :
    formatLogEntryLinesRun timeText fuel entry = some (writtenLines timeText entry) := by
  rw [formatLogEntryLinesRun, partsLoop_eq (Nat.zero_le _) (by omega), foldParts_lines,
    Option.join_some, List.drop_zero, List.nil_append, writtenLines_eq]

theorem formatLogEntryLines_eq (entry : LogEntry) :
    formatLogEntryLines timeText entry = writtenLines timeText entry := by
  rw [formatLogEntryLines, formatLogEntryLinesRun_eq (Nat.lt_succ_self _), Option.getD_some]

/-- With a line feed behind each, the lines are the text on the output. -/
theorem flatMap_writtenLines (entry : LogEntry) :
    (writtenLines timeText entry).flatMap (· ++ [10]) = written timeText entry := by
  have hne : split 10 (formattedEntry timeText entry) ≠ [] := List.splitOn_ne_nil 10 _
  rw [writtenLines_eq, flatMap_append_separator 10 hne, join_split, written]

theorem map_getElem?_range {α : Type*} (l : List α) :
    (List.range l.length).map (fun i => l[i]?) = l.map some := by
  apply List.ext_getElem
  · simp
  · intro i hi hi'
    simp only [List.length_map, List.length_range] at hi
    simp [hi]

/-- Every row has its line, and the rows are the lines of the enabled levels in their order. -/
theorem map_rowText_rows (s : ApplicationLog) :
    s.rows.map s.rowText =
      ((s.displayedEntries.filter fun displayed =>
        s.severityEnabled.getD (severityIndex displayed.entry.level) false).flatMap
          DisplayEntry.lines).map some := by
  -- the rows from some entry on
  have hrest : ∀ before after, s.displayedEntries = before ++ after →
      ((after.zipIdx before.length).flatMap fun displayed =>
        if s.severityEnabled.getD (severityIndex displayed.1.entry.level) false then
          (List.range displayed.1.lines.length).map (DisplayRow.mk displayed.2)
        else []).map s.rowText =
      ((after.filter fun displayed =>
        s.severityEnabled.getD (severityIndex displayed.entry.level) false).flatMap
          DisplayEntry.lines).map some := by
    intro before after hentries
    induction after generalizing before with
    | nil => rfl
    | cons displayed after ih =>
        have hlines : ((List.range displayed.lines.length).map
            (DisplayRow.mk before.length)).map s.rowText = displayed.lines.map some := by
          rw [List.map_map, ← map_getElem?_range]
          refine List.map_congr_left fun i _ => ?_
          rw [Function.comp_apply, ApplicationLog.rowText, hentries,
            List.getElem?_append_right le_rfl, Nat.sub_self, List.getElem?_cons_zero,
            Option.bind_some]
        have hafter := ih (before ++ [displayed]) (by rw [hentries, List.append_assoc]; rfl)
        rw [List.length_append, List.length_singleton] at hafter
        rw [List.zipIdx_cons, List.flatMap_cons, List.map_append, hafter, List.filter_cons]
        split
        · rw [hlines, List.flatMap_cons, List.map_append]
        · rfl
  exact hrest [] s.displayedEntries rfl

/-! ### The boxes -/

theorem getElem?_severityDisplays {index : ℕ} {level : LogLevel} :
    severityDisplays[index]? = some level ↔ severityIndex level = index := by
  constructor
  · intro hindex
    obtain ⟨hlt, hget⟩ := List.getElem?_eq_some_iff.mp hindex
    have hlt' : index < 5 := hlt
    interval_cases index <;> (cases hget; rfl)
  · rintro rfl
    cases level <;> rfl

/-- A click changes the box of one level. -/
theorem getD_modify_severity (boxes : List Bool) (hlength : boxes.length = severityDisplays.length)
    (index : ℕ) (level : LogLevel) :
    (boxes.modify index not).getD (severityIndex level) false =
      if severityDisplays[index]? = some level then !boxes.getD (severityIndex level) false
      else boxes.getD (severityIndex level) false := by
  have hbox : severityIndex level < boxes.length := by
    rw [hlength]
    cases level <;> decide
  rw [List.getD_eq_getElem?_getD, List.getD_eq_getElem?_getD, List.getElem?_modify,
    List.getElem?_eq_getElem hbox]
  by_cases hindex : severityIndex level = index
  · rw [if_pos (getElem?_severityDisplays.mpr hindex)]
    simp [hindex]
  · rw [if_neg (getElem?_severityDisplays.not.mpr hindex)]
    simp [Ne.symm hindex]

/-! ### Following the whole log -/

/-- The window is where the whole log is: the logger holds the end of what was logged, the
window the end of what was shown, and its last number is where that ends unless nothing of it
is shown. -/
structure Follows (timeText : ℤ → Bytes) (s : ApplicationLog) (w : WholeLog) : Prop where
  numbered : Numbered s.reading
  count : w.count = s.reading.stored.length
  logged : w.logged <:+ s.reading.stored
  entries : s.reading.logger.entries = w.logged.rtake maxLogEntries
  shown : w.shown <+: w.logged
  seen : s.reading.lastSequence ≤ w.count - w.logged.length + w.shown.length
  current : w.shown = [] ∨
    s.reading.lastSequence = w.count - w.logged.length + w.shown.length
  displayed : s.displayedEntries = (w.shown.rtake maxDisplayedEntries).map (display timeText)
  boxes : s.severityEnabled.length = severityDisplays.length
  enabled : ∀ level, s.severityEnabled.getD (severityIndex level) false = w.enabled level
  stage : s.stage = w.stage
  rows : s.stage = .rows → s.visibleRows.map s.rowText = w.rows.map some
  drawn : s.drawn = w.drawn.map some

theorem follows_initial : Follows timeText .initial .initial where
  numbered := numbered_initial
  count := rfl
  logged := List.nil_suffix
  entries := rfl
  shown := List.prefix_refl _
  seen := Nat.zero_le _
  current := .inl rfl
  displayed := rfl
  boxes := rfl
  enabled level := by cases level <;> rfl
  stage := rfl
  rows := nofun
  drawn := rfl

section
variable {s : ApplicationLog} {w : WholeLog}

theorem Follows.length_logged_le (h : Follows timeText s w) :
    w.logged.length ≤ w.count := h.count ▸ h.logged.length_le

/-- The numbers of what was logged end with the number of the last record. -/
theorem Follows.sequences (h : Follows timeText s w) :
    w.logged.map LogEntry.sequence =
      List.range' (w.count - w.logged.length + 1) w.logged.length := by
  obtain ⟨before, hstored⟩ := h.logged
  have hcount : w.count = before.length + w.logged.length := by
    rw [h.count, ← hstored, List.length_append]
  have hmap := h.numbered.stored
  rw [← hstored, List.map_append, List.length_append, ← List.range'_append_1] at hmap
  have hlogged := (List.append_inj hmap (by simp)).2
  rw [hlogged, hcount]
  congr 1
  omega

/-- What the next frame gets is what was logged since the last one, as far as the logger
still holds it. -/
theorem Follows.newEntries (h : Follows timeText s w) :
    getLogEntriesSince s.reading.logger s.reading.lastSequence =
      w.logged.drop (max w.shown.length (w.logged.length - maxLogEntries)) := by
  have hlast : s.reading.lastSequence - (w.count - w.logged.length) = w.shown.length := by
    have hseen := h.seen
    rcases h.current with hnone | hlast
    · rw [hnone, List.length_nil] at hseen ⊢
      omega
    · omega
  rw [getLogEntriesSince, h.entries, filter_lt_rtake_of_numbered h.sequences, hlast]

/-- A frame begins with the end of all that was logged. -/
theorem Follows.displayedEntries_poll (h : Follows timeText s w) :
    (s.poll timeText).displayedEntries =
      (w.logged.rtake maxDisplayedEntries).map (display timeText) := by
  have hcaughtUp := rtake_catch_up (l := w.logged) (m := maxDisplayedEntries)
    (n := maxLogEntries) le_rfl w.shown.length
  rw [← List.prefix_iff_eq_take.mp h.shown, ← h.newEntries] at hcaughtUp
  show (if _ then _ else _) = _
  split
  · rename_i hempty
    rw [List.isEmpty_iff.mp hempty, List.append_nil, rtake_rtake le_rfl] at hcaughtUp
    rw [h.displayed, hcaughtUp]
  · rw [trim_eq_rtake, h.displayed, ← List.map_append, ← map_rtake, hcaughtUp]

/-- The last of what was logged has the number of the last record. -/
theorem Follows.getLast?_logged (h : Follows timeText s w) (hne : w.logged ≠ []) :
    w.logged.getLast?.map LogEntry.sequence = some w.count := by
  have hlength := List.length_pos_iff.mpr hne
  have hle := h.length_logged_le
  rw [← List.getLast?_map, h.sequences, List.getLast?_range', if_neg (by omega)]
  congr 1
  omega

/-- Behind a frame the window has the last number, or nothing is logged that it could have. -/
theorem Follows.lastSequence_poll (h : Follows timeText s w) :
    s.reading.poll.lastSequence ≤ w.count ∧
      (w.logged = [] ∨ s.reading.poll.lastSequence = w.count) := by
  have hle := h.length_logged_le
  have hshown := h.shown.length_le
  have hseen := h.seen
  have hpoll : s.reading.poll.lastSequence =
      ((w.logged.drop (max w.shown.length (w.logged.length - maxLogEntries))).getLast?.map
        LogEntry.sequence).getD s.reading.lastSequence := by
    rw [← h.newEntries]
    rfl
  rw [List.getLast?_drop] at hpoll
  split at hpoll
  · -- nothing is new
    rename_i hnothing
    replace hpoll : s.reading.poll.lastSequence = s.reading.lastSequence := hpoll
    refine ⟨by omega, ?_⟩
    by_cases hempty : w.logged = []
    · exact .inl hempty
    · have hlength := List.length_pos_iff.mpr hempty
      have hlimit : 0 < maxLogEntries := by decide
      rcases h.current with hnone | hcurrent
      · rw [hnone, List.length_nil] at hnothing
        omega
      · exact .inr (by omega)
  · rename_i hsome
    have hne : w.logged ≠ [] := by
      rintro hnil
      rw [hnil] at hsome
      exact hsome (Nat.zero_le _)
    rw [h.getLast?_logged hne, Option.getD_some] at hpoll
    exact ⟨hpoll.le, .inr hpoll⟩

theorem follows_poll (h : Follows timeText s w) :
    Follows timeText (s.poll timeText)
      { w with shown := w.logged, stage := .polled } := by
  have hle := h.length_logged_le
  have hwhole : w.count - w.logged.length + w.logged.length = w.count := Nat.sub_add_cancel hle
  obtain ⟨hseen, hcurrent⟩ := h.lastSequence_poll
  exact
    { numbered := numbered_poll h.numbered
      count := h.count
      logged := h.logged
      entries := h.entries
      shown := List.prefix_refl _
      seen := hseen.trans_eq hwhole.symm
      current := hcurrent.imp_right fun hlast => hlast.trans hwhole.symm
      displayed := h.displayedEntries_poll
      boxes := h.boxes
      enabled := h.enabled
      stage := rfl
      rows := nofun
      drawn := h.drawn }

theorem follows_clear (h : Follows timeText s w) :
    Follows timeText { s.clear timeText with stage := .filters }
      { w with logged := [], shown := [], stage := .filters } where
  numbered :=
    { h.numbered with
      suffix := List.nil_suffix
      bounded := Nat.zero_le _ }
  count := h.count
  logged := List.nil_suffix
  entries := (List.rtake_nil _).symm
  shown := List.prefix_refl _
  seen := by
    have hseen := h.seen
    have hshown := h.shown.length_le
    have hle := h.length_logged_le
    show s.reading.lastSequence ≤ w.count - 0 + 0
    omega
  current := .inl rfl
  displayed := by rw [List.rtake_nil]; rfl
  boxes := h.boxes
  enabled := h.enabled
  stage := rfl
  rows := nofun
  drawn := h.drawn

theorem follows_log (h : Follows timeText s w) (record : Record)
    (hfew : s.reading.stored.length + 1 < 2 ^ 64) :
    Follows timeText
      { s with reading := s.reading.enter timeText (.emit record) }
      { w with count := w.count + 1, logged := w.logged ++ [record.entry (w.count + 1)] } := by
  have hnext : s.reading.logger.nextSequence = w.count + 1 := by
    rw [h.numbered.next, Nat.mod_eq_of_lt hfew, h.count]
  have hle := h.length_logged_le
  -- what was logged begins where it did
  have hfirst : w.count + 1 - (w.logged ++ [record.entry (w.count + 1)]).length =
      w.count - w.logged.length := by
    rw [List.length_append, List.length_singleton]
    omega
  exact
    { numbered := numbered_emit h.numbered record hfew
      count := by
        show w.count + 1 = (s.reading.stored ++ [_]).length
        rw [List.length_append, List.length_singleton, h.count]
      logged := by
        obtain ⟨before, hstored⟩ := h.logged
        refine ⟨before, ?_⟩
        show _ = s.reading.stored ++ [record.entry s.reading.logger.nextSequence]
        rw [← List.append_assoc, hstored, hnext]
      entries := by
        rw [entries_emit, hnext, h.entries, ite_tail_eq_rtake, rtake_rtake_append]
        rw [List.length_append, length_rtake, List.length_singleton]
        exact Nat.succ_le_succ (min_le_left _ _)
      shown := h.shown.trans (List.prefix_append _ _)
      seen := h.seen.trans_eq (by rw [hfirst])
      current := h.current.imp_right fun hlast => hlast.trans (by rw [hfirst])
      displayed := h.displayed
      boxes := h.boxes
      enabled := h.enabled
      stage := h.stage
      rows := h.rows
      drawn := h.drawn }

/-- The rows of the window have the lines of the whole log. -/
theorem Follows.rowTexts (h : Follows timeText s w) :
    s.rows.map s.rowText = (w.lines timeText).map some := by
  have hlines : DisplayEntry.lines ∘ display timeText = writtenLines timeText :=
    funext formatLogEntryLines_eq
  have henabled : (fun displayed : DisplayEntry =>
        s.severityEnabled.getD (severityIndex displayed.entry.level) false) ∘ display timeText =
      fun entry => w.enabled entry.level := funext fun entry => h.enabled entry.level
  rw [map_rowText_rows, h.displayed, List.filter_map, henabled, List.flatMap_map, WholeLog.lines]
  congr 2

theorem follows_check (h : Follows timeText s w) (hstage : s.stage = .filters)
    (index : ℕ) :
    Follows timeText
      { s with severityEnabled := s.severityEnabled.modify index not }
      { w with
        enabled := fun level =>
          if severityDisplays[index]? = some level then !w.enabled level
          else w.enabled level } :=
  { h with
    boxes := (List.length_modify _ _ _).trans h.boxes
    enabled := fun level => by
      rw [getD_modify_severity _ h.boxes, h.enabled]
    rows := fun hrows => by
      rw [hstage] at hrows
      cases hrows }

theorem follows_filter (h : Follows timeText s w) :
    Follows timeText { s with visibleRows := s.rows, drawn := [], stage := .rows }
      { w with rows := w.lines timeText, drawn := [], stage := .rows } := by
  have hrows := h.rowTexts
  generalize w.lines timeText = lines at hrows ⊢
  exact { h with stage := rfl, rows := fun _ => hrows, drawn := rfl }

theorem follows_draw (h : Follows timeText s w) (hstage : s.stage = .rows)
    (first last : ℕ) :
    Follows timeText
      { s with drawn := s.drawn ++ ((s.visibleRows.drop first).take (last - first)).map fun row =>
          (s.rowText row).map cStr }
      { w with drawn := w.drawn ++ ((w.rows.drop first).take (last - first)).map cStr } :=
  { h with
    drawn := by
      have hrows : ((s.visibleRows.drop first).take (last - first)).map s.rowText =
          ((w.rows.drop first).take (last - first)).map some := by
        rw [List.map_take, List.map_drop, h.rows hstage, List.map_take, List.map_drop]
      have htexts := congrArg (List.map (Option.map cStr)) hrows
      rw [List.map_map, List.map_map] at htexts
      rw [List.map_append, ← h.drawn, List.map_map]
      exact congrArg (s.drawn ++ ·) htexts }

end

/-- One step of the window is one of the whole log. -/
theorem follows_step {s t : ApplicationLog} {w : WholeLog} {l : Action}
    (h : Follows timeText s w) (hstep : (machine timeText).step s l = some t)
    (hfew : t.reading.stored.length < 2 ^ 64) :
    ∃ v, (wholeMachine timeText).step w l = some v ∧ Follows timeText t v := by
  have hstage := h.stage
  cases l with
  | log record =>
      obtain rfl := Option.some.inj hstep
      refine ⟨_, rfl, follows_log h record ?_⟩
      simpa [Reading.enter] using hfew
  | formattingFailure =>
      obtain rfl := Option.some.inj hstep
      have hnumbered : Numbered (s.reading.enter timeText .formattingFailure) :=
        numbered_enter h.numbered .formattingFailure hfew
      exact ⟨w, rfl, { h with numbered := hnumbered }⟩
  | poll =>
      obtain ⟨houtside, rfl⟩ := allow_eq_some.mp hstep
      exact ⟨_, allow_eq_some.mpr ⟨hstage ▸ houtside, rfl⟩, follows_poll h⟩
  | begin visible =>
      obtain ⟨hpolled, rfl⟩ := allow_eq_some.mp hstep
      refine ⟨_, allow_eq_some.mpr ⟨hstage ▸ hpolled, rfl⟩, { h with stage := rfl, rows := ?_ }⟩
      cases visible <;> rintro ⟨⟩
  | button pressed =>
      obtain ⟨htoolbar, rfl⟩ := allow_eq_some.mp hstep
      refine ⟨_, allow_eq_some.mpr ⟨hstage ▸ htoolbar, rfl⟩, ?_⟩
      cases pressed with
      | false => exact { h with stage := rfl, rows := by rintro ⟨⟩ }
      | true =>
          have hclear := follows_clear h
          exact hclear
  | check index =>
      obtain ⟨hfilters, rfl⟩ := allow_eq_some.mp hstep
      exact ⟨_, allow_eq_some.mpr ⟨hstage ▸ hfilters, rfl⟩, follows_check h hfilters index⟩
  | filter =>
      obtain ⟨hfilters, rfl⟩ := allow_eq_some.mp hstep
      exact ⟨_, allow_eq_some.mpr ⟨hstage ▸ hfilters, rfl⟩, follows_filter h⟩
  | draw first last =>
      obtain ⟨⟨hrows, hrange⟩, rfl⟩ := allow_eq_some.mp hstep
      have hlength : s.visibleRows.length = w.rows.length := by
        simpa using congrArg List.length (h.rows hrows)
      rw [hlength] at hrange
      exact ⟨_, allow_eq_some.mpr ⟨⟨hstage ▸ hrows, hrange⟩, rfl⟩, follows_draw h hrows first last⟩
  | finish =>
      obtain ⟨hrows, rfl⟩ := allow_eq_some.mp hstep
      exact ⟨_, allow_eq_some.mpr ⟨hstage ▸ hrows, rfl⟩,
        { h with stage := rfl, rows := by rintro ⟨⟩ }⟩

theorem length_stored_le {s t : ApplicationLog} {l : Action}
    (hstep : (machine timeText).step s l = some t) :
    s.reading.stored.length ≤ t.reading.stored.length := by
  cases l with
  | log record =>
      obtain rfl := Option.some.inj hstep
      simp [Reading.enter]
  | formattingFailure =>
      obtain rfl := Option.some.inj hstep
      exact le_rfl
  | button pressed =>
      obtain ⟨-, rfl⟩ := allow_eq_some.mp hstep
      cases pressed <;> exact le_rfl
  | poll | begin | check | filter | draw | finish =>
      obtain ⟨-, rfl⟩ := allow_eq_some.mp hstep
      exact le_rfl

/-- However the threads log between the calls of the window, as long as the numbers last: the
window does what one that copies the whole log in every frame does. It holds the last entries
of what was logged, when the frame began, since the log was cleared, each with the lines that
the logger wrote for it, and what it draws is those lines, every row with its own, as far as
their first zero byte. -/
theorem window_follows_log {ls : List Action} {s : ApplicationLog}
    (hrun : (machine timeText).exec .initial ls = some s)
    (hfew : s.reading.stored.length < 2 ^ 64) :
    ∃ w, (wholeMachine timeText).exec .initial ls = some w ∧
      s.displayedEntries.map DisplayEntry.entry = w.shown.rtake 10000 ∧
      (∀ displayed ∈ s.displayedEntries,
        (∀ line ∈ displayed.lines, 10 ∉ line) ∧
          displayed.lines.flatMap (· ++ [10]) = written timeText displayed.entry) ∧
      s.drawn = w.drawn.map some := by
  obtain ⟨w, hw, h⟩ := Machine.exec_lockstep (R := Follows timeText)
    (P := fun s => s.reading.stored.length < 2 ^ 64)
    (fun s l t hstep ht => (length_stored_le hstep).trans_lt ht)
    (fun s w l t h hstep ht => follows_step h hstep ht) follows_initial hrun hfew
  refine ⟨w, hw, ?_, ?_, h.drawn⟩
  · rw [h.displayed, List.map_map]
    exact List.map_id _
  · intro displayed hdisplayed
    rw [h.displayed] at hdisplayed
    obtain ⟨entry, -, rfl⟩ := List.mem_map.mp hdisplayed
    have hlines : (display timeText entry).lines = writtenLines timeText entry :=
      formatLogEntryLines_eq entry
    rw [hlines]
    refine ⟨fun line hline => ?_, flatMap_writtenLines entry⟩
    rw [writtenLines_eq] at hline
    exact notMem_of_mem_split hline

/-- A record of two lines is cleared away; of the two behind it, the box of the warnings hides
one. -/
def clearedRun : List Action :=
  [.log ⟨.info, [97, 10, 98], [102], 1, 0⟩, .poll, .begin true, .button true, .filter, .finish,
    .log ⟨.warning, [99], [102], 2, 0⟩, .log ⟨.error, [100, 10, 101], [102], 3, 0⟩, .poll,
    .begin true, .button false, .check 1, .filter, .draw 0 2]

theorem window_follows_log_cleared :
    ∃ s w, (machine fun _ => []).exec .initial clearedRun = some s ∧
      (wholeMachine fun _ => []).exec .initial clearedRun = some w ∧
      s.displayedEntries.map DisplayEntry.entry = w.shown.rtake 10000 ∧
      s.drawn = w.drawn.map some ∧
      w.drawn = [ascii "[E]  | f:3 | d", [101]] := by
  obtain ⟨s, hrun, hfew⟩ : ∃ s, (machine fun _ => []).exec .initial clearedRun = some s ∧
      s.reading.stored.length < 2 ^ 64 := ⟨_, rfl, by decide⟩
  obtain ⟨w, hw, hentries, -, hdrawn⟩ := window_follows_log hrun hfew
  obtain ⟨w', hw', hlines⟩ : ∃ w', (wholeMachine fun _ => []).exec .initial clearedRun = some w' ∧
      w'.drawn = [ascii "[E]  | f:3 | d", [101]] := ⟨_, rfl, by decide +kernel⟩
  obtain rfl := Option.some.inj (hw.symm.trans hw')
  exact ⟨s, w, hrun, hw, hentries, hdrawn, hlines⟩

end Watchlist.Gui.ApplicationLogWindow
