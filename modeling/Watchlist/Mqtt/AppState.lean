import Watchlist.Library.Bytes

/-!
`AppState.cpp`: the console values and the event history that the GUI, MQTT and
dispatcher threads share. Every operation is one section under its mutex. The
history is bounded; the outbound, received and acknowledgement lists, which
nothing here reads, are left out.
-/

namespace Watchlist

open Bytes

/-- The mutable form values of the MQTT console. -/
structure ConsoleState where
  brokerHost : Bytes
  brokerPort : ℤ
  clientId : Bytes
  connectionStatus : Bytes
  selectedMessageType : ℤ
  scriptName : Bytes
  deviceId : Bytes
  payload : Bytes
  command : Bytes
  key : Bytes
  value : Bytes
  prompt : Bytes
  deriving DecidableEq

namespace ConsoleState

/-- A console as it is default-initialised. -/
def initial : ConsoleState where
  brokerHost := ascii "localhost"
  brokerPort := 1883
  clientId := ascii "watchlist-client"
  connectionStatus := ascii "Offline"
  selectedMessageType := 0
  scriptName := ascii "script1"
  deviceId := ascii "device-1"
  payload := ascii "hello"
  command := ascii "status"
  key := ascii "sample"
  value := ascii "42"
  prompt := ascii "Summarize device health"

/-- The console with another connection status. -/
def withStatus (console : ConsoleState) (status : Bytes) : ConsoleState :=
  { console with connectionStatus := status }

/-- Two consoles agree on every form field: all but the connection status. -/
def SameForm (a b : ConsoleState) : Prop := a.withStatus b.connectionStatus = b

instance (a b : ConsoleState) : Decidable (SameForm a b) := inferInstanceAs (Decidable (_ = _))

@[simp] theorem connectionStatus_withStatus (console : ConsoleState) (status : Bytes) :
    (console.withStatus status).connectionStatus = status := rfl

@[simp] theorem withStatus_withStatus (console : ConsoleState) (a b : Bytes) :
    (console.withStatus a).withStatus b = console.withStatus b := rfl

@[simp] theorem withStatus_self (console : ConsoleState) :
    console.withStatus console.connectionStatus = console := rfl

theorem sameForm_iff {a b : ConsoleState} :
    a.SameForm b ↔ ∀ status, a.withStatus status = b.withStatus status := by
  constructor
  · intro h status
    rw [← h, withStatus_withStatus]
  · intro h
    exact (h b.connectionStatus).trans (withStatus_self b)

theorem SameForm.refl (a : ConsoleState) : a.SameForm a := withStatus_self a

theorem SameForm.symm {a b : ConsoleState} (h : a.SameForm b) : b.SameForm a :=
  sameForm_iff.mpr fun status => (sameForm_iff.mp h status).symm

theorem SameForm.trans {a b c : ConsoleState} (h : a.SameForm b) (h' : b.SameForm c) :
    a.SameForm c :=
  sameForm_iff.mpr fun status => (sameForm_iff.mp h status).trans (sameForm_iff.mp h' status)

@[simp] theorem withStatus_sameForm {a b : ConsoleState} {status : Bytes} :
    (a.withStatus status).SameForm b ↔ a.SameForm b := Iff.rfl

@[simp] theorem sameForm_withStatus {a b : ConsoleState} {status : Bytes} :
    a.SameForm (b.withStatus status) ↔ a.SameForm b := by
  have hb : (b.withStatus status).SameForm b := withStatus_self b
  exact ⟨fun h => h.trans hb, fun h => h.trans hb.symm⟩

end ConsoleState

/-- Thread-safe UI event history. -/
structure AppState where
  console : ConsoleState
  activity : List Bytes

namespace AppState

def maxLines : ℕ := 50

def addBounded (lines : List Bytes) (line : Bytes) : List Bytes :=
  if maxLines < (lines ++ [line]).length then
    (lines ++ [line]).drop ((lines ++ [line]).length - maxLines)
  else lines ++ [line]

def initial : AppState := ⟨.initial, []⟩

def snapshotConsole (app : AppState) : ConsoleState := app.console

def updateConsole (app : AppState) (console : ConsoleState) : AppState :=
  { app with console := console }

/-- Update the form fields without overwriting the transport's status. -/
def updateConsoleForm (app : AppState) (console : ConsoleState) : AppState :=
  { app with console := console.withStatus app.console.connectionStatus }

def addActivity (app : AppState) (line : Bytes) : AppState :=
  { app with activity := addBounded app.activity line }

@[simp] theorem console_updateConsole (app : AppState) (console : ConsoleState) :
    (app.updateConsole console).console = console := rfl

@[simp] theorem console_addActivity (app : AppState) (line : Bytes) :
    (app.addActivity line).console = app.console := rfl

/-- What a history shows of the lines that have been added to it. -/
def lastLines (lines : List Bytes) : List Bytes := lines.drop (lines.length - maxLines)

theorem addBounded_lastLines (lines : List Bytes) (line : Bytes) :
    addBounded (lastLines lines) line = lastLines (lines ++ [line]) := by
  have hlength : (lastLines lines).length = min maxLines lines.length := by
    rw [lastLines, List.length_drop]
    omega
  have hjoined : lastLines lines ++ [line] =
      (lines ++ [line]).drop (lines.length - maxLines) := by
    rw [lastLines, List.drop_append_of_le_length (Nat.sub_le ..)]
  have hcount : (lines ++ [line]).length = lines.length + 1 := List.length_append
  unfold addBounded
  split
  · rename_i hlong
    rw [List.length_append, List.length_singleton, hlength] at hlong ⊢
    rw [hjoined, List.drop_drop, lastLines, hcount]
    congr 1
    omega
  · rename_i hshort
    rw [List.length_append, List.length_singleton, hlength] at hshort
    rw [hjoined, lastLines, hcount]
    congr 1
    omega

end AppState

end Watchlist
