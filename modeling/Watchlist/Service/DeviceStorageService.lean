import Watchlist.Gui.DeviceMonitorState
import Watchlist.Library.Transition
import Watchlist.Storage.IDatabase

/-!
`DeviceStorageService.cpp`: batches of device commands are queued under a mutex
and executed one after the other by the thread that runs `Run`; each leaves a
result for the GUI to poll. A step is one locked section, the call of
`Initialize`, or the execution of one batch, which touches nothing that another
thread sees. Sleeping and waking are left out: a worker's locked section is
enabled when `condition_.wait` would return.
-/

namespace Watchlist

open Bytes Faulty Faulty.Program Storage Gui Transition

structure DeviceStorageResult where
  success : Bool
  error : Bytes
  devices : List DeviceViewModel
  deriving DecidableEq

def toDatabaseItem (device : DeviceViewModel) : DatabaseItem :=
  ⟨device.id, device.name, device.address, device.port, device.alive⟩

def toViewModel (item : DatabaseItem) : DeviceViewModel :=
  ⟨item.id, item.name, item.ipAddress, item.port, item.alive⟩

@[simp] theorem toViewModel_toDatabaseItem (device : DeviceViewModel) :
    toViewModel (toDatabaseItem device) = device := rfl

@[simp] theorem toDatabaseItem_toViewModel (item : DatabaseItem) :
    toDatabaseItem (toViewModel item) = item := rfl

/-- A batch as it is submitted. -/
abbrev Batch := List DeviceCommand

/-! ### Executing a batch -/

section Execute

variable {σ : Type} (D : IDatabase σ)

/-- One round of the loop in `Execute`. -/
def executeCommand (command : DeviceCommand) : Program σ StorageError Unit :=
  match command.kind with
  | .refresh => pure ()
  | .add =>
      match command.device with
      | none => fail (.invalidArgument (ascii "Add command is missing device data"))
      | some device => D.addItem (toDatabaseItem device)
  | .edit | .setAlive =>
      match command.device with
      | none => fail (.invalidArgument (ascii "Update command is missing device data"))
      | some device => D.upsertItem (toDatabaseItem device)
  | .delete => do
      let _ ← D.removeItem command.targetId
      pure ()

/-- The body of the function-try-block. -/
def executeBody (batch : Batch) : Program σ StorageError (List DatabaseItem) := do
  batch.forM (executeCommand D)
  D.getAllSortedById

def failure (error : StorageError) : DeviceStorageResult :=
  ⟨false, error.what.getD (ascii "Unknown storage command failure"), []⟩

def execute (batch : Batch) (w : World σ) : DeviceStorageResult × World σ :=
  match executeBody D batch w with
  | (.ok items, w') => (⟨true, [], items.map toViewModel⟩, w')
  | (.error e, w') => (failure e, w')

end Execute

/-! ### The service -/

/-- Where the thread is that runs `Run`. -/
inductive RunPc
  | notStarted
  | initializing
  /-- about to look for a batch -/
  | waiting
  | executing (batch : Batch)
  | delivering (result : DeviceStorageResult)
  | returned
  deriving DecidableEq

structure DeviceStorageService (σ : Type) where
  database : σ
  commands : List Batch
  results : List DeviceStorageResult
  stopRequested : Bool
  runStarted : Bool
  run : RunPc
  /-- whether the constructor has returned -/
  constructed : Bool
  /-- the batches that have been queued, in order -/
  submitted : List Batch
  /-- those of them that had been when a stop was first requested -/
  beforeStop : List Batch
  polled : List DeviceStorageResult
  /-- the batches that have been executed, with the statements that failed in each -/
  executed : List (Batch × List Bool)

namespace DeviceStorageService

variable {σ : Type}

def initial (database : σ) : DeviceStorageService σ where
  database := database
  commands := []
  results := []
  stopRequested := false
  runStarted := false
  run := .notStarted
  constructed := false
  submitted := []
  beforeStop := []
  polled := []
  executed := []

/-- The locked section of `Submit`. -/
def submit (s : DeviceStorageService σ) (commands : Batch) : DeviceStorageService σ :=
  if commands.isEmpty then s
  else { s with commands := s.commands ++ [commands], submitted := s.submitted ++ [commands] }

def pollResults (s : DeviceStorageService σ) : DeviceStorageService σ :=
  { s with results := [], polled := s.polled ++ s.results }

def requestStop (s : DeviceStorageService σ) : DeviceStorageService σ :=
  { s with
    stopRequested := true
    beforeStop := if s.stopRequested then s.beforeStop else s.submitted }

def addResult (s : DeviceStorageService σ) (result : DeviceStorageResult) :
    DeviceStorageService σ :=
  { s with results := s.results ++ [result] }

/-- The locked section at the entry of `Run`. -/
def enterRun (s : DeviceStorageService σ) : DeviceStorageService σ :=
  if s.runStarted then
    s.addResult ⟨false, ascii "Device storage worker was started more than once", []⟩
  else { s with runStarted := true, run := .initializing }

/-- The call of `Initialize` and its handlers. -/
def callInitialize (D : IDatabase σ) (s : DeviceStorageService σ) (faults : List Bool) :
    DeviceStorageService σ :=
  match D.initializeDatabase ⟨s.database, faults⟩ with
  | (.ok _, w) => { s with database := w.state, run := .waiting }
  | (.error e, w) =>
      { s.addResult ⟨false, e.what.getD (ascii "Unknown storage initialization failure"), []⟩ with
        database := w.state, run := .returned }

/-- The locked section that `condition_.wait` returns in. -/
def takeBatch (s : DeviceStorageService σ) : DeviceStorageService σ :=
  match s.commands with
  | [] => { s with run := .returned }
  | batch :: rest => { s with commands := rest, run := .executing batch }

def executeBatch (D : IDatabase σ) (s : DeviceStorageService σ) (batch : Batch)
    (faults : List Bool) : DeviceStorageService σ :=
  { s with
    database := (execute D batch ⟨s.database, faults⟩).2.state
    run := .delivering (execute D batch ⟨s.database, faults⟩).1
    executed := s.executed ++ [(batch, faults)] }

inductive Label
  /-- the constructor's own `Submit` -/
  | construct
  | submit (commands : Batch)
  | pollResults
  | requestStop
  | enterRun
  | callInitialize (faults : List Bool)
  | takeBatch
  | executeBatch (faults : List Bool)
  | deliver
  deriving DecidableEq

def step (D : IDatabase σ) (s : DeviceStorageService σ) : Label → Option (DeviceStorageService σ)
  | .construct =>
      allow (s.constructed = false) { s.submit [.refresh] with constructed := true }
  | .submit commands => allow (s.constructed = true) (s.submit commands)
  | .pollResults => allow (s.constructed = true) s.pollResults
  | .requestStop => allow (s.constructed = true) s.requestStop
  | .enterRun => some s.enterRun
  | .callInitialize faults => allow (s.run = .initializing) (s.callInitialize D faults)
  | .takeBatch =>
      allow (s.run = .waiting ∧ (s.commands ≠ [] ∨ s.stopRequested = true)) s.takeBatch
  | .executeBatch faults =>
      match s.run with
      | .executing batch => some (s.executeBatch D batch faults)
      | _ => none
  | .deliver =>
      match s.run with
      | .delivering result => some { s.addResult result with run := .waiting }
      | _ => none

def machine (D : IDatabase σ) : Machine (DeviceStorageService σ) Label := ⟨step D⟩

theorem executeBatch_eq_some {D : IDatabase σ} {s t : DeviceStorageService σ} {faults : List Bool}
    (h : s.step D (.executeBatch faults) = some t) :
    ∃ batch, s.run = .executing batch ∧ t = s.executeBatch D batch faults := by
  simp only [step] at h
  split at h
  · rename_i batch hrun
    exact ⟨batch, hrun, (Option.some.inj h).symm⟩
  · cases h

theorem deliver_eq_some {D : IDatabase σ} {s t : DeviceStorageService σ}
    (h : s.step D .deliver = some t) :
    ∃ result, s.run = .delivering result ∧ t = { s.addResult result with run := .waiting } := by
  simp only [step] at h
  split at h
  · rename_i result hrun
    exact ⟨result, hrun, (Option.some.inj h).symm⟩
  · cases h

end DeviceStorageService

end Watchlist
