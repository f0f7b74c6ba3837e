import WeakRefs.Cell
import WeakRefs.Collector
import WeakRefs.Data.Roster
import WeakRefs.Data.Table
import WeakRefs.Environment
import WeakRefs.Error
import WeakRefs.Event
import WeakRefs.Finalizer
import WeakRefs.Heap.Basic
import WeakRefs.Heap.Config
import WeakRefs.Heap.Object
import WeakRefs.Heap.Views
import WeakRefs.Identity
import WeakRefs.Log.Config
import WeakRefs.Log.Directive
import WeakRefs.Log.FieldMatch
import WeakRefs.Log.Filter
import WeakRefs.Log.Line
import WeakRefs.Proofs.AbstractStore
import WeakRefs.Proofs.Alike
import WeakRefs.Proofs.Alike.Operations
import WeakRefs.Proofs.Arrival
import WeakRefs.Proofs.BareHeap
import WeakRefs.Proofs.BatchOutcome
import WeakRefs.Proofs.Binding
import WeakRefs.Proofs.BindingOrigins
import WeakRefs.Proofs.BoundTargets
import WeakRefs.Proofs.Callback
import WeakRefs.Proofs.CellAccounts
import WeakRefs.Proofs.ClearedBindings
import WeakRefs.Proofs.CollectorChanges
import WeakRefs.Proofs.Ending
import WeakRefs.Proofs.EntriesOfGoneHeaps
import WeakRefs.Proofs.EntryInvariant
import WeakRefs.Proofs.ExpiredEntries
import WeakRefs.Proofs.Failure
import WeakRefs.Proofs.Focus
import WeakRefs.Proofs.FullCollection
import WeakRefs.Proofs.GoneHeap
import WeakRefs.Proofs.HandleProtocol
import WeakRefs.Proofs.HandleReports
import WeakRefs.Proofs.HeapCourse
import WeakRefs.Proofs.HeapLayout
import WeakRefs.Proofs.HeapOfBinding
import WeakRefs.Proofs.HeapSteps
import WeakRefs.Proofs.HeapSteps.Operations
import WeakRefs.Proofs.Insertion
import WeakRefs.Proofs.Isolation
import WeakRefs.Proofs.KeptFinalizers
import WeakRefs.Proofs.Liveness
import WeakRefs.Proofs.MapChanges
import WeakRefs.Proofs.MapOperations
import WeakRefs.Proofs.Moment
import WeakRefs.Proofs.Move
import WeakRefs.Proofs.Moves.Delivery
import WeakRefs.Proofs.Moves.Heap
import WeakRefs.Proofs.Moves.Op
import WeakRefs.Proofs.Moves.Reference
import WeakRefs.Proofs.Moves.ValueMap
import WeakRefs.Proofs.NoNewBindings
import WeakRefs.Proofs.Noninterference
import WeakRefs.Proofs.ObjectNames
import WeakRefs.Proofs.OneHeap
import WeakRefs.Proofs.OwedFinalizers
import WeakRefs.Proofs.Ownership
import WeakRefs.Proofs.Pending
import WeakRefs.Proofs.PinDiscipline
import WeakRefs.Proofs.PinPermissions
import WeakRefs.Proofs.PinPermissions.Operations
import WeakRefs.Proofs.PinsAcrossHeaps
import WeakRefs.Proofs.Pruning
import WeakRefs.Proofs.Rebinding
import WeakRefs.Proofs.ReferenceDefine
import WeakRefs.Proofs.ReportedEntries
import WeakRefs.Proofs.Resurrection
import WeakRefs.Proofs.Retrieval
import WeakRefs.Proofs.RunOnce
import WeakRefs.Proofs.ShutdownOrder
import WeakRefs.Proofs.StoreRefinement
import WeakRefs.Proofs.Stride
import WeakRefs.Proofs.Sweeping
import WeakRefs.Proofs.Teardown
import WeakRefs.Proofs.Unbinding
import WeakRefs.Proofs.Unbinding.Operations
import WeakRefs.Proofs.UnreadEvents
import WeakRefs.Proofs.WeakMap
import WeakRefs.Reference
import WeakRefs.Scenario.CellScript
import WeakRefs.Scenario.Report
import WeakRefs.Scenario.Run
import WeakRefs.Scenario.Step
import WeakRefs.Session.Basic
import WeakRefs.Session.Delivery
import WeakRefs.Session.Heap
import WeakRefs.Session.Op
import WeakRefs.Session.Reference
import WeakRefs.Session.ValueMap
import WeakRefs.Session.Views
import WeakRefs.Text.Alphabetic
import WeakRefs.Text.Blank
import WeakRefs.Text.Cut
import WeakRefs.Text.Decimal
import WeakRefs.Text.Numeric
import WeakRefs.Text.Pattern.Bracket
import WeakRefs.Text.Pattern.Escape
import WeakRefs.Text.Pattern.Mode
import WeakRefs.Text.Pattern.Reading
import WeakRefs.Text.Ranges
import WeakRefs.ValueMap
