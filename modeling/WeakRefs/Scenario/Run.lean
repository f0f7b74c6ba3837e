import WeakRefs.Scenario.Report
import WeakRefs.Scenario.Step

/-!
# Running a scenario

Each command gets an answer: its result, what user finalizers left on record, the events, and the
state that it leaves. Where the order of events means nothing, they are arranged by message and
handle.
-/

namespace WeakRefs

inductive Command where
  | step (st : Step)
  | loop (times : Nat) (body : List Command)

namespace Command

/-- Whether the events of a command come in no fixed order: where many references or finalizers are
treated at once. -/
def isUnordered : Command → Bool
  | step st => st.name = "heap_teardown" || st.name = "heap_drop" || st.name = "map_update"
  | loop _ _ => false

end Command

structure Answer where
  result : Except Fault Reply
  deliveries : List Delivery
  events : List Event
  state : Report

namespace Scene

def operate (sc : Scene) (o : Op) : Scene × Reply :=
  let done := sc.session.perform o
  let sc := { sc with session := done.1 }
  match o, done.2 with
  | .alloc _ _, .object (some obj) => ({ sc with objects := sc.objects.push obj }, done.2)
  | _, .pins p => ({ sc with pins := sc.pins.push p }, .done)
  | _, reply => (sc, reply)

/-- Open the log unless one is open: only the first opening counts. -/
def openLog (sc : Scene) (config : LogConfig) : Scene :=
  match sc.log with
  | some _ => sc
  | none => { sc with log := some (.opened sc.env config, sc.session.journal.size) }

def follow (sc : Scene) : Instruction → Scene × Reply
  | .op o => sc.operate o
  | .silent o => ((sc.operate o).1, .done)
  | .alias p => ({ sc with pins := sc.pins.push p }, .done)
  | .openLog config =>
    let sc := sc.openLog config
    (sc, .flag sc.log.isSome)
  | .isLogOpen => (sc, .flag sc.log.isSome)

def take (sc : Scene) (st : Step) : Scene × Except Fault Reply :=
  match sc.resolve st with
  | .ok instruction =>
    let done := sc.follow instruction
    (done.1, .ok done.2)
  | .error fault => (sc, .error fault)

mutual

def execute : Command → Scene → Scene × Except Fault Reply
  | .step st, sc => sc.take st
  | .loop times body, sc => (Nat.repeat (executeAll body) times sc, .ok .done)

def executeAll : List Command → Scene → Scene
  | [], sc => sc
  | c :: rest, sc => executeAll rest (execute c sc).1

end

def report (sc : Scene) : Report := sc.session.report sc.pins.toList

def answer (sc : Scene) (c : Command) : Scene × Answer :=
  let eventsBefore := sc.session.journal.size
  let deliveriesBefore := sc.session.deliveries.size
  let done := execute c sc
  let events := (done.1.session.journal.extract eventsBefore).toList
  (done.1, {
    result := done.2
    deliveries := (done.1.session.deliveries.extract deliveriesBefore).toList
    events := if c.isUnordered then Event.arranged events else events
    state := done.1.report })

def run (sc : Scene) : List Command → Scene × List Answer
  | [] => (sc, [])
  | c :: rest =>
    let first := sc.answer c
    let others := first.1.run rest
    (others.1, first.2 :: others.2)

def logLines (sc : Scene) : List LogLine :=
  match sc.log with
  | some (log, before) => log.lines (sc.session.journal.extract before).toList
  | none => []

end Scene

end WeakRefs
