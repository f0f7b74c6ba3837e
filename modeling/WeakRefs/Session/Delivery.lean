import WeakRefs.Session.Basic

/-!
# Delivery of finalizers

A delivery never changes a heap, so none makes another one due and a batch is a plain fold. A user
finalizer that reaches for the reference or map in use has no effect there.
-/

namespace WeakRefs

namespace Session

/-- Guard an action on a reference: `busy` in use, `gone` if it was dropped. -/
def onRef (s : Session) (focus : Focus) (r : Nat)
    (f : WeakReference → Session × ActionReply) : Session × ActionReply :=
  if focus = .reference r then (s, .busy)
  else
    match s.ref? r with
    | some ref => f ref
    | none => (s, .gone)

def onMap (s : Session) (focus : Focus) (m : Nat)
    (f : WeakValueMap → Session × ActionReply) : Session × ActionReply :=
  if focus = .map m then (s, .busy)
  else
    match s.map? m with
    | some map => f map
    | none => (s, .gone)

def act (s : Session) (focus : Focus) (roots : Nat) : Action → Session × ActionReply
  | .pin handle => (s.pin roots handle, .done)
  | .unpin handle => (s.unpin roots handle, .done)
  | .isAlive x => (s, .flag (s.isAlive x))
  | .pinCount pins => (s, .count (s.pinned pins).size)
  | .isBound r => s.onRef focus r fun ref => (s, .flag (s.isBound ref))
  | .release r => s.onRef focus r fun _ => (s.releaseRef roots r, .flag true)
  | .dropRef r => s.onRef focus r fun _ => (s.dropRef r, .flag true)
  | .mapSize m => s.onMap focus m fun map => (s, .count map.size)
  | .dropMap m => s.onMap focus m fun _ => (s.dropMap m, .flag true)

def actAll (s : Session) (focus : Focus) (roots : Nat) : List Action → Session × List ActionReply
  | [] => (s, [])
  | a :: rest =>
    let first := s.act focus roots a
    let others := first.1.actAll focus roots rest
    (others.1, first.2 :: others.2)

/-- End the binding of a cell from its finalizer; only a binding that was in force is reported. -/
def endBinding (s : Session) (roots c : Nat) (handle : HandleId) : Session :=
  let fired := (s.cell c).fire
  let s := s.setCell c fired.1
  if fired.2.releasesPin then (s.unpin roots handle).emit (.clearedByFinalizer handle) else s

def carryOut (s : Session) (focus : Focus) (roots : Nat) : Finalizer → Session
  | .endBinding c handle => s.endBinding roots c handle
  | .report m key handle => s.modifyMap m (·.report key handle)
  | .user label actions =>
    let acted := s.actAll focus roots actions
    { acted.1 with deliveries := acted.1.deliveries.push ⟨label, acted.2⟩ }

def logRun (s : Session) (f : Finalizer) : Session := { s with runs := s.runs.push f }

def deliver (s : Session) (focus : Focus) (roots : Nat) (f : Finalizer) : Session :=
  (s.logRun f).carryOut focus roots f

def deliverAll (s : Session) (focus : Focus) (roots : Nat) (due : List Finalizer) : Session :=
  due.foldl (fun s f => s.deliver focus roots f) s

end Session

end WeakRefs
