import WeakRefs.Session.Reference

/-!
# Maps with weakly held values at work

Every operation prunes first. An insertion binds a reference of its own to the value and defines a
second finalizer on it, which reports the entry.
-/

namespace WeakRefs

namespace Session

def pruneMap (s : Session) (m : Nat) : Session :=
  match s.map? m with
  | none => s
  | some map =>
    let pruned := map.prune
    let s := (s.discardAll pruned.2).setMap m (some pruned.1)
    if pruned.2.isEmpty then s else s.emit (.pruned pruned.2.length)

def entry? (s : Session) (m : Nat) (key : String) : Option WeakReference :=
  (s.map? m).bind fun map => map.entries.get? key

def modifyEntries (s : Session) (m : Nat)
    (f : Table String WeakReference → Table String WeakReference) : Session :=
  s.modifyMap m fun map => { map with entries := f map.entries }

def mapGet (s : Session) (i m : Nat) (key : String) : Session × Option ObjectRef :=
  match s.collector? i with
  | none => (s, none)
  | some _ =>
    let s := s.pruneMap m
    match s.entry? m key with
    | none => (s, none)
    | some r =>
      let found := s.object (.map m) i r
      (found.1.pruneMap m, found.2)

def placeEntry (s : Session) (roots m : Nat) (key : String) (r : WeakReference) : Session :=
  let s :=
    match s.entry? m key with
    | some previous => s.disarm roots previous
    | none => s
  s.modifyEntries m (·.insert key r)

/-- Set a value. On an error the entries are those that pruning left. -/
def mapInsert (s : Session) (i m : Nat) (key : String) (value : ObjectRef) :
    Session × Except RefError Unit :=
  match s.collector? i, s.map? m with
  | some c, some _ =>
    let made := (s.pruneMap m).bindNew (.map m) i value
    match made.2 with
    | .error e => (made.1, .error e)
    | .ok r =>
      let reported := made.1.define (.map m) i value (.report m key r.id)
      match reported.2 with
      | .error e => (reported.1.discard r, .error e)
      | .ok _ => (reported.1.placeEntry c.heap.pins m key r, .ok ())
  | _, _ => (s, .error .deadObject)

def mapRemove (s : Session) (i m : Nat) (key : String) : Session × Option ObjectRef :=
  match s.collector? i with
  | none => (s, none)
  | some c =>
    let s := s.pruneMap m
    match s.entry? m key with
    | none => (s, none)
    | some r =>
      let found := s.read i r
      ((found.1.disarm c.heap.pins r).modifyEntries m (·.erase key), found.2)

def sweepEntries (s : Session) (i : Nat) : List (String × WeakReference) → Session × List String
  | [] => (s, [])
  | (key, r) :: rest =>
    let found := s.read i r
    match found.2 with
    | some _ => found.1.sweepEntries i rest
    | none =>
      let others := (found.1.discard r).sweepEntries i rest
      (others.1, key :: others.2)

/-- Drop every entry whose value is gone, also where its finalizer was not delivered yet. -/
def mapUpdate (s : Session) (i m : Nat) : Session :=
  match s.collector? i with
  | none => s
  | some _ =>
    let s := s.pruneMap m
    match s.map? m with
    | none => s
    | some map =>
      let swept := s.sweepEntries i map.entries.pairs
      let s := swept.1.modifyEntries m (·.filter fun key _ => !swept.2.contains key)
      if swept.2.isEmpty then s else s.emit (.swept swept.2.length)

end Session

end WeakRefs
