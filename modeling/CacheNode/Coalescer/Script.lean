import CacheNode.Coalescer.Basic

/-!
Scripts that drive a group of callers through chosen overlaps. Between the steps of a script every
caller goes on as far as it can, so it has one course only.
-/

namespace CacheNode

namespace Coalescer

variable {V : Type u} {E : Type v}

inductive Act (V : Type u) (E : Type v) where
  | start (id : Nat) (key : String)
  | finish (id : Nat) (ending : Ending V E)
  | call (key : String) (ending : Ending V E) (inner : List (Act V E))
  | inFlight
  | display (render : Text.Layout → String)

structure Leaving (V : Type u) (E : Type v) where
  id : Nat
  answer : Answer V E
  log : List Event

inductive Reply (V : Type u) (E : Type v) where
  | running
  | joined
  | left (leavings : List (Leaving V E))
  | returned (answer : Answer V E) (inner : List (Reply V E × List Event))
      (leavings : List (Leaving V E))
  /-- The call has joined one that cannot end before it does. -/
  | wouldBlock
  | count (n : Nat)
  | text (s : String)

structure Session (V : Type u) (E : Type v) where
  group : Coalescer V E := {}
  fresh : Nat := 0
  threads : Table Nat Nat := {}
  history : List Event := []
  unread : List Event := []

namespace Session

instance : Inhabited (Session V E) := ⟨{}⟩

def move (s : Session V E) (m : Move V E) : Option (Session V E) :=
  (s.group.step m).map fun (group, seen) =>
    let own := seen.filter fun event => s.threads.bindings.all fun b => b.2 != event.caller
    { s with group, history := s.history ++ seen, unread := s.unread ++ own }

/-- No caller has further to go than this. -/
def longestWay : Nat := 8

def driveFor : Nat → Session V E → Nat → Session V E
  | 0, s, _ => s
  | fuel + 1, s, c =>
      match s.move (.advance c) with
      | none => s
      | some s => driveFor fuel s c

def drive (s : Session V E) (c : Nat) : Session V E := driveFor longestWay s c

def enter (s : Session V E) (key : String) (within : Option Nat) : Option (Session V E) :=
  let c := s.fresh
  let s := { s with fresh := c + 1 }
  (s.move (.enter c key within)).map fun s => s.drive c

def waitingFor (s : Session V E) (c : Nat) : List Nat :=
  s.group.callers.bindings.filterMap fun b =>
    if b.2.phase.waitsFor? = some c then some b.1 else none

def conclude (s : Session V E) (c : Nat) (ending : Ending V E) :
    Option (Session V E × List Nat) :=
  (s.move (.finish c ending)).map fun s =>
    let others := s.waitingFor c
    (others.foldl drive (s.drive c), c :: others)

def dismiss (s : Session V E) (leavers : List Nat) : Session V E × List (Leaving V E) :=
  let gone := s.threads.bindings.filter fun b => leavers.contains b.2
  let leavings := gone.filterMap fun (id, c) =>
    (s.group.answer? c).map fun answer => ⟨id, answer, s.history.filter (·.caller == c)⟩
  ({ s with threads := gone.foldl (fun threads b => threads.erase b.1) s.threads },
    leavings.mergeSort fun a b => a.id ≤ b.id)

def start (s : Session V E) (id : Nat) (key : String) : Option (Session V E × Reply V E) :=
  if s.threads.contains id then none
  else
    let c := s.fresh
    let s := { s with threads := s.threads.insert id c }
    (s.enter key none).map fun s =>
      (s, if s.group.registry.get? key = some c then .running else .joined)

def finish (s : Session V E) (id : Nat) (ending : Ending V E) :
    Option (Session V E × Reply V E) :=
  (s.threads.get? id).bind fun c => (s.conclude c ending).map fun (s, leavers) =>
    let (s, leavings) := s.dismiss leavers
    (s, .left leavings)

def takeLog (s : Session V E) : Session V E × List Event := ({ s with unread := [] }, s.unread)

mutual

def perform (within : Option Nat) (s : Session V E) : Act V E → Option (Session V E × Reply V E)
  | .start id key => s.start id key
  | .finish id ending => s.finish id ending
  | .call key ending inner =>
      let c := s.fresh
      if s.group.registry.contains key then
        (s.enter key none).map fun s => (s, .wouldBlock)
      else
        (s.enter key within).bind fun s =>
          (performAll (some c) s inner).bind fun (s, replies) =>
            (s.conclude c ending).bind fun (s, leavers) =>
              (s.group.answer? c).map fun answer =>
                let (s, leavings) := s.dismiss leavers
                (s, .returned answer replies leavings)
  | .inFlight => some (s, .count s.group.inFlight)
  | .display render => some (s, .text (render (Text.toLayout s.group)))

def performAll (within : Option Nat) (s : Session V E) :
    List (Act V E) → Option (Session V E × List (Reply V E × List Event))
  | [] => some (s, [])
  | act :: acts =>
      (perform within s act).bind fun (s, reply) =>
        let (s, log) := s.takeLog
        (performAll within s acts).map fun (s, replies) => (s, (reply, log) :: replies)

end

def release (s : Session V E) : Session V E :=
  s.threads.bindings.foldl
    (fun s b => ((s.conclude b.2 (.raised "released")).map (·.1)).getD s) s

end Session

/-- Carries out a script on a new group, if every step is possible; afterwards the callers that
are left over are released, and the number of keys still in flight is answered too. -/
def runScript (script : List (Act V E)) : Option (List (Reply V E × List Event) × Nat) :=
  (Session.performAll none {} script).map fun (s, replies) =>
    (replies, s.release.group.inFlight)

end Coalescer

end CacheNode
