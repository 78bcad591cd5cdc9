import CacheNode.Journal
import CacheNode.Outcome
import CacheNode.Table
import CacheNode.Text.Layout

/-!
Calls for the same key made at the same time share one execution. The callers act at the same time,
so the whole is a machine whose moves can come in any order: `step` carries out one move of one
caller. A call goes by the name of the caller that executes it.
-/

namespace CacheNode

namespace Coalescer

variable {V : Type u} {E : Type v}

inductive Ending (V : Type u) (E : Type v) where
  | value (v : V)
  | error (e : E)
  | raised (text : String)
  deriving DecidableEq, Repr

inductive Status (V : Type u) (E : Type v) where
  | pending
  | done (result : Except E V)
  | abandoned

abbrev Answer (V : Type u) (E : Type v) := Except Fault (Except E V)

inductive Role where
  | executor
  | joiner (of : Nat)
  deriving DecidableEq, Repr

inductive Phase (V : Type u) (E : Type v) where
  | entering
  /-- Has registered a call; the operation has not begun. -/
  | registered
  | running
  /-- The operation has ended; nothing is published yet. -/
  | publishing (ending : Ending V E)
  /-- The outcome is published; the call is still registered. -/
  | retiring (ending : Ending V E)
  /-- The call is not registered any more; those who joined it are not counted yet. -/
  | reporting (ending : Ending V E)
  | announcing (executor : Nat)
  | waiting (executor : Nat)
  | left (role : Role) (answer : Answer V E)

structure Call (V : Type u) (E : Type v) where
  status : Status V E := .pending
  joined : Nat := 0

structure Caller (V : Type u) (E : Type v) where
  key : String
  /-- The caller inside whose operation this one calls. -/
  within : Option Nat := none
  phase : Phase V E := .entering

inductive Event where
  | began (caller : Nat) (key : String)
  | joined (caller : Nat) (key : String)
  | finished (caller : Nat) (key : String) (duplicates : Nat) (abandoned : Bool)
  deriving DecidableEq, Repr

def Event.caller : Event → Nat
  | .began c _ => c
  | .joined c _ => c
  | .finished c _ _ _ => c

def Event.notice? : Event → Option Notice
  | .began _ _ => none
  | .joined _ key => some ⟨.trace, "joining in-flight call", [("key", .text key)]⟩
  | .finished _ key duplicates abandoned =>
      some ⟨.debug, "coalesced call finished",
        [("key", .text key), ("duplicates", .count duplicates), ("panicked", .flag abandoned)]⟩

def Ending.status : Ending V E → Status V E
  | .value v => .done (.ok v)
  | .error e => .done (.error e)
  | .raised _ => .abandoned

def Ending.answer : Ending V E → Answer V E
  | .value v => .ok (.ok v)
  | .error e => .ok (.error e)
  | .raised text => .error (.raised text)

def Ending.isRaised : Ending V E → Bool
  | .raised _ => true
  | _ => false

def Status.answer? (key : String) : Status V E → Option (Answer V E)
  | .pending => none
  | .done result => some (.ok result)
  | .abandoned => some (.error (.abandoned key))

def Phase.isRunning : Phase V E → Bool
  | .running => true
  | _ => false

def Phase.hasLeft : Phase V E → Bool
  | .left _ _ => true
  | _ => false

def Phase.waitsFor? : Phase V E → Option Nat
  | .waiting x => some x
  | _ => none

def Phase.answer? : Phase V E → Option (Answer V E)
  | .left _ answer => some answer
  | _ => none

inductive Move (V : Type u) (E : Type v) where
  | enter (caller : Nat) (key : String) (within : Option Nat)
  | finish (caller : Nat) (ending : Ending V E)
  | advance (caller : Nat)
  deriving DecidableEq, Repr

end Coalescer

open Coalescer

structure Coalescer (V : Type u) (E : Type v) where
  registry : Table String Nat := {}
  /-- All calls, by executor. -/
  calls : Table Nat (Call V E) := {}
  callers : Table Nat (Caller V E) := {}

namespace Coalescer

variable {V : Type u} {E : Type v}

instance : Inhabited (Coalescer V E) := ⟨{}⟩

def inFlight (g : Coalescer V E) : Nat := g.registry.size

instance : Text.ToLayout (Coalescer V E) where
  toLayout g := .record "Group" [("in_flight", Text.toLayout g.inFlight)] false

def phase? (g : Coalescer V E) (c : Nat) : Option (Phase V E) := (g.callers.get? c).map (·.phase)

def answer? (g : Coalescer V E) (c : Nat) : Option (Answer V E) :=
  (g.phase? c).bind Phase.answer?

def isIdleInside (g : Coalescer V E) (c : Nat) : Bool :=
  ((g.phase? c).map Phase.isRunning).getD false &&
    g.callers.bindings.all fun b => b.2.within != some c || b.2.phase.hasLeft

def moveTo (g : Coalescer V E) (c : Nat) (phase : Phase V E) : Coalescer V E :=
  { g with callers := g.callers.modify c fun caller => { caller with phase } }

def check (g : Coalescer V E) (c : Nat) (key : String) : Coalescer V E :=
  match g.registry.get? key with
  | some x =>
      let calls := g.calls.modify x fun call => { call with joined := call.joined + 1 }
      { g with calls }.moveTo c (.announcing x)
  | none =>
      { g with registry := g.registry.insert key c, calls := g.calls.insert c {} }.moveTo c
        .registered

def publish (g : Coalescer V E) (c : Nat) (status : Status V E) : Coalescer V E :=
  { g with calls := g.calls.modify c fun call => { call with status } }

def retire (g : Coalescer V E) (c : Nat) (key : String) : Coalescer V E :=
  if g.registry.get? key = some c then { g with registry := g.registry.erase key } else g

def joinedBy (g : Coalescer V E) (c : Nat) : Nat := ((g.calls.get? c).map (·.joined)).getD 0

/-- Lets a caller go on to its next point; a caller inside its operation, one that waits for a
pending call and one that has left do not. -/
def advance (g : Coalescer V E) (c : Nat) (caller : Caller V E) :
    Option (Coalescer V E × List Event) :=
  match caller.phase with
  | .entering => some (g.check c caller.key, [])
  | .registered => some (g.moveTo c .running, [.began c caller.key])
  | .running => none
  | .publishing ending => some ((g.publish c ending.status).moveTo c (.retiring ending), [])
  | .retiring ending => some ((g.retire c caller.key).moveTo c (.reporting ending), [])
  | .reporting ending =>
      some (g.moveTo c (.left .executor ending.answer),
        [.finished c caller.key (g.joinedBy c) ending.isRaised])
  | .announcing x => some (g.moveTo c (.waiting x), [.joined c caller.key])
  | .waiting x =>
      ((g.calls.get? x).bind fun call => call.status.answer? caller.key).map fun answer =>
        (g.moveTo c (.left (.joiner x) answer), [])
  | .left _ _ => none

def step (g : Coalescer V E) : Move V E → Option (Coalescer V E × List Event)
  | .enter c key within =>
      if g.callers.contains c || within.any fun p => !g.isIdleInside p then none
      else some ({ g with callers := g.callers.insert c { key, within } }, [])
  | .finish c ending =>
      if g.isIdleInside c then some (g.moveTo c (.publishing ending), []) else none
  | .advance c => (g.callers.get? c).bind fun caller => g.advance c caller

def run (g : Coalescer V E) : List (Move V E) → Option (Coalescer V E × List Event)
  | [] => some (g, [])
  | move :: moves =>
      match g.step move with
      | none => none
      | some (g, seen) => (g.run moves).map fun (g, rest) => (g, seen ++ rest)

end Coalescer

end CacheNode
