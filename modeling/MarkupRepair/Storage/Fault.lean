import MarkupRepair.Storage.Script

/-!
# Planned faults

A host whose store calls are logged and may go wrong as planned: a fault is meant for one call
of one operation, counted from zero. A read may fail or give other bytes; a write may store
other bytes, or only the first ones, and may fail as well; a copy and a removal may fail
without doing anything.
-/

namespace MarkupRepair

/-- The calls of a document store. -/
inductive StoreOperation where
  | read
  | write
  | copy
  | remove
  | isPresent
  deriving DecidableEq, Repr

/-- The operation and the path of a request to the document store; a copy counts for the path
it creates. -/
def Request.storeCall? : Request → Option (StoreOperation × Path)
  | .read path => some (.read, path)
  | .write path _ => some (.write, path)
  | .copy _ target => some (.copy, target)
  | .remove path => some (.remove, path)
  | .isPresent path => some (.isPresent, path)
  | _ => none

/-- What goes wrong with a call. -/
structure FaultEffect where
  /-- The message with which the call fails, if it does. -/
  fail : Option String := none
  /-- The bytes that are read or written instead. -/
  content : Option ByteArray := none
  /-- How many bytes of a write are stored. -/
  keep : Option Nat := none

/-- A fault planned for one call. -/
structure Fault where
  /-- The operation. -/
  operation : StoreOperation
  /-- Which call of the operation, from zero. -/
  nth : Nat
  /-- What goes wrong. -/
  effect : FaultEffect

/-- A host's state together with the log of its store calls, the latest first. -/
structure Logged (σ : Type) where
  /-- The state of the host. -/
  inner : σ
  /-- The store calls so far. -/
  log : List (StoreOperation × Path) := []

namespace FaultEffect

/-- The bytes that a write with this fault stores, if it stores any. -/
def stored (e : FaultEffect) (bytes : ByteArray) : Option ByteArray :=
  match e.content, e.keep, e.fail with
  | some other, _, _ => some other
  | none, some n, _ => some (bytes.extract 0 n)
  | none, none, some _ => none
  | none, none, none => some bytes

/-- The answer to a request that this fault is meant for. -/
def answer {σ : Type} (e : FaultEffect) (host : Host σ) : (r : Request) → σ → r.Answer × σ
  | .read path, s =>
      match e.fail, e.content with
      | some message, _ => (.error ⟨message, []⟩, s)
      | none, some bytes => (.ok bytes, s)
      | none, none => host.answer (.read path) s
  | .write path bytes, s =>
      let step : Except Failure Unit × σ := match e.stored bytes with
        | some bytes => host.answer (.write path bytes) s
        | none => (.ok (), s)
      match step.1, e.fail with
      | .ok (), some message => (.error ⟨message, []⟩, step.2)
      | _, _ => step
  | .copy source target, s =>
      match e.fail with
      | some message => (.error ⟨message, []⟩, s)
      | none => host.answer (.copy source target) s
  | .remove path, s =>
      match e.fail with
      | some message => (.error ⟨message, []⟩, s)
      | none => host.answer (.remove path) s
  | r, s => host.answer r s

end FaultEffect

/-- The effect planned for the next call of an operation, given the calls before it. -/
def plannedEffect? (faults : List Fault) (log : List (StoreOperation × Path))
    (operation : StoreOperation) : Option FaultEffect :=
  let nth := log.countP (·.1 == operation)
  (faults.find? fun f => f.operation == operation && f.nth == nth).map (·.effect)

/-- A host that logs its store calls and goes wrong as planned. -/
def Host.faulty {σ : Type} (host : Host σ) (faults : List Fault) : Host (Logged σ) where
  answer r s :=
    match r.storeCall? with
    | none =>
        let (a, inner) := host.answer r s.inner
        (a, { s with inner })
    | some call =>
        let (a, inner) := match plannedEffect? faults s.log call.1 with
          | some effect => effect.answer host r s.inner
          | none => host.answer r s.inner
        (a, ⟨inner, call :: s.log⟩)

end MarkupRepair
