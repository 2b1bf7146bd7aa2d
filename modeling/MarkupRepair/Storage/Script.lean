import MarkupRepair.Clock.Instant
import MarkupRepair.Path.Basic
import MarkupRepair.Storage.Failure

/-!
# Scripts

Everything that touches files is written as a script: a value that either is done or asks the
outside for one thing and goes on with the answer. What the outside does is left open. A host
answers the requests of a script, one after another, from a state of its own: a store in
memory, a tree of files, or one of these with failures planned in advance.
-/

namespace MarkupRepair

/-- What stands at a path. -/
inductive FileKind where
  | file
  | directory
  deriving DecidableEq, Repr

/-- Why a lock file could not be created. -/
inductive ClaimError where
  /-- Something already stands at its path. -/
  | held
  /-- It could not be created for another reason. -/
  | failed (why : Failure)
  deriving DecidableEq, Repr

/-- What a script can ask for. -/
inductive Request where
  /-- The bytes of a document. -/
  | read (path : Path)
  /-- To put bytes in place of a document, or to create it. -/
  | write (path : Path) (bytes : ByteArray)
  /-- To copy a document, creating the directories that the copy needs. -/
  | copy (source target : Path)
  /-- To remove a document. -/
  | remove (path : Path)
  /-- Whether anything stands at a path. -/
  | isPresent (path : Path)
  /-- To create a lock file that must not exist yet. -/
  | claim (path : Path)
  /-- To remove a lock file, if it can be removed. -/
  | release (path : Path)
  /-- What stands at a path. -/
  | kindOf (path : Path)
  /-- The names in a directory. -/
  | list (path : Path)
  /-- To create a directory with those it needs, unless it exists. -/
  | makeDirectory (path : Path)
  /-- To write a file outside the documents, creating the directories it needs. -/
  | publish (path : Path) (bytes : ByteArray)
  /-- The time. -/
  | now

/-- The answers to a request. -/
abbrev Request.Answer : Request → Type
  | .read _ => Except Failure ByteArray
  | .write _ _ => Except Failure Unit
  | .copy _ _ => Except Failure Unit
  | .remove _ => Except Failure Unit
  | .isPresent _ => Bool
  | .claim _ => Except ClaimError Unit
  | .release _ => Unit
  | .kindOf _ => Option FileKind
  | .list _ => Except Failure (List String)
  | .makeDirectory _ => Except Failure Unit
  | .publish _ _ => Except Failure Unit
  | .now => Instant

/-- A value, or a request and what to do with its answer. -/
inductive Script (α : Type) where
  | done (value : α)
  | ask (request : Request) (next : request.Answer → Script α)

namespace Script

/-- Go on with the value of a script. -/
def bind {α β : Type} : Script α → (α → Script β) → Script β
  | .done value, f => f value
  | .ask request next, f => .ask request fun answer => (next answer).bind f

instance : Monad Script where
  pure := .done
  bind := bind

@[simp] theorem pure_eq_done {α : Type} (value : α) : (pure value : Script α) = .done value := rfl

@[simp] theorem done_bind {α β : Type} (value : α) (f : α → Script β) :
    ((.done value : Script α) >>= f) = f value := rfl

@[simp] theorem ask_bind {α β : Type} (request : Request) (next : request.Answer → Script α)
    (f : α → Script β) :
    ((.ask request next : Script α) >>= f) = .ask request fun answer => next answer >>= f := rfl

/-- Ask for one thing. -/
def request (r : Request) : Script r.Answer := .ask r .done

/-- Run a script in a monad that answers its requests. -/
def runIn {m : Type → Type} [Monad m] {α : Type} (answer : (r : Request) → m r.Answer) :
    Script α → m α
  | .done value => pure value
  | .ask r next => do runIn answer (next (← answer r))

end Script

/-- An outside world with a state of type `σ`. -/
structure Host (σ : Type) where
  /-- The answer to a request and the state after it. -/
  answer : (r : Request) → σ → r.Answer × σ

namespace Host

/-- The value of a script and the state after its last request. -/
def run {σ α : Type} (host : Host σ) : Script α → σ → α × σ
  | .done value, s => (value, s)
  | .ask r next, s =>
      let step := host.answer r s
      host.run (next step.1) step.2

@[simp] theorem run_done {σ α : Type} (host : Host σ) (value : α) (s : σ) :
    host.run (.done value) s = (value, s) := rfl

@[simp] theorem run_ask {σ α : Type} (host : Host σ) (r : Request)
    (next : r.Answer → Script α) (s : σ) :
    host.run (.ask r next) s = host.run (next (host.answer r s).1) (host.answer r s).2 := rfl

/-- Running two scripts in a row runs the second where the first has stopped. -/
theorem run_bind {σ α β : Type} (host : Host σ) (script : Script α) (f : α → Script β) (s : σ) :
    host.run (script >>= f) s = host.run (f (host.run script s).1) (host.run script s).2 := by
  induction script generalizing s with
  | done value => rfl
  | ask r next ih => exact ih _ _

end Host

end MarkupRepair
