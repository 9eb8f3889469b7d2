import Tributary.Aggregation.Basic
import Tributary.Downstream
import Tributary.Store.Call
import Tributary.SyncError

/-!
# Programs

A registration or a pass is a program: what it asks of its surroundings, one request after
the other, and what it makes of the answers. Whoever runs programs decides the answers, and
may let others run between two requests. Programs end: each is a well-founded tree.
-/

namespace Tributary

/-- What stands for the access to a downstream. -/
structure Credentials where
  reference : Option String
  deriving DecidableEq

/-- What a push reports back. -/
structure PushOutcome where
  /-- The identity downstream, if the push created it. -/
  externalId : Option String := none
  summary : Table String := {}
  deriving DecidableEq

inductive Request where
  | store (call : Store.Call)
  | now
  | sleep (time : Duration)
  /-- Whether a change of the key still waits for quiet. -/
  | coalescing (key : String)
  | aggregate (resourceType : String) (sources : List Contribution)
  | credentials (reference : Option String)
  | push (resourceType : String) (scope : Table String) (credentials : Credentials)
      (aggregation : Aggregation)
  /-- Cuts the downstream back to what remains. -/
  | teardown (resourceType : String) (scope : Table String) (credentials : Credentials)
      (remaining : Aggregation)

@[reducible] def Request.Answer : Request → Type
  | .store call => Store.Answer call
  | .now => Instant
  | .sleep _ => Unit
  | .coalescing _ => Bool
  | .aggregate .. => Except SyncError Aggregation
  | .credentials _ => Except DownstreamError Credentials
  | .push .. => Except DownstreamError PushOutcome
  | .teardown .. => Except DownstreamError Unit

inductive Program (α : Type) where
  | done (value : α)
  | ask (request : Request) (next : request.Answer → Program α)

namespace Program

variable {α β γ : Type}

def bind : Program α → (α → Program β) → Program β
  | .done a, f => f a
  | .ask q next, f => .ask q fun answer => (next answer).bind f

instance : Monad Program where
  pure := .done
  bind := bind

/-- The program of one request. -/
def request (q : Request) : Program q.Answer := .ask q .done

@[simp] theorem pure_eq (a : α) : (pure a : Program α) = .done a := rfl

@[simp] theorem done_bind (a : α) (f : α → Program β) : (Program.done a >>= f) = f a := rfl

@[simp] theorem ask_bind (q : Request) (next : q.Answer → Program α) (f : α → Program β) :
    (Program.ask q next >>= f) = .ask q fun answer => next answer >>= f := rfl

theorem bind_done (p : Program α) : p.bind .done = p := by
  induction p with
  | done a => rfl
  | ask q next ih => simp only [bind, ih]

theorem bind_assoc (p : Program α) (f : α → Program β) (g : β → Program γ) :
    (p.bind f).bind g = p.bind fun a => (f a).bind g := by
  induction p with
  | done a => rfl
  | ask q next ih => simp only [bind, ih]

instance : LawfulMonad Program :=
  LawfulMonad.mk' Program bind_done (fun _ _ => rfl) bind_assoc

end Program

/-- A program that works on its own copy of a record and may give up. -/
abbrev Session := ExceptT SyncError (StateT Record Program)

namespace Session

variable {α : Type}

def request (q : Request) : Session q.Answer := liftM (Program.request q)

/-- A store call; an error of the store ends the session. -/
def call (c : Store.Call) : Session c.Result := do
  match ← request (.store c) with
  | .ok result => return result
  | .error e => throw (.store e)

/-- What became of a session that may have given up. -/
def attempt (s : Session α) : Session (Except SyncError α) := ExceptT.lift (ExceptT.run s)

/-- Runs a session on a copy. -/
def start (s : Session α) (copy : Record) : Program (Except SyncError α × Record) :=
  StateT.run (ExceptT.run s) copy

end Session

end Tributary
