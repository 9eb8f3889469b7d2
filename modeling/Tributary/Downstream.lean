import Tributary.Decimal.Shortest
import Tributary.Record.Phase
import Tributary.Text.Search

/-!
# Downstream errors

What an adapter reports when a downstream call fails. The kind decides the category, and
the category how the record is tried again. An adapter that knows nothing but a message
has its kind guessed from the phrases in it.
-/

namespace Tributary

inductive DownstreamError.Kind where
  | notFound
  | unauthorized
  | forbidden
  | validation
  | rateLimited
  | timeout
  | network
  /-- A status code that the adapter passed on as it was. -/
  | http (code : Nat)
  | other
  deriving DecidableEq

structure DownstreamError where
  kind : DownstreamError.Kind
  message : String
  deriving DecidableEq

namespace DownstreamError

def Kind.text : Kind → String
  | .notFound => "not found"
  | .unauthorized => "unauthorized"
  | .forbidden => "forbidden"
  | .validation => "validation failed"
  | .rateLimited => "rate limited"
  | .timeout => "timeout"
  | .network => "network error"
  | .http code => "HTTP " ++ Decimal.digitsOf code
  | .other => "error"

def text (e : DownstreamError) : String := e.kind.text ++ ": " ++ e.message

/-- Server errors, 408 and 429 pass; the common client errors do not; nothing is known of
other codes. -/
def categoryOfStatus (code : Nat) : Category :=
  if code = 408 ∨ code = 429 ∨ (500 ≤ code ∧ code ≤ 599) then .transient
  else if code ∈ [400, 401, 403, 404, 409, 422] then .permanent
  else .unknown

def Kind.category : Kind → Category
  | .notFound => .permanent
  | .unauthorized => .permanent
  | .forbidden => .permanent
  | .validation => .permanent
  | .rateLimited => .transient
  | .timeout => .transient
  | .network => .transient
  | .http code => categoryOfStatus code
  | .other => .unknown

def category (e : DownstreamError) : Category := e.kind.category

def isNotFound (e : DownstreamError) : Bool := e.kind = .notFound ∨ e.kind = .http 404

/-- Lower case as far as ASCII letters come of it: besides the ASCII capitals these are the
Kelvin sign and the dotted capital I, which keeps its dot as a mark of its own. -/
def lowerChar (c : Char) : List Char :=
  if c = '\u212a' then ['k']
  else if c = '\u0130' then ['i', '\u0307']
  else [c.toLower]

def lower (message : String) : List Char := message.toList.flatMap lowerChar

/-- The maximal runs of decimal digits, `run` being the one that is open, last digit first. -/
def digitRuns (run : List Char) : List Char → List (List Char)
  | [] => [run.reverse]
  | c :: rest =>
    if c.isDigit then digitRuns (c :: run) rest else run.reverse :: digitRuns [] rest

def codeOf (run : List Char) : Nat :=
  run.foldl (fun n c => n * 10 + (c.toNat - '0'.toNat)) 0

/-- The first run of exactly three digits that is a server error. -/
def serverStatus? (s : List Char) : Option Nat :=
  (((digitRuns [] s).filter (·.length = 3)).map codeOf).find? fun n => 500 ≤ n ∧ n < 600

def mentions (s : List Char) (phrases : List String) : Bool :=
  phrases.any fun p => Text.occurs p.toList s

/-- The first rule that a message in lower case meets. -/
def kindOf (s : List Char) : Kind :=
  if mentions s ["429", "too many requests", "rate limit"] then .rateLimited
  else if mentions s ["timeout", "timed out", "deadline exceeded"] then .timeout
  else match serverStatus? s with
  | some code => .http code
  | none =>
    if mentions s ["server error", "service unavailable"] then .http 503
    else if mentions s ["connection", "network", "dns", "reset by peer", "broken pipe"] then
      .network
    else if mentions s ["not found", "404"] then .notFound
    else if mentions s ["unauthorized", "401", "authentication", "invalid credentials"] then
      .unauthorized
    else if mentions s ["forbidden", "403", "permission denied"] then .forbidden
    else if mentions s ["invalid", "validation", "400"] then .validation
    else .other

/-- An error of which only a message is known. -/
def ofMessage (message : String) : DownstreamError := ⟨kindOf (lower message), message⟩

end DownstreamError

end Tributary
