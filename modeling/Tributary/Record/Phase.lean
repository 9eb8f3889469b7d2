/-!
# Phases and error categories

A record is pending until its first push, syncing while one runs, and then synced, in
error (it will be tried again) or failed (only a new generation brings it back).
-/

namespace Tributary

inductive Phase where
  | pending
  | syncing
  | synced
  | error
  | failed
  deriving DecidableEq, Inhabited

namespace Phase

def all : List Phase := [.pending, .syncing, .synced, .error, .failed]

def name : Phase → String
  | .pending => "Pending"
  | .syncing => "Syncing"
  | .synced => "Synced"
  | .error => "Error"
  | .failed => "Failed"

def ofName? (s : String) : Option Phase := all.find? (·.name = s)

theorem mem_all (p : Phase) : p ∈ all := by cases p <;> simp [all]

@[simp] theorem ofName?_name (p : Phase) : ofName? p.name = some p := by
  cases p <;> decide

/-- The changes of phase that belong to the life of a record. -/
def canBecome : Phase → Phase → Bool
  | .pending, .syncing => true
  | .syncing, .synced => true
  | .syncing, .error => true
  | .syncing, .failed => true
  | .synced, .syncing => true
  | .error, .syncing => true
  | .error, .failed => true
  | .failed, .pending => true
  | _, _ => false

end Phase

/-- Whether trying again can help. -/
inductive Category where
  | permanent
  | transient
  | unknown
  deriving DecidableEq, Inhabited

namespace Category

def all : List Category := [.permanent, .transient, .unknown]

def name : Category → String
  | .permanent => "permanent"
  | .transient => "transient"
  | .unknown => "unknown"

def ofName? (s : String) : Option Category := all.find? (·.name = s)

@[simp] theorem ofName?_name (c : Category) : ofName? c.name = some c := by
  cases c <;> decide

end Category

end Tributary
