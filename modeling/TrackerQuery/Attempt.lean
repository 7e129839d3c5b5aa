import TrackerQuery.Error

/-!
# Attempts

Resolving names fills in a tree from left to right.  When it fails, what was
filled in so far stays, so the result of an attempt is a value together with
the failure that stopped it.  Macros that are left to the server are noted on
the way.
-/

namespace TrackerQuery

structure Attempt (α : Type) where
  value : α
  failure : Option Error
  /-- The macros left to the server, in the order in which they were met. -/
  macros : List String
  deriving Inhabited

namespace Attempt

variable {α β : Type}

def done (value : α) : Attempt α :=
  ⟨value, none, []⟩

def stopped (value : α) (error : Error) : Attempt α :=
  ⟨value, some error, []⟩

def map (f : α → β) (a : Attempt α) : Attempt β :=
  ⟨f a.value, a.failure, a.macros⟩

/-- Goes on with the value; an attempt that has stopped is put in its place. -/
def andThen (a : Attempt α) (place : α → β) (next : α → Attempt β) : Attempt β :=
  match a.failure with
  | some error => ⟨place a.value, some error, a.macros⟩
  | none =>
      let b := next a.value
      ⟨b.value, b.failure, a.macros ++ b.macros⟩

/-- Stops at the value if the test of it fails. -/
def check (a : Attempt α) (test : α → Except Error Unit) : Attempt α :=
  a.andThen id fun value =>
    match test value with
    | .ok _ => done value
    | .error error => stopped value error

/-- The value of an attempt that was not stopped. -/
def toExcept (a : Attempt α) : Except Error α :=
  match a.failure with
  | some error => .error error
  | none => .ok a.value

/-- Attempts the items in turn; those after a failure stay as they are. -/
def list (items : List α) (attempt : α → Attempt α) : Attempt (List α) :=
  match items with
  | [] => done []
  | item :: rest =>
      (attempt item).andThen (· :: rest) fun first => (list rest attempt).map (first :: ·)

end Attempt

end TrackerQuery
