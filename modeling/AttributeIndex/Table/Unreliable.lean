import AttributeIndex.Table.Volatile

namespace AttributeIndex

inductive TableCall
  | get
  | put
  | remove
  | sync
  | cursor
  | close
  | load
  deriving DecidableEq, Repr

namespace TableCall

def name : TableCall → String
  | get => "get"
  | put => "put"
  | remove => "remove"
  | sync => "sync"
  | cursor => "cursor"
  | close => "close"
  | load => "load"

def all : List TableCall :=
  [get, put, remove, sync, cursor, close, load]

def ofName? (name : String) : Option TableCall :=
  all.find? fun call => call.name = name

end TableCall

/-- Which calls of one kind fail, by their number, and how many have been made. -/
structure Plan where
  fails : Nat → Bool
  calls : Nat

namespace Plan

def never : Plan :=
  ⟨fun _ => false, 0⟩

def after (count : Nat) : Plan :=
  ⟨fun call => count ≤ call, 0⟩

def failsNow (plan : Plan) : Bool :=
  plan.fails plan.calls

def advance (plan : Plan) : Plan :=
  { plan with calls := plan.calls + 1 }

end Plan

structure Plans where
  get : Plan
  put : Plan
  remove : Plan
  sync : Plan
  cursor : Plan
  close : Plan
  load : Plan

namespace Plans

def never : Plans :=
  ⟨.never, .never, .never, .never, .never, .never, .never⟩

def find (plans : Plans) : TableCall → Plan
  | .get => plans.get
  | .put => plans.put
  | .remove => plans.remove
  | .sync => plans.sync
  | .cursor => plans.cursor
  | .close => plans.close
  | .load => plans.load

def set (plans : Plans) (call : TableCall) (plan : Plan) : Plans :=
  match call with
  | .get => { plans with get := plan }
  | .put => { plans with put := plan }
  | .remove => { plans with remove := plan }
  | .sync => { plans with sync := plan }
  | .cursor => { plans with cursor := plan }
  | .close => { plans with close := plan }
  | .load => { plans with load := plan }

end Plans

structure Unreliable where
  table : Volatile
  plans : Plans

namespace Unreliable

variable {α : Type}

def ofEntries (entries : SortedMap Bytes Bytes) : Unreliable :=
  ⟨.ofEntries entries, .never⟩

def setPlan (store : Unreliable) (call : TableCall) (plan : Plan) : Unreliable :=
  { store with plans := store.plans.set call plan }

def clearPlans (store : Unreliable) : Unreliable :=
  { store with plans := .never }

/-- The table as it is found when it is opened again: the same entries and the same plans. -/
def reopen (store : Unreliable) : Unreliable :=
  { store with table := { store.table with isClosed := false } }

def making (call : TableCall) (work : Action Volatile IoError α) : Action Unreliable IoError α :=
  fun store =>
    let plan := store.plans.find call
    let store := store.setPlan call plan.advance
    if plan.failsNow then (.error (.failed (call.name ++ " failed: disk full")), store)
    else
      match work store.table with
      | (outcome, table) => (outcome, { store with table })

instance : Table Unreliable where
  get key := making .get (Table.get key)
  put key value := making .put (Table.put key value)
  remove key := making .remove (Table.remove key)
  size store := Table.size store.table
  keys store := Table.keys store.table
  beginScan := making .cursor Table.beginScan
  load key := making .load (Table.load key)
  sync := making .sync Table.sync
  close := making .close Table.close

end Unreliable

end AttributeIndex
