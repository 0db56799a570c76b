import TransactionalHeap.Object.Stock
import TransactionalHeap.Program

/-!
# Workloads

Three loads over shared counters: threads that add to all of them, threads that wait behind a gate,
and one thread that hands numbers to another. What each of them gives does not depend on how the
threads take turns, so it is computed with a schedule in which nobody ever has to wait.
-/

namespace TransactionalHeap

inductive Workload where
  /-- Every thread adds one to all counters, again and again. -/
  | increment
  /-- Every thread waits until the first counter is large enough, while one adds to it. -/
  | gate
  /-- One thread puts numbers into the first counter while it is zero, another takes them. -/
  | handoff
  deriving DecidableEq, Repr, Inhabited

namespace Workload

abbrev Job (α : Type) := Program Unit α

open Program

/-- One atomic call, which meets no conflict and waits for nobody. -/
def once {α : Type} (body : TxnId → Job α) : Job α := atomically (Atomic.ofBody body) 1

/-- Attach counters at zero, all in one commit. -/
def attachCounters (count : Nat) : Job (List Handle) :=
  once fun id => (List.range count).mapM fun _ => lift (Engine.attach id (.counter 0))

def readCounter (id : TxnId) (h : Handle) : Job Int64 := do
  match ← lift (Engine.on id (Transaction.read .counter h)) with
  | .counter n => return n
  | o => fail (.wrongType ObjectType.counter.name o.type.name)

def changeCounter (id : TxnId) (h : Handle) (change : Int64 → Int64) : Job Unit := do
  discard <| lift <| Engine.on id <| Transaction.update .counter h fun
    | .counter n => .ok (.counter (change n))
    | o => .ok o

def addToAll (cells : List Handle) : Job Unit :=
  once fun id => cells.forM fun h => changeCounter id h (· + 1)

/-- Go through the gate: the first counter, once it is large enough. -/
def pass (first : Handle) (least : Int64) : Job Int64 :=
  once fun id => do
    let n ← readCounter id first
    ofExcept (guardOrRetry (least ≤ n))
    return n

/-- Put a number where a zero is. -/
def put (first : Handle) (n : Int64) : Job Unit :=
  once fun id => do
    ofExcept (guardOrRetry ((← readCounter id first) = 0))
    changeCounter id first fun _ => n

/-- Take the number that is not zero. -/
def take (first : Handle) : Job Int64 :=
  once fun id => do
    let n ← readCounter id first
    ofExcept (guardOrRetry (n ≠ 0))
    changeCounter id first fun _ => 0
    return n

/-- What each thread gives, or the numbers handed over. -/
def runOn (cells : List Handle) (threads n : Nat) : Workload → Job (List Int64)
  | increment => do
    (List.range (threads * n)).forM fun _ => addToAll cells
    return List.replicate threads (Int64.ofNat n)
  | gate => do
    let some first := cells.head? | return []
    (List.range n).forM fun _ => once fun id => changeCounter id first (· + 1)
    (List.range threads).mapM fun _ => pass first (Int64.ofNat n)
  | handoff => do
    let some first := cells.head? | return []
    (List.range n).mapM fun i => do
      put first (Int64.ofNat (i + 1))
      take first

/-- A workload that has ended: what it gave, and the counters at the end. -/
structure Outcome where
  got : List Int64
  values : List Int64
  deriving DecidableEq, Repr

def run (w : Workload) (cells threads n : Nat) : Job Outcome := do
  let handles ← attachCounters cells
  let got ← w.runOn handles threads n
  let values ← once fun id => handles.mapM (readCounter id)
  return { got, values }

end Workload

end TransactionalHeap
