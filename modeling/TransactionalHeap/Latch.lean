/-!
# Latches

A latch starts closed and is opened once; opening it again changes nothing. `Latches` says which of
many numbered latches are open. A `Gate` is one latch with the threads that wait behind it, which
all come back once it is open.
-/

namespace TransactionalHeap

abbrev LatchId := Nat

/-- The open ones among all latches. -/
structure Latches where
  opened : List LatchId := []
  deriving DecidableEq, Repr, Inhabited

namespace Latches

def isOpen (ls : Latches) (latch : LatchId) : Bool := ls.opened.contains latch

def openOne (ls : Latches) (latch : LatchId) : Latches :=
  if ls.isOpen latch then ls else ⟨latch :: ls.opened⟩

def openAll (ls : Latches) (latches : List LatchId) : Latches := latches.foldl openOne ls

theorem isOpen_openOne (ls : Latches) (latch other : LatchId) :
    (ls.openOne latch).isOpen other = (other == latch || ls.isOpen other) := by
  unfold openOne isOpen
  split
  · next h =>
    cases he : other == latch
    · simp
    · rw [eq_of_beq he]; simpa using h
  · exact List.contains_cons

theorem isOpen_openAll (ls : Latches) (latches : List LatchId) (other : LatchId) :
    (ls.openAll latches).isOpen other = (latches.contains other || ls.isOpen other) := by
  induction latches generalizing ls with
  | nil => simp [openAll]
  | cons latch rest ih =>
    have hstep : ls.openAll (latch :: rest) = (ls.openOne latch).openAll rest := rfl
    rw [hstep, ih, isOpen_openOne, List.contains_cons]
    cases rest.contains other <;> simp

end Latches

/-- One latch and the number of threads that were sent to wait for it and not collected since. -/
structure Gate where
  isOpen : Bool := false
  waiting : Nat := 0
  deriving DecidableEq, Repr

namespace Gate

def release (g : Gate) : Gate := { g with isOpen := true }

def send (g : Gate) (threads : Nat) : Gate := { g with waiting := g.waiting + threads }

/-- Collect every thread sent so far. They come back only through an open gate. -/
def collect (g : Gate) : Option (Nat × Gate) :=
  if g.isOpen then some (g.waiting, { g with waiting := 0 }) else none

end Gate

end TransactionalHeap
