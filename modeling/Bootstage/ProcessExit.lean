/-!
# Ends of child processes

A child process either exits with a code or is killed by a signal. The system reports its end as a
wait status of 32 bits: the low seven bits are zero exactly for an exit, and the eight bits above
the low byte then hold the code.
-/

namespace Bootstage

/-- How a child process ended. -/
inductive ProcessExit
  /-- It exited with a code. -/
  | exited (code : Int)
  /-- It was killed by a signal. -/
  | killed
  deriving DecidableEq, Repr

namespace ProcessExit

/-- The code of a process that exited. -/
def code? : ProcessExit → Option Int
  | exited code => some code
  | killed => none

/-- Only an exit with code zero is a success. -/
def success (status : ProcessExit) : Bool :=
  status = exited 0

/-- The end in words. -/
def message : ProcessExit → String
  | exited code => s!"exit code {code}"
  | killed => "terminated by signal"

/-- The end that a wait status reports. -/
def ofWaitStatus (raw : UInt32) : ProcessExit :=
  if raw &&& 0x7F = 0 then exited ((raw >>> 8) &&& 0xFF).toNat else killed

@[simp] theorem success_eq_true_iff (status : ProcessExit) :
    status.success = true ↔ status = exited 0 := by
  simp [success]

end ProcessExit

end Bootstage
