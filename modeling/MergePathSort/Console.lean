import MergePathSort.Outcome

/-!
# Commands

A command prints text, may measure how long something takes, and ends in one of three ways. What a command prints
is defined for any console, so that it can be run on a terminal or recorded.

## Main definitions

* `Ending`, `Ending.code` : how a command ends.
* `Console`, `Console.recording` : where a command prints, and the console that records.
-/

namespace MergePathSort

/-- How a command ends. -/
inductive Ending where
  /-- It has done its work. -/
  | finished
  /-- It says why it cannot go on. -/
  | failed (message : String)
  /-- It faults. -/
  | crashed (fault : Fault)
  deriving DecidableEq, Inhabited

/-- The exit code of a command. -/
def Ending.code : Ending → UInt32
  | .finished => 0
  | .failed _ => 1
  | .crashed _ => 101

/-- Where a command prints, and how it measures. -/
structure Console (m : Type → Type) where
  /-- Prints text. -/
  print : String → m Unit
  /-- The times, in milliseconds, of a number of runs of the same work, unless the work fails. -/
  measure : Nat → (Unit → Outcome Unit) → m (Outcome (List Float))

namespace Console

variable {m : Type → Type}

/-- Prints a line. -/
def printLine (console : Console m) (line : String) : m Unit := console.print (line ++ "\n")

/-- Prints lines. -/
def printLines [Monad m] (console : Console m) (lines : List String) : m Unit :=
  lines.forM console.printLine

/-- The console that records what is printed. Every run takes no time, and work that is the same in every run is
done once. -/
def recording : Console (StateM String) where
  print text := modify (· ++ text)
  measure count work := return (work ()).map fun _ => List.replicate count 0.0

end Console

end MergePathSort
