/-!
# Sinks

Where a document is written to: the bytes taken so far, and how many more will be.  A sink that runs
full takes what still fits and then reports it; nothing that it has taken is ever lost.
-/

namespace LSystem

/-- Why writing fails. -/
inductive WriteError where
  /-- There is no room left. -/
  | full
  /-- What was taken could not be passed on. -/
  | notFlushed
  deriving DecidableEq, Repr

def WriteError.message : WriteError → String
  | .full => "disk full"
  | .notFlushed => "flush failed"

/-- A place that takes bytes.  Without a limit on its room it takes everything. -/
structure Sink where
  taken : ByteArray := .empty
  room : Option Nat := none
  flushFails : Bool := false

namespace Sink

def write : Sink → String → Option WriteError × Sink
  | ⟨taken, none, flushFails⟩, text => (none, ⟨taken ++ text.toUTF8, none, flushFails⟩)
  | ⟨taken, some room, flushFails⟩, text =>
    let bytes := text.toUTF8
    if bytes.size ≤ room then
      (none, ⟨taken ++ bytes, some (room - bytes.size), flushFails⟩)
    else
      (some .full, ⟨taken ++ bytes.extract 0 room, some 0, flushFails⟩)

def flush (s : Sink) : Option WriteError :=
  if s.flushFails then some .notFlushed else none

end Sink

end LSystem
