import KernelTrace.Data.SortedMap

/-!
# Sets of trace events

The events to switch on, grouped by the subsystem they belong to. Systems come in byte order, the
events of one system in the order of their first insertion: switching a set off again goes through
the same events in the same order. The event `all` stands for its whole system.
-/

namespace KernelTrace

/-- Trace events, grouped by subsystem. -/
structure EventSet where
  /-- The events of each system, in the order of their first insertion. -/
  systems : SortedMap String (List String)
  deriving DecidableEq, Inhabited

namespace EventSet

/-- The event that stands for every event of its system. -/
def wholeSystem : String := "all"

def empty : EventSet := ⟨SortedMap.empty⟩

/-- The set with one more event. An event that is there already stays where it is. -/
def insert (s : EventSet) (system event : String) : EventSet :=
  let events := (s.systems.get? system).getD []
  ⟨s.systems.insert system (if event ∈ events then events else events ++ [event])⟩

def ofSystem (system : String) : EventSet := empty.insert system wholeSystem

/-- The set of the given pairs of a system and an event, inserted in order. -/
def ofList (l : List (String × String)) : EventSet := l.foldl (fun s e => s.insert e.1 e.2) empty

def isEmpty (s : EventSet) : Bool := s.systems.isEmpty

/-- The systems with their events, in byte order of the systems. -/
def toList (s : EventSet) : List (String × List String) := s.systems.entries

/-- Whether events of one system stand for the whole of it. -/
def coversSystem (events : List String) : Bool := events.contains wholeSystem

end EventSet

end KernelTrace
