/-!
Requests for runs. At most one run is under way; any number of requests made
meanwhile are answered by one further run.
-/

namespace SymbolPatterns.Watch

/-- At most one run is in flight, and at most one waits for it to end. How
many requests were made is not kept. -/
structure Queue where
  inFlight : Bool := false
  pending : Bool := false
  deriving DecidableEq, Repr

namespace Queue

/-- Asks for a run, and tells whether it starts now. -/
def request (queue : Queue) : Queue × Bool :=
  if queue.inFlight then ({ queue with pending := true }, false)
  else ({ queue with inFlight := true }, true)

/-- Ends a run, and tells whether a further one starts now. -/
def complete (queue : Queue) : Queue × Bool :=
  if queue.pending then ({ queue with pending := false }, true)
  else ({ queue with inFlight := false }, false)

end Queue

end SymbolPatterns.Watch
