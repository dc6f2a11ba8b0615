import SymbolPatterns.Path
import SymbolPatterns.Watch.Queue

/-!
The watch loop. A change to a metadata file arms a timer, and each further
change sets it back; when it fires, a run is requested. A finished run is
reported before the next one starts. On shutdown the run that is under way is
still reported.

Steps come in any order the surroundings choose; `step` says which are possible
and what they do. Runs are told apart by their numbers.
-/

namespace SymbolPatterns.Watch

/-- Extensions of files that can change what is generated. -/
def metadataExtensions : List String := ["json", "h"]

/-- Extensions are compared without regard to case. No letter outside ASCII
has one of theirs as its lower case, so folding ASCII is enough. -/
def isMetadataPath (path : Path) : Bool :=
  path.extension?.any fun extension =>
    metadataExtensions.contains (String.ofList (extension.shown.toList.map Char.toLower))

/-- The grammar itself is written by the runs and starts none. It is known by
the end of the path, as changes are told by absolute paths. -/
def isRelevant (grammar changed : Path) : Bool :=
  isMetadataPath changed && !changed.endsWith grammar

/-- How far a loop has come. It stops once it is told to, and returns when no
run is left. -/
inductive Phase where
  | running
  | stopping
  | returned
  deriving DecidableEq, Repr

inductive Event where
  | change (path : Path)
  /-- No change has come for the length of the timer. -/
  | quiet
  /-- The oldest run that is executing ends. -/
  | finish
  /-- The oldest finished run is taken note of. -/
  | receive
  | shutdown
  deriving DecidableEq, Repr

/-- The state between two events. Runs are known by the numbers in which they
were started. What runs do is not part of it. -/
structure Loop where
  queue : Queue
  armed : Bool
  /-- How many runs have been started. -/
  started : Nat
  executing : List Nat
  finished : List Nat
  reported : List Nat
  phase : Phase
  deriving DecidableEq, Repr

namespace Loop

def start (loop : Loop) : Loop :=
  { loop with started := loop.started + 1, executing := loop.executing ++ [loop.started] }

/-- Takes over a queue that may ask for a run. -/
def follow (loop : Loop) (answer : Queue × Bool) : Loop :=
  let loop := { loop with queue := answer.1 }
  if answer.2 then loop.start else loop

def idle : Loop := ⟨{}, false, 0, [], [], [], .running⟩

/-- The first run starts at once. -/
def initial : Loop := idle.follow idle.queue.request

/-- The loop after an event, or nothing if the event cannot happen. Once the
loop is told to stop, changes and the timer count no more. -/
def step (grammar : Path) (loop : Loop) : Event → Option Loop
  | .change path =>
      if loop.phase = .running then
        some { loop with armed := loop.armed || isRelevant grammar path }
      else none
  | .quiet =>
      if loop.phase = .running && loop.armed then
        some ({ loop with armed := false }.follow loop.queue.request)
      else none
  | .finish =>
      match loop.executing with
      | run :: rest => some { loop with executing := rest, finished := loop.finished ++ [run] }
      | [] => none
  | .receive =>
      match loop.phase, loop.finished with
      | .running, run :: rest =>
          some ({ loop with finished := rest, reported := loop.reported ++ [run] }.follow
            loop.queue.complete)
      | .stopping, run :: rest =>
          some { loop with
            finished := rest, reported := loop.reported ++ [run], phase := .returned }
      | _, _ => none
  | .shutdown =>
      if loop.phase = .running then
        some { loop with phase := if loop.queue.inFlight then .stopping else .returned }
      else none

end Loop

end SymbolPatterns.Watch
