import SymbolPatterns.Generation
import SymbolPatterns.Watch.Loop

/-!
Watching a host on which files are edited: each batch of edits is followed by a
quiet time, in which the run that the edits may have asked for is executed and
reported.
-/

namespace SymbolPatterns

/-- An edit puts a text into a file, or removes it. -/
structure Edit where
  path : Path
  text : Option String

namespace Host

def watchRoots (host : Host) (options : Options) : Except Failure (List Path) :=
  (host.resolve options).map SourceSet.watchRoots

def edit (host : Host) (edit : Edit) : Host :=
  { host with files :=
      match edit.text with
      | some text => host.files.place edit.path (.file text.toUTF8)
      | none => host.files.remove edit.path }

end Host

namespace Watch

/-- The paths under which the watched directories announce a change to a file:
one for each path by which the directory of the file is watched. -/
def announcements (fs : FileSystem) (roots : List Path) (path : Path) : List Path :=
  match path.fileName? with
  | none => []
  | some name =>
      let directory := Grammar.Document.directoryFor path
      (roots.filter fun root =>
          let root := if root.raw.isEmpty then ⟨"."⟩ else root
          Resolution.standing fs root = Resolution.standing fs directory).map fun root =>
        ((FileSystem.pathTo fs.workDir).join root).join ⟨name⟩

/-- A loop and the host on which its runs work. -/
structure Session where
  host : Host
  loop : Loop

namespace Session

/-- Passes an event to the loop, which ignores one that cannot happen. -/
def feed (session : Session) (options : Options) (event : Event) : Session :=
  { session with loop := (session.loop.step options.grammarPath event).getD session.loop }

/-- Executes the run that has been started, if there is one, and reports it. A
run that starts with this report is left for the next time. -/
def settle (session : Session) (options : Options) : Session × Option Report :=
  if session.loop.executing.isEmpty then (session, none)
  else
    let (host, report) := session.host.regenerate options
    let session := { session with host := host }
    ((session.feed options .finish).feed options .receive, some report)

def batch (session : Session) (options : Options) (roots : List Path) (edits : List Edit) :
    Session × Option Report :=
  let changed := edits.flatMap fun edit => announcements session.host.files roots edit.path
  let session := { session with host := edits.foldl Host.edit session.host }
  let session := changed.foldl (fun session path => session.feed options (.change path)) session
  (session.feed options .quiet).settle options

def batches (session : Session) (options : Options) (roots : List Path) :
    List (List Edit) → Session × List (Option Report)
  | [] => (session, [])
  | edits :: rest =>
      let (session, report) := session.batch options roots edits
      let (session, reports) := session.batches options roots rest
      (session, report :: reports)

end Session

/-- Watches while the batches are made, and then shuts down. The first report
is that of the run at the start. -/
def session (host : Host) (options : Options) (edits : List (List Edit)) :
    Except Failure (Host × List (Option Report)) := do
  let roots ← host.watchRoots options
  let (session, first) := Session.settle ⟨host, .initial⟩ options
  let (session, reports) := session.batches options roots edits
  return ((session.feed options .shutdown).host, first :: reports)

end Watch

end SymbolPatterns
