import SymbolPatterns.Watch.Loop

/-!
What a watch loop keeps, in whatever order its events come. At most one run is
under way, runs are reported in the order of their starts, and a relevant change
is remembered by the timer or by the queue until a run has started after it.
-/

namespace SymbolPatterns.Watch.Loop

/-- What each event does, and when it can happen. The timer starts a run or
has it follow the one that is in flight; a report may be followed by a run,
and the last one ends the loop. There is one rule for each way that the loop
can go. -/
inductive Step (grammar : Path) (loop : Loop) : Event → Loop → Prop
  | relevant {path : Path} (running : loop.phase = .running)
      (relevant : isRelevant grammar path = true) :
      Step grammar loop (.change path) { loop with armed := true }
  | irrelevant {path : Path} (running : loop.phase = .running)
      (irrelevant : isRelevant grammar path = false) :
      Step grammar loop (.change path) loop
  | begin (running : loop.phase = .running) (armed : loop.armed = true)
      (free : loop.queue.inFlight = false) :
      Step grammar loop .quiet
        { loop with armed := false, queue := { loop.queue with inFlight := true } }.start
  | postpone (running : loop.phase = .running) (armed : loop.armed = true)
      (busy : loop.queue.inFlight = true) :
      Step grammar loop .quiet
        { loop with armed := false, queue := { loop.queue with pending := true } }
  | finish {run : Nat} {rest : List Nat} (executing : loop.executing = run :: rest) :
      Step grammar loop .finish
        { loop with executing := rest, finished := loop.finished ++ [run] }
  | report {run : Nat} {rest : List Nat} (running : loop.phase = .running)
      (finished : loop.finished = run :: rest) (alone : loop.queue.pending = false) :
      Step grammar loop .receive
        { loop with
          finished := rest
          reported := loop.reported ++ [run]
          queue := { loop.queue with inFlight := false } }
  | followUp {run : Nat} {rest : List Nat} (running : loop.phase = .running)
      (finished : loop.finished = run :: rest) (pending : loop.queue.pending = true) :
      Step grammar loop .receive
        { loop with
          finished := rest
          reported := loop.reported ++ [run]
          queue := { loop.queue with pending := false } }.start
  | lastReport {run : Nat} {rest : List Nat} (stopping : loop.phase = .stopping)
      (finished : loop.finished = run :: rest) :
      Step grammar loop .receive
        { loop with
          finished := rest
          reported := loop.reported ++ [run]
          phase := .returned }
  | stop (running : loop.phase = .running) (busy : loop.queue.inFlight = true) :
      Step grammar loop .shutdown { loop with phase := .stopping }
  | leave (running : loop.phase = .running) (free : loop.queue.inFlight = false) :
      Step grammar loop .shutdown { loop with phase := .returned }

variable {grammar : Path} {loop next last : Loop} {event : Event} {events : List Event}

theorem step_eq_some_iff : loop.step grammar event = some next ↔ Step grammar loop event next := by
  constructor
  · intro h
    cases event with
    | change path =>
        simp only [step, Option.ite_none_right_eq_some, Option.some.injEq] at h
        obtain ⟨hrunning, rfl⟩ := h
        cases hpath : isRelevant grammar path with
        | true => simpa [hpath] using Step.relevant hrunning hpath
        | false => simpa [hpath] using Step.irrelevant hrunning hpath
    | quiet =>
        simp only [step, Bool.and_eq_true, decide_eq_true_eq, Option.ite_none_right_eq_some,
          Option.some.injEq] at h
        obtain ⟨⟨hrunning, harmed⟩, rfl⟩ := h
        cases hqueue : loop.queue.inFlight with
        | true => simpa [follow, Queue.request, hqueue] using Step.postpone hrunning harmed hqueue
        | false => simpa [follow, Queue.request, hqueue] using Step.begin hrunning harmed hqueue
    | finish =>
        simp only [step] at h
        split at h
        · next run rest hexecuting =>
          obtain rfl := Option.some.inj h
          exact .finish hexecuting
        · cases h
    | receive =>
        simp only [step] at h
        split at h
        · next run rest hrunning hfinished =>
          obtain rfl := Option.some.inj h
          cases hqueue : loop.queue.pending with
          | true =>
              simpa [follow, Queue.complete, hqueue] using Step.followUp hrunning hfinished hqueue
          | false =>
              simpa [follow, Queue.complete, hqueue] using Step.report hrunning hfinished hqueue
        · next run rest hstopping hfinished =>
          obtain rfl := Option.some.inj h
          exact .lastReport hstopping hfinished
        · cases h
    | shutdown =>
        simp only [step, Option.ite_none_right_eq_some, Option.some.injEq] at h
        obtain ⟨hrunning, rfl⟩ := h
        cases hqueue : loop.queue.inFlight with
        | true => simpa [hqueue] using Step.stop hrunning hqueue
        | false => simpa [hqueue] using Step.leave hrunning hqueue
  · intro h
    cases h with
    | relevant hrunning hpath => simp [step, hrunning, hpath]
    | irrelevant hrunning hpath => simpa [step, hpath] using hrunning
    | begin hrunning harmed hfree => simp [step, hrunning, harmed, follow, Queue.request, hfree]
    | postpone hrunning harmed hbusy =>
        simp [step, hrunning, harmed, follow, Queue.request, hbusy]
    | finish hexecuting => simp [step, hexecuting]
    | report hrunning hfinished halone =>
        simp [step, hrunning, hfinished, follow, Queue.complete, halone]
    | followUp hrunning hfinished hpending =>
        simp [step, hrunning, hfinished, follow, Queue.complete, hpending]
    | lastReport hstopping hfinished => simp [step, hstopping, hfinished]
    | stop hrunning hbusy => simp [step, hrunning, hbusy]
    | leave hrunning hfree => simp [step, hrunning, hfree]

/-- The loop after a sequence of events, if each of them can happen when it
comes. Nothing is assumed about which events come. -/
def after (grammar : Path) : Loop → List Event → Option Loop
  | loop, [] => some loop
  | loop, event :: rest => (loop.step grammar event).bind fun next => next.after grammar rest

theorem after_append (grammar : Path) (loop : Loop) (front rest : List Event) :
    loop.after grammar (front ++ rest) =
      (loop.after grammar front).bind fun next => next.after grammar rest := by
  induction front generalizing loop with
  | nil => rfl
  | cons event front ih =>
      rw [List.cons_append, after, after, Option.bind_assoc]
      exact congrArg _ (funext ih)

/-- What every step keeps holds after every sequence of events. Each invariant
of the loop is proved for one step and carried along by this. -/
theorem holds_after {P : Loop → Prop}
    (hstep : ∀ {loop event next}, P loop → Step grammar loop event next → P next)
    (h : loop.after grammar events = some last) (hloop : P loop) : P last := by
  induction events generalizing loop with
  | nil => exact Option.some.inj h ▸ hloop
  | cons event rest ih =>
      obtain ⟨next, hnext, hrest⟩ := Option.bind_eq_some_iff.1 h
      exact ih hrest (hstep hloop (step_eq_some_iff.1 hnext))

/-- The runs that have been started and are not reported yet, in the order of
their starts. -/
def underWay (loop : Loop) : List Nat := loop.finished ++ loop.executing

/-- The queue keeps count of the runs under way, of which there is at most
one. The counts of the loop and the flags of the queue are tied together here. -/
structure Orderly (loop : Loop) : Prop where
  runs : loop.reported ++ loop.underWay = List.range loop.started
  inFlight : loop.phase ≠ .returned → loop.underWay.length = loop.queue.inFlight.toNat
  returned : loop.phase = .returned → loop.underWay = []
  pending : loop.queue.pending = true → loop.queue.inFlight = true

theorem orderly_initial : Orderly initial := by
  constructor <;> decide

/-- A run that has finished is the only one under way, so it is reported
before another one starts. -/
theorem Orderly.finished_alone (h : Orderly loop) (hphase : loop.phase ≠ .returned) {run : Nat}
    {rest : List Nat} (hfinished : loop.finished = run :: rest) :
    rest = [] ∧ loop.executing = [] ∧ loop.queue.inFlight = true := by
  have hlength := h.inFlight hphase
  have hflag := Bool.toNat_le loop.queue.inFlight
  simp only [underWay, hfinished, List.length_append, List.length_cons] at hlength
  refine ⟨List.eq_nil_of_length_eq_zero (by omega), List.eq_nil_of_length_eq_zero (by omega), ?_⟩
  exact Bool.toNat_eq_one.1 (by omega)

theorem Orderly.underWay_of_free (h : Orderly loop) (hphase : loop.phase ≠ .returned)
    (hfree : loop.queue.inFlight = false) : loop.underWay = [] := by
  have hlength := h.inFlight hphase
  rw [hfree] at hlength
  exact List.eq_nil_of_length_eq_zero hlength

/-- What a step leaves reported and under way is again all that has been
started. The cases are those of the step. -/
theorem Orderly.step (h : Orderly loop) (hstep : Step grammar loop event next) : Orderly next := by
  have hruns := h.runs
  cases hstep with
  | relevant | irrelevant => exact ⟨hruns, h.inFlight, h.returned, h.pending⟩
  | begin hrunning _ hfree =>
      have hnone := h.underWay_of_free (by simp [hrunning]) hfree
      obtain ⟨hfinished, hexecuting⟩ := List.append_eq_nil_iff.1 hnone
      rw [hnone, List.append_nil] at hruns
      constructor
      · simp [underWay, start, hfinished, hexecuting, hruns, List.range_succ]
      · simp [underWay, start, hfinished, hexecuting]
      · simp [start, hrunning]
      · simp [start]
  | postpone _ _ hbusy => exact ⟨hruns, h.inFlight, h.returned, fun _ => hbusy⟩
  | finish hexecuting =>
      have hsame : ∀ run rest, loop.executing = run :: rest →
          loop.finished ++ [run] ++ rest = loop.underWay := by
        intro run rest heq
        simp [underWay, heq]
      constructor <;> simp only [underWay, hsame _ _ hexecuting]
      · exact hruns
      · exact h.inFlight
      · exact h.returned
      · exact h.pending
  | report hrunning hfinished halone =>
      obtain ⟨rfl, hexecuting, -⟩ := h.finished_alone (by simp [hrunning]) hfinished
      simp only [underWay, hfinished, hexecuting] at hruns
      constructor
      · simpa [underWay, hexecuting] using hruns
      · simp [underWay, hexecuting]
      · simp [hrunning]
      · simp [halone]
  | followUp hrunning hfinished hpending =>
      obtain ⟨rfl, hexecuting, hbusy⟩ := h.finished_alone (by simp [hrunning]) hfinished
      simp only [underWay, hfinished, hexecuting, List.append_nil] at hruns
      constructor
      · simp [underWay, start, hexecuting, hruns, List.range_succ]
      · simp [underWay, start, hexecuting, hbusy]
      · simp [start, hrunning]
      · simp [start]
  | lastReport hstopping hfinished =>
      obtain ⟨rfl, hexecuting, -⟩ := h.finished_alone (by simp [hstopping]) hfinished
      simp only [underWay, hfinished, hexecuting] at hruns
      constructor
      · simpa [underWay, hexecuting] using hruns
      · simp
      · simp [underWay, hexecuting]
      · exact h.pending
  | stop hrunning _ =>
      exact ⟨hruns, fun _ => h.inFlight (by simp [hrunning]), by simp, h.pending⟩
  | leave hrunning hfree =>
      have hnone := h.underWay_of_free (by simp [hrunning]) hfree
      exact ⟨hruns, by simp, fun _ => hnone, h.pending⟩

theorem orderly_after (h : initial.after grammar events = some last) : Orderly last :=
  holds_after (fun h hstep => h.step hstep) h orderly_initial

/-- Whether a run has started after the first `count` ones, or else is still
asked for. It is what a change leaves behind and no event takes away. -/
structure Heeds (count : Nat) (loop : Loop) : Prop where
  le : count ≤ loop.started
  awaited : loop.started = count → loop.armed = true ∨ loop.queue.pending = true

/-- A change is heeded until a run starts, since the timer passes it on to the
queue. A change that comes while the timer is armed starts the timer again. -/
theorem Heeds.step {count : Nat} (h : Heeds count loop) (hstep : Step grammar loop event next) :
    Heeds count next := by
  obtain ⟨hle, hawaited⟩ := h
  have hlater : loop.started + 1 ≠ count := by omega
  cases hstep with
  | relevant => exact ⟨hle, fun _ => .inl rfl⟩
  | begin | followUp =>
      exact ⟨Nat.le_succ_of_le hle, fun hsame => absurd hsame hlater⟩
  | postpone => exact ⟨hle, fun _ => .inr rfl⟩
  | report _ _ halone =>
      refine ⟨hle, fun hsame => (hawaited hsame).imp_right fun hpending => ?_⟩
      rw [halone] at hpending
      cases hpending
  | irrelevant | finish | lastReport | stop | leave => exact ⟨hle, hawaited⟩

theorem heeds_of_relevant {path : Path} (hrelevant : isRelevant grammar path = true)
    (h : loop.step grammar (.change path) = some next) : Heeds next.started next := by
  refine ⟨Nat.le_refl _, fun _ => .inl ?_⟩
  cases step_eq_some_iff.1 h with
  | relevant => rfl
  | irrelevant _ hirrelevant =>
      rw [hrelevant] at hirrelevant
      cases hirrelevant

/-- A relevant change that came in a sequence of events is heeded at its end.
The sequence is cut where the change came. -/
theorem exists_heeds_after {front rest : List Event} {path : Path}
    (hrelevant : isRelevant grammar path = true)
    (h : initial.after grammar (front ++ .change path :: rest) = some last) :
    ∃ heard, initial.after grammar (front ++ [.change path]) = some heard ∧
      Heeds heard.started last := by
  rw [after_append] at h
  obtain ⟨before, hbefore, h⟩ := Option.bind_eq_some_iff.1 h
  obtain ⟨heard, hheard, hrest⟩ := Option.bind_eq_some_iff.1 h
  refine ⟨heard, ?_, holds_after (fun h hstep => h.step hstep) hrest
    (heeds_of_relevant hrelevant hheard)⟩
  rw [after_append, hbefore, Option.bind_some, after, hheard]
  rfl

theorem Orderly.executing_le_one (h : Orderly loop) : loop.executing.length ≤ 1 := by
  have hpart : loop.executing.length ≤ loop.underWay.length := by simp [underWay]
  by_cases hphase : loop.phase = .returned
  · rw [h.returned hphase] at hpart
    exact Nat.le_succ_of_le hpart
  · rw [h.inFlight hphase] at hpart
    exact Nat.le_trans hpart (Bool.toNat_le _)

theorem Orderly.inFlight_iff (h : Orderly loop) (hphase : loop.phase ≠ .returned) :
    loop.queue.inFlight = true ↔ loop.underWay ≠ [] := by
  rw [← List.length_pos_iff, h.inFlight hphase]
  cases loop.queue.inFlight <;> decide

/-- A run that is under way can finish, or be reported. -/
theorem Orderly.can_report (h : Orderly loop) (hunderWay : loop.underWay ≠ []) :
    ∃ event next, (event = .finish ∨ event = .receive) ∧ Step grammar loop event next := by
  cases hexecuting : loop.executing with
  | cons run rest => exact ⟨_, _, .inl rfl, .finish hexecuting⟩
  | nil =>
      cases hfinished : loop.finished with
      | nil => exact absurd (by simp [underWay, hexecuting, hfinished]) hunderWay
      | cons run rest =>
          cases hphase : loop.phase with
          | running =>
              cases hpending : loop.queue.pending with
              | true => exact ⟨_, _, .inr rfl, .followUp hphase hfinished hpending⟩
              | false => exact ⟨_, _, .inr rfl, .report hphase hfinished hpending⟩
          | stopping => exact ⟨_, _, .inr rfl, .lastReport hphase hfinished⟩
          | returned => exact absurd (h.returned hphase) hunderWay

theorem Heeds.lt_of_quiet {count : Nat} (h : Heeds count loop) (horderly : Orderly loop)
    (harmed : loop.armed = false) (hfree : loop.queue.inFlight = false) : count < loop.started := by
  refine Nat.lt_of_le_of_ne h.le fun hsame => ?_
  rcases h.awaited hsame.symm with harmed' | hpending
  · rw [harmed] at harmed'
    cases harmed'
  · have hbusy := horderly.pending hpending
    rw [hfree] at hbusy
    cases hbusy

/-- In every state that a watch loop can reach: at most one run executes. The
runs reported, finished and executing, one after another, are all runs in the
order of their starts, each once; one that is not reported yet can finish or
be reported, and until the loop has returned it is in flight. After a relevant
change a run starts, unless the timer is armed or a follow-up pending; so it
has started if the timer is not armed and no run is in flight. A loop that has
returned has reported all runs. Nothing is said about how long a run or the
timer takes, nor that events come at all; a change that is still waiting at
the shutdown has no run. -/
theorem loses_nothing (h : initial.after grammar events = some last) :
    last.executing.length ≤ 1 ∧
    (last.reported ++ (last.finished ++ last.executing) = List.range last.started ∧
      (last.reported.length < last.started →
        ∃ event next, (event = .finish ∨ event = .receive) ∧
          last.step grammar event = some next) ∧
      (last.phase ≠ .returned →
        (last.queue.inFlight = true ↔ last.finished ++ last.executing ≠ []))) ∧
    (∀ front path rest, events = front ++ .change path :: rest →
      isRelevant grammar path = true →
      ∃ heard, initial.after grammar (front ++ [.change path]) = some heard ∧
        (last.started = heard.started → last.armed = true ∨ last.queue.pending = true) ∧
        (last.armed = false → last.queue.inFlight = false → heard.started < last.started)) ∧
    (last.phase = .returned → last.reported = List.range last.started) := by
  have horderly := orderly_after h
  refine ⟨horderly.executing_le_one, ⟨horderly.runs, fun hmissing => ?_, horderly.inFlight_iff⟩,
    ?_, fun hreturned => ?_⟩
  · have hlength := congrArg List.length horderly.runs
    rw [List.length_append, List.length_range] at hlength
    have hunderWay : last.underWay ≠ [] := List.length_pos_iff.1 (by omega)
    obtain ⟨event, next, hevent, hstep⟩ := horderly.can_report hunderWay
    exact ⟨event, next, hevent, step_eq_some_iff.2 hstep⟩
  · rintro front path rest rfl hrelevant
    obtain ⟨heard, hheard, hheeds⟩ := exists_heeds_after hrelevant h
    exact ⟨heard, hheard, hheeds.awaited, hheeds.lt_of_quiet horderly⟩
  · have hruns := horderly.runs
    rwa [horderly.returned hreturned, List.append_nil] at hruns

/-- A change during the first run, whose timer fires before that run ends, is
answered by a second run; a change during the second one is still waiting when
the loop shuts down. -/
theorem overlapping_changes_heeded :
    let grammar : Path := ⟨"grammar.json"⟩
    let changed : Path := ⟨"/game/Openplanet.h"⟩
    let events : List Event :=
      [.change changed, .quiet, .finish, .receive, .change changed, .shutdown, .finish, .receive]
    ∃ last, initial.after grammar events = some last ∧ last.phase = .returned ∧
      last.reported = [0, 1] ∧ last.armed = true ∧ isRelevant grammar changed = true ∧
      ∃ heard, initial.after grammar [.change changed] = some heard ∧
        heard.started < last.started := by
  intro grammar changed events
  have hrelevant : isRelevant grammar changed = true := by decide +kernel
  have hrun : initial.after grammar events =
      some ⟨⟨true, false⟩, true, 2, [], [], [0, 1], .returned⟩ := by decide +kernel
  obtain ⟨-, -, hheeded, hreported⟩ := loses_nothing hrun
  obtain ⟨heard, hheard, hawaited, -⟩ := hheeded [] changed _ rfl hrelevant
  have hfirst : initial.after grammar [.change changed] =
      some ⟨⟨true, false⟩, true, 1, [0], [], [], .running⟩ := by decide +kernel
  obtain rfl := Option.some.inj (hheard.symm.trans hfirst)
  exact ⟨_, hrun, rfl, hreported rfl, rfl, hrelevant, _, hheard, by decide⟩

end SymbolPatterns.Watch.Loop
