import SymbolPatterns.Watch.Queue

/-!
What a queue answers to a sequence of calls. A request is answered by a start,
at once or when the run that is in flight ends; the requests that wait for one
end share one start.
-/

namespace SymbolPatterns.Watch.Queue

/-- What a queue is told: that a run is asked for, or that one has ended.
Nothing else changes it. -/
inductive Call where
  | request
  | complete
  deriving DecidableEq, Repr

/-- The queue after a call, and whether a run starts with that call. -/
def answer (queue : Queue) : Call → Queue × Bool
  | .request => queue.request
  | .complete => queue.complete

def after : Queue → List Call → Queue
  | queue, [] => queue
  | queue, call :: rest => (queue.answer call).1.after rest

/-- How many runs start with the calls of a sequence, whichever of the two
kinds the call is of. -/
def starts : Queue → List Call → Nat
  | _, [] => 0
  | queue, call :: rest => (queue.answer call).2.toNat + (queue.answer call).1.starts rest

/-- The end of a run is told only while one is in flight. Callers keep to
this; only the count of starts needs it. -/
def Proper : Queue → List Call → Prop
  | _, [] => True
  | queue, call :: rest =>
      (call = .complete → queue.inFlight = true) ∧ (queue.answer call).1.Proper rest

instance decidableProper : (queue : Queue) → (calls : List Call) → Decidable (queue.Proper calls)
  | _, [] => .isTrue trivial
  | queue, call :: rest =>
      have := decidableProper (queue.answer call).1 rest
      inferInstanceAs (Decidable (_ ∧ _))

/-- Whether a run starts with a call that a new queue is given behind others.
Statements about a place in a sequence of calls are made with it. -/
def startsBehind (front : List Call) (call : Call) : Bool :=
  ((after {} front).answer call).2

variable {queue next : Queue} {call : Call} {calls front rest : List Call} {started : Bool}

theorem after_append (queue : Queue) (front rest : List Call) :
    queue.after (front ++ rest) = (queue.after front).after rest := by
  induction front generalizing queue with
  | nil => rfl
  | cons call front ih => exact ih (queue.answer call).1

theorem starts_append (queue : Queue) (front rest : List Call) :
    queue.starts (front ++ rest) = queue.starts front + (queue.after front).starts rest := by
  induction front generalizing queue with
  | nil => exact (Nat.zero_add _).symm
  | cons call front ih => rw [List.cons_append, starts, starts, after, ih, Nat.add_assoc]

/-- What each call does. A run starts with a request if none is in flight, and
with the end of a run if one is pending. -/
inductive Step (queue : Queue) : Call → Queue → Bool → Prop
  | begin (free : queue.inFlight = false) :
      Step queue .request { queue with inFlight := true } true
  | postpone (busy : queue.inFlight = true) :
      Step queue .request { queue with pending := true } false
  | followUp (pending : queue.pending = true) :
      Step queue .complete { queue with pending := false } true
  | finish (alone : queue.pending = false) :
      Step queue .complete { queue with inFlight := false } false

theorem answer_eq_iff : queue.answer call = (next, started) ↔ Step queue call next started := by
  constructor
  · rintro h
    cases call with
    | request =>
        rw [answer, Queue.request] at h
        split at h
        · next hbusy =>
          obtain ⟨rfl, rfl⟩ := Prod.mk.inj h
          exact .postpone hbusy
        · next hfree =>
          obtain ⟨rfl, rfl⟩ := Prod.mk.inj h
          exact .begin (Bool.not_eq_true _ ▸ hfree)
    | complete =>
        rw [answer, Queue.complete] at h
        split at h
        · next hpending =>
          obtain ⟨rfl, rfl⟩ := Prod.mk.inj h
          exact .followUp hpending
        · next halone =>
          obtain ⟨rfl, rfl⟩ := Prod.mk.inj h
          exact .finish (Bool.not_eq_true _ ▸ halone)
  · intro h
    cases h with
    | begin hfree => simp [answer, Queue.request, hfree]
    | postpone hbusy => simp [answer, Queue.request, hbusy]
    | followUp hpending => simp [answer, Queue.complete, hpending]
    | finish halone => simp [answer, Queue.complete, halone]

theorem step_answer (queue : Queue) (call : Call) :
    Step queue call (queue.answer call).1 (queue.answer call).2 :=
  answer_eq_iff.1 rfl

/-- A run is pending only behind one that is in flight. A new queue is valid
and every call keeps it so. -/
def Valid (queue : Queue) : Prop := queue.pending = true → queue.inFlight = true

theorem valid_new : Valid {} := nofun

theorem valid_of_step (hstep : Step queue call next started) : next.Valid := by
  cases hstep with
  | begin => exact fun _ => rfl
  | postpone hbusy => exact fun _ => hbusy
  | followUp => exact nofun
  | finish halone =>
      intro hpending
      rw [halone] at hpending
      cases hpending

/-- Where a run starts, it is in flight and none is pending: whatever was
asked for before is answered by it. -/
theorem Valid.eq_of_start (h : queue.Valid) (hstep : Step queue call next true) :
    next = { inFlight := true, pending := false } := by
  cases hstep with
  | begin hfree =>
      cases hpending : queue.pending with
      | false => rfl
      | true => exact absurd (h hpending) (by simp [hfree])
  | followUp hpending => rw [h hpending]

/-- A run that starts is in flight in the place of the one that has ended.
Summed up over a sequence this counts the starts. -/
theorem Valid.balance_step (h : queue.Valid) (hproper : call = .complete → queue.inFlight = true)
    (hstep : Step queue call next started) :
    started.toNat + queue.inFlight.toNat = [call].count .complete + next.inFlight.toNat := by
  cases hstep with
  | begin hfree => simp [hfree]
  | postpone hbusy => simp [hbusy]
  | followUp hpending => simp [h hpending]
  | finish => simp [hproper rfl]

/-- The end of a run starts another one if a request waits for it, and at
once. -/
@[simp] theorem answer_complete_started (queue : Queue) :
    (queue.answer .complete).2 = queue.pending := by
  cases hpending : queue.pending with
  | true => rw [answer_eq_iff.2 (.followUp hpending)]
  | false => rw [answer_eq_iff.2 (.finish hpending)]

theorem Valid.after (h : queue.Valid) (calls : List Call) : (queue.after calls).Valid := by
  induction calls generalizing queue with
  | nil => exact h
  | cons call rest ih => exact ih (valid_of_step (step_answer queue call))

/-- Each run that starts has ended or is in flight at the end. The induction
is on the calls, with one run possibly in flight before them. -/
theorem Valid.balance (h : queue.Valid) (hproper : queue.Proper calls) :
    queue.starts calls + queue.inFlight.toNat =
      calls.count .complete + (queue.after calls).inFlight.toNat := by
  induction calls generalizing queue with
  | nil => simp [starts, Queue.after]
  | cons call rest ih =>
      obtain ⟨hcall, hrest⟩ := hproper
      have hstep := step_answer queue call
      have hnow := h.balance_step hcall hstep
      have hlater := ih (valid_of_step hstep) hrest
      rw [starts, Queue.after, ← List.singleton_append, List.count_append]
      omega

/-- Requests that come while a run is in flight start none; together they make
one pending, however many they are. -/
theorem after_requests (queue : Queue) (hbusy : queue.inFlight = true) (hcalls : .complete ∉ calls) :
    queue.starts calls = 0 ∧
      queue.after calls = { queue with pending := queue.pending || !calls.isEmpty } := by
  induction calls generalizing queue with
  | nil => simp [starts, after]
  | cons call rest ih =>
      rw [List.mem_cons, not_or] at hcalls
      cases call with
      | complete => exact absurd rfl hcalls.1
      | request =>
          have hanswer := answer_eq_iff.2 (Step.postpone hbusy)
          obtain ⟨hstarts, hafter⟩ := ih { queue with pending := true } hbusy hcalls.2
          simp [starts, after, hanswer, hstarts, hafter]

/-- A request that starts no run leaves one pending, and others behind it
leave it so, until a run ends. -/
theorem pending_of_postponed {others : List Call} (hcalls : .complete ∉ others)
    (hstarted : (queue.answer .request).2 = false) :
    (queue.after (.request :: others)).pending = true := by
  cases hanswer : queue.answer .request with
  | mk next started =>
      rw [hanswer] at hstarted
      obtain rfl : started = false := hstarted
      cases answer_eq_iff.1 hanswer with
      | postpone hbusy =>
          obtain ⟨-, hafter⟩ := after_requests { queue with pending := true } hbusy hcalls
          rw [after, hanswer, hafter, Bool.true_or]

/-- The requests between the start of a run and its end start one run more, if
there are any. -/
theorem Valid.starts_between {requests : List Call} (h : queue.Valid)
    (hcalls : .complete ∉ requests) (hstarted : (queue.answer call).2 = true) :
    (queue.answer call).1.starts (requests ++ [.complete]) = if requests = [] then 0 else 1 := by
  have hstep := step_answer queue call
  rw [hstarted] at hstep
  obtain ⟨hnone, hafter⟩ := after_requests { inFlight := true, pending := false } rfl hcalls
  rw [h.eq_of_start hstep, starts_append, hnone, hafter]
  cases requests <;> simp [starts]

/-- Until the pending run starts, one is in flight, for otherwise the end of
that one would have started it. -/
theorem inFlight_of_no_start (queue : Queue) (hbusy : queue.inFlight = true)
    (hpending : queue.pending = true) (hstarts : queue.starts calls = 0) :
    (queue.after calls).inFlight = true := by
  induction calls generalizing queue with
  | nil => exact hbusy
  | cons call rest ih =>
      cases call with
      | request =>
          have hanswer := answer_eq_iff.2 (Step.postpone hbusy)
          rw [starts, hanswer] at hstarts
          rw [after, hanswer]
          exact ih { queue with pending := true } hbusy rfl (by simpa using hstarts)
      | complete =>
          rw [starts, answer_eq_iff.2 (Step.followUp hpending)] at hstarts
          simp at hstarts

/-- If a run starts neither with a request nor behind it, one is still in
flight. -/
theorem starts_of_idle (hidle : (queue.after (.request :: rest)).inFlight = false) :
    0 < queue.starts (.request :: rest) := by
  refine Nat.pos_of_ne_zero fun hnone => ?_
  rw [starts, Nat.add_eq_zero_iff] at hnone
  obtain ⟨hnow, hlater⟩ := hnone
  rw [after] at hidle
  cases hanswer : queue.answer .request with
  | mk next started =>
      rw [hanswer] at hnow hlater hidle
      obtain rfl : started = false := Bool.toNat_eq_zero.1 hnow
      cases answer_eq_iff.1 hanswer with
      | postpone hbusy =>
          have hstill := inFlight_of_no_start { queue with pending := true } hbusy rfl hlater
          rw [hstill] at hidle
          cases hidle

/-- A new queue, after any sequence of calls. A run is pending only behind one
in flight. As many runs have started as have ended, and one more if one is in
flight, where the end of a run is told only while one is in flight. A request
that starts no run is followed by a start with the next end of a run. The
requests between a start and the next end start one run there, or none if
there are none. And if no run is in flight, one has started with the last
request or behind it. The sequences are any ones, also those in which an end
is told where no run is in flight, except where it is said. -/
theorem coalesces (calls : List Call) :
    ((after {} calls).pending = true → (after {} calls).inFlight = true) ∧
    (Proper {} calls →
      starts {} calls = calls.count .complete + if (after {} calls).inFlight then 1 else 0) ∧
    (∀ front others rest, calls = front ++ .request :: (others ++ .complete :: rest) →
      .complete ∉ others → startsBehind front .request = false →
      startsBehind (front ++ .request :: others) .complete = true) ∧
    (∀ front first requests rest, calls = front ++ first :: (requests ++ .complete :: rest) →
      .complete ∉ requests → startsBehind front first = true →
      (after {} (front ++ [first])).starts (requests ++ [.complete]) =
        if requests = [] then 0 else 1) ∧
    ((after {} calls).inFlight = false → ∀ front rest, calls = front ++ .request :: rest →
      0 < (after {} front).starts (.request :: rest)) := by
  refine ⟨valid_new.after calls, fun hproper => ?_, ?_, ?_, ?_⟩
  · have hbalance := valid_new.balance hproper
    cases hflight : (after {} calls).inFlight <;> simpa [hflight] using hbalance
  · rintro front others rest - hothers hstarted
    rw [startsBehind, answer_complete_started, after_append]
    exact pending_of_postponed hothers hstarted
  · rintro front first requests rest - hrequests hstarted
    rw [after_append]
    exact (valid_new.after front).starts_between hrequests hstarted
  · rintro hidle front rest rfl
    rw [after_append] at hidle
    exact starts_of_idle hidle

/-- Two requests share the run behind the first one; one that comes during
that run has a run of its own, and then the queue is at rest. -/
theorem coalesces_overlapping :
    let calls : List Call :=
      [.request, .request, .request, .complete, .request, .complete, .complete]
    Proper {} calls ∧ starts {} calls = 3 ∧ (after {} calls).inFlight = false := by
  intro calls
  have hproper : Proper {} calls := by decide
  obtain ⟨-, hbalance, -⟩ := coalesces calls
  exact ⟨hproper, hbalance hproper, rfl⟩

end SymbolPatterns.Watch.Queue
