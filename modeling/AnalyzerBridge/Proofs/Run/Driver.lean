import AnalyzerBridge.Proofs.Course
import AnalyzerBridge.Run.Driver

/-! What a driver does at one event, and what is true of it after any number of them. -/
namespace AnalyzerBridge

/-- An end that is delivered as soon as it is known. -/
def Outcome.Prompt (o : Outcome) : Prop := o ≠ .cancelled ∧ o ≠ .timedOut

theorem Outcome.prompt_ofBytes (bytes : List UInt8) : Outcome.Prompt (.ofBytes bytes) := by
  rw [Outcome.ofBytes]
  split <;> exact ⟨by simp, by simp⟩

theorem Outcome.ofBytes_ne_failed (bytes : List UInt8) (reason : String) :
    Outcome.ofBytes bytes ≠ .failed reason := by
  rw [Outcome.ofBytes]
  split <;> simp

theorem Outcome.prompt_failed (reason : String) : Outcome.Prompt (.failed reason) :=
  ⟨by simp, by simp⟩

namespace Run

/-- From phase to phase, by a branch that is ready. -/
inductive Phase.Goes (r : Ready) : Phase → Branch → Phase → Prop where
  | cancelled {p : Phase} (hp : ∀ o, p ≠ .ended o) (hr : r.cancelled = true) :
      Goes r p .cancelled (.ended .cancelled)
  | timedOut (hr : r.limitOver = true) : Goes r .exchanging .limitOver (.ended .timedOut)
  | exchanged {output : List UInt8} (hw : r.written = true) (ho : r.output = some (.ok output)) :
      Goes r .exchanging .exchanged (.lingering output)
  | readFailed {reason : String} (hw : r.written = true) (ho : r.output = some (.error reason)) :
      Goes r .exchanging .exchanged (.ended (.failed ("reading analyzer output: " ++ reason)))
  | left {output : List UInt8} {x : Except String Exit} (hx : r.exit = some x) :
      Goes r (.lingering output) .left (.ended (outcomeOfExit output x))
  | limitOver {output : List UInt8} (hr : r.limitOver = true) :
      Goes r (.lingering output) .limitOver (.ended (.ofBytes output))
  | graceOver {output : List UInt8} (hr : r.graceOver = true) :
      Goes r (.lingering output) .graceOver (.ended (.ofBytes output))

theorem Phase.take_eq_some {r : Ready} {p q : Phase} {b : Branch} :
    p.take r b = some q ↔ p.Goes r b q := by
  constructor
  · intro h
    cases p with
    | exchanging =>
      cases b with
      | cancelled =>
        obtain ⟨hr, rfl⟩ := by simpa [take] using h
        exact .cancelled (by simp) hr
      | limitOver =>
        obtain ⟨hr, rfl⟩ := by simpa [take] using h
        exact .timedOut hr
      | exchanged =>
        obtain ⟨hw, x, ho, rfl⟩ := by simpa [take] using h
        cases x with
        | ok output => exact .exchanged hw ho
        | error reason => exact .readFailed hw ho
      | left => cases h
      | graceOver => cases h
    | lingering output =>
      cases b with
      | cancelled =>
        obtain ⟨hr, rfl⟩ := by simpa [take] using h
        exact .cancelled (by simp) hr
      | limitOver =>
        obtain ⟨hr, rfl⟩ := by simpa [take] using h
        exact .limitOver hr
      | graceOver =>
        obtain ⟨hr, rfl⟩ := by simpa [take] using h
        exact .graceOver hr
      | left =>
        obtain ⟨x, hx, rfl⟩ := by simpa [take] using h
        exact .left hx
      | exchanged => cases h
    | ended o => cases b <;> cases h
  · intro h
    cases h with
    | @cancelled p hp hr =>
      cases p with
      | ended o => exact absurd rfl (hp o)
      | _ => simp [take, hr]
    | timedOut hr => simp [take, hr]
    | exchanged hw ho => simp [take, hw, ho]
    | readFailed hw ho => simp [take, hw, ho]
    | left hx => simp [take, hx]
    | limitOver hr => simp [take, hr]
    | graceOver hr => simp [take, hr]

theorem prompt_outcomeOfExit (output : List UInt8) (x : Except String Exit) :
    Outcome.Prompt (outcomeOfExit output x) := by
  cases x with
  | error reason => exact Outcome.prompt_failed _
  | ok exit =>
    cases exit with
    | code n => exact Outcome.prompt_ofBytes output
    | signal n dumped => exact Outcome.prompt_failed _

theorem Phase.Goes.not_ended {r : Ready} {p q : Phase} {b : Branch} (h : p.Goes r b q)
    (o : Outcome) : p ≠ .ended o := by
  cases h with
  | cancelled hp => exact hp o
  | _ => simp

theorem Phase.Goes.ne_exchanging {r : Ready} {p q : Phase} {b : Branch} (h : p.Goes r b q) :
    q ≠ .exchanging := by
  cases h <;> simp

def DriverEffect.outcome? : DriverEffect → Option Outcome
  | delivered o _ => some o
  | _ => none

/-- Does an event ask the run to stop? A holder that goes away does, too. -/
def DriverEvent.Stops (e : DriverEvent) : Prop := e = .stopAsked ∨ e = .dropped

def DriverEvent.outputEnd? : DriverEvent → Option (Except String Unit)
  | outputEnded => some (.ok ())
  | readFailed reason => some (.error reason)
  | _ => none

def DriverEvent.exit? : DriverEvent → Option (Except String Exit)
  | left exit => some exit
  | _ => none

def DriverEvent.bytes : DriverEvent → List UInt8
  | read bytes => bytes
  | _ => []

/-- How much of the input is taken by an event. -/
def DriverEvent.count : DriverEvent → Nat
  | fed count => count
  | _ => 0

namespace Driver

variable {d : Driver} {e : DriverEvent} {b : Branch} {p : Phase} {o : Outcome}

section
variable (d : Driver) (e : DriverEvent) (b : Branch) (p : Phase) (o : Outcome)

@[simp] theorem phase_note : (d.note e).phase = d.phase := by
  cases e <;> rfl

@[simp] theorem stopping_note : (d.note e).stopping = d.stopping := by
  cases e <;> rfl

@[simp] theorem limited_note : (d.note e).limited = d.limited := by
  cases e <;> rfl

@[simp] theorem driver_note : (d.note e).pair.driver = d.pair.driver := by
  cases e <;> rfl

@[simp] theorem phase_deliver : (d.deliver o).1.phase = d.phase := rfl

@[simp] theorem stopping_deliver : (d.deliver o).1.stopping = none := rfl

@[simp] theorem isCancelled_deliver : (d.deliver o).1.pair.isCancelled = d.pair.isCancelled := by
  cases h : d.pair.driver <;> simp [deliver, Pair.finish, h, Pair.isCancelled]

/-- What a driver does changes only its phase, and what it has still to do about the end. -/
structure Apart (d d' : Driver) : Prop where
  seen : d'.seen = d.seen
  limited : d'.limited = d.limited
  cancelled : d'.pair.isCancelled = d.pair.isCancelled

theorem apart_enter : d.Apart (d.enter b p).1 := by
  simp only [enter]
  split
  · exact ⟨rfl, rfl, rfl⟩
  · exact ⟨rfl, rfl, rfl⟩
  · exact ⟨rfl, rfl, rfl⟩
  · exact ⟨rfl, rfl, rfl⟩
  · exact ⟨rfl, rfl, isCancelled_deliver _ _⟩

end

inductive Does (d : Driver) : Driver × List DriverEffect → Prop where
  | nothing : Does d (d, [])
  | takes {b : Branch} {p : Phase} (h : d.phase.Goes d.ready b p) : Does d (d.enter b p)
  | kills (hs : d.stopping = some .interrupted) :
      Does d ({ d with stopping := some .killed }, [.killed])
  | reaps {s : Stopping} {o : Outcome} (hs : d.stopping = some s) (hp : d.phase = .ended o) :
      Does d (d.deliver o)

theorem does_take (d : Driver) (b : Branch) : d.Does (d.take b) := by
  rw [take]
  split
  · exact .nothing
  · rename_i p hp
    exact .takes (Phase.take_eq_some.1 hp)

theorem does_act (d : Driver) (e : DriverEvent) : d.Does (d.act e) := by
  cases e with
  | fed | refused | read | outputEnded | readFailed => exact does_take d _
  | looked b => exact does_take d b
  | patiencePassed =>
    simp only [act, losePatience]
    split
    · rename_i hs _
      exact .kills hs
    · exact .nothing
  | reaped =>
    simp only [act, reap]
    split
    · rename_i hs _ hp
      exact .reaps hs hp
    · exact .nothing
  | stopAsked | dropped | limitPassed | gracePassed | left => exact .nothing

theorem apart_act (d : Driver) (e : DriverEvent) : d.Apart (d.act e).1 := by
  have hd := d.does_act e
  generalize d.act e = r at hd ⊢
  cases hd with
  | nothing => exact ⟨rfl, rfl, rfl⟩
  | takes => exact apart_enter d _ _
  | kills => exact ⟨rfl, rfl, rfl⟩
  | reaps => exact ⟨rfl, rfl, isCancelled_deliver d _⟩

theorem does_step (d : Driver) (e : DriverEvent) : (d.note e).Does (d.step e) :=
  does_act _ _

theorem seen_step (d : Driver) (e : DriverEvent) : (d.step e).1.seen = (d.note e).seen :=
  (apart_act _ _).seen

@[simp] theorem limited_step (d : Driver) (e : DriverEvent) : (d.step e).1.limited = d.limited := by
  rw [step, (apart_act _ _).limited, limited_note]

theorem isCancelled_step :
    (d.step e).1.pair.isCancelled = true ↔ d.pair.isCancelled = true ∨ e.Stops := by
  rw [step, (apart_act _ _).cancelled]
  cases e with
  | stopAsked =>
    cases h : d.pair.held <;> simp [note, Pair.cancel, Pair.isCancelled, DriverEvent.Stops, h]
  | dropped => simp [note, Pair.drop, Pair.isCancelled, DriverEvent.Stops]
  | _ => simp [note, DriverEvent.Stops]

theorem limitOver_step : (d.step e).1.seen.limitOver = true ↔
    d.seen.limitOver = true ∨ (e = .limitPassed ∧ d.limited = true) := by
  rw [seen_step]
  cases e <;> simp [note]

theorem graceOver_step : (d.step e).1.seen.graceOver = true ↔
    d.seen.graceOver = true ∨ (e = .gracePassed ∧ d.isLingering = true) := by
  rw [seen_step]
  cases e <;> simp [note]

theorem refused_step : (d.step e).1.seen.refused = true ↔ d.seen.refused = true ∨ e = .refused := by
  rw [seen_step]
  cases e <;> simp [note]

theorem unfed_step : (d.step e).1.seen.unfed = d.seen.unfed.drop e.count := by
  rw [seen_step]
  cases e <;> rfl

theorem exit_step : (d.step e).1.seen.exit = d.seen.exit.or e.exit? := by
  rw [seen_step]
  cases e <;> simp [note, DriverEvent.exit?]

theorem outputEnd_step : (d.step e).1.seen.outputEnd = d.seen.outputEnd.or e.outputEnd? := by
  rw [seen_step]
  cases e <;> simp [note, DriverEvent.outputEnd?]

theorem collected_step : (d.step e).1.seen.collected =
    d.seen.collected ++ if d.seen.outputEnd.isNone then e.bytes else [] := by
  rw [seen_step]
  cases e <;> simp [note, DriverEvent.bytes]

/-- The exchange is not over. -/
def Open (d : Driver) : Prop := d.phase = .exchanging → d.isFed = true → d.seen.outputEnd = none

theorem open_begin (input : List UInt8) (limited : Bool) : (begin input limited).Open :=
  fun _ _ => rfl

theorem phase_enter (d : Driver) (b : Branch) (p : Phase) : (d.enter b p).1.phase = p := by
  simp only [enter]
  split <;> rfl

/-- A driver that looks at the exchange sees whether it is over. -/
theorem open_take (d : Driver) : (d.take .exchanged).1.Open := by
  rw [take]
  cases hp : d.phase.take d.ready .exchanged with
  | some p =>
    intro hx
    rw [phase_enter] at hx
    exact absurd hx (Phase.take_eq_some.1 hp).ne_exchanging
  | none =>
    intro hx hfed
    cases ho : d.seen.outputEnd with
    | none => rfl
    | some ending => simp_all [Phase.take, ready]

theorem open_step (ho : d.Open) (e : DriverEvent) : (d.step e).1.Open := by
  have hd := d.does_step e
  cases e with
  | fed | refused | read | outputEnded | readFailed => exact open_take _
  | _ =>
    generalize d.step _ = r at hd
    cases hd with
    | nothing => exact ho
    | takes h => exact fun hx => absurd ((phase_enter _ _ _).symm.trans hx) h.ne_exchanging
    | kills => exact ho
    | reaps _ hp => exact fun hx => absurd (hp.symm.trans hx) (by simp)

end Driver

end Run

end AnalyzerBridge
