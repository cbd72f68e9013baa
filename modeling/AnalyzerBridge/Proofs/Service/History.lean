import AnalyzerBridge.Proofs.Service.Effects
import AnalyzerBridge.Service.System
import Mathlib.Data.Nat.Init

/-! Finite histories of a system. Commands are sent, taken and dropped, and runs start, end and are
looked at, in any order whatever; nothing here restricts the events. -/
namespace AnalyzerBridge

open Run

def Effect.started? : Effect → Option LiveRun
  | started run key generation _ _ => some ⟨run, key, generation⟩
  | _ => none

namespace System

variable {s : System} {fs : List Effect} {step : Service × List Effect}

theorem foldl_note : fs.foldl note s = { s with
    live := s.live ++ fs.filterMap Effect.started?
    released := (fs.foldl note s).released } := by
  induction fs generalizing s with
  | nil => simp
  | cons f fs ih =>
    rw [List.foldl_cons, ih]
    cases f <;> simp [note, Effect.started?, List.filterMap_cons]

@[simp] theorem service_after : (s.after step).1.service = step.1 := by
  rw [after, foldl_note]

@[simp] theorem live_after :
    (s.after step).1.live = s.live ++ step.2.filterMap Effect.started? := by
  rw [after, foldl_note]

@[simp] theorem commands_after : (s.after step).1.commands = s.commands := by
  rw [after, foldl_note]

@[simp] theorem ends_after : (s.after step).1.ends = s.ends := by
  rw [after, foldl_note]

@[simp] theorem effects_after : (s.after step).2 = step.2 := rfl

@[simp] theorem service_conclude {run : Nat} {o : Outcome} :
    (s.conclude run o).service = s.service := by
  rw [conclude]
  split <;> rfl

@[simp] theorem commands_conclude {run : Nat} {o : Outcome} :
    (s.conclude run o).commands = s.commands := by
  rw [conclude]
  split <;> rfl

/-- There is nothing to do upon an event. -/
def Rests (s : System) : Event → Prop
  | .sent _ => False
  | .taken _ => s.commands = []
  | .hungUp => s.commands ≠ []
  | .ended run _ => s.find? run = none
  | .attended place => s.ends[place]? = none

/-- From system to system by an event, and what the service does then. -/
inductive Goes (s : System) : Event → System → List Effect → Prop
  | rests {e : Event} (hs : s.Rests e) : Goes s e s []
  | sends {c : Command} (hr : s.service.running = true) :
      Goes s (.sent c) { s with commands := s.commands ++ [c] } []
  | drops {c : Command} (hr : s.service.running = false) : Goes s (.sent c) s c.dropped
  | takes {starts : Invocation → Bool} {c : Command} {rest : List Command}
      (hq : s.commands = c :: rest) (hr : (s.service.handle starts c).1.running = true) :
      Goes s (.taken starts) ({ s with commands := rest }.after (s.service.handle starts c)).1
        (s.service.handle starts c).2
  | takesLast {starts : Invocation → Bool} {c : Command} {rest : List Command}
      (hq : s.commands = c :: rest) (hr : (s.service.handle starts c).1.running = false) :
      Goes s (.taken starts) ({ s with commands := [] }.after ((s.service.handle starts c).1,
          (s.service.handle starts c).2 ++ rest.flatMap Command.dropped)).1
        ((s.service.handle starts c).2 ++ rest.flatMap Command.dropped)
  | hangsUp (hq : s.commands = []) :
      Goes s .hungUp (s.after (s.service.handle (fun _ => false) .shutdown)).1
        (s.service.handle (fun _ => false) .shutdown).2
  | ends {a : LiveRun} {o : Outcome} (hf : s.find? a.run = some a) :
      Goes s (.ended a.run o) { s with
        live := s.live.filter (·.run ≠ a.run)
        ends := s.ends ++ [⟨a.key, a.generation, o⟩] } []
  | attends {place : Nat} {d : Completion} (hd : s.ends[place]? = some d) :
      Goes s (.attended place) ({ s with ends := s.ends.eraseIdx place }.after
        (s.service.complete d)).1 (s.service.complete d).2

theorem find?_mem {run : Nat} {a : LiveRun} (h : s.find? run = some a) :
    a ∈ s.live ∧ a.run = run :=
  ⟨List.mem_of_find?_eq_some h, by simpa using List.find?_some h⟩

theorem goes_step (s : System) (e : Event) : s.Goes e (s.step e).1 (s.step e).2 := by
  cases e with
  | sent c =>
    rw [step, send]
    split
    · rename_i hr
      exact .sends hr
    · rename_i hr
      exact .drops (by simpa using hr)
  | taken starts =>
    cases hq : s.commands with
    | nil =>
      have htake : s.take starts = (s, []) := by simp [take, hq]
      rw [step, htake]
      exact .rests hq
    | cons c rest =>
      cases hr : (s.service.handle starts c).1.running with
      | false =>
        simp only [step, take, hq, hr]
        exact .takesLast hq hr
      | true =>
        simp only [step, take, hq, hr]
        exact .takes hq hr
  | hungUp =>
    rw [step, hangUp]
    split
    · rename_i hq
      exact .hangsUp (List.isEmpty_iff.1 hq)
    · rename_i hq
      exact .rests fun hnil => hq (List.isEmpty_iff.2 hnil)
  | ended run o =>
    rw [step, conclude]
    cases hf : s.find? run with
    | none => exact .rests hf
    | some a =>
      obtain ⟨_, rfl⟩ := find?_mem hf
      exact .ends hf
  | attended place =>
    rw [step, attend]
    split
    · rename_i hd
      exact .rests hd
    · rename_i d hd
      exact .attends hd

/-- After the service has ended, commands are dropped, and nothing else happens. -/
theorem Goes.ended {t : System} {e : Event} (h : s.Goes e t fs)
    (hr : s.service.running = false) :
    t.service = s.service ∧ ∃ dropped : List Command, fs = dropped.flatMap Command.dropped := by
  cases h with
  | rests => exact ⟨rfl, [], rfl⟩
  | sends hr' => exact absurd (hr.symm.trans hr') Bool.false_ne_true
  | @drops c => exact ⟨rfl, [c], by simp⟩
  | takes hq hr' =>
    rw [Service.handle_of_ended hr] at hr'
    exact absurd (hr.symm.trans hr') Bool.false_ne_true
  | @takesLast starts c rest =>
    simpa [Service.handle_of_ended hr] using ⟨c :: rest, rfl⟩
  | hangsUp =>
    rw [service_after, Service.handle_of_ended hr]
    exact ⟨rfl, [], rfl⟩
  | ends => exact ⟨rfl, [], rfl⟩
  | attends =>
    rw [service_after, Service.complete_of_ended hr]
    exact ⟨rfl, [], rfl⟩

end System

/-- A finite history: the settings at the start, and what happens, in order. -/
structure History where
  settings : Settings
  events : List Event

namespace History

variable (h : History) (n : Nat)

/-- The system before the event with this number. -/
def state : System :=
  (h.events.take n).foldl (fun s e => (s.step e).1) (.initial h.settings)

def service : Service := (h.state n).service

def effects : List Effect :=
  match h.events[n]? with
  | none => []
  | some e => ((h.state n).step e).2

/-- What the service has done before an event. -/
def log : List Effect := (List.range n).flatMap h.effects

/-- The running service handles a command. -/
def Handles (starts : Invocation → Bool) (c : Command) : Prop :=
  h.events[n]? = some (.taken starts) ∧ (h.service n).running = true ∧
    (h.state n).commands.head? = some c

/-- The command that the running service handles at an event. -/
def command? : Option Command :=
  match h.events[n]? with
  | some (.taken _) => if (h.service n).running then (h.state n).commands.head? else none
  | _ => none

/-- The running service looks at the end of a run. -/
def Attends (d : Completion) : Prop :=
  ∃ place, h.events[n]? = some (.attended place) ∧ (h.service n).running = true ∧
    (h.state n).ends[place]? = some d

/-- A live run ends. -/
def Ends (l : LiveRun) (o : Outcome) : Prop :=
  h.events[n]? = some (.ended l.run o) ∧ (h.state n).find? l.run = some l

variable {h : History} {n m : Nat} {e : Event} {starts starts' : Invocation → Bool} {c c' : Command}
  {d d' : Completion}

@[simp] theorem state_zero : h.state 0 = .initial h.settings := rfl

theorem state_succ (he : h.events[n]? = some e) : h.state (n + 1) = ((h.state n).step e).1 := by
  rw [state, List.take_add_one, he, Option.toList_some, List.foldl_append]
  rfl

theorem state_succ_of_none (he : h.events[n]? = none) : h.state (n + 1) = h.state n := by
  rw [state, List.take_add_one, he, Option.toList_none, List.append_nil, state]

theorem effects_eq (he : h.events[n]? = some e) : h.effects n = ((h.state n).step e).2 := by
  simp [effects, he]

theorem goes (he : h.events[n]? = some e) :
    (h.state n).Goes e (h.state (n + 1)) (h.effects n) := by
  rw [state_succ he, effects_eq he]
  exact System.goes_step _ _

theorem state_succ_cases (h : History) (n : Nat) :
    (h.events[n]? = none ∧ h.state (n + 1) = h.state n ∧ h.effects n = []) ∨
      ∃ e, h.events[n]? = some e ∧ (h.state n).Goes e (h.state (n + 1)) (h.effects n) := by
  cases he : h.events[n]? with
  | none => exact Or.inl ⟨rfl, state_succ_of_none he, by simp [effects, he]⟩
  | some e => exact Or.inr ⟨e, rfl, goes he⟩

theorem log_succ : h.log (n + 1) = h.log n ++ h.effects n := by
  simp [log, List.range_succ]

theorem mem_log {f : Effect} : f ∈ h.log n ↔ ∃ k < n, f ∈ h.effects k := by
  simp [log]

theorem handles_unique (hc : h.Handles n starts c) (hc' : h.Handles n starts' c') :
    starts = starts' ∧ c = c' := by
  obtain ⟨he, _, hh⟩ := hc
  obtain ⟨he', _, hh'⟩ := hc'
  simp_all

theorem command?_eq_some : h.command? n = some c ↔ ∃ starts, h.Handles n starts c := by
  rw [command?]
  constructor
  · intro hc
    split at hc
    · rename_i starts he
      split at hc
      · rename_i hr
        exact ⟨starts, he, hr, hc⟩
      · cases hc
    · cases hc
  · rintro ⟨starts, he, hr, hc⟩
    simp [he, hr, hc]

theorem command?_eq_none : h.command? n = none ↔ ∀ starts c, ¬ h.Handles n starts c := by
  rw [Option.eq_none_iff_forall_ne_some]
  simp only [ne_eq, command?_eq_some, not_exists]
  exact forall_comm

theorem attends_unique (hd : h.Attends n d) (hd' : h.Attends n d') : d = d' := by
  obtain ⟨p, he, _, hp⟩ := hd
  obtain ⟨q, he', _, hq⟩ := hd'
  simp_all

theorem running_of_attends (hd : h.Attends n d) : (h.service n).running = true := by
  obtain ⟨_, _, hr, _⟩ := hd
  exact hr

theorem not_attends_of_handles (hc : h.Handles n starts c) : ¬ h.Attends n d := by
  rintro ⟨p, he, _, _⟩
  simp [hc.1] at he

/-- What may become of the service at an event. Once it has ended, the commands that nobody handles
are dropped, which at most answers hovers with nothing. -/
inductive Step (h : History) (n : Nat) : Service → List Effect → Prop where
  | idle (dropped : List Command) (hh : ∀ starts c, ¬ h.Handles n starts c)
      (ha : ∀ d, ¬ h.Attends n d) (hq : (h.service n).running = true → dropped = []) :
      Step h n (h.service n) (dropped.flatMap Command.dropped)
  | command {starts : Invocation → Bool} {c : Command} (hc : h.Handles n starts c)
      (dropped : List Command)
      (hq : ((h.service n).handle starts c).1.running = true → dropped = []) :
      Step h n ((h.service n).handle starts c).1
        (((h.service n).handle starts c).2 ++ dropped.flatMap Command.dropped)
  | hungUp {starts : Invocation → Bool} (hr : (h.service n).running = true)
      (hh : ∀ starts c, ¬ h.Handles n starts c) (ha : ∀ d, ¬ h.Attends n d) :
      Step h n ((h.service n).handle starts .shutdown).1 ((h.service n).handle starts .shutdown).2
  | attended {d : Completion} (hd : h.Attends n d) :
      Step h n ((h.service n).complete d).1 ((h.service n).complete d).2

theorem not_handles (he : h.events[n]? = some e) (hn : ∀ starts, e ≠ .taken starts) :
    ¬ h.Handles n starts c := by
  intro hc
  exact hn starts (Option.some.inj (he.symm.trans hc.1))

theorem not_attends (he : h.events[n]? = some e) (hn : ∀ p, e ≠ .attended p) :
    ¬ h.Attends n d := by
  rintro ⟨p, hp, _⟩
  exact hn p (Option.some.inj (he.symm.trans hp))

theorem step_of_none (he : h.events[n]? = none) :
    h.Step n (h.service (n + 1)) (h.effects n) := by
  rw [service, state_succ_of_none he, effects, he]
  refine .idle [] ?_ ?_ fun _ => rfl
  · intro starts c hc
    exact absurd hc.1 (by simp [he])
  · rintro d ⟨p, hp, _⟩
    simp [hp] at he

section
variable {t : System} {fs : List Effect}

/-- Whatever the event, a service that has ended drops commands at most. -/
theorem step_of_not_running (hg : (h.state n).Goes e t fs) (hr : (h.service n).running = false) :
    h.Step n t.service fs := by
  obtain ⟨hs, dropped, rfl⟩ := hg.ended hr
  rw [hs]
  refine .idle dropped ?_ ?_ (by simp [hr])
  · rintro starts c ⟨_, hc, _⟩
    simp [hr] at hc
  · rintro d ⟨p, _, hp, _⟩
    simp [hr] at hp

theorem step_ended {run : Nat} {o : Outcome} (he : h.events[n]? = some (.ended run o))
    (hg : (h.state n).Goes (.ended run o) t fs) : h.Step n t.service fs := by
  have hs : h.Step n (h.service n) [] :=
    .idle [] (fun _ _ => not_handles he (by simp)) (fun _ => not_attends he (by simp)) fun _ => rfl
  cases hg with
  | rests => exact hs
  | ends => exact hs

variable (hr : (h.service n).running = true)
include hr

theorem step_sent (he : h.events[n]? = some (.sent c)) (hg : (h.state n).Goes (.sent c) t fs) :
    h.Step n t.service fs := by
  cases hg with
  | rests hs => exact hs.elim
  | sends =>
    exact .idle [] (fun _ _ => not_handles he (by simp)) (fun _ => not_attends he (by simp))
      fun _ => rfl
  | drops hr' => exact absurd (hr'.symm.trans hr) Bool.false_ne_true

/-- A command is taken from the queue, if there is one; the last one that the service handles has the
others dropped. -/
theorem step_taken (he : h.events[n]? = some (.taken starts))
    (hg : (h.state n).Goes (.taken starts) t fs) : h.Step n t.service fs := by
  cases hg with
  | rests hq =>
    refine .idle [] ?_ (fun _ => not_attends he (by simp)) fun _ => rfl
    rintro starts c ⟨_, _, hc⟩
    simp [show (h.state n).commands = [] from hq] at hc
  | takes hq =>
    have hstep := Step.command ⟨he, hr, by rw [hq, List.head?_cons]⟩ [] fun _ => rfl
    rw [List.flatMap_nil, List.append_nil] at hstep
    rw [System.service_after]
    exact hstep
  | takesLast hq hrun =>
    rw [System.service_after]
    exact Step.command ⟨he, hr, by rw [hq, List.head?_cons]⟩ _ fun hrun' =>
      absurd (hrun.symm.trans hrun') Bool.false_ne_true

/-- The senders hang up: once the queue is empty, the service ends as it does when told to. -/
theorem step_hungUp (he : h.events[n]? = some .hungUp) (hg : (h.state n).Goes .hungUp t fs) :
    h.Step n t.service fs := by
  have hh : ∀ starts c, ¬ h.Handles n starts c := fun _ _ => not_handles he (by simp)
  have ha : ∀ d, ¬ h.Attends n d := fun _ => not_attends he (by simp)
  cases hg with
  | rests => exact .idle [] hh ha fun _ => rfl
  | hangsUp =>
    rw [System.service_after]
    exact .hungUp hr hh ha

theorem step_attended {place : Nat} (he : h.events[n]? = some (.attended place))
    (hg : (h.state n).Goes (.attended place) t fs) : h.Step n t.service fs := by
  cases hg with
  | rests hs =>
    refine .idle [] (fun _ _ => not_handles he (by simp)) ?_ fun _ => rfl
    rintro d ⟨p, hp, _, hd⟩
    simp_all [System.Rests]
  | attends hd =>
    rw [System.service_after]
    exact .attended ⟨place, he, hr, hd⟩

end

theorem step (h : History) (n : Nat) : h.Step n (h.service (n + 1)) (h.effects n) := by
  cases he : h.events[n]? with
  | none => exact step_of_none he
  | some e =>
    have hg := goes he
    cases hr : (h.service n).running with
    | false => exact step_of_not_running hg hr
    | true =>
      cases e with
      | sent c => exact step_sent hr he hg
      | taken starts => exact step_taken hr he hg
      | hungUp => exact step_hungUp hr he hg
      | ended run o => exact step_ended he hg
      | attended place => exact step_attended hr he hg

end History

end AnalyzerBridge
