import AnalyzerBridge.Proofs.Run.Seen

/-! What a driver goes through until it delivers the end of its run, and that it delivers only
one. -/
namespace AnalyzerBridge.Run

/-- What is to be done to the analyzer before an end is delivered. -/
def Phase.stopping? : Phase → Option Stopping
  | .ended .cancelled => some .interrupted
  | .ended .timedOut => some .killed
  | _ => none

theorem Phase.stopping?_of_prompt {o : Outcome} (ho : o.Prompt) :
    (Phase.ended o).stopping? = none := by
  cases o with
  | cancelled => exact absurd rfl ho.1
  | timedOut => exact absurd rfl ho.2
  | _ => rfl

namespace Driver

variable {d : Driver} {r : Driver × List DriverEffect} {r' : Ready} {e : DriverEvent}
  {b : Branch} {p q : Phase} {o : Outcome}

/-- The end that was delivered. -/
def delivered? (d : Driver) : Option Outcome :=
  match d.phase, d.stopping with
  | .ended o, none => some o
  | _, _ => none

/-- A driver with something to do first has not delivered an end. What it has delivered goes to the
holder, if that is still there. -/
structure Sound (d : Driver) : Prop where
  waits : (∀ o, d.phase ≠ .ended o) → d.stopping = none
  driving : d.delivered? = none → d.pair.driver = .driving
  heard : ∀ o, d.delivered? = some o → d.pair.held = true → d.pair.driver = .delivered o

theorem delivered?_eq_some : d.delivered? = some o ↔ d.phase = .ended o ∧ d.stopping = none := by
  rw [delivered?]
  split <;> simp_all

theorem delivered?_of_not_ended (hp : ∀ o, d.phase ≠ .ended o) : d.delivered? = none := by
  rw [Option.eq_none_iff_forall_ne_some]
  intro o ho
  exact hp o (delivered?_eq_some.1 ho).1

theorem delivered?_of_stopping {s : Stopping} (hs : d.stopping = some s) : d.delivered? = none := by
  rw [Option.eq_none_iff_forall_ne_some]
  intro o ho
  exact absurd (delivered?_eq_some.1 ho).2 (by simp [hs])

@[simp] theorem delivered?_note (d : Driver) (e : DriverEvent) :
    (d.note e).delivered? = d.delivered? := by
  simp [delivered?]

@[simp] theorem ready_enter (d : Driver) (b : Branch) (p : Phase) :
    (d.enter b p).1.ready = d.ready := by
  have ha := apart_enter d b p
  simp only [ready, isFed, ha.seen, ha.cancelled]

theorem stopping_enter (hs : d.stopping = none) : (d.enter b p).1.stopping = p.stopping? := by
  simp only [enter]
  split <;> simp_all [Phase.stopping?]

theorem enter_of_prompt (ho : o.Prompt) : d.enter b (.ended o) =
    ((({ d with phase := .ended o } : Driver).deliver o).1,
      .took b :: (if b = .left then [] else [.killed]) ++
        (({ d with phase := .ended o } : Driver).deliver o).2) := by
  cases o with
  | cancelled => exact absurd rfl ho.1
  | timedOut => exact absurd rfl ho.2
  | _ => rfl

theorem driver_deliver (hd : d.pair.driver = .driving) (hh : d.pair.held = true) :
    (d.deliver o).1.pair.driver = .delivered o := by
  simp [deliver, Pair.finish, hd, hh]

theorem held_deliver : (d.deliver o).1.pair.held = d.pair.held := by
  cases hd : d.pair.driver <;> simp [deliver, Pair.finish, hd]

theorem sound_begin (input : List UInt8) (limited : Bool) : (begin input limited).Sound where
  waits _ := rfl
  driving _ := rfl
  heard o ho := by cases ho

theorem sound_note (hs : d.Sound) : (d.note e).Sound where
  waits hp := by
    rw [stopping_note]
    exact hs.waits (by simpa using hp)
  driving hd := by
    rw [driver_note]
    exact hs.driving (by simpa using hd)
  heard o ho hh := by
    rw [driver_note]
    refine hs.heard o (by simpa using ho) ?_
    cases e <;> simp_all [note, Pair.cancel, Pair.drop]

theorem sound_deliver (hp : d.phase = .ended o) (hd : d.pair.driver = .driving) :
    (d.deliver o).1.Sound where
  waits _ := rfl
  driving hn := by
    have hsome : (d.deliver o).1.delivered? = some o := delivered?_eq_some.2 ⟨hp, rfl⟩
    rw [hsome] at hn
    cases hn
  heard o' ho hh := by
    have hp' : d.phase = .ended o' := (delivered?_eq_some.1 ho).1
    obtain rfl : o = o' := by simpa [hp] using hp'
    exact driver_deliver hd (held_deliver.symm.trans hh)

theorem sound_stopping {s : Stopping} (hp : d.phase = .ended o) (hd : d.pair.driver = .driving) :
    ({ d with stopping := some s } : Driver).Sound where
  waits hn := absurd hp (hn o)
  driving _ := hd
  heard o' ho := by simp [delivered?_of_stopping] at ho

def outcomes (fs : List DriverEffect) : List Outcome := fs.filterMap DriverEffect.outcome?

@[simp] theorem outcomes_append (fs gs : List DriverEffect) :
    outcomes (fs ++ gs) = outcomes fs ++ outcomes gs :=
  List.filterMap_append

@[simp] theorem outcomes_deliver (d : Driver) (o : Outcome) : outcomes (d.deliver o).2 = [o] := rfl

/-- How far a driver is from having delivered an end. -/
def rank (d : Driver) : Nat :=
  match d.phase, d.stopping with
  | .exchanging, _ => 4
  | .lingering _, _ => 3
  | .ended _, some .interrupted => 2
  | .ended _, some .killed => 1
  | .ended _, none => 0

/-- What becomes of a driver when it does something: it comes closer to the end of the run, and it
delivers what it has not delivered before. -/
structure Advances (d : Driver) (r : Driver × List DriverEffect) : Prop where
  acts : r.2 ≠ []
  sound : r.1.Sound
  delivered : d.delivered? = none ∧ outcomes r.2 = r.1.delivered?.toList
  rank : r.1.rank < d.rank

theorem outcomes_eq_delivered? (hp : d.phase = .ended o) :
    outcomes (d.deliver o).2 = (d.deliver o).1.delivered?.toList := by
  rw [delivered?_eq_some.2 ⟨(phase_deliver d o).trans hp, stopping_deliver d o⟩, outcomes_deliver,
    Option.toList_some]

theorem advances_deliver (hs : d.Sound) (hp : d.phase = .ended o) {s : Stopping}
    (hst : d.stopping = some s) : d.Advances (d.deliver o) where
  acts := List.cons_ne_nil _ _
  sound := sound_deliver hp (hs.driving (delivered?_of_stopping hst))
  delivered := ⟨delivered?_of_stopping hst, outcomes_eq_delivered? hp⟩
  rank := by cases s <;> simp [Driver.rank, hp, hst]

/-- A driver that goes on to a phase advances: to the end at once, or to one more wait. -/
theorem advances_enter (hs : d.Sound) (hq : d.phase = q) (h : q.Goes r' b p) :
    d.Advances (d.enter b p) := by
  have hn : ∀ o, d.phase ≠ .ended o := by
    rw [hq]
    exact h.not_ended
  have hnone := delivered?_of_not_ended hn
  have hdriving := hs.driving hnone
  have hstop := hs.waits hn
  have prompt (o : Outcome) (ho : o.Prompt) : d.Advances (d.enter b (.ended o)) := by
    have hrank : 0 < d.rank := by
      cases hp : d.phase with
      | ended o => exact absurd hp (hn o)
      | _ => simp [rank, hp]
    rw [enter_of_prompt ho]
    refine ⟨List.cons_ne_nil _ _, sound_deliver rfl hdriving, ⟨hnone, ?_⟩, hrank⟩
    rw [← outcomes_eq_delivered? rfl]
    cases b <;> rfl
  cases h with
  | cancelled =>
    refine ⟨List.cons_ne_nil _ _, sound_stopping rfl hdriving, ⟨hnone, rfl⟩, ?_⟩
    cases hp : d.phase with
    | ended o => exact absurd hp (hn o)
    | _ => simp [rank, hp, enter]
  | timedOut =>
    exact ⟨List.cons_ne_nil _ _, sound_stopping rfl hdriving, ⟨hnone, rfl⟩,
      by simp [rank, hq, enter]⟩
  | exchanged =>
    refine ⟨List.cons_ne_nil _ _, ⟨fun _ => hstop, fun _ => hdriving, fun o ho => ?_⟩,
      ⟨hnone, rfl⟩, ?_⟩
    · cases ho
    · simp [rank, hq, enter]
  | readFailed => exact prompt _ (Outcome.prompt_failed _)
  | left => exact prompt _ (prompt_outcomeOfExit _ _)
  | limitOver => exact prompt _ (Outcome.prompt_ofBytes _)
  | graceOver => exact prompt _ (Outcome.prompt_ofBytes _)

theorem advances_kill (hs : d.Sound) (hst : d.stopping = some .interrupted) :
    d.Advances ({ d with stopping := some .killed }, [.killed]) := by
  have hnone := delivered?_of_stopping hst
  obtain ⟨o, hp⟩ : ∃ o, d.phase = .ended o := by
    by_contra hn
    have hno := hs.waits fun o ho => hn ⟨o, ho⟩
    rw [hst] at hno
    cases hno
  refine ⟨List.cons_ne_nil _ _, sound_stopping hp (hs.driving hnone), ⟨hnone, ?_⟩,
    by simp [rank, hp, hst]⟩
  rw [delivered?_of_stopping rfl]
  rfl

/-- A driver does nothing at an event, or it advances. -/
theorem step_cases (hs : d.Sound) (e : DriverEvent) :
    (d.step e = (d.note e, [])) ∨ (d.note e).Advances (d.step e) := by
  have hn := sound_note (e := e) hs
  have hd := does_step d e
  generalize d.step e = r at hd ⊢
  cases hd with
  | nothing => exact Or.inl rfl
  | takes h => exact Or.inr (advances_enter hn rfl h)
  | kills hst => exact Or.inr (advances_kill hn hst)
  | reaps hst hp => exact Or.inr (advances_deliver hn hp hst)

@[simp] theorem rank_note (d : Driver) (e : DriverEvent) : (d.note e).rank = d.rank := by
  simp [rank]

theorem sound_step (hs : d.Sound) (e : DriverEvent) : (d.step e).1.Sound := by
  rcases step_cases hs e with he | ha
  · rw [he]
    exact sound_note hs
  · exact ha.sound

theorem delivered_step (hs : d.Sound) (e : DriverEvent) :
    (d.step e).1.delivered?.toList = d.delivered?.toList ++ outcomes (d.step e).2 := by
  rcases step_cases hs e with he | ha
  · simp [he, outcomes]
  · rw [ha.delivered.2, ← delivered?_note d e, ha.delivered.1]
    rfl

end Driver

section
variable {c : Course Driver.step} {input : List UInt8} {limited : Bool} {n m k : Nat} {o : Outcome}
  {b : Branch} {p q : Phase}

/-- The ends that a driver has delivered before a moment. -/
def deliveries (c : Course Driver.step) (n : Nat) : List Outcome := Driver.outcomes (c.log n)

/-- A driver takes a branch, and goes on to a phase. -/
structure Takes (c : Course Driver.step) (k : Nat) (b : Branch) (q : Phase) : Prop where
  goes : (c.state k).phase.Goes (c.state (k + 1)).ready b q
  phase : (c.state (k + 1)).phase = q
  took : ∀ a, .took a ∈ c.effects k ↔ a = b
  stopping : (c.state k).Sound → (c.state (k + 1)).stopping = q.stopping?

theorem mem_enter_took {d : Driver} {a : Branch} : .took a ∈ (d.enter b p).2 ↔ a = b := by
  simp only [Driver.enter, Driver.deliver]
  split <;> grind

/-- At a moment a driver takes a branch, or it stays in its phase and takes none. -/
theorem takes_cases (c : Course Driver.step) (n : Nat) : (∃ b q, Takes c n b q) ∨
    (c.state (n + 1)).phase = (c.state n).phase ∧ ∀ b, .took b ∉ c.effects n := by
  rcases c.succ_cases n with ⟨_, hs, hf⟩ | ⟨e, _, hs, hf⟩
  · exact Or.inr ⟨by rw [hs], by simp [hf]⟩
  · have hd := (c.state n).does_step e
    have hnote := (c.state n).phase_note e
    have hsound := Driver.sound_note (d := c.state n) (e := e)
    generalize (c.state n).step e = r at hd hs hf
    cases hd with
    | nothing => exact Or.inr ⟨by rw [hs, hnote], by simp [hf]⟩
    | @takes b p h =>
      refine Or.inl ⟨b, p, ?_, by rw [hs, Driver.phase_enter], fun _ => hf ▸ mem_enter_took,
        fun hsd => ?_⟩
      · rw [hs, Driver.ready_enter]
        exact hnote ▸ h
      · rw [hs]
        exact Driver.stopping_enter ((hsound hsd).waits h.not_ended)
    | kills => exact Or.inr ⟨by rw [hs, ← hnote], by simp [hf]⟩
    | reaps => exact Or.inr ⟨by rw [hs, ← hnote]; rfl, by simp [hf, Driver.deliver]⟩

theorem takes_of_took (h : .took b ∈ c.effects k) : ∃ q, Takes c k b q := by
  rcases takes_cases c k with ⟨a, q, ht⟩ | ⟨_, hno⟩
  · obtain rfl := (ht.took b).1 h
    exact ⟨q, ht⟩
  · exact absurd h (hno b)

theorem phase_succ (h : ∀ b q, ¬ Takes c n b q) :
    (c.state (n + 1)).phase = (c.state n).phase := by
  rcases takes_cases c n with ⟨b, q, ht⟩ | ⟨hp, _⟩
  · exact absurd ht (h b q)
  · exact hp

/-- A run that has ended stays as it is. -/
theorem ended_mono (hmn : m ≤ n) (h : (c.state m).phase = .ended o) :
    (c.state n).phase = .ended o := by
  induction n, hmn using Nat.le_induction with
  | base => exact h
  | succ n hmn ih => exact (phase_succ fun _ _ ht => ht.goes.not_ended o ih).trans ih

theorem not_takes_of_ended (hmn : m ≤ n) (h : (c.state m).phase = .ended o) : ¬ Takes c n b q :=
  fun ht => ht.goes.not_ended o (ended_mono hmn h)

/-- The exchange does not begin again. -/
theorem exchanging_of_le (hmn : m ≤ n) (h : (c.state n).phase = .exchanging) :
    (c.state m).phase = .exchanging := by
  induction n, hmn using Nat.le_induction with
  | base => exact h
  | succ n hmn ih =>
    apply ih
    rcases takes_cases c n with ⟨b, q, ht⟩ | ⟨hp, _⟩
    · exact absurd (ht.phase.symm.trans h) ht.goes.ne_exchanging
    · exact hp.symm.trans h

theorem Takes.not_exchanging (ht : Takes c k b q) (hkn : k < n) :
    (c.state n).phase ≠ .exchanging := by
  intro hn
  exact ht.goes.ne_exchanging (ht.phase.symm.trans (exchanging_of_le hkn hn))

/-- A driver that is in a phase has gone on to it. -/
theorem takes_of_phase (h0 : c.start.phase = .exchanging) (hq : (c.state n).phase = q)
    (hne : q ≠ .exchanging) : ∃ k < n, ∃ b, Takes c k b q := by
  induction n with
  | zero => exact absurd (hq.symm.trans h0) hne
  | succ n ih =>
    rcases takes_cases c n with ⟨b, q', ht⟩ | ⟨hp, _⟩
    · obtain rfl := ht.phase.symm.trans hq
      exact ⟨n, Nat.lt_succ_self n, b, ht⟩
    · obtain ⟨k, hk, ht⟩ := ih (hp.symm.trans hq)
      exact ⟨k, Nat.lt_succ_of_lt hk, ht⟩

section
variable (hc : c.start = .begin input limited)
include hc

theorem open_state (n : Nat) : (c.state n).Open :=
  c.keeps (fun _ e ho => Driver.open_step ho e) (Nat.zero_le n)
    (by rw [Course.state_zero, hc]; exact Driver.open_begin input limited)

theorem sound_state (n : Nat) : (c.state n).Sound :=
  c.keeps (fun _ e hs => Driver.sound_step hs e) (Nat.zero_le n)
    (by rw [Course.state_zero, hc]; exact Driver.sound_begin input limited)

/-- A driver has delivered one end at most: that which it holds to be the end of the run. -/
theorem deliveries_eq (n : Nat) : deliveries c n = (c.state n).delivered?.toList := by
  induction n with
  | zero => simp [deliveries, Driver.outcomes, hc, Driver.begin, Driver.delivered?]
  | succ n ih =>
    rw [deliveries, Course.log_succ, Driver.outcomes_append, ← deliveries, ih]
    rcases c.succ_cases n with ⟨_, hs, hf⟩ | ⟨e, _, hs, hf⟩
    · simp [hs, hf, Driver.outcomes]
    · rw [hs, hf, Driver.delivered_step (sound_state hc n)]

theorem deliveries_eq_singleton : deliveries c n = [o] ↔
    (c.state n).phase = .ended o ∧ (c.state n).stopping = none := by
  rw [deliveries_eq hc, ← Driver.delivered?_eq_some]
  cases (c.state n).delivered? <;> simp

/-- An end that needs no more is delivered at once. -/
theorem deliveries_of_takes (ht : Takes c k b (.ended o)) (ho : o.Prompt) :
    deliveries c (k + 1) = [o] := by
  rw [deliveries_eq_singleton hc]
  exact ⟨ht.phase, (ht.stopping (sound_state hc k)).trans (Phase.stopping?_of_prompt ho)⟩

/-- What was delivered stays. -/
theorem deliveries_mono (hmn : m ≤ n) (h : deliveries c m = [o]) : deliveries c n = [o] := by
  induction n, hmn using Nat.le_induction with
  | base => exact h
  | succ n hmn ih =>
    rw [deliveries_eq hc] at ih ⊢
    rcases c.succ_cases n with ⟨_, hs, _⟩ | ⟨e, _, hs, _⟩
    · rwa [hs]
    · have hd := Driver.delivered_step (sound_state hc n) e
      rw [← hs, ih] at hd
      cases hv : (c.state (n + 1)).delivered? with
      | none => simp [hv] at hd
      | some o' => simp_all

theorem takes_of_deliveries (h : deliveries c n = [o]) : ∃ k < n, ∃ b, Takes c k b (.ended o) :=
  takes_of_phase (by rw [hc]; rfl) ((deliveries_eq_singleton hc).1 h).1 (by simp)

end

end

end AnalyzerBridge.Run
