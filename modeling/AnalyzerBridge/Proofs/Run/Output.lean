import AnalyzerBridge.Proofs.Run.Outcomes

/-! What the end of the output decides. A driver that is done with the input, too, ends the run by
the output that it has collected. As long as the input is not taken it waits for that, and the time
limit ends the run without its output. -/
namespace AnalyzerBridge.Run

/-- The run ends by its output: it lingers with it, it has delivered it, or it has failed since the
analyzer died by a signal or could not be waited for. -/
inductive Decided (c : Course Driver.step) (output : List UInt8) (n : Nat) : Prop where
  | lingers (hp : (c.state n).phase = .lingering output)
  | delivered (hd : deliveries c n = [.ofBytes output])
  | failed {k j : Nat} {x : Except String Exit} (hk : k < n) (hl : .took .left ∈ c.effects k)
      (hx : Leaves c j x) (hn : ∀ code, x ≠ .ok (.code code))
      (hd : deliveries c n = [outcomeOfExit output x])

/-- The time limit is taken only when the input is done with. -/
def LimitAfterInput (c : Course Driver.step) (input : List UInt8) (e n : Nat) : Prop :=
  ∀ k, e < k → k < n → .took .limitOver ∈ c.effects k → InputDone c input k

variable {c : Course Driver.step} {input : List UInt8} {limited : Bool} {n m k e : Nat}
  {o : Outcome} {b : Branch} {q : Phase} {output : List UInt8}

theorem event_of_outputEnds (he : OutputEnds c e (.ok ())) : c.event e = some .outputEnded := by
  obtain ⟨f, hf, hx⟩ := Option.bind_eq_some_iff.1 he.1
  cases f <;> simp_all [DriverEvent.outputEnd?]

/-- When the output ends, a driver takes nothing but the end of the exchange. -/
theorem exchanged_of_outputEnded (he : c.event k = some .outputEnded) (ht : Takes c k b q) :
    b = .exchanged := by
  have hb := (ht.took b).2 rfl
  rw [Course.effects_eq he, Driver.step, Driver.act, Driver.take] at hb
  split at hb
  · cases hb
  · exact mem_enter_took.1 hb

section
variable (hc : c.start = .begin input limited)
include hc

theorem not_inputDone_of_exchanging (he : OutputEnds c e (.ok ())) (hen : e < n)
    (hp : (c.state n).phase = .exchanging) : ¬ InputDone c input n := by
  intro hin
  have ho := open_state hc n hp ((isFed_iff hc n).2 hin)
  rw [outputEnd_of_ends hc he hen] at ho
  cases ho

theorem not_timedOut_of_decided (h : Decided c output n) : deliveries c n ≠ [.timedOut] := by
  intro ho
  cases h with
  | lingers hp => exact absurd (hp.symm.trans ((deliveries_eq_singleton hc).1 ho).1) (by simp)
  | delivered hd =>
    exact (Outcome.prompt_ofBytes output).2 (List.head_eq_of_cons_eq (hd.symm.trans ho))
  | failed _ _ _ _ hd =>
    exact (prompt_outcomeOfExit output _).2 (List.head_eq_of_cons_eq (hd.symm.trans ho))

theorem decided_of_ended (he : OutputEnds c e (.ok ())) (hx : (c.state e).phase = .exchanging)
    (hno : ¬ StopAsked c n) (hlimit : LimitAfterInput c input e n)
    (hp : (c.state n).phase = .ended o) : InputDone c input n ∧ Decided c (produced c e) n := by
  obtain ⟨k, hk, b, ht⟩ := takes_of_phase (by rw [hc]; rfl) hp (by simp)
  cases endsBy_of_takes hc ht with
  | cancelled ha => exact absurd (Course.happened_mono hk ha) hno
  | timedOut hpk =>
    -- the limit was taken after the output had ended, while the driver waited for its input
    have hek : e < k := by
      rcases Nat.lt_trichotomy k e with hlt | rfl | hlt
      · exact absurd hx (ht.not_exchanging hlt)
      · cases exchanged_of_outputEnded (event_of_outputEnds he) ht
      · exact hlt
    exact absurd (hlimit k hek hk ((ht.took _).2 rfl)) (not_inputDone_of_exchanging hc he hek hpk)
  | readFailed _ _ ho =>
    obtain ⟨_, hend⟩ := Course.first_unique he ho
    cases hend
  | @left e' i j x hi hik _ hj =>
    obtain rfl := (Course.first_unique hi.ends he).1
    refine ⟨inputDone_mono (by omega) hi.fed, ?_⟩
    have hd := deliveries_mono hc hk (deliveries_of_takes hc ht (prompt_outcomeOfExit _ _))
    by_cases hcode : ∃ code, x = .ok (.code code)
    · obtain ⟨code, rfl⟩ := hcode
      exact .delivered hd
    · exact .failed hk ((ht.took _).2 rfl) hj (fun code hx => hcode ⟨code, hx⟩) hd
  | late hi hik =>
    obtain rfl := (Course.first_unique hi.ends he).1
    refine ⟨inputDone_mono (by omega) hi.fed, .delivered ?_⟩
    exact deliveries_mono hc hk (deliveries_of_takes hc ht (Outcome.prompt_ofBytes _))

/-- The time limit is taken only if it has passed. -/
theorem limitPassed_of_took (hk : .took .limitOver ∈ c.effects k) :
    limited = true ∧ c.Happened (k + 1) (· = .limitPassed) := by
  obtain ⟨q, ht⟩ := takes_of_took hk
  have hg := ht.goes
  generalize (c.state k).phase = p at hg
  cases hg with
  | timedOut hr => exact (limitOver_iff hc _).1 hr
  | limitOver hr => exact (limitOver_iff hc _).1 hr

/-- After the end of the output, a run waits for its input to be taken, or it is decided. -/
theorem decided_or_waiting (he : OutputEnds c e (.ok ())) (hx : (c.state e).phase = .exchanging)
    (hen : e < n) (hno : ¬ StopAsked c n) (hlimit : LimitAfterInput c input e n) :
    (c.state n).phase = .exchanging ∧ ¬ InputDone c input n ∨
      InputDone c input n ∧ Decided c (produced c e) n := by
  cases hp : (c.state n).phase with
  | exchanging => exact Or.inl ⟨rfl, not_inputDone_of_exchanging hc he hen hp⟩
  | lingering output =>
    obtain ⟨e', k, hk, hex, rfl⟩ := exchanged_of_lingering hc hp
    obtain rfl := (Course.first_unique hex.ends he).1
    exact Or.inr ⟨inputDone_mono hk hex.fed, .lingers hp⟩
  | ended o => exact Or.inr (decided_of_ended hc he hx hno hlimit hp)

/-- A time limit that is taken before the input is done with ends the run without its output. -/
theorem timedOut_of_waiting (hk : .took .limitOver ∈ c.effects k) (hin : ¬ InputDone c input k) :
    (c.state (k + 1)).phase = .ended .timedOut := by
  obtain ⟨q, ht⟩ := takes_of_took hk
  have hg := ht.goes
  generalize hp : (c.state k).phase = p at hg
  cases hg with
  | timedOut => exact ht.phase
  | limitOver =>
    obtain ⟨_, i, hik, hi, _⟩ := exchanged_of_lingering hc hp
    exact absurd (inputDone_mono hik hi.fed) hin

/-- A driver does not wait any more once the time for leaving or the time limit has passed. -/
theorem canGoOn_of_lingering (hp : (c.state n).phase = .lingering output)
    (h : (∃ k < n, c.event k = some .gracePassed ∧ (c.state k).isLingering = true) ∨
      limited = true ∧ c.Happened n (· = .limitPassed)) : (c.state n).CanGoOn := by
  rcases h with ⟨k, hk, he, hl⟩ | h
  · exact Driver.canGoOn_of_goes hp (.graceOver (graceOver_of_passed he hl hk))
  · exact Driver.canGoOn_of_goes hp (.limitOver ((limitOver_iff hc n).2 h))

/-- Whatever a driver does next while its analyzer lingers ends the run by its output. -/
theorem delivers_of_lingering (hp : (c.state n).phase = .lingering output)
    (hno : ¬ StopAsked c (n + 1)) (hf : c.effects n ≠ []) : ∃ o, deliveries c (n + 1) = [o] := by
  rcases takes_cases c n with ⟨b, q, ht⟩ | ⟨hsame, _⟩
  · have hg := ht.goes
    rw [hp] at hg
    cases hg with
    | cancelled _ hr => exact absurd ((isCancelled_iff hc _).1 hr) hno
    | left => exact ⟨_, deliveries_of_takes hc ht (prompt_outcomeOfExit _ _)⟩
    | limitOver => exact ⟨_, deliveries_of_takes hc ht (Outcome.prompt_ofBytes _)⟩
    | graceOver => exact ⟨_, deliveries_of_takes hc ht (Outcome.prompt_ofBytes _)⟩
  · -- a driver that stays in its phase while the analyzer lingers has done nothing
    rcases rank_succ hc n with ⟨hnil, _⟩ | ⟨_, hlt⟩
    · exact absurd hnil hf
    · simp [Driver.rank, hsame, hp] at hlt

end

/-- The end of the output decides a run that is done with its input. Unless the run is asked to
stop, or the time limit is taken while input is left, it ends by the output that was collected, and
it does so at the latest when the time for leaving or the time limit has passed. While input is
left, it waits, and a time limit that is taken then ends it without its output. -/
theorem decided_by_output (c : Course Driver.step) (input : List UInt8) (limited : Bool) (e : Nat)
    (hc : c.start = .begin input limited) (he : OutputEnds c e (.ok ()))
    (hx : (c.state e).phase = .exchanging) :
    (∀ n, e < n → ¬ StopAsked c n → LimitAfterInput c input e n →
      (InputDone c input n → Decided c (produced c e) n) ∧
      (¬ InputDone c input n → (c.state n).phase = .exchanging) ∧
      deliveries c n ≠ [.timedOut]) ∧
    (∀ k, .took .limitOver ∈ c.effects k → ¬ InputDone c input k →
      (c.state (k + 1)).phase = .ended .timedOut) ∧
    (∀ n, (c.state n).phase = .lingering (produced c e) →
      ((∃ k < n, c.event k = some .gracePassed ∧ (c.state k).isLingering = true) ∨
        limited = true ∧ c.Happened n (· = .limitPassed) → (c.state n).CanGoOn) ∧
      (¬ StopAsked c (n + 1) → c.effects n ≠ [] → ∃ o, deliveries c (n + 1) = [o])) ∧
    (Fair c → (∃ m, InputDone c input m) → (∀ n, ¬ StopAsked c n) →
      (∀ n, LimitAfterInput c input e n) → ∃ n o, e < n ∧ deliveries c n = [o] ∧
        Decided c (produced c e) n) := by
  refine ⟨?_, fun k => timedOut_of_waiting hc, ?_, ?_⟩
  · intro n hen hno hlimit
    rcases decided_or_waiting hc he hx hen hno hlimit with ⟨hp, hin⟩ | ⟨hin, hd⟩
    · refine ⟨fun h => absurd h hin, fun _ => hp, fun ho => ?_⟩
      exact absurd (hp.symm.trans ((deliveries_eq_singleton hc).1 ho).1) (by simp)
    · exact ⟨fun _ => hd, fun h => absurd hin h, not_timedOut_of_decided hc hd⟩
  · intro n hp
    exact ⟨canGoOn_of_lingering hc hp, delivers_of_lingering hc hp⟩
  · rintro hf ⟨m, hin⟩ hno hlimit
    have hdue : Due c (max m (e + 1)) :=
      due_of_exchanged hc (inputDone_mono (Nat.le_max_left m (e + 1)) hin)
        (Nat.le_max_right m (e + 1)) he
    obtain ⟨n, o, hn, ho⟩ := delivers_of_due hc hf hdue
    have hen : e < n := (Nat.le_max_right m (e + 1)).trans hn
    refine ⟨n, o, hen, ho, ?_⟩
    rcases decided_or_waiting hc he hx hen (hno n) (hlimit n) with ⟨hp, _⟩ | ⟨_, hd⟩
    · exact absurd (hp.symm.trans ((deliveries_eq_singleton hc).1 ho).1) (by simp)
    · exact hd

/-- An analyzer writes its output and closes it, takes the last of its input only after that, and
stays until it is killed. -/
def fedLate : Course Driver.step :=
  .ofList (.begin [120, 120] true) [.fed 1, .read [123, 125, 10], .outputEnded, .fed 1,
    .gracePassed, .looked .graceOver, .left (.ok (.signal 9 false))]

theorem decided_by_output_fedLate : OutputEnds fedLate 2 (.ok ()) ∧
    (fedLate.state 2).phase = .exchanging ∧ ¬ InputDone fedLate [120, 120] 3 ∧ Fair fedLate ∧
    InputDone fedLate [120, 120] 4 ∧ ∃ n o, 2 < n ∧ deliveries fedLate n = [o] ∧
      Decided fedLate (produced fedLate 2) n := by
  have hc : fedLate.start = .begin [120, 120] true := rfl
  have he : OutputEnds fedLate 2 (.ok ()) := ⟨rfl, by decide⟩
  have hx : (fedLate.state 2).phase = .exchanging := by decide
  have hd : deliveries fedLate 6 = [.completed "\x7b\x7d\n"] := by decide +kernel
  have hf : Fair fedLate :=
    fair_of_deliveries hc hd (show fedLate.event 6 = some (.left (.ok (.signal 9 false))) from rfl)
  have hin : InputDone fedLate [120, 120] 4 := (isFed_iff hc 4).1 (by decide)
  have hopen : ¬ InputDone fedLate [120, 120] 3 := mt (isFed_iff hc 3).2 (by decide)
  refine ⟨he, hx, hopen, hf, hin, ?_⟩
  obtain ⟨_, _, _, hends⟩ := decided_by_output fedLate [120, 120] true 2 hc he hx
  refine hends hf ⟨4, hin⟩ ?_ ?_
  · exact Course.not_happened_ofList (by simp [DriverEvent.Stops])
  · intro n k _ _ hk
    refine absurd (limitPassed_of_took hc hk).2 ?_
    exact Course.not_happened_ofList (by simp) (k + 1)

theorem Driver.fed_begin (input : List UInt8) (limited : Bool) (count : Nat) :
    ((begin input limited).step (.fed count)).1 = begin (input.drop count) limited := by
  cases hw : (begin (input.drop count) limited).isFed <;>
    simp_all [step, act, take, note, begin, ready, Phase.take, isFed]

/-- An analyzer takes as much of a large input as the pipe holds, writes its output and closes it,
and then stays without reading on. -/
def blocked : Course Driver.step :=
  .ofList (.begin (.replicate 100000 120) true) [.fed 65536, .read [123, 125, 10], .outputEnded,
    .limitPassed, .looked .limitOver, .left (.ok (.signal 9 false)), .reaped]

theorem blocked_state (n : Nat) : blocked.state (n + 1) =
    (Course.ofList (.begin (.replicate 34464 120) true) [.read [123, 125, 10], .outputEnded,
      .limitPassed, .looked .limitOver, .left (.ok (.signal 9 false)), .reaped] :
        Course Driver.step).state n := by
  rw [blocked, Course.state_ofList_cons, Driver.fed_begin, List.drop_replicate]

theorem blocked_timesOut : OutputEnds blocked 2 (.ok ()) ∧
    (blocked.state 2).phase = .exchanging ∧ (∀ n, ¬ StopAsked blocked n) ∧
    Outcome.ofBytes (produced blocked 2) = .completed "\x7b\x7d\n" ∧
    deliveries blocked 7 = [.timedOut] := by
  refine ⟨⟨rfl, by decide⟩, ?_, ?_, by decide +kernel, ?_⟩
  · rw [blocked_state]
    rfl
  · exact Course.not_happened_ofList (by simp [DriverEvent.Stops])
  · rw [deliveries_eq (show blocked.start = .begin (.replicate 100000 120) true from rfl),
      blocked_state]
    rfl

end AnalyzerBridge.Run
