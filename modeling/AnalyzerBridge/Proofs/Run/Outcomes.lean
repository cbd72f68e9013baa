import AnalyzerBridge.Proofs.Run.Fairness

/-! Which end a driver delivers, told by the branches that it has taken and by what had happened
then. -/
namespace AnalyzerBridge.Run

/-- The exchange was over at `k`, with the complete output that ended at `e`. -/
structure Exchanged (c : Course Driver.step) (input : List UInt8) (e k : Nat) : Prop where
  le : e ≤ k
  ends : OutputEnds c e (.ok ())
  fed : InputDone c input (k + 1)
  takes : Takes c k .exchanged (.lingering (produced c e))

inductive EndsBy (c : Course Driver.step) (input : List UInt8) (limited : Bool) (k : Nat) :
    Branch → Outcome → Prop where
  | cancelled (ha : StopAsked c (k + 1)) : EndsBy c input limited k .cancelled .cancelled
  | timedOut (hp : (c.state k).phase = .exchanging) (hl : limited = true)
      (ha : c.Happened (k + 1) (· = .limitPassed)) : EndsBy c input limited k .limitOver .timedOut
  | readFailed {e : Nat} {reason : String} (hp : (c.state k).phase = .exchanging) (he : e ≤ k)
      (ho : OutputEnds c e (.error reason)) :
      EndsBy c input limited k .exchanged (.failed ("reading analyzer output: " ++ reason))
  | left {e i j : Nat} {x : Except String Exit} (hi : Exchanged c input e i) (hik : i < k)
      (hj : j ≤ k) (hx : Leaves c j x) :
      EndsBy c input limited k .left (outcomeOfExit (produced c e) x)
  | late {b : Branch} {e i : Nat} (hi : Exchanged c input e i) (hik : i < k)
      (hb : b = .limitOver ∨ b = .graceOver) :
      EndsBy c input limited k b (.ofBytes (produced c e))

variable {c : Course Driver.step} {input : List UInt8} {limited : Bool} {n m k e : Nat}
  {o o' : Outcome} {b : Branch} {q : Phase} {output : List UInt8}

theorem ended_unique (h : (c.state m).phase = .ended o) (h' : (c.state n).phase = .ended o') :
    o = o' := by
  rcases Nat.le_total m n with hmn | hnm
  · exact Phase.ended.inj ((ended_mono hmn h).symm.trans h')
  · exact Phase.ended.inj (h.symm.trans (ended_mono hnm h'))

theorem Takes.exchanging {b : Branch} (ht : Takes c k b (.lingering output)) :
    b = .exchanged ∧ (c.state k).phase = .exchanging := by
  have hg := ht.goes
  generalize (c.state k).phase = p at hg ⊢
  cases hg
  exact ⟨rfl, rfl⟩

section
variable (hc : c.start = .begin input limited)
include hc

theorem output_ready {ending : Except String (List UInt8)}
    (h : (c.state n).ready.output = some ending) : ∃ e < n,
      OutputEnds c e (ending.map fun _ => ()) ∧ ending = ending.map fun _ => produced c e := by
  obtain ⟨x, hx, rfl⟩ := Option.map_eq_some_iff.1 h
  obtain ⟨e, hen, he⟩ := ends_of_outputEnd hc hx
  refine ⟨e, hen, ?_, ?_⟩
  · cases x <;> exact he
  · cases x with
    | error reason => rfl
    | ok u => exact congrArg Except.ok (collected_of_ends hc he hen)

/-- An analyzer that lingers has ended its output, and is done with its input. -/
theorem exchanged_of_lingering (h : (c.state n).phase = .lingering output) :
    ∃ e k, k < n ∧ Exchanged c input e k ∧ output = produced c e := by
  obtain ⟨k, hk, b, ht⟩ := takes_of_phase (by rw [hc]; rfl) h (by simp)
  obtain ⟨rfl, hp⟩ := ht.exchanging
  have hg := ht.goes
  rw [hp] at hg
  cases hg with
  | exchanged hw ho =>
    obtain ⟨e, hek, he, hout⟩ := output_ready hc ho
    obtain rfl : output = produced c e := Except.ok.inj hout
    exact ⟨e, k, hk, ⟨Nat.le_of_lt_succ hek, he, (isFed_iff hc _).1 hw, ht⟩, rfl⟩

theorem endsBy_of_takes (ht : Takes c k b (.ended o)) : EndsBy c input limited k b o := by
  have hg := ht.goes
  generalize hp : (c.state k).phase = p at hg
  cases hg with
  | cancelled _ hr => exact .cancelled ((isCancelled_iff hc _).1 hr)
  | timedOut hr =>
    obtain ⟨hl, ha⟩ := (limitOver_iff hc _).1 hr
    exact .timedOut hp hl ha
  | readFailed _ ho =>
    obtain ⟨e, hek, he, _⟩ := output_ready hc ho
    exact .readFailed hp (Nat.le_of_lt_succ hek) he
  | left hx =>
    obtain ⟨e, i, hik, hi, rfl⟩ := exchanged_of_lingering hc hp
    obtain ⟨j, hjk, hj⟩ := leaves_of_exit hc hx
    exact .left hi hik (Nat.le_of_lt_succ hjk) hj
  | limitOver =>
    obtain ⟨e, i, hik, hi, rfl⟩ := exchanged_of_lingering hc hp
    exact .late hi hik (Or.inl rfl)
  | graceOver =>
    obtain ⟨e, i, hik, hi, rfl⟩ := exchanged_of_lingering hc hp
    exact .late hi hik (Or.inr rfl)

/-- What is delivered is the end by the branch that was taken last. -/
theorem endsBy_of_deliveries (h : deliveries c n = [o]) :
    ∃ k < n, ∃ b, Takes c k b (.ended o) ∧ EndsBy c input limited k b o := by
  obtain ⟨k, hk, b, ht⟩ := takes_of_deliveries hc h
  exact ⟨k, hk, b, ht, endsBy_of_takes hc ht⟩

end

/-- A run that is cancelled ends so. -/
theorem not_cancelled_of_ended (hp : (c.state n).phase = .ended o) (ho : o ≠ .cancelled) (m : Nat) :
    .took .cancelled ∉ c.effects m := by
  intro hm
  obtain ⟨q, hq⟩ := takes_of_took hm
  have hg := hq.goes
  generalize (c.state m).phase = p at hg
  cases hg
  exact ho (ended_unique hp hq.phase)

/-- A time limit that does not end a run is taken after its exchange. -/
theorem exchanged_before_limitOver (hk : Exchanged c input e k) (hp : (c.state n).phase = .ended o)
    (ho : o ≠ .timedOut) (hm : .took .limitOver ∈ c.effects m) : k < m := by
  obtain ⟨q, hq⟩ := takes_of_took hm
  have hg := hq.goes
  generalize hpm : (c.state m).phase = p at hg
  cases hg with
  | timedOut => exact absurd (ended_unique hp hq.phase) ho
  | limitOver =>
    by_contra hlt
    have hx := exchanging_of_le (Nat.le_of_not_lt hlt) hk.takes.exchanging.2
    rw [hpm] at hx
    cases hx

/-- Only an exchange gives output, or the lack of it. -/
theorem exchanged_of_endsBy (h : EndsBy c input limited k b o)
    (ho : o = .empty ∨ ∃ s, o = .completed s) :
    ∃ e i, i < k ∧ Exchanged c input e i ∧ o = .ofBytes (produced c e) := by
  cases h with
  | cancelled => simp at ho
  | timedOut => simp at ho
  | readFailed => simp at ho
  | late hi hik _ => exact ⟨_, _, hik, hi, rfl⟩
  | @left e i j x hi hik =>
    refine ⟨e, i, hik, hi, ?_⟩
    cases x with
    | error reason => simp [outcomeOfExit] at ho
    | ok exit =>
      cases exit with
      | code n => rfl
      | signal n dumped => simp [outcomeOfExit] at ho

/-- A run fails at `k`: its output could not be read, its analyzer was seen to die by a signal, or
its analyzer could not be waited for. -/
inductive Fails (c : Course Driver.step) (k : Nat) : String → Prop where
  | reading {e : Nat} {reason : String} (hk : .took .exchanged ∈ c.effects k) (he : e ≤ k)
      (ho : OutputEnds c e (.error reason)) : Fails c k ("reading analyzer output: " ++ reason)
  | signal {j s : Nat} {dumped : Bool} (hk : .took .left ∈ c.effects k) (hj : j ≤ k)
      (hx : Leaves c j (.ok (.signal s dumped))) :
      Fails c k ("analyzer terminated abnormally (" ++ describeSignal s dumped ++ ")")
  | waiting {j : Nat} {reason : String} (hk : .took .left ∈ c.effects k) (hj : j ≤ k)
      (hx : Leaves c j (.error reason)) : Fails c k ("waiting for analyzer: " ++ reason)

theorem fails_of_endsBy {reason : String} (ht : Takes c k b q)
    (h : EndsBy c input limited k b (.failed reason)) : Fails c k reason := by
  generalize ho : Outcome.failed reason = o at h
  cases h with
  | cancelled => cases ho
  | timedOut => cases ho
  | readFailed hp he hend =>
    cases ho
    exact .reading ((ht.took _).2 rfl) he hend
  | @left e i j x hi hik hj hx =>
    have hk : .took .left ∈ c.effects k := (ht.took _).2 rfl
    cases x with
    | error r =>
      cases ho
      exact .waiting hk hj hx
    | ok exit =>
      cases exit with
      | code n => exact absurd ho (Outcome.ofBytes_ne_failed _ _).symm
      | signal s dumped =>
        cases ho
        exact .signal hk hj hx
  | late => exact absurd ho (Outcome.ofBytes_ne_failed _ _).symm

section
variable (hc : c.start = .begin input limited)
include hc

/-- An analyzer that is seen to leave ends its run at once. -/
theorem deliveries_of_left {j : Nat} {x : Except String Exit} (hk : .took .left ∈ c.effects k)
    (hx : Leaves c j x) : ∃ e i, i < k ∧ Exchanged c input e i ∧
      deliveries c (k + 1) = [outcomeOfExit (produced c e) x] := by
  obtain ⟨q, ht⟩ := takes_of_took hk
  have hg := ht.goes
  generalize hp : (c.state k).phase = p at hg
  cases hg with
  | left hready =>
    obtain ⟨e, i, hik, hi, rfl⟩ := exchanged_of_lingering hc hp
    obtain ⟨j', _, hj'⟩ := leaves_of_exit hc hready
    obtain ⟨rfl, rfl⟩ := Course.first_unique hx hj'
    exact ⟨e, i, hik, hi, deliveries_of_takes hc ht (prompt_outcomeOfExit _ _)⟩

theorem deliveries_of_fails {reason : String} (h : Fails c k reason) :
    deliveries c (k + 1) = [.failed reason] := by
  cases h with
  | @reading e r hk he ho =>
    obtain ⟨q, ht⟩ := takes_of_took hk
    have hend := outputEnd_of_ends hc ho (Nat.lt_succ_of_le he)
    have hg := ht.goes
    generalize hp : (c.state k).phase = p at hg
    cases hg with
    | exchanged _ hout => simp [Driver.ready, hend] at hout; cases hout
    | readFailed _ hout =>
      have hr := deliveries_of_takes hc ht (Outcome.prompt_failed _)
      simp [Driver.ready, hend] at hout
      cases hout
      exact hr
  | signal hk _ hx =>
    obtain ⟨e, i, _, _, hd⟩ := deliveries_of_left hc hk hx
    exact hd
  | waiting hk _ hx =>
    obtain ⟨e, i, _, _, hd⟩ := deliveries_of_left hc hk hx
    exact hd

/-- A run is due at the latest when both pipes are done with. -/
theorem due_of_exchanged {ending : Except String Unit} (hin : InputDone c input n) (hen : e < n)
    (he : OutputEnds c e ending) : Due c n := by
  refine Or.inl fun hp => ?_
  exact absurd (outputEnd_of_ends hc he hen)
    (by simp [open_state hc n hp ((isFed_iff hc n).2 hin)])

theorem due_of_stopAsked (h : StopAsked c n) : Due c n :=
  Or.inr (Or.inl ((isCancelled_iff hc n).2 h))

theorem due_of_limitPassed (hl : limited = true) (h : c.Happened n (· = .limitPassed)) : Due c n :=
  Or.inr (Or.inr ((limitOver_iff hc n).2 ⟨hl, h⟩))

/-- What is delivered goes to a holder that is still there. -/
theorem awaited_of_deliveries (h : deliveries c n = [o]) (hh : (c.state n).pair.held = true) :
    (c.state n).pair.awaited? = some o := by
  rw [deliveries_eq hc] at h
  have hd : (c.state n).delivered? = some o := by
    cases hv : (c.state n).delivered? <;> simp_all
  rw [Pair.awaited?, (sound_state hc n).heard o hd hh]

/-- An end with output, or with none, comes from an exchange that was over before anything else was
taken. -/
theorem exchanged_of_deliveries (h : deliveries c n = [o])
    (ho : o = .empty ∨ ∃ s, o = .completed s) : ∃ e k, k < n ∧ Exchanged c input e k ∧
      o = .ofBytes (produced c e) ∧ (∀ m, .took .cancelled ∉ c.effects m) ∧
      ∀ m, .took .limitOver ∈ c.effects m → k < m := by
  obtain ⟨i, hi, b, ht, hend⟩ := endsBy_of_deliveries hc h
  have hp := ((deliveries_eq_singleton hc).1 h).1
  obtain ⟨e, k, hki, hk, hout⟩ := exchanged_of_endsBy hend ho
  refine ⟨e, k, by omega, hk, hout, fun m hm => ?_, fun m => ?_⟩
  · exact not_cancelled_of_ended hp (by rintro rfl; simp at ho) m hm
  · exact exchanged_before_limitOver hk hp (by rintro rfl; simp at ho)

end

theorem timedOut_of_endsBy (h : EndsBy c input limited k b .timedOut) :
    b = .limitOver ∧ (c.state k).phase = .exchanging ∧ limited = true := by
  generalize ho : Outcome.timedOut = o at h
  cases h with
  | timedOut hp hl => exact ⟨rfl, hp, hl⟩
  | left => exact absurd ho.symm (prompt_outcomeOfExit _ _).2
  | late => exact absurd ho.symm (Outcome.prompt_ofBytes _).2
  | _ => cases ho

theorem stopAsked_of_endsBy (h : EndsBy c input limited k b .cancelled) : StopAsked c (k + 1) := by
  generalize ho : Outcome.cancelled = o at h
  cases h with
  | cancelled ha => exact ha
  | left => exact absurd ho.symm (prompt_outcomeOfExit _ _).1
  | late => exact absurd ho.symm (Outcome.prompt_ofBytes _).1
  | _ => cases ho

/-- A run whose time is over while the exchange lasts never ends its exchange. -/
theorem not_exchanged_of_timedOut (ht : Takes c k .limitOver (.ended o))
    (hp : (c.state k).phase = .exchanging) (m : Nat) : .took .exchanged ∉ c.effects m := by
  intro hm
  obtain ⟨q, hq⟩ := takes_of_took hm
  rcases Nat.lt_trichotomy m k with hmk | rfl | hkm
  · exact hq.not_exchanging hmk hp
  · cases (ht.took _).1 hm
  · exact not_takes_of_ended hkm ht.phase hq

/-- The law of outcomes. A driver delivers at most one end, and one as soon as its run is due, if it
goes on while it can. An end with output, or with none, needs a successful exchange that was taken
before cancellation or the time limit, and it is that of the complete output, whatever the exit
code. A run fails exactly if its output cannot be read, or its analyzer is seen to die by a signal
or cannot be waited for. A time limit ends a run only while the exchange lasts, and a run is
cancelled only if it was asked to stop. -/
theorem outcome_law (c : Course Driver.step) (input : List UInt8) (limited : Bool)
    (hc : c.start = .begin input limited) :
    (∀ n, deliveries c n = [] ∨ ∃ o, deliveries c n = [o] ∧ (∀ m, n ≤ m → deliveries c m = [o]) ∧
      ((c.state n).pair.held = true → (c.state n).pair.awaited? = some o)) ∧
    (Fair c → ∀ n, StopAsked c n ∨ (limited = true ∧ c.Happened n (· = .limitPassed)) ∨
        (InputDone c input n ∧ ∃ e ending, e < n ∧ OutputEnds c e ending) →
      ∃ m o, deliveries c m = [o]) ∧
    (∀ n o, deliveries c n = [o] → (o = .empty ∨ ∃ s, o = .completed s) →
      ∃ e k, e ≤ k ∧ k < n ∧ OutputEnds c e (.ok ()) ∧ .took .exchanged ∈ c.effects k ∧
        o = .ofBytes (produced c e) ∧ (∀ m, .took .cancelled ∉ c.effects m) ∧
        ∀ m, .took .limitOver ∈ c.effects m → k < m) ∧
    (∀ k j code, .took .left ∈ c.effects k → Leaves c j (.ok (.code code)) →
      ∃ e, OutputEnds c e (.ok ()) ∧ deliveries c (k + 1) = [.ofBytes (produced c e)]) ∧
    (∀ n reason, deliveries c n = [.failed reason] ↔ ∃ k < n, Fails c k reason) ∧
    (∀ n, deliveries c n = [.timedOut] → limited = true ∧ ∃ k < n,
      .took .limitOver ∈ c.effects k ∧ ∀ m, .took .exchanged ∉ c.effects m) ∧
    (∀ n, deliveries c n = [.cancelled] → StopAsked c n) ∧
    (∀ n o s, deliveries c n = [o] → o.output? = some s → o = .completed s) := by
  refine ⟨?_, ?_, ?_, ?_, ?_, ?_, ?_, ?_⟩
  · intro n
    cases hv : (c.state n).delivered? with
    | none => exact Or.inl (by rw [deliveries_eq hc, hv, Option.toList_none])
    | some o =>
      have ho : deliveries c n = [o] := by rw [deliveries_eq hc, hv, Option.toList_some]
      exact Or.inr ⟨o, ho, fun m hnm => deliveries_mono hc hnm ho, awaited_of_deliveries hc ho⟩
  · intro hf n hdue
    have hd : Due c n := by
      rcases hdue with h | ⟨hl, h⟩ | ⟨hin, e, ending, hen, he⟩
      · exact due_of_stopAsked hc h
      · exact due_of_limitPassed hc hl h
      · exact due_of_exchanged hc hin hen he
    obtain ⟨m, o, _, ho⟩ := delivers_of_due hc hf hd
    exact ⟨m, o, ho⟩
  · intro n o h ho
    obtain ⟨e, k, hkn, hk, hout, hno, hlimit⟩ := exchanged_of_deliveries hc h ho
    exact ⟨e, k, hk.le, hkn, hk.ends, (hk.takes.took _).2 rfl, hout, hno, hlimit⟩
  · intro k j code hk hj
    obtain ⟨e, i, _, hi, hd⟩ := deliveries_of_left hc hk hj
    exact ⟨e, hi.ends, hd⟩
  · intro n reason
    constructor
    · intro h
      obtain ⟨k, hk, b, ht, hend⟩ := endsBy_of_deliveries hc h
      exact ⟨k, hk, fails_of_endsBy ht hend⟩
    · rintro ⟨k, hk, hfail⟩
      exact deliveries_mono hc hk (deliveries_of_fails hc hfail)
  · intro n h
    obtain ⟨k, hk, b, ht, hend⟩ := endsBy_of_deliveries hc h
    obtain ⟨rfl, hp, hl⟩ := timedOut_of_endsBy hend
    exact ⟨hl, k, hk, (ht.took _).2 rfl, not_exchanged_of_timedOut ht hp⟩
  · intro n h
    obtain ⟨k, hk, b, ht, hend⟩ := endsBy_of_deliveries hc h
    exact Course.happened_mono hk (stopAsked_of_endsBy hend)
  · intro n o s _ ho
    cases o <;> simp_all [Outcome.output?]

/-- An analyzer takes a byte, writes two in two pieces, and leaves with a code. -/
def relayed : Course Driver.step :=
  .ofList (.begin [120] true) [.fed 1, .read [79], .read [75], .outputEnded, .left (.ok (.code 3)),
    .limitPassed, .looked .left]

theorem outcome_law_relayed : relayed.start = .begin [120] true ∧ Fair relayed ∧
    deliveries relayed 7 = [.completed "OK"] ∧ (∃ m o, deliveries relayed m = [o]) ∧
    ∃ e k, OutputEnds relayed e (.ok ()) ∧ .took .exchanged ∈ relayed.effects k ∧
      Outcome.completed "OK" = .ofBytes (produced relayed e) := by
  have hd : deliveries relayed 7 = [.completed "OK"] := by decide +kernel
  have hf : Fair relayed := fair_of_deliveries (show relayed.start = .begin [120] true from rfl) hd
    (show relayed.event 4 = some (.left (.ok (.code 3))) from rfl)
  obtain ⟨_, hdue, hdone, _⟩ := outcome_law relayed [120] true rfl
  obtain ⟨e, k, _, _, he, hk, ho, _⟩ := hdone 7 _ hd (Or.inr ⟨_, rfl⟩)
  refine ⟨rfl, hf, hd, hdue hf 6 (Or.inr (Or.inl ⟨rfl, ?_⟩)), e, k, he, hk, ho⟩
  exact ⟨5, by decide, _, rfl, rfl⟩

end AnalyzerBridge.Run
