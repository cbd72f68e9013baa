import AnalyzerBridge.Proofs.Run.Driver

/-! What a driver has seen, told by the events that happened: when the run was asked to stop, what
became of the input, how the output ended and with which bytes, and how the analyzer left. -/
namespace AnalyzerBridge.Run

/-- The output ends, or cannot be read any more. -/
def OutputEnds (c : Course Driver.step) (n : Nat) (ending : Except String Unit) : Prop :=
  c.First n DriverEvent.outputEnd? ending

/-- The analyzer leaves, or cannot be waited for. -/
def Leaves (c : Course Driver.step) (n : Nat) (exit : Except String Exit) : Prop :=
  c.First n DriverEvent.exit? exit

/-- The run was asked to stop before a moment. -/
def StopAsked (c : Course Driver.step) (n : Nat) : Prop := c.Happened n DriverEvent.Stops

def produced (c : Course Driver.step) (n : Nat) : List UInt8 :=
  (List.range n).flatMap fun k => ((c.event k).map DriverEvent.bytes).getD []

/-- How many bytes of the input were taken before a moment. -/
def taken (c : Course Driver.step) : Nat → Nat
  | 0 => 0
  | n + 1 => taken c n + ((c.event n).map DriverEvent.count).getD 0

/-- Before a moment the whole input was taken, or the analyzer has stopped reading it. -/
def InputDone (c : Course Driver.step) (input : List UInt8) (n : Nat) : Prop :=
  input.length ≤ taken c n ∨ c.Happened n (· = .refused)

variable {c : Course Driver.step} {input : List UInt8} {limited : Bool} {n m e : Nat}
  {ending : Except String Unit} {exit : Except String Exit}

theorem produced_succ :
    produced c (n + 1) = produced c n ++ ((c.event n).map DriverEvent.bytes).getD [] := by
  simp [produced, List.range_succ]

theorem taken_mono (hmn : m ≤ n) : taken c m ≤ taken c n := by
  induction n, hmn using Nat.le_induction with
  | base => exact Nat.le_refl _
  | succ n hmn ih =>
    rw [taken]
    exact Nat.le_add_right_of_le ih

theorem inputDone_mono (hmn : m ≤ n) (h : InputDone c input m) : InputDone c input n :=
  h.imp (fun ht => ht.trans (taken_mono hmn)) (Course.happened_mono hmn)

section
variable (hc : c.start = .begin input limited)
include hc

theorem limited_state (n : Nat) : (c.state n).limited = limited :=
  c.keeps (K := fun d : Driver => d.limited = limited) (fun d e hd => (d.limited_step e).trans hd)
    (Nat.zero_le n) (by rw [Course.state_zero, hc]; rfl)

theorem isCancelled_iff (n : Nat) : (c.state n).pair.isCancelled = true ↔ StopAsked c n :=
  c.iff_happened (K := fun d : Driver => d.pair.isCancelled = true)
    (by rw [hc]; simp [Driver.begin, Pair.begin, Pair.isCancelled])
    (fun _ _ => Driver.isCancelled_step) n

theorem limitOver_iff (n : Nat) : (c.state n).seen.limitOver = true ↔
    limited = true ∧ c.Happened n (· = .limitPassed) := by
  induction n with
  | zero => simp [hc, Driver.begin, Course.not_happened_zero]
  | succ n ih =>
    rw [Course.happened_succ, and_or_left, ← ih]
    rcases c.succ_cases n with ⟨he, hs, _⟩ | ⟨e, he, hs, _⟩
    · simp [he, hs]
    · simp [he, hs, Driver.limitOver_step, limited_state hc, and_comm]

theorem unfed_state (n : Nat) : (c.state n).seen.unfed = input.drop (taken c n) := by
  induction n with
  | zero => simp [hc, Driver.begin, taken]
  | succ n ih =>
    rw [taken, ← List.drop_drop, ← ih]
    rcases c.succ_cases n with ⟨he, hs, _⟩ | ⟨e, he, hs, _⟩
    · simp [he, hs]
    · simp [he, hs, Driver.unfed_step]

theorem isFed_iff (n : Nat) : (c.state n).isFed = true ↔ InputDone c input n := by
  have hr : (c.state n).seen.refused = true ↔ c.Happened n (· = .refused) :=
    c.iff_happened (K := fun d : Driver => d.seen.refused = true) (by rw [hc]; simp [Driver.begin])
      (fun _ _ => Driver.refused_step) n
  rw [Driver.isFed, Bool.or_eq_true, hr, unfed_state hc, List.isEmpty_iff, List.drop_eq_nil_iff,
    or_comm]
  rfl

theorem exit_cases (n : Nat) : (c.state n).seen.exit = none ∧ (∀ k exit, Leaves c k exit → n ≤ k) ∨
    ∃ k < n, ∃ exit, (c.state n).seen.exit = some exit ∧ Leaves c k exit := by
  rcases c.eq_first (v := fun d : Driver => d.seen.exit) (by rw [hc]; rfl)
    (fun _ _ => Driver.exit_step) n with ⟨hn, hno⟩ | h
  · refine Or.inl ⟨hn, fun k exit hk => ?_⟩
    by_contra hlt
    exact absurd hk.1 (by simp [hno k (by omega)])
  · exact Or.inr h

theorem leaves_of_exit (h : (c.state n).seen.exit = some exit) : ∃ k < n, Leaves c k exit := by
  rcases exit_cases hc n with ⟨hn, _⟩ | ⟨k, hk, x, hx, hl⟩
  · rw [hn] at h
    cases h
  · obtain rfl := Option.some.inj (hx.symm.trans h)
    exact ⟨k, hk, hl⟩

theorem outputEnd_cases (n : Nat) :
    (c.state n).seen.outputEnd = none ∧ (∀ k < n, (c.event k).bind DriverEvent.outputEnd? = none) ∨
    ∃ k < n, ∃ ending, (c.state n).seen.outputEnd = some ending ∧ OutputEnds c k ending :=
  c.eq_first (v := fun d : Driver => d.seen.outputEnd) (by rw [hc]; rfl)
    (fun _ _ => Driver.outputEnd_step) n

theorem outputEnd_of_ends (h : OutputEnds c e ending) (hn : e < n) :
    (c.state n).seen.outputEnd = some ending := by
  rcases outputEnd_cases hc n with ⟨_, hno⟩ | ⟨k, _, x, hx, hk⟩
  · exact absurd h.1 (by simp [hno e hn])
  · rw [hx, (Course.first_unique hk h).2]

theorem ends_of_outputEnd (h : (c.state n).seen.outputEnd = some ending) :
    ∃ e < n, OutputEnds c e ending := by
  rcases outputEnd_cases hc n with ⟨hn, _⟩ | ⟨k, hk, x, hx, he⟩
  · rw [hn] at h
    cases h
  · obtain rfl := Option.some.inj (hx.symm.trans h)
    exact ⟨k, hk, he⟩

theorem outputEnd_of_not_ended (hn : ∀ k < n, (c.event k).bind DriverEvent.outputEnd? = none) :
    (c.state n).seen.outputEnd = none := by
  rcases outputEnd_cases hc n with ⟨h, _⟩ | ⟨k, hk, x, _, he⟩
  · exact h
  · exact absurd he.1 (by simp [hn k hk])

/-- Up to the end of the output, a driver collects all that is read. -/
theorem collected_of_not_ended (hn : ∀ k < n, (c.event k).bind DriverEvent.outputEnd? = none) :
    (c.state n).seen.collected = produced c n := by
  induction n with
  | zero => simp [hc, Driver.begin, produced]
  | succ n ih =>
    have hno : ∀ k < n, (c.event k).bind DriverEvent.outputEnd? = none :=
      fun k hk => hn k (Nat.lt_succ_of_lt hk)
    rw [produced_succ, ← ih hno]
    rcases c.succ_cases n with ⟨he, hs, _⟩ | ⟨e, he, hs, _⟩
    · simp [he, hs]
    · simp [he, hs, Driver.collected_step, outputEnd_of_not_ended hc hno]

/-- After the end of the output, it has collected the complete output. -/
theorem collected_of_ends (h : OutputEnds c e ending) (hn : e < n) :
    (c.state n).seen.collected = produced c e := by
  induction n, (show e + 1 ≤ n from hn) using Nat.le_induction with
  | base =>
    rcases c.succ_cases e with ⟨he, hs, _⟩ | ⟨f, he, hs, _⟩
    · exact absurd h.1 (by simp [he])
    · have hf : f.outputEnd? = some ending := by simpa [he] using h.1
      have hb : f.bytes = [] := by cases f <;> simp_all [DriverEvent.outputEnd?, DriverEvent.bytes]
      rw [hs, Driver.collected_step, hb, collected_of_not_ended hc h.2]
      simp
  | succ n hmn ih =>
    have hend := outputEnd_of_ends hc h (show e < n from hmn)
    rcases c.succ_cases n with ⟨_, hs, _⟩ | ⟨f, _, hs, _⟩
    · rw [hs]
      exact ih hmn
    · rw [hs, Driver.collected_step, hend, ih hmn]
      simp

end

end AnalyzerBridge.Run
