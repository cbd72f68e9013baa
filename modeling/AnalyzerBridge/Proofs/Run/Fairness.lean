import AnalyzerBridge.Proofs.Run.Deliveries

/-! Every run comes to its end. A driver that goes on while it can delivers an end, once the run was
asked to stop, its time is over, or its exchange is over. -/
namespace AnalyzerBridge.Run

namespace Driver

/-- Something that the driver waits for is there. -/
def CanGoOn (d : Driver) : Prop := (∃ b, (d.take b).2 ≠ []) ∨ d.reap.2 ≠ []

variable {d : Driver} {b : Branch} {p q : Phase}

theorem canGoOn_of_goes (hp : d.phase = p) (h : p.Goes d.ready b q) : d.CanGoOn := by
  refine Or.inl ⟨b, ?_⟩
  rw [take, hp, Phase.take_eq_some.2 h]
  exact List.ne_nil_of_mem (mem_enter_took.2 rfl)

theorem canGoOn_of_exit {s : Stopping} {o : Outcome} (hs : d.stopping = some s)
    (hp : d.phase = .ended o) (hx : d.seen.exit.isSome = true) : d.CanGoOn := by
  obtain ⟨x, hx⟩ := Option.isSome_iff_exists.1 hx
  exact Or.inr (by simp [reap, hs, hp, hx, deliver])

/-- Nobody is killed in silence. -/
theorem killed_step {e : DriverEvent} (h : (d.step e).1.stopping = some .killed) :
    d.stopping = some .killed ∨ .killed ∈ (d.step e).2 := by
  have hd := d.does_step e
  have hnote := d.stopping_note e
  generalize d.step e = r at hd h ⊢
  cases hd with
  | nothing => exact Or.inl (hnote.symm.trans h)
  | kills => exact Or.inr (List.mem_singleton.2 rfl)
  | reaps => cases h
  | takes =>
    simp only [enter] at h ⊢
    split at h
    · exact Or.inl (hnote.symm.trans h)
    · exact Or.inl (hnote.symm.trans h)
    · cases h
    · exact Or.inr (by simp)
    · cases h

theorem isLingering_iff : d.isLingering = true ↔ ∃ output, d.phase = .lingering output := by
  rw [isLingering]
  split <;> simp_all

end Driver

/-- The driver goes on while it can. The times for leaving pass while it waits for them, and an
analyzer that was killed leaves. -/
structure Fair (c : Course Driver.step) : Prop where
  goesOn : ∀ m, (∀ n, m ≤ n → (c.state n).CanGoOn) → ∃ n, m ≤ n ∧ c.effects n ≠ []
  grace : ∀ m, (∀ n, m ≤ n → (c.state n).isLingering = true) →
    ∃ n, m ≤ n ∧ c.event n = some .gracePassed
  patience : ∀ m, (∀ n, m ≤ n → (c.state n).stopping = some .interrupted) →
    ∃ n, m ≤ n ∧ c.event n = some .patiencePassed
  leaves : ∀ m, .killed ∈ c.effects m → ∃ n exit, c.event n = some (.left exit)

variable {c : Course Driver.step} {input : List UInt8} {limited : Bool} {n m k : Nat} {o : Outcome}

theorem isCancelled_mono (hmn : m ≤ n) (h : (c.state m).pair.isCancelled = true) :
    (c.state n).pair.isCancelled = true :=
  c.keeps (K := fun d : Driver => d.pair.isCancelled = true)
    (fun _ _ hd => Driver.isCancelled_step.2 (Or.inl hd)) hmn h

theorem limitOver_mono (hmn : m ≤ n) (h : (c.state m).seen.limitOver = true) :
    (c.state n).seen.limitOver = true :=
  c.keeps (K := fun d : Driver => d.seen.limitOver = true)
    (fun _ _ hd => Driver.limitOver_step.2 (Or.inl hd)) hmn h

theorem graceOver_mono (hmn : m ≤ n) (h : (c.state m).seen.graceOver = true) :
    (c.state n).seen.graceOver = true :=
  c.keeps (K := fun d : Driver => d.seen.graceOver = true)
    (fun _ _ hd => Driver.graceOver_step.2 (Or.inl hd)) hmn h

theorem graceOver_of_passed (he : c.event k = some .gracePassed)
    (hl : (c.state k).isLingering = true) (hkn : k < n) : (c.state n).seen.graceOver = true := by
  apply graceOver_mono (m := k + 1) hkn
  rw [Course.state_succ he, Driver.graceOver_step]
  exact Or.inr ⟨rfl, hl⟩

theorem exit_mono (hmn : m ≤ n) (h : (c.state m).seen.exit.isSome = true) :
    (c.state n).seen.exit.isSome = true :=
  c.keeps (K := fun d : Driver => d.seen.exit.isSome = true)
    (fun d e hd => by
      obtain ⟨x, hx⟩ := Option.isSome_iff_exists.1 hd
      simp [Driver.exit_step, hx]) hmn h

theorem exit_of_left {exit : Except String Exit} (he : c.event n = some (.left exit))
    (hnm : n < m) : (c.state m).seen.exit.isSome = true := by
  apply exit_mono (m := n + 1) hnm
  rw [Course.state_succ he, Driver.exit_step]
  cases (c.state n).seen.exit <;> rfl

/-- An analyzer with whose leaving nobody has patience any more was killed. -/
theorem killed_of_stopping (h0 : c.start.stopping = none)
    (h : (c.state n).stopping = some .killed) : ∃ k < n, .killed ∈ c.effects k := by
  induction n with
  | zero => simp [h0] at h
  | succ n ih =>
    rcases c.succ_cases n with ⟨_, hs, _⟩ | ⟨e, _, hs, hf⟩
    · obtain ⟨k, hk, hf⟩ := ih (hs ▸ h)
      exact ⟨k, Nat.lt_succ_of_lt hk, hf⟩
    · rw [hs] at h
      rcases Driver.killed_step h with h | h
      · obtain ⟨k, hk, hf⟩ := ih h
        exact ⟨k, Nat.lt_succ_of_lt hk, hf⟩
      · exact ⟨n, Nat.lt_succ_self n, hf ▸ h⟩

/-- The run was asked to stop, its time is over, or its exchange is over. -/
def Due (c : Course Driver.step) (n : Nat) : Prop :=
  (c.state n).phase ≠ .exchanging ∨ (c.state n).pair.isCancelled = true ∨
    (c.state n).seen.limitOver = true

theorem due_mono (hmn : m ≤ n) (h : Due c m) : Due c n := by
  rcases h with h | h | h
  · exact Or.inl fun hn => h (exchanging_of_le hmn hn)
  · exact Or.inr (Or.inl (isCancelled_mono hmn h))
  · exact Or.inr (Or.inr (limitOver_mono hmn h))

/-- A driver that stays quiet is not always able to go on. -/
theorem not_canGoOn_of_quiet (hf : Fair c) (hq : ∀ n, m ≤ n → c.effects n = [])
    (hmk : m ≤ k) : ¬ ∀ n, k ≤ n → (c.state n).CanGoOn := by
  intro hgo
  obtain ⟨n, hkn, hne⟩ := hf.goesOn k hgo
  exact hne (hq n (hmk.trans hkn))

section
variable (hc : c.start = .begin input limited)
include hc

theorem rank_succ (n : Nat) : c.effects n = [] ∧ (c.state (n + 1)).phase = (c.state n).phase ∧
      (c.state (n + 1)).stopping = (c.state n).stopping ∨
    c.effects n ≠ [] ∧ (c.state (n + 1)).rank < (c.state n).rank := by
  rcases c.succ_cases n with ⟨_, hs, hf⟩ | ⟨e, _, hs, hf⟩
  · exact Or.inl ⟨hf, by rw [hs], by rw [hs]⟩
  · rw [hs, hf]
    rcases Driver.step_cases (sound_state hc n) e with he | ha
    · rw [he]
      exact Or.inl ⟨rfl, Driver.phase_note _ e, Driver.stopping_note _ e⟩
    · exact Or.inr ⟨ha.acts, by simpa using ha.rank⟩

theorem rank_le (hmn : m ≤ n) : (c.state n).rank ≤ (c.state m).rank := by
  induction n, hmn using Nat.le_induction with
  | base => exact Nat.le_refl _
  | succ n hmn ih =>
    rcases rank_succ hc n with ⟨_, hp, hs⟩ | ⟨_, hlt⟩
    · rw [Driver.rank, hp, hs, ← Driver.rank]
      exact ih
    · omega

theorem stays_of_quiet (hq : ∀ n, m ≤ n → c.effects n = []) (hmn : m ≤ n) :
    (c.state n).phase = (c.state m).phase ∧ (c.state n).stopping = (c.state m).stopping := by
  induction n, hmn using Nat.le_induction with
  | base => exact ⟨rfl, rfl⟩
  | succ n hmn ih =>
    rcases rank_succ hc n with ⟨_, hp, hs⟩ | ⟨hne, _⟩
    · rwa [hp, hs]
    · exact absurd (hq n hmn) hne

section
variable (hf : Fair c) (hq : ∀ n, m ≤ n → c.effects n = [])
include hf hq

theorem not_exchanging_of_quiet (hd : Due c m) : (c.state m).phase ≠ .exchanging := by
  intro hp
  refine not_canGoOn_of_quiet hf hq (Nat.le_refl m) fun n hmn => ?_
  have hpn := (stays_of_quiet hc hq hmn).1.trans hp
  rcases hd with hd | hd | hd
  · exact absurd hp hd
  · exact Driver.canGoOn_of_goes hpn (.cancelled (by simp) (isCancelled_mono hmn hd))
  · exact Driver.canGoOn_of_goes hpn (.timedOut (limitOver_mono hmn hd))

/-- The time for leaving passes, after which a driver need not wait for the analyzer. -/
theorem not_lingering_of_quiet {output : List UInt8} : (c.state m).phase ≠ .lingering output := by
  intro hp
  have hpn (n : Nat) (hmn : m ≤ n) : (c.state n).phase = .lingering output :=
    (stays_of_quiet hc hq hmn).1.trans hp
  have hl (n : Nat) (hmn : m ≤ n) : (c.state n).isLingering = true :=
    Driver.isLingering_iff.2 ⟨output, hpn n hmn⟩
  obtain ⟨k, hmk, he⟩ := hf.grace m hl
  refine not_canGoOn_of_quiet hf hq (Nat.le_succ_of_le hmk) fun n hkn => ?_
  have hover := graceOver_of_passed he (hl k hmk) hkn
  exact Driver.canGoOn_of_goes (hpn n (by omega)) (.graceOver hover)

/-- An analyzer that was stopped is collected once it has left. -/
theorem not_exit_of_quiet {s : Stopping} (hp : (c.state m).phase = .ended o)
    (hs : (c.state m).stopping = some s) (hmk : m ≤ k) : (c.state k).seen.exit = none := by
  rw [← Option.not_isSome_iff_eq_none]
  intro hx
  refine not_canGoOn_of_quiet hf hq hmk fun n hkn => ?_
  have hn := stays_of_quiet hc hq (hmk.trans hkn)
  exact Driver.canGoOn_of_exit (hn.2.trans hs) (hn.1.trans hp) (exit_mono hkn hx)

/-- An analyzer that was stopped leaves: it is killed, at the latest when patience is lost. -/
theorem not_stopping_of_quiet (hp : (c.state m).phase = .ended o) :
    (c.state m).stopping = none := by
  cases hs : (c.state m).stopping with
  | none => rfl
  | some s =>
    have hno {k : Nat} (hmk : m ≤ k) := not_exit_of_quiet hc hf hq hp hs hmk
    cases s with
    | interrupted =>
      obtain ⟨k, hmk, he⟩ := hf.patience m fun n hmn => (stays_of_quiet hc hq hmn).2.trans hs
      have hkill := Course.effects_eq he
      rw [hq k hmk] at hkill
      simp [Driver.step, Driver.act, Driver.note, Driver.losePatience, hno hmk,
        (stays_of_quiet hc hq hmk).2.trans hs] at hkill
    | killed =>
      obtain ⟨k, _, hk⟩ := killed_of_stopping (by rw [hc]; rfl) hs
      obtain ⟨j, x, he⟩ := hf.leaves k hk
      have hx := exit_of_left he (show j < max m (j + 1) by omega)
      rw [hno (Nat.le_max_left m (j + 1))] at hx
      cases hx

end

/-- A driver that has not delivered an end does not stay quiet. -/
theorem effects_of_due (hf : Fair c) (hd : Due c m) (hn : (c.state m).delivered? = none) :
    ∃ n, m ≤ n ∧ c.effects n ≠ [] := by
  by_contra hno
  have hq : ∀ n, m ≤ n → c.effects n = [] := by
    intro n hmn
    by_contra hne
    exact hno ⟨n, hmn, hne⟩
  cases hp : (c.state m).phase with
  | exchanging => exact not_exchanging_of_quiet hc hf hq hd hp
  | lingering output => exact not_lingering_of_quiet hc hf hq hp
  | ended o =>
    have hs := not_stopping_of_quiet hc hf hq hp
    simp [Driver.delivered?_eq_some.2 ⟨hp, hs⟩] at hn

/-- Once a run is due, its driver delivers its end. -/
theorem delivers_of_due (hf : Fair c) (hd : Due c m) : ∃ n o, m ≤ n ∧ deliveries c n = [o] := by
  -- by induction on how far the driver is from the end, which falls whenever it does something
  induction hr : (c.state m).rank using Nat.strong_induction_on generalizing m with
  | _ r ih =>
    cases hn : (c.state m).delivered? with
    | some o =>
      refine ⟨m, o, Nat.le_refl m, ?_⟩
      rw [deliveries_eq hc, hn, Option.toList_some]
    | none =>
      obtain ⟨k, hmk, hne⟩ := effects_of_due hc hf hd hn
      rcases rank_succ hc k with ⟨hno, _⟩ | ⟨_, hlt⟩
      · exact absurd hno hne
      · have hle := rank_le hc hmk
        obtain ⟨n, o, hkn, ho⟩ := ih _ (by omega) (due_mono (by omega : m ≤ k + 1) hd) rfl
        exact ⟨n, o, by omega, ho⟩

/-- A driver that has delivered an end has nothing left to do. -/
theorem fair_of_deliveries (h : deliveries c m = [o]) {exit : Except String Exit}
    (hx : c.event k = some (.left exit)) : Fair c := by
  have hdone (n : Nat) : ∃ i, n ≤ i ∧ (c.state i).phase = .ended o ∧ (c.state i).stopping = none :=
    ⟨max n m, Nat.le_max_left n m,
      (deliveries_eq_singleton hc).1 (deliveries_mono hc (Nat.le_max_right n m) h)⟩
  constructor
  · intro n hgo
    obtain ⟨i, hni, hp, hs⟩ := hdone n
    rcases hgo i hni with ⟨b, hb⟩ | hr
    · exact absurd (by cases b <;> simp [Driver.take, hp, Phase.take]) hb
    · exact absurd (by simp [Driver.reap, hs]) hr
  · intro n hl
    obtain ⟨i, hni, hp, _⟩ := hdone n
    obtain ⟨output, hl⟩ := Driver.isLingering_iff.1 (hl i hni)
    exact absurd (hp.symm.trans hl) (by simp)
  · intro n hi
    obtain ⟨i, hni, _, hs⟩ := hdone n
    exact absurd (hs.symm.trans (hi i hni)) (by simp)
  · exact fun _ _ => ⟨k, exit, hx⟩

end

end AnalyzerBridge.Run
