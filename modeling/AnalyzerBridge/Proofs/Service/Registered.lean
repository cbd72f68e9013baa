import AnalyzerBridge.Proofs.Service.History
import Mathlib.Order.Monotone.Basic

/-! Which runs are registered: those that were started, and since then neither evicted by a command
nor looked at when they ended. Numbers and generations never come back. -/
namespace AnalyzerBridge

open Run

namespace History

/-- A command starts a run. -/
def Begins (h : History) (n : Nat) (l : Launch) (j : Job) : Prop :=
  ∃ starts c, h.Handles n starts c ∧ c.launch? = some l ∧
    starts ((h.service n).invocation l.key) = true ∧ j = (h.service n).job l

/-- A command lets go of the run of a key. -/
def Evicted (h : History) (n : Nat) (key : Key) : Prop :=
  ∃ starts c, h.Handles n starts c ∧ c.Evicts key

/-- The service looks at the end of a run of this key and this generation. -/
def Reported (h : History) (n : Nat) (key : Key) (generation : Nat) : Prop :=
  ∃ o, h.Attends n ⟨key, generation, o⟩

variable {h : History} {n m : Nat} {starts : Invocation → Bool} {c : Command} {l l' : Launch}
  {j j' : Job} {d : Completion} {p : Purpose}

theorem sound_service (h : History) (n : Nat) : (h.service n).Sound := by
  induction n with
  | zero => exact Service.sound_initial h.settings
  | succ n ih =>
    have hs := h.step n
    generalize h.service (n + 1) = t at hs ⊢
    generalize h.effects n = fs at hs
    cases hs with
    | idle => exact ih
    | command => exact Service.sound_handle ih
    | hungUp => exact Service.sound_handle ih
    | attended => exact Service.sound_complete ih

/-- A service that has ended never runs again. -/
theorem running_of_succ (hr : (h.service (n + 1)).running = true) :
    (h.service n).running = true := by
  have hs := h.step n
  generalize h.service (n + 1) = t at hs hr
  generalize h.effects n = fs at hs
  cases hs with
  | idle => exact hr
  | command hc => exact hc.2.1
  | hungUp hn => exact hn
  | attended hd => exact running_of_attends hd

theorem started_le_succ : (h.service n).started ≤ (h.service (n + 1)).started := by
  have hs := h.step n
  generalize h.service (n + 1) = t at hs ⊢
  generalize h.effects n = fs at hs
  cases hs with
  | idle => exact Nat.le_refl _
  | command => exact Service.started_le_handle
  | hungUp => exact Service.started_le_handle
  | attended => exact Nat.le_of_eq Service.started_complete.symm

theorem issued_le_succ (p : Purpose) : (h.service n).issued p ≤ (h.service (n + 1)).issued p := by
  have hs := h.step n
  generalize h.service (n + 1) = t at hs ⊢
  generalize h.effects n = fs at hs
  cases hs with
  | idle => exact Nat.le_refl _
  | command => exact Service.issued_le_handle p
  | hungUp => exact Service.issued_le_handle p
  | attended => exact Nat.le_of_eq (Service.issued_complete p).symm

theorem started_mono (h : History) : Monotone fun n => (h.service n).started :=
  monotone_nat_of_le_succ fun _ => started_le_succ

theorem issued_mono (h : History) (p : Purpose) : Monotone fun n => (h.service n).issued p :=
  monotone_nat_of_le_succ fun _ => issued_le_succ p

theorem service_command (hc : h.Handles n starts c) :
    h.service (n + 1) = ((h.service n).handle starts c).1 ∧ ∃ dropped : List Command,
      h.effects n = ((h.service n).handle starts c).2 ++ dropped.flatMap Command.dropped := by
  have hs := h.step n
  generalize h.service (n + 1) = t at hs ⊢
  generalize h.effects n = fs at hs ⊢
  cases hs with
  | idle _ hh => exact absurd hc (hh _ _)
  | command hc' dropped =>
    obtain ⟨rfl, rfl⟩ := handles_unique hc hc'
    exact ⟨rfl, dropped, rfl⟩
  | hungUp _ hh => exact absurd hc (hh _ _)
  | attended hd => exact absurd hd (not_attends_of_handles hc)

theorem mem_effects (hc : h.Handles n starts c) {f : Effect}
    (hf : f ∈ ((h.service n).handle starts c).2) : f ∈ h.effects n := by
  obtain ⟨_, dropped, he⟩ := service_command hc
  rw [he]
  exact List.mem_append_left _ hf

theorem service_attended (hd : h.Attends n d) :
    h.service (n + 1) = ((h.service n).complete d).1 ∧
      h.effects n = ((h.service n).complete d).2 := by
  have hs := h.step n
  generalize h.service (n + 1) = t at hs ⊢
  generalize h.effects n = fs at hs ⊢
  cases hs with
  | idle _ _ ha => exact absurd hd (ha _)
  | command hc => exact absurd hd (not_attends_of_handles hc)
  | hungUp _ _ ha => exact absurd hd (ha _)
  | attended hd' =>
    rw [attends_unique hd hd']
    exact ⟨rfl, rfl⟩

theorem begins_started (hb : h.Begins m l j) :
    j.run = (h.service m).started ∧ (h.service m).started < (h.service (m + 1)).started := by
  obtain ⟨starts, c, hc, hl, hst, rfl⟩ := hb
  refine ⟨rfl, ?_⟩
  rw [(service_command hc).1]
  exact Service.started_lt_handle hc.2.1 hl hst

theorem begins_issued (hb : h.Begins m l j) :
    j.generation = (h.service m).issued j.key.purpose + 1 ∧
      (h.service (m + 1)).issued j.key.purpose = j.generation := by
  obtain ⟨starts, c, hc, hl, hst, rfl⟩ := hb
  refine ⟨rfl, ?_⟩
  rw [(service_command hc).1]
  exact Service.issued_handle hc.2.1 hl

theorem begins_unique (hb : h.Begins m l j) (hb' : h.Begins m l' j') : l = l' ∧ j = j' := by
  obtain ⟨starts, c, hc, hl, _, rfl⟩ := hb
  obtain ⟨starts', c', hc', hl', _, rfl⟩ := hb'
  obtain ⟨rfl, rfl⟩ := handles_unique hc hc'
  have he : l = l' := Option.some.inj (hl.symm.trans hl')
  exact ⟨he, by rw [he]⟩

/-- A counter that never falls passes a value upwards only once. -/
theorem eq_of_counter {f : Nat → Nat} (hf : Monotone f) {a m n : Nat} (hm : f m = a)
    (hm' : a < f (m + 1)) (hn : f n = a) (hn' : a < f (n + 1)) : m = n := by
  rcases lt_trichotomy m n with hmn | hmn | hnm
  · have hle : f (m + 1) ≤ f n := hf hmn
    omega
  · exact hmn
  · have hle : f (n + 1) ≤ f m := hf hnm
    omega

/-- The number of a run says when it was started. -/
theorem begins_of_run (hb : h.Begins m l j) (hb' : h.Begins n l' j') (hj : j.run = j'.run) :
    m = n := by
  obtain ⟨hr, hlt⟩ := begins_started hb
  obtain ⟨hr', hlt'⟩ := begins_started hb'
  exact eq_of_counter h.started_mono rfl hlt (by omega) (by omega)

/-- So does its generation, among the runs of one purpose. -/
theorem begins_of_generation (hb : h.Begins m l j) (hb' : h.Begins n l' j')
    (hp : j.key.purpose = j'.key.purpose) (hg : j.generation = j'.generation) : m = n := by
  obtain ⟨hr, hlt⟩ := begins_issued hb
  obtain ⟨hr', hlt'⟩ := begins_issued hb'
  rw [← hp] at hr' hlt'
  exact eq_of_counter (h.issued_mono j.key.purpose) rfl (by omega) (by omega) (by omega)

theorem evicted_iff {key : Key} (hc : h.Handles n starts c) :
    h.Evicted n key ↔ c.Evicts key := by
  constructor
  · rintro ⟨_, c', hc', he⟩
    rwa [(handles_unique hc hc').2]
  · intro he
    exact ⟨starts, c, hc, he⟩

theorem begins_iff (hc : h.Handles n starts c) : h.Begins n l j ↔ c.launch? = some l ∧
    starts ((h.service n).invocation l.key) = true ∧ j = (h.service n).job l := by
  constructor
  · rintro ⟨starts', c', hc', hl⟩
    obtain ⟨rfl, rfl⟩ := handles_unique hc hc'
    exact hl
  · intro hl
    exact ⟨starts, c, hc, hl⟩

theorem reported_iff {key : Key} {generation : Nat} (hd : h.Attends n d) :
    h.Reported n key generation ↔ key = d.key ∧ generation = d.generation := by
  constructor
  · rintro ⟨o, hd'⟩
    rw [attends_unique hd hd']
    exact ⟨rfl, rfl⟩
  · rintro ⟨rfl, rfl⟩
    exact ⟨d.outcome, hd⟩

/-- What is registered after an event. -/
theorem mem_jobs_succ : j ∈ (h.service (n + 1)).jobs ↔ (h.service (n + 1)).running = true ∧
    ((j ∈ (h.service n).jobs ∧ ¬ h.Evicted n j.key ∧ ¬ h.Reported n j.key j.generation) ∨
      ∃ l, h.Begins n l j) := by
  have hsound := h.sound_service n
  have hs := h.step n
  generalize h.service (n + 1) = t at hs ⊢
  generalize h.effects n = fs at hs
  cases hs with
  | idle _ hh ha _ =>
    have hev : ¬ h.Evicted n j.key := by
      rintro ⟨starts, c, hc, _⟩
      exact hh starts c hc
    have hre : ¬ h.Reported n j.key j.generation := by
      rintro ⟨_, hd⟩
      exact ha _ hd
    have hbe : ¬ ∃ l, h.Begins n l j := by
      rintro ⟨l, starts, c, hc, _⟩
      exact hh starts c hc
    simp only [hev, hre, hbe, not_false_eq_true, and_true, or_false, iff_and_self]
    intro hj
    by_contra hr
    rw [hsound.ended (by simpa using hr)] at hj
    cases hj
  | command hc =>
    have hre : ¬ h.Reported n j.key j.generation := by
      rintro ⟨_, hd⟩
      exact not_attends_of_handles hc hd
    simp only [evicted_iff hc, begins_iff hc]
    rw [Service.mem_jobs_handle hsound hc.2.1, Service.running_handle hc.2.1]
    simp only [hre, not_false_eq_true, and_true, iff_and_self]
    rintro hj rfl
    simp [Command.Evicts, Command.launch?] at hj
  | hungUp hr => simp [Service.jobs_handle_shutdown hr, Service.running_shutdown]
  | attended hd =>
    have hr := running_of_attends hd
    have hev : ¬ h.Evicted n j.key := by
      rintro ⟨_, _, hc, _⟩
      exact not_attends_of_handles hc hd
    have hbe : ¬ ∃ l, h.Begins n l j := by
      rintro ⟨_, _, _, hc, _⟩
      exact not_attends_of_handles hc hd
    rw [reported_iff hd, Service.mem_jobs_complete hsound hr, Service.running_complete]
    simp only [hev, hbe, hr, not_false_eq_true, true_and, or_false]

/-- Since its start at `m`, a run has been neither evicted nor looked at before `n`. -/
structure Keeps (h : History) (m n : Nat) (j : Job) : Prop where
  lt : m < n
  untouched : ∀ k, m < k → k < n → ¬ h.Evicted k j.key
  unreported : ∀ k, m < k → k < n → ¬ h.Reported k j.key j.generation

theorem keeps_succ : h.Keeps m (n + 1) j ↔ m = n ∨
    h.Keeps m n j ∧ ¬ h.Evicted n j.key ∧ ¬ h.Reported n j.key j.generation := by
  constructor
  · rintro ⟨hlt, hu, hr⟩
    rcases Nat.lt_succ_iff_lt_or_eq.1 hlt with hmn | hmn
    · exact Or.inr ⟨⟨hmn, fun k hk hkn => hu k hk (by omega), fun k hk hkn => hr k hk (by omega)⟩,
        hu n hmn (Nat.lt_succ_self n), hr n hmn (Nat.lt_succ_self n)⟩
    · exact Or.inl hmn
  · rintro (rfl | ⟨⟨hlt, hu, hr⟩, he, hp⟩)
    · exact ⟨Nat.lt_succ_self m, fun k hk hkn => by omega, fun k hk hkn => by omega⟩
    · refine ⟨by omega, fun k hk hkn => ?_, fun k hk hkn => ?_⟩
      · rcases Nat.lt_succ_iff_lt_or_eq.1 hkn with hkn | rfl
        · exact hu k hk hkn
        · exact he
      · rcases Nat.lt_succ_iff_lt_or_eq.1 hkn with hkn | rfl
        · exact hr k hk hkn
        · exact hp

/-- While the service runs, the registered runs are those that it has started and kept. -/
theorem mem_jobs_iff : j ∈ (h.service n).jobs ↔ (h.service n).running = true ∧
    ∃ m l, h.Begins m l j ∧ h.Keeps m n j := by
  -- by induction on the events: each keeps what it does not evict, report or begin
  induction n with
  | zero =>
    constructor
    · intro hj
      simp [service, System.initial, Service.initial, Service.jobs, Registry.empty] at hj
    · rintro ⟨_, m, l, _, hk⟩
      exact absurd hk.lt (Nat.not_lt_zero m)
  | succ n ih =>
    rw [mem_jobs_succ, ih]
    refine and_congr_right fun hr => ?_
    constructor
    · rintro (⟨⟨_, m, l, hb, hk⟩, he⟩ | ⟨l, hb⟩)
      · exact ⟨m, l, hb, keeps_succ.2 (Or.inr ⟨hk, he⟩)⟩
      · exact ⟨n, l, hb, keeps_succ.2 (Or.inl rfl)⟩
    · rintro ⟨m, l, hb, hk⟩
      rcases keeps_succ.1 hk with rfl | ⟨hk, he⟩
      · exact Or.inr ⟨l, hb⟩
      · exact Or.inl ⟨⟨running_of_succ hr, m, l, hb, hk⟩, he⟩

end History

end AnalyzerBridge
