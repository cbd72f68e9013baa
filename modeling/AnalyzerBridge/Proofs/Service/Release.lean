import AnalyzerBridge.Proofs.Service.Returns

/-! No run is lost and none is doubled. The runs that were started and not let go are the registered
ones, and so there is none once the service has ended. -/
namespace AnalyzerBridge

open Run

/-- A run was started and not let go. -/
def Held (log : List Effect) (a : LiveRun) : Prop :=
  (∃ invocation input, .started a.run a.key a.generation invocation input ∈ log) ∧
    .released a.run ∉ log

theorem Command.not_mem_dropped {dropped : List Command} {f : Effect} (hf : f.answered? = none) :
    f ∉ dropped.flatMap Command.dropped := by
  intro hm
  obtain ⟨c, _, hm⟩ := List.mem_flatMap.1 hm
  obtain ⟨_, rfl⟩ := Command.eq_of_mem_dropped hm
  cases hf

namespace Service

variable {s : Service} {c : Command} {d : Completion} {starts : Invocation → Bool} {run : Nat}

theorem mem_released_conclusion {j : Job} {o : Outcome} :
    .released run ∈ s.conclusion j o ↔ run = j.run := by
  rw [conclusion, List.mem_cons, Effect.released.injEq]
  refine or_iff_left ?_
  split
  · cases s.report? o <;> simp
  · simp

/-- The runs that a command lets go are registered no more. -/
theorem released_handle (hs : s.Sound) (hr : s.running = true) :
    .released run ∈ (s.handle starts c).2 ↔
      ∃ j ∈ s.jobs, j ∉ (s.handle starts c).1.jobs ∧ run = j.run := by
  rw [mem_released_handle hs hr]
  refine exists_congr fun j => and_congr_right fun hj => and_congr_left fun _ => ?_
  rw [mem_jobs_handle hs hr, not_or, not_and, not_not]
  refine ⟨fun hev => ⟨fun _ => hev, ?_⟩, fun h => h.1 hj⟩
  rintro ⟨l, _, _, rfl⟩
  exact absurd (hs.started _ hj) (Nat.lt_irrefl s.started)

/-- So is the run whose end is looked at. -/
theorem released_complete (hs : s.Sound) : .released run ∈ (s.complete d).2 ↔
    ∃ j ∈ s.jobs, j ∉ (s.complete d).1.jobs ∧ run = j.run := by
  rcases complete_cases hs d with hd | ⟨j, hr, hj, hk, hg⟩
  · rw [hd]
    simp only [List.not_mem_nil, false_iff]
    rintro ⟨j, hj, hn, _⟩
    exact hn hj
  · rw [effects_complete hs hr hj hk hg, mem_released_conclusion]
    constructor
    · intro hrun
      refine ⟨j, hj, fun hj' => ?_, hrun⟩
      exact ((mem_jobs_complete hs hr).1 hj').2 ⟨hk, hg⟩
    · rintro ⟨i, hi, hn, rfl⟩
      rw [mem_jobs_complete hs hr, not_and, not_not] at hn
      rw [eq_of_mem_jobs hs hi hj ((hn hi).1.trans hk.symm)]

/-- The launcher is asked only for commands that do not end the service. -/
theorem running_of_launching {key : Key} {generation : Nat} {i : Invocation} {t : String}
    (hr : s.running = true) (hf : .launching key generation i t ∈ (s.handle starts c).2) :
    (s.handle starts c).1.running = true := by
  rw [running_handle hr]
  rintro rfl
  simp [handle, hr, stop] at hf

theorem launching_not_mem_complete (hs : s.Sound) {key : Key} {generation : Nat} {i : Invocation}
    {t : String} : .launching key generation i t ∉ (s.complete d).2 := by
  rcases complete_cases hs d with hd | ⟨j, hr, hj, hk, hg⟩
  · simp [hd]
  · rw [effects_complete hs hr hj hk hg, conclusion]
    split
    · cases s.report? d.outcome <;> simp
    · simp

end Service

namespace History

variable {h : History} {n : Nat} {l : Launch} {j j' : Job} {a : LiveRun} {run : Nat}

theorem released_effects : .released run ∈ h.effects n ↔
    ∃ j ∈ (h.service n).jobs, j ∉ (h.service (n + 1)).jobs ∧ run = j.run := by
  have hsound := h.sound_service n
  have hs := h.step n
  generalize h.service (n + 1) = t at hs ⊢
  generalize h.effects n = fs at hs ⊢
  cases hs with
  | idle dropped =>
    simp only [Command.not_mem_dropped (f := .released run) rfl, false_iff]
    rintro ⟨j, hj, hn, _⟩
    exact hn hj
  | command hc dropped =>
    rw [List.mem_append, or_iff_left (Command.not_mem_dropped rfl)]
    exact Service.released_handle hsound hc.2.1
  | hungUp hr => exact Service.released_handle hsound hr
  | attended => exact Service.released_complete hsound

/-- Only runs that were started earlier are let go. -/
theorem released_lt (hf : .released run ∈ h.log (n + 1)) : run < (h.service n).started := by
  obtain ⟨k, hkn, hf⟩ := mem_log.1 hf
  obtain ⟨j, hj, _, rfl⟩ := released_effects.1 hf
  have hle : (h.service k).started ≤ (h.service n).started :=
    h.started_mono (Nat.le_of_lt_succ hkn)
  exact ((h.sound_service k).started j hj).trans_le hle

theorem not_released_of_begins (hb : h.Begins n l j) : .released j.run ∉ h.log (n + 1) := by
  intro hr
  have hlt := released_lt hr
  rw [(begins_started hb).1] at hlt
  exact Nat.lt_irrefl _ hlt

theorem mem_jobs_of_begins (hb : h.Begins n l j) : j ∈ (h.service (n + 1)).jobs := by
  obtain ⟨starts, c, hc, hl, hst, rfl⟩ := hb
  rw [(service_command hc).1, Service.mem_jobs_handle (h.sound_service n) hc.2.1]
  exact Or.inr ⟨l, hl, hst, rfl⟩

/-- Registered runs have different numbers. -/
theorem eq_of_run (hj : j ∈ (h.service n).jobs) (hj' : j' ∈ (h.service n).jobs)
    (hr : j.run = j'.run) : j = j' := by
  obtain ⟨_, m, l, hb, _⟩ := mem_jobs_iff.1 hj
  obtain ⟨_, m', l', hb', _⟩ := mem_jobs_iff.1 hj'
  obtain rfl := begins_of_run hb hb' hr
  exact (begins_unique hb hb').2

theorem held_succ : Held (h.log (n + 1)) a ↔ .released a.run ∉ h.effects n ∧
    (Held (h.log n) a ∨ .released a.run ∉ h.log n ∧ ∃ l j, h.Begins n l j ∧ a = j.live) := by
  simp only [Held, log_succ, List.mem_append, not_or, exists_or]
  constructor
  · rintro ⟨hs | ⟨i, t, hs⟩, hr, hr'⟩
    · exact ⟨hr', Or.inl ⟨hs, hr⟩⟩
    · exact ⟨hr', Or.inr ⟨hr, begins_of_started hs⟩⟩
  · rintro ⟨hr', ⟨hs, hr⟩ | ⟨hr, l, j, hb, rfl⟩⟩
    · exact ⟨Or.inl hs, hr, hr'⟩
    · exact ⟨Or.inr ⟨_, _, started_of_begins hb⟩, hr, hr'⟩

/-- The runs that were started and not let go are the registered ones. -/
theorem held_iff (h : History) (n : Nat) (a : LiveRun) :
    Held (h.log n) a ↔ ∃ j ∈ (h.service n).jobs, a = j.live := by
  induction n with
  | zero =>
    simp [Held, log, service, System.initial, Service.initial, Service.jobs, Registry.empty]
  | succ n ih =>
    rw [held_succ, ih]
    constructor
    · rintro ⟨hr, ⟨j, hj, rfl⟩ | ⟨_, l, j, hb, rfl⟩⟩
      · refine ⟨j, ?_, rfl⟩
        by_contra hn
        exact hr (released_effects.2 ⟨j, hj, hn, rfl⟩)
      · exact ⟨j, mem_jobs_of_begins hb, rfl⟩
    · rintro ⟨j, hj, rfl⟩
      have hmem := hj
      rw [mem_jobs_succ] at hmem
      obtain ⟨_, ⟨hj', _⟩ | ⟨l, hb⟩⟩ := hmem
      · refine ⟨fun hr => ?_, Or.inl ⟨j, hj', rfl⟩⟩
        obtain ⟨i, hi, hn, hrun⟩ := released_effects.1 hr
        exact hn (eq_of_run hj' hi hrun ▸ hj)
      · have hno := not_released_of_begins hb
        rw [log_succ, List.mem_append, not_or] at hno
        exact ⟨hno.2, Or.inr ⟨hno.1, l, j, hb, rfl⟩⟩

section
variable {key : Key} {generation : Nat} {i : Invocation} {t : String} {pre post : List Effect}

/-- When the launcher is asked for a run, it is for a command that is handled, and after the earlier
run of the key was let go. -/
theorem before_launching (hf : h.effects n = pre ++ .launching key generation i t :: post) :
    (∀ j ∈ (h.service n).jobs, j.key = key → .released j.run ∈ pre) ∧
      ∀ n k g i t, Effect.started n k g i t ∉ pre := by
  have hsound := h.sound_service n
  have hmem : .launching key generation i t ∈ h.effects n := by simp [hf]
  have hs := h.step n
  generalize h.service (n + 1) = u at hs
  generalize h.effects n = fs at hs hf hmem
  cases hs with
  | idle => exact absurd hmem (Command.not_mem_dropped rfl)
  | command hc dropped hq =>
    rw [List.mem_append, or_iff_left (Command.not_mem_dropped rfl)] at hmem
    rw [hq (Service.running_of_launching hc.2.1 hmem), List.flatMap_nil, List.append_nil] at hf
    exact Service.before_launching hsound hc.2.1 hf
  | hungUp hr => exact Service.before_launching hsound hr hf
  | attended => exact absurd hmem (Service.launching_not_mem_complete hsound)

theorem not_held_of_launching (hf : h.effects n = pre ++ .launching key generation i t :: post)
    (hk : a.key = key) : ¬ Held (h.log n ++ pre) a := by
  obtain ⟨hreleased, hstarted⟩ := before_launching hf
  -- nothing starts before the launcher is asked, so a held run of the key was registered
  rintro ⟨⟨i', t', hs⟩, hr⟩
  rw [List.mem_append, or_iff_left (hstarted _ _ _ _ _)] at hs
  rw [List.mem_append, not_or] at hr
  obtain ⟨j, hj, rfl⟩ := (h.held_iff n a).1 ⟨⟨i', t', hs⟩, hr.1⟩
  exact hr.2 (hreleased j hj hk)

end

theorem ended_of_shutdown {starts : Invocation → Bool} (hc : h.Handles n starts .shutdown) :
    (h.service (n + 1)).running = false := by
  rw [(service_command hc).1, Service.running_shutdown]

/-- Nobody is left to send commands, and all are handled. -/
theorem ended_of_hungUp (he : h.events[n]? = some .hungUp) (hq : (h.state n).commands = []) :
    (h.service (n + 1)).running = false := by
  rw [service, state_succ he, System.step, System.hangUp, hq, List.isEmpty_nil, if_pos rfl,
    System.service_after, Service.running_shutdown]

/-- No run is orphaned and none is doubled. The runs that were started and not let go are those of
the two registries, each with its key and its generation, so at most one for each key. When the
launcher is asked for a run, there is none of its key. Once the service has ended, by a shutdown or
because nobody is left, every run that was ever started was let go. -/
theorem held_runs (h : History) :
    (∀ n a, Held (h.log n) a ↔
      (∃ e ∈ (h.service n).diagnostics.entries, e.key.purpose = .diagnostics ∧
        a = ⟨e.run, e.key, e.generation⟩) ∨
      (∃ e ∈ (h.service n).hovers.entries, e.key.purpose = .symbols ∧
        a = ⟨e.run, e.key, e.generation⟩)) ∧
    (∀ n a b, Held (h.log n) a → Held (h.log n) b → a.key = b.key → a = b) ∧
    (∀ n pre post key generation invocation input,
      h.effects n = pre ++ .launching key generation invocation input :: post →
        ∀ a, a.key = key → ¬ Held (h.log n ++ pre) a) ∧
    (∀ n, (h.service n).running = false → ∀ run key generation invocation input,
      .started run key generation invocation input ∈ h.log n → .released run ∈ h.log n) ∧
    (∀ n starts, h.Handles n starts .shutdown → (h.service (n + 1)).running = false) ∧
    (∀ n, h.events[n]? = some .hungUp → (h.state n).commands = [] →
      (h.service (n + 1)).running = false) := by
  refine ⟨?_, ?_, ?_, ?_, fun _ _ => ended_of_shutdown, fun _ => ended_of_hungUp⟩
  · intro n a
    have hs := h.sound_service n
    rw [held_iff]
    constructor
    · rintro ⟨j, hj, rfl⟩
      rcases Service.mem_jobs.1 hj with ⟨e, he, rfl⟩ | ⟨e, he, rfl⟩
      · exact Or.inl ⟨e, he, hs.diagnostics.purpose e he, rfl⟩
      · exact Or.inr ⟨e, he, hs.hovers.purpose e he, rfl⟩
    · rintro (⟨e, he, _, rfl⟩ | ⟨e, he, _, rfl⟩)
      · exact ⟨e.map .inl, Service.mem_jobs.2 (Or.inl ⟨e, he, rfl⟩), rfl⟩
      · exact ⟨e.map .inr, Service.mem_jobs.2 (Or.inr ⟨e, he, rfl⟩), rfl⟩
  · intro n a b ha hb hk
    obtain ⟨i, hi, rfl⟩ := (h.held_iff n a).1 ha
    obtain ⟨j, hj, rfl⟩ := (h.held_iff n b).1 hb
    rw [Service.eq_of_mem_jobs (h.sound_service n) hi hj hk]
  · intro n pre post key generation invocation input hf a hk
    exact not_held_of_launching hf hk
  · intro n hr run key generation invocation input hs
    by_contra hnot
    obtain ⟨j, hj, _⟩ := (h.held_iff n ⟨run, key, generation⟩).1 ⟨⟨invocation, input, hs⟩, hnot⟩
    rw [(h.sound_service n).ended hr] at hj
    cases hj

/-- A run is replaced by one that does not start, and then the service ends. -/
def notReplaced : History where
  settings := .default
  events := [.sent (.analyze "a" 1 "x"), .taken fun _ => true, .sent (.analyze "a" 2 "y"),
    .taken fun _ => false, .hungUp]

theorem held_runs_notReplaced : Held (notReplaced.log 3) ⟨0, ⟨"a", .diagnostics⟩, 1⟩ ∧
    ¬ Held (notReplaced.log 5) ⟨0, ⟨"a", .diagnostics⟩, 1⟩ := by
  obtain ⟨hiff, _, _, hall, _⟩ := held_runs notReplaced
  constructor
  · rw [hiff]
    exact Or.inl ⟨⟨⟨"a", .diagnostics⟩, 1, 0, ⟨1⟩⟩, List.mem_singleton.2 rfl, rfl, rfl⟩
  · rintro ⟨⟨i, t, hs⟩, hn⟩
    exact hn (hall 5 (by decide +kernel) _ _ _ _ _ hs)

end History

end AnalyzerBridge
