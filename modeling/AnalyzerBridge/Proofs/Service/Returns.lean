import AnalyzerBridge.Proofs.Service.Delivery

/-! Runs that return: their ends are looked at while they are still registered. Of a document's runs
of one purpose, those that return do so in the order in which they were started. -/
namespace AnalyzerBridge

open Run

/-- The report in the output of a run, if it has output that can be read in this format. -/
def Format.report? (f : Format) (o : Outcome) : Option Report :=
  o.output?.bind fun output => (f.read output).toOption

/-- What comes of a command when its run returns with a report, or with none. -/
def Command.conclusion (c : Command) (run : Nat) (source : String) (report : Option Report) :
    List Effect :=
  .released run :: match c with
    | .analyze uri version _ =>
      (report.map fun r => .published uri (r.diagnostics source) (some version)).toList
    | .hover _ _ position request => [.answered request (report.bind (·.hoverAt position))]
    | _ => []

theorem Format.report?_eq_some {f : Format} {o : Outcome} {r : Report} : f.report? o = some r ↔
    ∃ output, o = .completed output ∧ f.read output = .ok r := by
  cases o with
  | completed output =>
    rw [report?, Outcome.output?, Option.bind_some]
    cases hread : f.read output <;> simp [Except.toOption, hread]
  | _ => simp [report?, Outcome.output?]

section
variable {c : Command} {run request : Nat} {source uri : String} {report : Option Report}
  {ds : List Diagnostic} {version : Int} {x : Hover}

theorem Command.published_conclusion :
    .published uri ds (some version) ∈ c.conclusion run source report ↔
      ∃ text r, c = .analyze uri version text ∧ report = some r ∧ ds = r.diagnostics source := by
  cases c with
  | analyze uri' version' text =>
    cases report with
    | none => simp [conclusion]
    | some r =>
      simp [conclusion]
      grind
  | _ => simp [conclusion]

theorem Command.answered_conclusion :
    .answered request (some x) ∈ c.conclusion run source report ↔ ∃ uri text position r,
      c = .hover uri text position request ∧ report = some r ∧ r.hoverAt position = some x := by
  cases c with
  | hover uri text position request' =>
    cases report with
    | none => simp [conclusion]
    | some r =>
      simp [conclusion]
      grind
  | _ => simp [conclusion]

end

namespace History

/-- The format in force before an event. -/
def format (h : History) (n : Nat) : Format := (h.service n).settings.analyzer.format

/-- The tag of diagnostics in force before an event. -/
def source (h : History) (n : Nat) : String := (h.service n).settings.diagnostics.source

/-- A command is handled, and the run that it asks for starts under the settings in force. -/
def Launches (h : History) (m : Nat) (c : Command) (a : LiveRun) : Prop :=
  ∃ starts l, h.Handles m starts c ∧ c.launch? = some l ∧ l.key = a.key ∧
    .started a.run a.key a.generation ((h.service m).invocation a.key) l.text ∈ h.effects m

/-- The run that a command has started at `m` has ended, and the service looks at its end at `n`. No
command in between has let go of it. -/
structure Returns (h : History) (m n : Nat) (c : Command) (a : LiveRun) (o : Outcome) : Prop where
  launched : h.Launches m c a
  ended : ∃ k, m < k ∧ k < n ∧ h.Ends k a o
  attended : h.Attends n ⟨a.key, a.generation, o⟩
  untouched : ∀ k, m < k → k < n → ¬ h.Evicted k a.key

variable {h : History} {n m n' m' : Nat} {starts : Invocation → Bool} {c c' : Command} {l : Launch}
  {j : Job} {d : Completion} {a a' : LiveRun} {o o' : Outcome}

theorem lt_of_returns (hr : h.Returns m n c a o) : m < n := by
  obtain ⟨k, hmk, hkn, _⟩ := hr.ended
  exact hmk.trans hkn

theorem key_of_returns (hr : h.Returns m n c a o) (hl : c.launch? = some l) : a.key = l.key := by
  obtain ⟨_, l', _, hl', hk, _⟩ := hr.launched
  rw [← hk, Option.some.inj (hl'.symm.trans hl)]

theorem not_evicts_of_returns (hr : h.Returns m n c a o) {k : Nat} (hmk : m < k) (hkn : k < n)
    (hc : h.Handles k starts c') : ¬ c'.Evicts a.key :=
  fun he => hr.untouched k hmk hkn ⟨starts, c', hc, he⟩

/-- No command that lets go of a run is handled before the run returns. -/
theorem ne_of_returns (hr : h.Returns m n c a o) (hl : c.launch? = some l) {k : Nat} (hmk : m < k)
    (hkn : k < n) (hc : h.Handles k starts c') {lets : Command} (he : lets.Evicts l.key) :
    c' ≠ lets := by
  rintro rfl
  rw [← key_of_returns hr hl] at he
  exact not_evicts_of_returns hr hmk hkn hc he

theorem begins_of_started {i : Invocation} {t : String}
    (hf : .started a.run a.key a.generation i t ∈ h.effects n) :
    ∃ l j, h.Begins n l j ∧ a = j.live := by
  have ha : a ∈ (h.effects n).filterMap Effect.started? := List.mem_filterMap.2 ⟨_, hf, rfl⟩
  rcases h.started_effects n with hs | ⟨l, j, hb, hs⟩
  · simp [hs] at ha
  · rw [hs, List.mem_singleton] at ha
    exact ⟨l, j, hb, ha⟩

theorem started_of_begins (hb : h.Begins n l j) :
    .started j.run j.key j.generation ((h.service n).invocation j.key) l.text ∈ h.effects n := by
  obtain ⟨starts, c, hc, hl, hst, rfl⟩ := hb
  exact mem_effects hc ((Service.mem_started_handle hc.2.1).2 ⟨l, hl, hst, rfl, rfl, rfl⟩)

/-- The runs that start are those with which the service begins. -/
theorem launches_iff : h.Launches m c a ↔ ∃ starts l j, h.Handles m starts c ∧
    c.launch? = some l ∧ h.Begins m l j ∧ a = j.live := by
  constructor
  · rintro ⟨starts, l, hc, hl, hk, hf⟩
    obtain ⟨l', j, hb, ha⟩ := begins_of_started hf
    have hb' := hb
    obtain ⟨starts', c', hc', hl', _⟩ := hb'
    obtain ⟨_, rfl⟩ := handles_unique hc hc'
    exact ⟨starts, l', j, hc, hl', hb, ha⟩
  · rintro ⟨starts, l, j, hc, hl, hb, rfl⟩
    have hf := started_of_begins hb
    obtain ⟨starts', c', hc', hl', hst, rfl⟩ := hb
    exact ⟨starts, l, hc, hl, rfl, hf⟩

/-- A run that returns is registered until then. -/
theorem mem_jobs_of_returns (hr : h.Returns m n c a o) : ∃ l j, c.launch? = some l ∧
    h.Begins m l j ∧ a = j.live ∧ j ∈ (h.service n).jobs := by
  obtain ⟨starts, l, j, hc, hl, hb, rfl⟩ := launches_iff.1 hr.launched
  refine ⟨l, j, hl, hb, rfl, mem_jobs_iff.2 ⟨running_of_attends hr.attended, m, l, hb,
    lt_of_returns hr, hr.untouched, ?_⟩⟩
  rintro k _ hkn ⟨o', hd⟩
  exact absurd (attends_once hd hr.attended rfl) (Nat.ne_of_lt hkn)

/-- What the service does when a run returns: it reads the output in the format in force. -/
theorem effects_of_returns (hr : h.Returns m n c a o) : h.effects n =
    c.conclusion a.run (h.source n) ((h.format n).report? o) := by
  obtain ⟨l, j, hl, ⟨starts, c', hc, hl', _, hj⟩, rfl, hmem⟩ := mem_jobs_of_returns hr
  have hrun := running_of_attends hr.attended
  have hctx : j.context = l.request := by rw [hj]; rfl
  have hkey : j.key = l.key := by rw [hj]; rfl
  rw [(service_attended hr.attended).2,
    Service.effects_complete (h.sound_service n) hrun hmem rfl rfl, Service.conclusion, source,
    ← (h.sound_service n).source]
  cases c <;> simp only [Command.launch?, Option.some.injEq, reduceCtorEq] at hl <;> subst hl <;>
    simp only [hctx, hkey] <;> rfl

/-- The end of a registered run is looked at: the run returns. -/
theorem returns_of_mem_jobs (hd : h.Attends n d) (hj : j ∈ (h.service n).jobs)
    (hk : j.key = d.key) (hg : j.generation = d.generation) :
    ∃ m c, h.Returns m n c j.live d.outcome := by
  -- the end belongs to the run whose generation it carries, which is the registered one
  obtain ⟨hr, m, l, hb, hkeep⟩ := mem_jobs_iff.1 hj
  obtain ⟨m', k, l', j', hmk, hkn, hb', he, hk', hg'⟩ := attends_origin hd
  have hm := begins_of_generation hb hb' (by rw [hk, hk']) (hg.trans hg'.symm)
  subst hm
  obtain ⟨rfl, rfl⟩ := begins_unique hb hb'
  have hd' : h.Attends n ⟨j.key, j.generation, d.outcome⟩ := by rwa [hk, hg]
  have hb' := hb
  obtain ⟨starts, c, hc, hl, _⟩ := hb'
  exact ⟨m, c, launches_iff.2 ⟨starts, l, j, hc, hl, hb, rfl⟩, ⟨k, hmk, hkn, he⟩, hd',
    hkeep.untouched⟩

/-- A look at the end of a run is stale and does nothing, or the run returns. -/
theorem returns_of_attends (hd : h.Attends n d) : h.effects n = [] ∨
    ∃ m c a, h.Returns m n c a d.outcome := by
  rcases Service.complete_cases (h.sound_service n) d with hs | ⟨j, _, hj, hk, hg⟩
  · exact Or.inl (by rw [(service_attended hd).2, hs])
  · obtain ⟨m, c, hr⟩ := returns_of_mem_jobs hd hj hk hg
    exact Or.inr ⟨m, c, j.live, hr⟩

/-- Where an effect comes from: a run that returns, a command of a running service, or a hover that
is dropped. -/
theorem effects_cases {f : Effect} (hf : f ∈ h.effects n) : (∃ m c a o, h.Returns m n c a o) ∨
    (∃ starts c, (h.service n).running = true ∧ f ∈ ((h.service n).handle starts c).2) ∨
    ∃ request, f = .answered request none := by
  have hs := h.step n
  generalize h.service (n + 1) = s at hs
  generalize hfs : h.effects n = fs at hs hf
  have hdropped (dropped : List Command) (hf : f ∈ dropped.flatMap Command.dropped) :
      ∃ request, f = .answered request none := by
    obtain ⟨c, _, hf⟩ := List.mem_flatMap.1 hf
    exact Command.eq_of_mem_dropped hf
  cases hs with
  | idle dropped => exact Or.inr (Or.inr (hdropped dropped hf))
  | command hc dropped =>
    rcases List.mem_append.1 hf with hf | hf
    · exact Or.inr (Or.inl ⟨_, _, hc.2.1, hf⟩)
    · exact Or.inr (Or.inr (hdropped dropped hf))
  | hungUp hr => exact Or.inr (Or.inl ⟨_, _, hr, hf⟩)
  | attended hd =>
    rcases returns_of_attends hd with hn | ⟨m, c, a, hr⟩
    · simp [← hfs, hn] at hf
    · exact Or.inl ⟨m, c, a, _, hr⟩

/-- A command that asks for a run lets go of the earlier one. -/
theorem evicted_of_launches (hl : h.Launches m c a) : h.Evicted m a.key := by
  obtain ⟨starts, l, hc, hl, hk, _⟩ := hl
  exact ⟨starts, c, hc, hk ▸ Command.evicts_of_launch hl⟩

theorem launches_unique (hl : h.Launches m c a) (hl' : h.Launches m c' a') : c = c' ∧ a = a' := by
  obtain ⟨_, l, j, hc, _, hb, rfl⟩ := launches_iff.1 hl
  obtain ⟨_, l', j', hc', _, hb', rfl⟩ := launches_iff.1 hl'
  exact ⟨(handles_unique hc hc').2, by rw [(begins_unique hb hb').2]⟩

/-- Every run returns at most once. -/
theorem returns_once (hr : h.Returns m n c a o) (hr' : h.Returns m' n' c' a o') :
    m = m' ∧ n = n' := by
  refine ⟨?_, attends_once hr.attended hr'.attended rfl⟩
  obtain ⟨_, l, j, _, _, hb, hj⟩ := launches_iff.1 hr.launched
  obtain ⟨_, l', j', _, _, hb', hj'⟩ := launches_iff.1 hr'.launched
  exact begins_of_run hb hb' (congrArg LiveRun.run (hj.symm.trans hj'))

theorem returns_lt_of_lt (hr : h.Returns m n c a o) (hr' : h.Returns m' n' c' a' o')
    (hk : a.key = a'.key) (hn : n < n') : m < m' := by
  rcases lt_trichotomy m m' with hm | rfl | hm
  · exact hm
  · obtain ⟨_, rfl⟩ := launches_unique hr.launched hr'.launched
    exact absurd (returns_once hr hr').2 (Nat.ne_of_lt hn)
  · -- the later return would be that of a run let go at `m`
    have he := evicted_of_launches hr.launched
    rw [hk] at he
    exact absurd he (hr'.untouched m hm ((lt_of_returns hr).trans hn))

/-- Runs of one key return in the order in which they were started. -/
theorem returns_lt_iff (hr : h.Returns m n c a o) (hr' : h.Returns m' n' c' a' o')
    (hk : a.key = a'.key) : n < n' ↔ m < m' := by
  refine ⟨returns_lt_of_lt hr hr' hk, fun hm => ?_⟩
  rcases lt_trichotomy n n' with hn | rfl | hn
  · exact hn
  · obtain ⟨_, l, j, _, _, hb, rfl⟩ := launches_iff.1 hr.launched
    obtain ⟨_, l', j', _, _, hb', rfl⟩ := launches_iff.1 hr'.launched
    have hd := attends_unique hr.attended hr'.attended
    have hg : j.generation = j'.generation := congrArg Completion.generation hd
    have hp : j.key.purpose = j'.key.purpose := congrArg (·.key.purpose) hd
    exact absurd (begins_of_generation hb hb' hp hg) (Nat.ne_of_lt hm)
  · exact absurd (returns_lt_of_lt hr' hr hk.symm hn) (by omega)

end History

end AnalyzerBridge
