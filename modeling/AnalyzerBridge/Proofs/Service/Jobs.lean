import AnalyzerBridge.Proofs.Run.Registry
import AnalyzerBridge.Service.Basic

/-! The registered runs of both purposes in one view, and what every command and every end of a run
does to them. -/
namespace AnalyzerBridge

open Run

theorem Run.Key.eq_iff {key : Key} {uri : String} {p : Purpose} :
    key = ⟨uri, p⟩ ↔ key.uri = uri ∧ key.purpose = p := by
  cases key
  simp

/-- A registered run with what it is for. -/
abbrev Job := Registration (AnalyzeRequest ⊕ HoverRequest)

/-- What a command wants to be run. -/
structure Launch where
  key : Key
  request : AnalyzeRequest ⊕ HoverRequest
  text : String

namespace Command

def launch? : Command → Option Launch
  | analyze uri version text => some ⟨⟨uri, .diagnostics⟩, .inl ⟨version⟩, text⟩
  | hover uri text position request => some ⟨⟨uri, .symbols⟩, .inr ⟨position, request⟩, text⟩
  | _ => none

/-- Does a command let go of the run of this key? -/
def Evicts : Command → Key → Prop
  | analyze uri _ _, key => key = ⟨uri, .diagnostics⟩
  | close uri, key => key.uri = uri
  | hover uri _ _ _, key => key = ⟨uri, .symbols⟩
  | configure _, _ => False
  | shutdown, _ => True

theorem evicts_of_launch {c : Command} {l : Launch} (h : c.launch? = some l) : c.Evicts l.key := by
  cases c <;> simp_all [launch?, Evicts] <;> simp [← h]

end Command

/-- A registration with its context seen in another way. -/
def Run.Registration.map {α β : Type} (f : α → β) (e : Registration α) : Registration β :=
  ⟨e.key, e.generation, e.run, f e.context⟩

section
variable {α β : Type} {f : α → β} {e : Registration α}

@[simp] theorem Run.Registration.key_map : (e.map f).key = e.key := rfl

@[simp] theorem Run.Registration.generation_map : (e.map f).generation = e.generation := rfl

@[simp] theorem Run.Registration.context_map : (e.map f).context = f e.context := rfl

end

namespace Service

variable {s : Service} {c : Command} {j : Job} {starts : Invocation → Bool} {d : Completion}

def jobs (s : Service) : List Job :=
  s.diagnostics.entries.map (·.map .inl) ++ s.hovers.entries.map (·.map .inr)

theorem mem_jobs : j ∈ s.jobs ↔ (∃ e ∈ s.diagnostics.entries, e.map .inl = j) ∨
    ∃ e ∈ s.hovers.entries, e.map .inr = j := by
  simp [jobs]

/-- The generation that was given out last for a purpose. -/
def issued (s : Service) : Purpose → Nat
  | .diagnostics => s.diagnostics.issued
  | .symbols => s.hovers.issued

def invocation (s : Service) (key : Key) : Invocation :=
  s.settings.analyzer.invocation key.purpose

/-- The run that starts now, if it starts. -/
def job (s : Service) (l : Launch) : Job :=
  ⟨l.key, s.issued l.key.purpose + 1, s.started, l.request⟩

/-- What every step keeps. -/
structure Sound (s : Service) : Prop where
  diagnostics : s.diagnostics.Sound .diagnostics
  hovers : s.hovers.Sound .symbols
  started : ∀ j ∈ s.jobs, j.run < s.started
  ended : s.running = false → s.jobs = []
  source : s.source = s.settings.diagnostics.source

theorem sound_initial (settings : Settings) : (initial settings).Sound where
  diagnostics := Registry.sound_empty
  hovers := Registry.sound_empty
  started j hj := by simp [initial, jobs, Registry.empty] at hj
  ended _ := rfl
  source := rfl

theorem eq_of_mem_jobs (hs : s.Sound) {a b : Job} (ha : a ∈ s.jobs) (hb : b ∈ s.jobs)
    (hk : a.key = b.key) : a = b := by
  rcases mem_jobs.1 ha with ⟨x, hx, rfl⟩ | ⟨x, hx, rfl⟩ <;>
    rcases mem_jobs.1 hb with ⟨y, hy, rfl⟩ | ⟨y, hy, rfl⟩
  · rw [Registry.eq_of_key hs.diagnostics.distinct hx hy hk]
  · have hp := hs.hovers.purpose y hy
    rw [← show x.key = y.key from hk, hs.diagnostics.purpose x hx] at hp
    cases hp
  · have hp := hs.hovers.purpose x hx
    rw [show x.key = y.key from hk, hs.diagnostics.purpose y hy] at hp
    cases hp
  · rw [Registry.eq_of_key hs.hovers.distinct hx hy hk]

/-- The registered runs after a change of the registry of diagnostics runs. -/
theorem mem_jobs_diagnostics (hs : s.Sound) {key : Key} (hp : key.purpose = .diagnostics)
    {r : Registry AnalyzeRequest} {P : Registration AnalyzeRequest → Prop}
    (hr : ∀ e, e ∈ r.entries ↔ (e ∈ s.diagnostics.entries ∧ e.key ≠ key) ∨ P e) :
    j ∈ ({ s with diagnostics := r } : Service).jobs ↔
      (j ∈ s.jobs ∧ j.key ≠ key) ∨ ∃ e, P e ∧ e.map .inl = j := by
  have hother : ∀ e ∈ s.hovers.entries, e.key ≠ key := by
    intro e he hk
    have hq := hs.hovers.purpose e he
    rw [hk, hp] at hq
    cases hq
  simp only [mem_jobs, hr]
  constructor
  · rintro (⟨e, ⟨he, hk⟩ | he, rfl⟩ | ⟨e, he, rfl⟩)
    · exact Or.inl ⟨Or.inl ⟨e, he, rfl⟩, hk⟩
    · exact Or.inr ⟨e, he, rfl⟩
    · exact Or.inl ⟨Or.inr ⟨e, he, rfl⟩, hother e he⟩
  · rintro (⟨⟨e, he, rfl⟩ | ⟨e, he, rfl⟩, hk⟩ | ⟨e, he, rfl⟩)
    · exact Or.inl ⟨e, Or.inl ⟨he, hk⟩, rfl⟩
    · exact Or.inr ⟨e, he, rfl⟩
    · exact Or.inl ⟨e, Or.inr he, rfl⟩

/-- The registered runs after a change of the registry of hover runs. -/
theorem mem_jobs_hovers (hs : s.Sound) {key : Key} (hp : key.purpose = .symbols)
    {r : Registry HoverRequest} {P : Registration HoverRequest → Prop}
    (hr : ∀ e, e ∈ r.entries ↔ (e ∈ s.hovers.entries ∧ e.key ≠ key) ∨ P e) :
    j ∈ ({ s with hovers := r } : Service).jobs ↔
      (j ∈ s.jobs ∧ j.key ≠ key) ∨ ∃ e, P e ∧ e.map .inr = j := by
  have hother : ∀ e ∈ s.diagnostics.entries, e.key ≠ key := by
    intro e he hk
    have hq := hs.diagnostics.purpose e he
    rw [hk, hp] at hq
    cases hq
  simp only [mem_jobs, hr]
  constructor
  · rintro (⟨e, he, rfl⟩ | ⟨e, ⟨he, hk⟩ | he, rfl⟩)
    · exact Or.inl ⟨Or.inl ⟨e, he, rfl⟩, hother e he⟩
    · exact Or.inl ⟨Or.inr ⟨e, he, rfl⟩, hk⟩
    · exact Or.inr ⟨e, he, rfl⟩
  · rintro (⟨⟨e, he, rfl⟩ | ⟨e, he, rfl⟩, hk⟩ | ⟨e, he, rfl⟩)
    · exact Or.inl ⟨e, he, rfl⟩
    · exact Or.inr ⟨e, Or.inl ⟨he, hk⟩, rfl⟩
    · exact Or.inr ⟨e, Or.inr he, rfl⟩

theorem nextRun_eq_some {i : Invocation} {n : Nat} :
    s.nextRun starts i = some n ↔ starts i = true ∧ n = s.started := by
  rw [nextRun]
  cases starts i <;> simp [eq_comm]

theorem mem_jobs_analyze (hs : s.Sound) {uri text : String} {version : Int} :
    j ∈ (s.analyze starts uri version text).1.jobs ↔ (j ∈ s.jobs ∧ j.key ≠ ⟨uri, .diagnostics⟩) ∨
      starts (s.invocation ⟨uri, .diagnostics⟩) = true ∧
        j = s.job ⟨⟨uri, .diagnostics⟩, .inl ⟨version⟩, text⟩ := by
  refine (mem_jobs_diagnostics hs rfl fun e => Registry.mem_replace).trans (or_congr_right ?_)
  constructor
  · rintro ⟨e, ⟨n, hn, rfl⟩, rfl⟩
    obtain ⟨hst, rfl⟩ := nextRun_eq_some.1 hn
    exact ⟨hst, rfl⟩
  · rintro ⟨hst, rfl⟩
    exact ⟨_, ⟨s.started, nextRun_eq_some.2 ⟨hst, rfl⟩, rfl⟩, rfl⟩

theorem mem_jobs_hover (hs : s.Sound) {uri text : String} {request : HoverRequest} :
    j ∈ (s.hover starts uri text request).1.jobs ↔ (j ∈ s.jobs ∧ j.key ≠ ⟨uri, .symbols⟩) ∨
      starts (s.invocation ⟨uri, .symbols⟩) = true ∧
        j = s.job ⟨⟨uri, .symbols⟩, .inr request, text⟩ := by
  refine (mem_jobs_hovers hs rfl fun e => Registry.mem_replace).trans (or_congr_right ?_)
  constructor
  · rintro ⟨e, ⟨n, hn, rfl⟩, rfl⟩
    obtain ⟨hst, rfl⟩ := nextRun_eq_some.1 hn
    exact ⟨hst, rfl⟩
  · rintro ⟨hst, rfl⟩
    exact ⟨_, ⟨s.started, nextRun_eq_some.2 ⟨hst, rfl⟩, rfl⟩, rfl⟩

theorem mem_jobs_erase_diagnostics (hs : s.Sound) {key : Key} (hp : key.purpose = .diagnostics) :
    j ∈ ({ s with diagnostics := s.diagnostics.erase key } : Service).jobs ↔
      j ∈ s.jobs ∧ j.key ≠ key := by
  simpa using mem_jobs_diagnostics (P := fun _ => False) hs hp (by simp)

theorem mem_jobs_erase_hovers (hs : s.Sound) {key : Key} (hp : key.purpose = .symbols) :
    j ∈ ({ s with hovers := s.hovers.erase key } : Service).jobs ↔ j ∈ s.jobs ∧ j.key ≠ key := by
  simpa using mem_jobs_hovers (P := fun _ => False) hs hp (by simp)

theorem mem_jobs_close (hs : s.Sound) {uri : String} :
    j ∈ (s.close uri).1.jobs ↔ j ∈ s.jobs ∧ j.key.uri ≠ uri := by
  simp only [mem_jobs, close, Registry.mem_erase, ne_eq, Key.eq_iff, not_and]
  constructor
  · rintro (⟨e, ⟨he, hk⟩, rfl⟩ | ⟨e, ⟨he, hk⟩, rfl⟩)
    · exact ⟨Or.inl ⟨e, he, rfl⟩, fun hu => hk hu (hs.diagnostics.purpose e he)⟩
    · exact ⟨Or.inr ⟨e, he, rfl⟩, fun hu => hk hu (hs.hovers.purpose e he)⟩
  · rintro ⟨⟨e, he, rfl⟩ | ⟨e, he, rfl⟩, hk⟩
    · exact Or.inl ⟨e, ⟨he, fun hu => absurd hu hk⟩, rfl⟩
    · exact Or.inr ⟨e, ⟨he, fun hu => absurd hu hk⟩, rfl⟩

theorem jobs_configure {overrides : Json} : (s.configure overrides).jobs = s.jobs := by
  rw [configure]
  split <;> rfl

/-- A command lets go of the runs that it evicts, and registers the run that it asks for. -/
theorem mem_jobs_handle (hs : s.Sound) (hr : s.running = true) :
    j ∈ (s.handle starts c).1.jobs ↔ (j ∈ s.jobs ∧ ¬ c.Evicts j.key) ∨
      ∃ l, c.launch? = some l ∧ starts (s.invocation l.key) = true ∧ j = s.job l := by
  cases c with
  | analyze uri version text =>
    simpa [handle, hr, Command.launch?, Command.Evicts] using mem_jobs_analyze hs
  | hover uri text position request =>
    simpa [handle, hr, Command.launch?, Command.Evicts] using mem_jobs_hover hs
  | close uri => simpa [handle, hr, Command.launch?, Command.Evicts] using mem_jobs_close hs
  | configure overrides => simp [handle, hr, Command.launch?, Command.Evicts, jobs_configure]
  | shutdown => simp [handle, hr, Command.launch?, Command.Evicts, stop, jobs, Registry.clear]

/-- What the service does about the end of a registered run. -/
def conclusion (s : Service) (j : Job) (o : Outcome) : List Effect :=
  .released j.run :: match j.context with
    | .inl a => ((s.report? o).map fun r =>
        .published j.key.uri (r.diagnostics s.source) (some a.version)).toList
    | .inr q => [.answered q.request ((s.report? o).bind (·.hoverAt q.position))]

theorem complete_diagnostics (hs : s.Sound) (hr : s.running = true)
    {e : Registration AnalyzeRequest} (he : e ∈ s.diagnostics.entries) (o : Outcome) :
    s.complete ⟨e.key, e.generation, o⟩ =
      ({ s with diagnostics := s.diagnostics.erase e.key }, s.conclusion (e.map .inl) o) := by
  have hp := hs.diagnostics.purpose e he
  simp only [complete, hr, if_true, hp, completeDiagnostics,
    Registry.complete_of_mem hs.diagnostics.distinct he, conclusion, Registration.map]
  cases s.report? o <;> rfl

theorem complete_hovers (hs : s.Sound) (hr : s.running = true)
    {e : Registration HoverRequest} (he : e ∈ s.hovers.entries) (o : Outcome) :
    s.complete ⟨e.key, e.generation, o⟩ =
      ({ s with hovers := s.hovers.erase e.key }, s.conclusion (e.map .inr) o) := by
  have hp := hs.hovers.purpose e he
  simp only [complete, hr, if_true, hp, completeHover,
    Registry.complete_of_mem hs.hovers.distinct he, conclusion, Registration.map]

/-- The end of a run that is not the registered one of its key changes nothing. -/
theorem complete_of_stale (h : ∀ j ∈ s.jobs, j.key = d.key → j.generation ≠ d.generation) :
    s.complete d = (s, []) := by
  rw [complete]
  split
  · split
    · rw [completeDiagnostics, Registry.complete_of_stale fun e he =>
        h (e.map .inl) (mem_jobs.2 (Or.inl ⟨e, he, rfl⟩))]
    · rw [completeHover, Registry.complete_of_stale fun e he =>
        h (e.map .inr) (mem_jobs.2 (Or.inr ⟨e, he, rfl⟩))]
  · rfl

/-- The end of a run is stale, or belongs to a registered run. -/
theorem complete_cases (hs : s.Sound) (d : Completion) : s.complete d = (s, []) ∨
    ∃ j, s.running = true ∧ j ∈ s.jobs ∧ j.key = d.key ∧ j.generation = d.generation := by
  by_cases hc : ∃ j ∈ s.jobs, j.key = d.key ∧ j.generation = d.generation
  · obtain ⟨j, hj, hk, hg⟩ := hc
    cases hr : s.running with
    | false => exact absurd hj (by simp [hs.ended hr])
    | true => exact Or.inr ⟨j, rfl, hj, hk, hg⟩
  · exact Or.inl (complete_of_stale fun j hj hk hg => hc ⟨j, hj, hk, hg⟩)

theorem effects_complete (hs : s.Sound) (hr : s.running = true) (hj : j ∈ s.jobs)
    (hk : j.key = d.key) (hg : j.generation = d.generation) :
    (s.complete d).2 = s.conclusion j d.outcome := by
  obtain ⟨key, generation, o⟩ := d
  subst hk hg
  rcases mem_jobs.1 hj with ⟨e, he, rfl⟩ | ⟨e, he, rfl⟩
  · exact congrArg Prod.snd (complete_diagnostics hs hr he o)
  · exact congrArg Prod.snd (complete_hovers hs hr he o)

/-- The end of a run takes it out of the registered ones. -/
theorem mem_jobs_complete (hs : s.Sound) (hr : s.running = true) :
    j ∈ (s.complete d).1.jobs ↔ j ∈ s.jobs ∧ ¬ (j.key = d.key ∧ j.generation = d.generation) := by
  by_cases hc : ∃ a ∈ s.jobs, a.key = d.key ∧ a.generation = d.generation
  · obtain ⟨a, ha, hk, hg⟩ := hc
    obtain ⟨key, generation, o⟩ := d
    subst hk hg
    have he : j ∈ (s.complete ⟨a.key, a.generation, o⟩).1.jobs ↔ j ∈ s.jobs ∧ j.key ≠ a.key := by
      rcases mem_jobs.1 ha with ⟨e, he, rfl⟩ | ⟨e, he, rfl⟩
      · rw [Registration.key_map, Registration.generation_map, complete_diagnostics hs hr he o]
        exact mem_jobs_erase_diagnostics hs (hs.diagnostics.purpose e he)
      · rw [Registration.key_map, Registration.generation_map, complete_hovers hs hr he o]
        exact mem_jobs_erase_hovers hs (hs.hovers.purpose e he)
    rw [he]
    refine and_congr_right fun hj => not_congr ⟨fun hk => ⟨hk, ?_⟩, And.left⟩
    rw [eq_of_mem_jobs hs hj ha hk]
  · rw [complete_of_stale fun a ha hk hg => hc ⟨a, ha, hk, hg⟩]
    exact ⟨fun hj => ⟨hj, fun h => hc ⟨j, hj, h⟩⟩, And.left⟩

theorem started_le_handle : s.started ≤ (s.handle starts c).1.started := by
  rw [handle.eq_def]
  split
  · cases c with
    | configure overrides => simp only [configure]; split <;> exact Nat.le_refl _
    | _ => simp [analyze, hover, close, stop]
  · exact Nat.le_refl _

theorem started_lt_handle (hr : s.running = true) {l : Launch} (hl : c.launch? = some l)
    (hst : starts (s.invocation l.key) = true) : s.started < (s.handle starts c).1.started := by
  cases c <;> simp only [Command.launch?, Option.some.injEq, reduceCtorEq] at hl <;> subst hl <;>
    simp_all [handle, analyze, hover, nextRun, invocation]

theorem issued_le_handle (p : Purpose) : s.issued p ≤ (s.handle starts c).1.issued p := by
  rw [handle.eq_def]
  split
  · cases c with
    | configure overrides => simp only [configure]; split <;> exact Nat.le_refl _
    | _ => cases p <;> simp [analyze, hover, close, stop, issued]
  · exact Nat.le_refl _

theorem issued_handle (hr : s.running = true) {l : Launch} (hl : c.launch? = some l) :
    (s.handle starts c).1.issued l.key.purpose = s.issued l.key.purpose + 1 := by
  cases c <;> simp only [Command.launch?, Option.some.injEq, reduceCtorEq] at hl <;> subst hl <;>
    simp [handle, hr, analyze, hover, issued]

theorem started_complete : (s.complete d).1.started = s.started := by
  rw [complete]
  split
  · split <;> rfl
  · rfl

theorem issued_complete (p : Purpose) : (s.complete d).1.issued p = s.issued p := by
  rw [complete]
  split
  · split
    · cases p <;> simp [completeDiagnostics, issued]
    · cases p <;> simp [completeHover, issued]
  · rfl

theorem running_complete : (s.complete d).1.running = s.running := by
  rw [complete]
  split
  · split <;> rfl
  · rfl

/-- Only a shutdown ends the service. -/
theorem running_handle (hr : s.running = true) :
    (s.handle starts c).1.running = true ↔ c ≠ .shutdown := by
  cases c with
  | configure overrides => simp only [handle, hr, if_true, configure]; split <;> simp [hr]
  | _ => simp [handle, hr, analyze, hover, close, stop]

theorem running_shutdown : (s.handle starts .shutdown).1.running = false := by
  cases hr : s.running <;> simp [handle.eq_def, hr, stop]

theorem handle_of_ended (hr : s.running = false) : s.handle starts c = (s, c.dropped) := by
  simp [handle.eq_def, hr]

theorem complete_of_ended (hr : s.running = false) : s.complete d = (s, []) := by
  simp [complete, hr]

theorem jobs_handle_shutdown (hr : s.running = true) : (s.handle starts .shutdown).1.jobs = [] := by
  simp [handle, hr, stop, jobs, Registry.clear]

theorem sound_handle (hs : s.Sound) : (s.handle starts c).1.Sound := by
  cases hr : s.running with
  | false => simpa [handle_of_ended hr] using hs
  | true =>
    constructor
    · cases c with
      | configure overrides =>
        simp only [handle, hr, if_true, configure]
        split <;> exact hs.diagnostics
      | analyze uri version text =>
        simpa [handle, hr, analyze] using Registry.sound_replace hs.diagnostics rfl
      | close uri => simpa [handle, hr, close] using Registry.sound_erase hs.diagnostics
      | hover uri text position request => simpa [handle, hr, hover] using hs.diagnostics
      | shutdown => simpa [handle, hr, stop] using Registry.sound_clear
    · cases c with
      | configure overrides =>
        simp only [handle, hr, if_true, configure]
        split <;> exact hs.hovers
      | analyze uri version text => simpa [handle, hr, analyze] using hs.hovers
      | close uri => simpa [handle, hr, close] using Registry.sound_erase hs.hovers
      | hover uri text position request =>
        simpa [handle, hr, hover] using Registry.sound_replace hs.hovers rfl
      | shutdown => simpa [handle, hr, stop] using Registry.sound_clear
    · intro j hj
      rcases (mem_jobs_handle hs hr).1 hj with ⟨hj, _⟩ | ⟨l, hl, hst, rfl⟩
      · exact Nat.lt_of_lt_of_le (hs.started j hj) started_le_handle
      · exact started_lt_handle hr hl hst
    · intro he
      have hc : c = .shutdown := by
        by_contra hc
        rw [(running_handle hr).2 hc] at he
        cases he
      rw [hc, jobs_handle_shutdown hr]
    · cases c with
      | configure overrides =>
        simp only [handle, hr, if_true, configure]
        split
        · rfl
        · exact hs.source
      | _ => simpa [handle, hr, analyze, hover, close, stop] using hs.source

theorem sound_complete (hs : s.Sound) : (s.complete d).1.Sound := by
  cases hr : s.running with
  | false => simpa [complete_of_ended hr] using hs
  | true =>
    constructor
    · rw [complete, if_pos hr]
      split
      · simp only [completeDiagnostics, Registry.complete]
        split
        · exact Registry.sound_erase hs.diagnostics
        · exact hs.diagnostics
      · exact hs.diagnostics
    · rw [complete, if_pos hr]
      split
      · exact hs.hovers
      · simp only [completeHover, Registry.complete]
        split
        · exact Registry.sound_erase hs.hovers
        · exact hs.hovers
    · intro j hj
      rw [started_complete]
      exact hs.started j ((mem_jobs_complete hs hr).1 hj).1
    · intro he
      rw [running_complete, hr] at he
      cases he
    · rw [complete, if_pos hr]
      split <;> exact hs.source

end Service

end AnalyzerBridge
