import AnalyzerBridge.Proofs.Service.Reading

/-! Two services that are alike for the runs of one key: under the same settings they serve the same
request of that key, under generations and numbers of their own. Commands and ends of runs that do
not concern the key leave them so, and the others do the same to both. -/
namespace AnalyzerBridge

open Run

namespace Command

variable {c : Command} {key : Key} {l : Launch}

/-- Does a command concern the runs of this key? -/
def concerns (key : Key) : Command → Bool
  | analyze uri _ _ => key = ⟨uri, .diagnostics⟩
  | close uri => key.uri = uri
  | hover uri _ _ _ => key = ⟨uri, .symbols⟩
  | configure _ => true
  | shutdown => true

theorem concerns_iff :
    c.concerns key = true ↔ c.Evicts key ∨ ∃ overrides, c = .configure overrides := by
  cases c <;> simp [concerns, Evicts]

theorem not_evicts_of_apart (h : c.concerns key = false) : ¬ c.Evicts key := by
  intro he
  rw [concerns_iff.2 (.inl he)] at h
  cases h

theorem key_of_launch (h : c.concerns key = true) (hl : c.launch? = some l) : l.key = key := by
  cases c <;> simp only [launch?, Option.some.injEq, reduceCtorEq] at hl <;> subst hl <;>
    exact (of_decide_eq_true h).symm

theorem launch_ne_of_apart (h : c.concerns key = false) (hl : c.launch? = some l) :
    l.key ≠ key := by
  rintro rfl
  exact not_evicts_of_apart h (evicts_of_launch hl)

end Command

namespace Service

variable {s t : Service} {c : Command} {key : Key} {g g' : Nat} {starts : Invocation → Bool}
  {x x' : AnalyzeRequest ⊕ HoverRequest} {d d' : Completion} {l : Launch}

/-- A run of a key is registered with this generation, for this request. -/
def Has (s : Service) (key : Key) (g : Nat) (x : AnalyzeRequest ⊕ HoverRequest) : Prop :=
  ∃ j ∈ s.jobs, j.key = key ∧ j.generation = g ∧ j.context = x

theorem has_unique (hs : s.Sound) (hx : s.Has key g x) (hx' : s.Has key g' x') :
    g = g' ∧ x = x' := by
  obtain ⟨j, hj, rfl, rfl, rfl⟩ := hx
  obtain ⟨j', hj', hk, rfl, rfl⟩ := hx'
  rw [eq_of_mem_jobs hs hj' hj hk]
  exact ⟨rfl, rfl⟩

theorem has_handle (hs : s.Sound) (hr : s.running = true) : (s.handle starts c).1.Has key g x ↔
    (s.Has key g x ∧ ¬ c.Evicts key) ∨ ∃ l, c.launch? = some l ∧
      starts (s.invocation l.key) = true ∧ l.key = key ∧ g = s.issued l.key.purpose + 1 ∧
        x = l.request := by
  simp only [Has, mem_jobs_handle hs hr]
  constructor
  · rintro ⟨j, ⟨hj, he⟩ | ⟨l, hl, hst, rfl⟩, rfl, rfl, rfl⟩
    · exact .inl ⟨⟨j, hj, rfl, rfl, rfl⟩, he⟩
    · exact .inr ⟨l, hl, hst, rfl, rfl, rfl⟩
  · rintro (⟨⟨j, hj, rfl, rfl, rfl⟩, he⟩ | ⟨l, hl, hst, rfl, rfl, rfl⟩)
    · exact ⟨j, .inl ⟨hj, he⟩, rfl, rfl, rfl⟩
    · exact ⟨s.job l, .inr ⟨l, hl, hst, rfl⟩, rfl, rfl, rfl⟩

theorem has_complete (hs : s.Sound) : (s.complete d).1.Has key g x ↔
    s.Has key g x ∧ ¬ (key = d.key ∧ g = d.generation) := by
  cases hr : s.running with
  | false =>
    rw [complete_of_ended hr]
    refine (and_iff_left_of_imp ?_).symm
    rintro ⟨j, hj, _⟩
    rw [hs.ended hr] at hj
    cases hj
  | true =>
    simp only [Has, mem_jobs_complete hs hr]
    constructor
    · rintro ⟨j, ⟨hj, hd⟩, rfl, rfl, rfl⟩
      exact ⟨⟨j, hj, rfl, rfl, rfl⟩, hd⟩
    · rintro ⟨⟨j, hj, rfl, rfl, rfl⟩, hd⟩
      exact ⟨j, ⟨hj, hd⟩, rfl, rfl, rfl⟩

theorem has_le (hs : s.Sound) (h : s.Has key g x) : g ≤ s.issued key.purpose := by
  obtain ⟨j, hj, rfl, rfl, rfl⟩ := h
  rcases mem_jobs.1 hj with ⟨e, he, rfl⟩ | ⟨e, he, rfl⟩
  · rw [Registration.key_map, hs.diagnostics.purpose e he]
    exact hs.diagnostics.issued e he
  · rw [Registration.key_map, hs.hovers.purpose e he]
    exact hs.hovers.issued e he

/-- Two services are alike for a key. -/
structure Like (key : Key) (s t : Service) : Prop where
  settings : t.settings = s.settings
  running : t.running = s.running
  serves : ∀ x, (∃ g, s.Has key g x) ↔ ∃ g, t.Has key g x

theorem invocation_eq (h : Like key s t) (k : Key) : t.invocation k = s.invocation k := by
  rw [invocation, h.settings, invocation]

/-- Two generations of a key that are registered in both services or in none. -/
def Twins (key : Key) (s t : Service) (g g' : Nat) : Prop :=
  (∃ x, s.Has key g x) ↔ ∃ x, t.Has key g' x

/-! ## Commands -/

section
variable (hc : c.concerns key = false) (hs : s.Sound) (hr : s.running = true)
include hc hs hr

theorem has_handle_apart : (s.handle starts c).1.Has key g x ↔ s.Has key g x := by
  rw [has_handle hs hr]
  constructor
  · rintro (⟨hx, _⟩ | ⟨l, hl, _, hk, _⟩)
    · exact hx
    · exact absurd hk (Command.launch_ne_of_apart hc hl)
  · intro hx
    exact .inl ⟨hx, Command.not_evicts_of_apart hc⟩

omit hs in
theorem running_handle_apart : (s.handle starts c).1.running = true := by
  refine (running_handle hr).2 ?_
  rintro rfl
  cases hc

theorem like_handle_apart (h : Like key s t) : Like key (s.handle starts c).1 t := by
  constructor
  · rw [h.settings, settings_handle hr]
    cases c with
    | configure overrides => cases hc
    | _ => rfl
  · rw [h.running, hr, running_handle_apart hc hr]
  · intro x
    simp only [has_handle_apart hc hs hr]
    exact h.serves x

theorem twins_handle_apart : Twins key (s.handle starts c).1 t g g' ↔ Twins key s t g g' := by
  simp only [Twins, has_handle_apart hc hs hr]

end

section
variable (hc : c.concerns key = true) (hs : s.Sound) (ht : t.Sound) (hr : s.running = true)
  (h : Like key s t)
include hc hs ht hr h

theorem like_handle : Like key (s.handle starts c).1 (t.handle starts c).1 := by
  have hrt : t.running = true := h.running.trans hr
  constructor
  · rw [settings_handle hr, settings_handle hrt, h.settings]
    cases c with
    | configure overrides => rw [accepted?, accepted?, h.settings]
    | _ => rfl
  · rw [Bool.eq_iff_iff, running_handle hr, running_handle hrt]
  · intro x
    have hserves := h.serves x
    simp only [has_handle hs hr, has_handle ht hrt, invocation_eq h, exists_or, exists_and_right]
    refine or_congr (and_congr_left' hserves) ?_
    constructor
    · rintro ⟨_, l, hl, hst, hk, _, hx⟩
      exact ⟨_, l, hl, hst, hk, rfl, hx⟩
    · rintro ⟨_, l, hl, hst, hk, _, hx⟩
      exact ⟨_, l, hl, hst, hk, rfl, hx⟩

/-- Older generations that are twins remain so. -/
theorem twins_handle (hg : g ≤ s.issued key.purpose) (hg' : g' ≤ t.issued key.purpose)
    (htwins : Twins key s t g g') :
    Twins key (s.handle starts c).1 (t.handle starts c).1 g g' := by
  have hrt : t.running = true := h.running.trans hr
  have hold {u : Service} {i : Nat} (hu : u.Sound) (hru : u.running = true)
      (hi : i ≤ u.issued key.purpose) : (∃ x, (u.handle starts c).1.Has key i x) ↔
        (∃ x, u.Has key i x) ∧ ¬ c.Evicts key := by
    simp only [has_handle hu hru, exists_or, exists_and_right]
    refine or_iff_left ?_
    rintro ⟨_, l, _, _, rfl, hi', _⟩
    omega
  rw [Twins, hold hs hr hg, hold ht hrt hg']
  exact and_congr_left' htwins

/-- So are the generations that are given out. -/
theorem twins_launch (hl : c.launch? = some l) : Twins key (s.handle starts c).1
    (t.handle starts c).1 (s.issued l.key.purpose + 1) (t.issued l.key.purpose + 1) := by
  have hrt : t.running = true := h.running.trans hr
  have hnew {u : Service} (hu : u.Sound) (hru : u.running = true) :
      (∃ x, (u.handle starts c).1.Has key (u.issued l.key.purpose + 1) x) ↔
        starts (u.invocation l.key) = true := by
    simp only [has_handle hu hru]
    constructor
    · rintro ⟨x, ⟨hx, _⟩ | ⟨l', hl', hst, _⟩⟩
      · have hle := has_le hu hx
        rw [← Command.key_of_launch hc hl] at hle
        omega
      · rwa [Option.some.inj (hl.symm.trans hl')]
    · intro hst
      exact ⟨l.request, .inr ⟨l, hl, hst, Command.key_of_launch hc hl, rfl, rfl⟩⟩
  rw [Twins, hnew hs hr, hnew ht hrt, invocation_eq h]

end

/-! ## Ends of runs -/

theorem has_complete_apart (hs : s.Sound) (hd : d.key ≠ key) :
    (s.complete d).1.Has key g x ↔ s.Has key g x := by
  rw [has_complete hs]
  refine and_iff_left ?_
  rintro ⟨rfl, _⟩
  exact hd rfl

theorem like_complete_apart (hs : s.Sound) (hd : d.key ≠ key) (h : Like key s t) :
    Like key (s.complete d).1 t := by
  constructor
  · rw [settings_complete, h.settings]
  · rw [running_complete, h.running]
  · intro x
    simp only [has_complete_apart hs hd]
    exact h.serves x

theorem twins_complete_apart (hs : s.Sound) (hd : d.key ≠ key) :
    Twins key (s.complete d).1 t g g' ↔ Twins key s t g g' := by
  simp only [Twins, has_complete_apart hs hd]

/-- The end of a key's run leaves the key without a run, unless it is stale. -/
theorem has_complete_key (hs : s.Sound) (hd : d.key = key) : (s.complete d).1.Has key g x ↔
    s.Has key g x ∧ ¬ ∃ x', s.Has key d.generation x' := by
  rw [has_complete hs]
  refine and_congr_right fun hx => not_congr ?_
  constructor
  · rintro ⟨_, rfl⟩
    exact ⟨x, hx⟩
  · rintro ⟨x', hx'⟩
    exact ⟨hd.symm, (has_unique hs hx hx').1⟩

section
variable (hs : s.Sound) (ht : t.Sound) (hd : d.key = key) (hd' : d'.key = key)
  (hcurrent : Twins key s t d.generation d'.generation)
include hs ht hd hd' hcurrent

theorem like_complete (h : Like key s t) : Like key (s.complete d).1 (t.complete d').1 := by
  constructor
  · rw [settings_complete, settings_complete, h.settings]
  · rw [running_complete, running_complete, h.running]
  · intro x
    simp only [has_complete_key hs hd, has_complete_key ht hd', exists_and_right]
    exact and_congr (h.serves x) (not_congr hcurrent)

theorem twins_complete (h : Twins key s t g g') :
    Twins key (s.complete d).1 (t.complete d').1 g g' := by
  simp only [Twins, has_complete_key hs hd, has_complete_key ht hd', exists_and_right]
  exact and_congr h (not_congr hcurrent)

end

end Service

end AnalyzerBridge
