import AnalyzerBridge.Proofs.Service.Jobs

/-! What the service does at every command and every end of a run: which runs are started and let
go, what is published, and which hovers are answered. -/
namespace AnalyzerBridge

open Run

def Command.request? : Command → Option Nat
  | hover _ _ _ request => some request
  | _ => none

def Effect.answered? : Effect → Option Nat
  | answered request _ => some request
  | _ => none

def Effect.publishes (uri : String) : Effect → Bool
  | published uri' _ _ => uri' = uri
  | _ => false

/-- The key and the text of a run for which the launcher is asked. -/
def Effect.launching? : Effect → Option (Key × String)
  | launching key _ _ text => some (key, text)
  | _ => none

def Effect.IsLaunching (f : Effect) : Prop :=
  ∃ key generation invocation input, f = .launching key generation invocation input

@[simp] theorem Command.answers_dropped {c : Command} :
    c.dropped.filterMap Effect.answered? = c.request?.toList := by
  cases c <;> rfl

theorem Command.eq_of_mem_dropped {c : Command} {f : Effect} (h : f ∈ c.dropped) :
    ∃ request, f = .answered request none := by
  cases c <;> simp_all [dropped]

namespace Service

variable {s : Service} {c : Command} {j : Job} {l : Launch} {starts : Invocation → Bool}
  {d : Completion} {o : Outcome} {run generation : Nat}

section
variable {α : Type} {entries : List (Registration α)} {hovers : List (Registration HoverRequest)}

@[simp] theorem mem_release {f : Effect} :
    f ∈ release entries ↔ ∃ e ∈ entries, f = .released e.run := by
  simp [release, eq_comm]

@[simp] theorem mem_dismiss {f : Effect} :
    f ∈ dismiss hovers ↔ ∃ e ∈ hovers, f = .answered e.context.request none := by
  simp [dismiss, eq_comm]

@[simp] theorem answers_release : (release entries).filterMap Effect.answered? = [] := by
  simp [release, Effect.answered?]

@[simp] theorem answers_dismiss :
    (dismiss hovers).filterMap Effect.answered? = hovers.map (·.context.request) := by
  simp [dismiss, Effect.answered?, Function.comp_def]

@[simp] theorem answers_startEffect {r : Option Nat} {key : Key} {g : Nat} {i : Invocation}
    {t : String} : (startEffect r key g i t).filterMap Effect.answered? = [] := by
  simp [startEffect, List.filterMap_cons, Effect.answered?]

@[simp] theorem launching_release : (release entries).filterMap Effect.launching? = [] := by
  simp [release, Effect.launching?]

@[simp] theorem launching_dismiss : (dismiss hovers).filterMap Effect.launching? = [] := by
  simp [dismiss, Effect.launching?]

@[simp] theorem launching_startEffect {r : Option Nat} {key : Key} {g : Nat} {i : Invocation}
    {t : String} : (startEffect r key g i t).filterMap Effect.launching? = [(key, t)] := by
  cases r <;> simp [startEffect, Effect.launching?]

end

theorem mem_held {α : Type} {registry : Registry α} {p : Purpose} (h : registry.Sound p)
    {key : Key} {e : Registration α} :
    e ∈ held registry key ↔ e ∈ registry.entries ∧ e.key = key := by
  rw [held, Option.mem_toList]
  exact Registry.find?_eq_some h.distinct

/-- A run starts only for a command that asks for it. -/
theorem mem_started_handle (hr : s.running = true) {key : Key} {i : Invocation} {t : String} :
    .started run key generation i t ∈ (s.handle starts c).2 ↔
      ∃ l, c.launch? = some l ∧ starts (s.invocation l.key) = true ∧ i = s.invocation l.key ∧
        t = l.text ∧ s.job l = ⟨key, generation, run, l.request⟩ := by
  cases c <;>
    simp [handle, hr, analyze, hover, close, stop, startEffect, nextRun, Command.launch?,
      invocation, job, issued, Registry.next] <;> grind

theorem exists_mem_jobs {P : Key → Nat → Prop} : (∃ j ∈ s.jobs, P j.key j.run) ↔
    (∃ e ∈ s.diagnostics.entries, P e.key e.run) ∨ ∃ e ∈ s.hovers.entries, P e.key e.run := by
  constructor
  · rintro ⟨j, hj, hp⟩
    rcases mem_jobs.1 hj with ⟨e, he, rfl⟩ | ⟨e, he, rfl⟩
    · exact Or.inl ⟨e, he, hp⟩
    · exact Or.inr ⟨e, he, hp⟩
  · rintro (⟨e, he, hp⟩ | ⟨e, he, hp⟩)
    · exact ⟨e.map .inl, mem_jobs.2 (Or.inl ⟨e, he, rfl⟩), hp⟩
    · exact ⟨e.map .inr, mem_jobs.2 (Or.inr ⟨e, he, rfl⟩), hp⟩

/-- The runs that a command lets go are those that it evicts. -/
theorem mem_released_handle (hs : s.Sound) (hr : s.running = true) :
    .released run ∈ (s.handle starts c).2 ↔ ∃ j ∈ s.jobs, c.Evicts j.key ∧ run = j.run := by
  rw [exists_mem_jobs (P := fun key n => c.Evicts key ∧ run = n)]
  have hd := hs.diagnostics.purpose
  have hh := hs.hovers.purpose
  cases c with
  | analyze uri version text =>
    simp [handle, hr, analyze, startEffect, mem_held hs.diagnostics, Command.Evicts]
    grind
  | hover uri text position request =>
    simp [handle, hr, hover, startEffect, mem_held hs.hovers, Command.Evicts]
    grind
  | close uri =>
    simp [handle, hr, close, mem_held hs.diagnostics, mem_held hs.hovers, Command.Evicts,
      Key.eq_iff]
    grind
  | configure overrides => simp [handle, hr, Command.Evicts]
  | shutdown => simp [handle, hr, stop, Command.Evicts]

/-- A command makes the service ask the launcher for the run that it wants, and for no other. -/
theorem launching_handle (hr : s.running = true) :
    (s.handle starts c).2.filterMap Effect.launching? =
      (c.launch?.map fun l => (l.key, l.text)).toList := by
  cases c with
  | hover uri text position request =>
    simp only [handle, hr, if_true, hover, List.filterMap_append, launching_release,
      launching_dismiss, launching_startEffect, Command.launch?]
    split <;> rfl
  | _ => simp [handle, hr, analyze, close, stop, Command.launch?, Effect.launching?]

/-- The end of a run does not make it ask for another. -/
theorem launching_complete {f : Effect} (h : f ∈ (s.complete d).2) :
    f.launching? = none ∧ ∀ run key generation i t, f ≠ .started run key generation i t := by
  simp only [complete, completeDiagnostics, completeHover] at h
  split at h
  · split at h
    · split at h
      · cases h
      · split at h <;> simp_all [Effect.launching?]; grind
    · split at h <;> simp_all; grind [Effect.launching?]
  · cases h

/-- A command publishes only when it closes a document, and then without a version. -/
theorem published_handle {uri : String} {ds : List Diagnostic} {v : Option Int}
    (h : .published uri ds v ∈ (s.handle starts c).2) : c = .close uri ∧ ds = [] ∧ v = none := by
  cases hr : s.running with
  | false =>
    rw [handle_of_ended hr] at h
    obtain ⟨_, hf⟩ := Command.eq_of_mem_dropped h
    cases hf
  | true =>
    cases c <;> simp_all [handle, analyze, hover, close, stop, startEffect]

/-- The end of a run publishes only for the document of a registered run. -/
theorem published_complete (hs : s.Sound) {uri : String} {ds : List Diagnostic} {v : Option Int}
    (h : .published uri ds v ∈ (s.complete d).2) : ∃ j ∈ s.jobs, j.key.uri = uri := by
  rcases complete_cases hs d with hd | ⟨j, hr, hj, hk, hg⟩
  · rw [hd] at h
    cases h
  · rw [effects_complete hs hr hj hk hg] at h
    refine ⟨j, hj, ?_⟩
    cases hc : j.context <;> simp [conclusion, hc] at h
    obtain ⟨_, _, hu, _⟩ := h
    exact hu

/-- A command answers hovers only with nothing. -/
theorem answered_handle {request : Nat} {a : Option Hover}
    (h : .answered request a ∈ (s.handle starts c).2) : a = none := by
  cases hr : s.running with
  | false =>
    rw [handle_of_ended hr] at h
    obtain ⟨_, hf⟩ := Command.eq_of_mem_dropped h
    cases hf
    rfl
  | true =>
    cases c <;> simp_all [handle, analyze, hover, close, stop, startEffect] <;> grind

def pending (s : Service) : List Nat :=
  s.hovers.entries.map (·.context.request)

/-- The pending hovers are those of a key, if it has one, and the rest. -/
theorem perm_pending (hs : s.Sound) (key : Key) :
    ((held s.hovers key).map (·.context.request) ++
      (s.hovers.erase key).entries.map (·.context.request)).Perm s.pending := by
  have hp := (Registry.perm_erase hs.hovers.distinct key).map (·.context.request)
  rwa [List.map_append] at hp

/-- A command answers the hovers that were pending or that it asks for, except those that are
pending afterwards. -/
theorem perm_handle (hs : s.Sound) (starts : Invocation → Bool) (c : Command) :
    (s.pending ++ c.request?.toList).Perm
      ((s.handle starts c).2.filterMap Effect.answered? ++ (s.handle starts c).1.pending) := by
  cases hr : s.running with
  | false =>
    rw [handle_of_ended hr, Command.answers_dropped]
    exact List.perm_append_comm
  | true =>
    cases c with
    | analyze uri version text =>
      simp [handle, hr, analyze, Command.request?, pending]
    | hover uri text position request =>
      have hp := (perm_pending hs ⟨uri, .symbols⟩).symm.append_right [request]
      refine hp.trans ?_
      cases hn : s.nextRun starts (s.settings.analyzer.invocation .symbols) with
      | none =>
        have ha : (s.handle starts (.hover uri text position request)).2.filterMap
            Effect.answered? = (held s.hovers ⟨uri, .symbols⟩).map (·.context.request) ++
              [request] := by
          simp [handle, hr, hover, hn, Effect.answered?]
        rw [ha, List.append_assoc, List.append_assoc]
        refine List.Perm.append_left _ ?_
        simp [handle, hr, hover, hn, pending, Registry.replace]
      | some n => simp [handle, hr, hover, hn, pending, Registry.replace]
    | close uri =>
      have hp := (perm_pending hs ⟨uri, .symbols⟩).symm
      simpa [handle, hr, close, Command.request?, List.filterMap_cons, Effect.answered?,
        pending] using hp
    | configure overrides =>
      simp only [handle, hr, if_true, configure, Command.request?]
      split <;> simp [pending]
    | shutdown =>
      simp [handle, hr, stop, Command.request?, pending]

/-- The end of a run answers the hover that is pending no more. -/
theorem perm_complete (hs : s.Sound) : s.pending.Perm
    ((s.complete d).2.filterMap Effect.answered? ++ (s.complete d).1.pending) := by
  rcases complete_cases hs d with hd | ⟨j, hr, hj, hk, hg⟩
  · simp [hd]
  · obtain ⟨key, generation, o⟩ := d
    subst hk hg
    rcases mem_jobs.1 hj with ⟨e, he, rfl⟩ | ⟨e, he, rfl⟩
    · rw [Registration.key_map, Registration.generation_map, complete_diagnostics hs hr he o]
      cases hq : s.report? o <;>
        simp [conclusion, hq, pending, List.filterMap_cons, Effect.answered?]
    · rw [Registration.key_map, Registration.generation_map, complete_hovers hs hr he o]
      have hp := (perm_pending hs e.key).symm
      rw [held, Registry.find?_of_mem hs.hovers.distinct he] at hp
      simpa [conclusion, pending, List.filterMap_cons, Effect.answered?] using hp

theorem eq_of_append_cons_eq {α : Type} {P : α → Prop} {a b pre post : List α} {x y : α}
    (h : a ++ x :: b = pre ++ y :: post) (ha : ∀ z ∈ a, ¬ P z) (hb : ∀ z ∈ b, ¬ P z) (hy : P y) :
    a = pre ∧ x = y := by
  rcases List.append_eq_append_iff.1 h with ⟨as, hpre, hx⟩ | ⟨cs, hpre, hx⟩
  · cases as with
    | nil => simp_all
    | cons z zs =>
      rw [List.cons_append, List.cons.injEq] at hx
      exact absurd hy (hb y (by simp [hx.2]))
  · cases cs with
    | nil => simp_all
    | cons z zs =>
      rw [List.cons_append, List.cons.injEq] at hx
      exact absurd hy (ha y (by simp [hpre, hx.1]))

theorem released_diagnostics (hs : s.Sound) (hj : j ∈ s.jobs) (hp : j.key.purpose = .diagnostics) :
    .released j.run ∈ release (held s.diagnostics j.key) := by
  rcases mem_jobs.1 hj with ⟨e, he, rfl⟩ | ⟨e, he, rfl⟩
  · exact mem_release.2 ⟨e, (mem_held hs.diagnostics).2 ⟨he, rfl⟩, rfl⟩
  · rw [Registration.key_map, hs.hovers.purpose e he] at hp
    cases hp

theorem released_hovers (hs : s.Sound) (hj : j ∈ s.jobs) (hp : j.key.purpose = .symbols) :
    .released j.run ∈ release (held s.hovers j.key) := by
  rcases mem_jobs.1 hj with ⟨e, he, rfl⟩ | ⟨e, he, rfl⟩
  · rw [Registration.key_map, hs.diagnostics.purpose e he] at hp
    cases hp
  · exact mem_release.2 ⟨e, (mem_held hs.hovers).2 ⟨he, rfl⟩, rfl⟩

/-- Before the launcher is asked for a run, the earlier run of its key is let go, and no run is
started. -/
theorem before_launching (hs : s.Sound) (hr : s.running = true) {key : Key} {i : Invocation}
    {t : String} {pre post : List Effect}
    (h : (s.handle starts c).2 = pre ++ .launching key generation i t :: post) :
    (∀ j ∈ s.jobs, j.key = key → .released j.run ∈ pre) ∧
      ∀ n k g i t, Effect.started n k g i t ∉ pre := by
  have hl : Effect.IsLaunching (.launching key generation i t) := ⟨_, _, _, _, rfl⟩
  cases c with
  | analyze uri version text =>
    simp only [handle, hr, if_true, analyze, startEffect] at h
    obtain ⟨rfl, hx⟩ := eq_of_append_cons_eq h (by simp [Effect.IsLaunching]; grind)
      (by simp [Effect.IsLaunching]) hl
    cases hx
    refine ⟨fun j hj hk => ?_, by simp⟩
    rw [← hk]
    exact released_diagnostics hs hj (by rw [hk])
  | hover uri text position request =>
    simp only [handle, hr, if_true, hover, startEffect, List.append_assoc, List.cons_append] at h
    rw [← List.append_assoc] at h
    obtain ⟨rfl, hx⟩ := eq_of_append_cons_eq h (by simp [Effect.IsLaunching]; grind)
      (by simp [Effect.IsLaunching]; grind) hl
    cases hx
    refine ⟨fun j hj hk => ?_, by simp⟩
    rw [← hk]
    exact List.mem_append_left _ (released_hovers hs hj (by rw [hk]))
  | close uri =>
    have hm : Effect.launching key generation i t ∈ (s.handle starts (.close uri)).2 := by simp [h]
    simp [handle, hr, close] at hm
  | configure overrides => simp [handle, hr] at h
  | shutdown =>
    have hm : Effect.launching key generation i t ∈ (s.handle starts .shutdown).2 := by simp [h]
    simp [handle, hr, stop] at hm

end Service

end AnalyzerBridge
