import Mathlib.Order.Monotone.Basic

/-! Courses of events: what becomes of a system, and what it does, while events come one after the
other, with or without pauses. -/
namespace AnalyzerBridge

/-- Where a system starts, and what happens to it at each moment. -/
structure Course {σ ε φ : Type} (step : σ → ε → σ × List φ) where
  start : σ
  event : Nat → Option ε

namespace Course

section
variable {σ ε φ : Type} {step : σ → ε → σ × List φ} (c : Course step) (n : Nat)

/-- A course in which some events happen one after the other, and nothing after them. -/
def ofList (start : σ) (events : List ε) : Course step where
  start := start
  event n := events[n]?

/-- The system after some events, and all that it does. -/
def run (step : σ → ε → σ × List φ) (s : σ) : List ε → σ × List φ
  | [] => (s, [])
  | e :: es =>
    let (s, effects) := step s e
    let (s, rest) := run step s es
    (s, effects ++ rest)

/-- The system at a moment, before the event of that moment. -/
def state : Nat → σ
  | 0 => c.start
  | n + 1 => match c.event n with
    | none => state n
    | some e => (step (state n) e).1

def effects : List φ :=
  match c.event n with
  | none => []
  | some e => (step (c.state n) e).2

/-- What the system has done before a moment. -/
def log : List φ := (List.range n).flatMap c.effects

/-- What `f` reads off the events before a moment, each in the state in which it happens. -/
def collect {α : Type} (f : σ → ε → Option α) : List α :=
  (List.range n).filterMap fun k => (c.event k).bind (f (c.state k))

/-- An event of some kind has happened before a moment. -/
def Happened (P : ε → Prop) : Prop := ∃ k < n, ∃ e, c.event k = some e ∧ P e

/-- At this moment the first of the events happens that `f` reads. -/
def First {α : Type} (f : ε → Option α) (x : α) : Prop :=
  (c.event n).bind f = some x ∧ ∀ k < n, (c.event k).bind f = none

end

variable {σ ε φ α : Type} {step : σ → ε → σ × List φ} {c : Course step} {n m k : Nat} {e : ε}
  {P : ε → Prop} {f : ε → Option α} {x y : α}

@[simp] theorem state_zero : c.state 0 = c.start := rfl

theorem state_succ (he : c.event n = some e) : c.state (n + 1) = (step (c.state n) e).1 := by
  simp [state, he]

theorem effects_eq (he : c.event n = some e) : c.effects n = (step (c.state n) e).2 := by
  simp [effects, he]

theorem succ_cases (c : Course step) (n : Nat) :
    (c.event n = none ∧ c.state (n + 1) = c.state n ∧ c.effects n = []) ∨
      ∃ e, c.event n = some e ∧ c.state (n + 1) = (step (c.state n) e).1 ∧
        c.effects n = (step (c.state n) e).2 := by
  cases he : c.event n with
  | none => exact Or.inl ⟨rfl, by simp [state, he], by simp [effects, he]⟩
  | some e => exact Or.inr ⟨e, rfl, state_succ he, effects_eq he⟩

@[simp] theorem log_zero : c.log 0 = [] := rfl

theorem log_succ : c.log (n + 1) = c.log n ++ c.effects n := by
  simp [log, List.range_succ]

theorem collect_succ {g : σ → ε → Option α} :
    c.collect (n + 1) g = c.collect n g ++ ((c.event n).bind (g (c.state n))).toList := by
  rw [collect, List.range_succ, List.filterMap_append, ← collect]
  cases h : (c.event n).bind (g (c.state n)) <;> simp [h]

theorem mem_collect {g : σ → ε → Option α} : x ∈ c.collect n g ↔
    ∃ k < n, ∃ e, c.event k = some e ∧ g (c.state k) e = some x := by
  simp [collect, Option.bind_eq_some_iff]

theorem collect_bind {β : Type} {g : σ → ε → Option α} {r : α → Option β} :
    (c.collect n fun s e => (g s e).bind r) = (c.collect n g).filterMap r := by
  rw [collect, collect, List.filterMap_filterMap]
  simp only [Option.bind_assoc]

/-- What every step keeps is kept. -/
theorem keeps {K : σ → Prop} (hstep : ∀ s e, K s → K (step s e).1) (hmn : m ≤ n)
    (hm : K (c.state m)) : K (c.state n) := by
  induction n, hmn using Nat.le_induction with
  | base => exact hm
  | succ n hmn ih =>
    rcases c.succ_cases n with ⟨_, hs, _⟩ | ⟨e, _, hs, _⟩
    · rwa [hs]
    · rw [hs]
      exact hstep _ e ih

/-- What every step keeps of the system and of all that it has done is kept. -/
theorem keeps_log {K : σ → List φ → Prop} (h0 : K c.start [])
    (hstep : ∀ s log e, K s log → K (step s e).1 (log ++ (step s e).2)) (n : Nat) :
    K (c.state n) (c.log n) := by
  induction n with
  | zero => exact h0
  | succ n ih =>
    rw [log_succ]
    rcases c.succ_cases n with ⟨_, hs, he⟩ | ⟨e, _, hs, he⟩
    · rwa [hs, he, List.append_nil]
    · rw [hs, he]
      exact hstep _ _ e ih

theorem not_happened_zero : ¬ c.Happened 0 P := by
  rintro ⟨k, hk, _⟩
  exact Nat.not_lt_zero k hk

theorem happened_succ :
    c.Happened (n + 1) P ↔ c.Happened n P ∨ ∃ e, c.event n = some e ∧ P e := by
  constructor
  · rintro ⟨k, hk, he⟩
    rcases Nat.lt_succ_iff_lt_or_eq.1 hk with hk | rfl
    · exact Or.inl ⟨k, hk, he⟩
    · exact Or.inr he
  · rintro (⟨k, hk, he⟩ | he)
    · exact ⟨k, Nat.lt_succ_of_lt hk, he⟩
    · exact ⟨n, Nat.lt_succ_self n, he⟩

theorem happened_mono (hmn : m ≤ n) (h : c.Happened m P) : c.Happened n P := by
  obtain ⟨k, hk, he⟩ := h
  exact ⟨k, Nat.lt_of_lt_of_le hk hmn, he⟩

/-- A property that one kind of event brings about, and nothing takes away. -/
theorem iff_happened (c : Course step) {K : σ → Prop} (h0 : ¬ K c.start)
    (hstep : ∀ s e, K (step s e).1 ↔ K s ∨ P e) (n : Nat) : K (c.state n) ↔ c.Happened n P := by
  induction n with
  | zero => exact iff_of_false h0 not_happened_zero
  | succ n ih =>
    rw [happened_succ, ← ih]
    rcases c.succ_cases n with ⟨he, hs, _⟩ | ⟨e, he, hs, _⟩
    · simp [he, hs]
    · simp [he, hs, hstep]

theorem first_unique (hx : c.First m f x) (hy : c.First n f y) : m = n ∧ x = y := by
  have hmn : m = n := by
    rcases Nat.lt_trichotomy m n with h | h | h
    · exact absurd hx.1 (by simp [hy.2 m h])
    · exact h
    · exact absurd hy.1 (by simp [hx.2 n h])
  subst hmn
  exact ⟨rfl, Option.some.inj (hx.1.symm.trans hy.1)⟩

/-- A value that the first event of some kind determines. -/
theorem eq_first (c : Course step) {v : σ → Option α} (h0 : v c.start = none)
    (hstep : ∀ s e, v (step s e).1 = (v s).or (f e)) (n : Nat) :
    (v (c.state n) = none ∧ ∀ k < n, (c.event k).bind f = none) ∨
      ∃ k < n, ∃ x, v (c.state n) = some x ∧ c.First k f x := by
  induction n with
  | zero => exact Or.inl ⟨h0, fun k hk => absurd hk (Nat.not_lt_zero k)⟩
  | succ n ih =>
    have hv : v (c.state (n + 1)) = (v (c.state n)).or ((c.event n).bind f) := by
      rcases c.succ_cases n with ⟨he, hs, _⟩ | ⟨e, he, hs, _⟩
      · simp [he, hs]
      · simp [he, hs, hstep]
    rcases ih with ⟨hn, hno⟩ | ⟨k, hk, x, hx, hfirst⟩
    · rw [hn, Option.none_or] at hv
      cases hf : (c.event n).bind f with
      | none =>
        refine Or.inl ⟨hv.trans hf, fun k hk => ?_⟩
        rcases Nat.lt_succ_iff_lt_or_eq.1 hk with hk | rfl
        · exact hno k hk
        · exact hf
      | some x => exact Or.inr ⟨n, Nat.lt_succ_self n, x, hv.trans hf, hf, hno⟩
    · exact Or.inr ⟨k, Nat.lt_succ_of_lt hk, x, by rw [hv, hx, Option.some_or], hfirst⟩

section
variable {start : σ} {events : List ε}

theorem not_happened_ofList (hp : ∀ e ∈ events, ¬ P e) (n : Nat) :
    ¬ (ofList start events : Course step).Happened n P := by
  rintro ⟨k, _, e, hk, h⟩
  exact hp e (List.mem_of_getElem? hk) h

theorem run_append (s : σ) (es fs : List ε) : run step s (es ++ fs) =
    ((run step (run step s es).1 fs).1,
      (run step s es).2 ++ (run step (run step s es).1 fs).2) := by
  induction es generalizing s with
  | nil => rfl
  | cons _ _ ih => simp [run, ih]

/-- Such a course goes through its events one by one. -/
theorem ofList_eq_run (step : σ → ε → σ × List φ) (start : σ) (events : List ε) (n : Nat) :
    ((ofList start events : Course step).state n, (ofList start events : Course step).log n) =
      run step start (events.take n) := by
  induction n with
  | zero => rfl
  | succ n ih =>
    rw [List.take_add_one, log_succ]
    cases he : events[n]? with
    | none => simp [← ih, state, effects, ofList, he]
    | some e =>
      rw [Option.toList_some, run_append, ← ih]
      simp [run, state, effects, ofList, he]

theorem state_ofList_cons (start : σ) (n : Nat) :
    (ofList start (e :: events) : Course step).state (n + 1) =
      (ofList (step start e).1 events : Course step).state n := by
  have h := congrArg Prod.fst (ofList_eq_run step start (e :: events) (n + 1))
  have h' := congrArg Prod.fst (ofList_eq_run step (step start e).1 events n)
  exact h.trans h'.symm

end

end Course

end AnalyzerBridge
