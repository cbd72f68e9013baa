import AnalyzerBridge.Proofs.Service.Registered
import Mathlib.Data.List.Perm.Basic

/-! From the start of a run to the look at its end. An end belongs to the run that ended, however
long it waited, and the service looks at it at most once. -/
namespace AnalyzerBridge

open Run

def Job.live (j : Job) : LiveRun := ⟨j.run, j.key, j.generation⟩

@[simp] theorem Command.started_dropped {c : Command} :
    c.dropped.filterMap Effect.started? = [] := by
  cases c <;> rfl

@[simp] theorem Service.started_release {α : Type} {entries : List (Registration α)} :
    (Service.release entries).filterMap Effect.started? = [] := by
  simp [Service.release, Effect.started?]

@[simp] theorem Service.started_dismiss {entries : List (Registration HoverRequest)} :
    (Service.dismiss entries).filterMap Effect.started? = [] := by
  simp [Service.dismiss, Effect.started?]

@[simp] theorem Command.started_flatMap_dropped {dropped : List Command} :
    (dropped.flatMap Command.dropped).filterMap Effect.started? = [] := by
  induction dropped with
  | nil => rfl
  | cons c rest ih => rw [List.flatMap_cons, List.filterMap_append, ih, Command.started_dropped,
      List.append_nil]

namespace Service

variable {s : Service} {c : Command} {d : Completion} {starts : Invocation → Bool}

def startedBy (s : Service) (starts : Invocation → Bool) (c : Command) : Option LiveRun :=
  (c.launch?.filter fun l => starts (s.invocation l.key)).map fun l => (s.job l).live

theorem started_handle (hr : s.running = true) :
    (s.handle starts c).2.filterMap Effect.started? = (s.startedBy starts c).toList := by
  cases c with
  | analyze uri version text =>
    by_cases hst : starts (s.settings.analyzer.invocation .diagnostics) = true <;>
      simp [handle, hr, analyze, startedBy, Command.launch?, startEffect, nextRun, invocation, hst,
        Option.filter, job, Job.live, issued, Registry.next, Effect.started?, List.filterMap_cons]
  | hover uri text position request =>
    by_cases hst : starts (s.settings.analyzer.invocation .symbols) = true <;>
      simp [handle, hr, hover, startedBy, Command.launch?, startEffect, nextRun, invocation, hst,
        Option.filter, job, Job.live, issued, Registry.next, Effect.started?, List.filterMap_cons]
  | close uri =>
    simp [handle, hr, close, startedBy, Command.launch?, Effect.started?, List.filterMap_cons]
  | configure overrides => simp [handle, hr, startedBy, Command.launch?]
  | shutdown => simp [handle, hr, stop, startedBy, Command.launch?]

theorem started_conclusion {j : Job} {o : Outcome} :
    (s.conclusion j o).filterMap Effect.started? = [] := by
  rw [conclusion]
  split
  · cases s.report? o <;> rfl
  · rfl

theorem started_effects_complete (hs : s.Sound) :
    (s.complete d).2.filterMap Effect.started? = [] := by
  rcases complete_cases hs d with hd | ⟨j, hr, hj, hk, hg⟩
  · rw [hd]
    rfl
  · rw [effects_complete hs hr hj hk hg, started_conclusion]

end Service

/-- A purpose and a generation, which tell a run from all others. -/
abbrev Token := Purpose × Nat

def LiveRun.token (a : LiveRun) : Token := (a.key.purpose, a.generation)

def Completion.token (d : Completion) : Token := (d.key.purpose, d.generation)

namespace System

/-- The runs at whose ends the service has not looked, whether they are live or wait. -/
def tokens (s : System) : List Token :=
  s.live.map LiveRun.token ++ s.ends.map Completion.token

variable {s t : System} {e : Event} {fs : List Effect}

theorem count_live_filter {live : List LiveRun} {a : LiveRun} (ha : a ∈ live) (t : Token) :
    ((live.filter (·.run ≠ a.run)).map LiveRun.token).count t + [a.token].count t ≤
      (live.map LiveRun.token).count t := by
  have hsplit := (List.filter_append_perm (fun b : LiveRun => b.run ≠ a.run) live).map LiveRun.token
  have ha' : a ∈ live.filter fun b => !decide (b.run ≠ a.run) := by simpa using ha
  have hle := ((List.singleton_sublist.2 ha').map LiveRun.token).count_le t
  have hcount := hsplit.count_eq t
  rw [List.map_append, List.count_append] at hcount
  rw [List.map_singleton] at hle
  omega

theorem count_ends_eraseIdx {ends : List Completion} {place : Nat} {d : Completion}
    (hd : ends[place]? = some d) (t : Token) :
    ((ends.eraseIdx place).map Completion.token).count t + [d.token].count t =
      (ends.map Completion.token).count t := by
  obtain ⟨hlt, rfl⟩ := List.getElem?_eq_some_iff.1 hd
  have hp := List.set_perm_cons_eraseIdx hlt ends[place]
  rw [List.set_getElem_self] at hp
  rw [(hp.map Completion.token).count_eq t]
  simp [List.count_cons]

/-- A step adds at most the run that it starts. -/
theorem Goes.count_tokens_le (hg : s.Goes e t fs) (k : Token) : t.tokens.count k ≤
    s.tokens.count k + ((fs.filterMap Effect.started?).map LiveRun.token).count k := by
  cases hg with
  | rests | sends | drops => exact Nat.le_add_right _ _
  | takes | takesLast | hangsUp =>
    simp [tokens]
    omega
  | ends hf =>
    have hle := count_live_filter (find?_mem hf).1 k
    simp [tokens, LiveRun.token, Completion.token] at hle ⊢
    omega
  | attends hd =>
    have hc := count_ends_eraseIdx hd k
    simp only [tokens, live_after, ends_after, List.map_append, List.count_append]
    omega

/-- A look at the end of a run takes the run away. -/
theorem count_tokens_attend {place : Nat} {d : Completion} (hs : s.service.Sound)
    (hd : s.ends[place]? = some d) (t : Token) :
    (s.step (.attended place)).1.tokens.count t + [d.token].count t = s.tokens.count t := by
  have hc := count_ends_eraseIdx hd t
  simp only [step, attend, hd, tokens, live_after, ends_after, List.count_append,
    Service.started_effects_complete hs, List.append_nil]
  omega

theorem Goes.mem_live {a : LiveRun} (hg : s.Goes e t fs) (ha : a ∈ t.live) :
    a ∈ s.live ∨ a ∈ fs.filterMap Effect.started? := by
  cases hg with
  | rests | sends | drops => exact Or.inl ha
  | takes | takesLast | hangsUp | attends => simpa using ha
  | ends => exact Or.inl (List.mem_filter.1 ha).1

theorem Goes.mem_ends {d : Completion} (hg : s.Goes e t fs) (hd : d ∈ t.ends) : d ∈ s.ends ∨
    ∃ a o, e = .ended a.run o ∧ s.find? a.run = some a ∧ d = ⟨a.key, a.generation, o⟩ := by
  cases hg with
  | rests | sends | drops => exact Or.inl hd
  | takes | takesLast | hangsUp => exact Or.inl (by simpa using hd)
  | @ends a o hf =>
    rcases List.mem_append.1 hd with hd | hd
    · exact Or.inl hd
    · exact Or.inr ⟨a, o, rfl, hf, List.mem_singleton.1 hd⟩
  | attends =>
    rw [ends_after] at hd
    exact Or.inl ((s.ends.eraseIdx_sublist _).subset hd)

end System

namespace History

variable {h : History} {n m : Nat} {d d' : Completion} {a : LiveRun} {t : Token}

/-- At most one run is started at an event, by the command that is handled then. -/
theorem started_effects (h : History) (n : Nat) : (h.effects n).filterMap Effect.started? = [] ∨
    ∃ l j, h.Begins n l j ∧ (h.effects n).filterMap Effect.started? = [j.live] := by
  have hs := h.step n
  generalize h.service (n + 1) = s at hs
  generalize h.effects n = fs at hs ⊢
  cases hs with
  | idle => exact Or.inl (by simp)
  | @command starts c hc =>
    rw [List.filterMap_append, Service.started_handle hc.2.1, Command.started_flatMap_dropped,
      List.append_nil, Service.startedBy]
    cases hl : c.launch? with
    | none => exact Or.inl rfl
    | some l =>
      by_cases hst : starts ((h.service n).invocation l.key) = true
      · refine Or.inr ⟨l, _, ⟨starts, c, hc, hl, hst, rfl⟩, ?_⟩
        simp [Option.filter, hst]
      · exact Or.inl (by simp [Option.filter, hst])
  | hungUp hr =>
    rw [Service.started_handle hr]
    exact Or.inl rfl
  | attended => exact Or.inl (Service.started_effects_complete (h.sound_service n))

theorem count_tokens_succ (h : History) (n : Nat) (t : Token) :
    (h.state (n + 1)).tokens.count t ≤ (h.state n).tokens.count t +
      (((h.effects n).filterMap Effect.started?).map LiveRun.token).count t := by
  rcases h.state_succ_cases n with ⟨_, hs, _⟩ | ⟨e, _, hg⟩
  · rw [hs]
    exact Nat.le_add_right _ _
  · exact hg.count_tokens_le t

/-- A run that starts gets a generation that was not yet given out. -/
theorem count_started_le : (((h.effects n).filterMap Effect.started?).map LiveRun.token).count t ≤
    if (h.service n).issued t.1 < t.2 ∧ t.2 ≤ (h.service (n + 1)).issued t.1 then 1 else 0 := by
  rcases h.started_effects n with hf | ⟨l, j, hb, hf⟩
  · simp [hf]
  · obtain ⟨hg, hi⟩ := begins_issued hb
    rw [hf, List.map_singleton, List.count_singleton]
    split
    · rename_i ht
      have ht' : j.live.token = t := by simpa using ht
      subst ht'
      rw [if_pos (by simp [LiveRun.token, Job.live]; omega)]
    · exact Nat.zero_le _

/-- No run is there twice, and none before its generation was given out. -/
theorem count_tokens_le (h : History) (n : Nat) (t : Token) :
    (h.state n).tokens.count t ≤ if t.2 ≤ (h.service n).issued t.1 then 1 else 0 := by
  induction n with
  | zero => simp [System.tokens, System.initial]
  | succ n ih =>
    have hc := h.count_tokens_succ n t
    have hs := count_started_le (h := h) (n := n) (t := t)
    have hi := issued_le_succ (h := h) (n := n) t.1
    grind

/-- A run that is gone does not come back. -/
theorem count_tokens_mono (hmn : m ≤ n) (ht : t.2 ≤ (h.service m).issued t.1) :
    (h.state n).tokens.count t ≤ (h.state m).tokens.count t := by
  induction n, hmn using Nat.le_induction with
  | base => exact Nat.le_refl _
  | succ n hmn ih =>
    have hc := h.count_tokens_succ n t
    have hs := count_started_le (h := h) (n := n) (t := t)
    have hi : (h.service m).issued t.1 ≤ (h.service n).issued t.1 := h.issued_mono t.1 hmn
    rw [if_neg (by omega)] at hs
    omega

theorem count_tokens_attends (hd : h.Attends n d) (t : Token) :
    (h.state (n + 1)).tokens.count t + [d.token].count t = (h.state n).tokens.count t := by
  obtain ⟨place, he, _, hd⟩ := hd
  rw [state_succ he]
  exact System.count_tokens_attend (h.sound_service n) hd t

/-- The service looks at the end of a run at most once. -/
theorem attends_once (hd : h.Attends m d) (hd' : h.Attends n d') (ht : d.token = d'.token) :
    m = n := by
  wlog hmn : m < n generalizing m n d d'
  · by_contra hne
    exact hne (this hd' hd ht.symm (by omega)).symm
  -- the first look takes away the only token of the run, and the second would need another
  have hone := h.count_tokens_le m d.token
  have hm := count_tokens_attends hd d.token
  have hn := count_tokens_attends hd' d.token
  rw [List.count_singleton_self] at hm
  rw [ht, List.count_singleton_self, ← ht] at hn
  have hi : d.token.2 ≤ (h.service m).issued d.token.1 := by
    by_contra hi
    rw [if_neg hi] at hone
    omega
  have hi' : d.token.2 ≤ (h.service (m + 1)).issued d.token.1 := hi.trans (issued_le_succ _)
  have hle := count_tokens_mono (show m + 1 ≤ n from hmn) hi'
  rw [if_pos hi] at hone
  omega

theorem begins_of_live (ha : a ∈ (h.state n).live) :
    ∃ m < n, ∃ l j, h.Begins m l j ∧ a = j.live := by
  induction n with
  | zero => simp [System.initial] at ha
  | succ n ih =>
    have hlive : a ∈ (h.state n).live ∨ a ∈ (h.effects n).filterMap Effect.started? := by
      rcases h.state_succ_cases n with ⟨_, hs, _⟩ | ⟨e, _, hg⟩
      · exact Or.inl (hs ▸ ha)
      · exact hg.mem_live ha
    rcases hlive with hlive | hlive
    · obtain ⟨m, hmn, hb⟩ := ih hlive
      exact ⟨m, by omega, hb⟩
    · rcases h.started_effects n with hf | ⟨l, j, hb, hf⟩
      · simp [hf] at hlive
      · rw [hf, List.mem_singleton] at hlive
        exact ⟨n, Nat.lt_succ_self n, l, j, hb, hlive⟩

theorem ended_of_ends (hd : d ∈ (h.state n).ends) :
    ∃ k < n, ∃ a : LiveRun, h.Ends k a d.outcome ∧ a.key = d.key ∧ a.generation = d.generation := by
  induction n with
  | zero => simp [System.initial] at hd
  | succ n ih =>
    have hends : d ∈ (h.state n).ends ∨ ∃ a : LiveRun, h.Ends n a d.outcome ∧ a.key = d.key ∧
        a.generation = d.generation := by
      rcases h.state_succ_cases n with ⟨_, hs, _⟩ | ⟨e, he, hg⟩
      · exact Or.inl (hs ▸ hd)
      · rcases hg.mem_ends hd with hd | ⟨a, o, rfl, hf, rfl⟩
        · exact Or.inl hd
        · exact Or.inr ⟨a, ⟨he, hf⟩, rfl, rfl⟩
    rcases hends with hends | ha
    · obtain ⟨k, hkn, ha⟩ := ih hends
      exact ⟨k, by omega, ha⟩
    · exact ⟨n, Nat.lt_succ_self n, ha⟩

/-- An end at which the service looks is the end of a run that was started. -/
theorem attends_origin (hd : h.Attends n d) : ∃ m k l j, m < k ∧ k < n ∧ h.Begins m l j ∧
    h.Ends k j.live d.outcome ∧ j.key = d.key ∧ j.generation = d.generation := by
  obtain ⟨place, _, _, hd⟩ := hd
  obtain ⟨k, hkn, a, he, hk, hg⟩ := ended_of_ends (List.mem_of_getElem? hd)
  obtain ⟨m, hmk, l, j, hb, rfl⟩ := begins_of_live (System.find?_mem he.2).1
  exact ⟨m, k, l, j, hmk, hkn, hb, he, hk, hg⟩

end History

end AnalyzerBridge
