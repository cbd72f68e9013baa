import AnalyzerBridge.Proofs.Service.Returns

/-! In which format the output of a run is read. It is the one in force when the run returns, and
not the one for which the run was started: settings that come in between have the last word. -/
namespace AnalyzerBridge

open Run

namespace Format

variable {f g : Format}

/-- No output at all tells the formats apart. -/
theorem read_injective (h : ∀ output, f.read output = g.read output) : f = g := by
  have hno : (structured.read "").toOption = none := by decide +kernel
  have hall (output : String) : (legacy.read output).toOption = some (Report.ofLines output) := rfl
  cases f <;> cases g
  · rfl
  · rw [h "", hall] at hno
    cases hno
  · rw [← h "", hall] at hno
    cases hno
  · rfl

end Format

namespace Service

variable {s : Service} {c : Command} {d : Completion} {starts : Invocation → Bool}

/-- The settings that a command puts in force. -/
def accepted? (s : Service) : Command → Option Settings
  | .configure overrides => (s.settings.withOverrides overrides).toOption
  | _ => none

theorem settings_handle (hr : s.running = true) :
    (s.handle starts c).1.settings = (s.accepted? c).getD s.settings := by
  cases c with
  | configure overrides =>
    simp only [handle, hr, if_true, configure, accepted?]
    cases s.settings.withOverrides overrides <;> rfl
  | _ => simp [handle, hr, analyze, hover, close, stop, accepted?]

theorem settings_complete : (s.complete d).1.settings = s.settings := by
  rw [complete]
  split
  · split <;> rfl
  · rfl

end Service

namespace History

/-- A command puts new settings in force. -/
def Configures (h : History) (n : Nat) (settings : Settings) : Prop :=
  ∃ starts c, h.Handles n starts c ∧ (h.service n).accepted? c = some settings

/-- The last settings that were put in force between two events. -/
structure Configured (h : History) (m n k : Nat) (settings : Settings) : Prop where
  after : m < k
  before : k < n
  configures : h.Configures k settings
  last : ∀ i settings', k < i → i < n → ¬ h.Configures i settings'

variable {h : History} {n m k : Nat} {c : Command} {a : LiveRun} {o : Outcome}
  {settings : Settings}

theorem settings_succ (h : History) (n : Nat) :
    h.Configures n (h.service (n + 1)).settings ∨
      (∀ settings, ¬ h.Configures n settings) ∧
        (h.service (n + 1)).settings = (h.service n).settings := by
  have hs := h.step n
  generalize h.service (n + 1) = t at hs ⊢
  generalize h.effects n = fs at hs
  cases hs with
  | idle _ hh =>
    refine Or.inr ⟨?_, rfl⟩
    rintro _ ⟨starts, c, hc, _⟩
    exact hh starts c hc
  | @command starts c hc =>
    rw [Service.settings_handle hc.2.1]
    cases ha : (h.service n).accepted? c with
    | some settings => exact Or.inl ⟨starts, c, hc, ha⟩
    | none =>
      refine Or.inr ⟨?_, rfl⟩
      rintro settings ⟨_, _, hc', ha'⟩
      obtain ⟨_, rfl⟩ := handles_unique hc hc'
      rw [ha] at ha'
      cases ha'
  | hungUp hr hh =>
    refine Or.inr ⟨?_, Service.settings_handle hr⟩
    rintro _ ⟨starts, c, hc, _⟩
    exact hh starts c hc
  | attended hd =>
    refine Or.inr ⟨?_, Service.settings_complete⟩
    rintro _ ⟨_, _, hc, _⟩
    exact not_attends_of_handles hc hd

/-- The settings in force are the last ones that were put in force, or still the same. -/
theorem settings_cases (hmn : m ≤ n) (hm : ∀ settings, ¬ h.Configures m settings) :
    (∃ k, h.Configured m n k (h.service n).settings) ∨
      (∀ k settings, ¬ h.Configured m n k settings) ∧
        (h.service n).settings = (h.service m).settings := by
  induction n, hmn using Nat.le_induction with
  | base => exact Or.inr ⟨fun k _ hk => absurd (hk.after.trans hk.before) (Nat.lt_irrefl m), rfl⟩
  | succ n hmn ih =>
    rcases h.settings_succ n with hc | ⟨hno, hs⟩
    · refine Or.inl ⟨n, ?_, Nat.lt_succ_self n, hc, fun i _ hni hin => by omega⟩
      rcases Nat.lt_or_eq_of_le hmn with hlt | rfl
      · exact hlt
      · exact absurd hc (hm _)
    · rcases ih with ⟨k, hk⟩ | ⟨hnone, heq⟩
      · refine Or.inl ⟨k, hk.after, Nat.lt_succ_of_lt hk.before, hs ▸ hk.configures, ?_⟩
        intro i settings hki hin
        rcases Nat.lt_succ_iff_lt_or_eq.1 hin with hin | rfl
        · exact hk.last i settings hki hin
        · exact hno settings
      · refine Or.inr ⟨fun k settings hk => ?_, hs.trans heq⟩
        rcases Nat.lt_succ_iff_lt_or_eq.1 hk.before with hkn | rfl
        · exact hnone k settings ⟨hk.after, hkn, hk.configures,
            fun i s hki hin => hk.last i s hki (Nat.lt_succ_of_lt hin)⟩
        · exact hno settings hk.configures

theorem configures_unique {settings' : Settings} (hc : h.Configures n settings)
    (hc' : h.Configures n settings') : settings = settings' := by
  obtain ⟨_, c, hc, ha⟩ := hc
  obtain ⟨_, c', hc', ha'⟩ := hc'
  obtain ⟨_, rfl⟩ := handles_unique hc hc'
  exact Option.some.inj (ha.symm.trans ha')

theorem configured_unique {k' : Nat} {settings' : Settings} (hk : h.Configured m n k settings)
    (hk' : h.Configured m n k' settings') : settings = settings' := by
  rcases lt_trichotomy k k' with hlt | rfl | hlt
  · exact absurd hk'.configures (hk.last k' settings' hlt hk'.before)
  · exact configures_unique hk.configures hk'.configures
  · exact absurd hk.configures (hk'.last k settings hlt hk.before)

theorem not_configures_of_launches (hl : h.Launches m c a) : ¬ h.Configures m settings := by
  obtain ⟨_, l, hc, hl, _⟩ := hl
  rintro ⟨_, c', hc', ha⟩
  obtain ⟨_, rfl⟩ := handles_unique hc hc'
  cases c <;> simp [Command.launch?, Service.accepted?] at hl ha

/-- The format has stayed that of the start exactly if the last settings put in force since, if any,
have it. -/
theorem format_eq_iff (hl : h.Launches m c a) (hmn : m ≤ n) : h.format n = h.format m ↔
    ∀ k settings, h.Configured m n k settings → settings.analyzer.format = h.format m := by
  rcases settings_cases hmn fun _ => not_configures_of_launches hl with ⟨k, hk⟩ | ⟨hno, hs⟩
  · constructor
    · intro hf k' settings' hk'
      rw [← configured_unique hk hk']
      exact hf
    · intro hall
      exact hall k _ hk
  · refine ⟨fun _ k settings hk => absurd hk (hno k settings), fun _ => ?_⟩
    rw [format, hs, format]

/-- The output of a run is read in the format in force when the run returns. This is how the format
of the run's own settings would read every output exactly if the last settings put in force since
its start, if any, have that format. -/
theorem read_in_force (h : History) : ∀ m n c a o, h.Returns m n c a o →
    h.effects n = c.conclusion a.run (h.source n) ((h.format n).report? o) ∧
    ((∀ output, (h.format n).read output = (h.format m).read output) ↔
      ∀ k settings, h.Configured m n k settings → settings.analyzer.format = h.format m) := by
  intro m n c a o hr
  refine ⟨effects_of_returns hr, ?_⟩
  rw [← format_eq_iff hr.launched (lt_of_returns hr).le]
  constructor
  · exact Format.read_injective
  · intro hf output
    rw [hf]

/-- A report with one problem, in the structured format. -/
def oneProblem : String := "[\"Failed\",[[1,2,\"x\",\"unknown name\"]]]"

/-- The format is switched while a run is live. -/
def switched : History where
  settings := .default
  events := [.sent (.analyze "a" 1 "x"), .taken fun _ => true,
    .sent (.configure (.object [("analyzer", .object [("format", .text "legacy")])])),
    .taken fun _ => true, .ended 0 (.completed oneProblem), .attended 0]

theorem switched_returns : switched.Returns 1 5 (.analyze "a" 1 "x") ⟨0, ⟨"a", .diagnostics⟩, 1⟩
    (.completed oneProblem) where
  launched := ⟨_, ⟨⟨"a", .diagnostics⟩, .inl ⟨1⟩, "x"⟩, ⟨rfl, rfl, rfl⟩, rfl, rfl,
    by decide +kernel⟩
  ended := ⟨4, by decide, by decide, rfl, by decide +kernel⟩
  attended := ⟨0, rfl, by decide +kernel, by decide +kernel⟩
  untouched := by
    rintro k hk hk' ⟨starts, c, ⟨he, _, hc⟩, hev⟩
    obtain rfl | rfl | rfl : k = 2 ∨ k = 3 ∨ k = 4 := by omega
    · cases he
    · cases hc
      exact hev
    · cases he

/-- The report of one problem is read as lines, and wipes the problems of the document. -/
theorem switched_wipes : switched.effects 5 = [.released 0, .published "a" [] (some 1)] ∧
    switched.effects 5 ≠ Command.conclusion (.analyze "a" 1 "x") 0 (switched.source 5)
      ((switched.format 1).report? (.completed oneProblem)) := by
  decide +kernel

theorem read_in_force_switched : ¬ ∀ output,
    (switched.format 5).read output = (switched.format 1).read output := by
  intro hread
  obtain ⟨_, hiff⟩ := read_in_force switched 1 5 _ _ _ switched_returns
  rw [hiff, ← format_eq_iff switched_returns.launched (by decide)] at hread
  exact absurd hread (by decide +kernel)

end History

end AnalyzerBridge
