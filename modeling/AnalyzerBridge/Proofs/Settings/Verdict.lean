import AnalyzerBridge.Proofs.Json.Faults
import AnalyzerBridge.Proofs.Settings.Overrides

/-! Whether overrides are accepted. They are judged as settings of their own: what they are laid over
can always be read, so it is they who are at fault, and they are so whatever the settings are. -/
namespace AnalyzerBridge

open Json Form

theorem Except.exists_eq_ok_iff {ε α : Type} {x : Except ε α} :
    (∃ a, x = .ok a) ↔ ∀ e, x ≠ .error e := by
  cases x <;> simp

/-- The analyzer's settings as they are written bear what is laid over them. -/
theorem AnalyzerSettings.bears (a : AnalyzerSettings) : form.Bears (.object a.members) := by
  obtain ⟨fields, hform, -, hof⟩ := parts_of
  rw [hform]
  exact Parts.bears_written hof a.written

theorem DiagnosticsSettings.bears (d : DiagnosticsSettings) : form.Bears (.object d.members) := by
  obtain ⟨fields, hform, -, hof⟩ := parts_of
  rw [hform]
  exact Parts.bears_written hof d.written

namespace Settings

variable {s t : Settings} {v : Json} {e : Fault}

theorem bears (s : Settings) : form.Bears (.object s.members) := by
  obtain ⟨fields, hform, -, hof⟩ := parts_of
  rw [hform]
  refine Parts.bears_record hof s.ascending_members fun q => ?_
  cases q with
  | analyzer => exact ⟨_, rfl, s.analyzer.bears⟩
  | diagnostics => exact ⟨_, rfl, s.diagnostics.bears⟩

/-- The fault of overrides is the one that they have when they are read as settings. -/
theorem withOverrides_eq_error :
    s.withOverrides v.canonical = .error e ↔ form.ofJson v.canonical = .error e := by
  rw [withOverrides, canonical_toJson]
  exact s.bears.overlaid v e

theorem accepted_iff :
    (∃ t, s.withOverrides v.canonical = .ok t) ↔ ∃ u, form.ofJson v.canonical = .ok u := by
  rw [Except.exists_eq_ok_iff, Except.exists_eq_ok_iff]
  exact forall_congr' fun e => not_congr withOverrides_eq_error

/-- Overrides that are laid over the settings one after the other are all accepted exactly if each is
acceptable. -/
theorem all_accepted_iff (vs : List Json) :
    (∃ last, vs.foldlM (fun s w => s.withOverrides w.canonical) s = .ok last) ↔
      ∀ w ∈ vs, ∃ u, form.ofJson w.canonical = .ok u := by
  induction vs generalizing s with
  | nil => exact iff_of_true ⟨s, rfl⟩ (List.forall_mem_nil _)
  | cons w rest ih =>
    rw [List.forall_mem_cons, ← accepted_iff (s := s)]
    simp only [List.foldlM_cons, Except.bind_eq_ok]
    constructor
    · rintro ⟨last, next, hw, hrest⟩
      exact ⟨⟨next, hw⟩, ih.1 ⟨last, hrest⟩⟩
    · rintro ⟨⟨next, hw⟩, hrest⟩
      obtain ⟨last, hlast⟩ := ih (s := next) |>.2 hrest
      exact ⟨last, next, hw, hlast⟩

/-- Overrides are judged by themselves. Any two settings accept the same ones, and refuse the others
with the same fault: the one that is found when they are read as settings of their own. So overrides
that were accepted before make no difference. They go through in a row exactly if each would go
through alone, and those that come next are refused as they would have been at first. -/
theorem overrides_judged_alone (s t : Settings) (v : Json) :
    ((∃ s', s.withOverrides v.canonical = .ok s') ↔ ∃ t', t.withOverrides v.canonical = .ok t') ∧
    (∀ e, s.withOverrides v.canonical = .error e ↔ t.withOverrides v.canonical = .error e) ∧
    (∀ e, s.withOverrides v.canonical = .error e ↔ form.ofJson v.canonical = .error e) ∧
    ∀ earlier : List Json,
      ((∃ last, earlier.foldlM (fun s w => s.withOverrides w.canonical) s = .ok last) ↔
        ∀ w ∈ earlier, ∃ u, form.ofJson w.canonical = .ok u) ∧
      ∀ last, earlier.foldlM (fun s w => s.withOverrides w.canonical) s = .ok last →
        ∀ e, last.withOverrides v.canonical = .error e ↔ s.withOverrides v.canonical = .error e := by
  refine ⟨?_, ?_, fun e => withOverrides_eq_error, fun earlier => ⟨all_accepted_iff earlier, ?_⟩⟩
  · exact accepted_iff.trans accepted_iff.symm
  · intro e
    exact withOverrides_eq_error.trans withOverrides_eq_error.symm
  · intro last _ e
    exact withOverrides_eq_error.trans withOverrides_eq_error.symm

/-- Overrides with two settings that cannot be read. -/
def twoFaults : Json := .object [("analyzer", .object [
  ("timeoutMs", .text "soon"), ("later", .null), ("args", .nat 5)])]

/-- The arguments are refused, which come first, before and after settings have been reset. -/
theorem overrides_judged_alone_twoFaults :
    tagged.withOverrides (Json.list []).canonical = .ok .default ∧
    tagged.withOverrides twoFaults.canonical =
      .error (.wrongType (.number (.int 5)) "a sequence") ∧
    Settings.default.withOverrides twoFaults.canonical =
      .error (.wrongType (.number (.int 5)) "a sequence") := by
  have hreset : tagged.withOverrides (Json.list []).canonical = .ok .default := rfl
  have hfault : tagged.withOverrides twoFaults.canonical =
      .error (.wrongType (.number (.int 5)) "a sequence") := rfl
  obtain ⟨-, -, -, hlater⟩ := overrides_judged_alone tagged tagged twoFaults
  obtain ⟨-, hnext⟩ := hlater [.list []]
  exact ⟨hreset, hfault, (hnext .default rfl _).2 hfault⟩

end Settings

end AnalyzerBridge
