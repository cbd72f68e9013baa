import AnalyzerBridge.Proofs.Service.Returns

/-! Diagnostics are published only for the newest text of a document, and in the order of its
texts. -/
namespace AnalyzerBridge

open Run

namespace History

variable {h : History} {n m : Nat} {a : LiveRun} {o : Outcome} {uri text : String} {version : Int}
  {ds : List Diagnostic}

theorem effects_of_analyze (hr : h.Returns m n (.analyze uri version text) a o) :
    h.effects n = .released a.run :: (((h.format n).report? o).map fun r =>
      .published uri (r.diagnostics (h.source n)) (some version)).toList :=
  effects_of_returns hr

/-- A publication with a version is that of a run that returns with a report. -/
theorem returns_of_published (hf : .published uri ds (some version) ∈ h.effects n) :
    ∃ m text a output r, h.Returns m n (.analyze uri version text) a (.completed output) ∧
      (h.format n).read output = .ok r ∧ ds = r.diagnostics (h.source n) := by
  rcases effects_cases hf with ⟨m, c, a, o, hr⟩ | ⟨starts, c, _, hf⟩ | ⟨request, hf⟩
  · rw [effects_of_returns hr] at hf
    obtain ⟨text, r, rfl, hreport, hds⟩ := Command.published_conclusion.1 hf
    obtain ⟨output, rfl, hread⟩ := Format.report?_eq_some.1 hreport
    exact ⟨m, text, a, output, r, hr, hread, hds⟩
  · obtain ⟨_, _, hv⟩ := Service.published_handle hf
    cases hv
  · cases hf

/-- No stale publication. A document's diagnostics are published with a version only when a run
returns that was started for this version, while its text is still the newest and the document open.
They are the diagnostics of the run's own output. No run publishes twice, and a document's
publications keep the order of its texts. A run that returns publishes if its output can be read,
and otherwise does not. -/
theorem publication_current (h : History) :
    (∀ n uri ds version, .published uri ds (some version) ∈ h.effects n → ∃ m text a output r,
      h.Returns m n (.analyze uri version text) a (.completed output) ∧
      (∀ k starts c, m < k → k < n → h.Handles k starts c →
        (∀ version' text', c ≠ .analyze uri version' text') ∧ c ≠ .close uri) ∧
      (h.format n).read output = .ok r ∧ ds = r.diagnostics (h.source n)) ∧
    (∀ m n m' n' uri version version' text text' a a' o o',
      h.Returns m n (.analyze uri version text) a o →
      h.Returns m' n' (.analyze uri version' text') a' o' →
      (a = a' → n = n') ∧ (n < n' ↔ m < m')) ∧
    (∀ m n uri version text a o, h.Returns m n (.analyze uri version text) a o →
      (∀ output r, o = .completed output → (h.format n).read output = .ok r → h.effects n =
        [.released a.run, .published uri (r.diagnostics (h.source n)) (some version)]) ∧
      ((∀ output r, o = .completed output → (h.format n).read output ≠ .ok r) →
        h.effects n = [.released a.run])) := by
  refine ⟨?_, ?_, ?_⟩
  · intro n uri ds version hf
    obtain ⟨m, text, a, output, r, hr, hread, hds⟩ := returns_of_published hf
    refine ⟨m, text, a, output, r, hr, ?_, hread, hds⟩
    intro k starts c hmk hkn hc
    exact ⟨fun _ _ => ne_of_returns hr rfl hmk hkn hc rfl, ne_of_returns hr rfl hmk hkn hc rfl⟩
  · intro m n m' n' uri version version' text text' a a' o o' hr hr'
    constructor
    · rintro rfl
      exact (returns_once hr hr').2
    · exact returns_lt_iff hr hr' (by rw [key_of_returns hr rfl, key_of_returns hr' rfl])
  · intro m n uri version text a o hr
    rw [effects_of_analyze hr]
    constructor
    · intro output r ho hread
      rw [Format.report?_eq_some.2 ⟨output, ho, hread⟩]
      rfl
    · intro hnone
      have hno : (h.format n).report? o = none := by
        cases hreport : (h.format n).report? o with
        | none => rfl
        | some r =>
          obtain ⟨output, ho, hread⟩ := Format.report?_eq_some.1 hreport
          exact absurd hread (hnone output r ho)
      rw [hno]
      rfl

def oneText : History where
  settings := .default
  events := [.sent (.analyze "a" 1 "x"), .taken fun _ => true,
    .ended 0 (.completed "[\"Failed\",[[1,2,\"x\",\"unknown name\"]]]"), .attended 0]

theorem publication_current_oneText :
    .published "a" [⟨.onLine 1 2 1, none, "Q-Script", "unknown name"⟩] (some 1) ∈
      oneText.effects 3 ∧ ∃ m text a output,
        oneText.Returns m 3 (.analyze "a" 1 text) a (.completed output) := by
  have hf : .published "a" [⟨.onLine 1 2 1, none, "Q-Script", "unknown name"⟩] (some 1) ∈
      oneText.effects 3 := by decide +kernel
  obtain ⟨m, text, a, output, _, hr, _⟩ := (publication_current oneText).1 3 _ _ _ hf
  exact ⟨hf, m, text, a, output, hr⟩

end History

end AnalyzerBridge
