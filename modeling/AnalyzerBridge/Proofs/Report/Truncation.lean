import AnalyzerBridge.Proofs.Json.Closing
import AnalyzerBridge.Service.Basic
import Mathlib.Data.List.DropRight

/-! The text of a report that is cut off is refused, wherever the cut is. Main statement:
`Report.ofText_cut`. -/
namespace AnalyzerBridge

open Json Form

/-- A text that goes on to a whole one, other than by spaces, is not whole. -/
theorem Json.readWhole_cut {α : Type} {read : Reader α} {b p : String} {a : α}
    (hc : Closes (read maxLevels)) (hb : readWhole read b = .ok a)
    (hp : p.toList <+: b.toList.rdropWhile isSpace) (hne : p.toList ≠ b.toList.rdropWhile isSpace) :
    ∃ fault, readWhole read p = .error fault := by
  cases hr : readWhole read p with
  | error fault => exact ⟨fault, rfl⟩
  | ok a' =>
    obtain ⟨q, hq⟩ := hp
    obtain ⟨⟨_, rest⟩, hwhole, hb⟩ := Except.bind_eq_ok.1 hb
    obtain ⟨⟨_, rest'⟩, hpart, _⟩ := Except.bind_eq_ok.1 hr
    obtain ⟨_, hfinish, _⟩ := Except.bind_eq_ok.1 hb
    -- both readings stop at the same bracket, so all of `q` is left behind it
    have hlong := hc.append _ _ _ (q ++ b.toList.rtakeWhile isSpace) hpart
    rw [← List.append_assoc, hq, List.rdropWhile_append_rtakeWhile, hwhole] at hlong
    obtain ⟨_, hrest⟩ := Prod.mk.inj (Except.ok.inj hlong)
    have hspaces : ∀ c ∈ rest, isSpace c = true := by
      rw [finish] at hfinish
      split at hfinish
      · rename_i hempty
        exact List.dropWhile_eq_nil_iff.1 (List.isEmpty_iff.1 hempty)
      · cases hfinish
    have hq0 : q ≠ [] := by
      rintro rfl
      exact hne (by simpa using hq)
    have hcore : b.toList.rdropWhile isSpace ≠ [] := by simp [← hq, hq0]
    have hlast := List.rdropWhile_last_not isSpace b.toList hcore
    have hmem : (b.toList.rdropWhile isSpace).getLast hcore ∈ rest := by
      simp [hrest, ← hq, List.getLast_append_of_ne_nil, hq0]
    exact absurd (hspaces _ hmem) hlast

section Forms

variable {levels : Nat}

theorem Problem.closes_form : Closes (form.read levels) := by
  refine closes_record ?_
  simp only [List.forall_mem_cons]
  refine ⟨?_, ?_, ?_, ?_, ?_, ?_, ?_, by simp⟩
  · exact fun _ => extends_need extends_u32
  · exact fun _ => extends_need extends_u32
  · exact fun _ => extends_may closes_text.extends
  · exact fun _ => extends_need closes_text.extends
  · exact fun _ => extends_may closes_bool.extends
  · exact fun _ => extends_may (extends_optional closes_text.extends)
  · exact fun _ => extends_may (extends_optional extends_u32)

theorem Param.closes_form : Closes (form.read levels) := by
  refine closes_record ?_
  simp only [List.forall_mem_cons]
  refine ⟨?_, ?_, ?_, ?_, by simp⟩
  · exact fun _ => extends_may closes_text.extends
  · exact fun _ => extends_may (extends_optional closes_text.extends)
  · exact fun _ => extends_may closes_bool.extends
  · exact fun _ => extends_may (extends_optional closes_text.extends)

theorem Signature.closes_form : Closes (form.read levels) := by
  refine closes_record ?_
  simp only [List.forall_mem_cons]
  refine ⟨?_, ?_, ?_, by simp⟩
  · exact fun _ => extends_need closes_text.extends
  · exact fun _ => extends_may (extends_optional closes_text.extends)
  · exact fun _ => extends_may (closes_list fun _ => Param.closes_form.extends).extends

theorem Symbol.closes_form : Closes (form.read levels) := by
  refine closes_record ?_
  simp only [List.forall_mem_cons]
  refine ⟨?_, ?_, ?_, ?_, ?_, ?_, ?_, ?_, ?_, by simp⟩
  · exact fun _ => extends_need closes_choice.extends
  · exact fun _ => extends_need extends_u32
  · exact fun _ => extends_need extends_u32
  · exact fun _ => extends_need closes_text.extends
  · exact fun _ => extends_may closes_bool.extends
  · exact fun _ => extends_may (extends_optional closes_text.extends)
  · exact fun _ => extends_may (extends_optional closes_text.extends)
  · exact fun _ => extends_may (closes_list fun _ => Signature.closes_form.extends).extends
  · exact fun _ => extends_may (extends_optional extends_u32)

theorem Report.closes_form : Closes (form.read levels) := by
  refine closes_record ?_
  simp only [List.forall_mem_cons]
  refine ⟨?_, ?_, ?_, ?_, by simp⟩
  · exact fun _ => extends_may closes_choice.extends
  · exact fun _ => extends_may (closes_list fun _ => Problem.closes_form.extends).extends
  · exact fun _ => extends_may (closes_list fun _ => Symbol.closes_form.extends).extends
  · exact fun _ => extends_may extends_ofValue

end Forms

namespace Service

variable {s : Service} {c : Completion} {f : Effect}

theorem report?_cut {p : String} {fault : Fault} (hf : s.settings.analyzer.format = .structured)
    (ho : ∀ output, c.outcome.output? = some output → output = p)
    (hp : Report.ofText p = .error fault) : s.report? c.outcome = none := by
  rw [report?]
  cases hout : c.outcome.output? with
  | none => rfl
  | some output =>
    rw [Option.bind_some, hf, Format.read, ho output hout, hp]
    rfl

/-- A run without a report lets go of itself and answers its hover with nothing. -/
theorem complete_of_report?_eq_none (h : s.report? c.outcome = none) (hf : f ∈ (s.complete c).2) :
    (∃ run, f = .released run) ∨ ∃ request, f = .answered request none := by
  rw [complete] at hf
  split at hf
  · split at hf
    · simp only [completeDiagnostics, h] at hf
      split at hf
      · cases hf
      · exact .inl ⟨_, List.mem_singleton.1 hf⟩
    · simp only [completeHover, h] at hf
      split at hf
      · cases hf
      · rcases List.mem_cons.1 hf with rfl | hf
        · exact .inl ⟨_, rfl⟩
        · exact .inr ⟨_, List.mem_singleton.1 hf⟩
  · cases hf

end Service

/-- Output that is cut off never yields a report. If a text is read as one, no part of it that ends
before its last character is, spaces behind it apart. And a run whose output is such a part publishes
nothing, and its hover is answered with nothing. -/
theorem Report.ofText_cut {b p : String} {r : Report} (hb : ofText b = .ok r)
    (hp : p.toList <+: b.toList.rdropWhile isSpace) (hne : p.toList ≠ b.toList.rdropWhile isSpace) :
    (∃ fault, ofText p = .error fault) ∧
    ∀ (s : Service) (c : Completion), s.settings.analyzer.format = .structured →
      (∀ output, c.outcome.output? = some output → output = p) →
      ∀ f ∈ (s.complete c).2, (∃ run, f = .released run) ∨ ∃ request, f = .answered request none := by
  obtain ⟨fault, hfault⟩ := Json.readWhole_cut closes_form hb hp hne
  refine ⟨⟨fault, hfault⟩, fun s c hformat hout f hf => ?_⟩
  exact Service.complete_of_report?_eq_none (Service.report?_cut hformat hout hfault) hf

/-- A report without its last bracket, from the run of a new text. -/
theorem Report.ofText_cut_sample :
    let b := "\x7b\"errors\":[\x7b\"lineNr\":1,\"colNr\":2,\"desc\":\"d\"\x7d]\x7d\n"
    let p := "\x7b\"errors\":[\x7b\"lineNr\":1,\"colNr\":2,\"desc\":\"d\"\x7d]"
    let s := ((Service.initial .default).handle (fun _ => true) (.analyze "u" 1 "x")).1
    let c : Completion := ⟨⟨"u", .diagnostics⟩, 1, .completed p⟩
    (∃ r, ofText b = .ok r) ∧ (∃ fault, ofText p = .error fault) ∧
      (s.complete c).2 = [.released 0] ∧
      ∀ f ∈ (s.complete c).2, (∃ run, f = .released run) ∨ ∃ request, f = .answered request none := by
  intro b p s c
  obtain ⟨r, hb⟩ : ∃ r, ofText b = .ok r := by
    have hr : (ofText b).toOption.isSome := by decide +kernel
    cases hb : ofText b with
    | error fault => simp [hb, Except.toOption] at hr
    | ok r => exact ⟨r, rfl⟩
  have hstrip : b.toList.rdropWhile isSpace = p.toList ++ ['}'] := by decide +kernel
  have hp : p.toList <+: b.toList.rdropWhile isSpace := ⟨_, hstrip.symm⟩
  have hne : p.toList ≠ b.toList.rdropWhile isSpace := by simp [hstrip]
  obtain ⟨hfault, hservice⟩ := ofText_cut hb hp hne
  refine ⟨⟨r, hb⟩, hfault, by decide +kernel, hservice s c rfl ?_⟩
  intro output hout
  exact (Option.some.inj hout).symm

end AnalyzerBridge
