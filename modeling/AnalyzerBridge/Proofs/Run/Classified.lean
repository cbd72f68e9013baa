import AnalyzerBridge.Proofs.Text.Utf8
import AnalyzerBridge.Run.Outcome

/-! How a run ends by the bytes that it wrote. Main statement: it ends empty exactly if they are the
bytes of white space, and else with all the text that they are taken for. -/
namespace AnalyzerBridge

open Text

/-- The code points with the property White_Space. -/
def Text.whiteSpace : List Nat := [
  0x09, 0x0A, 0x0B, 0x0C, 0x0D, 0x20, 0x85, 0xA0, 0x1680,
  0x2000, 0x2001, 0x2002, 0x2003, 0x2004, 0x2005, 0x2006, 0x2007, 0x2008, 0x2009, 0x200A,
  0x2028, 0x2029, 0x202F, 0x205F, 0x3000]

theorem Text.isBlank_iff {c : Char} : isBlank c = true ↔ c.toNat ∈ whiteSpace := by
  simp only [isBlank, blankRanges, whiteSpace, List.any_cons, List.any_nil, Bool.or_eq_true,
    Bool.and_eq_true, decide_eq_true_eq, List.mem_cons, List.not_mem_nil, or_false,
    Bool.or_false]
  omega

/-- The text has a character in it that is not white space. -/
def Text.Inked (s : List Char) : Prop := ∃ c ∈ s, c.toNat ∉ whiteSpace

namespace Outcome

variable {bytes : List UInt8} {s : List Char}

theorem ofBytes_of_decodes (h : Utf8.Decodes bytes s) :
    ofBytes bytes = if s.all isBlank then .empty else .completed (String.ofList s) := by
  rw [ofBytes, ← Utf8.decodes_iff.1 h]

theorem not_all_isBlank_iff : ¬ s.all isBlank = true ↔ Inked s := by
  simp only [Inked, List.all_eq_true, isBlank_iff, not_forall, exists_prop]

/-- A text that is not blank is delivered as it is. -/
theorem ofBytes_encode (t : String) (ht : Inked t.toList) :
    ofBytes (Utf8.encode t.toList) = .completed t := by
  rw [ofBytes_of_decodes (Utf8.decodes_encode t.toList), if_neg (not_all_isBlank_iff.2 ht),
    String.ofList_toList]

/-- A run is empty exactly if it wrote the bytes of white space. -/
theorem ofBytes_eq_empty_iff :
    ofBytes bytes = .empty ↔ ∃ s, bytes = Utf8.encode s ∧ ∀ c ∈ s, c.toNat ∈ whiteSpace := by
  have hblank {s : List Char} : s.all isBlank = true ↔ ∀ c ∈ s, c.toNat ∈ whiteSpace := by
    simp only [List.all_eq_true, isBlank_iff]
  constructor
  · intro h
    have hdecodes := Utf8.decodes_iff.2 (Eq.refl (Utf8.decodeLossy bytes))
    rw [ofBytes_of_decodes hdecodes] at h
    split at h
    · rename_i hall
      -- a replacement character is not blank, so there is no invalid part
      have hvalid : '\uFFFD' ∉ Utf8.decodeLossy bytes := by
        intro hmem
        exact absurd (List.all_eq_true.1 hall _ hmem) (by decide)
      exact ⟨_, hdecodes.eq_encode hvalid, hblank.1 hall⟩
    · cases h
  · rintro ⟨s, rfl, hs⟩
    rw [ofBytes_of_decodes (Utf8.decodes_encode s), if_pos (hblank.2 hs)]

/-- What bytes make of the end of a run. It is empty exactly if they are the bytes of white space, or
none at all; so an invalid byte is always noticed. All other bytes are delivered as the one text
that they are taken for, with nothing trimmed. That text is never blank, and its own bytes are
delivered as the same text again. -/
theorem ofBytes_classified (bytes : List UInt8) :
    (ofBytes bytes = .empty ↔
      ∃ s, bytes = Utf8.encode s ∧ ∀ c ∈ s, c.toNat ∈ whiteSpace) ∧
    ((∀ s, bytes ≠ Utf8.encode s) → ofBytes bytes ≠ .empty) ∧
    (ofBytes bytes ≠ .empty → ∃ t, ofBytes bytes = .completed t ∧
      (∀ s, Utf8.Decodes bytes s ↔ s = t.toList) ∧ Inked t.toList ∧
      ofBytes (Utf8.encode t.toList) = .completed t) ∧
    ∀ t : String, Inked t.toList → ofBytes (Utf8.encode t.toList) = .completed t := by
  refine ⟨ofBytes_eq_empty_iff, ?_, ?_, fun t => ofBytes_encode t⟩
  · intro hno hempty
    obtain ⟨s, hs, _⟩ := ofBytes_eq_empty_iff.1 hempty
    exact hno s hs
  · intro hne
    have heq := ofBytes_of_decodes (Utf8.decodes_iff.2 (Eq.refl (Utf8.decodeLossy bytes)))
    split at heq
    · exact absurd heq hne
    · rename_i hall
      have hinked := not_all_isBlank_iff.1 hall
      generalize ht : String.ofList (Utf8.decodeLossy bytes) = t at heq
      have hlist : Utf8.decodeLossy bytes = t.toList := by rw [← ht, String.toList_ofList]
      rw [hlist] at hinked
      refine ⟨t, heq, ?_, hinked, ofBytes_encode t hinked⟩
      intro s
      rw [Utf8.decodes_iff, hlist]

/-- A character that breaks off is one invalid part, and the byte behind it counts again. -/
example : ofBytes [0x20, 0xE2, 0x82, 0x0A] = .completed " \uFFFD\n" := by decide

end Outcome

end AnalyzerBridge
