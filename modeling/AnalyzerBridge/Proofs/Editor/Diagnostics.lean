import AnalyzerBridge.Editor.Diagnostic
import Mathlib.Data.List.Basic

/-! Diagnostics against the problems of a report. Main statement: there is one for each problem that
is not generic, in the order of the report, over as many units as the token at fault has and 32 bits
can count. -/
namespace AnalyzerBridge

/-- Each character is one unit, and those above U+FFFF are one more. -/
theorem Text.units_eq_length_add (s : List Char) :
    units s = s.length + s.countP (0xFFFF < ·.toNat) := by
  induction s with
  | nil => rfl
  | cons c s ih =>
    rw [units_cons, ih, charUnits, List.length_cons, List.countP_cons]
    by_cases hc : c.toNat < 0x10000
    · have habove : ¬ 0xFFFF < c.toNat := by omega
      simp only [hc, habove, if_true, decide_false, Bool.false_eq_true, if_false]
      omega
    · have habove : 0xFFFF < c.toNat := by omega
      simp only [hc, habove, if_true, if_false, decide_true]
      omega

/-- How many units the token at fault takes: as many as the analyzer says, or else as many as its
text has, where characters above U+FFFF count twice. -/
def Problem.extent (p : Problem) : Nat :=
  match p.length with
  | some n => n.toNat
  | none => p.token.toList.length + p.token.toList.countP (0xFFFF < ·.toNat)

/-- A diagnostic shows a problem: what it says, and where the token at fault is. Its end is as far as
32 bits reach. -/
structure Diagnostic.Shows (source : String) (p : Problem) (d : Diagnostic) : Prop where
  start_line : d.range.start.line.toNat = max p.line.toNat 1 - 1
  stop_line : d.range.stop.line.toNat = max p.line.toNat 1 - 1
  start_column : d.range.start.character = p.column
  stop_column : d.range.stop.character.toNat = min (p.column.toNat + p.extent) (twoTo 32 - 1)
  code : d.code = p.code
  message : d.message = p.description
  tag : d.source = source

/-- Diagnostics for problems, one after the other: none for a generic problem, and one for each of
the others. -/
inductive Translates (source : String) : List Problem → List Diagnostic → Prop
  | nil : Translates source [] []
  | generic {p : Problem} {ps : List Problem} {ds : List Diagnostic} : p.generic = true →
      Translates source ps ds → Translates source (p :: ps) ds
  | shown {p : Problem} {ps : List Problem} {d : Diagnostic} {ds : List Diagnostic} :
      p.generic = false → d.Shows source p → Translates source ps ds →
      Translates source (p :: ps) (d :: ds)

/-- The second problems are the first ones with generic problems put in between. -/
inductive MixedWithGeneric : List Problem → List Problem → Prop
  | nil : MixedWithGeneric [] []
  | generic {p : Problem} {ps qs : List Problem} : p.generic = true → MixedWithGeneric ps qs →
      MixedWithGeneric ps (p :: qs)
  | same {p : Problem} {ps qs : List Problem} : MixedWithGeneric ps qs →
      MixedWithGeneric (p :: ps) (p :: qs)

variable {p : Problem} {d : Diagnostic} {ps qs : List Problem} {ds : List Diagnostic}
  {source : String}

/-- The width of the token at fault, as a word, is its extent. -/
theorem Problem.toNat_tokenWidth (hp : Text.units p.token.toList < twoTo 32) :
    p.tokenWidth.toNat = p.extent := by
  rw [tokenWidth, extent]
  cases p.length with
  | some n => rfl
  | none =>
    rw [Option.getD_none, toNat_width hp, Text.units_eq_length_add]

namespace Diagnostic

theorem shows_diagnostic (hp : Text.units p.token.toList < twoTo 32) :
    (p.diagnostic source).Shows source p where
  start_line := by
    rw [Problem.diagnostic, Problem.range, Range.toNat_line_onLine]
    omega
  stop_line := by
    have hline : (p.diagnostic source).range.stop.line = (p.diagnostic source).range.start.line := rfl
    rw [hline, Problem.diagnostic, Problem.range, Range.toNat_line_onLine]
    omega
  start_column := rfl
  stop_column := by
    rw [Problem.diagnostic, Problem.range, Range.onLine, toNat_clampedAdd,
      Problem.toNat_tokenWidth hp]
  code := rfl
  message := rfl
  tag := rfl

/-- Only one diagnostic shows a problem. -/
theorem Shows.unique {e : Diagnostic} (hd : d.Shows source p) (he : e.Shows source p) : d = e := by
  have hstart_line := UInt32.toNat_inj.1 (hd.start_line.trans he.start_line.symm)
  have hstop_line := UInt32.toNat_inj.1 (hd.stop_line.trans he.stop_line.symm)
  have hstop_column := UInt32.toNat_inj.1 (hd.stop_column.trans he.stop_column.symm)
  obtain ⟨⟨⟨_, _⟩, ⟨_, _⟩⟩, _, _, _⟩ := d
  obtain ⟨⟨⟨_, _⟩, ⟨_, _⟩⟩, _, _, _⟩ := e
  simp only [Diagnostic.mk.injEq, Range.mk.injEq, Position.mk.injEq]
  exact ⟨⟨⟨hstart_line, hd.start_column.trans he.start_column.symm⟩, hstop_line, hstop_column⟩,
    hd.code.trans he.code.symm, hd.tag.trans he.tag.symm, hd.message.trans he.message.symm⟩

theorem shows_iff (hp : Text.units p.token.toList < twoTo 32) :
    d.Shows source p ↔ d = p.diagnostic source :=
  ⟨fun h => h.unique (shows_diagnostic hp), fun h => h ▸ shows_diagnostic hp⟩

namespace Shows

/-- A range does not end before its start. -/
theorem start_le_stop (h : d.Shows source p) :
    d.range.start.line = d.range.stop.line ∧ d.range.start.character ≤ d.range.stop.character := by
  refine ⟨UInt32.toNat_inj.1 (h.start_line.trans h.stop_line.symm), ?_⟩
  have hlt : p.column.toNat < twoTo 32 := p.column.toNat_lt
  rw [UInt32.le_iff_toNat_le, h.start_column, h.stop_column]
  omega

/-- A range is as wide as its token, if 32 bits can count its end. -/
theorem width (h : d.Shows source p) (hfits : p.column.toNat + p.extent < twoTo 32) :
    d.range.stop.character.toNat - d.range.start.character.toNat = p.extent := by
  rw [h.start_column, h.stop_column]
  omega

end Shows

end Diagnostic

theorem translates_iff (hp : ∀ p ∈ ps, Text.units p.token.toList < twoTo 32) :
    Translates source ps ds ↔ ds = (ps.filter (!·.generic)).map (Problem.diagnostic source) := by
  induction ps generalizing ds with
  | nil =>
    constructor
    · rintro ⟨⟩
      rfl
    · rintro rfl
      exact .nil
  | cons p ps ih =>
    obtain ⟨hshort, hrest⟩ := List.forall_mem_cons.1 hp
    cases hg : p.generic with
    | true =>
      rw [List.filter_cons_of_neg (by simp [hg]), ← ih hrest]
      constructor
      · intro h
        cases h with
        | generic _ h => exact h
        | shown hno => simp [hg] at hno
      · exact .generic hg
    | false =>
      rw [List.filter_cons_of_pos (by simp [hg]), List.map_cons]
      constructor
      · intro h
        cases h with
        | generic hno => simp [hg] at hno
        | shown _ hd h => rw [(Diagnostic.shows_iff hshort).1 hd, (ih hrest).1 h]
      · rintro rfl
        exact .shown hg (Diagnostic.shows_diagnostic hshort) ((ih hrest).2 rfl)

/-- Generic problems are of no account among those that are shown. -/
theorem MixedWithGeneric.filter_eq (h : MixedWithGeneric ps qs) :
    qs.filter (!·.generic) = ps.filter (!·.generic) := by
  induction h with
  | nil => rfl
  | generic hg _ ih => rw [List.filter_cons_of_neg (by simp [hg]), ih]
  | same _ ih => rw [List.filter_cons, List.filter_cons, ih]

/-- The diagnostics of a report are the translation of its problems: one for each that is not
generic, in their order. Each lies on one line and does not end before its start, whatever numbers
the analyzer reports, and it is as wide as its token, unless 32 bits cannot count where that ends.
Generic problems change nothing, however many there are and wherever they stand. -/
theorem Report.diagnostics_translate {r : Report}
    (hr : ∀ p ∈ r.problems, Text.units p.token.toList < twoTo 32) :
    (∀ ds, Translates source r.problems ds ↔ ds = r.diagnostics source) ∧
    (∀ d ∈ r.diagnostics source, d.range.start.line = d.range.stop.line ∧
      d.range.start.character ≤ d.range.stop.character ∧
      ∃ p ∈ r.problems, p.generic = false ∧ d.Shows source p ∧
        (p.column.toNat + p.extent < twoTo 32 →
          d.range.stop.character.toNat - d.range.start.character.toNat = p.extent)) ∧
    ∀ r' : Report, MixedWithGeneric r.problems r'.problems →
      r'.diagnostics source = r.diagnostics source := by
  refine ⟨fun ds => translates_iff hr, ?_, ?_⟩
  · intro d hd
    obtain ⟨p, hp, rfl⟩ := List.mem_map.1 hd
    obtain ⟨hp, hg⟩ := List.mem_filter.1 hp
    have hshows : (p.diagnostic source).Shows source p := Diagnostic.shows_diagnostic (hr p hp)
    obtain ⟨hline, hle⟩ := hshows.start_le_stop
    exact ⟨hline, hle, p, hp, by simpa using hg, hshows, hshows.width⟩
  · intro r' hmixed
    rw [diagnostics, diagnostics, hmixed.filter_eq]

/-- A report with a problem on line 0 that ends past the last column, and one that the analyzer has
itself. -/
def Report.limits : Report :=
  { blank with problems := [
      ⟨0, 4294967294, "a😀", "unknown", false, some "E1", none⟩,
      ⟨3, 0, "", "internal", true, none, none⟩,
      ⟨4294967295, 5, "😀", "unused", false, none, some 4294967290⟩] }

theorem Report.diagnostics_translate_limits :
    (∀ p ∈ limits.problems, Text.units p.token.toList < twoTo 32) ∧
    Translates "qs" limits.problems [
      ⟨⟨⟨0, 4294967294⟩, ⟨0, 4294967295⟩⟩, some "E1", "qs", "unknown"⟩,
      ⟨⟨⟨4294967294, 5⟩, ⟨4294967294, 4294967295⟩⟩, none, "qs", "unused"⟩] := by
  have hshort : ∀ p ∈ limits.problems, Text.units p.token.toList < twoTo 32 := by decide
  exact ⟨hshort, ((diagnostics_translate hshort).1 _).2 (by decide)⟩

end AnalyzerBridge
