import AnalyzerBridge.Proofs.Json.Extension

/-! Typed values in a longer text. A form reads a value alike in each text that goes on behind it; a
record ends at a bracket of its own, so no text of a record goes on to another one. -/
namespace AnalyzerBridge

open Json

namespace Form

variable {α β ρ : Type} {a : Form α} {levels count i : Nat} {title wanted : String} {blank r u : ρ}
  {fields : List (FieldForm ρ)} {s t rest bound more : List Char} {first : Bool}
  {seen : List String}

theorem mismatch_ne_ok {x : α} : mismatch wanted s ≠ .ok x := by
  intro h
  obtain ⟨_, _, h⟩ := Except.bind_eq_ok.1 h
  cases h

theorem extends_map {f : α → β} (h : Extends (a.read levels)) :
    Extends ((map f a).read levels) where
  nil x hx := by
    obtain ⟨y, hy, _⟩ := Except.bind_eq_ok.1 hx
    exact h.nil y hy
  append s b rest t hb hr := by
    obtain ⟨⟨v, s'⟩, hv, hb⟩ := Except.bind_eq_ok.1 hb
    cases hb
    simp [map, h.append _ _ _ t hv hr, bind, Except.bind]

theorem extends_need {name : String} {set : α → ρ → ρ} {aliases : List String}
    (h : Extends (a.read levels)) : Extends ((FieldForm.need name a set aliases).read levels) :=
  extends_map h

theorem extends_may {name : String} {set : α → ρ → ρ} {aliases : List String}
    (h : Extends (a.read levels)) : Extends ((FieldForm.may name a set aliases).read levels) :=
  extends_map h

theorem extends_ofValue {accept : Json → Except Fault α} :
    Extends ((ofValue accept).read levels) where
  nil x hx := by
    obtain ⟨v, hv, _⟩ := Except.bind_eq_ok.1 hx
    exact extends_read.nil v hv
  append s b rest t hb hr := by
    obtain ⟨⟨v, s'⟩, hv, hb⟩ := Except.bind_eq_ok.1 hb
    obtain ⟨b, hacc, hb⟩ := Except.bind_eq_ok.1 hb
    cases hb
    simp [ofValue, extends_read.append _ _ _ t hv hr, hacc, bind, Except.bind]

theorem extends_integer {accept : Int → Option α} :
    Extends ((integer wanted accept).read levels) where
  nil x hx := by cases hx
  append s b rest t hb hr := by
    dsimp only [integer] at hb
    split at hb
    · cases hb
    · rename_i hs
      obtain ⟨⟨n, s'⟩, hn, hb⟩ := Except.bind_eq_ok.1 hb
      obtain ⟨b, hacc, hb⟩ := Except.bind_eq_ok.1 hb
      cases hb
      simp only [integer, skipSpace_append hs, readNumber_append hn hr, hacc, bind, Except.bind]
    · rename_i c s' hminus hs
      split at hb
      · rename_i hc
        obtain ⟨⟨n, s'⟩, hn, hb⟩ := Except.bind_eq_ok.1 hb
        obtain ⟨b, hacc, hb⟩ := Except.bind_eq_ok.1 hb
        cases hb
        have hnumber := readNumber_append (t := t) hn hr
        rw [List.cons_append] at hnumber
        simp [integer, skipSpace_append hs, hc, hnumber, hacc, bind, Except.bind]
      · exact absurd hb mismatch_ne_ok

theorem extends_u32 : Extends (u32.read levels) :=
  extends_integer

theorem closes_textAs : Closes ((textAs wanted).read levels) where
  nil x hx := by cases hx
  append s x rest t hx := by
    dsimp only [textAs] at hx
    split at hx
    · rename_i hs
      simp only [textAs, skipSpace_append hs, readText_append hx]
    · exact absurd hx mismatch_ne_ok

theorem closes_text : Closes (text.read levels) :=
  closes_textAs

theorem closes_bool : Closes (bool.read levels) where
  nil x hx := by cases hx
  append s x rest t hx := by
    dsimp only [bool] at hx
    split at hx
    · rename_i hs
      obtain ⟨s', hw, hx⟩ := Except.bind_eq_ok.1 hx
      cases hx
      simp only [bool, skipSpace_append hs, scanWord_append hw, bind, Except.bind]
    · rename_i hs
      obtain ⟨s', hw, hx⟩ := Except.bind_eq_ok.1 hx
      cases hx
      simp only [bool, skipSpace_append hs, scanWord_append hw, bind, Except.bind]
    · exact absurd hx mismatch_ne_ok

theorem closes_unit : Closes (unit.read levels) where
  nil x hx := by cases hx
  append s x rest t hx := by
    dsimp only [unit] at hx
    split at hx
    · rename_i hs
      obtain ⟨s', hw, hx⟩ := Except.bind_eq_ok.1 hx
      cases hx
      simp only [unit, skipSpace_append hs, scanWord_append hw, bind, Except.bind]
    · exact absurd hx mismatch_ne_ok

theorem extends_optional (h : Extends (a.read levels)) : Extends ((optional a).read levels) where
  nil x hx := by
    obtain ⟨v, hv, _⟩ := Except.bind_eq_ok.1 hx
    exact h.nil v hv
  append s x rest t hx hr := by
    dsimp only [optional] at hx
    split at hx
    · rename_i hs
      obtain ⟨s', hw, hx⟩ := Except.bind_eq_ok.1 hx
      cases hx
      simp only [optional, skipSpace_append hs, scanWord_append hw, bind, Except.bind]
    · rename_i hno
      obtain ⟨⟨v, s'⟩, hv, hx⟩ := Except.bind_eq_ok.1 hx
      cases hx
      cases hs : skipSpace s with
      | nil =>
        rw [hs] at hv
        exact absurd hv (h.nil _)
      | cons c x =>
        have hc : c ≠ 'n' := fun hc => hno x (by rw [hs, hc])
        have hread := h.append _ _ _ t hv hr
        rw [hs, List.cons_append] at hread
        simp [optional, skipSpace_append hs, hc, hread, bind, Except.bind]

theorem closes_list (h : ∀ levels, Extends (a.read levels)) : Closes ((list a).read levels) where
  nil x hx := by cases hx
  append s x rest t hx := by
    dsimp only [list] at hx
    split at hx
    · rename_i hs
      cases levels with
      | zero => cases hx
      | succ levels => simp only [list, skipSpace_append hs, readItems_append (h levels) hx]
    · exact absurd hx mismatch_ne_ok

theorem closes_choice {table : List (String × α)} : Closes ((choice table).read levels) where
  nil x hx := by cases hx
  append s x rest t hx := by
    dsimp only [choice] at hx
    split at hx
    · cases hx
    · rename_i hs
      obtain ⟨⟨name, s₁⟩, hname, hx⟩ := Except.bind_eq_ok.1 hx
      obtain ⟨v, hv, hx⟩ := Except.bind_eq_ok.1 hx
      cases hx
      simp only [choice, skipSpace_append hs, readText_append hname, hv, bind, Except.bind]
    · rename_i hs
      cases levels with
      | zero => cases hx
      | succ levels =>
        obtain ⟨⟨name, s₁⟩, hname, hx⟩ := Except.bind_eq_ok.1 hx
        obtain ⟨v, hv, hx⟩ := Except.bind_eq_ok.1 hx
        obtain ⟨s₂, hcolon, hx⟩ := Except.bind_eq_ok.1 hx
        obtain ⟨⟨⟨⟩, s₃⟩, hunit, hx⟩ := Except.bind_eq_ok.1 hx
        simp only [choice, skipSpace_append hs, closes_textAs.append _ _ _ t hname, hv,
          readColon_append hcolon, closes_unit.append _ _ _ t hunit, bind, Except.bind]
        split at hx
        · cases hx
        · rename_i hclose
          cases hx
          simp only [skipSpace_append hclose]
        · cases hx
    · cases hx

theorem readPositions_append (hf : ∀ f ∈ fields, ∀ levels, Json.Extends (f.read levels))
    (h : readPositions title count levels fields i r s = .ok (u, rest)) :
    readPositions title count levels fields i r (s ++ t) = .ok (u, rest ++ t) := by
  induction fields generalizing i r s with
  | nil =>
    obtain ⟨s', hclose, h⟩ := Except.bind_eq_ok.1 h
    cases h
    simp [readPositions, closeList_append hclose, bind, Except.bind]
  | cons f fields ih =>
    obtain ⟨next, hnext, h⟩ := Except.bind_eq_ok.1 h
    rw [readPositions, nextItem_append hnext]
    cases next with
    | close s =>
      obtain ⟨_, htail, h⟩ := Except.bind_eq_ok.1 h
      cases h
      simp [Next.append, htail, bind, Except.bind]
    | entry s =>
      obtain ⟨⟨set, s'⟩, hset, h⟩ := Except.bind_eq_ok.1 h
      have hs : s' ≠ [] := by
        rintro rfl
        cases fields <;> cases h
      have hfield := (hf f List.mem_cons_self levels).append _ _ _ t hset hs
      have hrest := ih (fun g hg => hf g (List.mem_cons_of_mem f hg)) h
      simp [Next.append, hfield, hrest, bind, Except.bind]

theorem readFields_append (hf : ∀ f ∈ fields, ∀ levels, Json.Extends (f.read levels))
    (h : readFields fields levels bound first seen r s = .ok (u, rest)) :
    readFields fields levels (bound ++ more) first seen r (s ++ t) = .ok (u, rest ++ t) := by
  induction bound generalizing first seen r s with
  | nil => cases h
  | cons c bound ih =>
    obtain ⟨next, hnext, h⟩ := Except.bind_eq_ok.1 h
    rw [List.cons_append, readFields, nextMember_append hnext]
    cases next with
    | close s =>
      obtain ⟨_, hmissing, h⟩ := Except.bind_eq_ok.1 h
      cases h
      simp [Next.append, hmissing, bind, Except.bind]
    | entry s =>
      obtain ⟨⟨key, s₁⟩, hkey, h⟩ := Except.bind_eq_ok.1 h
      simp only [Next.append, readText_append hkey, bind, Except.bind]
      cases hfind : fields.find? (·.answersTo key) with
      | none =>
        simp only [hfind] at h
        obtain ⟨s₂, hcolon, h⟩ := Except.bind_eq_ok.1 h
        obtain ⟨s₃, hskip, h⟩ := Except.bind_eq_ok.1 h
        have hs : s₃ ≠ [] := by
          rintro rfl
          cases bound <;> cases h
        simp only [readColon_append hcolon, skip_append hskip hs, ih h]
      | some f =>
        simp only [hfind] at h
        split at h
        · cases h
        · rename_i hseen
          obtain ⟨s₂, hcolon, h⟩ := Except.bind_eq_ok.1 h
          obtain ⟨⟨set, s₃⟩, hset, h⟩ := Except.bind_eq_ok.1 h
          have hs : s₃ ≠ [] := by
            rintro rfl
            cases bound <;> cases h
          have hfield := (hf f (List.mem_of_find?_eq_some hfind) levels).append _ _ _ t hset hs
          simp only [if_neg hseen, readColon_append hcolon, hfield, ih h]

theorem closes_record (hf : ∀ f ∈ fields, ∀ levels, Json.Extends (f.read levels)) :
    Closes ((record title blank fields).read levels) where
  nil x hx := by cases hx
  append s x rest t hx := by
    dsimp only [record] at hx
    split at hx
    · rename_i hs
      cases levels with
      | zero => cases hx
      | succ levels => simp only [record, skipSpace_append hs, readPositions_append hf hx]
    · rename_i hs
      cases levels with
      | zero => cases hx
      | succ levels => simp only [record, skipSpace_append hs, readFields_append hf hx]
    · exact absurd hx mismatch_ne_ok

end Form

end AnalyzerBridge
