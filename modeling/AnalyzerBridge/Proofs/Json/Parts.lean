import AnalyzerBridge.Proofs.Json.Record

/-! Records by their parts: which values are read as a record, and which are with a value laid over
the form in which a record is written. -/
namespace AnalyzerBridge

open Json

namespace Json

def isList : Json → Bool
  | .list _ => true
  | _ => false

section
variable {members : List (String × Json)} {name : String} {place n : Nat} {w : Json}

theorem fits_overlay : ((object members).overlay w).Fits n ↔ w.Fits n := by
  cases w <;> rfl

theorem distinct_overlay (hm : Ascending members) (hw : w.Distinct) :
    ((object members).overlay w).Distinct := by
  cases w with
  | object layer => exact (ascending_overlayMembers hm).nodup
  | _ => exact hw

/-- What an object holds for a field after a value is laid over it. -/
theorem part?_overlay (hm : Ascending members) (hw : w.Distinct) (hf : w.Fits n) :
    ((object members).overlay w).part? name place = match w.part? name place with
      | none => if w.isList then none else lookup name members
      | some v => some (if w.isList then v else match lookup name members with
        | none => v
        | some b => b.overlay v) := by
  cases w with
  | object layer =>
    rw [overlay, part?, part?, lookup_overlayMembers hm hw]
    cases lookup name layer with
    | none => rfl
    | some v => cases lookup name members <;> rfl
  | list items =>
    have ho : (object members).overlay (list items) = list items := by simp [overlay]
    rw [ho, part?]
    cases items[place]? <;> rfl
  | _ => exact absurd hf id

/-- What is read for a part that is a record with these members, where a value that may be a list is
laid over the whole, and holds something for the part or nothing. -/
def laid? (inner : List (String × Json)) (whole : Bool) : Option Json → Option Json
  | none => if whole then none else some (.object inner)
  | some v => some (if whole then v else (Json.object inner).overlay v)

theorem part?_overlay_of_record (hm : Ascending members) (hw : w.Distinct) (hf : w.Fits n)
    {inner : List (String × Json)} (hi : lookup name members = some (.object inner)) :
    ((object members).overlay w).part? name place = laid? inner w.isList (w.part? name place) := by
  rw [part?_overlay hm hw hf, hi]
  cases w.part? name place <;> rfl

end

end Json

/-- The parts of a record: what each is, how it is written, and where it stands. -/
structure Parts (ρ : Type) where
  Part : Type
  Value : Part → Type
  name : Part → String
  place : Part → Nat
  form : (p : Part) → Form (Value p)
  get : ρ → (p : Part) → Value p

namespace Parts

open Form

variable {ρ : Type} {P : Parts ρ} {fields : List (FieldForm ρ)} {title : String}
  {blank r t base : ρ} {w : Json} {members : List (String × Json)}

/-- The fields of a table are these parts, which make up the record. -/
structure Of (P : Parts ρ) (fields : List (FieldForm ρ)) : Prop where
  table : Table fields
  shows : ∀ p, Shows fields (P.place p) (P.name p) (P.form p) fun r => P.get r p
  covers : ∀ place, place < fields.length → ∃ p, P.place p = place
  ext : ∀ r t, (∀ p, P.get r p = P.get t p) → r = t

/-- A record is read exactly from the values that fit it and give its parts. Parts that are left out
are those of the blank record. -/
theorem ofJson_iff (hP : P.Of fields) (hd : w.Distinct) :
    (record title blank fields).ofJson w = .ok t ↔ w.Fits fields.length ∧
      ∀ p, match w.part? (P.name p) (P.place p) with
        | none => P.get t p = P.get blank p
        | some v => (P.form p).ofJson v = .ok (P.get t p) := by
  constructor
  · intro h
    exact ⟨fits_of_record h, fun p => get_record hP.table (hP.shows p) h⟩
  · rintro ⟨hw, hparts⟩
    have hok : ∃ r, (record title blank fields).ofJson w = .ok r := by
      refine record_ok hP.table hw hd ?_
      intro place f v hf hv
      obtain ⟨p, rfl⟩ := hP.covers place (List.getElem?_eq_some_iff.1 hf).1
      obtain ⟨set, hset, _⟩ := (hP.shows p).field
      obtain rfl := Option.some.inj (hset.symm.trans hf)
      have hp := hparts p
      rw [FieldForm.name_may] at hv
      rw [hv] at hp
      exact ⟨_, FieldForm.ofJson_may.2 ⟨_, hp, rfl⟩⟩
    obtain ⟨r, hr⟩ := hok
    have heq : r = t := by
      apply hP.ext
      intro p
      have hp := hparts p
      have hg := get_record hP.table (hP.shows p) hr
      cases hv : w.part? (P.name p) (P.place p) with
      | none =>
        rw [hv] at hp hg
        exact hg.trans hp.symm
      | some v =>
        rw [hv] at hp hg
        exact Except.ok.inj (hg.symm.trans hp)
    rw [← heq, hr]

/-- These members are how a record is written: each part is there, and none is an object. -/
structure Written (P : Parts ρ) (base : ρ) (members : List (String × Json)) : Prop where
  ascending : Ascending members
  parts : ∀ p, ∃ x, lookup (P.name p) members = some x ∧ (P.form p).ofJson x = .ok (P.get base p)
  flat : ∀ name x, lookup name members = some x → ∀ w, x.overlay w = w

/-- A record is read back from the members by which it is written. -/
theorem written_iff (hP : P.Of fields) (hw : P.Written base members) :
    (record title blank fields).ofJson (.object members) = .ok t ↔ t = base := by
  have hd : (Json.object members).Distinct := hw.ascending.nodup
  rw [ofJson_iff hP hd]
  constructor
  · rintro ⟨_, hparts⟩
    apply hP.ext
    intro p
    obtain ⟨x, hx, hb⟩ := hw.parts p
    have hp := hparts p
    simp only [part?, hx] at hp
    exact Except.ok.inj (hp.symm.trans hb)
  · rintro rfl
    refine ⟨trivial, fun p => ?_⟩
    obtain ⟨x, hx, hb⟩ := hw.parts p
    simpa only [part?, hx] using hb

/-- A record with a value laid over it has the parts that the value gives. The others stay if the
value is an object, and are those of the blank record if it is a list. -/
theorem overlaid_iff (hP : P.Of fields) (hw : P.Written base members) (hd : w.Distinct) :
    (record title blank fields).ofJson ((Json.object members).overlay w) = .ok t ↔
      w.Fits fields.length ∧ ∀ p, match w.part? (P.name p) (P.place p) with
        | none => P.get t p = if w.isList then P.get blank p else P.get base p
        | some v => (P.form p).ofJson v = .ok (P.get t p) := by
  rw [ofJson_iff hP (distinct_overlay hw.ascending hd), fits_overlay]
  refine and_congr_right fun hf => forall_congr' fun p => ?_
  rw [part?_overlay hw.ascending hd hf]
  obtain ⟨x, hx, hb⟩ := hw.parts p
  cases w.part? (P.name p) (P.place p) with
  | some v =>
    rw [hx]
    simp only [hw.flat _ _ hx, ite_self]
  | none =>
    cases w.isList with
    | true => rfl
    | false =>
      simp only [hx, Bool.false_eq_true, if_false]
      rw [hb, Except.ok.injEq, eq_comm]

variable (title blank t) in
/-- How a record is read that is a part itself. -/
theorem laid_iff (hP : P.Of fields) (hw : P.Written base members) (whole : Bool) {x : Option Json}
    (hd : ∀ w, x = some w → w.Distinct) :
    (match laid? members whole x with
      | none => t = blank
      | some w => (record title blank fields).ofJson w = .ok t) ↔
    (∀ w, x = some w → w.Fits fields.length) ∧
      ∀ p, match x.bind (·.part? (P.name p) (P.place p)) with
        | none => P.get t p = if whole || x.any Json.isList then P.get blank p else P.get base p
        | some v => (P.form p).ofJson v = .ok (P.get t p) := by
  cases x with
  | none =>
    have hfree : ∀ w : Json, none = some w → w.Fits fields.length := fun w hw => by cases hw
    cases whole with
    | true =>
      refine ⟨?_, fun h => hP.ext t blank h.2⟩
      intro ht
      rw [show t = blank from ht]
      exact ⟨hfree, fun p => rfl⟩
    | false =>
      refine (written_iff hP hw).trans ⟨?_, fun h => hP.ext t base h.2⟩
      rintro rfl
      exact ⟨hfree, fun p => rfl⟩
  | some w =>
    simp only [Option.some.injEq, forall_eq', Option.bind_some, Option.any_some]
    cases whole with
    | true => exact ofJson_iff hP (hd w rfl)
    | false => exact overlaid_iff hP hw (hd w rfl)

end Parts

end AnalyzerBridge
