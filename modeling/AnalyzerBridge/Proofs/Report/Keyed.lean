import AnalyzerBridge.Proofs.Report.Spelling

/-! Listings as a list and under the names of their numbers are kept alike, and whatever is read, each
listing is kept under its own number. Main statement: `Report.listings_of_text`. -/
namespace AnalyzerBridge

open Json Form

namespace Form

variable {ρ : Type} {fields : List (FieldForm ρ)} {levels count i : Nat} {title : String}
  {bound s rest : List Char} {first : Bool} {seen : List String} {blank r t : ρ} {P : ρ → Prop}

/-- What a field reads keeps a property of the record. -/
def Keeps (P : ρ → Prop) (f : FieldForm ρ) : Prop :=
  ∀ levels s u rest, f.read levels s = .ok (u, rest) → ∀ r, P r → P (u r)

theorem keeps_positions (hf : ∀ f ∈ fields, Keeps P f) (hr : P r)
    (h : readPositions title count levels fields i r s = .ok (t, rest)) : P t := by
  induction fields generalizing i r s with
  | nil =>
    obtain ⟨_, _, h⟩ := Except.bind_eq_ok.1 h
    cases h
    exact hr
  | cons f fields ih =>
    obtain ⟨next, _, h⟩ := Except.bind_eq_ok.1 h
    cases next with
    | close =>
      obtain ⟨_, _, h⟩ := Except.bind_eq_ok.1 h
      cases h
      exact hr
    | entry s =>
      obtain ⟨⟨u, s⟩, hu, h⟩ := Except.bind_eq_ok.1 h
      exact ih (fun g hg => hf g (List.mem_cons_of_mem f hg))
        (hf f List.mem_cons_self levels _ u s hu r hr) h

theorem keeps_fields (hf : ∀ f ∈ fields, Keeps P f) (hr : P r)
    (h : readFields fields levels bound first seen r s = .ok (t, rest)) : P t := by
  induction bound generalizing first seen r s with
  | nil => cases h
  | cons c bound ih =>
    obtain ⟨next, _, h⟩ := Except.bind_eq_ok.1 h
    cases next with
    | close =>
      obtain ⟨_, _, h⟩ := Except.bind_eq_ok.1 h
      cases h
      exact hr
    | entry s =>
      obtain ⟨⟨key, s⟩, _, h⟩ := Except.bind_eq_ok.1 h
      simp only at h
      cases hfind : fields.find? (·.answersTo key) with
      | none =>
        rw [hfind] at h
        obtain ⟨s, _, h⟩ := Except.bind_eq_ok.1 h
        obtain ⟨s, _, h⟩ := Except.bind_eq_ok.1 h
        exact ih hr h
      | some f =>
        rw [hfind] at h
        simp only at h
        split at h
        · cases h
        · obtain ⟨s, _, h⟩ := Except.bind_eq_ok.1 h
          obtain ⟨⟨u, s⟩, hu, h⟩ := Except.bind_eq_ok.1 h
          exact ih (hf f (List.mem_of_find?_eq_some hfind) levels _ u _ hu r hr) h

/-- A property that the blank record has and every field keeps holds of each record that is read. -/
theorem of_read_record (hf : ∀ f ∈ fields, Keeps P f) (hb : P blank)
    (h : (record title blank fields).read levels s = .ok (t, rest)) : P t := by
  simp only [record] at h
  split at h
  · cases levels with
    | zero => cases h
    | succ levels => exact keeps_positions hf hb h
  · cases levels with
    | zero => cases h
    | succ levels => exact keeps_fields hf hb h
  · obtain ⟨_, _, h⟩ := Except.bind_eq_ok.1 h
    cases h

theorem keeps_may {α : Type} {name : String} {aliases : List String} {f : Form α} {set : α → ρ → ρ}
    (h : ∀ levels s a rest, f.read levels s = .ok (a, rest) → ∀ r, P r → P (set a r)) :
    Keeps P (.may name f set aliases) := by
  intro levels s u rest hu r hr
  obtain ⟨⟨a, s⟩, ha, hu⟩ := Except.bind_eq_ok.1 hu
  cases hu
  exact h levels _ a _ ha r hr

end Form

theorem Report.sound_of_read {levels : Nat} {s rest : List Char} {r : Report}
    (h : form.read levels s = .ok (r, rest)) : r.listings.Sound := by
  refine of_read_record (P := fun r => r.listings.Sound) (fun f hf => ?_) Listings.sound_empty h
  simp only [List.mem_cons, List.not_mem_nil, or_false] at hf
  rcases hf with rfl | rfl | rfl | rfl
  · exact keeps_may fun _ _ _ _ _ _ hr => hr
  · exact keeps_may fun _ _ _ _ _ _ hr => hr
  · exact keeps_may fun _ _ _ _ _ _ hr => hr
  · refine keeps_may fun _ _ _ _ hread _ _ => ?_
    obtain ⟨⟨v, s⟩, _, hread⟩ := Except.bind_eq_ok.1 hread
    obtain ⟨m, hm, hread⟩ := Except.bind_eq_ok.1 hread
    cases hread
    exact Listings.sound_ofJson hm

theorem Report.sound_of_text {text : String} {r : Report} (h : ofText text = .ok r) :
    r.listings.Sound := by
  obtain ⟨⟨r', rest⟩, hread, h⟩ := Except.bind_eq_ok.1 h
  obtain ⟨_, _, h⟩ := Except.bind_eq_ok.1 h
  cases h
  exact sound_of_read hread

/-- The value of listings under the names of their numbers, with any number in them or none. -/
inductive KeyedValue (ls : List Listing) : Json → Prop
  | object {members : List (String × Json)} :
      List.Forall₂ (fun l m => m.1 = toString l.id.toNat ∧
        ∃ id, RecordValue (Listing.slots { l with id := id }) m.2) ls members →
      KeyedValue ls (.object members)

theorem Listings.ofJson_keyed {ls : List Listing} {v : Json} (h : KeyedValue ls v) :
    ofJson v = .ok (ofList ls) := by
  obtain @⟨members, h⟩ := h
  have hnamed : ∃ named, List.Forall₂ StandsUnder ls named ∧
      members.mapM (fun m => (Listing.form.ofJson m.2).map (m.1, ·)) = .ok named := by
    induction h with
    | nil => exact ⟨[], .nil, rfl⟩
    | @cons l m ls members hm _ ih =>
      obtain ⟨hname, id, hrecord⟩ := hm
      obtain ⟨named, hstands, hmap⟩ := ih
      refine ⟨(m.1, { l with id := id }) :: named, .cons ⟨hname, rfl⟩ hstands, ?_⟩
      rw [List.mapM_cons, Listing.ofJson_form hrecord, hmap]
      rfl
  obtain ⟨named, hstands, hmap⟩ := hnamed
  rw [ofJson, hmap]
  exact insertNamed_byName hstands

theorem Report.ofText_keyed {ls : List Listing} {r : Report} {text : String}
    (hr : r.listings = .ofList ls) (h : r.WrittenBy (KeyedValue ls) text) : ofText text = .ok r :=
  ofText_writtenBy (fun _ hv => (Listings.ofJson_keyed hv).trans (congrArg _ hr.symm)) h

/-- Listings written as a list and under the names of their numbers are read alike: under each number
the last one with this number is kept. And whatever is read, each listing is kept under its own
number, so that a symbol leads to a listing with the number that it refers to, if there is one. -/
theorem Report.listings_of_text :
    (∀ ls : List Listing, (Listings.ofList ls).Sound ∧
      (∀ id, (Listings.ofList ls).find? id = (ls.filter (·.id = id)).getLast?) ∧
      ∀ (r : Report) (text : String), r.listings = .ofList ls →
        r.WrittenBy (ListedValue ls) text ∨ r.WrittenBy (KeyedValue ls) text →
        ofText text = .ok r) ∧
    ∀ (r : Report) (text : String), ofText text = .ok r →
      (∀ e ∈ r.listings.entries, e.2.id = e.1) ∧
      ∀ x : Symbol, (∀ l, r.listingOf x = some l → x.listingId = some l.id) ∧
        ∀ id, x.listingId = some id → id ∈ r.listings.entries.map (·.1) →
          ∃ l, r.listingOf x = some l := by
  constructor
  · intro ls
    refine ⟨Listings.sound_ofList, fun _ => Listings.find?_ofList, ?_⟩
    rintro r text hr (h | h)
    · exact ofText_listed hr h
    · exact ofText_keyed hr h
  · intro r text h
    have hsound := sound_of_text h
    refine ⟨hsound.own, fun x => ⟨fun l hl => ?_, fun id hid hmem => ?_⟩⟩
    · obtain ⟨id, hid, hfind⟩ := Option.bind_eq_some_iff.1 hl
      rw [hid, hsound.id_of_find? hfind]
    · obtain ⟨e, he, rfl⟩ := List.mem_map.1 hmem
      exact ⟨e.2, Option.bind_eq_some_iff.2 ⟨_, hid, hsound.find?_eq_some.2 he⟩⟩

/-- One number twice, with another number in the second record. -/
theorem Report.listings_of_text_sample :
    let ls : List Listing := [⟨4, "f", []⟩, ⟨4, "g", []⟩]
    let r : Report := ⟨.ok, [], [], ⟨[(4, ⟨4, "g", []⟩)]⟩⟩
    let x : Symbol := ⟨.global, 1, 0, "h", false, none, none, [], some 4⟩
    let text := "\x7b\"disasm\":\x7b\"4\":\x7b\"name\":\"f\"\x7d,\"4\":\x7b\"name\":\"g\",\"id\":7\x7d\x7d\x7d"
    r.listings = .ofList ls ∧ r.WrittenBy (KeyedValue ls) text ∧ ofText text = .ok r ∧
      4 ∈ r.listings.entries.map (·.1) ∧ ∃ l, r.listingOf x = some l := by
  intro ls r x text
  have hf : SpellsScalar (.text "f") ['"', 'f', '"'] :=
    .text (t := "f") (b := ['f']) (spellsText_self (by decide))
  have hg : SpellsScalar (.text "g") ['"', 'g', '"'] :=
    .text (t := "g") (b := ['g']) (spellsText_self (by decide))
  have hseven : SpellsScalar (.nat 7) ['7'] := .int (by decide) (by decide)
  have hkeyed : KeyedValue ls (.object [("4", .object [("name", .text "f")]),
      ("4", .object [("name", .text "g"), ("id", .nat 7)])]) := by
    refine .object (.cons ⟨rfl, 0, .object ⟨?_, ?_⟩⟩ (.cons ⟨rfl, 7, .object ⟨?_, ?_⟩⟩ .nil))
    · simp [Listing.slots, Slot.need, Slot.may, Slot.among]
    · simp
    · simp [Listing.slots, Slot.need, Slot.may, Slot.among]
    · simp
  have hfirst : Spells 125 (.object [("name", .text "f")]) _ :=
    .inr (.inr ⟨_, rfl, .members <|
      .first gap_nil (memberText_self "name" _ (by decide) (spells_scalar hf)) <| .close gap_nil⟩)
  have hsecond : Spells 125 (.object [("name", .text "g"), ("id", .nat 7)]) _ :=
    .inr (.inr ⟨_, rfl, .members <|
      .first gap_nil (memberText_self "name" _ (by decide) (spells_scalar hg)) <|
      .next gap_nil gap_nil (memberText_self "id" _ (by decide) (spells_scalar hseven)) <|
      .close gap_nil⟩)
  have hboth : Spells 126 (.object [("4", .object [("name", .text "f")]),
      ("4", .object [("name", .text "g"), ("id", .nat 7)])]) _ :=
    .inr (.inr ⟨_, rfl, .members <|
      .first gap_nil (memberText_self "4" _ (by decide) hfirst) <|
      .next gap_nil gap_nil (memberText_self "4" _ (by decide) hsecond) <| .close gap_nil⟩)
  have hfills : ∀ d, Spells 126 (.object [("4", .object [("name", .text "f")]),
      ("4", .object [("name", .text "g"), ("id", .nat 7)])]) d →
      Fills (r.slots (KeyedValue ls)) (fun s => ∃ levels, WellFormed levels s) [("disasm", d)] := by
    intro d hd
    constructor
    · simp [Report.slots, Slot.may, Slot.among, r]
      exact ⟨_, hkeyed, hd⟩
    · simp [Report.slots, Slot.may]
  have hreport := RecordText.object (.members <|
    .first gap_nil (memberText_self "disasm" _ (by decide) rfl) <| .close gap_nil) (hfills _ hboth)
  have hwritten : r.WrittenBy (KeyedValue ls) text :=
    ⟨[], _, [], by simp [text], gap_nil, gap_nil, hreport⟩
  have hread : ofText text = .ok r := (listings_of_text.1 ls).2.2 r text rfl (Or.inr hwritten)
  have hmem : 4 ∈ r.listings.entries.map (·.1) := by simp [r]
  exact ⟨rfl, hwritten, hread, hmem, ((listings_of_text.2 r text hread).2 x).2 4 rfl hmem⟩

end AnalyzerBridge
