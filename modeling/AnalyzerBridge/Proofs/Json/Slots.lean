import AnalyzerBridge.Proofs.Json.Record
import Mathlib.Data.List.Pairwise

/-! Records by the members that are written for them. `Fills` says what may be written, in any order
and with other members in between; `Takes` is how a record is read member by member. Main statement:
whatever fills the slots of a record is taken for this record. -/
namespace AnalyzerBridge

/-- A member that is written for a record: its names, whether it may be left out, and what is written
for it. -/
structure Slot (τ : Type) where
  names : List String
  Spare : Prop
  Written : τ → Prop

namespace Slot

variable {τ : Type}

/-- A member that is always written. -/
def need (names : List String) (Written : τ → Prop) : Slot τ :=
  ⟨names, False, Written⟩

/-- A member that may be left out if it has its default. -/
def may (names : List String) (isDefault : Prop) (Written : τ → Prop) : Slot τ :=
  ⟨names, isDefault, Written⟩

/-- The members that are written for this one. -/
def among (slot : Slot τ) (members : List (String × τ)) : List (String × τ) :=
  members.filter (·.1 ∈ slot.names)

end Slot

/-- These members are written for a record: one for each slot, unless it may be left out, and besides
only members that no slot names. -/
structure Fills {τ : Type} (slots : List (Slot τ)) (Other : τ → Prop)
    (members : List (String × τ)) : Prop where
  single : ∀ slot ∈ slots, (slot.Spare ∧ slot.among members = []) ∨
    ∃ m, slot.among members = [m] ∧ slot.Written m.2
  others : ∀ m ∈ members, (∀ slot ∈ slots, m.1 ∉ slot.names) → Other m.2

namespace Form

open FieldForm

variable {ρ τ : Type} {Gives : FieldForm ρ → τ → (ρ → ρ) → Prop} {Other : τ → Prop}
  {fields : List (FieldForm ρ)} {slots : List (Slot τ)} {us : List (ρ → ρ)}
  {seen : List String} {r t blank : ρ} {members : List (String × τ)}

/-- How the members of a record are taken: those that a field asks for once each, the others passed
over. `Gives` says how a field changes the record. -/
inductive Takes (Gives : FieldForm ρ → τ → (ρ → ρ) → Prop) (Other : τ → Prop)
    (fields : List (FieldForm ρ)) : List String → ρ → List (String × τ) → ρ → Prop
  | done {seen : List String} {r : ρ} : checkMissing fields seen = .ok () →
      Takes Gives Other fields seen r [] r
  | other {seen : List String} {r t : ρ} {key : String} {x : τ} {members : List (String × τ)} :
      fields.find? (·.answersTo key) = none → Other x →
      Takes Gives Other fields seen r members t →
      Takes Gives Other fields seen r ((key, x) :: members) t
  | field {seen : List String} {r t : ρ} {key : String} {x : τ} {members : List (String × τ)}
      {f : FieldForm ρ} {u : ρ → ρ} : fields.find? (·.answersTo key) = some f → f.name ∉ seen →
      Gives f x u → Takes Gives Other fields (f.name :: seen) (u r) members t →
      Takes Gives Other fields seen r ((key, x) :: members) t

/-- A field reads what is written for a slot, and changes the record by `u`. -/
structure Serves (Gives : FieldForm ρ → τ → (ρ → ρ) → Prop) (blank : ρ) (f : FieldForm ρ)
    (slot : Slot τ) (u : ρ → ρ) : Prop where
  names : ∀ key, f.answersTo key = true ↔ key ∈ slot.names
  gives : ∀ x, slot.Written x → Gives f x u
  spare : slot.Spare → f.required = false ∧ u blank = blank

/-- The fields of a record serve its slots one by one. -/
inductive Served (Gives : FieldForm ρ → τ → (ρ → ρ) → Prop) (blank : ρ) :
    List (FieldForm ρ) → List (Slot τ) → List (ρ → ρ) → Prop
  | nil : Served Gives blank [] [] []
  | cons {f : FieldForm ρ} {slot : Slot τ} {u : ρ → ρ} {fields : List (FieldForm ρ)}
      {slots : List (Slot τ)} {us : List (ρ → ρ)} : Serves Gives blank f slot u →
      Served Gives blank fields slots us →
      Served Gives blank (f :: fields) (slot :: slots) (u :: us)

/-- Changes that together make a record, in whatever order they come. -/
structure Makes (us : List (ρ → ρ)) (t : ρ) : Prop where
  idem : ∀ u ∈ us, ∀ r, u (u r) = u r
  comm : ∀ u ∈ us, ∀ w ∈ us, ∀ r, u (w r) = w (u r)
  all : ∀ r, us.foldl (fun r u => u r) r = t

/-- A record that none of the changes changes any more is made. -/
theorem Makes.eq_of_fixed (hm : Makes us t) (hr : ∀ u ∈ us, u r = r) : r = t := by
  rw [← hm.all r]
  clear hm
  induction us with
  | nil => rfl
  | cons u us ih =>
    rw [List.foldl_cons, hr u (by simp)]
    exact ih fun w hw => hr w (List.mem_cons_of_mem u hw)

structure Row (ρ τ : Type) where
  field : FieldForm ρ
  slot : Slot τ
  change : ρ → ρ

/-- The row serves, and these are its field, its slot and its change. -/
def Row.Serves (Gives : FieldForm ρ → τ → (ρ → ρ) → Prop) (blank : ρ) (row : Row ρ τ) : Prop :=
  Form.Serves Gives blank row.field row.slot row.change

variable {rows : List (Row ρ τ)} {row other : Row ρ τ} {key : String}

theorem Served.exists_rows (h : Served Gives blank fields slots us) : ∃ rows : List (Row ρ τ),
    fields = rows.map (·.field) ∧ slots = rows.map (·.slot) ∧ us = rows.map (·.change) ∧
      ∀ row ∈ rows, row.Serves Gives blank := by
  induction h with
  | nil => exact ⟨[], rfl, rfl, rfl, by simp⟩
  | @cons f slot u fields slots us hs _ ih =>
    obtain ⟨rows, rfl, rfl, rfl, hrows⟩ := ih
    refine ⟨⟨f, slot, u⟩ :: rows, rfl, rfl, rfl, ?_⟩
    intro row hrow
    rcases List.mem_cons.1 hrow with rfl | hrow
    · exact hs
    · exact hrows row hrow

/-- A name belongs to at most one row. -/
theorem eq_of_mem_names (hnames : (rows.flatMap (·.slot.names)).Nodup) (hrow : row ∈ rows)
    (hother : other ∈ rows) (h : key ∈ row.slot.names) (h' : key ∈ other.slot.names) :
    row = other := by
  have hdisjoint := (List.nodup_flatMap.1 hnames).2
  have hsymm : Std.Symm (Function.onFun List.Disjoint fun row : Row ρ τ => row.slot.names) :=
    ⟨fun _ _ h k hk hk' => h hk' hk⟩
  by_contra hne
  exact hdisjoint.forall hrow hother hne h h'

theorem find?_of_mem_names (hrows : ∀ row ∈ rows, row.Serves Gives blank)
    (hnames : (rows.flatMap (·.slot.names)).Nodup) (hrow : row ∈ rows)
    (h : key ∈ row.slot.names) :
    (rows.map (·.field)).find? (·.answersTo key) = some row.field := by
  cases hf : (rows.map (·.field)).find? (·.answersTo key) with
  | none =>
    have hno := List.find?_eq_none.1 hf row.field (List.mem_map.2 ⟨row, hrow, rfl⟩)
    exact absurd (((hrows row hrow).names key).2 h) hno
  | some f =>
    obtain ⟨other, hother, rfl⟩ := List.mem_map.1 (List.mem_of_find?_eq_some hf)
    have hanswers := List.find?_some (p := fun f : FieldForm ρ => f.answersTo key) hf
    have hkey := ((hrows other hother).names key).1 hanswers
    rw [eq_of_mem_names hnames hrow hother h hkey]

theorem find?_of_not_mem_names (hrows : ∀ row ∈ rows, row.Serves Gives blank)
    (h : ∀ row ∈ rows, key ∉ row.slot.names) :
    (rows.map (·.field)).find? (·.answersTo key) = none := by
  rw [List.find?_eq_none]
  intro f hf
  obtain ⟨row, hrow, rfl⟩ := List.mem_map.1 hf
  exact fun hanswers => h row hrow (((hrows row hrow).names key).1 hanswers)

/-- Where the reading of a record stands: for each row its member is still to come, or the row has
changed the record already, or it may be left out. -/
structure Stands (rows : List (Row ρ τ)) (Other : τ → Prop) (seen : List String) (r : ρ)
    (members : List (String × τ)) : Prop where
  row : ∀ row ∈ rows, (row.slot.among members = [] ∧ row.change r = r ∧
      (row.field.required = true → row.field.name ∈ seen)) ∨
    row.field.name ∉ seen ∧ ∃ m, row.slot.among members = [m] ∧ row.slot.Written m.2
  others : ∀ m ∈ members, (∀ row ∈ rows, m.1 ∉ row.slot.names) → Other m.2

theorem among_cons_of_mem {slot : Slot τ} {x : τ} (h : key ∈ slot.names) :
    slot.among ((key, x) :: members) = (key, x) :: slot.among members :=
  List.filter_cons_of_pos (by simpa using h)

theorem among_cons_of_not_mem {slot : Slot τ} {x : τ} (h : key ∉ slot.names) :
    slot.among ((key, x) :: members) = slot.among members :=
  List.filter_cons_of_neg (by simpa using h)

theorem Stands.begin (hrows : ∀ row ∈ rows, row.Serves Gives blank)
    (hf : Fills (rows.map (·.slot)) Other members) : Stands rows Other [] blank members where
  row row hrow := by
    rcases hf.single row.slot (List.mem_map.2 ⟨row, hrow, rfl⟩) with ⟨hspare, hnone⟩ | hone
    · obtain ⟨hrequired, hblank⟩ := (hrows row hrow).spare hspare
      refine Or.inl ⟨hnone, hblank, ?_⟩
      rw [hrequired]
      exact nofun
    · exact Or.inr ⟨List.not_mem_nil, hone⟩
  others m hm hno := hf.others m hm fun slot hslot => by
    obtain ⟨row, hrow, rfl⟩ := List.mem_map.1 hslot
    exact hno row hrow

/-- A member that no row names is passed over. -/
theorem Stands.pass {x : τ} (h : Stands rows Other seen r ((key, x) :: members))
    (hkey : ∀ row ∈ rows, key ∉ row.slot.names) : Other x ∧ Stands rows Other seen r members := by
  refine ⟨h.others _ List.mem_cons_self hkey, ?_, fun m hm => h.others m (List.mem_cons_of_mem _ hm)⟩
  intro row hrow
  have hstands := h.row row hrow
  rw [among_cons_of_not_mem (hkey row hrow)] at hstands
  exact hstands

/-- The member of a row is taken, and no other row notices it. -/
theorem Stands.take {x : τ} (hrows : ∀ row ∈ rows, row.Serves Gives blank)
    (hnames : (rows.flatMap (·.slot.names)).Nodup) (hm : Makes (rows.map (·.change)) t)
    (h : Stands rows Other seen r ((key, x) :: members)) (hrow : row ∈ rows)
    (hkey : key ∈ row.slot.names) : row.field.name ∉ seen ∧ row.slot.Written x ∧
      Stands rows Other (row.field.name :: seen) (row.change r) members := by
  have hchange : row.change ∈ rows.map (·.change) := List.mem_map.2 ⟨row, hrow, rfl⟩
  rcases h.row row hrow with ⟨hnone, _⟩ | ⟨hseen, m, hone, hwritten⟩
  · rw [among_cons_of_mem hkey] at hnone
    cases hnone
  · rw [among_cons_of_mem hkey, List.cons.injEq] at hone
    obtain ⟨rfl, hrest⟩ := hone
    refine ⟨hseen, hwritten, ?_, fun m hm => h.others m (List.mem_cons_of_mem _ hm)⟩
    intro other hother
    by_cases heq : row = other
    · subst heq
      exact Or.inl ⟨hrest, hm.idem _ hchange r, fun _ => by simp⟩
    · have hno : key ∉ other.slot.names := fun h' =>
        heq (eq_of_mem_names hnames hrow hother hkey h')
      have hstands := h.row other hother
      rw [among_cons_of_not_mem hno] at hstands
      rcases hstands with ⟨hnone, hfixed, hlacks⟩ | ⟨hunseen, hone⟩
      · refine Or.inl ⟨hnone, ?_, fun hr => List.mem_cons_of_mem _ (hlacks hr)⟩
        rw [hm.comm _ (List.mem_map.2 ⟨other, hother, rfl⟩) _ hchange, hfixed]
      · refine Or.inr ⟨?_, hone⟩
        intro hmem
        rcases List.mem_cons.1 hmem with hname | hmem
        · -- the names of two rows differ, and the field's own name is one of them
          have hown := ((hrows row hrow).names row.field.name).1 (by simp [answersTo])
          have hown' := ((hrows other hother).names other.field.name).1 (by simp [answersTo])
          rw [hname] at hown'
          exact heq (eq_of_mem_names hnames hrow hother hown hown')
        · exact hunseen hmem

/-- When no member is left, the record is made. -/
theorem Stands.finish (hm : Makes (rows.map (·.change)) t) (h : Stands rows Other seen r []) :
    checkMissing (rows.map (·.field)) seen = .ok () ∧ r = t := by
  have hrow : ∀ row ∈ rows, row.change r = r ∧
      (row.field.required = true → row.field.name ∈ seen) := by
    intro row hrow
    rcases h.row row hrow with ⟨_, hfixed⟩ | ⟨_, m, hone, _⟩
    · exact hfixed
    · cases hone
  constructor
  · have hno : ((rows.map (·.field)).find? fun f => f.required && !seen.contains f.name) = none := by
      rw [List.find?_eq_none]
      intro f hf
      obtain ⟨row, hmem, rfl⟩ := List.mem_map.1 hf
      have hlacks := (hrow row hmem).2
      simpa using hlacks
    rw [checkMissing, hno]
  · apply hm.eq_of_fixed
    intro u hu
    obtain ⟨row, hmem, rfl⟩ := List.mem_map.1 hu
    exact (hrow row hmem).1

theorem takes_of_stands (hrows : ∀ row ∈ rows, row.Serves Gives blank)
    (hnames : (rows.flatMap (·.slot.names)).Nodup) (hm : Makes (rows.map (·.change)) t)
    (h : Stands rows Other seen r members) :
    Takes Gives Other (rows.map (·.field)) seen r members t := by
  induction members generalizing seen r with
  | nil =>
    obtain ⟨hcheck, rfl⟩ := h.finish hm
    exact .done hcheck
  | cons m members ih =>
    obtain ⟨key, x⟩ := m
    by_cases hkey : ∃ row ∈ rows, key ∈ row.slot.names
    · obtain ⟨row, hrow, hkey⟩ := hkey
      obtain ⟨hseen, hwritten, hrest⟩ := h.take hrows hnames hm hrow hkey
      exact .field (find?_of_mem_names hrows hnames hrow hkey) hseen
        ((hrows row hrow).gives x hwritten) (ih hrest)
    · have hno : ∀ row ∈ rows, key ∉ row.slot.names :=
        fun row hrow hmem => hkey ⟨row, hrow, hmem⟩
      obtain ⟨hother, hrest⟩ := h.pass hno
      exact .other (find?_of_not_mem_names hrows hno) hother (ih hrest)

/-- Members that fill the slots of a record, in any order, are taken for this record. -/
theorem takes_of_fills (hs : Served Gives blank fields slots us)
    (hnames : (slots.flatMap (·.names)).Nodup) (hm : Makes us t)
    (hf : Fills slots Other members) : Takes Gives Other fields [] blank members t := by
  obtain ⟨rows, rfl, rfl, rfl, hrows⟩ := hs.exists_rows
  rw [List.flatMap_map] at hnames
  exact takes_of_stands hrows hnames hm (.begin hrows hf)

/-- Members that are taken for a record are taken so from a value. -/
theorem takeFields_of_takes {members : List (String × Json)} {Other : Json → Prop}
    (h : Takes (fun f v u => f.ofJson v = .ok u) Other fields seen r members t) :
    takeFields fields seen r members = .ok t := by
  induction h with
  | done hcheck =>
    rw [takeFields, hcheck]
    rfl
  | other hf _ _ ih => rw [takeFields_of_none hf, ih]
  | field hf hseen hgives _ ih => exact (takeFields_of_some hf).2 ⟨hseen, _, hgives, ih⟩

end Form

end AnalyzerBridge
