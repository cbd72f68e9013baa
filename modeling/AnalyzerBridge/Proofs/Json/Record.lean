import AnalyzerBridge.Json.Form
import AnalyzerBridge.Proofs.Json.Members
import Mathlib.Data.List.Nodup

/-! Reading a record whose fields may all be left out. Each part is what the value holds for it, by
its name in an object and by its place in a list, and otherwise what the blank record has. -/
namespace AnalyzerBridge

open Json

theorem Except.bind_eq_ok {ε α β : Type} {x : Except ε α} {f : α → Except ε β} {b : β} :
    x >>= f = .ok b ↔ ∃ a, x = .ok a ∧ f a = .ok b := by
  cases x <;> simp [bind, Except.bind]

namespace Json

/-- What a value holds for a field of a record. -/
def part? (name : String) (place : Nat) : Json → Option Json
  | .object members => lookup name members
  | .list items => items[place]?
  | _ => none

/-- Is this an object, or a list of at most so many items? -/
def Fits (n : Nat) : Json → Prop
  | .object _ => True
  | .list items => items.length ≤ n
  | _ => False

/-- No two members of an object have the same name. -/
def Distinct : Json → Prop
  | .object members => (members.map (·.1)).Nodup
  | _ => True

theorem distinct_canonical (v : Json) : v.canonical.Distinct := by
  cases hv : v.canonical with
  | object members => exact (ascending_of_canonical hv).nodup
  | _ => trivial

theorem distinct_of_part {v w : Json} {name : String} {place : Nat}
    (h : v.canonical.part? name place = some w) : w.Distinct := by
  have hcanonical : ∃ u : Json, w = u.canonical := by
    cases hv : v.canonical with
    | object members =>
      rw [hv] at h
      exact canonical_of_lookup hv h
    | list items =>
      cases v <;> simp only [canonical, reduceCtorEq, Json.list.injEq] at hv
      rw [canonical, part?, canonicalItems_eq_map, List.getElem?_map] at h
      obtain ⟨u, _, hu⟩ := Option.map_eq_some_iff.1 h
      exact ⟨u, hu.symm⟩
    | _ =>
      rw [hv] at h
      cases h
  obtain ⟨u, rfl⟩ := hcanonical
  exact distinct_canonical u

end Json

namespace FieldForm

variable {α ρ : Type} {name : String} {a : Form α} {set : α → ρ → ρ} {v : Json} {u : ρ → ρ}

/-- A field with one name that may be left out. -/
structure Plain (f : FieldForm ρ) : Prop where
  required : f.required = false
  aliases : f.aliases = []

theorem plain_may : (may name a set).Plain := ⟨rfl, rfl⟩

@[simp] theorem name_may : (may name a set).name = name := rfl

theorem ofJson_may : (may name a set).ofJson v = .ok u ↔ ∃ x, a.ofJson v = .ok x ∧ u = set x := by
  rw [show (may name a set).ofJson v = (a.ofJson v >>= fun x => .ok (set x)) from rfl,
    Except.bind_eq_ok]
  constructor
  · rintro ⟨x, hx, hu⟩
    exact ⟨x, hx, (Except.ok.inj hu).symm⟩
  · rintro ⟨x, hx, rfl⟩
    exact ⟨x, hx, rfl⟩

/-- Setting this field leaves a part of the record as it is. -/
def Leaves (f : FieldForm ρ) (get : ρ → α) : Prop :=
  ∀ v u, f.ofJson v = .ok u → ∀ r, get (u r) = get r

theorem leaves_may {β : Type} {get : ρ → β} (h : ∀ x r, get (set x r) = get r) :
    (may name a set).Leaves get := by
  intro v u hu r
  obtain ⟨x, _, rfl⟩ := ofJson_may.1 hu
  exact h x r

theorem Plain.answersTo {f : FieldForm ρ} (hf : f.Plain) (key : String) :
    f.answersTo key = true ↔ f.name = key := by
  rw [FieldForm.answersTo, hf.aliases, List.contains_nil, Bool.or_false, beq_iff_eq]
  exact eq_comm

end FieldForm

namespace Form

open FieldForm

variable {α ρ : Type} {fields : List (FieldForm ρ)} {place : Nat} {name title : String} {a : Form α}
  {get : ρ → α} {r t blank : ρ} {w : Json} {seen : List String}
  {members : List (String × Json)} {items : List Json} {count length i : Nat}

/-- A table of fields that have one name each and may be left out. -/
structure Table (fields : List (FieldForm ρ)) : Prop where
  plain : ∀ f ∈ fields, f.Plain
  distinct : (fields.map (·.name)).Nodup

/-- The part `get` of a record is what its field has set, and no other field touches it. -/
structure Shows (fields : List (FieldForm ρ)) (place : Nat) (name : String) (a : Form α)
    (get : ρ → α) : Prop where
  field : ∃ set, fields[place]? = some (may name a set) ∧ ∀ x r, get (set x r) = x
  others : ∀ f ∈ fields, f.name ≠ name → f.Leaves get

theorem Table.tail {f : FieldForm ρ} (ht : Table (f :: fields)) : Table fields where
  plain g hg := ht.plain g (List.mem_cons_of_mem f hg)
  distinct := (List.nodup_cons.1 ht.distinct).2

/-- In a table, the field of a name is found under it. -/
theorem Table.find?_eq_some (ht : Table fields) {f : FieldForm ρ} {key : String} :
    fields.find? (·.answersTo key) = some f ↔ f ∈ fields ∧ f.name = key := by
  constructor
  · intro hf
    have hm := List.mem_of_find?_eq_some hf
    have ha := List.find?_some hf
    exact ⟨hm, ((ht.plain f hm).answersTo key).1 ha⟩
  · rintro ⟨hm, rfl⟩
    cases hg : fields.find? (·.answersTo f.name) with
    | none =>
      have hno := List.find?_eq_none.1 hg f hm
      exact absurd (((ht.plain f hm).answersTo f.name).2 rfl) hno
    | some g =>
      have hgm := List.mem_of_find?_eq_some hg
      have ha := List.find?_some hg
      have hname := ((ht.plain g hgm).answersTo f.name).1 ha
      rw [List.inj_on_of_nodup_map ht.distinct hgm hm hname]

theorem Table.checkMissing (ht : Table fields) : Form.checkMissing fields seen = .ok () := by
  have hno : (fields.find? fun f => f.required && !seen.contains f.name) = none := by
    rw [List.find?_eq_none]
    intro f hf
    simp [(ht.plain f hf).required]
  rw [Form.checkMissing, hno]

theorem Table.checkTail (ht : Table fields) : Form.checkTail title count fields i = .ok () := by
  induction fields generalizing i with
  | nil => rfl
  | cons f fs ih =>
    have hf : f.required = false := (ht.plain f (by simp)).required
    rw [Form.checkTail, hf]
    exact ih ht.tail

theorem Shows.tail {f : FieldForm ρ} (hs : Shows (f :: fields) (place + 1) name a get) :
    Shows fields place name a get where
  field := hs.field
  others g hg := hs.others g (List.mem_cons_of_mem f hg)

theorem Shows.mem (hs : Shows fields place name a get) :
    ∃ set, may name a set ∈ fields ∧ ∀ x r, get (set x r) = x := by
  obtain ⟨set, hf, hset⟩ := hs.field
  exact ⟨set, List.mem_of_getElem? hf, hset⟩

section
variable {f : FieldForm ρ} {key : String} {v : Json}

/-- A member that nobody asks for is passed over. -/
theorem takeFields_of_none (hf : fields.find? (·.answersTo key) = none) :
    takeFields fields seen r ((key, v) :: members) = takeFields fields seen r members := by
  rw [takeFields, hf]

/-- A member that a field asks for is taken once. -/
theorem takeFields_of_some (hf : fields.find? (·.answersTo key) = some f) :
    takeFields fields seen r ((key, v) :: members) = .ok t ↔ f.name ∉ seen ∧
      ∃ u, f.ofJson v = .ok u ∧ takeFields fields (f.name :: seen) (u r) members = .ok t := by
  rw [takeFields, hf]
  simp only
  by_cases hseen : f.name ∈ seen
  · rw [if_pos (by simpa using hseen)]
    simp [hseen]
  · rw [if_neg (by simpa using hseen), Except.bind_eq_ok, and_iff_right hseen]

end

/-- A part of a record that is read from members. -/
theorem get_takeFields (ht : Table fields) (hs : Shows fields place name a get)
    (h : takeFields fields seen r members = .ok t) : match lookup name members with
      | none => get t = get r
      | some v => name ∉ seen ∧ a.ofJson v = .ok (get t) := by
  obtain ⟨set, hmem, hset⟩ := hs.mem
  have hown := ht.find?_eq_some.2 ⟨hmem, rfl⟩
  induction members generalizing seen r with
  | nil =>
    rw [takeFields, ht.checkMissing] at h
    cases h
    rfl
  | cons m rest ih =>
    obtain ⟨key, v⟩ := m
    cases hf : fields.find? (·.answersTo key) with
    | none =>
      have hk : key ≠ name := by
        rintro rfl
        exact Option.some_ne_none _ (hown.symm.trans hf)
      rw [takeFields_of_none hf] at h
      rw [lookup, if_neg hk]
      exact ih h
    | some f =>
      obtain ⟨hfm, rfl⟩ := ht.find?_eq_some.1 hf
      obtain ⟨hseen, u, hu, h⟩ := (takeFields_of_some hf).1 h
      have hrest := ih h
      by_cases hk : f.name = name
      · obtain rfl : f = may name a set := Option.some.inj (hf.symm.trans (hk ▸ hown))
        obtain ⟨x, hx, rfl⟩ := ofJson_may.1 hu
        rw [lookup, if_pos hk]
        -- a second member of the name would have been refused
        cases hl : lookup name rest with
        | some v' =>
          rw [hl] at hrest
          exact absurd List.mem_cons_self hrest.1
        | none =>
          rw [hl] at hrest
          exact ⟨hseen, by rw [hx, hrest, hset]⟩
      · rw [lookup, if_neg hk]
        cases hl : lookup name rest with
        | none =>
          rw [hl] at hrest
          exact hrest.trans (hs.others f hfm hk v u hu r)
        | some v' =>
          rw [hl] at hrest
          exact ⟨fun hn => hrest.1 (List.mem_cons_of_mem _ hn), hrest.2⟩

/-- A part that no field of the list touches stays as it is. -/
theorem get_takePositions_of_not (ht : Table fields)
    (hno : ∀ f ∈ fields, f.Leaves get)
    (h : takePositions title count length fields i r items = .ok t) : get t = get r := by
  induction fields generalizing i r items with
  | nil =>
    cases items with
    | nil =>
      cases h
      rfl
    | cons v vs => cases h
  | cons f fs ih =>
    cases items with
    | nil =>
      rw [takePositions, ht.checkTail] at h
      cases h
      rfl
    | cons v vs =>
      obtain ⟨u, hu, h⟩ := Except.bind_eq_ok.1 h
      have hrest := ih ht.tail (fun g hg => hno g (List.mem_cons_of_mem f hg)) h
      exact hrest.trans (hno f (by simp) v u hu r)

/-- A part of a record that is read from a list. -/
theorem get_takePositions (ht : Table fields) (hs : Shows fields place name a get)
    (h : takePositions title count length fields i r items = .ok t) : match items[place]? with
      | none => get t = get r
      | some v => a.ofJson v = .ok (get t) := by
  induction fields generalizing place i r items with
  | nil =>
    obtain ⟨set, hf, _⟩ := hs.field
    cases hf
  | cons f fs ih =>
    cases items with
    | nil =>
      rw [takePositions, ht.checkTail] at h
      cases h
      rfl
    | cons v vs =>
      obtain ⟨u, hu, h⟩ := Except.bind_eq_ok.1 h
      cases place with
      | zero =>
        obtain ⟨set, hf, hset⟩ := hs.field
        have hf : f = may name a set := Option.some.inj hf
        subst hf
        obtain ⟨x, hx, rfl⟩ := ofJson_may.1 hu
        have hno : ∀ g ∈ fs, g.Leaves get := by
          intro g hg
          refine hs.others g (List.mem_cons_of_mem _ hg) ?_
          intro hn
          exact (List.nodup_cons.1 ht.distinct).1 (List.mem_map.2 ⟨g, hg, hn⟩)
        have hrest := get_takePositions_of_not ht.tail hno h
        exact hx.trans (congrArg Except.ok (hrest.trans (hset x r)).symm)
      | succ place =>
        have hrest := ih ht.tail hs.tail h
        rw [List.getElem?_cons_succ]
        cases hv : vs[place]? with
        | some v' =>
          rw [hv] at hrest
          exact hrest
        | none =>
          rw [hv] at hrest
          obtain ⟨set, hf, _⟩ := hs.field
          have hne : f.name ≠ name := by
            rintro rfl
            have hm : may f.name a set ∈ fs := List.mem_of_getElem? hf
            exact (List.nodup_cons.1 ht.distinct).1 (List.mem_map.2 ⟨_, hm, rfl⟩)
          exact hrest.trans (hs.others f (by simp) hne v u hu r)

theorem length_of_takePositions (h : takePositions title count length fields i r items = .ok t) :
    items.length ≤ fields.length := by
  induction fields generalizing i r items with
  | nil =>
    cases items with
    | nil => exact Nat.le_refl 0
    | cons v vs => cases h
  | cons f fs ih =>
    cases items with
    | nil => exact Nat.zero_le _
    | cons v vs =>
      obtain ⟨u, _, h⟩ := Except.bind_eq_ok.1 h
      exact Nat.succ_le_succ (ih h)

/-- What a record shows of the value from which it is read. -/
theorem get_record (ht : Table fields) (hs : Shows fields place name a get)
    (h : (record title blank fields).ofJson w = .ok t) : match w.part? name place with
      | none => get t = get blank
      | some v => a.ofJson v = .ok (get t) := by
  cases w with
  | object members =>
    have hget := get_takeFields ht hs h
    rw [part?]
    cases hl : lookup name members with
    | none =>
      rw [hl] at hget
      exact hget
    | some v =>
      rw [hl] at hget
      exact hget.2
  | list items => exact get_takePositions ht hs h
  | _ => cases h

theorem fits_of_record (h : (record title blank fields).ofJson w = .ok t) :
    w.Fits fields.length := by
  cases w with
  | object members => trivial
  | list items => exact length_of_takePositions h
  | _ => cases h

theorem takeFields_ok (ht : Table fields) (hn : (members.map (·.1)).Nodup)
    (hseen : ∀ key ∈ members.map (·.1), key ∉ seen)
    (hr : ∀ f ∈ fields, ∀ v, (f.name, v) ∈ members → ∃ u, f.ofJson v = .ok u) :
    ∃ t, takeFields fields seen r members = .ok t := by
  induction members generalizing seen r with
  | nil => exact ⟨r, by rw [takeFields, ht.checkMissing]; rfl⟩
  | cons m rest ih =>
    obtain ⟨key, v⟩ := m
    rw [List.map_cons, List.nodup_cons] at hn
    have hrest := fun f hf v' hv' => hr f hf v' (List.mem_cons_of_mem _ hv')
    cases hf : fields.find? (·.answersTo key) with
    | none =>
      rw [takeFields_of_none hf]
      exact ih hn.2 (fun k hk => hseen k (List.mem_cons_of_mem _ hk)) hrest
    | some f =>
      obtain ⟨hfm, rfl⟩ := ht.find?_eq_some.1 hf
      obtain ⟨u, hu⟩ := hr f hfm v (by simp)
      have hnew : ∀ key ∈ rest.map (·.1), key ∉ f.name :: seen := by
        intro k hk hmem
        rcases List.mem_cons.1 hmem with rfl | hmem
        · exact hn.1 hk
        · exact hseen k (List.mem_cons_of_mem _ hk) hmem
      obtain ⟨t, h⟩ := ih (r := u r) hn.2 hnew hrest
      exact ⟨t, (takeFields_of_some hf).2 ⟨hseen f.name (by simp), u, hu, h⟩⟩

theorem takePositions_ok (ht : Table fields) (hl : items.length ≤ fields.length)
    (hr : ∀ (place : Nat) (f : FieldForm ρ) (v : Json), fields[place]? = some f →
      items[place]? = some v → ∃ u, f.ofJson v = .ok u) :
    ∃ t, takePositions title count length fields i r items = .ok t := by
  induction fields generalizing i r items with
  | nil =>
    cases items with
    | nil => exact ⟨r, rfl⟩
    | cons v vs => simp at hl
  | cons f fs ih =>
    cases items with
    | nil => exact ⟨r, by rw [takePositions, ht.checkTail]; rfl⟩
    | cons v vs =>
      obtain ⟨u, hu⟩ := hr 0 f v rfl rfl
      have hrest := fun place g w hg hw => hr (place + 1) g w hg hw
      obtain ⟨t, h⟩ := ih (i := i + 1) (r := u r) ht.tail (Nat.le_of_succ_le_succ hl) hrest
      exact ⟨t, Except.bind_eq_ok.2 ⟨u, hu, h⟩⟩

/-- A record is read from every value that fits it and whose parts can be read. -/
theorem record_ok (ht : Table fields) (hw : w.Fits fields.length) (hd : w.Distinct)
    (hr : ∀ (place : Nat) (f : FieldForm ρ) (v : Json), fields[place]? = some f →
      w.part? f.name place = some v → ∃ u, f.ofJson v = .ok u) :
    ∃ t, (record title blank fields).ofJson w = .ok t := by
  cases w with
  | object members =>
    refine takeFields_ok ht hd (fun _ _ => List.not_mem_nil) ?_
    intro f hf v hv
    obtain ⟨place, hlt, hplace⟩ := List.mem_iff_getElem.1 hf
    exact hr place f v (List.getElem?_eq_some_iff.2 ⟨hlt, hplace⟩) (lookup_of_mem hd hv)
  | list items => exact takePositions_ok ht hw hr
  | _ => exact absurd hw id

end Form

end AnalyzerBridge
