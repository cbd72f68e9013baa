import AnalyzerBridge.Proofs.Json.Skipping
import AnalyzerBridge.Proofs.Json.Slots

/-! Typed values as they are written are read back, one lemma for each kind of form. -/
namespace AnalyzerBridge

open Json

namespace Form

variable {α ρ τ : Type} {g s t rest : List Char} {levels : Nat} {wanted title : String} {f : Form α}
  {a : α} {P : α → List Char → Prop}

theorem reads_textAs {x : String} (h : SpellsScalar (.text x) s) :
    Reads ((textAs wanted).read levels) x s := by
  cases h with
  | text hb =>
    refine ⟨begins_cons (by decide), fun g rest hg _ => ?_⟩
    simp [textAs, skipSpace_gap hg, skipSpace_cons, readText_spells hb]

theorem reads_bool {b : Bool} (h : SpellsScalar (.bool b) s) : Reads (bool.read levels) b s := by
  cases h
  all_goals
    refine ⟨begins_cons (by decide), fun g rest hg _ => ?_⟩
    simp only [bool, skipSpace_gap hg]
    rfl

section Integers

variable {accept : Int → Option α} {i : Int}

theorem ofJson_integer (h : accept i = some a) : (integer wanted accept).ofJson (.int i) = .ok a := by
  simp only [integer, Json.int, h]

/-- An integer starts with a digit or its sign. -/
theorem begins_integer {i : Int} (h : SpellsScalar (.int i) s) :
    ∃ c t, s = c :: t ∧ (c.isDigit = true ∨ c = '-') := by
  cases h with
  | int hlow hhigh =>
    obtain ⟨negative, p, hp, _⟩ := integer_text hlow hhigh
    generalize (toString i).toList = s at hp
    cases hp with
    | plain hp =>
      obtain ⟨d, ds, rfl, hd⟩ := hp.head
      exact ⟨d, ds, rfl, Or.inl hd⟩
    | minus => exact ⟨_, _, rfl, Or.inr rfl⟩

theorem reads_integer (h : SpellsScalar (.int i) s) (ha : accept i = some a) :
    Reads ((integer wanted accept).read levels) a s := by
  cases h with
  | int hlow hhigh =>
    obtain ⟨negative, p, hp, hx⟩ := integer_text hlow hhigh
    refine ⟨hp.begins, fun g rest hg hr => ?_⟩
    generalize (toString i).toList = s at hp
    cases hp with
    | plain hp =>
      have hread := readNumber_text hp hx hr
      obtain ⟨d, ds, rfl, hd⟩ := hp.head
      have hno := not_mem_of_isDigit hd
      simp only [List.mem_cons, List.not_mem_nil, or_false, not_or] at hno
      rw [List.cons_append] at hread ⊢
      simp only [integer, skipSpace_gap hg]
      rw [skipSpace_cons (by simp_all)]
      split
      · rename_i heq
        cases heq
      · rename_i heq
        simp_all
      · rename_i heq
        obtain ⟨rfl, rfl⟩ := List.cons.inj heq
        simp [hd, hread, bind, Except.bind, ha]
    | minus hp =>
      have hread := readNumber_text hp hx hr
      simp [integer, skipSpace_gap hg, skipSpace_cons, hread, bind, Except.bind, ha]

theorem u32_fits (n : UInt32) : 0 ≤ (n.toNat : Int) ∧ (n.toNat : Int) < twoTo 32 := by
  have hlt : n.toNat < twoTo 32 := n.toNat_lt
  exact ⟨Int.natCast_nonneg _, Int.ofNat_lt.2 hlt⟩

theorem reads_u32 {n : UInt32} (h : SpellsScalar (.nat n.toNat) s) :
    Reads (u32.read levels) n s := by
  apply reads_integer (i := n.toNat) h
  rw [if_pos (u32_fits n), Int.toNat_natCast, UInt32.ofNat_toNat]

theorem ofJson_u32 (n : UInt32) : u32.ofJson (.nat n.toNat) = .ok n := by
  apply ofJson_integer
  rw [if_pos (u32_fits n), Int.toNat_natCast, UInt32.ofNat_toNat]

theorem ofJson_i64 (n : Int64) : i64.ofJson (.int n.toInt) = .ok n := by
  apply ofJson_integer
  have hlow : -(twoTo 63 : Int) ≤ n.toInt := n.le_toInt
  have hhigh : n.toInt < twoTo 63 := n.toInt_lt
  rw [if_pos ⟨hlow, hhigh⟩, Int64.ofInt_toInt]

end Integers

/-- A value that may be null is read if it is null, and else like the value. -/
theorem reads_optional {v : α → Json} {o : Option α} (h : SpellsScalar (.ofOption v o) s)
    (ha : ∀ a, o = some a → SpellsScalar (v a) s → Reads (f.read levels) a s ∧ s.head? ≠ some 'n') :
    Reads ((optional f).read levels) o s := by
  cases o with
  | none =>
    cases h
    refine ⟨begins_cons (by decide), fun g rest hg _ => ?_⟩
    simp only [optional, skipSpace_gap hg]
    rfl
  | some a =>
    obtain ⟨hread, hn⟩ := ha a rfl h
    refine ⟨hread.begins, fun g rest hg hr => ?_⟩
    have heq := hread.eq [] rest gap_nil hr
    obtain ⟨c, s, rfl, hc⟩ := hread.begins
    rw [List.nil_append, List.cons_append] at heq
    simp only [optional, skipSpace_gap hg, List.cons_append]
    rw [skipSpace_cons (by simp_all)]
    split
    · rename_i hs
      obtain rfl := (List.cons.inj hs).1
      exact absurd rfl hn
    · simp [heq, bind, Except.bind]

theorem reads_optional_text {o : Option String} (h : SpellsScalar (.ofOption .text o) s) :
    Reads ((optional text).read levels) o s := by
  refine reads_optional h fun a _ ha => ⟨reads_textAs ha, ?_⟩
  cases ha
  simp

theorem reads_optional_u32 {o : Option UInt32}
    (h : SpellsScalar (.ofOption (fun n => .nat n.toNat) o) s) :
    Reads ((optional u32).read levels) o s := by
  refine reads_optional h fun a _ ha => ⟨reads_u32 ha, ?_⟩
  obtain ⟨c, s, rfl, hc⟩ := begins_integer ha
  rintro hn
  cases hn
  exact absurd hc (by decide)

/-- A list is read if each of its items is. -/
theorem reads_list {as : List α} (h : ListText P as s)
    (hP : ∀ a s, P a s → Reads (f.read levels) a s) : Reads ((list f).read (levels + 1)) as s := by
  obtain @⟨t, hi⟩ := h
  refine ⟨begins_cons (by decide), fun g rest hg _ => ?_⟩
  have hlt := hi.length_lt fun a s ha => (hP a s ha).begins
  have hitems : readItems (f.read levels) (t ++ rest) true [] (t ++ rest) = .ok (as, rest) :=
    readItems_inside [] hi hP (by rw [List.length_append]; omega)
  simp [list, skipSpace_gap hg, skipSpace_cons, hitems]

/-- A name from a table is read as what it stands for. -/
theorem reads_choice {table : List (String × α)} {name : String} (hname : table.lookup name = some a)
    (h : SpellsScalar (.text name) s) : Reads ((choice table).read levels) a s := by
  cases h with
  | text hb =>
    refine ⟨begins_cons (by decide), fun g rest hg _ => ?_⟩
    simp [choice, skipSpace_gap hg, skipSpace_cons, readText_spells hb, bind, Except.bind, variant,
      hname]

theorem ofJson_choice {table : List (String × α)} {name : String}
    (hname : table.lookup name = some a) : (choice table).ofJson (.text name) = .ok a := by
  simp [choice, variant, hname]

/-- What is read as a value first is read if the value is. -/
theorem reads_ofValue {accept : Json → Except Fault α} {v : Json} (h : Spells levels v s)
    (ha : accept v = .ok a) : Reads ((ofValue accept).read levels) a s := by
  refine ⟨(read_spells h).begins, fun g rest hg hr => ?_⟩
  simp [ofValue, (read_spells h).eq g rest hg hr, bind, Except.bind, ha]

section Records

variable {fields : List (FieldForm ρ)} {slots : List (Slot τ)} {us : List (ρ → ρ)} {blank r u : ρ}

/-- A field reads this text, and changes the record by `u`. -/
def GivesText (levels : Nat) (f : FieldForm ρ) (s : List Char) (u : ρ → ρ) : Prop :=
  Reads (f.read levels) u s

/-- A field reads this value, and changes the record by `u`. -/
def GivesValue (f : FieldForm ρ) (v : Json) (u : ρ → ρ) : Prop :=
  f.ofJson v = .ok u

variable {name : String} {aliases : List String} {set : α → ρ → ρ} {W : List Char → Prop}
  {V : Json → Prop} {d : α}

theorem reads_of {required : Bool} (h : Reads (f.read levels) a s) :
    Reads ((FieldForm.of name aliases required f set).read levels) (set a) s := by
  refine ⟨h.begins, fun g rest hg hr => ?_⟩
  simp [FieldForm.of, map, h.eq g rest hg hr, bind, Except.bind]

theorem ofJson_of {required : Bool} {v : Json} (h : f.ofJson v = .ok a) :
    (FieldForm.of name aliases required f set).ofJson v = .ok (set a) := by
  simp [FieldForm.of, map, h, bind, Except.bind]

theorem answersTo_iff {required : Bool} {key : String} :
    (FieldForm.of name aliases required f set).answersTo key = true ↔ key ∈ name :: aliases := by
  simp [FieldForm.answersTo, FieldForm.of]

theorem serves_need_text (h : ∀ s, W s → Reads (f.read levels) a s) :
    Serves (GivesText levels) blank (.need name f set aliases) (.need (name :: aliases) W)
      (set a) where
  names _ := answersTo_iff
  gives s hs := reads_of (h s hs)
  spare := False.elim

theorem serves_may_text (h : ∀ s, W s → Reads (f.read levels) a s) (hd : set d blank = blank) :
    Serves (GivesText levels) blank (.may name f set aliases) (.may (name :: aliases) (a = d) W)
      (set a) where
  names _ := answersTo_iff
  gives s hs := reads_of (h s hs)
  spare hs := ⟨rfl, hs ▸ hd⟩

theorem serves_need_value (h : ∀ v, V v → f.ofJson v = .ok a) :
    Serves GivesValue blank (.need name f set aliases) (.need (name :: aliases) V) (set a) where
  names _ := answersTo_iff
  gives v hv := ofJson_of (h v hv)
  spare := False.elim

theorem serves_may_value (h : ∀ v, V v → f.ofJson v = .ok a) (hd : set d blank = blank) :
    Serves GivesValue blank (.may name f set aliases) (.may (name :: aliases) (a = d) V)
      (set a) where
  names _ := answersTo_iff
  gives v hv := ofJson_of (h v hv)
  spare hs := ⟨rfl, hs ▸ hd⟩

/-- Members that are taken for a record are read so from their text. -/
theorem readFields_of_takes {seen : List String} {first : Bool} {bound : List Char}
    {members : List (String × List Char)} {x y : ρ}
    (ht : Takes (GivesText levels) (fun s => ∃ n, WellFormed n s) fields seen x members y)
    (hi : Inside '}' (MemberText SpellsName Eq) first members s)
    (hb : members.length < bound.length) :
    readFields fields levels bound first seen x (s ++ rest) = .ok (y, rest) := by
  induction ht generalizing first bound s with
  | done hcheck =>
    obtain ⟨c, bound, rfl⟩ := List.exists_cons_of_length_pos hb
    cases hi with
    | close hg =>
      rw [List.append_assoc, List.singleton_append, readFields, nextMember_close hg]
      simp [bind, Except.bind, hcheck]
  | other hf hother _ ih =>
    obtain ⟨c, bound, rfl⟩ := List.exists_cons_of_length_pos (Nat.zero_lt_of_lt hb)
    obtain ⟨n, hother⟩ := hother
    obtain ⟨b, g, h, _, t, hname, hg, hh, rfl, hi', hnext⟩ := nextMember_inside rest hi
    have heq := (skip_wellFormed hother).eq h (t ++ rest) hh (hi'.delimited (by simp))
    have hrest := ih hi' (Nat.lt_of_succ_lt_succ hb)
    rw [readFields, hnext]
    simp [bind, Except.bind, readText_spells hname, hf, readColon_gap hg, heq, hrest]
  | field hf hseen hgives _ ih =>
    obtain ⟨c, bound, rfl⟩ := List.exists_cons_of_length_pos (Nat.zero_lt_of_lt hb)
    obtain ⟨b, g, h, _, t, hname, hg, hh, rfl, hi', hnext⟩ := nextMember_inside rest hi
    have heq := hgives.eq h (t ++ rest) hh (hi'.delimited (by simp))
    have hrest := ih hi' (Nat.lt_of_succ_lt_succ hb)
    rw [readFields, hnext]
    simp [bind, Except.bind, readText_spells hname, hf, hseen, readColon_gap hg, heq, hrest]

end Records

end Form

/-- The text of a record: an object whose members fill the slots. The other members may be anything
in JSON. -/
inductive RecordText (slots : List (Slot (List Char))) : List Char → Prop
  | object {members : List (String × List Char)} {s : List Char} :
      ObjectText SpellsName Eq members s →
      Fills slots (fun x => ∃ levels, WellFormed levels x) members → RecordText slots s

inductive ListValue {α : Type} (P : α → Json → Prop) : List α → Json → Prop
  | items {as : List α} {vs : List Json} : List.Forall₂ P as vs → ListValue P as (.list vs)

/-- The value of something that may be absent. -/
inductive OptionValue {α : Type} (P : α → Json → Prop) : Option α → Json → Prop
  | none : OptionValue P none .null
  | some {a : α} {v : Json} : P a v → OptionValue P (some a) v

/-- The value of a record: an object whose members fill the slots. -/
inductive RecordValue (slots : List (Slot Json)) : Json → Prop
  | object {members : List (String × Json)} : Fills slots (fun _ => True) members →
      RecordValue slots (.object members)

namespace Form

section Values

variable {α : Type} {f : Form α} {P : α → Json → Prop} {v : Json}

theorem mapM_ok {ε β γ : Type} {f : β → Except ε γ} {as : List γ} {bs : List β}
    (h : List.Forall₂ (fun a b => f b = .ok a) as bs) : bs.mapM f = .ok as := by
  induction h with
  | nil => rfl
  | cons ha _ ih =>
    rw [List.mapM_cons, ha, ih]
    rfl

theorem ofJson_list {as : List α} (h : ListValue P as v) (hP : ∀ a v, P a v → f.ofJson v = .ok a) :
    (list f).ofJson v = .ok as := by
  cases h with
  | items hs => exact mapM_ok (hs.imp hP)

theorem ofJson_optional {o : Option α} (h : OptionValue P o v)
    (hP : ∀ a v, P a v → f.ofJson v = .ok a) (hnull : ∀ a, ¬ P a .null) :
    (optional f).ofJson v = .ok o := by
  cases h with
  | none => rfl
  | @some a v ha =>
    have hread := hP a v ha
    cases v with
    | null => exact absurd ha (hnull a)
    | _ => simp [optional, hread, bind, Except.bind]

theorem ofJson_map {β : Type} {g : α → β} {a : α} (h : f.ofJson v = .ok a) :
    (map g f).ofJson v = .ok (g a) := by
  simp [map, h, bind, Except.bind]

/-- Of several forms, the first that fits is taken. -/
theorem ofJson_firstOf {name : String} {forms : List (Form α)} {a : α}
    (h : forms.findSome? (fun f => (f.ofJson v).toOption) = some a) :
    (firstOf name forms).ofJson v = .ok a := by
  simp [firstOf, ofValue, h]

end Values

variable {ρ : Type} {fields : List (FieldForm ρ)} {us : List (ρ → ρ)} {blank t : ρ} {title : String}

/-- A record is read from each of its texts. -/
theorem reads_record {levels : Nat} {slots : List (Slot (List Char))} {s : List Char}
    (hs : Served (GivesText levels) blank fields slots us) (hnames : (slots.flatMap (·.names)).Nodup)
    (hm : Makes us t) (h : RecordText slots s) :
    Reads ((record title blank fields).read (levels + 1)) t s := by
  obtain @⟨members, _, htext, hfills⟩ := h
  obtain @⟨t', hi⟩ := htext
  refine ⟨begins_cons (by decide), fun g rest hg _ => ?_⟩
  have hlt := hi.length_lt fun _ _ hm => hm.begins
  have hfields : readFields fields levels (t' ++ rest) true [] blank (t' ++ rest) = .ok (t, rest) :=
    readFields_of_takes (takes_of_fills hs hnames hm hfills) hi (by rw [List.length_append]; omega)
  simp [record, skipSpace_gap hg, skipSpace_cons, hfields]

/-- A record is read from each of its values. -/
theorem ofJson_record {slots : List (Slot Json)} {v : Json}
    (hs : Served GivesValue blank fields slots us) (hnames : (slots.flatMap (·.names)).Nodup)
    (hm : Makes us t) (h : RecordValue slots v) : (record title blank fields).ofJson v = .ok t := by
  cases h with
  | object hfills => exact takeFields_of_takes (takes_of_fills hs hnames hm hfills)

/-- A record that is written as an object only is read from each of its values. -/
theorem ofJson_objectOnly {slots : List (Slot Json)} {v : Json}
    (hs : Served GivesValue blank fields slots us) (hnames : (slots.flatMap (·.names)).Nodup)
    (hm : Makes us t) (h : RecordValue slots v) :
    (objectOnly title blank fields).ofJson v = .ok t := by
  cases h with
  | object hfills => exact takeFields_of_takes (takes_of_fills hs hnames hm hfills)

/-- A record is read only if there is a member for each field that must be present. -/
theorem mem_of_takeFields {members : List (String × Json)} {seen : List String} {r : ρ}
    {f : FieldForm ρ} (h : takeFields fields seen r members = .ok t) (hf : f ∈ fields)
    (hr : f.required = true) :
    f.name ∈ seen ∨ ∃ m ∈ members, ∃ g ∈ fields, g.answersTo m.1 = true ∧ g.name = f.name := by
  induction members generalizing seen r with
  | nil =>
    obtain ⟨_, hcheck, _⟩ := Except.bind_eq_ok.1 h
    rw [checkMissing] at hcheck
    split at hcheck
    · cases hcheck
    · rename_i hno
      have hmem := List.find?_eq_none.1 hno f hf
      exact Or.inl (by simpa [hr] using hmem)
  | cons m members ih =>
    obtain ⟨key, v⟩ := m
    cases hfind : fields.find? (·.answersTo key) with
    | none =>
      rw [takeFields_of_none hfind] at h
      refine (ih h).imp_right ?_
      rintro ⟨m, hm, hg⟩
      exact ⟨m, List.mem_cons_of_mem _ hm, hg⟩
    | some g =>
      obtain ⟨_, u, _, h⟩ := (takeFields_of_some hfind).1 h
      rcases ih h with hseen | ⟨m, hm, hg⟩
      · rcases List.mem_cons.1 hseen with hname | hseen
        · refine Or.inr ⟨(key, v), by simp, g, List.mem_of_find?_eq_some hfind, ?_, hname.symm⟩
          exact List.find?_some (p := fun f : FieldForm ρ => f.answersTo key) hfind
        · exact Or.inl hseen
      · exact Or.inr ⟨m, List.mem_cons_of_mem _ hm, hg⟩

end Form

end AnalyzerBridge
