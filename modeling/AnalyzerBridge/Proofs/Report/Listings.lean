import AnalyzerBridge.Proofs.Json.Record
import AnalyzerBridge.Report.Structured
import Mathlib.Data.List.Induction
import Mathlib.Data.List.Sort

/-! Listings by their numbers: what is kept under a number, whether they come as a list or under
names. Main statements: `find?_ofList`, `insertNamed_byName`, `sound_ofJson`. -/
namespace AnalyzerBridge.Listings

variable {key id : UInt32} {l : Listing} {ls : List Listing} {m m' kept : Listings} {name : String}
  {entries : List (UInt32 × Listing)} {named done : List (String × Listing)}

/-- Listings in order, each kept under its own number. -/
structure Sound (m : Listings) : Prop where
  ascending : m.entries.Pairwise (·.1 < ·.1)
  own : ∀ e ∈ m.entries, e.2.id = e.1

section Lookup

theorem lookup_insertEntry :
    (insertEntry key l entries).lookup id = if id = key then some l else entries.lookup id := by
  induction entries with
  | nil =>
    rw [insertEntry, List.lookup_cons]
    split <;> simp_all
  | cons e rest ih =>
    obtain ⟨k, m⟩ := e
    rw [insertEntry]
    split
    · rw [List.lookup_cons]
      split <;> simp_all
    · split
      · rename_i hk
        subst hk
        rw [List.lookup_cons, List.lookup_cons]
        split <;> simp_all
      · rename_i hk
        rw [List.lookup_cons, List.lookup_cons, ih]
        split
        · rename_i hid
          rw [if_neg]
          rintro rfl
          exact hk (beq_iff_eq.1 hid)
        · rfl

theorem find?_insert : (m.insert key l).find? id = if id = key then some l else m.find? id :=
  lookup_insertEntry

theorem mem_of_mem_insertEntry {e : UInt32 × Listing} (h : e ∈ insertEntry key l entries) :
    e = (key, l) ∨ e ∈ entries := by
  induction entries with
  | nil => exact Or.inl (List.mem_singleton.1 h)
  | cons e' rest ih =>
    obtain ⟨k, m⟩ := e'
    rw [insertEntry] at h
    split at h
    · exact List.mem_cons.1 h
    · split at h
      · exact (List.mem_cons.1 h).imp_right (List.mem_cons_of_mem _)
      · rcases List.mem_cons.1 h with rfl | h
        · exact Or.inr (by simp)
        · exact (ih h).imp_right (List.mem_cons_of_mem _)

theorem pairwise_insertEntry (h : entries.Pairwise (·.1 < ·.1)) :
    (insertEntry key l entries).Pairwise (·.1 < ·.1) := by
  induction entries with
  | nil => exact List.pairwise_singleton _ _
  | cons e rest ih =>
    obtain ⟨k, m⟩ := e
    obtain ⟨hk, hrest⟩ := List.pairwise_cons.1 h
    rw [insertEntry]
    split
    · rename_i hlt
      refine List.pairwise_cons.2 ⟨fun e he => ?_, h⟩
      rcases List.mem_cons.1 he with rfl | he
      · exact hlt
      · exact UInt32.lt_trans hlt (hk e he)
    · rename_i hlt
      split
      · rename_i heq
        subst heq
        exact List.pairwise_cons.2 ⟨hk, hrest⟩
      · rename_i hne
        refine List.pairwise_cons.2 ⟨fun e he => ?_, ih hrest⟩
        rcases mem_of_mem_insertEntry he with rfl | he
        · exact UInt32.lt_of_le_of_ne (UInt32.not_lt.1 hlt) (Ne.symm hne)
        · exact hk e he

theorem sound_empty : Sound .empty :=
  ⟨List.Pairwise.nil, nofun⟩

theorem Sound.insert (h : m.Sound) (hl : l.id = key) : (m.insert key l).Sound where
  ascending := pairwise_insertEntry h.ascending
  own e he := by
    rcases mem_of_mem_insertEntry he with rfl | he
    · exact hl
    · exact h.own e he

/-- What is kept in order is kept once. -/
theorem Sound.find?_eq_some (h : m.Sound) : m.find? id = some l ↔ (id, l) ∈ m.entries := by
  rw [find?, List.lookup_eq_some_iff]
  constructor
  · rintro ⟨before, after, heq, _⟩
    simp [heq]
  · intro hm
    obtain ⟨before, after, heq⟩ := List.append_of_mem hm
    refine ⟨before, after, heq, fun e he => ?_⟩
    have hlt := (List.pairwise_append.1 (heq ▸ h.ascending)).2.2 e he (id, l) (by simp)
    simpa using (UInt32.ne_of_lt hlt).symm

/-- A number leads only to a listing with this number. -/
theorem Sound.id_of_find? (h : m.Sound) (hl : m.find? id = some l) : l.id = id :=
  h.own _ (h.find?_eq_some.1 hl)

/-- Listings are told by what is kept under each number. -/
theorem Sound.ext (h : m.Sound) (h' : m'.Sound) (he : ∀ id, m.find? id = m'.find? id) : m = m' := by
  have hmem : ∀ e, e ∈ m.entries ↔ e ∈ m'.entries := by
    intro e
    rw [← h.find?_eq_some, ← h'.find?_eq_some, he]
  have hasymm : Std.Asymm fun e e' : UInt32 × Listing => e.1 < e'.1 := ⟨fun _ _ => UInt32.lt_asymm⟩
  have heq := h.ascending.eq_of_mem_iff h'.ascending hmem
  cases m
  cases m'
  exact congrArg Listings.mk heq

end Lookup

section Lists

theorem ofList_concat : ofList (ls ++ [l]) = (ofList ls).insert l.id l := by
  rw [ofList, List.foldl_append]
  rfl

theorem sound_ofList : (ofList ls).Sound := by
  induction ls using List.reverseRecOn with
  | nil => exact sound_empty
  | append_singleton ls l ih =>
    rw [ofList_concat]
    exact ih.insert rfl

/-- Of the listings with a number, the last one is kept. -/
theorem find?_ofList : (ofList ls).find? id = (ls.filter (·.id = id)).getLast? := by
  induction ls using List.reverseRecOn with
  | nil => rfl
  | append_singleton ls l ih =>
    rw [ofList_concat, find?_insert, ih, List.filter_append]
    by_cases hid : l.id = id
    · simp [hid]
    · simp [hid, Ne.symm hid]

/-- The listings with a number, among those that are kept. -/
theorem Sound.filter_eq (h : m.Sound) :
    (m.entries.map (·.2)).filter (·.id = id) = (m.find? id).toList := by
  obtain ⟨entries⟩ := m
  induction entries with
  | nil => rfl
  | cons e rest ih =>
    obtain ⟨k, l⟩ := e
    obtain ⟨hk, hrest⟩ := List.pairwise_cons.1 h.ascending
    have hown : l.id = k := h.own (k, l) (by simp)
    have hfind := ih ⟨hrest, fun e he => h.own e (List.mem_cons_of_mem _ he)⟩
    by_cases hid : id = k
    · -- all that follow have greater numbers
      have hno : ∀ l' ∈ rest.map (·.2), l'.id ≠ id := by
        intro l' hl'
        obtain ⟨e, he, rfl⟩ := List.mem_map.1 hl'
        rw [h.own e (List.mem_cons_of_mem _ he), hid]
        exact (UInt32.ne_of_lt (hk e he)).symm
      have hempty : (rest.map (·.2)).filter (·.id = id) = [] := by simpa using hno
      simp [find?, hown, hid, hid ▸ hempty]
    · have hne : l.id ≠ id := hown ▸ Ne.symm hid
      simpa [find?, hne, List.lookup_cons, beq_false_of_ne hid] using hfind

/-- Whatever the order in which they come, the same listings are kept. -/
theorem ofList_of_perm (h : m.Sound) (hp : ls.Perm (m.entries.map (·.2))) : ofList ls = m := by
  refine sound_ofList.ext h fun id => ?_
  have hperm := hp.filter (·.id = id)
  rw [h.filter_eq] at hperm
  rw [find?_ofList]
  cases hm : m.find? id with
  | none =>
    rw [hm] at hperm
    simp [hperm.eq_nil]
  | some l =>
    rw [hm] at hperm
    simp [List.perm_singleton.1 hperm]

end Lists

section Names

def numberName (id : UInt32) : String := toString id.toNat

theorem numeral?_numberName (id : UInt32) :
    Text.numeral? (twoTo 32) (numberName id).toList = some id.toNat := by
  rw [numberName, Nat.toString_eq_repr, Nat.toList_repr]
  exact Text.numeral?_toDigits id.toNat_lt

theorem numberName_inj : numberName id = numberName key ↔ id = key := by
  refine ⟨fun h => ?_, congrArg _⟩
  have hid := numeral?_numberName id
  rw [h, numeral?_numberName] at hid
  exact UInt32.toNat_inj.1 (Option.some.inj hid).symm

theorem insertNamed_cons : insertNamed kept ((numberName key, l) :: named) =
    insertNamed (kept.insert key { l with id := key }) named := by
  rw [insertNamed, numeral?_numberName]
  simp

theorem sound_insertNamed (h : kept.Sound) (hm : insertNamed kept named = .ok m) : m.Sound := by
  induction named generalizing kept with
  | nil =>
    cases hm
    exact h
  | cons e named ih =>
    obtain ⟨name, l⟩ := e
    rw [insertNamed] at hm
    cases hn : Text.numeral? (twoTo 32) name.toList with
    | none =>
      rw [hn] at hm
      cases hm
    | some n =>
      rw [hn] at hm
      exact ih (h.insert (l := { l with id := UInt32.ofNat n }) rfl) hm

/-- What is kept when listings come under the names of numbers. -/
theorem insertNamed_names (kept : Listings) (hnames : ∀ e ∈ named, ∃ id, e.1 = numberName id)
    (hnodup : (named.map (·.1)).Nodup) : ∃ m, insertNamed kept named = .ok m ∧ ∀ id, m.find? id =
      ((named.lookup (numberName id)).map fun l => { l with id := id }).or (kept.find? id) := by
  induction named generalizing kept with
  | nil => exact ⟨kept, rfl, fun id => by simp⟩
  | cons e named ih =>
    obtain ⟨name, l⟩ := e
    obtain ⟨key, rfl⟩ : ∃ key, name = numberName key := hnames (name, l) (by simp)
    obtain ⟨hno, hnodup⟩ := List.nodup_cons.1 hnodup
    obtain ⟨m, hm, hfind⟩ := ih (kept.insert key { l with id := key })
      (fun e he => hnames e (List.mem_cons_of_mem _ he)) hnodup
    refine ⟨m, insertNamed_cons.trans hm, fun id => ?_⟩
    rw [hfind, find?_insert, List.lookup_cons]
    by_cases hid : id = key
    · subst hid
      have hnone : named.lookup (numberName id) = none := by
        refine List.lookup_eq_none_iff.2 fun e he => ?_
        have hne : numberName id ≠ e.1 := fun heq => hno (List.mem_map.2 ⟨e, he, heq.symm⟩)
        simpa using hne
      simp [hnone]
    · have hname : (numberName id == numberName key) = false := by
        simpa [numberName_inj] using hid
      simp [hname, hid]

theorem lookup_put {k : String} : (Json.put k (fun _ => l) done).lookup name =
    if name = k then some l else done.lookup name := by
  induction done with
  | nil =>
    rw [Json.put, List.lookup_cons]
    split <;> simp_all
  | cons e done ih =>
    obtain ⟨k', l'⟩ := e
    rw [Json.put]
    split
    · rw [List.lookup_cons]
      split <;> simp_all
    · split
      · rename_i hk
        subst hk
        rw [List.lookup_cons, List.lookup_cons]
        split <;> simp_all
      · rename_i hk
        rw [List.lookup_cons, List.lookup_cons, ih]
        split
        · rename_i hname
          rw [if_neg]
          rintro rfl
          exact hk (beq_iff_eq.1 hname)
        · rfl

theorem byName_concat {e : String × Listing} :
    byName (named ++ [e]) = Json.put e.1 (fun _ => e.2) (byName named) := by
  rw [byName, List.foldl_append]
  rfl

theorem ascending_byName : Json.Ascending (byName named) := by
  induction named using List.reverseRecOn with
  | nil => exact Json.ascending_nil
  | append_singleton named e ih =>
    rw [byName_concat]
    exact Json.ascending_put ih

theorem mem_names_byName (h : name ∈ (byName named).map (·.1)) : name ∈ named.map (·.1) := by
  induction named using List.reverseRecOn with
  | nil => exact h
  | append_singleton named e ih =>
    rw [byName_concat, Json.mem_names_put] at h
    rw [List.map_append, List.mem_append]
    rcases h with rfl | h
    · exact Or.inr (by simp)
    · exact Or.inl (ih h)

/-- Of the listings with a name, the last one is kept. -/
theorem lookup_byName :
    (byName named).lookup name = (named.filter (·.1 = name)).getLast?.map (·.2) := by
  induction named using List.reverseRecOn with
  | nil => rfl
  | append_singleton named e ih =>
    rw [byName_concat, lookup_put, ih, List.filter_append]
    by_cases hname : e.1 = name
    · simp [hname]
    · simp [hname, Ne.symm hname]

/-- A listing stands under the name of its number, perhaps with another number in it. -/
def StandsUnder (l : Listing) (e : String × Listing) : Prop :=
  e.1 = numberName l.id ∧ { e.2 with id := l.id } = l

theorem map_names (h : List.Forall₂ StandsUnder ls named) :
    named.map (·.1) = ls.map fun l => numberName l.id := by
  induction h with
  | nil => rfl
  | cons he _ ih => rw [List.map_cons, List.map_cons, ih, he.1]

theorem filter_names (id : UInt32) (h : List.Forall₂ StandsUnder ls named) :
    (named.filter (·.1 = numberName id)).map (fun e => { e.2 with id := id }) =
      ls.filter (·.id = id) := by
  induction h with
  | nil => rfl
  | @cons l e ls named he _ ih =>
    obtain ⟨hname, hl⟩ := he
    by_cases hid : l.id = id
    · subst hid
      simp [hname, ih, hl]
    · simp [hname, numberName_inj, hid, ih]

/-- Listings under the names of their numbers are kept like a list of them. -/
theorem insertNamed_byName (h : List.Forall₂ StandsUnder ls named) :
    insertNamed empty (byName named) = .ok (ofList ls) := by
  have hnames : ∀ e ∈ byName named, ∃ id, e.1 = numberName id := by
    intro e he
    have hmem := mem_names_byName (List.mem_map.2 ⟨e, he, rfl⟩)
    rw [map_names h] at hmem
    obtain ⟨l, _, hl⟩ := List.mem_map.1 hmem
    exact ⟨l.id, hl.symm⟩
  obtain ⟨m, hm, hfind⟩ := insertNamed_names empty hnames ascending_byName.nodup
  have heq : m = ofList ls := by
    refine (sound_insertNamed sound_empty hm).ext sound_ofList fun id => ?_
    have hmap := congrArg List.getLast? (filter_names id h)
    rw [List.getLast?_map] at hmap
    rw [hfind, find?_ofList, lookup_byName, ← hmap]
    simp [find?, empty, Function.comp_def]
  rw [hm, heq]

end Names

/-- Listings are read only in order and under their own numbers. -/
theorem sound_ofJson {v : Json} (h : ofJson v = .ok m) : m.Sound := by
  cases v with
  | null =>
    cases h
    exact sound_empty
  | list items =>
    rw [ofJson] at h
    split at h
    · cases h
      exact sound_ofList
    · cases h
  | object members =>
    rw [ofJson] at h
    split at h
    · exact sound_insertNamed sound_empty h
    · cases h
  | _ => cases h

end AnalyzerBridge.Listings
