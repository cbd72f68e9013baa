import AnalyzerBridge.Proofs.Json.Agreement
import AnalyzerBridge.Proofs.Json.Parts

/-! Records by the members of their text. The text of an object is read as a record exactly if its
members give one: no part is named twice, and each part that is named can be read from its member.
Members that name no part may be any JSON. -/
namespace AnalyzerBridge

open Json Form FieldForm

namespace Json

def RawName (b s : List Char) : Prop := b = s ∧ WellFormedText s

/-- Without special characters a text is well-formed. -/
theorem wellFormedText_self {b : List Char} (h : b.all (Literal ·) = true) : WellFormedText b := by
  induction b with
  | nil => exact .nil
  | cons c b ih =>
    rw [List.all_cons, Bool.and_eq_true] at h
    exact .literal (of_decide_eq_true h.1) (ih h.2)

/-- A member with such a name, without spaces. -/
theorem memberText_named {α : Type} {P : α → List Char → Prop} {a : α} (name : List Char)
    (s : List Char) (hn : name.all (Literal ·) = true) (h : P a s) :
    MemberText RawName P (name, a) ('"' :: (name ++ '"' :: ([] ++ ':' :: ([] ++ s)))) :=
  .pair ⟨rfl, wellFormedText_self hn⟩ gap_nil gap_nil h

theorem spellsName_unique {name other : String} {b : List Char} (h : SpellsName name b)
    (ho : SpellsName other b) : name = other := by
  have hread : readText (b ++ ['"']) = .ok (name, []) := readText_spells h
  rw [readText_spells ho] at hread
  cases hread
  rfl

end Json

namespace Parts

variable {ρ τ : Type} {P : Parts ρ} {G : (p : P.Part) → τ → P.Value p → Prop}
  {fields : List (FieldForm ρ)} {blank r t : ρ} {seen : List String} {key title : String}
  {ms : List (List Char × τ)} {b s rest bound : List Char} {x : τ} {p : P.Part} {first : Bool}
  {levels : Nat} {Q : τ → List Char → Prop}

/-- From where a record is read so far, these members make another one: each of their names is a
text, they name no part twice and none that was seen, what they give for the parts is there, and the
other parts stay. -/
structure Gathers (P : Parts ρ) (G : (p : P.Part) → τ → P.Value p → Prop) (seen : List String)
    (r : ρ) (ms : List (List Char × τ)) (t : ρ) : Prop where
  texts : ∀ m ∈ ms, ∃ name, SpellsName name m.1
  single : ∀ p, ms.Pairwise fun m m' => ¬ (SpellsName (P.name p) m.1 ∧ SpellsName (P.name p) m'.1)
  fresh : ∀ p, P.name p ∈ seen → ∀ m ∈ ms, ¬ SpellsName (P.name p) m.1
  given : ∀ p, ∀ m ∈ ms, SpellsName (P.name p) m.1 → G p m.2 (P.get t p)
  others : ∀ p, (∀ m ∈ ms, ¬ SpellsName (P.name p) m.1) → P.get t p = P.get r p

theorem gathers_nil (hP : P.Of fields) : P.Gathers G seen r [] t ↔ t = r := by
  constructor
  · intro h
    apply hP.ext
    intro p
    exact h.others p nofun
  · rintro rfl
    exact ⟨nofun, fun _ => .nil, nofun, nofun, fun _ _ => rfl⟩

/-- A member that names no part changes nothing. -/
theorem gathers_pass (hkey : SpellsName key b) (hno : ∀ p, P.name p ≠ key) :
    P.Gathers G seen r ((b, x) :: ms) t ↔ P.Gathers G seen r ms t := by
  have hnone (p : P.Part) : ¬ SpellsName (P.name p) b :=
    fun h => hno p (spellsName_unique h hkey)
  constructor
  · intro h
    refine ⟨(List.forall_mem_cons.1 h.texts).2, fun p => (h.single p).of_cons, ?_, ?_, ?_⟩
    · intro p hp
      exact (List.forall_mem_cons.1 (h.fresh p hp)).2
    · intro p
      exact (List.forall_mem_cons.1 (h.given p)).2
    · intro p hp
      exact h.others p (List.forall_mem_cons.2 ⟨hnone p, hp⟩)
  · intro h
    refine ⟨List.forall_mem_cons.2 ⟨⟨key, hkey⟩, h.texts⟩, ?_, ?_, ?_, ?_⟩
    · intro p
      exact List.pairwise_cons.2 ⟨fun m _ hboth => hnone p hboth.1, h.single p⟩
    · intro p hp
      exact List.forall_mem_cons.2 ⟨hnone p, h.fresh p hp⟩
    · intro p
      exact List.forall_mem_cons.2 ⟨fun hp => absurd hp (hnone p), h.given p⟩
    · intro p hp
      exact h.others p (List.forall_mem_cons.1 hp).2

/-- A member that names a part gives it, and the part must not be named again. -/
theorem gathers_take (hn : Function.Injective P.name) {set : P.Value p → ρ → ρ}
    (hown : ∀ z r, P.get (set z r) p = z)
    (hleave : ∀ q, q ≠ p → ∀ z r, P.get (set z r) q = P.get r q) (hkey : SpellsName (P.name p) b) :
    P.Gathers G seen r ((b, x) :: ms) t ↔
      P.name p ∉ seen ∧ ∃ z, G p x z ∧ P.Gathers G (P.name p :: seen) (set z r) ms t := by
  have hsame (q : P.Part) (h : SpellsName (P.name q) b) : q = p := hn (spellsName_unique h hkey)
  constructor
  · intro h
    have hlater : ∀ m ∈ ms, ¬ SpellsName (P.name p) m.1 := by
      intro m hm hp
      exact (List.pairwise_cons.1 (h.single p)).1 m hm ⟨hkey, hp⟩
    have hgiven := (List.forall_mem_cons.1 (h.given p)).1 hkey
    refine ⟨fun hseen => h.fresh p hseen _ List.mem_cons_self hkey, P.get t p, hgiven, ?_⟩
    refine ⟨(List.forall_mem_cons.1 h.texts).2, fun q => (h.single q).of_cons, ?_, ?_, ?_⟩
    · intro q hq
      rcases List.mem_cons.1 hq with hq | hq
      · rw [hq]
        exact hlater
      · exact (List.forall_mem_cons.1 (h.fresh q hq)).2
    · intro q
      exact (List.forall_mem_cons.1 (h.given q)).2
    · intro q hq
      by_cases hqp : q = p
      · subst hqp
        exact (hown _ _).symm
      · rw [hleave q hqp]
        exact h.others q (List.forall_mem_cons.2 ⟨fun hb => hqp (hsame q hb), hq⟩)
  · rintro ⟨hseen, z, hz, h⟩
    have hlater : ∀ m ∈ ms, ¬ SpellsName (P.name p) m.1 := h.fresh p List.mem_cons_self
    refine ⟨List.forall_mem_cons.2 ⟨⟨_, hkey⟩, h.texts⟩, ?_, ?_, ?_, ?_⟩
    · intro q
      refine List.pairwise_cons.2 ⟨?_, h.single q⟩
      rintro m hm ⟨hb, hq⟩
      obtain rfl := hsame q hb
      exact hlater m hm hq
    · intro q hq
      refine List.forall_mem_cons.2 ⟨?_, h.fresh q (List.mem_cons_of_mem _ hq)⟩
      intro hb
      obtain rfl := hsame q hb
      exact hseen hq
    · intro q
      refine List.forall_mem_cons.2 ⟨?_, h.given q⟩
      intro hb
      obtain rfl := hsame q hb
      rw [h.others q hlater, hown]
      exact hz
    · intro q hq
      obtain ⟨hb, hq⟩ := List.forall_mem_cons.1 hq
      have hqp : q ≠ p := by
        rintro rfl
        exact hb hkey
      rw [h.others q hq, hleave q hqp]

/-- The parts differ by their names, and each can have any value that its type allows. -/
structure Full (P : Parts ρ) : Prop where
  names : Function.Injective P.name
  written : ∀ p z, ∃ v, (P.form p).ofJson v = .ok z

/-- The field that answers to a name is one of the parts. -/
theorem Of.find?_eq_some (hP : P.Of fields) (hF : P.Full) {f : FieldForm ρ}
    (hf : fields.find? (·.answersTo key) = some f) : ∃ p set, P.name p = key ∧
      f = may (P.name p) (P.form p) set ∧ (∀ z r, P.get (set z r) p = z) ∧
      ∀ q, q ≠ p → ∀ z r, P.get (set z r) q = P.get r q := by
  obtain ⟨hm, rfl⟩ := hP.table.find?_eq_some.1 hf
  obtain ⟨place, hlt, rfl⟩ := List.mem_iff_getElem.1 hm
  obtain ⟨p, rfl⟩ := hP.covers place hlt
  obtain ⟨set, hset, hown⟩ := (hP.shows p).field
  have heq : fields[P.place p] = may (P.name p) (P.form p) set :=
    Option.some.inj ((List.getElem?_eq_getElem hlt).symm.trans hset)
  refine ⟨p, set, by rw [heq, name_may], heq, hown, ?_⟩
  intro q hq z r
  obtain ⟨v, hv⟩ := hF.written p z
  have hne : fields[P.place p].name ≠ P.name q := by
    rw [heq, name_may]
    exact fun h => hq (hF.names h).symm
  have hleaves := (hP.shows q).others _ hm hne
  rw [heq] at hleaves
  exact hleaves v (set z) (ofJson_may.2 ⟨z, hv, rfl⟩) r

theorem Of.find?_eq_none (hP : P.Of fields) (hf : fields.find? (·.answersTo key) = none) (p : P.Part) :
    P.name p ≠ key := by
  rintro rfl
  obtain ⟨set, hset, _⟩ := (hP.shows p).field
  have hown := hP.table.find?_eq_some.2 ⟨List.mem_of_getElem? hset, name_may⟩
  rw [hf] at hown
  cases hown

/-- What the texts of members give: for a member that names a part, what its form reads; any other
member can be skipped. -/
structure Settled (P : Parts ρ) (levels : Nat) (G : (p : P.Part) → τ → P.Value p → Prop)
    (Q : τ → List Char → Prop) (ms : List (List Char × τ)) : Prop where
  named : ∀ m ∈ ms, ∀ p, SpellsName (P.name p) m.1 → ∀ y, Q m.2 y →
    Settles ((P.form p).read levels) y (G p m.2)
  other : ∀ m ∈ ms, (∀ p, ¬ SpellsName (P.name p) m.1) → ∀ y, Q m.2 y → Skips skip y

theorem read_may {α : Type} {name : String} {f : Form α} {set : α → ρ → ρ} {w : ρ → ρ}
    {u : List Char} : (may name f set).read levels s = .ok (w, u) ↔
      ∃ z, f.read levels s = .ok (z, u) ∧ w = set z := by
  constructor
  · intro h
    obtain ⟨⟨z, v⟩, hz, h⟩ := Except.bind_eq_ok.1 h
    cases h
    exact ⟨z, hz, rfl⟩
  · rintro ⟨z, hz, rfl⟩
    exact Except.bind_eq_ok.2 ⟨_, hz, rfl⟩

/-- Members are read up to the closing bracket, and make the record that they give. -/
theorem readFields_iff (hP : P.Of fields) (hF : P.Full) (hs : P.Settled levels G Q ms)
    (hi : Inside '}' (MemberText RawName Q) first ms s) (hb : ms.length < bound.length)
    {u : List Char} : readFields fields levels bound first seen r (s ++ rest) = .ok (t, u) ↔
      u = rest ∧ P.Gathers G seen r ms t := by
  induction ms generalizing first bound seen r s with
  | nil =>
    obtain ⟨c, bound, rfl⟩ := List.exists_cons_of_length_pos hb
    cases hi with
    | close hg =>
      rw [List.append_assoc, List.singleton_append, readFields, nextMember_close hg, gathers_nil hP]
      simp [bind, Except.bind, hP.table.checkMissing, and_comm, eq_comm]
  | cons m ms ih =>
    obtain ⟨c, bound, rfl⟩ := List.exists_cons_of_length_pos (Nat.zero_lt_of_lt hb)
    obtain ⟨b, x⟩ := m
    obtain ⟨_, g, h, y, s', ⟨rfl, hname⟩, hg, hh, hQ, hi', hnext⟩ := nextMember_inside rest hi
    have hs' : P.Settled levels G Q ms :=
      ⟨(List.forall_mem_cons.1 hs.named).2, (List.forall_mem_cons.1 hs.other).2⟩
    have hrest (seen : List String) (r : ρ) :
        readFields fields levels bound false seen r (s' ++ rest) = .ok (t, u) ↔
          u = rest ∧ P.Gathers G seen r ms t := ih hs' hi' (Nat.lt_of_succ_lt_succ hb)
    have hr : Delimited (s' ++ rest) := hi'.delimited (by simp)
    rw [readFields, hnext]
    simp only [bind, Except.bind]
    cases hread : readText (b ++ '"' :: (g ++ ':' :: (h ++ (y ++ (s' ++ rest))))) with
    | error e =>
      constructor
      · intro h
        cases h
      · rintro ⟨_, hgathers⟩
        obtain ⟨name, hspells⟩ := hgathers.texts _ List.mem_cons_self
        rw [readText_spells hspells] at hread
        cases hread
    | ok k =>
      obtain ⟨key, _⟩ := k
      obtain ⟨rfl, hkey⟩ := spellsText_of_readText hname hread
      simp only
      cases hf : fields.find? (·.answersTo key) with
      | none =>
        have hno := hP.find?_eq_none hf
        have hskip := hs.other _ List.mem_cons_self
          (fun p hp => hno p (spellsName_unique hp hkey)) y hQ
        simp only [readColon_gap hg, hskip.eq h _ hh hr]
        exact (hrest seen r).trans (by rw [gathers_pass hkey hno])
      | some f =>
        obtain ⟨p, set, rfl, rfl, hown, hleave⟩ := hP.find?_eq_some hF hf
        have hsettles (z : P.Value p) (v : List Char) :=
          hs.named _ List.mem_cons_self p hkey y hQ h _ z v hh hr
        rw [gathers_take hF.names hown hleave hkey]
        simp only [name_may, List.contains_eq_mem, decide_eq_true_eq, readColon_gap hg]
        by_cases hseen : P.name p ∈ seen
        · simp [hseen]
        rw [if_neg hseen, and_iff_right hseen]
        cases hv : (may (P.name p) (P.form p) set).read levels (h ++ (y ++ (s' ++ rest))) with
        | error e =>
          constructor
          · intro h
            cases h
          · rintro ⟨_, z, hz, _⟩
            rw [read_may.2 ⟨z, (hsettles z _).2 ⟨rfl, hz⟩, rfl⟩] at hv
            cases hv
        | ok v =>
          obtain ⟨w, v⟩ := v
          obtain ⟨z, hz, rfl⟩ := read_may.1 hv
          obtain ⟨rfl, hG⟩ := (hsettles z v).1 hz
          refine (hrest _ _).trans (and_congr_right fun _ => ?_)
          constructor
          · intro hgathers
            exact ⟨z, hG, hgathers⟩
          · rintro ⟨z', hG', hgathers⟩
            rw [(hsettles z' _).2 ⟨rfl, hG'⟩] at hz
            cases hz
            exact hgathers

/-- The text of an object is read as the record that its members make of the blank one. -/
theorem settles_record (hP : P.Of fields) (hF : P.Full) (hs : P.Settled levels G Q ms)
    (h : ObjectText RawName Q ms s) :
    Settles ((record title blank fields).read (levels + 1)) s (P.Gathers G [] blank ms) := by
  obtain @⟨s, hi⟩ := h
  intro g rest t u hg _
  have hlt := hi.length_lt fun _ _ hm => hm.begins
  have hb : ms.length < (s ++ rest).length := by
    rw [List.length_append]
    omega
  rw [← readFields_iff hP hF hs hi hb]
  simp only [record, skipSpace_gap hg, List.cons_append]
  rw [skipSpace_cons (by decide)]
  exact Iff.rfl

end Parts

end AnalyzerBridge
