import AnalyzerBridge.Proofs.Json.Closing
import AnalyzerBridge.Proofs.Json.Forms
import AnalyzerBridge.Proofs.Json.Soundness

/-! Typed values from text and from values. With a form that agrees it is the same whether a text is
read with it, or any value is read from the text and the form is applied to it. -/
namespace AnalyzerBridge

open Json

namespace Json

section Readers

variable {α : Type} {s t r w bound : List Char} {c d : Char} {first : Bool} {levels : Nat} {v : Json}
  {as : List α} {done ms : List (String × α)} {name : String} {a : α}
  {item value : List Char → Except Fault (α × List Char)}

/-- How a value is read from where it starts, by its first character. -/
inductive ReadsValue (levels : Nat) : List Char → Json → List Char → Prop
  | null {t r : List Char} : scanWord "ull".toList t = .ok r → ReadsValue levels ('n' :: t) .null r
  | yes {t r : List Char} : scanWord "rue".toList t = .ok r →
      ReadsValue levels ('t' :: t) (.bool true) r
  | no {t r : List Char} : scanWord "alse".toList t = .ok r →
      ReadsValue levels ('f' :: t) (.bool false) r
  | minus {t r : List Char} {x : Number} : readNumber true t = .ok (x, r) →
      ReadsValue levels ('-' :: t) (.number x) r
  | digit {c : Char} {t r : List Char} {x : Number} : c.isDigit = true →
      readNumber false (c :: t) = .ok (x, r) → ReadsValue levels (c :: t) (.number x) r
  | text {t r : List Char} {x : String} : readText t = .ok (x, r) →
      ReadsValue levels ('"' :: t) (.text x) r
  | list {n : Nat} {t r : List Char} {items : List Json} : levels = n + 1 →
      readItems (read n) t true [] t = .ok (items, r) → ReadsValue levels ('[' :: t) (.list items) r
  | object {n : Nat} {t r : List Char} {members : List (String × Json)} : levels = n + 1 →
      readMembers (read n) t true [] t = .ok (members, r) →
      ReadsValue levels ('{' :: t) (.object members) r

theorem read_iff : read levels s = .ok (v, r) ↔ ReadsValue levels (skipSpace s) v r := by
  obtain ⟨inner, hread, hinner⟩ : ∃ inner, read levels = readValue inner ∧
      ∀ item, inner = some item ↔ ∃ n, levels = n + 1 ∧ item = read n := by
    cases levels with
    | zero => exact ⟨none, rfl, by simp⟩
    | succ n => exact ⟨some (read n), rfl, by simp [eq_comm]⟩
  rw [hread, readValue]
  generalize skipSpace s = s
  constructor
  · intro h
    split at h
    · cases h
    · obtain ⟨u, hu, h⟩ := Except.bind_eq_ok.1 h
      cases h
      exact .null hu
    · obtain ⟨u, hu, h⟩ := Except.bind_eq_ok.1 h
      cases h
      exact .yes hu
    · obtain ⟨u, hu, h⟩ := Except.bind_eq_ok.1 h
      cases h
      exact .no hu
    · obtain ⟨⟨x, u⟩, hx, h⟩ := Except.bind_eq_ok.1 h
      cases h
      exact .minus hx
    · obtain ⟨⟨x, u⟩, hx, h⟩ := Except.bind_eq_ok.1 h
      cases h
      exact .text hx
    · cases inner with
      | none => cases h
      | some item =>
        obtain ⟨n, hn, rfl⟩ := (hinner item).1 rfl
        obtain ⟨⟨items, u⟩, hitems, h⟩ := Except.bind_eq_ok.1 h
        cases h
        exact .list hn hitems
    · cases inner with
      | none => cases h
      | some item =>
        obtain ⟨n, hn, rfl⟩ := (hinner item).1 rfl
        obtain ⟨⟨members, u⟩, hmembers, h⟩ := Except.bind_eq_ok.1 h
        cases h
        exact .object hn hmembers
    · rename_i c t _ _ _ _ _ _ _
      by_cases hc : c.isDigit = true
      · rw [if_pos hc] at h
        obtain ⟨⟨x, u⟩, hx, h⟩ := Except.bind_eq_ok.1 h
        cases h
        exact .digit hc hx
      · rw [if_neg hc] at h
        cases h
  · intro h
    cases h with
    | digit hc hx =>
      have hno := not_mem_of_isDigit hc
      simp only [List.mem_cons, List.not_mem_nil, or_false, not_or] at hno
      split <;> simp_all [bind, Except.bind]
    | list hn hitems =>
      simp only [(hinner _).2 ⟨_, hn, rfl⟩, hitems, bind, Except.bind]
    | object hn hmembers =>
      simp only [(hinner _).2 ⟨_, hn, rfl⟩, hmembers, bind, Except.bind]
    | null hu | yes hu | no hu => simp only [hu, bind, Except.bind]
    | minus hx | text hx => simp only [hx, bind, Except.bind]

/-- The items that were read before stand in front. -/
theorem readItems_done {done : List α} : readItems item bound first done s = .ok (as, r) ↔
    ∃ bs, as = done.reverse ++ bs ∧ readItems item bound first [] s = .ok (bs, r) := by
  induction bound generalizing first done s as with
  | nil => simp [readItems]
  | cons c bound ih =>
    rw [readItems, readItems]
    cases nextItem first s with
    | error e => simp [bind, Except.bind]
    | ok next =>
      cases next with
      | close t =>
        simp only [bind, Except.bind, Except.ok.injEq, Prod.mk.injEq, List.reverse_nil]
        constructor
        · rintro ⟨rfl, rfl⟩
          exact ⟨[], by simp⟩
        · rintro ⟨bs, rfl, rfl, rfl⟩
          simp
      | entry t =>
        cases hv : item t with
        | error e => simp [bind, Except.bind, hv]
        | ok x =>
          simp only [bind, Except.bind, hv]
          rw [ih]
          constructor
          · rintro ⟨bs, rfl, h⟩
            exact ⟨x.1 :: bs, by simp, ih.2 ⟨bs, rfl, h⟩⟩
          · rintro ⟨_, rfl, h⟩
            obtain ⟨bs, rfl, hrest⟩ := ih.1 h
            exact ⟨bs, by simp, hrest⟩

/-- A list ends, or it goes on with an item. -/
theorem readItems_iff : readItems item (c :: bound) first [] s = .ok (as, r) ↔
    (as = [] ∧ nextItem first s = .ok (.close r)) ∨
    ∃ a bs t u, as = a :: bs ∧ nextItem first s = .ok (.entry t) ∧ item t = .ok (a, u) ∧
      readItems item bound false [] u = .ok (bs, r) := by
  rw [readItems]
  constructor
  · intro h
    obtain ⟨next, hnext, h⟩ := Except.bind_eq_ok.1 h
    cases next with
    | close t =>
      cases h
      exact .inl ⟨rfl, hnext⟩
    | entry t =>
      obtain ⟨⟨a, u⟩, ha, h⟩ := Except.bind_eq_ok.1 h
      obtain ⟨bs, hbs, hrest⟩ := readItems_done.1 h
      obtain rfl : as = a :: bs := hbs
      exact .inr ⟨a, bs, t, u, rfl, hnext, ha, hrest⟩
  · rintro (⟨rfl, hnext⟩ | ⟨a, bs, t, u, rfl, hnext, ha, h⟩)
    · simp [hnext, bind, Except.bind]
    · have hrest : readItems item bound false [a] u = .ok (a :: bs, r) :=
        readItems_done.2 ⟨bs, rfl, h⟩
      simp [hnext, ha, hrest, bind, Except.bind]

/-- Members are only added to those that were read before. -/
theorem length_of_readMembers (h : readMembers value bound first done s = .ok (ms, r)) :
    done.length ≤ ms.length := by
  induction bound generalizing first done s with
  | nil => cases h
  | cons c bound ih =>
    obtain ⟨next, _, h⟩ := Except.bind_eq_ok.1 h
    cases next with
    | close t =>
      cases h
      simp
    | entry t =>
      obtain ⟨_, _, h⟩ := Except.bind_eq_ok.1 h
      obtain ⟨_, _, h⟩ := Except.bind_eq_ok.1 h
      exact Nat.le_of_succ_le (ih h)

/-- How an object with one member is read. -/
def ReadsOne (value : List Char → Except Fault (α × List Char)) (s : List Char) (name : String)
    (a : α) (r : List Char) : Prop :=
  ∃ t u w, nextMember true s = .ok (.entry t) ∧ readName t = .ok (name, u) ∧
    value u = .ok (a, w) ∧ nextMember false w = .ok (.close r)

theorem ReadsOne.of_readMembers (h : readMembers value bound true [] s = .ok ([(name, a)], r)) :
    ReadsOne value s name a r := by
  cases bound with
  | nil => cases h
  | cons c bound =>
    obtain ⟨next, hnext, h⟩ := Except.bind_eq_ok.1 h
    cases next with
    | close t => cases h
    | entry t =>
      obtain ⟨⟨name, u⟩, hname, h⟩ := Except.bind_eq_ok.1 h
      obtain ⟨⟨a, w⟩, ha, h⟩ := Except.bind_eq_ok.1 h
      cases bound with
      | nil => cases h
      | cons d bound =>
        obtain ⟨next, hlast, h⟩ := Except.bind_eq_ok.1 h
        cases next with
        | close t =>
          cases h
          exact ⟨t, u, w, hnext, hname, ha, hlast⟩
        | entry t =>
          obtain ⟨_, _, h⟩ := Except.bind_eq_ok.1 h
          obtain ⟨_, _, h⟩ := Except.bind_eq_ok.1 h
          have htwo := length_of_readMembers h
          simp at htwo

theorem ReadsOne.readMembers (h : ReadsOne value s name a r) (hb : 2 ≤ bound.length) :
    readMembers value bound true [] s = .ok ([(name, a)], r) := by
  obtain ⟨t, u, w, hnext, hname, ha, hlast⟩ := h
  obtain ⟨c, bound, rfl⟩ := List.exists_cons_of_length_pos (Nat.lt_of_lt_of_le Nat.zero_lt_two hb)
  obtain ⟨d, bound, rfl⟩ := List.exists_cons_of_length_pos (Nat.le_of_succ_le_succ hb)
  simp [Json.readMembers, hnext, hname, ha, hlast, bind, Except.bind]

theorem nextMember_eq_entry : nextMember true s = .ok (.entry t) ↔ skipSpace s = '"' :: t := by
  rw [nextMember]
  split
  · simp_all
  · simp_all
  · rename_i c u hno hs
    by_cases hc : c = '"' <;> simp_all

theorem nextMember_eq_close : nextMember first s = .ok (.close t) ↔ skipSpace s = '}' :: t := by
  rw [nextMember]
  split
  · simp_all
  · simp_all
  · rename_i c u hno hs
    constructor
    · intro h
      split at h
      · split at h <;> cases h
      · split at h
        · split at h <;> cases h
        · cases h
    · intro h
      rw [hs] at h
      obtain ⟨rfl, rfl⟩ := List.cons.inj h
      exact absurd rfl hno

end Readers

/-- Whatever stands around this text, a reader gives exactly such values for it. -/
def Settles {α : Type} (read : List Char → Except Fault (α × List Char)) (s : List Char)
    (G : α → Prop) : Prop :=
  ∀ g rest a t, Gap g → Delimited rest → (read (g ++ (s ++ rest)) = .ok (a, t) ↔ t = rest ∧ G a)

variable {s : List Char} {n levels : Nat}

/-- From a text of JSON exactly the values are read that the grammar gives to it. -/
theorem settles_read (h : WellFormed n s) : Settles (read levels) s (Spells levels · s) := by
  intro g rest v t hg hr
  constructor
  · exact read_tells h _ _ _ _ hg hr
  · rintro ⟨rfl, hs⟩
    exact (read_spells hs).eq _ _ hg hr

end Json

namespace Form

variable {α : Type} {f : Form α} {levels : Nat} {s r : List Char} {a : α} {wanted : String}

/-- To read a text with the form is to read any value and to apply the form to it. -/
def Agrees (f : Form α) : Prop :=
  ∀ levels s a r, f.read levels s = .ok (a, r) ↔
    ∃ v, Json.read levels s = .ok (v, r) ∧ f.ofJson v = .ok a

theorem textAs_iff {x : String} : (textAs wanted).read levels s = .ok (x, r) ↔
    ∃ t, skipSpace s = '"' :: t ∧ readText t = .ok (x, r) := by
  simp only [textAs]
  constructor
  · intro h
    split at h
    · rename_i t hs
      exact ⟨t, hs, h⟩
    · exact absurd h mismatch_ne_ok
  · rintro ⟨t, hs, h⟩
    simp only [hs, h]

theorem agrees_textAs : Agrees (textAs wanted) := by
  intro levels s x r
  rw [textAs_iff]
  constructor
  · rintro ⟨t, hs, h⟩
    refine ⟨.text x, ?_, rfl⟩
    rw [read_iff, hs]
    exact .text h
  · rintro ⟨v, hv, hx⟩
    cases v <;> simp only [textAs, reduceCtorEq, Except.ok.injEq] at hx
    subst hx
    rw [read_iff] at hv
    generalize skipSpace s = s at hv ⊢
    cases hv with
    | text h => exact ⟨_, rfl, h⟩

theorem agrees_unit : Agrees unit := by
  intro levels s x r
  constructor
  · intro h
    simp only [unit] at h
    split at h
    · rename_i t hs
      obtain ⟨u, hu, h⟩ := Except.bind_eq_ok.1 h
      cases h
      refine ⟨.null, ?_, rfl⟩
      rw [read_iff, hs]
      exact .null hu
    · exact absurd h mismatch_ne_ok
  · rintro ⟨v, hv, hx⟩
    cases v <;> simp only [unit, reduceCtorEq] at hx
    rw [read_iff] at hv
    simp only [unit]
    generalize skipSpace s = s at hv ⊢
    cases hv with
    | null h => simp only [h, bind, Except.bind]

theorem unit_iff : unit.read levels s = .ok ((), r) ↔ Json.read levels s = .ok (.null, r) := by
  rw [agrees_unit]
  constructor
  · rintro ⟨v, hv, hnull⟩
    cases v <;> simp only [unit, reduceCtorEq] at hnull
    exact hv
  · intro h
    exact ⟨_, h, rfl⟩

theorem agrees_integer {accept : Int → Option α} : Agrees (integer wanted accept) := by
  intro levels s a r
  constructor
  · intro h
    simp only [integer] at h
    split at h
    · cases h
    · rename_i t hs
      obtain ⟨⟨x, u⟩, hx, h⟩ := Except.bind_eq_ok.1 h
      obtain ⟨b, hb, h⟩ := Except.bind_eq_ok.1 h
      cases h
      refine ⟨.number x, ?_, hb⟩
      rw [read_iff, hs]
      exact .minus hx
    · rename_i c t _ hs
      by_cases hc : c.isDigit = true
      · rw [if_pos hc] at h
        obtain ⟨⟨x, u⟩, hx, h⟩ := Except.bind_eq_ok.1 h
        obtain ⟨b, hb, h⟩ := Except.bind_eq_ok.1 h
        cases h
        refine ⟨.number x, ?_, hb⟩
        rw [read_iff, hs]
        exact .digit hc hx
      · rw [if_neg hc] at h
        exact absurd h mismatch_ne_ok
  · rintro ⟨v, hv, ha⟩
    cases v <;> simp only [integer, reduceCtorEq] at ha
    rw [read_iff] at hv
    simp only [integer]
    generalize skipSpace s = s at hv ⊢
    cases hv with
    | minus hx => simp only [hx, ha, bind, Except.bind]
    | @digit c t _ _ hc hx =>
      have hminus : c ≠ '-' := by
        rintro rfl
        cases hc
      split
      · simp_all
      · simp_all
      · rename_i heq
        obtain ⟨rfl, rfl⟩ := List.cons.inj heq
        simp only [hc, hx, ha, bind, Except.bind, if_true]

/-- Items are read alike by forms that agree. -/
theorem readItems_agrees (hf : Agrees f) {bound : List Char} {first : Bool} {as : List α} :
    readItems (f.read levels) bound first [] s = .ok (as, r) ↔
      ∃ vs, readItems (Json.read levels) bound first [] s = .ok (vs, r) ∧
        vs.mapM f.ofJson = .ok as := by
  induction bound generalizing first s as with
  | nil => simp [readItems]
  | cons c bound ih =>
    rw [readItems_iff]
    constructor
    · rintro (⟨rfl, hnext⟩ | ⟨a, as, t, u, rfl, hnext, ha, h⟩)
      · exact ⟨[], readItems_iff.2 (.inl ⟨rfl, hnext⟩), rfl⟩
      · obtain ⟨v, hv, ha⟩ := (hf _ _ _ _).1 ha
        obtain ⟨vs, hvs, has⟩ := ih.1 h
        refine ⟨v :: vs, readItems_iff.2 (.inr ⟨v, vs, t, u, rfl, hnext, hv, hvs⟩), ?_⟩
        rw [List.mapM_cons, ha, has]
        rfl
    · rintro ⟨vs, hvs, has⟩
      rcases readItems_iff.1 hvs with ⟨rfl, hnext⟩ | ⟨v, vs, t, u, rfl, hnext, hv, hvs⟩
      · cases has
        exact .inl ⟨rfl, hnext⟩
      · rw [List.mapM_cons] at has
        obtain ⟨a, ha, has⟩ := Except.bind_eq_ok.1 has
        obtain ⟨bs, hbs, has⟩ := Except.bind_eq_ok.1 has
        cases has
        exact .inr ⟨a, bs, t, u, rfl, hnext, (hf _ _ _ _).2 ⟨v, hv, ha⟩, ih.2 ⟨vs, hvs, hbs⟩⟩

theorem agrees_list (hf : Agrees f) : Agrees (list f) := by
  intro levels s as r
  constructor
  · intro h
    simp only [list] at h
    split at h
    · rename_i t hs
      cases levels with
      | zero => cases h
      | succ levels =>
        obtain ⟨vs, hvs, has⟩ := (readItems_agrees hf).1 h
        refine ⟨.list vs, ?_, has⟩
        rw [read_iff, hs]
        exact .list rfl hvs
    · exact absurd h mismatch_ne_ok
  · rintro ⟨v, hv, has⟩
    cases v <;> simp only [list, reduceCtorEq] at has
    rw [read_iff] at hv
    simp only [list]
    generalize skipSpace s = s at hv ⊢
    cases hv with
    | list hn hvs =>
      subst hn
      exact (readItems_agrees hf).2 ⟨_, hvs, has⟩

theorem two_le_length {t : List Char} {x : String} (hs : skipSpace s = '"' :: t)
    (h : readText t = .ok (x, r)) : 2 ≤ s.length := by
  have hle : (skipSpace s).length ≤ s.length := List.length_dropWhile_le _ _
  have ht : t ≠ [] := by
    rintro rfl
    cases h
  have hpos := List.length_pos_of_ne_nil ht
  rw [hs, List.length_cons] at hle
  omega

/-- How a choice is read that is an object with a name. -/
theorem choice_object {table : List (String × α)} {t : List Char} (hs : skipSpace s = '{' :: t) :
    (choice table).read (levels + 1) s = .ok (a, r) ↔
      ∃ name, ReadsOne (Json.read levels) t name .null r ∧ variant table name = .ok a := by
  simp only [choice, hs]
  constructor
  · intro h
    obtain ⟨⟨name, u⟩, hname, h⟩ := Except.bind_eq_ok.1 h
    obtain ⟨b, hb, h⟩ := Except.bind_eq_ok.1 h
    obtain ⟨w, hcolon, h⟩ := Except.bind_eq_ok.1 h
    obtain ⟨⟨⟨⟩, x⟩, hunit, h⟩ := Except.bind_eq_ok.1 h
    obtain ⟨t', ht, htext⟩ := textAs_iff.1 hname
    have hread : readName t' = .ok (name, w) := Except.bind_eq_ok.2 ⟨_, htext, by
      rw [Except.bind_eq_ok]
      exact ⟨w, hcolon, rfl⟩⟩
    split at h
    · cases h
    · rename_i hclose
      cases h
      exact ⟨name, ⟨t', w, x, nextMember_eq_entry.2 ht, hread, unit_iff.1 hunit,
        nextMember_eq_close.2 hclose⟩, hb⟩
    · cases h
  · rintro ⟨name, ⟨t', w, x, ht, hread, hnull, hclose⟩, ha⟩
    obtain ⟨⟨name, u⟩, htext, hread⟩ := Except.bind_eq_ok.1 hread
    obtain ⟨w, hcolon, hread⟩ := Except.bind_eq_ok.1 hread
    cases hread
    rw [textAs_iff.2 ⟨t', nextMember_eq_entry.1 ht, htext⟩]
    simp only [bind, Except.bind, ha, hcolon, unit_iff.2 hnull, nextMember_eq_close.1 hclose]

theorem agrees_choice {table : List (String × α)} : Agrees (choice table) := by
  intro levels s a r
  constructor
  · intro h
    cases hs : skipSpace s with
    | nil => simp [choice, hs] at h
    | cons c t =>
      by_cases hquote : c = '"'
      · subst hquote
        simp only [choice, hs] at h
        obtain ⟨⟨name, u⟩, hname, h⟩ := Except.bind_eq_ok.1 h
        obtain ⟨b, hb, h⟩ := Except.bind_eq_ok.1 h
        cases h
        refine ⟨.text name, ?_, hb⟩
        rw [read_iff, hs]
        exact .text hname
      by_cases hbrace : c = '{'
      · subst hbrace
        cases levels with
        | zero => simp [choice, hs] at h
        | succ levels =>
          obtain ⟨name, hone, ha⟩ := (choice_object hs).1 h
          refine ⟨.object [(name, .null)], ?_, ?_⟩
          · rw [read_iff, hs]
            obtain ⟨t', u, w, ht, hname, _⟩ := id hone
            obtain ⟨⟨name', u'⟩, htext, _⟩ := Except.bind_eq_ok.1 hname
            exact .object rfl (hone.readMembers (two_le_length (nextMember_eq_entry.1 ht) htext))
          · simp only [choice, ha]
            rfl
      · simp [choice, hs, hquote, hbrace] at h
  · rintro ⟨v, hv, ha⟩
    rw [read_iff] at hv
    cases hs : skipSpace s with
    | nil =>
      rw [hs] at hv
      cases hv
    | cons c t =>
      rw [hs] at hv
      simp only [choice] at ha
      split at ha
      · cases hv with
        | text hname => simp only [choice, hs, hname, ha, bind, Except.bind]
      · rename_i name v
        obtain ⟨b, hb, ha⟩ := Except.bind_eq_ok.1 ha
        obtain ⟨⟨⟩, hnull, ha⟩ := Except.bind_eq_ok.1 ha
        cases ha
        cases v <;> simp only [unit, reduceCtorEq] at hnull
        cases hv with
        | object hn hmembers =>
          subst hn
          exact (choice_object hs).2 ⟨name, .of_readMembers hmembers, hb⟩
      · cases ha
      · cases ha

/-- A form that agrees gives for a text of JSON what it makes of the text's value. -/
theorem Agrees.settles (hf : Agrees f) {n : Nat} (h : WellFormed n s) :
    Settles (f.read levels) s fun a => ∃ v, Spells levels v s ∧ f.ofJson v = .ok a := by
  intro g rest a t hg hr
  rw [hf]
  constructor
  · rintro ⟨v, hv, ha⟩
    obtain ⟨rfl, hs⟩ := (settles_read h g rest v t hg hr).1 hv
    exact ⟨rfl, v, hs, ha⟩
  · rintro ⟨rfl, v, hs, ha⟩
    exact ⟨v, (settles_read h g t v t hg hr).2 ⟨rfl, hs⟩, ha⟩

end Form

end AnalyzerBridge
