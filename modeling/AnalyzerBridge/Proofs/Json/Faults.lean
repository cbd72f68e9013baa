import AnalyzerBridge.Proofs.Json.Parts

/-! The fault of a record that is read from an object. The members are read in order, so it is the
fault of the first one that the record asks for and cannot read; what else the object has does not
matter. Values laid over a record that can be read are refused exactly as they are by themselves. -/
namespace AnalyzerBridge

open Json

namespace FieldForm

variable {α ρ : Type} {name : String} {a : Form α} {set : α → ρ → ρ} {v : Json} {e : Fault}

theorem ofJson_may_error : (may name a set).ofJson v = .error e ↔ a.ofJson v = .error e := by
  rw [show (may name a set).ofJson v = (a.ofJson v >>= fun x => .ok (set x)) from rfl]
  cases a.ofJson v <;> simp [bind, Except.bind]

end FieldForm

namespace Form

open FieldForm

variable {α ρ : Type} {fields : List (FieldForm ρ)} {f : FieldForm ρ} {name key : String}
  {a : Form α} {r : ρ} {v x : Json} {u : α} {e e' : Fault} {seen : List String}
  {members : List (String × Json)}

/-- The field that asks for a name cannot read what an object has under it. -/
def RefusesAt (fields : List (FieldForm ρ)) (members : List (String × Json)) (name : String)
    (e : Fault) : Prop :=
  ∃ v f, lookup name members = some v ∧ fields.find? (·.answersTo name) = some f ∧
    f.ofJson v = .error e

/-- Of the names whose members cannot be read, this is the first. -/
def FirstRefusal (fields : List (FieldForm ρ)) (members : List (String × Json)) (name : String)
    (e : Fault) : Prop :=
  RefusesAt fields members name e ∧ ∀ other < name, ∀ e', ¬ RefusesAt fields members other e'

theorem not_refusesAt_nil : ¬ RefusesAt fields [] name e := by
  rintro ⟨v, f, hv, -⟩
  cases hv

theorem RefusesAt.mem (h : RefusesAt fields members name e) : name ∈ members.map (·.1) := by
  obtain ⟨v, f, hv, -⟩ := h
  exact List.mem_map_of_mem (mem_of_lookup hv)

theorem RefusesAt.unique (h : RefusesAt fields members name e)
    (h' : RefusesAt fields members name e') : e = e' := by
  obtain ⟨v, f, hv, hf, he⟩ := h
  obtain ⟨v', f', hv', hf', he'⟩ := h'
  cases hv.symm.trans hv'
  cases hf.symm.trans hf'
  exact Except.error.inj (he.symm.trans he')

theorem FirstRefusal.congr {members' : List (String × Json)}
    (h : ∀ name e, RefusesAt fields members name e ↔ RefusesAt fields members' name e) :
    FirstRefusal fields members name e ↔ FirstRefusal fields members' name e := by
  simp only [FirstRefusal, h]

/-- Behind a member that can be read, or is not asked for, the refusals are those of the rest. -/
theorem refusesAt_cons (hm : Ascending ((key, v) :: members))
    (hkey : ∀ e, ¬ RefusesAt fields ((key, v) :: members) key e) :
    RefusesAt fields ((key, v) :: members) name e ↔ RefusesAt fields members name e := by
  have hnew : key ∉ members.map (·.1) := (List.nodup_cons.1 hm.nodup).1
  by_cases hk : key = name
  · subst hk
    exact iff_of_false (hkey e) fun h => hnew h.mem
  · simp only [RefusesAt, lookup, if_neg hk]

/-- A member at the head that is refused comes first. -/
theorem firstRefusal_head (hm : Ascending ((key, v) :: members))
    (hkey : RefusesAt fields ((key, v) :: members) key e') :
    (∃ name, FirstRefusal fields ((key, v) :: members) name e) ↔ e' = e := by
  have hlt := (List.pairwise_cons.1 hm).1
  have hle : ∀ other ∈ ((key, v) :: members).map (·.1), ¬ other < key := by
    intro other hother hless
    rcases List.mem_cons.1 hother with rfl | hother
    · exact lt_irrefl _ hless
    · exact lt_asymm hless (hlt other hother)
  constructor
  · rintro ⟨name, h, hfirst⟩
    rcases List.mem_cons.1 h.mem with rfl | hname
    · exact hkey.unique h
    · exact absurd hkey (hfirst key (hlt name hname) e')
  · rintro rfl
    exact ⟨key, hkey, fun other hless e h => hle other h.mem hless⟩

/-- A member that a field asks for, and that was not there before, is read. -/
theorem takeFields_of_new (hf : fields.find? (·.answersTo key) = some f) (hn : f.name ∉ seen) :
    takeFields fields seen r ((key, v) :: members) =
      f.ofJson v >>= fun set => takeFields fields (f.name :: seen) (set r) members := by
  rw [takeFields, hf]
  simp only
  rw [if_neg (by simpa using hn)]

/-- Members in order are refused for the first of them that cannot be read. -/
theorem takeFields_eq_error (ht : Table fields) (hm : Ascending members)
    (hseen : ∀ key ∈ members.map (·.1), key ∉ seen) :
    takeFields fields seen r members = .error e ↔ ∃ name, FirstRefusal fields members name e := by
  induction members generalizing seen r with
  | nil =>
    rw [takeFields, ht.checkMissing]
    constructor
    · intro h
      cases h
    · rintro ⟨name, h, -⟩
      exact absurd h not_refusesAt_nil
  | cons m rest ih =>
    obtain ⟨key, v⟩ := m
    have hrest : Ascending rest := (List.pairwise_cons.1 hm).2
    obtain ⟨hkey, hlater⟩ := List.forall_mem_cons.1 hseen
    cases hf : fields.find? (·.answersTo key) with
    | none =>
      have hpass : ∀ e, ¬ RefusesAt fields ((key, v) :: rest) key e := by
        rintro e ⟨w, f, -, hf', -⟩
        cases hf.symm.trans hf'
      rw [takeFields_of_none hf, ih hrest hlater]
      exact exists_congr fun name => (FirstRefusal.congr fun _ _ => refusesAt_cons hm hpass).symm
    | some f =>
      obtain ⟨-, rfl⟩ := ht.find?_eq_some.1 hf
      rw [takeFields_of_new hf hkey]
      cases hv : f.ofJson v with
      | error e' =>
        have hhead : RefusesAt fields ((f.name, v) :: rest) f.name e' :=
          ⟨v, f, if_pos rfl, hf, hv⟩
        rw [firstRefusal_head hm hhead]
        exact iff_of_eq (Except.error.injEq e' e)
      | ok u =>
        have hpass : ∀ e, ¬ RefusesAt fields ((f.name, v) :: rest) f.name e := by
          rintro e ⟨w, g, hw, hg, he⟩
          rw [lookup, if_pos rfl] at hw
          cases hw
          cases hf.symm.trans hg
          cases hv.symm.trans he
        have hnew : f.name ∉ rest.map (·.1) := (List.nodup_cons.1 hm.nodup).1
        have hseen' : ∀ k ∈ rest.map (·.1), k ∉ f.name :: seen := by
          intro k hk hmem
          rcases List.mem_cons.1 hmem with rfl | hmem
          · exact hnew hk
          · exact hlater k hk hmem
        refine (ih (r := u r) hrest hseen').trans (exists_congr fun name => ?_)
        exact (FirstRefusal.congr fun _ _ => refusesAt_cons hm hpass).symm

/-- A value of this form that others can be laid over: what comes of it is refused exactly as they
are by themselves. -/
structure Bears (a : Form α) (x : Json) : Prop where
  reads : ∃ u, a.ofJson x = .ok u
  overlaid : ∀ (w : Json) (e : Fault),
    a.ofJson (x.overlay w.canonical) = .error e ↔ a.ofJson w.canonical = .error e

theorem bears_of_flat (hr : a.ofJson x = .ok u) (hx : ∀ w, x.overlay w = w) : a.Bears x where
  reads := ⟨u, hr⟩
  overlaid w e := by rw [hx]

theorem Bears.not_error (h : a.Bears x) : a.ofJson x ≠ .error e := by
  obtain ⟨u, hu⟩ := h.reads
  rw [hu]
  nofun

end Form

namespace Parts

open Form FieldForm

variable {ρ : Type} {P : Parts ρ} {fields : List (FieldForm ρ)} {f : FieldForm ρ}
  {name title : String} {blank : ρ} {members layer : List (String × Json)} {e : Fault}

theorem Of.part_of_mem (hP : P.Of fields) (hf : f ∈ fields) :
    ∃ p set, f = may (P.name p) (P.form p) set := by
  obtain ⟨place, hlt, hplace⟩ := List.mem_iff_getElem.1 hf
  obtain ⟨p, rfl⟩ := hP.covers place hlt
  obtain ⟨set, hset, -⟩ := (hP.shows p).field
  rw [List.getElem?_eq_getElem hlt, hplace] at hset
  exact ⟨p, set, Option.some.inj hset⟩

/-- The refusals of a record are those of its parts. -/
theorem refusesAt_iff (hP : P.Of fields) : RefusesAt fields members name e ↔
    ∃ p v, P.name p = name ∧ lookup name members = some v ∧ (P.form p).ofJson v = .error e := by
  constructor
  · rintro ⟨v, f, hv, hf, he⟩
    obtain ⟨hfm, rfl⟩ := hP.table.find?_eq_some.1 hf
    obtain ⟨p, set, rfl⟩ := hP.part_of_mem hfm
    exact ⟨p, v, rfl, hv, ofJson_may_error.1 he⟩
  · rintro ⟨p, v, rfl, hv, he⟩
    obtain ⟨set, hmem, -⟩ := (hP.shows p).mem
    exact ⟨v, _, hv, hP.table.find?_eq_some.2 ⟨hmem, rfl⟩, ofJson_may_error.2 he⟩

/-- Members laid over those of a record whose parts bear it are refused at the same names. -/
theorem refusesAt_overlayMembers (hP : P.Of fields) (hm : Ascending members)
    (hparts : ∀ p, ∃ x, lookup (P.name p) members = some x ∧ (P.form p).Bears x) {v : Json}
    (hv : v.canonical = .object layer) :
    RefusesAt fields (overlayMembers members layer) name e ↔ RefusesAt fields layer name e := by
  have hlayer := (ascending_of_canonical hv).nodup
  rw [refusesAt_iff hP, refusesAt_iff hP]
  refine exists_congr fun p => exists_and_left.trans (Iff.trans ?_ exists_and_left.symm)
  refine and_congr_right ?_
  rintro rfl
  obtain ⟨x, hx, hbears⟩ := hparts p
  rw [lookup_overlayMembers hm hlayer, hx]
  cases hw : lookup (P.name p) layer with
  | none => simp [hbears.not_error]
  | some w =>
    obtain ⟨u, rfl⟩ := canonical_of_lookup hv hw
    simp [hbears.overlaid]

/-- A record whose parts are all there and bear other values bears them itself. -/
theorem bears_record (hP : P.Of fields) (hm : Ascending members)
    (hparts : ∀ p, ∃ x, lookup (P.name p) members = some x ∧ (P.form p).Bears x) :
    (record title blank fields).Bears (.object members) := by
  have hreads : ∃ t, (record title blank fields).ofJson (.object members) = .ok t := by
    refine record_ok hP.table trivial hm.nodup ?_
    intro place f v hf hv
    obtain ⟨p, set, rfl⟩ := hP.part_of_mem (List.mem_of_getElem? hf)
    obtain ⟨x, hx, hbears⟩ := hparts p
    obtain rfl : x = v := Option.some.inj (hx.symm.trans hv)
    obtain ⟨u, hu⟩ := hbears.reads
    exact ⟨set u, ofJson_may.2 ⟨u, hu, rfl⟩⟩
  refine ⟨hreads, ?_⟩
  intro w e
  cases hw : w.canonical with
  | object layer =>
    have hnone : ∀ ms : List (String × Json), ∀ key ∈ ms.map (·.1), key ∉ ([] : List String) :=
      fun _ _ _ => List.not_mem_nil
    have hmembers : Ascending (overlayMembers members layer) := ascending_overlayMembers hm
    have hlaid := takeFields_eq_error (r := blank) (e := e) hP.table hmembers (hnone _)
    have halone := takeFields_eq_error (r := blank) (e := e) hP.table (ascending_of_canonical hw)
      (hnone _)
    rw [overlay]
    refine hlaid.trans (Iff.trans (exists_congr fun name => ?_) halone.symm)
    exact FirstRefusal.congr fun _ _ => refusesAt_overlayMembers hP hm hparts hw
  | _ => simp only [overlay]

theorem bears_written {base : ρ} (hP : P.Of fields) (hw : P.Written base members) :
    (record title blank fields).Bears (.object members) := by
  refine bears_record hP hw.ascending fun p => ?_
  obtain ⟨x, hx, hread⟩ := hw.parts p
  exact ⟨x, hx, bears_of_flat hread (hw.flat _ x hx)⟩

end Parts

end AnalyzerBridge
