import AnalyzerBridge.Json.Overlay
import Mathlib.Data.List.Nodup
import Mathlib.Data.String.Basic

/-! Members of objects in ascending order: what is found under a name after a member is put, and
after others are laid over. -/
namespace AnalyzerBridge.Json

section
variable {α : Type} {key name : String} {f : Option α → α} {ms : List (String × α)}

/-- The names ascend, so no two members have the same name. -/
def Ascending (ms : List (String × α)) : Prop := (ms.map (·.1)).Pairwise (· < ·)

theorem ascending_nil : Ascending ([] : List (String × α)) :=
  List.Pairwise.nil

theorem Ascending.nodup (h : Ascending ms) : (ms.map (·.1)).Nodup :=
  h.imp ne_of_lt

theorem mem_names_put : name ∈ (put key f ms).map (·.1) ↔ name = key ∨ name ∈ ms.map (·.1) := by
  induction ms with
  | nil => simp [put]
  | cons m rest ih =>
    obtain ⟨k, v⟩ := m
    rw [put]
    split
    · simp
    · split
      · rename_i hk
        simp [hk]
      · simp only [List.map_cons, List.mem_cons, ih]
        tauto

theorem ascending_put (h : Ascending ms) : Ascending (put key f ms) := by
  induction ms with
  | nil => exact List.pairwise_singleton _ _
  | cons m rest ih =>
    obtain ⟨k, v⟩ := m
    obtain ⟨hk, hrest⟩ := List.pairwise_cons.1 h
    rw [put]
    split
    · rename_i hlt
      refine List.pairwise_cons.2 ⟨fun x hx => ?_, h⟩
      rcases List.mem_cons.1 hx with rfl | hx
      · exact hlt
      · exact lt_trans hlt (hk x hx)
    · rename_i hlt
      split
      · exact h
      · rename_i hne
        refine List.pairwise_cons.2 ⟨fun x hx => ?_, ih hrest⟩
        rcases mem_names_put.1 hx with rfl | hx
        · exact lt_of_le_of_ne (not_lt.1 hlt) (Ne.symm hne)
        · exact hk x hx

end

variable {key name : String} {v w : Json} {ms ns base layer order done : List (String × Json)}
  {f : Option Json → Json}

theorem lookup_eq_none_iff : lookup name ms = none ↔ name ∉ ms.map (·.1) := by
  induction ms with
  | nil => simp [lookup]
  | cons m rest ih =>
    obtain ⟨k, v⟩ := m
    rw [lookup]
    split
    · rename_i hk
      simp [hk]
    · rename_i hk
      rw [ih, List.map_cons, List.mem_cons, not_or]
      exact ⟨fun h => ⟨Ne.symm hk, h⟩, And.right⟩

theorem mem_of_lookup (h : lookup name ms = some v) : (name, v) ∈ ms := by
  induction ms with
  | nil => cases h
  | cons m rest ih =>
    obtain ⟨k, u⟩ := m
    rw [lookup] at h
    split at h
    · rename_i hk
      cases h
      simp [hk]
    · exact List.mem_cons_of_mem _ (ih h)

theorem lookup_of_mem (hn : (ms.map (·.1)).Nodup) (h : (name, v) ∈ ms) :
    lookup name ms = some v := by
  induction ms with
  | nil => cases h
  | cons m rest ih =>
    obtain ⟨k, u⟩ := m
    rw [List.map_cons, List.nodup_cons] at hn
    rw [lookup]
    rcases List.mem_cons.1 h with hm | hm
    · cases hm
      exact if_pos rfl
    · have hk : k ≠ name := by
        rintro rfl
        exact hn.1 (List.mem_map.2 ⟨(k, v), hm, rfl⟩)
      rw [if_neg hk]
      exact ih hn.2 hm

/-- Ascending members are determined by what is found under each name. -/
theorem Ascending.ext (hm : Ascending ms) (hn : Ascending ns)
    (h : ∀ name, lookup name ms = lookup name ns) : ms = ns := by
  have hperm : ms.Perm ns := by
    rw [List.perm_ext_iff_of_nodup hm.nodup.of_map hn.nodup.of_map]
    rintro ⟨name, v⟩
    constructor
    · intro hv
      exact mem_of_lookup ((h name).symm.trans (lookup_of_mem hm.nodup hv))
    · intro hv
      exact mem_of_lookup ((h name).trans (lookup_of_mem hn.nodup hv))
  refine hperm.eq_of_pairwise ?_ (List.pairwise_map.1 hm) (List.pairwise_map.1 hn)
  intro m n _ _ hlt hgt
  exact absurd hgt (lt_asymm hlt)

theorem lookup_perm (hp : layer.Perm order) (hn : (layer.map (·.1)).Nodup) :
    lookup name layer = lookup name order := by
  have hn' : (order.map (·.1)).Nodup := (hp.map _).nodup_iff.1 hn
  cases hw : lookup name order with
  | none =>
    rw [lookup_eq_none_iff] at hw ⊢
    rwa [(hp.map _).mem_iff]
  | some w => exact lookup_of_mem hn (hp.mem_iff.2 (mem_of_lookup hw))

theorem sizeOf_lookup (h : lookup name ms = some v) : sizeOf v < sizeOf (object ms) := by
  have hlt := List.sizeOf_lt_of_mem (mem_of_lookup h)
  simp only [Prod.mk.sizeOf_spec, object.sizeOf_spec] at hlt ⊢
  omega

theorem lookup_put (h : Ascending ms) :
    lookup name (put key f ms) =
      if name = key then some (f (lookup key ms)) else lookup name ms := by
  induction ms with
  | nil => simp [put, lookup, eq_comm]
  | cons m rest ih =>
    obtain ⟨k, v⟩ := m
    obtain ⟨hk, hrest⟩ := List.pairwise_cons.1 h
    rw [put]
    split
    · -- the member is put in front: the old ones all have greater names
      rename_i hlt
      have hno : lookup key ((k, v) :: rest) = none := by
        rw [lookup_eq_none_iff]
        intro hm
        rcases List.mem_cons.1 hm with rfl | hm
        · exact lt_irrefl _ hlt
        · exact lt_asymm hlt (hk key hm)
      rw [hno, lookup]
      simp only [eq_comm]
    · split
      · rename_i heq
        subst heq
        by_cases hname : name = key
        · simp [lookup, hname]
        · simp [lookup, hname, Ne.symm hname]
      · rename_i hne
        rw [lookup, lookup, ih hrest, lookup, if_neg (Ne.symm hne)]
        split
        · rename_i hname
          rw [if_neg]
          rintro rfl
          exact hne hname.symm
        · rfl

/-- What is put depends on the old value alone. -/
theorem put_of_lookup (hb : Ascending base) (hn : f (lookup name base) = v) :
    put name f base = put name (fun _ => v) base := by
  refine Ascending.ext (ascending_put hb) (ascending_put hb) fun key => ?_
  rw [lookup_put hb, lookup_put hb, hn]

/-- The value under a name after a layer: what the base has there with what the layer has laid over
it. -/
theorem lookup_overlayMembers (hb : Ascending base) (hl : (layer.map (·.1)).Nodup) :
    lookup name (overlayMembers base layer) = match lookup name layer with
      | none => lookup name base
      | some w => some (match lookup name base with
        | some b => overlay b w
        | none => w) := by
  induction layer generalizing base with
  | nil => simp [overlayMembers, lookup]
  | cons m rest ih =>
    obtain ⟨k, w⟩ := m
    rw [List.map_cons, List.nodup_cons] at hl
    rw [overlayMembers, ih (ascending_put hb) hl.2, lookup_put hb, lookup]
    by_cases hk : name = k
    · subst hk
      have hno := lookup_eq_none_iff.2 hl.1
      cases lookup name base <;> simp only [hno, if_true]
    · rw [if_neg hk, if_neg (Ne.symm hk)]

theorem ascending_overlayMembers (hb : Ascending base) : Ascending (overlayMembers base layer) := by
  induction layer generalizing base with
  | nil => exact hb
  | cons m rest ih =>
    rw [overlayMembers]
    exact ih (ascending_put hb)

/-- Members of different names may be laid over others in any order. -/
theorem overlayMembers_perm (hb : Ascending base) (hp : layer.Perm order)
    (hn : (layer.map (·.1)).Nodup) : overlayMembers base layer = overlayMembers base order := by
  have hn' : (order.map (·.1)).Nodup := (hp.map _).nodup_iff.1 hn
  refine Ascending.ext (ascending_overlayMembers hb) (ascending_overlayMembers hb) fun name => ?_
  rw [lookup_overlayMembers hb hn, lookup_overlayMembers hb hn', lookup_perm hp hn]

theorem ascending_canonicalMembers (h : Ascending done) : Ascending (canonicalMembers done ms) := by
  induction ms generalizing done with
  | nil => exact h
  | cons m rest ih =>
    rw [canonicalMembers]
    exact ih (ascending_put h)

/-- The members of a canonical object ascend. -/
theorem ascending_of_canonical (h : v.canonical = .object ms) : Ascending ms := by
  cases v <;> simp only [canonical, reduceCtorEq, Json.object.injEq] at h
  rw [← h]
  exact ascending_canonicalMembers ascending_nil

theorem lookup_canonicalMembers (hd : Ascending done)
    (h : lookup name (canonicalMembers done ms) = some w) :
    lookup name done = some w ∨ ∃ u : Json, w = u.canonical := by
  induction ms generalizing done with
  | nil => exact Or.inl h
  | cons m rest ih =>
    rw [canonicalMembers] at h
    rcases ih (ascending_put hd) h with hput | hu
    · rw [lookup_put hd] at hput
      split at hput
      · exact Or.inr ⟨_, (Option.some.inj hput).symm⟩
      · exact Or.inl hput
    · exact Or.inr hu

/-- What a canonical object holds is canonical. -/
theorem canonical_of_lookup (h : v.canonical = .object ms) (hw : lookup name ms = some w) :
    ∃ u : Json, w = u.canonical := by
  cases v <;> simp only [canonical, reduceCtorEq, Json.object.injEq] at h
  rw [← h] at hw
  rcases lookup_canonicalMembers ascending_nil hw with hno | hu
  · cases hno
  · exact hu

theorem canonicalItems_eq_map (items : List Json) :
    canonicalItems items = items.map canonical := by
  induction items with
  | nil => rfl
  | cons v rest ih => rw [canonicalItems, ih, List.map_cons]

end AnalyzerBridge.Json
