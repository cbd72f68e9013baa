import AnalyzerBridge.Run.Registry
import Mathlib.Data.List.Nodup

/-! What each operation of a registry leaves registered, and what all of them keep. -/
namespace AnalyzerBridge.Run.Registry

variable {α : Type} {r : Registry α} {key : Key} {e : Registration α} {run : Option Nat}
  {context : α} {generation : Nat} {p : Purpose}

theorem mem_of_find? (h : r.find? key = some e) : e ∈ r.entries :=
  List.mem_of_find?_eq_some h

theorem key_of_find? (h : r.find? key = some e) : e.key = key := by
  simpa using List.find?_some h

@[simp] theorem mem_erase : e ∈ (r.erase key).entries ↔ e ∈ r.entries ∧ e.key ≠ key := by
  simp [erase]

@[simp] theorem issued_erase : (r.erase key).issued = r.issued := rfl

@[simp] theorem entries_clear : r.clear.entries = [] := rfl

@[simp] theorem issued_clear : r.clear.issued = r.issued := rfl

@[simp] theorem issued_replace : (r.replace key context run).issued = r.issued + 1 := rfl

@[simp] theorem issued_complete : (r.complete key generation).1.issued = r.issued := by
  rw [complete]
  split <;> rfl

theorem mem_replace : e ∈ (r.replace key context run).entries ↔
    (e ∈ r.entries ∧ e.key ≠ key) ∨ ∃ n, run = some n ∧ e = ⟨key, r.next, n, context⟩ := by
  cases run <;> simp [replace, erase]

/-- What every operation keeps: one run for each key, all of one purpose, none with a generation
that is still to be given out. -/
structure Sound (p : Purpose) (r : Registry α) : Prop where
  distinct : (r.entries.map (·.key)).Nodup
  purpose : ∀ e ∈ r.entries, e.key.purpose = p
  issued : ∀ e ∈ r.entries, e.generation ≤ r.issued

theorem sound_empty : (empty : Registry α).Sound p := by
  constructor <;> simp [empty]

theorem sound_clear : r.clear.Sound p := by
  constructor <;> simp [clear]

theorem sound_erase (h : r.Sound p) : (r.erase key).Sound p where
  distinct := h.distinct.sublist (List.filter_sublist.map _)
  purpose e he := h.purpose e (mem_erase.1 he).1
  issued e he := h.issued e (mem_erase.1 he).1

theorem sound_replace (h : r.Sound p) (hk : key.purpose = p) :
    (r.replace key context run).Sound p := by
  have he : (r.erase key).Sound p := sound_erase h
  constructor
  · cases run with
    | none => exact he.distinct
    | some n =>
      have hn : key ∉ (r.erase key).entries.map (·.key) := by simp [erase]
      have hr : (r.replace key context (some n)).entries.map (·.key) =
          (r.erase key).entries.map (·.key) ++ [key] := by simp [replace]
      rw [hr]
      exact List.nodup_append_comm.1 (List.nodup_cons.2 ⟨hn, he.distinct⟩)
  · intro e hm
    rcases mem_replace.1 hm with ⟨hm, _⟩ | ⟨n, _, rfl⟩
    · exact h.purpose e hm
    · exact hk
  · intro e hm
    rw [issued_replace]
    rcases mem_replace.1 hm with ⟨hm, _⟩ | ⟨n, _, rfl⟩
    · exact Nat.le_succ_of_le (h.issued e hm)
    · exact Nat.le_refl _

section
variable (h : (r.entries.map (·.key)).Nodup)
include h

theorem eq_of_key {a b : Registration α} (ha : a ∈ r.entries) (hb : b ∈ r.entries)
    (hk : a.key = b.key) : a = b :=
  List.inj_on_of_nodup_map h ha hb hk

theorem find?_of_mem (he : e ∈ r.entries) : r.find? e.key = some e := by
  cases hf : r.find? e.key with
  | none =>
    have hn := List.find?_eq_none.1 hf e he
    simp at hn
  | some a => rw [eq_of_key h (mem_of_find? hf) he (key_of_find? hf)]

theorem find?_eq_some : r.find? key = some e ↔ e ∈ r.entries ∧ e.key = key := by
  constructor
  · intro hf
    exact ⟨mem_of_find? hf, key_of_find? hf⟩
  · rintro ⟨he, rfl⟩
    exact find?_of_mem h he

/-- A registry is the registration of a key, if it has one, and the rest. -/
theorem perm_erase (key : Key) :
    ((r.find? key).toList ++ (r.erase key).entries).Perm r.entries := by
  have hn := h.of_map
  have hrest : (r.erase key).entries.Nodup := hn.sublist List.filter_sublist
  have hmem : ∀ a, a ∈ (r.find? key).toList → a ∈ r.entries ∧ a.key = key := by
    intro a ha
    have hf := Option.mem_toList.1 ha
    exact ⟨mem_of_find? hf, key_of_find? hf⟩
  apply (List.perm_ext_iff_of_nodup ?_ hn).2
  · intro a
    rw [List.mem_append, mem_erase]
    constructor
    · rintro (ha | ha)
      · exact (hmem a ha).1
      · exact ha.1
    · intro ha
      by_cases hk : a.key = key
      · subst hk
        simp [find?_of_mem h ha]
      · exact Or.inr ⟨ha, hk⟩
  · apply List.Nodup.append (by cases r.find? key <;> simp) hrest
    intro a ha hb
    exact (mem_erase.1 hb).2 (hmem a ha).2

/-- A run that reports back and is the registered one of its key is taken out. -/
theorem complete_of_mem (he : e ∈ r.entries) :
    r.complete e.key e.generation = (r.erase e.key, some e) := by
  simp [complete, isCurrent, find?_of_mem h he]

end

theorem complete_of_stale (h : ∀ e ∈ r.entries, e.key = key → e.generation ≠ generation) :
    r.complete key generation = (r, none) := by
  have hc : r.isCurrent key generation = false := by
    rw [isCurrent]
    cases hf : r.find? key with
    | none => rfl
    | some a => simpa using h a (mem_of_find? hf) (key_of_find? hf)
  simp [complete, hc]

end AnalyzerBridge.Run.Registry
