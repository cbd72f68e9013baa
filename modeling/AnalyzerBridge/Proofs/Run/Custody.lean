import AnalyzerBridge.Run.Custody
import AnalyzerBridge.Proofs.Run.Registry

/-! What a request changes of the registered runs and of their sides. -/
namespace AnalyzerBridge.Run.Custody

variable {α : Type} {c : Custody α} {key : Key} {e : Registration α} {f : Pair → Pair}
  {gone entries : List (Registration α)} {sides : List Pair} {i : Nat} {p : Pair}

theorem isCancelled_abort (p : Pair) : (abort p).isCancelled = true := by
  simp [abort, Pair.drop, Pair.isCancelled]

theorem isCancelled_drop (p : Pair) : p.drop.isCancelled = true := by
  simp [Pair.drop, Pair.isCancelled]

@[simp] theorem length_upon : (upon f entries sides).length = sides.length := by
  induction entries generalizing sides with
  | nil => rfl
  | cons e entries ih => exact ih.trans (List.length_modify ..)

theorem getElem?_upon_of_not (h : ∀ e ∈ entries, e.run ≠ i) :
    (upon f entries sides)[i]? = sides[i]? := by
  induction entries generalizing sides with
  | nil => rfl
  | cons e entries ih =>
    have he := h e List.mem_cons_self
    exact (ih fun a ha => h a (List.mem_cons_of_mem e ha)).trans (List.getElem?_modify_ne _ _ he)

/-- A run whose side is let go is cancelled. -/
theorem isCancelled_of_upon (hf : ∀ p, (f p).isCancelled = true) (he : e ∈ entries)
    (h : (upon f entries sides)[e.run]? = some p) : p.isCancelled = true := by
  induction entries generalizing sides e with
  | nil => cases he
  | cons a entries ih =>
    by_cases hlater : ∃ b ∈ entries, b.run = e.run
    · obtain ⟨b, hb, hrun⟩ := hlater
      exact ih hb (hrun ▸ h)
    · have hnot : ∀ b ∈ entries, b.run ≠ e.run := fun b hb hrun => hlater ⟨b, hb, hrun⟩
      rcases List.mem_cons.1 he with rfl | he
      · have hside := (getElem?_upon_of_not hnot).symm.trans h
        rw [List.getElem?_modify_eq] at hside
        obtain ⟨q, _, rfl⟩ := Option.map_eq_some_iff.1 hside
        exact hf q
      · exact absurd rfl (hnot e he)

/-- What every request keeps: one run for each key, one key for each run, and a run's side is open
exactly while the run is registered. -/
structure Sound (c : Custody α) : Prop where
  keys : (c.registry.entries.map (·.key)).Nodup
  runs : (c.registry.entries.map (·.run)).Nodup
  known : ∀ e ∈ c.registry.entries, e.run < c.sides.length
  cancelled : ∀ i p, c.sides[i]? = some p →
    (p.isCancelled = false ↔ ∃ e ∈ c.registry.entries, e.run = i)

theorem sound_empty : (empty : Custody α).Sound := by
  constructor <;> simp [empty, Registry.empty]

/-- Some runs are let go, and the rest stays. -/
theorem sound_upon (h : c.Sound) (hf : ∀ p, (f p).isCancelled = true) {rest : Registry α}
    (hperm : (gone ++ rest.entries).Perm c.registry.entries) :
    Sound ⟨rest, upon f gone c.sides⟩ := by
  have hkeys := (hperm.map (·.key)).nodup_iff.2 h.keys
  have hruns := (hperm.map (·.run)).nodup_iff.2 h.runs
  rw [List.map_append] at hkeys hruns
  have hmem (e) : e ∈ c.registry.entries ↔ e ∈ gone ∨ e ∈ rest.entries := by
    rw [← hperm.mem_iff, List.mem_append]
  refine ⟨hkeys.of_append_right, hruns.of_append_right, ?_, ?_⟩
  · intro e he
    rw [length_upon]
    exact h.known e ((hmem e).2 (.inr he))
  · intro i p hp
    by_cases hgone : ∃ e ∈ gone, e.run = i
    · obtain ⟨e, he, rfl⟩ := hgone
      have hcancelled := isCancelled_of_upon hf he hp
      refine iff_of_false (by simp [hcancelled]) ?_
      rintro ⟨a, ha, hrun⟩
      have hdisjoint := List.disjoint_of_nodup_append hruns
      exact hdisjoint (List.mem_map_of_mem he) (hrun ▸ List.mem_map_of_mem ha)
    · have hnot : ∀ e ∈ gone, e.run ≠ i := fun e he hrun => hgone ⟨e, he, hrun⟩
      have hside := (getElem?_upon_of_not hnot).symm.trans hp
      rw [h.cancelled i p hside]
      constructor
      · rintro ⟨e, he, rfl⟩
        rcases (hmem e).1 he with he | he
        · exact absurd rfl (hnot e he)
        · exact ⟨e, he, rfl⟩
      · rintro ⟨e, he, rfl⟩
        exact ⟨e, (hmem e).2 (.inr he), rfl⟩

theorem sound_evict (h : c.Sound) : (c.evict key).Sound :=
  sound_upon h isCancelled_abort (Registry.perm_erase h.keys key)

theorem sound_remove (h : c.Sound) : (c.remove key).1.Sound :=
  sound_evict h

theorem sound_cancelAll (h : c.Sound) : c.cancelAll.1.Sound :=
  sound_upon h isCancelled_abort (by simp)

theorem complete_of_current {generation : Nat} (h : c.registry.isCurrent key generation = true) :
    c.complete key generation = (⟨c.registry.erase key,
      upon Pair.drop (c.registry.find? key).toList c.sides⟩,
      (c.registry.find? key).map (·.context)) := by
  simp [complete, Registry.complete, h]

theorem complete_of_not_current {generation : Nat}
    (h : c.registry.isCurrent key generation = false) : c.complete key generation = (c, none) := by
  simp [complete, Registry.complete, h, upon]

theorem sound_complete {generation : Nat} (h : c.Sound) : (c.complete key generation).1.Sound := by
  cases hc : c.registry.isCurrent key generation with
  | true =>
    rw [complete_of_current hc]
    exact sound_upon h isCancelled_drop (Registry.perm_erase h.keys key)
  | false =>
    rw [complete_of_not_current hc]
    exact h

/-- A run starts for a key that has none. -/
theorem sound_begin (h : c.Sound) {generation issued : Nat} {context : α}
    (hkey : ∀ e ∈ c.registry.entries, e.key ≠ key) :
    Sound ⟨⟨c.registry.entries ++ [⟨key, generation, c.sides.length, context⟩], issued⟩,
      c.sides ++ [.begin]⟩ := by
  constructor
  · rw [List.map_append]
    apply List.Nodup.append h.keys (List.nodup_singleton _)
    intro k hk hkey'
    obtain ⟨e, he, rfl⟩ := List.mem_map.1 hk
    exact hkey e he (List.mem_singleton.1 hkey')
  · rw [List.map_append]
    apply List.Nodup.append h.runs (List.nodup_singleton _)
    intro run hrun hlast
    obtain ⟨e, he, rfl⟩ := List.mem_map.1 hrun
    exact Nat.ne_of_lt (h.known e he) (List.mem_singleton.1 hlast)
  · intro e he
    rw [List.length_append, List.length_singleton]
    rcases List.mem_append.1 he with he | he
    · exact Nat.lt_succ_of_lt (h.known e he)
    · rw [List.mem_singleton.1 he]
      exact Nat.lt_succ_self _
  · intro i p hp
    rcases Nat.lt_trichotomy i c.sides.length with hi | rfl | hi
    · rw [List.getElem?_append_left hi] at hp
      rw [h.cancelled i p hp]
      constructor
      · rintro ⟨e, he, rfl⟩
        exact ⟨e, List.mem_append_left _ he, rfl⟩
      · rintro ⟨e, he, rfl⟩
        rcases List.mem_append.1 he with he | he
        · exact ⟨e, he, rfl⟩
        · rw [List.mem_singleton.1 he] at hi
          exact absurd hi (Nat.lt_irrefl _)
    · rw [List.getElem?_concat_length] at hp
      obtain rfl := Option.some.inj hp
      exact iff_of_true rfl ⟨_, List.mem_append_right _ (List.mem_singleton_self _), rfl⟩
    · rw [List.getElem?_eq_none (by rw [List.length_append]; exact hi)] at hp
      cases hp

section
variable {context : α} {starts : Nat → List Pair → Bool}

theorem replace_of_starts (h : starts c.registry.next (c.evict key).sides = true) :
    c.replace key context starts =
      (⟨c.registry.replace key context (some (c.evict key).sides.length),
        (c.evict key).sides ++ [.begin]⟩, .registered c.registry.next) :=
  if_pos h

theorem replace_of_not_starts (h : starts c.registry.next (c.evict key).sides = false) :
    c.replace key context starts =
      (⟨c.registry.replace key context none, (c.evict key).sides⟩, .refused c.registry.next) :=
  if_neg (Bool.eq_false_iff.1 h)

theorem sound_replace (h : c.Sound) : (c.replace key context starts).1.Sound := by
  have hrest : (c.evict key).Sound := sound_evict h
  cases hst : starts c.registry.next (c.evict key).sides with
  | true =>
    rw [replace_of_starts hst]
    exact sound_begin hrest fun e he => (Registry.mem_erase.1 he).2
  | false =>
    rw [replace_of_not_starts hst]
    exact ⟨hrest.keys, hrest.runs, hrest.known, hrest.cancelled⟩

end

theorem sound_serve (h : c.Sound) (r : Request α) : (c.serve r).1.Sound := by
  cases r with
  | replace key context starts => exact sound_replace h
  | complete key generation => exact sound_complete h
  | remove key => exact sound_remove h
  | cancelAll => exact sound_cancelAll h

def Request.isReplace : Request α → Bool
  | .replace .. => true
  | _ => false

/-- Does a request affect a key, by its answer? -/
def Affects (r : Request α) (a : Answer α) (key : Key) : Prop :=
  match r with
  | .replace k _ _ => k = key
  | .complete k _ => k = key ∧ ∃ context, a = .completed (some context)
  | .remove k => k = key
  | .cancelAll => True

theorem isCurrent_eq_true (h : c.Sound) {generation : Nat} :
    c.registry.isCurrent key generation = true ↔
      ∃ e ∈ c.registry.entries, e.key = key ∧ e.generation = generation := by
  rw [Registry.isCurrent, Option.any_eq_true]
  simp only [Registry.find?_eq_some h.keys, beq_iff_eq, and_assoc]

/-- What is registered after a request: what was and is not affected, and a run that has started. -/
theorem mem_serve (h : c.Sound) (r : Request α) : e ∈ (c.serve r).1.registry.entries ↔
    (e ∈ c.registry.entries ∧ ¬ Affects r (c.serve r).2 e.key) ∨
      (∃ starts, r = .replace e.key e.context starts) ∧ (c.serve r).2 = .registered e.generation ∧
        e.run = c.sides.length := by
  cases r with
  | replace key context starts =>
    have hold : ¬ Affects (.replace key context starts) (c.replace key context starts).2 e.key ↔
        e.key ≠ key := not_congr eq_comm
    rw [serve, hold]
    cases hst : starts c.registry.next (c.evict key).sides with
    | true =>
      rw [replace_of_starts hst, Registry.mem_replace]
      refine or_congr_right ?_
      constructor
      · rintro ⟨_, hrun, rfl⟩
        obtain rfl := Option.some.inj hrun
        exact ⟨⟨starts, rfl⟩, rfl, length_upon⟩
      · rintro ⟨⟨_, hr⟩, hg, hrun⟩
        cases e
        cases hr
        cases hg
        cases hrun
        exact ⟨c.sides.length, congrArg some length_upon, rfl⟩
    | false =>
      rw [replace_of_not_starts hst, Registry.mem_replace]
      refine or_congr_right (iff_of_false ?_ ?_)
      · rintro ⟨_, hrun, _⟩
        cases hrun
      · rintro ⟨_, hg, _⟩
        cases hg
  | complete key generation =>
    refine Iff.trans ?_ (or_iff_left ?_).symm
    · cases hc : c.registry.isCurrent key generation with
      | true =>
        obtain ⟨a, ha, rfl, rfl⟩ := (isCurrent_eq_true h).1 hc
        simp [serve, complete_of_current hc, Registry.find?_of_mem h.keys ha, Affects, eq_comm]
      | false =>
        simp [serve, complete_of_not_current hc, Affects]
    · rintro ⟨⟨_, hr⟩, _⟩
      cases hr
  | remove key =>
    simp [serve, remove, evict, Affects, eq_comm]
  | cancelAll => simp [serve, cancelAll, Affects]

theorem issued_serve (r : Request α) :
    (c.serve r).1.registry.issued = c.registry.issued + r.isReplace.toNat := by
  cases r with
  | replace key context starts =>
    cases hst : starts c.registry.next (c.evict key).sides with
    | true => rw [serve, replace_of_starts hst]; rfl
    | false => rw [serve, replace_of_not_starts hst]; rfl
  | complete key generation => exact Registry.issued_complete
  | remove key => rfl
  | cancelAll => rfl

theorem answer_of_registered {key : Key} {context : α} {starts : Nat → List Pair → Bool}
    {generation : Nat}
    (h : (c.serve (.replace key context starts)).2 = .registered generation) :
    generation = c.registry.next ∧
      (c.serve (.replace key context starts)).1.sides = (c.evict key).sides ++ [.begin] := by
  rw [serve] at h ⊢
  cases hst : starts c.registry.next (c.evict key).sides with
  | true =>
    rw [replace_of_starts hst] at h ⊢
    cases h
    exact ⟨rfl, rfl⟩
  | false =>
    rw [replace_of_not_starts hst] at h
    cases h

theorem length_sides_le (r : Request α) : c.sides.length ≤ (c.serve r).1.sides.length := by
  have hrest (key : Key) : (c.evict key).sides.length = c.sides.length := length_upon
  cases r with
  | replace key context starts =>
    cases hst : starts c.registry.next (c.evict key).sides with
    | true =>
      rw [serve, replace_of_starts hst, List.length_append, hrest]
      exact Nat.le_succ _
    | false =>
      rw [serve, replace_of_not_starts hst]
      exact Nat.le_of_eq (hrest key).symm
  | complete key generation => exact Nat.le_of_eq length_upon.symm
  | remove key => exact Nat.le_of_eq (hrest key).symm
  | cancelAll => exact Nat.le_of_eq length_upon.symm

theorem sides_evict (h : ∀ e ∈ c.registry.entries, e.run = i → e.key ≠ key) :
    (c.evict key).sides[i]? = c.sides[i]? := by
  apply getElem?_upon_of_not
  intro e he hrun
  have hf := Option.mem_toList.1 he
  exact h e (Registry.mem_of_find? hf) hrun (Registry.key_of_find? hf)

/-- A request touches the side of no run but of those whose key it affects. -/
theorem sides_serve (h : c.Sound) (r : Request α) (hi : i < c.sides.length)
    (hnot : ∀ e ∈ c.registry.entries, e.run = i → ¬ Affects r (c.serve r).2 e.key) :
    (c.serve r).1.sides[i]? = c.sides[i]? := by
  cases r with
  | replace key context starts =>
    have hrest : (c.evict key).sides[i]? = c.sides[i]? :=
      sides_evict fun e he hrun hk => hnot e he hrun hk.symm
    cases hst : starts c.registry.next (c.evict key).sides with
    | true =>
      rw [serve, replace_of_starts hst,
        List.getElem?_append_left (by rw [evict, length_upon]; exact hi)]
      exact hrest
    | false =>
      rw [serve, replace_of_not_starts hst]
      exact hrest
  | complete key generation =>
    cases hc : c.registry.isCurrent key generation with
    | true =>
      obtain ⟨a, ha, rfl, rfl⟩ := (isCurrent_eq_true h).1 hc
      have hfind := Registry.find?_of_mem h.keys ha
      simp only [serve, complete_of_current hc, hfind] at hnot ⊢
      apply getElem?_upon_of_not
      intro e he hrun
      obtain rfl := List.mem_singleton.1 he
      exact hnot e ha hrun ⟨rfl, _, rfl⟩
    | false =>
      rw [serve, complete_of_not_current hc]
      rfl
  | remove key => exact sides_evict fun e he hrun hk => hnot e he hrun hk.symm
  | cancelAll =>
    apply getElem?_upon_of_not
    intro e he hrun
    exact hnot e he hrun trivial

/-- A new run of a key finds the earlier runs of the key cancelled. -/
theorem isCancelled_offer (h : c.Sound) (hkey : ∀ e ∈ c.registry.entries, e.run = i → e.key = key)
    (hp : (c.offer key).2[i]? = some p) : p.isCancelled = true := by
  have hrest : (c.evict key).Sound := sound_evict h
  have hiff := hrest.cancelled i p hp
  cases hc : p.isCancelled with
  | true => rfl
  | false =>
    obtain ⟨e, he, hrun⟩ := hiff.1 hc
    obtain ⟨he, hne⟩ := Registry.mem_erase.1 he
    exact absurd (hkey e he hrun) hne

end AnalyzerBridge.Run.Custody
