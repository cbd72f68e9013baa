import AnalyzerBridge.Proofs.Run.Custody
import Mathlib.Data.Set.Card

/-! Requests to a registry, one after the other, and what it shows by them. A run is held from the
request that registers it until a request affects its key. -/
namespace AnalyzerBridge.Run

open Custody

/-- What is asked of a registry, for each of its moments. -/
structure Ledger (α : Type) where
  requests : Nat → Request α

namespace Ledger

variable {α : Type} (h : Ledger α)

def state : Nat → Custody α
  | 0 => .empty
  | n + 1 => ((state n).serve (h.requests n)).1

def answer (n : Nat) : Answer α :=
  ((h.state n).serve (h.requests n)).2

/-- How often a new run was asked for before a moment. -/
def replaces (n : Nat) : Nat :=
  (List.range n).countP fun m => (h.requests m).isReplace

def Registers (m : Nat) (key : Key) (generation : Nat) (context : α) : Prop :=
  ∃ starts, h.requests m = .replace key context starts ∧ h.answer m = .registered generation

/-- The number of the run that a request registers. -/
def run (m : Nat) : Nat :=
  (h.state m).sides.length

def Touches (n : Nat) (key : Key) : Prop :=
  Affects (h.requests n) (h.answer n) key

/-- No request between two moments affects a key. -/
def Stands (m n : Nat) (key : Key) : Prop :=
  ∀ i, m < i → i < n → ¬ h.Touches i key

/-- The last request before a moment that affects a key has registered a run. -/
def Holds (n : Nat) (key : Key) (generation : Nat) (context : α) : Prop :=
  ∃ m < n, h.Registers m key generation context ∧ h.Stands m n key

variable {h} {m n k : Nat} {key key' : Key} {generation generation' : Nat} {context context' : α}
  {e : Registration α}

theorem sound_state (n : Nat) : (h.state n).Sound := by
  induction n with
  | zero => exact sound_empty
  | succ n ih => exact sound_serve ih (h.requests n)

/-! ## Generations -/

theorem replaces_succ (n : Nat) :
    h.replaces (n + 1) = h.replaces n + (h.requests n).isReplace.toNat := by
  simp [replaces, List.range_succ, List.countP_singleton, Bool.toNat, Bool.cond_eq_ite]

theorem issued_state (n : Nat) : (h.state n).registry.issued = h.replaces n := by
  induction n with
  | zero => rfl
  | succ n ih => rw [state, issued_serve, ih, replaces_succ]

theorem replaces_mono (hmn : m ≤ n) : h.replaces m ≤ h.replaces n := by
  induction hmn with
  | refl => exact Nat.le_refl _
  | step _ ih =>
    rw [replaces_succ]
    exact Nat.le_add_right_of_le ih

theorem replaces_lt (hmn : m < n) (hr : (h.requests m).isReplace = true) :
    h.replaces m < h.replaces n := by
  have hle := replaces_mono (h := h) (show m + 1 ≤ n from hmn)
  rw [replaces_succ, hr] at hle
  exact hle

theorem isReplace_of_registers (hr : h.Registers m key generation context) :
    (h.requests m).isReplace = true := by
  obtain ⟨starts, hr, _⟩ := hr
  rw [hr]
  rfl

theorem generation_of_registers (hr : h.Registers m key generation context) :
    generation = h.replaces m + 1 := by
  obtain ⟨starts, hr, ha⟩ := hr
  rw [answer, hr] at ha
  rw [(answer_of_registered ha).1, Registry.next, issued_state]

/-- Every registration has a generation of its own. -/
theorem registers_unique (hm : h.Registers m key generation context)
    (hn : h.Registers n key' generation context') : m = n := by
  have heq : h.replaces m = h.replaces n :=
    Nat.succ.inj ((generation_of_registers hm).symm.trans (generation_of_registers hn))
  rcases Nat.lt_trichotomy m n with hmn | hmn | hmn
  · exact absurd heq (Nat.ne_of_lt (replaces_lt hmn (isReplace_of_registers hm)))
  · exact hmn
  · exact absurd heq.symm (Nat.ne_of_lt (replaces_lt hmn (isReplace_of_registers hn)))

/-! ## Registrations -/

theorem length_sides_mono (hmn : m ≤ n) : (h.state m).sides.length ≤ (h.state n).sides.length := by
  induction hmn with
  | refl => exact Nat.le_refl _
  | step _ ih => exact Nat.le_trans ih (length_sides_le _)

theorem run_lt (hr : h.Registers m key generation context) (hmn : m < n) :
    h.run m < (h.state n).sides.length := by
  have hle := length_sides_mono (h := h) (show m + 1 ≤ n from hmn)
  obtain ⟨starts, hr, ha⟩ := hr
  rw [answer, hr] at ha
  rw [state, hr, (answer_of_registered ha).2, List.length_append, evict, length_upon] at hle
  exact hle

/-- Every registration has a run of its own. -/
theorem run_injective (hm : h.Registers m key generation context)
    (hn : h.Registers n key' generation' context') (hrun : h.run m = h.run n) : m = n := by
  rcases Nat.lt_trichotomy m n with hmn | hmn | hmn
  · exact absurd hrun (Nat.ne_of_lt (run_lt hm hmn))
  · exact hmn
  · exact absurd hrun.symm (Nat.ne_of_lt (run_lt hn hmn))

theorem mem_state (n : Nat) : e ∈ (h.state n).registry.entries ↔
    ∃ m < n, h.Registers m e.key e.generation e.context ∧ e.run = h.run m ∧ h.Stands m n e.key := by
  induction n with
  | zero => simp [state, empty, Registry.empty]
  | succ n ih =>
    rw [state, mem_serve (sound_state n), ih]
    constructor
    · rintro (⟨⟨m, hmn, hr, hrun, hstands⟩, hnot⟩ | ⟨⟨starts, hr⟩, hanswer, hrun⟩)
      · refine ⟨m, Nat.lt_succ_of_lt hmn, hr, hrun, ?_⟩
        intro i hmi hin
        rcases Nat.lt_succ_iff_lt_or_eq.1 hin with hin | rfl
        · exact hstands i hmi hin
        · exact hnot
      · exact ⟨n, Nat.lt_succ_self n, ⟨starts, hr, hanswer⟩, hrun, fun i hmi hin => by omega⟩
    · rintro ⟨m, hmn, hr, hrun, hstands⟩
      rcases Nat.lt_succ_iff_lt_or_eq.1 hmn with hmn | rfl
      · refine .inl ⟨⟨m, hmn, hr, hrun, ?_⟩, hstands n hmn (Nat.lt_succ_self n)⟩
        intro i hmi hin
        exact hstands i hmi (Nat.lt_succ_of_lt hin)
      · obtain ⟨starts, hr, hanswer⟩ := hr
        exact .inr ⟨⟨starts, hr⟩, hanswer, hrun⟩

theorem holds_iff (n : Nat) : h.Holds n key generation context ↔
    ∃ e ∈ (h.state n).registry.entries, e.key = key ∧ e.generation = generation ∧
      e.context = context := by
  constructor
  · rintro ⟨m, hmn, hr, hstands⟩
    exact ⟨⟨key, generation, h.run m, context⟩, (mem_state n).2 ⟨m, hmn, hr, rfl, hstands⟩, rfl,
      rfl, rfl⟩
  · rintro ⟨e, he, rfl, rfl, rfl⟩
    obtain ⟨m, hmn, hr, _, hstands⟩ := (mem_state n).1 he
    exact ⟨m, hmn, hr, hstands⟩

theorem mem_entries_of_registers (hr : h.Registers m key generation context)
    (he : e ∈ (h.state n).registry.entries) (hrun : e.run = h.run m) : e.key = key := by
  obtain ⟨k, hkn, hk, hrun', _⟩ := (mem_state n).1 he
  obtain rfl := run_injective hk hr (hrun'.symm.trans hrun)
  obtain ⟨_, hk, _⟩ := hk
  obtain ⟨_, hr, _⟩ := hr
  cases hk.symm.trans hr
  rfl

/-! ## What a registry shows -/

/-- What a registry shows at a moment, by the requests before it and by their answers alone. -/
structure Faithful (h : Ledger α) (n : Nat) : Prop where
  /-- Every new run is offered the next generation. -/
  offered : ∀ key, ((h.state n).offer key).1 = h.replaces n + 1
  /-- So a later offer is greater, though the earlier run may not have started. -/
  rising : ∀ m < n, (h.requests m).isReplace = true →
    ∀ key key', ((h.state m).offer key).1 < ((h.state n).offer key').1
  /-- A new run finds the earlier runs of its key cancelled. -/
  evicted : ∀ m < n, ∀ key generation context, h.Registers m key generation context →
    ∃ p, ((h.state n).offer key).2[h.run m]? = some p ∧ p.isCancelled = true
  /-- It is registered if it starts on that offer. -/
  answered : ∀ key context starts, h.requests n = .replace key context starts →
    h.answer n = if starts ((h.state n).offer key).1 ((h.state n).offer key).2
      then .registered ((h.state n).offer key).1 else .refused ((h.state n).offer key).1
  /-- A completion hands out the context of the run that is held with its generation. -/
  completed : ∀ key generation context,
    ((h.state n).complete key generation).2 = some context ↔ h.Holds n key generation context
  /-- Any other completion changes nothing. -/
  stale : ∀ key generation, (∀ context, ¬ h.Holds n key generation context) →
    (h.state n).complete key generation = (h.state n, none)
  /-- What was handed out once is not handed out again. -/
  once : ∀ m < n, ∀ key generation context, h.requests m = .complete key generation →
    h.answer m = .completed (some context) → ∀ context', ¬ h.Holds n key generation context'
  current : ∀ key generation, (h.state n).registry.isCurrent key generation = true ↔
    ∃ context, h.Holds n key generation context
  contains : ∀ key, (h.state n).registry.contains key = true ↔
    ∃ generation context, h.Holds n key generation context
  size : (h.state n).registry.size =
    {key | ∃ generation context, h.Holds n key generation context}.ncard
  isEmpty : (h.state n).registry.isEmpty = true ↔
    ∀ key generation context, ¬ h.Holds n key generation context
  removed : ∀ key, ((h.state n).remove key).2 = true ↔
    ∃ generation context, h.Holds n key generation context
  cancelled : (h.state n).cancelAll.2 =
    {key | ∃ generation context, h.Holds n key generation context}.ncard
  /-- A run's side is open exactly while the run is held. -/
  sides : ∀ m < n, ∀ key generation context, h.Registers m key generation context →
    ∃ p, (h.state n).sides[h.run m]? = some p ∧ (p.isCancelled = false ↔ h.Stands m n key)
  /-- A request that does not affect a key leaves its registration and the sides of its runs. -/
  apart : ∀ key, ¬ h.Touches n key →
    (h.state (n + 1)).registry.find? key = (h.state n).registry.find? key ∧
      ∀ m < n, ∀ generation context, h.Registers m key generation context →
        (h.state (n + 1)).sides[h.run m]? = (h.state n).sides[h.run m]?

theorem offered_eq (n : Nat) (key : Key) : ((h.state n).offer key).1 = h.replaces n + 1 := by
  rw [offer, Registry.next, issued_state]

theorem current_iff (n : Nat) : (h.state n).registry.isCurrent key generation = true ↔
    ∃ context, h.Holds n key generation context := by
  rw [isCurrent_eq_true (sound_state n)]
  constructor
  · rintro ⟨e, he, rfl, rfl⟩
    exact ⟨e.context, (holds_iff n).2 ⟨e, he, rfl, rfl, rfl⟩⟩
  · rintro ⟨context, hholds⟩
    obtain ⟨e, he, hkey, hgeneration, _⟩ := (holds_iff n).1 hholds
    exact ⟨e, he, hkey, hgeneration⟩

theorem contains_iff (n : Nat) : (h.state n).registry.contains key = true ↔
    ∃ generation context, h.Holds n key generation context := by
  rw [Registry.contains, Option.isSome_iff_exists]
  constructor
  · rintro ⟨e, hfind⟩
    obtain ⟨he, rfl⟩ := (Registry.find?_eq_some (sound_state n).keys).1 hfind
    exact ⟨e.generation, e.context, (holds_iff n).2 ⟨e, he, rfl, rfl, rfl⟩⟩
  · rintro ⟨generation, context, hholds⟩
    obtain ⟨e, he, hkey, _⟩ := (holds_iff n).1 hholds
    exact ⟨e, (Registry.find?_eq_some (sound_state n).keys).2 ⟨he, hkey⟩⟩

theorem size_eq (n : Nat) : (h.state n).registry.size =
    {key | ∃ generation context, h.Holds n key generation context}.ncard := by
  have hset : {key | ∃ generation context, h.Holds n key generation context} =
      ((h.state n).registry.entries.map (·.key)).toFinset := by
    ext key
    rw [List.coe_toFinset, Set.mem_ofPred_eq, Set.mem_ofPred_eq, List.mem_map]
    constructor
    · rintro ⟨generation, context, hholds⟩
      obtain ⟨e, he, hkey, _⟩ := (holds_iff n).1 hholds
      exact ⟨e, he, hkey⟩
    · rintro ⟨e, he, rfl⟩
      exact ⟨e.generation, e.context, (holds_iff n).2 ⟨e, he, rfl, rfl, rfl⟩⟩
  rw [hset, Set.ncard_coe_finset, List.toFinset_card_of_nodup (sound_state n).keys,
    List.length_map, Registry.size]

theorem completed_iff (n : Nat) : ((h.state n).complete key generation).2 = some context ↔
    h.Holds n key generation context := by
  cases hc : (h.state n).registry.isCurrent key generation with
  | true =>
    obtain ⟨e, he, rfl, rfl⟩ := (isCurrent_eq_true (sound_state n)).1 hc
    rw [complete_of_current hc, Registry.find?_of_mem (sound_state n).keys he, holds_iff]
    constructor
    · intro hcontext
      exact ⟨e, he, rfl, rfl, Option.some.inj hcontext⟩
    · rintro ⟨a, ha, hkey, _, rfl⟩
      rw [Registry.eq_of_key (sound_state n).keys ha he hkey]
      rfl
  | false =>
    rw [complete_of_not_current hc]
    refine iff_of_false nofun fun hholds => ?_
    rw [(current_iff n).2 ⟨context, hholds⟩] at hc
    cases hc

/-- A completion that hands a context out ends the hold on the run. -/
theorem not_holds_of_completed (hmn : m < n) (hr : h.requests m = .complete key generation)
    (ha : h.answer m = .completed (some context)) (hn : h.Holds n key generation context') :
    False := by
  have htouches : h.Touches m key := by
    rw [Touches, hr]
    exact ⟨rfl, context, ha⟩
  rw [answer, hr] at ha
  have hm : h.Holds m key generation context := (completed_iff m).1 (Answer.completed.inj ha)
  obtain ⟨i, him, hi, _⟩ := hm
  obtain ⟨j, hjn, hj, hstands⟩ := hn
  obtain rfl := registers_unique hi hj
  exact hstands m him hmn htouches

theorem open_iff (hmn : m < n) (hr : h.Registers m key generation context) :
    ∃ p, (h.state n).sides[h.run m]? = some p ∧ (p.isCancelled = false ↔ h.Stands m n key) := by
  have hlt := run_lt hr hmn
  refine ⟨_, List.getElem?_eq_getElem hlt, ?_⟩
  rw [(sound_state n).cancelled _ _ (List.getElem?_eq_getElem hlt)]
  constructor
  · rintro ⟨e, he, hrun⟩
    obtain ⟨k, hkn, hk, hrun', hstands⟩ := (mem_state n).1 he
    obtain rfl := run_injective hk hr (hrun'.symm.trans hrun)
    exact mem_entries_of_registers hr he hrun ▸ hstands
  · intro hstands
    exact ⟨⟨key, generation, h.run m, context⟩, (mem_state n).2 ⟨m, hmn, hr, rfl, hstands⟩, rfl⟩

theorem evicted_of_registers (hmn : m < n) (hr : h.Registers m key generation context) :
    ∃ p, ((h.state n).offer key).2[h.run m]? = some p ∧ p.isCancelled = true := by
  have hlt : h.run m < ((h.state n).offer key).2.length := by
    rw [offer, evict, length_upon]
    exact run_lt hr hmn
  refine ⟨_, List.getElem?_eq_getElem hlt, ?_⟩
  exact isCancelled_offer (sound_state n) (fun e he hrun => mem_entries_of_registers hr he hrun)
    (List.getElem?_eq_getElem hlt)

theorem find?_succ (hnot : ¬ h.Touches n key) :
    (h.state (n + 1)).registry.find? key = (h.state n).registry.find? key := by
  ext e
  rw [Registry.find?_eq_some (sound_state (n + 1)).keys,
    Registry.find?_eq_some (sound_state n).keys, state, mem_serve (sound_state n)]
  constructor
  · rintro ⟨⟨he, _⟩ | ⟨⟨starts, hr⟩, _⟩, rfl⟩
    · exact ⟨he, rfl⟩
    · rw [Touches, hr] at hnot
      exact absurd rfl hnot
  · rintro ⟨he, rfl⟩
    exact ⟨.inl ⟨he, hnot⟩, rfl⟩

theorem sides_succ (hnot : ¬ h.Touches n key) (hmn : m < n)
    (hr : h.Registers m key generation context) :
    (h.state (n + 1)).sides[h.run m]? = (h.state n).sides[h.run m]? := by
  apply sides_serve (sound_state n) _ (run_lt hr hmn)
  intro e he hrun
  rw [mem_entries_of_registers hr he hrun]
  exact hnot

/-- A registry shows what its requests and their answers say. Every new run is offered a generation
of its own; a completion hands a context out exactly if its run is held, and so once; what is
current, how many runs there are and what is evicted agree with the runs that are held; and just
these have open sides. -/
theorem faithful (h : Ledger α) (n : Nat) : h.Faithful n where
  offered := offered_eq n
  rising m hmn hr key key' := by
    rw [offered_eq, offered_eq]
    exact Nat.succ_lt_succ (replaces_lt hmn hr)
  evicted m hmn key generation context hr := evicted_of_registers hmn hr
  answered key context starts hr := by
    rw [answer, hr, serve, replace]
    dsimp only
    split <;> rfl
  completed key generation context := completed_iff n
  stale key generation hnot := by
    cases hc : (h.state n).registry.isCurrent key generation with
    | true =>
      obtain ⟨context, hholds⟩ := (current_iff n).1 hc
      exact absurd hholds (hnot context)
    | false => exact complete_of_not_current hc
  once m hmn key generation context hr ha context' := not_holds_of_completed hmn hr ha
  current key generation := current_iff n
  contains key := contains_iff n
  size := size_eq n
  isEmpty := by
    rw [Registry.isEmpty, List.isEmpty_iff, List.eq_nil_iff_forall_not_mem]
    constructor
    · intro hnone key generation context hholds
      obtain ⟨e, he, _⟩ := (holds_iff n).1 hholds
      exact hnone e he
    · intro hnone e he
      exact hnone _ _ _ ((holds_iff n).2 ⟨e, he, rfl, rfl, rfl⟩)
  removed key := contains_iff n
  cancelled := size_eq n
  sides m hmn key generation context hr := open_iff hmn hr
  apart key hnot := ⟨find?_succ hnot, fun m hmn generation context hr => sides_succ hnot hmn hr⟩

/-- Two documents; the third run takes the place of the first, if it finds that one cancelled. -/
def relay : Ledger String where
  requests
    | 0 => .replace ⟨"a", .diagnostics⟩ "first" fun _ _ => true
    | 1 => .replace ⟨"b", .diagnostics⟩ "other" fun _ _ => true
    | 2 => .replace ⟨"a", .diagnostics⟩ "second" fun _ sides => sides[0]?.any Pair.isCancelled
    | 3 => .complete ⟨"a", .diagnostics⟩ 1
    | _ => .cancelAll

theorem faithful_relay : relay.Holds 3 ⟨"a", .diagnostics⟩ 3 "second" ∧
    (∀ context, ¬ relay.Holds 3 ⟨"a", .diagnostics⟩ 1 context) ∧
    {key | ∃ generation context, relay.Holds 4 key generation context}.ncard = 2 := by
  refine ⟨((faithful relay 3).completed _ _ _).1 rfl, ?_, ((faithful relay 4).size).symm⟩
  intro context hholds
  have hcurrent := ((faithful relay 3).current ⟨"a", .diagnostics⟩ 1).2 ⟨context, hholds⟩
  exact absurd hcurrent (by decide)

end Ledger

end AnalyzerBridge.Run
