import AnalyzerBridge.Proofs.Lists
import AnalyzerBridge.Proofs.Service.Views

/-! A system beside another in which only what concerns one key has happened. Each event of the
first leaves one event for the second, or none, and the two stay alike for the key. -/
namespace AnalyzerBridge

open Run

namespace System

/-- What remains of an event when only one key counts. `t` is the system in which what remains has
happened: it has runs of its own for those of the key, and their ends are in its own places. -/
def keep (key : Key) (s t : System) : Event → Option Event
  | .sent c => if c.concerns key then some (.sent c) else none
  | .taken starts => if s.commands.head?.any (·.concerns key) then some (.taken starts) else none
  | .hungUp => if s.commands.isEmpty then some .hungUp else none
  | .ended run o =>
    (((s.live.filter (·.key = key)).zip t.live).find? (·.1.run = run)).map fun p => .ended p.2.run o
  | .attended place =>
    if s.ends[place]?.any (·.key = key) then
      some (.attended ((s.ends.take place).countP (·.key = key)))
    else none

/-- The step that remains of an event. -/
def follow (key : Key) (s t : System) (e : Event) : System × List Effect :=
  match s.keep key t e with
  | none => (t, [])
  | some e => t.step e

/-- What holds of every system. -/
structure Tidy (s : System) : Prop where
  sound : s.service.Sound
  idle : s.service.running = false → s.commands = []
  runs : (s.live.map (·.run)).Nodup
  live : ∀ a ∈ s.live, a.generation ≤ s.service.issued a.key.purpose
  ends : ∀ d ∈ s.ends, d.generation ≤ s.service.issued d.key.purpose

/-- Two systems are alike for a key: their services are, and the second has just the commands that
concern the key, and for the runs of the key and their ends such as are current in both or in
none. -/
structure Alike (key : Key) (s t : System) : Prop where
  service : Service.Like key s.service t.service
  commands : t.commands = s.commands.filter (·.concerns key)
  live : List.Forall₂ (fun a b => b.key = key ∧
    Service.Twins key s.service t.service a.generation b.generation)
    (s.live.filter (·.key = key)) t.live
  ends : List.Forall₂ (fun d d' => d'.key = key ∧ d'.outcome = d.outcome ∧
    Service.Twins key s.service t.service d.generation d'.generation)
    (s.ends.filter (·.key = key)) t.ends

/-- Only answers to the hovers of a key's document are seen, whether they wait or are queued. -/
structure Belongs (key : Key) (view : Effect → Bool) (s : System) : Prop where
  service : s.service.Belongs key view
  commands : ∀ c ∈ s.commands, c.Belongs key view

/-- After an event and what remains of it, two systems are alike, and the same is seen of both. -/
structure Matches (key : Key) (s t : System) (e : Event) : Prop where
  alike : Alike key (s.step e).1 (s.follow key t e).1
  seen : ∀ view, View key view → s.Belongs key view → t.Belongs key view →
    (∀ c, e = .sent c → c.Belongs key view) →
      (s.step e).2.filter view = (s.follow key t e).2.filter view

variable {key : Key} {s t : System} {c : Command} {cs rest dropped : List Command}
  {starts : Invocation → Bool} {view : Effect → Bool} {run place : Nat} {o : Outcome} {a : LiveRun}
  {d : Completion}

/-- Nothing remains of an event of which nothing is seen. -/
theorem matches_of_none {e : Event} (hkeep : s.keep key t e = none)
    (halike : Alike key (s.step e).1 t)
    (hseen : ∀ view, View key view → s.Belongs key view →
      (∀ c, e = .sent c → c.Belongs key view) → (s.step e).2.filter view = []) :
    Matches key s t e := by
  constructor
  · rw [follow, hkeep]
    exact halike
  · intro view hv hb _ hbe
    rw [follow, hkeep]
    exact hseen view hv hb hbe

theorem matches_of_some {e e' : Event} (hkeep : s.keep key t e = some e')
    (halike : Alike key (s.step e).1 (t.step e').1)
    (hseen : ∀ view, View key view → s.Belongs key view → t.Belongs key view →
      (s.step e).2.filter view = (t.step e').2.filter view) : Matches key s t e := by
  constructor
  · rw [follow, hkeep]
    exact halike
  · intro view hv hb hbt _
    rw [follow, hkeep]
    exact hseen view hv hb hbt

theorem matches_of_idle {e : Event} (hkeep : s.keep key t e = none) (hstep : s.step e = (s, []))
    (h : Alike key s t) : Matches key s t e := by
  apply matches_of_none hkeep
  · rw [hstep]
    exact h
  · intro view _ _ _
    rw [hstep]
    rfl

/-! ## Commands -/

theorem filter_flatMap_dropped (hb : ∀ c ∈ cs, c.Belongs key view) :
    (cs.flatMap Command.dropped).filter view =
      ((cs.filter (·.concerns key)).flatMap Command.dropped).filter view := by
  induction cs with
  | nil => rfl
  | cons c cs ih =>
    have hcs := ih fun c' hc' => hb c' (List.mem_cons_of_mem c hc')
    rw [List.flatMap_cons, List.filter_append, hcs]
    cases hc : c.concerns key with
    | true => rw [List.filter_cons_of_pos hc, List.flatMap_cons, List.filter_append]
    | false =>
      rw [List.filter_cons_of_neg (by simp [hc]),
        Service.filter_dropped_apart hc (hb c List.mem_cons_self), List.nil_append]

theorem alike_send (h : Alike key s t) (hc : c.concerns key = true) :
    Alike key (s.send c).1 (t.send c).1 := by
  rw [send, send, h.service.running]
  cases s.service.running with
  | false => exact h
  | true =>
    refine ⟨h.service, ?_, h.live, h.ends⟩
    simp only [if_true]
    rw [List.filter_append, h.commands, List.filter_cons_of_pos hc, List.filter_nil]

theorem alike_send_apart (h : Alike key s t) (hc : c.concerns key = false) :
    Alike key (s.send c).1 t := by
  rw [send]
  cases s.service.running with
  | false => exact h
  | true =>
    refine ⟨h.service, ?_, h.live, h.ends⟩
    simp only [if_true]
    rw [List.filter_append, h.commands, List.filter_cons_of_neg (by simp [hc]), List.filter_nil,
      List.append_nil]

theorem matches_sent (h : Alike key s t) (c : Command) : Matches key s t (.sent c) := by
  cases hc : c.concerns key with
  | true =>
    have hkeep : s.keep key t (.sent c) = some (.sent c) := by rw [keep, if_pos hc]
    apply matches_of_some hkeep (alike_send h hc)
    intro view _ _ _
    rw [step, step, send, send, h.service.running]
    split <;> rfl
  | false =>
    have hkeep : s.keep key t (.sent c) = none := by rw [keep, if_neg (by simp [hc])]
    apply matches_of_none hkeep (alike_send_apart h hc)
    intro view _ _ hbc
    rw [step, send]
    split
    · rfl
    · exact Service.filter_dropped_apart hc (hbc c rfl)

/-- A system takes its first command. What stands behind it stays if the service goes on, and is
dropped otherwise. -/
theorem take_cons (hq : s.commands = c :: rest) : s.take starts =
    { s with commands := if (s.service.handle starts c).1.running then rest else [] }.after
      ((s.service.handle starts c).1, (s.service.handle starts c).2 ++
        (if (s.service.handle starts c).1.running then [] else rest).flatMap Command.dropped) := by
  rw [take, hq]
  cases hr : (s.service.handle starts c).1.running <;> simp [hr]

theorem started_after (hr : s.service.running = true) :
    ((s.service.handle starts c).2 ++ dropped.flatMap Command.dropped).filterMap Effect.started? =
      (s.service.startedBy starts c).toList := by
  rw [List.filterMap_append, Service.started_handle hr, Command.started_flatMap_dropped,
    List.append_nil]

section
variable (hs : s.Tidy) (ht : t.Tidy) (h : Alike key s t) (hr : s.service.running = true)
include hs ht h hr

/-- A command that concerns the key starts a run of the key in both systems, or in none. -/
theorem forall₂_startedBy (hc : c.concerns key = true) : List.Forall₂ (fun a b => b.key = key ∧
    Service.Twins key (s.service.handle starts c).1 (t.service.handle starts c).1 a.generation
      b.generation)
    ((s.service.startedBy starts c).toList.filter (·.key = key))
    (t.service.startedBy starts c).toList := by
  simp only [Service.startedBy, Service.invocation_eq h.service]
  cases hl : c.launch? with
  | none => exact .nil
  | some l =>
    have hk := Command.key_of_launch hc hl
    have htwins : Service.Twins key (s.service.handle starts c).1 (t.service.handle starts c).1
        (s.service.issued l.key.purpose + 1) (t.service.issued l.key.purpose + 1) :=
      Service.twins_launch hc hs.sound ht.sound hr h.service hl
    cases hst : starts (s.service.invocation l.key) with
    | false => simp [Option.filter, hst]
    | true =>
      simp only [Option.filter, hst, if_true, Option.map_some, Option.toList_some]
      have hkeep : [(s.service.job l).live].filter (·.key = key) = [(s.service.job l).live] := by
        simp [Service.job, Job.live, hk]
      rw [hkeep]
      exact .cons ⟨hk, htwins⟩ .nil

/-- Both services handle a command that concerns the key. -/
theorem alike_handle (hc : c.concerns key = true) (left dropped dropped' : List Command) :
    Alike key
      ({ s with commands := left }.after ((s.service.handle starts c).1,
        (s.service.handle starts c).2 ++ dropped.flatMap Command.dropped)).1
      ({ t with commands := left.filter (·.concerns key) }.after ((t.service.handle starts c).1,
        (t.service.handle starts c).2 ++ dropped'.flatMap Command.dropped)).1 := by
  have hrt : t.service.running = true := h.service.running.trans hr
  constructor
  · rw [service_after, service_after]
    exact Service.like_handle hc hs.sound ht.sound hr h.service
  · rw [commands_after, commands_after]
  · rw [live_after, live_after, service_after, service_after, started_after hr, started_after hrt,
      List.filter_append]
    refine List.rel_append (forall₂_of_mem h.live ?_) (forall₂_startedBy hs ht h hr hc)
    rintro a ha b hb ⟨hk, htwins⟩
    obtain ⟨ha, hka⟩ := List.mem_filter.1 ha
    have hga := hs.live a ha
    have hgb := ht.live b hb
    rw [of_decide_eq_true hka] at hga
    rw [hk] at hgb
    exact ⟨hk, Service.twins_handle hc hs.sound ht.sound hr h.service hga hgb htwins⟩
  · rw [ends_after, ends_after, service_after, service_after]
    refine forall₂_of_mem h.ends ?_
    rintro d hd d' hd' ⟨hk, ho, htwins⟩
    obtain ⟨hd, hkd⟩ := List.mem_filter.1 hd
    have hgd := hs.ends d hd
    have hgd' := ht.ends d' hd'
    rw [of_decide_eq_true hkd] at hgd
    rw [hk] at hgd'
    exact ⟨hk, ho, Service.twins_handle hc hs.sound ht.sound hr h.service hgd hgd' htwins⟩

omit ht in
/-- The first service handles a command that does not concern the key. -/
theorem alike_handle_apart (hc : c.concerns key = false) (left dropped : List Command)
    (hleft : t.commands = left.filter (·.concerns key)) : Alike key
      ({ s with commands := left }.after ((s.service.handle starts c).1,
        (s.service.handle starts c).2 ++ dropped.flatMap Command.dropped)).1 t := by
  have htwins {g g' : Nat} : Service.Twins key (s.service.handle starts c).1 t.service g g' ↔
      Service.Twins key s.service t.service g g' := Service.twins_handle_apart hc hs.sound hr
  constructor
  · rw [service_after]
    exact Service.like_handle_apart hc hs.sound hr h.service
  · rw [commands_after]
    exact hleft
  · have hstarted : (s.service.startedBy starts c).toList.filter (·.key = key) = [] := by
      apply List.filter_eq_nil_iff.2
      intro a ha
      obtain ⟨l, hl, rfl⟩ := Option.map_eq_some_iff.1 (Option.mem_toList.1 ha)
      have hlaunch : c.launch? = some l := (Option.filter_eq_some_iff.1 hl).1
      exact fun hk => Command.launch_ne_of_apart hc hlaunch (of_decide_eq_true hk)
    rw [live_after, service_after, started_after hr, List.filter_append, hstarted, List.append_nil]
    simp only [htwins]
    exact h.live
  · rw [ends_after, service_after]
    simp only [htwins]
    exact h.ends

end

/-- Both services handle the first command. -/
theorem matches_take (hs : s.Tidy) (ht : t.Tidy) (h : Alike key s t)
    (hr : s.service.running = true) (hq : s.commands = c :: rest) (hc : c.concerns key = true) :
    Matches key s t (.taken starts) := by
  have hkeep : s.keep key t (.taken starts) = some (.taken starts) := by simp [keep, hq, hc]
  have hqt : t.commands = c :: rest.filter (·.concerns key) := by
    rw [h.commands, hq, List.filter_cons_of_pos hc]
  have hlike : Service.Like key (s.service.handle starts c).1 (t.service.handle starts c).1 :=
    Service.like_handle hc hs.sound ht.sound hr h.service
  apply matches_of_some hkeep
  · rw [step, step, take_cons hq, take_cons hqt, hlike.running]
    cases (s.service.handle starts c).1.running with
    | true => exact alike_handle hs ht h hr hc rest _ _
    | false => exact alike_handle hs ht h hr hc [] _ _
  · intro view hv hb hbt
    have hseen : (s.service.handle starts c).2.filter view =
        (t.service.handle starts c).2.filter view :=
      Service.filter_handle hv hs.sound ht.sound h.service hb.service hbt.service hr c
    have hrest : ∀ c ∈ rest, c.Belongs key view := by
      intro c' hc'
      exact hb.commands c' (by rw [hq]; exact List.mem_cons_of_mem c hc')
    rw [step, step, take_cons hq, take_cons hqt, hlike.running, effects_after, effects_after,
      List.filter_append, List.filter_append, hseen]
    cases (s.service.handle starts c).1.running with
    | true => rfl
    | false => exact congrArg _ (filter_flatMap_dropped hrest)

/-- Only the first service handles its first command. -/
theorem matches_take_apart (hs : s.Tidy) (h : Alike key s t) (hr : s.service.running = true)
    (hq : s.commands = c :: rest) (hc : c.concerns key = false) :
    Matches key s t (.taken starts) := by
  have hkeep : s.keep key t (.taken starts) = none := by simp [keep, hq, hc]
  have hqt : t.commands = rest.filter (·.concerns key) := by
    rw [h.commands, hq, List.filter_cons_of_neg (by simp [hc])]
  have hgoes : (s.service.handle starts c).1.running = true :=
    Service.running_handle_apart hc hr
  apply matches_of_none hkeep
  · rw [step, take_cons hq]
    simp only [hgoes, if_true]
    exact alike_handle_apart hs h hr hc rest [] hqt
  · intro view hv hb _
    have hbc := hb.commands c (by rw [hq]; exact List.mem_cons_self)
    rw [step, take_cons hq, effects_after, List.filter_append,
      Service.filter_handle_apart hv hs.sound hb.service hr hc hbc]
    simp only [hgoes, if_true]
    rfl

theorem matches_taken (hs : s.Tidy) (ht : t.Tidy) (h : Alike key s t) (starts : Invocation → Bool) :
    Matches key s t (.taken starts) := by
  cases hq : s.commands with
  | nil => exact matches_of_idle (by simp [keep, hq]) (by rw [step, take, hq]) h
  | cons c rest =>
    have hr : s.service.running = true := by
      by_contra hr
      rw [hs.idle (by simpa using hr)] at hq
      cases hq
    cases hc : c.concerns key with
    | true => exact matches_take hs ht h hr hq hc
    | false => exact matches_take_apart hs h hr hq hc

theorem hangUp_of_running (hq : s.commands = []) : s.hangUp = { s with commands := [] }.after
    ((s.service.handle (fun _ => false) .shutdown).1,
      (s.service.handle (fun _ => false) .shutdown).2 ++
        ([] : List Command).flatMap Command.dropped) := by
  obtain ⟨service, live, released, commands, ends⟩ := s
  cases hq
  simp [hangUp]

theorem hangUp_of_ended (hr : s.service.running = false) : s.hangUp = (s, []) := by
  rw [hangUp, Service.handle_of_ended hr]
  split <;> rfl

theorem matches_hungUp (hs : s.Tidy) (ht : t.Tidy) (h : Alike key s t) :
    Matches key s t .hungUp := by
  cases hq : s.commands with
  | cons c rest => exact matches_of_idle (by simp [keep, hq]) (by simp [step, hangUp, hq]) h
  | nil =>
    have hkeep : s.keep key t .hungUp = some .hungUp := by simp [keep, hq]
    have hqt : t.commands = [] := by rw [h.commands, hq, List.filter_nil]
    cases hr : s.service.running with
    | true =>
      apply matches_of_some hkeep
      · rw [step, step, hangUp_of_running hq, hangUp_of_running hqt]
        exact alike_handle hs ht h hr rfl [] [] []
      · intro view hv hb hbt
        have hseen : (s.service.handle (fun _ => false) .shutdown).2.filter view =
            (t.service.handle (fun _ => false) .shutdown).2.filter view :=
          Service.filter_handle hv hs.sound ht.sound h.service hb.service hbt.service hr .shutdown
        rw [step, step, hangUp_of_running hq, hangUp_of_running hqt, effects_after, effects_after,
          List.filter_append, List.filter_append, hseen]
    | false =>
      have hrt : t.service.running = false := h.service.running.trans hr
      apply matches_of_some hkeep
      · rw [step, step, hangUp_of_ended hr, hangUp_of_ended hrt]
        exact h
      · intro view _ _ _
        rw [step, step, hangUp_of_ended hr, hangUp_of_ended hrt]

/-! ## Ends of runs -/

theorem find?_of_mem_live (hs : s.Tidy) (ha : a ∈ s.live) : s.find? a.run = some a := by
  cases hf : s.find? a.run with
  | none =>
    have hn := List.find?_eq_none.1 hf a ha
    simp at hn
  | some b =>
    obtain ⟨hb, hrun⟩ := find?_mem hf
    rw [List.inj_on_of_nodup_map hs.runs hb ha hrun]

theorem conclude_of_find? (hf : s.find? run = some a) : s.conclude run o =
    { s with
      live := s.live.filter (·.run ≠ run)
      ends := s.ends ++ [⟨a.key, a.generation, o⟩] } := by
  rw [conclude, hf]

theorem filter_live_comm : (s.live.filter (·.run ≠ run)).filter (·.key = key) =
    (s.live.filter (·.key = key)).filter (·.run ≠ run) := by
  rw [List.filter_filter, List.filter_filter]
  simp only [Bool.and_comm]

/-- A run ends that is none of the key. -/
theorem alike_conclude_apart (h : Alike key s t)
    (hnot : ∀ a ∈ s.live, a.key = key → a.run ≠ run) : Alike key (s.conclude run o) t := by
  cases hf : s.find? run with
  | none =>
    rw [conclude, hf]
    exact h
  | some a =>
    obtain ⟨ha, hrun⟩ := find?_mem hf
    have hk : a.key ≠ key := fun hk => hnot a ha hk hrun
    have hrest : (s.live.filter (·.key = key)).filter (·.run ≠ run) =
        s.live.filter (·.key = key) := by
      apply List.filter_eq_self.2
      intro b hb
      obtain ⟨hb, hkb⟩ := List.mem_filter.1 hb
      exact decide_eq_true (hnot b hb (of_decide_eq_true hkb))
    rw [conclude_of_find? hf]
    refine ⟨h.service, h.commands, ?_, ?_⟩
    · rw [filter_live_comm, hrest]
      exact h.live
    · rw [List.filter_append, List.filter_cons_of_neg (by simpa using hk), List.filter_nil,
        List.append_nil]
      exact h.ends

/-- A run of the key ends in both systems. -/
theorem alike_conclude (hs : s.Tidy) (ht : t.Tidy) (h : Alike key s t) {b : LiveRun}
    (hab : (a, b) ∈ (s.live.filter (·.key = key)).zip t.live) :
    Alike key (s.conclude a.run o) (t.conclude b.run o) := by
  obtain ⟨hlen, hR⟩ := List.forall₂_iff_zip.1 h.live
  obtain ⟨ha, hb⟩ := List.of_mem_zip hab
  obtain ⟨ha, hka⟩ := List.mem_filter.1 ha
  have hk : a.key = key := of_decide_eq_true hka
  -- no other pair has the number of `a`, nor that of `b`
  have hleft := (List.filter_sublist (p := (·.key = key)) (l := s.live)).map (·.run)
    |>.nodup hs.runs
  rw [← List.map_fst_zip (Nat.le_of_eq hlen), List.map_map] at hleft
  have hright := ht.runs
  rw [← List.map_snd_zip (Nat.le_of_eq hlen.symm), List.map_map] at hright
  have hpairs : ∀ a' b', (a', b') ∈ (s.live.filter (·.key = key)).zip t.live →
      (a'.run = a.run ↔ b'.run = b.run) := by
    intro a' b' hmem
    constructor
    · intro hrun
      exact congrArg (·.2.run) (List.inj_on_of_nodup_map hleft hmem hab hrun)
    · intro hrun
      exact congrArg (·.1.run) (List.inj_on_of_nodup_map hright hmem hab hrun)
  have hzip := List.forall₂_iff_zip.2 ⟨hlen, fun {a' b'} hmem => And.intro (hR hmem)
    (hpairs a' b' hmem)⟩
  rw [conclude_of_find? (find?_of_mem_live hs ha), conclude_of_find? (find?_of_mem_live ht hb)]
  refine ⟨h.service, h.commands, ?_, ?_⟩
  · rw [filter_live_comm]
    have hrest := List.rel_filter (p := (·.run ≠ a.run)) (q := (·.run ≠ b.run))
      (fun a' b' hr => by simpa using not_congr hr.2) hzip
    exact hrest.imp fun a' b' hr => hr.1
  · rw [List.filter_append, List.filter_cons_of_pos (by simpa using hk), List.filter_nil]
    obtain ⟨hkb, htwins⟩ := hR hab
    exact List.rel_append h.ends (.cons ⟨hkb, rfl, htwins⟩ .nil)

theorem matches_ended (hs : s.Tidy) (ht : t.Tidy) (h : Alike key s t) (run : Nat) (o : Outcome) :
    Matches key s t (.ended run o) := by
  cases hz : ((s.live.filter (·.key = key)).zip t.live).find? (·.1.run = run) with
  | none =>
    have hkeep : s.keep key t (.ended run o) = none := by rw [keep, hz]; rfl
    have hnot : ∀ a ∈ s.live, a.key = key → a.run ≠ run := by
      intro a ha hk
      have hmem : a ∈ s.live.filter (·.key = key) := List.mem_filter.2 ⟨ha, decide_eq_true hk⟩
      obtain ⟨b, hab⟩ := exists_mem_zip h.live.length_eq hmem
      simpa using List.find?_eq_none.1 hz (a, b) hab
    exact matches_of_none hkeep (alike_conclude_apart h hnot) fun _ _ _ _ => rfl
  | some p =>
    obtain ⟨a, b⟩ := p
    have hkeep : s.keep key t (.ended run o) = some (.ended b.run o) := by rw [keep, hz]; rfl
    obtain rfl : a.run = run := by simpa using List.find?_some hz
    exact matches_of_some hkeep (alike_conclude hs ht h (List.mem_of_find?_eq_some hz))
      fun _ _ _ _ => rfl

theorem attend_of_get (hd : s.ends[place]? = some d) : s.attend place =
    { s with ends := s.ends.eraseIdx place }.after (s.service.complete d) := by
  rw [attend, hd]

theorem live_attend (hs : s.Tidy) (ends : List Completion) :
    ({ s with ends := ends }.after (s.service.complete d)).1.live = s.live := by
  rw [live_after, Service.started_effects_complete hs.sound, List.append_nil]

/-- The service looks at the end of a run of another key. -/
theorem alike_attend_apart (hs : s.Tidy) (h : Alike key s t) (hd : s.ends[place]? = some d)
    (hk : d.key ≠ key) : Alike key (s.attend place).1 t := by
  have htwins {g g' : Nat} : Service.Twins key (s.service.complete d).1 t.service g g' ↔
      Service.Twins key s.service t.service g g' := Service.twins_complete_apart hs.sound hk
  rw [attend_of_get hd]
  constructor
  · rw [service_after]
    exact Service.like_complete_apart hs.sound hk h.service
  · rw [commands_after]
    exact h.commands
  · rw [live_attend hs, service_after]
    simp only [htwins]
    exact h.live
  · rw [ends_after, service_after, filter_eraseIdx_of_neg hd (by simpa using hk)]
    simp only [htwins]
    exact h.ends

/-- Both services look at the ends of two runs of the key. -/
theorem alike_attend (hs : s.Tidy) (ht : t.Tidy) (h : Alike key s t) (hd : s.ends[place]? = some d)
    (hk : d.key = key) {place' : Nat} {d' : Completion}
    (hplace : (s.ends.take place).countP (·.key = key) = place')
    (hd' : t.ends[place']? = some d') (hk' : d'.key = key)
    (hcurrent : Service.Twins key s.service t.service d.generation d'.generation) :
    Alike key (s.attend place).1 (t.attend place').1 := by
  have htwins {g g' : Nat} (hg : Service.Twins key s.service t.service g g') :=
    Service.twins_complete hs.sound ht.sound hk hk' hcurrent hg
  rw [attend_of_get hd, attend_of_get hd']
  constructor
  · rw [service_after, service_after]
    exact Service.like_complete hs.sound ht.sound hk hk' hcurrent h.service
  · rw [commands_after, commands_after]
    exact h.commands
  · rw [live_attend hs, live_attend ht, service_after, service_after]
    exact h.live.imp fun a b hr => ⟨hr.1, htwins hr.2⟩
  · rw [ends_after, ends_after, service_after, service_after,
      filter_eraseIdx_of_pos hd (decide_eq_true hk), hplace]
    exact (forall₂_eraseIdx h.ends place').imp fun a b hr => ⟨hr.1, hr.2.1, htwins hr.2.2⟩

theorem matches_attended (hs : s.Tidy) (ht : t.Tidy) (h : Alike key s t) (place : Nat) :
    Matches key s t (.attended place) := by
  cases hd : s.ends[place]? with
  | none => exact matches_of_idle (by simp [keep, hd]) (by rw [step, attend, hd]) h
  | some d =>
    by_cases hk : d.key = key
    · have hkeep : s.keep key t (.attended place) =
          some (.attended ((s.ends.take place).countP (·.key = key))) := by simp [keep, hd, hk]
      obtain ⟨d', hd', hk', ho, hcurrent⟩ :=
        forall₂_getElem? h.ends (getElem?_filter hd (decide_eq_true hk))
      apply matches_of_some hkeep (alike_attend hs ht h hd hk rfl hd' hk' hcurrent)
      intro view hv _ _
      rw [step, step, attend_of_get hd, attend_of_get hd', effects_after, effects_after]
      exact Service.filter_complete hv hs.sound ht.sound hk hk' ho h.service hcurrent
    · have hkeep : s.keep key t (.attended place) = none := by simp [keep, hd, hk]
      apply matches_of_none hkeep (alike_attend_apart hs h hd hk)
      intro view hv hb _
      rw [step, attend_of_get hd, effects_after]
      exact Service.filter_complete_apart hv hs.sound hk hb.service

/-- After every event and what remains of it, two systems that are alike for a key still are, and
the same was seen of the key in both. -/
theorem matches_follow (hs : s.Tidy) (ht : t.Tidy) (h : Alike key s t) (e : Event) :
    Matches key s t e := by
  cases e with
  | sent c => exact matches_sent h c
  | taken starts => exact matches_taken hs ht h starts
  | hungUp => exact matches_hungUp hs ht h
  | ended run o => exact matches_ended hs ht h run o
  | attended place => exact matches_attended hs ht h place

end System

end AnalyzerBridge
