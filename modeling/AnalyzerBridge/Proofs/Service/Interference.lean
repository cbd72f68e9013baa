import AnalyzerBridge.Proofs.Service.Apart
import Mathlib.Data.List.Nodup

/-! Documents do not interfere, nor do the diagnostics and the hovers of one. What a history shows
of a key is what it shows when all that concerns other keys is deleted from it. -/
namespace AnalyzerBridge

open Run

def Effect.answers (mine : Nat → Bool) : Effect → Bool
  | answered request _ => mine request
  | _ => false

def Event.sent? : Event → Option Command
  | sent c => some c
  | _ => none

theorem view_publishes (uri : String) : View ⟨uri, .diagnostics⟩ (Effect.publishes uri) where
  launching _ _ _ _ := rfl
  started _ _ _ _ _ := rfl
  released _ := rfl
  published uri' _ _ h := by rw [show uri' = uri from of_decide_eq_true h]

theorem view_answers (key : Key) (mine : Nat → Bool) : View key (Effect.answers mine) where
  launching _ _ _ _ := rfl
  started _ _ _ _ _ := rfl
  released _ := rfl
  published _ _ _ h := by cases h

namespace System

variable {s t : System} {key : Key} {e : Event} {c : Command}

/-- A command waits because it was sent, now or before. -/
theorem Goes.mem_commands {fs : List Effect} (hg : s.Goes e t fs) (hc : c ∈ t.commands) :
    c ∈ s.commands ∨ e = .sent c := by
  cases hg with
  | rests | drops | ends => exact .inl hc
  | sends =>
    rcases List.mem_append.1 hc with hc | hc
    · exact .inl hc
    · rw [List.mem_singleton.1 hc]
      exact .inr rfl
  | takes hq =>
    rw [commands_after] at hc
    rw [hq]
    exact .inl (List.mem_cons_of_mem _ hc)
  | takesLast =>
    rw [commands_after] at hc
    cases hc
  | hangsUp | attends =>
    rw [commands_after] at hc
    exact .inl hc

/-- Of the commands that are sent, those that concern the key remain. -/
theorem sent?_keep : (s.keep key t e).toList.filterMap Event.sent? =
    e.sent?.toList.filter (·.concerns key) := by
  cases e with
  | sent c => cases hc : c.concerns key <;> simp [keep, Event.sent?, hc]
  | taken starts =>
    rw [keep]
    split <;> rfl
  | hungUp =>
    rw [keep]
    split <;> rfl
  | ended run o =>
    rw [keep]
    cases ((s.live.filter (·.key = key)).zip t.live).find? (·.1.run = run) <;> rfl
  | attended place =>
    rw [keep]
    split <;> rfl

theorem alike_initial (settings : Settings) :
    Alike key (initial settings) (initial settings) :=
  ⟨⟨rfl, rfl, fun _ => Iff.rfl⟩, rfl, .nil, .nil⟩

/-- What remains of a system when only one key counts. -/
structure Remains (key : Key) (s t : System) : Prop where
  settings : t.service.settings = s.service.settings
  running : t.service.running = s.service.running
  commands : t.commands = s.commands.filter (·.concerns key)
  live : t.live.map (·.key) = (s.live.filter (·.key = key)).map (·.key)
  ends : t.ends.map (fun d => (d.key, d.outcome)) =
    (s.ends.filter (·.key = key)).map fun d => (d.key, d.outcome)

theorem remains_of_alike (h : Alike key s t) : Remains key s t := by
  refine ⟨h.service.settings, h.service.running, h.commands, ?_, ?_⟩
  · refine (map_eq_of_forall₂ h.live ?_).symm
    rintro a ha b _ ⟨hk, _⟩
    rw [hk, of_decide_eq_true (List.mem_filter.1 ha).2]
  · refine (map_eq_of_forall₂ h.ends ?_).symm
    rintro d hd d' _ ⟨hk, ho, _⟩
    rw [hk, ho, of_decide_eq_true (List.mem_filter.1 hd).2]

end System

namespace History

variable {h : History} {n : Nat} {key : Key} {e : Event}

def final (h : History) : System := h.state h.events.length

def done (h : History) : List Effect := h.log h.events.length

/-- One more event happens at the end. -/
def also (h : History) (e : Event) : History := { h with events := h.events ++ [e] }

/-- What remains of a history before an event when all is deleted that does not concern a key. -/
def apart (h : History) (key : Key) : Nat → History
  | 0 => { h with events := [] }
  | n + 1 =>
    match h.events[n]?.bind (System.keep key (h.state n) (h.apart key n).final) with
    | none => h.apart key n
    | some e => (h.apart key n).also e

/-- A hover of a document is sent with the number of this request. -/
def Asks (h : History) (uri : String) (request : Nat) : Prop :=
  ∃ text position, .sent (.hover uri text position request) ∈ h.events

/-! ## One more event -/

theorem state_also (hn : n ≤ h.events.length) : (h.also e).state n = h.state n := by
  rw [state, also, List.take_append_of_le_length hn, state]

theorem effects_also (hn : n < h.events.length) : (h.also e).effects n = h.effects n := by
  rw [effects, state_also hn.le, also, List.getElem?_append_left hn, effects]

theorem log_also (hn : n ≤ h.events.length) : (h.also e).log n = h.log n := by
  induction n with
  | zero => rfl
  | succ n ih => rw [log_succ, log_succ, ih (Nat.le_of_succ_le hn), effects_also hn]

theorem last_also : (h.also e).events[h.events.length]? = some e := List.getElem?_concat_length

theorem length_also : (h.also e).events.length = h.events.length + 1 := List.length_append

theorem final_also : (h.also e).final = (h.final.step e).1 := by
  rw [final, length_also, state_succ last_also, state_also (Nat.le_refl _), final]

theorem done_also : (h.also e).done = h.done ++ (h.final.step e).2 := by
  rw [done, length_also, log_succ, effects_eq last_also, log_also (Nat.le_refl _),
    state_also (Nat.le_refl _), done, final]

theorem apart_of_none (he : h.events[n]? = none) : h.apart key (n + 1) = h.apart key n := by
  rw [apart, he]
  rfl

/-- What remains of an event happens in what remains of a history. -/
theorem apart_follow (he : h.events[n]? = some e) :
    (h.apart key (n + 1)).final = ((h.state n).follow key (h.apart key n).final e).1 ∧
      (h.apart key (n + 1)).done =
        (h.apart key n).done ++ ((h.state n).follow key (h.apart key n).final e).2 := by
  rw [apart, he, Option.bind_some, System.follow]
  cases (h.state n).keep key (h.apart key n).final e with
  | none => exact ⟨rfl, (List.append_nil _).symm⟩
  | some e' => exact ⟨final_also, done_also⟩

theorem events_apart (he : h.events[n]? = some e) : (h.apart key (n + 1)).events =
    (h.apart key n).events ++ ((h.state n).keep key (h.apart key n).final e).toList := by
  rw [apart, he, Option.bind_some]
  cases (h.state n).keep key (h.apart key n).final e with
  | none => exact (List.append_nil _).symm
  | some e' => rfl

/-! ## Both systems -/

theorem generation_of_live {a : LiveRun} (ha : a ∈ (h.state n).live) :
    a.generation ≤ (h.service n).issued a.key.purpose := by
  obtain ⟨m, hmn, l, j, hb, rfl⟩ := begins_of_live ha
  have hle : (h.service (m + 1)).issued j.key.purpose ≤ (h.service n).issued j.key.purpose :=
    h.issued_mono _ hmn
  rw [(begins_issued hb).2] at hle
  exact hle

theorem generation_of_ends {d : Completion} (hd : d ∈ (h.state n).ends) :
    d.generation ≤ (h.service n).issued d.key.purpose := by
  obtain ⟨k, hkn, a, ha, hk, hg⟩ := ended_of_ends hd
  have hle := generation_of_live (System.find?_mem ha.2).1
  rw [hk, hg] at hle
  exact hle.trans (h.issued_mono _ hkn.le)

/-- No two live runs have one number. -/
theorem nodup_live (h : History) (n : Nat) : ((h.state n).live.map (·.run)).Nodup := by
  have htokens : ((h.state n).live.map LiveRun.token).Nodup := by
    apply List.nodup_iff_count_le_one.2
    intro token
    have hle := h.count_tokens_le n token
    rw [System.tokens, List.count_append] at hle
    split at hle <;> omega
  apply List.Nodup.map_on _ htokens.of_map
  intro a ha b hb hrun
  obtain ⟨m, _, l, j, hj, rfl⟩ := begins_of_live ha
  obtain ⟨m', _, l', j', hj', rfl⟩ := begins_of_live hb
  obtain rfl := begins_of_run hj hj' hrun
  rw [(begins_unique hj hj').2]

theorem tidy_state (h : History) (n : Nat) : (h.state n).Tidy where
  sound := h.sound_service n
  idle := commands_of_ended
  runs := h.nodup_live n
  live _ ha := generation_of_live ha
  ends _ hd := generation_of_ends hd

theorem alike_apart (h : History) (key : Key) (n : Nat) :
    System.Alike key (h.state n) (h.apart key n).final := by
  induction n with
  | zero => exact System.alike_initial h.settings
  | succ n ih =>
    cases he : h.events[n]? with
    | none =>
      rw [state_succ_of_none he, apart_of_none he]
      exact ih
    | some e =>
      rw [state_succ he, (apart_follow he).1]
      exact (System.matches_follow (h.tidy_state n) ((h.apart key n).tidy_state _) ih e).alike

/-- The commands that concern the key remain, in their order. -/
theorem sent_apart (h : History) (key : Key) (n : Nat) :
    (h.apart key n).events.filterMap Event.sent? =
      ((h.events.take n).filterMap Event.sent?).filter (·.concerns key) := by
  induction n with
  | zero => rfl
  | succ n ih =>
    cases he : h.events[n]? with
    | none =>
      rw [apart_of_none he, ih, List.take_add_one, he, Option.toList_none, List.append_nil]
    | some e =>
      have hlast : [e].filterMap Event.sent? = e.sent?.toList := by
        cases hc : e.sent? <;> simp [hc]
      rw [events_apart he, List.take_add_one, he, List.filterMap_append, List.filterMap_append,
        List.filter_append, ih, System.sent?_keep, Option.toList_some, hlast]

/-! ## What is seen -/

theorem mem_sent {es : List Event} {c : Command} :
    c ∈ es.filterMap Event.sent? ↔ .sent c ∈ es := by
  rw [List.mem_filterMap]
  constructor
  · rintro ⟨e, he, hc⟩
    cases e with
    | sent c' =>
      cases hc
      exact he
    | _ => cases hc
  · intro he
    exact ⟨.sent c, he, rfl⟩

theorem asks_of_apart {uri : String} {request : Nat} (ha : (h.apart key n).Asks uri request) :
    h.Asks uri request := by
  obtain ⟨text, position, he⟩ := ha
  rw [← mem_sent, sent_apart, List.mem_filter, mem_sent] at he
  exact ⟨text, position, List.mem_of_mem_take he.1⟩

theorem sent_of_commands {c : Command} (hc : c ∈ (h.state n).commands) : .sent c ∈ h.events := by
  induction n with
  | zero => cases hc
  | succ n ih =>
    rcases h.state_succ_cases n with ⟨_, hs, _⟩ | ⟨e, he, hg⟩
    · exact ih (hs ▸ hc)
    · rcases hg.mem_commands hc with hc | rfl
      · exact ih hc
      · exact List.mem_of_getElem? he

section
variable {view : Effect → Bool}
  (hb : ∀ uri request, h.Asks uri request → Belongs key view uri request)
include hb

theorem belongs_sent {c : Command} (hc : .sent c ∈ h.events) : c.Belongs key view := by
  cases c with
  | hover uri text position request => exact hb uri request ⟨text, position, hc⟩
  | _ => trivial

theorem belongs_state (n : Nat) : (h.state n).Belongs key view := by
  constructor
  · intro e he
    obtain ⟨m, _, starts, text, hc⟩ := handles_of_pending he
    exact hb _ _ ⟨text, _, sent_of_commands (List.mem_of_head? hc.2.2)⟩
  · intro c hc
    exact belongs_sent hb (sent_of_commands hc)

/-- What is seen of a key is also seen when all else is deleted, in the same order. -/
theorem filter_log_apart (hv : View key view) (n : Nat) :
    (h.log n).filter view = (h.apart key n).done.filter view := by
  induction n with
  | zero => rfl
  | succ n ih =>
    cases he : h.events[n]? with
    | none =>
      rw [log_succ, effects, he, List.append_nil, apart_of_none he]
      exact ih
    | some e =>
      have hbt : ∀ uri request, (h.apart key n).Asks uri request →
          Belongs key view uri request := fun uri request ha => hb uri request (asks_of_apart ha)
      have hm := System.matches_follow (h.tidy_state n) ((h.apart key n).tidy_state _)
        (h.alike_apart key n) e
      have hseen := hm.seen view hv (belongs_state hb n) (belongs_state hbt _) fun c hc =>
        belongs_sent hb (hc ▸ List.mem_of_getElem? he)
      rw [log_succ, effects_eq he, (apart_follow he).2, List.filter_append, List.filter_append, ih]
      exact congrArg _ hseen

end

/-- Documents do not interfere, nor do the diagnostics and the hovers of one. What is published of a
document is the same when all is deleted that does not concern its diagnostics. So are the answers
to its hovers, whose request numbers no other document uses, when all is deleted that does not
concern these. Just the commands that concern the key remain, with its runs, which are started as
before and end as before. -/
theorem documents_apart (h : History) :
    (∀ uri n, (h.log n).filter (Effect.publishes uri) =
      (h.apart ⟨uri, .diagnostics⟩ n).done.filter (Effect.publishes uri)) ∧
    (∀ uri mine,
      (∀ uri' request, mine request = true → h.Asks uri' request → uri' = uri) →
      ∀ n, (h.log n).filter (Effect.answers mine) =
        (h.apart ⟨uri, .symbols⟩ n).done.filter (Effect.answers mine)) ∧
    ∀ key n,
      (h.apart key n).events.filterMap Event.sent? =
        ((h.events.take n).filterMap Event.sent?).filter (·.concerns key) ∧
      System.Remains key (h.state n) (h.apart key n).final := by
  refine ⟨?_, ?_, ?_⟩
  · intro uri n
    refine filter_log_apart ?_ (view_publishes uri) n
    intro uri' request _ y hy
    cases hy
  · intro uri mine hmine n
    refine filter_log_apart ?_ (view_answers ⟨uri, .symbols⟩ mine) n
    intro uri' request ha y hy
    rw [hmine uri' request hy ha]
  · intro key n
    exact ⟨h.sent_apart key n, System.remains_of_alike (h.alike_apart key n)⟩

/-- Two documents at once; the first text of one is replaced. -/
def twoDocuments : History where
  settings := .default
  events := [.sent (.analyze "a" 1 "x"), .sent (.analyze "b" 1 "y"),
    .sent (.hover "a" "x" ⟨0, 0⟩ 7), .sent (.hover "b" "y" ⟨0, 0⟩ 8),
    .taken fun _ => true, .taken fun _ => true, .taken fun _ => true, .taken fun _ => true,
    .sent (.analyze "b" 2 "z"), .taken fun _ => true,
    .ended 3 (.completed "[\"Ok\",[],[[\"Global\",1,0,\"y\"]]]"),
    .ended 4 (.completed oneProblem), .ended 0 (.completed oneProblem),
    .attended 1, .attended 1, .attended 0]

theorem documents_apart_twoDocuments :
    (∀ uri' request, decide (request = 8) = true → twoDocuments.Asks uri' request → uri' = "b") ∧
    (twoDocuments.log 16).filter (Effect.publishes "b") =
      (twoDocuments.apart ⟨"b", .diagnostics⟩ 16).done.filter (Effect.publishes "b") ∧
    (twoDocuments.log 16).filter (Effect.answers (· = 8)) =
      (twoDocuments.apart ⟨"b", .symbols⟩ 16).done.filter (Effect.answers (· = 8)) ∧
    (twoDocuments.apart ⟨"b", .diagnostics⟩ 16).events.length = 6 ∧
    ((twoDocuments.log 16).filter (Effect.publishes "b")).length = 1 ∧
    ∃ x, .answered 8 (some x) ∈ twoDocuments.log 16 := by
  have hasks : ∀ uri' request, decide (request = 8) = true → twoDocuments.Asks uri' request →
      uri' = "b" := by
    rintro uri' request hr ⟨text, position, he⟩
    obtain rfl := of_decide_eq_true hr
    simp [twoDocuments] at he
    exact he.1
  obtain ⟨hpublished, hanswered, _⟩ := documents_apart twoDocuments
  refine ⟨hasks, hpublished "b" 16, hanswered "b" _ hasks 16, ?_, ?_, ?_⟩
  · decide +kernel
  · decide +kernel
  · refine ⟨⟨"### y\n```qscript\nvar y; // unknown, Global\n```\n", .onLine 1 0 1⟩, ?_⟩
    decide +kernel

end History

end AnalyzerBridge
