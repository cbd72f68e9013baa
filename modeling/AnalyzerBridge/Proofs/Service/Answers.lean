import AnalyzerBridge.Proofs.Service.Returns

/-! Hovers and their answers. A hover that is sent waits in the queue, then in the registry, and is
answered once: from its own run if that returns, and otherwise with nothing. -/
namespace AnalyzerBridge

open Run

def Event.request? : Event → Option Nat
  | .sent c => c.request?
  | _ => none

@[simp] theorem Command.answers_flatMap_dropped {dropped : List Command} :
    (dropped.flatMap Command.dropped).filterMap Effect.answered? =
      dropped.filterMap Command.request? := by
  induction dropped with
  | nil => rfl
  | cons c rest ih =>
    rw [List.flatMap_cons, List.filterMap_append, ih, Command.answers_dropped, List.filterMap_cons]
    cases c.request? <;> rfl

namespace Service

variable {s : Service} {c : Command} {e : Registration HoverRequest} {starts : Invocation → Bool}

/-- A hover whose run is let go by a command is answered with nothing. -/
theorem answered_of_evicts (hs : s.Sound) (hr : s.running = true) (he : e ∈ s.hovers.entries)
    (hc : c.Evicts e.key) : .answered e.context.request none ∈ (s.handle starts c).2 := by
  have hp := hs.hovers.purpose e he
  cases c with
  | analyze uri version text =>
    rw [Command.Evicts] at hc
    rw [hc] at hp
    cases hp
  | hover uri text position request =>
    have hm := (mem_held hs.hovers).2 ⟨he, hc⟩
    simp only [handle, hr, if_true, hover, List.mem_append, mem_dismiss]
    exact Or.inl (Or.inl (Or.inr ⟨e, hm, rfl⟩))
  | close uri =>
    have hm := (mem_held hs.hovers).2 ⟨he, Key.eq_iff.2 ⟨hc, hp⟩⟩
    simp only [handle, hr, if_true, close, List.mem_append, mem_dismiss]
    exact Or.inl (Or.inr ⟨e, hm, rfl⟩)
  | configure overrides => exact absurd hc id
  | shutdown =>
    simp only [handle, hr, if_true, stop, List.mem_append, mem_dismiss]
    exact Or.inr ⟨e, he, rfl⟩

/-- A hover whose run does not start is answered with nothing. -/
theorem answered_of_not_starts (hr : s.running = true) {uri text : String} {position : Position}
    {request : Nat} (hst : starts (s.invocation ⟨uri, .symbols⟩) = false) :
    .answered request none ∈ (s.handle starts (.hover uri text position request)).2 := by
  have hn : s.nextRun starts (s.settings.analyzer.invocation .symbols) = none := by
    rw [invocation] at hst
    simp [nextRun, hst]
  simp [handle, hr, hover, hn]

end Service

namespace System

variable {s t : System} {e : Event} {fs : List Effect}

def queued (s : System) : List Nat := s.commands.filterMap Command.request?

/-- What a step does with the hovers that wait or are sent: it answers them, or they wait. -/
theorem Goes.perm (hg : s.Goes e t fs) (hs : s.service.Sound) :
    (s.queued ++ s.service.pending ++ e.request?.toList).Perm
      (fs.filterMap Effect.answered? ++ t.queued ++ t.service.pending) := by
  apply List.perm_iff_count.2
  intro q
  have htaken {c : Command} {rest : List Command} (hq : s.commands = c :: rest) :
      s.queued.count q = (c.request?.toList ++ rest.filterMap Command.request?).count q := by
    rw [queued, hq, List.filterMap_cons]
    cases c.request? <;> rfl
  cases hg with
  | rests hr => cases e <;> simp_all [Rests, Event.request?]
  | @sends c => cases hc : c.request? <;> simp [queued, hc, Event.request?, List.count_cons]
  | drops =>
    simp [Event.request?]
    omega
  | @takes starts c rest hq =>
    have hp := (Service.perm_handle hs starts c).count_eq q
    have hc := htaken hq
    simp [queued, Event.request?] at hp hc ⊢
    omega
  | @takesLast starts c rest hq =>
    have hp := (Service.perm_handle hs starts c).count_eq q
    have hc := htaken hq
    simp [queued, Event.request?] at hp hc ⊢
    omega
  | hangsUp =>
    have hp := (Service.perm_handle hs (fun _ => false) .shutdown).count_eq q
    simp [queued, Command.request?, Event.request?] at hp ⊢
    omega
  | ends => simp [queued, Event.request?]
  | @attends place d =>
    have hp := (Service.perm_complete (d := d) hs).count_eq q
    simp [queued, Event.request?] at hp ⊢
    omega

/-- Nothing waits to be handled once the service has ended. -/
theorem Goes.commands_eq_nil (hg : s.Goes e t fs) (hs : s.service.running = false → s.commands = [])
    (hr : t.service.running = false) : t.commands = [] := by
  cases hg with
  | rests | drops | ends => exact hs hr
  | sends hr' => exact absurd (hr.symm.trans hr') Bool.false_ne_true
  | takes _ hr' =>
    rw [service_after] at hr
    exact absurd (hr.symm.trans hr') Bool.false_ne_true
  | takesLast => rw [commands_after]
  | hangsUp hq => rwa [commands_after]
  | attends =>
    rw [service_after, Service.running_complete] at hr
    rw [commands_after]
    exact hs hr

end System

namespace History

/-- The hovers that were sent before an event. -/
def sent (h : History) (n : Nat) : List Nat := (h.events.take n).filterMap Event.request?

/-- The hovers that were handled before an event. -/
def handled (h : History) (n : Nat) : List Nat :=
  (List.range n).flatMap fun k => ((h.command? k).bind Command.request?).toList

/-- The hovers that were answered before an event, each as often as it was. -/
def answers (h : History) (n : Nat) : List Nat := (h.log n).filterMap Effect.answered?

variable {h : History} {n m k : Nat} {starts : Invocation → Bool} {c : Command} {a : LiveRun}
  {o : Outcome} {uri text : String} {position : Position} {request : Nat} {x : Hover}
  {e : Registration HoverRequest}

theorem answers_succ : h.answers (n + 1) =
    h.answers n ++ (h.effects n).filterMap Effect.answered? := by
  rw [answers, log_succ, List.filterMap_append, answers]

theorem sent_succ (h : History) (n : Nat) :
    h.sent (n + 1) = h.sent n ++ (h.events[n]?.bind Event.request?).toList := by
  rw [sent, List.take_add_one, List.filterMap_append, sent]
  cases h.events[n]? with
  | none => rfl
  | some e => cases he : e.request? <;> simp [he]

theorem handled_succ : h.handled (n + 1) =
    h.handled n ++ ((h.command? n).bind Command.request?).toList := by
  simp [handled, List.range_succ]

theorem commands_of_ended (hr : (h.service n).running = false) : (h.state n).commands = [] := by
  induction n with
  | zero => rfl
  | succ n ih =>
    rcases h.state_succ_cases n with ⟨_, hs, _⟩ | ⟨e, _, hg⟩
    · rw [service, hs] at hr
      rw [hs]
      exact ih hr
    · exact hg.commands_eq_nil ih hr

/-- Every hover that was sent is answered, or queued, or pending. -/
theorem perm_sent (h : History) (n : Nat) : (h.sent n).Perm
    (h.answers n ++ (h.state n).queued ++ (h.service n).pending) := by
  induction n with
  | zero => exact List.Perm.refl _
  | succ n ih =>
    rw [sent_succ, answers_succ, service]
    rcases h.state_succ_cases n with ⟨he, hs, hf⟩ | ⟨e, he, hg⟩
    · simpa [he, hs, hf, service] using ih
    · rw [he, Option.bind_some]
      refine (ih.append_right _).trans ?_
      simp only [List.append_assoc]
      refine List.Perm.append_left _ ?_
      have hp := hg.perm (h.sound_service n)
      rwa [List.append_assoc, List.append_assoc] at hp

/-- A running service answers the hovers that were pending or are handled, or they are pending. -/
theorem perm_succ (hr : (h.service (n + 1)).running = true) :
    ((h.service n).pending ++ ((h.command? n).bind Command.request?).toList).Perm
      ((h.effects n).filterMap Effect.answered? ++ (h.service (n + 1)).pending) := by
  have hsound := h.sound_service n
  have hs := h.step n
  generalize h.service (n + 1) = t at hs hr ⊢
  generalize h.effects n = fs at hs ⊢
  cases hs with
  | idle dropped hh _ hq => simp [hq hr, command?_eq_none.2 hh]
  | command hc dropped hq =>
    rw [command?_eq_some.2 ⟨_, hc⟩, hq hr]
    simpa using Service.perm_handle hsound _ _
  | hungUp hn => exact absurd rfl ((Service.running_handle hn).1 hr)
  | attended hd =>
    rw [command?_eq_none.2 fun _ _ hc => not_attends_of_handles hc hd]
    simpa using Service.perm_complete hsound

/-- While the service runs, the hovers that are handled and not answered are the pending ones. -/
theorem perm_handled (hr : (h.service n).running = true) :
    (h.handled n).Perm (h.answers n ++ (h.service n).pending) := by
  induction n with
  | zero => exact List.Perm.refl _
  | succ n ih =>
    rw [handled_succ, answers_succ, List.append_assoc]
    refine ((ih (running_of_succ hr)).append_right _).trans ?_
    rw [List.append_assoc]
    exact (perm_succ hr).append_left _

/-- An answer that is not nothing is that of a run that returns with a report. -/
theorem returns_of_answered (hf : .answered request (some x) ∈ h.effects n) :
    ∃ m uri text position a output r,
      h.Returns m n (.hover uri text position request) a (.completed output) ∧
        (h.format n).read output = .ok r ∧ r.hoverAt position = some x := by
  rcases effects_cases hf with ⟨m, c, a, o, hr⟩ | ⟨starts, c, _, hf⟩ | ⟨_, hf⟩
  · rw [effects_of_returns hr] at hf
    obtain ⟨uri, text, position, r, rfl, hreport, hx⟩ := Command.answered_conclusion.1 hf
    obtain ⟨output, rfl, hread⟩ := Format.report?_eq_some.1 hreport
    exact ⟨m, uri, text, position, a, output, r, hr, hread, hx⟩
  · cases Service.answered_handle hf
  · cases hf

/-- A pending hover comes from its command. -/
theorem handles_of_pending (he : e ∈ (h.service n).hovers.entries) : ∃ m < n, ∃ starts text,
    h.Handles m starts (.hover e.key.uri text e.context.position e.context.request) := by
  have hj := Service.mem_jobs.2 (Or.inr ⟨e, he, rfl⟩)
  obtain ⟨_, m, l, ⟨starts, c, hc, hl, _, hjob⟩, hk⟩ := mem_jobs_iff.1 hj
  have hkey : e.key = l.key := congrArg Registration.key hjob
  have hreq : Sum.inr e.context = l.request := congrArg Registration.context hjob
  refine ⟨m, hk.lt, starts, l.text, ?_⟩
  cases c with
  | hover uri text position request =>
    cases hl
    rw [hkey, Sum.inr.inj hreq]
    exact hc
  | analyze uri version text =>
    cases hl
    cases hreq
  | _ => cases hl

theorem nodup_pending (h : History) (n : Nat) :
    ((h.service n).hovers.entries.map (·.key.uri)).Nodup := by
  have hs := (h.sound_service n).hovers
  apply List.Nodup.map_on _ hs.distinct.of_map
  intro a ha b hb hu
  exact Registry.eq_of_key hs.distinct ha hb
    (Key.eq_iff.2 ⟨hu, (hs.purpose a ha).trans (hs.purpose b hb).symm⟩)

theorem effects_of_pending (he : e ∈ (h.service n).hovers.entries)
    (hd : h.Attends n ⟨e.key, e.generation, o⟩) :
    h.effects n = [.released e.run, .answered e.context.request
      (((h.format n).report? o).bind (·.hoverAt e.context.position))] := by
  rw [(service_attended hd).2,
    Service.complete_hovers (h.sound_service n) (running_of_attends hd) he]
  rfl

theorem answered_nothing (hr : (h.service (n + 1)).running = false) {y : Option Hover}
    (hf : .answered request y ∈ h.effects n) : y = none := by
  cases y with
  | none => rfl
  | some x =>
    obtain ⟨_, _, _, _, _, _, _, hret, _⟩ := returns_of_answered hf
    rw [(service_attended hret.attended).1, Service.running_complete,
      running_of_attends hret.attended] at hr
    cases hr

/-- Every hover is answered once, and only from its own run. An answer that is not nothing describes
the first symbol at the hover's own position, as reported by the run that was started for its text,
while it is still the newest hover of its document; and a run that returns does answer its hover.
While the service runs, the hovers handled and not answered are the pending ones, at most one for
each document; one that is superseded, closed or not started is answered with nothing at once, and
one whose run ends is answered then. Once the service has ended, all hovers that were ever sent are
answered, with nothing from then on. -/
theorem hovers_answered_once (h : History) :
    (∀ n request x, .answered request (some x) ∈ h.effects n →
      ∃ m uri text position a output r symbol,
        h.Returns m n (.hover uri text position request) a (.completed output) ∧
        (∀ k starts c, m < k → k < n → h.Handles k starts c →
          (∀ text' position' request', c ≠ .hover uri text' position' request') ∧
            c ≠ .close uri) ∧
        (h.format n).read output = .ok r ∧
        r.symbols.find? (·.covers position) = some symbol ∧ x = r.hoverOf symbol) ∧
    (∀ m n uri text position request a o,
      h.Returns m n (.hover uri text position request) a o → h.effects n = [.released a.run,
        .answered request (((h.format n).report? o).bind (·.hoverAt position))]) ∧
    (∀ n, (h.service n).running = true →
      (h.handled n).Perm (h.answers n ++ (h.service n).pending) ∧
      ((h.service n).hovers.entries.map (·.key.uri)).Nodup ∧
      (∀ e ∈ (h.service n).hovers.entries,
        (∃ m < n, ∃ starts text,
          h.Handles m starts (.hover e.key.uri text e.context.position e.context.request)) ∧
        (∀ starts c, h.Handles n starts c → c.Evicts e.key →
          .answered e.context.request none ∈ h.effects n) ∧
        (∀ o, h.Attends n ⟨e.key, e.generation, o⟩ → h.effects n = [.released e.run,
          .answered e.context.request
            (((h.format n).report? o).bind (·.hoverAt e.context.position))])) ∧
      (∀ starts uri text position request,
        h.Handles n starts (.hover uri text position request) →
        starts ((h.service n).invocation ⟨uri, .symbols⟩) = false →
        .answered request none ∈ h.effects n)) ∧
    (∀ n, (h.sent n).Perm (h.answers n ++ (h.state n).queued ++ (h.service n).pending) ∧
      ((h.service n).running = false → (h.sent n).Perm (h.answers n)) ∧
      ((h.service (n + 1)).running = false →
        ∀ request y, .answered request y ∈ h.effects n → y = none)) := by
  refine ⟨?_, fun _ _ _ _ _ _ _ _ => effects_of_returns, ?_, ?_⟩
  · intro n request x hf
    obtain ⟨m, uri, text, position, a, output, r, hr, hread, hx⟩ := returns_of_answered hf
    obtain ⟨symbol, hsymbol, hx⟩ := Option.map_eq_some_iff.1 hx
    refine ⟨m, uri, text, position, a, output, r, symbol, hr, ?_, hread, hsymbol, hx.symm⟩
    intro k starts c hmk hkn hc
    exact ⟨fun _ _ _ => ne_of_returns hr rfl hmk hkn hc rfl, ne_of_returns hr rfl hmk hkn hc rfl⟩
  · intro n hr
    have hs := h.sound_service n
    refine ⟨perm_handled hr, h.nodup_pending n, fun e he => ⟨handles_of_pending he, ?_, ?_⟩, ?_⟩
    · intro starts c hc hev
      exact mem_effects hc (Service.answered_of_evicts hs hr he hev)
    · intro o hd
      exact effects_of_pending he hd
    · intro starts uri text position request hc hst
      exact mem_effects hc (Service.answered_of_not_starts hr hst)
  · intro n
    refine ⟨h.perm_sent n, fun hr => ?_, fun hr _ _ => answered_nothing hr⟩
    have hp := h.perm_sent n
    have hjobs := (h.sound_service n).ended hr
    have hhovers : (h.service n).hovers.entries = [] := by
      simpa [Service.jobs] using (List.append_eq_nil_iff.1 hjobs).2
    simpa [System.queued, commands_of_ended hr, Service.pending, hhovers] using hp

/-- A hover is superseded by another, which is answered, and one comes too late. -/
def threeHovers : History where
  settings := .default
  events := [.sent (.hover "a" "x" ⟨0, 0⟩ 7), .taken fun _ => true,
    .sent (.hover "a" "x" ⟨0, 0⟩ 8), .taken fun _ => true,
    .ended 1 (.completed "[\"Ok\",[],[[\"Global\",1,0,\"x\"]]]"), .attended 0,
    .sent .shutdown, .taken fun _ => true, .sent (.hover "a" "x" ⟨0, 0⟩ 9)]

theorem hovers_answered_once_threeHovers : threeHovers.sent 9 = [7, 8, 9] ∧
    (threeHovers.sent 9).Perm (threeHovers.answers 9) ∧
    (∃ x, .answered 8 (some x) ∈ threeHovers.effects 5) ∧
    .answered 7 none ∈ threeHovers.effects 3 ∧ .answered 9 none ∈ threeHovers.effects 8 := by
  have hr : (threeHovers.service 9).running = false := by decide +kernel
  have hp := ((hovers_answered_once threeHovers).2.2.2 9).2.1 hr
  refine ⟨by decide, hp, ⟨⟨"### x\n```qscript\nvar x; // unknown, Global\n```\n", .onLine 1 0 1⟩, ?_⟩,
    ?_, ?_⟩
  · decide +kernel
  · decide +kernel
  · decide +kernel

end History

end AnalyzerBridge
