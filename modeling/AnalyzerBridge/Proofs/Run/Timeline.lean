import AnalyzerBridge.Proofs.Run.Deliveries

/-! A run that follows a timeline ends as a driver may end it: what `Timeline.ending` finds is
delivered in one of the driver's courses. -/
namespace AnalyzerBridge.Run

variable {t : Timeline} {b : Bounds} {now : Nat} {o : Outcome} {p q : Phase} {br : Branch}
  {times : List Nat} {ready : Nat → Ready} {input : List UInt8}

theorem Phase.goes_of_next? {r : Ready} (h : p.next? r = some q) : ∃ br, p.Goes r br q := by
  obtain ⟨_, br, _, _, ht, _⟩ := List.findSome?_eq_some_iff.1 h
  exact ⟨br, Phase.take_eq_some.1 ht⟩

namespace Timeline

theorem goes_of_firstMove (h : firstMove ready p times = some (now, q)) :
    ∃ br, p.Goes (ready now) br q := by
  induction times with
  | nil => cases h
  | cons first rest ih =>
    rw [firstMove] at h
    split at h
    · next hq =>
      cases h
      exact Phase.goes_of_next? hq
    · exact ih h

/-- A run ends during its exchange, or after it. -/
theorem ending_cases (h : t.ending b = some (now, o)) :
    (∃ br, Phase.exchanging.Goes (t.ready b none now) br (.ended o)) ∨
      ∃ since output br, (t.ready b none since).output = some (.ok output) ∧
        (Phase.lingering output).Goes (t.ready b (some since) now) br (.ended o) := by
  rw [ending] at h
  split at h
  · next hm =>
    cases h
    exact Or.inl (goes_of_firstMove hm)
  · next since p hp hm =>
    obtain ⟨br, hg⟩ := goes_of_firstMove hm
    simp only at h
    split at h
    · next hm' =>
      cases h
      obtain ⟨br', hg'⟩ := goes_of_firstMove hm'
      cases hg with
      | exchanged _ ho => exact Or.inr ⟨since, _, br', ho, hg'⟩
      | cancelled => exact absurd rfl (hg'.not_ended _)
      | timedOut => exact absurd rfl (hg'.not_ended _)
      | readFailed => exact absurd rfl (hg'.not_ended _)
    · cases h
  · cases h

theorem limited_of_limitOver {since : Option Nat} (h : (t.ready b since now).limitOver = true) :
    b.limit.isSome = true := by
  cases hl : b.limit with
  | none => simp [ready, reached, hl] at h
  | some _ => rfl

end Timeline

/-- The analyzer stops reading, and its output is read to its end. -/
def exchange (output : List UInt8) : List DriverEvent := [.refused, .read output, .outputEnded]

theorem deliveries_of_enter {c : Course Driver.step} {limited : Bool} {n : Nat} {d : Driver}
    (hc : c.start = .begin input limited) (ho : o.Prompt)
    (h : c.state n = (d.enter br (.ended o)).1) : deliveries c n = [o] := by
  rw [deliveries_eq hc, h, Driver.enter_of_prompt ho,
    Driver.delivered?_eq_some.2 ⟨Driver.phase_deliver _ _, Driver.stopping_deliver _ _⟩]
  rfl

/-- What a timeline ends by is delivered in some course of the driver. -/
theorem delivers_of_ending (input : List UInt8) (h : t.ending b = some (now, o)) :
    ∃ c : Course Driver.step, c.start = .begin input b.limit.isSome ∧
      ∃ n, deliveries c n = [o] := by
  rcases Timeline.ending_cases h with ⟨br, hg⟩ | ⟨since, output, br, _, hg⟩
  · cases hg with
    | cancelled =>
      let events : List DriverEvent :=
        [.stopAsked, .looked .cancelled, .left (.ok (.code 0)), .reaped]
      exact ⟨.ofList (.begin input _) events, rfl, 4, rfl⟩
    | timedOut hr =>
      let events : List DriverEvent :=
        [.limitPassed, .looked .limitOver, .left (.ok (.signal 9 false)), .reaped]
      rw [Timeline.limited_of_limitOver hr]
      exact ⟨.ofList (.begin input true) events, rfl, 4, rfl⟩
    | readFailed _ ho => simp [Timeline.ready] at ho
  · cases hg with
    | cancelled =>
      let events : List DriverEvent :=
        [.stopAsked, .looked .cancelled, .left (.ok (.code 0)), .reaped]
      exact ⟨.ofList (.begin input _) (exchange output ++ events), rfl, 7, rfl⟩
    | @left _ x =>
      let events : List DriverEvent := [.left x, .looked .left]
      refine ⟨.ofList (.begin input _) (exchange output ++ events), rfl, 5, ?_⟩
      exact deliveries_of_enter rfl (prompt_outcomeOfExit output x) rfl
    | limitOver hr =>
      let events : List DriverEvent := [.limitPassed, .looked .limitOver]
      rw [Timeline.limited_of_limitOver hr]
      refine ⟨.ofList (.begin input true) (exchange output ++ events), rfl, 5, ?_⟩
      exact deliveries_of_enter rfl (Outcome.prompt_ofBytes output) rfl
    | graceOver =>
      let events : List DriverEvent := [.gracePassed, .looked .graceOver]
      refine ⟨.ofList (.begin input _) (exchange output ++ events), rfl, 5, ?_⟩
      exact deliveries_of_enter rfl (Outcome.prompt_ofBytes output) rfl

end AnalyzerBridge.Run
