import AnalyzerBridge.Proofs.Course
import AnalyzerBridge.Proofs.Editor.Workspace
import AnalyzerBridge.Proofs.Service.History
import AnalyzerBridge.Service.Bridge

/-! What passes between the editor and the service, until the editor shuts it down: every command
that was sent is handled or still waits, in the order in which it was sent. -/
namespace AnalyzerBridge

open Run

def BridgeEvent.message? : BridgeEvent → Option EditorEvent
  | edited e => some e
  | _ => none

def Command.uri? : Command → Option String
  | analyze uri _ _ | close uri | hover uri _ _ _ => some uri
  | _ => none

namespace Bridge

def service (b : Bridge) : Service := b.system.service

def commands (b : Bridge) : List Command := b.system.commands

def sends? (b : Bridge) : BridgeEvent → Option Command
  | .edited e => (b.workspace.handle e).2
  | .configured overrides => some (.configure overrides)
  | .shutDown => some .shutdown
  | _ => none

def takes? (b : Bridge) : BridgeEvent → Option Command
  | .taken _ => b.commands.head?
  | _ => none

/-- What an event does to a service that runs, to the commands that wait, and what the service does
then. -/
inductive Moves (b : Bridge) (e : BridgeEvent) : Service → List Command → List Effect → Prop where
  | idle (hs : b.sends? e = none) (ht : b.takes? e = none) : Moves b e b.service b.commands []
  | sends {c : Command} (hs : b.sends? e = some c) (ht : b.takes? e = none) :
      Moves b e b.service (b.commands ++ [c]) []
  | takes {c : Command} {rest : List Command} (starts : Invocation → Bool) (hs : b.sends? e = none)
      (ht : b.takes? e = some c) (hq : b.commands = c :: rest) (hc : c ≠ .shutdown) :
      Moves b e (b.service.handle starts c).1 rest (b.service.handle starts c).2
  | attends (d : Completion) (hs : b.sends? e = none) (ht : b.takes? e = none) :
      Moves b e (b.service.complete d).1 b.commands (b.service.complete d).2

variable {b : Bridge} {e : BridgeEvent} {uri : String}

theorem workspace_step : (b.step e).1.workspace =
    (e.message?.map fun m => (b.workspace.handle m).1).getD b.workspace := by
  cases e with
  | edited m => cases hm : (b.workspace.handle m).2 <;> simp [step, pass, BridgeEvent.message?, hm]
  | _ => rfl

theorem moves_of_sent (hr : b.service.running = true) {c : Command} {w : Workspace}
    (hs : b.sends? e = some c) (ht : b.takes? e = none) (hp : b.pass e = (w, some (.sent c))) :
    b.Moves e (b.step e).1.service (b.step e).1.commands (b.step e).2 := by
  have hsend : b.system.step (.sent c) =
      ({ b.system with commands := b.system.commands ++ [c] }, []) := by
    exact if_pos hr
  simp only [step, hp, hsend]
  exact .sends hs ht

theorem moves_step (hr : b.service.running = true) (hn : .shutdown ∉ b.commands) :
    b.Moves e (b.step e).1.service (b.step e).1.commands (b.step e).2 := by
  cases e with
  | edited m =>
    cases hm : (b.workspace.handle m).2 with
    | some c =>
      refine moves_of_sent hr hm rfl (w := (b.workspace.handle m).1) ?_
      simp only [pass, hm, Option.map_some]
    | none =>
      simp only [step, pass, hm]
      exact .idle hm rfl
  | configured overrides => exact moves_of_sent hr rfl rfl rfl
  | shutDown => exact moves_of_sent hr rfl rfl rfl
  | taken starts =>
    simp only [step, pass, System.step, System.take]
    cases hq : b.system.commands with
    | nil => exact .idle rfl (congrArg List.head? hq)
    | cons c rest =>
      have hne : c ≠ .shutdown := by
        rintro rfl
        exact hn (by simp [commands, hq])
      have hrun : (b.system.service.handle starts c).1.running = true :=
        (Service.running_handle hr).2 hne
      simp only [hrun, if_true, service, commands, System.service_after, System.commands_after,
        System.effects_after]
      exact .takes starts rfl (congrArg List.head? hq) hq hne
  | ended run o =>
    simp only [step, pass, System.step, service, commands, System.service_conclude,
      System.commands_conclude]
    exact .idle rfl rfl
  | attended place =>
    simp only [step, pass, System.step, System.attend]
    cases b.system.ends[place]? with
    | none => exact .idle rfl rfl
    | some d =>
      simp only [service, commands, System.service_after, System.commands_after,
        System.effects_after]
      exact .attends d rfl rfl

/-- Nothing but a shutdown sends one. -/
theorem shutDown_of_sends (h : b.sends? e = some .shutdown) : e = .shutDown := by
  cases e with
  | shutDown => rfl
  | edited m =>
    cases m with
    | opened => cases h
    | closed => cases h
    | changed uri =>
      cases hw : b.workspace.find? uri <;> simp [sends?, Workspace.handle, hw] at h
    | hovered uri =>
      cases hw : b.workspace.find? uri <;> simp [sends?, Workspace.handle, hw] at h
  | _ => cases h

namespace Moves

variable {s : Service} {q : List Command} {fs : List Effect}

theorem running (h : b.Moves e s q fs) (hr : b.service.running = true) : s.running = true := by
  cases h with
  | idle => exact hr
  | sends => exact hr
  | takes starts _ _ _ hc => exact (Service.running_handle hr).2 hc
  | attends d => exact Service.running_complete.trans hr

theorem sound (h : b.Moves e s q fs) (hs : b.service.Sound) : s.Sound := by
  cases h with
  | idle => exact hs
  | sends => exact hs
  | takes => exact Service.sound_handle hs
  | attends => exact Service.sound_complete hs

/-- What waited or is sent waits then, but for what is handled. -/
theorem queue (h : b.Moves e s q fs) :
    (b.takes? e).toList ++ q = b.commands ++ (b.sends? e).toList := by
  cases h with
  | idle hs ht => simp [hs, ht]
  | sends hs ht => simp [hs, ht]
  | takes starts hs ht hq => simp [hs, ht, hq]
  | attends d hs ht => simp [hs, ht]

end Moves

/-- The messages that were handled before a moment. -/
def messages (c : Course step) (n : Nat) : List EditorEvent :=
  c.collect n fun _ e => e.message?

/-- The commands that were sent before a moment. -/
def sent (c : Course step) (n : Nat) : List Command := c.collect n sends?

/-- The commands that the service has handled before a moment. -/
def handled (c : Course step) (n : Nat) : List Command := c.collect n takes?

/-- The service runs, and every command that was sent is handled or waits. -/
structure Serving (c : Course step) (n : Nat) : Prop where
  running : (c.state n).service.running = true
  sound : (c.state n).service.Sound
  queue : handled c n ++ (c.state n).commands = sent c n

variable {c : Course step} {settings : Settings} {n m k : Nat}

theorem messages_succ : messages c (n + 1) =
    messages c n ++ ((c.event n).bind BridgeEvent.message?).toList :=
  Course.collect_succ

theorem sent_succ : sent c (n + 1) = sent c n ++ ((c.event n).bind (c.state n).sends?).toList :=
  Course.collect_succ

theorem handled_succ :
    handled c (n + 1) = handled c n ++ ((c.event n).bind (c.state n).takes?).toList :=
  Course.collect_succ

theorem shutdown_not_mem_sent (hs : ¬ c.Happened n (· = .shutDown)) : .shutdown ∉ sent c n := by
  intro h
  obtain ⟨k, hk, e, he, h⟩ := Course.mem_collect.1 h
  exact hs ⟨k, hk, e, he, shutDown_of_sends h⟩

theorem Serving.moves (h : Serving c n) (hs : ¬ c.Happened n (· = .shutDown))
    (he : c.event n = some e) :
    (c.state n).Moves e (c.state (n + 1)).service (c.state (n + 1)).commands (c.effects n) := by
  rw [Course.state_succ he, Course.effects_eq he]
  refine moves_step h.running fun hc => shutdown_not_mem_sent hs ?_
  rw [← h.queue]
  exact List.mem_append_right _ hc

section
variable (hc : c.start = .initial settings)
include hc

theorem serving_zero : Serving c 0 where
  running := by rw [Course.state_zero, hc]; rfl
  sound := by rw [Course.state_zero, hc]; exact Service.sound_initial settings
  queue := by rw [Course.state_zero, hc]; rfl

/-- Until it is shut down, the service runs, and handles what was sent. -/
theorem serving (hs : ¬ c.Happened n (· = .shutDown)) : Serving c n := by
  induction n with
  | zero => exact serving_zero hc
  | succ n ih =>
    have hn : ¬ c.Happened n (· = .shutDown) := mt (Course.happened_mono n.le_succ) hs
    have h := ih hn
    rcases c.succ_cases n with ⟨he, hstate, _⟩ | ⟨e, he, _, _⟩
    · refine ⟨hstate ▸ h.running, hstate ▸ h.sound, ?_⟩
      simp [hstate, handled_succ, sent_succ, he, h.queue]
    · have hm := h.moves hn he
      refine ⟨hm.running h.running, hm.sound h.sound, ?_⟩
      rw [handled_succ, sent_succ, he, Option.bind_some, Option.bind_some, List.append_assoc,
        hm.queue, ← List.append_assoc, h.queue]

end

end Bridge

end AnalyzerBridge
