import AnalyzerBridge.Proofs.Service.Bridge
import AnalyzerBridge.Session.Server

/-! The server goes the way of the bridge: a session, with whatever messages it receives and however
its runs end, is a course of the bridge. -/
namespace AnalyzerBridge.Session.Server

open Run

variable {s t : Server} {step : Step} {starts : Invocation → Bool}

def bridge (s : Server) : Bridge := ⟨s.workspace, s.system⟩

/-- From a server with no waiting commands, a step goes the way of the bridge, and leaves none. -/
structure Follows (s : Server) (step : Step) : Prop where
  run : ∃ es, Course.run Bridge.step s.bridge es = (step.server.bridge, step.effects)
  commands : step.server.system.commands = []

theorem bridge_deliverAll (s : Server) (fs : List Effect) :
    (s.deliverAll fs).1.bridge = s.bridge := by
  induction fs generalizing s with
  | nil => rfl
  | cons f fs ih =>
    simp only [deliverAll, ih]
    cases f <;> rfl

theorem bridge_after (s : Server) (r : System × List Effect) :
    (s.after r).server.bridge = ⟨s.workspace, r.1⟩ :=
  bridge_deliverAll _ _

theorem system_after (s : Server) (r : System × List Effect) : (s.after r).server.system = r.1 :=
  congrArg Bridge.system (bridge_after s r)

/-- A step that changes neither documents nor system is none of the bridge. -/
theorem follows_of_same (hq : s.system.commands = []) (hb : step.server.bridge = s.bridge)
    (hf : step.effects = []) : s.Follows step where
  run := ⟨[], by rw [hb, hf]; rfl⟩
  commands := (congrArg (·.system.commands) hb).trans hq

/-- What is done before and after a step, without the documents and the system, does not matter. -/
theorem Follows.congr {other : Step} (h : s.Follows step) (hs : t.bridge = s.bridge)
    (hb : other.server.bridge = step.server.bridge) (hf : other.effects = step.effects) :
    t.Follows other where
  run := by rw [hs, hb, hf]; exact h.run
  commands := (congrArg (·.system.commands) hb).trans h.commands

theorem commands_handle (hq : s.system.commands = []) (c : Command) :
    (s.system.handle starts c).1.commands = [] := by
  cases hr : s.system.service.running with
  | false => simp [System.handle, System.send, System.take, hr, hq]
  | true =>
    simp only [System.handle, System.send, hr, if_true, System.take, hq, List.nil_append]
    split <;> exact System.commands_after

/-- A command is sent at an event of the bridge, and taken at the next one. -/
theorem follows_command {e : BridgeEvent} {c : Command} {w : Workspace}
    (hq : s.system.commands = []) (he : s.bridge.pass e = (w, some (.sent c))) :
    s.Follows (({ s with workspace := w } : Server).command starts c) where
  run := by
    refine ⟨[e, .taken starts], ?_⟩
    simp only [Course.run, Bridge.step, he, command, bridge_after]
    simp [Bridge.pass, System.handle, System.step, after, bridge]
  commands := by
    rw [command, system_after]
    exact commands_handle hq c

theorem follows_event (hq : s.system.commands = []) (e : EditorEvent) :
    s.Follows (s.event starts e) := by
  rw [event]
  cases hw : s.workspace.handle e with
  | mk w c =>
    cases c with
    | none =>
      refine ⟨⟨[.edited e], ?_⟩, hq⟩
      simp [Course.run, Bridge.step, Bridge.pass, bridge, hw, idle]
    | some c =>
      refine follows_command (e := .edited e) hq ?_
      simp [Bridge.pass, bridge, hw]

theorem follows_finish (hq : s.system.commands = []) (run : Nat) (o : Outcome) :
    s.Follows (s.finish run o) where
  run := by
    refine ⟨[.ended run o, .attended s.system.ends.length], ?_⟩
    rw [finish, bridge_after]
    simp [Course.run, Bridge.step, Bridge.pass, System.step, System.finish, bridge, after]
  commands := by
    rw [finish, system_after, System.finish, System.attend]
    split <;> simp [hq]

variable {id params : Option Json}

theorem follows_reply (hq : s.system.commands = []) (answer : Except Refusal Json) :
    s.Follows (s.reply id answer) :=
  follows_of_same hq rfl rfl

theorem follows_idle (hq : s.system.commands = []) : s.Follows s.idle :=
  follows_of_same hq rfl rfl

theorem follows_notified (hq : s.system.commands = []) (f : Form EditorEvent) :
    s.Follows (s.notified starts f params) := by
  rw [notified]
  cases required f params with
  | ok e => exact follows_event hq e
  | error reason => exact follows_idle hq

theorem follows_hover (hq : s.system.commands = []) : s.Follows (s.hover starts id params) := by
  rw [hover]
  split
  · exact follows_reply hq _
  · next place _ =>
    split
    · exact follows_reply hq _
    · let asked : Server :=
        { s with hovers := s.hovers + 1, waiting := s.waiting ++ id.toList.map (s.hovers, ·) }
      have h : asked.Follows (asked.event starts (.hovered place.uri place.position s.hovers)) :=
        follows_event (s := asked) hq _
      exact h.congr rfl rfl rfl

theorem follows_start (hq : s.system.commands = []) : s.Follows (s.start starts id params) := by
  rw [start]
  split
  · split
    · exact follows_of_same hq rfl rfl
    · next options _ =>
      let ready : Server := { s with life := .ready }
      have h : ready.Follows (ready.command starts (.configure options.canonical)) :=
        follows_command (e := .configured options.canonical) hq rfl
      exact h.congr rfl rfl rfl
  · exact follows_reply hq _
  · exact follows_reply hq _

theorem follows_shutdown (hq : s.system.commands = []) :
    s.Follows (s.shutdown starts id params) := by
  rw [shutdown]
  split
  · exact follows_reply hq _
  · let stopped : Server := { s with life := .stopped }
    have h : stopped.Follows (stopped.command starts .shutdown) :=
      follows_command (e := .shutDown) hq rfl
    exact h.congr rfl rfl rfl

theorem follows_serve (hq : s.system.commands = []) (m : Method) :
    s.Follows (s.serve starts m id params) := by
  cases m with
  | didOpen => exact follows_notified hq _
  | didChange => exact follows_notified hq _
  | didClose => exact follows_notified hq _
  | hover => exact follows_hover hq
  | shutdown => exact follows_shutdown hq
  | completion =>
    rw [serve]
    split <;> exact follows_reply hq _
  | resolveCompletion =>
    rw [serve]
    split <;> exact follows_reply hq _
  | _ => exact follows_of_same hq rfl rfl

theorem follows_whileReady (hq : s.system.commands = []) (h : s.Follows step) :
    s.Follows (s.whileReady id step) := by
  rw [whileReady]
  split
  · exact follows_reply hq _
  · exact h
  · exact follows_reply hq _
  · exact follows_idle hq

/-- Whatever message a server receives, it goes the way of the bridge. -/
theorem follows_receive (hq : s.system.commands = []) (starts : Invocation → Bool) (m : Message) :
    s.Follows (s.receive starts m) := by
  rw [receive]
  split
  · exact follows_idle hq
  · split
    · exact follows_start hq
    · exact follows_of_same hq rfl rfl
    · rw [cancelRequest]
      split <;> exact follows_of_same hq rfl rfl
    · exact follows_whileReady hq (follows_serve hq _)
    · split
      · exact follows_whileReady hq (follows_reply hq _)
      · exact follows_reply hq _

/-- The servers of sessions, each with all that its service has done. -/
inductive Reached (settings : Settings) : Server → List Effect → Prop where
  | initial : Reached settings (.initial settings) []
  | received {s : Server} {fs : List Effect} (h : Reached settings s fs)
      (starts : Invocation → Bool) (m : Message) :
      Reached settings (s.receive starts m).server (fs ++ (s.receive starts m).effects)
  | finished {s : Server} {fs : List Effect} (h : Reached settings s fs) (run : Nat) (o : Outcome) :
      Reached settings (s.finish run o).server (fs ++ (s.finish run o).effects)

theorem Follows.extend {settings : Settings} {fs : List Effect} (h : s.Follows step)
    (hs : ∃ es, Course.run Bridge.step (.initial settings) es = (s.bridge, fs)) :
    ∃ es, Course.run Bridge.step (.initial settings) es =
      (step.server.bridge, fs ++ step.effects) := by
  obtain ⟨es, hes⟩ := hs
  obtain ⟨new, hnew⟩ := h.run
  exact ⟨es ++ new, by rw [Course.run_append, hes, hnew]⟩

theorem run_of_reached {settings : Settings} {fs : List Effect} (h : Reached settings s fs) :
    s.system.commands = [] ∧
      ∃ es, Course.run Bridge.step (.initial settings) es = (s.bridge, fs) := by
  induction h with
  | initial => exact ⟨rfl, [], rfl⟩
  | received _ starts m ih =>
    have h := follows_receive ih.1 starts m
    exact ⟨h.commands, h.extend ih.2⟩
  | finished _ run o ih =>
    have h := follows_finish ih.1 run o
    exact ⟨h.commands, h.extend ih.2⟩

/-- A session of the server is a course of the bridge in which no command waits any more. -/
theorem course_of_reached {settings : Settings} {fs : List Effect} (h : Reached settings s fs) :
    ∃ (c : Course Bridge.step) (n : Nat), c.start = .initial settings ∧ c.state n = s.bridge ∧
      c.log n = fs ∧ (c.state n).commands = [] := by
  obtain ⟨hq, es, hes⟩ := run_of_reached h
  have hc := Course.ofList_eq_run Bridge.step (.initial settings) es es.length
  rw [List.take_length, hes, Prod.mk.injEq] at hc
  refine ⟨.ofList (.initial settings) es, es.length, rfl, hc.1, hc.2, ?_⟩
  rw [hc.1]
  exact hq

end AnalyzerBridge.Session.Server
