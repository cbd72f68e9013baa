import AnalyzerBridge.Proofs.Service.Bridge

/-! Every state of a document is analysed, in order and with its own version. -/
namespace AnalyzerBridge

open Run

/-- The version that a message gives to the document at an address. -/
def EditorEvent.version? (uri : String) : EditorEvent → Option Int
  | opened uri' version _ | changed uri' version _ => if uri' = uri then some version else none
  | _ => none

/-- What `f` makes of messages, one after the other, each with the messages before it. -/
def inTurn {α : Type} (f : List EditorEvent → EditorEvent → Option α) (es : List EditorEvent) :
    List α :=
  (List.range es.length).filterMap fun i => es[i]?.bind (f (es.take i))

/-- The state of a document that a message brings about: its version, and the text that the document
has after it. -/
def snapshot? (uri : String) (before : List EditorEvent) (e : EditorEvent) : Option Document :=
  (e.version? uri).bind fun version =>
    (textAfter uri (before ++ [e])).map fun text => ⟨version, text⟩

/-- The states of a document, as messages bring them about. -/
def snapshots (uri : String) (es : List EditorEvent) : List Document := inTurn (snapshot? uri) es

/-- The launch for a state of a document. -/
def Document.launch (uri : String) (d : Document) : Launch :=
  ⟨⟨uri, .diagnostics⟩, .inl ⟨d.version⟩, d.text⟩

/-- The launch for a hover over an open document: it is given the text that the document has then.
-/
def hoverLaunch? (uri : String) (before : List EditorEvent) : EditorEvent → Option Launch
  | .hovered uri' position request =>
    if uri' = uri then
      (textAfter uri before).map fun text => ⟨⟨uri, .symbols⟩, .inr ⟨position, request⟩, text⟩
    else none
  | _ => none

/-- The launch that a command asks for, if it is one for this key. -/
def Command.launchFor? (key : Key) (c : Command) : Option Launch :=
  c.launch?.filter (·.key = key)

namespace Bridge

/-- The launch that the service attempts at an event. -/
def launch? (b : Bridge) (e : BridgeEvent) : Option Launch := (b.takes? e).bind Command.launch?

/-- The launches for a key that were attempted before a moment. -/
def launches (c : Course step) (key : Key) (n : Nat) : List Launch :=
  c.collect n fun b e => (b.launch? e).filter (·.key = key)

end Bridge

variable {w : Workspace} {uri : String} {e : EditorEvent} {es : List EditorEvent}

theorem inTurn_concat {α : Type} (f : List EditorEvent → EditorEvent → Option α) :
    inTurn f (es ++ [e]) = inTurn f es ++ (f es e).toList := by
  rw [inTurn, List.length_append, List.length_singleton, List.range_succ, List.filterMap_append]
  congr 1
  · refine List.filterMap_congr fun i hi => ?_
    have hi : i < es.length := List.mem_range.1 hi
    rw [List.getElem?_append_left hi, List.take_append_of_le_length (Nat.le_of_lt hi)]
  · cases h : f es e <;> simp [h]

theorem inTurn_map {α β : Type} (f : List EditorEvent → EditorEvent → Option α) (g : α → β) :
    inTurn (fun es e => (f es e).map g) es = (inTurn f es).map g := by
  rw [inTurn, inTurn, List.map_filterMap]
  congr 1
  funext i
  cases es[i]? <;> rfl

/-- A message asks for the diagnostics of the state that it brings about. -/
theorem diagnostics_handle (h : (w.find? uri).map (·.text) = textAfter uri es) :
    (w.handle e).2.bind (·.launchFor? ⟨uri, .diagnostics⟩) =
      (snapshot? uri es e).map (·.launch uri) := by
  cases e with
  | opened uri' version text =>
    by_cases hu : uri' = uri
    · subst hu
      have hr : (EditorEvent.opened uri' version text).renews uri' = true := by
        simp [EditorEvent.renews]
      simp [Workspace.handle, Command.launchFor?, Command.launch?, snapshot?, EditorEvent.version?,
        textAfter_of_renews hr, EditorEvent.opening?, Document.launch]
    · simp [Workspace.handle, Command.launchFor?, Command.launch?, snapshot?, EditorEvent.version?,
        hu]
  | changed uri' version edits =>
    by_cases hu : uri' = uri
    · subst hu
      have hr : (EditorEvent.changed uri' version edits).renews uri' = false := rfl
      cases hw : w.find? uri' <;>
        simp [Workspace.handle, Command.launchFor?, Command.launch?, snapshot?,
          EditorEvent.version?, textAfter_of_not_renews hr, ← h, hw, EditorEvent.edits,
          Document.launch, Document.edit, Document.typed]
    · cases hw : w.find? uri' <;>
        simp [Workspace.handle, Command.launchFor?, Command.launch?, snapshot?,
          EditorEvent.version?, hu, hw]
  | closed uri' => rfl
  | hovered uri' position request =>
    cases hw : w.find? uri' <;>
      simp [Workspace.handle, Command.launchFor?, Command.launch?, snapshot?, EditorEvent.version?,
        hw]

/-- A hover asks for the symbols of the text that its document has. -/
theorem hover_handle (h : (w.find? uri).map (·.text) = textAfter uri es) :
    (w.handle e).2.bind (·.launchFor? ⟨uri, .symbols⟩) = hoverLaunch? uri es e := by
  cases e with
  | opened uri' version text =>
    simp [Workspace.handle, Command.launchFor?, Command.launch?, hoverLaunch?]
  | changed uri' version edits =>
    cases hw : w.find? uri' <;>
      simp [Workspace.handle, Command.launchFor?, Command.launch?, hoverLaunch?, hw]
  | closed uri' => rfl
  | hovered uri' position request =>
    by_cases hu : uri' = uri
    · subst hu
      cases hw : w.find? uri' <;>
        simp [Workspace.handle, Command.launchFor?, Command.launch?, hoverLaunch?, ← h, hw]
    · cases hw : w.find? uri' <;>
        simp [Workspace.handle, Command.launchFor?, Command.launch?, hoverLaunch?, hw, hu]

/-- Some messages leave a document as it is: those about other documents, hovers, and changes while
it is not open. -/
def EditorEvent.Spares (uri : String) (w : Workspace) (e : EditorEvent) : Prop :=
  e.uri ≠ uri ∨ (∃ position request, e = .hovered uri position request) ∨
    w.find? uri = none ∧ ∃ version edits, e = .changed uri version edits

theorem find?_of_spares (h : e.Spares uri w) : (w.handle e).1.find? uri = w.find? uri := by
  rcases h with hu | ⟨position, request, rfl⟩ | ⟨hw, version, edits, rfl⟩
  · exact Workspace.find?_handle_of_ne hu
  · cases hw : w.find? uri <;> simp [Workspace.handle, hw]
  · simp [Workspace.handle, hw]

theorem snapshot?_of_spares (h : e.Spares uri w)
    (ht : (w.find? uri).map (·.text) = textAfter uri es) : snapshot? uri es e = none := by
  rcases h with hu | ⟨position, request, rfl⟩ | ⟨hw, version, edits, rfl⟩
  · cases e <;> simp_all [snapshot?, EditorEvent.version?, EditorEvent.uri]
  · rfl
  · have hr : (EditorEvent.changed uri version edits).renews uri = false := rfl
    simp [snapshot?, textAfter_of_not_renews hr, ← ht, hw]

namespace Bridge

variable {c : Course step} {settings : Settings} {n k : Nat} {b : Bridge} {key : Key}

section
variable {e : BridgeEvent} {s : Service} {q : List Command} {fs : List Effect}

/-- A step asks the launcher for the run of its launch, and for no other. -/
theorem Moves.launching (h : b.Moves e s q fs) (hr : b.service.running = true) :
    fs.filterMap Effect.launching? = ((b.launch? e).map fun l => (l.key, l.text)).toList := by
  rw [launch?]
  cases h with
  | idle _ ht => simp [ht]
  | sends _ ht => simp [ht]
  | takes starts _ ht => rw [ht, Option.bind_some, Service.launching_handle hr]
  | attends d _ ht =>
    rw [ht, List.filterMap_eq_nil_iff.2 fun f hf => (Service.launching_complete hf).1]
    rfl

/-- A run that starts is registered with the request of its launch. -/
theorem Moves.registered (h : b.Moves e s q fs) (hr : b.service.running = true)
    (hs : b.service.Sound) {run g : Nat} {i : Invocation} {t : String}
    (hf : .started run key g i t ∈ fs) : ∃ l, b.launch? e = some l ∧ l.key = key ∧ l.text = t ∧
      ⟨key, g, run, l.request⟩ ∈ s.jobs := by
  rw [launch?]
  cases h with
  | idle => cases hf
  | sends => cases hf
  | takes starts _ ht =>
    obtain ⟨l, hl, hst, _, rfl, hj⟩ := (Service.mem_started_handle hr).1 hf
    refine ⟨l, by rw [ht, Option.bind_some, hl], congrArg Registration.key hj, rfl, ?_⟩
    exact (Service.mem_jobs_handle hs hr).2 (Or.inr ⟨l, hl, hst, hj.symm⟩)
  | attends d => exact absurd rfl ((Service.launching_complete hf).2 _ _ _ _ _)

end

theorem launches_eq : launches c key n = (handled c n).filterMap (·.launchFor? key) := by
  rw [handled, ← Course.collect_bind, launches]
  congr 1
  funext b e
  rw [launch?]
  cases b.takes? e <;> rfl

theorem texts (hc : c.start = .initial settings) (n : Nat) (uri : String) :
    ((c.state n).workspace.find? uri).map (·.text) = textAfter uri (messages c n) := by
  induction n with
  | zero => rw [Course.state_zero, hc]; rfl
  | succ n ih =>
    rw [messages_succ]
    rcases c.succ_cases n with ⟨he, hs, _⟩ | ⟨e, he, hs, _⟩
    · simp [he, hs, ih]
    · rw [hs, workspace_step, he]
      cases hm : e.message? with
      | none => simp [hm, ih]
      | some m => simpa [hm] using Workspace.text_handle_eq_textAfter ih

/-- What the commands that were sent ask for is told by the messages, if it is for each of them. -/
theorem filterMap_sent {α : Type} {f : Command → Option α}
    {g : List EditorEvent → EditorEvent → Option α} (hconfigure : ∀ o, f (.configure o) = none)
    (hshutdown : f .shutdown = none)
    (hhandle : ∀ k m, ((c.state k).workspace.handle m).2.bind f = g (messages c k) m) :
    (sent c n).filterMap f = inTurn g (messages c n) := by
  induction n with
  | zero => rfl
  | succ n ih =>
    rw [sent_succ, messages_succ, List.filterMap_append, ih]
    cases he : c.event n with
    | none => simp
    | some e =>
      cases e with
      | edited m =>
        simp only [Option.bind_some, BridgeEvent.message?, Option.toList_some, inTurn_concat,
          ← hhandle, sends?]
        cases ((c.state n).workspace.handle m).2 with
        | none => rfl
        | some cmd => cases hf : f cmd <;> simp [hf]
      | configured o => simp [BridgeEvent.message?, sends?, hconfigure]
      | shutDown => simp [BridgeEvent.message?, sends?, hshutdown]
      | _ => simp [BridgeEvent.message?, sends?]

section
variable (hc : c.start = .initial settings) (hs : ¬ c.Happened n (· = .shutDown))
include hc hs

theorem launches_of_handled (hq : (c.state n).commands = []) :
    launches c key n = (sent c n).filterMap (·.launchFor? key) := by
  rw [launches_eq, ← (serving hc hs).queue, hq, List.append_nil]

theorem launching_effects (hk : k < n) : (c.effects k).filterMap Effect.launching? =
    (((c.event k).bind (c.state k).launch?).map fun l => (l.key, l.text)).toList := by
  have hsk : ¬ c.Happened k (· = .shutDown) := mt (Course.happened_mono (Nat.le_of_lt hk)) hs
  have h := serving hc hsk
  rcases c.succ_cases k with ⟨he, _, hf⟩ | ⟨e, he, _, _⟩
  · simp [he, hf]
  · rw [he, Option.bind_some]
    exact (h.moves hsk he).launching h.running

theorem registered_of_started (hk : k < n) {run g : Nat} {i : Invocation} {t : String}
    (hf : .started run key g i t ∈ c.effects k) :
    ∃ l, (c.event k).bind (c.state k).launch? = some l ∧ l.key = key ∧ l.text = t ∧
      ⟨key, g, run, l.request⟩ ∈ (c.state (k + 1)).service.jobs := by
  have hsk : ¬ c.Happened k (· = .shutDown) := mt (Course.happened_mono (Nat.le_of_lt hk)) hs
  have h := serving hc hsk
  rcases c.succ_cases k with ⟨_, _, hnil⟩ | ⟨e, he, _, _⟩
  · rw [hnil] at hf
    cases hf
  · rw [he, Option.bind_some]
    exact (h.moves hsk he).registered h.running h.sound hf

end

/-- Every state of a document is analysed. Until the editor shuts the service down, and once the
service has handled all commands, the launches for the diagnostics of a document are exactly its
states: one for each opening, and one for each change while it is open, in the order of the
messages, with the version of the message and with the text with which the document was opened last,
after all edits since. Each hover over an open document is a launch with the text that the document
has then. Every launch asks the launcher once for its key and its text, and a run that starts for it
is registered with its version. Messages about other documents, hovers, and changes while it is not
open add no launch, and leave the document as it is. -/
theorem snapshots_launched (c : Course step) (settings : Settings) (n : Nat)
    (hc : c.start = .initial settings) (hs : ¬ c.Happened n (· = .shutDown))
    (hq : (c.state n).commands = []) :
    (∀ uri, launches c ⟨uri, .diagnostics⟩ n =
      (snapshots uri (messages c n)).map (·.launch uri)) ∧
    (∀ uri, launches c ⟨uri, .symbols⟩ n = inTurn (hoverLaunch? uri) (messages c n)) ∧
    (∀ k < n, (c.effects k).filterMap Effect.launching? =
      (((c.event k).bind (c.state k).launch?).map fun l => (l.key, l.text)).toList) ∧
    (∀ k < n, ∀ run key g i t, .started run key g i t ∈ c.effects k →
      ∃ l, (c.event k).bind (c.state k).launch? = some l ∧ l.key = key ∧ l.text = t ∧
        ⟨key, g, run, l.request⟩ ∈ (c.state (k + 1)).service.jobs) ∧
    ∀ uri k e, c.event k = some (.edited e) → e.Spares uri (c.state k).workspace →
      snapshots uri (messages c (k + 1)) = snapshots uri (messages c k) ∧
      ((c.state k).workspace.handle e).2.bind (·.launchFor? ⟨uri, .diagnostics⟩) = none ∧
      (c.state (k + 1)).workspace.find? uri = (c.state k).workspace.find? uri := by
  refine ⟨?_, ?_, fun k hk => launching_effects hc hs hk, ?_, ?_⟩
  · intro uri
    rw [launches_of_handled hc hs hq, snapshots, ← inTurn_map]
    exact filterMap_sent (fun _ => rfl) rfl fun k m => diagnostics_handle (texts hc k uri)
  · intro uri
    rw [launches_of_handled hc hs hq]
    exact filterMap_sent (fun _ => rfl) rfl fun k m => hover_handle (texts hc k uri)
  · intro k hk run key g i t hf
    exact registered_of_started hc hs hk hf
  · intro uri k e he hl
    have hnone := snapshot?_of_spares hl (texts hc k uri)
    refine ⟨?_, ?_, ?_⟩
    · rw [snapshots, messages_succ, he]
      simp [BridgeEvent.message?, inTurn_concat, hnone, snapshots]
    · rw [diagnostics_handle (texts hc k uri), hnone]
      rfl
    · rw [Course.state_succ he, workspace_step]
      exact find?_of_spares hl

/-- A document is opened, changed twice in one message, hovered over, closed, changed while it is
not open, and opened again; another one is changed without being open. Then the service handles all
commands, and one of its launches fails. -/
def reopened : Course step :=
  .ofList (.initial .default) [.edited (.opened "a" 1 "x"), .edited (.changed "b" 7 [⟨none, "w"⟩]),
    .edited (.changed "a" 2 [⟨some ⟨⟨0, 1⟩, ⟨0, 1⟩⟩, "y"⟩, ⟨some ⟨⟨0, 0⟩, ⟨0, 1⟩⟩, ""⟩]),
    .edited (.hovered "a" ⟨0, 0⟩ 5), .edited (.closed "a"), .edited (.changed "a" 3 [⟨none, "v"⟩]),
    .edited (.opened "a" 1 "z"), .taken fun _ => true, .taken fun _ => false, .taken fun _ => true,
    .taken fun _ => true, .taken fun _ => true]

theorem snapshots_launched_reopened : ¬ reopened.Happened 12 (· = .shutDown) ∧
    (reopened.state 12).commands = [] ∧
    launches reopened ⟨"a", .diagnostics⟩ 12 =
      [⟨1, "x"⟩, ⟨2, "y"⟩, ⟨1, "z"⟩].map (Document.launch "a") ∧
    launches reopened ⟨"b", .diagnostics⟩ 12 = [] ∧
    launches reopened ⟨"a", .symbols⟩ 12 = [⟨⟨"a", .symbols⟩, .inr ⟨⟨0, 0⟩, 5⟩, "y"⟩] := by
  have hs : ¬ reopened.Happened 12 (· = .shutDown) :=
    Course.not_happened_ofList (by simp) 12
  have hq : (reopened.state 12).commands = [] := List.isEmpty_iff.1 (by decide +kernel)
  obtain ⟨hd, hh, _⟩ := snapshots_launched reopened .default 12 rfl hs hq
  refine ⟨hs, hq, ?_, ?_, ?_⟩
  · rw [hd, show snapshots "a" (messages reopened 12) = [⟨1, "x"⟩, ⟨2, "y"⟩, ⟨1, "z"⟩] by
      decide +kernel]
  · rw [hd, show snapshots "b" (messages reopened 12) = [] by decide +kernel]
    rfl
  · rw [hh]
    rfl

end Bridge

end AnalyzerBridge
