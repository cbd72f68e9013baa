import AnalyzerBridge.Proofs.Service.Bridge

/-! A closed document shows nothing, and nothing runs for it. -/
namespace AnalyzerBridge

open Run

/-- The last of these commands that is about a document, if there is one, closes it. -/
def Ceases (uri : String) (cs : List Command) : Prop :=
  ∀ c, (cs.filter (·.uri? = some uri)).getLast? = some c → c = .close uri

namespace Bridge

/-- A document shows nothing, and nothing runs for it: what was published for it last, if anything
was, is the empty set without a version, and no run is registered for it. -/
structure Quiet (c : Course step) (uri : String) (n : Nat) : Prop where
  cleared : ∀ f, ((c.log n).filter (Effect.publishes uri)).getLast? = some f →
    f = .published uri [] none
  idle : ∀ j ∈ (c.state n).service.jobs, j.key.uri ≠ uri

end Bridge

variable {w : Workspace} {uri : String} {e : EditorEvent} {cs : List Command} {cmd : Command}

theorem ceases_nil : Ceases uri [] := by
  intro c h
  cases h

theorem ceases_concat_of_ne (h : cmd.uri? ≠ some uri) :
    Ceases uri (cs ++ [cmd]) ↔ Ceases uri cs := by
  simp [Ceases, List.filter_append, h]

theorem ceases_concat_of_eq (h : cmd.uri? = some uri) :
    Ceases uri (cs ++ [cmd]) ↔ cmd = .close uri := by
  simp [Ceases, List.filter_append, h]

theorem Command.uri?_of_launch {l : Launch} (h : cmd.launch? = some l) :
    cmd.uri? = some l.key.uri := by
  cases cmd <;> simp_all [Command.launch?, Command.uri?] <;> simp [← h]

namespace Workspace

theorem uri?_handle (h : (w.handle e).2 = some cmd) : cmd.uri? = some e.uri := by
  cases e with
  | opened => cases h; rfl
  | closed => cases h; rfl
  | changed uri => cases hw : w.find? uri <;> simp [handle, hw] at h; cases h; rfl
  | hovered uri => cases hw : w.find? uri <;> simp [handle, hw] at h; cases h; rfl

/-- After a message about a document that is then not open, the document was closed by it, or was
not open before. -/
theorem closed_handle (h : (w.handle e).1.find? e.uri = none) :
    (w.handle e).2 = some (.close e.uri) ∨ w.find? e.uri = none ∧ (w.handle e).2 = none := by
  cases e with
  | opened => simp [handle, EditorEvent.uri] at h
  | closed => exact Or.inl rfl
  | changed uri => cases hw : w.find? uri <;> simp_all [handle, EditorEvent.uri]
  | hovered uri => cases hw : w.find? uri <;> simp_all [handle, EditorEvent.uri]

/-- A document that is not open stays so, unless a message opens it. -/
theorem find?_handle_of_closed (h : w.find? uri = none)
    (he : ∀ version text, e ≠ .opened uri version text) : (w.handle e).1.find? uri = none := by
  by_cases hu : e.uri = uri
  · cases e <;> simp_all [handle, EditorEvent.uri]
  · rw [find?_handle_of_ne hu, h]

end Workspace

namespace Service

variable {s : Service} {d : Completion}

/-- A command that closes a document publishes the empty set for it, after anything else. -/
theorem effects_close (hr : s.running = true) (starts : Invocation → Bool) (uri : String) :
    ∃ fs, (s.handle starts (.close uri)).2 = fs ++ [.published uri [] none] := by
  simp only [handle, hr, if_true, close]
  exact ⟨_, rfl⟩

/-- The end of a run of a document for which no run is registered changes nothing. -/
theorem complete_of_idle (h : ∀ j ∈ s.jobs, j.key.uri ≠ d.key.uri) : s.complete d = (s, []) :=
  complete_of_stale fun j hj hk => absurd (congrArg Key.uri hk) (h j hj)

end Service

namespace Bridge

variable {c : Course step} {settings : Settings} {n m : Nat} {ev : BridgeEvent}

section
variable {b : Bridge} {s : Service} {q : List Command} {fs : List Effect}

/-- A step that handles the closing of a document lets go of its runs, and publishes the empty set
for it, after anything else. -/
theorem Moves.closes (h : b.Moves ev s q fs) (hr : b.service.running = true)
    (hs : b.service.Sound) (ht : b.takes? ev = some (.close uri)) :
    (∀ j ∈ s.jobs, j.key.uri ≠ uri) ∧ ∃ pre, fs = pre ++ [.published uri [] none] := by
  cases h with
  | idle _ hnone => cases ht.symm.trans hnone
  | sends _ hnone => cases ht.symm.trans hnone
  | attends _ _ hnone => cases ht.symm.trans hnone
  | takes starts _ hsome =>
    obtain rfl := Option.some.inj (hsome.symm.trans ht)
    refine ⟨fun j hj => ?_, Service.effects_close hr starts uri⟩
    rcases (Service.mem_jobs_handle hs hr).1 hj with ⟨_, hev⟩ | ⟨l, hl, _⟩
    · exact hev
    · cases hl

/-- A step that handles no command about a document registers no run for it. If none is registered,
it does not publish for it, either. -/
theorem Moves.passes (h : b.Moves ev s q fs) (hr : b.service.running = true)
    (hs : b.service.Sound) (ht : ∀ a, b.takes? ev = some a → a.uri? ≠ some uri)
    (hidle : ∀ j ∈ b.service.jobs, j.key.uri ≠ uri) :
    (∀ j ∈ s.jobs, j.key.uri ≠ uri) ∧ ∀ ds v, .published uri ds v ∉ fs := by
  cases h with
  | idle => exact ⟨hidle, by simp⟩
  | sends => exact ⟨hidle, by simp⟩
  | @takes a _ starts _ hsome =>
    have hu := ht a hsome
    constructor
    · intro j hj
      rcases (Service.mem_jobs_handle hs hr).1 hj with ⟨hj, _⟩ | ⟨l, hl, _, rfl⟩
      · exact hidle j hj
      · rw [Command.uri?_of_launch hl] at hu
        exact fun hk => hu (congrArg some hk)
    · intro ds v hp
      obtain ⟨rfl, _⟩ := Service.published_handle hp
      exact hu rfl
  | attends d =>
    constructor
    · intro j hj
      exact hidle j ((Service.mem_jobs_complete hs hr).1 hj).1
    · intro ds v hp
      obtain ⟨j, hj, hu⟩ := Service.published_complete hs hp
      exact hidle j hj hu

end

theorem cleared_of_not_published (h : Quiet c uri n)
    (hf : ∀ ds v, .published uri ds v ∉ c.effects n) {f : Effect} (hl : ((c.log (n + 1)).filter (Effect.publishes uri)).getLast? = some f) :
    f = .published uri [] none := by
  have hnil : (c.effects n).filter (Effect.publishes uri) = [] := by
    rw [List.filter_eq_nil_iff]
    intro f hm hp
    cases f <;> simp_all [Effect.publishes]
  rw [Course.log_succ, List.filter_append, hnil, List.append_nil] at hl
  exact h.cleared f hl

/-- The last command that was sent about a document that is not open closes it. -/
theorem ceases_sent (hw : (c.state n).workspace.find? uri = none) : Ceases uri (sent c n) := by
  induction n with
  | zero => exact ceases_nil
  | succ n ih =>
    rw [sent_succ]
    rcases c.succ_cases n with ⟨he, hs, _⟩ | ⟨e, he, hs, _⟩
    · rw [hs] at hw
      simpa [he] using ih hw
    · rw [hs, workspace_step] at hw
      rw [he, Option.bind_some]
      cases e with
      | edited m =>
        have hw : ((c.state n).workspace.handle m).1.find? uri = none := hw
        rw [sends?]
        by_cases hu : m.uri = uri
        · subst hu
          rcases Workspace.closed_handle hw with hcmd | ⟨hn, hcmd⟩
          · rw [hcmd]
            exact (ceases_concat_of_eq rfl).2 rfl
          · rw [hcmd, Option.toList_none, List.append_nil]
            exact ih hn
        · rw [Workspace.find?_handle_of_ne hu] at hw
          cases hcmd : ((c.state n).workspace.handle m).2 with
          | none => simpa using ih hw
          | some cmd =>
            refine (ceases_concat_of_ne ?_).2 (ih hw)
            rw [Workspace.uri?_handle hcmd]
            exact fun h => hu (Option.some.inj h)
      | configured overrides => exact (ceases_concat_of_ne (by simp [Command.uri?])).2 (ih hw)
      | shutDown => exact (ceases_concat_of_ne (by simp [Command.uri?])).2 (ih hw)
      | _ => simpa [sends?] using ih hw

section
variable (hc : c.start = .initial settings)
include hc

/-- A document is quiet when the last command about it that was handled has closed it. -/
theorem quiet_of_ceases (hs : ¬ c.Happened n (· = .shutDown)) (hl : Ceases uri (handled c n)) :
    Quiet c uri n := by
  induction n with
  | zero =>
    constructor
    · intro f hf
      cases hf
    · intro j hj
      rw [Course.state_zero, hc] at hj
      cases hj
  | succ n ih =>
    have hsn : ¬ c.Happened n (· = .shutDown) := mt (Course.happened_mono n.le_succ) hs
    have h := serving hc hsn
    rw [handled_succ] at hl
    rcases c.succ_cases n with ⟨he, hstate, hf⟩ | ⟨e, he, _, _⟩
    · have hq := ih hsn (by simpa [he] using hl)
      exact ⟨fun f => cleared_of_not_published hq (by simp [hf]), hstate ▸ hq.idle⟩
    · have hm := h.moves hsn he
      rw [he, Option.bind_some] at hl
      by_cases ht : ∃ a, (c.state n).takes? e = some a ∧ a.uri? = some uri
      · obtain ⟨a, ht, hu⟩ := ht
        rw [ht, Option.toList_some] at hl
        obtain rfl := (ceases_concat_of_eq hu).1 hl
        obtain ⟨hidle, pre, hpre⟩ := hm.closes h.running h.sound ht
        refine ⟨fun f hf => ?_, hidle⟩
        simpa [Course.log_succ, hpre, List.filter_append, Effect.publishes, eq_comm] using hf
      · have hno : ∀ a, (c.state n).takes? e = some a → a.uri? ≠ some uri :=
          fun a ha hu => ht ⟨a, ha, hu⟩
        have hq : Quiet c uri n := by
          apply ih hsn
          cases ht : (c.state n).takes? e with
          | none => simpa [ht] using hl
          | some a => exact (ceases_concat_of_ne (hno a ht)).1 (by simpa [ht] using hl)
        obtain ⟨hidle, hf⟩ := hm.passes h.running h.sound hno hq.idle
        exact ⟨fun f => cleared_of_not_published hq hf, hidle⟩

end

/-- A document is not open, and what was sent about it and still waits closes it. -/
structure Ceased (c : Course step) (uri : String) (n : Nat) : Prop where
  closed : (c.state n).workspace.find? uri = none
  waiting : ∀ cmd ∈ (c.state n).commands, cmd.uri? = some uri → cmd = .close uri
  handled : Ceases uri (handled c n)

theorem find?_succ_of_closed (hw : (c.state n).workspace.find? uri = none)
    (he : ∀ version text, c.event n ≠ some (.edited (.opened uri version text))) :
    (c.state (n + 1)).workspace.find? uri = none := by
  rcases c.succ_cases n with ⟨_, hs, _⟩ | ⟨e, hev, hs, _⟩
  · rw [hs, hw]
  · rw [hs, workspace_step]
    cases e with
    | edited m =>
      refine Workspace.find?_handle_of_closed hw ?_
      rintro version text rfl
      exact he version text hev
    | _ => exact hw

/-- What is sent about a document that is not open then closes it. -/
theorem close_of_sends {b : Bridge} (hw : b.workspace.find? uri = none)
    (he : ∀ version text, ev ≠ .edited (.opened uri version text)) (hs : b.sends? ev = some cmd)
    (hu : cmd.uri? = some uri) : cmd = .close uri := by
  cases ev with
  | edited m =>
    have hm : m.uri = uri := Option.some.inj ((Workspace.uri?_handle hs).symm.trans hu)
    subst hm
    have hnone : (b.workspace.handle m).1.find? m.uri = none := by
      refine Workspace.find?_handle_of_closed hw ?_
      rintro version text h
      exact he version text (congrArg BridgeEvent.edited h)
    rcases Workspace.closed_handle hnone with h | ⟨_, h⟩
    · exact Option.some.inj (hs.symm.trans h)
    · cases hs.symm.trans h
  | configured => cases hs; cases hu
  | shutDown => cases hs; cases hu
  | _ => cases hs

theorem ceased_succ (hc : c.start = .initial settings) (hs : ¬ c.Happened n (· = .shutDown))
    (h : Ceased c uri n)
    (hopen : ∀ version text, c.event n ≠ some (.edited (.opened uri version text))) :
    Ceased c uri (n + 1) := by
  have hw := find?_succ_of_closed h.closed hopen
  rcases c.succ_cases n with ⟨he, hstate, _⟩ | ⟨e, he, _, _⟩
  · exact ⟨hw, by rw [hstate]; exact h.waiting, by simpa [handled_succ, he] using h.handled⟩
  · have hm := (serving hc hs).moves hs he
    generalize (c.state (n + 1)).service = s at hm
    generalize hcm : (c.state (n + 1)).commands = q at hm
    generalize c.effects n = fs at hm
    have same (ht : (c.state n).takes? e = none) : Ceases uri (Bridge.handled c (n + 1)) := by
      simpa [handled_succ, he, ht] using h.handled
    cases hm with
    | idle _ ht => exact ⟨hw, hcm ▸ h.waiting, same ht⟩
    | @sends cmd hse ht =>
      refine ⟨hw, fun a ha hu => ?_, same ht⟩
      rw [hcm] at ha
      rcases List.mem_append.1 ha with ha | ha
      · exact h.waiting a ha hu
      · obtain rfl := List.mem_singleton.1 ha
        refine close_of_sends h.closed (fun version text hev => ?_) hse hu
        exact hopen version text (he.trans (congrArg some hev))
    | @takes cmd rest _ _ ht hq =>
      refine ⟨hw, fun a ha hu => ?_, ?_⟩
      · refine h.waiting a ?_ hu
        rw [hq]
        exact List.mem_cons_of_mem cmd (hcm ▸ ha)
      · rw [handled_succ, he, Option.bind_some, ht, Option.toList_some]
        by_cases hu : cmd.uri? = some uri
        · refine (ceases_concat_of_eq hu).2 (h.waiting cmd ?_ hu)
          rw [hq]
          exact List.mem_cons_self
        · exact (ceases_concat_of_ne hu).2 h.handled
    | attends _ _ ht => exact ⟨hw, hcm ▸ h.waiting, same ht⟩

/-- A closed document shows nothing and runs nothing. When the service has handled all that was
sent, before it is shut down, a document that is not open is quiet: what was published for it last,
if anything was, is the empty set without a version, and no run is registered for it. It stays quiet
until it is opened again, whatever else happens, and no end of a run of it changes anything. -/
theorem closed_quiet (c : Course step) (settings : Settings) (uri : String) (n : Nat)
    (hc : c.start = .initial settings) (hs : ¬ c.Happened n (· = .shutDown))
    (hq : (c.state n).commands = []) (hw : (c.state n).workspace.find? uri = none) :
    Quiet c uri n ∧ ∀ m, n ≤ m → ¬ c.Happened m (· = .shutDown) →
      (∀ k, n ≤ k → k < m → ∀ version text,
        c.event k ≠ some (.edited (.opened uri version text))) →
      Quiet c uri m ∧ ∀ d : Completion, d.key.uri = uri →
        (c.state m).service.complete d = ((c.state m).service, []) := by
  have hceased : Ceased c uri n := by
    refine ⟨hw, by simp [hq], ?_⟩
    have hl := ceases_sent hw
    rwa [← (serving hc hs).queue, hq, List.append_nil] at hl
  refine ⟨quiet_of_ceases hc hs hceased.handled, fun m hnm hsm hopen => ?_⟩
  have hm : Ceased c uri m := by
    induction m, hnm using Nat.le_induction with
    | base => exact hceased
    | succ m hnm ih =>
      have hsm' : ¬ c.Happened m (· = .shutDown) := mt (Course.happened_mono m.le_succ) hsm
      refine ceased_succ hc hsm' (ih hsm' fun k hk hkm => ?_) (hopen m hnm m.lt_succ_self)
      exact hopen k hk (Nat.lt_succ_of_lt hkm)
  have hquiet := quiet_of_ceases hc hsm hm.handled
  refine ⟨hquiet, fun d hd => Service.complete_of_idle ?_⟩
  rw [hd]
  exact hquiet.idle

/-- A document's problem is published; then the document is changed and closed, and the run for the
change ends only after that. -/
def closedLate : Course step :=
  .ofList (.initial .default) [.edited (.opened "a" 1 "x"), .taken fun _ => true,
    .ended 0 (.completed "[\"Failed\",[[1,2,\"x\",\"unknown name\"]]]"), .attended 0,
    .edited (.changed "a" 2 [⟨none, "y"⟩]), .taken fun _ => true, .edited (.closed "a"),
    .taken fun _ => true,
    .ended 1 (.completed "[\"Failed\",[[1,2,\"y\",\"unknown name\"]]]"), .attended 0]

theorem closed_quiet_closedLate : ¬ closedLate.Happened 10 (· = .shutDown) ∧
    (closedLate.state 8).commands = [] ∧ (closedLate.state 8).workspace.find? "a" = none ∧
    ((closedLate.log 8).filter (Effect.publishes "a")).length = 2 ∧
    (closedLate.state 9).system.ends.length = 1 ∧ Quiet closedLate "a" 8 ∧
    Quiet closedLate "a" 10 := by
  have hs (n : Nat) : ¬ closedLate.Happened n (· = .shutDown) :=
    Course.not_happened_ofList (by simp) n
  have hq : (closedLate.state 8).commands = [] := List.isEmpty_iff.1 (by decide +kernel)
  have hw : (closedLate.state 8).workspace.find? "a" = none := rfl
  obtain ⟨hquiet, hlater⟩ := closed_quiet closedLate .default "a" 8 rfl (hs 8) hq hw
  refine ⟨hs 10, hq, hw, by decide +kernel, by decide +kernel, hquiet, ?_⟩
  refine (hlater 10 (by decide) (hs 10) fun k hk hkm version text => ?_).1
  have hk : k = 8 ∨ k = 9 := by omega
  rcases hk with rfl | rfl <;> exact fun h => nomatch h

end Bridge

end AnalyzerBridge
