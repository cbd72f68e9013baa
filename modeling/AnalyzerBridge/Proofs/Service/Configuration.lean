import AnalyzerBridge.Proofs.Service.Reading

/-! Settings change as a whole or not at all, and nothing else changes with them. Whatever the service
does, it does under the settings that were accepted last. -/
namespace AnalyzerBridge

open Run

/-- The key and the command line of a run that an effect asks for or starts. -/
def Effect.invocation? : Effect → Option (Key × Invocation)
  | launching key _ invocation _ => some (key, invocation)
  | started _ key _ invocation _ => some (key, invocation)
  | _ => none

namespace Service

variable {s : Service} {c : Command} {starts : Invocation → Bool} {f : Effect} {key : Key}
  {i : Invocation} {v : Json}

/-- A command asks for runs and starts them with the settings in force. -/
theorem invocation_of_handle (hr : s.running = true) (hf : f ∈ (s.handle starts c).2)
    (hi : f.invocation? = some (key, i)) : i = s.invocation key := by
  cases c with
  | analyze uri version text =>
    simp [handle, hr, analyze, startEffect] at hf
    rcases hf with ⟨e, _, rfl⟩ | rfl | ⟨n, _, rfl⟩
    · cases hi
    · cases hi
      rfl
    · cases hi
      rfl
  | hover uri text position request =>
    simp [handle, hr, hover, startEffect] at hf
    rcases hf with ⟨e, _, rfl⟩ | ⟨e, _, rfl⟩ | rfl | ⟨n, _, rfl⟩ | ⟨_, rfl⟩
    · cases hi
    · cases hi
    · cases hi
      rfl
    · cases hi
      rfl
    · cases hi
  | close uri =>
    simp [handle, hr, close] at hf
    rcases hf with ⟨e, _, rfl⟩ | ⟨e, _, rfl⟩ | ⟨e, _, rfl⟩ | rfl <;> cases hi
  | configure overrides => simp [handle, hr] at hf
  | shutdown =>
    simp [handle, hr, stop] at hf
    rcases hf with ⟨e, _, rfl⟩ | ⟨e, _, rfl⟩ | ⟨e, _, rfl⟩ <;> cases hi

theorem configure_of_error {e : Fault} (h : s.settings.withOverrides v = .error e) :
    s.configure v = s := by
  rw [configure, h]

theorem configure_of_ok {t : Settings} (h : s.settings.withOverrides v = .ok t) :
    s.configure v = { s with settings := t, source := t.diagnostics.source } := by
  rw [configure, h]

theorem running_configure : (s.configure v).running = s.running := by
  rw [configure]
  split <;> rfl

end Service

theorem Command.invocation_of_conclusion {c : Command} {run : Nat} {source : String}
    {report : Option Report} {f : Effect} (h : f ∈ c.conclusion run source report) :
    f.invocation? = none := by
  cases c with
  | analyze uri version text =>
    rcases List.mem_cons.1 h with rfl | h
    · rfl
    · obtain ⟨r, _, rfl⟩ := Option.map_eq_some_iff.1 (Option.mem_toList.1 h)
      rfl
  | hover uri text position request =>
    rcases List.mem_pair.1 h with rfl | rfl <;> rfl
  | _ =>
    obtain rfl := List.mem_singleton.1 h
    rfl

/-- What a run that returns publishes has the tag in force. -/
theorem Command.source_of_conclusion {c : Command} {run : Nat} {source uri : String}
    {report : Option Report} {ds : List Diagnostic} {version : Option Int}
    (h : .published uri ds version ∈ c.conclusion run source report) :
    ∀ d ∈ ds, d.source = source := by
  cases c with
  | analyze uri' version' text =>
    rcases List.mem_cons.1 h with heq | h
    · cases heq
    · obtain ⟨r, _, heq⟩ := Option.map_eq_some_iff.1 (Option.mem_toList.1 h)
      cases heq
      intro d hd
      obtain ⟨p, _, rfl⟩ := List.mem_map.1 hd
      rfl
  | hover uri' text position request =>
    rcases List.mem_pair.1 h with heq | heq <;> cases heq
  | _ => cases List.mem_singleton.1 h

namespace History

/-- The settings in force before an event: those accepted last, or else those of the start. -/
inductive InForce (h : History) (n : Nat) : Settings → Prop
  | start : (∀ k < n, ∀ t, ¬ h.Configures k t) → h.InForce n h.settings
  | accepted {k : Nat} {t : Settings} : k < n → h.Configures k t →
      (∀ i, k < i → i < n → ∀ u, ¬ h.Configures i u) → h.InForce n t

variable {h : History} {n : Nat} {starts : Invocation → Bool} {v : Json} {t u : Settings}
  {f : Effect} {key : Key} {i : Invocation}

/-- The service has the settings in force. -/
theorem inForce_service (h : History) (n : Nat) : h.InForce n (h.service n).settings := by
  induction n with
  | zero => exact .start fun k hk => absurd hk (Nat.not_lt_zero k)
  | succ n ih =>
    rcases h.settings_succ n with hc | ⟨hno, hs⟩
    · refine .accepted (Nat.lt_succ_self n) hc ?_
      intro i hni hin
      omega
    · rw [hs]
      generalize (h.service n).settings = t at ih
      cases ih with
      | start hnone =>
        refine .start ?_
        intro k hk u
        by_cases hkn : k = n
        · subst hkn
          exact hno u
        · exact hnone k (by omega) u
      | accepted hkn hc hlast =>
        refine .accepted (by omega) hc ?_
        intro i hki hin u
        by_cases hi : i = n
        · subst hi
          exact hno u
        · exact hlast i hki (by omega) u

theorem InForce.unique (ht : h.InForce n t) (hu : h.InForce n u) : t = u := by
  cases ht with
  | start hno =>
    cases hu with
    | start => rfl
    | accepted hk hc => exact absurd hc (hno _ hk _)
  | @accepted k _ hk hc hlast =>
    cases hu with
    | start hno => exact absurd hc (hno _ hk _)
    | @accepted k' _ hk' hc' hlast' =>
      rcases Nat.lt_trichotomy k k' with hlt | rfl | hlt
      · exact absurd hc' (hlast _ hlt hk' _)
      · exact configures_unique hc hc'
      · exact absurd hc (hlast' _ hlt hk _)

theorem InForce.settings (ht : h.InForce n t) : (h.service n).settings = t :=
  (inForce_service h n).unique ht

theorem InForce.source (ht : h.InForce n t) : (h.service n).source = t.diagnostics.source := by
  rw [(h.sound_service n).source, ht.settings]

/-- A command for other settings changes the settings at most, and does nothing else. -/
theorem state_configure (hc : h.Handles n starts (.configure v)) : h.effects n = [] ∧
    h.state (n + 1) = { h.state n with
      service := (h.service n).configure v
      commands := (h.state n).commands.tail } := by
  obtain ⟨he, hr, hhead⟩ := hc
  obtain ⟨rest, hq⟩ := List.head?_eq_some_iff.1 hhead
  have hrun : (h.state n).service.running = true := hr
  have htake : (h.state n).take starts = ({ h.state n with
      service := (h.service n).configure v
      commands := rest }, []) := by
    have hrun' : ((h.state n).service.configure v).running = true := by
      rw [Service.running_configure, hrun]
    simp [System.take, hq, Service.handle, hrun, hrun', System.after, service]
  rw [effects_eq he, state_succ he, System.step, htake, hq]
  exact ⟨rfl, rfl⟩

theorem InForce.invocation (ht : h.InForce n t) (hf : f ∈ h.effects n)
    (hi : f.invocation? = some (key, i)) : i = t.analyzer.invocation key.purpose := by
  rcases effects_cases hf with ⟨m, c, a, o, hr⟩ | ⟨starts, c, hr, hf⟩ | ⟨request, rfl⟩
  · rw [effects_of_returns hr] at hf
    rw [Command.invocation_of_conclusion hf] at hi
    cases hi
  · rw [Service.invocation_of_handle hr hf hi, Service.invocation, ht.settings]
  · cases hi

theorem InForce.published (ht : h.InForce n t) {uri : String} {ds : List Diagnostic}
    {version : Option Int} (hf : .published uri ds version ∈ h.effects n) :
    ∀ d ∈ ds, d.source = t.diagnostics.source := by
  rcases effects_cases hf with ⟨m, c, a, o, hr⟩ | ⟨starts, c, _, hf⟩ | ⟨request, hf⟩
  · rw [effects_of_returns hr] at hf
    rw [← ht.settings]
    exact Command.source_of_conclusion hf
  · obtain ⟨_, rfl, _⟩ := Service.published_handle hf
    intro d hd
    cases hd
  · cases hf

/-- Settings change as a whole. A command for other settings does nothing but this: if its overrides
are accepted, the new settings and their tag are put in place together, and if not, nothing is
changed; the registered and the running runs stay as they are. So the service always has the settings
accepted last, or those of the start, and their tag. Every diagnostic that is published has this tag,
and every run that is asked for or started has the program, the arguments and the time limit of these
settings, with the flag to exit behind the arguments and, for symbols, the flag to list them. -/
theorem settings_in_step (h : History) (n : Nat) :
    (∀ starts v, h.Handles n starts (.configure v) → h.effects n = [] ∧
      (∀ e, (h.service n).settings.withOverrides v = .error e →
        h.state (n + 1) = { h.state n with commands := (h.state n).commands.tail }) ∧
      ∀ t, (h.service n).settings.withOverrides v = .ok t →
        h.state (n + 1) = { h.state n with
          service := { h.service n with settings := t, source := t.diagnostics.source }
          commands := (h.state n).commands.tail }) ∧
    ∃ t, h.InForce n t ∧ (∀ u, h.InForce n u → u = t) ∧
      (h.service n).settings = t ∧ (h.service n).source = t.diagnostics.source ∧
      (∀ uri ds version, .published uri ds version ∈ h.effects n →
        ∀ d ∈ ds, d.source = t.diagnostics.source) ∧
      ∀ f key i, f ∈ h.effects n → f.invocation? = some (key, i) →
        i.purpose = key.purpose ∧ i.program = t.analyzer.path ∧
        (key.purpose = .diagnostics → i.args = t.analyzer.args ++ [t.analyzer.exitFlag]) ∧
        (key.purpose = .symbols →
          i.args = t.analyzer.args ++ [t.analyzer.exitFlag, t.analyzer.listSymbolsFlag]) ∧
        i.timeLimit =
          if t.analyzer.timeoutMs = 0 then none else some t.analyzer.timeoutMs.toNat := by
  constructor
  · intro starts v hc
    obtain ⟨hf, hs⟩ := state_configure hc
    refine ⟨hf, ?_, ?_⟩
    · intro e he
      rw [hs, Service.configure_of_error he]
      rfl
    · intro t ht
      rw [hs, Service.configure_of_ok ht]
  · have ht := inForce_service h n
    refine ⟨_, ht, fun u hu => hu.unique ht, rfl, ht.source, ?_, ?_⟩
    · intro uri ds version hf
      exact ht.published hf
    · intro f key i hf hi
      obtain rfl := ht.invocation hf hi
      refine ⟨rfl, rfl, ?_, ?_, rfl⟩
      · intro hp
        rw [hp]
        rfl
      · intro hp
        rw [hp]
        rfl

/-- Settings are accepted; others are rejected, of which one member alone is not valid; then a text is
analyzed, its problem is published, and a hover asks for its symbols. -/
def reconfigured : History where
  settings := .default
  events := [.sent (.configure (.object [("analyzer", .object [("args", .list [.text "-q"])]),
      ("diagnostics", .object [("source", .text "A")])])),
    .taken fun _ => true,
    .sent (.configure (.object [("analyzer", .object [("timeoutMs", .text "soon")]),
      ("diagnostics", .object [("source", .text "B")])])),
    .taken fun _ => true,
    .sent (.analyze "a" 1 "x"), .taken fun _ => true,
    .ended 0 (.completed oneProblem), .attended 0,
    .sent (.hover "a" "x" ⟨0, 0⟩ 0), .taken fun _ => true]

/-- The rejected settings change nothing, not even by their valid member: both runs have the argument
that was accepted and the time limit of the start, and the diagnostic has the tag that was accepted. -/
theorem settings_in_step_reconfigured :
    reconfigured.state 4 = { reconfigured.state 3 with commands := [] } ∧
    (∃ f ∈ reconfigured.effects 5, f.invocation? = some (⟨"a", .diagnostics⟩,
      ⟨.diagnostics, "LangSrv", ["-q", "--exit"], some 10000⟩)) ∧
    (∃ f ∈ reconfigured.effects 9, f.invocation? = some (⟨"a", .symbols⟩,
      ⟨.symbols, "LangSrv", ["-q", "--exit", "--listSymbols"], some 10000⟩)) ∧
    ∃ d, .published "a" [d] (some 1) ∈ reconfigured.effects 7 ∧ d.source = "A" := by
  have hsettings (n : Nat) (hn : n = 5 ∨ n = 7 ∨ n = 9) : (reconfigured.service n).settings =
      ⟨{ AnalyzerSettings.default with args := ["-q"] }, ⟨"A"⟩⟩ := by
    rcases hn with rfl | rfl | rfl <;> decide +kernel
  have hrun (n : Nat) (hn : n = 5 ∨ n = 7 ∨ n = 9) (p : Purpose) (hkey : ∃ f ∈ reconfigured.effects n,
      f.invocation?.map Prod.fst = some ⟨"a", p⟩) : ∃ f ∈ reconfigured.effects n, f.invocation? =
        some (⟨"a", p⟩, { AnalyzerSettings.default with args := ["-q"] }.invocation p) := by
    obtain ⟨t, _, _, ht, _, _, hinvocation⟩ := (settings_in_step reconfigured n).2
    obtain rfl := ht.symm.trans (hsettings n hn)
    obtain ⟨f, hf, hkey⟩ := hkey
    obtain ⟨⟨_, i⟩, hi, rfl⟩ := Option.map_eq_some_iff.1 hkey
    obtain ⟨hpurpose, hprogram, hone, htwo, hlimit⟩ := hinvocation f _ i hf hi
    refine ⟨f, hf, hi.trans ?_⟩
    rw [Option.some_inj, Prod.mk.injEq, Invocation.mk.injEq]
    cases p with
    | diagnostics => exact ⟨rfl, hpurpose, hprogram, hone rfl, hlimit⟩
    | symbols => exact ⟨rfl, hpurpose, hprogram, htwo rfl, hlimit⟩
  refine ⟨?_, hrun 5 (.inl rfl) .diagnostics (by decide +kernel),
    hrun 9 (.inr (.inr rfl)) .symbols (by decide +kernel), ?_⟩
  · obtain ⟨_, hrejected, _⟩ := (settings_in_step reconfigured 3).1 (fun _ => true) _
      ⟨rfl, rfl, rfl⟩
    exact hrejected _ rfl
  · obtain ⟨t, _, _, ht, _, hpublished, _⟩ := (settings_in_step reconfigured 7).2
    have hf : .published "a" [⟨.onLine 1 2 1, none, "A", "unknown name"⟩] (some 1) ∈
        reconfigured.effects 7 := by decide +kernel
    refine ⟨_, hf, ?_⟩
    rw [hpublished _ _ _ hf _ (List.mem_singleton.2 rfl), ← ht, hsettings 7 (.inr (.inl rfl))]

end History

end AnalyzerBridge
