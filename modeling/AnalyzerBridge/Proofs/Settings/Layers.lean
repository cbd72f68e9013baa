import AnalyzerBridge.CommandLine
import AnalyzerBridge.Proofs.Service.Reading
import AnalyzerBridge.Proofs.Settings.Files

/-! Where the settings in force come from. Each setting has the value that the last layer gives which
names it: the defaults, the settings file, the options of the command line, and then the overrides
that were accepted, one after the other. -/
namespace AnalyzerBridge

open Json Form

namespace Setting

variable {p : Setting} {s : Settings} {o : CommandLine.Options}

/-- What the options of the command line give for a setting. -/
def option? (o : CommandLine.Options) : (p : Setting) → Option p.Value
  | analyzer .path => o.analyzer
  | analyzer .format => o.format
  | analyzer .timeoutMs => o.timeoutMs
  | _ => none

theorem get_applyTo : p.get (o.applyTo s) = (p.option? o).getD (p.get s) := by
  cases p with
  | analyzer p => cases p <;> rfl
  | source => rfl

end Setting

def Settings.ofValues (f : (p : Setting) → p.Value) : Settings where
  analyzer := {
    path := f (.analyzer .path)
    args := f (.analyzer .args)
    exitFlag := f (.analyzer .exitFlag)
    listSymbolsFlag := f (.analyzer .listSymbolsFlag)
    format := f (.analyzer .format)
    timeoutMs := f (.analyzer .timeoutMs) }
  diagnostics := ⟨f .source⟩

theorem Setting.get_ofValues {p : Setting} {f : (p : Setting) → p.Value} :
    p.get (.ofValues f) = f p := by
  cases p with
  | analyzer p => cases p <;> rfl
  | source => rfl

/-- An object whose groups of settings, where it has them, are objects. As in all values, no two
members of an object have the same name. -/
structure Sectioned (v : Json) : Prop where
  object : ∃ members, v = .object members
  distinct : v.Distinct
  members : ∀ name w, v.get? name = some w → w.Distinct
  groups : ∀ q w, v.get? (Settings.parts.name q) = some w → ∃ members, w = .object members

namespace Settings

variable {s t : Settings} {v : Json} {outline : Outline} {text : String}

/-- Overrides that are objects throughout change the settings that they name, and no others. -/
theorem withOverrides_sectioned (hv : Sectioned v) : s.withOverrides v = .ok t ↔
    ∀ p : Setting, match p.named? v with
      | none => p.get t = p.get s
      | some w => p.form.ofJson w = .ok (p.get t) := by
  obtain ⟨⟨members, rfl⟩, hdistinct, hmembers, hgroups⟩ := hv
  have hlisted (p : Setting) : p.listed (.object members) = false := by
    rw [Setting.listed, Bool.or_eq_false_iff]
    refine ⟨rfl, ?_⟩
    rw [Option.any_eq_false]
    intro w hw
    obtain ⟨inner, rfl⟩ := hgroups p.group w hw
    simp [isList]
  have hfits {q : SettingGroup} {w : Json} (n : Nat)
      (hw : lookup (Settings.parts.name q) members = some w) : w.Fits n := by
    obtain ⟨inner, rfl⟩ := hgroups q w hw
    trivial
  rw [withOverrides_iff hdistinct fun name place w hw => hmembers name w hw]
  constructor
  · rintro ⟨_, _, _, h⟩ p
    have hp := h p
    rw [hlisted] at hp
    rw [Setting.named?_of_not_listed (hlisted p)]
    exact hp
  · intro h
    refine ⟨trivial, fun w hw => hfits (q := .analyzer) 6 hw,
      fun w hw => hfits (q := .diagnostics) 1 hw, ?_⟩
    intro p
    have hp := h p
    rw [Setting.named?_of_not_listed (hlisted p)] at hp
    rw [hlisted]
    exact hp

/-- Such overrides are accepted exactly if every setting that they name can be read. -/
theorem accepted_iff_of_sectioned (hv : Sectioned v) : (∃ t, s.withOverrides v = .ok t) ↔
    ∀ (p : Setting) w, p.named? v = some w → ∃ a, p.form.ofJson w = .ok a := by
  constructor
  · rintro ⟨t, ht⟩ p w hw
    have hp := (withOverrides_sectioned hv).1 ht p
    rw [hw] at hp
    exact ⟨_, hp⟩
  · intro h
    have hvalue (p : Setting) : ∃ a : p.Value, match p.named? v with
        | none => a = p.get s
        | some w => p.form.ofJson w = .ok a := by
      cases hw : p.named? v with
      | none => exact ⟨_, rfl⟩
      | some w => exact h p w hw
    choose f hf using hvalue
    refine ⟨.ofValues f, (withOverrides_sectioned hv).2 fun p => ?_⟩
    rw [Setting.get_ofValues]
    exact hf p

/-- A file is accepted exactly if it names nothing twice, and every setting that it names can be
read. -/
theorem accepted_iff_of_fileText (hf : FileText outline text) : (∃ s, ofText text = .ok s) ↔
    outline.Proper ∧ ∀ (p : Setting) y, outline.Holds p y → ∃ a, p.Reads y a := by
  constructor
  · rintro ⟨s, hs⟩
    obtain ⟨hp, h⟩ := (ofText_iff hf).1 hs
    exact ⟨hp, fun p y hy => ⟨_, (h p).1 y hy⟩⟩
  · rintro ⟨hp, h⟩
    have hvalue (p : Setting) : ∃ a : p.Value, (∀ y, outline.Holds p y → p.Reads y a) ∧
        ((∀ y, ¬ outline.Holds p y) → a = p.get .default) := by
      by_cases hy : ∃ y, outline.Holds p y
      · obtain ⟨y, hy⟩ := hy
        obtain ⟨a, ha⟩ := h p y hy
        refine ⟨a, ?_, fun hno => absurd hy (hno y)⟩
        intro y' hy'
        rw [hp.eq_of_holds hy' hy]
        exact ha
      · exact ⟨_, fun y hheld => absurd ⟨y, hheld⟩ hy, fun _ => rfl⟩
    choose f hf' using hvalue
    refine ⟨.ofValues f, (ofText_iff hf).2 ⟨hp, fun p => ?_⟩⟩
    rw [Setting.get_ofValues]
    exact hf' p

end Settings

inductive Layer where
  | defaults
  | file (outline : Outline)
  | options (o : CommandLine.Options)
  | overrides (v : Json)

namespace Layer

def Names : Layer → Setting → Prop
  | defaults, _ => True
  | file outline, p => ∃ y, outline.Holds p y
  | options o, p => (p.option? o).isSome = true
  | overrides v, p => (p.named? v).isSome = true

def Gives : Layer → (p : Setting) → p.Value → Prop
  | defaults, p, a => a = p.get .default
  | file outline, p, a => ∃ y, outline.Holds p y ∧ p.Reads y a
  | options o, p, a => p.option? o = some a
  | overrides v, p, a => ∃ w, p.named? v = some w ∧ p.form.ofJson w = .ok a

end Layer

/-- The last layer that names the setting gives it this value. -/
def Decided (layers : List Layer) (p : Setting) (a : p.Value) : Prop :=
  ∃ older l newer, layers = older ++ l :: newer ∧ l.Names p ∧ l.Gives p a ∧
    ∀ l' ∈ newer, ¬ l'.Names p

variable {layers : List Layer} {l : Layer} {p : Setting} {a b : p.Value} {s t : Settings} {v : Json}
  {o : CommandLine.Options} {outline : Outline} {text : String}

/-- A layer that comes last decides what it names. -/
theorem Decided.concat (h : Decided layers p a) (hnew : l.Names p → l.Gives p b)
    (hold : ¬ l.Names p → b = a) : Decided (layers ++ [l]) p b := by
  by_cases hl : l.Names p
  · exact ⟨layers, l, [], rfl, hl, hnew hl, nofun⟩
  · obtain ⟨older, l', newer, rfl, hnames, hgives, hlast⟩ := h
    refine ⟨older, l', newer ++ [l], by simp, hnames, hold hl ▸ hgives, ?_⟩
    intro l'' hmem
    rcases List.mem_append.1 hmem with hmem | hmem
    · exact hlast l'' hmem
    · obtain rfl := List.mem_singleton.1 hmem
      exact hl

theorem decided_defaults : Decided [.defaults] p (p.get .default) :=
  ⟨[], .defaults, [], rfl, trivial, rfl, nofun⟩

theorem Decided.file (hf : FileText outline text) (hs : Settings.ofText text = .ok s) :
    Decided [.defaults, .file outline] p (p.get s) := by
  obtain ⟨_, h⟩ := (Settings.ofText_iff hf).1 hs
  refine decided_defaults.concat ?_ ?_
  · rintro ⟨y, hy⟩
    exact ⟨y, hy, (h p).1 y hy⟩
  · intro hno
    exact (h p).2 fun y hy => hno ⟨y, hy⟩

theorem Decided.options (h : Decided layers p (p.get s)) :
    Decided (layers ++ [.options o]) p (p.get (o.applyTo s)) := by
  rw [Setting.get_applyTo]
  refine h.concat ?_ ?_
  · intro hsome
    obtain ⟨a, ha⟩ := Option.isSome_iff_exists.1 hsome
    rw [ha]
    exact ha
  · intro hnone
    rw [Option.not_isSome_iff_eq_none.1 hnone]
    rfl

theorem Decided.overrides (h : Decided layers p (p.get s)) (hv : Sectioned v)
    (ht : s.withOverrides v = .ok t) : Decided (layers ++ [.overrides v]) p (p.get t) := by
  have hp := (Settings.withOverrides_sectioned hv).1 ht p
  refine h.concat ?_ ?_
  · intro hsome
    obtain ⟨w, hw⟩ := Option.isSome_iff_exists.1 hsome
    rw [hw] at hp
    exact ⟨w, hw, hp⟩
  · intro hnone
    rw [Option.not_isSome_iff_eq_none.1 hnone] at hp
    exact hp

/-- The layers from which the settings of the start come: with or without a file. -/
inductive Starts (o : CommandLine.Options) (content : String → Except Host.Fault String) :
    List Layer → Prop
  | bare : o.config = none → Starts o content [.defaults, .options o]
  | file {path text : String} {outline : Outline} : o.config = some path →
      content path = .ok text → FileText outline text →
      Starts o content [.defaults, .file outline, .options o]

/-- The settings of the start are decided by its layers. -/
theorem Starts.decided {content : String → Except Host.Fault String} (h : Starts o content layers)
    (hs : o.settings content = .ok s) : Decided layers p (p.get s) := by
  rw [CommandLine.Options.settings] at hs
  cases h with
  | bare hc =>
    rw [hc] at hs
    cases hs
    exact decided_defaults.options
  | file hc htext hf =>
    simp only [hc, Settings.ofFile, htext] at hs
    cases hread : Settings.ofText _ with
    | error e =>
      rw [hread] at hs
      cases hs
    | ok t =>
      rw [hread] at hs
      cases hs
      exact (Decided.file hf hread).options

namespace History

variable {h : History} {n : Nat} {starts : Invocation → Bool} {c : Command}

/-- The overrides that are accepted at an event. -/
def accepts? (h : History) (n : Nat) : Option Json :=
  match h.command? n with
  | some (.configure v) => ((h.service n).settings.withOverrides v).toOption.map fun _ => v
  | _ => none

/-- The overrides that were accepted before an event, oldest first. -/
def accepted (h : History) (n : Nat) : List Json :=
  (List.range n).flatMap fun k => (h.accepts? k).toList

theorem accepted_succ : h.accepted (n + 1) = h.accepted n ++ (h.accepts? n).toList := by
  simp [accepted, List.range_succ]

/-- At each event overrides are accepted, or the settings stay as they are. -/
theorem accepts_cases (h : History) (n : Nat) :
    (∃ starts v, h.Handles n starts (.configure v) ∧ h.accepts? n = some v ∧
      (h.service n).settings.withOverrides v = .ok (h.service (n + 1)).settings) ∨
    h.accepts? n = none ∧ (h.service (n + 1)).settings = (h.service n).settings := by
  cases hc : h.command? n with
  | none =>
    have hno := command?_eq_none.1 hc
    refine Or.inr ⟨by rw [accepts?, hc], ?_⟩
    rcases h.settings_succ n with ⟨starts, c, hh, _⟩ | ⟨_, hs⟩
    · exact absurd hh (hno starts c)
    · exact hs
  | some c =>
    obtain ⟨starts, hh⟩ := command?_eq_some.1 hc
    have hs : (h.service (n + 1)).settings =
        ((h.service n).accepted? c).getD (h.service n).settings := by
      rw [(service_command hh).1]
      exact Service.settings_handle hh.2.1
    cases c with
    | configure v =>
      rw [Service.accepted?] at hs
      cases hw : (h.service n).settings.withOverrides v with
      | error e =>
        rw [hw] at hs
        refine Or.inr ⟨?_, hs⟩
        rw [accepts?, hc]
        simp only [hw]
        rfl
      | ok t =>
        rw [hw] at hs
        refine Or.inl ⟨starts, v, hh, ?_, by rw [hs, hw]; rfl⟩
        rw [accepts?, hc]
        simp only [hw]
        rfl
    | _ => exact Or.inr ⟨by rw [accepts?, hc], hs⟩

/-- Each setting has the value of the last layer that names it, in the order of the defaults, the
file, the options, and the overrides that were accepted. Overrides that were rejected count for
nothing, not even by their valid members. Names that no setting has change nothing in any layer: if
the names in a file are texts at all, whether the file or overrides are accepted is up to what they
have under the names of settings. -/
theorem settings_of_layers :
    (∀ outline text, FileText outline text → ((∃ s, Settings.ofText text = .ok s) ↔
      outline.Proper ∧ ∀ (p : Setting) y, outline.Holds p y → ∃ a, p.Reads y a)) ∧
    (∀ (s : Settings) v, Sectioned v → ((∃ t, s.withOverrides v = .ok t) ↔
      ∀ (p : Setting) w, p.named? v = some w → ∃ a, p.form.ofJson w = .ok a)) ∧
    ∀ (o : CommandLine.Options) content (h : History) (n : Nat) layers, Starts o content layers →
      o.settings content = .ok h.settings →
      (∀ k < n, ∀ starts v, h.Handles k starts (.configure v) → Sectioned v) →
      ∀ p : Setting, Decided (layers ++ (h.accepted n).map .overrides) p
        (p.get (h.service n).settings) := by
  refine ⟨fun _ _ hf => Settings.accepted_iff_of_fileText hf,
    fun _ _ hv => Settings.accepted_iff_of_sectioned hv, ?_⟩
  intro o content h n layers hstart hs hv p
  induction n with
  | zero =>
    have hdecided := hstart.decided (p := p) hs
    rw [← List.append_nil layers] at hdecided
    exact hdecided
  | succ n ih =>
    have ih := ih fun k hk => hv k (Nat.lt_succ_of_lt hk)
    rw [accepted_succ]
    rcases h.accepts_cases n with ⟨starts, v, hh, hv', ht⟩ | ⟨hno, heq⟩
    · have hnext := ih.overrides (hv n (Nat.lt_succ_self n) starts v hh) ht
      rw [hv']
      simpa using hnext
    · rw [hno, heq]
      simpa using ih

/-- A settings file in which not every name is one of a setting. -/
def layeredText : String :=
  "\x7b\"analyzer\":\x7b\"format\":\"legacy\",\"timeoutMs\":5,\"later\":1e999\x7d,\"more\":null\x7d"

/-- Its members. -/
def layeredOutline : Outline := [
  ("analyzer".toList, .group [("format".toList, "\"legacy\"".toList), ("timeoutMs".toList, ['5']),
    ("later".toList, "1e999".toList)]),
  ("more".toList, .other "null".toList)]

/-- Options that name the file and a time limit. -/
def layeredOptions : CommandLine.Options :=
  { CommandLine.Options.none with timeoutMs := some 7, config := some "settings.json" }

/-- Overrides that are accepted. -/
def exitOverrides : Json :=
  .object [("analyzer", .object [("exitFlag", .text "-x"), ("later", .null)]), ("more", .bool true)]

/-- Overrides of which one member is not valid. -/
def brokenOverrides : Json :=
  .object [("analyzer", .object [("path", .text "p"), ("timeoutMs", .text "soon")])]

/-- With the settings of that file and of those options, both overrides come one after the other. -/
def layered : History where
  settings := { Settings.default with
    analyzer := { AnalyzerSettings.default with format := .legacy, timeoutMs := 7 } }
  events := [.sent (.configure exitOverrides), .taken fun _ => true,
    .sent (.configure brokenOverrides), .taken fun _ => true]

theorem fileText_layered : FileText layeredOutline layeredText where
  written := by
    have hlegacy : WellFormedScalar ('"' :: ("legacy".toList ++ ['"'])) :=
      .text (wellFormedText_self (by decide))
    have hfive : WellFormedScalar ['5'] := by
      have hdigits : Digits ['5'] := by simp [Digits]
      exact .number (.plain (@SpellingText.parts ['5'] [] [] none none hdigits (by decide) .absent
        .absent))
    have hhuge : WellFormedScalar "1e999".toList := by
      have hsign : ([], false) ∈ [([], false), (['+'], false), (['-'], true)] := by decide
      have hexp : ExponentText (some (false, ['9', '9', '9'])) ['e', '9', '9', '9'] :=
        .letter (by decide) hsign (by simp [Digits])
      have hone : Digits ['1'] := by simp [Digits]
      exact .number (.plain (.parts hone (by decide) .absent hexp))
    have hgroup := EntryText.group (.members <|
      .first gap_nil (memberText_named "format".toList _ (by decide) ⟨rfl, 0, hlegacy⟩) <|
      .next gap_nil gap_nil (memberText_named "timeoutMs".toList _ (by decide) ⟨rfl, 0, hfive⟩) <|
      .next gap_nil gap_nil (memberText_named "later".toList _ (by decide) ⟨rfl, 0, hhuge⟩) <|
      .close gap_nil)
    have hnull : EntryText (.other "null".toList) "null".toList :=
      .other ⟨rfl, 0, .word (by decide)⟩
    refine ⟨[], _, [], gap_nil, gap_nil, ?_, .members <|
      .first gap_nil (memberText_named "analyzer".toList _ (by decide) hgroup) <|
      .next gap_nil gap_nil (memberText_named "more".toList _ (by decide) hnull) <|
      .close gap_nil⟩
    simp [layeredText]
  groups := by
    have hanalyzer : SpellsName "analyzer" "analyzer".toList := spellsText_self (by decide)
    have hmore : SpellsName "more" "more".toList := spellsText_self (by decide)
    intro m hm
    rcases List.mem_pair.1 hm with rfl | rfl
    · exact ⟨fun _ => ⟨_, rfl⟩, fun _ => ⟨.analyzer, hanalyzer⟩⟩
    · constructor
      · rintro ⟨q, hq⟩
        have hname := spellsName_unique hq hmore
        cases q <;> simp [Settings.parts] at hname
      · rintro ⟨members, hmembers⟩
        cases hmembers

theorem sectioned_exit : Sectioned exitOverrides where
  object := ⟨_, rfl⟩
  distinct := by
    have hnames : ["analyzer", "more"].Nodup := by decide
    exact hnames
  members name w hw := by
    rw [exitOverrides, Json.get?] at hw
    rcases List.mem_pair.1 (mem_of_lookup hw) with heq | heq
    · cases heq
      have hnames : ["exitFlag", "later"].Nodup := by decide
      exact hnames
    · cases heq
      trivial
  groups q w hw := by
    cases q
    · cases hw
      exact ⟨_, rfl⟩
    · cases hw

theorem sectioned_broken : Sectioned brokenOverrides where
  object := ⟨_, rfl⟩
  distinct := List.nodup_singleton _
  members name w hw := by
    rw [brokenOverrides, Json.get?] at hw
    cases List.mem_singleton.1 (mem_of_lookup hw)
    have hnames : ["path", "timeoutMs"].Nodup := by decide
    exact hnames
  groups q w hw := by
    cases q
    · cases hw
      exact ⟨_, rfl⟩
    · cases hw

/-- The format comes from the file, the time limit from the options, and the flag from the overrides
that were accepted. The path is the default, although the overrides that were rejected name it. -/
theorem settings_of_layers_layered :
    let layers := [.defaults, .file layeredOutline, .options layeredOptions,
      .overrides exitOverrides]
    layeredOptions.settings (fun _ => .ok layeredText) = .ok layered.settings ∧
    layered.accepted 4 = [exitOverrides] ∧
    Decided layers (.analyzer .format) Format.legacy ∧
    Decided layers (.analyzer .timeoutMs) (7 : UInt64) ∧
    Decided layers (.analyzer .exitFlag) "-x" ∧
    Decided layers (.analyzer .path) "LangSrv" := by
  intro layers
  have hs : layeredOptions.settings (fun _ => .ok layeredText) = .ok layered.settings := by
    decide +kernel
  have hstart : Starts layeredOptions (fun _ => .ok layeredText)
      [.defaults, .file layeredOutline, .options layeredOptions] :=
    .file rfl rfl fileText_layered
  have hexit : layered.Handles 1 (fun _ => true) (.configure exitOverrides) := ⟨rfl, rfl, rfl⟩
  have hbroken : layered.Handles 3 (fun _ => true) (.configure brokenOverrides) := ⟨rfl, rfl, rfl⟩
  have hv : ∀ k < 4, ∀ starts v, layered.Handles k starts (.configure v) → Sectioned v := by
    intro k hk starts v hh
    match k, hk with
    | 0, _ => cases hh.1
    | 1, _ =>
      obtain ⟨_, heq⟩ := handles_unique hh hexit
      cases heq
      exact sectioned_exit
    | 2, _ => cases hh.1
    | 3, _ =>
      obtain ⟨_, heq⟩ := handles_unique hh hbroken
      cases heq
      exact sectioned_broken
  have haccepted : layered.accepted 4 = [exitOverrides] := by rfl
  have hsettings : (layered.service 4).settings = { Settings.default with
      analyzer := { AnalyzerSettings.default with
        format := .legacy, exitFlag := "-x", timeoutMs := 7 } } := by
    decide +kernel
  have hdecided := settings_of_layers.2.2 layeredOptions _ layered 4 _ hstart hs hv
  rw [haccepted, hsettings] at hdecided
  exact ⟨hs, haccepted, hdecided (.analyzer .format), hdecided (.analyzer .timeoutMs),
    hdecided (.analyzer .exitFlag), hdecided (.analyzer .path)⟩

end History

end AnalyzerBridge
