import AnalyzerBridge.Proofs.Json.Writing
import AnalyzerBridge.Proofs.Settings.Files
import AnalyzerBridge.Settings.Load

/-! Settings and their own text. What is written of settings is read as the same settings, overrides
without members leave them as they are, and what overrides have once said they say again. -/
namespace AnalyzerBridge

open Json Form FieldForm

/-- The analyzer's settings as members, in the order in which they are written. -/
def AnalyzerSettings.entries (a : AnalyzerSettings) : List (String × Json) := [
  ("path", .text a.path),
  ("args", .list (a.args.map .text)),
  ("exitFlag", .text a.exitFlag),
  ("listSymbolsFlag", .text a.listSymbolsFlag),
  ("format", .text a.format.name),
  ("timeoutMs", .nat a.timeoutMs.toNat)]

theorem AnalyzerSettings.mem_entries {a : AnalyzerSettings} {m : String × Json} :
    m ∈ a.entries ↔ m ∈ a.members := by
  simp only [entries, members, List.mem_cons, List.not_mem_nil, or_false]
  tauto

def writtenMembers (members : List (String × Json)) : List (List Char × List Char) :=
  members.map fun m => (writtenName m.1, writePretty 2 m.2)

namespace Settings

variable {s t : Settings} {v : Json}

/-- The members of each group, in the order in which they are written. -/
def entries (s : Settings) : SettingGroup → List (String × Json)
  | .analyzer => s.analyzer.entries
  | .diagnostics => s.diagnostics.members

/-- The groups, in the order in which they are written. -/
def groups : List SettingGroup := [.analyzer, .diagnostics]

/-- The file that is written of settings. -/
def outline (s : Settings) : Outline :=
  groups.map fun q => (writtenName (parts.name q), .group (writtenMembers (s.entries q)))

/-- Each setting is written under its name, and as what is read as its value. -/
theorem exists_entry (s : Settings) (p : Setting) :
    ∃ v, (p.name, v) ∈ s.entries p.group ∧ p.form.ofJson v = .ok (p.get s) := by
  cases p with
  | analyzer p =>
    obtain ⟨v, hv, hr⟩ := s.analyzer.written.parts p
    exact ⟨v, AnalyzerSettings.mem_entries.2 (mem_of_lookup hv), hr⟩
  | source =>
    obtain ⟨v, hv, hr⟩ := s.diagnostics.written.parts ()
    exact ⟨v, mem_of_lookup hv, hr⟩

theorem nodup_entries (q : SettingGroup) : ((s.entries q).map (·.1)).Nodup := by
  cases q with
  | analyzer =>
    have hnames : ["path", "args", "exitFlag", "listSymbolsFlag", "format", "timeoutMs"].Nodup := by
      decide
    exact hnames
  | diagnostics => exact List.nodup_singleton _

/-- The values of settings open one list at most. -/
theorem integral_entries {q : SettingGroup} {m : String × Json} (hm : m ∈ s.entries q) :
    Integral settingLevels m.2 := by
  cases q with
  | analyzer =>
    simp only [entries, AnalyzerSettings.entries, List.mem_cons, List.not_mem_nil, or_false] at hm
    rcases hm with rfl | rfl | rfl | rfl | rfl | rfl
    · exact .text
    · refine .list fun v hv => ?_
      obtain ⟨_, _, rfl⟩ := List.mem_map.1 hv
      exact .text
    · exact .text
    · exact .text
    · exact .text
    · have hlt : s.analyzer.timeoutMs.toNat < twoTo 64 := s.analyzer.timeoutMs.toNat_lt
      exact .int (by omega) (by omega)
  | diagnostics =>
    cases List.mem_singleton.1 hm
    exact .text

/-- Members that are written under different names are not taken for each other. -/
theorem pairwise_written {γ β : Type} {ms : List γ} {key : γ → String} (f : γ → β)
    (hn : (ms.map key).Nodup) (name : String) :
    (ms.map fun m => (writtenName (key m), f m)).Pairwise fun m m' =>
      ¬ (SpellsName name m.1 ∧ SpellsName name m'.1) := by
  refine List.pairwise_map.2 ((List.pairwise_map.1 hn).imp ?_)
  rintro m m' hne ⟨h, h'⟩
  have hm := spellsName_unique h (spellsText_written _)
  have hm' := spellsName_unique h' (spellsText_written _)
  exact hne (hm.symm.trans hm')

theorem proper_outline (s : Settings) : s.outline.Proper where
  texts m hm := by
    obtain ⟨q, _, rfl⟩ := List.mem_map.1 hm
    refine ⟨⟨_, spellsText_written _⟩, ?_⟩
    rintro members hg c hc
    cases hg
    obtain ⟨m, _, rfl⟩ := List.mem_map.1 hc
    exact ⟨_, spellsText_written _⟩
  groups q := by
    have hnames : (groups.map parts.name).Nodup := by decide
    exact pairwise_written _ hnames _
  settings p m hm hname members hg := by
    obtain ⟨q, _, rfl⟩ := List.mem_map.1 hm
    cases hg
    exact pairwise_written _ (nodup_entries q) _

/-- What the file has for a setting is what is written of it. -/
theorem holds_outline {p : Setting} {y : List Char} (h : s.outline.Holds p y) :
    ∃ v, (p.name, v) ∈ s.entries p.group ∧ y = writePretty 2 v := by
  obtain ⟨m, hm, hq, members, hg, c, hc, hname, rfl⟩ := h
  obtain ⟨q, _, rfl⟩ := List.mem_map.1 hm
  cases hg
  obtain ⟨⟨k, v⟩, hv, rfl⟩ := List.mem_map.1 hc
  obtain rfl := parts_full.names (spellsName_unique hq (spellsText_written _))
  obtain rfl := spellsName_unique hname (spellsText_written _)
  exact ⟨v, hv, rfl⟩

theorem mem_groups (q : SettingGroup) : q ∈ groups := by
  cases q with
  | analyzer => exact .head _
  | diagnostics => exact .tail _ (.head _)

theorem entryText_group {q : SettingGroup} :
    EntryText (.group (writtenMembers (s.entries q))) (writePretty 1 (.object (s.entries q))) := by
  refine .group (objectText_pretty (List.forall₂_map_left_iff.2 (List.forall₂_same.2 ?_)))
  intro m hm
  have hv := (integral_entries hm).spells 2
  exact ⟨⟨rfl, (spellsText_written _).wellFormed⟩, rfl, _, hv.wellFormed⟩

theorem fileText_outline (s : Settings) {g : List Char} (hg : Gap g) :
    FileText s.outline (s.toJson.pretty ++ String.ofList g) where
  written := by
    refine ⟨[], writePretty 0 s.toJson, g, gap_nil, hg, ?_, ?_⟩
    · simp [pretty]
    · have hjson : s.toJson = .object (groups.map fun q =>
          (parts.name q, .object (s.entries q))) := rfl
      rw [hjson]
      refine objectText_pretty (List.forall₂_map_left_iff.2 (List.forall₂_map_right_iff.2
        (List.forall₂_same.2 fun q _ => ?_)))
      exact ⟨⟨rfl, (spellsText_written _).wellFormed⟩, entryText_group⟩
  groups m hm := by
    obtain ⟨q, _, rfl⟩ := List.mem_map.1 hm
    exact ⟨fun _ => ⟨_, rfl⟩, fun _ => ⟨q, spellsText_written _⟩⟩

/-- What is written of settings is read as the same settings. -/
theorem ofText_pretty (s : Settings) {g : List Char} (hg : Gap g) :
    ofText (s.toJson.pretty ++ String.ofList g) = .ok s := by
  refine (ofText_iff (fileText_outline s hg)).2 ⟨proper_outline s, fun p => ⟨?_, ?_⟩⟩
  · intro y hy
    obtain ⟨v, hv, rfl⟩ := holds_outline hy
    obtain ⟨w, hw, hr⟩ := exists_entry s p
    have hsame : w = v := by
      have hl := lookup_of_mem (nodup_entries _) hw
      rw [lookup_of_mem (nodup_entries _) hv] at hl
      exact (Option.some.inj hl).symm
    exact ⟨v, (integral_entries hv).spells 2, hsame ▸ hr⟩
  · intro hno
    obtain ⟨v, hv, _⟩ := exists_entry s p
    refine absurd ?_ (hno (writePretty 2 v))
    exact ⟨_, List.mem_map_of_mem (mem_groups p.group), spellsText_written _, _, rfl, _,
      List.mem_map_of_mem hv, spellsText_written _, rfl⟩

/-- Overrides without members change nothing. -/
theorem withOverrides_empty (s : Settings) : s.withOverrides (.object []) = .ok s := by
  have hparts : ∀ name place w, (Json.object []).part? name place = some w → w.Distinct := nofun
  rw [withOverrides_iff (v := .object []) List.nodup_nil hparts]
  refine ⟨trivial, nofun, nofun, fun p => ?_⟩
  rfl

/-- What overrides have changed once they leave as it is. -/
theorem withOverrides_again (h : s.withOverrides v.canonical = .ok t) :
    t.withOverrides v.canonical = .ok t := by
  have hparts : ∀ name place w, v.canonical.part? name place = some w → w.Distinct :=
    fun _ _ _ => distinct_of_part
  rw [withOverrides_iff v.distinct_canonical hparts] at h ⊢
  obtain ⟨hfits, ha, hd, hp⟩ := h
  refine ⟨hfits, ha, hd, fun p => ?_⟩
  have hget := hp p
  cases hw : p.given? v.canonical with
  | some w => simpa only [hw] using hget
  | none =>
    simp only [hw] at hget ⊢
    split at hget <;> simp [*]

/-- Settings are kept by their own text and by overrides that say nothing new. Read as a file, what
is written of settings gives the same settings, with or without a line end behind it; overrides
without members leave them as they are; and overrides that are accepted, of whatever form, are
accepted again by the settings that they give, and change nothing more. -/
theorem settings_kept (s : Settings) (path : String) :
    ofFile path (.ok s.toJson.pretty) = .ok s ∧
    ofFile path (.ok (s.toJson.pretty ++ "\n")) = .ok s ∧
    s.withOverrides (.object []) = .ok s ∧
    ∀ (v : Json) (t : Settings), s.withOverrides v.canonical = .ok t →
      t.withOverrides v.canonical = .ok t := by
  have hplain : ofText s.toJson.pretty = .ok s := by simpa using ofText_pretty s gap_nil
  have hline : ofText (s.toJson.pretty ++ "\n") = .ok s := ofText_pretty s (by simp [Gap])
  exact ⟨by rw [ofFile, hplain], by rw [ofFile, hline], withOverrides_empty s,
    fun _ _ => withOverrides_again⟩

/-- Overrides with a list for the settings of the analyzer, and with a name that means nothing. -/
def listOverrides : Json := .object [("later", .null), ("analyzer", .list [.text "qs", .list []])]

theorem settings_kept_listed : ∃ t, tagged.withOverrides listOverrides.canonical = .ok t ∧
    t.analyzer.path = "qs" ∧ t.diagnostics.source = "qs" ∧
    t.withOverrides listOverrides.canonical = .ok t :=
  ⟨{ tagged with analyzer := { AnalyzerSettings.default with path := "qs" } }, rfl, rfl, rfl,
    (settings_kept tagged "").2.2.2 listOverrides _ rfl⟩

end Settings

end AnalyzerBridge
