import AnalyzerBridge.Proofs.Json.Forms
import AnalyzerBridge.Proofs.Json.Parts
import AnalyzerBridge.Settings.Form

/-! What overrides do to each setting. A setting that they give has the value that they give; one
that they leave out keeps its value, unless a list stands where its record is given. -/
namespace AnalyzerBridge

open Json Form FieldForm

inductive AnalyzerSetting where
  | path
  | args
  | exitFlag
  | listSymbolsFlag
  | format
  | timeoutMs
deriving DecidableEq, Repr

inductive SettingGroup where
  | analyzer
  | diagnostics
deriving DecidableEq, Repr

inductive Setting where
  | analyzer (p : AnalyzerSetting)
  | source
deriving DecidableEq, Repr

def AnalyzerSettings.parts : Parts AnalyzerSettings where
  Part := AnalyzerSetting
  Value
    | .args => List String
    | .format => Format
    | .timeoutMs => UInt64
    | _ => String
  name
    | .path => "path"
    | .args => "args"
    | .exitFlag => "exitFlag"
    | .listSymbolsFlag => "listSymbolsFlag"
    | .format => "format"
    | .timeoutMs => "timeoutMs"
  place
    | .path => 0
    | .args => 1
    | .exitFlag => 2
    | .listSymbolsFlag => 3
    | .format => 4
    | .timeoutMs => 5
  form
    | .path => Form.path
    | .args => list text
    | .exitFlag => text
    | .listSymbolsFlag => text
    | .format => Format.form
    | .timeoutMs => u64
  get a
    | .path => a.path
    | .args => a.args
    | .exitFlag => a.exitFlag
    | .listSymbolsFlag => a.listSymbolsFlag
    | .format => a.format
    | .timeoutMs => a.timeoutMs

def DiagnosticsSettings.parts : Parts DiagnosticsSettings where
  Part := Unit
  Value _ := String
  name _ := "source"
  place _ := 0
  form _ := text
  get d _ := d.source

def Settings.parts : Parts Settings where
  Part := SettingGroup
  Value
    | .analyzer => AnalyzerSettings
    | .diagnostics => DiagnosticsSettings
  name
    | .analyzer => "analyzer"
    | .diagnostics => "diagnostics"
  place
    | .analyzer => 0
    | .diagnostics => 1
  form
    | .analyzer => AnalyzerSettings.form
    | .diagnostics => DiagnosticsSettings.form
  get s
    | .analyzer => s.analyzer
    | .diagnostics => s.diagnostics

namespace Setting

def group : Setting → SettingGroup
  | analyzer _ => .analyzer
  | source => .diagnostics

def Value : Setting → Type
  | analyzer p => AnalyzerSettings.parts.Value p
  | source => String

def name : Setting → String
  | analyzer p => AnalyzerSettings.parts.name p
  | source => "source"

/-- The place of a setting in its group, if that is a list. -/
def place : Setting → Nat
  | analyzer p => AnalyzerSettings.parts.place p
  | source => 0

def form : (p : Setting) → Form p.Value
  | analyzer p => AnalyzerSettings.parts.form p
  | source => text

def get (s : Settings) : (p : Setting) → p.Value
  | analyzer p => AnalyzerSettings.parts.get s.analyzer p
  | source => s.diagnostics.source

def groupIn? (p : Setting) (v : Json) : Option Json :=
  v.part? (Settings.parts.name p.group) (Settings.parts.place p.group)

/-- What a value gives for a setting: by name in objects, and by place in lists. -/
def given? (p : Setting) (v : Json) : Option Json :=
  (p.groupIn? v).bind (·.part? p.name p.place)

/-- What a value has under the names of the group and the setting. -/
def named? (p : Setting) (v : Json) : Option Json :=
  (v.get? (Settings.parts.name p.group)).bind (·.get? p.name)

/-- Is the value a list, or is what it holds for the group of the setting one? -/
def listed (p : Setting) (v : Json) : Bool :=
  v.isList || (p.groupIn? v).any Json.isList

/-- Overrides change the setting only by naming it, and then to the value that they name. -/
def Framed (p : Setting) (s : Settings) (v : Json) (t : Settings) : Prop :=
  match p.named? v with
  | none => p.get t = p.get s
  | some w => p.form.ofJson w = .ok (p.get t)

variable {p : Setting} {v : Json}

theorem named?_of_listed (h : p.listed v = true) : p.named? v = none := by
  rw [listed, Bool.or_eq_true] at h
  cases v with
  | object members =>
    rcases h with h | h
    · cases h
    · obtain ⟨w, hw, hl⟩ := (Option.any_eq_true _ _).1 h
      cases w <;> simp only [isList, Bool.false_eq_true] at hl
      rw [groupIn?, part?] at hw
      rw [named?, get?, hw]
      rfl
  | _ => rfl

theorem named?_of_not_listed (h : p.listed v = false) : p.named? v = p.given? v := by
  rw [listed, Bool.or_eq_false_iff] at h
  cases v with
  | object members =>
    rw [given?, named?, get?, groupIn?, part?]
    cases hw : lookup (Settings.parts.name p.group) members with
    | none => rfl
    | some w =>
      rw [groupIn?, part?, hw] at h
      cases w with
      | list items => cases h.2
      | _ => rfl
  | list items => cases h.1
  | _ => rfl

end Setting

theorem AnalyzerSettings.parts_of : ∃ fields, AnalyzerSettings.form =
    record "struct AnalyzerConfig" .default fields ∧ fields.length = 6 ∧
      AnalyzerSettings.parts.Of fields := by
  refine ⟨_, rfl, rfl, ⟨by simp [plain_may], by decide⟩, ?_, ?_, ?_⟩
  · intro p
    cases p
    all_goals
      refine ⟨⟨_, rfl, fun _ _ => rfl⟩, ?_⟩
      intro f hf hne
      simp only [List.mem_cons, List.not_mem_nil, or_false] at hf
      rcases hf with rfl | rfl | rfl | rfl | rfl | rfl
      all_goals first
        | exact absurd rfl hne
        | exact leaves_may fun _ _ => rfl
  · intro place hplace
    match place, hplace with
    | 0, _ => exact ⟨.path, rfl⟩
    | 1, _ => exact ⟨.args, rfl⟩
    | 2, _ => exact ⟨.exitFlag, rfl⟩
    | 3, _ => exact ⟨.listSymbolsFlag, rfl⟩
    | 4, _ => exact ⟨.format, rfl⟩
    | 5, _ => exact ⟨.timeoutMs, rfl⟩
  · intro r t h
    cases r
    cases t
    congr
    · exact h .path
    · exact h .args
    · exact h .exitFlag
    · exact h .listSymbolsFlag
    · exact h .format
    · exact h .timeoutMs

theorem DiagnosticsSettings.parts_of : ∃ fields, DiagnosticsSettings.form =
    record "struct DiagnosticsConfig" .default fields ∧ fields.length = 1 ∧
      DiagnosticsSettings.parts.Of fields := by
  refine ⟨_, rfl, rfl, ⟨by simp [plain_may], by decide⟩, ?_, ?_, ?_⟩
  · intro p
    refine ⟨⟨_, rfl, fun _ _ => rfl⟩, ?_⟩
    intro f hf hne
    obtain rfl := List.mem_singleton.1 hf
    exact absurd rfl hne
  · intro place hplace
    match place, hplace with
    | 0, _ => exact ⟨(), rfl⟩
  · intro r t h
    cases r
    cases t
    congr
    exact h ()

theorem Settings.parts_of : ∃ fields, Settings.form = record "struct Config" .default fields ∧
    fields.length = 2 ∧ Settings.parts.Of fields := by
  refine ⟨_, rfl, rfl, ⟨by simp [plain_may], by decide⟩, ?_, ?_, ?_⟩
  · intro p
    cases p
    all_goals
      refine ⟨⟨_, rfl, fun _ _ => rfl⟩, ?_⟩
      intro f hf hne
      simp only [List.mem_cons, List.not_mem_nil, or_false] at hf
      rcases hf with rfl | rfl
      all_goals first
        | exact absurd rfl hne
        | exact leaves_may fun _ _ => rfl
  · intro place hplace
    match place, hplace with
    | 0, _ => exact ⟨.analyzer, rfl⟩
    | 1, _ => exact ⟨.diagnostics, rfl⟩
  · intro r t h
    cases r
    cases t
    congr
    · exact h .analyzer
    · exact h .diagnostics

/-- The analyzer's settings as sorted members. -/
def AnalyzerSettings.members (a : AnalyzerSettings) : List (String × Json) := [
  ("args", .list (a.args.map .text)),
  ("exitFlag", .text a.exitFlag),
  ("format", .text a.format.name),
  ("listSymbolsFlag", .text a.listSymbolsFlag),
  ("path", .text a.path),
  ("timeoutMs", .nat a.timeoutMs.toNat)]

def DiagnosticsSettings.members (d : DiagnosticsSettings) : List (String × Json) :=
  [("source", .text d.source)]

def Settings.members (s : Settings) : List (String × Json) :=
  [("analyzer", .object s.analyzer.members), ("diagnostics", .object s.diagnostics.members)]

theorem canonicalItems_text (args : List String) :
    canonicalItems (args.map .text) = args.map .text := by
  rw [canonicalItems_eq_map, List.map_map]
  refine List.map_congr_left fun x _ => ?_
  simp [canonical]

theorem Settings.canonical_toJson (s : Settings) : s.toJson.canonical = .object s.members := by
  simp only [toJson, canonical, canonicalItems_text, canonicalMembers]
  rfl

theorem ofJson_list_text (args : List String) :
    (list text).ofJson (.list (args.map .text)) = .ok args :=
  mapM_ok (List.forall₂_map_right_iff.2 (List.forall₂_same.2 fun _ _ => rfl))

theorem ofJson_u64 (n : UInt64) : u64.ofJson (.nat n.toNat) = .ok n := by
  apply ofJson_integer
  have hlt : n.toNat < twoTo 64 := n.toNat_lt
  have hr : (0 : Int) ≤ n.toNat ∧ (n.toNat : Int) < twoTo 64 :=
    ⟨Int.natCast_nonneg _, Int.ofNat_lt.2 hlt⟩
  rw [if_pos hr, Int.toNat_natCast, UInt64.ofNat_toNat]

theorem Format.ofJson_name (f : Format) : Format.form.ofJson (.text f.name) = .ok f := by
  cases f <;> rfl

theorem AnalyzerSettings.written (a : AnalyzerSettings) : parts.Written a a.members where
  ascending := by
    have hnames : ["args", "exitFlag", "format", "listSymbolsFlag", "path",
        "timeoutMs"].Pairwise (· < ·) := by decide
    exact hnames
  parts p := by
    cases p
    · exact ⟨_, rfl, rfl⟩
    · exact ⟨_, rfl, ofJson_list_text a.args⟩
    · exact ⟨_, rfl, rfl⟩
    · exact ⟨_, rfl, rfl⟩
    · exact ⟨_, rfl, Format.ofJson_name a.format⟩
    · refine ⟨.nat a.timeoutMs.toNat, rfl, ?_⟩
      simp only [parts]
      exact ofJson_u64 a.timeoutMs
  flat name x hx w := by
    have hm := mem_of_lookup hx
    simp only [members, List.mem_cons, Prod.mk.injEq, List.not_mem_nil, or_false] at hm
    rcases hm with ⟨_, rfl⟩ | ⟨_, rfl⟩ | ⟨_, rfl⟩ | ⟨_, rfl⟩ | ⟨_, rfl⟩ | ⟨_, rfl⟩ <;>
      simp [overlay, Json.nat]

theorem DiagnosticsSettings.written (d : DiagnosticsSettings) : parts.Written d d.members where
  ascending := List.pairwise_singleton _ _
  parts _ := ⟨_, rfl, rfl⟩
  flat name x hx w := by
    obtain ⟨_, rfl⟩ := Prod.mk.inj (List.mem_singleton.1 (mem_of_lookup hx))
    simp [overlay]

theorem Settings.ascending_members (s : Settings) : Ascending s.members := by
  have hnames : ["analyzer", "diagnostics"].Pairwise (· < ·) := by decide
  exact hnames

namespace Settings

variable {s t : Settings} {v : Json}

/-- Overrides are accepted exactly if they are objects or short enough lists, and every setting that
they give can be read. Then a setting has the value given, or its old one, or, where a list stands
on the way to it, its default. -/
theorem withOverrides_iff (hv : v.Distinct)
    (hparts : ∀ name place w, v.part? name place = some w → w.Distinct) :
    s.withOverrides v = .ok t ↔ v.Fits 2 ∧
      (∀ w, v.part? "analyzer" 0 = some w → w.Fits 6) ∧
      (∀ w, v.part? "diagnostics" 1 = some w → w.Fits 1) ∧
      ∀ p : Setting, match p.given? v with
        | none => p.get t = if p.listed v then p.get .default else p.get s
        | some w => p.form.ofJson w = .ok (p.get t) := by
  obtain ⟨fields, hform, hlen, hof⟩ := Settings.parts_of
  obtain ⟨afields, haform, halen, haof⟩ := AnalyzerSettings.parts_of
  obtain ⟨dfields, hdform, hdlen, hdof⟩ := DiagnosticsSettings.parts_of
  have hm := s.ascending_members
  rw [withOverrides, canonical_toJson, hform, Parts.ofJson_iff hof (distinct_overlay hm hv),
    fits_overlay, hlen]
  refine and_congr_right fun hfit => ?_
  have ha := Parts.laid_iff "struct AnalyzerConfig" .default t.analyzer haof s.analyzer.written
    v.isList (hparts "analyzer" 0)
  have hd := Parts.laid_iff "struct DiagnosticsConfig" .default t.diagnostics hdof
    s.diagnostics.written v.isList (hparts "diagnostics" 1)
  rw [← part?_overlay_of_record hm hv hfit rfl, ← haform, halen] at ha
  rw [← part?_overlay_of_record hm hv hfit rfl, ← hdform, hdlen] at hd
  constructor
  · intro h
    obtain ⟨hfa, hga⟩ := ha.1 (h .analyzer)
    obtain ⟨hfd, hgd⟩ := hd.1 (h .diagnostics)
    refine ⟨hfa, hfd, ?_⟩
    intro p
    cases p with
    | analyzer p => exact hga p
    | source => exact hgd ()
  · rintro ⟨hfa, hfd, h⟩ p
    cases p with
    | analyzer => exact ha.2 ⟨hfa, fun p => h (.analyzer p)⟩
    | diagnostics => exact hd.2 ⟨hfd, fun _ => h .source⟩

/-- What overrides do to the settings. They are accepted exactly if they are objects or short enough
lists, and every setting that they give can be read; then a setting has the value given, or its old
one, or, where a list stands on the way to it, its default. So accepted overrides change a setting
only by naming it, unless a list stands on the way to it: then exactly if the setting happens to
stay as it was. -/
theorem accepted_overrides (s t : Settings) (v : Json) :
    (s.withOverrides v.canonical = .ok t ↔ v.canonical.Fits 2 ∧
      (∀ w, v.canonical.part? "analyzer" 0 = some w → w.Fits 6) ∧
      (∀ w, v.canonical.part? "diagnostics" 1 = some w → w.Fits 1) ∧
      ∀ p : Setting, match p.given? v.canonical with
        | none => p.get t = if p.listed v.canonical then p.get .default else p.get s
        | some w => p.form.ofJson w = .ok (p.get t)) ∧
    (s.withOverrides v.canonical = .ok t → ∀ p : Setting, p.Framed s v.canonical t ↔
      (p.listed v.canonical = true → p.get t = p.get s)) := by
  have hiff := withOverrides_iff (s := s) (t := t) v.distinct_canonical
    fun name place w => distinct_of_part
  refine ⟨hiff, ?_⟩
  intro h p
  obtain ⟨_, _, _, hp⟩ := hiff.1 h
  cases hl : p.listed v.canonical with
  | true => simp [Setting.Framed, Setting.named?_of_listed hl]
  | false =>
    have hframe := hp p
    simp only [hl, Bool.false_eq_true, if_false] at hframe
    simpa [Setting.Framed, Setting.named?_of_not_listed hl] using hframe

def tagged : Settings := { Settings.default with diagnostics := ⟨"qs"⟩ }

def legacyFormat : Json := .object [("analyzer", .object [("format", .text "legacy")])]

theorem accepted_overrides_legacyFormat : ∃ t, tagged.withOverrides legacyFormat.canonical = .ok t ∧
    t.analyzer.format = .legacy ∧ t.diagnostics.source = "qs" ∧
    ∀ p : Setting, p.Framed tagged legacyFormat.canonical t := by
  refine ⟨{ tagged with analyzer := { AnalyzerSettings.default with format := .legacy } }, rfl, rfl,
    rfl, fun p => ?_⟩
  rw [(accepted_overrides _ _ legacyFormat).2 rfl p]
  intro hl
  cases p <;> cases hl

/-- An empty list is accepted and names nothing, and yet it resets the tag. -/
theorem emptyList_resets : tagged.withOverrides (Json.list []).canonical = .ok .default ∧
    ¬ ∀ (s t : Settings) (v : Json), s.withOverrides v.canonical = .ok t →
      ∀ p : Setting, p.Framed s v.canonical t := by
  have hreset : tagged.withOverrides (Json.list []).canonical = .ok .default := rfl
  refine ⟨hreset, ?_⟩
  intro hall
  have hsource : ("Q-Script" : String) = "qs" := hall tagged .default (.list []) hreset .source
  exact absurd hsource (by decide)

end Settings

end AnalyzerBridge
