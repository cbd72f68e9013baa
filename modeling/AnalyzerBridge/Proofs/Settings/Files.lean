import AnalyzerBridge.Proofs.Json.Gathering
import AnalyzerBridge.Proofs.Settings.Overrides

/-! What a settings file does to each setting. A file is cut into the members of its text: its groups
into settings, and anything else left as it is. Main statement: a file is accepted exactly if it
names nothing twice that it sets and every setting that it names can be read; then those have the
values written there, and the others their defaults. -/
namespace AnalyzerBridge

open Json Form FieldForm

/-- A member of a settings file: a group with the texts of its members, or any other text. -/
inductive Entry where
  | group (members : List (List Char × List Char))
  | other (text : List Char)

/-- The members of a settings file, with their names as they are written. -/
abbrev Outline := List (List Char × Entry)

/-- A text of JSON of any depth. -/
def AnyText (x s : List Char) : Prop := x = s ∧ ∃ levels, WellFormed levels s

inductive EntryText : Entry → List Char → Prop
  | group {members : List (List Char × List Char)} {s : List Char} :
      ObjectText RawName AnyText members s → EntryText (.group members) s
  | other {x s : List Char} : AnyText x s → EntryText (.other x) s

/-- The text is an object with these members, of which those with the names of groups are objects. -/
structure FileText (outline : Outline) (text : String) : Prop where
  written : ∃ g s h, Gap g ∧ Gap h ∧ text.toList = g ++ (s ++ h) ∧
    ObjectText RawName EntryText outline s
  groups : ∀ m ∈ outline, (∃ q, SpellsName (Settings.parts.name q) m.1) ↔
    ∃ members, m.2 = .group members

/-- How many levels a setting in a file may open, besides the file and its group. -/
def settingLevels : Nat := maxLevels - 2

namespace Outline

/-- Under the names of its group and its own the setting has this text. -/
def Holds (outline : Outline) (p : Setting) (y : List Char) : Prop :=
  ∃ m ∈ outline, SpellsName (Settings.parts.name p.group) m.1 ∧ ∃ members, m.2 = .group members ∧
    ∃ c ∈ members, SpellsName p.name c.1 ∧ c.2 = y

/-- The names are texts, and no group and no setting is named twice. -/
structure Proper (outline : Outline) : Prop where
  texts : ∀ m ∈ outline, (∃ name, SpellsName name m.1) ∧
    ∀ members, m.2 = .group members → ∀ c ∈ members, ∃ name, SpellsName name c.1
  groups : ∀ q, outline.Pairwise fun m m' =>
    ¬ (SpellsName (Settings.parts.name q) m.1 ∧ SpellsName (Settings.parts.name q) m'.1)
  settings : ∀ (p : Setting), ∀ m ∈ outline, SpellsName (Settings.parts.name p.group) m.1 →
    ∀ members, m.2 = .group members →
      members.Pairwise fun c c' => ¬ (SpellsName p.name c.1 ∧ SpellsName p.name c'.1)

end Outline

def Setting.Reads (p : Setting) (y : List Char) (a : p.Value) : Prop :=
  ∃ v, Spells settingLevels v y ∧ p.form.ofJson v = .ok a

namespace Parts

variable {ρ : Type} {P : Parts ρ} {levels : Nat} {members : List (List Char × List Char)}

def Reads (P : Parts ρ) (levels : Nat) (p : P.Part) (y : List Char) (a : P.Value p) : Prop :=
  ∃ v, Spells levels v y ∧ (P.form p).ofJson v = .ok a

theorem settled_of_agrees (hA : ∀ p, (P.form p).Agrees) :
    P.Settled levels (P.Reads levels) AnyText members where
  named m _ p _ y hy := by
    obtain ⟨rfl, n, hn⟩ := hy
    exact (hA p).settles hn
  other m _ _ y hy := by
    obtain ⟨rfl, n, hn⟩ := hy
    exact skip_wellFormed hn

end Parts

theorem AnalyzerSettings.parts_agree (p : AnalyzerSetting) : (parts.form p).Agrees := by
  cases p
  · exact agrees_textAs
  · exact agrees_list agrees_textAs
  · exact agrees_textAs
  · exact agrees_textAs
  · exact agrees_choice
  · exact agrees_integer

theorem AnalyzerSettings.parts_full : parts.Full where
  names p q h := by
    cases p <;> cases q <;> simp [parts] at h ⊢
  written p z := by
    cases p
    · exact ⟨.text z, rfl⟩
    · exact ⟨.list (z.map .text), ofJson_list_text z⟩
    · exact ⟨.text z, rfl⟩
    · exact ⟨.text z, rfl⟩
    · exact ⟨.text z.name, Format.ofJson_name z⟩
    · refine ⟨.nat (UInt64.toNat z), ?_⟩
      simp only [parts]
      exact ofJson_u64 z

theorem DiagnosticsSettings.parts_full : parts.Full where
  names _ _ _ := rfl
  written _ z := ⟨.text z, rfl⟩

theorem Settings.parts_full : parts.Full where
  names p q h := by
    cases p <;> cases q <;> simp [parts] at h ⊢
  written q z := by
    cases q with
    | analyzer =>
      obtain ⟨fields, hform, _, hof⟩ := AnalyzerSettings.parts_of
      refine ⟨.object z.members, ?_⟩
      simp only [parts, hform]
      exact (Parts.written_iff hof z.written).2 rfl
    | diagnostics =>
      obtain ⟨fields, hform, _, hof⟩ := DiagnosticsSettings.parts_of
      refine ⟨.object z.members, ?_⟩
      simp only [parts, hform]
      exact (Parts.written_iff hof z.written).2 rfl

def Entry.Gives : Entry → (q : SettingGroup) → Settings.parts.Value q → Prop
  | group members, .analyzer, a =>
    AnalyzerSettings.parts.Gathers (AnalyzerSettings.parts.Reads settingLevels) [] .default members a
  | group members, .diagnostics, d =>
    DiagnosticsSettings.parts.Gathers (DiagnosticsSettings.parts.Reads settingLevels) [] .default
      members d
  | other _, _, _ => False

variable {outline : Outline} {text : String} {s : Settings}

theorem FileText.settled (hf : FileText outline text) :
    Settings.parts.Settled (settingLevels + 1) (fun q entry => entry.Gives q) EntryText outline where
  named m hm q hq y hy := by
    obtain ⟨members, hgroup⟩ := (hf.groups m hm).1 ⟨q, hq⟩
    rw [hgroup] at hy ⊢
    cases hy with
    | group hy =>
      cases q with
      | analyzer =>
        obtain ⟨fields, hform, _, hof⟩ := AnalyzerSettings.parts_of
        simp only [Settings.parts, hform]
        exact Parts.settles_record hof AnalyzerSettings.parts_full
          (Parts.settled_of_agrees AnalyzerSettings.parts_agree) hy
      | diagnostics =>
        obtain ⟨fields, hform, _, hof⟩ := DiagnosticsSettings.parts_of
        simp only [Settings.parts, hform]
        exact Parts.settles_record hof DiagnosticsSettings.parts_full
          (Parts.settled_of_agrees fun _ => agrees_textAs) hy
  other m hm hno y hy := by
    cases hentry : m.2 with
    | group members =>
      obtain ⟨q, hq⟩ := (hf.groups m hm).2 ⟨members, hentry⟩
      exact absurd hq (hno q)
    | other x =>
      rw [hentry] at hy
      cases hy with
      | other hy =>
        obtain ⟨rfl, n, hn⟩ := hy
        exact skip_wellFormed hn

/-- A file gives the settings that its members give. -/
theorem Settings.ofText_iff_gathers (hf : FileText outline text) : ofText text = .ok s ↔
    parts.Gathers (fun q entry => entry.Gives q) [] .default outline s := by
  obtain ⟨g, x, h, hg, hh, htext, hx⟩ := hf.written
  obtain ⟨fields, hform, _, hof⟩ := parts_of
  have hsettles : Settles (form.read maxLevels) x
      (parts.Gathers (fun q entry => entry.Gives q) [] .default outline) := by
    rw [hform]
    exact Parts.settles_record hof parts_full hf.settled hx
  rw [ofText, readWhole, htext]
  constructor
  · intro hs
    obtain ⟨⟨t, rest⟩, ht, hs⟩ := Except.bind_eq_ok.1 hs
    obtain ⟨_, _, hs⟩ := Except.bind_eq_ok.1 hs
    cases hs
    exact ((hsettles g h s rest hg hh.delimited).1 ht).2
  · intro hs
    refine Except.bind_eq_ok.2 ⟨(s, h), (hsettles g h s h hg hh.delimited).2 ⟨rfl, hs⟩, ?_⟩
    simp [finish, hh.skipSpace, bind, Except.bind]

namespace Outline

/-- Only one member has the name of a group. -/
theorem Proper.eq_of_names (hp : outline.Proper) {q : SettingGroup} {m m' : List Char × Entry}
    (hm : m ∈ outline) (hm' : m' ∈ outline) (h : SpellsName (Settings.parts.name q) m.1)
    (h' : SpellsName (Settings.parts.name q) m'.1) : m = m' := by
  have hsymm : Std.Symm fun m m' : List Char × Entry =>
      ¬ (SpellsName (Settings.parts.name q) m.1 ∧ SpellsName (Settings.parts.name q) m'.1) :=
    ⟨fun _ _ h hboth => h hboth.symm⟩
  by_contra hne
  exact (hp.groups q).forall hm hm' hne ⟨h, h'⟩

/-- A setting has only one text. -/
theorem Proper.eq_of_holds (hp : outline.Proper) {p : Setting} {y y' : List Char}
    (h : outline.Holds p y) (h' : outline.Holds p y') : y = y' := by
  obtain ⟨m, hm, hq, members, hg, c, hc, hname, rfl⟩ := h
  obtain ⟨m', hm', hq', members', hg', c', hc', hname', rfl⟩ := h'
  obtain rfl := hp.eq_of_names hm hm' hq hq'
  obtain rfl : members = members' := Entry.group.inj (hg.symm.trans hg')
  have hsymm : Std.Symm fun c c' : List Char × List Char =>
      ¬ (SpellsName p.name c.1 ∧ SpellsName p.name c'.1) := ⟨fun _ _ h hboth => h hboth.symm⟩
  by_contra hne
  exact (hp.settings p m hm hq members hg).forall hc hc' (fun heq => hne (congrArg Prod.snd heq))
    ⟨hname, hname'⟩

end Outline

/-- What the members of a group give, setting by setting. -/
theorem gives_group {members : List (List Char × List Char)} {q : SettingGroup} :
    (Entry.group members).Gives q (Settings.parts.get s q) ↔
      (∀ c ∈ members, ∃ name, SpellsName name c.1) ∧ ∀ p : Setting, p.group = q →
        (members.Pairwise fun c c' => ¬ (SpellsName p.name c.1 ∧ SpellsName p.name c'.1)) ∧
        (∀ c ∈ members, SpellsName p.name c.1 → p.Reads c.2 (p.get s)) ∧
        ((∀ c ∈ members, ¬ SpellsName p.name c.1) → p.get s = p.get .default) := by
  cases q with
  | analyzer =>
    constructor
    · intro h
      refine ⟨h.texts, ?_⟩
      intro p hp
      cases p with
      | analyzer p => exact ⟨h.single p, h.given p, h.others p⟩
      | source => cases hp
    · rintro ⟨htexts, h⟩
      exact ⟨htexts, fun p => (h (.analyzer p) rfl).1, nofun, fun p => (h (.analyzer p) rfl).2.1,
        fun p => (h (.analyzer p) rfl).2.2⟩
  | diagnostics =>
    constructor
    · intro h
      refine ⟨h.texts, ?_⟩
      intro p hp
      cases p with
      | analyzer p => cases hp
      | source => exact ⟨h.single (), h.given (), h.others ()⟩
    · rintro ⟨htexts, h⟩
      exact ⟨htexts, fun _ => (h .source rfl).1, nofun, fun _ => (h .source rfl).2.1,
        fun _ => (h .source rfl).2.2⟩

/-- A group has its defaults if each of its settings has. -/
theorem get_group_eq {q : SettingGroup} : Settings.parts.get s q = Settings.parts.get .default q ↔
    ∀ p : Setting, p.group = q → p.get s = p.get .default := by
  cases q with
  | analyzer =>
    constructor
    · intro h p hp
      cases p with
      | analyzer p => exact congrArg (AnalyzerSettings.parts.get · p) h
      | source => cases hp
    · intro h
      obtain ⟨_, _, _, hof⟩ := AnalyzerSettings.parts_of
      exact hof.ext _ _ fun p => h (.analyzer p) rfl
  | diagnostics =>
    constructor
    · intro h p hp
      cases p with
      | analyzer p => cases hp
      | source => exact congrArg DiagnosticsSettings.source h
    · intro h
      obtain ⟨_, _, _, hof⟩ := DiagnosticsSettings.parts_of
      exact hof.ext _ _ fun _ => h .source rfl

/-- A file is accepted exactly if its names are texts, it names no group and no setting twice, and
every setting that it names can be read. Then those settings have the values that are written there,
and the others have their defaults. -/
theorem Settings.ofText_iff (hf : FileText outline text) : ofText text = .ok s ↔ outline.Proper ∧
    ∀ p : Setting, (∀ y, outline.Holds p y → p.Reads y (p.get s)) ∧
      ((∀ y, ¬ outline.Holds p y) → p.get s = p.get .default) := by
  rw [ofText_iff_gathers hf]
  constructor
  · intro h
    have hgives {m : List Char × Entry} {q : SettingGroup} {members : List (List Char × List Char)}
        (hm : m ∈ outline) (hq : SpellsName (Settings.parts.name q) m.1) (hg : m.2 = .group members) :=
      gives_group.1 (hg ▸ h.given q m hm hq)
    refine ⟨⟨?_, h.single, ?_⟩, fun p => ⟨?_, ?_⟩⟩
    · intro m hm
      refine ⟨h.texts m hm, fun members hg => ?_⟩
      obtain ⟨q, hq⟩ := (hf.groups m hm).2 ⟨members, hg⟩
      exact (hgives hm hq hg).1
    · intro p m hm hq members hg
      exact ((hgives hm hq hg).2 p rfl).1
    · rintro y ⟨m, hm, hq, members, hg, c, hc, hname, rfl⟩
      exact ((hgives hm hq hg).2 p rfl).2.1 c hc hname
    · intro hno
      by_cases hq : ∃ m ∈ outline, SpellsName (Settings.parts.name p.group) m.1
      · obtain ⟨m, hm, hq⟩ := hq
        obtain ⟨members, hg⟩ := (hf.groups m hm).1 ⟨_, hq⟩
        apply ((hgives hm hq hg).2 p rfl).2.2
        intro c hc hname
        exact hno c.2 ⟨m, hm, hq, members, hg, c, hc, hname, rfl⟩
      · have hgroup := h.others p.group fun m hm hname => hq ⟨m, hm, hname⟩
        exact get_group_eq.1 hgroup p rfl
  · rintro ⟨hp, hs⟩
    refine ⟨fun m hm => (hp.texts m hm).1, hp.groups, nofun, ?_, ?_⟩
    · intro q m hm hq
      obtain ⟨members, hg⟩ := (hf.groups m hm).1 ⟨q, hq⟩
      rw [hg]
      refine gives_group.2 ⟨(hp.texts m hm).2 members hg, ?_⟩
      rintro p rfl
      refine ⟨hp.settings p m hm hq members hg, ?_, ?_⟩
      · intro c hc hname
        exact (hs p).1 c.2 ⟨m, hm, hq, members, hg, c, hc, hname, rfl⟩
      · intro hno
        apply (hs p).2
        rintro y ⟨m', hm', hq', members', hg', c, hc, hname, rfl⟩
        obtain rfl := hp.eq_of_names hm hm' hq hq'
        rw [hg] at hg'
        cases hg'
        exact hno c hc hname
    · intro q hno
      apply get_group_eq.2
      rintro p rfl
      apply (hs p).2
      rintro y ⟨m, hm, hq, _⟩
      exact hno m hm hq

end AnalyzerBridge
