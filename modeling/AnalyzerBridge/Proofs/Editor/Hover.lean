import AnalyzerBridge.Proofs.Service.Returns
import Mathlib.Data.List.Find

/-! Hovers against the report that they are taken from: a place shows the first symbol whose name is
there, over a range that has the place in it. -/
namespace AnalyzerBridge

/-- The column right behind a symbol's name, or the last one of 32 bits if the name goes on. -/
def Symbol.endColumn (s : Symbol) : Nat :=
  min (s.column.toNat + Text.units s.name.toList) (twoTo 32 - 1)

/-- A place is on a symbol's name or right behind it. Symbols count lines from 1; one on line 0 is
nowhere. -/
def Symbol.Spans (s : Symbol) (p : Position) : Prop :=
  1 ≤ s.line.toNat ∧ s.line.toNat - 1 = p.line.toNat ∧
    s.column.toNat ≤ p.character.toNat ∧ p.character.toNat ≤ s.endColumn

instance (s : Symbol) (p : Position) : Decidable (s.Spans p) :=
  inferInstanceAs (Decidable (_ ∧ _))

/-- A symbol is the first in a report whose name is at a place. -/
def Report.FirstAt (r : Report) (p : Position) (s : Symbol) : Prop :=
  s.Spans p ∧ ∃ before after, r.symbols = before ++ s :: after ∧ ∀ t ∈ before, ¬ t.Spans p

/-- A text behind as many copies of a character as it lacks to be of the width. -/
def Text.Filled (width : Nat) (c : Char) (s t : String) : Prop :=
  ∃ k, t.toList = List.replicate k c ++ s.toList ∧ t.length = max width s.length

/-- A row is that of an instruction: its address in six digits or more, what it does at the right of a
column of 24 characters, and in brackets its place in the script and its token. -/
def Instruction.ShownBy (i : Instruction) (row : String) : Prop :=
  ∃ address text, Text.Filled 6 '0' (toString i.address.toNat) address ∧
    Text.Filled 24 ' ' i.describe text ∧
    row = address ++ " " ++ text ++ " [" ++ toString i.line.toNat ++ ":" ++
      toString i.column.toNat ++ " '" ++ i.token ++ "']"

/-- A block of code is that of a listing: between two fences its name, then a row for each instruction. -/
def Listing.ShownBy (l : Listing) (block : String) : Prop :=
  ∃ rows, List.Forall₂ Instruction.ShownBy l.instructions rows ∧
    block = "```\n" ++ "; " ++ l.name ++ "\n" ++ String.join (rows.map (· ++ "\n")) ++ "```\n"

/-- The text that describes a symbol has the block of a listing in it, behind an empty line. -/
def Symbol.ListedBy (s : Symbol) (text : String) (l : Listing) : Prop :=
  ∃ block, l.ShownBy block ∧ text = s.summary ++ "\n" ++ block

/-- A hover shows a symbol of a report at a place: over a range around the place from the symbol's
column on, with the listing to which the symbol refers, and none if the report does not have it. -/
structure Hover.Shows (h : Hover) (r : Report) (s : Symbol) (p : Position) : Prop where
  start : h.range.start = ⟨p.line, s.column⟩
  stop_line : h.range.stop.line = p.line
  stop_column : h.range.stop.character.toNat = s.endColumn
  from_start : h.range.start.character ≤ p.character
  to_stop : p.character ≤ h.range.stop.character
  has_listing : (∃ l, s.ListedBy h.markdown l) ↔
    ∃ id l, s.listingId = some id ∧ r.listings.find? id = some l
  listing : ∀ id l, s.listingId = some id → r.listings.find? id = some l →
    s.ListedBy h.markdown l
  plain : (∀ id, s.listingId = some id → r.listings.find? id = none) → h.markdown = s.summary

variable {r : Report} {s : Symbol} {p : Position} {x : Hover}

theorem Text.filled_iff {width : Nat} {c : Char} {s t : String} :
    Filled width c s t ↔ t = padLeft width c s := by
  have hlist : (padLeft width c s).toList =
      List.replicate (width - s.length) c ++ s.toList := by
    rw [padLeft, String.toList_append, String.toList_ofList]
  constructor
  · rintro ⟨k, ht, hlength⟩
    have hk := congrArg List.length ht
    rw [List.length_append, List.length_replicate, String.length_toList, String.length_toList] at hk
    obtain rfl : k = width - s.length := by omega
    exact String.toList_inj.1 (ht.trans hlist.symm)
  · rintro rfl
    refine ⟨_, hlist, ?_⟩
    rw [← String.length_toList, hlist, List.length_append, List.length_replicate,
      String.length_toList]
    omega

theorem Instruction.shownBy_iff {i : Instruction} {row : String} : i.ShownBy row ↔ row = i.row := by
  constructor
  · rintro ⟨address, text, haddress, htext, rfl⟩
    obtain rfl := Text.filled_iff.1 haddress
    obtain rfl := Text.filled_iff.1 htext
    rfl
  · rintro rfl
    exact ⟨_, _, Text.filled_iff.2 rfl, Text.filled_iff.2 rfl, rfl⟩

theorem Listing.shownBy_iff {l : Listing} {block : String} : l.ShownBy block ↔ block = l.describe := by
  have hrow : Instruction.ShownBy = fun i row => i.row = row := by
    funext i row
    exact propext (Instruction.shownBy_iff.trans eq_comm)
  have hrows : ∀ rows, List.Forall₂ Instruction.ShownBy l.instructions rows ↔
      l.instructions.map Instruction.row = rows := by
    intro rows
    rw [hrow, ← List.forall₂_map_left_iff, List.forall₂_eq_eq_eq]
  have hdescribe : l.describe = "```\n" ++ "; " ++ l.name ++ "\n" ++
      String.join ((l.instructions.map Instruction.row).map (· ++ "\n")) ++ "```\n" := by
    rw [describe, List.map_map]
    rfl
  rw [ShownBy, hdescribe]
  simp only [hrows, exists_eq_left']

theorem Symbol.listedBy_iff {text : String} {l : Listing} :
    s.ListedBy text l ↔ text = s.markdown (some l) := by
  simp only [ListedBy, Listing.shownBy_iff, exists_eq_left, markdown, String.append_assoc]

namespace Symbol

theorem toNat_clampedAdd_nameWidth (hs : Text.units s.name.toList < twoTo 32) :
    (clampedAdd s.column s.nameWidth).toNat = s.endColumn := by
  rw [toNat_clampedAdd, nameWidth, toNat_width hs, endColumn]

theorem covers_iff (hs : Text.units s.name.toList < twoTo 32) : s.covers p = true ↔ s.Spans p := by
  have hline : s.line ≠ 0 ∧ s.line - 1 = p.line ↔
      1 ≤ s.line.toNat ∧ s.line.toNat - 1 = p.line.toNat := by
    rw [Ne, ← UInt32.toNat_inj, ← UInt32.toNat_inj]
    have hzero : (0 : UInt32).toNat = 0 := rfl
    by_cases h : s.line.toNat = 0
    · rw [hzero]
      omega
    · have hle : (1 : UInt32) ≤ s.line := Nat.one_le_iff_ne_zero.2 h
      have hone : (1 : UInt32).toNat = 1 := rfl
      rw [UInt32.toNat_sub_of_le _ _ hle, hzero, hone]
      omega
  rw [covers, Bool.and_eq_true, Bool.and_eq_true, Bool.and_eq_true, decide_eq_true_eq,
    decide_eq_true_eq, decide_eq_true_eq, beq_iff_eq, and_assoc, hline,
    UInt32.le_iff_toNat_le, UInt32.le_iff_toNat_le, toNat_clampedAdd_nameWidth hs, Spans]
  exact ⟨fun ⟨⟨ha, hb⟩, hc, hd⟩ => ⟨ha, hb, hc, hd⟩, fun ⟨ha, hb, hc, hd⟩ => ⟨⟨ha, hb⟩, hc, hd⟩⟩

/-- Line 0 is shown where line 1 is, but it has no places. -/
theorem covers_of_line_zero (h : s.line = 0) (p : Position) : s.covers p = false := by
  rw [covers, h]
  rfl

end Symbol

namespace Report

theorem listingOf_eq_some {l : Listing} : r.listingOf s = some l ↔
    ∃ id, s.listingId = some id ∧ r.listings.find? id = some l :=
  Option.bind_eq_some_iff

theorem listingOf_eq_none : r.listingOf s = none ↔
    ∀ id, s.listingId = some id → r.listings.find? id = none :=
  Option.bind_eq_none_iff

theorem FirstAt.mem (h : r.FirstAt p s) : s ∈ r.symbols := by
  obtain ⟨-, before, after, hsymbols, -⟩ := h
  rw [hsymbols]
  exact List.mem_append_right _ List.mem_cons_self

/-- The search looks for places on the names. -/
theorem symbolAt_eq (hr : ∀ s ∈ r.symbols, Text.units s.name.toList < twoTo 32) :
    r.symbolAt p = r.symbols.find? fun s => decide (s.Spans p) := by
  rw [symbolAt]
  refine List.find?_congr fun s hs => ?_
  rw [Bool.eq_iff_iff, Symbol.covers_iff (hr s hs), decide_eq_true_iff]

theorem symbolAt_eq_some (hr : ∀ s ∈ r.symbols, Text.units s.name.toList < twoTo 32) :
    r.symbolAt p = some s ↔ r.FirstAt p s := by
  rw [symbolAt_eq hr, List.find?_eq_some_iff_append, FirstAt, decide_eq_true_iff]
  simp only [Bool.not_eq_true', decide_eq_false_iff_not]

theorem symbolAt_isSome (hr : ∀ s ∈ r.symbols, Text.units s.name.toList < twoTo 32) :
    (r.symbolAt p).isSome ↔ ∃ s ∈ r.symbols, s.Spans p := by
  rw [symbolAt_eq hr, List.find?_isSome]
  simp only [decide_eq_true_iff]

end Report

namespace Hover

theorem markdown_of_listing {l : Listing} (h : r.listingOf s = some l) :
    s.ListedBy (r.hoverOf s).markdown l := by
  rw [Symbol.listedBy_iff, Report.hoverOf, h]

theorem markdown_of_none (h : r.listingOf s = none) : (r.hoverOf s).markdown = s.summary := by
  simp only [Report.hoverOf, Symbol.markdown, h, String.append_empty]

/-- A description is never as long with a listing as without. -/
theorem not_listedBy_summary {l : Listing} : ¬ s.ListedBy s.summary l := by
  rintro ⟨block, -, h⟩
  have hlength := congrArg String.length h
  rw [String.length_append, String.length_append] at hlength
  have hbreak : "\n".length = 1 := rfl
  omega

theorem shows_hoverOf (hs : Text.units s.name.toList < twoTo 32) (hp : s.Spans p) :
    (r.hoverOf s).Shows r s p := by
  obtain ⟨-, hline, hcolumn, hend⟩ := hp
  have hstart : (r.hoverOf s).range.start.line = p.line := by
    apply UInt32.toNat_inj.1
    exact (Range.toNat_line_onLine s.line s.column s.nameWidth).trans hline
  have hstop : (r.hoverOf s).range.stop.character.toNat = s.endColumn :=
    Symbol.toNat_clampedAdd_nameWidth hs
  refine ⟨Position.mk.injEq _ _ _ _ ▸ ⟨hstart, rfl⟩, hstart, hstop, hcolumn, ?_, ?_, ?_, ?_⟩
  · rw [UInt32.le_iff_toNat_le, hstop]
    exact hend
  · constructor
    · rintro ⟨l, hl⟩
      cases hlisting : r.listingOf s with
      | none =>
        rw [markdown_of_none hlisting] at hl
        exact absurd hl not_listedBy_summary
      | some l =>
        obtain ⟨id, hid, hfind⟩ := Report.listingOf_eq_some.1 hlisting
        exact ⟨id, l, hid, hfind⟩
    · rintro ⟨id, l, hid, hfind⟩
      exact ⟨l, markdown_of_listing (Report.listingOf_eq_some.2 ⟨id, hid, hfind⟩)⟩
  · intro id l hid hfind
    exact markdown_of_listing (Report.listingOf_eq_some.2 ⟨id, hid, hfind⟩)
  · intro hnone
    exact markdown_of_none (Report.listingOf_eq_none.2 hnone)

theorem Shows.unique {y : Hover} (hx : x.Shows r s p) (hy : y.Shows r s p) : x = y := by
  obtain ⟨text, ⟨start, stop⟩⟩ := x
  obtain ⟨text', ⟨start', stop'⟩⟩ := y
  obtain rfl : start = start' := hx.start.trans hy.start.symm
  have hline : stop.line = stop'.line := hx.stop_line.trans hy.stop_line.symm
  have hcolumn : stop.character = stop'.character :=
    UInt32.toNat_inj.1 (hx.stop_column.trans hy.stop_column.symm)
  obtain rfl : stop = stop' := by
    cases stop
    cases stop'
    exact Position.mk.injEq _ _ _ _ ▸ ⟨hline, hcolumn⟩
  have htext : text = text' := by
    cases hlisting : r.listingOf s with
    | none =>
      have hnone := Report.listingOf_eq_none.1 hlisting
      exact (hx.plain hnone).trans (hy.plain hnone).symm
    | some l =>
      obtain ⟨id, hid, hfind⟩ := Report.listingOf_eq_some.1 hlisting
      exact (Symbol.listedBy_iff.1 (hx.listing id l hid hfind)).trans
        (Symbol.listedBy_iff.1 (hy.listing id l hid hfind)).symm
  rw [htext]

end Hover

theorem Report.hoverAt_eq_some (hr : ∀ s ∈ r.symbols, Text.units s.name.toList < twoTo 32) :
    r.hoverAt p = some x ↔ ∃ s, r.FirstAt p s ∧ x.Shows r s p := by
  rw [hoverAt, Option.map_eq_some_iff]
  constructor
  · rintro ⟨s, hs, rfl⟩
    have hfirst := (symbolAt_eq_some hr).1 hs
    exact ⟨s, hfirst, Hover.shows_hoverOf (hr s hfirst.mem) hfirst.1⟩
  · rintro ⟨s, hfirst, hx⟩
    exact ⟨s, (symbolAt_eq_some hr).2 hfirst,
      (Hover.shows_hoverOf (hr s hfirst.mem) hfirst.1).unique hx⟩

/-- What the service answers to a hover whose run has written an output. There is an answer exactly if
the output can be read and a symbol spans the place; it shows the first such symbol. Symbols on line
0 are at no place, though their range is that of line 1. -/
theorem Service.hover_exact (service : Service) (output : String) (p : Position)
    (hnames : ∀ r, service.settings.analyzer.format.read output = .ok r →
      ∀ s ∈ r.symbols, Text.units s.name.toList < twoTo 32) :
    (∀ x, (service.report? (.completed output)).bind (·.hoverAt p) = some x ↔
      ∃ r s, service.settings.analyzer.format.read output = .ok r ∧ r.FirstAt p s ∧
        x.Shows r s p) ∧
    (((service.report? (.completed output)).bind (·.hoverAt p)).isSome ↔
      ∃ r, service.settings.analyzer.format.read output = .ok r ∧ ∃ s ∈ r.symbols, s.Spans p) ∧
    ∀ s : Symbol, s.line = 0 → s.covers p = false ∧ s.range = { s with line := 1 }.range := by
  have hreport : ∀ r, service.report? (.completed output) = some r ↔
      service.settings.analyzer.format.read output = .ok r := by
    intro r
    refine Format.report?_eq_some.trans ⟨?_, fun hread => ⟨output, rfl, hread⟩⟩
    rintro ⟨_, heq, hread⟩
    cases heq
    exact hread
  refine ⟨?_, ?_, ?_⟩
  · intro x
    rw [Option.bind_eq_some_iff]
    constructor
    · rintro ⟨r, hr, hx⟩
      have hread := (hreport r).1 hr
      obtain ⟨s, hs⟩ := (Report.hoverAt_eq_some (hnames r hread)).1 hx
      exact ⟨r, s, hread, hs⟩
    · rintro ⟨r, s, hread, hs⟩
      exact ⟨r, (hreport r).2 hread, (Report.hoverAt_eq_some (hnames r hread)).2 ⟨s, hs⟩⟩
  · rw [Option.isSome_bind, Option.any_eq_true]
    refine exists_congr fun r => ?_
    rw [hreport]
    refine and_congr_right fun hread => ?_
    rw [Report.hoverAt, Option.isSome_map]
    exact Report.symbolAt_isSome (hnames r hread)
  · intro s hs
    refine ⟨Symbol.covers_of_line_zero hs p, ?_⟩
    rw [Symbol.range, hs]
    exact Range.onLine_zero s.column s.nameWidth

/-- A jump back over a loop, behind a constant and before a closure with two captures. -/
def loopListing : Listing :=
  ⟨3, "f", [⟨0, "CONST", 1, 2, "c😀", .simple, none⟩,
    ⟨2, "LOOP", 2, 0, "while", .long, some (.jump 0 (-7) .backward)⟩,
    ⟨1234567, "CLOSURE", 3, 4, "fun", .short, some (.closure [⟨0, true⟩, ⟨2, false⟩])⟩]⟩

/-- Two names side by side, the second with a listing and with a character of two units. -/
def neighbors : Report where
  verdict := .ok
  problems := []
  symbols := [⟨.global, 1, 0, "ab", false, none, none, [], none⟩,
    ⟨.localVar, 1, 2, "c😀", true, some "function", none, [], some 3⟩]
  listings := ⟨[(3, loopListing)]⟩

def neighborsText : String :=
  "[\"OK\",[],[[\"Global\",1,0,\"ab\"],[\"Local\",1,2,\"c😀\",true,\"function\",null,[],3]]," ++
    "[[3,\"f\",[[0,\"CONST\",1,2,\"c😀\"],[2,\"LOOP\",2,0,\"while\",\"LONG\"," ++
    "\x7b\"target\":0,\"offset\":-7,\"direction\":\"backward\"\x7d]," ++
    "[1234567,\"CLOSURE\",3,4,\"fun\",\"SHORT\",\x7b\"upvalues\":[[0,true],[2]]\x7d]]]]]"

def secondHover : Hover where
  markdown :=
    "### c😀\n```qscript\nconst function c😀; // function, Local, returns unknown\n```\n" ++ "\n" ++
    "```\n; f\n" ++
    "000000                    CONST [1:2 'c😀']\n" ++
    "000002     LOOP_LONG -7 -> 0000 [2:0 'while']\n" ++
    "1234567 CLOSURE_SHORT [local 0, upvalue 2] [3:4 'fun']\n" ++
    "```\n"
  range := ⟨⟨0, 2⟩, ⟨0, 5⟩⟩

def structuredService : Service :=
  .initial .default

/-- Right behind the second name it is shown with its listing, and further on nothing. -/
theorem hover_exact_neighbors :
    structuredService.settings.analyzer.format.read neighborsText = .ok neighbors ∧
    (structuredService.report? (.completed neighborsText)).bind (·.hoverAt ⟨0, 5⟩) =
      some secondHover ∧
    (∃ s, neighbors.FirstAt ⟨0, 5⟩ s ∧ secondHover.Shows neighbors s ⟨0, 5⟩ ∧
      s.ListedBy secondHover.markdown loopListing) ∧
    ((structuredService.report? (.completed neighborsText)).bind (·.hoverAt ⟨0, 6⟩)).isSome =
      false := by
  have hread : structuredService.settings.analyzer.format.read neighborsText = .ok neighbors := by
    decide +kernel
  have hreport : structuredService.report? (.completed neighborsText) = some neighbors :=
    Format.report?_eq_some.2 ⟨neighborsText, rfl, hread⟩
  have hsecond : (structuredService.report? (.completed neighborsText)).bind (·.hoverAt ⟨0, 5⟩) =
      some secondHover := by
    rw [hreport]
    decide +kernel
  have hnames : ∀ r, structuredService.settings.analyzer.format.read neighborsText = .ok r →
      ∀ s ∈ r.symbols, Text.units s.name.toList < twoTo 32 := by
    intro r hr
    obtain rfl : r = neighbors := Except.ok.inj (hr.symm.trans hread)
    decide
  obtain ⟨hshown, -, -⟩ := structuredService.hover_exact neighborsText ⟨0, 5⟩ hnames
  obtain ⟨-, hbeyond, -⟩ := structuredService.hover_exact neighborsText ⟨0, 6⟩ hnames
  refine ⟨hread, hsecond, ?_, ?_⟩
  · obtain ⟨r, s, hr, hfirst, hshows⟩ := (hshown secondHover).1 hsecond
    obtain rfl : r = neighbors := Except.ok.inj (hr.symm.trans hread)
    have hids : ∀ s ∈ neighbors.symbols, s.Spans ⟨0, 5⟩ → s.listingId = some 3 := by decide
    have hid := hids s hfirst.mem hfirst.1
    exact ⟨s, hfirst, hshows, hshows.listing 3 loopListing hid rfl⟩
  · rw [← Bool.not_eq_true, hbeyond]
    rintro ⟨r, hr, hspans⟩
    obtain rfl : r = neighbors := Except.ok.inj (hr.symm.trans hread)
    revert hspans
    decide

end AnalyzerBridge
