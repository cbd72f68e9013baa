import AnalyzerBridge.Editor.Diagnostic
import AnalyzerBridge.Proofs.Report.ProblemLine
import AnalyzerBridge.Proofs.Report.Spelling
import AnalyzerBridge.Report.Format

/-! Problems that are written as lines are read back, and so they are the same as from a JSON text of
them. Main statement: `Report.lines_agree`. -/
namespace AnalyzerBridge

open Json

namespace ProblemLine

variable {l : ProblemLine} {s t rest : List Char} {c : Char} {n : UInt32}

structure Plain (l : ProblemLine) : Prop where
  line : l.line ≠ 0
  code : l.code ≠ ""
  codeTrimmed : Text.trim l.code.toList = l.code.toList
  noComma : ',' ∉ l.code.toList
  noFeed : '\n' ∉ l.code.toList
  noMarker : ¬[']', ':'] <:+: l.code.toList
  messageTrimmed : Text.trim l.message.toList = l.message.toList
  messageNoFeed : '\n' ∉ l.message.toList

def text (l : ProblemLine) : String :=
  "[" ++ l.code ++ ", " ++ toString l.line.toNat ++ ", " ++ toString l.column.toNat ++ ", " ++
    toString l.length.toNat ++ "]: " ++ l.message

/-- A number behind a comma and a space. -/
def numberField (n : UInt32) : List Char := ' ' :: Nat.toDigits 10 n.toNat

def fields (l : ProblemLine) : List Char :=
  l.code.toList ++ ',' :: (numberField l.line ++ ',' :: (numberField l.column ++ ',' ::
    numberField l.length))

theorem toList_text : l.text.toList = '[' :: (l.fields ++ ']' :: ':' :: ' ' :: l.message.toList) := by
  simp [text, fields, numberField, String.toList_append, Nat.toString_eq_repr, Nat.toList_repr]

section Fields

theorem isBlank_of_isDigit (h : c.isDigit = true) : Text.isBlank c = false := by
  simp only [Char.isDigit, Bool.and_eq_true, decide_eq_true_eq, ge_iff_le,
    UInt32.le_iff_toNat_le] at h
  have hlow : 48 ≤ c.toNat := h.1
  have hhigh : c.toNat ≤ 57 := h.2
  simp [Text.isBlank, Text.blankRanges]
  omega

theorem mem_numberField (hc : c ∈ numberField n) : c = ' ' ∨ c.isDigit = true :=
  (List.mem_cons.1 hc).imp_right (Nat.isDigit_of_mem_toDigits (by decide) (by decide))

theorem not_mem_numberField (hc : c ≠ ' ') (hd : c.isDigit = false) : c ∉ numberField n := by
  intro hmem
  rcases mem_numberField hmem with rfl | h
  · exact hc rfl
  · rw [hd] at h
    cases h

theorem trim_numberField : Text.trim (numberField n) = Nat.toDigits 10 n.toNat := by
  rw [numberField, Text.trim_cons_blank (by decide)]
  exact Text.trim_eq_self fun c hc =>
    isBlank_of_isDigit (Nat.isDigit_of_mem_toDigits (by decide) (by decide) hc)

theorem number_toDigits {field : String} : number field (Nat.toDigits 10 n.toNat) = .ok n := by
  simp [number, Text.numeral?_toDigits (show n.toNat < twoTo 32 from n.toNat_lt)]

theorem splitComma_fields (h : l.Plain) : (Text.splitComma l.fields).map Text.trim =
    [l.code.toList, Nat.toDigits 10 l.line.toNat, Nat.toDigits 10 l.column.toNat,
      Nat.toDigits 10 l.length.toNat] := by
  have hno : ∀ n : UInt32, ',' ∉ numberField n := fun _ => not_mem_numberField (by decide) rfl
  rw [fields, Text.splitComma_field h.noComma, Text.splitComma_field (hno _),
    Text.splitComma_field (hno _), Text.splitComma_self (hno _)]
  simp [h.codeTrimmed, trim_numberField]

end Fields

section Marker

/-- No marker arises where a text without colons follows. -/
theorem not_marker_append (hs : ¬[']', ':'] <:+: s) (ht : ':' ∉ t) : ¬[']', ':'] <:+: s ++ t := by
  rintro ⟨before, after, heq⟩
  have heq : (before ++ [']']) ++ ':' :: after = s ++ t := by simpa using heq
  rcases List.append_eq_append_iff.1 heq with ⟨mid, rfl, hmid⟩ | ⟨mid, hbefore, rfl⟩
  · cases mid with
    | nil =>
      obtain rfl : ':' :: after = t := hmid
      exact ht (by simp)
    | cons c mid =>
      obtain ⟨rfl, rfl⟩ := List.cons.inj hmid
      exact hs ⟨before, mid, by simp⟩
  · exact ht (by simp)

theorem not_marker_header (h : l.Plain) : ¬[']', ':'] <:+: '[' :: l.fields := by
  have hcode : ¬[']', ':'] <:+: '[' :: l.code.toList := by
    intro hinfix
    rcases List.infix_cons_iff.1 hinfix with hprefix | hinfix
    · obtain ⟨rest, heq⟩ := hprefix
      cases heq
    · exact h.noMarker hinfix
  have hno : ∀ n : UInt32, ':' ∉ numberField n := fun _ => not_mem_numberField (by decide) rfl
  have hrest : ':' ∉ ',' :: (numberField l.line ++ ',' :: (numberField l.column ++ ',' ::
      numberField l.length)) := by
    simp [hno]
  exact not_marker_append hcode hrest

end Marker

/-- A line is read back, whatever blanks stand around the message. -/
theorem ofText_append (h : l.Plain) (ht : Text.trim t = l.message.toList) :
    ofText ('[' :: (l.fields ++ ']' :: ':' :: t)) = .ok l := by
  have hmarker := splitMarker_append (t := t) (not_marker_header h)
  rw [List.cons_append] at hmarker
  have hcode : l.code.toList.isEmpty = false := by simp [h.code]
  rw [ofText, hmarker]
  simp [afterBracket, splitComma_fields h, hcode, number_toDigits, bind, Except.bind, h.line, ht]

/-- Trimming a line leaves all of it up to the marker. -/
theorem trim_text (h : l.Plain) : ∃ t, Text.trim t = l.message.toList ∧
    Text.trim l.text.toList = '[' :: (l.fields ++ ']' :: ':' :: t) := by
  refine ⟨Text.trimEnd (' ' :: l.message.toList), ?_, ?_⟩
  · cases hm : l.message.toList with
    | nil => rfl
    | cons c m =>
      have hend : Text.trimEnd (c :: m) = c :: m := Text.trimEnd_of_trim (hm ▸ h.messageTrimmed)
      rw [Text.trimEnd_cons (by simp) hend, Text.trim_cons_blank (by decide), ← hm, h.messageTrimmed]
  · have hmarker : Text.trimEnd (('[' :: (l.fields ++ [']'])) ++ [':']) =
        ('[' :: (l.fields ++ [']'])) ++ [':'] := Text.trimEnd_concat (by decide)
    have happend := Text.trimEnd_append (t := ' ' :: l.message.toList) hmarker
    rw [toList_text, Text.trim_cons (by decide)]
    simpa using happend

theorem problemOn_text (h : l.Plain) :
    Report.problemOn (Text.trim l.text.toList) = some l.problem := by
  obtain ⟨t, ht, heq⟩ := trim_text h
  rw [Report.problemOn, heq, ofText_append h ht]
  rfl

theorem trim_text_ne_endLine (h : l.Plain) : Text.trim l.text.toList ≠ Report.endLine := by
  obtain ⟨t, _, heq⟩ := trim_text h
  rw [heq, Report.endLine]
  intro heq
  cases heq

theorem feed_not_mem_text (h : l.Plain) : '\n' ∉ l.text.toList := by
  have hno : ∀ n : UInt32, '\n' ∉ numberField n := fun _ => not_mem_numberField (by decide) rfl
  simp [toList_text, fields, h.noFeed, h.messageNoFeed, hno]

theorem getLast?_text (h : l.Plain) : l.text.toList.getLast? ≠ some '\r' := by
  have htext : l.text.toList = ('[' :: (l.fields ++ [']', ':'])) ++ ' ' :: l.message.toList := by
    simp [toList_text]
  rw [htext, List.getLast?_append_cons]
  intro hlast
  cases hm : l.message.toList with
  | nil =>
    rw [hm] at hlast
    cases hlast
  | cons c m =>
    rw [hm, List.getLast?_cons_cons] at hlast
    have hblank := Text.isBlank_of_getLast? (hm ▸ h.messageTrimmed) hlast
    exact absurd hblank (by decide)

end ProblemLine

namespace Report

variable {ls : List ProblemLine} {s t tail : String}

/-- The problems as lines, and the end line. -/
def linesText (ls : List ProblemLine) : String :=
  ls.foldr (fun l s => l.text ++ "\n" ++ s) "OK"

/-- The report of problems that one line each can hold. -/
def ofProblemLines (ls : List ProblemLine) : Report :=
  ⟨if ls = [] then .ok else .failed, ls.map ProblemLine.problem, [], .empty⟩

theorem trimmedLines_cons (h : '\n' ∉ s.toList) (hr : s.toList.getLast? ≠ some '\r') :
    trimmedLines (s ++ "\n" ++ t) = Text.trim s.toList :: trimmedLines t := by
  have hline := Text.splitLines_line (t := t.toList) h hr
  simp [trimmedLines, hline]

theorem trimmedLines_linesText (h : ∀ l ∈ ls, l.Plain) (ht : tail.toList.head? ∈ [none, some '\n']) :
    ∃ more, trimmedLines (linesText ls ++ tail) =
      ls.map (fun l => Text.trim l.text.toList) ++ endLine :: more := by
  induction ls with
  | nil =>
    cases htail : tail.toList with
    | nil =>
      refine ⟨[], ?_⟩
      rw [trimmedLines, String.toList_append, htail]
      rfl
    | cons c rest =>
      obtain rfl : c = '\n' := by simpa [htail] using ht
      have hline := Text.splitLines_line (s := ['O', 'K']) (t := rest) (by decide) (by decide)
      rw [List.cons_append, List.singleton_append] at hline
      refine ⟨(Text.splitLines Text.isFeed rest).map (Text.trim ·.content), ?_⟩
      simp [trimmedLines, linesText, htail, hline]
      rfl
  | cons l ls ih =>
    obtain ⟨more, hmore⟩ := ih fun l hl => h l (List.mem_cons_of_mem _ hl)
    have hl := h l List.mem_cons_self
    refine ⟨more, ?_⟩
    rw [linesText, List.foldr_cons, String.append_assoc,
      trimmedLines_cons (ProblemLine.feed_not_mem_text hl) (ProblemLine.getLast?_text hl)]
    exact congrArg (List.cons _) hmore

theorem ofLines_linesText (h : ∀ l ∈ ls, l.Plain) (ht : tail.toList.head? ∈ [none, some '\n']) :
    ofLines (linesText ls ++ tail) = ofProblemLines ls := by
  obtain ⟨more, hmore⟩ := trimmedLines_linesText h ht
  have hbefore : (trimmedLines (linesText ls ++ tail)).takeWhile (· ≠ endLine) =
      ls.map fun l => Text.trim l.text.toList := by
    have hlines : ∀ line ∈ ls.map (fun l => Text.trim l.text.toList), decide (line ≠ endLine) := by
      intro line hline
      obtain ⟨l, hl, rfl⟩ := List.mem_map.1 hline
      exact decide_eq_true (ProblemLine.trim_text_ne_endLine (h l hl))
    rw [hmore, List.takeWhile_append_of_pos hlines]
    simp
  have hproblems : (ls.map fun l => Text.trim l.text.toList).filterMap problemOn =
      ls.map ProblemLine.problem := by
    rw [List.filterMap_map, List.filterMap_eq_map_iff_forall_eq_some]
    intro l hl
    rw [Function.comp_apply, ProblemLine.problemOn_text (h l hl)]
  have hend : (trimmedLines (linesText ls ++ tail)).contains endLine = true := by
    simp [hmore]
  simp only [ofLines, hbefore, hproblems, hend]
  cases ls <;> rfl

/-- The two formats agree. Problems that one line each can hold are read alike from these lines, with
an end line after them, and from every JSON text of them. All of them are shown, in their order. -/
theorem lines_agree {json : String} (h : ∀ l ∈ ls, l.Plain)
    (ht : tail.toList.head? ∈ [none, some '\n']) (hj : (ofProblemLines ls).SpelledBy json) :
    ∃ r, Format.legacy.read (linesText ls ++ tail) = .ok r ∧ Format.structured.read json = .ok r ∧
      r = ⟨if ls = [] then .ok else .failed, ls.map ProblemLine.problem, [], .empty⟩ ∧
      ∀ source, r.diagnostics source =
        ls.map fun l => ⟨.onLine l.line l.column l.length, some l.code, source, l.message⟩ := by
  obtain ⟨listings, hnone, hj⟩ := hj
  obtain rfl : listings = [] := hnone.eq_nil
  have hread := ofText_listed rfl hj
  refine ⟨ofProblemLines ls, congrArg _ (ofLines_linesText h ht), hread, rfl, fun source => ?_⟩
  have hshown : (ls.map ProblemLine.problem).filter (!·.generic) = ls.map ProblemLine.problem := by
    simp [ProblemLine.problem]
  rw [diagnostics, ofProblemLines, hshown, List.map_map]
  rfl

/-- A code with brackets, and a message with a marker and an end. -/
theorem lines_agree_sample :
    let l : ProblemLine := ⟨"E[]", 1, 3, 2, "a]: OK"⟩
    let json := "\x7b\"errors\":[" ++ Problem.sampleText ++ "],\"status\":\"failed\"\x7d"
    l.Plain ∧ (ofProblemLines [l]).SpelledBy json ∧ ∃ r,
      Format.legacy.read "[E[], 1, 3, 2]: a]: OK\nOK\n" = .ok r ∧
        Format.structured.read json = .ok r := by
  intro l json
  have hl : l.Plain := by
    constructor <;> decide
  have hfailed : SpellsScalar (.text "failed") ('"' :: ("failed".toList ++ ['"'])) :=
    .text (spellsText_self (by decide))
  have hproblems : ListText (fun p => RecordText (Problem.slots p)) [.sample] _ :=
    .items (.first gap_nil Problem.recordText_sample (.close gap_nil))
  have hfills : ∀ e v, ListText (fun p => RecordText (Problem.slots p)) [.sample] e →
      SpellsScalar (.text "failed") v →
      Fills ((ofProblemLines [l]).slots (ListedValue [])) (fun s => ∃ levels, WellFormed levels s)
        [("errors", e), ("status", v)] := by
    intro e v he hv
    constructor
    · simp [Report.slots, Slot.may, Slot.among, ofProblemLines]
      exact ⟨⟨"failed", by decide, hv⟩, he⟩
    · simp [Report.slots, Slot.may]
  have hreport := RecordText.object (.members <|
    .first gap_nil (memberText_self "errors" _ (by decide) rfl) <|
    .next gap_nil gap_nil (memberText_self "status" _ (by decide) rfl) <|
    .close gap_nil) (hfills _ _ hproblems hfailed)
  have hspelled : (ofProblemLines [l]).SpelledBy json :=
    ⟨[], .refl _, [], _, [], by simp [json], gap_nil, gap_nil, hreport⟩
  have hlines : linesText [l] ++ "\n" = "[E[], 1, 3, 2]: a]: OK\nOK\n" := by decide +kernel
  have htail : "\n".toList.head? ∈ [none, some '\n'] := by decide
  obtain ⟨r, hlegacy, hjson, _⟩ := lines_agree (by simpa using hl) htail hspelled
  rw [hlines] at hlegacy
  exact ⟨hl, hspelled, r, hlegacy, hjson⟩

end Report

end AnalyzerBridge
