import AnalyzerBridge.Editor.Workspace
import Mathlib.Data.List.DropRight

/-! The open documents, told by the messages of the editor: a document has the text with which it
was opened last, with all edits since. -/
namespace AnalyzerBridge

namespace EditorEvent

/-- The document that a message is about. -/
def uri : EditorEvent → String
  | opened uri _ _ | changed uri _ _ | closed uri | hovered uri _ _ => uri

/-- Does a message open or close the document at an address? -/
def renews (uri : String) : EditorEvent → Bool
  | opened uri' _ _ | closed uri' => uri' = uri
  | _ => false

/-- The text with which a message opens a document. -/
def opening? : EditorEvent → Option String
  | opened _ _ text => some text
  | _ => none

/-- The edits that a message makes in the document at an address. -/
def edits (uri : String) : EditorEvent → List Edit
  | changed uri' _ edits => if uri' = uri then edits else []
  | _ => []

end EditorEvent

/-- The text after edits, made one after the other. -/
def Document.typed (text : String) (edits : List Edit) : String :=
  .ofList (edits.foldl editText text.toList)

/-- The text of the document at an address after messages, if it is open then: the one with which it
was opened last, with all edits that were made since. -/
def textAfter (uri : String) (es : List EditorEvent) : Option String :=
  ((es.rdropWhile fun e => !e.renews uri).getLast?.bind EditorEvent.opening?).map fun text =>
    Document.typed text ((es.rtakeWhile fun e => !e.renews uri).flatMap (·.edits uri))

variable {w : Workspace} {uri uri' : String} {d : Document} {e : EditorEvent}
  {es : List EditorEvent} {c : Command}

@[simp] theorem Document.typed_nil (text : String) : typed text [] = text := by
  simp [typed]

theorem Document.typed_append (text : String) (xs ys : List Edit) :
    typed text (xs ++ ys) = typed (typed text xs) ys := by
  simp [typed]

theorem textAfter_of_renews (h : e.renews uri = true) :
    textAfter uri (es ++ [e]) = e.opening? := by
  rw [textAfter, List.rdropWhile_concat, List.rtakeWhile_concat]
  cases e <;> simp [h, EditorEvent.opening?]

theorem textAfter_of_not_renews (h : e.renews uri = false) :
    textAfter uri (es ++ [e]) = (textAfter uri es).map (Document.typed · (e.edits uri)) := by
  rw [textAfter, textAfter, List.rdropWhile_concat, List.rtakeWhile_concat]
  simp [h, Document.typed_append, Function.comp_def]

namespace Workspace

theorem find?_cons (documents : List (String × Document)) :
    find? ⟨(uri', d) :: documents⟩ uri = if uri = uri' then some d else find? ⟨documents⟩ uri := by
  by_cases h : uri = uri'
  · simp [find?, h]
  · simp [find?, List.lookup_cons, beq_false_of_ne h, h]

@[simp] theorem find?_erase : (w.erase uri).find? uri = none := by
  rw [find?, List.lookup_eq_none_iff]
  intro p hp
  have hne : p.1 ≠ uri := of_decide_eq_true (List.mem_filter.1 hp).2
  simpa using hne.symm

theorem erase_cons (documents : List (String × Document)) :
    erase ⟨(uri', d) :: documents⟩ uri =
      if uri' = uri then erase ⟨documents⟩ uri
      else ⟨(uri', d) :: (erase ⟨documents⟩ uri).documents⟩ := by
  by_cases h : uri' = uri <;> simp [erase, h]

theorem find?_erase_of_ne (h : uri' ≠ uri) : (w.erase uri').find? uri = w.find? uri := by
  obtain ⟨documents⟩ := w
  induction documents with
  | nil => rfl
  | cons p rest ih =>
    obtain ⟨u, d⟩ := p
    rw [erase_cons, find?_cons]
    split
    · next hu => rw [ih, if_neg (hu ▸ h.symm)]
    · rw [find?_cons, ih]

@[simp] theorem find?_set : (w.set uri d).find? uri = some d := by
  simp [set, find?_cons]

theorem find?_set_of_ne (h : uri' ≠ uri) : (w.set uri' d).find? uri = w.find? uri := by
  rw [set, find?_cons, if_neg h.symm]
  exact find?_erase_of_ne h

/-- A message changes no document but its own. -/
theorem find?_handle_of_ne (h : e.uri ≠ uri) : (w.handle e).1.find? uri = w.find? uri := by
  cases e with
  | opened => exact find?_set_of_ne h
  | closed => exact find?_erase_of_ne h
  | changed uri' version edits =>
    rw [handle]
    cases w.find? uri' with
    | none => rfl
    | some d => exact find?_set_of_ne h
  | hovered uri' position request =>
    rw [handle]
    cases w.find? uri' <;> rfl

/-- What a message makes of the text of its document. -/
theorem text_handle (e : EditorEvent) :
    ((w.handle e).1.find? e.uri).map (·.text) = if e.renews e.uri then e.opening?
      else ((w.find? e.uri).map (·.text)).map (Document.typed · (e.edits e.uri)) := by
  cases e with
  | opened => simp [handle, EditorEvent.uri, EditorEvent.renews, EditorEvent.opening?]
  | closed => simp [handle, EditorEvent.uri, EditorEvent.renews, EditorEvent.opening?]
  | changed uri version edits =>
    cases hw : w.find? uri <;>
      simp [handle, EditorEvent.uri, EditorEvent.renews, EditorEvent.edits, hw, Document.edit,
        Document.typed]
  | hovered uri position request =>
    cases hw : w.find? uri <;>
      simp [handle, EditorEvent.uri, EditorEvent.renews, EditorEvent.edits, hw]

/-- A workspace that has the text of a document goes on having it. -/
theorem text_handle_eq_textAfter (h : (w.find? uri).map (·.text) = textAfter uri es) :
    ((w.handle e).1.find? uri).map (·.text) = textAfter uri (es ++ [e]) := by
  by_cases hu : e.uri = uri
  · subst hu
    rw [text_handle, h]
    cases hr : e.renews e.uri with
    | true => simp [textAfter_of_renews hr]
    | false => simp [textAfter_of_not_renews hr]
  · have hr : e.renews uri = false := by
      cases e <;> simp_all [EditorEvent.renews, EditorEvent.uri]
    have he : e.edits uri = [] := by
      cases e <;> simp_all [EditorEvent.edits, EditorEvent.uri]
    rw [find?_handle_of_ne hu, h, textAfter_of_not_renews hr, he]
    simp

end Workspace

end AnalyzerBridge
