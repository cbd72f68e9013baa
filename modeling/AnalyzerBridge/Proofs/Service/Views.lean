import AnalyzerBridge.Proofs.Service.Answers
import AnalyzerBridge.Proofs.Service.Likeness

/-! What is seen of one key in what a service does. Services that are alike for the key show the
same of it, and nothing is seen when others are concerned. -/
namespace AnalyzerBridge

open Run

/-- A view of what a service does for a key: it shows what is published of the key's document, if
the key is one of diagnostics, and answers. -/
structure View (key : Key) (view : Effect → Bool) : Prop where
  launching : ∀ k g i text, view (.launching k g i text) = false
  started : ∀ run k g i text, view (.started run k g i text) = false
  released : ∀ run, view (.released run) = false
  published : ∀ uri ds v, view (.published uri ds v) = true → key = ⟨uri, .diagnostics⟩

/-- If an answer to a hover of this document is seen, then the key is the one of its hovers. -/
def Belongs (key : Key) (view : Effect → Bool) (uri : String) (request : Nat) : Prop :=
  ∀ y, view (.answered request y) = true → key = ⟨uri, .symbols⟩

def Command.Belongs (key : Key) (view : Effect → Bool) : Command → Prop
  | hover uri _ _ request => AnalyzerBridge.Belongs key view uri request
  | _ => True

namespace Service

variable {s t : Service} {c : Command} {key : Key} {starts : Invocation → Bool} {d d' : Completion}
  {view : Effect → Bool} {uri : String} {g : Nat} {q : HoverRequest} {o : Outcome} {j : Job}
  {x : AnalyzeRequest ⊕ HoverRequest}

/-- This holds of the hovers that wait for an answer. -/
def Belongs (key : Key) (view : Effect → Bool) (s : Service) : Prop :=
  ∀ e ∈ s.hovers.entries, AnalyzerBridge.Belongs key view e.key.uri e.context.request

/-- Of the registrations, only the one of a key is picked by what holds of none but it. -/
theorem filter_entries {α : Type} {r : Registry α} (h : (r.entries.map (·.key)).Nodup)
    {P : Registration α → Bool} (hP : ∀ e ∈ r.entries, P e = true → e.key = key) :
    r.entries.filter P = (held r key).filter P := by
  rw [held, Registry.find?]
  generalize r.entries = entries at h hP ⊢
  induction entries with
  | nil => rfl
  | cons e es ih =>
    obtain ⟨hnot, hrest⟩ := List.nodup_cons.1 h
    by_cases hk : e.key = key
    · have hes : es.filter P = [] := by
        apply List.filter_eq_nil_iff.2
        intro a ha hpa
        have hka := hP a (List.mem_cons_of_mem e ha) hpa
        exact hnot (List.mem_map.2 ⟨a, ha, hka.trans hk.symm⟩)
      rw [List.find?_cons_of_pos (by simpa using hk), List.filter_cons, hes, Option.toList_some,
        List.filter_cons, List.filter_nil]
    · have hpe : ¬ P e = true := fun hpe => hk (hP e List.mem_cons_self hpe)
      rw [List.find?_cons_of_neg (by simpa using hk), List.filter_cons_of_neg hpe]
      exact ih hrest fun a ha => hP a (List.mem_cons_of_mem e ha)

theorem has_inr (hs : s.Sound) : s.Has key g (.inr q) ↔
    ∃ e, s.hovers.find? key = some e ∧ e.generation = g ∧ e.context = q := by
  simp only [Registry.find?_eq_some hs.hovers.distinct]
  constructor
  · rintro ⟨j, hj, rfl, rfl, hq⟩
    rcases mem_jobs.1 hj with ⟨e, he, rfl⟩ | ⟨e, he, rfl⟩
    · cases hq
    · exact ⟨e, ⟨he, rfl⟩, rfl, Sum.inr.inj hq⟩
  · rintro ⟨e, ⟨he, rfl⟩, rfl, rfl⟩
    exact ⟨e.map .inr, mem_jobs.2 (.inr ⟨e, he, rfl⟩), rfl, rfl, rfl⟩

/-- The same hover waits for the key's document. -/
theorem context_eq (hs : s.Sound) (ht : t.Sound) (h : Like key s t) :
    (t.hovers.find? key).map (·.context) = (s.hovers.find? key).map (·.context) := by
  ext q
  have hq := h.serves (.inr q)
  simp only [has_inr hs, has_inr ht] at hq
  rw [Option.map_eq_some_iff, Option.map_eq_some_iff]
  constructor
  · rintro ⟨e, he, hc⟩
    obtain ⟨_, a, ha, _, hca⟩ := hq.2 ⟨_, e, he, rfl, hc⟩
    exact ⟨a, ha, hca⟩
  · rintro ⟨e, he, hc⟩
    obtain ⟨_, a, ha, _, hca⟩ := hq.1 ⟨_, e, he, rfl, hc⟩
    exact ⟨a, ha, hca⟩

theorem dismiss_held (r : Registry HoverRequest) (key : Key) : dismiss (held r key) =
    ((r.find? key).map (·.context)).toList.map fun q => .answered q.request none := by
  rw [dismiss, held]
  cases r.find? key <;> rfl

/-! ## Commands -/

theorem filter_dropped_apart (hc : c.concerns key = false) (hb : c.Belongs key view) :
    c.dropped.filter view = [] := by
  cases c with
  | hover uri text position request =>
    have hview : ¬ view (.answered request none) = true := fun hv =>
      of_decide_eq_false hc (hb none hv)
    exact List.filter_cons_of_neg hview
  | _ => rfl

section
variable (hv : View key view) (hs : s.Sound) (hb : s.Belongs key view)

include hv in
theorem filter_release {α : Type} (entries : List (Registration α)) :
    (release entries).filter view = [] := by
  apply List.filter_eq_nil_iff.2
  intro f hf
  obtain ⟨e, _, rfl⟩ := mem_release.1 hf
  simp [hv.released]

include hv in
theorem filter_startEffect (run : Option Nat) (k : Key) (g : Nat) (i : Invocation) (text : String) :
    (startEffect run k g i text).filter view = [] := by
  cases run <;> simp [startEffect, hv.launching, hv.started]

include hs hb in
theorem filter_dismiss_apart (hne : key ≠ ⟨uri, .symbols⟩) :
    (dismiss (held s.hovers ⟨uri, .symbols⟩)).filter view = [] := by
  apply List.filter_eq_nil_iff.2
  intro f hf hview
  obtain ⟨e, he, rfl⟩ := mem_dismiss.1 hf
  obtain ⟨he, hk⟩ := (mem_held hs.hovers).1 he
  have hkey := hb e he none hview
  rw [hk] at hkey
  exact hne hkey

include hs hb in
/-- Of the answers to all hovers that wait, those of the key's document are seen. -/
theorem filter_dismiss : (dismiss s.hovers.entries).filter view =
    (dismiss (held s.hovers ⟨key.uri, .symbols⟩)).filter view := by
  have hone : ∀ e ∈ s.hovers.entries,
      view (.answered e.context.request none) = true → e.key = ⟨key.uri, .symbols⟩ := by
    intro e he hview
    have hkey := hb e he none hview
    rw [Key.eq_iff, hkey]
    exact ⟨rfl, hs.hovers.purpose e he⟩
  rw [dismiss, dismiss, List.filter_map, List.filter_map]
  exact congrArg _ (filter_entries hs.hovers.distinct hone)

include hv hs hb in
/-- Nothing is seen of a command that does not concern the key. -/
theorem filter_handle_apart (hr : s.running = true) (hc : c.concerns key = false)
    (hbc : c.Belongs key view) : (s.handle starts c).2.filter view = [] := by
  rw [handle.eq_def, if_pos hr]
  cases c with
  | analyze uri version text =>
    simp only [analyze, List.filter_append, filter_release hv, filter_startEffect hv,
      List.append_nil]
  | hover uri text position request =>
    have hne : key ≠ ⟨uri, .symbols⟩ := of_decide_eq_false hc
    have hview : ¬ view (.answered request none) = true := fun hv => hne (hbc none hv)
    simp only [hover, List.filter_append, filter_release hv, filter_startEffect hv,
      filter_dismiss_apart hs hb hne, List.append_nil, List.nil_append]
    split
    · exact List.filter_cons_of_neg hview
    · rfl
  | close uri =>
    have huri : key.uri ≠ uri := of_decide_eq_false hc
    have hne : key ≠ ⟨uri, .symbols⟩ := fun hk => huri (congrArg Key.uri hk)
    have hview : ¬ view (.published uri [] none) = true := fun hview =>
      huri (congrArg Key.uri (hv.published uri [] none hview))
    simp only [close, List.filter_append, filter_release hv, filter_dismiss_apart hs hb hne,
      List.nil_append]
    exact List.filter_cons_of_neg hview
  | configure overrides => cases hc
  | shutdown => cases hc

end

section
variable (hv : View key view) (hs : s.Sound) (ht : t.Sound) (h : Like key s t)
  (hb : s.Belongs key view) (hb' : t.Belongs key view)

include hs ht h hb hb' in
theorem filter_dismiss_held (uri : String) : (dismiss (held s.hovers ⟨uri, .symbols⟩)).filter view =
    (dismiss (held t.hovers ⟨uri, .symbols⟩)).filter view := by
  by_cases hk : key = ⟨uri, .symbols⟩
  · rw [dismiss_held, dismiss_held, ← hk, context_eq hs ht h]
  · rw [filter_dismiss_apart hs hb hk, filter_dismiss_apart ht hb' hk]

include hv hs ht h hb hb' in
/-- Of a command, the same is seen in services that are alike. -/
theorem filter_handle (hr : s.running = true) (c : Command) :
    (s.handle starts c).2.filter view = (t.handle starts c).2.filter view := by
  have hrt : t.running = true := h.running.trans hr
  have hdismiss := filter_dismiss_held hs ht h hb hb'
  rw [handle.eq_def, handle.eq_def, if_pos hr, if_pos hrt]
  cases c with
  | analyze uri version text =>
    simp only [analyze, List.filter_append, filter_release hv, filter_startEffect hv]
  | hover uri text position request =>
    have hnone : (t.nextRun starts (t.settings.analyzer.invocation .symbols)).isNone =
        (s.nextRun starts (s.settings.analyzer.invocation .symbols)).isNone := by
      rw [nextRun, nextRun, h.settings]
      split <;> rfl
    simp only [hover, List.filter_append, filter_release hv, filter_startEffect hv, hdismiss uri,
      hnone]
  | close uri => simp only [close, List.filter_append, filter_release hv, hdismiss uri]
  | configure overrides => rfl
  | shutdown =>
    simp only [stop, List.filter_append, filter_release hv, filter_dismiss hs hb,
      filter_dismiss ht hb', hdismiss key.uri]

end

/-! ## Ends of runs -/

/-- Nothing is seen of the end of a run of another key. -/
theorem filter_conclusion_apart (hv : View key view) (hs : s.Sound) (hj : j ∈ s.jobs)
    (hk : j.key ≠ key) (hb : s.Belongs key view) : (s.conclusion j o).filter view = [] := by
  rw [conclusion, List.filter_cons_of_neg (by simp [hv.released])]
  rcases mem_jobs.1 hj with ⟨e, he, rfl⟩ | ⟨e, he, rfl⟩
  · apply List.filter_eq_nil_iff.2
    intro f hf hview
    obtain ⟨r, _, rfl⟩ := Option.map_eq_some_iff.1 (Option.mem_toList.1 hf)
    have hkey := hv.published _ _ _ hview
    exact hk (Key.eq_iff.2 ⟨rfl, hs.diagnostics.purpose e he⟩ |>.trans hkey.symm)
  · apply List.filter_eq_nil_iff.2
    intro f hf hview
    obtain rfl := List.mem_singleton.1 hf
    have hkey := hb e he _ hview
    exact hk (Key.eq_iff.2 ⟨rfl, hs.hovers.purpose e he⟩ |>.trans hkey.symm)

theorem filter_complete_apart (hv : View key view) (hs : s.Sound) (hd : d.key ≠ key)
    (hb : s.Belongs key view) : (s.complete d).2.filter view = [] := by
  rcases complete_cases hs d with hstale | ⟨j, hr, hj, hk, hg⟩
  · rw [hstale]
    rfl
  · rw [effects_complete hs hr hj hk hg]
    exact filter_conclusion_apart hv hs hj (by rwa [hk]) hb

theorem effects_of_has (hs : s.Sound) (hx : s.Has d.key d.generation x) :
    ∃ j, j.key = d.key ∧ j.context = x ∧ (s.complete d).2 = s.conclusion j d.outcome := by
  obtain ⟨j, hj, hk, hg, rfl⟩ := hx
  cases hr : s.running with
  | false =>
    rw [hs.ended hr] at hj
    cases hj
  | true => exact ⟨j, hk, rfl, effects_complete hs hr hj hk hg⟩

theorem complete_of_not_has (h : ¬ ∃ x, s.Has d.key d.generation x) : s.complete d = (s, []) := by
  apply complete_of_stale
  intro j hj hk hg
  exact h ⟨j.context, j, hj, hk, hg, rfl⟩

/-- Of the end of a run of the key, the same is seen in services that are alike. -/
theorem filter_complete (hv : View key view) (hs : s.Sound) (ht : t.Sound) (hd : d.key = key)
    (hd' : d'.key = key) (ho : d'.outcome = d.outcome) (h : Like key s t)
    (hcurrent : Twins key s t d.generation d'.generation) :
    (s.complete d).2.filter view = (t.complete d').2.filter view := by
  subst hd
  by_cases hx : ∃ x, s.Has d.key d.generation x
  · obtain ⟨x, hx⟩ := hx
    obtain ⟨x', hx'⟩ := hcurrent.1 ⟨x, hx⟩
    -- both services have one request for the key, and so the same
    obtain ⟨g, hg⟩ := (h.serves x).1 ⟨_, hx⟩
    obtain rfl : x = x' := (has_unique ht hg hx').2
    rw [← hd'] at hx'
    obtain ⟨j, hk, hj, he⟩ := effects_of_has hs hx
    obtain ⟨j', hk', hj', he'⟩ := effects_of_has ht hx'
    have hreport : t.report? d.outcome = s.report? d.outcome := by
      rw [report?, h.settings, report?]
    rw [he, he', conclusion, conclusion, List.filter_cons_of_neg (by simp [hv.released]),
      List.filter_cons_of_neg (by simp [hv.released]), hk, hk', hd', hj, hj', ho, hreport,
      hs.source, ht.source, h.settings]
  · have hx' : ¬ ∃ x, t.Has d'.key d'.generation x := by
      rw [hd']
      exact fun hx' => hx (hcurrent.2 hx')
    rw [complete_of_not_has hx, complete_of_not_has hx']

end Service

end AnalyzerBridge
