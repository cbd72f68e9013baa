import AnalyzerBridge.Run.Ends
import AnalyzerBridge.Proofs.Course

/-! What the two ends of a run hear of each other, told by what was asked and answered before. -/
namespace AnalyzerBridge.Run

namespace Channel

variable {α : Type} {c : Channel α} {value : α}

@[simp] theorem sender_dropSender_ne : c.dropSender.sender ≠ .held := by
  cases hs : c.sender <;> simp [dropSender, hs]

@[simp] theorem receiver_dropSender : c.dropSender.receiver = c.receiver := by
  cases hs : c.sender <;> simp [dropSender, hs]

@[simp] theorem sender_send_ne : (c.send value).1.sender ≠ .held := by
  cases hr : c.receiver <;> simp [send, hr]

@[simp] theorem receiver_send : (c.send value).1.receiver = c.receiver := by
  cases hr : c.receiver <;> simp [send, hr]

theorem sender_send (h : c.receiver ≠ .gone) : (c.send value).1.sender = .sent value := by
  cases hr : c.receiver <;> simp_all [send]

/-- A value is taken unless the receiving end is gone. -/
theorem send_snd : (c.send value).2 = true ↔ c.receiver ≠ .gone := by
  cases hr : c.receiver <;> simp [send, hr]

end Channel

/-- What a request makes of the two sides that is made of a side that is there, and its answer. -/
def Pair.serve (p : Pair) : Ends.Request → Pair × Ends.Answer
  | .cancel => (p.cancel, .done)
  | .drop => (p.drop, .done)
  | .wait => match p.awaited? with
    | none => (p, .pending)
    | some o => (p.drop, .outcome o)
  | .isCancelled => (p, .said p.isCancelled)
  | .cancelled => (p, if p.isCancelled then .resolved else .pending)
  | .finish o =>
    let (p, taken) := p.finish o
    (p, .said taken)
  | .dropDriver => (p.dropDriver, .done)

/-- Looks change nothing of the two sides. -/
def Pair.hear (p : Pair) : Ends.Exchange → Pair
  | .answered r _ => (p.serve r).1
  | .looked _ => p

namespace Ends

variable {e : Ends} {r : Request} {o : Outcome} {log now : List Exchange} {x : Exchange}
  {P : Exchange → Prop}

namespace Exchange

/-- The holder wishes the run to stop, or goes away. -/
@[simp, grind] def AsksStop : Exchange → Prop
  | .answered .cancel _ | .answered .drop _ => True
  | _ => False

/-- The holder begins to wait, or goes away. -/
@[simp, grind] def Engages : Exchange → Prop
  | .answered .wait _ | .answered .drop _ => True
  | _ => False

/-- The holder goes away, of its own accord or with the outcome. -/
@[simp, grind] def Leaves : Exchange → Prop
  | .answered .wait (.outcome _) | .answered .drop _ => True
  | _ => False

/-- The driver ends the run with this outcome. -/
@[simp, grind] def Finishes (o : Outcome) : Exchange → Prop
  | .answered (.finish o') _ => o' = o
  | _ => False

/-- The driver goes away without an outcome. -/
@[simp, grind] def Vanishes : Exchange → Prop
  | .answered .dropDriver _ => True
  | _ => False

/-- The driver goes away, with or without an outcome. -/
@[grind] def Deserts (x : Exchange) : Prop := x.Vanishes ∨ ∃ o, x.Finishes o

/-- A look finds out that the run shall stop. -/
@[simp, grind] def FindsOut : Exchange → Prop
  | .looked look => look ≠ .pending
  | _ => False

theorem Leaves.engages (h : x.Leaves) : x.Engages := by
  cases x with
  | looked => exact h
  | answered r a => cases r <;> first | exact h | trivial

/-- Nothing that tells how the ends are. -/
def Idle (x : Exchange) : Prop :=
  ¬ x.Engages ∧ ¬ x.AsksStop ∧ ¬ x.Deserts ∧ ¬ x.FindsOut

end Exchange

open Exchange

/-- Something of this kind has happened. -/
def Happened (log : List Exchange) (P : Exchange → Prop) : Prop := ∃ x ∈ log, P x

@[simp, grind =] theorem happened_append :
    Happened (log ++ now) P ↔ Happened log P ∨ Happened now P := by
  simp [Happened, or_and_right, exists_or]

@[simp, grind =] theorem happened_singleton : Happened [x] P ↔ P x := by
  simp [Happened]

@[simp] theorem not_happened_nil : ¬ Happened [] P := by
  simp [Happened]

/-- The end is still there that is asked; only a holder that does not wait can cancel. -/
def Present (log : List Exchange) : Request → Prop
  | .cancel => ¬ Happened log Engages
  | .drop | .wait => ¬ Happened log Leaves
  | .isCancelled | .cancelled | .finish _ | .dropDriver => ¬ Happened log Deserts

def Due (log : List Exchange) : Request → Answer → Prop
  | .cancel, a | .drop, a | .dropDriver, a => a = .done
  | .isCancelled, a => ∃ yes, a = .said yes ∧ (yes = true ↔ Happened log AsksStop)
  | .cancelled, a => (a = .resolved ↔ Happened log AsksStop) ∧
      (a = .pending ↔ ¬ Happened log AsksStop)
  | .finish _, a => ∃ taken, a = .said taken ∧ (taken = true ↔ ¬ Happened log Leaves)
  | .wait, a => (a = .pending ↔ ¬ Happened log Deserts) ∧
      ∀ o, a = .outcome o ↔
        Happened log (Finishes o) ∨ (Happened log Vanishes ∧ o = .abandoned)

/-- A driver looks at most once, and not after it has found out. -/
def Fresh (log : List Exchange) (looks : List (Look Unit)) : Prop :=
  looks = [] ∨ ∃ look, looks = [look] ∧ look ≠ .spent ∧ ¬ Happened log FindsOut

def sides (log : List Exchange) : Pair :=
  log.foldl Pair.hear .begin

/-- What a request does after all that has happened. -/
def Lawful (log : List Exchange) (r : Request) (now : List Exchange) : Prop :=
  (¬ Present log r ∧ now = []) ∨
    (Present log r ∧ ∃ looks a, now = looks.map .looked ++ [.answered r a] ∧
      Fresh log looks ∧ Due log r a ∧ a = ((sides log).serve r).2)

/-- How the ends are, told by all that has happened. -/
structure Told (e : Ends) (log : List Exchange) : Prop where
  whole : e.holder = .whole ↔ ¬ Happened log Engages
  held : e.holder = .gone ↔ Happened log Leaves
  awaited : e.outcome.receiver = if e.holder = .gone then .gone else .listening
  driver : e.driver = false ↔ Happened log Deserts
  driven : e.outcome.sender = .held ↔ e.driver = true
  sent : e.holder ≠ .gone → ∀ o, e.outcome.sender = .sent o ↔ Happened log (Finishes o)
  dropped : e.holder ≠ .gone → (e.outcome.sender = .dropped ↔ Happened log Vanishes)
  seen : e.seen = true ↔ Happened log FindsOut
  heeded : e.seen = true → e.stop.sender ≠ .held
  asked : e.driver = true → (e.stop.sender = .held ↔ ¬ Happened log AsksStop)
  listening : e.driver = true → e.seen = false → e.stop.receiver = .listening

theorem told_begin : Told .begin [] := by
  constructor <;> simp [begin, Channel.fresh]

theorem Told.here (h : Told e log) (hp : ¬ Happened log Leaves) : e.holder ≠ .gone :=
  mt h.held.1 hp

theorem Told.driving (h : Told e log) (hp : ¬ Happened log Deserts) : e.driver = true := by
  simpa using mt h.driver.1 hp

theorem serves_iff (h : Told e log) : e.serves r = true ↔ Present log r := by
  cases r with
  | cancel => simpa [serves, Present] using h.whole
  | drop => simpa [serves, Present] using not_congr h.held
  | wait => simpa [serves, Present] using not_congr h.held
  | _ => simpa [serves, Present] using not_congr h.driver

/-- A driver looks unless it has found out, and finds out if the sending end was used or lost. -/
theorem heed_cases (h : Told e log) (hd : e.driver = true) :
    (e.seen = true ∧ e.heed = (e, [])) ∨
    (e.seen = false ∧ e.stop.sender = .held ∧ e.heed = (e, [.pending])) ∨
    (e.seen = false ∧ e.stop.sender ≠ .held ∧ ∃ look, look ≠ .pending ∧ look ≠ .spent ∧
      e.heed =
        ({ e with stop := { e.stop with receiver := .resolved }, seen := true }, [look])) := by
  cases hseen : e.seen with
  | true => exact .inl ⟨rfl, by simp [heed, hseen]⟩
  | false =>
    have hl := h.listening hd hseen
    cases hs : e.stop.sender with
    | held =>
      refine .inr (.inl ⟨rfl, rfl, ?_⟩)
      rcases e with ⟨_, _, ⟨_, _⟩, _, _⟩
      simp_all [heed, Channel.look]
    | sent u => exact .inr (.inr ⟨rfl, nofun, .received u, nofun, nofun, by
        simp [heed, hseen, Channel.look, hl, hs]⟩)
    | dropped => exact .inr (.inr ⟨rfl, nofun, .closed, nofun, nofun, by
        simp [heed, hseen, Channel.look, hl, hs]⟩)

/-- A holder that waits is gone as soon as the driver is, with what the driver left. -/
theorem wait_cases (h : Told e log) (hg : e.holder ≠ .gone) :
    (e.outcome.sender = .held ∧ e.wait = ({ e with holder := .waiting }, .pending)) ∨
    ∃ o, (e.outcome.sender = .sent o ∨ (e.outcome.sender = .dropped ∧ o = .abandoned)) ∧
      e.wait = (e.drop, .outcome o) := by
  have hl : e.outcome.receiver = .listening := h.awaited.trans (if_neg hg)
  cases hs : e.outcome.sender with
  | held => exact .inl ⟨rfl, by simp [wait, Channel.look, hl, hs]⟩
  | sent o => exact .inr ⟨o, .inl rfl, by
      simp [wait, Channel.look, hl, hs, drop, Channel.dropReceiver]⟩
  | dropped => exact .inr ⟨.abandoned, .inr ⟨rfl, rfl⟩, by
      simp [wait, Channel.look, hl, hs, drop, Channel.dropReceiver]⟩

/-- Each clause follows from the same one before, and from the kind of what has happened. -/
theorem told_idle (h : Told e log) (hx : x.Idle) : Told e (log ++ [x]) := by
  have hl := mt Leaves.engages hx.1
  cases h
  constructor <;> grind [Idle]

theorem sender_cancel : e.cancel.stop.sender ≠ .held := by
  cases hs : e.stop.sender <;> simp [cancel, hs]

theorem receiver_cancel : e.cancel.stop.receiver = e.stop.receiver := by
  cases hs : e.stop.sender <;> simp [cancel, hs]

theorem told_cancel (h : Told e log) (hw : e.holder = .whole) :
    Told e.cancel (log ++ [.answered .cancel .done]) := by
  have hs : e.cancel.stop.sender ≠ .held := sender_cancel
  have hr : e.cancel.stop.receiver = e.stop.receiver := receiver_cancel
  cases h
  constructor <;> grind [cancel]

/-- The holder goes away, of its own accord or because the driver has. -/
theorem told_drop (h : Told e log) (hl : x.Leaves) (hd : ¬ x.Deserts) (hf : ¬ x.FindsOut)
    (ha : x.AsksStop ∨ e.driver = false) : Told e.drop (log ++ [x]) := by
  have he := hl.engages
  have hs : e.drop.stop.sender ≠ .held := Channel.sender_dropSender_ne
  have hr : e.drop.stop.receiver = e.stop.receiver := Channel.receiver_dropSender
  cases h
  constructor <;> grind [drop, Channel.dropReceiver]

theorem told_wait (h : Told e log) (hg : e.holder ≠ .gone) :
    Told e.wait.1 (log ++ [.answered .wait e.wait.2]) := by
  rcases wait_cases h hg with ⟨hs, hw⟩ | ⟨o, ho, hw⟩
  · rw [hw]
    cases h
    constructor <;> grind
  · rw [hw]
    have hd : e.outcome.sender ≠ .held := by rcases ho with ho | ⟨ho, _⟩ <;> simp [ho]
    have hgone : e.driver = false := by simpa using mt h.driven.2 hd
    exact told_drop h trivial (by simp [Deserts]) nofun (.inr hgone)

theorem told_heed (h : Told e log) (hd : e.driver = true) :
    Told e.heed.1 (log ++ e.heed.2.map .looked) := by
  rcases heed_cases h hd with ⟨hseen, he⟩ | ⟨hseen, hs, he⟩ | ⟨hseen, hs, look, hl, _, he⟩
  · simpa [he] using h
  · rw [he]
    exact told_idle h (by simp [Idle, Deserts])
  · rw [he]
    cases h
    constructor <;> grind

theorem told_finish (h : Told e log) (hd : e.driver = true) :
    Told (e.leave (e.outcome.send o).1)
      (log ++ [.answered (.finish o) (.said (e.outcome.send o).2)]) := by
  have hs : e.holder ≠ .gone → (e.outcome.send o).1.sender = .sent o := fun hg =>
    Channel.sender_send (by simp [h.awaited, hg])
  have hn : (e.outcome.send o).1.sender ≠ .held := Channel.sender_send_ne
  have hr : (e.outcome.send o).1.receiver = e.outcome.receiver := Channel.receiver_send
  have hD : Deserts (.answered (.finish o) (.said (e.outcome.send o).2)) := .inr ⟨o, rfl⟩
  cases h
  constructor <;> grind [leave, Channel.dropReceiver]

theorem told_dropDriver (h : Told e log) (hd : e.driver = true) :
    Told (e.leave e.outcome.dropSender) (log ++ [.answered .dropDriver .done]) := by
  have hs : e.outcome.dropSender.sender = .dropped := by
    simp [Channel.dropSender, h.driven.2 hd]
  have hr : e.outcome.dropSender.receiver = e.outcome.receiver := Channel.receiver_dropSender
  cases h
  constructor <;> grind [leave, Channel.dropReceiver]

theorem told_serve (h : Told e log) (hp : Present log r) :
    Told (e.serve r).1 (log ++ (e.serve r).2) := by
  cases r with
  | cancel => exact told_cancel h (h.whole.2 hp)
  | drop => exact told_drop h trivial (by simp [Deserts]) nofun (.inl trivial)
  | wait => exact told_wait h (h.here hp)
  | isCancelled =>
    have hd := h.driving hp
    rw [serve, ← List.append_assoc]
    exact told_idle (told_heed h hd) (by simp [Idle, Deserts])
  | cancelled =>
    have hd := h.driving hp
    rw [serve, ← List.append_assoc]
    exact told_idle (told_heed h hd) (by simp [Idle, Deserts])
  | finish o => exact told_finish h (h.driving hp)
  | dropDriver => exact told_dropDriver h (h.driving hp)

theorem told_step (h : Told e log) (r : Request) : Told (e.step r).1 (log ++ (e.step r).2) := by
  rw [step]
  split
  · next hs => exact told_serve h ((serves_iff h).1 hs)
  · simpa using h

theorem fresh_heed (h : Told e log) (hd : e.driver = true) : Fresh log e.heed.2 := by
  rcases heed_cases h hd with ⟨_, he⟩ | ⟨hseen, _, he⟩ | ⟨hseen, _, look, _, hl, he⟩
  · exact .inl (by rw [he])
  · exact .inr ⟨.pending, by rw [he], nofun, mt h.seen.2 (by simp [hseen])⟩
  · exact .inr ⟨look, by rw [he], hl, mt h.seen.2 (by simp [hseen])⟩

/-- After it has looked, the driver knows whether the run shall stop. -/
theorem seen_heed (h : Told e log) (hd : e.driver = true) :
    e.heed.1.seen = true ↔ Happened log AsksStop := by
  rw [← not_iff_not, ← h.asked hd]
  rcases heed_cases h hd with ⟨hseen, he⟩ | ⟨hseen, hs, he⟩ | ⟨hseen, hs, look, _, _, he⟩
  · simp [he, hseen, h.heeded hseen]
  · simp [he, hseen, hs]
  · simp [he, hs]

theorem heard_heed (h : Told e log) (hd : e.driver = true) :
    e.heed.1.heard e.heed.2 = if e.heed.1.seen then .resolved else .pending := by
  rcases fresh_heed h hd with hl | ⟨look, hl, hs, _⟩
  · simp [heard, hl]
  · simp [heard, hl, Ne.symm hs]

theorem due_wait (h : Told e log) (hg : e.holder ≠ .gone) : Due log .wait e.wait.2 := by
  simp only [Due, ← h.driver, ← h.sent hg, ← h.dropped hg]
  rcases wait_cases h hg with ⟨hs, hw⟩ | ⟨o, ho, hw⟩
  · simp [hw, hs, h.driven.1 hs]
  · have hd : e.driver = false := by
      rcases ho with ho | ⟨ho, _⟩ <;> simpa [ho] using h.driven
    rcases ho with ho | ⟨ho, rfl⟩ <;> simp [hw, hd, ho, eq_comm]

/-- Somebody takes the outcome unless the holder has gone away. -/
theorem send_outcome (h : Told e log) :
    (e.outcome.send o).2 = true ↔ ¬ Happened log Leaves := by
  rw [Channel.send_snd, ← h.held, h.awaited]
  simp

/-- The driver's side, told by the channel that it delivers through. -/
def sideOf : Sender Outcome → DriverSide
  | .held => .driving
  | .sent o => .delivered o
  | .dropped => .gone

/-- How the two sides show the ends. -/
structure Shown (e : Ends) (p : Pair) : Prop where
  held : p.held = true ↔ e.holder ≠ .gone
  asked : e.driver = true → (p.isCancelled = true ↔ e.stop.sender ≠ .held)
  driver : p.driver = sideOf e.outcome.sender

theorem shown_begin : Shown .begin .begin := by
  constructor <;> simp [begin, Pair.begin, Channel.fresh, Pair.isCancelled, sideOf]

section
variable {p : Pair}

theorem Shown.isCancelled (hs : Shown e p) (h : Told e log) (hd : e.driver = true) :
    p.isCancelled = e.heed.1.seen := by
  rw [Bool.eq_iff_iff, hs.asked hd, seen_heed h hd, ← not_iff_not, not_not]
  exact h.asked hd

theorem Shown.finish (hs : Shown e p) (h : Told e log) (hd : e.driver = true) :
    p.finish o = ({ p with driver := if p.held then .delivered o else .gone }, p.held) := by
  simp [Pair.finish, hs.driver, h.driven.2 hd, sideOf]

theorem Shown.taken (hs : Shown e p) (h : Told e log) : p.held = (e.outcome.send o).2 := by
  rw [Bool.eq_iff_iff, hs.held, send_outcome h]
  exact not_congr h.held

theorem Shown.awaited? (hs : Shown e p) (h : Told e log) (hg : e.holder ≠ .gone) :
    (p.awaited? = none ∧ e.wait = ({ e with holder := .waiting }, .pending)) ∨
      ∃ o, p.awaited? = some o ∧ e.wait = (e.drop, .outcome o) := by
  have hd := hs.driver
  rcases wait_cases h hg with ⟨ho, hw⟩ | ⟨o, ho | ⟨ho, rfl⟩, hw⟩ <;> rw [ho, sideOf] at hd
  · exact .inl ⟨by rw [Pair.awaited?, hd], hw⟩
  · exact .inr ⟨o, by rw [Pair.awaited?, hd], hw⟩
  · exact .inr ⟨_, by rw [Pair.awaited?, hd], hw⟩

theorem Shown.cancel (hs : Shown e p) (hw : e.holder = .whole) : Shown e.cancel p.cancel where
  held := hs.held
  asked _ := by
    have hh : p.held = true := hs.held.2 (by simp [hw])
    simp [Ends.sender_cancel, Pair.cancel, Pair.isCancelled, hh]
  driver := hs.driver

theorem Shown.drop (hs : Shown e p) : Shown e.drop p.drop where
  held := by simp [Ends.drop, Pair.drop]
  asked _ := by simp [Ends.drop, Pair.drop, Pair.isCancelled]
  driver := hs.driver

theorem Shown.heed (hs : Shown e p) (h : Told e log) (hd : e.driver = true) : Shown e.heed.1 p := by
  rcases heed_cases h hd with ⟨_, he⟩ | ⟨_, _, he⟩ | ⟨_, _, look, _, _, he⟩ <;> rw [he]
  · exact hs
  · exact hs
  · exact ⟨hs.held, hs.asked, hs.driver⟩

/-- What the two sides make of a request shows what the ends make of it. -/
theorem shown_serve (h : Told e log) (hs : Shown e p) (hp : Present log r) :
    Shown (e.serve r).1 (p.serve r).1 := by
  cases r with
  | cancel => exact hs.cancel (h.whole.2 hp)
  | drop => exact hs.drop
  | wait =>
    rcases hs.awaited? h (h.here hp) with ⟨ha, hw⟩ | ⟨o, ha, hw⟩ <;>
      simp only [serve, Pair.serve, ha, hw]
    · exact ⟨hs.held.trans (by simp [h.here hp]), hs.asked, hs.driver⟩
    · exact hs.drop
  | isCancelled => exact hs.heed h (h.driving hp)
  | cancelled => exact hs.heed h (h.driving hp)
  | finish o =>
    rw [Pair.serve, hs.finish h (h.driving hp)]
    refine ⟨hs.held, fun hd => absurd hd Bool.false_ne_true, ?_⟩
    by_cases hg : e.holder = .gone
    · have hh : p.held = false := by simpa [hg] using hs.held
      simp [serve, leave, Channel.send, h.awaited, hg, hh, sideOf]
    · have hh : p.held = true := hs.held.2 hg
      simp [serve, leave, Channel.send, h.awaited, hg, hh, sideOf]
  | dropDriver =>
    have ho := h.driven.2 (h.driving hp)
    have hd : p.driver = .driving := by rw [hs.driver, ho, sideOf]
    rw [Pair.serve, Pair.dropDriver, hd]
    refine ⟨hs.held, fun hd => absurd hd Bool.false_ne_true, ?_⟩
    simp [serve, leave, Channel.dropSender, ho, sideOf]

/-- A request whose end is there gets one answer, which is due and is the one of the two sides. -/
theorem answered_serve (h : Told e log) (hs : Shown e p) (hp : Present log r) :
    ∃ looks a, (e.serve r).2 = looks.map .looked ++ [.answered r a] ∧
      Fresh log looks ∧ Due log r a ∧ a = (p.serve r).2 := by
  cases r with
  | cancel => exact ⟨[], .done, rfl, .inl rfl, rfl, rfl⟩
  | drop => exact ⟨[], .done, rfl, .inl rfl, rfl, rfl⟩
  | dropDriver => exact ⟨[], .done, rfl, .inl rfl, rfl, rfl⟩
  | wait =>
    refine ⟨[], e.wait.2, rfl, .inl rfl, due_wait h (h.here hp), ?_⟩
    rcases hs.awaited? h (h.here hp) with ⟨ha, hw⟩ | ⟨o, ha, hw⟩ <;> simp only [Pair.serve, ha, hw]
  | isCancelled =>
    have hd := h.driving hp
    refine ⟨e.heed.2, .said e.heed.1.seen, rfl, fresh_heed h hd, ⟨_, rfl, seen_heed h hd⟩, ?_⟩
    rw [Pair.serve, hs.isCancelled h hd]
  | cancelled =>
    have hd := h.driving hp
    refine ⟨e.heed.2, e.heed.1.heard e.heed.2, rfl, fresh_heed h hd, ?_, ?_⟩
    · rw [Due, ← seen_heed h hd, heard_heed h hd]
      split <;> simp [*]
    · rw [heard_heed h hd, Pair.serve, hs.isCancelled h hd]
  | finish o =>
    have hd := h.driving hp
    refine ⟨[], .said (e.outcome.send o).2, rfl, .inl rfl, ⟨_, rfl, send_outcome h⟩, ?_⟩
    rw [Pair.serve, hs.finish h hd, hs.taken h]

/-- Looks alone leave the two sides as they are. -/
theorem sides_append {looks : List (Look Unit)} {a : Answer} :
    sides (log ++ (looks.map .looked ++ [.answered r a])) = ((sides log).serve r).1 := by
  have hlooks (p : Pair) : (looks.map Exchange.looked).foldl Pair.hear p = p := by
    induction looks with
    | nil => rfl
    | cons _ _ ih => exact ih
  rw [sides, List.foldl_append, List.foldl_append, hlooks]
  rfl

theorem shown_step (h : Told e log) (hs : Shown e (sides log)) (r : Request) :
    Shown (e.step r).1 (sides (log ++ (e.step r).2)) := by
  rw [step]
  split
  · next hr =>
    have hp := (serves_iff h).1 hr
    obtain ⟨looks, a, ha, _⟩ := answered_serve h hs hp
    rw [ha, sides_append]
    exact shown_serve h hs hp
  · rwa [List.append_nil]

end

/-- Along a whole run, the ends and the two sides are as all that has happened tells. -/
theorem told_course {c : Course step} (hc : c.start = .begin) (n : Nat) :
    Told (c.state n) (c.log n) ∧ Shown (c.state n) (sides (c.log n)) := by
  refine Course.keeps_log (K := fun e log => Told e log ∧ Shown e (sides log)) ?_ ?_ n
  · rw [hc]
    exact ⟨told_begin, shown_begin⟩
  · rintro e log r ⟨h, hs⟩
    exact ⟨told_step h r, shown_step h hs r⟩

/-- Whatever is asked of the two ends, in whatever order, each request is answered once if its end
is there, and not at all if it is not. The driver hears of a wish to stop from the first moment on
at which the holder has uttered it or is gone, and looks for it no more once it knows; the holder
gets what the driver has left, whether or not it wished the run to stop. -/
theorem requests_lawful {c : Course step} (hc : c.start = .begin) {n : Nat} {r : Request}
    (hr : c.event n = some r) : Lawful (c.log n) r (c.effects n) := by
  obtain ⟨h, hshown⟩ := told_course hc n
  rw [Course.effects_eq hr, step]
  split
  · next hs =>
    have hp := (serves_iff h).1 hs
    exact .inr ⟨hp, answered_serve h hshown hp⟩
  · next hs => exact .inl ⟨mt (serves_iff h).2 hs, rfl⟩

/-- A holder that waits has not wished the run to stop, and gets the outcome in the end. -/
theorem requests_lawful_waiting :
    let c : Course step := .ofList .begin [.wait, .isCancelled, .finish (.completed "{}"), .wait]
    c.start = .begin ∧ c.event 3 = some .wait ∧
      c.effects 1 = [.looked .pending, .answered .isCancelled (.said false)] ∧
      c.effects 3 = [.answered .wait (.outcome (.completed "{}"))] ∧
      Lawful (c.log 3) .wait (c.effects 3) :=
  ⟨rfl, rfl, rfl, rfl, requests_lawful rfl rfl⟩

end Ends

end AnalyzerBridge.Run
