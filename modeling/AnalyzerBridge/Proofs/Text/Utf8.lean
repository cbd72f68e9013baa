import AnalyzerBridge.Text.Utf8
import Mathlib.Data.List.Infix
import Mathlib.Data.String.Basic

/-! Decoding against encoding. Bytes are taken for one text only: that of their characters, where one
replacement character stands for each invalid part, which is as long as it could have become a
character. The decoder, which reads byte by byte, gives this text. -/
namespace AnalyzerBridge.Text.Utf8

open String (utf8EncodeChar)

def encode (s : List Char) : List UInt8 :=
  s.flatMap utf8EncodeChar

/-- The numbers of the bytes of a code point. -/
def codes (v : Nat) : List Nat :=
  if v ≤ 0x7F then [v]
  else if v ≤ 0x7FF then [v / 64 + 0xC0, v % 64 + 0x80]
  else if v ≤ 0xFFFF then [v / 4096 + 0xE0, v / 64 % 64 + 0x80, v % 64 + 0x80]
  else [v / 262144 + 0xF0, v / 4096 % 64 + 0x80, v / 64 % 64 + 0x80, v % 64 + 0x80]

theorem toNat_valid (c : Char) : c.toNat < 0xD800 ∨ 0xDFFF < c.toNat ∧ c.toNat < 0x110000 :=
  c.valid

theorem map_toNat_utf8EncodeChar (c : Char) : (utf8EncodeChar c).map UInt8.toNat = codes c.toNat := by
  have hv := toNat_valid c
  have hc : c.val.toNat = c.toNat := rfl
  rw [utf8EncodeChar, codes, hc]
  generalize c.toNat = v at hv
  split
  · simp only [List.map_cons, List.map_nil, UInt8.toNat_ofNat', List.cons.injEq, and_true]
    omega
  split
  · simp only [List.map_cons, List.map_nil, UInt8.toNat_ofNat', List.cons.injEq, and_true]
    omega
  split
  · simp only [List.map_cons, List.map_nil, UInt8.toNat_ofNat', List.cons.injEq, and_true]
    omega
  · simp only [List.map_cons, List.map_nil, UInt8.toNat_ofNat', List.cons.injEq, and_true]
    omega

/-- The bytes are those of a character exactly if their numbers are. -/
theorem utf8EncodeChar_eq_iff {c : Char} {bs : List UInt8} :
    utf8EncodeChar c = bs ↔ codes c.toNat = bs.map UInt8.toNat := by
  rw [← map_toNat_utf8EncodeChar]
  exact (List.map_injective_iff.2 fun _ _ => UInt8.toNat_inj.1).eq_iff.symm

/-- A byte that does not come first. -/
def Tail (b : UInt8) : Prop := 0x80 ≤ b.toNat ∧ b.toNat ≤ 0xBF

variable {b : UInt8} {bs : List UInt8} {c : Char} {p : Pending}

theorem utf8EncodeChar_one (hb : b.toNat < 0x80) :
    utf8EncodeChar c = b :: bs ↔ bs = [] ∧ c.toNat = b.toNat := by
  rw [utf8EncodeChar_eq_iff, List.map_cons, codes]
  constructor
  · intro h
    split at h
    · simpa [and_comm] using h
    all_goals
      repeat' split at h
      all_goals
        have := (List.cons.inj h).1
        omega
  · rintro ⟨rfl, hc⟩
    rw [if_pos (by omega), hc]
    rfl

theorem utf8EncodeChar_two (hb : 0xC2 ≤ b.toNat) (hb' : b.toNat ≤ 0xDF) :
    utf8EncodeChar c = b :: bs ↔ ∃ x, bs = [x] ∧ Tail x ∧
      c.toNat = (b.toNat - 0xC0) * 64 + (x.toNat - 0x80) := by
  rw [utf8EncodeChar_eq_iff, List.map_cons, codes]
  constructor
  · intro h
    repeat' split at h
    all_goals obtain ⟨hlead, hrest⟩ := List.cons.inj h
    · omega
    · obtain ⟨x, bs, rfl, hx, hrest⟩ := List.map_eq_cons_iff.1 hrest.symm
      obtain rfl := List.map_eq_nil_iff.1 hrest
      exact ⟨x, rfl, ⟨by omega, by omega⟩, by omega⟩
    · omega
    · omega
  · rintro ⟨x, rfl, ⟨hx, hx'⟩, hc⟩
    rw [if_neg (by omega), if_pos (by omega)]
    simp only [List.map_cons, List.map_nil, List.cons.injEq, and_true]
    omega

theorem utf8EncodeChar_three (hb : 0xE0 ≤ b.toNat) (hb' : b.toNat ≤ 0xEF) :
    utf8EncodeChar c = b :: bs ↔ ∃ x y, bs = [x, y] ∧ Tail x ∧ Tail y ∧ 0x800 ≤ c.toNat ∧
      c.toNat = ((b.toNat - 0xE0) * 64 + (x.toNat - 0x80)) * 64 + (y.toNat - 0x80) := by
  have hv := toNat_valid c
  rw [utf8EncodeChar_eq_iff, List.map_cons, codes]
  constructor
  · intro h
    repeat' split at h
    all_goals obtain ⟨hlead, hrest⟩ := List.cons.inj h
    · omega
    · omega
    · obtain ⟨x, bs, rfl, hx, hrest⟩ := List.map_eq_cons_iff.1 hrest.symm
      obtain ⟨y, bs, rfl, hy, hrest⟩ := List.map_eq_cons_iff.1 hrest
      obtain rfl := List.map_eq_nil_iff.1 hrest
      exact ⟨x, y, rfl, ⟨by omega, by omega⟩, ⟨by omega, by omega⟩, by omega, by omega⟩
    · omega
  · rintro ⟨x, y, rfl, ⟨hx, hx'⟩, ⟨hy, hy'⟩, hlow, hc⟩
    rw [if_neg (by omega), if_neg (by omega), if_pos (by omega)]
    simp only [List.map_cons, List.map_nil, List.cons.injEq, and_true]
    omega

theorem utf8EncodeChar_four (hb : 0xF0 ≤ b.toNat) :
    utf8EncodeChar c = b :: bs ↔ ∃ x y z, bs = [x, y, z] ∧ Tail x ∧ Tail y ∧ Tail z ∧
      0x10000 ≤ c.toNat ∧ c.toNat = (((b.toNat - 0xF0) * 64 + (x.toNat - 0x80)) * 64 +
        (y.toNat - 0x80)) * 64 + (z.toNat - 0x80) := by
  have hv := toNat_valid c
  rw [utf8EncodeChar_eq_iff, List.map_cons, codes]
  constructor
  · intro h
    repeat' split at h
    all_goals obtain ⟨hlead, hrest⟩ := List.cons.inj h
    · omega
    · omega
    · omega
    · obtain ⟨x, bs, rfl, hx, hrest⟩ := List.map_eq_cons_iff.1 hrest.symm
      obtain ⟨y, bs, rfl, hy, hrest⟩ := List.map_eq_cons_iff.1 hrest
      obtain ⟨z, bs, rfl, hz, hrest⟩ := List.map_eq_cons_iff.1 hrest
      obtain rfl := List.map_eq_nil_iff.1 hrest
      exact ⟨x, y, z, rfl, ⟨by omega, by omega⟩, ⟨by omega, by omega⟩, ⟨by omega, by omega⟩,
        by omega, by omega⟩
  · rintro ⟨x, y, z, rfl, ⟨hx, hx'⟩, ⟨hy, hy'⟩, ⟨hz, hz'⟩, hlow, hc⟩
    rw [if_neg (by omega), if_neg (by omega), if_neg (by omega)]
    simp only [List.map_cons, List.map_nil, List.cons.injEq, and_true]
    omega

theorem eq_ofNat_iff {n : Nat} (hn : n.isValidChar) : c = Char.ofNat n ↔ c.toNat = n := by
  constructor
  · rintro rfl
    exact toNat_ofNat hn
  · rintro rfl
    exact (Char.ofNat_toNat c).symm

/-- The bytes complete a character of which some have been read. -/
def Completes : List UInt8 → Pending → Char → Prop
  | [], _, _ => False
  | b :: bs, p, c => (p.low ≤ b.toNat ∧ b.toNat ≤ p.high) ∧ match p.more with
    | 0 => bs = [] ∧ c = Char.ofNat (p.value * 64 + (b.toNat - 0x80))
    | more + 1 => Completes bs ⟨more, p.value * 64 + (b.toNat - 0x80), 0x80, 0xBF⟩ c

/-- Of a character these bytes have been read, and `p` says what may come. -/
def Awaits (p : Pending) (done : List UInt8) : Prop :=
  ∀ c bs, utf8EncodeChar c = done ++ bs ↔ Completes bs p c

theorem completes_last {value low high : Nat} : Completes bs ⟨0, value, low, high⟩ c ↔
    ∃ x, bs = [x] ∧ (low ≤ x.toNat ∧ x.toNat ≤ high) ∧
      c = Char.ofNat (value * 64 + (x.toNat - 0x80)) := by
  cases bs with
  | nil => simp [Completes]
  | cons x bs =>
    simp only [Completes, List.cons.injEq]
    constructor
    · rintro ⟨hx, rfl, hc⟩
      exact ⟨x, ⟨rfl, rfl⟩, hx, hc⟩
    · rintro ⟨_, ⟨rfl, rfl⟩, hx, hc⟩
      exact ⟨hx, rfl, hc⟩

theorem completes_more {more value low high : Nat} :
    Completes bs ⟨more + 1, value, low, high⟩ c ↔ ∃ x rest, bs = x :: rest ∧
      (low ≤ x.toNat ∧ x.toNat ≤ high) ∧
      Completes rest ⟨more, value * 64 + (x.toNat - 0x80), 0x80, 0xBF⟩ c := by
  cases bs with
  | nil => simp [Completes]
  | cons x bs =>
    simp only [Completes, List.cons.injEq]
    constructor
    · rintro ⟨hx, h⟩
      exact ⟨x, bs, ⟨rfl, rfl⟩, hx, h⟩
    · rintro ⟨_, _, ⟨rfl, rfl⟩, hx, h⟩
      exact ⟨hx, h⟩

/-- After the first one of two bytes, each byte is awaited that does not come first. -/
theorem awaits_one_more {value : Nat}
    (hb : 0xC2 ≤ b.toNat ∧ b.toNat ≤ 0xDF ∧ b.toNat - 0xC0 = value) :
    Awaits ⟨0, value, 0x80, 0xBF⟩ [b] := by
  intro c bs
  obtain ⟨hb, hb', hvalue⟩ := hb
  subst hvalue
  rw [List.singleton_append, utf8EncodeChar_two hb hb', completes_last]
  refine exists_congr fun x => and_congr_right fun _ => and_congr_right fun hx => ?_
  obtain ⟨hx, hx'⟩ := hx
  exact (eq_ofNat_iff (by simp only [Nat.isValidChar]; omega)).symm

theorem awaits_two_more {value low high : Nat} (hb : b.toNat - 0xE0 = value ∧
    (b.toNat = 0xE0 ∧ low = 0xA0 ∧ high = 0xBF ∨ b.toNat = 0xED ∧ low = 0x80 ∧ high = 0x9F ∨
      0xE1 ≤ b.toNat ∧ b.toNat ≤ 0xEF ∧ b.toNat ≠ 0xED ∧ low = 0x80 ∧ high = 0xBF)) :
    Awaits ⟨1, value, low, high⟩ [b] := by
  intro c bs
  have hv := toNat_valid c
  obtain ⟨hvalue, hb⟩ := hb
  subst hvalue
  rw [List.singleton_append, utf8EncodeChar_three (by omega) (by omega), completes_more]
  simp only [completes_last]
  constructor
  · rintro ⟨x, y, rfl, ⟨hx, hx'⟩, ⟨hy, hy'⟩, hlow, hc⟩
    refine ⟨x, [y], rfl, by omega, y, rfl, ⟨hy, hy'⟩, ?_⟩
    rw [← hc, Char.ofNat_toNat]
  · rintro ⟨x, _, rfl, hx, y, rfl, hy, hc⟩
    rw [eq_ofNat_iff (by simp only [Nat.isValidChar]; omega)] at hc
    exact ⟨x, y, rfl, ⟨by omega, by omega⟩, hy, by omega, hc⟩

theorem awaits_three_more {value low high : Nat} (hb : b.toNat - 0xF0 = value ∧
    (b.toNat = 0xF0 ∧ low = 0x90 ∧ high = 0xBF ∨ b.toNat = 0xF4 ∧ low = 0x80 ∧ high = 0x8F ∨
      0xF1 ≤ b.toNat ∧ b.toNat ≤ 0xF3 ∧ low = 0x80 ∧ high = 0xBF)) :
    Awaits ⟨2, value, low, high⟩ [b] := by
  intro c bs
  have hv := toNat_valid c
  obtain ⟨hvalue, hb⟩ := hb
  subst hvalue
  rw [List.singleton_append, utf8EncodeChar_four (by omega), completes_more]
  simp only [completes_more, completes_last]
  constructor
  · rintro ⟨x, y, z, rfl, ⟨hx, hx'⟩, ⟨hy, hy'⟩, ⟨hz, hz'⟩, hlow, hc⟩
    refine ⟨x, [y, z], rfl, by omega, y, [z], rfl, ⟨hy, hy'⟩, z, rfl, ⟨hz, hz'⟩, ?_⟩
    rw [← hc, Char.ofNat_toNat]
  · rintro ⟨x, _, rfl, hx, y, _, rfl, hy, z, rfl, hz, hc⟩
    rw [eq_ofNat_iff (by simp only [Nat.isValidChar]; omega)] at hc
    exact ⟨x, y, z, rfl, ⟨by omega, by omega⟩, hy, hz, by omega, hc⟩

/-- After a first byte exactly the rest of its characters is awaited, and there is such a rest. -/
theorem awaits_start (h : start b = .inr p) : Awaits p [b] ∧ p.low ≤ p.high ∧ p.high ≤ 0xBF := by
  rw [start] at h
  split at h
  · cases h
  split at h
  · cases h
  rename_i follow value low high hlead
  cases h
  rw [lead?] at hlead
  repeat' split at hlead
  all_goals simp only [Option.some.injEq, Prod.mk.injEq, reduceCtorEq] at hlead
  all_goals obtain ⟨rfl, rfl, rfl, rfl⟩ := hlead
  · exact ⟨awaits_one_more (by omega), by simp⟩
  · exact ⟨awaits_two_more (by omega), by simp⟩
  · exact ⟨awaits_two_more (by omega), by simp⟩
  · exact ⟨awaits_two_more (by omega), by simp⟩
  · exact ⟨awaits_three_more (by omega), by simp⟩
  · exact ⟨awaits_three_more (by omega), by simp⟩
  · exact ⟨awaits_three_more (by omega), by simp⟩

/-- The text that starts a sequence of bytes is the only one. -/
theorem utf8EncodeChar_append_inj {d : Char} {s t : List UInt8}
    (h : utf8EncodeChar c ++ s = utf8EncodeChar d ++ t) : c = d ∧ s = t := by
  have hc := ByteArray.utf8DecodeChar?_utf8EncodeChar_append (b := s.toByteArray) (c := c)
  have hd := ByteArray.utf8DecodeChar?_utf8EncodeChar_append (b := t.toByteArray) (c := d)
  rw [← List.toByteArray_append] at hc hd
  obtain rfl : c = d := by
    rw [h] at hc
    exact Option.some.inj (hc.symm.trans hd)
  exact ⟨rfl, List.append_cancel_left h⟩

/-- A character starts with these bytes. -/
def Begun (bs : List UInt8) : Prop := ∃ c, bs <+: utf8EncodeChar c

/-- With this part bytes begin that start with no character. It is all that could have become one,
or a single byte if no character begins so. -/
structure Broken (part rest : List UInt8) : Prop where
  nonempty : part ≠ []
  no_char : ∀ c, ¬ utf8EncodeChar c <+: part ++ rest
  begun : part.length = 1 ∨ Begun part
  longest : ∀ more, more <+: part ++ rest → Begun more → more.length ≤ part.length

/-- The text that bytes are taken for: their characters, and a replacement character for each
invalid part. -/
inductive Decodes : List UInt8 → List Char → Prop
  | nil : Decodes [] []
  | char {c : Char} {bs : List UInt8} {s : List Char} : Decodes bs s →
      Decodes (utf8EncodeChar c ++ bs) (c :: s)
  | broken {part rest : List UInt8} {s : List Char} : Broken part rest → Decodes rest s →
      Decodes (part ++ rest) ('\uFFFD' :: s)

variable {part rest part' rest' : List UInt8} {s t : List Char}

theorem utf8EncodeChar_ne_nil (c : Char) : utf8EncodeChar c ≠ [] := by
  have hpos := c.utf8Size_pos
  rw [← String.length_utf8EncodeChar] at hpos
  exact List.ne_nil_of_length_pos hpos

theorem Broken.length_le (h : Broken part rest) (h' : Broken part' rest')
    (heq : part ++ rest = part' ++ rest') : part'.length ≤ part.length := by
  rcases h'.begun with hone | hbegun
  · rw [hone]
    exact List.length_pos_of_ne_nil h.nonempty
  · exact h.longest part' (heq ▸ List.prefix_append part' rest') hbegun

/-- The invalid part that starts a sequence of bytes is the only one. -/
theorem Broken.unique (h : Broken part rest) (h' : Broken part' rest')
    (heq : part ++ rest = part' ++ rest') : part = part' ∧ rest = rest' :=
  List.append_inj heq (Nat.le_antisymm (h'.length_le h heq.symm) (h.length_le h' heq))

/-- Bytes are taken for one text only. -/
theorem Decodes.unique (h : Decodes bs s) (h' : Decodes bs t) : s = t := by
  induction h generalizing t with
  | nil =>
    generalize hbs : ([] : List UInt8) = bs at h'
    cases h' with
    | nil => rfl
    | char => exact absurd (List.append_eq_nil_iff.1 hbs.symm).1 (utf8EncodeChar_ne_nil _)
    | broken hb => exact absurd (List.append_eq_nil_iff.1 hbs.symm).1 hb.nonempty
  | @char c bs s _ ih =>
    generalize hbs : utf8EncodeChar c ++ bs = all at h'
    cases h' with
    | nil => exact absurd (List.append_eq_nil_iff.1 hbs).1 (utf8EncodeChar_ne_nil c)
    | char h' =>
      obtain ⟨rfl, rfl⟩ := utf8EncodeChar_append_inj hbs
      rw [ih h']
    | broken hb => exact absurd (hbs ▸ List.prefix_append _ _) (hb.no_char c)
  | @broken part rest s hb _ ih =>
    generalize hbs : part ++ rest = all at h'
    cases h' with
    | nil => exact absurd (List.append_eq_nil_iff.1 hbs).1 hb.nonempty
    | @char c => exact absurd (hbs ▸ List.prefix_append _ _) (hb.no_char c)
    | broken hb' h' =>
      obtain ⟨rfl, rfl⟩ := hb.unique hb' hbs
      rw [ih h']

/-- What has been read waits for a byte in a range that is not empty. -/
structure Waits (p : Pending) (done : List UInt8) : Prop where
  awaits : Awaits p done
  nonempty : done ≠ []
  low_le : p.low ≤ p.high
  high_le : p.high ≤ 0xBF

namespace Waits

variable {done rest : List UInt8}

theorem start (h : Utf8.start b = .inr p) : Waits p [b] := by
  obtain ⟨ha, hlow, hhigh⟩ := awaits_start h
  exact ⟨ha, by simp, hlow, hhigh⟩

/-- After a byte that is not the last one, the next one is waited for. -/
theorem step {more value low high : Nat} (h : Waits ⟨more + 1, value, low, high⟩ done)
    (hb : low ≤ b.toNat ∧ b.toNat ≤ high) :
    Waits ⟨more, value * 64 + (b.toNat - 0x80), 0x80, 0xBF⟩ (done ++ [b]) where
  awaits c bs := by
    rw [List.append_assoc, h.awaits, List.singleton_append]
    exact and_iff_right hb
  nonempty := by simp
  low_le := by simp
  high_le := by simp

/-- The last byte makes a character. -/
theorem last {value low high : Nat} (h : Waits ⟨0, value, low, high⟩ done)
    (hb : low ≤ b.toNat ∧ b.toNat ≤ high) :
    utf8EncodeChar (Char.ofNat (value * 64 + (b.toNat - 0x80))) = done ++ [b] :=
  (h.awaits _ _).2 ⟨hb, rfl, rfl⟩

/-- Some character can still be completed. -/
theorem exists_completes (h : Waits p done) : ∃ c bs, Completes bs p c := by
  have hrange : ∀ more value, ∃ c bs, Completes bs ⟨more, value, 0x80, 0xBF⟩ c := by
    intro more
    induction more with
    | zero => exact fun value => ⟨_, [0x80], by simp, rfl, rfl⟩
    | succ more ih =>
      intro value
      obtain ⟨c, bs, hbs⟩ := ih (value * 64 + ((0x80 : UInt8).toNat - 0x80))
      exact ⟨c, 0x80 :: bs, by simp, hbs⟩
  obtain ⟨more, value, low, high⟩ := p
  have hlow : (UInt8.ofNat low).toNat = low := by
    have hle : low ≤ 0xBF := h.low_le.trans h.high_le
    exact UInt8.toNat_ofNat_of_lt' (Nat.lt_of_le_of_lt hle (by decide))
  cases more with
  | zero => exact ⟨_, [UInt8.ofNat low], ⟨hlow.ge, hlow.trans_le h.low_le⟩, rfl, rfl⟩
  | succ more =>
    obtain ⟨c, bs, hbs⟩ := hrange more (value * 64 + ((UInt8.ofNat low).toNat - 0x80))
    exact ⟨c, UInt8.ofNat low :: bs, ⟨hlow.ge, hlow.trans_le h.low_le⟩, hbs⟩

/-- A character that starts with what has been read goes on with a byte that is waited for. -/
theorem exists_of_prefix (h : Waits p done) {c : Char} (hc : done <+: utf8EncodeChar c) :
    ∃ x bs, utf8EncodeChar c = done ++ x :: bs ∧ p.low ≤ x.toNat ∧ x.toNat ≤ p.high := by
  obtain ⟨bs, hbs⟩ := hc
  have hcompletes := (h.awaits c bs).1 hbs.symm
  cases bs with
  | nil => exact absurd hcompletes id
  | cons x bs => exact ⟨x, bs, hbs.symm, hcompletes.1⟩

/-- What has been read has no character in it: it would have been finished before. -/
theorem no_char (h : Waits p done) (c : Char) : ¬ utf8EncodeChar c <+: done := by
  rintro ⟨more, rfl⟩
  obtain ⟨d, bs, hbs⟩ := h.exists_completes
  have heq := (h.awaits d bs).2 hbs
  rw [← List.append_nil (utf8EncodeChar d), List.append_assoc] at heq
  obtain ⟨_, hnil⟩ := utf8EncodeChar_append_inj heq
  rw [(List.append_eq_nil_iff.1 hnil.symm).2] at hbs
  exact hbs

/-- If no byte comes that is waited for, what has been read is an invalid part. -/
theorem broken (h : Waits p done)
    (hrest : ∀ x bs, rest = x :: bs → ¬ (p.low ≤ x.toNat ∧ x.toNat ≤ p.high)) :
    Broken done rest where
  nonempty := h.nonempty
  no_char c hc := by
    rcases List.prefix_or_prefix_of_prefix hc (List.prefix_append done rest) with hle | hle
    · exact h.no_char c hle
    · obtain ⟨x, bs, heq, hx⟩ := h.exists_of_prefix hle
      rw [heq, List.prefix_append_right_inj] at hc
      obtain ⟨more, rfl⟩ := hc
      exact hrest x (bs ++ more) rfl hx
  begun := by
    obtain ⟨c, bs, hbs⟩ := h.exists_completes
    exact Or.inr ⟨c, bs, ((h.awaits c bs).2 hbs).symm⟩
  longest more hmore hbegun := by
    by_contra hlt
    obtain ⟨c, hc⟩ := hbegun
    obtain ⟨longer, rfl⟩ := List.prefix_of_prefix_length_le (List.prefix_append done rest) hmore
      (Nat.le_of_not_le hlt)
    obtain ⟨x, bs, heq, hx⟩ := h.exists_of_prefix ((List.prefix_append done longer).trans hc)
    rw [heq, List.prefix_append_right_inj] at hc
    rw [List.prefix_append_right_inj] at hmore
    cases longer with
    | nil => simp at hlt
    | cons y longer =>
      obtain ⟨rfl, _⟩ := List.cons_prefix_cons.1 hc
      obtain ⟨more, rfl⟩ := hmore
      exact hrest y (longer ++ more) rfl hx

end Waits

/-- The text of parts, with a replacement character for each invalid one. -/
def mend (parts : List (Option Char)) : List Char :=
  parts.map (·.getD '\uFFFD')

theorem mend_some {parts : List (Option Char)} : mend (some c :: parts) = c :: mend parts := rfl

theorem mend_none {parts : List (Option Char)} : mend (none :: parts) = '\uFFFD' :: mend parts := rfl

theorem utf8EncodeChar_ne_of_start (h : start b = .inl none) (c : Char) :
    utf8EncodeChar c ≠ b :: bs := by
  have hv := toNat_valid c
  rw [start] at h
  split at h
  · cases h
  split at h
  · rename_i hlead
    rw [lead?] at hlead
    repeat' split at hlead
    all_goals simp only [reduceCtorEq] at hlead
    rw [Ne, utf8EncodeChar_eq_iff, List.map_cons, codes]
    intro hcodes
    repeat' split at hcodes
    all_goals
      have hb := (List.cons.inj hcodes).1
      omega
  · cases h

/-- A byte that begins no character is an invalid part. -/
theorem broken_of_start (h : start b = .inl none) : Broken [b] bs where
  nonempty := by simp
  no_char c hc := by
    obtain ⟨more, hmore⟩ := hc
    cases hbs : utf8EncodeChar c with
    | nil => exact utf8EncodeChar_ne_nil c hbs
    | cons x rest =>
      rw [hbs] at hmore
      obtain rfl := (List.cons.inj hmore).1
      exact utf8EncodeChar_ne_of_start h c hbs
  begun := Or.inl rfl
  longest more hmore hbegun := by
    cases more with
    | nil => exact Nat.zero_le _
    | cons x more =>
      obtain rfl := (List.cons_prefix_cons.1 hmore).1
      obtain ⟨c, rest, hc⟩ := hbegun
      exact absurd hc.symm (utf8EncodeChar_ne_of_start h c)

theorem utf8EncodeChar_of_start (h : start b = .inl (some c)) : utf8EncodeChar c = [b] := by
  rw [start] at h
  split at h
  · rename_i hb
    cases h
    rw [utf8EncodeChar_one hb, toNat_ofNat (Or.inl (by omega))]
    exact ⟨rfl, rfl⟩
  · split at h <;> cases h

/-- Without anything read before, the next byte decides alone, or is waited on. -/
theorem decodes_start (hnone : Decodes bs (mend (partsFrom none bs)))
    (hsome : ∀ p, Waits p [b] → Decodes (b :: bs) (mend (partsFrom (some p) bs))) :
    Decodes (b :: bs) (mend (partsFrom none (b :: bs))) := by
  rw [partsFrom]
  cases hb : start b with
  | inl part =>
    cases part with
    | none => exact .broken (broken_of_start hb) hnone
    | some c =>
      have hchar := Decodes.char (c := c) hnone
      rwa [utf8EncodeChar_of_start hb] at hchar
  | inr p => exact hsome p (.start hb)

/-- The parts of bytes are those that they are taken for. -/
theorem decodes_partsFrom (bs : List UInt8) : Decodes bs (mend (partsFrom none bs)) ∧
    ∀ p done, Waits p done → Decodes (done ++ bs) (mend (partsFrom (some p) bs)) := by
  induction bs with
  | nil =>
    refine ⟨.nil, ?_⟩
    intro p done h
    exact .broken (h.broken nofun) .nil
  | cons b bs ih =>
    obtain ⟨hnone, hsome⟩ := ih
    have hstart := decodes_start hnone fun p => hsome p [b]
    refine ⟨hstart, ?_⟩
    intro p done h
    by_cases hb : p.low ≤ b.toNat ∧ b.toNat ≤ p.high
    · obtain ⟨more, value, low, high⟩ := p
      rw [partsFrom, if_pos hb]
      cases more with
      | zero =>
        have hchar := Decodes.char (c := Char.ofNat (value * 64 + (b.toNat - 0x80))) hnone
        rw [h.last hb, List.append_assoc, List.singleton_append] at hchar
        dsimp only
        rw [mend_some]
        exact hchar
      | succ more =>
        have hmore := hsome _ _ (h.step hb)
        rw [List.append_assoc, List.singleton_append] at hmore
        dsimp only
        exact hmore
    · have hparts : partsFrom (some p) (b :: bs) = none :: partsFrom none (b :: bs) := by
        rw [partsFrom, partsFrom, if_neg hb]
      rw [hparts, mend_none]
      refine .broken (h.broken ?_) hstart
      rintro x rest ⟨⟩
      exact hb

/-- Bytes are decoded as the text that they are taken for. -/
theorem decodes_iff : Decodes bs s ↔ s = decodeLossy bs := by
  have hlossy : Decodes bs (decodeLossy bs) := (decodes_partsFrom bs).1
  constructor
  · intro h
    exact h.unique hlossy
  · rintro rfl
    exact hlossy

theorem decodes_encode (s : List Char) : Decodes (encode s) s := by
  induction s with
  | nil => exact .nil
  | cons c s ih =>
    rw [encode, List.flatMap_cons]
    exact .char ih

/-- Bytes are those of a text, or a replacement character stands in what they are taken for. -/
theorem Decodes.eq_encode (h : Decodes bs s) (hs : '\uFFFD' ∉ s) : bs = encode s := by
  induction h with
  | nil => rfl
  | char _ ih =>
    rw [List.mem_cons, not_or] at hs
    rw [ih hs.2, encode, encode, List.flatMap_cons]
  | broken => exact absurd List.mem_cons_self hs

end AnalyzerBridge.Text.Utf8
