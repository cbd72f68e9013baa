/-!
Decoding UTF-8. `parts` reads characters one after the other; bytes that begin no character, or a
character that breaks off, give one invalid part, as long as possible.
-/

namespace AnalyzerBridge.Text.Utf8

/-- What a first byte announces: how many bytes follow, its share of the code point, and the range
of the second byte. -/
def lead? (b : UInt8) : Option (Nat × Nat × Nat × Nat) :=
  let n := b.toNat
  if 0xC2 ≤ n ∧ n ≤ 0xDF then some (1, n - 0xC0, 0x80, 0xBF)
  else if n = 0xE0 then some (2, 0, 0xA0, 0xBF)
  else if n = 0xED then some (2, 0xD, 0x80, 0x9F)
  else if 0xE1 ≤ n ∧ n ≤ 0xEF then some (2, n - 0xE0, 0x80, 0xBF)
  else if n = 0xF0 then some (3, 0, 0x90, 0xBF)
  else if 0xF1 ≤ n ∧ n ≤ 0xF3 then some (3, n - 0xF0, 0x80, 0xBF)
  else if n = 0xF4 then some (3, 4, 0x80, 0x8F)
  else none

/-- A character that is not complete: the bytes still to come after the next one, the value so far,
and the range of the next byte. -/
structure Pending where
  more : Nat
  value : Nat
  low : Nat
  high : Nat

/-- Starts a character with byte `b`: a finished part, or a pending one. -/
def start (b : UInt8) : Option Char ⊕ Pending :=
  if b.toNat < 0x80 then .inl (some (Char.ofNat b.toNat))
  else match lead? b with
    | none => .inl none
    | some (follow, value, low, high) => .inr ⟨follow - 1, value, low, high⟩

/-- The characters of a byte sequence, with `none` for each invalid part. -/
def partsFrom : Option Pending → List UInt8 → List (Option Char)
  | none, [] => []
  | some _, [] => [none]
  | none, b :: bs =>
    match start b with
    | .inl part => part :: partsFrom none bs
    | .inr p => partsFrom (some p) bs
  | some p, b :: bs =>
    if p.low ≤ b.toNat ∧ b.toNat ≤ p.high then
      let value := p.value * 64 + (b.toNat - 0x80)
      match p.more with
      | 0 => some (Char.ofNat value) :: partsFrom none bs
      | more + 1 => partsFrom (some ⟨more, value, 0x80, 0xBF⟩) bs
    else
      none :: match start b with
        | .inl part => part :: partsFrom none bs
        | .inr p => partsFrom (some p) bs

/-- The characters of a byte sequence, with `none` for each invalid part. -/
def parts (bytes : List UInt8) : List (Option Char) :=
  partsFrom none bytes

/-- The text with a replacement character for each invalid part. -/
def decodeLossy (bytes : List UInt8) : List Char :=
  (parts bytes).map (·.getD '\uFFFD')

/-- The text, if every part is valid. -/
def decode? (bytes : List UInt8) : Option (List Char) :=
  (parts bytes).mapM id

/-- A code point outside the surrogates is that of a character. -/
theorem toNat_ofNat {n : Nat} (hn : n.isValidChar) : (Char.ofNat n).toNat = n := by
  rw [Char.ofNat, dif_pos hn]
  exact UInt32.toNat_ofNatLT

end AnalyzerBridge.Text.Utf8
