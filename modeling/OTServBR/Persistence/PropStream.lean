import OTServBR.Lib.LittleEndian
import OTServBR.Item.Attributes

/-! # Property streams

`PropWriteStream` appends numbers of fixed width and length-prefixed texts;
`PropStream` reads them back. A read that fails leaves the stream where it
stopped, so a result is either a value with the rest or the position of the
failure.
-/

namespace OTServBR

open LittleEndian

namespace PropWriteStream

def write (size : ℕ) (v : ℕ) : Str := bytes size v

/-- A text too long for its 16-bit length is written as the empty text. -/
def writeString (s : Str) : Str :=
  if s.length > 0xFFFF then write 2 0 else write 2 s.length ++ s

end PropWriteStream

namespace PropStream

/-- A value with the rest of the stream, or the stream a failed read leaves. -/
abbrev Result (α : Type) := Except Str (α × Str)

def read (size : ℕ) (s : Str) : Result ℕ :=
  match LittleEndian.read size s with
  | none => .error s
  | some r => .ok r

def readString (s : Str) : Result Str :=
  match read 2 s with
  | .error s => .error s
  | .ok (strLen, s) =>
    if s.length < strLen then .error s else .ok (s.take strLen, s.drop strLen)

def skip (n : ℕ) (s : Str) : Result Unit :=
  if s.length < n then .error s else .ok ((), s.drop n)

@[simp] theorem read_write (size v : ℕ) (rest : Str) :
    read size (PropWriteStream.write size v ++ rest) = .ok (v % 256 ^ size, rest) := by
  simp [read, PropWriteStream.write]

theorem read_cons (b : UInt8) (s : Str) : read 1 (b :: s) = .ok (b.toNat, s) := by
  simp [read, read_zero_cons]

/-- What `writeString` preserves of a text: all of it, unless it is too long. -/
def fitString (s : Str) : Str := if s.length > 0xFFFF then [] else s

@[simp] theorem readString_writeString (t rest : Str) :
    readString (PropWriteStream.writeString t ++ rest) = .ok (fitString t, rest) := by
  by_cases h : t.length > 0xFFFF
  · simp [readString, PropWriteStream.writeString, fitString, h]
  · have hm : t.length % 65536 = t.length := Nat.mod_eq_of_lt (by omega)
    simp [readString, PropWriteStream.writeString, fitString, h, hm]

theorem length_of_read {size v : ℕ} {s rest : Str} (h : read size s = .ok (v, rest)) :
    rest.length + size = s.length := by
  unfold read at h
  split at h
  · simp at h
  · next r hr =>
    obtain rfl := Except.ok.inj h
    exact LittleEndian.length_of_read hr

theorem length_of_read_error {size : ℕ} {s rest : Str} (h : read size s = .error rest) :
    rest.length ≤ s.length := by
  unfold read at h
  split at h
  · obtain rfl := Except.error.inj h
    exact le_rfl
  · cases h

theorem length_le_of_readString {s t rest : Str} (h : readString s = .ok (t, rest)) :
    rest.length ≤ s.length := by
  unfold readString at h
  split at h
  · simp at h
  · next n s' hr =>
    have hl := length_of_read hr
    split at h
    · simp at h
    · obtain ⟨-, rfl⟩ := Prod.mk.inj (Except.ok.inj h)
      simp only [List.length_drop]
      omega

theorem length_le_of_skip {n : ℕ} {s rest : Str} {u : Unit} (h : skip n s = .ok (u, rest)) :
    rest.length ≤ s.length := by
  unfold skip at h
  split at h
  · simp at h
  · obtain ⟨-, rfl⟩ := Prod.mk.inj (Except.ok.inj h)
    simp

end PropStream

end OTServBR
