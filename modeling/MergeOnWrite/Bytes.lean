/-
Byte strings: the keys and values of the transactional store.

Byte strings are ordered lexicographically, which is the order of every
listing of the store. A prefix scan reads a half-open interval of that
order, `KeyRange.extending`: the keys that extend a byte string lie
between the string itself and its successor among the byte strings that
are not extensions of it.
-/

namespace MergeOnWrite

abbrev Bytes := List UInt8

namespace Bytes

/-- The UTF-8 encoding of a text. -/
def ofText (text : String) : Bytes := text.toUTF8.data.toList

/-- The text that a byte string encodes in UTF-8, if it encodes one. -/
def toText? (bytes : Bytes) : Option String :=
  String.fromUTF8? ⟨bytes.toArray⟩

/-- Encoding and then reading gives the text back. -/
theorem toText?_ofText (text : String) : toText? (ofText text) = some text := by
  have h : (⟨(ofText text).toArray⟩ : ByteArray) = text.toByteArray := rfl
  unfold toText?
  rw [h]
  simp [String.fromUTF8?, text.isValidUTF8, String.fromUTF8]

/-- A text is determined by its encoding. -/
theorem ofText_inj {a b : String} (h : ofText a = ofText b) : a = b := by
  have hb := toText?_ofText b
  rw [← h, toText?_ofText] at hb
  exact Option.some.inj hb

/-- A byte string that reads as a text is the encoding of that text. -/
theorem eq_ofText_of_toText? {bytes : Bytes} {text : String}
    (h : toText? bytes = some text) : bytes = ofText text := by
  unfold toText? String.fromUTF8? at h
  split at h
  · obtain rfl := Option.some.inj h
    simp [ofText, String.fromUTF8]
  · cases h

/-- The least byte string above every extension of the given one: its
trailing `0xFF` bytes are dropped and the last byte left is incremented.
Nothing lies above the extensions of a string of `0xFF` bytes alone. -/
def above? : Bytes → Option Bytes
  | [] => none
  | b :: rest =>
    match above? rest with
    | some up => some (b :: up)
    | none => if b = 0xFF then none else some [b + 1]

end Bytes

/-- An interval of keys: from `lower` on, and below `upper` if there is
one. -/
structure KeyRange where
  lower : Bytes
  upper : Option Bytes
deriving DecidableEq, Repr

namespace KeyRange

/-- The interval of the keys that extend `stem`. -/
def extending (stem : Bytes) : KeyRange := ⟨stem, stem.above?⟩

/-- True when a key lies within the interval. -/
def contains (range : KeyRange) (key : Bytes) : Bool :=
  (compare range.lower key).isLE
    && range.upper.all fun upper => compare key upper == .lt

end KeyRange

end MergeOnWrite
