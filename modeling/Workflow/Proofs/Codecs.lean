import Workflow.Artifact.Codec
import Mathlib.Algebra.Group.Nat.Defs
import Mathlib.Data.List.Basic

/-!
# What a codec wrote is read back

A codec restores a value if it reads the value back from the front of any bytes that
begin with what it wrote for the value, and leaves exactly the bytes behind. Values
that are restored can stand one after another, so each combinator restores what is made
of restored parts.

The number of bytes of a text and the number of items of a list are written in at most
eight bytes. A codec is lawful if it restores every value whose written form is shorter
than the bytes that eight bytes can count, and if it writes at least one byte for every
value: a list then has no more items than bytes, so that the one bound covers all
numbers in a value, at any depth.
-/

namespace Workflow.Codec

/-- So many bytes cannot be counted in a word of eight bytes. -/
def countLimit : Nat := 18446744073709551616

/-- The codec reads the value back, whatever bytes follow it. -/
def Restores {α : Type} (codec : Codec α) (value : α) : Prop :=
  ∀ rest, codec.decode (codec.encode value ++ rest) = .ok (value, rest)

/-- The codec restores every value whose bytes can be counted, and writes some byte. -/
structure Lawful {α : Type} (codec : Codec α) : Prop where
  restores : ∀ value, (codec.encode value).length < countLimit → codec.Restores value
  filled : ∀ value, 0 < (codec.encode value).length

/-- As many bytes as were written come off the front again. -/
theorem splitBytes_append (front rest : List UInt8) :
    splitBytes front.length (front ++ rest) = .ok (front, rest) := by
  induction front with
  | nil => rfl
  | cons byte front inductionHypothesis =>
    simp only [List.length_cons, List.cons_append, splitBytes, inductionHypothesis]

/-- A number is written in the bytes asked for. -/
theorem length_littleEndian (count n : Nat) : (littleEndian count n).length = count := by
  induction count generalizing n with
  | zero => rfl
  | succ count inductionHypothesis => rw [littleEndian, List.length_cons, inductionHypothesis]

/-- Bytes enough for a number stand for it. -/
theorem ofLittleEndian_littleEndian (count n : Nat) (fits : n < 256 ^ count) :
    ofLittleEndian (littleEndian count n) = n := by
  induction count generalizing n with
  | zero =>
    rw [Nat.pow_zero] at fits
    rw [littleEndian, ofLittleEndian]
    omega
  | succ count inductionHypothesis =>
    have higher : n / 256 < 256 ^ count := by
      rw [Nat.pow_succ] at fits
      omega
    rw [littleEndian, ofLittleEndian, inductionHypothesis (n / 256) higher, UInt8.toNat_ofNat']
    omega

/-- A number in so many bytes is read back. -/
theorem decodeWide_littleEndian (count n : Nat) (fits : n < 256 ^ count) (rest : List UInt8) :
    decodeWide count (littleEndian count n ++ rest) = .ok (n, rest) := by
  have split := splitBytes_append (littleEndian count n) rest
  rw [length_littleEndian] at split
  simp only [decodeWide, split, ofLittleEndian_littleEndian count n fits]

/-- A number is read back if it fits into the bytes that the reader admits: every number
of four bytes, and of eight bytes if the reader admits so many. -/
theorem decodeNumber_encodeNumber (widest n : Nat) (counted : n < countLimit)
    (admitted : n < 4294967296 ∨ 8 ≤ widest) (rest : List UInt8) :
    decodeNumber widest (encodeNumber n ++ rest) = .ok (n, rest) := by
  unfold countLimit at counted
  rw [encodeNumber]
  -- One case for each width; only the widest asks what the reader admits.
  split
  · have byte : (UInt8.ofNat n).toNat = n := by
      rw [UInt8.toNat_ofNat']
      omega
    have small : (UInt8.ofNat n).toNat < 251 := by omega
    rw [List.singleton_append, decodeNumber, if_pos small, byte]
  · split
    · exact decodeWide_littleEndian 2 n (by omega) rest
    · split
      · exact decodeWide_littleEndian 4 n (by omega) rest
      · have wide : 8 ≤ widest := by omega
        have read := decodeWide_littleEndian 8 n (by omega) rest
        simpa [decodeNumber, wide] using read

/-- A written number takes some byte. -/
theorem length_encodeNumber_pos (n : Nat) : 0 < (encodeNumber n).length := by
  rw [encodeNumber]
  split
  · simp
  · split
    · simp
    · split <;> simp

/-- A number below 4294967296 is restored. -/
theorem word32_restores (n : Nat) (fits : n < 4294967296) : word32.Restores n := by
  intro rest
  have counted : n < countLimit := by
    unfold countLimit
    omega
  exact decodeNumber_encodeNumber 4 n counted (Or.inl fits) rest

/-- A truth value is restored from its byte. -/
theorem bool_lawful : bool.Lawful where
  restores truth _ rest := by cases truth <;> rfl
  filled truth := by cases truth <;> simp [bool]

/-- The bytes of a text stand for the text. -/
theorem fromUTF8?_toUTF8 (text : String) : String.fromUTF8? text.toUTF8 = some text := by
  rw [String.fromUTF8?, String.toUTF8_eq_toByteArray, dif_pos text.isValidUTF8]
  rfl

/-- A text is restored. -/
theorem text_lawful : text.Lawful where
  restores value counted rest := by
    have size : value.toUTF8.data.toList.length = value.toUTF8.size := Array.length_toList
    have fits : value.toUTF8.size < countLimit := by
      simp only [text, List.length_append] at counted
      omega
    have number := decodeNumber_encodeNumber 8 _ fits (Or.inr (Nat.le_refl 8))
      (value.toUTF8.data.toList ++ rest)
    have split := splitBytes_append value.toUTF8.data.toList rest
    rw [size] at split
    have whole : String.fromUTF8? ⟨value.toUTF8.data.toList.toArray⟩ = some value :=
      fromUTF8?_toUTF8 value
    simp only [text, List.append_assoc, number, split, whole, bind, Except.bind, pure, Except.pure]
  filled value := by
    have number := length_encodeNumber_pos value.toUTF8.size
    simp only [text, List.length_append]
    omega

section

variable {α β : Type} {codec : Codec α} {second : Codec β}

/-- Restored values are restored one after the other. -/
theorem Restores.pair {value : α × β} (front : codec.Restores value.1)
    (back : second.Restores value.2) : (pair codec second).Restores value := by
  intro rest
  have first := front (second.encode value.2 ++ rest)
  have behind := back rest
  simp only [Codec.pair, List.append_assoc, first, behind]

/-- Two values are restored one after the other. -/
theorem Lawful.pair (front : codec.Lawful) (back : second.Lawful) :
    (pair codec second).Lawful where
  restores value counted := by
    simp only [Codec.pair, List.length_append] at counted
    exact Restores.pair (front.restores value.1 (by omega)) (back.restores value.2 (by omega))
  filled value := by
    have byte := front.filled value.1
    simp only [Codec.pair, List.length_append]
    omega

/-- A value that may be absent is restored with its marker. -/
theorem Lawful.option (lawful : codec.Lawful) : (option codec).Lawful where
  restores value counted rest := by
    cases value with
    | none => rfl
    | some value =>
      simp only [Codec.option, List.length_cons] at counted
      have inner := lawful.restores value (by omega) rest
      simp [Codec.option, inner]
  filled value := by cases value <;> simp [Codec.option]

/-- As many restored items as were written are read back. -/
theorem decodeItems_flatMap (values : List α)
    (restored : ∀ value ∈ values, codec.Restores value) (rest : List UInt8) :
    decodeItems codec values.length (values.flatMap codec.encode ++ rest) = .ok (values, rest) := by
  induction values with
  | nil => rfl
  | cons value values inductionHypothesis =>
    obtain ⟨first, others⟩ := List.forall_mem_cons.mp restored
    have item := first (values.flatMap codec.encode ++ rest)
    have items := inductionHypothesis others
    simp only [List.length_cons, List.flatMap_cons, List.append_assoc, decodeItems, item, items]

/-- A list takes at least one byte an item. -/
theorem length_le_flatMap (lawful : codec.Lawful) (values : List α) :
    values.length ≤ (values.flatMap codec.encode).length := by
  induction values with
  | nil => simp
  | cons value values inductionHypothesis =>
    have byte := lawful.filled value
    simp only [List.flatMap_cons, List.length_append, List.length_cons]
    omega

/-- A list is restored with the number of its items. -/
theorem Lawful.list (lawful : codec.Lawful) : (list codec).Lawful where
  restores values counted rest := by
    simp only [Codec.list, List.length_append] at counted
    have items := length_le_flatMap lawful values
    have restored : ∀ value ∈ values, codec.Restores value := by
      intro value member
      have part := (List.sublist_flatten_of_mem
        (List.mem_map_of_mem (f := codec.encode) member)).length_le
      rw [← List.flatMap_def] at part
      exact lawful.restores value (by omega)
    simp only [Codec.list, List.append_assoc,
      decodeNumber_encodeNumber 8 _ (Nat.lt_of_le_of_lt items (by omega))
        (Or.inr (Nat.le_refl 8)), decodeItems_flatMap values restored]
  filled values := by
    have number := length_encodeNumber_pos values.length
    simp only [Codec.list, List.length_append]
    omega

/-- Corresponding values are restored as the values they are written as. -/
theorem Lawful.convert (lawful : codec.Lawful) (into : β → α) (back : α → β)
    (inverse : ∀ value, back (into value) = value) : (codec.convert into back).Lawful where
  restores value counted rest := by
    have inner := lawful.restores (into value) counted rest
    simp only [Codec.convert, inner, inverse]
  filled value := lawful.filled (into value)

end

end Workflow.Codec
