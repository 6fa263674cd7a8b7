import Mathlib.Data.List.Basic

/-!
# A tagged binary wire format

A message is a concatenation of fields. A field is a tag, which packs a field
number with a wire type, followed by a value of that type. Only length-delimited
values are written here; the reader also accepts plain numbers and fixed-width
words, and refuses everything else. Reading what was written gives the fields
back, and reading a concatenation gives the concatenated fields.
-/

namespace Notebook
namespace Wire

/-- Value of one field, by wire type. -/
inductive Value
  | number (n : Nat)
  | word64 (bytes : List UInt8)
  | delimited (bytes : List UInt8)
  | word32 (bytes : List UInt8)
  deriving DecidableEq, Repr

/-- One field of a message. -/
structure Field where
  /-- Field number. -/
  number : Nat
  /-- Field value. -/
  value : Value
  deriving DecidableEq, Repr

/-! ## Numbers -/

/-- Base-128 digits, lowest first, with the high bit set on all but the last. -/
def writeNumber (n : Nat) : List UInt8 :=
  if n < 128 then [UInt8.ofNat n]
  else UInt8.ofNat (128 + n % 128) :: writeNumber (n / 128)
termination_by n
decreasing_by omega

/-- Read one number and return the bytes after it. -/
def readNumber : List UInt8 → Option (Nat × List UInt8)
  | [] => none
  | digit :: bytes =>
      if digit.toNat < 128 then some (digit.toNat, bytes)
      else (readNumber bytes).map fun (high, rest) =>
        (128 * high + digit.toNat % 128, rest)

theorem readNumber_writeNumber (n : Nat) (rest : List UInt8) :
    readNumber (writeNumber n ++ rest) = some (n, rest) := by
  induction n using Nat.strongRecOn with
  | ind n inductionHypothesis =>
      rw [writeNumber]
      by_cases small : n < 128
      · have digit : (UInt8.ofNat n).toNat = n := by
          rw [UInt8.toNat_ofNat']
          omega
        simp [small, readNumber, digit]
      · have digit : (UInt8.ofNat (128 + n % 128)).toNat = 128 + n % 128 := by
          rw [UInt8.toNat_ofNat']
          omega
        have high := inductionHypothesis (n / 128) (by omega)
        have large : ¬ 128 + n % 128 < 128 := by omega
        have value : 128 * (n / 128) + (128 + n % 128) % 128 = n := by omega
        rw [if_neg small, List.cons_append, readNumber, digit, if_neg large,
          high, Option.map_some]
        simp only [value]

theorem length_lt_of_readNumber
    {bytes rest : List UInt8}
    {n : Nat}
    (read : readNumber bytes = some (n, rest)) :
    rest.length < bytes.length := by
  induction bytes generalizing n rest with
  | nil => simp [readNumber] at read
  | cons digit bytes inductionHypothesis =>
      rw [readNumber] at read
      split at read
      · simp only [Option.some.injEq, Prod.mk.injEq] at read
        simp [read.2]
      · obtain ⟨⟨high, tail⟩, found, equal⟩ := Option.map_eq_some_iff.mp read
        have shorter := inductionHypothesis found
        simp only [Prod.mk.injEq] at equal
        rw [← equal.2, List.length_cons]
        omega

/-! ## Fields -/

/-- Write a length-delimited field. -/
def writeField (number : Nat) (bytes : List UInt8) : List UInt8 :=
  writeNumber (8 * number + 2) ++ (writeNumber bytes.length ++ bytes)

/-- Take a number of bytes, all of which must be there. -/
def takeExactly (count : Nat) (bytes : List UInt8) :
    Option (List UInt8 × List UInt8) :=
  if bytes.length < count then none
  else some (bytes.take count, bytes.drop count)

/-- Read the value of a field of a given wire type. -/
def readValue (wireType : Nat) (bytes : List UInt8) :
    Option (Value × List UInt8) :=
  match wireType with
  | 0 => (readNumber bytes).map fun (n, rest) => (.number n, rest)
  | 1 => (takeExactly 8 bytes).map fun (word, rest) => (.word64 word, rest)
  | 2 => (readNumber bytes).bind fun (count, rest) =>
      (takeExactly count rest).map fun (value, rest) => (.delimited value, rest)
  | 5 => (takeExactly 4 bytes).map fun (word, rest) => (.word32 word, rest)
  | _ => none

/-- Read one field. Field number zero is not allowed. -/
def readField (bytes : List UInt8) : Option (Field × List UInt8) :=
  (readNumber bytes).bind fun (tag, rest) =>
    if tag / 8 = 0 then none
    else (readValue (tag % 8) rest).map fun (value, rest) => (⟨tag / 8, value⟩, rest)

/-- Read fields until the bytes are used up. -/
def readFieldsWithin : Nat → List UInt8 → Option (List Field)
  | _, [] => some []
  | 0, _ :: _ => none
  | fuel + 1, byte :: bytes =>
      (readField (byte :: bytes)).bind fun (field, rest) =>
        (readFieldsWithin fuel rest).map (field :: ·)

/-- Read a whole message. Every field takes at least one byte. -/
def readFields (bytes : List UInt8) : Option (List Field) :=
  readFieldsWithin bytes.length bytes

theorem takeExactly_append (bytes rest : List UInt8) :
    takeExactly bytes.length (bytes ++ rest) = some (bytes, rest) := by
  simp [takeExactly]

theorem length_le_of_takeExactly
    {count : Nat}
    {bytes taken rest : List UInt8}
    (read : takeExactly count bytes = some (taken, rest)) :
    rest.length ≤ bytes.length := by
  unfold takeExactly at read
  split at read
  · cases read
  · simp only [Option.some.injEq, Prod.mk.injEq] at read
    rw [← read.2, List.length_drop]
    omega

theorem length_le_of_readValue
    {wireType : Nat}
    {bytes rest : List UInt8}
    {value : Value}
    (read : readValue wireType bytes = some (value, rest)) :
    rest.length ≤ bytes.length := by
  unfold readValue at read
  split at read
  · obtain ⟨⟨n, tail⟩, found, equal⟩ := Option.map_eq_some_iff.mp read
    cases equal
    exact Nat.le_of_lt (length_lt_of_readNumber found)
  · obtain ⟨⟨word, tail⟩, found, equal⟩ := Option.map_eq_some_iff.mp read
    cases equal
    exact length_le_of_takeExactly found
  · obtain ⟨⟨count, tail⟩, found, read⟩ := Option.bind_eq_some_iff.mp read
    obtain ⟨⟨word, tail'⟩, found', equal⟩ := Option.map_eq_some_iff.mp read
    cases equal
    exact Nat.le_trans (length_le_of_takeExactly found')
      (Nat.le_of_lt (length_lt_of_readNumber found))
  · obtain ⟨⟨word, tail⟩, found, equal⟩ := Option.map_eq_some_iff.mp read
    cases equal
    exact length_le_of_takeExactly found
  · cases read

theorem length_lt_of_readField
    {bytes rest : List UInt8}
    {field : Field}
    (read : readField bytes = some (field, rest)) :
    rest.length < bytes.length := by
  obtain ⟨⟨tag, tail⟩, found, read⟩ := Option.bind_eq_some_iff.mp read
  simp only at read
  split at read
  · cases read
  · obtain ⟨⟨value, tail'⟩, found', equal⟩ := Option.map_eq_some_iff.mp read
    cases equal
    exact Nat.lt_of_le_of_lt (length_le_of_readValue found')
      (length_lt_of_readNumber found)

theorem readField_writeField
    {number : Nat}
    (positive : number ≠ 0)
    (bytes rest : List UInt8) :
    readField (writeField number bytes ++ rest) =
      some (⟨number, .delimited bytes⟩, rest) := by
  have numberEq : (8 * number + 2) / 8 = number := by omega
  have typeEq : (8 * number + 2) % 8 = 2 := by omega
  simp only [readField, writeField, List.append_assoc, readNumber_writeNumber,
    Option.bind_some, numberEq, if_neg positive, typeEq, readValue,
    takeExactly_append, Option.map_some]

theorem readFieldsWithin_cons
    (fuel : Nat)
    {bytes rest : List UInt8}
    {field : Field}
    (read : readField bytes = some (field, rest)) :
    readFieldsWithin (fuel + 1) bytes =
      (readFieldsWithin fuel rest).map (field :: ·) := by
  cases bytes with
  | nil =>
      have := length_lt_of_readField read
      simp at this
  | cons byte bytes =>
      rw [readFieldsWithin, read, Option.bind_some]

/-- Enough fuel gives the same answer as any other enough fuel. -/
theorem readFieldsWithin_congr
    {fuel fuel' : Nat}
    {bytes : List UInt8}
    (enough : bytes.length ≤ fuel)
    (enough' : bytes.length ≤ fuel') :
    readFieldsWithin fuel bytes = readFieldsWithin fuel' bytes := by
  induction fuel generalizing bytes fuel' with
  | zero =>
      rw [List.eq_nil_of_length_eq_zero (Nat.le_zero.mp enough)]
      cases fuel' <;> rfl
  | succ fuel inductionHypothesis =>
      cases bytes with
      | nil => cases fuel' <;> rfl
      | cons byte bytes =>
          obtain ⟨fuel', rfl⟩ : ∃ k, fuel' = k + 1 :=
            ⟨fuel' - 1, by simp at enough'; omega⟩
          rw [readFieldsWithin, readFieldsWithin]
          cases read : readField (byte :: bytes) with
          | none => rfl
          | some result =>
              have shorter := length_lt_of_readField read
              simp only [List.length_cons] at shorter enough enough'
              have tail : readFieldsWithin fuel result.2 =
                  readFieldsWithin fuel' result.2 :=
                inductionHypothesis (by omega) (by omega)
              simp only [Option.bind_some, tail]

/-- Reading a field and then the rest of the message. -/
theorem readFields_of_readField
    {bytes rest : List UInt8}
    {field : Field}
    (read : readField bytes = some (field, rest)) :
    readFields bytes = (readFields rest).map (field :: ·) := by
  have shorter := length_lt_of_readField read
  rw [readFields, readFieldsWithin_congr (Nat.le_refl _) (Nat.le_succ _),
    readFieldsWithin_cons _ read, readFields,
    readFieldsWithin_congr (Nat.le_of_lt shorter) (Nat.le_refl _)]

@[simp] theorem readFields_nil : readFields [] = some [] := rfl

/-- A written field is read back in front of the rest of the message. -/
theorem readFields_writeField_append
    {number : Nat}
    (positive : number ≠ 0)
    (bytes rest : List UInt8) :
    readFields (writeField number bytes ++ rest) =
      (readFields rest).map (⟨number, .delimited bytes⟩ :: ·) :=
  readFields_of_readField (readField_writeField positive bytes rest)

/-- Written fields are read back in front of the rest of the message. -/
theorem readFields_flatMap_writeField_append
    {fields : List (Nat × List UInt8)}
    (positive : ∀ field ∈ fields, field.1 ≠ 0)
    (rest : List UInt8) :
    readFields ((fields.flatMap fun field => writeField field.1 field.2) ++ rest) =
      (readFields rest).map
        ((fields.map fun field => ⟨field.1, .delimited field.2⟩) ++ ·) := by
  induction fields with
  | nil => cases read : readFields rest <;> simp [read]
  | cons field fields inductionHypothesis =>
      have tail := inductionHypothesis fun other member =>
        positive other (List.mem_cons_of_mem field member)
      rw [List.flatMap_cons, List.append_assoc,
        readFields_writeField_append (positive field List.mem_cons_self), tail,
        Option.map_map]
      rfl

/-- Written fields are read back. -/
theorem readFields_flatMap_writeField
    {fields : List (Nat × List UInt8)}
    (positive : ∀ field ∈ fields, field.1 ≠ 0) :
    readFields (fields.flatMap fun field => writeField field.1 field.2) =
      some (fields.map fun field => ⟨field.1, .delimited field.2⟩) := by
  have read := readFields_flatMap_writeField_append positive []
  simpa using read

end Wire
end Notebook
