import Mathlib.Tactic.Common

/-!
# Byte indices of a text

A text is stored as the UTF-8 encodings of its characters, and an operation that cuts it takes a
byte index. It can only cut between two characters; anywhere else it aborts.

- `cutAt_eq_some`: what a cut gives, and when.
- `isSome_cutAt_findIdx`: the first byte outside a class of ASCII bytes starts a character.
-/

namespace Utf8

def bytes (s : List Char) : List UInt8 := s.flatMap String.utf8EncodeChar

def size (s : List Char) : Nat := (bytes s).length

/-- Cut the text at a byte index; `none`: the index is inside a character, or after the end. -/
def cutAt : List Char → Nat → Option (List Char × List Char)
  | s, 0 => some ([], s)
  | [], _ + 1 => none
  | c :: s, i + 1 =>
    if c.utf8Size ≤ i + 1 then
      (cutAt s (i + 1 - c.utf8Size)).map fun (a, b) => (c :: a, b)
    else none

@[simp] theorem size_nil : size [] = 0 := rfl

@[simp] theorem size_cons (c : Char) (s : List Char) : size (c :: s) = c.utf8Size + size s := by
  simp [size, bytes]

@[simp] theorem size_append (a b : List Char) : size (a ++ b) = size a + size b := by
  simp [size, bytes]

theorem size_eq_zero {s : List Char} : size s = 0 ↔ s = [] := by
  cases s with
  | nil => simp
  | cons c s => simp [Nat.ne_of_gt c.utf8Size_pos]

theorem cutAt_eq_some {s a b : List Char} {i : Nat} :
    cutAt s i = some (a, b) ↔ s = a ++ b ∧ size a = i := by
  induction s, i using cutAt.induct generalizing a b with
  | case1 s =>
    rw [size_eq_zero]
    simp only [cutAt, Option.some.injEq, Prod.mk.injEq]
    constructor
    · rintro ⟨rfl, rfl⟩; exact ⟨rfl, rfl⟩
    · rintro ⟨h, rfl⟩; exact ⟨rfl, h⟩
  | case2 i =>
    simp only [cutAt, reduceCtorEq, false_iff]
    rintro ⟨h, hi⟩
    obtain ⟨rfl, rfl⟩ := List.nil_eq_append_iff.mp h
    simp at hi
  | case3 c s i h ih =>
    simp only [cutAt, h, if_true, Option.map_eq_some_iff, Prod.exists]
    constructor
    · rintro ⟨a', b', hcut, heq⟩
      obtain ⟨rfl, rfl⟩ := Prod.mk.inj heq
      obtain ⟨rfl, hsize⟩ := ih.mp hcut
      exact ⟨rfl, by rw [size_cons]; omega⟩
    · rintro ⟨hs, hsize⟩
      cases a with
      | nil => simp at hsize
      | cons d a =>
        obtain ⟨rfl, rfl⟩ := List.cons.inj hs
        rw [size_cons] at hsize
        exact ⟨a, b, ih.mpr ⟨rfl, by omega⟩, rfl⟩
  | case4 c s i h =>
    simp only [cutAt, h, if_false, reduceCtorEq, false_iff]
    rintro ⟨hs, hsize⟩
    cases a with
    | nil => simp at hsize
    | cons d a =>
      obtain ⟨rfl, rfl⟩ := List.cons.inj hs
      rw [size_cons] at hsize
      omega

theorem isSome_cutAt {s : List Char} {i : Nat} :
    (cutAt s i).isSome ↔ ∃ a b, s = a ++ b ∧ size a = i := by
  simp [Option.isSome_iff_exists, cutAt_eq_some]

theorem le_ofNat {n : Nat} (h : 128 ≤ n % 256) : (128 : UInt8) ≤ UInt8.ofNat n := by
  rw [UInt8.le_iff_toNat_le, UInt8.toNat_ofNat']
  exact h

/-- The encoding of a character is one byte, or starts with a byte that is not ASCII. -/
theorem utf8EncodeChar_cases (c : Char) :
    (∃ b, String.utf8EncodeChar c = [b] ∧ c.utf8Size = 1) ∨
      ∃ b rest, String.utf8EncodeChar c = b :: rest ∧ 128 ≤ b := by
  rw [← String.length_utf8EncodeChar]
  simp only [String.utf8EncodeChar]
  split_ifs
  · exact .inl ⟨_, rfl, rfl⟩
  all_goals exact .inr ⟨_, _, rfl, le_ofNat (by omega)⟩

/-- The first byte outside a class of ASCII bytes starts a character. -/
theorem isSome_cutAt_findIdx {p : UInt8 → Bool} (hp : ∀ b, p b = true → b < 128) {s : List Char}
    {i : Nat} (h : (bytes s).findIdx? (fun b => !p b) = some i) : (cutAt s i).isSome := by
  induction s generalizing i with
  | nil => simp [bytes] at h
  | cons c s ih =>
    have hbytes : bytes (c :: s) = String.utf8EncodeChar c ++ bytes s := List.flatMap_cons
    obtain ⟨b, henc, hone⟩ | ⟨b, rest, henc, hb⟩ := utf8EncodeChar_cases c
    · rw [hbytes, henc, List.singleton_append, List.findIdx?_cons] at h
      cases hpb : p b
      · obtain rfl : 0 = i := by simpa [hpb] using h
        simp [cutAt]
      · obtain ⟨j, hj, rfl⟩ : ∃ j, (bytes s).findIdx? (fun b => !p b) = some j ∧ j + 1 = i := by
          simpa [hpb] using h
        obtain ⟨a, b', rfl, hsize⟩ := isSome_cutAt.mp (ih hj)
        exact isSome_cutAt.mpr ⟨c :: a, b', rfl, by rw [size_cons, hone, hsize]; omega⟩
    · have hpb : p b = false := by
        rw [Bool.eq_false_iff]
        exact fun hpb => absurd (hp b hpb) (UInt8.not_lt.mpr hb)
      rw [hbytes, henc, List.cons_append, List.findIdx?_cons] at h
      obtain rfl : 0 = i := by simpa [hpb] using h
      simp [cutAt]

theorem utf8Size_toUpper (c : Char) : c.toUpper.utf8Size = c.utf8Size := by
  unfold Char.toUpper
  split
  · next h =>
    -- Both characters are ASCII.
    obtain ⟨ha, hz⟩ := h
    rw [UInt32.le_iff_toNat_le] at ha hz
    change 97 ≤ _ at ha
    change _ ≤ 122 at hz
    have hc : c.utf8Size = 1 := by
      rw [Char.utf8Size_eq_one_iff, UInt32.le_iff_toNat_le]
      change _ ≤ 127
      omega
    rw [hc, Char.utf8Size_eq_one_iff, UInt32.le_iff_toNat_le, UInt32.toNat_add]
    change (_ + 4294967264) % 4294967296 ≤ 127
    omega
  · rfl

/-- A text in upper case has the same byte indices. -/
theorem size_map_toUpper (s : List Char) : size (s.map Char.toUpper) = size s := by
  induction s with
  | nil => rfl
  | cons c s ih => rw [List.map_cons, size_cons, size_cons, utf8Size_toUpper, ih]

theorem cutAt_map_toUpper (s : List Char) (i : Nat) :
    cutAt (s.map Char.toUpper) i =
      (cutAt s i).map fun (a, b) => (a.map Char.toUpper, b.map Char.toUpper) := by
  induction s, i using cutAt.induct with
  | case1 s => simp [cutAt]
  | case2 i => simp [cutAt]
  | case3 c s i h ih =>
    simp only [List.map_cons, cutAt, utf8Size_toUpper, h, if_true, ih, Option.map_map]
    rfl
  | case4 c s i h => simp [cutAt, utf8Size_toUpper, h]

end Utf8
