import Mathlib.Data.List.GetD
import Mathlib.Data.Nat.Init

namespace Lib
namespace Base64

def alphabet : List Char :=
  "ABCDEFGHIJKLMNOPQRSTUVWXYZabcdefghijklmnopqrstuvwxyz0123456789+/".toList

def digit (n : Nat) : Char := alphabet.getD n '='

def value (c : Char) : Option Nat := alphabet.idxOf? c

/-- The bytes of a full group of four digits. -/
def three (x y z w : Nat) : List UInt8 :=
  [.ofNat (x * 4 + y / 16), .ofNat (y % 16 * 16 + z / 4), .ofNat (z % 4 * 64 + w)]

/-- A last group with one byte or two; the bits that are left over must be zero. -/
def last (a b c : Char) : Option (List UInt8) := do
  let x ← value a
  let y ← value b
  if c = '=' then
    if y % 16 = 0 then return [.ofNat (x * 4 + y / 16)] else failure
  else
    let z ← value c
    if z % 4 = 0 then return [.ofNat (x * 4 + y / 16), .ofNat (y % 16 * 16 + z / 4)] else failure

/-- Standard decoding: the padding is required, and only allowed at the end. -/
def decode : List Char → Option (List UInt8)
  | [] => some []
  | a :: b :: c :: d :: rest =>
    if d = '=' then if rest = [] then last a b c else none
    else do
      let x ← value a
      let y ← value b
      let z ← value c
      let w ← value d
      let bytes ← decode rest
      return three x y z w ++ bytes
  | _ => none

def encode : List UInt8 → List Char
  | [] => []
  | [x] => [digit (x.toNat / 4), digit (x.toNat % 4 * 16), '=', '=']
  | [x, y] =>
    [digit (x.toNat / 4), digit (x.toNat % 4 * 16 + y.toNat / 16), digit (y.toNat % 16 * 4), '=']
  | x :: y :: z :: rest =>
    digit (x.toNat / 4) :: digit (x.toNat % 4 * 16 + y.toNat / 16) ::
      digit (y.toNat % 16 * 4 + z.toNat / 64) :: digit (z.toNat % 64) :: encode rest

theorem value_digit : ∀ n < 64, value (digit n) = some n := by decide +kernel

theorem digit_ne_pad : ∀ n < 64, digit n ≠ '=' := by decide +kernel

theorem of_value {c : Char} {n : Nat} (h : value c = some n) : n < 64 ∧ digit n = c := by
  obtain ⟨hlt, hget, -⟩ := List.idxOf?_eq_some_iff.mp h
  have hlength : alphabet.length = 64 := by decide +kernel
  refine ⟨hlength ▸ hlt, ?_⟩
  rw [digit, List.getD_eq_getElem _ _ hlt]
  exact hget

section
variable {x y z : UInt8} {bytes : List UInt8} {cs : List Char} {a b c : Char}

/-- The bounds of what a byte is cut into. -/
theorem cut_lt (x y : UInt8) : x.toNat / 4 < 64 ∧ x.toNat % 4 * 16 + y.toNat / 16 < 64 ∧
    x.toNat % 16 * 4 + y.toNat / 64 < 64 ∧ x.toNat % 64 < 64 := by
  have hx := x.toNat_lt
  have hy := y.toNat_lt
  omega

theorem ofNat_eq {n : Nat} (h : n = x.toNat) : UInt8.ofNat n = x := by
  rw [h, UInt8.ofNat_toNat]

theorem three_cut : three (x.toNat / 4) (x.toNat % 4 * 16 + y.toNat / 16)
    (y.toNat % 16 * 4 + z.toNat / 64) (z.toNat % 64) = [x, y, z] := by
  have hx := x.toNat_lt
  have hy := y.toNat_lt
  have hz := z.toNat_lt
  rw [three, ofNat_eq (x := x) (by omega), ofNat_eq (x := y) (by omega),
    ofNat_eq (x := z) (by omega)]

theorem last_one : last (digit (x.toNat / 4)) (digit (x.toNat % 4 * 16)) '=' = some [x] := by
  have hx := x.toNat_lt
  rw [last, value_digit _ (by omega), value_digit _ (by omega)]
  simp only [Option.bind_eq_bind, Option.bind_some, if_true]
  rw [if_pos (by omega), ofNat_eq (x := x) (by omega)]
  rfl

theorem last_two : last (digit (x.toNat / 4)) (digit (x.toNat % 4 * 16 + y.toNat / 16))
    (digit (y.toNat % 16 * 4)) = some [x, y] := by
  have hx := x.toNat_lt
  have hy := y.toNat_lt
  rw [last, value_digit _ (by omega), value_digit _ (by omega), value_digit _ (by omega)]
  simp only [Option.bind_eq_bind, Option.bind_some]
  rw [if_neg (digit_ne_pad _ (by omega)), if_pos (by omega), ofNat_eq (x := x) (by omega),
    ofNat_eq (x := y) (by omega)]
  rfl

/-- What is encoded decodes to the same bytes. -/
theorem decode_encode (bytes : List UInt8) : decode (encode bytes) = some bytes := by
  induction bytes using encode.induct with
  | case1 => rfl
  | case2 x => rw [encode, decode, if_pos rfl, if_pos rfl, last_one]
  | case3 x y => rw [encode, decode, if_pos rfl, if_pos rfl, last_two]
  | case4 x y z rest ih =>
    obtain ⟨h0, h1, -, -⟩ := cut_lt x y
    obtain ⟨-, -, h2, -⟩ := cut_lt y z
    obtain ⟨-, -, -, h3⟩ := cut_lt z z
    rw [encode, decode, if_neg (digit_ne_pad _ h3), value_digit _ h0, value_digit _ h1,
      value_digit _ h2, value_digit _ h3, ih]
    simp only [Option.bind_eq_bind, Option.bind_some, three_cut]
    rfl

theorem toNat_ofNat {n : Nat} (h : n < 256) : (UInt8.ofNat n).toNat = n := by
  rw [UInt8.toNat_ofNat', Nat.mod_eq_of_lt h]

/-- What decodes at the end of a text is an encoding. -/
theorem encode_of_last (h : last a b c = some bytes) : encode bytes = [a, b, c, '='] := by
  simp only [last, Option.bind_eq_bind, Option.bind_eq_some_iff] at h
  obtain ⟨x, hx, y, hy, h⟩ := h
  obtain ⟨hx, rfl⟩ := of_value hx
  obtain ⟨hy, rfl⟩ := of_value hy
  split at h
  · subst c
    split at h
    · cases h
      rw [encode, toNat_ofNat (by omega)]
      have h0 : (x * 4 + y / 16) / 4 = x := by omega
      have h1 : (x * 4 + y / 16) % 4 * 16 = y := by omega
      rw [h0, h1]
    · cases h
  · rw [Option.bind_eq_some_iff] at h
    obtain ⟨z, hz, h⟩ := h
    obtain ⟨hz, rfl⟩ := of_value hz
    split at h
    · cases h
      rw [encode, toNat_ofNat (by omega), toNat_ofNat (by omega)]
      have h0 : (x * 4 + y / 16) / 4 = x := by omega
      have h1 : (x * 4 + y / 16) % 4 * 16 + (y % 16 * 16 + z / 4) / 16 = y := by omega
      have h2 : (y % 16 * 16 + z / 4) % 16 * 4 = z := by omega
      rw [h0, h1, h2]
    · cases h

/-- What decodes is the encoding of the bytes, so each has one text. -/
theorem encode_of_decode (h : decode cs = some bytes) : encode bytes = cs := by
  induction cs using decode.induct generalizing bytes with
  | case1 =>
    cases h
    rfl
  | case2 a b c =>
    rw [decode, if_pos rfl, if_pos rfl] at h
    exact encode_of_last h
  | case3 a b c rest hrest =>
    rw [decode, if_pos rfl, if_neg hrest] at h
    cases h
  | case4 a b c d rest hd ih =>
    rw [decode, if_neg hd] at h
    simp only [Option.bind_eq_bind, Option.bind_eq_some_iff] at h
    obtain ⟨x, hx, y, hy, z, hz, w, hw, tail, htail, h⟩ := h
    cases h
    obtain ⟨hx, rfl⟩ := of_value hx
    obtain ⟨hy, rfl⟩ := of_value hy
    obtain ⟨hz, rfl⟩ := of_value hz
    obtain ⟨hw, rfl⟩ := of_value hw
    rw [three]
    simp only [List.cons_append, List.nil_append, encode]
    rw [toNat_ofNat (by omega), toNat_ofNat (by omega), toNat_ofNat (by omega), ih htail]
    have h0 : (x * 4 + y / 16) / 4 = x := by omega
    have h1 : (x * 4 + y / 16) % 4 * 16 + (y % 16 * 16 + z / 4) / 16 = y := by omega
    have h2 : (y % 16 * 16 + z / 4) % 16 * 4 + (z % 4 * 64 + w) / 64 = z := by omega
    have h3 : (z % 4 * 64 + w) % 64 = w := by omega
    rw [h0, h1, h2, h3]
  | case5 cs hnil hgroup =>
    rw [decode.eq_3 cs hnil hgroup] at h
    cases h

theorem decode_eq_some_iff : decode cs = some bytes ↔ cs = encode bytes :=
  ⟨fun h => (encode_of_decode h).symm, fun h => h ▸ decode_encode bytes⟩

end
/-- Every character of an encoded text is a digit or padding. -/
theorem mem_encode {c : Char} (h : c ∈ encode bytes) : c = '=' ∨ ∃ n < 64, c = digit n := by
  induction bytes using encode.induct with
  | case1 => cases h
  | case2 x =>
    obtain ⟨hx, -⟩ := cut_lt x x
    simp only [encode, List.mem_cons, List.not_mem_nil, or_false, or_self] at h
    rcases h with rfl | rfl | rfl
    · exact .inr ⟨_, hx, rfl⟩
    · exact .inr ⟨_, by omega, rfl⟩
    · exact .inl rfl
  | case3 x y =>
    have hy := y.toNat_lt
    obtain ⟨hx, hxy, -⟩ := cut_lt x y
    simp only [encode, List.mem_cons, List.not_mem_nil, or_false] at h
    rcases h with rfl | rfl | rfl | rfl
    · exact .inr ⟨_, hx, rfl⟩
    · exact .inr ⟨_, hxy, rfl⟩
    · exact .inr ⟨_, by omega, rfl⟩
    · exact .inl rfl
  | case4 x y z rest ih =>
    have hz := z.toNat_lt
    obtain ⟨hx, hxy, -⟩ := cut_lt x y
    simp only [encode, List.mem_cons] at h
    rcases h with rfl | rfl | rfl | rfl | h
    · exact .inr ⟨_, hx, rfl⟩
    · exact .inr ⟨_, hxy, rfl⟩
    · exact .inr ⟨_, by omega, rfl⟩
    · exact .inr ⟨_, by omega, rfl⟩
    · exact ih h

theorem encode_inj {other : List UInt8} (h : encode bytes = encode other) : bytes = other := by
  have hdecoded := decode_encode bytes
  rw [h, decode_encode] at hdecoded
  exact (Option.some.inj hdecoded).symm

end Base64
end Lib
