import Confine.Proofs.Json.Tokens
import Confine.Uuid

/-!
# Identifiers, read back

* `Uuid.nibbles` — the hexadecimal digits of a half, as numbers;
* `Uuid.halfOf_nibbles` — a half is the number of its digits;
* `Uuid.ofText?_text` — **an identifier is read as it was written**.
-/

namespace Confine.Uuid

def nibbles (half : UInt64) : List Nat := (List.range 16).map fun i => (half.toNat >>> (4 * (15 - i))) % 16

theorem foldl_nibbles {x : Nat} (hx : x < 2 ^ 64) {j : Nat} (hj : j ≤ 16) :
    (List.range j).foldl (fun n i => 16 * n + (x >>> (4 * (15 - i))) % 16) 0 = x >>> (4 * (16 - j)) := by
  induction j with
  | zero => exact (Nat.shiftRight_eq_zero x 64 hx).symm
  | succ j ih =>
    have hshift : x >>> (4 * (16 - j)) = x >>> (4 * (15 - j)) / 16 := by
      rw [show 4 * (16 - j) = 4 * (15 - j) + 4 by omega, Nat.shiftRight_add]
      exact Nat.shiftRight_eq_div_pow _ 4
    rw [List.range_succ, List.foldl_append, ih (by omega), hshift, show 16 - (j + 1) = 15 - j by omega]
    exact Nat.div_add_mod _ 16

theorem halfOf_eq (ds : List Nat) : halfOf ds = UInt64.ofNat (ds.foldl (fun n d => 16 * n + d) 0) := by
  have hfold : ∀ n, ds.foldl (fun n d => 16 * n + UInt64.ofNat d) (UInt64.ofNat n) =
      UInt64.ofNat (ds.foldl (fun n d => 16 * n + d) n) := by
    induction ds with
    | nil => exact fun n => rfl
    | cons d ds ih =>
      intro n
      rw [List.foldl_cons, List.foldl_cons, ← ih, UInt64.ofNat_add, UInt64.ofNat_mul]
      rfl
  exact hfold 0

/-- **A half is the number of its digits.** -/
theorem halfOf_nibbles (half : UInt64) : halfOf (nibbles half) = half := by
  have hvalue := foldl_nibbles half.toNat_lt (Nat.le_refl 16)
  rw [halfOf_eq, nibbles, List.foldl_map, hvalue]
  exact UInt64.ofNat_toNat

theorem mapM_hexValue? {ds : List Nat} (h : ∀ n ∈ ds, n < 16) :
    (ds.map Text.hexDigit).mapM Text.hexValue? = some ds := by
  induction ds with
  | nil => rfl
  | cons d ds ih =>
    obtain ⟨hd, hds⟩ := List.forall_mem_cons.1 h
    simp [Json.hexValue?_hexDigit d hd, ih hds]

theorem digits_eq (u : Uuid) : u.digits = (nibbles u.high ++ nibbles u.low).map Text.hexDigit := by
  simp only [digits, digitsOf, nibbles, List.map_append, List.map_map, Function.comp_def]

/-- **An identifier is read from its digits.** -/
theorem ofDigits?_digits (u : Uuid) : ofDigits? u.digits = some u := by
  have hlt : ∀ n ∈ nibbles u.high ++ nibbles u.low, n < 16 := by
    intro n hn
    simp only [nibbles, List.mem_append, List.mem_map] at hn
    obtain ⟨i, -, rfl⟩ | ⟨i, -, rfl⟩ := hn <;> exact Nat.mod_lt _ (by decide)
  have hhigh : (nibbles u.high ++ nibbles u.low).take 16 = nibbles u.high := List.take_left' (by simp [nibbles])
  have hlow : (nibbles u.high ++ nibbles u.low).drop 16 = nibbles u.low := List.drop_left' (by simp [nibbles])
  have hread := mapM_hexValue? hlt
  rw [← digits_eq] at hread
  have hlength : ¬ u.digits.length ≠ 32 := by simp [digits, digitsOf]
  rw [ofDigits?, if_neg hlength, hread, Option.bind_eq_bind, Option.bind_some, hhigh, hlow, halfOf_nibbles,
    halfOf_nibbles]

/-- **An identifier is read as it was written.** -/
theorem ofText?_text (u : Uuid) : ofText? u.text = some u := by
  have hdigits := ofDigits?_digits u
  rw [ofText?, text, String.toList_ofList]
  -- the hyphens stand in their places whatever the digits are
  unfold digits digitsOf at hdigits ⊢
  generalize (fun i => Text.hexDigit ((u.high.toNat >>> (4 * (15 - i))) % 16)) = high at hdigits ⊢
  generalize (fun i => Text.hexDigit ((u.low.toNat >>> (4 * (15 - i))) % 16)) = low at hdigits ⊢
  have hrange : List.range 16 = [0, 1, 2, 3, 4, 5, 6, 7, 8, 9, 10, 11, 12, 13, 14, 15] := rfl
  rw [hrange] at hdigits ⊢
  simpa [ofHyphenated?] using hdigits

end Confine.Uuid
