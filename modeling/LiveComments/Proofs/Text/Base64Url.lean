import LiveComments.Text.Base64Url
import Mathlib.Data.List.Basic

namespace LiveComments.Text.Base64Url

theorem digit_congr {n k : Nat} (h : n % 64 = k % 64) : digit n = digit k := by
  rw [digit, digit, h]

theorem value?_digit (n : Nat) : value? (digit n) = some (n % 64) := by
  have hall : ∀ k ∈ List.range 64, value? (digit k) = some k := by decide
  rw [digit_congr (Nat.mod_mod n 64).symm]
  exact hall _ (List.mem_range.mpr (Nat.mod_lt n (by decide)))

theorem digit_of_value? {c : Char} {k : Nat} (h : value? c = some k) : k < 64 ∧ c = digit k := by
  obtain ⟨hk, hc, -⟩ := List.idxOf?_eq_some_iff.mp h
  have hlength : alphabet.length = 64 := by decide
  have hlt : k < 64 := hlength ▸ hk
  refine ⟨hlt, ?_⟩
  rw [digit, Nat.mod_eq_of_lt hlt, List.getD_eq_getElem?_getD, List.getElem?_eq_getElem hk, hc]
  rfl

theorem ofNat_eq {n : Nat} {b : UInt8} (h : n % 256 = b.toNat) : UInt8.ofNat n = b := by
  apply UInt8.toNat.inj
  rw [UInt8.toNat_ofNat', h]

theorem toNat_ofNat (n : Nat) : (UInt8.ofNat n).toNat = n % 256 := UInt8.toNat_ofNat'

theorem toNat_ofNat_of_lt {n : Nat} (h : n < 256) : (UInt8.ofNat n).toNat = n :=
  (toNat_ofNat n).trans (Nat.mod_eq_of_lt h)

theorem decode?_encode (bs : List UInt8) : decode? (encode bs) = some bs := by
  -- By groups of three bytes; the last one may be short.
  fun_induction encode bs with
  | case1 a b c rest n ih =>
    have ha := a.toNat_lt
    have hb := b.toNat_lt
    have hc := c.toNat_lt
    have hn : ((n / 262144 % 64 * 64 + n / 4096 % 64) * 64 + n / 64 % 64) * 64 + n % 64 = n := by omega
    have hfirst : UInt8.ofNat (n / 65536) = a := ofNat_eq (by omega)
    have hsecond : UInt8.ofNat (n / 256) = b := ofNat_eq (by omega)
    have hthird : UInt8.ofNat n = c := ofNat_eq (by omega)
    simp only [decode?, value?_digit, ih, Option.bind_eq_bind, Option.bind_some, hn, hfirst, hsecond,
      hthird]
    rfl
  | case2 a b n =>
    have ha := a.toNat_lt
    have hb := b.toNat_lt
    have hn : (n / 4096 % 64 * 64 + n / 64 % 64) * 64 + n % 64 = n := by omega
    have hloose : n % 4 = 0 := by omega
    have hfirst : UInt8.ofNat (n / 1024) = a := ofNat_eq (by omega)
    have hsecond : UInt8.ofNat (n / 4) = b := ofNat_eq (by omega)
    simp only [decode?, value?_digit, Option.bind_eq_bind, Option.bind_some, hn, hloose, if_true, hfirst,
      hsecond]
  | case3 a n =>
    have ha := a.toNat_lt
    have hn : n / 64 % 64 * 64 + n % 64 = n := by omega
    have hloose : n % 16 = 0 := by omega
    have hfirst : UInt8.ofNat (n / 16) = a := ofNat_eq (by omega)
    simp only [decode?, value?_digit, Option.bind_eq_bind, Option.bind_some, hn, hloose, if_true, hfirst]
  | case4 => rfl

theorem eq_encode_of_decode? {cs : List Char} {bs : List UInt8} (h : decode? cs = some bs) :
    cs = encode bs := by
  fun_induction decode? cs generalizing bs with
  | case1 a b c d rest ih =>
    simp only [Option.bind_eq_bind, Option.bind_eq_some_iff] at h
    obtain ⟨i, hi, j, hj, k, hk, l, hl, tail, htail, h⟩ := h
    obtain ⟨hilt, rfl⟩ := digit_of_value? hi
    obtain ⟨hjlt, rfl⟩ := digit_of_value? hj
    obtain ⟨hklt, rfl⟩ := digit_of_value? hk
    obtain ⟨hllt, rfl⟩ := digit_of_value? hl
    obtain rfl := Option.some.inj h
    rw [encode, ih htail, toNat_ofNat_of_lt (by omega), toNat_ofNat, toNat_ofNat]
    simp only [List.cons.injEq, and_true]
    refine ⟨digit_congr ?_, digit_congr ?_, digit_congr ?_, digit_congr ?_⟩ <;> omega
  | case2 a b c =>
    simp only [Option.bind_eq_bind, Option.bind_eq_some_iff] at h
    obtain ⟨i, hi, j, hj, k, hk, h⟩ := h
    obtain ⟨hilt, rfl⟩ := digit_of_value? hi
    obtain ⟨hjlt, rfl⟩ := digit_of_value? hj
    obtain ⟨hklt, rfl⟩ := digit_of_value? hk
    split at h
    · obtain rfl := Option.some.inj h
      rw [encode, toNat_ofNat_of_lt (by omega), toNat_ofNat]
      simp only [List.cons.injEq, and_true]
      refine ⟨digit_congr ?_, digit_congr ?_, digit_congr ?_⟩ <;> omega
    · cases h
  | case3 a b =>
    simp only [Option.bind_eq_bind, Option.bind_eq_some_iff] at h
    obtain ⟨i, hi, j, hj, h⟩ := h
    obtain ⟨hilt, rfl⟩ := digit_of_value? hi
    obtain ⟨hjlt, rfl⟩ := digit_of_value? hj
    split at h
    · obtain rfl := Option.some.inj h
      rw [encode, toNat_ofNat_of_lt (by omega)]
      simp only [List.cons.injEq, and_true]
      refine ⟨digit_congr ?_, digit_congr ?_⟩ <;> omega
    · cases h
  | case4 a => cases h
  | case5 =>
    obtain rfl := Option.some.inj h
    rfl

theorem decode?_eq_some {cs : List Char} {bs : List UInt8} : decode? cs = some bs ↔ cs = encode bs :=
  ⟨eq_encode_of_decode?, fun h => h ▸ decode?_encode bs⟩

theorem digit_ne_point (n : Nat) : digit n ≠ '.' := by
  intro h
  have hvalue := value?_digit n
  rw [h] at hvalue
  have hnone : value? '.' = none := by decide
  cases hnone.symm.trans hvalue

theorem point_notMem_encode (bs : List UInt8) : '.' ∉ encode bs := by
  have hne (n : Nat) : '.' ≠ digit n := (digit_ne_point n).symm
  fun_induction encode bs with
  | case1 a b c rest n ih =>
    simp only [List.mem_cons, hne, ih, or_self, not_false_eq_true]
  | case2 a b n => simp only [List.mem_cons, hne, List.not_mem_nil, or_self, not_false_eq_true]
  | case3 a n => simp only [List.mem_cons, hne, List.not_mem_nil, or_self, not_false_eq_true]
  | case4 => exact List.not_mem_nil

end LiveComments.Text.Base64Url
