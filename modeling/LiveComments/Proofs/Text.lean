import LiveComments.Text.Blank
import LiveComments.Text.Digits
import Mathlib.Algebra.Group.Int.Defs
import Mathlib.Data.List.DropRight

namespace LiveComments.Text

theorem trimStart_of_head {c : Char} {cs : List Char} (h : isBlank c = false) :
    trimStart (c :: cs) = c :: cs :=
  List.dropWhile_cons_of_neg (by simp [h])

theorem trimStart_head {c : Char} {cs ds : List Char} (h : trimStart cs = c :: ds) :
    isBlank c = false := by
  have hn := List.head?_dropWhile_not isBlank cs
  rw [← trimStart, h] at hn
  simpa using hn

theorem trimEnd_head {c d : Char} {cs ds : List Char} (h : trimEnd (c :: cs) = d :: ds) : d = c := by
  have hp : trimEnd (c :: cs) <+: c :: cs := List.rdropWhile_prefix isBlank _
  rw [h, List.cons_prefix_cons] at hp
  exact hp.1

theorem trimStart_trimmed (cs : List Char) :
    trimStart (trimEnd (trimStart cs)) = trimEnd (trimStart cs) := by
  cases hs : trimStart cs with
  | nil => rfl
  | cons c ds =>
    cases he : trimEnd (c :: ds) with
    | nil => rfl
    | cons d es =>
      rw [trimEnd_head he]
      exact trimStart_of_head (trimStart_head hs)

theorem trim_trim (s : String) : trim (trim s) = trim s := by
  have he : trimEnd (trimEnd (trimStart s.toList)) = trimEnd (trimStart s.toList) :=
    List.rdropWhile_idempotent isBlank _
  rw [trim, trim, String.toList_ofList, trimStart_trimmed, he]

theorem blank_trim (s : String) : blank (trim s) = blank s := by
  rw [trim, blank, blank, String.toList_ofList]
  cases hs : trimStart s.toList with
  | nil =>
    have hblank : s.toList.all isBlank = true :=
      List.all_eq_true.mpr (List.dropWhile_eq_nil_iff.mp hs)
    rw [hblank]
    rfl
  | cons c cs =>
    have hc := trimStart_head hs
    have hmem : c ∈ s.toList := by
      apply (List.dropWhile_suffix isBlank).mem
      rw [← trimStart, hs]
      exact List.mem_cons_self
    have hkept : c ∈ trimEnd (c :: cs) := by
      cases he : trimEnd (c :: cs) with
      | nil =>
        have hall := List.rdropWhile_eq_nil_iff.mp he c List.mem_cons_self
        rw [hc] at hall
        cases hall
      | cons d ds =>
        rw [trimEnd_head he]
        exact List.mem_cons_self
    rw [List.all_eq_false.mpr ⟨c, hkept, by simp [hc]⟩, List.all_eq_false.mpr ⟨c, hmem, by simp [hc]⟩]

theorem trimStart_append {before : List Char} (h : before.all isBlank = true) (cs : List Char) :
    trimStart (before ++ cs) = trimStart cs :=
  List.dropWhile_append_of_pos (by simpa using h)

theorem trimEnd_append {after : List Char} (h : after.all isBlank = true) (cs : List Char) :
    trimEnd (cs ++ after) = trimEnd cs := by
  rw [trimEnd, List.reverse_append, List.dropWhile_append_of_pos, trimEnd]
  simpa using h

theorem trimEnd_trimStart_append {after : List Char} (h : after.all isBlank = true)
    (cs : List Char) : trimEnd (trimStart (cs ++ after)) = trimEnd (trimStart cs) := by
  rw [trimStart, List.dropWhile_append, ← trimStart, ← trimStart]
  cases hs : trimStart cs with
  | nil =>
    have hafter : trimStart after = [] := by simpa [trimStart] using h
    rw [List.isEmpty_nil, if_pos rfl, hafter]
  | cons c ds =>
    rw [List.isEmpty_cons, if_neg Bool.false_ne_true]
    exact trimEnd_append h (c :: ds)

theorem trim_append {before after : String} (hbefore : blank before = true)
    (hafter : blank after = true) (s : String) : trim (before ++ s ++ after) = trim s := by
  rw [trim, trim, String.toList_append, String.toList_append, List.append_assoc,
    trimStart_append hbefore, trimEnd_trimStart_append hafter]

theorem trim_nil_iff {s : String} : (trim s).toList = [] ↔ blank s = true := by
  constructor
  · intro h
    rw [← blank_trim, blank, h]
    rfl
  · intro h
    have hs : trimStart s.toList = [] := by simpa [trimStart, blank] using h
    rw [trim, String.toList_ofList, hs]
    rfl

theorem trim_of_unblank {s : String} (h : ∀ c ∈ s.toList, isBlank c = false) : trim s = s := by
  have hstart : trimStart s.toList = s.toList := by
    apply List.dropWhile_eq_self_iff.mpr
    intro hne hblank
    rw [h _ (List.getElem_mem _)] at hblank
    cases hblank
  have hend : trimEnd s.toList = s.toList := by
    apply List.rdropWhile_eq_self_iff.mpr
    intro hne hblank
    rw [h _ (List.getLast_mem hne)] at hblank
    cases hblank
  rw [trim, hstart, hend, String.ofList_toList]

theorem natural?_toDigits (n : Nat) : natural? (Nat.toDigits 10 n) = some n := by
  have hd : (Nat.toDigits 10 n).all Char.isDigit = true :=
    List.all_eq_true.mpr fun c hc => Nat.isDigit_of_mem_toDigits (by decide) (by decide) hc
  rw [natural?, if_pos ⟨Nat.toDigits_ne_nil, hd⟩, Nat.ofDigitChars_ten_toDigits]

theorem integer?_unsigned {cs : List Char} (hminus : cs.head? ≠ some '-') (hplus : cs.head? ≠ some '+') :
    integer? cs = (natural? cs).map Int.ofNat := by
  unfold integer?
  split
  · exact absurd rfl hminus
  · exact absurd rfl hplus
  · cases natural? cs <;> rfl

theorem integer?_minus (cs : List Char) :
    integer? ('-' :: cs) = (natural? cs).map fun n : Nat => -(n : Int) := by
  rw [integer?]
  cases natural? cs <;> rfl

theorem integer?_plus (cs : List Char) : integer? ('+' :: cs) = (natural? cs).map Int.ofNat := by
  rw [integer?]
  cases natural? cs <;> rfl

theorem integer?_of_digit {c : Char} {cs : List Char} (h : c.isDigit = true) :
    integer? (c :: cs) = (natural? (c :: cs)).map Int.ofNat := by
  apply integer?_unsigned
  all_goals
    rintro ⟨⟩
    exact absurd h (by decide)

theorem integer?_toDigits (n : Nat) : integer? (Nat.toDigits 10 n) = some (n : Int) := by
  cases hn : Nat.toDigits 10 n with
  | nil => exact absurd hn Nat.toDigits_ne_nil
  | cons c cs =>
    have hc : c.isDigit = true :=
      Nat.isDigit_of_mem_toDigits (by decide) (by decide) (hn ▸ List.mem_cons_self)
    rw [integer?_of_digit hc, ← hn, natural?_toDigits]
    rfl

theorem toList_toString_ofNat (n : Nat) : (toString (Int.ofNat n)).toList = Nat.toDigits 10 n :=
  Nat.toList_repr

theorem toList_toString_negSucc (n : Nat) :
    (toString (Int.negSucc n)).toList = '-' :: Nat.toDigits 10 (n + 1) := by
  rw [Int.toString_eq_repr, Int.repr, String.toList_append, Nat.toList_repr]
  rfl

theorem integer?_toString (n : Int) : integer? (toString n).toList = some n := by
  cases n with
  | ofNat k =>
    rw [toList_toString_ofNat, integer?_toDigits]
    rfl
  | negSucc k =>
    rw [toList_toString_negSucc, integer?, natural?_toDigits]
    rfl

theorem digits_or_minus {c : Char} {n : Int} (hc : c ∈ (toString n).toList) :
    c.isDigit = true ∨ c = '-' := by
  have hdigits {k : Nat} (h : c ∈ Nat.toDigits 10 k) : c.isDigit = true :=
    Nat.isDigit_of_mem_toDigits (by decide) (by decide) h
  cases n with
  | ofNat k => exact .inl (hdigits (toList_toString_ofNat k ▸ hc))
  | negSucc k =>
    rw [toList_toString_negSucc] at hc
    rcases List.mem_cons.mp hc with rfl | hc
    · exact .inr rfl
    · exact .inl (hdigits hc)

theorem not_blank_of_isDigit {c : Char} (h : c.isDigit = true) : isBlank c = false := by
  have hrange : 48 ≤ c.toNat ∧ c.toNat ≤ 57 := Char.isDigit_iff_toNat.mp h
  simp only [isBlank, Bool.or_eq_false_iff, Bool.and_eq_false_iff, decide_eq_false_iff_not]
  omega

inductive Decimal : List Char → Int → Prop
  | plain (c : Char) (cs : List Char) (h : ∀ d ∈ c :: cs, d.isDigit = true) :
      Decimal (c :: cs) (Nat.ofDigitChars 10 (c :: cs) 0)
  | plus (c : Char) (cs : List Char) (h : ∀ d ∈ c :: cs, d.isDigit = true) :
      Decimal ('+' :: c :: cs) (Nat.ofDigitChars 10 (c :: cs) 0)
  | minus (c : Char) (cs : List Char) (h : ∀ d ∈ c :: cs, d.isDigit = true) :
      Decimal ('-' :: c :: cs) (-(Nat.ofDigitChars 10 (c :: cs) 0 : Int))

theorem natural?_eq_some {cs : List Char} {n : Nat} : natural? cs = some n ↔
    ∃ c ds, cs = c :: ds ∧ (∀ d ∈ c :: ds, d.isDigit = true) ∧ Nat.ofDigitChars 10 (c :: ds) 0 = n := by
  cases cs with
  | nil => simp [natural?]
  | cons c ds => simp [natural?, and_assoc]

theorem integer?_eq_some {cs : List Char} {n : Int} : integer? cs = some n ↔ Decimal cs n := by
  constructor
  · intro h
    by_cases hminus : cs.head? = some '-'
    · obtain ⟨cs, rfl⟩ := List.head?_eq_some_iff.mp hminus
      rw [integer?_minus] at h
      obtain ⟨k, hk, rfl⟩ := Option.map_eq_some_iff.mp h
      obtain ⟨c, ds, rfl, hds, rfl⟩ := natural?_eq_some.mp hk
      exact .minus c ds hds
    by_cases hplus : cs.head? = some '+'
    · obtain ⟨cs, rfl⟩ := List.head?_eq_some_iff.mp hplus
      rw [integer?_plus] at h
      obtain ⟨k, hk, rfl⟩ := Option.map_eq_some_iff.mp h
      obtain ⟨c, ds, rfl, hds, rfl⟩ := natural?_eq_some.mp hk
      exact .plus c ds hds
    · rw [integer?_unsigned hminus hplus] at h
      obtain ⟨k, hk, rfl⟩ := Option.map_eq_some_iff.mp h
      obtain ⟨c, ds, rfl, hds, rfl⟩ := natural?_eq_some.mp hk
      exact .plain c ds hds
  · intro h
    cases h with
    | plain c cs h =>
      rw [integer?_of_digit (h c List.mem_cons_self), natural?_eq_some.mpr ⟨c, cs, rfl, h, rfl⟩]
      rfl
    | plus c cs h =>
      rw [integer?_plus, natural?_eq_some.mpr ⟨c, cs, rfl, h, rfl⟩]
      rfl
    | minus c cs h =>
      rw [integer?_minus, natural?_eq_some.mpr ⟨c, cs, rfl, h, rfl⟩]
      rfl

theorem fitsInt64_iff {n : Int} :
    fitsInt64 n = true ↔ -9223372036854775808 ≤ n ∧ n ≤ 9223372036854775807 := by
  rw [fitsInt64, Bool.and_eq_true, decide_eq_true_eq, decide_eq_true_eq]
  rfl

theorem fitsInt64_toInt (n : Int64) : fitsInt64 n.toInt = true := by
  have := n.le_toInt
  have := n.toInt_lt
  rw [fitsInt64_iff]
  omega

theorem clampInt64_eq (n : Int) :
    clampInt64 n = max (-9223372036854775808) (min n 9223372036854775807) := rfl

theorem clampInt64_of_fits {n : Int} (h : fitsInt64 n = true) : clampInt64 n = n := by
  rw [fitsInt64_iff] at h
  rw [clampInt64_eq]
  omega

theorem clampInt64_of_nonneg {n : Int} (h : 0 ≤ n) :
    clampInt64 n = min n 9223372036854775807 := by
  rw [clampInt64_eq]
  omega

theorem clampInt64_le {n : Int} (h : 0 ≤ n) : clampInt64 n ≤ n := by
  rw [clampInt64_of_nonneg h]
  omega

theorem le_clampInt64 {n k : Int} (hk : k ≤ maxInt64) (hn : 0 ≤ n) : k ≤ clampInt64 n ↔ k ≤ n := by
  have hmax : maxInt64 = 9223372036854775807 := rfl
  rw [clampInt64_of_nonneg hn]
  omega

theorem clampInt64_eq_iff (n k : Int) : clampInt64 n = clampInt64 k ↔
    n = k ∨ (maxInt64 ≤ n ∧ maxInt64 ≤ k) ∨ (n ≤ minInt64 ∧ k ≤ minInt64) := by
  have hmax : maxInt64 = 9223372036854775807 := rfl
  have hmin : minInt64 = -9223372036854775808 := rfl
  rw [clampInt64_eq, clampInt64_eq]
  omega

theorem fitsWord64_iff {n : Int} : fitsWord64 n = true ↔ 0 ≤ n ∧ n < 2 ^ 64 := by
  have hmax : maxWord64 = 2 ^ 64 - 1 := rfl
  simp only [fitsWord64, Bool.and_eq_true, decide_eq_true_eq, hmax]
  omega

end LiveComments.Text
