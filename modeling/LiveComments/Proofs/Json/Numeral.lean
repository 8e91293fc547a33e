import LiveComments.Json.Token
import LiveComments.Proofs.Text
import Mathlib.Algebra.Group.Nat.Defs
import Mathlib.Data.List.TakeWhile

namespace LiveComments.Json

def Digits (ds : List Char) : Prop := ds ≠ [] ∧ ∀ d ∈ ds, d.isDigit = true

def Whole (ds : List Char) : Prop := Digits ds ∧ (ds.head? = some '0' → ds = ['0'])

inductive Fraction : List Char → Option (List Char) → Prop
  | absent : Fraction [] none
  | present {ds : List Char} (h : Digits ds) : Fraction ('.' :: ds) (some ds)

inductive Sign : List Char → Bool → Prop
  | absent : Sign [] false
  | plus : Sign ['+'] false
  | minus : Sign ['-'] true

inductive Exponent : List Char → Option (Bool × List Char) → Prop
  | absent : Exponent [] none
  | present {e : Char} {sign ds : List Char} {down : Bool} (he : e = 'e' ∨ e = 'E')
      (hsign : Sign sign down) (h : Digits ds) : Exponent (e :: (sign ++ ds)) (some (down, ds))

namespace Numeral

inductive Unsigned (l : Numeral) : List Char → Prop
  | intro {f e : List Char} (hwhole : Whole l.whole) (hf : Fraction f l.fraction)
      (he : Exponent e l.exponent) : Unsigned l (l.whole ++ (f ++ e))

theorem Unsigned.exists_cons {l : Numeral} {w : List Char} (h : l.Unsigned w) :
    ∃ c cs, w = c :: cs ∧ c.isDigit = true := by
  cases h with
  | intro hwhole hf he =>
    obtain ⟨⟨hne, hdigit⟩, -⟩ := hwhole
    obtain ⟨c, cs, hcs⟩ := List.exists_cons_of_ne_nil hne
    rw [hcs] at hdigit ⊢
    exact ⟨c, _, rfl, hdigit c List.mem_cons_self⟩

inductive Spelled (l : Numeral) : List Char → Prop
  | plain {w : List Char} (hn : l.negative = false) (h : l.Unsigned w) : Spelled l w
  | minus {w : List Char} (hn : l.negative = true) (h : l.Unsigned w) : Spelled l ('-' :: w)

def magnitude (l : Numeral) : Nat := Nat.ofDigitChars 10 l.whole 0

/-- The value of a numeral: an integer of 64 bits, or else a binary number, as minus zero is. -/
inductive Means (l : Numeral) : Json → Prop
  | natural (hplain : l.fraction = none ∧ l.exponent = none) (hn : l.negative = false)
      (h : l.magnitude < 2 ^ 64) : Means l (.int l.magnitude)
  | negative (hplain : l.fraction = none ∧ l.exponent = none) (hn : l.negative = true)
      (hpos : 0 < l.magnitude) (h : l.magnitude ≤ 2 ^ 63) : Means l (.int (-(l.magnitude : Int)))
  | real {x : Binary64} (h : l.value? = some (.float x)) : Means l (.float x)

theorem le_ofDigitChars (ds : List Char) (n : Nat) : n ≤ Nat.ofDigitChars 10 ds n := by
  induction ds generalizing n with
  | nil => simp
  | cons d ds ih =>
    rw [Nat.ofDigitChars_cons]
    have := ih (10 * n + (d.toNat - '0'.toNat))
    omega

theorem accumulate_of_le {n taken : Nat} {ds : List Char} (h : Nat.ofDigitChars 10 ds n ≤ word) :
    accumulate n taken ds = (Nat.ofDigitChars 10 ds n, taken + ds.length, true) := by
  induction ds generalizing n taken with
  | nil => simp [accumulate]
  | cons d ds ih =>
    have hzero : '0'.toNat = 48 := rfl
    rw [Nat.ofDigitChars_cons, hzero, Nat.mul_comm 10 n] at h ⊢
    have hnext := (le_ofDigitChars ds _).trans h
    simp only [accumulate]
    rw [if_neg (by omega), ih h, List.length_cons, Nat.add_assoc, Nat.add_comm 1]

theorem accumulate_of_lt {n taken : Nat} {ds : List Char} (hn : n ≤ word)
    (h : word < Nat.ofDigitChars 10 ds n) : (accumulate n taken ds).2.2 = false := by
  induction ds generalizing n taken with
  | nil =>
    rw [Nat.ofDigitChars_nil] at h
    omega
  | cons d ds ih =>
    have hzero : '0'.toNat = 48 := rfl
    rw [Nat.ofDigitChars_cons, hzero, Nat.mul_comm 10 n] at h
    simp only [accumulate]
    split
    · rfl
    · apply ih _ h
      omega

theorem ofParts_float {negative : Bool} {n : Nat} {e : Int} {v : Json}
    (h : ofParts negative n e = some v) : ∃ x, v = .float x := by
  obtain ⟨x, -, h⟩ := Option.bind_eq_some_iff.mp h
  obtain ⟨y, -, h⟩ := Option.bind_eq_some_iff.mp h
  cases h
  exact ⟨_, rfl⟩

theorem value?_short {l : Numeral} (hplain : l.fraction = none ∧ l.exponent = none)
    (h : l.magnitude ≤ word) : l.value? =
      if !l.negative then some (.int l.magnitude)
      else if l.magnitude = 0 ∨ Nat.pow 2 63 < l.magnitude then ofParts true l.magnitude 0
      else some (.int (-(l.magnitude : Int))) := by
  rw [value?, accumulate_of_le h, hplain.1, hplain.2]
  rfl

theorem value?_long {l : Numeral} {v : Json}
    (hl : ¬ ((l.fraction = none ∧ l.exponent = none) ∧ l.magnitude ≤ word))
    (h : l.value? = some v) : ∃ x, v = .float x := by
  unfold value? at h
  dsimp only at h
  split at h
  · rename_i hfraction hexponent hall
    have hlong : word < l.magnitude := by
      by_contra hle
      exact hl ⟨⟨hfraction, hexponent⟩, by omega⟩
    rw [accumulate_of_lt (Nat.zero_le _) hlong] at hall
    cases hall
  · split at h
    · exact ofParts_float h
    · split at h
      · split at h
        · cases h
          exact ⟨_, rfl⟩
        · cases h
      · exact ofParts_float h

theorem value?_eq_some {l : Numeral} {v : Json} : l.value? = some v ↔ l.Means v := by
  have hword : word = 2 ^ 64 - 1 := rfl
  have hhalf : Nat.pow 2 63 = 2 ^ 63 := rfl
  constructor
  · intro h
    by_cases hl : (l.fraction = none ∧ l.exponent = none) ∧ l.magnitude ≤ word
    · have hshort := value?_short hl.1 hl.2
      rw [hshort] at h
      split at h
      · rename_i hn
        cases h
        exact .natural hl.1 (by simpa using hn) (by omega)
      · rename_i hn
        split at h
        · obtain ⟨x, rfl⟩ := ofParts_float h
          rw [if_neg hn, if_pos ‹_›, h] at hshort
          exact .real hshort
        · cases h
          exact .negative hl.1 (by simpa using hn) (by omega) (by omega)
    · obtain ⟨x, rfl⟩ := value?_long hl h
      exact .real h
  · intro h
    cases h with
    | natural hplain hn h =>
      rw [value?_short hplain (by omega), hn]
      rfl
    | negative hplain hn hpos h =>
      have hsmall : ¬ (l.magnitude = 0 ∨ Nat.pow 2 63 < l.magnitude) := by omega
      rw [value?_short hplain (by omega), hn, if_neg hsmall]
      rfl
    | real h => exact h

end Numeral

def Stops (p : Char → Bool) (rest : List Char) : Prop := ∀ c ∈ rest.head?, p c = false

theorem Stops.nil {p : Char → Bool} : Stops p [] := nofun

theorem Stops.cons {p : Char → Bool} {c : Char} (h : p c = false) (cs : List Char) :
    Stops p (c :: cs) := by
  rintro d ⟨⟩
  exact h

theorem Stops.mono {p q : Char → Bool} {rest : List Char} (h : Stops p rest)
    (hpq : ∀ c, q c = true → p c = true) : Stops q rest := by
  intro c hc
  by_contra hq
  have hp := hpq c (by simpa using hq)
  rw [h c hc] at hp
  cases hp

def goesOn (c : Char) : Bool := c.isDigit || c == '.' || c == 'e' || c == 'E'

namespace Token

theorem digits_map (cs : List Char) : digits (cs.map some) = cs.takeWhile Char.isDigit := by
  induction cs with
  | nil => rfl
  | cons c cs ih =>
    rw [List.map_cons, digits, List.takeWhile_cons, ih]

theorem isDigit_of_mem_digits {cs : List Char} : ∀ d ∈ digits (cs.map some), d.isDigit = true := by
  intro d hd
  rw [digits_map] at hd
  exact List.mem_takeWhile_imp hd

theorem digits_append {ds rest : List Char} (hds : ∀ d ∈ ds, d.isDigit = true)
    (hrest : Stops Char.isDigit rest) : digits ((ds ++ rest).map some) = ds := by
  rw [digits_map, List.takeWhile_append_of_pos hds]
  cases rest with
  | nil => simp
  | cons c cs =>
    have hc : c.isDigit = false := hrest c rfl
    simp [hc]

theorem exists_digits (cs : List Char) : ∃ rest, cs = digits (cs.map some) ++ rest := by
  rw [digits_map]
  exact ⟨cs.dropWhile Char.isDigit, List.takeWhile_append_dropWhile.symm⟩

theorem drop_map_append (w rest : List Char) :
    ((w ++ rest).map some).drop w.length = rest.map some := by
  simp

theorem fraction_sound {cs : List Char} {f : Option (List Char)} {k : Nat}
    (h : fraction (cs.map some) = some (f, k)) :
    ∃ w rest, cs = w ++ rest ∧ w.length = k ∧ Fraction w f := by
  unfold fraction at h
  split at h
  · rename_i symbols hcs
    obtain ⟨_, cs, rfl, ⟨⟩, rfl⟩ := List.map_eq_cons_iff.mp hcs
    dsimp only at h
    split at h
    · cases h
    · rename_i hne
      cases h
      obtain ⟨rest, hrest⟩ := exists_digits cs
      refine ⟨'.' :: digits (cs.map some), rest, ?_, rfl, .present ⟨hne, isDigit_of_mem_digits⟩⟩
      rw [List.cons_append, ← hrest]
  · cases h
    exact ⟨[], cs, rfl, rfl, .absent⟩

theorem fraction_complete {w rest : List Char} {f : Option (List Char)} (h : Fraction w f)
    (hrest : Stops (fun c => c.isDigit || c == '.') rest) :
    fraction ((w ++ rest).map some) = some (f, w.length) := by
  cases h with
  | absent =>
    cases rest with
    | nil => rfl
    | cons c cs =>
      have hc : c ≠ '.' := by
        rintro rfl
        exact absurd (hrest '.' rfl) (by decide)
      unfold fraction
      split
      · rename_i heq
        simp only [List.nil_append, List.map_cons, List.cons.injEq, Option.some.injEq] at heq
        exact absurd heq.1 hc
      · rfl
  | @present ds hds =>
    have hstop : Stops Char.isDigit rest := hrest.mono (by simp +contextual)
    simp only [List.cons_append, List.map_cons, fraction, digits_append hds.2 hstop, hds.1, if_false,
      List.length_cons]

theorem sign_sound (cs : List Char) : ∃ w rest, cs = w ++ rest ∧
    w.length = (sign (cs.map some)).2 ∧ Sign w (sign (cs.map some)).1 := by
  unfold sign
  split
  · rename_i symbols hcs
    obtain ⟨_, cs, rfl, ⟨⟩, rfl⟩ := List.map_eq_cons_iff.mp hcs
    exact ⟨['-'], cs, rfl, rfl, .minus⟩
  · rename_i symbols hcs
    obtain ⟨_, cs, rfl, ⟨⟩, rfl⟩ := List.map_eq_cons_iff.mp hcs
    exact ⟨['+'], cs, rfl, rfl, .plus⟩
  · exact ⟨[], cs, rfl, rfl, .absent⟩

theorem sign_complete {w ds rest : List Char} {down : Bool} (h : Sign w down) (hds : Digits ds) :
    sign ((w ++ (ds ++ rest)).map some) = (down, w.length) := by
  cases h with
  | plus => rfl
  | minus => rfl
  | absent =>
    obtain ⟨hne, hdigit⟩ := hds
    obtain ⟨d, ds, rfl⟩ := List.exists_cons_of_ne_nil hne
    have hd : d.isDigit = true := hdigit d List.mem_cons_self
    unfold sign
    split
    · rename_i heq
      cases heq
      exact absurd hd (by decide)
    · rename_i heq
      cases heq
      exact absurd hd (by decide)
    · rfl

theorem exponent_sound {cs : List Char} {x : Option (Bool × List Char)} {k : Nat}
    (h : exponent (cs.map some) = some (x, k)) :
    ∃ w rest, cs = w ++ rest ∧ w.length = k ∧ Exponent w x := by
  cases cs with
  | nil =>
    cases h
    exact ⟨[], [], rfl, rfl, .absent⟩
  | cons c cs =>
    rw [List.map_cons, exponent] at h
    split at h
    · rename_i he
      obtain ⟨w, rest, hcs, hlength, hsign⟩ := sign_sound cs
      dsimp only at h
      rw [← hlength, hcs, drop_map_append, ← hcs] at h
      split at h
      · cases h
      · rename_i hne
        cases h
        obtain ⟨rest', hrest⟩ := exists_digits rest
        refine ⟨c :: (w ++ digits (rest.map some)), rest', ?_, ?_,
          .present (by simpa using he) hsign ⟨hne, isDigit_of_mem_digits⟩⟩
        · rw [List.cons_append, List.append_assoc, ← hrest, ← hcs]
        · rw [List.length_cons, List.length_append, Nat.add_comm w.length]
    · cases h
      exact ⟨[], c :: cs, rfl, rfl, .absent⟩

theorem exponent_complete {w rest : List Char} {x : Option (Bool × List Char)} (h : Exponent w x)
    (hrest : Stops goesOn rest) : exponent ((w ++ rest).map some) = some (x, w.length) := by
  cases h with
  | absent =>
    cases rest with
    | nil => rfl
    | cons c cs =>
      have hc : goesOn c = false := hrest c rfl
      have hmark : ¬ (some c = some 'e' ∨ some c = some 'E') := by
        rintro (⟨⟨⟩⟩ | ⟨⟨⟩⟩) <;> exact absurd hc (by decide)
      rw [List.nil_append, List.map_cons, exponent, if_neg hmark]
      rfl
  | @present e sign ds down he hsign hds =>
    have hstop : Stops Char.isDigit rest := hrest.mono (by simp +contextual [goesOn])
    have hmark : some e = some 'e' ∨ some e = some 'E' := by simpa using he
    rw [List.cons_append, List.append_assoc, List.map_cons, exponent, if_pos hmark,
      sign_complete hsign hds]
    dsimp only
    rw [drop_map_append, digits_append hds.2 hstop, if_neg hds.1]
    simp [Nat.add_comm]

theorem number_sound {negative : Bool} {cs : List Char} {t : Token} {k : Nat}
    (h : number negative (cs.map some) = some (t, k)) :
    ∃ l w rest, cs = w ++ rest ∧ w.length = k ∧ l.negative = negative ∧ l.Unsigned w ∧
      t = .atom (numeralValue l) := by
  unfold number at h
  dsimp only at h
  split at h
  · cases h
  rename_i hwhole
  obtain ⟨⟨f, i⟩, hf, h⟩ := Option.bind_eq_some_iff.mp h
  obtain ⟨⟨x, j⟩, hx, h⟩ := Option.bind_eq_some_iff.mp h
  cases h
  obtain ⟨rest, hcs⟩ := exists_digits cs
  generalize hds : digits (cs.map some) = ds at *
  subst hcs
  rw [drop_map_append] at hf hx
  obtain ⟨wf, rest, rfl, rfl, hfraction⟩ := fraction_sound hf
  rw [drop_map_append] at hx
  obtain ⟨we, rest, rfl, rfl, hexponent⟩ := exponent_sound hx
  have hdigits : Digits ds := ⟨fun hnil => hwhole (.inl hnil), hds ▸ isDigit_of_mem_digits⟩
  have hzero : ds.head? = some '0' → ds = ['0'] := by
    intro hhead
    by_contra hne
    exact hwhole (.inr ⟨hhead, hne⟩)
  refine ⟨⟨negative, ds, f, x⟩, ds ++ (wf ++ we), rest, ?_, ?_, rfl,
    .intro ⟨hdigits, hzero⟩ hfraction hexponent, rfl⟩
  · simp only [List.append_assoc]
  · simp only [List.length_append, Nat.add_assoc]

theorem stops_exponent {w rest : List Char} {x : Option (Bool × List Char)} (h : Exponent w x)
    (hrest : Stops goesOn rest) : Stops (fun c => c.isDigit || c == '.') (w ++ rest) := by
  cases h with
  | absent => exact hrest.mono (by simp +contextual [goesOn])
  | present he =>
    apply Stops.cons
    rcases he with rfl | rfl <;> decide

theorem stops_fraction {w rest : List Char} {f : Option (List Char)} (h : Fraction w f)
    (hrest : Stops (fun c => c.isDigit || c == '.') rest) : Stops Char.isDigit (w ++ rest) := by
  cases h with
  | absent => exact hrest.mono (by simp +contextual)
  | present => exact Stops.cons (by decide) _

theorem number_complete {l : Numeral} {w rest : List Char} (h : l.Unsigned w)
    (hrest : Stops goesOn rest) :
    number l.negative ((w ++ rest).map some) = some (.atom (numeralValue l), w.length) := by
  cases h with
  | @intro f e hwhole hf he =>
    have hexponent := exponent_complete he hrest
    have hfraction := fraction_complete hf (stops_exponent he hrest)
    have hdigits := digits_append hwhole.1.2 (stops_fraction hf (stops_exponent he hrest))
    have hguard : ¬ (l.whole = [] ∨ l.whole.head? = some '0' ∧ l.whole ≠ ['0']) := by
      rintro (hnil | ⟨hhead, hne⟩)
      · exact hwhole.1.1 hnil
      · exact hne (hwhole.2 hhead)
    rw [List.append_assoc, List.append_assoc, number]
    dsimp only
    rw [hdigits, if_neg hguard, drop_map_append, hfraction, Option.bind_eq_bind, Option.bind_some]
    dsimp only
    rw [drop_map_append, hexponent]
    simp [Nat.add_assoc]

end Token

end LiveComments.Json
