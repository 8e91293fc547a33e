import LiveComments.Proofs.Json.Numeral
import Mathlib.Data.List.Chain

namespace LiveComments.Json

open Token (Piece)

/-! ### Texts -/

def Surrogate (n : Nat) : Prop := 0xd800 ≤ n ∧ n < 0xe000

inductive Quoted : List Char → List Char → Prop
  | nil : Quoted [] []
  | plain {c : Char} {w m : List Char} (hcontrol : 0x20 ≤ c.toNat) (hquote : c ≠ '"')
      (hslash : c ≠ '\\') (h : Quoted w m) : Quoted (c :: w) (c :: m)
  | escape {c e : Char} {w m : List Char} (he : Token.simpleEscape c = some e) (h : Quoted w m) :
      Quoted ('\\' :: c :: w) (e :: m)
  | unit {a b c d : Char} {n : Nat} {w m : List Char}
      (hn : Token.unit? [some a, some b, some c, some d] = some n) (hs : ¬ Surrogate n)
      (h : Quoted w m) : Quoted ('\\' :: 'u' :: a :: b :: c :: d :: w) (Char.ofNat n :: m)
  | pair {a b c d a' b' c' d' : Char} {high low : Nat} {w m : List Char}
      (hhigh : Token.unit? [some a, some b, some c, some d] = some (0xd800 + high))
      (hlow : Token.unit? [some a', some b', some c', some d'] = some (0xdc00 + low))
      (hh : high < 0x400) (hl : low < 0x400) (h : Quoted w m) :
      Quoted ('\\' :: 'u' :: a :: b :: c :: d :: '\\' :: 'u' :: a' :: b' :: c' :: d' :: w)
        (Char.ofNat (0x10000 + high * 0x400 + low) :: m)

inductive Pieced : List Char → List Piece → Prop
  | nil : Pieced [] []
  | plain {c : Char} {w : List Char} {ps : List Piece} (hcontrol : 0x20 ≤ c.toNat)
      (hquote : c ≠ '"') (hslash : c ≠ '\\') (h : Pieced w ps) :
      Pieced (c :: w) (.symbol (some c) :: ps)
  | escape {c e : Char} {w : List Char} {ps : List Piece} (he : Token.simpleEscape c = some e)
      (h : Pieced w ps) : Pieced ('\\' :: c :: w) (.symbol (some e) :: ps)
  | unit {a b c d : Char} {n : Nat} {w : List Char} {ps : List Piece}
      (hn : Token.unit? [some a, some b, some c, some d] = some n) (h : Pieced w ps) :
      Pieced ('\\' :: 'u' :: a :: b :: c :: d :: w) (.unit n :: ps)

namespace Token

theorem pieces_sound {cs : List Char} {ps : List Piece} {k : Nat}
    (h : pieces (cs.map some) = some (ps, k)) :
    ∃ w rest, cs = w ++ '"' :: rest ∧ w.length + 1 = k ∧ Pieced w ps := by
  generalize hsymbols : cs.map some = symbols at h
  induction symbols using pieces.induct generalizing cs ps k with
  | case1 => cases h
  | case2 symbols =>
    obtain ⟨_, cs, rfl, ⟨⟩, rfl⟩ := List.map_eq_cons_iff.mp hsymbols
    cases h
    exact ⟨[], cs, rfl, rfl, .nil⟩
  | case3 a b c d symbols ih =>
    simp only [List.map_eq_cons_iff] at hsymbols
    obtain ⟨_, _, rfl, ⟨⟩, _, _, rfl, ⟨⟩, a, _, rfl, rfl, b, _, rfl, rfl, c, _, rfl, rfl, d, cs, rfl,
      rfl, hcs⟩ := hsymbols
    rw [pieces] at h
    obtain ⟨n, hn, h⟩ := Option.bind_eq_some_iff.mp h
    obtain ⟨⟨ps, k⟩, hps, h⟩ := Option.bind_eq_some_iff.mp h
    cases h
    obtain ⟨w, rest, rfl, rfl, hw⟩ := ih hcs hps
    exact ⟨'\\' :: 'u' :: a :: b :: c :: d :: w, rest, rfl, rfl, .unit hn hw⟩
  | case4 c symbols hne ih =>
    simp only [List.map_eq_cons_iff] at hsymbols
    obtain ⟨_, _, rfl, ⟨⟩, c, cs, rfl, ⟨⟩, hcs⟩ := hsymbols
    rw [pieces] at h
    · obtain ⟨e, he, h⟩ := Option.bind_eq_some_iff.mp h
      obtain ⟨⟨ps, k⟩, hps, h⟩ := Option.bind_eq_some_iff.mp h
      cases h
      obtain ⟨w, rest, rfl, rfl, hw⟩ := ih hcs hps
      exact ⟨'\\' :: c :: w, rest, rfl, rfl, .escape he hw⟩
    · exact hne
  | case5 c symbols hquote hunit hescape hc =>
    rw [pieces, if_pos hc] at h
    · cases h
    all_goals assumption
  | case6 c symbols hquote hunit hescape hc ih =>
    obtain ⟨c, cs, rfl, rfl, hcs⟩ := List.map_eq_cons_iff.mp hsymbols
    rw [pieces, if_neg hc] at h
    · obtain ⟨⟨ps, k⟩, hps, h⟩ := Option.bind_eq_some_iff.mp h
      cases h
      obtain ⟨w, rest, rfl, rfl, hw⟩ := ih hcs hps
      obtain ⟨hcontrol, hslash⟩ := not_or.mp hc
      refine ⟨c :: w, rest, rfl, rfl, .plain ?_ ?_ ?_ hw⟩
      · simpa [isControl] using hcontrol
      · rintro rfl
        exact hquote rfl
      · rintro rfl
        exact hslash rfl
    all_goals assumption

theorem pieces_complete {w rest : List Char} {ps : List Piece} (h : Pieced w ps) :
    pieces ((w ++ '"' :: rest).map some) = some (ps, w.length + 1) := by
  induction h with
  | nil => rfl
  | @plain c w ps hcontrol hquote hslash _ ih =>
    have hc : ¬ (isControl (some c) = true ∨ some c = some '\\') := by
      simpa [isControl] using ⟨hcontrol, hslash⟩
    rw [List.cons_append, List.map_cons, pieces, if_neg hc, ih]
    · rfl
    all_goals simp [hquote, hslash]
  | @escape c e w ps he _ ih =>
    have hu : c ≠ 'u' := by
      rintro rfl
      cases he
    rw [List.cons_append, List.cons_append, List.map_cons, List.map_cons, pieces, he, ih]
    · rfl
    · simp [hu]
  | unit hn _ ih =>
    simp only [List.cons_append, List.map_cons]
    rw [pieces, hn, ih]
    rfl

theorem map_eq_ok {α β : Type} {f : α → β} {x : Leaf α} {b : β} (h : x.map f = .ok b) :
    ∃ a, x = .ok a ∧ f a = b := by
  cases x with
  | error flaw => cases h
  | ok a =>
    cases h
    exact ⟨a, rfl, rfl⟩

theorem join_unit {n : Nat} (hs : ¬ Surrogate n) (ps : List Piece) :
    join (.unit n :: ps) = (join ps).map (Char.ofNat n :: ·) := by
  unfold Surrogate at hs
  rw [join.eq_def]
  dsimp only
  rw [if_neg (by omega), if_neg (by omega)]

theorem join_low {n : Nat} (hn : 0xdc00 ≤ n ∧ n < 0xe000) (ps : List Piece) :
    join (.unit n :: ps) = .error .before := by
  rw [join.eq_def]
  dsimp only
  rw [if_neg (by omega), if_pos hn]

theorem quoted_of_join {w m : List Char} {ps : List Piece} (h : Pieced w ps)
    (hm : join ps = .ok m) : Quoted w m := by
  induction ps using join.induct generalizing w m with
  | case1 =>
    cases h
    cases hm
    exact .nil
  | case2 => cases h
  | case3 => cases h
  | case4 c ps ih =>
    obtain ⟨m, hps, rfl⟩ := map_eq_ok hm
    cases h with
    | plain hcontrol hquote hslash h => exact .plain hcontrol hquote hslash (ih h hps)
    | escape he h => exact .escape he (ih h hps)
  | case5 n hn =>
    rw [join, if_pos hn] at hm
    cases hm
  | case6 n hn low qs hlow ih =>
    rw [join, if_pos hn, if_pos hlow] at hm
    obtain ⟨m, hps, rfl⟩ := map_eq_ok hm
    cases h with
    | unit hhigh h =>
      cases h with
      | unit hlow' h =>
        have hn' : n = 0xd800 + (n - 0xd800) := by omega
        have hl' : low = 0xdc00 + (low - 0xdc00) := by omega
        rw [hn'] at hhigh
        rw [hl'] at hlow'
        exact .pair hhigh hlow' (by omega) (by omega) (ih h hps)
  | case7 n hn low qs hlow =>
    rw [join, if_pos hn, if_neg hlow] at hm
    cases hm
  | case8 n ps hn hnil hunit =>
    rw [join, if_pos hn] at hm
    · cases hm
    all_goals assumption
  | case9 n ps hn hlow =>
    rw [join_low hlow] at hm
    cases hm
  | case10 n ps hn hlow ih =>
    have hs : ¬ Surrogate n := by
      unfold Surrogate
      omega
    rw [join_unit hs] at hm
    obtain ⟨m, hps, rfl⟩ := map_eq_ok hm
    cases h with
    | unit hunit h => exact .unit hunit hs (ih h hps)

theorem exists_pieces {w m : List Char} (h : Quoted w m) :
    ∃ ps, Pieced w ps ∧ join ps = .ok m := by
  induction h with
  | nil => exact ⟨[], .nil, rfl⟩
  | plain hcontrol hquote hslash _ ih =>
    obtain ⟨ps, hps, hm⟩ := ih
    refine ⟨_, .plain hcontrol hquote hslash hps, ?_⟩
    rw [join, hm]
    rfl
  | escape he _ ih =>
    obtain ⟨ps, hps, hm⟩ := ih
    refine ⟨_, .escape he hps, ?_⟩
    rw [join, hm]
    rfl
  | unit hn hs _ ih =>
    obtain ⟨ps, hps, hm⟩ := ih
    refine ⟨_, .unit hn hps, ?_⟩
    rw [join_unit hs, hm]
    rfl
  | @pair a b c d a' b' c' d' high low w m hhigh hlow hh hl _ ih =>
    obtain ⟨ps, hps, hm⟩ := ih
    refine ⟨_, .unit hhigh (.unit hlow hps), ?_⟩
    rw [join, if_pos (by omega), if_pos (by omega), hm, Nat.add_sub_cancel_left,
      Nat.add_sub_cancel_left]
    rfl

end Token

/-! ### Lexemes -/

inductive Lexeme : List Char → Token → Prop
  | openItems : Lexeme ['['] .openItems
  | closeItems : Lexeme [']'] .closeItems
  | openMembers : Lexeme ['\x7b'] .openMembers
  | closeMembers : Lexeme ['\x7d'] .closeMembers
  | comma : Lexeme [','] .comma
  | colon : Lexeme [':'] .colon
  | null : Lexeme ['n', 'u', 'l', 'l'] (.atom (.ok .null))
  | true : Lexeme ['t', 'r', 'u', 'e'] (.atom (.ok (.bool Bool.true)))
  | false : Lexeme ['f', 'a', 'l', 's', 'e'] (.atom (.ok (.bool Bool.false)))
  | number {l : Numeral} {w : List Char} {v : Json} (h : l.Spelled w) (hv : l.Means v) :
      Lexeme w (.atom (.ok v))
  | text {w m : List Char} (h : Quoted w m) :
      Lexeme ('"' :: (w ++ ['"'])) (.text (.ok (String.ofList m)))

/-- A text as a row of lexemes, with spaces anywhere between them. -/
inductive Lexed : List Char → List Token → Prop
  | nil : Lexed [] []
  | space {c : Char} {cs : List Char} {ts : List Token} (hc : Token.isSpace (some c) = Bool.true)
      (h : Lexed cs ts) : Lexed (c :: cs) ts
  | lexeme {w cs : List Char} {t : Token} {ts : List Token} (hw : Lexeme w t) (h : Lexed cs ts) :
      Lexed (w ++ cs) (t :: ts)

namespace Token

def IsAtom (t : Token) : Prop := ∃ v, t = .atom v

def Settled : Token → Prop
  | .atom v => ∃ a, v = .ok a
  | .text s => ∃ a, s = .ok a
  | _ => True

theorem word_sound {cs : List Char} {spelling : String} {v : Json} {t : Token} {k : Nat}
    (h : word (cs.map some) spelling v = some (t, k)) :
    ∃ rest, cs = spelling.toList ++ rest ∧ spelling.toList.length = k ∧ t = .atom (.ok v) := by
  unfold word at h
  split at h
  · rename_i hprefix
    cases h
    obtain ⟨symbols, hsymbols⟩ := List.isPrefixOf_iff_prefix.mp hprefix
    obtain ⟨w, rest, rfl, hw, -⟩ := List.map_eq_append_iff.mp hsymbols.symm
    have hw : w = spelling.toList := (List.map_inj_right fun _ _ => Option.some.inj).mp hw
    exact ⟨rest, by rw [hw], String.length_toList, rfl⟩
  · cases h

theorem word_complete (spelling : String) (v : Json) (rest : List Char) :
    word ((spelling.toList ++ rest).map some) spelling v =
      some (.atom (.ok v), spelling.toList.length) := by
  have hprefix : (spelling.toList.map some).isPrefixOf ((spelling.toList ++ rest).map some) =
      true := by
    rw [List.isPrefixOf_iff_prefix, List.map_append]
    exact List.prefix_append _ _
  rw [word, if_pos hprefix, String.length_toList]

theorem numeralValue_ok {l : Numeral} {v : Json} : numeralValue l = .ok v ↔ l.Means v := by
  rw [← Numeral.value?_eq_some, numeralValue]
  cases l.value? <;> simp

theorem isSpace_of_isDigit {c : Char} (hc : c.isDigit = true) : isSpace (some c) = false := by
  unfold isSpace
  simp only [Option.some.injEq, decide_eq_false_iff_not, not_or]
  refine ⟨?_, ?_, ?_, ?_⟩
  all_goals
    rintro rfl
    exact absurd hc (by decide)

theorem scan_digit {c : Char} (hc : c.isDigit = true) (rest : List Symbol) :
    scan c rest = (number false (some c :: rest)).map fun (t, k) => (t, k - 1) := by
  unfold scan
  split
  case h_12 => rw [if_pos hc]
  all_goals exact absurd hc (by decide)

theorem scan_sound {c : Char} {cs : List Char} {t : Token} {k : Nat}
    (h : scan c (cs.map some) = some (t, k)) (ht : t.Settled) :
    ∃ w rest, cs = w ++ rest ∧ w.length = k ∧ Lexeme (c :: w) t := by
  unfold scan at h
  split at h
  case h_1 =>
    cases h
    exact ⟨[], cs, rfl, rfl, .openItems⟩
  case h_2 =>
    cases h
    exact ⟨[], cs, rfl, rfl, .closeItems⟩
  case h_3 =>
    cases h
    exact ⟨[], cs, rfl, rfl, .openMembers⟩
  case h_4 =>
    cases h
    exact ⟨[], cs, rfl, rfl, .closeMembers⟩
  case h_5 =>
    cases h
    exact ⟨[], cs, rfl, rfl, .comma⟩
  case h_6 =>
    cases h
    exact ⟨[], cs, rfl, rfl, .colon⟩
  case h_7 =>
    obtain ⟨rest, rfl, rfl, rfl⟩ := word_sound h
    exact ⟨_, rest, rfl, rfl, .null⟩
  case h_8 =>
    obtain ⟨rest, rfl, rfl, rfl⟩ := word_sound h
    exact ⟨_, rest, rfl, rfl, .true⟩
  case h_9 =>
    obtain ⟨rest, rfl, rfl, rfl⟩ := word_sound h
    exact ⟨_, rest, rfl, rfl, .false⟩
  case h_10 =>
    obtain ⟨⟨ps, k⟩, hps, ht'⟩ := Option.map_eq_some_iff.mp h
    cases ht'
    obtain ⟨w, rest, rfl, rfl, hw⟩ := pieces_sound hps
    obtain ⟨s, hs⟩ := ht
    obtain ⟨m, hm, rfl⟩ := map_eq_ok hs
    rw [hm]
    refine ⟨w ++ ['"'], rest, ?_, ?_, .text (quoted_of_join hw hm)⟩
    · simp
    · simp
  case h_11 =>
    obtain ⟨l, w, rest, rfl, rfl, hn, hw, rfl⟩ := number_sound h
    obtain ⟨v, hv⟩ := ht
    rw [hv]
    exact ⟨w, rest, rfl, rfl, .number (.minus hn hw) (numeralValue_ok.mp hv)⟩
  case h_12 =>
    split at h
    · rename_i hdigit
      rw [← List.map_cons] at h
      obtain ⟨⟨t, k⟩, hnumber, ht'⟩ := Option.map_eq_some_iff.mp h
      cases ht'
      obtain ⟨l, w, rest, hcs, rfl, hn, hw, rfl⟩ := number_sound hnumber
      obtain ⟨d, ds, rfl, -⟩ := hw.exists_cons
      cases hcs
      obtain ⟨v, hv⟩ := ht
      rw [hv]
      exact ⟨ds, rest, rfl, rfl, .number (.plain hn hw) (numeralValue_ok.mp hv)⟩
    · cases h

theorem scan_complete {w : List Char} {t : Token} (h : Lexeme w t) {rest : List Char}
    (hrest : t.IsAtom → Stops goesOn rest) : ∃ c cs, w = c :: cs ∧ isSpace (some c) = false ∧
      scan c ((cs ++ rest).map some) = some (t, cs.length) := by
  cases h with
  | null => exact ⟨_, _, rfl, rfl, word_complete "ull" _ rest⟩
  | true => exact ⟨_, _, rfl, rfl, word_complete "rue" _ rest⟩
  | false => exact ⟨_, _, rfl, rfl, word_complete "alse" _ rest⟩
  | @text w m hw =>
    obtain ⟨ps, hps, hm⟩ := exists_pieces hw
    refine ⟨_, _, rfl, rfl, ?_⟩
    rw [List.append_assoc, List.singleton_append, scan, pieces_complete hps, Option.map_some]
    dsimp only
    rw [hm, List.length_append]
    rfl
  | @number l w v hl hv =>
    have hstop := hrest ⟨_, rfl⟩
    cases hl with
    | @minus w hn hw =>
      refine ⟨_, _, rfl, rfl, ?_⟩
      have hnumber := number_complete hw hstop
      rw [hn, numeralValue_ok.mpr hv] at hnumber
      exact hnumber
    | plain hn hw =>
      have hnumber := number_complete hw hstop
      obtain ⟨c, cs, rfl, hc⟩ := hw.exists_cons
      rw [hn, numeralValue_ok.mpr hv, List.cons_append, List.map_cons] at hnumber
      refine ⟨c, cs, rfl, isSpace_of_isDigit hc, ?_⟩
      rw [scan_digit hc, hnumber]
      rfl
  | _ => exact ⟨_, [], rfl, rfl, rfl⟩

/-! ### Rows of lexemes -/

theorem tokens_append (w : List Char) (symbols : List Symbol) :
    tokens w.length (w.map some ++ symbols) = tokens 0 symbols := by
  induction w with
  | nil => rfl
  | cons c w ih => exact ih

theorem tokens_sound {cs : List Char} {ts : List Token} (h : tokens 0 (cs.map some) = some ts)
    (hts : ∀ t ∈ ts, t.Settled) : Lexed cs ts := by
  -- Symbols that belong to the token before are dropped first.
  suffices hgeneral : ∀ k symbols ts cs, tokens k symbols = some ts → (∀ t ∈ ts, t.Settled) →
      symbols.drop k = cs.map some → Lexed cs ts from hgeneral 0 _ ts cs h hts rfl
  intro k symbols
  induction k, symbols using tokens.induct with
  | case1 k =>
    intro ts cs h hts hcs
    rw [List.drop_nil] at hcs
    obtain rfl := List.map_eq_nil_iff.mp hcs.symm
    rw [tokens] at h
    cases h
    exact .nil
  | case2 k c symbols ih =>
    intro ts cs h hts hcs
    exact ih ts cs h hts hcs
  | case3 c symbols hspace ih =>
    intro ts cs h hts hcs
    rw [tokens, if_pos hspace] at h
    obtain ⟨c, cs, rfl, rfl, rfl⟩ := List.map_eq_cons_iff.mp hcs.symm
    exact .space hspace (ih ts cs h hts rfl)
  | case4 c symbols hspace ih =>
    intro ts cs h hts hcs
    rw [tokens, if_neg hspace] at h
    obtain ⟨c, cs, rfl, rfl, rfl⟩ := List.map_eq_cons_iff.mp hcs.symm
    simp only [Option.bind_eq_bind, Option.bind_some, Option.bind_eq_some_iff] at h
    obtain ⟨⟨t, k⟩, hscan, us, hus, h⟩ := h
    cases h
    obtain ⟨w, rest, rfl, rfl, hw⟩ := scan_sound hscan (hts t List.mem_cons_self)
    apply Lexed.lexeme hw
    apply ih w.length us rest hus
    · intro u hu
      exact hts u (List.mem_cons_of_mem t hu)
    · exact drop_map_append w rest

def Apart (s t : Token) : Prop := ¬ (s.IsAtom ∧ t.IsAtom)

theorem stops_of_lexed {cs : List Char} {ts : List Token} (h : Lexed cs ts)
    (hts : ∀ t ∈ ts.head?, ¬ t.IsAtom) : Stops goesOn cs := by
  cases h with
  | nil => exact .nil
  | @space c cs ts hc h =>
    have hspace : c = ' ' ∨ c = '\t' ∨ c = '\n' ∨ c = '\r' := by simpa [isSpace] using hc
    apply Stops.cons
    rcases hspace with rfl | rfl | rfl | rfl <;> decide
  | lexeme hw h =>
    have hatom := hts _ rfl
    cases hw with
    | null | true | false | number => exact absurd ⟨_, rfl⟩ hatom
    | _ => exact Stops.cons (by decide) _

theorem tokens_complete {cs : List Char} {ts : List Token} (h : Lexed cs ts)
    (hts : ts.IsChain Apart) : tokens 0 (cs.map some) = some ts := by
  induction h with
  | nil => rfl
  | space hc _ ih => rw [List.map_cons, tokens, if_pos hc, ih hts]
  | @lexeme w cs t ts hw h ih =>
    have hstop : t.IsAtom → Stops goesOn cs := fun hatom =>
      stops_of_lexed h fun u hu hu' => (List.isChain_cons.mp hts).1 u hu ⟨hatom, hu'⟩
    obtain ⟨c, w, rfl, hspace, hscan⟩ := scan_complete hw hstop
    have hrest := ih (List.isChain_cons.mp hts).2
    rw [List.cons_append, List.map_cons, tokens, hspace, if_neg Bool.false_ne_true,
      Option.bind_eq_bind, Option.bind_some, hscan, Option.bind_eq_bind, Option.bind_some]
    dsimp only
    rw [List.map_append, tokens_append, hrest]
    rfl

end Token

end LiveComments.Json
