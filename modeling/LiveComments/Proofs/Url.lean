import LiveComments.Url.Web
import Mathlib.Data.List.TakeWhile

namespace LiveComments.Url

def PlainChar (c : Char) : Prop := c.toNat < 0x80 ∧ Web.pathSpecial c = false ∧ c ≠ '/' ∧ c ≠ '\\'

instance : DecidablePred PlainChar := fun _ => inferInstanceAs (Decidable (_ ∧ _))

structure PlainPart (part : List Char) : Prop where
  chars : ∀ c ∈ part, PlainChar c
  stays : Path.stays part = false
  goesBack : Path.goesBack part = false

def slashed (parts : List (List Char)) : List Char := parts.flatMap ('/' :: ·)

variable {parts : List (List Char)}

theorem PlainChar.ne {c d : Char} (hc : PlainChar c) (hd : Web.pathSpecial d = true) : c ≠ d := by
  rintro rfl
  cases hc.2.1.symm.trans hd

theorem PlainChar.of_isDigit {c : Char} (h : c.isDigit = true) : PlainChar c ∧ c ≠ '.' ∧ c ≠ '%' := by
  have hval : 48 ≤ c.val ∧ c.val ≤ 57 := by simpa [Char.isDigit] using h
  have hrange : 48 ≤ c.toNat ∧ c.toNat ≤ 57 := hval
  have hall : ∀ n ∈ List.range' 48 10,
      PlainChar (Char.ofNat n) ∧ Char.ofNat n ≠ '.' ∧ Char.ofNat n ≠ '%' := by decide
  rw [← Char.ofNat_toNat c]
  apply hall
  rw [List.mem_range'_1]
  omega

theorem plainDots_of_no_percent {part : List Char} (h : ∀ c ∈ part, c ≠ '%') :
    Path.plainDots part = part := by
  induction part with
  | nil => rfl
  | cons c part ih =>
    obtain ⟨hc, hrest⟩ := List.forall_mem_cons.mp h
    unfold Path.plainDots
    split
    · rename_i heq
      exact absurd (List.cons.inj heq).1 hc
    · rename_i heq
      exact absurd (List.cons.inj heq).1 hc
    · rename_i heq
      obtain ⟨rfl, rfl⟩ := List.cons.inj heq
      rw [ih hrest]
    · rename_i heq
      cases heq

theorem plainPart_of_undotted {part : List Char}
    (h : ∀ c ∈ part, PlainChar c ∧ c ≠ '.' ∧ c ≠ '%') : PlainPart part := by
  have hdots : Path.plainDots part = part := plainDots_of_no_percent fun c hc => (h c hc).2.2
  refine ⟨fun c hc => (h c hc).1, ?_, ?_⟩
  · rw [Path.stays, hdots]
    apply decide_eq_false
    rintro rfl
    exact (h '.' (by simp)).2.1 rfl
  · rw [Path.goesBack, hdots]
    apply decide_eq_false
    rintro rfl
    exact (h '.' (by simp)).2.1 rfl

theorem slashed_head (hne : parts ≠ []) : ∃ cs, slashed parts = '/' :: cs := by
  obtain ⟨part, parts, rfl⟩ := List.exists_cons_of_ne_nil hne
  exact ⟨part ++ slashed parts, rfl⟩

theorem mem_slashed {c : Char} (h : c ∈ slashed parts) : c = '/' ∨ ∃ part ∈ parts, c ∈ part := by
  obtain ⟨part, hpart, hc⟩ := List.mem_flatMap.mp h
  rcases List.mem_cons.mp hc with rfl | hc
  · exact .inl rfl
  · exact .inr ⟨part, hpart, hc⟩

theorem forall_slashed {P : Char → Prop} (hslash : P '/') (h : ∀ part ∈ parts, ∀ c ∈ part, P c) :
    ∀ c ∈ slashed parts, P c := by
  intro c hc
  rcases mem_slashed hc with rfl | ⟨part, hpart, hmem⟩
  · exact hslash
  · exact h part hpart c hmem

theorem split_append {part : List Char} (hpart : ∀ c ∈ part, c ≠ '/') (cs : List Char) :
    Text.split '/' (part ++ '/' :: cs) = part :: Text.split '/' cs := by
  induction part with
  | nil => rw [List.nil_append, Text.split, if_pos rfl]
  | cons c part ih =>
    obtain ⟨hc, hrest⟩ := List.forall_mem_cons.mp hpart
    rw [List.cons_append, Text.split, if_neg hc, ih hrest]

theorem split_part {part : List Char} (hpart : ∀ c ∈ part, c ≠ '/') : Text.split '/' part = [part] := by
  induction part with
  | nil => rfl
  | cons c part ih =>
    obtain ⟨hc, hrest⟩ := List.forall_mem_cons.mp hpart
    rw [Text.split, if_neg hc, ih hrest]

theorem split_slashed {part : List Char} (h : ∀ p ∈ part :: parts, ∀ c ∈ p, c ≠ '/') :
    Text.split '/' (part ++ slashed parts) = part :: parts := by
  induction parts generalizing part with
  | nil =>
    rw [slashed, List.flatMap_nil, List.append_nil]
    exact split_part (h part List.mem_cons_self)
  | cons next parts ih =>
    obtain ⟨hpart, hrest⟩ := List.forall_mem_cons.mp h
    rw [slashed, List.flatMap_cons, List.cons_append, split_append hpart]
    exact congrArg (part :: ·) (ih hrest)

theorem resolve_plain (h : ∀ part ∈ parts, Path.stays part = false ∧ Path.goesBack part = false)
    (reached : List (List Char)) : Path.resolve reached parts = reached.reverse ++ parts := by
  induction parts generalizing reached with
  | nil => rw [Path.resolve, List.append_nil]
  | cons part parts ih =>
    obtain ⟨⟨hstays, hback⟩, hrest⟩ := List.forall_mem_cons.mp h
    rw [Path.resolve, hstays, hback, Bool.or_false, if_neg Bool.false_ne_true, ih hrest,
      List.reverse_cons, List.append_assoc, List.singleton_append]

theorem encode_plain {cs : List Char} {special : Char → Bool}
    (h : ∀ c ∈ cs, c.toNat < 0x80 ∧ special c = false) : Percent.encode special cs = cs := by
  unfold Percent.encode
  induction cs with
  | nil => rfl
  | cons c cs ih =>
    obtain ⟨⟨hascii, hspecial⟩, hrest⟩ := List.forall_mem_cons.mp h
    rw [List.flatMap_cons, ih hrest, hspecial, decide_eq_true hascii]
    rfl

theorem target_slashed (hne : parts ≠ []) (h : ∀ part ∈ parts, PlainPart part) :
    Web.target (slashed parts) = slashed parts := by
  obtain ⟨part, parts, rfl⟩ := List.exists_cons_of_ne_nil hne
  have hchars : ∀ p ∈ part :: parts, ∀ c ∈ p, PlainChar c := fun p hp => (h p hp).chars
  have hall {P : Char → Prop} (hslash : P '/') (hplain : ∀ c, PlainChar c → P c) :
      ∀ c ∈ slashed (part :: parts), P c :=
    forall_slashed hslash fun p hp c hc => hplain c (hchars p hp c hc)
  have hfragment : (slashed (part :: parts)).takeWhile (· ≠ '#') = slashed (part :: parts) :=
    List.takeWhile_eq_self_iff.mpr (hall (by decide) fun c hc => decide_eq_true (hc.ne (by decide)))
  have hquery : (slashed (part :: parts)).takeWhile (· ≠ '?') = slashed (part :: parts) :=
    List.takeWhile_eq_self_iff.mpr (hall (by decide) fun c hc => decide_eq_true (hc.ne (by decide)))
  have hcut : Text.cut '?' (slashed (part :: parts)) = (slashed (part :: parts), none) := by
    rw [Text.cut, hquery, List.drop_length]
    rfl
  have hmap : (slashed (part :: parts)).map (fun c => if c = '\\' then '/' else c) =
      slashed (part :: parts) := by
    refine (List.map_congr_left ?_).trans (List.map_id' _)
    exact hall (by decide) fun c hc => if_neg hc.2.2.2
  have hdrop : (slashed (part :: parts)).drop 1 = part ++ slashed parts := rfl
  have hencode : Percent.encode Web.pathSpecial (part ++ slashed parts) = part ++ slashed parts := by
    apply encode_plain
    intro c hc
    have hfit : ∀ d ∈ slashed (part :: parts), d.toNat < 0x80 ∧ Web.pathSpecial d = false :=
      hall (by decide) fun d hd => ⟨hd.1, hd.2.1⟩
    exact hfit c (List.mem_cons_of_mem _ hc)
  have hsplit : Text.split '/' (part ++ slashed parts) = part :: parts :=
    split_slashed fun p hp c hc => (hchars p hp c hc).2.2.1
  have hresolve : Path.resolve [] (part :: parts) = part :: parts :=
    resolve_plain (fun p hp => ⟨(h p hp).stays, (h p hp).goesBack⟩) []
  unfold Web.target
  simp only [hfragment, hcut, hmap, hdrop, hencode, Path.normal, hsplit, hresolve, List.append_nil]
  rfl

end LiveComments.Url
