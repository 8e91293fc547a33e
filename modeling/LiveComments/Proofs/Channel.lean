import LiveComments.Channel
import LiveComments.Proofs.Text

namespace LiveComments

def hashed (s : String) : Prop := s.toList.head? = some '#'

instance (s : String) : Decidable (hashed s) := inferInstanceAs (Decidable (_ = _))

namespace Channel

def Proper : Channel → Prop
  | personal _ => True
  | post id => ¬hashed id

theorem personal_name (user : Int) : (personal user).name.toList = '#' :: (toString user).toList := by
  rw [name, String.toList_append]
  rfl

theorem hashed_personal (user : Int) : hashed (personal user).name := by
  rw [hashed, personal_name, List.head?_cons]

theorem personal_of_hashed {c : Channel} (hc : c.Proper) (h : hashed c.name) :
    ∃ user, c = personal user := by
  cases c with
  | personal user => exact ⟨user, rfl⟩
  | post id => exact absurd h hc

theorem personal_name_injective {u v : Int} (h : (personal u).name = (personal v).name) : u = v := by
  have ht := congrArg String.toList h
  rw [personal_name, personal_name, List.cons.injEq] at ht
  have hi := congrArg Text.integer? ht.2
  rw [Text.integer?_toString, Text.integer?_toString] at hi
  exact Option.some.inj hi

theorem name_injective {c d : Channel} (hc : c.Proper) (hd : d.Proper) (h : c.name = d.name) :
    c = d := by
  cases c with
  | personal u =>
    obtain ⟨v, rfl⟩ := personal_of_hashed hd (h ▸ hashed_personal u)
    rw [personal_name_injective h]
  | post id =>
    cases d with
    | personal v => exact absurd (hashed_personal v) (h ▸ hc)
    | post id' => exact congrArg post h

theorem parse_cases {s : String} {c : Channel} (h : parse s = .ok c) :
    (∃ user, c = personal user) ∨ (c = post (Text.trim s) ∧ ¬hashed (Text.trim s)) := by
  simp only [parse] at h
  split at h
  · cases h
  · split at h
    · cases h
      exact .inl ⟨_, rfl⟩
    · cases h
  · rename_i hhash
    cases h
    refine .inr ⟨rfl, fun hh => ?_⟩
    obtain ⟨cs, hcs⟩ := List.head?_eq_some_iff.mp hh
    exact hhash cs hcs

theorem parse_proper {s : String} {c : Channel} (h : parse s = .ok c) : c.Proper := by
  rcases parse_cases h with ⟨user, rfl⟩ | ⟨rfl, hh⟩
  · exact trivial
  · exact hh

theorem parse_trimmed {s id : String} (h : parse s = .ok (post id)) : Text.trim id = id := by
  rcases parse_cases h with ⟨user, hc⟩ | ⟨hc, -⟩
  · cases hc
  · cases hc
    exact Text.trim_trim s

theorem owner_of_admits {owner user : Int} (h : ((personal owner).admits user).isOk = true) :
    owner = user := by
  simp only [admits] at h
  split at h
  · assumption
  · cases h

theorem parse_trim (s : String) : parse (Text.trim s) = parse s := by
  rw [parse, parse, Text.trim_trim]

theorem parse_append {before after : String} (hbefore : Text.blank before = true)
    (hafter : Text.blank after = true) (s : String) : parse (before ++ s ++ after) = parse s := by
  rw [parse, parse, Text.trim_append hbefore hafter]

theorem parse_of_blank {s : String} (h : Text.blank s = true) :
    parse s = .error (.bad "channel name is required") := by
  simp only [parse, Text.trim_nil_iff.mpr h]

theorem parse_of_hash {s : String} {id : List Char} (h : (Text.trim s).toList = '#' :: id) :
    parse s = match (Text.integer? id).filter Text.fitsInt64 with
      | some user => .ok (personal user)
      | none => .error (.bad s!"malformed private channel {Text.quoted (Text.trim s)}") := by
  cases hid : (Text.integer? id).filter Text.fitsInt64 with
  | none => simp only [parse, h, hid]
  | some user => simp only [parse, h, hid]

theorem parse_of_name {s : String} (hblank : Text.blank s = false) (hhash : ¬hashed (Text.trim s)) :
    parse s = .ok (post (Text.trim s)) := by
  simp only [parse]
  split
  · rename_i hnil
    rw [Text.trim_nil_iff.mp hnil] at hblank
    cases hblank
  · rename_i id hs
    exact absurd (congrArg List.head? hs) hhash
  · rfl

theorem spelling (s : String) : Text.blank s = true ∨ (∃ id, (Text.trim s).toList = '#' :: id) ∨
    (Text.blank s = false ∧ ¬hashed (Text.trim s)) := by
  by_cases hblank : Text.blank s = true
  · exact .inl hblank
  by_cases hhash : hashed (Text.trim s)
  · exact .inr (.inl (List.head?_eq_some_iff.mp hhash))
  · exact .inr (.inr ⟨Bool.eq_false_iff.mpr hblank, hhash⟩)

theorem parse_hash_ok {s : String} {id : List Char} {user : Int}
    (h : (Text.trim s).toList = '#' :: id) (hid : Text.Decimal id user)
    (hfits : Text.fitsInt64 user = true) : parse s = .ok (personal user) := by
  rw [parse_of_hash h, Text.integer?_eq_some.mpr hid, Option.filter_some, if_pos hfits]

theorem parse_hash_error {s : String} {id : List Char} (h : (Text.trim s).toList = '#' :: id)
    (hid : ∀ user, Text.Decimal id user → Text.fitsInt64 user = false) :
    parse s = .error (.bad s!"malformed private channel {Text.quoted (Text.trim s)}") := by
  have hnone : (Text.integer? id).filter Text.fitsInt64 = none := by
    apply Option.filter_eq_none_iff.mpr
    intro user huser
    rw [hid user (Text.integer?_eq_some.mp huser)]
    exact Bool.false_ne_true
  rw [parse_of_hash h, hnone]

theorem parse_personal {s : String} {user : Int} (h : parse s = .ok (personal user)) :
    ∃ id, (Text.trim s).toList = '#' :: id ∧ Text.Decimal id user ∧ Text.fitsInt64 user = true := by
  rcases spelling s with hblank | ⟨id, hs⟩ | ⟨hblank, hhash⟩
  · rw [parse_of_blank hblank] at h
    cases h
  · refine ⟨id, hs, ?_⟩
    rw [parse_of_hash hs] at h
    split at h
    · rename_i hread
      cases h
      obtain ⟨hread, hfits⟩ := Option.filter_eq_some_iff.mp hread
      exact ⟨Text.integer?_eq_some.mp hread, hfits⟩
    · cases h
  · rw [parse_of_name hblank hhash] at h
    cases h

theorem parse_error_iff (s : String) : (∃ e, parse s = .error e) ↔
    Text.blank s = true ∨ ∃ id, (Text.trim s).toList = '#' :: id ∧
      ∀ user, Text.Decimal id user → Text.fitsInt64 user = false := by
  constructor
  · rintro ⟨e, he⟩
    rcases spelling s with hblank | ⟨id, hs⟩ | ⟨hblank, hhash⟩
    · exact .inl hblank
    · refine .inr ⟨id, hs, fun user hid => ?_⟩
      by_contra hfits
      rw [parse_hash_ok hs hid (by simpa using hfits)] at he
      cases he
    · rw [parse_of_name hblank hhash] at he
      cases he
  · rintro (hblank | ⟨id, hs, hid⟩)
    · exact ⟨_, parse_of_blank hblank⟩
    · exact ⟨_, parse_hash_error hs hid⟩

theorem trim_personal (user : Int) : Text.trim (personal user).name = (personal user).name := by
  apply Text.trim_of_unblank
  intro c hc
  rw [personal_name] at hc
  rcases List.mem_cons.mp hc with rfl | hc
  · decide
  · rcases Text.digits_or_minus hc with hdigit | rfl
    · exact Text.not_blank_of_isDigit hdigit
    · decide

theorem parse_personal_name {user : Int} (h : Text.fitsInt64 user = true) :
    parse (personal user).name = .ok (personal user) := by
  have hname : (Text.trim (personal user).name).toList = '#' :: (toString user).toList := by
    rw [trim_personal, personal_name]
  exact parse_hash_ok hname (Text.integer?_eq_some.mp (Text.integer?_toString user)) h

theorem parse_name {s : String} {c : Channel} (h : parse s = .ok c) : parse c.name = .ok c := by
  rcases parse_cases h with ⟨user, rfl⟩ | ⟨rfl, -⟩
  · obtain ⟨-, -, -, hfits⟩ := parse_personal h
    exact parse_personal_name hfits
  · exact (parse_trim s).trans h

/-- The names of channels are canonical: a channel is read back from its name, white space around a
spelling does not count, and no two channels have one name. What names no channel is refused. -/
theorem names_are_canonical :
    (∀ s c, parse s = .ok c → parse c.name = .ok c ∧
      (∀ before after, Text.blank before = true → Text.blank after = true →
        parse (before ++ s ++ after) = .ok c) ∧
      ((∃ user, c = personal user) ↔ hashed c.name)) ∧
    (∀ s t c d, parse s = .ok c → parse t = .ok d → (c.name = d.name ↔ c = d)) ∧
    (∀ user : Int64, parse ("#" ++ toString user.toInt) = .ok (personal user.toInt)) ∧
    ∀ s, (∃ e, parse s = .error e) ↔
      Text.blank s = true ∨ ∃ id, (Text.trim s).toList = '#' :: id ∧
        ¬∃ user, Text.Decimal id user ∧ -2 ^ 63 ≤ user ∧ user < 2 ^ 63 := by
  refine ⟨?_, ?_, ?_, ?_⟩
  · intro s c h
    refine ⟨parse_name h, fun before after hbefore hafter => ?_, ?_⟩
    · rw [parse_append hbefore hafter, h]
    · constructor
      · rintro ⟨user, rfl⟩
        exact hashed_personal user
      · exact personal_of_hashed (parse_proper h)
  · intro s t c d hc hd
    constructor
    · exact name_injective (parse_proper hc) (parse_proper hd)
    · exact congrArg name
  · intro user
    exact parse_personal_name (Text.fitsInt64_toInt user)
  · intro s
    rw [parse_error_iff]
    have hrange (user : Int) : Text.fitsInt64 user = false ↔ ¬(-2 ^ 63 ≤ user ∧ user < 2 ^ 63) := by
      rw [← Bool.not_eq_true, Text.fitsInt64_iff]
      omega
    simp only [hrange, not_exists, not_and]

end Channel

end LiveComments
