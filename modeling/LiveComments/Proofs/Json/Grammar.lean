import LiveComments.Proofs.Command
import LiveComments.Proofs.Json.Lexer

/-!
The grammar of JSON values over tokens. A text is read as a value exactly when it is a row of lexemes
that the grammar gives this value, with a fixed number of containers inside each other and the last
of equal names in an object.
-/

namespace LiveComments.Json

/-! ### The grammar -/

inductive Scalar : List Token → Json → Prop
  | atom (v : Json) : Scalar [.atom (.ok v)] v
  | text (s : String) : Scalar [.text (.ok s)] (.str s)

section
variable (V : List Token → Json → Prop)

inductive Items : List Token → List Json → Prop
  | one {ts : List Token} {v : Json} (h : V ts v) : Items ts [v]
  | more {ts us : List Token} {v : Json} {vs : List Json} (h : V ts v) (hs : Items us vs) :
      Items (ts ++ .comma :: us) (v :: vs)

inductive Members : List Token → List (String × Json) → Prop
  | one {name : String} {ts : List Token} {v : Json} (h : V ts v) :
      Members (.text (.ok name) :: .colon :: ts) [(name, v)]
  | more {name : String} {ts us : List Token} {v : Json} {es : List (String × Json)} (h : V ts v)
      (hs : Members us es) :
      Members (.text (.ok name) :: .colon :: (ts ++ .comma :: us)) ((name, v) :: es)

def collect (es : List (String × Json)) : List (String × Json) :=
  es.foldl (fun ms e => Draft.replace e.1 e.2 ms) []

inductive Container : List Token → Json → Prop
  | noItems : Container [.openItems, .closeItems] (.arr [])
  | items {ts : List Token} {vs : List Json} (h : Items V ts vs) :
      Container (.openItems :: (ts ++ [.closeItems])) (.arr vs)
  | noMembers : Container [.openMembers, .closeMembers] (.obj [])
  | members {ts : List Token} {es : List (String × Json)} (h : Members V ts es) :
      Container (.openMembers :: (ts ++ [.closeMembers])) (.obj (collect es))

end

/-- A value with at most so many containers inside each other. -/
def Value : Nat → List Token → Json → Prop
  | 0, ts, v => Scalar ts v
  | depth + 1, ts, v => Scalar ts v ∨ Container (Value depth) ts v

def Denotes (text : String) (v : Json) : Prop :=
  ∃ ts, Lexed text.toList ts ∧ Value Draft.nesting ts v

theorem Scalar.value {ts : List Token} {v : Json} (h : Scalar ts v) (depth : Nat) :
    Value depth ts v := by
  cases depth with
  | zero => exact h
  | succ depth => exact .inl h

/-! ### The last of equal names -/

theorem member?_collect (name : String) (es : List (String × Json)) :
    member? name (collect es) = (es.reverse.find? (·.1 = name)).map (·.2) := by
  suffices hfold : ∀ done, member? name (es.foldl (fun ms e => Draft.replace e.1 e.2 ms) done) =
      ((es.reverse.find? (·.1 = name)).map (·.2)).or (member? name done) by
    rw [collect, hfold []]
    exact Option.or_none
  intro done
  induction es generalizing done with
  | nil => rfl
  | cons e es ih =>
    rw [List.foldl_cons, ih, List.reverse_cons, List.find?_append, Option.map_or, Option.or_assoc,
      member?_replace]
    by_cases he : e.1 = name <;> simp [he]

/-! ### Tokens of a value -/

def Spread (ts : List Token) : Prop := (∀ t ∈ ts, t.Settled) ∧ ts.IsChain Token.Apart

theorem Spread.nil : Spread [] := ⟨nofun, .nil⟩

theorem Spread.glue {ts us : List Token} {t : Token} (hts : Spread ts) (hus : Spread us)
    (ht : t.Settled) (hatom : ¬ t.IsAtom) : Spread (ts ++ t :: us) := by
  constructor
  · intro u hu
    rcases List.mem_append.mp hu with hu | hu
    · exact hts.1 u hu
    · rcases List.mem_cons.mp hu with rfl | hu
      · exact ht
      · exact hus.1 u hu
  · apply List.IsChain.append hts.2
    · apply List.IsChain.cons hus.2
      intro u _ hu
      exact hatom hu.1
    · rintro s - u hu ⟨-, hu'⟩
      cases hu
      exact hatom hu'

theorem spread_mark {ts : List Token} {t : Token} (hts : Spread ts) (ht : t.Settled)
    (hatom : ¬ t.IsAtom) : Spread (t :: ts) := Spread.nil.glue hts ht hatom

theorem spread_member (name : String) {ts : List Token} (h : Spread ts) :
    Spread (.text (.ok name) :: .colon :: ts) := by
  have hcolon : Spread (.colon :: ts) := spread_mark h trivial nofun
  have htext : Token.Settled (.text (.ok name)) := ⟨name, rfl⟩
  exact spread_mark hcolon htext nofun

theorem spread_comma {ts us : List Token} (hts : Spread ts) (hus : Spread us) :
    Spread (ts ++ .comma :: us) :=
  hts.glue hus trivial nofun

theorem Scalar.spread {ts : List Token} {v : Json} (h : Scalar ts v) : Spread ts := by
  cases h <;> exact ⟨by simp [Token.Settled], .singleton _⟩

section
variable {V : List Token → Json → Prop} (hV : ∀ ts v, V ts v → Spread ts)
include hV

theorem Items.spread {ts : List Token} {vs : List Json} (h : Items V ts vs) : Spread ts := by
  induction h with
  | one h => exact hV _ _ h
  | more h _ ih => exact spread_comma (hV _ _ h) ih

theorem Members.spread {ts : List Token} {es : List (String × Json)} (h : Members V ts es) :
    Spread ts := by
  induction h with
  | one h => exact spread_member _ (hV _ _ h)
  | more h _ ih => exact spread_member _ (spread_comma (hV _ _ h) ih)

theorem Container.spread {ts : List Token} {v : Json} (h : Container V ts v) : Spread ts := by
  have hbetween {o c : Token} {ts : List Token} (hts : Spread ts) (ho : o.Settled) (hc : c.Settled)
      (ho' : ¬ o.IsAtom) (hc' : ¬ c.IsAtom) : Spread (o :: (ts ++ [c])) :=
    spread_mark (hts.glue .nil hc hc') ho ho'
  cases h with
  | noItems => exact hbetween .nil trivial trivial nofun nofun
  | items h => exact hbetween (h.spread hV) trivial trivial nofun nofun
  | noMembers => exact hbetween .nil trivial trivial nofun nofun
  | members h => exact hbetween (h.spread hV) trivial trivial nofun nofun

end

theorem Value.spread {depth : Nat} {ts : List Token} {v : Json} (h : Value depth ts v) :
    Spread ts := by
  induction depth generalizing ts v with
  | zero => exact Scalar.spread h
  | succ depth ih =>
    rcases h with h | h
    · exact h.spread
    · exact h.spread fun _ _ => ih

/-! ### What is read follows the grammar -/

namespace Draft

def ReadsValue (fuel : Nat) : Prop := ∀ ⦃ts rest d depth v⦄, value fuel ts = some (d, rest) →
  settle depth d = some v → ∃ used, ts = used ++ rest ∧ Value depth used v

def ReadsItems (fuel : Nat) : Prop := ∀ ⦃ts rest ds depth vs⦄, items fuel ts = some (ds, rest) →
  settleItems depth ds = some vs →
    ∃ used, ts = used ++ .closeItems :: rest ∧ Items (Value depth) used vs

def ReadsMembers (fuel : Nat) : Prop := ∀ ⦃ts rest ds depth done ms⦄,
  members fuel ts = some (ds, rest) → settleMembers depth ds done = some ms →
    ∃ used es, ts = used ++ .closeMembers :: rest ∧ Members (Value depth) used es ∧
      ms = es.foldl (fun ms e => replace e.1 e.2 ms) done

theorem settle_arr {depth : Nat} {ds : List Draft} {v : Json} (h : settle depth (.arr ds) = some v) :
    ∃ k vs, depth = k + 1 ∧ settleItems k ds = some vs ∧ v = .arr vs := by
  cases depth with
  | zero => cases h
  | succ k =>
    obtain ⟨vs, hvs, rfl⟩ := Option.map_eq_some_iff.mp h
    exact ⟨k, vs, rfl, hvs, rfl⟩

theorem settle_obj {depth : Nat} {ds : List (Leaf String × Draft)} {v : Json}
    (h : settle depth (.obj ds) = some v) :
    ∃ k ms, depth = k + 1 ∧ settleMembers k ds [] = some ms ∧ v = .obj ms := by
  cases depth with
  | zero => cases h
  | succ k =>
    obtain ⟨ms, hms, rfl⟩ := Option.map_eq_some_iff.mp h
    exact ⟨k, ms, rfl, hms, rfl⟩

theorem toOption_eq_some {α : Type} {x : Leaf α} {a : α} (h : x.toOption = some a) : x = .ok a := by
  cases x with
  | error flaw => cases h
  | ok b =>
    cases h
    rfl

theorem ReadsValue.step {fuel : Nat} (hitems : ReadsItems fuel) (hmembers : ReadsMembers fuel) :
    ReadsValue (fuel + 1) := by
  intro ts rest d depth v h hv
  unfold value at h
  split at h
  · cases h
    rw [settle] at hv
    obtain rfl := toOption_eq_some hv
    exact ⟨_, rfl, (Scalar.atom v).value depth⟩
  · cases h
    rw [settle] at hv
    obtain ⟨s, hs, rfl⟩ := Option.map_eq_some_iff.mp hv
    obtain rfl := toOption_eq_some hs
    exact ⟨_, rfl, (Scalar.text s).value depth⟩
  · cases h
    obtain ⟨k, vs, rfl, hvs, rfl⟩ := settle_arr hv
    cases hvs
    exact ⟨_, rfl, .inr .noItems⟩
  · obtain ⟨⟨ds, rest⟩, hds, h⟩ := Option.map_eq_some_iff.mp h
    cases h
    obtain ⟨k, vs, rfl, hvs, rfl⟩ := settle_arr hv
    obtain ⟨used, rfl, hused⟩ := hitems hds hvs
    exact ⟨_, by simp, .inr (.items hused)⟩
  · cases h
    obtain ⟨k, ms, rfl, hms, rfl⟩ := settle_obj hv
    cases hms
    exact ⟨_, rfl, .inr .noMembers⟩
  · obtain ⟨⟨ds, rest⟩, hds, h⟩ := Option.map_eq_some_iff.mp h
    cases h
    obtain ⟨k, ms, rfl, hms, rfl⟩ := settle_obj hv
    obtain ⟨used, es, rfl, hused, rfl⟩ := hmembers hds hms
    exact ⟨_, by simp, .inr (.members hused)⟩
  · cases h

theorem ReadsItems.step {fuel : Nat} (hvalue : ReadsValue fuel) (hitems : ReadsItems fuel) :
    ReadsItems (fuel + 1) := by
  intro ts rest ds depth vs h hvs
  obtain ⟨⟨d, ts'⟩, hd, h⟩ := Option.bind_eq_some_iff.mp h
  dsimp only at h
  split at h
  · obtain ⟨⟨ds, rest⟩, hds, h⟩ := Option.map_eq_some_iff.mp h
    cases h
    obtain ⟨v, hv, hvs⟩ := Option.bind_eq_some_iff.mp hvs
    obtain ⟨ws, hws, h⟩ := Option.bind_eq_some_iff.mp hvs
    cases h
    obtain ⟨used, rfl, hused⟩ := hvalue hd hv
    obtain ⟨more, rfl, hmore⟩ := hitems hds hws
    exact ⟨_, by simp, .more hused hmore⟩
  · cases h
    obtain ⟨v, hv, hvs⟩ := Option.bind_eq_some_iff.mp hvs
    cases hvs
    obtain ⟨used, rfl, hused⟩ := hvalue hd hv
    exact ⟨used, rfl, .one hused⟩
  · cases h

theorem ReadsMembers.step {fuel : Nat} (hvalue : ReadsValue fuel) (hmembers : ReadsMembers fuel) :
    ReadsMembers (fuel + 1) := by
  intro ts rest ds depth done ms h hms
  unfold members at h
  split at h
  · obtain ⟨⟨d, ts'⟩, hd, h⟩ := Option.bind_eq_some_iff.mp h
    dsimp only at h
    split at h
    · obtain ⟨⟨ds, rest⟩, hds, h⟩ := Option.map_eq_some_iff.mp h
      cases h
      obtain ⟨v, hv, hms⟩ := Option.bind_eq_some_iff.mp hms
      obtain ⟨k, hk, hms⟩ := Option.bind_eq_some_iff.mp hms
      obtain rfl := toOption_eq_some hk
      obtain ⟨used, rfl, hused⟩ := hvalue hd hv
      obtain ⟨more, es, rfl, hmore, rfl⟩ := hmembers hds hms
      exact ⟨_, _, by simp, .more hused hmore, rfl⟩
    · cases h
      obtain ⟨v, hv, hms⟩ := Option.bind_eq_some_iff.mp hms
      obtain ⟨k, hk, hms⟩ := Option.bind_eq_some_iff.mp hms
      obtain rfl := toOption_eq_some hk
      cases hms
      obtain ⟨used, rfl, hused⟩ := hvalue hd hv
      exact ⟨_, _, rfl, .one hused, rfl⟩
    · cases h
  · cases h

theorem reads (fuel : Nat) : ReadsValue fuel ∧ ReadsItems fuel ∧ ReadsMembers fuel := by
  induction fuel with
  | zero => exact ⟨nofun, nofun, nofun⟩
  | succ fuel ih =>
    obtain ⟨hvalue, hitems, hmembers⟩ := ih
    exact ⟨.step hitems hmembers, .step hvalue hitems, .step hvalue hmembers⟩

/-! ### What follows the grammar is read -/

def Drafted (depth : Nat) (ts : List Token) (v : Json) : Prop :=
  ∃ d, settle depth d = some v ∧
    ∀ fuel rest, ts.length ≤ fuel → value fuel (ts ++ rest) = some (d, rest)

theorem drafted_scalar {ts : List Token} {v : Json} (h : Scalar ts v) (depth : Nat) :
    Drafted depth ts v := by
  cases h with
  | atom v =>
    refine ⟨.atom (.ok v), by rw [settle]; rfl, ?_⟩
    intro fuel rest hfuel
    cases fuel with
    | zero => cases hfuel
    | succ fuel => rfl
  | text s =>
    refine ⟨.text (.ok s), by rw [settle]; rfl, ?_⟩
    intro fuel rest hfuel
    cases fuel with
    | zero => cases hfuel
    | succ fuel => rfl

theorem items_closeItems (fuel : Nat) (ts : List Token) : items fuel (.closeItems :: ts) = none := by
  cases fuel with
  | zero => rfl
  | succ fuel => cases fuel <;> rfl

theorem members_closeMembers (fuel : Nat) (ts : List Token) :
    members fuel (.closeMembers :: ts) = none := by
  cases fuel <;> rfl

theorem value_openItems {fuel : Nat} {ts rest : List Token} {ds : List Draft}
    (h : items fuel ts = some (ds, rest)) :
    value (fuel + 1) (.openItems :: ts) = some (.arr ds, rest) := by
  rw [value, h]
  · rfl
  · rintro us rfl
    rw [items_closeItems] at h
    cases h

theorem value_openMembers {fuel : Nat} {ts rest : List Token} {ds : List (Leaf String × Draft)}
    (h : members fuel ts = some (ds, rest)) :
    value (fuel + 1) (.openMembers :: ts) = some (.obj ds, rest) := by
  rw [value, h]
  · rfl
  · rintro us rfl
    rw [members_closeMembers] at h
    cases h

section
variable {depth : Nat} {V : List Token → Json → Prop} (hV : ∀ ts v, V ts v → Drafted depth ts v)
include hV

theorem drafted_items {ts : List Token} {vs : List Json} (h : Items V ts vs) :
    ∃ ds, settleItems depth ds = some vs ∧ ∀ fuel rest, ts.length < fuel →
      items fuel (ts ++ .closeItems :: rest) = some (ds, rest) := by
  induction h with
  | @one ts v h =>
    obtain ⟨d, hd, hread⟩ := hV _ _ h
    refine ⟨[d], by simp [settleItems, hd], ?_⟩
    intro fuel rest hfuel
    obtain ⟨fuel, rfl⟩ := Nat.exists_eq_succ_of_ne_zero (Nat.ne_zero_of_lt hfuel)
    rw [items, hread fuel _ (by omega)]
    rfl
  | @more ts us v vs h _ ih =>
    obtain ⟨d, hd, hread⟩ := hV _ _ h
    obtain ⟨ds, hds, hmore⟩ := ih
    refine ⟨d :: ds, by simp [settleItems, hd, hds], ?_⟩
    intro fuel rest hfuel
    rw [List.length_append, List.length_cons] at hfuel
    obtain ⟨fuel, rfl⟩ := Nat.exists_eq_succ_of_ne_zero (Nat.ne_zero_of_lt hfuel)
    rw [List.append_assoc, items, hread fuel _ (by omega)]
    simp [hmore fuel rest (by omega)]

theorem drafted_members {ts : List Token} {es : List (String × Json)} (h : Members V ts es) :
    ∃ ds, (∀ done, settleMembers depth ds done =
        some (es.foldl (fun ms e => replace e.1 e.2 ms) done)) ∧
      ∀ fuel rest, ts.length ≤ fuel →
        members fuel (ts ++ .closeMembers :: rest) = some (ds, rest) := by
  induction h with
  | @one name ts v h =>
    obtain ⟨d, hd, hread⟩ := hV _ _ h
    refine ⟨[(.ok name, d)], by simp [settleMembers, hd, Except.toOption], ?_⟩
    intro fuel rest hfuel
    rw [List.length_cons, List.length_cons] at hfuel
    obtain ⟨fuel, rfl⟩ := Nat.exists_eq_succ_of_ne_zero (Nat.ne_zero_of_lt hfuel)
    rw [List.cons_append, List.cons_append, members, hread fuel _ (by omega)]
    rfl
  | @more name ts us v es h _ ih =>
    obtain ⟨d, hd, hread⟩ := hV _ _ h
    obtain ⟨ds, hds, hmore⟩ := ih
    refine ⟨(.ok name, d) :: ds, by simp [settleMembers, hd, hds, Except.toOption], ?_⟩
    intro fuel rest hfuel
    simp only [List.length_cons, List.length_append] at hfuel
    obtain ⟨fuel, rfl⟩ := Nat.exists_eq_succ_of_ne_zero (Nat.ne_zero_of_lt hfuel)
    rw [List.cons_append, List.cons_append, List.append_assoc, members, hread fuel _ (by omega)]
    simp [hmore fuel rest (by omega)]

theorem drafted_container {ts : List Token} {v : Json} (h : Container V ts v) :
    Drafted (depth + 1) ts v := by
  cases h with
  | noItems =>
    refine ⟨.arr [], rfl, ?_⟩
    intro fuel rest hfuel
    obtain ⟨fuel, rfl⟩ := Nat.exists_eq_succ_of_ne_zero (Nat.ne_zero_of_lt hfuel)
    rfl
  | items h =>
    obtain ⟨ds, hds, hread⟩ := drafted_items hV h
    refine ⟨.arr ds, by simp [settle, hds], ?_⟩
    intro fuel rest hfuel
    simp only [List.length_cons, List.length_append] at hfuel
    obtain ⟨fuel, rfl⟩ := Nat.exists_eq_succ_of_ne_zero (Nat.ne_zero_of_lt hfuel)
    rw [List.cons_append, List.append_assoc]
    exact value_openItems (hread fuel rest (by omega))
  | noMembers =>
    refine ⟨.obj [], rfl, ?_⟩
    intro fuel rest hfuel
    obtain ⟨fuel, rfl⟩ := Nat.exists_eq_succ_of_ne_zero (Nat.ne_zero_of_lt hfuel)
    rfl
  | @members ts es h =>
    obtain ⟨ds, hds, hread⟩ := drafted_members hV h
    refine ⟨.obj ds, by rw [settle, hds]; rfl, ?_⟩
    intro fuel rest hfuel
    simp only [List.length_cons, List.length_append] at hfuel
    obtain ⟨fuel, rfl⟩ := Nat.exists_eq_succ_of_ne_zero (Nat.ne_zero_of_lt hfuel)
    rw [List.cons_append, List.append_assoc]
    exact value_openMembers (hread fuel rest (by omega))

end

theorem drafted {depth : Nat} {ts : List Token} {v : Json} (h : Value depth ts v) :
    Drafted depth ts v := by
  induction depth generalizing ts v with
  | zero => exact drafted_scalar h 0
  | succ depth ih =>
    rcases h with h | h
    · exact drafted_scalar h (depth + 1)
    · exact drafted_container (fun _ _ => ih) h

end Draft

/-! ### Texts -/

theorem read?_eq_some {text : String} {v : Json} : read? text = some v ↔ Denotes text v := by
  constructor
  · intro h
    obtain ⟨d, hd, hv⟩ := Option.bind_eq_some_iff.mp h
    obtain ⟨ts, hts, h⟩ := Option.bind_eq_some_iff.mp hd
    obtain ⟨⟨d', rest⟩, hvalue, h⟩ := Option.bind_eq_some_iff.mp h
    split at h
    · rename_i heq
      cases heq
      cases h
      obtain ⟨used, rfl, hused⟩ := (Draft.reads _).1 hvalue hv
      rw [List.append_nil] at hts
      exact ⟨used, Token.tokens_sound hts hused.spread.1, hused⟩
    · cases h
  · rintro ⟨ts, hts, hv⟩
    obtain ⟨d, hd, hread⟩ := Draft.drafted hv
    have hvalue := hread (2 * ts.length + 2) [] (by omega)
    rw [List.append_nil] at hvalue
    rw [read?, Draft.of?, Token.tokens_complete hts hv.spread.2]
    simp [hvalue, hd]

end LiveComments.Json
