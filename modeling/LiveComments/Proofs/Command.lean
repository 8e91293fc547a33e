import LiveComments.Command
import LiveComments.Proofs.Json.Numeral
import LiveComments.Proofs.Json.Record

namespace LiveComments

namespace Json

def Bare (v : Json) : Prop := ∀ name, v.get? name = none

theorem Numeral.bare_value? {l : Numeral} {v : Json} (h : l.value? = some v) : v.Bare := by
  cases value?_eq_some.mp h <;> exact fun _ => rfl

def Token.Bare (t : Token) : Prop := ∀ v, t = .atom (.ok v) → v.Bare

namespace Token

theorem bare_word {rest : List Symbol} {spelling : String} {value : Json} {t : Token} {k : Nat}
    (h : word rest spelling value = some (t, k)) (hv : value.Bare) : t.Bare := by
  unfold word at h
  split at h
  · cases h
    rintro v ⟨⟩
    exact hv
  · cases h

theorem bare_number {negative : Bool} {cs : List Symbol} {t : Token} {k : Nat}
    (h : number negative cs = some (t, k)) : t.Bare := by
  unfold number at h
  dsimp only at h
  split at h
  · cases h
  obtain ⟨⟨fraction, i⟩, -, h⟩ := Option.bind_eq_some_iff.mp h
  obtain ⟨⟨exponent, j⟩, -, h⟩ := Option.bind_eq_some_iff.mp h
  cases h
  rintro v hv
  rw [Token.atom.injEq, numeralValue] at hv
  split at hv
  · rename_i w hw
    cases hv
    exact Numeral.bare_value? hw
  · cases hv

theorem bare_scan {c : Char} {rest : List Symbol} {t : Token} {k : Nat}
    (h : scan c rest = some (t, k)) : t.Bare := by
  unfold scan at h
  split at h
  case h_7 => exact bare_word h fun _ => rfl
  case h_8 => exact bare_word h fun _ => rfl
  case h_9 => exact bare_word h fun _ => rfl
  case h_10 =>
    obtain ⟨x, -, hx⟩ := Option.map_eq_some_iff.mp h
    cases hx
    exact nofun
  case h_11 => exact bare_number h
  case h_12 =>
    split at h
    · obtain ⟨x, hn, hx⟩ := Option.map_eq_some_iff.mp h
      cases hx
      exact bare_number hn
    · cases h
  all_goals
    cases h
    exact nofun

theorem bare_tokens {k : Nat} {cs : List Symbol} {ts : List Token} (h : tokens k cs = some ts) :
    ∀ t ∈ ts, t.Bare := by
  induction k, cs using tokens.induct generalizing ts with
  | case1 k =>
    cases h
    exact nofun
  | case2 k c cs ih => exact ih h
  | case3 c cs hspace ih =>
    rw [tokens, if_pos hspace] at h
    exact ih h
  | case4 c cs hspace ih =>
    rw [tokens, if_neg hspace] at h
    simp only [Option.bind_eq_bind, Option.bind_eq_some_iff] at h
    obtain ⟨c, rfl, ⟨t, k⟩, hscan, rest, hrest, h⟩ := h
    cases h
    intro t' ht'
    rcases List.mem_cons.mp ht' with rfl | ht'
    · exact bare_scan hscan
    · exact ih k hrest t' ht'

end Token

theorem Draft.mem_of_atom {fuel : Nat} {ts rest : List Token} {a : Leaf Json}
    (h : Draft.value fuel ts = some (.atom a, rest)) : .atom a ∈ ts := by
  cases fuel with
  | zero => cases h
  | succ fuel =>
    unfold Draft.value at h
    split at h
    · cases h
      exact List.mem_cons_self
    · cases h
    · cases h
    · obtain ⟨x, -, hx⟩ := Option.map_eq_some_iff.mp h
      cases hx
    · cases h
    · obtain ⟨x, -, hx⟩ := Option.map_eq_some_iff.mp h
      cases hx
    · cases h

theorem Draft.bare_of? {cs : List Symbol} {v : Json} (h : Draft.of? cs = some (.atom (.ok v))) :
    v.Bare := by
  unfold Draft.of? at h
  simp only [Option.bind_eq_bind, Option.bind_eq_some_iff] at h
  obtain ⟨ts, hts, ⟨d, rest⟩, hd, h⟩ := h
  split at h
  · rename_i d' hd'
    cases h
    cases hd'
    exact Token.bare_tokens hts _ (Draft.mem_of_atom hd) v rfl
  · cases h

def last? (name text : String) : Option Json :=
  match Draft.of? (text.toList.map some), read? text with
  | some (.obj ds), some _ =>
    (ds.reverse.find? (·.1.toOption = some name)).bind (·.2.settle (Draft.nesting - 1))
  | _, _ => none

theorem member?_replace (k name : String) (v : Json) (ms : List (String × Json)) :
    member? name (Draft.replace k v ms) = if k = name then some v else member? name ms := by
  unfold member?
  induction ms with
  | nil => by_cases h : k = name <;> simp [Draft.replace, h]
  | cons e ms ih =>
    obtain ⟨j, w⟩ := e
    rw [Draft.replace]
    by_cases hj : j = k
    · by_cases h : k = name <;> simp [hj, h]
    · rw [if_neg hj, List.find?_cons, List.find?_cons]
      by_cases hn : j = name
      · have hk : k ≠ name := fun hk => hj (hn.trans hk.symm)
        simp [hn, hk]
      · simpa [hn] using ih

theorem find?_settleMembers {depth : Nat} {ds : List (Leaf String × Draft)}
    {done ms : List (String × Json)} (h : Draft.settleMembers depth ds done = some ms)
    (name : String) :
    member? name ms = match ds.reverse.find? (·.1.toOption = some name) with
      | some e => e.2.settle depth
      | none => member? name done := by
  induction ds generalizing done with
  | nil =>
    rw [Draft.settleMembers, Option.some.injEq] at h
    rw [← h]
    rfl
  | cons e ds ih =>
    obtain ⟨n, d⟩ := e
    simp only [Draft.settleMembers, Option.bind_eq_bind, Option.bind_eq_some_iff] at h
    obtain ⟨v, hv, k, hk, h⟩ := h
    -- A member replaces an earlier one of its name, so one that comes later counts before it.
    rw [ih h, List.reverse_cons, List.find?_append]
    cases ds.reverse.find? (·.1.toOption = some name) with
    | some e => rfl
    | none =>
      by_cases hn : k = name
      · simp [member?_replace, hk, hn, hv]
      · simp [member?_replace, hk, hn]

theorem last?_of_read? {name text : String} {v : Json} (h : read? text = some v) :
    last? name text = v.get? name := by
  unfold last?
  rw [h]
  unfold read? at h
  obtain ⟨d, hd, hs⟩ := Option.bind_eq_some_iff.mp h
  rw [hd]
  cases d with
  | obj ds =>
    obtain ⟨ms, hms, rfl⟩ := Option.map_eq_some_iff.mp hs
    simp only [get?]
    rw [find?_settleMembers hms]
    cases ds.reverse.find? (·.1.toOption = some name) <;> rfl
  | atom a =>
    cases a with
    | error flaw => cases hs
    | ok w =>
      cases hs
      exact (Draft.bare_of? hd name).symm
  | text s =>
    obtain ⟨w, -, rfl⟩ := Option.map_eq_some_iff.mp hs
    rfl
  | arr ds =>
    obtain ⟨w, -, rfl⟩ := Option.map_eq_some_iff.mp hs
    rfl

end Json

namespace Command

def number? (text : String) : Option Nat :=
  match Json.last? "id" text with
  | some (.int n) => if 0 ≤ n ∧ n < 2 ^ 64 then some n.toNat else none
  | _ => none

def methodName? (text : String) : Option String := (Json.last? "method" text).bind Json.string?

theorem word64?_eq (o : Option Json) : o.bind word64? =
    match o with
    | some (.int n) => if 0 ≤ n ∧ n < 2 ^ 64 then some n.toNat else none
    | _ => none := by
  cases o with
  | none => rfl
  | some v =>
    cases v with
    | int n => simp only [Option.bind_some, word64?, Text.fitsWord64_iff]
    | _ => rfl

theorem idOf_eq {text : String} {frame : Json} (h : Json.read? text = some frame) :
    idOf frame = number? text := by
  rw [idOf, ← Json.last?_of_read? h, number?, word64?_eq]

theorem last?_unreadable {text : String} (h : Json.read? text = none) (name : String) :
    Json.last? name text = none := by
  unfold Json.last?
  rw [h]
  split
  · rename_i hr
    cases hr
  · rfl

theorem ofName?_name {name : String} {m : Method} (h : Method.ofName? name = some m) :
    m.name = name := by
  simpa using List.find?_some h

theorem Method.fields_method {m : Method} {record : String} {size : Nat} {origin : Json.Origin}
    {c : Command} (h : m.fields record size origin = .ok c) : c.method = m := by
  cases m with
  | subscribe =>
    obtain ⟨f, recover, hf, -, rfl⟩ := Json.and_eq_ok.mp h
    obtain ⟨g, channel, hg, -, rfl⟩ := Json.and_eq_ok.mp hf
    cases hg
    rfl
  | unsubscribe =>
    obtain ⟨g, channel, hg, -, rfl⟩ := Json.and_eq_ok.mp h
    cases hg
    rfl
  | publish =>
    obtain ⟨f, data, hf, -, rfl⟩ := Json.and_eq_ok.mp h
    obtain ⟨g, channel, hg, -, rfl⟩ := Json.and_eq_ok.mp hf
    cases hg
    rfl
  | refresh =>
    obtain ⟨g, token, hg, -, rfl⟩ := Json.and_eq_ok.mp h
    cases hg
    rfl
  | ping =>
    cases h
    rfl

theorem asOption_word64 {v : Json} {id : Option Nat}
    (h : Json.asOption Json.asWord64 v = .ok id) : id = word64? v := by
  cases v with
  | null =>
    cases h
    rfl
  | int n =>
    simp only [Json.asOption, Json.asWord64] at h
    split at h
    · rename_i hn
      cases h
      exact (if_pos hn).symm
    · cases h
  | _ => cases h

def readId (members : List (String × Json)) : Json.Decoded (Option Nat) :=
  match Json.member? "id" members with
  | some v => Json.asOption Json.asWord64 v
  | none => .ok none

theorem decode_eq (m : Method) (members : List (String × Json)) : decode m members =
    readId members >>= fun id => (m.fields m.name 0 (.object members)).mapError (·.2) >>=
      fun command => .ok ⟨id, command⟩ := by
  unfold decode readId
  cases Json.member? "id" members <;> rfl

theorem decode_ok {m : Method} {members : List (String × Json)} {r : Request}
    (h : decode m members = .ok r) :
    r.id = (Json.member? "id" members).bind word64? ∧ r.command.method = m := by
  rw [decode_eq] at h
  obtain ⟨id, hid, h⟩ := Json.bind_eq_ok.mp h
  obtain ⟨c, hc, h⟩ := Json.bind_eq_ok.mp h
  cases h
  refine ⟨?_, Method.fields_method (Json.mapError_eq_ok.mp hc)⟩
  unfold readId at hid
  cases ho : Json.member? "id" members with
  | none =>
    rw [ho] at hid
    cases hid
    rfl
  | some v =>
    rw [ho] at hid
    exact asOption_word64 hid

theorem parse_ok {text : String} {r : Request} (h : parse text = .ok r) :
    r.id = number? text ∧ methodName? text = some r.command.method.name := by
  unfold parse at h
  cases hf : Json.read? text with
  | none =>
    simp only [hf] at h
    cases h
  | some frame =>
    simp only [hf] at h
    split at h
    · rename_i members name hname
      split at h
      · cases h
      · rename_i m hm
        split at h
        · rename_i request hd
          cases h
          obtain ⟨hid, hmethod⟩ := decode_ok hd
          rw [← idOf_eq hf, methodName?, Json.last?_of_read? hf, hname, hmethod, ofName?_name hm]
          exact ⟨hid, rfl⟩
        · cases h
    · cases h

theorem parse_error {text : String} {e : Refusal} (h : parse text = .error e) :
    e.id = number? text := by
  unfold parse at h
  cases hf : Json.read? text with
  | none =>
    simp only [hf] at h
    cases h
    rw [number?, last?_unreadable hf]
  | some frame =>
    simp only [hf] at h
    rw [← idOf_eq hf]
    split at h
    · split at h
      · cases h
        rfl
      · split at h
        · cases h
        · cases h
          rfl
    · cases h
      rfl

example : number? "\x7b\"id\":1,\"method\":\"ping\",\"id\":2\x7d" = some 2 := by decide +kernel

end Command

end LiveComments
