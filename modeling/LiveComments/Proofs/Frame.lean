import LiveComments.Proofs.Json.Grammar

namespace LiveComments

inductive Position.Written : Json → Position → Prop
  | members {v : Json} {epoch : String} {offset : Nat} (he : v.get? "epoch" = some (.str epoch))
      (ho : v.get? "offset" = some (.nat offset)) (h : offset < 2 ^ 64) : Written v ⟨epoch, offset⟩
  | items {epoch : String} {offset : Nat} (h : offset < 2 ^ 64) :
      Written (.arr [.str epoch, .nat offset]) ⟨epoch, offset⟩

namespace Event

inductive Stamped : Option Json → Int → Prop
  | absent : Stamped none 0
  | present {n : Int} (hlow : -2 ^ 63 ≤ n) (hhigh : n < 2 ^ 63) : Stamped (some (.int n)) n

inductive Written : Json → Event → Prop
  | members {v : Json} {kind : String} {time : Int} (hk : v.get? "type" = some (.str kind))
      (ht : Stamped (v.get? "timestamp") time) :
      Written v ⟨kind, (v.get? "payload").getD .null, time⟩
  | kind {kind : String} : Written (.arr [.str kind]) ⟨kind, .null, 0⟩
  | payload {kind : String} {payload : Json} :
      Written (.arr [.str kind, payload]) ⟨kind, payload, 0⟩
  | timestamp {kind : String} {payload time : Json} {n : Int} (h : Stamped (some time) n) :
      Written (.arr [.str kind, payload, time]) ⟨kind, payload, n⟩

end Event

namespace Command

def Word (v : Json) (n : Nat) : Prop := v = .nat n ∧ n < 2 ^ 64

/-- The members of a frame that make a command; what else it has does not count. -/
inductive Written (frame : Json) : Command → Prop
  | subscribe {channel : String} {recover : Option Position}
      (hm : frame.get? "method" = some (.str "subscribe"))
      (hc : frame.get? "channel" = some (.str channel))
      (hr : Json.Optional Position.Written (frame.get? "recover") recover) :
      Written frame (.subscribe channel recover)
  | unsubscribe {channel : String} (hm : frame.get? "method" = some (.str "unsubscribe"))
      (hc : frame.get? "channel" = some (.str channel)) : Written frame (.unsubscribe channel)
  | publish {channel : String} {v : Json} {data : Event}
      (hm : frame.get? "method" = some (.str "publish"))
      (hc : frame.get? "channel" = some (.str channel)) (hv : frame.get? "data" = some v)
      (hd : data.Written v) : Written frame (.publish channel data)
  | refresh {token : String} (hm : frame.get? "method" = some (.str "refresh"))
      (ht : frame.get? "token" = some (.str token)) : Written frame (.refresh token)
  | ping (hm : frame.get? "method" = some (.str "ping")) : Written frame .ping

def Request.Written (frame : Json) (r : Request) : Prop :=
  Json.Optional Word (frame.get? "id") r.id ∧ r.command.Written frame

end Command

open Json

/-! ### Records -/

theorem Position.read_eq_ok {origin : Origin} {p : Position} : record.read origin = .ok p ↔
    (origin.at? 0 "epoch" = some (.str p.epoch) ∧
      origin.at? 1 "offset" = some (.nat p.offset) ∧ p.offset < 2 ^ 64) ∧
      ∀ items, origin = .array items → items.length ≤ 2 := by
  obtain ⟨epoch, offset⟩ := p
  rw [record, ofFields_eq_ok]
  simp [Fields.pure]

theorem Position.decode_eq_ok {v : Json} {p : Position} : record.decode v = .ok p ↔ p.Written v := by
  simp only [Json.decode_eq_ok, read_eq_ok]
  constructor
  · rintro (⟨ms, rfl, ⟨hepoch, hoffset, h⟩, -⟩ | ⟨items, rfl, ⟨hepoch, hoffset, h⟩, hlength⟩)
    · exact .members hepoch hoffset h
    · have hitems := hlength items rfl
      match items, hepoch, hoffset, hitems with
      | [_, _], hepoch, hoffset, _ =>
        cases hepoch
        cases hoffset
        exact .items h
  · rintro (⟨hepoch, hoffset, h⟩ | ⟨h⟩)
    · obtain ⟨ms, rfl⟩ := exists_members hepoch
      exact .inl ⟨ms, rfl, ⟨hepoch, hoffset, h⟩, nofun⟩
    · refine .inr ⟨_, rfl, ⟨rfl, rfl, h⟩, ?_⟩
      rintro items ⟨⟩
      exact Nat.le_refl 2

namespace Event

theorem stamped_iff {o : Option Json} {n : Int} : Filled asInt64 (some 0) o n ↔ Stamped o n := by
  constructor
  · rintro (h | h)
    · obtain ⟨rfl, hlow, hhigh⟩ := asInt64_eq_ok.mp h
      exact .present hlow hhigh
    · cases h
      exact .absent
  · rintro (_ | ⟨hlow, hhigh⟩)
    · exact .absent rfl
    · exact .present (asInt64_eq_ok.mpr ⟨rfl, hlow, hhigh⟩)

theorem filled_any {o : Option Json} {v : Json} :
    Filled asAny (some .null) o v ↔ o.getD .null = v := by
  cases o <;> simp [asAny]

theorem read_eq_ok {origin : Origin} {e : Event} : record.read origin = .ok e ↔
    (origin.at? 0 "type" = some (.str e.kind) ∧ (origin.at? 1 "payload").getD .null = e.payload ∧
      Stamped (origin.at? 2 "timestamp") e.timestamp) ∧
      ∀ items, origin = .array items → items.length ≤ 3 := by
  obtain ⟨kind, payload, timestamp⟩ := e
  rw [record, ofFields_eq_ok]
  simp [Fields.pure, filled_any, stamped_iff, and_assoc, and_left_comm]

theorem decode_eq_ok {v : Json} {e : Event} : record.decode v = .ok e ↔ e.Written v := by
  simp only [Json.decode_eq_ok, read_eq_ok]
  constructor
  · rintro (⟨ms, rfl, ⟨hkind, hpayload, htime⟩, -⟩ | ⟨items, rfl, ⟨hkind, hpayload, htime⟩, hlength⟩)
    · obtain ⟨kind, payload, time⟩ := e
      cases hpayload
      exact .members hkind htime
    · have hitems := hlength items rfl
      obtain ⟨kind, payload, time⟩ := e
      match items, hkind, hpayload, htime, hitems with
      | [_], hkind, hpayload, htime, _ =>
        cases hkind
        cases hpayload
        cases htime
        exact .kind
      | [_, _], hkind, hpayload, htime, _ =>
        cases hkind
        cases hpayload
        cases htime
        exact .payload
      | [_, _, _], hkind, hpayload, htime, _ =>
        cases hkind
        cases hpayload
        exact .timestamp htime
  · have harray {items : List Json} (h : items.length ≤ 3) :
        ∀ is, Origin.array items = .array is → is.length ≤ 3 := by
      rintro is ⟨⟩
      exact h
    rintro (⟨hkind, htime⟩ | _ | _ | ⟨h⟩)
    · obtain ⟨ms, rfl⟩ := exists_members hkind
      exact .inl ⟨ms, rfl, ⟨hkind, rfl, htime⟩, nofun⟩
    · exact .inr ⟨_, rfl, ⟨rfl, rfl, .absent⟩, harray (by simp)⟩
    · exact .inr ⟨_, rfl, ⟨rfl, rfl, .absent⟩, harray (by simp)⟩
    · exact .inr ⟨_, rfl, ⟨rfl, rfl, h⟩, harray (by simp)⟩

end Event

namespace Command

theorem recover_iff {o : Option Json} {recover : Option Position} :
    Filled (asOption Position.record.decode) (some none) o recover ↔
      Optional Position.Written o recover := by
  apply filled_optional
  · exact fun v p => Position.decode_eq_ok
  · rintro p ⟨he⟩
    cases he

theorem id_iff {o : Option Json} {id : Option Nat} :
    Filled (asOption asWord64) (some none) o id ↔ Optional Word o id := by
  apply filled_optional
  · exact fun v n => asWord64_eq_ok
  · rintro n ⟨⟨⟩, -⟩

theorem fields_eq_ok {ms : List (String × Json)} {c : Command} {record : String} {size : Nat} :
    c.method.fields record size (.object ms) = .ok c ↔
      match c with
      | .subscribe channel recover => member? "channel" ms = some (.str channel) ∧
          Optional Position.Written (member? "recover" ms) recover
      | .unsubscribe channel => member? "channel" ms = some (.str channel)
      | .publish channel data => member? "channel" ms = some (.str channel) ∧
          ∃ v, member? "data" ms = some v ∧ data.Written v
      | .refresh token => member? "token" ms = some (.str token)
      | .ping => True := by
  cases c <;> simp [method, Method.fields, Method.channelField, Fields.pure, Origin.at?, recover_iff,
    Event.decode_eq_ok]

theorem written_iff {ms : List (String × Json)} {c : Command} {record : String} {size : Nat} :
    c.Written (.obj ms) ↔ member? "method" ms = some (.str c.method.name) ∧
      c.method.fields record size (.object ms) = .ok c := by
  rw [fields_eq_ok]
  constructor
  · intro h
    cases h with
    | subscribe hm hc hr => exact ⟨hm, hc, hr⟩
    | unsubscribe hm hc => exact ⟨hm, hc⟩
    | publish hm hc hv hd => exact ⟨hm, hc, _, hv, hd⟩
    | refresh hm ht => exact ⟨hm, ht⟩
    | ping hm => exact ⟨hm, trivial⟩
  · rintro ⟨hm, hf⟩
    cases c with
    | subscribe channel recover => exact .subscribe hm hf.1 hf.2
    | unsubscribe channel => exact .unsubscribe hm hf
    | publish channel data =>
      obtain ⟨hc, v, hv, hd⟩ := hf
      exact .publish hm hc hv hd
    | refresh token => exact .refresh hm hf
    | ping => exact .ping hm

theorem readId_eq_ok {ms : List (String × Json)} {id : Option Nat} :
    readId ms = .ok id ↔ Optional Word (member? "id" ms) id := by
  rw [← id_iff, readId]
  cases member? "id" ms <;> simp

theorem decode_eq_ok {m : Method} {ms : List (String × Json)} {r : Request} :
    decode m ms = .ok r ↔
      Optional Word (member? "id" ms) r.id ∧ m.fields m.name 0 (.object ms) = .ok r.command := by
  simp only [decode_eq, bind_eq_ok, readId_eq_ok, mapError_eq_ok]
  constructor
  · rintro ⟨id, hn, c, hc, ⟨⟩⟩
    exact ⟨hn, hc⟩
  · rintro ⟨hn, hc⟩
    exact ⟨_, hn, _, hc, rfl⟩

theorem Request.written_iff {ms : List (String × Json)} {r : Request} : r.Written (.obj ms) ↔
    ∃ m : Method, member? "method" ms = some (.str m.name) ∧ decode m ms = .ok r := by
  simp only [decode_eq_ok]
  constructor
  · rintro ⟨hn, hc⟩
    obtain ⟨hm, hf⟩ := Command.written_iff.mp hc
    exact ⟨_, hm, hn, hf⟩
  · rintro ⟨m, hm, hn, hf⟩
    obtain rfl := Method.fields_method hf
    exact ⟨hn, Command.written_iff.mpr ⟨hm, hf⟩⟩

/-! ### Frames -/

def methods : List String := ["subscribe", "unsubscribe", "publish", "refresh", "ping"]

theorem name_mem_methods (m : Method) : m.name ∈ methods := by
  cases m <;> decide

theorem ofName?_of_name (m : Method) : Method.ofName? m.name = some m := by
  cases m <;> rfl

theorem name_injective {m m' : Method} (h : m.name = m'.name) : m = m' := by
  have hsame : Method.ofName? m.name = Method.ofName? m'.name := by rw [h]
  rw [ofName?_of_name, ofName?_of_name] at hsame
  exact Option.some.inj hsame

theorem not_mem_methods {name : String} (h : Method.ofName? name = none) : name ∉ methods := by
  intro hname
  have hall : ∀ n ∈ methods, (Method.ofName? n).isSome = true := by decide
  have hsome := hall name hname
  rw [h] at hsome
  cases hsome

theorem string?_eq_some {o : Option Json} {s : String} :
    o.bind string? = some s ↔ o = some (.str s) := by
  cases o with
  | none => simp
  | some v => cases v <;> simp [string?]

def Unknown (frame : Json) : Prop :=
  ∃ name, frame.get? "method" = some (.str name) ∧ name ∉ methods

theorem Request.Written.method {frame : Json} {r : Request} (h : r.Written frame) :
    frame.get? "method" = some (.str r.command.method.name) := by
  cases r with
  | mk id command => cases h.2 <;> assumption

theorem Request.Written.known {frame : Json} {r : Request} (h : r.Written frame) :
    ¬ Unknown frame := by
  rintro ⟨name, hname, hunknown⟩
  rw [h.method] at hname
  cases hname
  exact hunknown (name_mem_methods _)

theorem Request.Written.unique {frame : Json} {r r' : Request} (h : r.Written frame)
    (h' : r'.Written frame) : r = r' := by
  obtain ⟨ms, rfl⟩ := exists_members h.method
  obtain ⟨m, hm, hr⟩ := written_iff.mp h
  obtain ⟨m', hm', hr'⟩ := written_iff.mp h'
  obtain rfl : m = m' := name_injective (by simpa [hm] using hm')
  rw [hr] at hr'
  exact Except.ok.inj hr'

inductive Outcome (frame : Json) : Except Refusal Request → Prop
  | command {r : Request} (h : r.Written frame) : Outcome frame (.ok r)
  | unknown {message : String} (h : Unknown frame) :
      Outcome frame (.error ⟨idOf frame, .methodNotFound, message⟩)
  | bad {message : String} (hu : ¬ Unknown frame) (hr : ∀ r : Request, ¬ r.Written frame) :
      Outcome frame (.error ⟨idOf frame, .bad message⟩)

theorem outcome {text : String} {frame : Json} (h : read? text = some frame) :
    Outcome frame (parse text) := by
  unfold parse
  rw [h]
  dsimp only
  split
  · rename_i ms name hname
    have hmethod : member? "method" ms = some (.str name) := string?_eq_some.mp hname
    split
    · rename_i hnone
      exact .unknown ⟨name, hmethod, not_mem_methods hnone⟩
    · rename_i m hm
      obtain rfl := ofName?_name hm
      split
      · rename_i r hr
        exact .command (Request.written_iff.mpr ⟨m, hmethod, hr⟩)
      · rename_i e he
        apply Outcome.bad
        · rintro ⟨name, hname, hunknown⟩
          obtain rfl : m.name = name := by simpa [get?, hmethod] using hname
          exact hunknown (name_mem_methods m)
        · intro r hr
          obtain ⟨m', hm', hr⟩ := Request.written_iff.mp hr
          obtain rfl : m = m' := name_injective (by simpa [hmethod] using hm')
          rw [he] at hr
          cases hr
  · rename_i frame _ _ hno
    have hnone : ∀ name, frame.get? "method" ≠ some (.str name) := by
      intro name hname
      obtain ⟨ms, rfl⟩ := exists_members hname
      exact hno ms name rfl (string?_eq_some.mpr hname)
    apply Outcome.bad
    · rintro ⟨name, hname, -⟩
      exact hnone name hname
    · intro r hr
      exact hnone _ hr.method

def reported : Except Refusal Request → Option Nat
  | .ok r => r.id
  | .error e => e.id

theorem idOf_of_optional {frame : Json} {id : Option Nat}
    (h : Optional Word (frame.get? "id") id) : idOf frame = id := by
  unfold idOf
  generalize frame.get? "id" = o at h
  cases h with
  | absent => rfl
  | null => rfl
  | @present v n hn =>
    obtain ⟨rfl, hn⟩ := hn
    have hfits : Text.fitsWord64 (n : Int) = true := by
      rw [Text.fitsWord64_iff]
      omega
    simp [word64?, nat, hfits]

theorem idOf_eq_some {frame : Json} {n : Nat} :
    idOf frame = some n ↔ frame.get? "id" = some (.nat n) ∧ n < 2 ^ 64 := by
  have hbound {k : Int} : 0 ≤ k ∧ k < 2 ^ 64 ∧ k.toNat = n ↔ k = n ∧ n < 2 ^ 64 := by omega
  rw [idOf, word64?_eq]
  rcases frame.get? "id" with _ | v
  · simp
  · cases v with
    | int k => simpa [nat, and_assoc] using hbound
    | _ => simp [nat]

namespace Outcome

variable {frame : Json} {o : Except Refusal Request} (h : Outcome frame o)
include h

theorem ok_iff {r : Request} : o = .ok r ↔ r.Written frame := by
  cases h with
  | @command r' hw =>
    constructor
    · rintro ⟨⟩
      exact hw
    · intro hr
      rw [hw.unique hr]
  | unknown hu =>
    constructor
    · rintro ⟨⟩
    · intro hr
      exact absurd hu hr.known
  | bad _ hno =>
    constructor
    · rintro ⟨⟩
    · intro hr
      exact absurd hr (hno r)

theorem unknown_iff : (∃ e, o = .error e ∧ e.rejection.code = .methodNotFound) ↔ Unknown frame := by
  cases h with
  | command hw =>
    constructor
    · rintro ⟨e, ⟨⟩, -⟩
    · intro hu
      exact absurd hu hw.known
  | unknown hu => exact ⟨fun _ => hu, fun _ => ⟨_, rfl, rfl⟩⟩
  | bad hu _ =>
    constructor
    · rintro ⟨e, ⟨⟩, ⟨⟩⟩
    · intro hu'
      exact absurd hu' hu

theorem code {e : Refusal} (he : o = .error e) :
    e.rejection.code = .methodNotFound ∨ e.rejection.code = .badRequest := by
  cases h with
  | command hw => cases he
  | unknown hu =>
    cases he
    exact .inl rfl
  | bad =>
    cases he
    exact .inr rfl

theorem reported_eq : reported o = idOf frame := by
  cases h with
  | command hw => exact (idOf_of_optional hw.1).symm
  | unknown => rfl
  | bad => rfl

end Outcome

theorem parse_unreadable {text : String} (h : read? text = none) :
    parse text = .error ⟨none, .bad s!"invalid frame: {unreadable}"⟩ := by
  unfold parse
  rw [h]

/-- A text is read as a command exactly when it means a frame that writes the command. It is refused
for its method exactly when it means a frame with a method that no command has, and every other text
as a bad request. What is answered to a frame has its id, if that is an integer of 64 bits without a
sign, and otherwise none. -/
theorem frames_are_classified (text : String) :
    (∀ r, parse text = .ok r ↔ ∃ frame, Denotes text frame ∧ r.Written frame) ∧
    ((∃ e, parse text = .error e ∧ e.rejection.code = .methodNotFound) ↔
      ∃ frame, Denotes text frame ∧ Unknown frame) ∧
    (∀ e, parse text = .error e →
      e.rejection.code = .methodNotFound ∨ e.rejection.code = .badRequest) ∧
    ∀ frame, Denotes text frame → ∀ n, reported (parse text) = some n ↔
      frame.get? "id" = some (.nat n) ∧ n < 2 ^ 64 := by
  simp only [← read?_eq_some]
  cases hread : read? text with
  | none =>
    rw [parse_unreadable hread]
    refine ⟨?_, ?_, ?_, nofun⟩
    · intro r
      constructor
      · rintro ⟨⟩
      · rintro ⟨frame, ⟨⟩, -⟩
    · constructor
      · rintro ⟨e, ⟨⟩, ⟨⟩⟩
      · rintro ⟨frame, ⟨⟩, -⟩
    · rintro e ⟨⟩
      exact .inr rfl
  | some frame =>
    have hout := outcome hread
    simp only [Option.some.injEq, forall_eq', exists_eq_left']
    refine ⟨fun r => hout.ok_iff, hout.unknown_iff, fun e => hout.code, fun n => ?_⟩
    rw [hout.reported_eq, idOf_eq_some]

end Command

end LiveComments
