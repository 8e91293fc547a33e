import LiveComments.Proofs.Agreement
import LiveComments.Proofs.Command

namespace LiveComments

namespace Inbound

inductive Kind where
  | command
  | control
  | last
  deriving DecidableEq

def kind (f : Inbound) : Kind :=
  match f.limited with
  | .text _ | .binary _ => .command
  | .ping _ | .pong _ => .control
  | .close .. | .broken => .last

def isSign (f : Inbound) : Bool :=
  match f.limited with
  | .text _ | .ping _ | .pong _ => true
  | .binary _ | .close .. | .broken => false

def number? (f : Inbound) : Option Nat :=
  match f.limited with
  | .text t => Command.number? t
  | _ => none

def methodName? (f : Inbound) : Option String :=
  match f.limited with
  | .text t => Command.methodName? t
  | _ => none

end Inbound

namespace Notice

def reply? : Notice → Option (Option Command.Method × Option Nat)
  | .subscribed id .. => some (some .subscribe, id)
  | .unsubscribed id _ => some (some .unsubscribe, id)
  | .published id .. => some (some .publish, id)
  | .refreshed id _ => some (some .refresh, id)
  | .pong id => some (some .ping, id)
  | .error id _ => some (none, id)
  | .connected .. | .publication .. | .disconnect _ => none

def Answers (n : Notice) (f : Inbound) : Prop :=
  ∃ success : Option Command.Method, n.reply? = some (success, f.number?) ∧
    ∀ method ∈ success, f.methodName? = some method.name

end Notice

namespace Session

def Unrenewed (secret : String) (s : Session) (m : Moment) (f : Inbound) : Prop :=
  ∃ text id token, f.limited = .text text ∧ Command.parse text = .ok ⟨id, .refresh token⟩ ∧
    ∀ i, Token.verify secret token m.stamp.seconds = .ok i → i.user ≠ s.identity.user

structure Goes (secret : String) (s : Session) (m : Moment) (f : Inbound) (s' : Session) : Prop where
  identity : s'.identity = s.identity ∨
    ∃ token, Token.verify secret token m.stamp.seconds = .ok s'.identity
  heard : s'.heard = if f.isSign then m.steady else s.heard

variable {secret : String} {s : Session} {m : Moment} {f : Inbound} {text : String}

theorem not_unrenewed_of_limited (h : ∀ text, f.limited ≠ .text text) : ¬s.Unrenewed secret m f := by
  rintro ⟨text, id, token, hl, -⟩
  exact h text hl

theorem not_unrenewed_of_parse (hl : f.limited = .text text)
    (h : ∀ id token, Command.parse text ≠ .ok ⟨id, .refresh token⟩) : ¬s.Unrenewed secret m f := by
  rintro ⟨text', id, token, hl', hp, -⟩
  rw [hl, Inbound.text.injEq] at hl'
  exact h id token (hl' ▸ hp)

theorem goes_of_text (hl : f.limited = .text text) {s' : Session} (hi : s'.identity = s.identity)
    (hh : s'.heard = m.steady) : s.Goes secret m f s' := by
  refine ⟨.inl hi, ?_⟩
  rw [Inbound.isSign, hl]
  exact hh

theorem renewed_error {current : Identity} {answer : Except Fault Identity} {reason : String}
    (h : renewed current answer = .error reason) {i : Identity} (hi : answer = .ok i) :
    i.user ≠ current.user := by
  intro hu
  rw [hi, renewed, if_pos hu] at h
  cases h

end Session

namespace Inbound

variable {f : Inbound} {text : String} {id : Option Nat} {c : Command}

theorem number?_of_parse (hl : f.limited = .text text) (hp : Command.parse text = .ok ⟨id, c⟩) :
    f.number? = id := by
  rw [number?, hl]
  exact (Command.parse_ok hp).1.symm

theorem methodName?_of_parse (hl : f.limited = .text text)
    (hp : Command.parse text = .ok ⟨id, c⟩) : f.methodName? = some c.method.name := by
  rw [methodName?, hl]
  exact (Command.parse_ok hp).2

end Inbound

namespace Notice

variable {f : Inbound} {text : String}

theorem answers_refused {n : Notice} (h : n.reply? = some (none, f.number?)) : n.Answers f :=
  ⟨none, h, nofun⟩

theorem answers_error {e : Command.Refusal} (hl : f.limited = .text text)
    (hp : Command.parse text = .error e) (r : Rejection) : (Notice.error e.id r).Answers f := by
  apply answers_refused
  rw [Inbound.number?, hl, Command.parse_error hp]
  rfl

variable {id : Option Nat} {c : Command}

theorem answers_of_parse (hl : f.limited = .text text) (hp : Command.parse text = .ok ⟨id, c⟩)
    {n : Notice} (hn : n.reply? = some (some c.method, id) ∨ n.reply? = some (none, id)) :
    n.Answers f := by
  rw [← Inbound.number?_of_parse hl hp] at hn
  rcases hn with hn | hn
  · refine ⟨some c.method, hn, ?_⟩
    rintro method ⟨⟩
    exact Inbound.methodName?_of_parse hl hp
  · exact answers_refused hn

end Notice

namespace Link

inductive Taken (secret : String) (s : Session) (m : Moment) (f : Inbound) : Part → Prop
  | answered {b : Backend} {s' : Session} {n : Notice} {posts : List Hub.Letter}
      (kind : f.kind = .command) (goes : s.Goes secret m f s')
      (renewed : ¬s.Unrenewed secret m f) (answer : n.Answers f) :
      Taken secret s m f (⟨b, some s', [.notice n], posts⟩, none)
  | begun {b : Backend} {s' : Session} {flight : Flight} (kind : f.kind = .command)
      (goes : s.Goes secret m f s') (renewed : ¬s.Unrenewed secret m f)
      (number : f.number? = flight.id) (method : f.methodName? = some Command.Method.publish.name) :
      Taken secret s m f (⟨b, some s', [], []⟩, some flight)
  | dismissed {b : Backend} {reason : String} (fails : s.Unrenewed secret m f) :
      Taken secret s m f (Session.disconnect b s reason, none)
  | control {b : Backend} {s' : Session} {out : List Outbound} (kind : f.kind = .control)
      (goes : s.Goes secret m f s') (silent : ∀ n, .notice n ∉ out) :
      Taken secret s m f (⟨b, some s', out, []⟩, none)
  | closed {b : Backend} {out : List Outbound} (kind : f.kind = .last)
      (silent : ∀ n, .notice n ∉ out) : Taken secret s m f (Session.finish b s out, none)

variable {secret : String} {b : Backend} {s : Session} {m : Moment} {f : Inbound}

section

variable {text : String} {id : Option Nat} {c : Command}

theorem kind_of_text (hl : f.limited = .text text) : f.kind = .command := by
  rw [Inbound.kind, hl]

theorem taken_told (hl : f.limited = .text text) (hp : Command.parse text = .ok ⟨id, c⟩)
    (hc : ∀ token, c ≠ .refresh token) (joined : List String) (posts : List Hub.Letter) {n : Notice}
    (hn : n.reply? = some (some c.method, id) ∨ n.reply? = some (none, id)) :
    Taken secret s m f (⟨b, some { s.hear m with joined }, [.notice n], posts⟩, none) := by
  refine .answered (kind_of_text hl) (Session.goes_of_text hl rfl rfl) ?_
    (Notice.answers_of_parse hl hp hn)
  apply Session.not_unrenewed_of_parse hl
  intro id' token h
  rw [hp, Except.ok.injEq, Command.Request.mk.injEq] at h
  exact hc token h.2

theorem taken_refused (hl : f.limited = .text text) (hp : Command.parse text = .ok ⟨id, c⟩)
    (hc : ∀ token, c ≠ .refresh token) (r : Rejection) :
    Taken secret s m f (Session.refuse b (s.hear m) id r, none) :=
  taken_told hl hp hc s.joined [] (.inr rfl)

theorem taken_carryOut (hl : f.limited = .text text) (hp : Command.parse text = .ok ⟨id, c⟩)
    (hf : s.asksFor? f = none) :
    Taken secret s m f (Session.carryOut secret b (s.hear m) ⟨id, c⟩ m, none) := by
  cases c with
  | subscribe name recover =>
    simp only [Session.carryOut, Session.subscribe]
    split
    · exact taken_refused hl hp (by simp) _
    · split
      · exact taken_refused hl hp (by simp) _
      · refine taken_told hl hp (by simp) _ _ ?_
        exact .inl rfl
  | unsubscribe name =>
    simp only [Session.carryOut, Session.unsubscribe]
    split
    · exact taken_refused hl hp (by simp) _
    · refine taken_told hl hp (by simp) _ _ ?_
      exact .inl rfl
  | publish name e =>
    simp only [Session.carryOut, Session.publish]
    split
    · exact taken_refused hl hp (by simp) _
    · rename_i channel hn
      have hasks : s.asksFor? f = some (id, channel, e) :=
        Session.asksFor?_publishes ⟨text, hl, hp⟩ hn
      rw [hf] at hasks
      cases hasks
  | refresh token =>
    simp only [Session.carryOut, Session.refresh]
    split
    · rename_i identity hr
      obtain ⟨hv, hu⟩ := Session.renewed_ok hr
      refine .answered (kind_of_text hl) ⟨.inr ⟨token, hv⟩, ?_⟩ ?_
        (Notice.answers_of_parse hl hp (.inl rfl))
      · rw [Inbound.isSign, hl]
        rfl
      · rintro ⟨text', id', token', hl', hp', hno⟩
        rw [hl, Inbound.text.injEq] at hl'
        subst hl'
        rw [hp] at hp'
        cases hp'
        exact hno identity hv hu
    · rename_i reason hr
      exact .dismissed ⟨text, id, token, hl, hp, fun i hi => Session.renewed_error hr hi⟩
  | ping =>
    refine taken_told hl hp (by simp) s.joined [] ?_
    exact .inl rfl

end

theorem taken_handle (hf : s.asksFor? f = none) :
    Taken secret s m f (s.handle secret b f m, none) := by
  simp only [Session.handle]
  have hno (h : ∀ text, f.limited ≠ .text text) : ¬s.Unrenewed secret m f :=
    Session.not_unrenewed_of_limited h
  cases hl : f.limited with
  | text text =>
    simp only [Session.handleText]
    cases hp : Command.parse text with
    | ok r => exact taken_carryOut hl hp hf
    | error e =>
      refine .answered (kind_of_text hl) (Session.goes_of_text hl rfl rfl) ?_
        (Notice.answers_error hl hp e.rejection)
      exact Session.not_unrenewed_of_parse hl fun id token h => by rw [hp] at h; cases h
  | binary text =>
    refine .answered ?_ ⟨.inl rfl, ?_⟩ (hno (by simp [hl])) (Notice.answers_refused ?_)
    · rw [Inbound.kind, hl]
    · rw [Inbound.isSign, hl]
      rfl
    · rw [Inbound.number?, hl]
      rfl
  | ping text =>
    refine .control ?_ ⟨.inl rfl, ?_⟩ (by simp)
    · rw [Inbound.kind, hl]
    · rw [Inbound.isSign, hl]
      rfl
  | pong text =>
    refine .control ?_ ⟨.inl rfl, ?_⟩ (by simp)
    · rw [Inbound.kind, hl]
    · rw [Inbound.isSign, hl]
      rfl
  | close code reason => exact .closed (by rw [Inbound.kind, hl]) (by simp)
  | broken => exact .closed (by rw [Inbound.kind, hl]) (by simp)

theorem asksFor?_publishes {id : Option Nat} {channel : Channel} {e : Event}
    (hf : s.asksFor? f = some (id, channel, e)) : ∃ name, f.Publishes id name e := by
  unfold Session.asksFor? at hf
  split at hf
  · rename_i text hl
    split at hf
    · rename_i id' name e' hp
      split at hf
      · cases hf
        exact ⟨name, text, hl, hp⟩
      · cases hf
    · cases hf
  · cases hf

theorem receive_taken (secret : String) (b : Backend) (s : Session) (f : Inbound) (m : Moment) :
    Taken secret s m f (receive secret b s f m) := by
  unfold receive
  cases hf : s.asksFor? f with
  | none => exact taken_handle hf
  | some x =>
    obtain ⟨id, channel, e⟩ := x
    obtain ⟨name, text, hl, hp⟩ := asksFor?_publishes hf
    rcases hr : b.perform (Mutation.prepare e ⟨s.identity.user, channel⟩ m) with ⟨g | c, b'⟩
    · simp only [hr]
      exact taken_refused hl hp (by simp) _
    · simp only [hr]
      refine .begun (kind_of_text hl) (Session.goes_of_text hl rfl rfl) ?_
        (Inbound.number?_of_parse hl hp) (Inbound.methodName?_of_parse hl hp)
      exact Session.not_unrenewed_of_parse hl fun id token h => by rw [hp] at h; cases h

inductive Proceeded (s : Session) (flight : Flight) : Part → Prop
  | answered {b : Backend} {n : Notice} (answer : n.reply? = some (some .publish, flight.id) ∨
      n.reply? = some (none, flight.id)) : Proceeded s flight (Session.tell b s n, none)
  | stored {b : Backend} {flight' : Flight} (waiting : flight.stored = false)
      (number : flight'.id = flight.id) (stored : flight'.stored = true) :
      Proceeded s flight (⟨b, some s, [], []⟩, some flight')

theorem proceed_proceeded (b : Backend) (s : Session) (flight : Flight) (m : Moment) :
    Proceeded s flight (proceed b s flight m) := by
  unfold proceed
  split
  · rcases hr : b.perform (Mutation.announce flight.request.news flight.comment m) with ⟨g | a, b'⟩
    · exact .answered (.inr rfl)
    · exact .answered (.inl rfl)
  · rename_i hstored
    rcases hr : b.perform (Mutation.store flight.request flight.comment) with ⟨g | c, b'⟩
    · exact .answered (.inr rfl)
    · exact .stored (Bool.eq_false_iff.mpr hstored) rfl rfl

def parts (flight : Option Flight) : Nat :=
  match flight with
  | none => 0
  | some flight => if flight.stored then 1 else 2

theorem parts_le (flight : Option Flight) : parts flight ≤ 2 := by
  unfold parts
  split
  · exact Nat.zero_le _
  · split <;> omega

theorem eq_none_of_parts {flight : Option Flight} (h : parts flight = 0) : flight = none := by
  unfold parts at h
  split at h
  · rfl
  · split at h <;> cases h

theorem Proceeded.parts_lt {flight : Flight} {p : Part} (h : Proceeded s flight p) :
    parts p.2 < parts (some flight) := by
  cases h with
  | answered answer =>
    change 0 < if flight.stored then 1 else 2
    split <;> omega
  | @stored b flight' waiting number stored => simp [parts, waiting, stored]

end Link

end LiveComments
