import LiveComments.Proofs.Hub.Mail
import LiveComments.Proofs.Turn
import LiveComments.Session

namespace LiveComments

def Outbound.carried : Outbound → List (String × Publication)
  | .notice (.publication channel p) => [(channel, p)]
  | .notice (.subscribed _ channel _ _ _ ps) => ps.map (channel, ·)
  | _ => []

namespace Session

def asksFor? (s : Session) (frame : Inbound) : Option (Option Nat × Channel × Event) :=
  match frame.limited with
  | .text text =>
    match Command.parse text with
    | .ok ⟨id, .publish name event⟩ =>
      match s.publishable name with
      | .ok channel => some (id, channel, event)
      | .error _ => none
    | _ => none
  | _ => none

def commands (epoch : String) (s : Session) (c : Command) (m : Moment) : List Hub.Message :=
  match c with
  | .subscribe name recover =>
    match Channel.parse name with
    | .ok channel => [.subscribe s.id channel recover m.steady epoch]
    | .error _ => []
  | .unsubscribe _ | .publish .. | .refresh _ | .ping => []

def asks (epoch : String) (s : Session) (frame : Inbound) (m : Moment) : List Hub.Message :=
  match frame.limited with
  | .text text =>
    match Command.parse text with
    | .ok r => s.commands epoch r.command m
    | .error _ => []
  | .binary _ | .ping _ | .pong _ | .close .. | .broken => []

/-- All that comes of a frame, or of a heartbeat, as long as no event is carried out. -/
inductive Handled (b : Backend) (s : Session) (m : Moment) : Step → List Hub.Message → Prop
  | told {identity : Identity} {heard : Int} {out : List Outbound}
      (user : identity.user = s.identity.user) (silent : ∀ o ∈ out, o.carried = []) :
      Handled b s m ⟨b, some { s with identity, heard }, out, []⟩ []
  | subscribed {id : Option Nat} {channel : Channel} {recover : Option Position} {x : Subscription}
      {heard : Int} (proper : channel.Proper)
      (answered : (b.subscribe s.id channel recover m).2 = .ok x) :
      Handled b s m (tell (b.subscribe s.id channel recover m).1
        { s with heard, joined := insertOnce channel.name s.joined }
        (.subscribed id channel.name x.epoch x.offset x.recovery.recovered x.recovery.publications))
        [.subscribe s.id channel recover m.steady b.epochs.name]
  | refused {id : Option Nat} {channel : Channel} {recover : Option Position} {r : Rejection}
      {heard : Int} (proper : channel.Proper)
      (answered : (b.subscribe s.id channel recover m).2 = .error r) :
      Handled b s m (refuse (b.subscribe s.id channel recover m).1 { s with heard } id r)
        [.subscribe s.id channel recover m.steady b.epochs.name]
  | unsubscribed {id : Option Nat} {channel : Channel} {heard : Int} (proper : channel.Proper) :
      Handled b s m ⟨b, some { s with heard, joined := s.joined.filter (· ≠ channel.name) },
        [.notice (.unsubscribed id channel.name)], [.unsubscribe s.id channel]⟩ []
  | ended {out : List Outbound} (silent : ∀ o ∈ out, o.carried = []) :
      Handled b s m (finish b s out) []

variable {b : Backend} {s : Session} {m : Moment}

theorem publishable_ok {name : String} {channel : Channel} (h : s.publishable name = .ok channel) :
    Channel.parse name = .ok channel ∧ channel.accepts s.joined = .ok () := by
  unfold publishable at h
  cases hp : Channel.parse name with
  | error r => simp [hp, bind, Except.bind] at h
  | ok c =>
    cases ha : c.accepts s.joined with
    | error r => simp [hp, ha, bind, Except.bind] at h
    | ok u =>
      simp only [hp, ha, bind, Except.bind, pure, Except.pure, Except.ok.injEq] at h
      exact h ▸ ⟨rfl, ha⟩

theorem tell_handled {n : Notice} (hn : (Outbound.notice n).carried = []) :
    Handled b s m (tell b (s.hear m) n) [] :=
  .told rfl (by simpa using hn)

theorem refuse_handled (id : Option Nat) (r : Rejection) :
    Handled b s m (refuse b (s.hear m) id r) [] := tell_handled rfl

theorem subscribe_handled (id : Option Nat) {channel : Channel} (hc : channel.Proper)
    (recover : Option Position) {b' : Backend} {answer : Except Rejection Subscription}
    (h : b.subscribe s.id channel recover m = (b', answer)) :
    Handled b s m (match answer with
      | .error r => refuse b' (s.hear m) id r
      | .ok x => tell b' { s.hear m with joined := insertOnce channel.name s.joined }
        (.subscribed id channel.name x.epoch x.offset x.recovery.recovered x.recovery.publications))
      [.subscribe s.id channel recover m.steady b.epochs.name] := by
  have hb : (b.subscribe s.id channel recover m).1 = b' := by rw [h]
  subst hb
  cases answer with
  | error r => exact .refused hc (by rw [h])
  | ok x => exact .subscribed hc (by rw [h])

theorem renewed_ok {current identity : Identity} {answer : Except Fault Identity}
    (h : renewed current answer = .ok identity) :
    answer = .ok identity ∧ identity.user = current.user := by
  unfold renewed at h
  split at h
  · split at h
    · rename_i hu
      cases h
      exact ⟨rfl, hu⟩
    · cases h
  · cases h

theorem carryOut_handled (secret : String) {id : Option Nat} {c : Command}
    (hc : ∀ name e channel, c = .publish name e → s.publishable name ≠ .ok channel) :
    Handled b s m (carryOut secret b (s.hear m) ⟨id, c⟩ m) (s.commands b.epochs.name c m) := by
  cases c with
  | subscribe name recover =>
    simp only [carryOut, subscribe, commands]
    cases hp : Channel.parse name with
    | error r => exact refuse_handled id r
    | ok channel =>
      rcases hs : b.subscribe s.id channel recover m with ⟨b', answer⟩
      have hh := subscribe_handled id (Channel.parse_proper hp) recover hs
      have hi : (s.hear m).id = s.id := rfl
      simp only [hi, hs]
      cases answer <;> exact hh
  | unsubscribe name =>
    simp only [carryOut, unsubscribe, commands]
    cases hp : Channel.parse name with
    | error r => exact refuse_handled id r
    | ok channel => exact .unsubscribed (Channel.parse_proper hp)
  | publish name e =>
    have hp : (s.hear m).publishable name = s.publishable name := rfl
    simp only [carryOut, publish, commands, hp]
    cases hn : s.publishable name with
    | error r => exact refuse_handled id r
    | ok channel => exact absurd hn (hc name e channel rfl)
  | refresh token =>
    have hi : (s.hear m).identity = s.identity := rfl
    simp only [carryOut, refresh, commands, hi]
    cases hr : renewed s.identity (Token.verify secret token m.stamp.seconds) with
    | ok identity => exact .told (renewed_ok hr).2 (by simp [Outbound.carried])
    | error reason => exact .ended (by simp [Outbound.carried])
  | ping => exact tell_handled rfl

theorem handle_handled (secret : String) {frame : Inbound} (hf : s.asksFor? frame = none) :
    Handled b s m (s.handle secret b frame m) (s.asks b.epochs.name frame m) := by
  unfold asksFor? at hf
  simp only [handle, asks]
  cases hl : frame.limited with
  | text text =>
    simp only [hl] at hf
    simp only [handleText]
    cases hp : Command.parse text with
    | error e => exact refuse_handled e.id e.rejection
    | ok r =>
      obtain ⟨id, c⟩ := r
      apply carryOut_handled
      rintro name e channel rfl hn
      simp [hp, hn] at hf
  | binary text => exact .told rfl (by simp [Outbound.carried])
  | ping text => exact .told rfl (by simp [Outbound.carried])
  | pong text => exact .told rfl (by simp)
  | close code reason => exact .ended (by simp [Outbound.carried])
  | broken => exact .ended (by simp)

theorem heartbeat_handled : Handled b s m (s.heartbeat b m) [] := by
  unfold heartbeat
  split
  · exact .ended (by simp)
  · split
    · exact .ended (by simp [Outbound.carried])
    · exact .told rfl (by simp [Outbound.carried])

theorem handle_event (secret : String) {frame : Inbound} {id : Option Nat} {channel : Channel}
    {e : Event} (hf : s.asksFor? frame = some (id, channel, e)) :
    s.handle secret b frame m =
      match b.perform (Mutation.route e ⟨s.identity.user, channel⟩ m) with
      | (.ok a, b) => tell b (s.hear m) (.published id a.channel.name a.offset)
      | (.error f, b) => refuse b (s.hear m) id f.rejection := by
  unfold asksFor? at hf
  split at hf
  · rename_i text hl
    split at hf
    · rename_i id' name e' hp
      split at hf
      · rename_i channel' hn
        cases hf
        have hh : (s.hear m).publishable name = .ok channel := hn
        simp only [handle, hl, handleText, hp, carryOut, publish, hh]
        rfl
      · cases hf
    · cases hf
  · cases hf

theorem asksFor?_parsed {frame : Inbound} {id : Option Nat} {channel : Channel} {e : Event}
    (hf : s.asksFor? frame = some (id, channel, e)) :
    (∃ name, Channel.parse name = .ok channel) ∧ channel.accepts s.joined = .ok () := by
  unfold asksFor? at hf
  split at hf
  · split at hf
    · split at hf
      · rename_i channel' hn
        cases hf
        exact ⟨⟨_, (publishable_ok hn).1⟩, (publishable_ok hn).2⟩
      · cases hf
    · cases hf
  · cases hf

namespace Handled

variable {step : Step} {ms : List Hub.Message}

theorem served (h : Handled b s m step ms) : b.Served step.backend ms := by
  cases h with
  | told user silent => exact Backend.served_none rfl rfl rfl
  | subscribed proper answered => exact Backend.served_subscribe b s.id _ _ m
  | refused proper answered => exact Backend.served_subscribe b s.id _ _ m
  | unsubscribed proper => exact Backend.served_none rfl rfl rfl
  | ended silent => exact Backend.served_none rfl rfl rfl

theorem kept (h : Handled b s m step ms) : ∃ hub epochs, step.backend = { b with hub, epochs } := by
  have hsub (channel : Channel) (recover : Option Position) :
      ∃ hub epochs, (b.subscribe s.id channel recover m).1 = { b with hub, epochs } := by
    rw [Backend.subscribe_eq]
    split
    · exact ⟨_, _, rfl⟩
    · exact ⟨b.hub, b.epochs, rfl⟩
  cases h with
  | told user silent => exact ⟨b.hub, b.epochs, rfl⟩
  | subscribed proper answered => exact hsub _ _
  | refused proper answered => exact hsub _ _
  | unsubscribed proper => exact ⟨b.hub, b.epochs, rfl⟩
  | ended silent => exact ⟨b.hub, b.epochs, rfl⟩

theorem session (h : Handled b s m step ms) {s' : Session} (hs : step.session = some s') :
    s'.id = s.id ∧ s'.identity.user = s.identity.user := by
  cases h with
  | told user silent =>
    cases hs
    exact ⟨rfl, user⟩
  | subscribed proper answered =>
    cases hs
    exact ⟨rfl, rfl⟩
  | refused proper answered =>
    cases hs
    exact ⟨rfl, rfl⟩
  | unsubscribed proper =>
    cases hs
    exact ⟨rfl, rfl⟩
  | ended silent => cases hs

theorem asked (h : Handled b s m step ms) : ms = [] ∨ ∃ channel recover, channel.Proper ∧
    ms = [.subscribe s.id channel recover m.steady b.epochs.name] := by
  cases h with
  | told user silent => exact .inl rfl
  | subscribed proper answered => exact .inr ⟨_, _, proper, rfl⟩
  | refused proper answered => exact .inr ⟨_, _, proper, rfl⟩
  | unsubscribed proper => exact .inl rfl
  | ended silent => exact .inl rfl

theorem posted (h : Handled b s m step ms) {l : Hub.Letter} (hl : l ∈ step.posts) :
    l.session = s.id ∧ ∀ c ∈ l.message.channels, c.Proper := by
  cases h with
  | told user silent => cases hl
  | subscribed proper answered => cases hl
  | refused proper answered => cases hl
  | unsubscribed proper =>
    obtain rfl := List.mem_singleton.mp hl
    exact ⟨rfl, by simpa [Hub.Letter.message, Hub.Message.channels] using proper⟩
  | ended silent =>
    obtain rfl := List.mem_singleton.mp hl
    exact ⟨rfl, by simp [Hub.Letter.message, Hub.Message.channels]⟩

theorem carried (h : Handled b s m step ms) {o : Outbound} (ho : o ∈ step.out)
    {x : String × Publication} (hx : x ∈ o.carried) :
    ∃ channel, channel.Proper ∧ channel.name = x.1 ∧ b.hub.admitted s.id channel = true := by
  cases h with
  | told user silent =>
    rw [silent o ho] at hx
    cases hx
  | @subscribed id channel recover a heard proper answered =>
    obtain rfl := List.mem_singleton.mp ho
    obtain ⟨p, -, rfl⟩ := List.mem_map.mp hx
    refine ⟨channel, proper, rfl, ?_⟩
    unfold Backend.subscribe at answered
    rcases b.hub.subscribe_eq s.id channel recover m.steady b.epochs.name with ⟨ha, -⟩ | ⟨-, r, hs⟩
    · exact ha
    · rw [hs] at answered
      cases answered
  | refused proper answered =>
    obtain rfl := List.mem_singleton.mp ho
    cases hx
  | unsubscribed proper =>
    obtain rfl := List.mem_singleton.mp ho
    cases hx
  | ended silent =>
    rw [silent o ho] at hx
    cases hx

end Handled

end Session

end LiveComments
