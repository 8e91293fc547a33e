import LiveComments.Http.Surface
import LiveComments.Proofs.Live
import LiveComments.Proofs.User.Mask

namespace LiveComments

namespace Fault

inductive Like : Fault → Fault → Prop
  | same (f : Fault) : Like f f
  | internal (d e : String) : Like (.internal d) (.internal e)

variable {f g : Fault}

theorem like_sanitized (f : Fault) : f.Like f.sanitized := by
  cases f with
  | internal d => exact .internal d _
  | _ => exact .same _

theorem Like.sanitized (h : f.Like g) : f.sanitized = g.sanitized := by
  cases h with
  | same => rfl
  | internal d e => rfl

theorem Like.rejection (h : f.Like g) : f.rejection = g.rejection := by
  unfold Fault.rejection
  rw [h.sanitized]

theorem Like.answer (h : f.Like g) : Http.Answer.ofFault f = Http.Answer.ofFault g := by
  cases h with
  | same => rfl
  | internal d e => rfl

end Fault

def maskedOutage (o : StoreCall × Fault) : StoreCall × Fault := (o.1, o.2.sanitized)

namespace Backend

variable {α β : Type}

def masked (b : Backend) : Backend :=
  { b with
    sources := b.sources.masked
    storeOutage := b.storeOutage.map maskedOutage
    publishOutage := b.publishOutage.map Fault.sanitized }

inductive Twins : Except Fault α × Backend → Except Fault α × Backend → Prop
  | ok (a : α) (b : Backend) : Twins (.ok a, b) (.ok a, b.masked)
  | error {f g : Fault} (like : f.Like g) (b : Backend) : Twins (.error f, b) (.error g, b.masked)

/-- An action that does not look behind the mask. -/
def Discreet (x : Action α) : Prop := ∀ b : Backend, Twins (b.perform x) (b.masked.perform x)

theorem discreet_bind {x : Action α} {f : α → Action β} (hx : Discreet x) (hf : ∀ a, Discreet (f a)) :
    Discreet (x >>= f) := by
  intro b
  have h := hx b
  rw [perform_bind, perform_bind]
  generalize b.perform x = p at h ⊢
  generalize b.masked.perform x = q at h ⊢
  cases h with
  | ok a b' => exact hf a b'
  | error like b' => exact .error like b'

theorem discreet_beforeCall (call : StoreCall) : Discreet (beforeCall call) := by
  intro b
  unfold beforeCall
  rw [perform_bind, perform_bind, perform_get, perform_get]
  have hmasked : b.masked.storeOutage = b.storeOutage.map maskedOutage := rfl
  rcases ho : b.storeOutage with _ | ⟨c, f⟩
  · rw [ho] at hmasked
    simp only [ho, hmasked]
    exact .ok _ _
  · rw [ho] at hmasked
    simp only [ho, hmasked, Option.map_some, maskedOutage]
    split
    · exact .error f.like_sanitized { b with storeOutage := none }
    · exact .ok _ _

theorem closed_discreet : Closed Discreet where
  pure := fun a b => .ok a b
  throw := fun f b => .error (.same f) b
  bind := discreet_bind
  read := by
    intro α f hread hf b
    have h := hf b b
    have hmasked : f b.masked = f b := hread b.masked b rfl
    rw [perform_bind, perform_bind, perform_get, perform_get]
    simp only [hmasked]
    exact h
  beforeCall := discreet_beforeCall

theorem discreet_resolveUser (id : Int) (m : Moment) : Discreet (resolveUser id m) := by
  intro b
  have hresolve := b.sources.resolve_masked id m.steady
  rw [perform_resolveUser, perform_resolveUser]
  change Twins _ ((b.sources.masked.resolve id m.steady).2,
    { b.masked with sources := (b.sources.masked.resolve id m.steady).1 })
  rw [hresolve]
  cases (b.sources.resolve id m.steady).2 with
  | ok u => exact .ok u { b with sources := _ }
  | error f => exact .error (.same f) { b with sources := _ }

theorem discreet_publish (channel : Channel) (e : Event) (m : Moment) : Discreet (publish channel e m) :=
  fun b => .ok _ (b.perform (publish channel e m)).2

theorem discreet_announce (channel : Channel) (e : Event) (m : Moment) :
    Discreet (announce channel e m) := by
  intro b
  have hmasked : b.masked.publishOutage = b.publishOutage.map Fault.sanitized := rfl
  unfold announce
  rw [perform_bind, perform_bind, perform_get, perform_get]
  cases ho : b.publishOutage with
  | none =>
    rw [ho] at hmasked
    simp only [ho, hmasked]
    exact discreet_publish channel e m b
  | some f =>
    rw [ho] at hmasked
    simp only [ho, hmasked]
    exact .error f.like_sanitized { b with publishOutage := none }

end Backend

open Backend

namespace Mutation

theorem discreet_prepare (e : Event) (caller : Caller) (m : Moment) : Discreet (prepare e caller m) :=
  closed_prepare closed_discreet discreet_resolveUser e caller m

theorem discreet_store (request : Event.Request) (c : Comment) : Discreet (store request c) := by
  apply closed_store closed_discreet
  · intro c
    exact discreet_bind (discreet_beforeCall .create) fun _ b => .ok _ { b with store := _, commentIds := _ }
  · intro s b
    exact .ok _ { b with store := s }

theorem discreet_announced (news : Event.News) (c : Comment) (m : Moment) : Discreet (announce news c m) :=
  discreet_bind (discreet_announce _ _ m) fun _ => closed_discreet.pure _

end Mutation

namespace Session

def Step.masked (step : Step) : Step := { step with backend := step.backend.masked }

theorem publish_masked (b : Backend) (s : Session) (id : Option Nat) (name : String) (e : Event)
    (m : Moment) : publish b.masked s id name e m = (publish b s id name e m).masked := by
  unfold publish
  cases s.publishable name with
  | error r => rfl
  | ok channel =>
    have hroute : Discreet (Mutation.route e ⟨s.identity.user, channel⟩ m) := by
      rw [Mutation.route_eq]
      apply discreet_bind (Mutation.discreet_prepare _ _ _)
      intro p
      exact discreet_bind (Mutation.discreet_store _ _) fun c => Mutation.discreet_announced _ c m
    have h := hroute b
    simp only
    generalize b.perform (Mutation.route e ⟨s.identity.user, channel⟩ m) = p at h ⊢
    generalize b.masked.perform (Mutation.route e ⟨s.identity.user, channel⟩ m) = q at h ⊢
    cases h with
    | ok a b' => rfl
    | error like b' =>
      simp only [like.rejection]
      rfl

theorem subscribe_masked (b : Backend) (s : Session) (id : Option Nat) (name : String)
    (recover : Option Position) (m : Moment) :
    subscribe b.masked s id name recover m = (subscribe b s id name recover m).masked := by
  unfold subscribe Backend.subscribe
  cases Channel.parse name with
  | error r => rfl
  | ok channel =>
    have hhub : b.masked.hub = b.hub := rfl
    have hepochs : b.masked.epochs = b.epochs := rfl
    simp only [hhub, hepochs]
    cases b.hub.subscribe s.id channel recover m.steady b.epochs.name with
    | error r => rfl
    | ok x => rfl

theorem carryOut_masked (secret : String) (b : Backend) (s : Session) (r : Command.Request) (m : Moment) :
    carryOut secret b.masked s r m = (carryOut secret b s r m).masked := by
  unfold carryOut
  cases r.command with
  | subscribe name recover => exact subscribe_masked b s r.id name recover m
  | unsubscribe name =>
    simp only [unsubscribe]
    cases Channel.parse name with
    | error r => rfl
    | ok channel => rfl
  | publish name e => exact publish_masked b s r.id name e m
  | refresh token =>
    simp only [refresh]
    cases renewed s.identity (Token.verify secret token m.stamp.seconds) with
    | error reason => rfl
    | ok identity => rfl
  | ping => rfl

theorem handle_masked (secret : String) (b : Backend) (s : Session) (frame : Inbound) (m : Moment) :
    s.handle secret b.masked frame m = (s.handle secret b frame m).masked := by
  unfold handle
  cases frame.limited with
  | text text =>
    simp only [handleText]
    cases Command.parse text with
    | ok r => exact carryOut_masked secret b (s.hear m) r m
    | error e => rfl
  | binary text => rfl
  | ping text => rfl
  | pong text => rfl
  | close code reason => rfl
  | broken => rfl

theorem heartbeat_masked (b : Backend) (s : Session) (m : Moment) :
    s.heartbeat b.masked m = (s.heartbeat b m).masked := by
  unfold heartbeat
  split
  · rfl
  · split
    · rfl
    · rfl

end Session

namespace Link

def Part.masked (p : Part) : Part := (p.1.masked, p.2)

theorem receive_masked (secret : String) (b : Backend) (s : Session) (f : Inbound) (m : Moment) :
    receive secret b.masked s f m = Part.masked (receive secret b s f m) := by
  unfold receive
  cases s.asksFor? f with
  | none => exact congrArg (·, none) (Session.handle_masked secret b s f m)
  | some x =>
    obtain ⟨id, channel, e⟩ := x
    have h := Mutation.discreet_prepare e ⟨s.identity.user, channel⟩ m b
    simp only
    generalize b.perform (Mutation.prepare e ⟨s.identity.user, channel⟩ m) = p at h ⊢
    generalize b.masked.perform (Mutation.prepare e ⟨s.identity.user, channel⟩ m) = q at h ⊢
    cases h with
    | ok a b' => rfl
    | error like b' =>
      simp only [like.rejection]
      rfl

theorem proceed_masked (b : Backend) (s : Session) (flight : Flight) (m : Moment) :
    proceed b.masked s flight m = Part.masked (proceed b s flight m) := by
  unfold proceed
  split
  · have h := Mutation.discreet_announced flight.request.news flight.comment m b
    generalize b.perform (Mutation.announce flight.request.news flight.comment m) = p at h ⊢
    generalize b.masked.perform (Mutation.announce flight.request.news flight.comment m) = q at h ⊢
    cases h with
    | ok a b' => rfl
    | error like b' =>
      simp only [like.rejection]
      rfl
  · have h := Mutation.discreet_store flight.request flight.comment b
    generalize b.perform (Mutation.store flight.request flight.comment) = p at h ⊢
    generalize b.masked.perform (Mutation.store flight.request flight.comment) = q at h ⊢
    cases h with
    | ok a b' => rfl
    | error like b' =>
      simp only [like.rejection]
      rfl

theorem asks_masked (b : Backend) (link : Link) (a : Act) (m : Moment) :
    asks b.masked link a m = asks b link a m := by
  have hout : b.masked.publishOutage.isNone = b.publishOutage.isNone := Option.isNone_map
  obtain ⟨s, flight⟩ := link
  cases flight with
  | none => cases a <;> rfl
  | some flight =>
    cases a with
    | proceed =>
      simp only [asks, hout]
      rfl
    | _ => rfl

theorem act_masked (secret : String) (b : Backend) (link : Link) (a : Act) (m : Moment) :
    act secret b.masked link a m = Part.masked (act secret b link a m) := by
  obtain ⟨s, flight⟩ := link
  cases flight with
  | none =>
    cases a with
    | frame f => exact receive_masked secret b s f m
    | proceed => rfl
    | beat => exact congrArg (·, none) (Session.heartbeat_masked b s m)
  | some flight =>
    cases a with
    | frame f => rfl
    | proceed => exact proceed_masked b s flight m
    | beat => rfl

end Link

namespace Http

theorem run_masked {a : Action Answer} (ha : Discreet a) (b : Backend) :
    run b.masked a = ((run b a).1.masked, (run b a).2) := by
  have h := ha b
  unfold run
  generalize b.perform a = p at h ⊢
  generalize b.masked.perform a = q at h ⊢
  cases h with
  | ok answer b' => rfl
  | error like b' =>
    simp only [like.answer]

theorem answer_masked (b : Backend) (r : Request) (gate : Option String) (m : Moment) :
    answer b.masked r gate m = ((answer b r gate m).1.masked, (answer b r gate m).2) := by
  unfold answer
  cases Route.of? r.uri.path with
  | none => rfl
  | some route =>
    cases route with
    | live => rfl
    | liveByToken =>
      simp only
      split
      · rfl
      · rfl
    | comment id =>
      simp only
      split
      · rfl
      · exact run_masked (closed_discreet.comment id) b
    | comments postId =>
      simp only
      split
      · rfl
      · cases pageQuery r.uri.query with
        | error e => rfl
        | ok q => exact run_masked (closed_discreet.comments postId q) b

end Http

end LiveComments
