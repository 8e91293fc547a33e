import LiveComments.Hub.Basic
import LiveComments.Proofs.Hub.Ring
import LiveComments.Proofs.Table

namespace LiveComments

namespace Hub

inductive Message where
  | connect (session : String) (user : Int)
  | disconnect (session : String)
  | subscribe (session : String) (channel : Channel) (recover : Option Position) (now : Int)
      (epoch : String)
  | unsubscribe (session : String) (channel : Channel)
  | publish (channel : Channel) (event : Event) (now : Int) (epoch : String)
  | sweep (now : Int)

structure Record where
  channel : String
  epoch : String
  publication : Publication

def start (bounds : HistoryBounds) : Hub := { bounds }

def step (h : Hub) : Message → Hub
  | .connect session user => (h.connect session user).1
  | .disconnect session => h.disconnect session
  | .subscribe session channel recover now epoch =>
    match h.subscribe session channel recover now epoch with
    | .ok (h, _) => h
    | .error _ => h
  | .unsubscribe session channel => h.unsubscribe session channel
  | .publish channel event now epoch => (h.publish channel event now epoch).1
  | .sweep now => h.sweep now

def run (h : Hub) (ms : List Message) : Hub := ms.foldl step h

def gather {α : Type} (f : Hub → Message → List α) : Hub → List Message → List α
  | _, [] => []
  | h, m :: ms => f h m ++ gather f (h.step m) ms

def published (h : Hub) : Message → List Record
  | .publish channel event now epoch =>
    [⟨channel.name, (h.ring channel.name epoch).epoch,
      ⟨(h.publish channel event now epoch).2.1, event⟩⟩]
  | _ => []

def sent (h : Hub) : Message → List Delivery
  | .publish channel event now epoch => (h.publish channel event now epoch).2.2
  | _ => []

def admitted (h : Hub) (session : String) (channel : Channel) : Bool :=
  (h.sessions.get? session).any fun user => (channel.admits user).isOk

def fresh (h : Hub) (channel epoch : String) : List String :=
  if h.rings.contains channel then [] else [epoch]

def drawn (h : Hub) : Message → List String
  | .subscribe session channel _ _ epoch =>
    if h.admitted session channel then h.fresh channel.name epoch else []
  | .publish channel _ _ epoch => h.fresh channel.name epoch
  | _ => []

def stream (log : List Record) (channel epoch : String) : List Publication :=
  (log.filter fun x => x.channel = channel ∧ x.epoch = epoch).map (·.publication)

def onChannel (n : String) (log : List Record) : List Publication :=
  (log.filter (·.channel = n)).map (·.publication)

def eventsOn (n : String) : List Message → List Event
  | [] => []
  | .publish channel event _ _ :: ms =>
    if channel.name = n then event :: eventsOn n ms else eventsOn n ms
  | _ :: ms => eventsOn n ms

theorem run_append (h : Hub) (ms ns : List Message) : h.run (ms ++ ns) = (h.run ms).run ns :=
  List.foldl_append

theorem run_singleton (h : Hub) (m : Message) : h.run [m] = h.step m := rfl

theorem gather_singleton {α : Type} (f : Hub → Message → List α) (h : Hub) (m : Message) :
    gather f h [m] = f h m := List.append_nil _

theorem gather_append {α : Type} (f : Hub → Message → List α) (h : Hub) (ms ns : List Message) :
    gather f h (ms ++ ns) = gather f h ms ++ gather f (h.run ms) ns := by
  induction ms generalizing h with
  | nil => rfl
  | cons m ms ih =>
    rw [List.cons_append, gather, gather, ih, List.append_assoc]
    rfl

theorem gather_concat {α : Type} (f : Hub → Message → List α) (h : Hub) (ms : List Message)
    (m : Message) : gather f h (ms ++ [m]) = gather f h ms ++ f (h.run ms) m := by
  rw [gather_append, gather_singleton]

theorem stream_append (log log' : List Record) (channel epoch : String) :
    stream (log ++ log') channel epoch = stream log channel epoch ++ stream log' channel epoch := by
  simp [stream]

theorem onChannel_append (n : String) (log log' : List Record) :
    onChannel n (log ++ log') = onChannel n log ++ onChannel n log' := by
  simp [onChannel]

theorem eventsOn_publish (n : String) (channel : Channel) (event : Event) (now : Int)
    (epoch : String) : eventsOn n [.publish channel event now epoch] =
      if channel.name = n then [event] else [] := rfl

theorem eventsOn_append (n : String) (ms ns : List Message) :
    eventsOn n (ms ++ ns) = eventsOn n ms ++ eventsOn n ns := by
  induction ms with
  | nil => rfl
  | cons m ms ih =>
    cases m with
    | publish channel event now epoch =>
      rw [List.cons_append, eventsOn, eventsOn, ih]
      split <;> rfl
    | _ => exact ih

theorem stream_eq_nil {log : List Record} {channel epoch : String}
    (h : ∀ x ∈ log, x.epoch ≠ epoch) : stream log channel epoch = [] := by
  simp only [stream, List.map_eq_nil_iff, List.filter_eq_nil_iff, decide_eq_true_eq, not_and]
  exact fun x hx _ => h x hx

theorem published_events (h : Hub) (n : String) (ms : List Message) :
    (onChannel n (gather published h ms)).map (·.data) = eventsOn n ms := by
  induction ms generalizing h with
  | nil => rfl
  | cons m ms ih =>
    rw [gather, onChannel_append, List.map_append, ih]
    cases m with
    | publish channel event now epoch =>
      rw [eventsOn]
      by_cases hc : channel.name = n <;> simp [onChannel, published, hc]
    | _ => rfl

def serve (r : Ring) (recover : Option Position) (now : Int) : Ring × Recovery :=
  match recover with
  | some p => r.since p now
  | none => (r, ⟨[], false⟩)

@[simp] theorem serve_epoch (r : Ring) (recover : Option Position) (now : Int) :
    (serve r recover now).1.epoch = r.epoch := by
  cases recover <;> rfl

@[simp] theorem serve_top (r : Ring) (recover : Option Position) (now : Int) :
    (serve r recover now).1.top = r.top := by
  cases recover <;> rfl

def enter (h : Hub) (session : String) (channel : Channel) (recover : Option Position) (now : Int)
    (epoch : String) : Hub :=
  { h.join session channel.name with
    rings := h.rings.insert channel.name (serve (h.ring channel.name epoch) recover now).1 }

theorem subscribe_eq (h : Hub) (session : String) (channel : Channel) (recover : Option Position)
    (now : Int) (epoch : String) :
    (h.admitted session channel = true ∧ h.subscribe session channel recover now epoch =
      .ok (h.enter session channel recover now epoch,
        ⟨(h.ring channel.name epoch).epoch, (h.ring channel.name epoch).top,
          (serve (h.ring channel.name epoch) recover now).2⟩)) ∨
    (h.admitted session channel = false ∧
      ∃ r, h.subscribe session channel recover now epoch = .error r) := by
  unfold subscribe admitted
  cases h.sessions.get? session with
  | none => exact .inr ⟨rfl, _, rfl⟩
  | some user =>
    simp only [Option.any_some, bind, Except.bind]
    cases channel.admits user with
    | error r => exact .inr ⟨rfl, r, rfl⟩
    | ok u =>
      refine .inl ⟨rfl, ?_⟩
      cases recover with
      | none => rfl
      | some p => rfl

theorem step_subscribe (h : Hub) (session : String) (channel : Channel) (recover : Option Position)
    (now : Int) (epoch : String) :
    h.step (.subscribe session channel recover now epoch) =
      if h.admitted session channel then h.enter session channel recover now epoch else h := by
  unfold step
  rcases h.subscribe_eq session channel recover now epoch with ⟨ha, hs⟩ | ⟨ha, r, hs⟩
  · simp [ha, hs]
  · simp [ha, hs]

theorem step_subscribed {h h' : Hub} {session : String} {channel : Channel}
    {recover : Option Position} {now : Int} {epoch : String} {a : Subscription}
    (hsub : h.subscribe session channel recover now epoch = .ok (h', a)) :
    h.step (.subscribe session channel recover now epoch) = h' := by
  simp only [step, hsub]

@[simp] theorem leave_rings (h : Hub) (session channel : String) :
    (h.leave session channel).rings = h.rings := by
  unfold leave
  split
  · rfl
  · split <;> rfl

@[simp] theorem leave_sessions (h : Hub) (session channel : String) :
    (h.leave session channel).sessions = h.sessions := by
  unfold leave
  split
  · rfl
  · split <;> rfl

@[simp] theorem disconnect_rings (h : Hub) (session : String) :
    (h.disconnect session).rings = h.rings := by
  unfold disconnect
  split <;> rfl

theorem enter_ring (h : Hub) (session : String) (channel : Channel) (recover : Option Position)
    (now : Int) (epoch n : String) :
    (h.enter session channel recover now epoch).rings.get? n =
      if channel.name = n then some (serve (h.ring channel.name epoch) recover now).1
      else h.rings.get? n :=
  Table.get?_insert _ _ _ _

theorem subscribe_position {h h' : Hub} {session : String} {channel : Channel}
    {recover : Option Position} {now : Int} {epoch : String} {a : Subscription}
    (hsub : h.subscribe session channel recover now epoch = .ok (h', a)) :
    ∃ r, h'.rings.get? channel.name = some r ∧ r.epoch = a.epoch ∧ r.top = a.offset := by
  rcases h.subscribe_eq session channel recover now epoch with ⟨-, hs⟩ | ⟨-, x, hs⟩
  · rw [hs, Except.ok.injEq, Prod.mk.injEq] at hsub
    obtain ⟨rfl, rfl⟩ := hsub
    rw [enter_ring, if_pos rfl]
    exact ⟨_, rfl, serve_epoch _ _ _, serve_top _ _ _⟩
  · rw [hs] at hsub
    cases hsub

theorem publish_ring (h : Hub) (channel : Channel) (event : Event) (now : Int) (epoch n : String) :
    (h.publish channel event now epoch).1.rings.get? n =
      if channel.name = n then some ((h.ring channel.name epoch).push event now)
      else h.rings.get? n :=
  Table.get?_insert _ _ _ _

theorem sent_publish (h : Hub) (channel : Channel) (event : Event) (now : Int) (epoch : String) :
    h.sent (.publish channel event now epoch) =
      ((h.membersOf channel.name).filter h.sessions.contains).map
        (⟨·, .publication channel.name ⟨(h.ring channel.name epoch).top + 1, event⟩⟩) := rfl

theorem published_epoch {h : Hub} {m : Message} {x : Record} (hx : x ∈ h.published m) :
    ∃ r, (h.step m).rings.get? x.channel = some r ∧ r.epoch = x.epoch := by
  cases m with
  | publish channel event now epoch =>
    rw [published, List.mem_singleton] at hx
    subst hx
    exact ⟨_, by unfold step; rw [publish_ring, if_pos rfl], Ring.push_epoch _ _ _⟩
  | _ => simp [published] at hx

theorem sweep_ring {h : Hub} (hu : h.rings.Unique) (now : Int) (n : String) :
    (h.sweep now).rings.get? n = ((h.rings.get? n).map (·.evict now)).filter fun r =>
      !r.entries.isEmpty || h.members.contains n := by
  unfold sweep
  rw [(hu.map _).get?_filter, Table.get?_map]

theorem step_rings_unique {h : Hub} (hu : h.rings.Unique) (m : Message) :
    (h.step m).rings.Unique := by
  cases m with
  | connect session user => exact hu
  | disconnect session => simpa [step] using hu
  | subscribe session channel recover now epoch =>
    rw [step_subscribe]
    split
    · exact hu.insert _ _
    · exact hu
  | unsubscribe session channel => simpa [step, unsubscribe] using hu
  | publish channel event now epoch => exact hu.insert _ _
  | sweep now => exact (hu.map _).filter _

theorem run_rings_unique {h : Hub} (hu : h.rings.Unique) (ms : List Message) :
    (h.run ms).rings.Unique := by
  induction ms generalizing h with
  | nil => exact hu
  | cons m ms ih => exact ih (step_rings_unique hu m)

end Hub

end LiveComments
