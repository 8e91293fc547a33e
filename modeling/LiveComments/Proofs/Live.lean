import LiveComments.Proofs.Session

/-!
Many sessions at once. An event is carried out in three parts, and other sessions go on between
them; its own session waits.
-/

namespace LiveComments

/-- An event on its way: the comment to be stored or removed, or then to be told about. -/
structure Flight where
  id : Option Nat
  request : Event.Request
  comment : Comment
  stored : Bool

structure Link where
  session : Session
  flight : Option Flight

namespace Link

abbrev Part := Session.Step × Option Flight

inductive Act where
  | frame (f : Inbound)
  | proceed
  | beat

def receive (secret : String) (b : Backend) (s : Session) (f : Inbound) (m : Moment) : Part :=
  match s.asksFor? f with
  | none => (s.handle secret b f m, none)
  | some (id, channel, e) =>
    match b.perform (Mutation.prepare e ⟨s.identity.user, channel⟩ m) with
    | (.ok (request, c), b) => (⟨b, some (s.hear m), [], []⟩, some ⟨id, request, c, false⟩)
    | (.error f, b) => (Session.refuse b (s.hear m) id f.rejection, none)

def proceed (b : Backend) (s : Session) (flight : Flight) (m : Moment) : Part :=
  if flight.stored then
    match b.perform (Mutation.announce flight.request.news flight.comment m) with
    | (.ok a, b) => (Session.tell b s (.published flight.id a.channel.name a.offset), none)
    | (.error f, b) => (Session.refuse b s flight.id f.rejection, none)
  else
    match b.perform (Mutation.store flight.request flight.comment) with
    | (.ok c, b) => (⟨b, some s, [], []⟩, some { flight with comment := c, stored := true })
    | (.error f, b) => (Session.refuse b s flight.id f.rejection, none)

def act (secret : String) (b : Backend) (link : Link) (a : Act) (m : Moment) : Part :=
  match link.flight, a with
  | none, .frame f => receive secret b link.session f m
  | none, .beat => (link.session.heartbeat b m, none)
  | some flight, .proceed => proceed b link.session flight m
  | flight, _ => (⟨b, some link.session, [], []⟩, flight)

def asks (b : Backend) (link : Link) (a : Act) (m : Moment) : List Hub.Message :=
  match link.flight, a with
  | none, .frame f =>
    match link.session.asksFor? f with
    | none => link.session.asks b.epochs.name f m
    | some _ => []
  | some flight, .proceed =>
    if flight.stored ∧ b.publishOutage.isNone then
      [.publish (.post flight.comment.postId)
        (Mutation.event flight.request.news flight.comment m) m.steady b.epochs.name]
    else []
  | _, _ => []

def next (m : Moment) (p : Part) : Part :=
  match p.2 with
  | none => p
  | some flight =>
    match p.1.session with
    | none => p
    | some s => proceed p.1.backend s flight m

theorem next_receive (secret : String) (b : Backend) (s : Session) (f : Inbound) (m : Moment) :
    next m (next m (receive secret b s f m)) = (s.handle secret b f m, none) := by
  unfold receive
  cases hf : s.asksFor? f with
  | none => rfl
  | some x =>
    obtain ⟨id, channel, e⟩ := x
    rw [Session.handle_event secret hf, Mutation.route_eq]
    rcases hp : b.perform (Mutation.prepare e ⟨s.identity.user, channel⟩ m) with ⟨g | ⟨request, c⟩, b₁⟩
    · simp only [hp, Backend.bind_of_error hp]
      rfl
    rw [Backend.bind_of_ok hp]
    rcases hs : b₁.perform (Mutation.store request c) with ⟨g | d, b₂⟩
    · simp only [hp, Backend.bind_of_error hs, next, proceed, hs]
      rfl
    rw [Backend.bind_of_ok hs]
    simp only [hp, next, proceed, hs, Bool.false_eq_true, if_false, if_true]
    rcases b₂.perform (Mutation.announce request.news d m) with ⟨g | a, b₃⟩ <;> rfl

variable {b : Backend} {s : Session} {m : Moment}

theorem receive_hub (secret : String) (f : Inbound) : (receive secret b s f m).1.backend.hub =
    b.hub.run (asks b ⟨s, none⟩ (.frame f) m) := by
  cases hf : s.asksFor? f with
  | none =>
    simp only [receive, asks, hf]
    exact (Session.handle_handled secret hf).served.hub
  | some x =>
    obtain ⟨id, channel, e⟩ := x
    simp only [receive, asks, hf]
    rcases hr : b.perform (Mutation.prepare e ⟨s.identity.user, channel⟩ m) with ⟨g | c, b'⟩
    · exact ((Mutation.quiet_prepare e ⟨s.identity.user, channel⟩ m).calm hr).kept.1
    · exact ((Mutation.quiet_prepare e ⟨s.identity.user, channel⟩ m).calm hr).kept.1

theorem proceed_hub (flight : Flight) : (proceed b s flight m).1.backend.hub =
    b.hub.run (asks b ⟨s, some flight⟩ .proceed m) := by
  have hspread {b' : Backend} {r : Except Fault Announcement} (hstored : flight.stored = true)
      (h : b.perform (Mutation.announce flight.request.news flight.comment m) = (r, b')) :
      b'.hub = b.hub.run (asks b ⟨s, some flight⟩ .proceed m) := by
    simp only [asks]
    rcases Mutation.announce_cases h with ⟨hout, rfl⟩ | ⟨hin, rfl⟩
    · rw [if_neg (by simp [hout])]
      rfl
    · rw [if_pos ⟨hstored, hin⟩]
      rfl
  unfold proceed
  split
  · rename_i hstored
    rcases hr : b.perform (Mutation.announce flight.request.news flight.comment m) with ⟨g | a, b'⟩
    · exact hspread hstored hr
    · exact hspread hstored hr
  · rename_i hstored
    rw [show asks b ⟨s, some flight⟩ .proceed m = [] from if_neg fun h => hstored h.1]
    rcases hr : b.perform (Mutation.store flight.request flight.comment) with ⟨g | c, b'⟩
    · exact (Mutation.store_error hr).kept.1
    · exact (Mutation.store_ok hr).kept.1

theorem act_hub (secret : String) (b : Backend) (link : Link) (a : Act) (m : Moment) :
    (act secret b link a m).1.backend.hub = b.hub.run (asks b link a m) := by
  obtain ⟨s, flight⟩ := link
  cases flight with
  | none =>
    cases a with
    | frame f => exact receive_hub secret f
    | proceed => rfl
    | beat => exact Session.heartbeat_handled.served.hub
  | some flight =>
    cases a with
    | frame f => rfl
    | proceed => exact proceed_hub flight
    | beat => rfl

theorem proceed_posts (b : Backend) (s : Session) (flight : Flight) (m : Moment) :
    (proceed b s flight m).1.posts = [] := by
  unfold proceed
  split
  · split <;> rfl
  · split <;> rfl

theorem act_posts (secret : String) {link : Link} {a : Act} {l : Hub.Letter}
    (hl : l ∈ (act secret b link a m).1.posts) :
    l.session = link.session.id ∧ ∀ c ∈ l.message.channels, c.Proper := by
  obtain ⟨s, flight⟩ := link
  cases flight with
  | none =>
    cases a with
    | frame f =>
      change l ∈ (receive secret b s f m).1.posts at hl
      unfold receive at hl
      cases hf : s.asksFor? f with
      | none =>
        simp only [hf] at hl
        exact (Session.handle_handled secret hf).posted hl
      | some x =>
        obtain ⟨id, channel, e⟩ := x
        simp only [hf] at hl
        split at hl <;> cases hl
    | proceed => cases hl
    | beat => exact Session.heartbeat_handled.posted hl
  | some flight =>
    cases a with
    | frame f => cases hl
    | proceed =>
      rw [show (act secret b ⟨s, some flight⟩ .proceed m).1.posts = [] from proceed_posts b s flight m]
        at hl
      cases hl
    | beat => cases hl

theorem receive_store (secret : String) (f : Inbound) :
    (receive secret b s f m).1.backend.store = b.store := by
  unfold receive
  cases hf : s.asksFor? f with
  | none =>
    obtain ⟨hub, epochs, hb⟩ := (Session.handle_handled (b := b) (m := m) secret hf).kept
    change (s.handle secret b f m).backend.store = b.store
    rw [hb]
  | some x =>
    obtain ⟨id, channel, e⟩ := x
    have hcalm := Mutation.quiet_prepare e ⟨s.identity.user, channel⟩ m
    rcases hr : b.perform (Mutation.prepare e ⟨s.identity.user, channel⟩ m) with ⟨g | c, b'⟩
    · simp only [hr]
      exact (hcalm.calm hr).store
    · simp only [hr]
      exact (hcalm.calm hr).store

theorem act_store (secret : String) (b : Backend) (link : Link) (a : Act) (m : Moment) :
    (act secret b link a m).1.backend.store = b.store ∨ a = .proceed ∧
      ∃ flight, link.flight = some flight ∧ flight.stored = false := by
  obtain ⟨s, flight⟩ := link
  cases flight with
  | none =>
    cases a with
    | frame f => exact .inl (receive_store secret f)
    | proceed => exact .inl rfl
    | beat =>
      obtain ⟨hub, epochs, hb⟩ := (Session.heartbeat_handled (b := b) (s := s) (m := m)).kept
      left
      change (s.heartbeat b m).backend.store = b.store
      rw [hb]
  | some flight =>
    cases a with
    | frame f => exact .inl rfl
    | proceed =>
      cases hstored : flight.stored with
      | false => exact .inr ⟨rfl, flight, rfl, hstored⟩
      | true =>
        left
        change (proceed b s flight m).1.backend.store = b.store
        simp only [proceed, hstored, if_true]
        rcases hr : b.perform (Mutation.announce flight.request.news flight.comment m) with ⟨g | c, b'⟩
        · rcases Mutation.announce_cases hr with ⟨-, rfl⟩ | ⟨-, rfl⟩ <;> rfl
        · rcases Mutation.announce_cases hr with ⟨-, rfl⟩ | ⟨-, rfl⟩ <;> rfl
    | beat => exact .inl rfl

end Link

structure Live where
  backend : Backend
  secret : String
  links : Table String Link := {}
  mail : List Hub.Letter := []

namespace Live

inductive Input where
  | start (id : String) (identity : Identity) (m : Moment)
  | act (id : String) (a : Link.Act) (m : Moment)
  | push (user : Int) (e : Event) (m : Moment)
  | read
  | sweep (now : Int)
  | sources (s : Sources)
  | outage (o : Option (StoreCall × Fault))

def ahead (l : Live) : Hub := l.backend.hub.readAll l.mail

/-- The hub answers in turn: first it reads what it was told before. -/
def attended (l : Live) (ms : List Hub.Message) : Live :=
  if ms.isEmpty then l else { l with backend := { l.backend with hub := l.ahead }, mail := [] }

def handedOver (links : Table String Link) (outbox : List Delivery) : List (String × Outbound) :=
  (outbox.filter fun d => links.contains d.session).map fun d => (d.session, .notice d.notice)

def follow (l : Live) (id : String) (p : Link.Part) : Live × List (String × Outbound) :=
  let links := match p.1.session with
    | some s => l.links.insert id ⟨s, p.2⟩
    | none => l.links.erase id
  ({ l with backend := { p.1.backend with outbox := [] }, links, mail := l.mail ++ p.1.posts },
    p.1.out.map (id, ·) ++ handedOver links p.1.backend.outbox)

def calls (l : Live) : Input → List Hub.Message
  | .start id identity _ => [.connect id identity.user]
  | .act id a m => (l.links.get? id).elim [] (·.asks l.backend a m)
  | .push user e m => [.publish (.personal user) e m.steady l.backend.epochs.name]
  | .sweep _ | .read | .sources _ | .outage _ => []

def step (l : Live) (i : Input) : Live × List (String × Outbound) :=
  let l := l.attended (l.calls i)
  match i with
  | .start id identity m => l.follow id (Session.start l.backend id identity m, none)
  | .act id a m =>
    match l.links.get? id with
    | some link => l.follow id (link.act l.secret l.backend a m)
    | none => (l, [])
  | .push user e m =>
    let b := (l.backend.perform (Backend.publish (.personal user) e m)).2
    ({ l with backend := { b with outbox := [] } }, handedOver l.links b.outbox)
  | .read =>
    match l.mail with
    | letter :: mail =>
      ({ l with backend := { l.backend with hub := l.backend.hub.read letter }, mail }, [])
    | [] => (l, [])
  | .sweep now => ({ l with backend := { l.backend with hub := l.backend.hub.sweep now } }, [])
  | .sources s => ({ l with backend := { l.backend with sources := s } }, [])
  | .outage o => ({ l with backend := { l.backend with storeOutage := o } }, [])

def run (l : Live) (is : List Input) : Live := is.foldl (fun l i => (l.step i).1) l

def letters (l : Live) : Input → List Hub.Letter
  | .read => l.mail.take 1
  | i => if (l.calls i).isEmpty then [] else l.mail

def posts (l : Live) : Input → List Hub.Letter
  | .act id a m => (l.links.get? id).elim [] fun link =>
    (link.act l.secret (l.attended (link.asks l.backend a m)).backend a m).1.posts
  | _ => []

def asks (l : Live) (i : Input) : List Hub.Message :=
  (l.letters i).map Hub.Letter.message ++
    match i with
    | .sweep now => [.sweep now]
    | i => l.calls i

def messages : Live → List Input → List Hub.Message
  | _, [] => []
  | l, i :: is => l.asks i ++ messages (l.step i).1 is

def Input.opened : Input → List String
  | .start id _ _ => [id]
  | .act .. | .push .. | .read | .sweep _ | .sources _ | .outage _ => []

def opened (is : List Input) : List String := is.flatMap Input.opened

/-! ### The mail in a step -/

theorem attended_nil (l : Live) : l.attended [] = l := rfl

theorem attended_links (l : Live) (ms : List Hub.Message) : (l.attended ms).links = l.links := by
  unfold attended
  split <;> rfl

theorem attended_secret (l : Live) (ms : List Hub.Message) : (l.attended ms).secret = l.secret := by
  unfold attended
  split <;> rfl

theorem attended_backend (l : Live) (ms : List Hub.Message) :
    ∃ hub, (l.attended ms).backend = { l.backend with hub } := by
  unfold attended
  split
  · exact ⟨l.backend.hub, rfl⟩
  · exact ⟨l.ahead, rfl⟩

theorem attended_mail (l : Live) (ms : List Hub.Message) :
    (ms = [] ∧ l.attended ms = l) ∨
      (ms ≠ [] ∧ (l.attended ms).mail = [] ∧ (l.attended ms).backend.hub = l.ahead) := by
  cases ms with
  | nil => exact .inl ⟨rfl, rfl⟩
  | cons m ms => exact .inr ⟨nofun, rfl, rfl⟩

def part (l : Live) (link : Link) (a : Link.Act) (m : Moment) : Link.Part :=
  link.act l.secret (l.attended (link.asks l.backend a m)).backend a m

theorem step_act {l : Live} {id : String} {link : Link} (hg : l.links.get? id = some link)
    (a : Link.Act) (m : Moment) : l.step (.act id a m) =
      (l.attended (link.asks l.backend a m)).follow id (l.part link a m) := by
  have hcalls : l.calls (.act id a m) = link.asks l.backend a m := by rw [calls, hg]; rfl
  simp only [step, hcalls, attended_links, hg, attended_secret, part]

theorem step_act_absent {l : Live} {id : String} (hg : l.links.get? id = none) (a : Link.Act)
    (m : Moment) : l.step (.act id a m) = (l, []) := by
  have hcalls : l.calls (.act id a m) = [] := by rw [calls, hg]; rfl
  simp only [step, hcalls, attended_nil, hg]

theorem attended_asks (l : Live) (link : Link) (a : Link.Act) (m : Moment) (ms : List Hub.Message) :
    link.asks (l.attended ms).backend a m = link.asks l.backend a m := by
  obtain ⟨hub, hb⟩ := l.attended_backend ms
  rw [hb]
  rfl

theorem attended_hub (l : Live) (ms : List Hub.Message) : (l.attended ms).backend.hub =
    l.backend.hub.readAll (if ms.isEmpty then [] else l.mail) := by
  unfold attended
  split <;> rfl

theorem part_hub (l : Live) (link : Link) (a : Link.Act) (m : Moment) :
    (l.part link a m).1.backend.hub =
      (l.attended (link.asks l.backend a m)).backend.hub.run (link.asks l.backend a m) := by
  rw [part, Link.act_hub, attended_asks]

theorem run_calls (l : Live) (i : Input)
    (hi : l.letters i = if (l.calls i).isEmpty then [] else l.mail) :
    l.backend.hub.run ((l.letters i).map Hub.Letter.message ++ l.calls i) =
      (l.attended (l.calls i)).backend.hub.run (l.calls i) := by
  rw [attended_hub, Hub.run_append, Hub.run_messages, hi]

theorem step_hub (l : Live) (i : Input) :
    (l.step i).1.backend.hub = l.backend.hub.run (l.asks i) := by
  cases i with
  | start id identity m => exact (l.run_calls (.start id identity m) rfl).symm
  | act id a m =>
    apply Eq.trans _ (l.run_calls (.act id a m) rfl).symm
    cases hg : l.links.get? id with
    | none =>
      rw [step_act_absent hg, calls, hg]
      rfl
    | some link =>
      rw [step_act hg, calls, hg]
      exact l.part_hub link a m
  | push user e m => exact (l.run_calls (.push user e m) rfl).symm
  | read =>
    obtain ⟨backend, secret, links, mail⟩ := l
    cases mail with
    | nil => rfl
    | cons letter mail => exact (backend.hub.step_message letter).symm
  | sweep now => rfl
  | sources s => rfl
  | outage o => rfl

theorem letters_of_calls {l : Live} {i : Input} (h : l.calls i ≠ []) : l.letters i = l.mail := by
  have hread : (if (l.calls i).isEmpty then [] else l.mail) = l.mail :=
    if_neg fun he => h (List.isEmpty_iff.mp he)
  cases i with
  | start => exact hread
  | act => exact hread
  | push => exact hread
  | _ => exact absurd rfl h

theorem step_posts {l : Live} {id : String} {link : Link} (hg : l.links.get? id = some link)
    (a : Link.Act) (m : Moment) : l.posts (.act id a m) = (l.part link a m).1.posts := by
  rw [posts, hg]
  rfl

theorem step_mail (l : Live) (i : Input) :
    ∃ rest, l.mail = l.letters i ++ rest ∧ (l.step i).1.mail = rest ++ l.posts i := by
  have hcalled (i : Input) (hi : l.letters i = if (l.calls i).isEmpty then [] else l.mail) :
      l.mail = l.letters i ++ (l.attended (l.calls i)).mail := by
    rw [hi]
    rcases l.attended_mail (l.calls i) with ⟨hnone, hsame⟩ | ⟨hsome, hmail, -⟩
    · rw [hsame, hnone]
      rfl
    · rw [hmail, if_neg (by simpa using hsome), List.append_nil]
  cases i with
  | start id identity m => exact ⟨_, hcalled (.start id identity m) rfl, rfl⟩
  | act id a m =>
    refine ⟨_, hcalled (.act id a m) rfl, ?_⟩
    cases hg : l.links.get? id with
    | none =>
      rw [step_act_absent hg, posts, calls, hg]
      exact (List.append_nil _).symm
    | some link =>
      rw [step_act hg, step_posts hg, calls, hg]
      rfl
  | push user e m => exact ⟨_, hcalled (.push user e m) rfl, (List.append_nil _).symm⟩
  | read =>
    obtain ⟨backend, secret, links, mail⟩ := l
    cases mail with
    | nil => exact ⟨[], rfl, rfl⟩
    | cons letter mail => exact ⟨mail, rfl, (List.append_nil _).symm⟩
  | sweep now => exact ⟨l.mail, rfl, (List.append_nil _).symm⟩
  | sources s => exact ⟨l.mail, rfl, (List.append_nil _).symm⟩
  | outage o => exact ⟨l.mail, rfl, (List.append_nil _).symm⟩

theorem read_mail (l : Live) : (l.step .read).1.mail = l.mail.tail := by
  obtain ⟨backend, secret, links, mail⟩ := l
  cases mail <;> rfl

theorem step_secret (l : Live) (i : Input) : (l.step i).1.secret = l.secret := by
  cases i with
  | start id identity m => rfl
  | act id a m =>
    cases hg : l.links.get? id with
    | none => rw [step_act_absent hg]
    | some link =>
      rw [step_act hg]
      exact l.attended_secret _
  | push user e m => rfl
  | read =>
    simp only [step]
    split <;> rfl
  | sweep now => rfl
  | sources s => rfl
  | outage o => rfl

theorem step_store (l : Live) (i : Input) :
    (l.step i).1.backend.store = l.backend.store ∨ ∃ id s flight m, i = .act id .proceed m ∧
      l.links.get? id = some ⟨s, some flight⟩ ∧ flight.stored = false := by
  have hattended (ms : List Hub.Message) : (l.attended ms).backend.store = l.backend.store := by
    obtain ⟨hub, hb⟩ := l.attended_backend ms
    rw [hb]
  cases i with
  | start id identity m => exact .inl rfl
  | act id a m =>
    cases hg : l.links.get? id with
    | none =>
      rw [step_act_absent hg]
      exact .inl rfl
    | some link =>
      rw [step_act hg]
      rcases link.act_store l.secret (l.attended (link.asks l.backend a m)).backend a m with
        hsame | ⟨rfl, flight, hflight, hwaits⟩
      · exact .inl (hsame.trans (hattended _))
      · exact .inr ⟨id, link.session, flight, m, rfl, by rw [hg, ← hflight], hwaits⟩
  | push user e m => exact .inl rfl
  | read =>
    simp only [step]
    split <;> exact .inl rfl
  | sweep now => exact .inl rfl
  | sources s => exact .inl rfl
  | outage o => exact .inl rfl

end Live

end LiveComments
