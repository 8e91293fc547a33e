import LiveComments.Proofs.Live
import LiveComments.Proofs.Token.Acceptance

/-!
A session keeps its user and the channels it has joined, and so does the hub, which is told of what
a session leaves by letters. The two agree up to the letters that the hub has yet to read.
-/

namespace LiveComments

/-! ### One session and the hub -/

structure Session.Agreed (h : Hub) (s : Session) : Prop where
  user : h.sessions.get? s.id = some s.identity.user
  joined : ∀ n, n ∈ s.joined ↔ s.id ∈ h.membersOf n

namespace Session

theorem Agreed.kept {h h' : Hub} {s s' : Session} (ha : s.Agreed h) (hk : Hub.Kept s.id h h')
    (hid : s'.id = s.id) (hu : s'.identity.user = s.identity.user) (hj : s'.joined = s.joined) :
    s'.Agreed h' where
  user := by rw [hid, hk.user, ha.user, hu]
  joined := by
    intro n
    rw [hid, hj, ha.joined, hk.member]

theorem agreed_start {h : Hub} (ho : h.Orderly) {id : String} (hnew : h.sessions.get? id = none)
    (identity : Identity) (heard : Int) :
    Agreed (h.connect id identity.user).1 ⟨id, identity, (h.connect id identity.user).2, heard⟩ where
  user := Table.get?_insert_self ..
  joined := by
    intro n
    -- Under its new id the session was a member of nothing.
    have hold : id ∉ h.membersOf n := by
      intro hmem
      obtain ⟨user, hu⟩ := Table.contains_iff.mp (ho.connected n id hmem)
      rw [hnew] at hu
      cases hu
    rw [Hub.mem_connect, or_iff_right hold, and_iff_right rfl]

theorem mem_insertOnce {n c : String} {xs : List String} : n ∈ insertOnce c xs ↔ n ∈ xs ∨ c = n := by
  unfold insertOnce
  split
  · rename_i hc
    refine ⟨.inl, ?_⟩
    rintro (h | rfl)
    · exact h
    · exact hc
  · rw [List.mem_append, List.mem_singleton, @eq_comm _ n]

namespace Handled

variable {b : Backend} {s : Session} {m : Moment} {step : Step} {ms : List Hub.Message} {h : Hub}

theorem agreed (hs : Handled b s m step ms) (hh : ms = [] ∨ h = b.hub) (ha : s.Agreed h)
    {s' : Session} (hs' : step.session = some s') : s'.Agreed ((h.run ms).readAll step.posts) := by
  cases hs with
  | told user silent =>
    cases hs'
    exact ha.kept (.refl _ _) rfl user rfl
  | @subscribed id channel recover x heard proper answered =>
    cases hs'
    obtain rfl := hh.resolve_left nofun
    have hadmitted : b.hub.admitted s.id channel = true := by
      unfold Backend.subscribe at answered
      rcases b.hub.subscribe_eq s.id channel recover m.steady b.epochs.name with ⟨hin, -⟩ | ⟨-, r, hr⟩
      · exact hin
      · rw [hr] at answered
        cases answered
    change Agreed (b.hub.step (.subscribe s.id channel recover m.steady b.epochs.name)) _
    rw [Hub.step_subscribe, if_pos hadmitted]
    constructor
    · exact ha.user
    · intro n
      have hjoin := Hub.mem_join b.hub s.id channel.name s.id n
      change n ∈ insertOnce channel.name s.joined ↔ _
      rw [mem_insertOnce, ha.joined]
      exact (or_congr_right (and_iff_right rfl).symm).trans hjoin.symm
  | @refused id channel recover r heard proper answered =>
    cases hs'
    obtain rfl := hh.resolve_left nofun
    have hrefused : b.hub.admitted s.id channel = false := by
      unfold Backend.subscribe at answered
      rcases b.hub.subscribe_eq s.id channel recover m.steady b.epochs.name with ⟨-, hr⟩ | ⟨hout, -⟩
      · rw [hr] at answered
        cases answered
      · exact hout
    change Agreed (b.hub.step (.subscribe s.id channel recover m.steady b.epochs.name)) _
    rw [Hub.step_subscribe, if_neg (by simp [hrefused])]
    exact ha.kept (.refl _ _) rfl rfl rfl
  | @unsubscribed id channel heard proper =>
    cases hs'
    change Agreed (h.leave s.id channel.name) _
    constructor
    · rw [Hub.leave_sessions]
      exact ha.user
    · intro n
      change n ∈ s.joined.filter (· ≠ channel.name) ↔ s.id ∈ (h.leave s.id channel.name).membersOf n
      rw [Hub.mem_leave, List.mem_filter, decide_eq_true_eq, ha.joined, and_iff_right rfl,
        @eq_comm _ channel.name]
  | ended silent => cases hs'

theorem gone (hs : Handled b s m step ms) (hnone : step.session = none) :
    ((h.run ms).readAll step.posts).sessions.get? s.id = none := by
  cases hs with
  | told user silent => cases hnone
  | subscribed proper answered => cases hnone
  | refused proper answered => cases hnone
  | unsubscribed proper => cases hnone
  | ended silent => exact Hub.readAll_sessions_none.mpr (.inl (List.mem_singleton_self _))

end Handled

end Session

namespace Link

structure Abided (h h' : Hub) (s : Session) (s' : Option Session) : Prop where
  orderly : h'.Orderly
  own : ∀ t, s' = some t → t.id = s.id ∧ t.identity.user = s.identity.user ∧ t.Agreed h'
  gone : s' = none → h'.sessions.get? s.id = none
  others : ∀ t, t ≠ s.id → Hub.Kept t h h'

variable {b : Backend} {s : Session} {m : Moment} {h h' : Hub}

theorem abided_of_handled {step : Session.Step} {ms : List Hub.Message} (ho : h.Orderly)
    (ha : s.Agreed h) (hh : ms = [] ∨ h = b.hub) (hs : Session.Handled b s m step ms) :
    Abided h ((h.run ms).readAll step.posts) s step.session where
  orderly := (ho.run ms).readAll _
  own := fun t ht => ⟨(hs.session ht).1, (hs.session ht).2, hs.agreed hh ha ht⟩
  gone := hs.gone
  others := by
    intro t ht
    rw [← Hub.run_messages, ← Hub.run_append]
    apply ho.run_kept
    intro msg hm he
    have hsender : msg.session? = some s.id := by
      rcases List.mem_append.mp hm with hm | hm
      · rcases hs.asked with rfl | ⟨channel, recover, -, rfl⟩
        · cases hm
        · obtain rfl := List.mem_singleton.mp hm
          rfl
      · obtain ⟨l, hl, rfl⟩ := List.mem_map.mp hm
        rw [l.message_session, (hs.posted hl).1]
    rw [hsender, Option.some.injEq] at he
    exact ht he.symm

theorem abided_aside {s' : Session} (ho : h.Orderly) (ha : s.Agreed h)
    (hsessions : h'.sessions = h.sessions) (hmembers : h'.members = h.members)
    (hs : ∃ heard, s' = { s with heard }) : Abided h h' s (some s') where
  orderly := ho.of_eq hsessions hmembers
  own := by
    rintro t ⟨⟩
    obtain ⟨heard, rfl⟩ := hs
    exact ⟨rfl, rfl, ha.kept (Hub.kept_of_eq hsessions hmembers _) rfl rfl rfl⟩
  gone := nofun
  others := fun t _ => Hub.kept_of_eq hsessions hmembers t

theorem receive_abided (secret : String) (ho : h.Orderly) (ha : s.Agreed h) (f : Inbound)
    (hh : asks b ⟨s, none⟩ (.frame f) m = [] ∨ h = b.hub) :
    Abided h ((h.run (asks b ⟨s, none⟩ (.frame f) m)).readAll (receive secret b s f m).1.posts) s
      (receive secret b s f m).1.session := by
  cases hf : s.asksFor? f with
  | none =>
    simp only [asks, hf] at hh
    simp only [receive, asks, hf]
    exact abided_of_handled ho ha hh (Session.handle_handled secret hf)
  | some x =>
    obtain ⟨id, channel, e⟩ := x
    simp only [receive, asks, hf]
    rcases b.perform (Mutation.prepare e ⟨s.identity.user, channel⟩ m) with ⟨g | c, b'⟩
    · exact abided_aside ho ha rfl rfl ⟨_, rfl⟩
    · exact abided_aside ho ha rfl rfl ⟨_, rfl⟩

theorem proceed_session (b : Backend) (s : Session) (flight : Flight) (m : Moment) :
    (proceed b s flight m).1.session = some s := by
  unfold proceed
  split
  · split <;> rfl
  · split <;> rfl

theorem proceed_abided (ho : h.Orderly) (ha : s.Agreed h) (flight : Flight) :
    Abided h ((h.run (asks b ⟨s, some flight⟩ .proceed m)).readAll (proceed b s flight m).1.posts) s
      (proceed b s flight m).1.session := by
  rw [proceed_session, proceed_posts]
  have hasked : asks b ⟨s, some flight⟩ .proceed m = [] ∨ ∃ channel e now epoch,
      asks b ⟨s, some flight⟩ .proceed m = [.publish channel e now epoch] := by
    simp only [asks]
    split
    · exact .inr ⟨_, _, _, _, rfl⟩
    · exact .inl rfl
  rcases hasked with hnone | ⟨channel, e, now, epoch, hone⟩
  · rw [hnone]
    exact abided_aside ho ha rfl rfl ⟨s.heard, rfl⟩
  · rw [hone]
    exact abided_aside ho ha rfl rfl ⟨s.heard, rfl⟩

theorem act_abided (secret : String) {link : Link} (ho : h.Orderly) (ha : link.session.Agreed h)
    (a : Act) (hh : asks b link a m = [] ∨ h = b.hub) :
    Abided h ((h.run (asks b link a m)).readAll (act secret b link a m).1.posts) link.session
      (act secret b link a m).1.session := by
  obtain ⟨s, flight⟩ := link
  have hwait : Abided h h s (some s) := abided_aside ho ha rfl rfl ⟨s.heard, rfl⟩
  cases flight with
  | none =>
    cases a with
    | frame f => exact receive_abided secret ho ha f hh
    | proceed => exact hwait
    | beat => exact abided_of_handled ho ha (.inl rfl) (Session.heartbeat_handled (b := b))
  | some flight =>
    cases a with
    | frame f => exact hwait
    | proceed => exact proceed_abided ho ha flight
    | beat => exact hwait

end Link

/-! ### Many sessions -/

namespace Live

structure Sound (l : Live) : Prop where
  orderly : l.backend.hub.Orderly
  absent : ∀ id, l.links.get? id = none → l.ahead.sessions.get? id = none
  sessions : ∀ id link, l.links.get? id = some link →
    link.session.id = id ∧ link.session.Agreed l.ahead

variable {l : Live}

theorem follow_links (l : Live) (id : String) (p : Link.Part) (j : String) :
    (l.follow id p).1.links.get? j =
      if id = j then p.1.session.map (⟨·, p.2⟩) else l.links.get? j := by
  simp only [follow]
  cases p.1.session with
  | some s => exact Table.get?_insert _ _ _ _
  | none => exact Table.get?_erase _ _ _

theorem Sound.ahead_orderly (hl : l.Sound) : l.ahead.Orderly := hl.orderly.readAll l.mail

theorem Sound.attended_orderly (hl : l.Sound) (ms : List Hub.Message) :
    (l.attended ms).backend.hub.Orderly := by
  rcases l.attended_mail ms with ⟨-, h⟩ | ⟨-, -, h⟩
  · rw [h]
    exact hl.orderly
  · rw [h]
    exact hl.ahead_orderly

theorem act_ahead {id : String} {link : Link} (hg : l.links.get? id = some link) (a : Link.Act)
    (m : Moment) : (l.step (.act id a m)).1.ahead =
      (l.ahead.run (link.asks l.backend a m)).readAll (l.part link a m).1.posts := by
  rw [step_act hg]
  change (l.part link a m).1.backend.hub.readAll
    ((l.attended (link.asks l.backend a m)).mail ++ (l.part link a m).1.posts) = _
  rw [part_hub, Hub.readAll_append]
  rcases l.attended_mail (link.asks l.backend a m) with ⟨hnone, h⟩ | ⟨-, hmail, hhub⟩
  · rw [hnone]
    rfl
  · rw [hmail, hhub]
    rfl

theorem Sound.abided (hl : l.Sound) {id : String} {link : Link} (hg : l.links.get? id = some link)
    (a : Link.Act) (m : Moment) : Link.Abided l.ahead (l.step (.act id a m)).1.ahead link.session
      (l.part link a m).1.session := by
  have hasks := l.attended_asks link a m (link.asks l.backend a m)
  have hhub : link.asks (l.attended (link.asks l.backend a m)).backend a m = [] ∨
      l.ahead = (l.attended (link.asks l.backend a m)).backend.hub := by
    rcases l.attended_mail (link.asks l.backend a m) with ⟨hnone, -⟩ | ⟨-, -, hhub⟩
    · exact .inl (hasks.trans hnone)
    · exact .inr hhub.symm
  have habided := Link.act_abided l.secret hl.ahead_orderly (hl.sessions id link hg).2 a hhub
  rw [hasks] at habided
  rw [act_ahead hg]
  exact habided

theorem act_links (l : Live) (id : String) (a : Link.Act) (m : Moment) (j : String) :
    (l.step (.act id a m)).1.links.get? j =
      if id = j then (l.links.get? id).bind fun link =>
        (l.part link a m).1.session.map (⟨·, (l.part link a m).2⟩)
      else l.links.get? j := by
  cases hg : l.links.get? id with
  | none =>
    rw [step_act_absent hg]
    split
    · rename_i hj
      rw [← hj, hg]
      rfl
    · rfl
  | some link =>
    rw [step_act hg, follow_links, attended_links]
    rfl

theorem Sound.act (hl : l.Sound) (id : String) (a : Link.Act) (m : Moment) :
    (l.step (.act id a m)).1.Sound := by
  cases hg : l.links.get? id with
  | none =>
    rw [step_act_absent hg]
    exact hl
  | some link =>
    have hid := (hl.sessions id link hg).1
    have hp := hl.abided hg a m
    have hothers {t : String} (ht : id ≠ t) := hp.others t (hid.symm ▸ Ne.symm ht)
    constructor
    · rw [step_act hg]
      change (l.part link a m).1.backend.hub.Orderly
      rw [part_hub]
      exact (hl.attended_orderly _).run _
    · intro j hj
      rw [act_links, hg, Option.bind_some] at hj
      split at hj
      · rename_i he
        subst he
        have hgone := hp.gone (Option.map_eq_none_iff.mp hj)
        rw [hid] at hgone
        exact hgone
      · rename_i hne
        exact (hothers hne).user.trans (hl.absent j hj)
    · intro j link' hj
      rw [act_links, hg, Option.bind_some] at hj
      split at hj
      · rename_i he
        subst he
        obtain ⟨s', hs, rfl⟩ := Option.map_eq_some_iff.mp hj
        obtain ⟨hid', -, hagreed⟩ := hp.own s' hs
        exact ⟨hid'.trans hid, hagreed⟩
      · rename_i hne
        obtain ⟨hid', hagreed⟩ := hl.sessions j link' hj
        exact ⟨hid', hagreed.kept (hid'.symm ▸ hothers hne) rfl rfl rfl⟩

theorem start_ahead (l : Live) (id : String) (identity : Identity) (m : Moment) :
    (l.step (.start id identity m)).1.ahead = (l.ahead.connect id identity.user).1 := rfl

theorem start_links (l : Live) (id : String) (identity : Identity) (m : Moment) (j : String) :
    (l.step (.start id identity m)).1.links.get? j =
      if id = j then some ⟨⟨id, identity, (l.ahead.connect id identity.user).2, m.steady⟩, none⟩
      else l.links.get? j :=
  follow_links ..

theorem Sound.start (hl : l.Sound) {id : String} (hnew : l.links.get? id = none) (identity : Identity)
    (m : Moment) : (l.step (.start id identity m)).1.Sound := by
  have hkept {t : String} (ht : id ≠ t) : Hub.Kept t l.ahead (l.ahead.connect id identity.user).1 :=
    hl.ahead_orderly.step_kept (m := .connect id identity.user) fun he => ht (Option.some.inj he)
  constructor
  · exact hl.ahead_orderly.connect _ _
  · intro j hj
    rw [start_links] at hj
    split at hj
    · cases hj
    · rename_i hne
      rw [start_ahead, (hkept hne).user]
      exact hl.absent j hj
  · intro j link hj
    rw [start_links] at hj
    rw [start_ahead]
    split at hj
    · rename_i he
      subst he
      cases hj
      exact ⟨rfl, Session.agreed_start hl.ahead_orderly (hl.absent id hnew) identity m.steady⟩
    · rename_i hne
      obtain ⟨hid, hagreed⟩ := hl.sessions j link hj
      exact ⟨hid, hagreed.kept (hid.symm ▸ hkept hne) rfl rfl rfl⟩

theorem Sound.aside (hl : l.Sound) {l' : Live} (hlinks : l'.links = l.links)
    (ho : l'.backend.hub.Orderly) (hs : l'.ahead.sessions = l.ahead.sessions)
    (hm : l'.ahead.members = l.ahead.members) : l'.Sound where
  orderly := ho
  absent := by
    intro id hg
    rw [hlinks] at hg
    rw [hs]
    exact hl.absent id hg
  sessions := by
    intro id link hg
    rw [hlinks] at hg
    obtain ⟨hid, hagreed⟩ := hl.sessions id link hg
    exact ⟨hid, hagreed.kept (Hub.kept_of_eq hs hm _) rfl rfl rfl⟩

theorem read_ahead (l : Live) : (l.step .read).1.ahead = l.ahead := by
  obtain ⟨backend, secret, links, mail⟩ := l
  cases mail <;> rfl

theorem Sound.read (hl : l.Sound) : (l.step .read).1.Sound := by
  have hahead := l.read_ahead
  have horderly : (l.step .read).1.backend.hub.Orderly ∧ (l.step .read).1.links = l.links := by
    obtain ⟨backend, secret, links, mail⟩ := l
    cases mail with
    | nil => exact ⟨hl.orderly, rfl⟩
    | cons letter mail => exact ⟨hl.orderly.read letter, rfl⟩
  exact hl.aside horderly.2 horderly.1 (congrArg _ hahead) (congrArg _ hahead)

theorem Sound.step (hl : l.Sound) (i : Input)
    (hnew : ∀ id ∈ i.opened, l.links.get? id = none) : (l.step i).1.Sound := by
  cases i with
  | start id identity m => exact hl.start (hnew id (List.mem_singleton_self _)) identity m
  | act id a m => exact hl.act id a m
  | push user e m => exact hl.aside rfl { hl.ahead_orderly with } rfl rfl
  | read => exact hl.read
  | sweep now =>
    have hread := @Hub.readAll_alike l.backend.hub (l.backend.hub.sweep now) rfl rfl l.mail
    exact hl.aside rfl { hl.orderly with } hread.1 hread.2
  | sources s => exact hl.aside rfl hl.orderly rfl rfl
  | outage f => exact hl.aside rfl hl.orderly rfl rfl

/-! ### The hub and its mail -/

theorem Sound.user (hl : l.Sound) {id : String} {link : Link} (hg : l.links.get? id = some link) :
    .disconnect id ∉ l.mail ∧ l.backend.hub.sessions.get? id = some link.session.identity.user := by
  obtain ⟨hid, hagreed⟩ := hl.sessions id link hg
  have huser := hagreed.user
  rw [hid] at huser
  exact Hub.readAll_sessions_some.mp huser

theorem Sound.joined (hl : l.Sound) {id : String} {link : Link} (hg : l.links.get? id = some link)
    (n : String) : n ∈ link.session.joined ↔
      id ∈ l.backend.hub.membersOf n ∧ ∀ letter ∈ l.mail, ¬letter.Removes id n := by
  obtain ⟨hid, hagreed⟩ := hl.sessions id link hg
  rw [hagreed.joined, hid, ahead, Hub.mem_readAll hl.orderly]

theorem Sound.unknown (hl : l.Sound) {id : String} (hg : l.links.get? id = none)
    (hmail : .disconnect id ∉ l.mail) : l.backend.hub.sessions.get? id = none ∧
      ∀ n, id ∉ l.backend.hub.membersOf n := by
  have hnone := (Hub.readAll_sessions_none.mp (hl.absent id hg)).resolve_left hmail
  refine ⟨hnone, ?_⟩
  intro n hm
  obtain ⟨user, hu⟩ := Table.contains_iff.mp (hl.orderly.connected n id hm)
  rw [hnone] at hu
  cases hu

end Live

/-- Live sessions that were let in with a token each, under ids that are drawn in turn. -/
structure Admission where
  live : Live
  sessionIds : Supply
  tokens : Table String String := {}

namespace Admission

inductive Input where
  | arrive (token : String) (m : Moment)
  | act (id : String) (a : Link.Act) (m : Moment)
  | push (user : Int) (e : Event) (m : Moment)
  | read
  | sweep (now : Int)
  | sources (s : Sources)
  | outage (o : Option (StoreCall × Fault))

def enters (o : Admission) : Input → Option Live.Input
  | .arrive token m =>
    match Token.verify o.live.secret token m.stamp.seconds with
    | .ok identity => some (.start o.sessionIds.name identity m)
    | .error _ => none
  | .act id a m => some (.act id a m)
  | .push user e m => some (.push user e m)
  | .read => some .read
  | .sweep now => some (.sweep now)
  | .sources s => some (.sources s)
  | .outage f => some (.outage f)

def step (o : Admission) : Input → Admission
  | .arrive token m =>
    match o.enters (.arrive token m) with
    | some j =>
      { live := (o.live.step j).1
        sessionIds := { o.sessionIds with next := o.sessionIds.next + 1 }
        tokens := o.tokens.insert o.sessionIds.name token }
    | none => o
  | .act id a m => { o with live := (o.live.step (.act id a m)).1 }
  | .push user e m => { o with live := (o.live.step (.push user e m)).1 }
  | .read => { o with live := (o.live.step .read).1 }
  | .sweep now => { o with live := (o.live.step (.sweep now)).1 }
  | .sources s => { o with live := (o.live.step (.sources s)).1 }
  | .outage f => { o with live := (o.live.step (.outage f)).1 }

def sends (o : Admission) (i : Input) : List (String × Outbound) :=
  (o.enters i).elim [] fun j => (o.live.step j).2

def run (o : Admission) (is : List Input) : Admission := is.foldl step o

def start (secret : String) (store : CommentStore) (sources : Sources) (bounds : HistoryBounds)
    (commentIds epochs sessionIds : Supply) : Admission :=
  ⟨⟨{ Backend.start sources bounds commentIds epochs with store }, secret, {}, []⟩, sessionIds, {}⟩

def Vouched (secret : String) (tokens : Table String String) (id : String) (user : Int) : Prop :=
  ∃ token named expiry, tokens.get? id = some token ∧ Token.Grants secret token named expiry ∧
    user = Text.clampInt64 named

structure Sound (o : Admission) : Prop where
  live : o.live.Sound
  fresh : ∀ k, o.live.links.get? (o.sessionIds.ahead k) = none
  subjects : ∀ id link, o.live.links.get? id = some link →
    Vouched o.live.secret o.tokens id link.session.identity.user

theorem sound_start (secret : String) (store : CommentStore) (sources : Sources)
    (bounds : HistoryBounds) (commentIds epochs sessionIds : Supply) :
    (start secret store sources bounds commentIds epochs sessionIds).Sound where
  live :=
    { orderly := Hub.orderly_start bounds
      absent := fun _ _ => rfl
      sessions := by simp [start] }
  fresh := fun _ => rfl
  subjects := by simp [start]

variable {o : Admission}

theorem enters_arrive {token : String} {m : Moment} {identity : Identity}
    (hv : Token.verify o.live.secret token m.stamp.seconds = .ok identity) :
    o.enters (.arrive token m) = some (.start o.sessionIds.name identity m) := by
  rw [enters, hv]

theorem enters_refused {token : String} {m : Moment} {f : Fault}
    (hv : Token.verify o.live.secret token m.stamp.seconds = .error f) :
    o.enters (.arrive token m) = none := by
  rw [enters, hv]

theorem enters_of_act {i : Input} {id : String} {a : Link.Act} {m : Moment}
    (h : o.enters i = some (.act id a m)) : i = .act id a m := by
  cases i with
  | arrive token m' =>
    rw [enters] at h
    split at h <;> cases h
  | act id' a' m' =>
    cases h
    rfl
  | _ => cases h

theorem step_arrive {token : String} {m : Moment} {identity : Identity}
    (hv : Token.verify o.live.secret token m.stamp.seconds = .ok identity) :
    o.step (.arrive token m) =
      { live := (o.live.step (.start o.sessionIds.name identity m)).1
        sessionIds := { o.sessionIds with next := o.sessionIds.next + 1 }
        tokens := o.tokens.insert o.sessionIds.name token } := by
  simp only [step, enters_arrive hv]

theorem step_refused {token : String} {m : Moment} {f : Fault}
    (hv : Token.verify o.live.secret token m.stamp.seconds = .error f) :
    o.step (.arrive token m) = o := by
  simp only [step, enters_refused hv]

theorem step_live (o : Admission) (i : Input) :
    (o.step i).live = (o.enters i).elim o.live fun j => (o.live.step j).1 := by
  cases i with
  | arrive token m =>
    cases hv : Token.verify o.live.secret token m.stamp.seconds with
    | error f =>
      rw [step_refused hv, enters_refused hv]
      rfl
    | ok identity =>
      rw [step_arrive hv, enters_arrive hv]
      rfl
  | _ => rfl

theorem step_secret (o : Admission) (i : Input) : (o.step i).live.secret = o.live.secret := by
  rw [step_live]
  cases o.enters i with
  | none => rfl
  | some j => exact o.live.step_secret j

theorem run_secret (o : Admission) (is : List Input) : (o.run is).live.secret = o.live.secret := by
  induction is generalizing o with
  | nil => rfl
  | cons i is ih => exact (ih (o.step i)).trans (o.step_secret i)

theorem Sound.aside (ho : o.Sound) {l : Live} (hl : l.Sound) (hlinks : l.links = o.live.links)
    (hsecret : l.secret = o.live.secret) : Sound { o with live := l } where
  live := hl
  fresh := fun k => (congrArg (Table.get? · _) hlinks).trans (ho.fresh k)
  subjects := by
    intro id link hg
    change Vouched l.secret o.tokens id _
    rw [hsecret]
    exact ho.subjects id link (hlinks ▸ hg)

theorem Sound.arrive (ho : o.Sound) (token : String) (m : Moment) :
    (o.step (.arrive token m)).Sound := by
  cases hv : Token.verify o.live.secret token m.stamp.seconds with
  | error f =>
    rw [step_refused hv]
    exact ho
  | ok identity =>
    rw [step_arrive hv]
    constructor
    · exact ho.live.start (ho.fresh 0) identity m
    · intro k
      have hne : o.sessionIds.name ≠ o.sessionIds.ahead (k + 1) := by
        rw [← Supply.ahead_zero]
        intro he
        have := o.sessionIds.ahead_injective he
        omega
      rw [Live.start_links, ← Supply.ahead_succ, if_neg hne]
      exact ho.fresh (k + 1)
    · intro id link hg
      change Vouched o.live.secret (o.tokens.insert o.sessionIds.name token) id _
      rw [Live.start_links] at hg
      split at hg
      · rename_i he
        subst he
        cases hg
        obtain ⟨named, expiry, hgrants, -, rfl⟩ := Token.verify_eq_ok.mp hv
        exact ⟨token, named, expiry, Table.get?_insert_self .., hgrants, rfl⟩
      · rename_i hne
        obtain ⟨token', named, expiry, htoken, hrest⟩ := ho.subjects id link hg
        exact ⟨token', named, expiry, by rw [Table.get?_insert, if_neg hne, htoken], hrest⟩

theorem Sound.act (ho : o.Sound) (id : String) (a : Link.Act) (m : Moment) :
    (o.step (.act id a m)).Sound := by
  have hsecret := o.step_secret (.act id a m)
  constructor
  · exact ho.live.act id a m
  · intro k
    change (o.live.step (.act id a m)).1.links.get? (o.sessionIds.ahead k) = none
    rw [Live.act_links]
    split
    · rename_i he
      rw [he, ho.fresh k]
      rfl
    · exact ho.fresh k
  · intro j link' hj
    rw [hsecret]
    change (o.live.step (.act id a m)).1.links.get? j = some link' at hj
    rw [Live.act_links] at hj
    split at hj
    · rename_i he
      subst he
      obtain ⟨link, hg, hj⟩ := Option.bind_eq_some_iff.mp hj
      obtain ⟨s', hs, rfl⟩ := Option.map_eq_some_iff.mp hj
      obtain ⟨-, huser, -⟩ := (ho.live.abided hg a m).own s' hs
      change Vouched _ _ _ s'.identity.user
      rw [huser]
      exact ho.subjects id link hg
    · exact ho.subjects j link' hj

theorem Sound.step (ho : o.Sound) (i : Input) : (o.step i).Sound := by
  have hsecret := o.step_secret i
  have hnone {P : String → Prop} : ∀ id ∈ ([] : List String), P id := fun _ h => absurd h List.not_mem_nil
  cases i with
  | arrive token m => exact ho.arrive token m
  | act id a m => exact ho.act id a m
  | push user e m => exact ho.aside (ho.live.step (.push user e m) hnone) rfl rfl
  | read =>
    apply ho.aside ho.live.read ?_ hsecret
    simp only [Live.step]
    split <;> rfl
  | sweep now => exact ho.aside (ho.live.step (.sweep now) hnone) rfl rfl
  | sources s => exact ho.aside (ho.live.step (.sources s) hnone) rfl rfl
  | outage f => exact ho.aside (ho.live.step (.outage f) hnone) rfl rfl

theorem Sound.run (ho : o.Sound) (is : List Input) : (o.run is).Sound := by
  induction is generalizing o with
  | nil => exact ho
  | cons i is ih => exact ih (ho.step i)

end Admission

/-! ### What is passed on -/

def Inbound.Publishes (frame : Inbound) (id : Option Nat) (name : String) (e : Event) : Prop :=
  ∃ text, frame.limited = .text text ∧ Command.parse text = .ok ⟨id, .publish name e⟩

namespace Session

variable {b : Backend} {s : Session} {frame : Inbound} {id : Option Nat} {name : String} {e : Event}

theorem publishable_post {post : String} (hc : Channel.parse name = .ok (.post post))
    (hj : post ∈ s.joined) : s.publishable name = .ok (.post post) := by
  have ha : Channel.accepts s.joined (.post post) = .ok () := if_pos hj
  unfold publishable
  rw [hc]
  simp only [bind, Except.bind, ha]
  rfl

theorem publishable_error (h : ∀ post, Channel.parse name = .ok (.post post) → post ∉ s.joined) :
    ∃ r, s.publishable name = .error r := by
  cases hp : s.publishable name with
  | error r => exact ⟨r, rfl⟩
  | ok channel =>
    obtain ⟨hc, ha⟩ := publishable_ok hp
    cases channel with
    | personal user => cases ha
    | post post =>
      have hj : post ∉ s.joined := h post hc
      rw [Channel.accepts, if_neg hj] at ha
      cases ha

theorem handle_refused (secret : String) (hf : frame.Publishes id name e) {r : Rejection}
    (hp : s.publishable name = .error r) (m : Moment) :
    s.handle secret b frame m = refuse b (s.hear m) id r := by
  obtain ⟨text, hl, hc⟩ := hf
  have hp : (s.hear m).publishable name = .error r := hp
  simp only [handle, hl, handleText, hc, carryOut, publish, hp]

theorem asksFor?_publishes {channel : Channel} (hf : frame.Publishes id name e)
    (hp : s.publishable name = .ok channel) : s.asksFor? frame = some (id, channel, e) := by
  obtain ⟨text, hl, hc⟩ := hf
  simp only [asksFor?, hl, hc, hp]

end Session

namespace Admission

theorem session_and_hub_agree (secret : String) (store : CommentStore) (sources : Sources)
    (bounds : HistoryBounds) (commentIds epochs sessionIds : Supply) (is : List Input) :
    let o := (start secret store sources bounds commentIds epochs sessionIds).run is
    let h := o.live.backend.hub
    let mail := o.live.mail
    (∀ id link, o.live.links.get? id = some link →
      h.sessions.get? id = some link.session.identity.user ∧
      (∃ token named expiry, o.tokens.get? id = some token ∧ Token.Grants secret token named expiry ∧
        (Text.fitsInt64 named = true → link.session.identity.user = named)) ∧
      (∀ n, n ∈ link.session.joined ↔ id ∈ h.membersOf n ∧ ∀ letter ∈ mail, ¬letter.Removes id n) ∧
      ((∀ letter ∈ mail, letter.session ≠ id) → ∀ n, n ∈ link.session.joined ↔ id ∈ h.membersOf n) ∧
      ∀ frame x name e m b, Inbound.Publishes frame x name e →
        (∀ post, Channel.parse name = .ok (.post post) →
          id ∈ h.membersOf post → (∀ letter ∈ mail, ¬letter.Removes id post) →
          link.session.handle secret b frame m =
            match b.perform (Mutation.route e ⟨link.session.identity.user, .post post⟩ m) with
            | (.ok a, b) => Session.tell b (link.session.hear m) (.published x a.channel.name a.offset)
            | (.error f, b) => Session.refuse b (link.session.hear m) x f.rejection) ∧
        ((∀ post, Channel.parse name = .ok (.post post) →
          id ∈ h.membersOf post → ∃ letter ∈ mail, letter.Removes id post) →
          ∃ r, link.session.handle secret b frame m = Session.refuse b (link.session.hear m) x r)) ∧
    ∀ id, o.live.links.get? id = none → .disconnect id ∉ mail →
      h.sessions.get? id = none ∧ ∀ n, id ∉ h.membersOf n := by
  intro o h mail
  have ho : o.Sound := (sound_start ..).run is
  have hsecret : o.live.secret = secret := run_secret _ is
  refine ⟨?_, fun id => ho.live.unknown⟩
  intro id link hg
  have hjoined := ho.live.joined hg
  refine ⟨(ho.live.user hg).2, ?_, hjoined, ?_, ?_⟩
  · obtain ⟨token, named, expiry, htoken, hgrants, huser⟩ := ho.subjects id link hg
    rw [hsecret] at hgrants
    exact ⟨token, named, expiry, htoken, hgrants, fun hfits => huser.trans (Text.clampInt64_of_fits hfits)⟩
  · intro hread n
    rw [hjoined n]
    apply and_iff_left
    intro letter hmem hremoves
    exact hread letter hmem hremoves.session
  intro frame x name e m b hf
  constructor
  · intro post hc hm hkept
    have hp := Session.publishable_post hc ((hjoined post).mpr ⟨hm, hkept⟩)
    exact Session.handle_event _ (Session.asksFor?_publishes hf hp)
  · intro hout
    obtain ⟨r, hp⟩ := Session.publishable_error fun post hc hj => by
      obtain ⟨hm, hkept⟩ := (hjoined post).mp hj
      obtain ⟨letter, hmem, hremoves⟩ := hout post hc hm
      exact hkept letter hmem hremoves
    exact ⟨r, Session.handle_refused _ hf hp m⟩

def leaving : List Input :=
  let frame (text : String) : Input := .act "00000000" (.frame (.text text)) ⟨0, 0⟩
  [frame "\x7b\"method\":\"subscribe\",\"channel\":\"P1\"\x7d",
    frame "\x7b\"method\":\"unsubscribe\",\"channel\":\"P1\"\x7d"]

/-- Before the hub has read the letter, it has the session as a member of what it has left; and a user
beyond 64 bits is taken for another. -/
theorem session_and_hub_apart :
    let token := Token.issued "test-secret" Token.plainHeader
      "\x7b\"user_id\":9223372036854775808,\"exp\":60\x7d"
    let begun := start "test-secret" {} { chain := [], patience := 0 } ⟨2, 60000⟩ ⟨24, 0⟩ ⟨8, 0⟩ ⟨8, 0⟩
    let o := (begun.step (.arrive token ⟨0, 0⟩)).run leaving
    Token.Grants "test-secret" token 9223372036854775808 60 ∧
      (o.live.links.get? "00000000").map (fun link =>
        (link.session.identity.user, link.session.joined, link.flight.isNone)) =
        some (9223372036854775807, ["#9223372036854775807"], true) ∧
      o.live.backend.hub.membersOf "P1" = ["00000000"] := by
  intro token begun o
  have hgrants : Token.Grants "test-secret" token 9223372036854775808 60 :=
    Token.grants_issued _ Token.plainHeader_keyed (by decide +kernel)
  have hv : Token.verify begun.live.secret token (⟨0, 0⟩ : Moment).stamp.seconds =
      .ok ⟨9223372036854775807, 60⟩ := by
    change Token.verify "test-secret" token _ = _
    rw [Token.verify_of_grants hgrants]
    rfl
  refine ⟨hgrants, ?_⟩
  simp only [o]
  rw [step_arrive hv]
  decide +kernel

end Admission

end LiveComments
