import LiveComments.Proofs.Agreement
import LiveComments.Proofs.Discretion
import LiveComments.Service

namespace LiveComments

/-! ### A frame in all its parts -/

namespace Link

variable {b : Backend} {s : Session} {m : Moment}

def Quiet (p : Part) : Prop :=
  ∀ flight, p.2 = some flight →
    ∃ s, p.1.session = some s ∧ p.1.out = [] ∧ p.1.posts = [] ∧ p.1.backend.outbox = []

theorem quiet_receive (secret : String) (hb : b.outbox = []) (f : Inbound) :
    Quiet (receive secret b s f m) := by
  intro flight hflight
  unfold receive at hflight ⊢
  cases hf : s.asksFor? f with
  | none =>
    simp only [hf] at hflight
    cases hflight
  | some x =>
    obtain ⟨id, channel, e⟩ := x
    simp only [hf] at hflight ⊢
    rcases hr : b.perform (Mutation.prepare e ⟨s.identity.user, channel⟩ m) with ⟨g | c, b'⟩
    · simp only [hr] at hflight
      cases hflight
    · have hcalm := (Mutation.quiet_prepare e ⟨s.identity.user, channel⟩ m).calm hr
      exact ⟨_, rfl, rfl, rfl, hcalm.kept.2.2.1.trans hb⟩

theorem quiet_proceed (hb : b.outbox = []) (flight : Flight) : Quiet (proceed b s flight m) := by
  intro flight' hflight
  unfold proceed at hflight ⊢
  cases hstored : flight.stored with
  | true =>
    simp only [hstored, if_true] at hflight
    rcases hr : b.perform (Mutation.announce flight.request.news flight.comment m) with ⟨g | a, b'⟩
    · simp only [hr] at hflight
      cases hflight
    · simp only [hr] at hflight
      cases hflight
  | false =>
    simp only [hstored, Bool.false_eq_true, if_false] at hflight ⊢
    rcases hr : b.perform (Mutation.store flight.request flight.comment) with ⟨g | c, b'⟩
    · simp only [hr] at hflight
      cases hflight
    · exact ⟨_, rfl, rfl, rfl, (Mutation.store_ok hr).kept.2.2.1.trans hb⟩

theorem Quiet.next {p : Part} (hp : Quiet p) : Quiet (next m p) := by
  unfold Link.next
  cases hflight : p.2 with
  | none => exact hp
  | some flight =>
    obtain ⟨s, hs, -, -, hout⟩ := hp flight hflight
    simp only [hs]
    exact quiet_proceed hout flight

end Link

namespace Live

variable {l : Live} {id : String} {m : Moment}

theorem attended_of_read (hmail : l.mail = []) (ms : List Hub.Message) : l.attended ms = l := by
  obtain ⟨backend, secret, links, mail⟩ := l
  obtain rfl : mail = [] := hmail
  unfold attended
  split <;> rfl

theorem step_idle {s : Session} (hg : l.links.get? id = some ⟨s, none⟩) (hout : l.backend.outbox = []) :
    l.step (.act id .proceed m) = (l, []) := by
  have hasks : Link.asks l.backend ⟨s, none⟩ .proceed m = [] := rfl
  have hpart : l.part ⟨s, none⟩ .proceed m = (⟨l.backend, some s, [], []⟩, none) := rfl
  have hbackend : { l.backend with outbox := [] } = l.backend := by rw [← hout]
  rw [step_act hg, hasks, attended_nil, hpart]
  simp only [follow, Table.insert_of_get? hg, hbackend, handedOver, hout, List.append_nil, List.filter_nil,
    List.map_nil]

theorem step_going {s : Session} {flight : Flight} (hmail : l.mail = [])
    (hg : l.links.get? id = some ⟨s, some flight⟩) :
    l.step (.act id .proceed m) = l.follow id (Link.proceed l.backend s flight m) := by
  rw [step_act hg, part, attended_of_read hmail]
  rfl

theorem follow_follow (l : Live) {b : Backend} (s : Session) (flight : Option Flight) (p : Link.Part) :
    (l.follow id (⟨b, some s, [], []⟩, flight)).1.follow id p = l.follow id p := by
  simp only [follow, List.append_nil]
  cases p.1.session with
  | some t => simp only [Table.insert_insert]
  | none => simp only [Table.erase_insert]

theorem follow_proceed (hmail : l.mail = []) {p : Link.Part} (hp : Link.Quiet p) :
    ((l.follow id p).1.step (.act id .proceed m)).1 = (l.follow id (Link.next m p)).1 ∧
      (l.follow id p).2 ++ ((l.follow id p).1.step (.act id .proceed m)).2 =
        (l.follow id (Link.next m p)).2 := by
  have hlinks := l.follow_links id p id
  rw [if_pos rfl] at hlinks
  cases hflight : p.2 with
  | none =>
    have hnext : Link.next m p = p := by rw [Link.next, hflight]
    have hstep : (l.follow id p).1.step (.act id .proceed m) = ((l.follow id p).1, []) := by
      rw [hflight] at hlinks
      cases hs : p.1.session with
      | none =>
        rw [hs] at hlinks
        exact step_act_absent hlinks _ _
      | some s =>
        rw [hs] at hlinks
        exact step_idle hlinks rfl
    rw [hstep, hnext]
    exact ⟨rfl, List.append_nil _⟩
  | some flight =>
    obtain ⟨s, hs, hout, hposts, hsent⟩ := hp flight hflight
    obtain ⟨⟨b, session, out, posts⟩, going⟩ := p
    obtain ⟨rfl, rfl, rfl, rfl⟩ : going = some flight ∧ session = some s ∧ out = [] ∧ posts = [] :=
      ⟨hflight, hs, hout, hposts⟩
    have hbackend : { b with outbox := [] } = b := by rw [← show b.outbox = [] from hsent]
    have hfirst : (l.follow id (⟨b, some s, [], []⟩, some flight)).2 = [] := by
      simp [follow, handedOver, show b.outbox = [] from hsent]
    have hstep := step_going (m := m) (l := (l.follow id (⟨b, some s, [], []⟩, some flight)).1)
      (hmail ▸ List.append_nil _) hlinks
    rw [follow_follow] at hstep
    rw [hstep, hfirst, List.nil_append]
    have hnext : Link.next m (⟨b, some s, [], []⟩, some flight) = Link.proceed b s flight m := rfl
    rw [hnext]
    change (l.follow id (Link.proceed { b with outbox := [] } s flight m)).1 = _ ∧
      (l.follow id (Link.proceed { b with outbox := [] } s flight m)).2 = _
    rw [hbackend]
    exact ⟨rfl, rfl⟩

theorem frame_parts {s : Session} (hmail : l.mail = []) (hout : l.backend.outbox = [])
    (hg : l.links.get? id = some ⟨s, none⟩) (f : Inbound) (m : Moment) :
    let first := l.step (.act id (.frame f) m)
    let second := first.1.step (.act id .proceed m)
    let third := second.1.step (.act id .proceed m)
    third.1 = (l.follow id (s.handle l.secret l.backend f m, none)).1 ∧
      first.2 ++ second.2 ++ third.2 = (l.follow id (s.handle l.secret l.backend f m, none)).2 := by
  intro first second third
  have hquiet : Link.Quiet (Link.receive l.secret l.backend s f m) := Link.quiet_receive l.secret hout f
  have hfirst : first = l.follow id (Link.receive l.secret l.backend s f m) := by
    change l.step _ = _
    rw [step_act hg, part, attended_of_read hmail]
    rfl
  have hsecond := @follow_proceed l id m hmail _ hquiet
  have hthird := @follow_proceed l id m hmail _ (hquiet.next (m := m))
  rw [Link.next_receive] at hthird
  rw [← hfirst] at hsecond
  rw [← hsecond.1] at hthird
  refine ⟨hthird.1, ?_⟩
  rw [hsecond.2]
  exact hthird.2

end Live

namespace Session

variable {b : Backend} {s : Session} {m : Moment}

def Answers (b : Backend) (s : Session) (step : Step) : Prop :=
  (∀ t, step.session = some t → t.id = s.id) ∧
    ∀ d ∈ step.backend.outbox, b.hub.sessions.contains d.session = true ∧ ∃ t, step.session = some t

theorem Handled.answers {step : Step} {ms : List Hub.Message} (h : Handled b s m step ms)
    (hb : b.outbox = []) : Answers b s step := by
  obtain ⟨hub, epochs, hbackend⟩ := h.kept
  refine ⟨fun t ht => (h.session ht).1, fun d hd => ?_⟩
  rw [hbackend, hb] at hd
  cases hd

theorem sent_of_route (hb : b.outbox = []) {e : Event} {caller : Caller} {d : Delivery}
    (hd : d ∈ (b.perform (Mutation.route e caller m)).2.outbox) :
    b.hub.sessions.contains d.session = true := by
  rw [Mutation.route_eq] at hd
  rcases hp : b.perform (Mutation.prepare e caller m) with ⟨g | ⟨request, c⟩, b₁⟩
  · rw [Backend.bind_of_error hp, ((Mutation.quiet_prepare e caller m).calm hp).kept.2.2.1, hb] at hd
    cases hd
  have hcalm := ((Mutation.quiet_prepare e caller m).calm hp).kept
  rw [Backend.bind_of_ok hp] at hd
  rcases hs : b₁.perform (Mutation.store request c) with ⟨g | c', b₂⟩
  · rw [Backend.bind_of_error hs, (Mutation.store_error hs).kept.2.2.1, hcalm.2.2.1, hb] at hd
    cases hd
  have hstored := (Mutation.store_ok hs).kept
  have hnone : b₂.outbox = [] := hstored.2.2.1.trans (hcalm.2.2.1.trans hb)
  rw [Backend.bind_of_ok hs] at hd
  rcases ha : b₂.perform (Mutation.announce request.news c' m) with ⟨a, b₃⟩
  rw [ha] at hd
  rcases Mutation.announce_cases ha with ⟨-, rfl⟩ | ⟨-, rfl⟩
  · rw [show ({ b₂ with publishOutage := none } : Backend).outbox = [] from hnone] at hd
    cases hd
  · change d ∈ b₂.outbox ++ _ at hd
    rw [hnone, List.nil_append] at hd
    obtain ⟨session, hsession, rfl⟩ := List.mem_map.mp hd
    have hknown := (List.mem_filter.mp hsession).2
    rwa [hstored.1, hcalm.1] at hknown

theorem answers_handle (secret : String) (hb : b.outbox = []) (f : Inbound) :
    Answers b s (s.handle secret b f m) := by
  cases hf : s.asksFor? f with
  | none => exact (handle_handled secret hf).answers hb
  | some x =>
    obtain ⟨id, channel, e⟩ := x
    have hsent {d : Delivery} := @sent_of_route b m hb e ⟨s.identity.user, channel⟩ d
    rw [handle_event secret hf]
    rcases hr : b.perform (Mutation.route e ⟨s.identity.user, channel⟩ m) with ⟨g | a, b'⟩
    · rw [hr] at hsent
      exact ⟨fun t ht => by cases ht; rfl, fun d hd => ⟨hsent hd, _, rfl⟩⟩
    · rw [hr] at hsent
      exact ⟨fun t ht => by cases ht; rfl, fun d hd => ⟨hsent hd, _, rfl⟩⟩

end Session

/-! ### Requests -/

namespace Http

theorem run_told {a : Action Answer}
    (ha : ∀ (b : Backend) answer b', b.perform a = (.ok answer, b') →
      ∃ status body, answer = Answer.json status body) (b : Backend) : ∃ status body, (run b a).2 = .json status body := by
  unfold run
  rcases hr : b.perform a with ⟨f | answer, b'⟩
  · exact ⟨_, _, rfl⟩
  · exact ha b answer b' hr

theorem comment_told (id : String) (b : Backend) : ∃ status body, (run b (comment id)).2 = .json status body := by
  refine run_told (fun b answer b' h => ?_) b
  unfold comment at h
  split at h
  · obtain ⟨_, _, hthrow, -⟩ := Backend.bind_ok h
    cases hthrow
  · obtain ⟨_, _, -, h⟩ := Backend.bind_ok h
    cases h
    exact ⟨_, _, rfl⟩

theorem comments_told (postId : String) (q : Page.Query) (b : Backend) :
    ∃ status body, (run b (comments postId q)).2 = .json status body := by
  refine run_told (fun b answer b' h => ?_) b
  unfold comments at h
  obtain ⟨_, _, -, h⟩ := Backend.bind_ok h
  obtain ⟨_, _, -, h⟩ := Backend.bind_ok h
  cases h
  exact ⟨_, _, rfl⟩

theorem answer_upgraded {b : Backend} {r : Request} {gate : Option String} {m : Moment}
    {identity : Identity} (h : (answer b r gate m).2 = .upgraded identity) (b' : Backend) :
    answer b' r gate m = (b', .upgraded identity) := by
  have hnever {x : Backend × Answer} (hx : ∃ status body, x.2 = .json status body)
      (h : x.2 = .upgraded identity) : False := by
    obtain ⟨status, body, hjson⟩ := hx
    cases hjson.symm.trans h
  unfold answer at h ⊢
  split at h
  · exact Prod.ext rfl h
  · split at h
    · cases h
    · rename_i hmethod
      simp only [hmethod]
      split at h
      · exact (hnever (comment_told _ b) h).elim
      · split at h
        · cases h
        · exact (hnever (comments_told _ _ b) h).elim
      · exact Prod.ext rfl h
      · exact Prod.ext rfl h
  · cases h

end Http

/-! ### Runs of the site -/

namespace Site

def run (w : Site) (is : List Input) : Site := is.foldl (fun w i => (w.step i).1) w

def Leads (w w' : Site) (fs : List (String × Outbound)) (as : List Http.Answer) : Prop :=
  ∃ is, w.run is = w' ∧ (w.seen is).flatMap (·.frames) = fs ∧ (w.seen is).filterMap (·.answer) = as

theorem seen_append (w : Site) (is js : List Input) :
    w.seen (is ++ js) = w.seen is ++ (w.run is).seen js := by
  induction is generalizing w with
  | nil => rfl
  | cons i is ih => exact congrArg _ (ih _)

theorem leads_refl (w : Site) : w.Leads w [] [] := ⟨[], rfl, rfl, rfl⟩

theorem leads_step (w : Site) (i : Input) :
    w.Leads (w.step i).1 (w.step i).2.frames (w.step i).2.answer.toList := by
  refine ⟨[i], rfl, List.append_nil _, ?_⟩
  cases h : (w.step i).2.answer with
  | none => simp [seen, h]
  | some answer => simp [seen, h]

theorem Leads.trans {w w' w'' : Site} {fs gs : List (String × Outbound)} {as bs : List Http.Answer}
    (h : w.Leads w' fs as) (h' : w'.Leads w'' gs bs) : w.Leads w'' (fs ++ gs) (as ++ bs) := by
  obtain ⟨is, rfl, rfl, rfl⟩ := h
  obtain ⟨js, rfl, rfl, rfl⟩ := h'
  refine ⟨is ++ js, List.foldl_append, ?_, ?_⟩
  · rw [seen_append, List.flatMap_append]
  · rw [seen_append, List.filterMap_append]

theorem leads_reads (l : Live) (ids : Supply) : Leads ⟨l, ids⟩
    ⟨{ l with backend := { l.backend with hub := l.ahead }, mail := [] }, ids⟩ [] [] := by
  obtain ⟨b, secret, links, mail⟩ := l
  induction mail generalizing b with
  | nil => exact leads_refl _
  | cons letter mail ih =>
    exact (leads_step ⟨⟨b, secret, links, letter :: mail⟩, ids⟩ .read).trans
      (ih { b with hub := b.hub.read letter })

end Site

/-! ### Clients and links -/

namespace Service

structure Linked (owner : Table String String) (clients : Table String Client)
    (links : Table String Link) : Prop where
  unique : clients.Unique
  owned : ∀ name session opened, clients.get? name = some ⟨some session, opened⟩ →
    owner.get? session.id = some name
  links : ∀ id link, links.get? id = some link ↔ link.flight = none ∧
    ∃ name opened, clients.get? name = some ⟨some link.session, opened⟩ ∧ link.session.id = id

variable {owner : Table String String} {clients : Table String Client} {links links' : Table String Link}

theorem Linked.insert (h : Linked owner clients links) {name id : String} (hown : owner.get? id = some name)
    (hold : ∀ session opened, clients.get? name = some ⟨some session, opened⟩ → session.id = id)
    {session : Option Session} (hid : ∀ t, session = some t → t.id = id) (opened : Int)
    (hlinks : ∀ j, links'.get? j = if id = j then session.map (⟨·, none⟩) else links.get? j) :
    Linked owner (clients.insert name ⟨session, opened⟩) links' := by
  refine ⟨h.unique.insert _ _, ?_, ?_⟩
  · intro name' session' opened' hg
    rw [Table.get?_insert] at hg
    split at hg
    · rename_i hname
      cases hg
      rw [hid session' rfl, hown, hname]
    · exact h.owned name' session' opened' hg
  · intro j link
    rw [hlinks]
    constructor
    · intro hg
      split at hg
      · rename_i hj
        obtain ⟨t, rfl, rfl⟩ := Option.map_eq_some_iff.mp hg
        exact ⟨rfl, name, opened, Table.get?_insert_self .., (hid t rfl).trans hj⟩
      · rename_i hj
        obtain ⟨hflight, name', opened', hclient, hlink⟩ := (h.links j link).mp hg
        refine ⟨hflight, name', opened', ?_, hlink⟩
        rw [Table.get?_insert, if_neg, hclient]
        rintro rfl
        exact hj ((hold _ _ hclient).symm.trans hlink)
    · rintro ⟨hflight, name', opened', hclient, hlink⟩
      obtain ⟨s, flight⟩ := link
      obtain rfl : flight = none := hflight
      rw [Table.get?_insert] at hclient
      split at hclient
      · cases hclient
        rw [if_pos ((hid s rfl).symm.trans hlink)]
        rfl
      · rename_i hname
        rw [if_neg, h.links]
        · exact ⟨rfl, name', opened', hclient, hlink⟩
        · rintro rfl
          have hother := h.owned name' s opened' hclient
          rw [show s.id = id from hlink, hown] at hother
          exact hname (Option.some.inj hother)

theorem Linked.erase (h : Linked owner clients links) {name : String}
    (hover : ∀ session opened, clients.get? name ≠ some ⟨some session, opened⟩) :
    Linked owner (clients.erase name) links := by
  refine ⟨h.unique.erase _, ?_, ?_⟩
  · intro name' session opened hg
    rw [Table.get?_erase] at hg
    split at hg
    · cases hg
    · exact h.owned name' session opened hg
  · intro id link
    rw [h.links]
    refine and_congr_right fun _ => exists_congr fun name' => exists_congr fun opened => ?_
    rw [Table.get?_erase]
    split
    · rename_i hname
      subst hname
      exact ⟨fun hc => absurd hc.1 (hover _ _), fun hc => by cases hc.1⟩
    · exact Iff.rfl

def Grows (owner owner' : Table String String) : Prop :=
  ∀ id name, owner.get? id = some name → owner'.get? id = some name

theorem grows_refl (owner : Table String String) : Grows owner owner := fun _ _ hid => hid

theorem grows_insert {id : String} (hnew : owner.get? id = none) (name : String) :
    Grows owner (owner.insert id name) := by
  intro id' name' hown
  rw [Table.get?_insert, if_neg, hown]
  rintro rfl
  cases hnew.symm.trans hown

theorem Linked.grow (h : Linked owner clients links) {owner' : Table String String}
    (hgrow : Grows owner owner') : Linked owner' clients links :=
  { h with owned := fun name session opened hg => hgrow _ _ (h.owned name session opened hg) }

theorem only_session {name : String} {session : Session} {opened : Int}
    (hclient : clients.get? name = some ⟨some session, opened⟩) (session' : Session) (opened' : Int)
    (hg : clients.get? name = some ⟨some session', opened'⟩) : session'.id = session.id := by
  cases hclient.symm.trans hg
  rfl

theorem Linked.receiver {s : Service} (h : Linked owner s.clients links) {id : String}
    (hid : links.contains id = true) :
    ∃ name, s.receiverOf id = .client name ∧ owner.get? id = some name := by
  obtain ⟨link, hlink⟩ := Table.contains_iff.mp hid
  obtain ⟨-, name, opened, hclient, hlinked⟩ := (h.links id link).mp hlink
  unfold receiverOf
  cases hfind : s.clients.entries.find? fun e => e.2.session.any (·.id = id) with
  | none =>
    have hmissed := List.find?_eq_none.mp hfind _ (Table.mem_of_get? hclient)
    simp [hlinked] at hmissed
  | some e =>
    obtain ⟨name', session, opened'⟩ := e
    have hany : session.any (·.id = id) = true := by simpa using List.find?_some hfind
    obtain ⟨t, rfl, ht⟩ := (Option.any_eq_true _ _).mp hany
    have hentry := h.unique.get?_eq_some.mpr (List.mem_of_find?_eq_some hfind)
    refine ⟨name', rfl, ?_⟩
    rw [← of_decide_eq_true ht]
    exact h.owned name' t opened' hentry

/-! ### What a service sends -/

def frames (sent : List (Receiver × Sent)) : List (Receiver × Outbound) :=
  sent.filterMap fun
    | (r, .frame o) => some (r, o)
    | (_, .ended) => none

def Relayed (owner : Table String String) (f : String × Outbound) (x : Receiver × Outbound) : Prop :=
  ∃ name, owner.get? f.1 = some name ∧ x = (.client name, f.2)

theorem Relayed.grow {owner owner' : Table String String} (h : Grows owner owner')
    {f : String × Outbound} {x : Receiver × Outbound} (hx : Relayed owner f x) : Relayed owner' f x := by
  obtain ⟨name, hname, rfl⟩ := hx
  exact ⟨name, h _ _ hname, rfl⟩

def site (s : Service) (links : Table String Link) : Site :=
  ⟨⟨s.backend, s.secret, links, []⟩, s.sessionIds⟩

structure Mirrors (owner : Table String String) (links : Table String Link) (s : Service) : Prop where
  sound : (s.site links).live.Sound
  linked : Linked owner s.clients links
  outbox : s.backend.outbox = []
  fresh : ∀ k, owner.get? (s.sessionIds.ahead k) = none

/-- From one state to another a service does what its site does, answers alike, and sends the same
frames in the same order, each to the client whose session it is for. -/
def Simulated (s s' : Service) (as : List Http.Answer) : Prop :=
  ∀ owner links, Mirrors owner links s → ∃ owner' links' fs new,
    (s.site links).Leads (s'.site links') fs as ∧ Mirrors owner' links' s' ∧ Grows owner owner' ∧
      s'.sent = s.sent ++ new ∧ List.Forall₂ (Relayed owner') fs (frames new)

theorem simulated_silent {s s' : Service} {as : List Http.Answer} (hsent : s'.sent = s.sent)
    (h : ∀ owner links, Mirrors owner links s → ∃ links',
      (s.site links).Leads (s'.site links') [] as ∧ Mirrors owner links' s') : Simulated s s' as := by
  intro owner links hm
  obtain ⟨links', hleads, hm'⟩ := h owner links hm
  exact ⟨owner, links', [], [], hleads, hm', grows_refl owner, hsent.trans (List.append_nil _).symm, .nil⟩

theorem simulated_refl (s : Service) : Simulated s s [] :=
  simulated_silent rfl fun _ links h => ⟨links, Site.leads_refl _, h⟩

theorem Simulated.trans {s s' s'' : Service} {as bs : List Http.Answer} (h : Simulated s s' as)
    (h' : Simulated s' s'' bs) : Simulated s s'' (as ++ bs) := by
  intro owner links hm
  obtain ⟨owner', links', fs, new, hleads, hm', hgrow, hsent, hframes⟩ := h owner links hm
  obtain ⟨owner'', links'', gs, more, hleads', hm'', hgrow', hsent', hframes'⟩ := h' owner' links' hm'
  refine ⟨owner'', links'', fs ++ gs, new ++ more, hleads.trans hleads', hm'',
    fun id name hid => hgrow' id name (hgrow id name hid), ?_, ?_⟩
  · rw [hsent', hsent, List.append_assoc]
  · rw [frames, List.filterMap_append]
    exact List.rel_append (hframes.imp fun _ _ hx => hx.grow hgrow') hframes'

theorem frames_out (name : String) (out : List Outbound) :
    frames (out.map fun o => (Receiver.client name, Sent.frame o)) = out.map (Receiver.client name, ·) := by
  rw [frames, List.filterMap_map]
  exact congrFun List.filterMap_eq_map out

theorem frames_deliveries (s : Service) (ds : List Delivery) :
    frames (ds.map fun d => (s.receiverOf d.session, Sent.frame (.notice d.notice))) =
      ds.map fun d => (s.receiverOf d.session, .notice d.notice) := by
  rw [frames, List.filterMap_map]
  exact congrFun List.filterMap_eq_map ds

theorem relayed_out {name id : String} (hown : owner.get? id = some name) (out : List Outbound) :
    List.Forall₂ (Relayed owner) (out.map (id, ·)) (out.map (Receiver.client name, ·)) := by
  rw [List.forall₂_map_left_iff, List.forall₂_map_right_iff]
  exact List.forall₂_same.mpr fun o _ => ⟨name, hown, rfl⟩

theorem relayed_deliveries {s : Service} (hlinked : Linked owner s.clients links) {ds : List Delivery}
    (hknown : ∀ d ∈ ds, links.contains d.session = true) :
    List.Forall₂ (Relayed owner) (Live.handedOver links ds)
      (ds.map fun d => (s.receiverOf d.session, .notice d.notice)) := by
  rw [Live.handedOver, List.filter_eq_self.mpr hknown, List.forall₂_map_left_iff,
    List.forall₂_map_right_iff]
  refine List.forall₂_same.mpr fun d hd => ?_
  obtain ⟨name, hreceiver, hown⟩ := hlinked.receiver (hknown d hd)
  exact ⟨name, hown, by rw [hreceiver]⟩

theorem follow_mirrors {s : Service} {name id : String} {step : Session.Step}
    (hlinked : Linked owner s.clients links) (hown : owner.get? id = some name)
    (hold : ∀ session opened, s.clients.get? name = some ⟨some session, opened⟩ → session.id = id)
    (hid : ∀ t, step.session = some t → t.id = id) (opened : Int)
    (hsound : ((s.site links).live.follow id (step, none)).1.Sound)
    (hknown : ∀ d ∈ step.backend.outbox,
      ((s.site links).live.follow id (step, none)).1.links.contains d.session = true)
    (hfresh : ∀ k, owner.get? (s.sessionIds.ahead k) = none) :
    let l := (s.site links).live.follow id (step, none)
    ∃ links' new, Site.Leads ⟨l.1, s.sessionIds⟩ ((s.follow name opened step).site links') [] [] ∧
      Mirrors owner links' (s.follow name opened step) ∧ (s.follow name opened step).sent = s.sent ++ new ∧
      List.Forall₂ (Relayed owner) l.2 (frames new) := by
  intro l
  have hlinks : Linked owner (s.clients.insert name ⟨step.session, opened⟩) l.1.links :=
    hlinked.insert hown hold hid opened fun j => Live.follow_links ..
  refine ⟨l.1.links, step.out.map (fun o => (Receiver.client name, Sent.frame o)) ++
      ((if step.session.isNone then [(Receiver.client name, Sent.ended)] else []) ++
        step.backend.outbox.map fun d =>
          ((s.follow name opened step).receiverOf d.session, Sent.frame (.notice d.notice))),
    Site.leads_reads l.1 s.sessionIds, ⟨?_, hlinks, rfl, hfresh⟩, ?_, ?_⟩
  · exact hsound.aside rfl (hsound.orderly.readAll _) rfl rfl
  · simp only [follow, deliver, List.append_assoc]
    rfl
  · have htail : frames (if step.session.isNone then [(Receiver.client name, Sent.ended)] else []) = [] := by
      split <;> rfl
    rw [frames, List.filterMap_append, List.filterMap_append]
    change List.Forall₂ _ _ (frames _ ++ (frames _ ++ frames _))
    rw [frames_out, htail, List.nil_append, frames_deliveries]
    exact List.rel_append (relayed_out hown _) (relayed_deliveries hlinks hknown)

/-! ### One thing at a time -/

section

variable {s : Service} {name : String}

theorem Mirrors.known (h : Mirrors owner links s) {id : String}
    (hid : s.backend.hub.sessions.contains id = true) : links.contains id = true := by
  obtain ⟨user, huser⟩ := Table.contains_iff.mp hid
  cases hg : links.get? id with
  | some link => exact Table.contains_iff.mpr ⟨link, hg⟩
  | none => cases (h.sound.absent id hg).symm.trans huser

theorem Mirrors.unused (h : Mirrors owner links s) : links.get? s.sessionIds.name = none := by
  cases hg : links.get? s.sessionIds.name with
  | none => rfl
  | some link =>
    obtain ⟨-, name, opened, hclient, hid⟩ := (h.linked.links _ link).mp hg
    have hown := h.linked.owned name _ opened hclient
    rw [hid] at hown
    cases (h.fresh 0).symm.trans hown

theorem Mirrors.link (h : Mirrors owner links s) {session : Session} {opened : Int}
    (hclient : s.clients.get? name = some ⟨some session, opened⟩) :
    links.get? session.id = some ⟨session, none⟩ :=
  (h.linked.links _ _).mpr ⟨rfl, name, opened, hclient, rfl⟩

theorem simulated_follow {session : Session} {opened : Int} {step : Session.Step}
    (hclient : s.clients.get? name = some ⟨some session, opened⟩)
    (hanswers : s.backend.outbox = [] → Session.Answers s.backend session step)
    (hleads : ∀ links, (s.site links).live.Sound → s.backend.outbox = [] →
      links.get? session.id = some ⟨session, none⟩ →
      let l := (s.site links).live.follow session.id (step, none)
      (s.site links).Leads ⟨l.1, s.sessionIds⟩ l.2 [] ∧ l.1.Sound) :
    Simulated s (s.follow name opened step) [] := by
  intro owner links h
  obtain ⟨hid, hknown⟩ := hanswers h.outbox
  obtain ⟨hfirst, hsound⟩ := hleads links h.sound h.outbox (h.link hclient)
  have hcontains : ∀ d ∈ step.backend.outbox,
      ((s.site links).live.follow session.id (step, none)).1.links.contains d.session = true := by
    intro d hd
    obtain ⟨hmember, t, ht⟩ := hknown d hd
    rw [Table.contains, Live.follow_links, ht]
    split
    · rfl
    · exact h.known hmember
  obtain ⟨links', new, hrest, hm, hsent, hframes⟩ := follow_mirrors h.linked
    (h.linked.owned _ _ _ hclient) (only_session hclient) hid opened hsound hcontains h.fresh
  have hall := hfirst.trans hrest
  rw [List.append_nil] at hall
  exact ⟨owner, links', _, new, hall, hm, grows_refl owner, hsent, hframes⟩

theorem simulated_receive {s' : Service} {f : Inbound} (hs : s.receive name f = some s') :
    Simulated s s' [] := by
  unfold receive at hs
  obtain ⟨⟨session, opened⟩, hclient, hs⟩ := Option.bind_eq_some_iff.mp hs
  cases session with
  | none =>
    cases hs
    exact simulated_refl s
  | some session =>
    cases hs
    apply simulated_follow hclient (fun hout => Session.answers_handle s.secret hout f)
    intro links hsound hout hlink l
    obtain ⟨hstate, hframes⟩ : _ = l.1 ∧ _ = l.2 :=
      Live.frame_parts (l := (s.site links).live) rfl hout hlink f s.now
    have hfirst := (s.site links).leads_step (.act session.id (.frame f) s.now)
    have hall := (hfirst.trans (Site.leads_step _ (.act session.id .proceed s.now))).trans
      (Site.leads_step _ (.act session.id .proceed s.now))
    have hacted := ((hsound.act session.id (.frame f) s.now).act session.id .proceed s.now).act
      session.id .proceed s.now
    rw [hstate] at hacted
    refine ⟨?_, hacted⟩
    rw [← hstate, ← hframes]
    exact hall

theorem simulated_clock (s : Service) (now : Moment) : Simulated s { s with now } [] :=
  simulated_silent rfl fun _ links h => ⟨links, Site.leads_refl _, { h with }⟩

theorem simulated_aside {b : Backend} (i : Site.Input)
    (hstep : ∀ links, s.backend.outbox = [] → (s.site links).step i =
      ({ s.site links with live := { (s.site links).live with backend := b } }, ⟨[], none⟩))
    (hsound : ∀ links, (s.site links).live.Sound → ({ (s.site links).live with backend := b } : Live).Sound)
    (hout : s.backend.outbox = [] → b.outbox = []) : Simulated s { s with backend := b } [] := by
  refine simulated_silent rfl fun owner links h => ⟨links, ?_, hsound links h.sound, h.linked,
    hout h.outbox, h.fresh⟩
  have hleads := (s.site links).leads_step i
  rw [hstep links h.outbox] at hleads
  exact hleads

theorem simulated_sources (sources : Sources) :
    Simulated s { s with backend := { s.backend with sources } } [] :=
  simulated_aside (.sources sources) (fun _ _ => rfl) (fun _ hl => hl.aside rfl hl.orderly rfl rfl) id

theorem simulated_beat {session : Session} {opened : Int}
    (hclient : s.clients.get? name = some ⟨some session, opened⟩) :
    Simulated s (s.follow name opened (session.heartbeat s.backend s.now)) [] := by
  apply simulated_follow hclient fun hout => Session.heartbeat_handled.answers hout
  intro links hsound hout hlink l
  have hstep : (s.site links).live.step (.act session.id .beat s.now) = l := by
    rw [Live.step_act hlink, Live.part, Live.attended_of_read rfl]
    rfl
  have hacted := hsound.act session.id .beat s.now
  rw [hstep] at hacted
  refine ⟨?_, hacted⟩
  rw [← hstep]
  exact (s.site links).leads_step (.act session.id .beat s.now)

theorem simulated_fire (s : Service) (time : Int) (timer : Timer) :
    Simulated s (s.fire time timer) [] := by
  have hclock := simulated_clock s (s.setSteady time).now
  cases timer with
  | sweep =>
    refine hclock.trans (simulated_aside (.sweep time) (fun _ _ => rfl) ?_ id)
    intro links hl
    exact hl.step (.sweep time) fun _ h => absurd h List.not_mem_nil
  | beat name =>
    have hbeat : Simulated (s.setSteady time) (s.fire time (.beat name)) [] := by
      simp only [fire]
      split
      · rename_i session opened hclient
        exact simulated_beat hclient
      · exact simulated_refl _
    exact hclock.trans hbeat

theorem simulated_advance (s : Service) (ms : Int) : Simulated s (s.advance ms) [] := by
  have hfold (timers : List (Int × Timer)) (s : Service) :
      Simulated s (timers.foldl (fun s x => s.fire x.1 x.2) s) [] := by
    induction timers generalizing s with
    | nil => exact simulated_refl s
    | cons x timers ih => exact (simulated_fire s x.1 x.2).trans (ih _)
  exact ((hfold (s.schedule (s.now.steady + ms)) s).trans (simulated_clock _ _)).trans
    (simulated_sources _)

theorem simulated_push (s : Service) (user : Int) (e : Event) :
    Simulated s (s.act (Backend.publish (.personal user) e s.now)).1 [] := by
  intro owner links h
  have hleads := (s.site links).leads_step (.push user e s.now)
  have hsound := h.sound.step (.push user e s.now) fun _ h => absurd h List.not_mem_nil
  -- Nothing was waiting to be sent, so that what is sent are the deliveries of this publication.
  have hknown : ∀ d ∈ (s.backend.perform (Backend.publish (.personal user) e s.now)).2.outbox,
      links.contains d.session = true := by
    intro d hd
    change d ∈ s.backend.outbox ++ _ at hd
    rw [h.outbox, List.nil_append] at hd
    obtain ⟨session, hsession, rfl⟩ := List.mem_map.mp hd
    exact h.known (List.mem_filter.mp hsession).2
  refine ⟨owner, links, _, _, hleads, ⟨hsound, h.linked, rfl, h.fresh⟩, grows_refl owner, rfl, ?_⟩
  rw [frames_deliveries]
  exact relayed_deliveries h.linked hknown

theorem simulated_consume (s : Service) (url message : String) :
    Simulated s (s.consume url message).1 [] := by
  unfold consume
  cases Feed.checkAddress url with
  | error f => exact simulated_refl s
  | ok => exact simulated_sources (Feed.handle s.backend.sources message).1

theorem simulated_outage (s : Service) (outage : Option (StoreCall × Fault)) :
    Simulated s (s.failStore outage) [] :=
  simulated_aside (.storeOutage outage) (fun _ _ => rfl) (fun _ hl => hl.aside rfl hl.orderly rfl rfl) id

theorem simulated_silence (s : Service) (f : Fault) : Simulated s (s.failPublish f) [] :=
  simulated_aside (.publishOutage (some f)) (fun _ _ => rfl)
    (fun _ hl => hl.aside rfl hl.orderly rfl rfl) id

theorem simulated_json {r : Http.Request} {status : Nat} {body : Json}
    (hr : (s.answer r true).2 = .json status body) :
    Simulated s (s.answer r true).1 [.json status body] := by
  refine simulated_silent rfl fun owner links h => ⟨links, ?_⟩
  have hcalm := (Backend.answer_calm s.backend r (some s.secret) s.now).kept
  have hleads := (s.site links).leads_step (.request r s.now)
  have hstep : (s.site links).step (.request r s.now) =
      ((s.answer r true).1.site links, ⟨[], some (.json status body)⟩) := by
    rw [← hr]
    change Site.answered _ _ (s.answer r true).2 = _
    rw [hr]
    rfl
  rw [hstep] at hleads
  refine ⟨hleads, ?_, h.linked, hcalm.2.2.1.trans h.outbox, h.fresh⟩
  have hhub : (s.answer r true).1.backend.hub = s.backend.hub := hcalm.1
  exact h.sound.aside rfl (hhub ▸ h.sound.orderly) (congrArg _ hhub) (congrArg _ hhub)

def dropped (s : Service) (name : String) : Service :=
  match s.clients.get? name with
  | some ⟨some session, opened⟩ =>
    { s with
      backend := { s.backend with hub := s.backend.hub.disconnect session.id }
      clients := s.clients.insert name ⟨none, opened⟩ }
  | _ => s

theorem dropped_over (s : Service) (name : String) (session : Session) (opened : Int) :
    (s.dropped name).clients.get? name ≠ some ⟨some session, opened⟩ := by
  unfold dropped
  split
  · rw [Table.get?_insert_self]
    intro h
    cases h
  · rename_i hnone
    exact hnone session opened

theorem openClient_dropped (s : Service) (name : String) (identity : Identity) :
    s.openClient name identity = (s.dropped name).openClient name identity := by
  unfold dropped
  split
  · rename_i session opened hclient
    simp only [openClient, hclient, Table.get?_insert_self, Table.erase_insert, Option.bind_some]
    rfl
  · rfl

theorem simulated_dropped (s : Service) (name : String) : Simulated s (s.dropped name) [] := by
  unfold dropped
  split
  · rename_i session opened hclient
    refine simulated_silent rfl fun owner links h => ?_
    let step : Session.Step := ⟨s.backend, none, [], [.disconnect session.id]⟩
    let l := (s.site links).live.follow session.id (step, none)
    have hstep : (s.site links).live.step (.act session.id (.frame .broken) s.now) = l := by
      rw [Live.step_act (h.link hclient), Live.part, Live.attended_of_read rfl]
      rfl
    have hsound := h.sound.act session.id (.frame .broken) s.now
    rw [hstep] at hsound
    have hsent : l.2 = [] := by
      simp [l, step, Live.follow, Live.handedOver, h.outbox]
    have hfirst : (s.site links).Leads ⟨l.1, s.sessionIds⟩ [] [] := by
      rw [← hsent, ← hstep]
      exact (s.site links).leads_step (.act session.id (.frame .broken) s.now)
    have hover : ∀ d ∈ step.backend.outbox, l.1.links.contains d.session = true := by
      intro d hd
      rw [show step.backend.outbox = [] from h.outbox] at hd
      cases hd
    obtain ⟨links', new, hrest, hm, -, -⟩ := follow_mirrors h.linked (h.linked.owned _ _ _ hclient)
      (only_session hclient) (fun t ht => by cases ht) opened hsound hover h.fresh
    -- But for the word that the session is over, this is how its end is taken over.
    have hsite : (s.follow name opened step).site links' = site { s with
        backend := { s.backend with hub := s.backend.hub.disconnect session.id }
        clients := s.clients.insert name ⟨none, opened⟩ } links' := by
      simp only [site, follow, deliver, ← h.outbox]
      rfl
    have hall := hfirst.trans hrest
    rw [hsite] at hall
    exact ⟨links', hall, hsite ▸ hm.sound, hm.linked, h.outbox, hm.fresh⟩
  · exact simulated_refl s

def cleared (s : Service) (name : String) : Service :=
  { s with
    clients := s.clients.erase name
    sessionIds := { s.sessionIds with next := s.sessionIds.next + 1 } }

theorem openClient_cleared (hover : ∀ session opened, s.clients.get? name ≠ some ⟨some session, opened⟩)
    (identity : Identity) : s.openClient name identity =
      (s.cleared name).follow name s.now.steady (Session.start s.backend s.sessionIds.name identity s.now) := by
  unfold openClient
  cases hclient : s.clients.get? name with
  | none => rfl
  | some client =>
    obtain ⟨session, opened⟩ := client
    cases session with
    | none => rfl
    | some session => exact absurd hclient (hover session opened)

theorem Mirrors.fresh_cleared (h : Mirrors owner links s) (name : String) (k : Nat) :
    (owner.insert s.sessionIds.name name).get? ((s.cleared name).sessionIds.ahead k) = none := by
  rw [cleared, ← Supply.ahead_succ, Table.get?_insert, if_neg]
  · exact h.fresh (k + 1)
  · intro heq
    have hk := s.sessionIds.ahead_injective (s.sessionIds.ahead_zero.trans heq)
    omega

theorem leads_upgraded (links : Table String Link) {r : Http.Request} {identity : Identity}
    (hr : Http.answer s.backend r (some s.secret) s.now = (s.backend, .upgraded identity)) :
    let l := (s.site links).live.step (.start s.sessionIds.name identity s.now)
    (s.site links).Leads ⟨l.1, (s.cleared name).sessionIds⟩ l.2 [.upgraded identity] := by
  intro l
  have hstep : (s.site links).step (.request r s.now) =
      (⟨l.1, (s.cleared name).sessionIds⟩, ⟨l.2, some (.upgraded identity)⟩) := by
    change Site.answered { s.site links with live := { (s.site links).live with
      backend := (Http.answer s.backend r (some s.secret) s.now).1 } } s.now
      (Http.answer s.backend r (some s.secret) s.now).2 = _
    rw [hr]
    rfl
  have hleads := (s.site links).leads_step (.request r s.now)
  rw [hstep] at hleads
  exact hleads

theorem simulated_open (hover : ∀ session opened, s.clients.get? name ≠ some ⟨some session, opened⟩)
    {r : Http.Request} {identity : Identity}
    (hr : Http.answer s.backend r (some s.secret) s.now = (s.backend, .upgraded identity)) :
    Simulated s (s.openClient name identity) [.upgraded identity] := by
  intro owner links h
  let id := s.sessionIds.name
  let step := Session.start s.backend id identity s.now
  have hsound : ((s.site links).live.follow id (step, none)).1.Sound :=
    h.sound.start h.unused identity s.now
  have hgrow : Grows owner (owner.insert id name) := grows_insert (h.fresh 0) name
  have hunsent : ∀ d ∈ step.backend.outbox,
      (((s.cleared name).site links).live.follow id (step, none)).1.links.contains d.session = true := by
    intro d hd
    rw [show step.backend.outbox = [] from h.outbox] at hd
    cases hd
  have hold (session : Session) (opened : Int)
      (hc : (s.cleared name).clients.get? name = some ⟨some session, opened⟩) : session.id = id := by
    rw [cleared, Table.get?_erase, if_pos rfl] at hc
    cases hc
  obtain ⟨links', new, hrest, hm, hsent, hframes⟩ := follow_mirrors (s := s.cleared name)
    ((h.linked.erase hover).grow hgrow) (Table.get?_insert_self ..) hold
    (fun t ht => by cases ht; rfl) s.now.steady hsound hunsent (h.fresh_cleared name)
  have hall := (leads_upgraded links hr).trans hrest
  rw [List.append_nil] at hall
  rw [openClient_cleared hover]
  exact ⟨_, links', _, new, hall, hm, hgrow, hsent, hframes⟩

end

/-! ### Runs of a service -/

inductive Input where
  | request (client : String) (r : Http.Request)
  | frame (client : String) (f : Inbound)
  | push (user : Int) (e : Event)
  | consume (url message : String)
  | update (u : User)
  | advance (ms : Int)
  | clock (us : Int)
  | storeOutage (o : Option (StoreCall × Fault))
  | publishOutage (f : Fault)

def handle (s : Service) : Input → Service × List Http.Answer
  | .request name r =>
    match s.answer r true with
    | (s, .upgraded identity) => (s.openClient name identity, [.upgraded identity])
    | (s, answer) => (s, [answer])
  | .frame name f => ((s.receive name f).getD s, [])
  | .push user e => ((s.act (Backend.publish (.personal user) e s.now)).1, [])
  | .consume url message => ((s.consume url message).1, [])
  | .update u => ((s.updateUser u).1, [])
  | .advance ms => (s.advance ms, [])
  | .clock us => (s.setWall us, [])
  | .storeOutage o => (s.failStore o, [])
  | .publishOutage f => (s.failPublish f, [])

def run (s : Service) (is : List Input) : Service := is.foldl (fun s i => (s.handle i).1) s

def answers : Service → List Input → List Http.Answer
  | _, [] => []
  | s, i :: is => (s.handle i).2 ++ answers (s.handle i).1 is

theorem simulated_request (s : Service) (name : String) (r : Http.Request) :
    Simulated s (s.handle (.request name r)).1 (s.handle (.request name r)).2 := by
  rcases hr : s.answer r true with ⟨s', ⟨status, body⟩ | identity⟩
  · have hjson := simulated_json (s := s) (congrArg Prod.snd hr)
    simp only [handle, hr] at hjson ⊢
    exact hjson
  · have hupgraded : (Http.answer s.backend r (some s.secret) s.now).2 = .upgraded identity :=
      show (s.answer r true).2 = _ from congrArg Prod.snd hr
    have hanswer := Http.answer_upgraded hupgraded
    have hsame : s' = s := by
      rw [← show (s.answer r true).1 = s' from congrArg Prod.fst hr]
      change { s with backend := (Http.answer s.backend r (some s.secret) s.now).1 } = s
      rw [hanswer]
    have hkept : (s.dropped name).secret = s.secret ∧ (s.dropped name).now = s.now := by
      unfold dropped
      split <;> exact ⟨rfl, rfl⟩
    have hdropped : Http.answer (s.dropped name).backend r (some (s.dropped name).secret) (s.dropped name).now =
        ((s.dropped name).backend, .upgraded identity) := by
      rw [hkept.1, hkept.2]
      exact hanswer _
    simp only [handle, hr, hsame]
    rw [openClient_dropped]
    exact (simulated_dropped s name).trans (simulated_open (s.dropped_over name) hdropped)

theorem simulated_handle (s : Service) (i : Input) : Simulated s (s.handle i).1 (s.handle i).2 := by
  cases i with
  | request name r => exact simulated_request s name r
  | frame name f =>
    simp only [handle]
    cases hs : s.receive name f with
    | none => exact simulated_refl s
    | some s' => exact simulated_receive hs
  | push user e => exact simulated_push s user e
  | consume url message => exact simulated_consume s url message
  | update u => exact simulated_sources _
  | advance ms => exact simulated_advance s ms
  | clock us => exact simulated_clock s _
  | storeOutage o => exact simulated_outage s o
  | publishOutage f => exact simulated_silence s f

theorem simulated_run (s : Service) (is : List Input) : Simulated s (s.run is) (s.answers is) := by
  induction is generalizing s with
  | nil => exact simulated_refl s
  | cons i is ih => exact (simulated_handle s i).trans (ih _)

def start (secret : String) (store : CommentStore) (sources : Sources) (bounds : HistoryBounds)
    (commentIds epochs sessionIds : Supply) (now : Moment) : Service where
  backend := { Backend.start sources bounds commentIds epochs with store }
  secret
  now
  sessionIds

theorem mirrors_start (secret : String) (store : CommentStore) (sources : Sources)
    (bounds : HistoryBounds) (commentIds epochs sessionIds : Supply) (now : Moment) :
    Mirrors {} {} (start secret store sources bounds commentIds epochs sessionIds now) where
  sound :=
    { orderly := Hub.orderly_start bounds
      absent := fun _ _ => rfl
      sessions := nofun }
  linked :=
    { unique := Table.unique_default
      owned := nofun
      links := fun id link => ⟨nofun, fun h => by obtain ⟨-, name, opened, hclient, -⟩ := h; cases hclient⟩ }
  outbox := rfl
  fresh := fun _ => rfl

/-- A running service is a run of its site: it gives the same answers, ends with the same backend,
and its clients are sent, in the same order, the frames that go to their sessions. -/
theorem run_of_site (secret : String) (store : CommentStore) (sources : Sources)
    (bounds : HistoryBounds) (commentIds epochs sessionIds : Supply) (now : Moment) (is : List Input) :
    let s := start secret store sources bounds commentIds epochs sessionIds now
    let w := Site.start secret store sources bounds commentIds epochs sessionIds
    ∃ js owner, (w.run js).live.backend = (s.run is).backend ∧ (w.run js).live.mail = [] ∧
      Linked owner (s.run is).clients (w.run js).live.links ∧
      (w.seen js).filterMap (·.answer) = s.answers is ∧
      List.Forall₂ (Relayed owner) ((w.seen js).flatMap (·.frames)) (frames (s.run is).sent) := by
  intro s w
  obtain ⟨owner, links, fs, new, ⟨js, hrun, rfl, hanswers⟩, hm, -, hsent, hframes⟩ :=
    simulated_run s is {} {} (mirrors_start ..)
  have hsite : s.site {} = w := rfl
  rw [hsite] at hrun hanswers hframes
  refine ⟨js, owner, ?_, ?_, ?_, hanswers, ?_⟩
  · rw [hrun]
    rfl
  · rw [hrun]
    rfl
  · rw [hrun]
    exact hm.linked
  · rw [hsent]
    exact hframes

end Service

end LiveComments
