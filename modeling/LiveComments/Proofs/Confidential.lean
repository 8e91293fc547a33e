import LiveComments.Proofs.Live

namespace LiveComments

def Backend.Plain (b : Backend) : Prop :=
  ∀ id c, b.store.comments.get? id = some c → ¬hashed c.postId

theorem Backend.Calm.plain {b b' : Backend} (h : b.Calm b') (hb : b.Plain) : b'.Plain := by
  unfold Plain
  rwa [h.store]

namespace Mutation

theorem targetPost_ok {channel : Channel} {named : Option String} {post : String}
    (h : targetPost channel named = .ok post) : channel = .post post := by
  unfold targetPost at h
  split at h
  · cases h
  · cases h
    rfl
  · split at h
    · cases h
      rfl
    · cases h

theorem Loaded.plain {b : Backend} (hb : b.Plain) {payload : Json} {caller : Caller} {m : Moment}
    {request : Event.Request} {c : Comment} (hl : Loaded b payload caller m request c)
    (hc : ∃ name, Channel.parse name = .ok caller.channel) : ¬hashed c.postId := by
  cases hl with
  | @create r post user decoded target named written author =>
    obtain ⟨name, hname⟩ := hc
    rw [targetPost_ok target] at hname
    -- The post is trimmed once more for the comment, which changes nothing of a parsed name.
    have hproper : ¬hashed post := Channel.parse_proper hname
    change ¬hashed (Text.trim post)
    rwa [Channel.parse_trimmed hname]
  | update decoded written found owned =>
    have hpost := hb _ _ (CommentStore.get_ok found)
    exact hpost
  | delete decoded found owned => exact hb _ _ (CommentStore.get_ok found)

theorem Stored.plain {b b' : Backend} (hb : b.Plain) {c d : Comment} {request : Event.Request}
    (hs : Stored b c request d b') (hc : ¬hashed c.postId) : b'.Plain ∧ ¬hashed d.postId := by
  cases hs with
  | create =>
    have hpost : ¬hashed ({ c with id := b.commentIds.name } : Comment).postId := hc
    exact ⟨fun _ _ => Table.forall_insert hb hpost, hc⟩
  | update done =>
    obtain ⟨old, hold, rfl⟩ := CommentStore.update_ok done
    have hold := hb _ _ hold
    have hpost : ¬hashed { old with body := c.body, updatedAt := c.updatedAt : Comment }.postId := hold
    exact ⟨fun _ _ => Table.forall_insert hb hpost, hc⟩
  | delete done =>
    obtain ⟨old, -, rfl⟩ := CommentStore.delete_ok done
    exact ⟨fun _ _ => Table.forall_erase hb, hc⟩

end Mutation

namespace Link

structure Acted (b : Backend) (s : Session) (p : Part) (ms : List Hub.Message) : Prop where
  served : b.Served p.1.backend ms
  short : ms = [] ∨ ∃ msg, ms = [msg]
  asked : ∀ msg ∈ ms, msg.opened = [] ∧ ∀ c ∈ msg.channels, c.Proper
  posted : ∀ channel e now epoch, .publish channel e now epoch ∈ ms → ¬hashed channel.name
  carried : ∀ o ∈ p.1.out, ∀ x ∈ o.carried, ∃ channel, channel.Proper ∧ channel.name = x.1 ∧
    b.hub.admitted s.id channel = true
  posts : ∀ letter ∈ p.1.posts, ∀ c ∈ letter.message.channels, c.Proper
  session : ∀ s', p.1.session = some s' → s'.id = s.id
  publishing : p.1.backend.publishOutage = none
  plain : p.1.backend.Plain
  flight : ∀ f, p.2 = some f → ¬hashed f.comment.postId

variable {b : Backend} {s : Session} {m : Moment}

theorem acted_of_handled {step : Session.Step} {ms : List Hub.Message} (hb : b.Plain)
    (hp : b.publishOutage = none) (h : Session.Handled b s m step ms) : Acted b s (step, none) ms where
  served := h.served
  short := h.asked.imp id fun ⟨_, _, _, hms⟩ => ⟨_, hms⟩
  asked := by
    rcases h.asked with rfl | ⟨channel, recover, hproper, rfl⟩
    · exact fun _ hm => absurd hm List.not_mem_nil
    · intro msg hm
      obtain rfl := List.mem_singleton.mp hm
      refine ⟨rfl, fun c hc => ?_⟩
      obtain rfl := List.mem_singleton.mp hc
      exact hproper
  posted := by
    intro channel e now epoch hm
    rcases h.asked with rfl | ⟨channel', recover, -, rfl⟩
    · cases hm
    · cases List.mem_singleton.mp hm
  carried := fun o ho x hx => h.carried ho hx
  posts := fun letter hl => (h.posted hl).2
  session := fun s' hs => (h.session hs).1
  publishing := by
    obtain ⟨hub, epochs, he⟩ := h.kept
    rw [he]
    exact hp
  plain := by
    obtain ⟨hub, epochs, he⟩ := h.kept
    rw [he]
    exact hb
  flight := nofun

theorem acted_silent {b' : Backend} {s' : Session} {out : List Outbound} {flight : Option Flight}
    (hk : b'.hub = b.hub ∧ b'.epochs = b.epochs ∧ b'.outbox = b.outbox ∧
      b'.publishOutage = b.publishOutage) (hp : b.publishOutage = none) (hb : b'.Plain)
    (hs : s'.id = s.id) (hout : ∀ o ∈ out, o.carried = [])
    (hf : ∀ f, flight = some f → ¬hashed f.comment.postId) :
    Acted b s (⟨b', some s', out, []⟩, flight) [] where
  served := Backend.served_none hk.1 hk.2.1 hk.2.2.1
  short := .inl rfl
  asked := by simp
  posted := by simp
  carried := by
    intro o ho x hx
    rw [hout o ho] at hx
    cases hx
  posts := by simp
  session := by
    intro t ht
    cases ht
    exact hs
  publishing := hk.2.2.2.trans hp
  plain := hb
  flight := hf

theorem acted_refused {b' : Backend} {s' : Session} (hc : b.Calm b') (hp : b.publishOutage = none)
    (hb : b.Plain) (hs : s'.id = s.id) (id : Option Nat) (r : Rejection) :
    Acted b s (Session.refuse b' s' id r, none) [] :=
  acted_silent hc.kept hp (hc.plain hb) hs (by simp [Outbound.carried]) nofun

theorem receive_acted (secret : String) (hb : b.Plain) (hp : b.publishOutage = none) (f : Inbound) :
    Acted b s (receive secret b s f m)
      (asks b ⟨s, none⟩ (.frame f) m) := by
  unfold receive
  simp only [asks]
  cases hf : s.asksFor? f with
  | none => exact acted_of_handled hb hp (Session.handle_handled secret hf)
  | some x =>
    obtain ⟨id, channel, e⟩ := x
    rcases hr : b.perform (Mutation.prepare e ⟨s.identity.user, channel⟩ m) with ⟨g | ⟨request, c⟩, b'⟩
    · have hc := (Mutation.quiet_prepare e ⟨s.identity.user, channel⟩ m).calm hr
      simp only [hr]
      exact acted_refused hc hp hb (show (s.hear m).id = s.id from rfl) id g.rejection
    · have hc := (Mutation.quiet_prepare e ⟨s.identity.user, channel⟩ m).calm hr
      have hl := (Mutation.prepare_ok hr).2
      simp only [hr]
      refine acted_silent hc.kept hp (hc.plain hb) rfl (by simp) ?_
      intro f hf'
      cases hf'
      exact hl.plain hb (Session.asksFor?_parsed hf).1

theorem proceed_acted (hb : b.Plain) (hp : b.publishOutage = none) {flight : Flight}
    (hf : ¬hashed flight.comment.postId) :
    Acted b s (proceed b s flight m) (asks b ⟨s, some flight⟩ .proceed m) := by
  unfold proceed
  simp only [asks, hp, Option.isNone_none, and_true]
  split
  · rw [Mutation.perform_announce hp]
    exact
      { served := Backend.served_publish b _ _ m
        short := .inr ⟨_, rfl⟩
        asked := by
          intro msg hm
          obtain rfl := List.mem_singleton.mp hm
          refine ⟨rfl, fun c hc => ?_⟩
          obtain rfl := List.mem_singleton.mp hc
          exact hf
        posted := by
          intro channel e now epoch hm
          cases List.mem_singleton.mp hm
          exact hf
        carried := by
          intro o ho x hx
          obtain rfl := List.mem_singleton.mp ho
          cases hx
        posts := fun _ hl => absurd hl List.not_mem_nil
        session := by
          intro s' hs
          cases hs
          rfl
        publishing := hp
        plain := hb
        flight := fun _ hf' => by cases hf' }
  · rcases hr : b.perform (Mutation.store flight.request flight.comment) with ⟨g | c, b'⟩
    · exact acted_refused (Mutation.store_error hr) hp hb rfl flight.id g.rejection
    · have hs := Mutation.store_ok hr
      obtain ⟨hplain, hpost⟩ := hs.plain hb hf
      refine acted_silent hs.kept hp hplain rfl (by simp) ?_
      intro f hf'
      cases hf'
      exact hpost

theorem act_acted (secret : String) {link : Link} (hb : b.Plain) (hp : b.publishOutage = none)
    (hf : ∀ f, link.flight = some f → ¬hashed f.comment.postId) (a : Act) :
    Acted b link.session (act secret b link a m) (asks b link a m) := by
  obtain ⟨s, flight⟩ := link
  have hwait (flight : Option Flight) (hf : ∀ f, flight = some f → ¬hashed f.comment.postId) :
      Acted b s (⟨b, some s, [], []⟩, flight) [] :=
    acted_silent ⟨rfl, rfl, rfl, rfl⟩ hp hb rfl (by simp) hf
  cases flight with
  | none =>
    cases a with
    | frame f => exact receive_acted secret hb hp f
    | proceed => exact hwait none nofun
    | beat => exact acted_of_handled hb hp Session.heartbeat_handled
  | some flight =>
    cases a with
    | frame f => exact hwait _ hf
    | proceed => exact proceed_acted hb hp (hf flight rfl)
    | beat => exact hwait _ hf

end Link

namespace Live

structure Guarded (l : Live) (opened : List String) : Prop where
  delivered : l.backend.outbox = []
  publishing : l.backend.publishOutage = none
  plain : l.backend.Plain
  orderly : l.backend.hub.Orderly
  own : l.backend.hub.Private opened
  letters : ∀ letter ∈ l.mail, ∀ c ∈ letter.message.channels, c.Proper
  ids : ∀ id link, l.links.get? id = some link → link.session.id = id
  flights : ∀ id link f, l.links.get? id = some link → link.flight = some f →
    ¬hashed f.comment.postId

theorem Guarded.lettered {l : Live} {opened : List String} (hl : l.Guarded opened) :
    ∀ msg ∈ l.mail.map Hub.Letter.message, msg.opened = [] ∧ ∀ c ∈ msg.channels, c.Proper := by
  intro msg hm
  obtain ⟨letter, hletter, rfl⟩ := List.mem_map.mp hm
  exact ⟨letter.message_opened, hl.letters letter hletter⟩

theorem Guarded.attended {l : Live} {opened : List String} (hl : l.Guarded opened)
    (ms : List Hub.Message) : (l.attended ms).Guarded opened := by
  have hown : l.ahead.Private opened := by
    rw [ahead, ← Hub.run_messages]
    exact hl.own.run hl.orderly hl.lettered
  unfold Live.attended
  split
  · exact hl
  · exact { hl with orderly := hl.orderly.readAll _, own := hown, letters := nofun }

theorem Guarded.follow {l : Live} {opened opened' : List String} (hl : l.Guarded opened) {id : String}
    {p : Link.Part} (hp : p.1.backend.publishOutage = none) (hb : p.1.backend.Plain)
    (ho : p.1.backend.hub.Orderly) (hown : p.1.backend.hub.Private opened')
    (hposts : ∀ letter ∈ p.1.posts, ∀ c ∈ letter.message.channels, c.Proper)
    (hid : ∀ s, p.1.session = some s → s.id = id)
    (hf : ∀ f, p.2 = some f → ¬hashed f.comment.postId) : (l.follow id p).1.Guarded opened' := by
  have hflights : ∀ id link, l.links.get? id = some link →
      ∀ f, link.flight = some f → ¬hashed f.comment.postId := fun id link hg f => hl.flights id link f hg
  refine ⟨rfl, hp, hb, ho, hown, fun letter hm => ?_, fun id' link hg => ?_, fun id' link f hg => ?_⟩
  · rcases List.mem_append.mp hm with hm | hm
    · exact hl.letters letter hm
    · exact hposts letter hm
  · simp only [Live.follow] at hg
    cases hs : p.1.session with
    | some s => exact Table.forall_insert hl.ids (hid s hs) (hs ▸ hg)
    | none => exact Table.forall_erase hl.ids (hs ▸ hg)
  · simp only [Live.follow] at hg
    cases hs : p.1.session with
    | some s => exact Table.forall_insert hflights hf (hs ▸ hg) f
    | none => exact Table.forall_erase hflights (hs ▸ hg) f

theorem Guarded.acted {l : Live} {ids : List String} (hl : l.Guarded ids) {id : String} {link : Link}
    (hg : l.links.get? id = some link) (a : Link.Act) (m : Moment) :
    Link.Acted (l.attended (link.asks l.backend a m)).backend link.session (l.part link a m)
      (link.asks l.backend a m) := by
  have hatt := hl.attended (link.asks l.backend a m)
  have hacted := Link.act_acted l.secret (m := m) hatt.plain hatt.publishing
    (fun f => hl.flights id link f hg) a
  rw [attended_asks] at hacted
  exact hacted

theorem Guarded.step {l : Live} {ids : List String} (hl : l.Guarded ids) (i : Input)
    (hnew : ∀ s ∈ i.opened, s ∉ ids) : (l.step i).1.Guarded (ids ++ i.opened) := by
  have hatt := hl.attended (l.calls i)
  cases i with
  | start id identity m =>
    refine hatt.follow hatt.publishing hatt.plain (hatt.orderly.connect id identity.user)
      (hatt.own.connect hatt.orderly (hnew id (List.mem_singleton_self _)) identity.user) nofun ?_ nofun
    intro s hs
    cases hs
    rfl
  | act id a m =>
    rw [Input.opened, List.append_nil]
    cases hg : l.links.get? id with
    | none =>
      rw [step_act_absent hg]
      exact hl
    | some link =>
      have ha := hl.acted hg a m
      rw [calls, hg] at hatt
      have hms : ∀ msg ∈ link.asks l.backend a m, msg.opened = [] ∧ ∀ c ∈ msg.channels, c.Proper :=
        ha.asked
      rw [step_act hg]
      refine hatt.follow ha.publishing ha.plain ?_ ?_ ha.posts ?_ ha.flight
      · rw [ha.served.hub]
        exact hatt.orderly.run _
      · rw [ha.served.hub]
        exact hatt.own.run hatt.orderly hms
      · intro s hs
        rw [ha.session s hs, hl.ids id link hg]
  | push user e m =>
    rw [Input.opened, List.append_nil]
    exact { hatt with delivered := rfl, orderly := { hatt.orderly with }, own := { hatt.own with } }
  | read =>
    rw [Input.opened, List.append_nil]
    obtain ⟨backend, secret, links, mail⟩ := l
    cases mail with
    | nil => exact hl
    | cons letter mail =>
      obtain ⟨hopened, hproper⟩ := hl.lettered letter.message List.mem_cons_self
      have hown := hl.own.step hl.orderly letter.message hproper (by simp [hopened])
      rw [hopened, List.append_nil, Hub.step_message] at hown
      exact { hl with
        orderly := hl.orderly.read letter
        own := hown
        letters := fun letter' hm => hl.letters letter' (List.mem_cons_of_mem letter hm) }
  | sweep now =>
    rw [Input.opened, List.append_nil]
    exact { hl with orderly := { hl.orderly with }, own := { hl.own with } }
  | sources s =>
    rw [Input.opened, List.append_nil]
    exact { hl with }
  | outage o =>
    rw [Input.opened, List.append_nil]
    exact { hl with }

theorem mem_asks {l : Live} {i : Input} {msg : Hub.Message} (hm : msg ∈ l.asks i) :
    msg ∈ l.mail.map Hub.Letter.message ∨ msg ∈ l.calls i ∨ ∃ now, msg = .sweep now := by
  rcases List.mem_append.mp hm with hm | hm
  · obtain ⟨rest, hmail, -⟩ := l.step_mail i
    rw [hmail, List.map_append]
    exact .inl (List.mem_append_left _ hm)
  · right
    split at hm
    · exact .inr ⟨_, List.mem_singleton.mp hm⟩
    · exact .inl hm

theorem Guarded.asked {l : Live} {ids : List String} (hl : l.Guarded ids) {i : Input}
    {msg : Hub.Message} (hm : msg ∈ l.asks i) : ∀ c ∈ msg.channels, c.Proper := by
  rcases mem_asks hm with hm | hm | ⟨now, rfl⟩
  · exact (hl.lettered msg hm).2
  · cases i with
    | act id a m =>
      rw [calls] at hm
      cases hg : l.links.get? id with
      | none =>
        rw [hg] at hm
        cases hm
      | some link =>
        rw [hg] at hm
        exact ((hl.acted hg a m).asked msg hm).2
    | start id identity m =>
      intro c hc
      obtain rfl := List.mem_singleton.mp hm
      obtain rfl := List.mem_singleton.mp hc
      exact trivial
    | push user e m =>
      intro c hc
      obtain rfl := List.mem_singleton.mp hm
      obtain rfl := List.mem_singleton.mp hc
      exact trivial
    | _ => cases hm
  · exact fun c hc => absurd hc List.not_mem_nil

theorem Guarded.posted {l : Live} {ids : List String} (hl : l.Guarded ids) {i : Input}
    {channel : Channel} {e : Event} {now : Int} {epoch : String}
    (hm : .publish channel e now epoch ∈ l.asks i) (hh : hashed channel.name) :
    ∃ user m, i = .push user e m ∧ channel = .personal user := by
  rcases mem_asks hm with hm | hm | ⟨later, hm⟩
  · obtain ⟨letter, -, he⟩ := List.mem_map.mp hm
    cases letter <;> cases he
  · cases i with
    | push user e' m =>
      cases List.mem_singleton.mp hm
      exact ⟨user, m, rfl, rfl⟩
    | act id a m =>
      rw [calls] at hm
      cases hg : l.links.get? id with
      | none =>
        rw [hg] at hm
        cases hm
      | some link =>
        rw [hg] at hm
        exact absurd hh ((hl.acted hg a m).posted channel e now epoch hm)
    | start id identity m => cases List.mem_singleton.mp hm
    | _ => cases hm
  · cases hm

theorem sent_own {h : Hub} {ids : List String} (hp : h.Private ids) {ms : List Hub.Message}
    (hshort : ms = [] ∨ ∃ msg, ms = [msg]) {d : Delivery} (hd : d ∈ Hub.gather Hub.sent h ms)
    {x : String × Publication} (hx : x ∈ (Outbound.notice d.notice).carried) {u : Int}
    (hn : x.1 = (Channel.personal u).name) : h.sessions.get? d.session = some u := by
  rcases hshort with rfl | ⟨msg, rfl⟩
  · cases hd
  · rw [Hub.gather_singleton] at hd
    obtain ⟨n, p, hnotice, hown⟩ := hp.sent hd
    rw [hnotice] at hx
    obtain rfl := List.mem_singleton.mp hx
    exact hown u hn

theorem attended_known {l : Live} {ms : List Hub.Message} {id : String} {u : Int}
    (h : (l.attended ms).backend.hub.sessions.get? id = some u) :
    l.backend.hub.sessions.get? id = some u := by
  rcases l.attended_mail ms with ⟨-, hsame⟩ | ⟨-, -, hhub⟩
  · rwa [hsame] at h
  · rw [hhub] at h
    exact (Hub.readAll_sessions_some.mp h).2

theorem Guarded.confidential {l : Live} {ids : List String} (hl : l.Guarded ids) {i : Input}
    {o : String × Outbound} (ho : o ∈ (l.step i).2) {x : String × Publication}
    (hx : x ∈ o.2.carried) {u : Int} (hn : x.1 = (Channel.personal u).name) :
    l.backend.hub.sessions.get? o.1 = some u := by
  have hatt := hl.attended (l.calls i)
  cases i with
  | start id identity m =>
    rcases List.mem_append.mp ho with ho | ho
    · obtain ⟨f, hf, rfl⟩ := List.mem_map.mp ho
      obtain rfl := List.mem_singleton.mp hf
      cases hx
    · obtain ⟨d, hd, rfl⟩ := List.mem_map.mp ho
      have hout : d ∈ (l.attended (l.calls (.start id identity m))).backend.outbox :=
        (List.mem_filter.mp hd).1
      rw [hatt.delivered] at hout
      cases hout
  | act id a m =>
    cases hg : l.links.get? id with
    | none =>
      rw [step_act_absent hg] at ho
      cases ho
    | some link =>
      have ha := hl.acted hg a m
      rw [calls, hg] at hatt
      change (l.attended (link.asks l.backend a m)).Guarded ids at hatt
      rw [step_act hg] at ho
      refine @attended_known l (link.asks l.backend a m) o.1 u ?_
      rcases List.mem_append.mp ho with ho | ho
      · obtain ⟨f, hf, rfl⟩ := List.mem_map.mp ho
        obtain ⟨channel, hproper, hname, hadmitted⟩ := ha.carried f hf x hx
        rw [hl.ids id link hg] at hadmitted
        exact Hub.user_of_admitted hproper hadmitted (hname.trans hn)
      · obtain ⟨d, hd, rfl⟩ := List.mem_map.mp ho
        have hout : d ∈ (l.part link a m).1.backend.outbox := (List.mem_filter.mp hd).1
        rw [ha.served.sent, hatt.delivered, List.nil_append] at hout
        exact sent_own hatt.own ha.short hout hx hn
  | push user e m =>
    obtain ⟨d, hd, rfl⟩ := List.mem_map.mp ho
    have hs := Backend.served_publish (l.attended (l.calls (.push user e m))).backend
      (.personal user) e m
    have hout : d ∈ (Mutation.spread (l.attended (l.calls (.push user e m))).backend
        (.personal user) e m).outbox := (List.mem_filter.mp hd).1
    rw [hs.sent, hatt.delivered, List.nil_append] at hout
    exact attended_known (sent_own hatt.own (.inr ⟨_, rfl⟩) hout hx hn)
  | read =>
    obtain ⟨backend, secret, links, mail⟩ := l
    cases mail <;> cases ho
  | sweep now => cases ho
  | sources s => cases ho
  | outage o => cases ho

theorem Guarded.run {l : Live} {ids : List String} (hl : l.Guarded ids) {is : List Input}
    (hnew : (ids ++ opened is).Nodup) : (l.run is).Guarded (ids ++ opened is) ∧
      (l.run is).backend.hub = l.backend.hub.run (l.messages is) ∧
      ∀ msg ∈ l.messages is, ∀ c ∈ msg.channels, c.Proper := by
  induction is generalizing l ids with
  | nil =>
    rw [opened, List.flatMap_nil, List.append_nil]
    exact ⟨hl, rfl, by simp [messages]⟩
  | cons i is ih =>
    have hsplit : ids ++ opened (i :: is) = (ids ++ i.opened) ++ opened is := by
      simp [opened]
    rw [hsplit] at hnew ⊢
    have hfirst : ∀ s ∈ i.opened, s ∉ ids := fun s hs hmem =>
      (List.nodup_append.mp hnew.of_append_left).2.2 s hmem s hs rfl
    obtain ⟨hguarded, hhub', hproper'⟩ := ih (hl.step i hfirst) hnew
    refine ⟨hguarded, ?_, ?_⟩
    · rw [Live.messages, Hub.run_append, ← l.step_hub i]
      exact hhub'
    · intro msg hm
      rcases List.mem_append.mp hm with hm | hm
      · exact hl.asked hm
      · exact hproper' msg hm

def start (secret : String) (store : CommentStore) (sources : Sources) (bounds : HistoryBounds)
    (commentIds epochs : Supply) : Live :=
  ⟨{ Backend.start sources bounds commentIds epochs with store }, secret, {}, []⟩

theorem guarded_start {secret : String} {store : CommentStore} {sources : Sources}
    {bounds : HistoryBounds} {commentIds epochs : Supply}
    (hstore : ∀ id c, store.comments.get? id = some c → ¬hashed c.postId) :
    (start secret store sources bounds commentIds epochs).Guarded [] where
  delivered := rfl
  publishing := rfl
  plain := hstore
  orderly := Hub.orderly_start bounds
  own := Hub.private_start bounds
  letters := by simp [start]
  ids := by simp [start]
  flights := by simp [start]

theorem private_channels (secret : String) (store : CommentStore) (sources : Sources)
    (bounds : HistoryBounds) (commentIds epochs : Supply) (is : List Input) (i : Input)
    (hstore : ∀ id c, store.comments.get? id = some c → ¬hashed c.postId)
    (hfresh : (opened (is ++ [i])).Nodup) :
    let begun := start secret store sources bounds commentIds epochs
    let l := begun.run is
    (∀ o ∈ (l.step i).2, ∀ x ∈ o.2.carried, ∀ u, x.1 = (Channel.personal u).name →
      l.backend.hub.sessions.get? o.1 = some u) ∧
    (∀ channel e now epoch, .publish channel e now epoch ∈ l.asks i → hashed channel.name →
      ∃ u m, i = .push u e m ∧ channel = .personal u) ∧
    (l.step i).1.backend.hub = l.backend.hub.run (l.asks i) ∧
    (∀ n, l.backend.hub.keyed n →
      ∃! c, (∃ msg ∈ begun.messages is, c ∈ msg.channels) ∧ c.name = n) := by
  intro begun l
  have hpast : (opened is).Nodup := by
    rw [opened, List.flatMap_append] at hfresh
    exact hfresh.of_append_left
  obtain ⟨hl, hhub, hproper⟩ := (guarded_start hstore).run hpast
  refine ⟨?_, ?_, l.step_hub i, ?_⟩
  · intro o ho x hx u hn
    exact hl.confidential ho hx hn
  · intro channel e now epoch hm hh
    exact hl.posted hm hh
  · intro n hn
    rw [hhub] at hn
    -- Every key comes from a channel of some message, and proper channels share no name.
    obtain ⟨msg, hm, c, hc, hname⟩ := Hub.run_keyed bounds hn
    refine ⟨c, ⟨⟨msg, hm, hc⟩, hname⟩, ?_⟩
    rintro d ⟨⟨msg', hm', hd⟩, hname'⟩
    exact Channel.name_injective (hproper msg' hm' d hd) (hproper msg hm c hc) (hname'.trans hname.symm)

def twoUsers : List Input :=
  let frame (text : String) : Input := .act "t" (.frame (.text text)) ⟨0, 0⟩
  [.start "s" ⟨1, 60⟩ ⟨0, 0⟩, .start "t" ⟨2, 60⟩ ⟨0, 0⟩,
    frame "\x7b\"method\":\"subscribe\",\"channel\":\" #+1\"\x7d",
    frame "\x7b\"method\":\"subscribe\",\"channel\":\"P1\"\x7d",
    frame ("\x7b\"method\":\"publish\",\"channel\":\"P1\"," ++
      "\"data\":\x7b\"type\":\"create_comment\",\"payload\":\x7b\"body\":\"hi\"\x7d\x7d\x7d"),
    .act "t" .proceed ⟨0, 0⟩, .act "t" .proceed ⟨0, 0⟩]

theorem private_channels_of_two_users :
    let sources : Sources := { chain := [.ofUsers [⟨2, "Ada", "Byron", ""⟩]], patience := 0 }
    let l := (start "" {} sources ⟨2, 60000⟩ ⟨24, 0⟩ ⟨8, 0⟩).run twoUsers
    let sent := (l.step (.push 1 ⟨"a", .null, 0⟩ ⟨0, 0⟩)).2
    l.backend.store.comments.entries.map (·.2.postId) = ["P1"] ∧
      (l.backend.hub.membersOf "#1", l.backend.hub.membersOf "P1") = (["s"], ["t"]) ∧
      sent.map (fun o => (o.1, o.2.carried.map (·.1))) = [("s", ["#1"])] ∧
      ∀ o ∈ sent, l.backend.hub.sessions.get? o.1 = some 1 := by
  intro sources l sent
  have hprivate := private_channels "" {} sources ⟨2, 60000⟩ ⟨24, 0⟩ ⟨8, 0⟩ twoUsers
    (.push 1 ⟨"a", .null, 0⟩ ⟨0, 0⟩) (by simp) (by decide)
  have hsent : sent.map (fun o => (o.1, o.2.carried.map (·.1))) = [("s", ["#1"])] := by decide +kernel
  have hheard {ys : List (String × Outbound)}
      (h : ys.map (fun o => (o.1, o.2.carried.map (·.1))) = [("s", ["#1"])]) {o : String × Outbound}
      (ho : o ∈ ys) : ∃ x ∈ o.2.carried, x.1 = "#1" := by
    have hone := List.mem_map_of_mem (f := fun o => (o.1, o.2.carried.map (·.1))) ho
    rw [h, List.mem_singleton, Prod.mk.injEq] at hone
    exact List.mem_map.mp (hone.2 ▸ List.mem_singleton_self _)
  refine ⟨by decide +kernel, by decide +kernel, hsent, ?_⟩
  intro o ho
  obtain ⟨x, hx, hname⟩ := hheard hsent ho
  have hown := hprivate.1 o ho x hx 1 hname
  simp only [l]
  exact hown

end Live

end LiveComments
