import LiveComments.Http.Surface
import LiveComments.Proofs.Comment.Store
import LiveComments.Proofs.Hub.Run
import LiveComments.Proofs.Mutation
import LiveComments.User.Feed

namespace LiveComments.Backend

def start (sources : Sources) (bounds : HistoryBounds) (commentIds epochs : Supply) : Backend :=
  { sources, hub := .start bounds, commentIds, epochs }

inductive Turn where
  | event (e : Event) (caller : Caller) (m : Moment)
  | request (r : Http.Request) (gate : Option String) (m : Moment)
  | resolve (user : Int) (m : Moment)
  | profile (u : User)
  | feed (message : String)
  | settle (now : Int)
  | outage (o : Option (StoreCall × Fault))
  | connect (session : String) (user : Int)
  | disconnect (session : String)
  | subscribe (session : String) (channel : Channel) (recover : Option Position) (m : Moment)
  | unsubscribe (session : String) (channel : Channel)
  | sweep (now : Int)

def turn (b : Backend) : Turn → Backend
  | .event e caller m => (b.perform (Mutation.route e caller m)).2
  | .request r gate m => (Http.answer b r gate m).1
  | .resolve user m => (b.perform (resolveUser user m)).2
  | .profile u => { b with sources := (b.sources.update u).1 }
  | .feed message => { b with sources := (Feed.handle b.sources message).1 }
  | .settle now => { b with sources := b.sources.settle now }
  | .outage o => { b with storeOutage := o }
  | .connect session user => { b with hub := (b.hub.connect session user).1 }
  | .disconnect session => { b with hub := b.hub.disconnect session }
  | .subscribe session channel recover m => (b.subscribe session channel recover m).1
  | .unsubscribe session channel => { b with hub := b.hub.unsubscribe session channel }
  | .sweep now => { b with hub := b.hub.sweep now }

def run (b : Backend) (ts : List Turn) : Backend := ts.foldl turn b

def asks (b : Backend) : Turn → List Hub.Message
  | .event e caller m =>
    match (b.perform (Mutation.route e caller m)).1 with
    | .ok a => [.publish a.channel a.event m.steady b.epochs.name]
    | .error _ => []
  | .connect session user => [.connect session user]
  | .disconnect session => [.disconnect session]
  | .subscribe session channel recover m =>
    [.subscribe session channel recover m.steady b.epochs.name]
  | .unsubscribe session channel => [.unsubscribe session channel]
  | .sweep now => [.sweep now]
  | _ => []

def messages : Backend → List Turn → List Hub.Message
  | _, [] => []
  | b, t :: ts => b.asks t ++ messages (b.turn t) ts

theorem messages_append (b : Backend) (ts us : List Turn) :
    b.messages (ts ++ us) = b.messages ts ++ (b.run ts).messages us := by
  induction ts generalizing b with
  | nil => rfl
  | cons t ts ih =>
    rw [List.cons_append, messages, messages, ih, List.append_assoc]
    rfl

structure Sound (b : Backend) : Prop where
  store : b.store.Sound
  fresh : ∀ k, b.store.comments.get? (b.commentIds.ahead k) = none
  publishing : b.publishOutage = none

theorem sound_start (sources : Sources) (bounds : HistoryBounds) (commentIds epochs : Supply) :
    (start sources bounds commentIds epochs).Sound where
  store := CommentStore.sound_default
  fresh := fun _ => rfl
  publishing := rfl

theorem Calm.sound {b b' : Backend} (h : b.Calm b') (hb : b.Sound) : b'.Sound := by
  obtain ⟨s, o, rfl⟩ := h
  exact { hb with }

theorem Sound.change {b b₁ b₂ : Backend} (hb : b.Sound) {request : Event.Request} {payload : Json}
    {caller : Caller} {m : Moment} {c d : Comment}
    (hl : Mutation.Loaded b payload caller m request c) (hc : b.Calm b₁)
    (hs : Mutation.Stored b₁ c request d b₂) :
    CommentStore.Change request d b.store.comments b₂.store.comments ∧
      b₂.store.writes = b.store.writes + 1 := by
  obtain ⟨sources, outage, rfl⟩ := hc
  cases hs with
  | create => exact ⟨.create (hb.fresh 0), rfl⟩
  | update done =>
    obtain ⟨old, hold, rfl⟩ := CommentStore.update_ok done
    cases hl with
    | @update r c decoded written found owned =>
      -- The store writes two fields into its own copy, which is still the one that was loaded.
      have hget := CommentStore.get_ok found
      have hid : c.id = r.commentId := hb.store.keyed _ _ hget
      change b.store.comments.get? c.id = some old at hold
      have hsame : old = c := by
        rw [hid, hget] at hold
        exact (Option.some.inj hold).symm
      subst hsame
      exact ⟨.update hold rfl, rfl⟩
  | delete done =>
    obtain ⟨old, hold, rfl⟩ := CommentStore.delete_ok done
    cases hl with
    | delete decoded found owned =>
      have hget := CommentStore.get_ok found
      have hid := hb.store.keyed _ _ hget
      exact ⟨.delete (hid.symm ▸ hget), rfl⟩

theorem Sound.stored {b b₁ b₂ : Backend} (hb : b.Sound) {request : Event.Request} {c d : Comment}
    (hc : b.Calm b₁) (hs : Mutation.Stored b₁ c request d b₂)
    (hd : CommentStore.Change request d b.store.comments b₂.store.comments) : b₂.Sound := by
  have hsound := hd.sound hb.store
  obtain ⟨sources, outage, rfl⟩ := hc
  cases hs with
  | create =>
    refine ⟨hsound, fun k => ?_, hb.publishing⟩
    change Table.get? _ (Supply.ahead { b.commentIds with next := b.commentIds.next + 1 } k) = none
    -- The ids to come are now those after the one that was used.
    rw [← Supply.ahead_succ]
    apply hd.absent (hb.fresh (k + 1))
    intro _ h
    have := b.commentIds.ahead_injective (b.commentIds.ahead_zero.trans h)
    omega
  | update => exact ⟨hsound, fun k => hd.absent (hb.fresh k) nofun, hb.publishing⟩
  | delete => exact ⟨hsound, fun k => hd.absent (hb.fresh k) nofun, hb.publishing⟩

theorem Sound.event {b b' : Backend} (hb : b.Sound) {e : Event} {caller : Caller} {m : Moment}
    {r : Except Fault Announcement} (h : b.perform (Mutation.route e caller m) = (r, b')) :
    (∃ f, r = .error f ∧ b.Calm b') ∨
    ∃ request d b₂, Event.Request.ofKind? e.kind = some request ∧
      CommentStore.Change request d b.store.comments b₂.store.comments ∧
      b₂.store.writes = b.store.writes + 1 ∧ b₂.Sound ∧
      (b₂.hub = b.hub ∧ b₂.epochs = b.epochs ∧ b₂.outbox = b.outbox) ∧
      r = .ok ⟨.post d.postId, (b.hub.publish (.post d.postId) (Mutation.event request.news d m)
        m.steady b.epochs.name).2.1, Mutation.event request.news d m⟩ ∧
      b' = Mutation.spread b₂ (.post d.postId) (Mutation.event request.news d m) m := by
  rcases Mutation.route_cases hb.publishing h with hf |
    ⟨request, c, d, b₁, b₂, hk, hl, hc, hs, hr, hb'⟩
  · exact .inl hf
  obtain ⟨hchange, hwrites⟩ := hb.change hl hc hs
  have hsound := hb.stored hc hs hchange
  have hkept : b₂.hub = b.hub ∧ b₂.epochs = b.epochs ∧ b₂.outbox = b.outbox := by
    obtain ⟨hhub, hepochs, hout, -⟩ := hs.kept
    obtain ⟨hhub₁, hepochs₁, hout₁, -⟩ := hc.kept
    exact ⟨hhub.trans hhub₁, hepochs.trans hepochs₁, hout.trans hout₁⟩
  rw [hkept.1, hkept.2.1] at hr
  exact .inr ⟨request, d, b₂, hk, hchange, hwrites, hsound, hkept, hr, hb'⟩

theorem Quiet.run_calm {a : Action Http.Answer} (ha : Quiet a) (b : Backend) :
    b.Calm (Http.run b a).1 := by
  unfold Http.run
  rcases hr : b.perform a with ⟨f | answer, b'⟩ <;> exact ha.calm hr

theorem Closed.comment {P : {α : Type} → Action α → Prop} (h : Closed P) (id : String) :
    P (Http.comment id) := by
  unfold Http.comment
  split
  · apply h.bind (h.throw _)
    intro _
    exact h.bind (h.getComment id) fun c => h.pure _
  · exact h.bind (h.getComment id) fun c => h.pure _

theorem Closed.comments {P : {α : Type} → Action α → Prop} (h : Closed P) (postId : String)
    (q : Page.Query) : P (Http.comments postId q) := by
  apply h.bind (h.ofExcept _)
  intro page
  exact h.bind (h.listComments postId page) fun _ => h.pure _

theorem answer_calm (b : Backend) (r : Http.Request) (gate : Option String) (m : Moment) :
    b.Calm (Http.answer b r gate m).1 := by
  unfold Http.answer
  split
  · exact .refl b
  · split
    · exact .refl b
    · split
      · exact Quiet.run_calm (closed_quiet.comment _) b
      · split
        · exact .refl b
        · exact Quiet.run_calm (closed_quiet.comments _ _) b
      · exact .refl b
      · exact .refl b
  · exact .refl b

theorem subscribe_eq (b : Backend) (session : String) (channel : Channel) (recover : Option Position)
    (m : Moment) : (b.subscribe session channel recover m).1 =
      if b.hub.admitted session channel then
        { b with
          hub := b.hub.enter session channel recover m.steady b.epochs.name
          epochs := { b.epochs with next := b.epochs.next + 1 } }
      else b := by
  unfold subscribe
  rcases b.hub.subscribe_eq session channel recover m.steady b.epochs.name with ⟨ha, hs⟩ | ⟨ha, r, hs⟩
  · rw [if_pos ha, hs]
  · rw [hs, if_neg (by simp [ha])]

def Drawn (s s' : Supply) (names : List String) : Prop :=
  ∃ n, s' = ⟨s.width, s.next + n⟩ ∧ names.Sublist ((List.range n).map s.ahead)

theorem Drawn.none (s : Supply) : Drawn s s [] := ⟨0, rfl, .slnil⟩

theorem Drawn.one (s : Supply) {names : List String} (h : names.Sublist [s.name]) :
    Drawn s { s with next := s.next + 1 } names := ⟨1, rfl, h⟩

theorem Drawn.append {s s' s'' : Supply} {names names' : List String} (h : Drawn s s' names)
    (h' : Drawn s' s'' names') : Drawn s s'' (names ++ names') := by
  obtain ⟨n, rfl, hn⟩ := h
  obtain ⟨n', rfl, hn'⟩ := h'
  refine ⟨n + n', by rw [Nat.add_assoc], ?_⟩
  have hmap : (List.range n').map (Supply.ahead ⟨s.width, s.next + n⟩) =
      ((List.range n').map (n + ·)).map s.ahead := by
    rw [List.map_map]
    apply List.map_congr_left
    intro k _
    simp only [Supply.ahead, Function.comp, Nat.add_assoc]
  rw [List.range_add, List.map_append, ← hmap]
  exact hn.append hn'

theorem Drawn.nodup {s s' : Supply} {names : List String} (h : Drawn s s' names) : names.Nodup := by
  obtain ⟨n, -, hn⟩ := h
  exact ((List.nodup_range).map s.ahead_injective).sublist hn

theorem fresh_sublist (h : Hub) (channel epoch : String) :
    (h.fresh channel epoch).Sublist [epoch] := by
  unfold Hub.fresh
  split
  · exact List.nil_sublist _
  · exact List.Sublist.refl _

theorem turn_event {b b' : Backend} {e : Event} {caller : Caller} {m : Moment}
    {r : Except Fault Announcement} (h : b.perform (Mutation.route e caller m) = (r, b')) :
    b.turn (.event e caller m) = b' := by
  rw [turn, h]

theorem asks_announced {b b' : Backend} {e news : Event} {caller : Caller} {m : Moment}
    {channel : Channel} {offset : Nat}
    (h : b.perform (Mutation.route e caller m) = (.ok ⟨channel, offset, news⟩, b')) :
    b.asks (.event e caller m) = [.publish channel news m.steady b.epochs.name] := by
  rw [asks, h]

theorem asks_failed {b b' : Backend} {e : Event} {caller : Caller} {m : Moment} {f : Fault}
    (h : b.perform (Mutation.route e caller m) = (.error f, b')) :
    b.asks (.event e caller m) = [] := by
  rw [asks, h]

structure Served (b b' : Backend) (ms : List Hub.Message) : Prop where
  hub : b'.hub = b.hub.run ms
  drawn : Drawn b.epochs b'.epochs (Hub.gather Hub.drawn b.hub ms)
  sent : b'.outbox = b.outbox ++ Hub.gather Hub.sent b.hub ms

theorem served_none {b b' : Backend} (hhub : b'.hub = b.hub) (hepochs : b'.epochs = b.epochs)
    (hout : b'.outbox = b.outbox) : Served b b' [] :=
  ⟨hhub, hepochs ▸ .none _, hout.trans (List.append_nil _).symm⟩

theorem served_one {b b' : Backend} {m : Hub.Message} (hhub : b'.hub = b.hub.step m)
    (hepochs : b'.epochs = b.epochs) (hout : b'.outbox = b.outbox) (hsent : b.hub.sent m = [])
    (hdrawn : b.hub.drawn m = []) : Served b b' [m] := by
  refine ⟨hhub, ?_, ?_⟩
  · rw [Hub.gather_singleton, hdrawn, hepochs]
    exact .none _
  · rw [Hub.gather_singleton, hsent, hout, List.append_nil]

theorem Calm.served {b b' : Backend} (h : b.Calm b') : Served b b' [] := by
  obtain ⟨hhub, hepochs, hout, -⟩ := h.kept
  exact served_none hhub hepochs hout

theorem served_publish (b : Backend) (channel : Channel) (e : Event) (m : Moment) :
    Served b (Mutation.spread b channel e m) [.publish channel e m.steady b.epochs.name] where
  hub := rfl
  drawn := .one _ (Hub.gather_singleton _ _ _ ▸ fresh_sublist _ _ _)
  sent := by
    rw [Hub.gather_singleton]
    rfl

theorem served_subscribe (b : Backend) (session : String) (channel : Channel)
    (recover : Option Position) (m : Moment) :
    Served b (b.subscribe session channel recover m).1
      [.subscribe session channel recover m.steady b.epochs.name] := by
  refine ⟨?_, ?_, ?_⟩
  · rw [Hub.run_singleton, Hub.step_subscribe, subscribe_eq]
    split <;> rfl
  · rw [Hub.gather_singleton, Hub.drawn, subscribe_eq]
    split
    · exact .one _ (fresh_sublist _ _ _)
    · exact .none _
  · have hsent : b.hub.sent (.subscribe session channel recover m.steady b.epochs.name) = [] := rfl
    rw [Hub.gather_singleton, hsent, List.append_nil, subscribe_eq]
    split <;> rfl

theorem Served.append {b b' b'' : Backend} {ms ns : List Hub.Message} (h : Served b b' ms)
    (h' : Served b' b'' ns) : Served b b'' (ms ++ ns) where
  hub := by rw [Hub.run_append, ← h.hub, h'.hub]
  drawn := by
    rw [Hub.gather_append, ← h.hub]
    exact h.drawn.append h'.drawn
  sent := by rw [Hub.gather_append, ← h.hub, h'.sent, h.sent, List.append_assoc]

theorem subscribe_sound {b : Backend} (hb : b.Sound) (session : String) (channel : Channel)
    (recover : Option Position) (m : Moment) : (b.subscribe session channel recover m).1.Sound := by
  rw [subscribe_eq]
  split
  · exact { hb with }
  · exact hb

theorem Sound.turn {b : Backend} (hb : b.Sound) (t : Turn) :
    (b.turn t).Sound ∧ Served b (b.turn t) (b.asks t) := by
  cases t with
  | event e caller m =>
    rcases hr : b.perform (Mutation.route e caller m) with ⟨r, b'⟩
    rw [turn_event hr]
    rcases hb.event hr with ⟨f, rfl, hc⟩ |
      ⟨request, d, b₂, -, -, -, hsound, ⟨hhub, hepochs, hout⟩, rfl, rfl⟩
    · rw [asks_failed hr]
      exact ⟨hc.sound hb, hc.served⟩
    · rw [asks_announced hr]
      refine ⟨{ hsound with }, ?_⟩
      have hs := served_publish b₂ (.post d.postId) (Mutation.event request.news d m) m
      rw [hepochs] at hs
      exact (served_none hhub hepochs hout).append hs
  | request r gate m =>
    have hc := answer_calm b r gate m
    exact ⟨hc.sound hb, hc.served⟩
  | resolve user m =>
    have hc := quiet_resolveUser user m b
    exact ⟨hc.sound hb, hc.served⟩
  | profile u => exact ⟨{ hb with }, served_none rfl rfl rfl⟩
  | feed message => exact ⟨{ hb with }, served_none rfl rfl rfl⟩
  | settle now => exact ⟨{ hb with }, served_none rfl rfl rfl⟩
  | outage o => exact ⟨{ hb with }, served_none rfl rfl rfl⟩
  | connect session user => exact ⟨{ hb with }, served_one rfl rfl rfl rfl rfl⟩
  | disconnect session => exact ⟨{ hb with }, served_one rfl rfl rfl rfl rfl⟩
  | subscribe session channel recover m =>
    exact ⟨subscribe_sound hb session channel recover m, served_subscribe b session channel recover m⟩
  | unsubscribe session channel => exact ⟨{ hb with }, served_one rfl rfl rfl rfl rfl⟩
  | sweep now => exact ⟨{ hb with }, served_one rfl rfl rfl rfl rfl⟩

theorem Sound.run {b : Backend} (hb : b.Sound) (ts : List Turn) :
    (b.run ts).Sound ∧ Served b (b.run ts) (b.messages ts) := by
  induction ts generalizing b with
  | nil => exact ⟨hb, served_none rfl rfl rfl⟩
  | cons t ts ih =>
    obtain ⟨hsound, hserved⟩ := hb.turn t
    obtain ⟨hsound', hserved'⟩ := ih hsound
    exact ⟨hsound', hserved.append hserved'⟩

end LiveComments.Backend
