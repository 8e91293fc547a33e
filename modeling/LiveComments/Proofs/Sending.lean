import LiveComments.Proofs.Agreement

namespace LiveComments

namespace Backend

def Emits (b b' : Backend) : Prop :=
  ∃ ds, b'.outbox = b.outbox ++ ds ∧ ∀ d ∈ ds, ∃ n p, d.notice = .publication n p

variable {b b' : Backend}

theorem emits_none (h : b'.outbox = b.outbox) : b.Emits b' := ⟨[], by rw [h, List.append_nil], nofun⟩

theorem emits_spread (b : Backend) (channel : Channel) (e : Event) (m : Moment) :
    b.Emits (Mutation.spread b channel e m) := by
  refine ⟨_, rfl, ?_⟩
  intro d hd
  obtain ⟨session, -, rfl⟩ := List.mem_map.mp hd
  exact ⟨_, _, rfl⟩

theorem emits_announce {news : Event.News} {c : Comment} {m : Moment}
    {r : Except Fault Announcement} (h : b.perform (Mutation.announce news c m) = (r, b')) :
    b.Emits b' := by
  rcases Mutation.announce_cases h with ⟨-, rfl⟩ | ⟨-, rfl⟩
  · exact emits_none rfl
  · exact emits_spread b _ _ m

end Backend

namespace Link

variable {b : Backend} {s : Session} {m : Moment}

theorem emits_handled {step : Session.Step} {ms : List Hub.Message}
    (h : Session.Handled b s m step ms) : b.Emits step.backend := by
  obtain ⟨hub, epochs, hb⟩ := h.kept
  exact Backend.emits_none (by rw [hb])

theorem emits_receive (secret : String) (b : Backend) (s : Session) (f : Inbound) (m : Moment) :
    b.Emits (receive secret b s f m).1.backend := by
  unfold receive
  cases hf : s.asksFor? f with
  | none => exact emits_handled (Session.handle_handled secret hf)
  | some x =>
    obtain ⟨id, channel, e⟩ := x
    rcases hr : b.perform (Mutation.prepare e ⟨s.identity.user, channel⟩ m) with ⟨g | c, b'⟩
    · have hcalm := (Mutation.quiet_prepare e ⟨s.identity.user, channel⟩ m).calm hr
      simp only [hr]
      exact Backend.emits_none hcalm.kept.2.2.1
    · have hcalm := (Mutation.quiet_prepare e ⟨s.identity.user, channel⟩ m).calm hr
      simp only [hr]
      exact Backend.emits_none hcalm.kept.2.2.1

theorem emits_proceed (b : Backend) (s : Session) (flight : Flight) (m : Moment) :
    b.Emits (proceed b s flight m).1.backend := by
  unfold proceed
  split
  · rcases hr : b.perform (Mutation.announce flight.request.news flight.comment m) with ⟨g | a, b'⟩
    · exact Backend.emits_announce hr
    · exact Backend.emits_announce hr
  · rcases hr : b.perform (Mutation.store flight.request flight.comment) with ⟨g | c, b'⟩
    · exact Backend.emits_none (Mutation.store_error hr).kept.2.2.1
    · exact Backend.emits_none (Mutation.store_ok hr).kept.2.2.1

theorem emits_act (secret : String) (b : Backend) (link : Link) (a : Act) (m : Moment) :
    b.Emits (act secret b link a m).1.backend := by
  obtain ⟨s, flight⟩ := link
  cases flight with
  | none =>
    cases a with
    | frame f => exact emits_receive secret b s f m
    | proceed => exact Backend.emits_none rfl
    | beat => exact emits_handled Session.heartbeat_handled
  | some flight =>
    cases a with
    | frame f => exact Backend.emits_none rfl
    | proceed => exact emits_proceed b s flight m
    | beat => exact Backend.emits_none rfl

end Link

namespace Admission

structure Settled (o : Admission) : Prop where
  sound : o.Sound
  sent : o.live.backend.outbox = []

theorem settled_start (secret : String) (store : CommentStore) (sources : Sources)
    (bounds : HistoryBounds) (commentIds epochs sessionIds : Supply) :
    (start secret store sources bounds commentIds epochs sessionIds).Settled :=
  ⟨sound_start .., rfl⟩

variable {o : Admission}

theorem step_outbox {l : Live} (h : l.backend.outbox = []) (i : Live.Input) :
    (l.step i).1.backend.outbox = [] := by
  cases i with
  | act id a m =>
    cases hg : l.links.get? id with
    | none =>
      rw [Live.step_act_absent hg]
      exact h
    | some link =>
      rw [Live.step_act hg]
      rfl
  | read =>
    simp only [Live.step]
    split
    · exact h
    · exact h
  | start id identity m => rfl
  | push user e m => rfl
  | sweep now => exact h
  | sources s => exact h
  | outage f => exact h

theorem Settled.step (ho : o.Settled) (i : Input) : (o.step i).Settled := by
  refine ⟨ho.sound.step i, ?_⟩
  rw [step_live]
  cases o.enters i with
  | none => exact ho.sent
  | some j => exact step_outbox ho.sent j

theorem Settled.run (ho : o.Settled) (is : List Input) : (o.run is).Settled := by
  induction is generalizing o with
  | nil => exact ho
  | cons i is ih => exact ih (ho.step i)

def Heard (o : Admission) (ys : List (String × Outbound)) : Prop :=
  ∀ y ∈ ys, (∃ link, o.live.links.get? y.1 = some link) ∧ ∃ n p, y.2 = .notice (.publication n p)

theorem heard_handedOver {links : Table String Link} {ds : List Delivery}
    (hlinks : ∀ id link, links.get? id = some link → ∃ link', o.live.links.get? id = some link')
    (hd : ∀ d ∈ ds, ∃ n p, d.notice = .publication n p) : o.Heard (Live.handedOver links ds) := by
  intro y hy
  obtain ⟨d, hmem, rfl⟩ := List.mem_map.mp hy
  obtain ⟨hin, hlive⟩ := List.mem_filter.mp hmem
  obtain ⟨link, hlink⟩ := Table.contains_iff.mp hlive
  obtain ⟨n, p, hn⟩ := hd d hin
  exact ⟨hlinks _ _ hlink, n, p, congrArg Outbound.notice hn⟩

theorem sends_absent {id : String} (hg : o.live.links.get? id = none) (a : Link.Act) (m : Moment) :
    o.sends (.act id a m) = [] :=
  congrArg Prod.snd (Live.step_act_absent hg a m)

theorem step_absent {id : String} (hg : o.live.links.get? id = none) (a : Link.Act) (m : Moment) :
    o.step (.act id a m) = o := by
  change { o with live := (o.live.step (.act id a m)).1 } = o
  rw [Live.step_act_absent hg]

theorem Settled.sends_act (ho : o.Settled) {id : String} {link : Link}
    (hg : o.live.links.get? id = some link) (a : Link.Act) (m : Moment) :
    ∃ ys, o.sends (.act id a m) = (o.live.part link a m).1.out.map (id, ·) ++ ys ∧ o.Heard ys := by
  obtain ⟨hub, hb⟩ := o.live.attended_backend (link.asks o.live.backend a m)
  obtain ⟨ds, hout, hd⟩ := Link.emits_act o.live.secret
    (o.live.attended (link.asks o.live.backend a m)).backend link a m
  rw [hb, show Backend.outbox { o.live.backend with hub } = [] from ho.sent, List.nil_append, ← hb]
    at hout
  refine ⟨_, congrArg Prod.snd (Live.step_act hg a m), ?_⟩
  rw [show (o.live.part link a m).1.backend.outbox = ds from hout]
  refine heard_handedOver (fun j link' hj => ?_) hd
  -- The session itself is live before its part, whatever comes of it.
  change ((o.live.attended _).follow id (o.live.part link a m)).1.links.get? j = some link' at hj
  rw [Live.follow_links, Live.attended_links] at hj
  split at hj
  · rename_i he
    exact ⟨link, he ▸ hg⟩
  · exact ⟨link', hj⟩

theorem Settled.sends_arrive (ho : o.Settled) {token : String} {m : Moment} {identity : Identity}
    (hv : Token.verify o.live.secret token m.stamp.seconds = .ok identity) :
    o.sends (.arrive token m) = [(o.sessionIds.name, .notice (.connected o.sessionIds.name
      identity.user identity.expires (o.live.ahead.connect o.sessionIds.name identity.user).2))] := by
  have hsent : o.live.backend.outbox = [] := ho.sent
  rw [sends, enters_arrive hv]
  simp only [Option.elim_some, Live.step, Live.follow, Session.start, Session.tell, Live.calls,
    Live.attended, List.isEmpty_cons, Bool.false_eq_true, if_false, hsent]
  rfl

theorem Settled.sends_push (ho : o.Settled) (user : Int) (e : Event) (m : Moment) :
    o.Heard (o.sends (.push user e m)) := by
  obtain ⟨hub, hb⟩ := o.live.attended_backend (o.live.calls (.push user e m))
  obtain ⟨ds, hout, hd⟩ := Backend.emits_spread (o.live.attended (o.live.calls (.push user e m))).backend
    (.personal user) e m
  rw [hb, show Backend.outbox { o.live.backend with hub } = [] from ho.sent, List.nil_append, ← hb]
    at hout
  have hheard : o.Heard (Live.handedOver o.live.links ds) :=
    heard_handedOver (fun _ link hlink => ⟨link, hlink⟩) hd
  rw [← hout] at hheard
  exact hheard

theorem sends_read (o : Admission) : o.sends .read = [] := by
  change (o.live.step .read).2 = []
  simp only [Live.step]
  split <;> rfl

theorem Settled.sends_to (ho : o.Settled) {i : Input} {y : String × Outbound} (hy : y ∈ o.sends i) :
    (∃ link, o.live.links.get? y.1 = some link) ∨
      (∃ token m, i = .arrive token m) ∧ y.1 = o.sessionIds.name := by
  cases i with
  | arrive token m =>
    cases hv : Token.verify o.live.secret token m.stamp.seconds with
    | error f =>
      rw [sends, enters_refused hv] at hy
      cases hy
    | ok identity =>
      rw [ho.sends_arrive hv, List.mem_singleton] at hy
      exact .inr ⟨⟨token, m, rfl⟩, by rw [hy]⟩
  | act id a m =>
    cases hg : o.live.links.get? id with
    | none =>
      rw [sends_absent hg] at hy
      cases hy
    | some link =>
      obtain ⟨ys, hys, hheard⟩ := ho.sends_act hg a m
      rw [hys, List.mem_append] at hy
      rcases hy with hown | hother
      · obtain ⟨out, -, rfl⟩ := List.mem_map.mp hown
        exact .inl ⟨link, hg⟩
      · exact .inl (hheard y hother).1
  | push user e m => exact .inl (ho.sends_push user e m y hy).1
  | read =>
    rw [sends_read] at hy
    cases hy
  | sweep now => cases hy
  | sources s => cases hy
  | outage f => cases hy

def Spent (o : Admission) (id : String) : Prop := ∀ k, o.sessionIds.ahead k ≠ id

structure Over (o : Admission) (id : String) : Prop where
  absent : o.live.links.get? id = none
  spent : o.Spent id

theorem Sound.spent (ho : o.Sound) {id : String} {link : Link}
    (hg : o.live.links.get? id = some link) : o.Spent id := by
  intro k hk
  rw [← hk, ho.fresh k] at hg
  cases hg

theorem Spent.name_ne {id : String} (hs : o.Spent id) : o.sessionIds.name ≠ id := hs 0

theorem Spent.step {id : String} (hs : o.Spent id) (i : Input) : (o.step i).Spent id := by
  cases i with
  | arrive token m =>
    cases hv : Token.verify o.live.secret token m.stamp.seconds with
    | error f =>
      rw [step_refused hv]
      exact hs
    | ok identity =>
      rw [step_arrive hv]
      intro k
      change Supply.ahead { o.sessionIds with next := o.sessionIds.next + 1 } k ≠ id
      rw [← Supply.ahead_succ]
      exact hs (k + 1)
  | act j a m => exact hs
  | push user e m => exact hs
  | read => exact hs
  | sweep now => exact hs
  | sources s => exact hs
  | outage f => exact hs

theorem Spent.run {id : String} (hs : o.Spent id) (is : List Input) : (o.run is).Spent id := by
  induction is generalizing o with
  | nil => exact hs
  | cons i is ih => exact ih (hs.step i)

theorem read_links (o : Admission) : (o.step .read).live.links = o.live.links := by
  change (o.live.step .read).1.links = _
  simp only [Live.step]
  split <;> rfl

theorem arrive_links {token : String} {m : Moment} {identity : Identity}
    (hv : Token.verify o.live.secret token m.stamp.seconds = .ok identity) (j : String) :
    (o.step (.arrive token m)).live.links.get? j =
      if o.sessionIds.name = j then
        some ⟨⟨o.sessionIds.name, identity,
          (o.live.ahead.connect o.sessionIds.name identity.user).2, m.steady⟩, none⟩
      else o.live.links.get? j := by
  rw [step_arrive hv]
  exact Live.start_links ..

theorem Over.step {id : String} (ho : o.Over id) (i : Input) : (o.step i).Over id := by
  refine ⟨?_, ho.spent.step i⟩
  cases i with
  | arrive token m =>
    cases hv : Token.verify o.live.secret token m.stamp.seconds with
    | error f =>
      rw [step_refused hv]
      exact ho.absent
    | ok identity =>
      rw [arrive_links hv, if_neg ho.spent.name_ne]
      exact ho.absent
  | act j a m =>
    change (o.live.step (.act j a m)).1.links.get? id = none
    rw [Live.act_links]
    split
    · rename_i hj
      rw [hj, ho.absent]
      rfl
    · exact ho.absent
  | push user e m => exact ho.absent
  | read =>
    rw [read_links]
    exact ho.absent
  | sweep now => exact ho.absent
  | sources s => exact ho.absent
  | outage f => exact ho.absent

theorem Over.run {id : String} (ho : o.Over id) (is : List Input) : (o.run is).Over id := by
  induction is generalizing o with
  | nil => exact ho
  | cons i is ih => exact ih (ho.step i)

theorem Over.sends {id : String} (h : o.Over id) (ho : o.Settled) (i : Input) :
    ∀ y ∈ o.sends i, y.1 ≠ id := by
  rintro y hy rfl
  rcases ho.sends_to hy with ⟨link, hg⟩ | ⟨-, hname⟩
  · rw [h.absent] at hg
    cases hg
  · exact h.spent.name_ne hname.symm

end Admission

end LiveComments
