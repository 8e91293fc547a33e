import LiveComments.Proofs.Comment.Lifecycle
import LiveComments.Proofs.Turn

namespace LiveComments

theorem Event.Request.kind_of_ofKind? {kind : String} {request : Event.Request}
    (h : Event.Request.ofKind? kind = some request) : kind = request.kind := by
  unfold Event.Request.ofKind? at h
  split at h
  · cases h
    rfl
  · cases h
    rfl
  · cases h
    rfl
  · cases h

/-- One comment is inserted, changed or removed, and no other is touched. -/
structure CommentStore.Touched (request : Event.Request) (c : Comment) (s t : CommentStore) : Prop where
  counted : t.writes = s.writes + 1
  others : ∀ id, id ≠ c.id → t.comments.get? id = s.comments.get? id
  own : match request with
    | .create => s.comments.get? c.id = none ∧ t.comments.get? c.id = some c
    | .update => ∃ old, s.comments.get? c.id = some old ∧ old ≠ c ∧ t.comments.get? c.id = some c
    | .delete => s.comments.get? c.id = some c ∧ t.comments.get? c.id = none

namespace Backend

/-- One event is published: the ring of its channel takes it in under the offset, and every session
that is subscribed to the channel is sent it. -/
structure Published (b b' : Backend) (a : Announcement) (m : Moment) : Prop where
  sessions : b'.hub.sessions = b.hub.sessions
  members : b'.hub.members = b.hub.members
  others : ∀ n, n ≠ a.channel.name → b'.hub.rings.get? n = b.hub.rings.get? n
  recorded : ∃ r, b'.hub.rings.get? a.channel.name = some r ∧ r.top = a.offset ∧
    r.epoch = (b.hub.ring a.channel.name b.epochs.name).epoch ∧
    r.retained <:+ (b.hub.ring a.channel.name b.epochs.name).retained ++ [⟨a.offset, a.event⟩] ∧
    (0 < r.bounds.size → 0 < r.bounds.lifetime →
      r.entries.getLast? = some ⟨a.offset, a.event, m.steady⟩)
  sent : b'.outbox = b.outbox ++
    ((b.hub.membersOf a.channel.name).filter b.hub.sessions.contains).map
      (⟨·, .publication a.channel.name ⟨a.offset, a.event⟩⟩)

theorem published_spread {b b' : Backend} (channel : Channel) (e : Event) (m : Moment)
    (hhub : b'.hub = b.hub) (hepochs : b'.epochs = b.epochs) (hout : b'.outbox = b.outbox) :
    Published b (Mutation.spread b' channel e m)
      ⟨channel, (b.hub.publish channel e m.steady b.epochs.name).2.1, e⟩ m := by
  have hspread : (Mutation.spread b' channel e m).hub =
      (b.hub.publish channel e m.steady b.epochs.name).1 := by
    rw [← hhub, ← hepochs]
    rfl
  have hring := b.hub.publish_ring channel e m.steady b.epochs.name
  constructor
  · rw [hspread]
    rfl
  · rw [hspread]
    rfl
  · intro n hn
    rw [hspread, hring, if_neg (Ne.symm hn)]
  · refine ⟨(b.hub.ring channel.name b.epochs.name).push e m.steady, ?_, rfl, rfl, ?_, ?_⟩
    · rw [hspread, hring, if_pos rfl]
    · exact Ring.push_retained _ e m.steady
    · exact Ring.push_last (b.hub.ring channel.name b.epochs.name) e m.steady
  · rw [← hout, ← hhub, ← hepochs]
    rfl

/-- Events of many sessions are carried out at once, so that parts of some may come between those of
others: a store step may be about a comment that was loaded long ago. -/
inductive Move where
  | turn (t : Turn)
  | store (request : Event.Request) (c : Comment)
  | publish (channel : Channel) (e : Event) (m : Moment)

def move (b : Backend) : Move → Backend
  | .turn t => b.turn t
  | .store request c => (b.perform (Mutation.store request c)).2
  | .publish channel e m => (b.perform (publish channel e m)).2

def moves (b : Backend) (ms : List Move) : Backend := ms.foldl move b

theorem Sound.store_step {b b' : Backend} (hb : b.Sound) {request : Event.Request} {c d : Comment}
    (hs : Mutation.Stored b c request d b') : b'.Sound := by
  have hused {id : String} {old : Comment} (hold : b.store.comments.get? id = some old) (k : Nat) :
      id ≠ b.commentIds.ahead k := by
    rintro rfl
    rw [hb.fresh k] at hold
    cases hold
  cases hs with
  | create => exact hb.stored (.refl b) .create (.create (hb.fresh 0))
  | update done =>
    obtain ⟨old, hold, rfl⟩ := CommentStore.update_ok done
    have hid : old.id = c.id := hb.store.keyed _ _ hold
    constructor
    · rw [← hid]
      exact hb.store.insert { old with body := c.body, updatedAt := c.updatedAt } _
    · intro k
      change Table.get? (b.store.comments.insert c.id _) _ = none
      rw [Table.get?_insert, if_neg (hused hold k), hb.fresh k]
    · exact hb.publishing
  | delete done =>
    obtain ⟨old, hold, rfl⟩ := CommentStore.delete_ok done
    constructor
    · exact hb.store.erase _ _
    · intro k
      change Table.get? (b.store.comments.erase c.id) _ = none
      rw [Table.get?_erase, if_neg (hused hold k), hb.fresh k]
    · exact hb.publishing

theorem Sound.move {b : Backend} (hb : b.Sound) (mv : Move) : (b.move mv).Sound := by
  cases mv with
  | turn t => exact (hb.turn t).1
  | store request c =>
    rcases hr : b.perform (Mutation.store request c) with ⟨f | d, b'⟩
    · rw [Backend.move, hr]
      exact (Mutation.store_error hr).sound hb
    · rw [Backend.move, hr]
      exact hb.store_step (Mutation.store_ok hr)
  | publish channel e m => exact { hb with }

theorem Sound.moves {b : Backend} (hb : b.Sound) (ms : List Move) : (b.moves ms).Sound := by
  induction ms generalizing b with
  | nil => exact hb
  | cons mv ms ih => exact ih (hb.move mv)

theorem Sound.touched {b b₁ b₂ : Backend} (hb : b.Sound) {request : Event.Request} {payload : Json}
    {caller : Caller} {m : Moment} {c d : Comment}
    (hl : Mutation.Loaded b payload caller m request c) (hc : b.Calm b₁)
    (hs : Mutation.Stored b₁ c request d b₂) : CommentStore.Touched request d b.store b₂.store := by
  obtain ⟨hchange, hwrites⟩ := hb.change hl hc hs
  refine ⟨hwrites, fun id hid => hchange.get?_of_ne (Ne.symm hid), ?_⟩
  have hstored : request ≠ .create → d = c := by
    intro hne
    cases hs with
    | create => exact absurd rfl hne
    | update => rfl
    | delete => rfl
  generalize b₂.store.comments = after at hchange ⊢
  cases hchange with
  | create new => exact ⟨new, by rw [Table.get?_insert, if_pos rfl]⟩
  | update found post =>
    obtain rfl := hstored nofun
    refine ⟨_, found, ?_, by rw [Table.get?_insert, if_pos rfl]⟩
    cases hl with
    | @update r old decoded written loaded owned =>
      -- What is stored under the id is what was loaded: nothing came between.
      have hget := CommentStore.get_ok loaded
      have hid : old.id = r.commentId := hb.store.keyed _ _ hget
      change b.store.comments.get? old.id = _ at found
      rw [hid, hget, Option.some.injEq] at found
      rw [← found]
      exact (Lifecycle.edited_ne _ _ _).symm
  | delete found => exact ⟨found, by rw [Table.get?_erase, if_pos rfl]⟩

theorem route_all_or_nothing (sources : Sources) (bounds : HistoryBounds) (commentIds epochs : Supply)
    (before : List Move) (e : Event) (caller : Caller) (m : Moment) :
    let b := (start sources bounds commentIds epochs).moves before
    let b' := (b.perform (Mutation.route e caller m)).2
    match (b.perform (Mutation.route e caller m)).1 with
    | .error _ => b'.store = b.store ∧ b'.hub = b.hub ∧ b'.outbox = b.outbox
    | .ok a => ∃ request c, e.kind = request.kind ∧ CommentStore.Touched request c b.store b'.store ∧
        a.channel = .post c.postId ∧ a.event.kind = request.news.kind ∧
        a.event.payload = (if request = .delete then .obj [("id", .str c.id)] else c.toJson) ∧
        Published b b' a m := by
  intro b b'
  have hb : b.Sound := (sound_start sources bounds commentIds epochs).moves before
  rcases hr : b.perform (Mutation.route e caller m) with ⟨f | a, after⟩
  · have hafter : b' = after := congrArg Prod.snd hr
    rcases Mutation.route_cases hb.publishing hr with ⟨f', -, hc⟩ | ⟨_, _, _, _, _, -, -, -, -, h, -⟩
    · obtain ⟨hhub, -, hout, -⟩ := hc.kept
      rw [hafter]
      exact ⟨hc.store, hhub, hout⟩
    · cases h
  · have hafter : b' = after := congrArg Prod.snd hr
    rcases Mutation.route_cases hb.publishing hr with ⟨f', h, -⟩ |
      ⟨request, c, d, b₁, b₂, hk, hl, hc, hs, ha, hspread⟩
    · cases h
    obtain ⟨hhub, hepochs, hout, -⟩ := hs.kept
    obtain ⟨hhub₁, hepochs₁, hout₁, -⟩ := hc.kept
    have hhub := hhub.trans hhub₁
    have hepochs := hepochs.trans hepochs₁
    rw [hhub, hepochs, Except.ok.injEq] at ha
    subst ha
    have htouched := hb.touched hl hc hs
    rw [hafter, hspread]
    refine ⟨request, d, Event.Request.kind_of_ofKind? hk, htouched, rfl, rfl, ?_, ?_⟩
    · cases request <;> rfl
    · exact published_spread _ _ _ hhub hepochs (hout.trans hout₁)

end Backend

end LiveComments
