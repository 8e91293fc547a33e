import LiveComments.Proofs.Overlap
import LiveComments.Proofs.User.Source

/-!
Who the author of a comment is: the user whose profile the sources answered when the comment was
written, which is the one who wrote it as long as no peer answers with the profile of another.
-/

namespace LiveComments

namespace Backend

variable {α β : Type}

def SameSources (b b' : Backend) : Prop := b'.sources = b.sources

def Consulted (user now : Int) (b b' : Backend) : Prop :=
  b'.sources = b.sources ∨ b'.sources = (b.sources.resolve user now).1

def SourcesKept (x : Action α) : Prop := ∀ b : Backend, SameSources b (b.perform x).2

def Consults (user now : Int) (x : Action α) : Prop :=
  ∀ b : Backend, Consulted user now b (b.perform x).2

theorem SourcesKept.consults {x : Action α} (hx : SourcesKept x) (user now : Int) :
    Consults user now x := fun b => .inl (hx b)

theorem SourcesKept.bind_consults {user now : Int} {x : Action α} {f : α → Action β}
    (hx : SourcesKept x) (hf : ∀ a, Consults user now (f a)) : Consults user now (x >>= f) := by
  refine bind_related (R := SameSources) (S := Consulted user now) (T := Consulted user now) ?_ ?_ hx hf
  · intro b b' h
    exact .inl h
  · intro b b' b'' h h'
    rwa [Consulted, show b'.sources = b.sources from h] at h'

theorem Consults.bind_kept {user now : Int} {x : Action α} {f : α → Action β}
    (hx : Consults user now x) (hf : ∀ a, SourcesKept (f a)) : Consults user now (x >>= f) := by
  refine bind_related (R := Consulted user now) (S := SameSources) (T := Consulted user now) ?_ ?_ hx hf
  · intro b b' h
    exact h
  · intro b b' b'' h h'
    rwa [Consulted, show b''.sources = b'.sources from h']

theorem sourcesKept_beforeCall (call : StoreCall) : SourcesKept (beforeCall call) := by
  intro b
  unfold beforeCall
  rw [perform_bind, perform_get]
  rcases ho : b.storeOutage with _ | ⟨c, f⟩
  · simp only [ho]
    rfl
  · simp only [ho]
    split
    · rfl
    · rfl

theorem closed_sourcesKept : Closed SourcesKept where
  pure := fun _ _ => rfl
  throw := fun _ _ => rfl
  bind := bind_related (R := SameSources) (S := SameSources) (T := SameSources) (fun _ _ => id)
    fun _ _ _ h h' => h'.trans h
  read := fun _ hf b => hf b b
  beforeCall := sourcesKept_beforeCall

theorem sourcesKept_store (request : Event.Request) (c : Comment) :
    SourcesKept (Mutation.store request c) := by
  apply Mutation.closed_store closed_sourcesKept
  · intro c
    exact closed_sourcesKept.bind (sourcesKept_beforeCall .create) fun _ b => rfl
  · intro s b
    rfl

theorem sourcesKept_announce (news : Event.News) (c : Comment) (m : Moment) :
    SourcesKept (Mutation.announce news c m) := by
  have hannounce (channel : Channel) (e : Event) : SourcesKept (announce channel e m) := by
    intro b
    unfold announce
    rw [perform_bind, perform_get]
    cases hp : b.publishOutage with
    | none =>
      simp only [hp]
      rfl
    | some f =>
      simp only [hp]
      rfl
  exact closed_sourcesKept.bind (hannounce _ _) fun _ => closed_sourcesKept.pure _

theorem consults_resolveUser (user : Int) (m : Moment) :
    Consults user m.steady (resolveUser user m) := by
  intro b
  rw [perform_resolveUser]
  exact .inr rfl

theorem consults_load (request : Event.Request) (payload : Json) (caller : Caller) (m : Moment) :
    Consults caller.user m.steady (Mutation.load request payload caller m) := by
  cases request with
  | create =>
    apply (closed_sourcesKept.ofExcept _).bind_consults
    intro r
    apply (closed_sourcesKept.ofExcept _).bind_consults
    intro post
    apply (closed_sourcesKept.ofExcept _).bind_consults
    intro _
    apply (closed_sourcesKept.ofExcept _).bind_consults
    intro _
    exact (consults_resolveUser caller.user m).bind_kept fun user => closed_sourcesKept.pure _
  | update =>
    apply SourcesKept.consults
    apply closed_sourcesKept.bind (closed_sourcesKept.ofExcept _)
    intro r
    apply closed_sourcesKept.bind (closed_sourcesKept.ofExcept _)
    intro _
    exact closed_sourcesKept.bind (closed_sourcesKept.loadOwned _ _) fun c => closed_sourcesKept.pure _
  | delete =>
    apply SourcesKept.consults
    exact closed_sourcesKept.bind (closed_sourcesKept.ofExcept _) fun r => closed_sourcesKept.loadOwned _ _

theorem consults_route (e : Event) (caller : Caller) (m : Moment) :
    Consults caller.user m.steady (Mutation.route e caller m) := by
  rw [Mutation.route_eq]
  have hprepare : Consults caller.user m.steady (Mutation.prepare e caller m) := by
    unfold Mutation.prepare
    split
    · exact SourcesKept.consults (closed_sourcesKept.throw _) _ _
    · exact (consults_load _ _ caller m).bind_kept fun c => closed_sourcesKept.pure _
  apply hprepare.bind_kept
  intro p
  exact closed_sourcesKept.bind (sourcesKept_store p.1 p.2) fun d => sourcesKept_announce p.1.news d m

theorem sourcesKept_answer (b : Backend) (r : Http.Request) (gate : Option String) (m : Moment) :
    (Http.answer b r gate m).1.sources = b.sources := by
  have hrun {a : Action Http.Answer} (ha : SourcesKept a) : (Http.run b a).1.sources = b.sources := by
    have hb := ha b
    unfold Http.run
    rcases hr : b.perform a with ⟨f | answer, b'⟩
    · rwa [hr] at hb
    · rwa [hr] at hb
  unfold Http.answer
  split
  · rfl
  · split
    · rfl
    · split
      · exact hrun (closed_sourcesKept.comment _)
      · split
        · rfl
        · exact hrun (closed_sourcesKept.comments _ _)
      · rfl
      · rfl
  · rfl

theorem Consults.keyed {user now : Int} {x : Action α} (hx : Consults user now x) {b : Backend}
    (hb : b.sources.Keyed) : (b.perform x).2.sources.Keyed := by
  rcases hx b with h | h
  · rwa [h]
  · rw [h]
    exact hb.resolve user now

theorem keyed_turn {b : Backend} (hb : b.sources.Keyed) (t : Turn) : (b.turn t).sources.Keyed := by
  cases t with
  | event e caller m => exact (consults_route e caller m).keyed hb
  | request r gate m =>
    change (Http.answer b r gate m).1.sources.Keyed
    rwa [sourcesKept_answer]
  | resolve user m => exact (consults_resolveUser user m).keyed hb
  | profile u => exact hb.update u
  | feed message => exact hb.handle message
  | settle now => exact hb
  | subscribe session channel recover m =>
    change (b.subscribe session channel recover m).1.sources.Keyed
    rw [subscribe_eq]
    split
    · exact hb
    · exact hb
  | outage o => exact hb
  | connect session user => exact hb
  | disconnect session => exact hb
  | unsubscribe session channel => exact hb
  | sweep now => exact hb

theorem keyed_moves {b : Backend} (hb : b.sources.Keyed) (ms : List Move) :
    (b.moves ms).sources.Keyed := by
  induction ms generalizing b with
  | nil => exact hb
  | cons mv ms ih =>
    apply ih
    cases mv with
    | turn t => exact keyed_turn hb t
    | store request c =>
      change (b.perform (Mutation.store request c)).2.sources.Keyed
      rwa [sourcesKept_store]
    | publish channel e m => exact hb

end Backend

namespace Overlap

open Backend

variable {b b' : Backend} {c : Comment}

theorem Copied.calm (hc : Copied b c) (h : b.Calm b') : Copied b' c := by
  obtain ⟨sources, outage, rfl⟩ := h
  exact ⟨hc.kept, hc.used⟩

theorem Copied.author (hc : Copied b c) {d : Comment} (hd : b.store.comments.get? c.id = some d) :
    d.user = c.user := by
  rw [hc.kept d hd]

theorem Copied.route (hc : Copied b c) (hb : b.Sound) (e : Event) (caller : Caller) (m : Moment) :
    Copied (b.perform (Mutation.route e caller m)).2 c := by
  rcases hr : b.perform (Mutation.route e caller m) with ⟨r, b'⟩
  rcases Mutation.route_cases hb.publishing hr with ⟨f, -, hcalm⟩ |
    ⟨request, x, d, b₁, b₂, -, -, hcalm, hs, -, rfl⟩
  · exact hc.calm hcalm
  · have hstored := (hc.calm hcalm).stored hs
    exact ⟨hstored.kept, hstored.used⟩

theorem Copied.turn (hc : Copied b c) (hb : b.Sound) (t : Turn) : Copied (b.turn t) c := by
  cases t with
  | event e caller m => exact hc.route hb e caller m
  | request r gate m => exact hc.calm (answer_calm b r gate m)
  | resolve user m => exact hc.calm (quiet_resolveUser user m b)
  | subscribe session channel recover m =>
    change Copied (b.subscribe session channel recover m).1 c
    rw [subscribe_eq]
    split
    · exact ⟨hc.kept, hc.used⟩
    · exact hc
  | profile u => exact ⟨hc.kept, hc.used⟩
  | feed message => exact ⟨hc.kept, hc.used⟩
  | settle now => exact ⟨hc.kept, hc.used⟩
  | outage o => exact ⟨hc.kept, hc.used⟩
  | connect session user => exact ⟨hc.kept, hc.used⟩
  | disconnect session => exact ⟨hc.kept, hc.used⟩
  | unsubscribe session channel => exact ⟨hc.kept, hc.used⟩
  | sweep now => exact ⟨hc.kept, hc.used⟩

theorem Copied.moves (hc : Copied b c) (hb : b.Sound) (ms : List Move) : Copied (b.moves ms) c := by
  induction ms generalizing b with
  | nil => exact hc
  | cons mv ms ih =>
    apply ih _ (hb.move mv)
    cases mv with
    | turn t => exact hc.turn hb t
    | store request x =>
      rcases hr : b.perform (Mutation.store request x) with ⟨f | d, b'⟩
      · change Copied (b.perform (Mutation.store request x)).2 c
        rw [hr]
        exact hc.calm (Mutation.store_error hr)
      · change Copied (b.perform (Mutation.store request x)).2 c
        rw [hr]
        exact hc.stored (Mutation.store_ok hr)
    | publish channel e m => exact ⟨hc.kept, hc.used⟩

theorem Copied.changed (hc : Copied b c) (hb : b.Sound) {e : Event} {caller : Caller} {m : Moment}
    (hne : (b.perform (Mutation.route e caller m)).2.store.comments.get? c.id ≠
      b.store.comments.get? c.id) : caller.user = c.user.id := by
  rcases hr : b.perform (Mutation.route e caller m) with ⟨r, b'⟩
  rw [hr] at hne
  rcases Mutation.route_cases hb.publishing hr with ⟨f, -, hcalm⟩ |
    ⟨request, x, d, b₁, b₂, -, hl, hcalm, hs, -, rfl⟩
  · exact absurd (congrArg (fun s => s.comments.get? c.id) hcalm.store) hne
  have htouched := hb.touched hl hcalm hs
  have hid : c.id = d.id := by
    by_contra h
    exact hne (htouched.others c.id h)
  cases hl with
  | create decoded target named written author =>
    cases hs with
    | create =>
      obtain ⟨sources, outage, rfl⟩ := hcalm
      exact absurd hid.symm (hc.used 0)
  | @update r old decoded written found owned =>
    cases hs with
    | update done =>
      have hget := CommentStore.get_ok found
      have hold : c.id = old.id := hid
      rw [← hb.store.keyed _ _ hget, ← hold] at hget
      rw [← owned, hc.author hget]
  | @delete r old decoded found owned =>
    cases hs with
    | delete done =>
      have hget := CommentStore.get_ok found
      rw [← hb.store.keyed _ _ hget, ← hid] at hget
      rw [← owned, hc.author hget]

end Overlap

namespace Backend

open Overlap

theorem Sound.created {b b' : Backend} (hb : b.Sound) {payload : Json} {time : Int} {caller : Caller}
    {m : Moment} {a : Announcement}
    (h : b.perform (Mutation.route ⟨Event.Request.create.kind, payload, time⟩ caller m) = (.ok a, b')) :
    ∃ c, (b.sources.resolve caller.user m.steady).2 = .ok c.user ∧ a.event.payload = c.toJson ∧
      CommentStore.Touched .create c b.store b'.store := by
  rcases Mutation.route_cases hb.publishing h with ⟨f, hf, -⟩ |
    ⟨request, x, d, b₁, b₂, hk, hl, hcalm, hs, ha, rfl⟩
  · cases hf
  obtain rfl : request = .create := (Option.some.inj hk).symm
  have htouched := hb.touched hl hcalm hs
  cases ha
  refine ⟨d, ?_, rfl, htouched⟩
  cases hl with
  | create decoded target named written author =>
    cases hs with
    | create => exact author

theorem author_is_the_user_answered (cached : List User) (directory : Peer) (policy : FallbackPolicy)
    (patience : Int) (bounds : HistoryBounds) (commentIds epochs : Supply) (before : List Move)
    (payload : Json) (time : Int) (u : Int) (channel : Channel) (m : Moment) :
    let sources : Sources := { chain := [.ofUsers cached, .peer directory], policy, patience }
    let b := (start sources bounds commentIds epochs).moves before
    let r := b.perform (Mutation.route ⟨Event.Request.create.kind, payload, time⟩ ⟨u, channel⟩ m)
    let asked := (b.sources.resolve u m.steady).2
    ((∀ p, .peer p ∈ b.sources.chain → ∀ profile, p.answer = .ok profile → profile.id = u) →
      ∀ profile, asked = .ok profile → profile.id = u) ∧
    (∀ id, r.2.sources.cached id ≠ b.sources.cached id →
      ∃ profile, asked = .ok profile ∧ profile.id = id) ∧
    ∀ a, r.1 = .ok a → ∃ c, asked = .ok c.user ∧ a.event.payload = c.toJson ∧
      CommentStore.Touched .create c b.store r.2.store ∧
      ∀ later, let b' := r.2.moves later
        (∀ d, b'.store.comments.get? c.id = some d → d.user = c.user ∧
          (b'.storeOutage = none → Text.isObjectId c.id = true →
            b'.perform (loadOwned c.id c.user.id) = (.ok d, b'))) ∧
        ∀ e caller m', (b'.perform (Mutation.route e caller m')).2.store.comments.get? c.id ≠
          b'.store.comments.get? c.id → caller.user = c.user.id := by
  intro sources b r asked
  have hb : b.Sound := (sound_start ..).moves before
  have hkeyed : b.sources.Keyed := by
    apply keyed_moves
    intro x hx
    rcases List.mem_cons.mp hx with rfl | hx
    · exact Source.keyed_ofUsers cached
    · obtain rfl := List.mem_singleton.mp hx
      exact trivial
  refine ⟨?_, ?_, ?_⟩
  · intro hpeers profile hasked
    rcases hkeyed.resolved hasked with hid | ⟨p, hp, ha⟩
    · exact hid
    · exact hpeers p hp profile ha
  · intro id hne
    rcases consults_route ⟨Event.Request.create.kind, payload, time⟩ ⟨u, channel⟩ m b with h | h
    · exact absurd (congrArg (fun s => s.cached id) h) hne
    · change (b.perform _).2.sources.cached id ≠ _ at hne
      rw [h] at hne
      exact Sources.cached_resolve hne
  · intro a ha
    obtain ⟨c, hasked, hpayload, htouched⟩ := hb.created (Prod.ext ha rfl)
    refine ⟨c, hasked, hpayload, htouched, ?_⟩
    intro later b'
    have hr : r.2.Sound := (hb.turn (.event _ _ m)).1
    have hc : Copied b' c := (copied_of_get hr htouched.own.2).2.moves hr later
    refine ⟨fun d hd => ⟨hc.author hd, fun ho hid => ?_⟩, fun e caller m' => hc.changed (hr.moves later)⟩
    have howned : Lifecycle.owned d c.user.id = .ok d := if_pos (congrArg User.id (hc.author hd))
    rw [perform_loadOwned ho, CommentStore.get_present hid hd]
    exact congrArg (·, b') howned

def mistaken : Peer := ⟨"directory", [.ok ⟨9, "Grace", "Hopper", ""⟩], false, .refused⟩

theorem mistaken_author :
    let b := start { chain := [.ofUsers [], .peer mistaken], patience := 1000 } ⟨2, 60000⟩ ⟨24, 0⟩ ⟨8, 0⟩
    let r := b.perform (Mutation.route ⟨"create_comment", .obj [("body", .str "hi")], 0⟩
      ⟨7, .post "P1"⟩ ⟨0, 0⟩)
    r.2.store.comments.entries.map (fun x => (x.1, x.2.user.id)) = [("000000000000000000000000", 9)] ∧
      (r.2.sources.cached 7, (r.2.sources.cached 9).map Option.isSome) = ([none], [true]) ∧
      (r.2.perform (loadOwned "000000000000000000000000" 7)).1.toOption = none := by
  decide +kernel

end Backend

end LiveComments
