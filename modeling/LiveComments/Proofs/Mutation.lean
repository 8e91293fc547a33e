import LiveComments.Mutation
import LiveComments.Proofs.Backend

namespace LiveComments.Mutation

def load (request : Event.Request) (payload : Json) (caller : Caller) (m : Moment) :
    Action Comment :=
  match request with
  | .create => do
    let r ← Backend.ofExcept (decode createRecord payload)
    let post ← Backend.ofExcept (targetPost caller.channel r.postId)
    Backend.ofExcept (Lifecycle.checkPost post)
    Backend.ofExcept (Lifecycle.checkBody r.body)
    let user ← Backend.resolveUser caller.user m
    return Lifecycle.draft post r.body user m.stamp.cutToMillis
  | .update => do
    let r ← Backend.ofExcept (decode updateRecord payload)
    Backend.ofExcept (Lifecycle.checkBody r.body)
    let c ← Backend.loadOwned r.commentId caller.user
    return Lifecycle.edited c r.body m.stamp.cutToMillis
  | .delete => do
    let r ← Backend.ofExcept (decode deleteRecord payload)
    Backend.loadOwned r.commentId caller.user

def store (request : Event.Request) (c : Comment) : Action Comment :=
  match request with
  | .create => Backend.insertComment c
  | .update => Backend.storeEdited c
  | .delete => do
    Backend.beforeCall .delete
    Backend.setStore (← Backend.ofExcept ((← get).store.delete c.id))
    return c

theorem change_eq (request : Event.Request) (payload : Json) (caller : Caller) (m : Moment) :
    change request payload caller m = load request payload caller m >>= store request := by
  cases request with
  | create => simp [change, load, store, Backend.createComment]
  | update => simp [change, load, store, Backend.updateComment]
  | delete =>
    rw [load, bind_assoc]
    rfl

inductive Loaded (b : Backend) (payload : Json) (caller : Caller) (m : Moment) :
    Event.Request → Comment → Prop
  | create {r : CreateRequest} {post : String} {user : User}
      (decoded : decode createRecord payload = .ok r)
      (target : targetPost caller.channel r.postId = .ok post)
      (named : Lifecycle.checkPost post = .ok ()) (written : Lifecycle.checkBody r.body = .ok ())
      (author : (b.sources.resolve caller.user m.steady).2 = .ok user) :
      Loaded b payload caller m .create (Lifecycle.draft post r.body user m.stamp.cutToMillis)
  | update {r : UpdateRequest} {c : Comment} (decoded : decode updateRecord payload = .ok r)
      (written : Lifecycle.checkBody r.body = .ok ()) (found : b.store.get r.commentId = .ok c)
      (owned : c.user.id = caller.user) :
      Loaded b payload caller m .update (Lifecycle.edited c r.body m.stamp.cutToMillis)
  | delete {r : DeleteRequest} {c : Comment} (decoded : decode deleteRecord payload = .ok r)
      (found : b.store.get r.commentId = .ok c) (owned : c.user.id = caller.user) :
      Loaded b payload caller m .delete c

open Backend

section

variable {P : {α : Type} → Action α → Prop} (h : Closed P)

include h

theorem closed_load (hresolve : ∀ id m, P (resolveUser id m)) (request : Event.Request) (payload : Json)
    (caller : Caller) (m : Moment) : P (load request payload caller m) := by
  cases request with
  | create =>
    apply h.bind (h.ofExcept _)
    intro r
    apply h.bind (h.ofExcept _)
    intro post
    apply h.bind (h.ofExcept _)
    intro _
    apply h.bind (h.ofExcept _)
    intro _
    exact h.bind (hresolve _ _) fun user => h.pure _
  | update =>
    apply h.bind (h.ofExcept _)
    intro r
    apply h.bind (h.ofExcept _)
    intro _
    exact h.bind (h.loadOwned _ _) fun c => h.pure _
  | delete => exact h.bind (h.ofExcept _) fun r => h.loadOwned _ _

theorem closed_store (hinsert : ∀ c, P (insertComment c)) (hset : ∀ s, P (setStore s))
    (request : Event.Request) (c : Comment) : P (store request c) := by
  have hchange (g : CommentStore → Except Fault CommentStore) :
      P (get >>= fun b => Backend.ofExcept (g b.store) >>= fun s => setStore s >>= fun _ => pure c) := by
    apply h.read
    · intro b b' hb
      rw [hb]
    · intro b
      apply h.bind (h.ofExcept _)
      intro s
      exact h.bind (hset s) fun _ => h.pure c
  cases request with
  | create => exact hinsert c
  | update => exact h.bind (h.beforeCall .update) fun _ => hchange (·.update c)
  | delete => exact h.bind (h.beforeCall .delete) fun _ => hchange (·.delete c.id)

end

theorem load_ok {b b' : Backend} {request : Event.Request} {payload : Json} {caller : Caller}
    {m : Moment} {c : Comment} (h : b.perform (load request payload caller m) = (.ok c, b')) :
    Loaded b payload caller m request c := by
  cases request with
  | create =>
    obtain ⟨r, hr, h⟩ := ofExcept_bind_ok h
    obtain ⟨post, hp, h⟩ := ofExcept_bind_ok h
    obtain ⟨⟨⟩, hn, h⟩ := ofExcept_bind_ok h
    obtain ⟨⟨⟩, hw, h⟩ := ofExcept_bind_ok h
    obtain ⟨user, _, hu, h⟩ := bind_ok h
    rw [perform_resolveUser, Prod.mk.injEq] at hu
    rw [perform_pure, Prod.mk.injEq, Except.ok.injEq] at h
    exact h.1 ▸ .create hr hp hn hw hu.1
  | update =>
    obtain ⟨r, hr, h⟩ := ofExcept_bind_ok h
    obtain ⟨⟨⟩, hw, h⟩ := ofExcept_bind_ok h
    obtain ⟨old, _, hl, h⟩ := bind_ok h
    obtain ⟨hf, ho⟩ := loadOwned_ok hl
    rw [perform_pure, Prod.mk.injEq, Except.ok.injEq] at h
    exact h.1 ▸ .update hr hw hf ho
  | delete =>
    obtain ⟨r, hr, h⟩ := ofExcept_bind_ok h
    obtain ⟨hf, ho⟩ := loadOwned_ok h
    exact .delete hr hf ho

def prepare (e : Event) (caller : Caller) (m : Moment) : Action (Event.Request × Comment) :=
  match Event.Request.ofKind? e.kind with
  | none => throw (.unsupportedEvent e.kind)
  | some request => do return (request, ← load request e.payload caller m)

theorem closed_prepare {P : {α : Type} → Action α → Prop} (h : Closed P)
    (hresolve : ∀ id m, P (resolveUser id m)) (e : Event) (caller : Caller) (m : Moment) :
    P (prepare e caller m) := by
  unfold prepare
  split
  · exact h.throw _
  · exact h.bind (closed_load h hresolve _ _ _ _) fun c => h.pure _

theorem quiet_prepare (e : Event) (caller : Caller) (m : Moment) : Quiet (prepare e caller m) :=
  closed_prepare closed_quiet quiet_resolveUser e caller m

theorem prepare_ok {b b' : Backend} {e : Event} {caller : Caller} {m : Moment}
    {request : Event.Request} {c : Comment}
    (h : b.perform (prepare e caller m) = (.ok (request, c), b')) :
    Event.Request.ofKind? e.kind = some request ∧ Loaded b e.payload caller m request c := by
  unfold prepare at h
  split at h
  · cases h
  · rename_i request' hk
    obtain ⟨d, _, hl, h⟩ := bind_ok h
    cases h
    exact ⟨hk, load_ok hl⟩

theorem route_eq (e : Event) (caller : Caller) (m : Moment) :
    route e caller m = prepare e caller m >>= fun p => store p.1 p.2 >>= fun d =>
      announce p.1.news d m := by
  unfold route prepare
  cases Event.Request.ofKind? e.kind with
  | none => rfl
  | some request => simp only [change_eq, bind_assoc, pure_bind]

inductive Stored (b : Backend) (c : Comment) : Event.Request → Comment → Backend → Prop
  | create : Stored b c .create { c with id := b.commentIds.name }
      { b with
        store := (b.store.create c b.commentIds.name).1
        commentIds := { b.commentIds with next := b.commentIds.next + 1 } }
  | update {s : CommentStore} (done : b.store.update c = .ok s) :
      Stored b c .update c { b with store := s }
  | delete {s : CommentStore} (done : b.store.delete c.id = .ok s) :
      Stored b c .delete c { b with store := s }

theorem Stored.kept {b b' : Backend} {c d : Comment} {request : Event.Request}
    (h : Stored b c request d b') : b'.hub = b.hub ∧ b'.epochs = b.epochs ∧ b'.outbox = b.outbox ∧
      b'.publishOutage = b.publishOutage := by
  cases h <;> exact ⟨rfl, rfl, rfl, rfl⟩

theorem store_ok {b b' : Backend} {request : Event.Request} {c d : Comment}
    (h : b.perform (store request c) = (.ok d, b')) : Stored b c request d b' := by
  cases request with
  | create =>
    obtain ⟨_, _, hcall, h⟩ := bind_ok h
    obtain rfl := beforeCall_ok hcall
    cases h
    exact .create
  | update =>
    obtain ⟨_, _, hcall, h⟩ := bind_ok h
    obtain rfl := beforeCall_ok hcall
    obtain ⟨_, _, hget, h⟩ := bind_ok h
    cases hget
    obtain ⟨s, hs, h⟩ := ofExcept_bind_ok h
    cases h
    exact .update hs
  | delete =>
    obtain ⟨_, _, hcall, h⟩ := bind_ok h
    obtain rfl := beforeCall_ok hcall
    obtain ⟨_, _, hget, h⟩ := bind_ok h
    cases hget
    obtain ⟨s, hs, h⟩ := ofExcept_bind_ok h
    cases h
    exact .delete hs

theorem swap_error (change : CommentStore → Except Fault CommentStore) {b b' : Backend} {c : Comment}
    {f : Fault} (h : b.perform (do
      Backend.setStore (← Backend.ofExcept (change (← get).store))
      return c) = (.error f, b')) : b = b' := by
  rw [perform_bind, perform_get] at h
  simp only [perform_bind, perform_ofExcept] at h
  cases hs : change b.store with
  | error e =>
    rw [hs] at h
    exact (Prod.mk.inj h).2
  | ok s =>
    rw [hs] at h
    cases h

theorem store_error {b b' : Backend} {request : Event.Request} {c : Comment} {f : Fault}
    (h : b.perform (store request c) = (.error f, b')) : b.Calm b' := by
  cases request with
  | create => exact beforeCall_error (fun h => by cases h) h
  | update => exact beforeCall_error (swap_error fun s => s.update c) h
  | delete => exact beforeCall_error (swap_error fun s => s.delete c.id) h

def event (news : Event.News) (c : Comment) (m : Moment) : Event :=
  ⟨news.kind, payload news c, m.stamp.seconds⟩

def spread (b : Backend) (channel : Channel) (e : Event) (m : Moment) : Backend :=
  let (hub, _, deliveries) := b.hub.publish channel e m.steady b.epochs.name
  { b with
    hub
    epochs := { b.epochs with next := b.epochs.next + 1 }
    outbox := b.outbox ++ deliveries }

theorem perform_announce {b : Backend} (hp : b.publishOutage = none) (news : Event.News) (c : Comment)
    (m : Moment) : b.perform (announce news c m) =
      (.ok ⟨.post c.postId, (b.hub.publish (.post c.postId) (event news c m) m.steady b.epochs.name).2.1,
        event news c m⟩, spread b (.post c.postId) (event news c m) m) := by
  unfold announce Backend.announce
  rw [perform_bind, perform_bind, perform_get]
  simp only [hp]
  rfl

theorem announce_cases {b b' : Backend} {news : Event.News} {c : Comment} {m : Moment}
    {r : Except Fault Announcement} (h : b.perform (announce news c m) = (r, b')) :
    (b.publishOutage.isNone = false ∧ b' = { b with publishOutage := none }) ∨
      (b.publishOutage.isNone = true ∧ b' = spread b (.post c.postId) (event news c m) m) := by
  cases hp : b.publishOutage with
  | none =>
    rw [perform_announce hp, Prod.mk.injEq] at h
    exact .inr ⟨rfl, h.2.symm⟩
  | some f =>
    unfold announce Backend.announce at h
    rw [perform_bind, perform_bind, perform_get] at h
    simp only [hp] at h
    cases h
    exact .inl ⟨rfl, rfl⟩

theorem route_cases {b b' : Backend} (hp : b.publishOutage = none) {e : Event} {caller : Caller}
    {m : Moment} {r : Except Fault Announcement} (h : b.perform (route e caller m) = (r, b')) :
    (∃ f, r = .error f ∧ b.Calm b') ∨
    ∃ request c d b₁ b₂, Event.Request.ofKind? e.kind = some request ∧
      Loaded b e.payload caller m request c ∧ b.Calm b₁ ∧ Stored b₁ c request d b₂ ∧
      r = .ok ⟨.post d.postId, (b₂.hub.publish (.post d.postId) (event request.news d m) m.steady
        b₂.epochs.name).2.1, event request.news d m⟩ ∧
      b' = spread b₂ (.post d.postId) (event request.news d m) m := by
  rw [route_eq] at h
  rcases hl : b.perform (prepare e caller m) with ⟨f | ⟨request, c⟩, b₁⟩
  · rw [bind_of_error hl, Prod.mk.injEq] at h
    exact .inl ⟨f, h.1.symm, h.2 ▸ (quiet_prepare e caller m).calm hl⟩
  have hcalm := (quiet_prepare e caller m).calm hl
  obtain ⟨hk, hloaded⟩ := prepare_ok hl
  rw [bind_of_ok hl] at h
  rcases hs : b₁.perform (store request c) with ⟨f | d, b₂⟩
  · rw [bind_of_error hs, Prod.mk.injEq] at h
    exact .inl ⟨f, h.1.symm, h.2 ▸ hcalm.trans (store_error hs)⟩
  have hstored := store_ok hs
  have hp₂ : b₂.publishOutage = none := by
    rw [hstored.kept.2.2.2, hcalm.kept.2.2.2, hp]
  rw [bind_of_ok hs, perform_announce hp₂, Prod.mk.injEq] at h
  exact .inr ⟨request, c, d, b₁, b₂, hk, hloaded, hcalm, hstored, h.1.symm, h.2.symm⟩

end LiveComments.Mutation
