import LiveComments.Proofs.Routing

/-!
Requests on comments that overlap: each loads what it needs in one step and stores its change in a
later one, with any steps of others in between.
-/

namespace LiveComments

namespace Lifecycle

inductive Request where
  | create (post : String) (author : Int) (body : String)
  | update (id : String) (actor : Int) (body : String)
  | delete (id : String) (actor : Int)

inductive Pending where
  | insert (post body : String) (author : User)
  | edit (c : Comment) (body : String)
  | remove (c : Comment)

namespace Request

def actor : Request → Int
  | create _ author _ => author
  | update _ actor _ => actor
  | delete _ actor => actor

def load (m : Moment) : Request → Action Pending
  | create post author body => do
    Backend.ofExcept (checkPost post)
    Backend.ofExcept (checkBody body)
    return .insert post body (← Backend.resolveUser author m)
  | update id actor body => do
    Backend.ofExcept (checkBody body)
    return .edit (← Backend.loadOwned id actor) body
  | delete id actor => return .remove (← Backend.loadOwned id actor)

def reads : Request → Option String
  | create .. => none
  | update id _ body => if Text.blank body then none else some id
  | delete id _ => some id

def isChange : Request → Bool
  | create .. => false
  | update .. | delete .. => true

def pending : Request → Comment → Pending
  | update _ _ body, c => .edit c body
  | create .., c | delete .., c => .remove c

end Request

namespace Pending

def kind : Pending → Event.Request
  | insert .. => .create
  | edit .. => .update
  | remove _ => .delete

def comment (m : Moment) : Pending → Comment
  | insert post body author => draft post body author m.stamp.cutToMillis
  | edit c body => edited c body m.stamp.cutToMillis
  | remove c => c

def store (m : Moment) (p : Pending) : Action Comment := Mutation.store p.kind (p.comment m)

end Pending

inductive Progress where
  | waiting (r : Request) (p : Pending)
  | answered (r : Request) (answer : Except Fault Comment)

def Request.carryOut (m : Moment) : Request → Action Comment
  | create post author body => Backend.createComment post author body m
  | update id actor body => Backend.updateComment id actor body m
  | delete id actor => Backend.deleteComment id actor

theorem Request.carryOut_eq (r : Request) (m : Moment) :
    r.carryOut m = r.load m >>= Pending.store m := by
  cases r with
  | create post author body =>
    simp [carryOut, load, Backend.createComment, Pending.store, Pending.kind, Pending.comment,
      Mutation.store]
  | update id actor body =>
    simp [carryOut, load, Backend.updateComment, Pending.store, Pending.kind, Pending.comment,
      Mutation.store]
  | delete id actor =>
    simp [carryOut, load, Backend.deleteComment, Pending.store, Pending.kind, Pending.comment,
      Mutation.store]

inductive Refusal (s : CommentStore) : Request → Fault → Prop
  | blank {id body : String} {actor : Int} (h : Text.blank body = true) :
      Refusal s (.update id actor body) (.invalid "comment body cannot be empty")
  | unnamed {r : Request} {id : String} (hr : r.reads = some id) (hid : Text.isObjectId id = false) :
      Refusal s r (.invalidId id)
  | absent {r : Request} {id : String} (hr : r.reads = some id) (hid : Text.isObjectId id = true)
      (hnone : s.comments.get? id = none) : Refusal s r .commentNotFound
  | foreign {r : Request} {id : String} {c : Comment} (hr : r.reads = some id)
      (hid : Text.isObjectId id = true) (hsome : s.comments.get? id = some c)
      (hother : c.user.id ≠ r.actor) :
      Refusal s r (.forbidden "only the author can modify this comment")

end Lifecycle

/-- A backend and the requests on it, by number. -/
structure Overlap where
  backend : Backend
  requests : Table Nat Lifecycle.Progress := {}

namespace Overlap

open Lifecycle

inductive Step where
  | load (i : Nat) (r : Request) (m : Moment)
  | store (i : Nat) (m : Moment)
  | sources (s : Sources)

def loaded (r : Request) : Except Fault Pending → Progress
  | .ok p => .waiting r p
  | .error f => .answered r (.error f)

def step (o : Overlap) : Step → Overlap
  | .load i r m =>
    match o.requests.get? i with
    | some _ => o
    | none =>
      let (answer, b) := o.backend.perform (r.load m)
      ⟨b, o.requests.insert i (loaded r answer)⟩
  | .store i m =>
    match o.requests.get? i with
    | some (.waiting r p) =>
      let (answer, b) := o.backend.perform (p.store m)
      ⟨b, o.requests.insert i (.answered r answer)⟩
    | _ => o
  | .sources s => { o with backend := { o.backend with sources := s } }

def run (o : Overlap) (xs : List Step) : Overlap := xs.foldl step o

def comment? (o : Overlap) (id : String) : Option Comment := o.backend.store.comments.get? id

def start (sources : Sources) (bounds : HistoryBounds) (commentIds epochs : Supply) : Overlap :=
  ⟨.start sources bounds commentIds epochs, {}⟩

/-! ### Loading -/

section

variable {b : Backend} {r : Request} {id : String}

theorem refused_or_owned (s : CommentStore) (hr : r.isChange = true) : (∃ f, Refusal s r f) ∨
    ∃ id c, r.reads = some id ∧ Text.isObjectId id = true ∧ s.comments.get? id = some c ∧
      c.user.id = r.actor := by
  have hread {id : String} (hreads : r.reads = some id) : (∃ f, Refusal s r f) ∨
      ∃ id c, r.reads = some id ∧ Text.isObjectId id = true ∧ s.comments.get? id = some c ∧
        c.user.id = r.actor := by
    cases hid : Text.isObjectId id with
    | false => exact .inl ⟨_, .unnamed hreads hid⟩
    | true =>
      cases hc : s.comments.get? id with
      | none => exact .inl ⟨_, .absent hreads hid hc⟩
      | some c =>
        by_cases ha : c.user.id = r.actor
        · exact .inr ⟨id, c, hreads, hid, hc, ha⟩
        · exact .inl ⟨_, .foreign hreads hid hc ha⟩
  cases r with
  | create post author body => cases hr
  | update id actor body =>
    by_cases hblank : Text.blank body = true
    · exact .inl ⟨_, .blank hblank⟩
    · exact hread (if_neg hblank)
  | delete id actor => exact hread rfl

theorem perform_load_of_reads (ho : b.storeOutage = none) (hr : r.reads = some id) (m : Moment) :
    b.perform (r.load m) = ((b.store.get id >>= (owned · r.actor)).map r.pending, b) := by
  cases r with
  | create post author body => cases hr
  | update id' actor body =>
    simp only [Request.reads] at hr
    split at hr
    · cases hr
    · rename_i hblank
      cases hr
      have hbody : checkBody body = .ok () := by rw [checkBody, if_neg hblank]
      rw [Request.load, Backend.perform_bind, Backend.perform_ofExcept, hbody]
      simp only [Backend.perform_bind, Backend.perform_loadOwned ho, Request.actor]
      cases b.store.get id >>= (owned · actor) <;> rfl
  | delete id' actor =>
    cases hr
    simp only [Request.load, Backend.perform_bind, Backend.perform_loadOwned ho, Request.actor]
    cases b.store.get id >>= (owned · actor) <;> rfl

theorem perform_load_of_blank {body : String} (hblank : Text.blank body = true) (b : Backend)
    (id : String) (actor : Int) (m : Moment) :
    b.perform ((Request.update id actor body).load m) =
      (.error (.invalid "comment body cannot be empty"), b) := by
  rw [Request.load, Backend.perform_bind, Backend.perform_ofExcept, checkBody, if_pos hblank]

theorem perform_load_create (b : Backend) (post body : String) (author : Int) (m : Moment) :
    ∃ sources answer, b.perform ((Request.create post author body).load m) =
      (Except.map (Pending.insert post body) answer, { b with sources }) := by
  simp only [Request.load, Backend.perform_bind, Backend.perform_ofExcept,
    Backend.perform_resolveUser]
  cases checkPost post with
  | error f => exact ⟨b.sources, .error f, rfl⟩
  | ok u =>
    cases checkBody body with
    | error f => exact ⟨b.sources, .error f, rfl⟩
    | ok u =>
      dsimp only
      rcases b.sources.resolve author m.steady with ⟨sources, answer⟩
      refine ⟨sources, answer, ?_⟩
      cases answer with
      | error f => rfl
      | ok user => rfl

theorem perform_load_refused {f : Fault} (ho : b.storeOutage = none) (m : Moment)
    (hf : Refusal b.store r f) : b.perform (r.load m) = (.error f, b) := by
  cases hf with
  | blank hblank => exact perform_load_of_blank hblank b _ _ m
  | unnamed hr hid =>
    rw [perform_load_of_reads ho hr, CommentStore.get_unnamed b.store hid]
    rfl
  | absent hr hid hnone =>
    rw [perform_load_of_reads ho hr, CommentStore.get_absent hid hnone]
    rfl
  | @foreign _ id c hr hid hsome hother =>
    have howned : owned c r.actor = .error (.forbidden "only the author can modify this comment") :=
      if_neg hother
    rw [perform_load_of_reads ho hr, CommentStore.get_present hid hsome]
    exact congrArg (fun x => (Except.map r.pending x, b)) howned

theorem perform_load_owned {c : Comment} (ho : b.storeOutage = none) (hr : r.reads = some id)
    (hid : Text.isObjectId id = true) (hc : b.store.comments.get? id = some c)
    (ha : c.user.id = r.actor) (m : Moment) :
    b.perform (r.load m) = (.ok (r.pending c), b) := by
  have howned : owned c r.actor = .ok c := if_pos ha
  rw [perform_load_of_reads ho hr, CommentStore.get_present hid hc]
  exact congrArg (fun x => (Except.map r.pending x, b)) howned

end

/-! ### Storing -/

/-- What is stored under the id of a loaded comment is that comment but for what its author may
change; its id is not given to another. -/
structure Copied (b : Backend) (c : Comment) : Prop where
  kept : ∀ d, b.store.comments.get? c.id = some d →
    d = { c with body := d.body, updatedAt := d.updatedAt }
  used : ∀ k, b.commentIds.ahead k ≠ c.id

section

variable {b b' : Backend} {request : Event.Request} {x d : Comment}

theorem copied_of_get (hb : b.Sound) {id : String} {c : Comment}
    (hc : b.store.comments.get? id = some c) : c.id = id ∧ Copied b c := by
  have hid := hb.store.keyed id c hc
  refine ⟨hid, fun d hd => ?_, fun k hk => ?_⟩
  · rw [hid, hc, Option.some.injEq] at hd
    rw [hd]
  · have hfresh := hb.fresh k
    rw [hk, hid, hc] at hfresh
    cases hfresh

theorem Copied.stored {c : Comment} (hc : Copied b c) (hs : Mutation.Stored b x request d b') :
    Copied b' c := by
  cases hs with
  | create =>
    have hne : b.commentIds.name ≠ c.id := hc.used 0
    refine ⟨fun d hd => ?_, fun k => ?_⟩
    · change Table.get? (b.store.comments.insert b.commentIds.name _) c.id = some d at hd
      rw [Table.get?_insert, if_neg hne] at hd
      exact hc.kept d hd
    · change Supply.ahead { b.commentIds with next := b.commentIds.next + 1 } k ≠ c.id
      rw [← Supply.ahead_succ]
      exact hc.used (k + 1)
  | update done =>
    obtain ⟨old, hold, rfl⟩ := CommentStore.update_ok done
    refine ⟨fun d hd => ?_, hc.used⟩
    change Table.get? (b.store.comments.insert x.id _) c.id = some d at hd
    rw [Table.get?_insert] at hd
    split at hd
    · rename_i hid
      cases hd
      have hkept := hc.kept old (hid ▸ hold)
      rw [hkept]
    · exact hc.kept d hd
  | delete done =>
    obtain ⟨old, -, rfl⟩ := CommentStore.delete_ok done
    refine ⟨fun d hd => ?_, hc.used⟩
    change Table.get? (b.store.comments.erase x.id) c.id = some d at hd
    rw [Table.get?_erase] at hd
    split at hd
    · cases hd
    · exact hc.kept d hd

theorem stored_changed (hb : b.Sound) (hs : Mutation.Stored b x request d b') {id : String}
    {c : Comment} (hc : b.store.comments.get? id = some c)
    (hne : b'.store.comments.get? id ≠ some c) :
    x.id = id ∧ ((request = .update ∧ b'.store.comments.get? id =
        some { c with body := x.body, updatedAt := x.updatedAt }) ∨
      (request = .delete ∧ b'.store.comments.get? id = none)) := by
  cases hs with
  | create =>
    have hname : b.commentIds.name ≠ id := by
      rintro rfl
      have hfresh := hb.fresh 0
      rw [Supply.ahead_zero, hc] at hfresh
      cases hfresh
    exact absurd ((Table.get?_insert _ _ _ _).trans ((if_neg hname).trans hc)) hne
  | update done =>
    obtain ⟨old, hold, rfl⟩ := CommentStore.update_ok done
    by_cases hid : x.id = id
    · rw [hid, hc, Option.some.injEq] at hold
      subst hold
      exact ⟨hid, .inl ⟨rfl, (Table.get?_insert _ _ _ _).trans (if_pos hid)⟩⟩
    · exact absurd ((Table.get?_insert _ _ _ _).trans ((if_neg hid).trans hc)) hne
  | delete done =>
    obtain ⟨old, hold, rfl⟩ := CommentStore.delete_ok done
    by_cases hid : x.id = id
    · exact ⟨hid, .inr ⟨rfl, (Table.get?_erase _ _ _).trans (if_pos hid)⟩⟩
    · exact absurd ((Table.get?_erase _ _ _).trans ((if_neg hid).trans hc)) hne

theorem stored_outage (hs : Mutation.Stored b x request d b') : b'.storeOutage = b.storeOutage := by
  cases hs with
  | create => rfl
  | update => rfl
  | delete => rfl

theorem store_failed {f : Fault} (ho : b.storeOutage = none)
    (h : b.perform (Mutation.store request x) = (.error f, b')) : b' = b := by
  have hcall := Backend.perform_beforeCall ho
  cases request with
  | create =>
    rw [Mutation.store, Backend.insertComment, Backend.bind_of_ok (hcall .create)] at h
    cases h
  | update =>
    rw [Mutation.store, Backend.storeEdited, Backend.bind_of_ok (hcall .update)] at h
    exact (Mutation.swap_error (fun s => s.update x) h).symm
  | delete =>
    rw [Mutation.store, Backend.bind_of_ok (hcall .delete)] at h
    exact (Mutation.swap_error (fun s => s.delete x.id) h).symm

end

/-! ### Steps -/

inductive Waits (b : Backend) : Request → Pending → Prop
  | insert {post body : String} {author : Int} {user : User} :
      Waits b (.create post author body) (.insert post body user)
  | edit {c : Comment} {body : String} (copied : Copied b c) :
      Waits b (.update c.id c.user.id body) (.edit c body)
  | remove {c : Comment} (copied : Copied b c) : Waits b (.delete c.id c.user.id) (.remove c)

theorem Waits.mono {b b' : Backend} {r : Request} {p : Pending} (hw : Waits b r p)
    (hcopied : ∀ c, Copied b c → Copied b' c) : Waits b' r p := by
  cases hw with
  | insert => exact .insert
  | edit copied => exact .edit (hcopied _ copied)
  | remove copied => exact .remove (hcopied _ copied)

theorem waits_pending {b : Backend} {r : Request} {c : Comment} (hr : r.reads = some c.id)
    (ha : c.user.id = r.actor) (hc : Copied b c) : Waits b r (r.pending c) := by
  cases r with
  | create post author body => cases hr
  | update id actor body =>
    simp only [Request.reads] at hr
    split at hr
    · cases hr
    · cases hr
      cases ha
      exact .edit hc
  | delete id actor =>
    cases hr
    cases ha
    exact .remove hc

theorem perform_load {b : Backend} (hb : b.Sound) (ho : b.storeOutage = none) (r : Request)
    (m : Moment) : ∃ sources answer, b.perform (r.load m) = (answer, { b with sources }) ∧
      ∀ p, answer = .ok p → Waits b r p := by
  cases hr : r.isChange with
  | false =>
    cases r with
    | create post author body =>
      obtain ⟨sources, answer, h⟩ := perform_load_create b post body author m
      refine ⟨sources, _, h, ?_⟩
      rintro p hp
      cases answer with
      | error f => cases hp
      | ok user =>
        cases hp
        exact .insert
    | update id actor body => cases hr
    | delete id actor => cases hr
  | true =>
    rcases refused_or_owned b.store hr with ⟨f, hf⟩ | ⟨id, c, hreads, hid, hc, ha⟩
    · rw [perform_load_refused ho m hf]
      exact ⟨b.sources, .error f, rfl, nofun⟩
    · rw [perform_load_owned ho hreads hid hc ha]
      refine ⟨b.sources, .ok (r.pending c), rfl, ?_⟩
      rintro p ⟨⟩
      obtain ⟨rfl, hcopied⟩ := copied_of_get hb hc
      exact waits_pending hreads ha hcopied

def Kept (b : Backend) : Progress → Prop
  | .waiting r p => Waits b r p
  | .answered .. => True

theorem Kept.mono {b b' : Backend} {w : Progress} (hw : Kept b w)
    (hcopied : ∀ c, Copied b c → Copied b' c) : Kept b' w := by
  cases w with
  | waiting r p => exact Waits.mono hw hcopied
  | answered r answer => exact trivial

structure Sound (o : Overlap) : Prop where
  backend : o.backend.Sound
  working : o.backend.storeOutage = none
  requests : ∀ i w, o.requests.get? i = some w → Kept o.backend w

theorem sound_start (sources : Sources) (bounds : HistoryBounds) (commentIds epochs : Supply) :
    (start sources bounds commentIds epochs).Sound where
  backend := Backend.sound_start sources bounds commentIds epochs
  working := rfl
  requests := by simp [start]

variable {o : Overlap}

theorem Sound.step_load (ho : o.Sound) (i : Nat) (r : Request) (m : Moment) :
    (o.step (.load i r m)).Sound ∧ (o.step (.load i r m)).backend.store = o.backend.store := by
  simp only [step]
  cases hg : o.requests.get? i with
  | some w => exact ⟨ho, rfl⟩
  | none =>
    obtain ⟨sources, answer, hp, hw⟩ := perform_load ho.backend ho.working r m
    simp only [hp]
    have hcopied (c : Comment) (hc : Copied o.backend c) : Copied { o.backend with sources } c :=
      ⟨hc.kept, hc.used⟩
    refine ⟨⟨{ ho.backend with }, ho.working, fun j w => ?_⟩, trivial⟩
    apply Table.forall_insert fun j w hj => (ho.requests j w hj).mono hcopied
    cases answer with
    | error f => exact trivial
    | ok p => exact (hw p rfl).mono hcopied

theorem step_store_waiting {i : Nat} {r : Request} {p : Pending} {m : Moment} {b : Backend}
    {answer : Except Fault Comment} (hw : o.requests.get? i = some (.waiting r p))
    (hr : o.backend.perform (p.store m) = (answer, b)) :
    o.step (.store i m) = ⟨b, o.requests.insert i (.answered r answer)⟩ := by
  simp only [step, hw, hr]

theorem step_store_idle {i : Nat} (hw : ∀ r p, o.requests.get? i ≠ some (.waiting r p)) (m : Moment) :
    o.step (.store i m) = o := by
  simp only [step]

theorem Sound.step_store (ho : o.Sound) (i : Nat) (m : Moment) : (o.step (.store i m)).Sound := by
  by_cases hw : ∃ r p, o.requests.get? i = some (.waiting r p)
  · obtain ⟨r, p, hw⟩ := hw
    rcases hr : o.backend.perform (p.store m) with ⟨f | d, b⟩
    · obtain rfl := store_failed ho.working hr
      rw [step_store_waiting hw hr]
      refine ⟨ho.backend, ho.working, fun j w => ?_⟩
      apply Table.forall_insert ho.requests
      exact trivial
    · have hs := Mutation.store_ok hr
      rw [step_store_waiting hw hr]
      refine ⟨ho.backend.store_step hs, (stored_outage hs).trans ho.working, fun j w => ?_⟩
      apply Table.forall_insert fun j w hj => (ho.requests j w hj).mono fun c hc => hc.stored hs
      exact trivial
  · rw [step_store_idle (by simpa using hw)]
    exact ho

theorem Sound.step (ho : o.Sound) (x : Step) : (o.step x).Sound := by
  cases x with
  | load i r m => exact (ho.step_load i r m).1
  | store i m => exact ho.step_store i m
  | sources s =>
    refine ⟨{ ho.backend with }, ho.working, fun j w hj => ?_⟩
    exact (ho.requests j w hj).mono fun c hc => ⟨hc.kept, hc.used⟩

theorem Sound.run (ho : o.Sound) (xs : List Step) : (o.run xs).Sound := by
  induction xs generalizing o with
  | nil => exact ho
  | cons x xs ih => exact ih (ho.step x)

/-! ### Who changes what -/

theorem Sound.changed (ho : o.Sound) {x : Step} {id : String} {c : Comment}
    (hc : o.comment? id = some c) (hne : (o.step x).comment? id ≠ some c) :
    ∃ i r p m, x = .store i m ∧ o.requests.get? i = some (.waiting r p) ∧ r.actor = c.user.id ∧
      ((∃ body updatedAt, r = .update id r.actor body ∧
          (o.step x).comment? id = some { c with body, updatedAt }) ∨
        (r = .delete id r.actor ∧ (o.step x).comment? id = none)) := by
  cases x with
  | load i r m =>
    rw [comment?, (ho.step_load i r m).2] at hne
    exact absurd hc hne
  | sources s => exact absurd hc hne
  | store i m =>
    by_cases hw : ∃ r p, o.requests.get? i = some (.waiting r p)
    · obtain ⟨r, p, hw⟩ := hw
      refine ⟨i, r, p, m, rfl, hw, ?_⟩
      rcases hr : o.backend.perform (p.store m) with ⟨f | d, b⟩
      · obtain rfl := store_failed ho.working hr
        rw [step_store_waiting hw hr] at hne
        exact absurd hc hne
      rw [step_store_waiting hw hr] at hne ⊢
      obtain ⟨hid, hafter⟩ := stored_changed ho.backend (Mutation.store_ok hr) hc hne
      -- What waits was loaded by its author, and the stored comment still has that author.
      have hauthor {loaded : Comment} (copied : Copied o.backend loaded) (hid : loaded.id = id) :
          loaded.user.id = c.user.id := by
        subst hid
        rw [copied.kept c hc]
      cases ho.requests i _ hw with
      | insert =>
        rcases hafter with ⟨h, -⟩ | ⟨h, -⟩
        · cases h
        · cases h
      | @edit loaded body copied =>
        change loaded.id = id at hid
        rcases hafter with ⟨-, h⟩ | ⟨h, -⟩
        · exact ⟨hauthor copied hid, .inl ⟨body, _, hid ▸ rfl, h⟩⟩
        · cases h
      | @remove loaded copied =>
        change loaded.id = id at hid
        rcases hafter with ⟨h, -⟩ | ⟨-, h⟩
        · cases h
        · exact ⟨hauthor copied hid, .inr ⟨hid ▸ rfl, h⟩⟩
    · rw [step_store_idle (by simpa using hw)] at hne
      exact absurd hc hne

theorem Sound.load_refused (ho : o.Sound) {i : Nat} {r : Request} {f : Fault}
    (hnew : o.requests.get? i = none) (hf : Refusal o.backend.store r f) (m : Moment) :
    o.step (.load i r m) = ⟨o.backend, o.requests.insert i (.answered r (.error f))⟩ := by
  simp only [Overlap.step, hnew, perform_load_refused ho.working m hf, loaded]

theorem Sound.refused_of_load (ho : o.Sound) {i : Nat} {r : Request} {f : Fault} {m : Moment}
    (hnew : o.requests.get? i = none) (hr : r.isChange = true)
    (hf : (o.step (.load i r m)).requests.get? i = some (.answered r (.error f))) :
    Refusal o.backend.store r f := by
  rcases refused_or_owned o.backend.store hr with ⟨g, hg⟩ | ⟨id, c, hreads, hid, hc, ha⟩
  · rw [ho.load_refused hnew hg, Table.get?_insert, if_pos rfl, Option.some.injEq] at hf
    cases hf
    exact hg
  · simp only [Overlap.step, hnew, perform_load_owned ho.working hreads hid hc ha,
      Table.get?_insert, if_true, loaded, Option.some.injEq] at hf
    cases hf

theorem run_answered {i : Nat} {r : Request} {answer : Except Fault Comment}
    (h : o.requests.get? i = some (.answered r answer)) (xs : List Step) :
    (o.run xs).requests.get? i = some (.answered r answer) := by
  induction xs generalizing o with
  | nil => exact h
  | cons x xs ih =>
    apply ih
    cases x with
    | load j r' m =>
      simp only [step]
      split
      · exact h
      · rename_i hnew
        have hne : j ≠ i := by
          rintro rfl
          rw [h] at hnew
          cases hnew
        rw [Table.get?_insert, if_neg hne, h]
    | store j m =>
      simp only [step]
      split
      · rename_i r' p hw
        have hne : j ≠ i := by
          rintro rfl
          rw [h] at hw
          cases hw
        rw [Table.get?_insert, if_neg hne, h]
      · exact h
    | sources s => exact h

theorem only_the_author_changes (sources : Sources) (bounds : HistoryBounds)
    (commentIds epochs : Supply) (past : List Step) (x : Step) :
    let o := (start sources bounds commentIds epochs).run past
    let o' := o.step x
    (∀ id c, o.comment? id = some c → o'.comment? id ≠ some c →
      ∃ i r p m, x = .store i m ∧ o.requests.get? i = some (.waiting r p) ∧ r.actor = c.user.id ∧
        ((∃ body updatedAt, r = .update id r.actor body ∧
            o'.comment? id = some { c with body, updatedAt }) ∨
          (r = .delete id r.actor ∧ o'.comment? id = none))) ∧
    (∀ i r m, x = .load i r m → o.requests.get? i = none → o'.backend.store = o.backend.store ∧
      (r.isChange = true → ∀ f, o'.requests.get? i = some (.answered r (.error f)) ↔
        Refusal o.backend.store r f)) ∧
    (∀ i r f, o'.requests.get? i = some (.answered r (.error f)) → ∀ later m,
      (o'.run later).step (.store i m) = o'.run later) := by
  intro o o'
  have ho : o.Sound := (sound_start sources bounds commentIds epochs).run past
  refine ⟨?_, ?_, ?_⟩
  · intro id c hc hne
    exact ho.changed hc hne
  · rintro i r m rfl hnew
    refine ⟨(ho.step_load i r m).2, fun hr f => ⟨fun h => ho.refused_of_load hnew hr h, fun hf => ?_⟩⟩
    change (o.step (.load i r m)).requests.get? i = _
    rw [ho.load_refused hnew hf, Table.get?_insert, if_pos rfl]
  · intro i r f h later m
    have hanswered := run_answered h later
    apply step_store_idle
    intro r' p hw
    rw [hanswered] at hw
    cases hw

end Overlap

end LiveComments
