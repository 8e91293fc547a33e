import LiveComments.Proofs.Comment.History
import Mathlib.Data.Set.Card

/-!
Deletions that overlap with other requests on the same comment. Of all that are under way the first
to be stored succeeds; it leaves nothing that any other request could bring back.
-/

namespace LiveComments

theorem CommentStore.delete_named {s t : CommentStore} {id : String} (h : s.delete id = .ok t) :
    Text.isObjectId id = true := by
  by_contra hid
  have hget : s.get id = .error (.invalidId id) := get_unnamed s (Bool.eq_false_iff.mpr hid)
  rw [delete, hget] at h
  cases h

theorem Mutation.Stored.writes {b b' : Backend} {request : Event.Request} {c d : Comment}
    (h : Stored b c request d b') : b'.store.writes = b.store.writes + 1 := by
  cases h with
  | create => rfl
  | update done =>
    obtain ⟨old, -, rfl⟩ := CommentStore.update_ok done
    rfl
  | delete done =>
    obtain ⟨old, -, rfl⟩ := CommentStore.delete_ok done
    rfl

namespace Overlap

open Lifecycle

def Succeeded (o : Overlap) (i : Nat) : Prop :=
  ∃ r d, o.requests.get? i = some (.answered r (.ok d))

def Deleted (o : Overlap) (i : Nat) (id : String) : Prop :=
  ∃ actor c, o.requests.get? i = some (.answered (.delete id actor) (.ok c))

variable {o : Overlap}

inductive Effect (o : Overlap) : Overlap → Prop
  | aside {o' : Overlap} (store : o'.backend.store = o.backend.store)
      (ids : o'.backend.commentIds = o.backend.commentIds)
      (same : ∀ i r d, o'.requests.get? i = some (.answered r (.ok d)) ↔
        o.requests.get? i = some (.answered r (.ok d))) : Effect o o'
  | stored {i : Nat} {r : Request} {p : Pending} {m : Moment} {d : Comment} {b : Backend}
      (waiting : o.requests.get? i = some (.waiting r p))
      (done : Mutation.Stored o.backend (p.comment m) p.kind d b) :
      Effect o ⟨b, o.requests.insert i (.answered r (.ok d))⟩

theorem same_of_insert {i : Nat} {w : Progress} (hold : ∀ r d, o.requests.get? i ≠ some (.answered r (.ok d)))
    (hnew : ∀ r d, w ≠ .answered r (.ok d)) (j : Nat) (r : Request) (d : Comment) :
    (o.requests.insert i w).get? j = some (.answered r (.ok d)) ↔
      o.requests.get? j = some (.answered r (.ok d)) := by
  rw [Table.get?_insert]
  split
  · rename_i hj
    subst hj
    constructor
    · intro h
      exact absurd (Option.some.inj h) (hnew r d)
    · intro h
      exact absurd h (hold r d)
  · exact Iff.rfl

theorem Sound.effect (ho : o.Sound) (x : Step) : Effect o (o.step x) := by
  cases x with
  | load i r m =>
    simp only [Overlap.step]
    cases hg : o.requests.get? i with
    | some w => exact .aside rfl rfl fun _ _ _ => Iff.rfl
    | none =>
      obtain ⟨sources, answer, hp, -⟩ := perform_load ho.backend ho.working r m
      simp only [hp]
      refine Effect.aside rfl rfl (same_of_insert ?_ ?_)
      · intro r' d h
        rw [hg] at h
        cases h
      · intro r' d h
        cases answer <;> cases h
  | store i m =>
    by_cases hw : ∃ r p, o.requests.get? i = some (.waiting r p)
    · obtain ⟨r, p, hw⟩ := hw
      rcases hr : o.backend.perform (p.store m) with ⟨f | d, b⟩
      · obtain rfl := store_failed ho.working hr
        rw [step_store_waiting hw hr]
        refine Effect.aside rfl rfl (same_of_insert ?_ ?_)
        · intro r' d h
          rw [hw] at h
          cases h
        · intro r' d h
          cases h
      · rw [step_store_waiting hw hr]
        exact .stored hw (Mutation.store_ok hr)
    · rw [step_store_idle (by simpa using hw)]
      exact .aside rfl rfl fun _ _ _ => Iff.rfl
  | sources s => exact .aside rfl rfl fun _ _ _ => Iff.rfl

structure Tallied (o : Overlap) : Prop where
  sound : o.Sound
  counted : {i | o.Succeeded i}.encard = o.backend.store.writes
  gone : ∀ i id, o.Deleted i id → Text.isObjectId id = true ∧ Backend.Gone o.backend id
  once : ∀ i j id, o.Deleted i id → o.Deleted j id → i = j

theorem tallied_start (sources : Sources) (bounds : HistoryBounds) (commentIds epochs : Supply) :
    (start sources bounds commentIds epochs).Tallied where
  sound := sound_start sources bounds commentIds epochs
  counted := by
    have hnone : {i | (start sources bounds commentIds epochs).Succeeded i} = ∅ := by
      ext i
      simp [Succeeded, start]
    rw [hnone, Set.encard_empty]
    rfl
  gone := by simp [Deleted, start]
  once := by simp [Deleted, start]

theorem succeeded_insert {i : Nat} {r : Request} {d : Comment} (b : Backend) :
    {j | Succeeded ⟨b, o.requests.insert i (.answered r (.ok d))⟩ j} =
      insert i {j | o.Succeeded j} := by
  ext j
  simp only [Succeeded, Set.mem_ofPred_eq, Set.mem_insert_iff, Table.get?_insert]
  by_cases hj : i = j
  · simp [hj]
  · simp [hj, Ne.symm hj]

theorem deleted_insert {i j : Nat} {r : Request} {d : Comment} {b : Backend} {id : String}
    (h : Deleted ⟨b, o.requests.insert i (.answered r (.ok d))⟩ j id) :
    o.Deleted j id ∨ i = j ∧ ∃ actor, r = .delete id actor := by
  obtain ⟨actor, c, h⟩ := h
  simp only [Table.get?_insert] at h
  split at h
  · rename_i hj
    cases h
    exact .inr ⟨hj, actor, rfl⟩
  · exact .inl ⟨actor, c, h⟩

theorem gone_of_stored {b b' : Backend} {p : Pending} {id : String} {actor : Int} {m : Moment}
    {d : Comment} (hw : Waits b (.delete id actor) p)
    (hs : Mutation.Stored b (p.comment m) p.kind d b') :
    (∃ old, b.store.comments.get? id = some old) ∧ Text.isObjectId id = true ∧ Backend.Gone b' id := by
  cases hw with
  | remove copied =>
    cases hs with
    | delete done =>
      have hid := CommentStore.delete_named done
      obtain ⟨old, hold, rfl⟩ := CommentStore.delete_ok done
      exact ⟨⟨old, hold⟩, hid, (Table.get?_erase _ _ _).trans (if_pos rfl), copied.used⟩

theorem Tallied.effect (ho : o.Tallied) {o' : Overlap} (he : Effect o o') (hsound : o'.Sound) :
    o'.Tallied := by
  cases he with
  | aside store ids same =>
    have hdeleted (i : Nat) (id : String) (h : o'.Deleted i id) : o.Deleted i id := by
      obtain ⟨actor, c, h⟩ := h
      exact ⟨actor, c, (same i _ c).mp h⟩
    refine ⟨hsound, ?_, ?_, ?_⟩
    · have hsucceeded : {i | o'.Succeeded i} = {i | o.Succeeded i} := by
        ext i
        simp only [Succeeded, Set.mem_ofPred_eq, same]
      rw [hsucceeded, ho.counted, store]
    · intro i id h
      obtain ⟨hid, hgone⟩ := ho.gone i id (hdeleted i id h)
      exact ⟨hid, store ▸ hgone.absent, ids ▸ hgone.used⟩
    · intro i j id hi hj
      exact ho.once i j id (hdeleted i id hi) (hdeleted j id hj)
  | @stored i r p m d b waiting done =>
    have hwaits : Waits o.backend r p := ho.sound.requests i _ waiting
    -- What is stored now was not gone, so nobody has deleted it before.
    have hfirst (j : Nat) (id : String) (actor : Int) (hr : r = .delete id actor) : ¬ o.Deleted j id := by
      intro hj
      subst hr
      obtain ⟨⟨old, hold⟩, -⟩ := gone_of_stored hwaits done
      rw [(ho.gone j id hj).2.absent] at hold
      cases hold
    refine ⟨hsound, ?_, ?_, ?_⟩
    · have hnew : i ∉ {j | o.Succeeded j} := by
        rintro ⟨r', d', h⟩
        rw [waiting] at h
        cases h
      rw [succeeded_insert, Set.encard_insert_of_notMem hnew, ho.counted, done.writes]
      rfl
    · intro j id h
      rcases deleted_insert h with h | ⟨-, actor, rfl⟩
      · obtain ⟨hid, hgone⟩ := ho.gone j id h
        exact ⟨hid, hgone.stored done⟩
      · exact (gone_of_stored hwaits done).2
    · intro j k id hj hk
      rcases deleted_insert hj with hj | ⟨rfl, actor, hr⟩
      · rcases deleted_insert hk with hk | ⟨rfl, actor, hr⟩
        · exact ho.once j k id hj hk
        · exact absurd hj (hfirst j id actor hr)
      · rcases deleted_insert hk with hk | ⟨hk, -⟩
        · exact absurd hk (hfirst k id actor hr)
        · exact hk

theorem Tallied.run (ho : o.Tallied) (xs : List Step) : (o.run xs).Tallied := by
  induction xs generalizing o with
  | nil => exact ho
  | cons x xs ih => exact ih (ho.effect (ho.sound.effect x) (ho.sound.step x))

theorem perform_store_change {b : Backend} {r : Request} {p : Pending} {id : String}
    (hw : Waits b r p) (ho : b.storeOutage = none) (hr : r.reads = some id) (m : Moment) :
    (b.perform (p.store m)).1 = (b.store.get id).map fun _ => p.comment m := by
  have hcall (call : StoreCall) := Backend.perform_beforeCall ho call
  cases hw with
  | insert => cases hr
  | @edit c body copied =>
    have hid : c.id = id := by
      simp only [Request.reads] at hr
      split at hr
      · cases hr
      · exact Option.some.inj hr
    rw [Pending.store, Pending.kind, Mutation.store, Backend.storeEdited,
      Backend.bind_of_ok (hcall .update), Backend.perform_bind, Backend.perform_get]
    have hupdate : b.store.update (Pending.comment m (.edit c body)) =
        (b.store.get id).map fun old => ⟨b.store.comments.insert c.id
          { old with body, updatedAt := nextChange c.updatedAt m.stamp.cutToMillis },
          b.store.writes + 1⟩ := by
      rw [CommentStore.update, ← hid]
      rfl
    simp only [Backend.perform_bind, Backend.perform_ofExcept, hupdate]
    cases b.store.get id <;> rfl
  | @remove c copied =>
    have hid : c.id = id := Option.some.inj hr
    have hdelete : b.store.delete c.id =
        (b.store.get id).map fun _ => ⟨b.store.comments.erase c.id, b.store.writes + 1⟩ := by
      rw [CommentStore.delete, ← hid]
      rfl
    rw [Pending.store, Pending.kind, Mutation.store, Backend.bind_of_ok (hcall .delete),
      Backend.perform_bind, Backend.perform_get]
    simp only [Pending.comment, Backend.perform_bind, Backend.perform_ofExcept, hdelete]
    cases b.store.get id <;> rfl

theorem Sound.stored_change (ho : o.Sound) {i : Nat} {r : Request} {p : Pending} {id : String}
    (hw : o.requests.get? i = some (.waiting r p)) (hr : r.reads = some id) (m : Moment) :
    (o.step (.store i m)).requests.get? i =
      some (.answered r ((o.backend.store.get id).map fun _ => p.comment m)) := by
  have hanswer := perform_store_change (ho.requests i _ hw) ho.working hr m
  rcases hs : o.backend.perform (p.store m) with ⟨answer, b⟩
  rw [hs] at hanswer
  subst hanswer
  rw [step_store_waiting hw hs, Table.get?_insert, if_pos rfl]

theorem deletes_win_once_and_for_good (sources : Sources) (bounds : HistoryBounds)
    (commentIds epochs : Supply) (past : List Step) :
    let o := (start sources bounds commentIds epochs).run past
    {i | o.Succeeded i}.encard = o.backend.store.writes ∧
    (∀ i r p id m, o.requests.get? i = some (.waiting r p) → r.reads = some id →
      (o.step (.store i m)).requests.get? i =
        some (.answered r ((o.backend.store.get id).map fun _ => p.comment m))) ∧
    (∀ i j id, o.Deleted i id → o.Deleted j id → i = j) ∧
    ∀ i id, o.Deleted i id → ∀ later, let o' := o.run later
      o'.backend.store.get id = .error .commentNotFound ∧
      (∀ post page, ∀ c ∈ (o'.backend.store.list post page).1, c.id ≠ id) ∧
      (∀ j r p m, o'.requests.get? j = some (.waiting r p) → r.reads = some id →
        (o'.step (.store j m)).requests.get? j = some (.answered r (.error .commentNotFound))) ∧
      (∀ j r m, o'.requests.get? j = none → r.reads = some id →
        (o'.step (.load j r m)).requests.get? j = some (.answered r (.error .commentNotFound))) := by
  intro o
  have ho : o.Tallied := (tallied_start sources bounds commentIds epochs).run past
  refine ⟨ho.counted, ?_, ho.once, ?_⟩
  · intro i r p id m hw hr
    exact ho.sound.stored_change hw hr m
  · rintro i id ⟨actor, c, hi⟩ later o'
    have ho' : o'.Tallied := ho.run later
    obtain ⟨hid, hgone⟩ := ho'.gone i id ⟨actor, c, run_answered hi later⟩
    have hget : o'.backend.store.get id = .error .commentNotFound :=
      CommentStore.get_absent hid hgone.absent
    refine ⟨hget, ?_, ?_, ?_⟩
    · rintro post page c hc rfl
      have hthere := ho'.sound.backend.store.mem_list hc
      rw [hgone.absent] at hthere
      cases hthere
    · intro j r p m hw hr
      rw [ho'.sound.stored_change hw hr, hget]
      rfl
    · intro j r m hnew hr
      rw [ho'.sound.load_refused hnew (.absent hr hid hgone.absent), Table.get?_insert, if_pos rfl]

end Overlap

end LiveComments
