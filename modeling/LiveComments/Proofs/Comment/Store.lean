import LiveComments.Comment.Store
import LiveComments.Event
import LiveComments.Proofs.Table

namespace LiveComments.CommentStore

theorem get_ok {s : CommentStore} {id : String} {c : Comment} (h : s.get id = .ok c) :
    s.comments.get? id = some c := by
  unfold get at h
  cases hc : checkId id with
  | error f => simp [hc, bind, Except.bind] at h
  | ok u =>
    cases hg : s.comments.get? id with
    | none => simp [hc, hg, bind, Except.bind, throw, throwThe, MonadExceptOf.throw] at h
    | some d =>
      simp only [hc, hg, bind, Except.bind, pure, Except.pure, Except.ok.injEq] at h
      rw [h]

theorem get_unnamed (s : CommentStore) {id : String} (hid : Text.isObjectId id = false) :
    s.get id = .error (.invalidId id) := by
  rw [get, checkId, hid]
  rfl

theorem get_absent {s : CommentStore} {id : String} (hid : Text.isObjectId id = true)
    (hnone : s.comments.get? id = none) : s.get id = .error .commentNotFound := by
  rw [get, checkId, hid, hnone]
  rfl

theorem get_present {s : CommentStore} {id : String} {c : Comment} (hid : Text.isObjectId id = true)
    (hsome : s.comments.get? id = some c) : s.get id = .ok c := by
  rw [get, checkId, hid, hsome]
  rfl

theorem update_ok {s t : CommentStore} {c : Comment} (h : s.update c = .ok t) :
    ∃ old, s.comments.get? c.id = some old ∧
      t = ⟨s.comments.insert c.id { old with body := c.body, updatedAt := c.updatedAt },
        s.writes + 1⟩ := by
  unfold update at h
  cases hg : s.get c.id with
  | error f => simp [hg, bind, Except.bind] at h
  | ok old =>
    simp only [hg, bind, Except.bind, pure, Except.pure, Except.ok.injEq] at h
    exact ⟨old, get_ok hg, h.symm⟩

theorem delete_ok {s t : CommentStore} {id : String} (h : s.delete id = .ok t) :
    ∃ old, s.comments.get? id = some old ∧ t = ⟨s.comments.erase id, s.writes + 1⟩ := by
  unfold delete at h
  cases hg : s.get id with
  | error f => simp [hg, bind, Except.bind] at h
  | ok old =>
    simp only [hg, bind, Except.bind, pure, Except.pure, Except.ok.injEq] at h
    exact ⟨old, get_ok hg, h.symm⟩

structure Sound (s : CommentStore) : Prop where
  unique : s.comments.Unique
  keyed : ∀ id c, s.comments.get? id = some c → c.id = id

theorem sound_default : ({} : CommentStore).Sound where
  unique := Table.unique_default
  keyed := by simp

theorem Sound.insert {s : CommentStore} (hs : s.Sound) (c : Comment) (writes : Nat) :
    Sound ⟨s.comments.insert c.id c, writes⟩ where
  unique := hs.unique.insert _ _
  keyed := fun _ _ => Table.forall_insert hs.keyed rfl

theorem Sound.erase {s : CommentStore} (hs : s.Sound) (id : String) (writes : Nat) :
    Sound ⟨s.comments.erase id, writes⟩ where
  unique := hs.unique.erase _
  keyed := fun _ _ => Table.forall_erase hs.keyed

inductive Change : Event.Request → Comment → Table String Comment → Table String Comment → Prop
  | create {c : Comment} {t : Table String Comment} (new : t.get? c.id = none) :
      Change .create c t (t.insert c.id c)
  | update {c old : Comment} {t : Table String Comment} (found : t.get? c.id = some old)
      (post : old.postId = c.postId) : Change .update c t (t.insert c.id c)
  | delete {c : Comment} {t : Table String Comment} (found : t.get? c.id = some c) :
      Change .delete c t (t.erase c.id)

theorem Change.sound {request : Event.Request} {c : Comment} {s t : CommentStore} (hs : s.Sound)
    (h : Change request c s.comments t.comments) : t.Sound := by
  obtain ⟨ts, w⟩ := t
  cases h with
  | create => exact hs.insert c w
  | update => exact hs.insert c w
  | delete => exact hs.erase c.id w

theorem Change.get?_of_ne {request : Event.Request} {c : Comment} {t t' : Table String Comment}
    (h : Change request c t t') {id : String} (hid : c.id ≠ id) : t'.get? id = t.get? id := by
  cases h with
  | create => rw [Table.get?_insert, if_neg hid]
  | update => rw [Table.get?_insert, if_neg hid]
  | delete => rw [Table.get?_erase, if_neg hid]

theorem Change.absent {request : Event.Request} {c : Comment} {t t' : Table String Comment}
    (h : Change request c t t') {id : String} (hid : t.get? id = none)
    (hnew : request = .create → c.id ≠ id) : t'.get? id = none := by
  have hne : c.id ≠ id := by
    cases h with
    | create => exact hnew rfl
    | update found =>
      rintro rfl
      rw [hid] at found
      cases found
    | delete found =>
      rintro rfl
      rw [hid] at found
      cases found
  rw [h.get?_of_ne hne, hid]

end LiveComments.CommentStore
