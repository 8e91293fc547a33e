import LiveComments.Proofs.Hub.Replay
import LiveComments.Proofs.Turn

/-!
A reader who knows the comments of a post, and then hears every event of the post, goes on knowing
them.
-/

namespace LiveComments

def CommentStore.told (s : CommentStore) (post id : String) : Option Json :=
  ((s.ofPost post).find? (·.id = id)).map Comment.toJson

/-- What becomes of the comments that a reader knows by id. A new comment must be unknown to it, and
any other known. -/
def Event.heed (known : String → Option Json) (e : Event) : Option (String → Option Json) := do
  let id ← (e.payload.get? "id").bind Json.string?
  match e.kind, known id with
  | "new_comment", none => some (Function.update known id (some e.payload))
  | "edit_comment", some _ => some (Function.update known id (some e.payload))
  | "remove_comment", some _ => some (Function.update known id none)
  | _, _ => none

namespace CommentStore

theorem find?_ofPost {s : CommentStore} (hs : s.Sound) (post id : String) :
    (s.ofPost post).find? (·.id = id) = (s.comments.get? id).filter (·.postId = post) := by
  -- The listing may be searched from the front, since no two comments have one id.
  have hsound : ∀ c, (s.ofPost post).find? (·.id = id) = some c →
      (s.comments.get? id).filter (·.postId = post) = some c := by
    intro c hc
    have hid : c.id = id := by simpa using List.find?_some hc
    obtain ⟨hmem, hpost⟩ := List.mem_filter.mp (List.mem_of_find?_eq_some hc)
    obtain ⟨⟨k, d⟩, hentry, rfl⟩ := List.mem_map.mp hmem
    have hget := hs.unique.get?_eq_some.mpr hentry
    have hk := hs.keyed k d hget
    rw [← hid, hk, hget]
    exact Option.filter_eq_some_iff.mpr ⟨rfl, hpost⟩
  apply Option.ext
  intro c
  refine ⟨hsound c, fun hc => ?_⟩
  obtain ⟨hget, hpost⟩ := Option.filter_eq_some_iff.mp hc
  have hmem : c ∈ s.ofPost post :=
    List.mem_filter.mpr ⟨List.mem_map_of_mem (Table.mem_of_get? hget), hpost⟩
  cases hf : (s.ofPost post).find? (·.id = id) with
  | none => exact absurd (hs.keyed id c hget) (by simpa using List.find?_eq_none.mp hf c hmem)
  | some d => rw [← hsound d hf, hc]

theorem told_eq {s : CommentStore} (hs : s.Sound) (post id : String) :
    s.told post id = ((s.comments.get? id).filter (·.postId = post)).map Comment.toJson := by
  rw [told, find?_ofPost hs]

section

variable {s : CommentStore} {post id : String} {c : Comment}

theorem told_of_get? (hs : s.Sound) (hg : s.comments.get? id = some c) (hp : c.postId = post) :
    s.told post id = some c.toJson := by
  rw [told_eq hs, hg, Option.filter_some, if_pos (decide_eq_true hp), Option.map_some]

theorem told_elsewhere (hs : s.Sound) (hg : s.comments.get? id = some c) (hp : c.postId ≠ post) :
    s.told post id = none := by
  rw [told_eq hs, hg, Option.filter_some, if_neg (by simpa using hp), Option.map_none]

theorem told_of_none (hs : s.Sound) (hg : s.comments.get? id = none) : s.told post id = none := by
  rw [told_eq hs, hg, Option.filter_none, Option.map_none]

end

end CommentStore

section

variable {known : String → Option Json} {c : Comment} (m : Moment)

theorem payload_id (news : Event.News) (c : Comment) :
    (Mutation.payload news c).get? "id" = some (.str c.id) := by
  cases news <;> rfl

theorem heed_event (known : String → Option Json) (news : Event.News) (c : Comment) :
    Event.heed known (Mutation.event news c m) =
      match news.kind, known c.id with
      | "new_comment", none => some (Function.update known c.id (some (Mutation.payload news c)))
      | "edit_comment", some _ => some (Function.update known c.id (some (Mutation.payload news c)))
      | "remove_comment", some _ => some (Function.update known c.id none)
      | _, _ => none := by
  unfold Event.heed Mutation.event
  rw [payload_id]
  rfl

theorem heed_created (h : known c.id = none) :
    Event.heed known (Mutation.event .created c m) =
      some (Function.update known c.id (some c.toJson)) := by
  rw [heed_event, h]
  rfl

theorem heed_edited {j : Json} (h : known c.id = some j) :
    Event.heed known (Mutation.event .edited c m) =
      some (Function.update known c.id (some c.toJson)) := by
  rw [heed_event, h]
  rfl

theorem heed_removed {j : Json} (h : known c.id = some j) :
    Event.heed known (Mutation.event .removed c m) = some (Function.update known c.id none) := by
  rw [heed_event, h]
  rfl

end

namespace CommentStore

variable {request : Event.Request} {c : Comment} {s t : CommentStore}

theorem Change.told_elsewhere (hs : s.Sound) (h : Change request c s.comments t.comments)
    {post : String} (hp : c.postId ≠ post) : t.told post = s.told post := by
  have ht := h.sound hs
  funext id
  by_cases hid : c.id = id
  · subst hid
    have hinsert : t.comments = s.comments.insert c.id c → t.told post c.id = none := fun he =>
      CommentStore.told_elsewhere ht (by rw [he, Table.get?_insert, if_pos rfl]) hp
    generalize hafter : t.comments = after at h
    cases h with
    | create new => rw [hinsert hafter, told_of_none hs new]
    | update found same =>
      rw [hinsert hafter, CommentStore.told_elsewhere hs found (same ▸ hp)]
    | delete found =>
      rw [CommentStore.told_elsewhere hs found hp]
      exact told_of_none ht (by rw [hafter, Table.get?_erase, if_pos rfl])
  · rw [told_eq hs, told_eq ht, h.get?_of_ne hid]

theorem Change.told_update (hs : s.Sound) (h : Change request c s.comments t.comments) (post : String) :
    t.told post = Function.update (s.told post) c.id (t.told post c.id) := by
  funext id
  by_cases hid : id = c.id
  · rw [hid, Function.update_self]
  · rw [Function.update_of_ne hid, told_eq hs, told_eq (h.sound hs), h.get?_of_ne (Ne.symm hid)]

theorem Change.heeded (hs : s.Sound) (h : Change request c s.comments t.comments) (m : Moment) :
    Event.heed (s.told c.postId) (Mutation.event request.news c m) = some (t.told c.postId) := by
  have ht := h.sound hs
  rw [h.told_update hs]
  have hinsert : t.comments = s.comments.insert c.id c → t.told c.postId c.id = some c.toJson :=
    fun he => told_of_get? ht (by rw [he, Table.get?_insert, if_pos rfl]) rfl
  generalize hafter : t.comments = after at h
  cases h with
  | create new =>
    rw [hinsert hafter]
    exact heed_created m (told_of_none hs new)
  | update found same =>
    rw [hinsert hafter]
    exact heed_edited m (told_of_get? hs found same)
  | delete found =>
    have hgone : t.told c.postId c.id = none :=
      told_of_none ht (by rw [hafter, Table.get?_erase, if_pos rfl])
    rw [hgone]
    exact heed_removed m (told_of_get? hs found rfl)

end CommentStore

namespace Backend

open Hub

theorem Sound.turn_told {b : Backend} (hb : b.Sound) (t : Turn) (post : String) :
    (eventsOn post (b.asks t)).foldlM Event.heed (b.store.told post) =
      some ((b.turn t).store.told post) := by
  cases t with
  | event e caller m =>
    rcases hr : b.perform (Mutation.route e caller m) with ⟨r, b'⟩
    rw [turn_event hr]
    rcases hb.event hr with ⟨f, rfl, hc⟩ | ⟨request, d, b₂, -, hchange, -, hsound, -, rfl, rfl⟩
    · rw [asks_failed hr, hc.store]
      rfl
    · rw [asks_announced hr, eventsOn_publish]
      change _ = some (b₂.store.told post)
      by_cases hp : (Channel.post d.postId).name = post
      · rw [if_pos hp, List.foldlM_cons, ← hp]
        exact congrArg (· >>= pure) (hchange.heeded hb.store m)
      · rw [if_neg hp, hchange.told_elsewhere hb.store hp]
        rfl
  | request r gate m =>
    rw [Backend.turn, (answer_calm b r gate m).store]
    rfl
  | resolve user m =>
    rw [Backend.turn, (quiet_resolveUser user m b).store]
    rfl
  | subscribe session channel recover m =>
    rw [Backend.turn, subscribe_eq]
    split <;> rfl
  | _ => rfl

theorem Sound.run_told {b : Backend} (hb : b.Sound) (ts : List Turn) (post : String) :
    (eventsOn post (b.messages ts)).foldlM Event.heed (b.store.told post) =
      some ((b.run ts).store.told post) := by
  -- Turn by turn; the backend stays sound, so that the next turn can be told as well.
  induction ts generalizing b with
  | nil => rfl
  | cons t ts ih =>
    rw [messages, eventsOn_append, List.foldlM_append, hb.turn_told]
    exact ih (hb.turn t).1

theorem events_determine_comments (sources : Sources) (bounds : HistoryBounds)
    (commentIds epochs : Supply) (before during : List Turn) (post : String) :
    let b := (start sources bounds commentIds epochs).run before
    let log := gather published b.hub (b.messages during)
    (b.run during).hub = b.hub.run (b.messages during) ∧
    ((onChannel (Channel.post post).name log).map (·.data)).foldlM Event.heed
      (b.store.told post) = some ((b.run during).store.told post) ∧
    ∀ epoch, ((stream log (Channel.post post).name epoch).map (·.offset)).Pairwise (· < ·) := by
  intro b log
  have hstart := sound_start sources bounds commentIds epochs
  obtain ⟨hsound, hserved⟩ := hstart.run before
  refine ⟨(hsound.run during).2.hub, ?_, fun epoch => ?_⟩
  · rw [published_events]
    exact hsound.run_told during post
  · have hall := (hstart.run (before ++ during)).2.drawn.nodup
    rw [messages_append] at hall
    have hascending := stream_ascending hall (Channel.post post).name epoch
    rw [show (Hub.start bounds).run _ = b.hub from hserved.hub.symm] at hascending
    exact hascending

end Backend

end LiveComments
