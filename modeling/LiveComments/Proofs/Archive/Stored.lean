import LiveComments.Archive.Database
import LiveComments.Archive.Storage
import LiveComments.Proofs.Comment.History
import LiveComments.Proofs.Comment.Paging
import Mathlib.Data.List.Pairwise

namespace LiveComments

namespace Text

def SmallId (s : String) : Prop := isObjectId s = true → ∀ c ∈ s.toList, ¬('A' ≤ c ∧ c ≤ 'F')

instance (s : String) : Decidable (SmallId s) :=
  decidable_of_iff (isObjectId s = true → s.toList.all (fun c => decide ¬('A' ≤ c ∧ c ≤ 'F')) = true) <| by
    simp only [SmallId, List.all_eq_true, decide_eq_true_eq]

theorem objectId?_of_small {s : String} (hs : SmallId s) :
    objectId? s = if isObjectId s then some s else none := by
  unfold objectId?
  split
  · rename_i hid
    have hsame : s.toList.map lowerHex = s.toList.map id :=
      List.map_congr_left fun c hc => if_neg (hs hid c hc)
    rw [hsame, List.map_id, String.ofList_toList]
  · rfl

end Text

structure Stamp.Kept (t : Stamp) : Prop where
  whole : t.Whole
  inRange : t.inRange = true

structure Comment.Kept (c : Comment) : Prop where
  created : c.createdAt.Kept
  updated : c.updatedAt.Kept

theorem Comment.Kept.sortTime {c : Comment} (hc : c.Kept) (key : SortKey) :
    (CommentStore.sortTime key c).Kept := by
  cases key with
  | createdAt => exact hc.created
  | updatedAt => exact hc.updated

theorem SortOrder.sign_cases (order : SortOrder) : order.sign = 1 ∨ order.sign = -1 := by
  cases order with
  | ascending => exact .inl rfl
  | descending => exact .inr rfl

namespace Archive

theorem stampOf_millis {t : Stamp} (ht : t.Kept) : stampOf t.millis = t := by
  have hmillis : Stamp.ofMillis t.millis = t := by
    have hwhole := ht.whole
    unfold Stamp.Whole at hwhole
    rw [Stamp.ofMillis, Stamp.millis]
    congr 1
    omega
  rw [stampOf, hmillis]
  exact if_pos ht.inRange

theorem user?_ofUser (u : User) : user? (ofUser u) = some u := rfl

theorem comment?_ofComment {c : Comment} (hc : c.Kept) (id : String) :
    comment? (ofComment id c) = some { c with id } := by
  have hread : comment? (ofComment id c) = some { c with
      id
      createdAt := stampOf c.createdAt.millis
      updatedAt := stampOf c.updatedAt.millis } := rfl
  rw [hread, stampOf_millis hc.created, stampOf_millis hc.updated]

theorem set_ofComment (id : String) (c : Comment) (body : String) (t : Stamp) :
    [("body", .text body), ("updated_at", .time t.millis)].foldl Document.set (ofComment id c) =
      ofComment id { c with body, updatedAt := t } := rfl

theorem changed_present (id : String) {body : String} {ms : Int} (c : Comment) :
    ∀ f ∈ [("body", Value.text body), ("updated_at", .time ms)],
      ((ofComment id c).get? f.1).isSome = true := by
  intro f hf
  rcases List.mem_pair.mp hf with rfl | rfl
  · rfl
  · rfl

theorem fits_singleton (d : Document) (name : String) (v : Value) :
    d.fits [(name, v)] = (d.get? name).any v.same := by
  rw [Document.fits, List.all_cons, List.all_nil, Bool.and_true]

theorem ofComment_fits_byId (id hex : String) (c : Comment) :
    (ofComment id c).fits (byId hex) = decide (hex = id) := fits_singleton _ _ _

theorem ofComment_fits_ofPost (id post : String) (c : Comment) :
    (ofComment id c).fits (ofPost post) = decide (post = c.postId) := fits_singleton _ _ _

theorem ofUser_fits (u : User) (id : Int) :
    (ofUser u).fits [("_id", .int id)] = decide (id = u.id) := fits_singleton _ _ _

theorem ofComment_sameId (id id' : String) (c c' : Comment) :
    (ofComment id c).sameId (ofComment id' c') = decide (id = id') := rfl

theorem get?_field (key : SortKey) (id : String) (c : Comment) :
    (ofComment id c).get? key.field = some (.time (CommentStore.sortTime key c).millis) := by
  cases key <;> rfl

def document (c : Comment) : Document := ofComment c.id c

theorem mapM_document {cs : List Comment} (hcs : ∀ c ∈ cs, c.Kept) :
    (cs.map document).mapM comment? = some cs := by
  induction cs with
  | nil => rfl
  | cons c cs ih =>
    have hread : comment? (document c) = some c := comment?_ofComment (hcs c List.mem_cons_self) c.id
    rw [List.map_cons, List.mapM_cons, hread, ih fun d hd => hcs d (List.mem_cons_of_mem c hd)]
    rfl

theorem eq_of_millis {t t' : Stamp} (ht : t.Kept) (ht' : t'.Kept) (h : t.millis = t'.millis) : t = t' := by
  rw [← stampOf_millis ht, ← stampOf_millis ht', h]

theorem millis_of_inOrder {key : SortKey} {order : SortOrder} {a b : Comment}
    (h : Comment.InOrder key order a b) :
    order.sign * (CommentStore.sortTime key a).millis ≤ order.sign * (CommentStore.sortTime key b).millis := by
  have hmono {t t' : Stamp} (hle : t.nanos ≤ t'.nanos) : t.millis ≤ t'.millis :=
    Int.ediv_le_ediv (by decide) hle
  cases order with
  | ascending =>
    have := hmono h
    simp only [SortOrder.sign]
    omega
  | descending =>
    have := hmono h
    simp only [SortOrder.sign]
    omega

theorem eq_of_sortTime {key : SortKey} {cs : List Comment}
    (hdistinct : cs.Pairwise fun a b => CommentStore.sortTime key a ≠ CommentStore.sortTime key b)
    {c c' : Comment} (hc : c ∈ cs) (hc' : c' ∈ cs)
    (h : CommentStore.sortTime key c = CommentStore.sortTime key c') : c = c' := by
  have hsymm : Std.Symm fun a b : Comment =>
      CommentStore.sortTime key a ≠ CommentStore.sortTime key b := ⟨fun _ _ h => h.symm⟩
  by_contra hne
  exact hdistinct.forall hc hc' hne h

theorem eq_ordered {p : Page} {cs : List Comment} {all : List Document} (hcs : ∀ c ∈ cs, c.Kept)
    (hdistinct : cs.Pairwise fun a b => CommentStore.sortTime p.key a ≠ CommentStore.sortTime p.key b)
    (hall : all.Perm (cs.map document))
    (hsorted : ∀ time : Document → Int, (∀ d ∈ all, d.get? p.key.field = some (.time (time d))) →
      all.Pairwise fun a b => p.order.sign * time a ≤ p.order.sign * time b) :
    all = (CommentStore.ordered p cs).map document := by
  let time (d : Document) : Int := (d.time? p.key.field).getD 0
  let le (a b : Document) : Prop := p.order.sign * time a ≤ p.order.sign * time b
  have hfield (c : Comment) := get?_field p.key c.id c
  have htime (c : Comment) : time (document c) = (CommentStore.sortTime p.key c).millis := by
    simp only [time, document, Document.time?, hfield, Option.getD_some]
  have hmem {d : Document} (hd : d ∈ all) : ∃ c ∈ cs, document c = d :=
    List.mem_map.mp (hall.mem_iff.mp hd)
  have hperm := CommentStore.ordered_perm p cs
  have hreply : all.Pairwise le := by
    apply hsorted
    intro d hd
    obtain ⟨c, -, rfl⟩ := hmem hd
    rw [htime]
    exact hfield c
  have hordered : ((CommentStore.ordered p cs).map document).Pairwise le := by
    rw [List.pairwise_map]
    refine (CommentStore.ordered_pairwise p cs).imp fun h => ?_
    simp only [le, htime]
    exact millis_of_inOrder h
  apply List.Perm.eq_of_pairwise ?_ hreply hordered (hall.trans (hperm.map document).symm)
  intro a b ha hb hab hba
  obtain ⟨c, hc, rfl⟩ := hmem ha
  obtain ⟨c', hc', rfl⟩ := List.mem_map.mp hb
  rw [hperm.mem_iff] at hc'
  have hmillis : time (document c) = time (document c') := by
    simp only [le] at hab hba
    rcases p.order.sign_cases with hsign | hsign
    · rw [hsign] at hab hba
      omega
    · rw [hsign] at hab hba
      omega
  rw [htime, htime] at hmillis
  rw [eq_of_sortTime hdistinct hc hc'
    (eq_of_millis ((hcs c hc).sortTime p.key) ((hcs c' hc').sortTime p.key) hmillis)]

end Archive

end LiveComments
