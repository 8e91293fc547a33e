import LiveComments.Proofs.Authorship
import LiveComments.Proofs.Comment.History
import LiveComments.Proofs.Comment.Paging
import LiveComments.Proofs.Text

namespace LiveComments

namespace CommentStore

variable {s : CommentStore} {post : String} {c : Comment}

theorem Sound.nodup_ofPost (hs : s.Sound) (post : String) : (s.ofPost post).Nodup := by
  have hkeys : s.comments.values.map Comment.id = s.comments.keys := by
    rw [Table.values, Table.keys, List.map_map]
    apply List.map_congr_left
    rintro ⟨id, c⟩ he
    exact hs.keyed id c (hs.unique.get?_eq_some.mpr he)
  have hvalues : s.comments.values.Nodup := by
    apply List.Nodup.of_map Comment.id
    rw [hkeys]
    exact hs.unique
  exact hvalues.filter _

theorem Sound.mem_ofPost_iff (hs : s.Sound) :
    c ∈ s.ofPost post ↔ s.comments.get? c.id = some c ∧ c.postId = post := by
  constructor
  · intro hc
    exact ⟨hs.mem_ofPost hc, of_decide_eq_true (List.mem_filter.mp hc).2⟩
  · rintro ⟨hget, hpost⟩
    refine List.mem_filter.mpr ⟨?_, decide_eq_true hpost⟩
    exact List.mem_map.mpr ⟨_, Table.mem_of_get? hget, rfl⟩

theorem ofPost_fits (h : Text.fitsInt64 s.comments.entries.length = true) (post : String) :
    Text.fitsInt64 (s.ofPost post).length = true := by
  have hle : (s.ofPost post).length ≤ s.comments.entries.length := by
    have := List.length_filter_le (fun c : Comment => decide (c.postId = post)) s.comments.values
    rwa [Table.values, List.length_map] at this
  rw [Text.fitsInt64_iff] at h ⊢
  omega

theorem exists_slices (hfew : Text.fitsInt64 (s.ofPost post).length = true) (size : Int) (key : SortKey)
    (order : SortOrder) : ∃ m all, 0 < m ∧ all.Perm (s.ofPost post) ∧ ∀ number,
      (s.list post (.normalized number size key order)).1 = slice all m (max number 1 - 1).toNat := by
  obtain ⟨m, hm, hsize⟩ := Page.exists_normalized size key order
  refine ⟨m, ordered ⟨1, m, key, order⟩ (s.ofPost post), hm, ordered_perm _ _, fun number => ?_⟩
  obtain ⟨k, hk⟩ : ∃ k : Nat, max number 1 = k + 1 := ⟨(max number 1 - 1).toNat, by omega⟩
  have hfirst : Page.normalized number m key order = .normalized (k + 1) m key order := by
    simp only [Page.normalized, hk, show max ((k : Int) + 1) 1 = k + 1 by omega]
  rw [hsize, hfirst, list_eq_slice hm key order hfew, hk, show ((k : Int) + 1 - 1).toNat = k by omega]

theorem Sound.on_one_page (hs : s.Sound) (hfew : Text.fitsInt64 (s.ofPost post).length = true)
    (hc : s.comments.get? c.id = some c) (size : Int) (key : SortKey) (order : SortOrder) :
    ∃ n : Int64, 1 ≤ n.toInt ∧ ∀ number,
      c ∈ (s.list post (.normalized number size key order)).1 ↔
        c.postId = post ∧ max number 1 = n.toInt := by
  obtain ⟨m, all, hm, hall, hpage⟩ := exists_slices hfew size key order
  by_cases hpost : c.postId = post
  · have hmem : c ∈ all := hall.mem_iff.mpr (hs.mem_ofPost_iff.mpr ⟨hc, hpost⟩)
    have hnodup : all.Nodup := hall.nodup_iff.mpr (hs.nodup_ofPost post)
    obtain ⟨k, hk, honly⟩ := exists_unique_slice hm hnodup hmem
    have hbefore : k < all.length := by
      obtain ⟨i, hlow, -, hi⟩ := mem_slice.mp hk
      obtain ⟨hlt, -⟩ := List.getElem?_eq_some_iff.mp hi
      have hle : k ≤ k * m := Nat.le_mul_of_pos_right k hm
      omega
    have hn : (Int64.ofInt (k + 1)).toInt = k + 1 := by
      obtain ⟨-, hlength⟩ := Text.fitsInt64_iff.mp hfew
      rw [hall.length_eq] at hbefore
      apply Int64.toInt_ofInt_of_le
      · omega
      · change (k : Int) + 1 < 9223372036854775808
        omega
    have hslice (j : Nat) : c ∈ slice all m j ↔ j = k := by
      constructor
      · exact honly j
      · rintro rfl
        exact hk
    refine ⟨.ofInt (k + 1), by omega, fun number => ?_⟩
    rw [hpage, hslice, and_iff_right hpost, hn]
    omega
  · refine ⟨1, by decide, fun number => ?_⟩
    rw [hpage]
    refine iff_of_false (fun h => hpost ?_) fun h => hpost h.1
    have hmem : c ∈ all := List.mem_of_mem_drop (List.mem_of_mem_take h)
    exact (hs.mem_ofPost_iff.mp (hall.mem_iff.mp hmem)).2

end CommentStore

namespace Backend

open Lifecycle

theorem perform_listComments {b : Backend} (ho : b.storeOutage = none) (post : String) (p : Page) :
    b.perform (listComments post p) =
      ((checkPost post).bind fun _ => b.store.listing post p, b) := by
  rw [listComments, perform_bind, perform_ofExcept]
  cases checkPost post with
  | error f => rfl
  | ok u =>
    dsimp only
    rw [bind_of_ok (perform_beforeCall ho .list), perform_bind, perform_get]
    simp only [CommentStore.listing]
    rcases b.store.list post p with ⟨cs, total⟩
    generalize PageSummary.of? total p.number p.size = summary
    cases summary with
    | none => rfl
    | some summary => rfl

theorem checkPost_of_blank {s : String} (h : Text.blank s = true) :
    checkPost s = .error (.invalid "post id is required") := if_pos h

theorem checkPost_of_not_blank {s : String} (h : Text.blank s = false) : checkPost s = .ok () :=
  if_neg (by simp [h])

def Unplaced {α : Type} (x : Action α) : Prop :=
  ∀ b : Backend, b.perform x = (.error (.invalid "post id is required"), b)

theorem unplaced_bind {α : Type} {s : String} (h : Text.blank s = true) (f : Unit → Action α) :
    Unplaced (ofExcept (checkPost s) >>= f) := by
  intro b
  rw [perform_bind, perform_ofExcept, checkPost_of_blank h]

def deserted : Backend :=
  { start { chain := [], patience := 0 } ⟨0, 0⟩ ⟨24, 0⟩ ⟨8, 0⟩ with
    storeOutage := some (.list, .internal "out of order") }

theorem unplaced_create (s : String) (author : Int) (body : String) (m : Moment) :
    Unplaced (createComment s author body m) ↔ Text.blank s = true := by
  constructor
  · intro h
    by_contra hs
    rw [Bool.not_eq_true] at hs
    have hdeserted := h deserted
    rw [createComment, checkPost_of_not_blank hs, checkBody] at hdeserted
    split at hdeserted
    · have hfault := Except.error.inj (congrArg Prod.fst hdeserted)
      exact absurd hfault (by decide)
    · cases hdeserted
  · intro h
    exact unplaced_bind h _

theorem unplaced_list (s : String) (p : Page) :
    Unplaced (listComments s p) ↔ Text.blank s = true := by
  constructor
  · intro h
    by_contra hs
    rw [Bool.not_eq_true] at hs
    have hdeserted := h deserted
    rw [listComments, checkPost_of_not_blank hs] at hdeserted
    cases hdeserted
  · intro h
    exact unplaced_bind h _

variable {b b' : Backend}

theorem Sound.createComment_ok (hb : b.Sound) {s body : String} {author : Int} {m : Moment}
    {c : Comment} (h : b.perform (createComment s author body m) = (.ok c, b')) :
    Text.blank s = false ∧ c.postId = Text.trim s ∧ b'.store.comments.get? c.id = some c ∧
      b'.Sound := by
  have hs : Text.blank s = false := by
    by_contra hs
    rw [(unplaced_create s author body m).mpr (by simpa using hs) b] at h
    cases h
  obtain ⟨sources, user, hl⟩ := Overlap.perform_load_create b s body author m
  change b.perform ((Request.create s author body).carryOut m) = _ at h
  rw [Request.carryOut_eq] at h
  obtain ⟨p, b₁, hload, hstore⟩ := bind_ok h
  rw [hl] at hload
  cases user with
  | error f => cases hload
  | ok user =>
    cases hload
    have hb₁ : Sound { b with sources } := { hb with }
    have hstored := Mutation.store_ok hstore
    have hsound := hb₁.store_step hstored
    cases hstored with
    | create => exact ⟨hs, rfl, Table.get?_insert_self _ _ _, hsound⟩

theorem created_is_listed_under_the_trimmed_id (sources : Sources) (bounds : HistoryBounds)
    (commentIds epochs : Supply) (before : List Move) (s : String) (author : Int) (body : String)
    (m : Moment) :
    let b := (start sources bounds commentIds epochs).moves before
    let r := b.perform (createComment s author body m)
    (Unplaced (createComment s author body m) ↔ Text.blank s = true) ∧
    (∀ p, Unplaced (listComments s p) ↔ Text.blank s = true) ∧
    ∀ c, r.1 = .ok c → c.postId = Text.trim s ∧ ∀ later, let b' := r.2.moves later
      ∀ d, b'.store.comments.get? c.id = some d → b'.storeOutage = none →
        Text.fitsInt64 b'.store.comments.entries.length = true →
        d = { c with body := d.body, updatedAt := d.updatedAt } ∧
        ∀ post, post = s ∨ post = Text.trim s → (d ∈ b'.store.ofPost post ↔ post = Text.trim s) ∧
          ∀ size key order, ∃ n : Int64, 1 ≤ n.toInt ∧ ∀ number : Int64, ∃ cs summary,
            b'.perform (listComments post (.normalized number.toInt size key order)) =
              (.ok (cs, summary), b') ∧
            summary.total = (b'.store.ofPost post).length ∧
            (d ∈ cs ↔ post = Text.trim s ∧ max number.toInt 1 = n.toInt) := by
  intro b r
  have hb : b.Sound := (sound_start ..).moves before
  refine ⟨unplaced_create s author body m, unplaced_list s, ?_⟩
  intro c hc
  obtain ⟨hs, hpost, hget, hr⟩ := hb.createComment_ok (Prod.ext hc rfl)
  refine ⟨hpost, ?_⟩
  intro later b' d hd ho hfew
  have hb' : b'.Sound := hr.moves later
  have hcopied : Overlap.Copied b' c := (Overlap.copied_of_get hr hget).2.moves hr later
  have hkept := hcopied.kept d hd
  have hid : d.id = c.id := hb'.store.keyed c.id d hd
  have hdpost : d.postId = Text.trim s := by rw [hkept, hpost]
  rw [← hid] at hd
  refine ⟨hkept, ?_⟩
  intro post hspelled
  have hplaced : Text.blank post = false := by
    rcases hspelled with rfl | rfl
    · exact hs
    · rw [Text.blank_trim, hs]
  have hfits := CommentStore.ofPost_fits hfew post
  refine ⟨?_, fun size key order => ?_⟩
  · rw [hb'.store.mem_ofPost_iff, hdpost, eq_comm (a := post)]
    exact and_iff_right hd
  · obtain ⟨n, hn, hpages⟩ := hb'.store.on_one_page hfits hd size key order
    refine ⟨n, hn, fun number => ?_⟩
    let p := Page.normalized number.toInt size key order
    obtain ⟨summary, hlisting, htotal, -⟩ :=
      CommentStore.listing_eq (p := p) (Page.one_le_size _ size key order) hfits
    refine ⟨(b'.store.list post p).1, summary, ?_, htotal, ?_⟩
    · rw [perform_listComments ho, checkPost_of_not_blank hplaced]
      exact congrArg (·, b') hlisting
    · rw [hpages, hdpost, eq_comm (a := post)]

theorem padded_id_is_not_listed :
    let b := start { chain := [.ofUsers [⟨7, "Ada", "Lovelace", ""⟩]], patience := 0 } ⟨2, 60000⟩
      ⟨24, 0⟩ ⟨8, 0⟩
    let r := b.perform (createComment " P1 " 7 "hi" ⟨0, 0⟩)
    let listed (post : String) :=
      (r.2.perform (listComments post (.normalized 1 10 .createdAt .descending))).1.toOption.map
        fun answer => (answer.1.map Comment.id, answer.2.total)
    r.1.toOption.map (fun c => (c.id, c.postId)) = some ("000000000000000000000000", "P1") ∧
      listed " P1 " = some ([], 0) ∧ listed "P1" = some (["000000000000000000000000"], 1) := by
  decide +kernel

end Backend

end LiveComments
