import LiveComments.Comment.Store
import LiveComments.Proofs.Text
import Mathlib.Algebra.Order.Floor.Div

namespace LiveComments

/-! ### Cutting a list -/

section Slice

variable {α : Type} {l : List α} {size : Nat}

def slice (l : List α) (size k : Nat) : List α := (l.drop (k * size)).take size

theorem flatMap_slice (l : List α) (size n : Nat) :
    (List.range n).flatMap (slice l size) = l.take (n * size) := by
  induction n with
  | zero => simp
  | succ n ih =>
    rw [List.range_succ, List.flatMap_append, ih, Nat.succ_mul, List.take_add]
    simp [slice]

theorem length_slice (l : List α) (size k : Nat) :
    (slice l size k).length = min size (l.length - k * size) := by
  rw [slice, List.length_take, List.length_drop]

theorem le_mul_iff {total n : Nat} (hsize : 0 < size) : total ≤ n * size ↔ total ⌈/⌉ size ≤ n := by
  rw [ceilDiv_le_iff_le_mul hsize, Nat.mul_comm]

theorem flatMap_slice_all (hsize : 0 < size) :
    (List.range (l.length ⌈/⌉ size)).flatMap (slice l size) = l := by
  rw [flatMap_slice, List.take_of_length_le]
  exact (le_mul_iff hsize).mpr (le_refl _)

theorem length_slice_of_lt {k : Nat} (hsize : 0 < size) (h : k + 1 < l.length ⌈/⌉ size) :
    (slice l size k).length = size := by
  have hmore : ¬l.length ≤ (k + 1) * size := by
    rw [le_mul_iff hsize]
    omega
  rw [Nat.succ_mul] at hmore
  rw [length_slice]
  omega

theorem slice_ne_nil {k : Nat} (hsize : 0 < size) (h : k < l.length ⌈/⌉ size) : slice l size k ≠ [] := by
  have hmore : ¬l.length ≤ k * size := by
    rw [le_mul_iff hsize]
    omega
  rw [← List.length_pos_iff, length_slice]
  omega

theorem slice_eq_nil {k : Nat} (hsize : 0 < size) (h : l.length ⌈/⌉ size ≤ k) : slice l size k = [] := by
  rw [slice, List.drop_eq_nil_of_le ((le_mul_iff hsize).mpr h), List.take_nil]

theorem mem_slice {a : α} {k : Nat} :
    a ∈ slice l size k ↔ ∃ i, k * size ≤ i ∧ i < (k + 1) * size ∧ l[i]? = some a := by
  rw [List.mem_iff_getElem?, Nat.succ_mul]
  constructor
  · rintro ⟨j, hj⟩
    rw [slice, List.getElem?_take] at hj
    split at hj
    · exact ⟨k * size + j, by omega, by omega, by rwa [List.getElem?_drop] at hj⟩
    · cases hj
  · rintro ⟨i, hlow, hhigh, hi⟩
    refine ⟨i - k * size, ?_⟩
    rw [slice, List.getElem?_take, if_pos (by omega), List.getElem?_drop]
    rwa [show k * size + (i - k * size) = i by omega]

theorem exists_unique_slice {a : α} (hsize : 0 < size) (hl : l.Nodup) (ha : a ∈ l) :
    ∃! k, a ∈ slice l size k := by
  obtain ⟨i, hi⟩ := List.mem_iff_getElem?.mp ha
  refine ⟨i / size, mem_slice.mpr ⟨i, Nat.div_mul_le_self i size, ?_, hi⟩, ?_⟩
  · rw [Nat.mul_comm]
    exact Nat.lt_mul_div_succ i hsize
  · intro k hk
    obtain ⟨j, hlow, hhigh, hj⟩ := mem_slice.mp hk
    obtain ⟨hlt, -⟩ := List.getElem?_eq_some_iff.mp hi
    obtain rfl : i = j := (List.getElem?_inj hlt hl).mp (hi.trans hj.symm)
    rw [eq_comm, Nat.div_eq_iff hsize]
    rw [Nat.succ_mul] at hhigh
    omega

theorem pages_of_slices {page : Int → List α} (hsize : 0 < size)
    (hpage : ∀ k : Nat, page (k + 1) = slice l size k) :
    ((List.range (l.length ⌈/⌉ size)).flatMap fun k : Nat => page (k + 1)) = l ∧
      (∀ number : Int, 1 ≤ number → number < (l.length ⌈/⌉ size : Nat) → (page number).length = size) ∧
      (0 < l.length ⌈/⌉ size → page (l.length ⌈/⌉ size : Nat) ≠ []) ∧
      ∀ number : Int, (l.length ⌈/⌉ size : Nat) < number → page number = [] := by
  refine ⟨?_, ?_, ?_, ?_⟩
  · rw [funext hpage]
    exact flatMap_slice_all hsize
  · intro number hnumber hlt
    obtain ⟨k, rfl⟩ : ∃ k : Nat, number = k + 1 := ⟨(number - 1).toNat, by omega⟩
    rw [hpage, length_slice_of_lt hsize (by omega)]
  · intro hlast
    obtain ⟨k, hk⟩ : ∃ k, l.length ⌈/⌉ size = k + 1 := ⟨l.length ⌈/⌉ size - 1, by omega⟩
    rw [hk, Nat.cast_succ, hpage]
    exact slice_ne_nil hsize (by omega)
  · intro number hlt
    obtain ⟨k, rfl⟩ : ∃ k : Nat, number = k + 1 := ⟨(number - 1).toNat, by omega⟩
    rw [hpage, slice_eq_nil hsize (by omega)]

end Slice

/-! ### Pages and their summaries -/

namespace Page

variable {number size : Int} {key : SortKey} {order : SortOrder}

theorem normalized_of_pos (hnumber : 1 ≤ number) (hsize : 1 ≤ size) :
    normalized number size key order = ⟨number, size, key, order⟩ := by
  rw [normalized, max_eq_left hnumber, if_neg (by omega)]

theorem normalized_fits (key : SortKey) (order : SortOrder) (hnumber : Text.fitsInt64 number = true)
    (hsize : Text.fitsInt64 size = true) :
    let p := normalized number size key order
    1 ≤ p.number ∧ 1 ≤ p.size ∧ Text.fitsInt64 p.number = true ∧ Text.fitsInt64 p.size = true := by
  rw [Text.fitsInt64_iff] at hnumber hsize
  simp only [normalized, defaultSize, Text.fitsInt64_iff]
  split <;> omega

theorem one_le_number (number size : Int) (key : SortKey) (order : SortOrder) :
    1 ≤ (normalized number size key order).number := le_max_right number 1

theorem one_le_size (number size : Int) (key : SortKey) (order : SortOrder) :
    1 ≤ (normalized number size key order).size := by
  simp only [normalized, defaultSize]
  split <;> omega

theorem exists_normalized (size : Int) (key : SortKey) (order : SortOrder) :
    ∃ m : Nat, 0 < m ∧ ∀ number, normalized number size key order = normalized number m key order := by
  by_cases hsize : size ≤ 0
  · refine ⟨10, by omega, fun number => ?_⟩
    rw [normalized, normalized, if_pos hsize]
    rfl
  · obtain ⟨m, rfl⟩ := Int.eq_ofNat_of_zero_le (show 0 ≤ size by omega)
    exact ⟨m, by omega, fun number => rfl⟩

variable {p : Page}

theorem offset_eq (hnumber : 1 ≤ p.number) (hsize : 1 ≤ p.size) :
    p.offset = min ((p.number - 1) * p.size) 9223372036854775807 :=
  Text.clampInt64_of_nonneg (Int.mul_nonneg (by omega) (by omega))

theorem offset_bounds (hnumber : 1 ≤ p.number) (hsize : 1 ≤ p.size) :
    0 ≤ p.offset ∧ p.offset ≤ 9223372036854775807 := by
  have hmul := Int.mul_nonneg (show 0 ≤ p.number - 1 by omega) (show 0 ≤ p.size by omega)
  rw [offset_eq hnumber hsize]
  omega

theorem cut_eq_slice {α : Type} {l : List α} (hnumber : 1 ≤ p.number) (hsize : 1 ≤ p.size)
    (hl : Text.fitsInt64 l.length = true) :
    (l.drop p.offset.toNat).take p.limit.toNat = slice l p.size.toNat (p.number - 1).toNat := by
  obtain ⟨n, hn⟩ := Int.eq_ofNat_of_zero_le (show 0 ≤ p.number - 1 by omega)
  obtain ⟨m, hm⟩ := Int.eq_ofNat_of_zero_le (show 0 ≤ p.size by omega)
  have hlength := (Text.fitsInt64_iff.mp hl).2
  rw [offset_eq hnumber hsize, limit, hn, hm, ← Int.natCast_mul]
  simp only [slice, Int.toNat_natCast]
  by_cases hfar : n * m ≤ 9223372036854775807
  · rw [min_eq_left (by omega), Int.toNat_natCast]
  · rw [List.drop_eq_nil_of_le (by omega), List.drop_eq_nil_of_le (by omega)]

end Page

namespace PageSummary

theorem wrap_of_fits {n : Int} (h : Text.fitsInt64 n = true) : wrap n = n := by
  obtain ⟨hlow, hhigh⟩ := Text.fitsInt64_iff.mp h
  apply Int.bmod_eq_of_le_mul_two
  · change -(18446744073709551616 : Int) ≤ n * 2
    omega
  · change n * 2 < (18446744073709551616 : Int)
    omega

theorem of?_eq {total : Nat} {number size : Int} (htotal : Text.fitsInt64 total = true)
    (hsize : 1 ≤ size) : of? total number size =
      some (if total = 0 then {} else ⟨number, size, 1, (total ⌈/⌉ size.toNat : Nat), total⟩) := by
  cases total with
  | zero => rfl
  | succ k =>
    obtain ⟨m, rfl⟩ := Int.eq_ofNat_of_zero_le (show 0 ≤ size by omega)
    have hbefore : ((k + 1 : Nat) : Int) - 1 = k := by omega
    have hquotient : (k : Int).tdiv m = (k / m : Nat) := rfl
    have hlast : (k + 1) ⌈/⌉ m = k / m + 1 := by
      rw [Nat.ceilDiv_eq_add_pred_div, show k + 1 + m - 1 = k + m by omega,
        Nat.add_div_right k (by omega)]
    have hle : k / m ≤ k := Nat.div_le_self k m
    have hfits (n : Nat) (hn : n ≤ k + 1) : Text.fitsInt64 n = true := by
      rw [Text.fitsInt64_iff] at htotal ⊢
      omega
    have hsome : ¬((m : Int) = 0 ∨ !Text.fitsInt64 ((k / m : Nat) : Int)) := by
      simp only [hfits (k / m) (by omega), Bool.not_true, Bool.false_eq_true, or_false]
      omega
    rw [of?, if_neg (by omega), hbefore, wrap_of_fits (hfits k (by omega))]
    dsimp only
    have hwrap : wrap ((k / m : Nat) + 1) = (k / m + 1 : Nat) := wrap_of_fits (hfits (k / m + 1) (by omega))
    rw [hquotient, if_neg hsome, if_neg (by omega), Int.toNat_natCast, hlast, hwrap]

theorem fits_wrap (n : Int) : Text.fitsInt64 (wrap n) = true := by
  have hlow : -(18446744073709551616 / 2 : Int) ≤ wrap n := Int.le_bmod (by decide)
  have hhigh : wrap n < ((18446744073709551616 + 1) / 2 : Int) := Int.bmod_lt (by decide)
  rw [Text.fitsInt64_iff]
  omega

theorem fits_tdiv {n size : Int} (hn : Text.fitsInt64 n = true) (hsize : 1 ≤ size) :
    Text.fitsInt64 (n.tdiv size) = true := by
  have hquotient (m : Int) (hm : 0 ≤ m) : 0 ≤ m.tdiv size ∧ m.tdiv size ≤ m :=
    ⟨Int.tdiv_nonneg hm (by omega), Int.tdiv_le_self size hm⟩
  rw [Text.fitsInt64_iff] at hn ⊢
  rcases Int.le_total 0 n with hle | hle
  · have := hquotient n hle
    omega
  · have := hquotient (-n) (by omega)
    rw [Int.neg_tdiv] at this
    omega

theorem exists_of? (total number : Int) {size : Int} (hsize : 1 ≤ size) :
    ∃ summary, of? total number size = some summary := by
  by_cases htotal : total = 0
  · exact ⟨{}, if_pos htotal⟩
  · have hfits := fits_tdiv (fits_wrap (total - 1)) hsize
    refine ⟨_, (if_neg htotal).trans (if_neg ?_)⟩
    rintro (hzero | hwide)
    · omega
    · rw [hfits] at hwide
      cases hwide

end PageSummary

/-! ### The listing of a post -/

def Comment.InOrder (key : SortKey) (order : SortOrder) (a b : Comment) : Prop :=
  match order with
  | .ascending => (CommentStore.sortTime key a).nanos ≤ (CommentStore.sortTime key b).nanos
  | .descending => (CommentStore.sortTime key b).nanos ≤ (CommentStore.sortTime key a).nanos

namespace CommentStore

def listing (s : CommentStore) (post : String) (p : Page) : Except Fault (List Comment × PageSummary) :=
  let (cs, total) := s.list post p
  match PageSummary.of? total p.number p.size with
  | some summary => .ok (cs, summary)
  | none => .error (.internal "no summary")

theorem sorted_perm (key : SortKey) (cs : List Comment) : (sorted key cs).Perm cs :=
  List.mergeSort_perm cs _

theorem ordered_perm (p : Page) (cs : List Comment) : (ordered p cs).Perm cs := by
  unfold ordered
  split
  · exact sorted_perm p.key cs
  · exact (List.reverse_perm _).trans (sorted_perm p.key cs)

theorem sorted_pairwise (key : SortKey) (cs : List Comment) :
    (sorted key cs).Pairwise (Comment.InOrder key .ascending) := by
  let le (a b : Comment) : Bool := (sortTime key a).nanos ≤ (sortTime key b).nanos
  have htrans (a b c : Comment) (hab : le a b = true) (hbc : le b c = true) : le a c = true := by
    simp only [le, decide_eq_true_eq] at hab hbc ⊢
    omega
  have htotal (a b : Comment) : (le a b || le b a) = true := by
    simp only [le, Bool.or_eq_true, decide_eq_true_eq]
    omega
  exact (List.pairwise_mergeSort htrans htotal cs).imp of_decide_eq_true

theorem ordered_pairwise (p : Page) (cs : List Comment) :
    (ordered p cs).Pairwise (Comment.InOrder p.key p.order) := by
  unfold ordered
  split
  · rename_i ho
    rw [ho]
    exact sorted_pairwise p.key cs
  · rename_i ho
    rw [ho]
    exact List.pairwise_reverse.mpr (sorted_pairwise p.key cs)

theorem list_eq_slice {s : CommentStore} {post : String} {m : Nat} (hm : 0 < m) (key : SortKey)
    (order : SortOrder) (hfew : Text.fitsInt64 (s.ofPost post).length = true) (k : Nat) :
    (s.list post (.normalized (k + 1) m key order)).1 =
      slice (ordered ⟨1, m, key, order⟩ (s.ofPost post)) m k := by
  have hnumber : 1 ≤ (k : Int) + 1 := by omega
  have hsize : 1 ≤ (m : Int) := by omega
  have hlength := (ordered_perm ⟨1, m, key, order⟩ (s.ofPost post)).length_eq
  rw [Page.normalized_of_pos hnumber hsize]
  have hcut := Page.cut_eq_slice (p := ⟨k + 1, m, key, order⟩) hnumber hsize
    (l := ordered ⟨1, m, key, order⟩ (s.ofPost post)) (by rwa [hlength])
  dsimp only at hcut
  rw [Int.toNat_natCast, show ((k : Int) + 1 - 1).toNat = k by omega] at hcut
  exact hcut

theorem list_total (s : CommentStore) (post : String) (p : Page) :
    (s.list post p).2 = (s.ofPost post).length := (ordered_perm p _).length_eq

theorem listing_of_summary {s : CommentStore} {post : String} {p : Page} {summary : PageSummary}
    (h : PageSummary.of? (s.ofPost post).length p.number p.size = some summary) :
    s.listing post p = .ok ((s.list post p).1, summary) := by
  simp only [listing, list_total, h]

theorem listing_eq {s : CommentStore} {post : String} {p : Page} (hsize : 1 ≤ p.size)
    (hfew : Text.fitsInt64 (s.ofPost post).length = true) :
    ∃ summary, s.listing post p = .ok ((s.list post p).1, summary) ∧
      summary.total = (s.ofPost post).length ∧
      summary.last = ((s.ofPost post).length ⌈/⌉ p.size.toNat : Nat) ∧
      (summary = {} ↔ s.ofPost post = []) := by
  have hlisting := listing_of_summary (PageSummary.of?_eq hfew hsize)
  refine ⟨_, hlisting, ?_⟩
  split
  · rename_i hnone
    rw [hnone, zero_ceilDiv]
    exact ⟨rfl, rfl, fun _ => List.length_eq_zero_iff.mp hnone, fun _ => rfl⟩
  · rename_i hsome
    refine ⟨rfl, rfl, fun h => ?_, fun h => absurd (List.length_eq_zero_iff.mpr h) hsome⟩
    have htotal := congrArg PageSummary.total h
    exact absurd (Int.ofNat_eq_zero.mp htotal) hsome

/-- The numbers that are computed on the way to a page and its summary. -/
def computed (p : Page) (total : Int) : List Int :=
  [p.number - 1, p.offset, p.limit, total] ++
    if total = 0 then [] else [total - 1, (total - 1).tdiv p.size, (total - 1).tdiv p.size + 1]

theorem computed_fits {p : Page} {total : Nat} (hnumber : 1 ≤ p.number) (hsize : 1 ≤ p.size)
    (hpage : Text.fitsInt64 p.number = true) (hlimit : Text.fitsInt64 p.size = true)
    (htotal : Text.fitsInt64 total = true) : ∀ n ∈ computed p total, Text.fitsInt64 n = true := by
  rw [Text.fitsInt64_iff] at hpage
  have hoffset := Page.offset_bounds hnumber hsize
  intro n hn
  rcases List.mem_append.mp hn with hn | hn
  · simp only [List.mem_cons, List.not_mem_nil, or_false] at hn
    rcases hn with rfl | rfl | rfl | rfl
    · exact Text.fitsInt64_iff.mpr (by omega)
    · exact Text.fitsInt64_iff.mpr (by omega)
    · exact hlimit
    · exact htotal
  · split at hn
    · cases hn
    · obtain ⟨m, hm⟩ := Int.eq_ofNat_of_zero_le (show 0 ≤ p.size by omega)
      obtain ⟨k, hk⟩ := Int.eq_ofNat_of_zero_le (show 0 ≤ (total : Int) - 1 by omega)
      have hquotient : (k : Int).tdiv m = (k / m : Nat) := rfl
      have hle : k / m ≤ k := Nat.div_le_self k m
      rw [Text.fitsInt64_iff] at htotal ⊢
      rw [hm, hk, hquotient] at hn
      generalize k / m = q at hn hle
      simp only [List.mem_cons, List.not_mem_nil, or_false] at hn
      omega

/-- Pages partition the comments of a post, whatever the store holds and in whatever order it holds
them. No store holds more of them than 64 bits can count. -/
theorem pages_partition_a_post (s : CommentStore) (post : String) (key : SortKey) (order : SortOrder)
    (hfew : Text.fitsInt64 (s.ofPost post).length = true) :
    let all := s.comments.values.filter (·.postId = post)
    (∀ number size : Int64, let p := Page.normalized number.toInt size.toInt key order
      (∃ answer, s.listing post p = .ok answer) ∧ 0 < p.size ∧ 0 ≤ p.offset ∧
        ∀ n ∈ computed p all.length, Text.fitsInt64 n = true) ∧
    ∀ size : Int64, 1 ≤ size.toInt → ∃ last : Nat,
      let page (number : Int) := (s.list post (.normalized number size.toInt key order)).1
      let upToLast := (List.range last).flatMap fun k : Nat => page (k + 1)
      (∀ number : Int64, 1 ≤ number.toInt → ∃ summary,
        s.listing post (.normalized number.toInt size.toInt key order) =
          .ok (page number.toInt, summary) ∧
        summary.total = all.length ∧ summary.last = last ∧ (summary = {} ↔ all = [])) ∧
      (∀ n : Nat, (all.length : Int) ≤ n * size.toInt ↔ last ≤ n) ∧
      upToLast.Perm all ∧ upToLast.Pairwise (Comment.InOrder key order) ∧
      (∀ number : Int, 1 ≤ number → number < last → (page number).length = size.toInt) ∧
      (0 < last → page last ≠ []) ∧
      ∀ number : Int, last < number → page number = [] := by
  intro all
  refine ⟨?_, ?_⟩
  · intro number size p
    obtain ⟨hnumber, hsize, hpage, hlimit⟩ := Page.normalized_fits key order
      (Text.fitsInt64_toInt number) (Text.fitsInt64_toInt size)
    obtain ⟨summary, hlisting, -⟩ := listing_eq hsize hfew
    exact ⟨⟨_, hlisting⟩, hsize, (Page.offset_bounds hnumber hsize).1,
      computed_fits hnumber hsize hpage hlimit hfew⟩
  · intro size hsize
    obtain ⟨m, hm⟩ := Int.eq_ofNat_of_zero_le (show 0 ≤ size.toInt by omega)
    have hpos : 0 < m := by omega
    let cs := ordered ⟨1, m, key, order⟩ all
    have hcs : cs.length = all.length := (ordered_perm _ all).length_eq
    let page (number : Int) := (s.list post (.normalized number m key order)).1
    have hpage (k : Nat) : page (k + 1) = slice cs m k := list_eq_slice hpos key order hfew k
    obtain ⟨hflat, hfull, hlast, hbeyond⟩ := pages_of_slices hpos hpage
    rw [hm]
    refine ⟨cs.length ⌈/⌉ m, ?_⟩
    dsimp only
    rw [hflat]
    refine ⟨?_, ?_, ordered_perm _ all, ordered_pairwise ⟨1, m, key, order⟩ all, ?_, hlast, hbeyond⟩
    · intro number hnumber
      rw [Page.normalized_of_pos hnumber (by omega), hcs]
      exact listing_eq (p := ⟨number.toInt, m, key, order⟩) (by dsimp only; omega) hfew
    · intro n
      rw [← hcs, ← le_mul_iff hpos]
      exact_mod_cast Iff.rfl
    · intro number hnumber hlt
      rw [hfull number hnumber hlt]

def fourComments : CommentStore :=
  let c (id post : String) (ms : Int) : Comment :=
    ⟨id, post, ⟨7, "Ada", "Lovelace", ""⟩, "hi", .ofMillis ms, .ofMillis ms⟩
  ⟨⟨[("a", c "a" "P" 3), ("b", c "b" "Q" 1), ("c", c "c" "P" 1), ("d", c "d" "P" 1)]⟩, 4⟩

theorem pages_partition_three_of_four :
    let page (number : Int) := (fourComments.list "P" (.normalized number 2 .createdAt .descending)).1
    Text.fitsInt64 (fourComments.ofPost "P").length = true ∧
      (page 1).length = 2 ∧ page 2 ≠ [] ∧ page 3 = [] ∧
      (page 1 ++ page 2).Perm (fourComments.ofPost "P") := by
  intro page
  have hfew : Text.fitsInt64 (fourComments.ofPost "P").length = true := by decide
  obtain ⟨-, hpages⟩ := pages_partition_a_post fourComments "P" .createdAt .descending hfew
  obtain ⟨last, -, hleast, hall, -, hfull, hlast, hbeyond⟩ := hpages 2 (by decide)
  -- Three comments need two pages of two.
  obtain rfl : last = 2 := by
    have htwo := (hleast 2).mp (by decide)
    have hone := (hleast 1).not.mp (by decide)
    omega
  refine ⟨hfew, ?_, hlast (by decide), hbeyond 3 (by decide), ?_⟩
  · exact Int.ofNat_inj.mp (hfull 1 (by decide) (by decide))
  · have hrange : List.range 2 = [0, 1] := rfl
    dsimp only at hall
    rw [hrange, List.flatMap_cons, List.flatMap_cons, List.flatMap_nil, List.append_nil] at hall
    exact hall

end CommentStore

end LiveComments
