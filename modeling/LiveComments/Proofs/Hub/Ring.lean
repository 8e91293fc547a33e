import LiveComments.Hub.Ring
import Mathlib.Data.List.Basic

namespace LiveComments.Ring

def retained (r : Ring) : List Publication := r.entries.map Entry.publication

@[simp] theorem start_epoch (b : HistoryBounds) (e : String) : (start b e).epoch = e := rfl

@[simp] theorem push_epoch (r : Ring) (e : Event) (now : Int) : (r.push e now).epoch = r.epoch := rfl

@[simp] theorem push_top (r : Ring) (e : Event) (now : Int) : (r.push e now).top = r.top + 1 := rfl

theorem evict_suffix (r : Ring) (now : Int) : (r.evict now).entries <:+ r.entries :=
  (List.dropWhile_suffix _).trans (List.drop_suffix _ _)

theorem evict_retained (r : Ring) (now : Int) : (r.evict now).retained <:+ r.retained :=
  (r.evict_suffix now).map _

theorem push_retained (r : Ring) (e : Event) (now : Int) :
    (r.push e now).retained <:+ r.retained ++ [⟨r.top + 1, e⟩] := by
  have h := evict_retained { r with top := r.top + 1, entries := r.entries ++ [⟨r.top + 1, e, now⟩] } now
  simp only [retained, List.map_append, List.map_singleton] at h
  exact h

theorem push_last (r : Ring) (e : Event) (now : Int) (hsize : 0 < r.bounds.size)
    (hlife : 0 < r.bounds.lifetime) :
    (r.push e now).entries.getLast? = some ⟨r.top + 1, e, now⟩ := by
  have hyoung : Entry.expired r.bounds.lifetime now ⟨r.top + 1, e, now⟩ = false := by
    simpa [Entry.expired] using hlife
  simp only [push, evict, List.length_append, List.length_singleton]
  rw [List.drop_append_of_le_length (by omega)]
  generalize r.entries.drop (r.entries.length + 1 - r.bounds.size) = es
  induction es with
  | nil => simp [hyoung]
  | cons x es ih =>
    rw [List.cons_append, List.dropWhile_cons]
    split
    · exact ih
    · rw [← List.cons_append, List.getLast?_concat]

structure Follows (r : Ring) (stream : List Publication) : Prop where
  top : r.top = stream.length
  numbered : stream.map (·.offset) = List.range' 1 stream.length
  suffix : r.retained <:+ stream

theorem follows_start (b : HistoryBounds) (e : String) : (start b e).Follows [] :=
  ⟨rfl, rfl, List.suffix_rfl⟩

theorem filter_after {ps : List Publication} {first : Nat}
    (h : ps.map (·.offset) = List.range' first ps.length) (o : Nat) :
    ps.filter (o < ·.offset) = ps.drop (o + 1 - first) := by
  induction ps generalizing first with
  | nil => simp
  | cons p ps ih =>
    rw [List.length_cons, List.range'_succ, List.map_cons, List.cons.injEq] at h
    by_cases hp : o < p.offset
    · have hz : o + 1 - first = 0 := by omega
      have hz' : o + 1 - (first + 1) = 0 := by omega
      rw [List.filter_cons_of_pos (by simpa using hp), ih h.2, hz, hz']
      rfl
    · have hs : o + 1 - first = (o + 1 - (first + 1)) + 1 := by omega
      rw [List.filter_cons_of_neg (by simpa using hp), ih h.2, hs, List.drop_succ_cons]

def gone (r : Ring) : Nat := r.top - r.entries.length

namespace Follows

variable {r : Ring} {stream : List Publication}

theorem evict (h : r.Follows stream) (now : Int) : (r.evict now).Follows stream :=
  ⟨h.top, h.numbered, (r.evict_retained now).trans h.suffix⟩

theorem push (h : r.Follows stream) (e : Event) (now : Int) :
    (r.push e now).Follows (stream ++ [⟨r.top + 1, e⟩]) where
  top := by simp [h.top]
  numbered := by
    rw [List.map_append, h.numbered, List.length_append, List.length_singleton, List.range'_concat,
      h.top]
    simp [Nat.add_comm]
  suffix := (push_retained r e now).trans (List.suffix_append_self_iff.mpr h.suffix)

theorem gone_le (h : r.Follows stream) : r.gone ≤ stream.length := by
  rw [gone, h.top]
  exact Nat.sub_le _ _

theorem retained_eq (h : r.Follows stream) : r.retained = stream.drop r.gone := by
  have hs := List.suffix_iff_eq_drop.mp h.suffix
  rw [gone, h.top]
  simpa [retained] using hs

theorem numbered_drop (h : r.Follows stream) (k : Nat) :
    (stream.drop k).map (·.offset) = List.range' (k + 1) (stream.length - k) := by
  rw [List.map_drop, h.numbered, List.drop_range', Nat.mul_one, Nat.add_comm]

theorem filter_eq_drop (h : r.Follows stream) (o : Nat) :
    stream.filter (o < ·.offset) = stream.drop o := filter_after h.numbered o

theorem firstRetained_eq (h : r.Follows stream) : r.firstRetained = r.gone + 1 := by
  have hn := h.numbered_drop r.gone
  rw [← h.retained_eq, retained] at hn
  unfold firstRetained
  cases he : r.entries with
  | nil => simp [gone, he]
  | cons e es =>
    have hlen : stream.length - r.gone = es.length + 1 := by
      have := congrArg List.length hn
      simpa [he] using this.symm
    rw [he, hlen, List.map_cons, List.map_cons, List.range'_succ, List.cons.injEq] at hn
    exact hn.1

theorem after_publications (h : r.Follows stream) {p : Position} (hp : r.covers p = true) :
    (r.after p).publications = stream.drop (max r.gone p.offset) := by
  have hn : r.retained.map (·.offset) = List.range' (r.gone + 1) r.retained.length := by
    rw [h.retained_eq, h.numbered_drop, List.length_drop]
  have hf := filter_after hn p.offset
  rw [retained, List.filter_map] at hf
  simp only [after, hp, if_true]
  calc (r.entries.filter (p.offset < ·.offset)).map Entry.publication
      = r.retained.drop (p.offset + 1 - (r.gone + 1)) := hf
    _ = stream.drop (max r.gone p.offset) := by
      rw [h.retained_eq, List.drop_drop]
      congr 1
      omega

theorem after_recovered (h : r.Follows stream) {p : Position} (hp : r.covers p = true) :
    (r.after p).recovered = true ↔ r.gone ≤ p.offset := by
  simp [after, hp, h.firstRetained_eq]

theorem offset_le (h : r.Follows stream) {p : Position} (hp : r.covers p = true) :
    p.offset ≤ stream.length := by
  simp only [covers, Bool.and_eq_true, decide_eq_true_eq] at hp
  exact h.top ▸ hp.2

theorem all_retained_iff (h : r.Follows stream) {o : Nat} (ho : o ≤ stream.length) :
    (∀ x ∈ stream.drop o, x ∈ r.retained) ↔ r.gone ≤ o := by
  constructor
  · intro hall
    by_contra hlt
    have hlen : o < stream.length := by have := h.gone_le; omega
    have hx : stream[o] ∈ r.retained := hall _ (by
      rw [List.drop_eq_getElem_cons hlen]; exact List.mem_cons_self)
    have hat : stream[o].offset = o + 1 := by
      have := List.getElem_of_eq h.numbered (i := o) (by simpa using hlen)
      simpa [Nat.add_comm] using this
    have hmem : stream[o].offset ∈ List.range' (r.gone + 1) (stream.length - r.gone) := by
      rw [← h.numbered_drop, ← h.retained_eq]
      exact List.mem_map_of_mem hx
    rw [hat, List.mem_range'_1] at hmem
    omega
  · intro hle x hx
    rw [h.retained_eq]
    exact (List.drop_suffix_drop_left stream hle).subset hx

theorem recovered_iff (h : r.Follows stream) {p : Position} (hp : r.covers p = true) :
    (r.after p).recovered = true ↔ ∀ x ∈ stream.drop p.offset, x ∈ r.retained :=
  (h.after_recovered hp).trans (h.all_retained_iff (h.offset_le hp)).symm

theorem publications_of_recovered (h : r.Follows stream) {p : Position} (hp : r.covers p = true)
    (hr : (r.after p).recovered = true) : (r.after p).publications = stream.drop p.offset := by
  rw [h.after_publications hp, Nat.max_eq_right ((h.after_recovered hp).mp hr)]

theorem publications_of_lost (h : r.Follows stream) {p : Position} (hp : r.covers p = true)
    (hr : (r.after p).recovered = false) :
    (r.after p).publications <:+ stream.drop p.offset ∧
      (r.after p).publications ≠ stream.drop p.offset := by
  have hlt : p.offset < r.gone := by
    by_contra hle
    have := (h.after_recovered hp).mpr (by omega)
    simp [this] at hr
  rw [h.after_publications hp, Nat.max_eq_left (Nat.le_of_lt hlt)]
  refine ⟨List.drop_suffix_drop_left stream (Nat.le_of_lt hlt), fun he => ?_⟩
  have hlen := congrArg List.length he
  rw [List.length_drop, List.length_drop] at hlen
  have := h.gone_le
  omega

end Follows

theorem after_uncovered {r : Ring} {p : Position} (hp : r.covers p = false) :
    r.after p = ⟨[], false⟩ := by
  simp [after, hp]

end LiveComments.Ring
