import LiveComments.Proofs.Hub.Ring
import Mathlib.Data.List.Induction
import Mathlib.Order.MinMax

namespace LiveComments.Ring

section Leading

variable {α : Type} {P : α → Bool} {l : List α}

theorem countP_of_head {a : α} (h : (a :: l).Pairwise fun x y => P y = true → P x = true)
    (ha : P a = false) : l.countP P = 0 := by
  rw [List.countP_eq_zero]
  intro b hb hPb
  have hPa := (List.pairwise_cons.mp h).1 b hb hPb
  rw [ha] at hPa
  cases hPa

theorem dropWhile_eq_drop (h : l.Pairwise fun x y => P y = true → P x = true) :
    l.dropWhile P = l.drop (l.countP P) := by
  induction l with
  | nil => rfl
  | cons a l ih =>
    cases ha : P a with
    | true => simp [ha, ih (List.pairwise_cons.mp h).2]
    | false => simp [ha, countP_of_head h ha]

theorem filter_not_eq_drop (h : l.Pairwise fun x y => P y = true → P x = true) :
    (l.filter fun x => !P x) = l.drop (l.countP P) := by
  induction l with
  | nil => rfl
  | cons a l ih =>
    cases ha : P a with
    | true => simp [ha, ih (List.pairwise_cons.mp h).2]
    | false =>
      have hzero := countP_of_head h ha
      have hall : (l.filter fun x => !P x) = l := by
        rw [List.filter_eq_self]
        intro b hb
        simpa using List.countP_eq_zero.mp hzero b hb
      simp [ha, hzero, hall]

theorem countP_drop (h : l.Pairwise fun x y => P y = true → P x = true) (n : Nat) :
    (l.drop n).countP P = l.countP P - n := by
  induction l generalizing n with
  | nil => simp
  | cons a l ih =>
    cases n with
    | zero => simp
    | succ n =>
      rw [List.drop_succ_cons, ih (List.pairwise_cons.mp h).2]
      cases ha : P a with
      | true => simp [ha]
      | false => simp [ha, countP_of_head h ha]

end Leading

inductive Op where
  | push (event : Event) (now : Int)
  | evict (now : Int)
  | since (position : Position) (now : Int)

def Op.time : Op → Int
  | push _ now | evict now | since _ now => now

def Op.pushed? : Op → Option (Event × Int)
  | push event now => some (event, now)
  | _ => none

def step (r : Ring) : Op → Ring
  | .push event now => r.push event now
  | .evict now => r.evict now
  | .since position now => (r.since position now).1

def run (r : Ring) (ops : List Op) : Ring := ops.foldl step r

def pushes (ops : List Op) : List Entry :=
  ((ops.filterMap Op.pushed?).zipIdx 1).map fun p => ⟨p.2, p.1.1, p.1.2⟩

def window (bounds : HistoryBounds) (now : Int) (log : List Entry) : List Entry :=
  (log.drop (log.length - bounds.size)).filter fun e => now - e.time < bounds.lifetime

theorem run_concat (r : Ring) (ops : List Op) (op : Op) : r.run (ops ++ [op]) = (r.run ops).step op :=
  List.foldl_concat ..

theorem step_cases (ops : List Op) (op : Op) :
    (∃ e, pushes (ops ++ [op]) = pushes ops ++ [⟨(pushes ops).length + 1, e, op.time⟩] ∧
      ∀ r : Ring, r.step op = r.push e op.time) ∨
    (pushes (ops ++ [op]) = pushes ops ∧ ∀ r : Ring, r.step op = r.evict op.time) := by
  have hother {op : Op} (h : op.pushed? = none) : pushes (ops ++ [op]) = pushes ops := by
    simp [pushes, List.filterMap_append, h]
  cases op with
  | push e now =>
    refine .inl ⟨e, ?_, fun r => rfl⟩
    simp [pushes, Op.pushed?, Op.time, List.filterMap_append, List.zipIdx_append, Nat.add_comm]
  | evict now => exact .inr ⟨hother rfl, fun r => rfl⟩
  | since p now => exact .inr ⟨hother rfl, fun r => rfl⟩

theorem pushes_numbered (ops : List Op) :
    (pushes ops).map (·.offset) = List.range' 1 (pushes ops).length := by
  simp only [pushes, List.map_map, List.length_map, List.length_zipIdx]
  exact List.zipIdx_map_snd ..

theorem offset_pushes {ops : List Op} {i : Nat} (hi : i < (pushes ops).length) :
    (pushes ops)[i].offset = i + 1 := by
  have hat := List.getElem_of_eq (pushes_numbered ops) (i := i) (by simpa using hi)
  simpa [Nat.add_comm] using hat

theorem mem_drop_pushes {ops : List Op} {x : Entry} (k : Nat) :
    x ∈ (pushes ops).drop k ↔ x ∈ pushes ops ∧ k < x.offset := by
  constructor
  · intro hx
    obtain ⟨i, hi, rfl⟩ := List.mem_drop_iff_getElem.mp hx
    refine ⟨List.getElem_mem _, ?_⟩
    rw [offset_pushes]
    omega
  · rintro ⟨hx, hk⟩
    obtain ⟨i, hi, rfl⟩ := List.mem_iff_getElem.mp hx
    rw [offset_pushes] at hk
    refine List.mem_drop_iff_getElem.mpr ⟨i - k, by omega, ?_⟩
    congr 1
    omega

theorem pushes_concat (ops : List Op) (op : Op) : pushes ops <+: pushes (ops ++ [op]) := by
  obtain ⟨e, hpushes, -⟩ | ⟨hpushes, -⟩ := step_cases ops op
  · exact hpushes ▸ List.prefix_append ..
  · exact hpushes ▸ List.prefix_rfl

theorem run_epoch (r : Ring) (ops : List Op) : (r.run ops).epoch = r.epoch := by
  induction ops generalizing r with
  | nil => rfl
  | cons op ops ih => cases op <;> exact ih _

theorem run_suffix (bounds : HistoryBounds) (epoch : String) (ops : List Op) :
    ((start bounds epoch).run ops).top = (pushes ops).length ∧
      ((start bounds epoch).run ops).entries <:+ pushes ops := by
  induction ops using List.reverseRecOn with
  | nil => exact ⟨rfl, List.suffix_rfl⟩
  | append_singleton ops op ih =>
    obtain ⟨htop, hsuffix⟩ := ih
    rw [run_concat]
    generalize (start bounds epoch).run ops = r at htop hsuffix
    obtain ⟨e, hpushes, hstep⟩ | ⟨hpushes, hstep⟩ := step_cases ops op
    · rw [hpushes, hstep, ← htop]
      refine ⟨by simp [htop], ?_⟩
      exact (evict_suffix _ op.time).trans (List.suffix_append_self_iff.mpr hsuffix)
    · rw [hpushes, hstep]
      exact ⟨htop, (r.evict_suffix op.time).trans hsuffix⟩

theorem follows_pushes {ops : List Op} {r : Ring} (htop : r.top = (pushes ops).length)
    (hsuffix : r.entries <:+ pushes ops) : r.Follows ((pushes ops).map Entry.publication) := by
  refine ⟨?_, ?_, hsuffix.map _⟩
  · rw [htop, List.length_map]
  · rw [List.map_map, List.length_map]
    exact pushes_numbered ops

variable {bounds : HistoryBounds} {log : List Entry} {now : Int} {r : Ring}

structure Timely (now : Int) (log : List Entry) : Prop where
  ordered : log.Pairwise (·.time ≤ ·.time)
  past : ∀ e ∈ log, e.time ≤ now

def outside (bounds : HistoryBounds) (now : Int) (log : List Entry) : Nat :=
  max (log.length - bounds.size) (log.countP (Entry.expired bounds.lifetime now))

theorem Timely.expired_first (h : Timely now log) (lifetime : Int) :
    log.Pairwise fun x y => y.expired lifetime now = true → x.expired lifetime now = true := by
  refine h.ordered.imp fun hxy hy => ?_
  simp only [Entry.expired, decide_eq_true_eq] at hy ⊢
  omega

theorem Timely.window_eq_drop (h : Timely now log) (bounds : HistoryBounds) :
    window bounds now log = log.drop (outside bounds now log) := by
  have hfirst := h.expired_first bounds.lifetime
  have hyoung : window bounds now log =
      (log.drop (log.length - bounds.size)).filter fun e => !e.expired bounds.lifetime now := by
    refine List.filter_congr fun e he => ?_
    have hpast := h.past e (List.mem_of_mem_drop he)
    rw [Entry.expired, max_eq_right (by omega), ← decide_not]
    simp
  rw [hyoung, filter_not_eq_drop (hfirst.drop), countP_drop hfirst, List.drop_drop, outside]
  congr 1
  omega

theorem Timely.evict_entries (h : Timely now log) {k : Nat} (hk : k ≤ outside r.bounds now log)
    (hr : r.entries = log.drop k) : (r.evict now).entries = window r.bounds now log := by
  have hfirst := h.expired_first r.bounds.lifetime
  rw [h.window_eq_drop, evict, hr]
  dsimp only
  rw [List.drop_drop, dropWhile_eq_drop hfirst.drop, countP_drop hfirst, List.drop_drop,
    List.length_drop]
  unfold outside at hk ⊢
  congr 1
  omega

structure Windowed (bounds : HistoryBounds) (now : Int) (log : List Entry) (r : Ring) : Prop
    extends Timely now log where
  bounds_eq : r.bounds = bounds
  top : r.top = log.length
  entries : r.entries = window bounds now log

theorem Windowed.later {t : Int} (h : r.Windowed bounds t log) (hle : t ≤ now) :
    Timely now log ∧ outside bounds t log ≤ outside bounds now log := by
  refine ⟨⟨h.ordered, fun e he => (h.past e he).trans hle⟩, max_le_max (le_refl _) ?_⟩
  refine List.countP_mono_left fun e _ he => ?_
  simp only [Entry.expired, decide_eq_true_eq] at he ⊢
  omega

theorem Windowed.evict {t : Int} (h : r.Windowed bounds t log) (hle : t ≤ now) :
    (r.evict now).Windowed bounds now log := by
  obtain ⟨htimely, hmore⟩ := h.later hle
  refine ⟨htimely, h.bounds_eq, h.top, ?_⟩
  rw [← h.bounds_eq] at hmore ⊢
  exact htimely.evict_entries hmore (h.entries.trans (h.bounds_eq ▸ h.window_eq_drop bounds))

theorem outside_le (bounds : HistoryBounds) (now : Int) (log : List Entry) :
    outside bounds now log ≤ log.length :=
  max_le (Nat.sub_le ..) List.countP_le_length

theorem Timely.concat (h : Timely now log) {e : Entry} (he : e.time = now) :
    Timely now (log ++ [e]) := by
  constructor
  · refine List.pairwise_append.mpr ⟨h.ordered, List.pairwise_singleton .., ?_⟩
    intro x hx y hy
    obtain rfl := List.mem_singleton.mp hy
    exact he ▸ h.past x hx
  · intro x hx
    rcases List.mem_append.mp hx with hx | hx
    · exact h.past x hx
    · obtain rfl := List.mem_singleton.mp hx
      exact he.le

theorem outside_concat (bounds : HistoryBounds) (now : Int) (log : List Entry) (e : Entry) :
    outside bounds now log ≤ outside bounds now (log ++ [e]) := by
  refine max_le_max ?_ ?_
  · rw [List.length_append]
    omega
  · rw [List.countP_append]
    omega

theorem Windowed.push {t : Int} (h : r.Windowed bounds t log) (hle : t ≤ now) (e : Event) :
    (r.push e now).Windowed bounds now (log ++ [⟨log.length + 1, e, now⟩]) := by
  obtain ⟨htimely, hmore⟩ := h.later hle
  rw [← h.top]
  let newest : Entry := ⟨r.top + 1, e, now⟩
  have hlog : Timely now (log ++ [newest]) := htimely.concat rfl
  have hgrown := hmore.trans (outside_concat bounds now log newest)
  have hentries : r.entries ++ [newest] = (log ++ [newest]).drop (outside bounds t log) := by
    rw [List.drop_append_of_le_length (outside_le bounds t log), h.entries, h.window_eq_drop]
  refine ⟨hlog, h.bounds_eq, ?_, ?_⟩
  · rw [push_top, h.top, List.length_append, List.length_singleton]
  · rw [← h.bounds_eq] at hgrown hentries ⊢
    exact hlog.evict_entries (r := { r with top := r.top + 1, entries := r.entries ++ [newest] })
      hgrown hentries

theorem windowed_start (bounds : HistoryBounds) (epoch : String) (now : Int) :
    (start bounds epoch).Windowed bounds now [] :=
  ⟨⟨.nil, fun e he => nomatch he⟩, rfl, rfl, by simp [start, window]⟩

theorem Windowed.step {ops : List Op} {t : Int} (h : r.Windowed bounds t (pushes ops)) {op : Op}
    (hle : t ≤ op.time) : (r.step op).Windowed bounds op.time (pushes (ops ++ [op])) := by
  obtain ⟨e, hpushes, hstep⟩ | ⟨hpushes, hstep⟩ := step_cases ops op
  · rw [hpushes, hstep]
    exact h.push hle e
  · rw [hpushes, hstep]
    exact h.evict hle

theorem windowed_run (bounds : HistoryBounds) (epoch : String) (ops : List Op) (op : Op)
    (hclock : (ops ++ [op]).Pairwise (·.time ≤ ·.time)) :
    ((start bounds epoch).run (ops ++ [op])).Windowed bounds op.time (pushes (ops ++ [op])) := by
  induction ops using List.reverseRecOn generalizing op with
  | nil =>
    have hstart : (start bounds epoch).Windowed bounds op.time (pushes []) :=
      windowed_start bounds epoch op.time
    exact hstart.step (le_refl _)
  | append_singleton ops last ih =>
    obtain ⟨hops, -, hle⟩ := List.pairwise_append.mp hclock
    rw [run_concat]
    exact (ih last hops).step (hle last (by simp) op List.mem_cons_self)

theorem mem_window {ops : List Op} {e : Entry} : e ∈ window bounds now (pushes ops) ↔
    e ∈ pushes ops ∧ (pushes ops).length < e.offset + bounds.size ∧ now - e.time < bounds.lifetime := by
  rw [window, List.mem_filter, mem_drop_pushes, decide_eq_true_eq, and_assoc]
  refine and_congr_right fun hmem => and_congr_left' ?_
  have hpos : 0 < e.offset := ((mem_drop_pushes 0).mp hmem).2
  omega

theorem Windowed.gone_eq (h : r.Windowed bounds now log) : r.gone = outside bounds now log := by
  have hle := outside_le bounds now log
  rw [gone, h.top, h.entries, h.window_eq_drop, List.length_drop]
  omega

theorem Windowed.recovered_iff {ops : List Op} (h : r.Windowed bounds now (pushes ops)) {p : Position}
    (hp : r.covers p = true) : (r.after p).recovered = true ↔
      ∀ e ∈ pushes ops, p.offset < e.offset → e ∈ window bounds now (pushes ops) := by
  have hsuffix : r.entries <:+ pushes ops := by
    rw [h.entries, h.window_eq_drop]
    exact List.drop_suffix _ _
  have hfollows := follows_pushes h.top hsuffix
  have hle := outside_le bounds now (pushes ops)
  simp only [hfollows.after_recovered hp, h.gone_eq, h.window_eq_drop, mem_drop_pushes]
  constructor
  · intro hout e he hlt
    exact ⟨he, hout.trans_lt hlt⟩
  · intro hall
    by_contra hlt
    -- The first entry outside the window that the position does not reach.
    have hnext : p.offset < (pushes ops).length := by omega
    have hmem : (pushes ops)[p.offset] ∈ (pushes ops).drop p.offset :=
      List.mem_drop_iff_getElem.mpr ⟨0, by omega, rfl⟩
    obtain ⟨he, hlate⟩ := (mem_drop_pushes p.offset).mp hmem
    have := (hall _ he hlate).2
    have hoffset : (pushes ops)[p.offset].offset = p.offset + 1 := offset_pushes hnext
    omega

/-- After each operation a ring holds the entries inside both bounds and no others, and what it gives
back after a position is the part of the window after it. -/
theorem holds_the_sliding_window (bounds : HistoryBounds) (epoch : String) (ops : List Op) (op : Op)
    (hclock : (ops ++ [op]).Pairwise (·.time ≤ ·.time)) :
    let before := (start bounds epoch).run ops
    let after := before.step op
    let log := pushes (ops ++ [op])
    let inside (e : Entry) := log.length < e.offset + bounds.size ∧ op.time - e.time < bounds.lifetime
    after.entries = window bounds op.time log ∧
      after.top = log.length ∧
      (∀ e, e ∈ after.entries ↔ e ∈ log ∧ inside e) ∧
      (∀ e ∈ before.entries, inside e → e ∈ after.entries) ∧
      ∀ p now, op = .since p now → p.epoch = epoch → p.offset ≤ after.top →
        let answer := (before.since p now).2
        answer.publications =
            ((window bounds now log).filter (p.offset < ·.offset)).map Entry.publication ∧
          (answer.recovered = true ↔
            ∀ e ∈ log, p.offset < e.offset → e ∈ window bounds now log) := by
  intro before after log inside
  have hafter : after.Windowed bounds op.time log := by
    have := windowed_run bounds epoch ops op hclock
    rwa [run_concat] at this
  have hmem (e : Entry) : e ∈ after.entries ↔ e ∈ log ∧ inside e := by
    rw [hafter.entries, mem_window]
  refine ⟨hafter.entries, hafter.top, hmem, ?_, ?_⟩
  · intro e he hinside
    have hlog := (pushes_concat ops op).subset ((run_suffix bounds epoch ops).2.subset he)
    exact (hmem e).mpr ⟨hlog, hinside⟩
  · rintro p now rfl hepoch hoffset answer
    have hp : after.covers p = true := by
      have he : after.epoch = epoch := run_epoch (start bounds epoch) ops
      simp only [covers, he, hepoch, decide_true, Bool.true_and, decide_eq_true_eq]
      exact hoffset
    refine ⟨?_, hafter.recovered_iff hp⟩
    have hgiven : answer.publications =
        (after.entries.filter (p.offset < ·.offset)).map Entry.publication := by
      change (after.after p).publications = _
      rw [Ring.after, if_pos hp]
    rw [hgiven, hafter.entries]
    rfl

theorem holds_the_third_of_three :
    let ops : List Op := [.push ⟨"a", .null, 0⟩ 0, .push ⟨"b", .null, 0⟩ 3, .evict 4,
      .push ⟨"c", .null, 0⟩ 4]
    let r := (start ⟨2, 10⟩ "e").run ops
    (ops ++ [Op.since ⟨"e", 1⟩ 13]).Pairwise (·.time ≤ ·.time) ∧
      r.entries.map (·.offset) = [2, 3] ∧
      (r.since ⟨"e", 1⟩ 13).1.entries.map (·.offset) = [3] ∧
      (r.since ⟨"e", 1⟩ 13).2.publications.map (·.offset) = [3] ∧
      (r.since ⟨"e", 1⟩ 13).2.recovered = false := by
  intro ops r
  have hclock : (ops ++ [Op.since ⟨"e", 1⟩ 13]).Pairwise (·.time ≤ ·.time) := by decide
  obtain ⟨hentries, -, -, -, hanswer⟩ :=
    holds_the_sliding_window ⟨2, 10⟩ "e" ops (.since ⟨"e", 1⟩ 13) hclock
  obtain ⟨hpublications, hrecovered⟩ := hanswer ⟨"e", 1⟩ 13 rfl rfl (by decide)
  refine ⟨hclock, rfl, congrArg (List.map (·.offset)) hentries, ?_, ?_⟩
  · exact congrArg (List.map (·.offset)) hpublications
  · rw [← Bool.not_eq_true, hrecovered]
    intro hall
    have hsecond := hall ⟨2, ⟨"b", .null, 0⟩, 3⟩ (by simp [ops, pushes, Op.pushed?]) (by decide)
    exact absurd (mem_window.mp hsecond).2.2 (by decide)

end LiveComments.Ring
