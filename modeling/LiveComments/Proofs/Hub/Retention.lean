import LiveComments.Proofs.Hub.Window

namespace LiveComments.Ring

def Op.answer? (r : Ring) : Op → Option Nat
  | push event now => some (r.push event now).top
  | _ => none

def answers (r : Ring) : List Op → List Nat
  | [] => []
  | op :: ops => (op.answer? r).toList ++ (r.step op).answers ops

theorem answers_eq (r : Ring) (ops : List Op) :
    r.answers ops = List.range' (r.top + 1) (ops.filterMap Op.pushed?).length := by
  induction ops generalizing r with
  | nil => rfl
  | cons op ops ih =>
    cases op with
    | push event now => simp [answers, Op.answer?, Op.pushed?, ih, step, List.range'_succ]
    | evict now => exact ih _
    | since position now => exact ih _

theorem length_pushes (ops : List Op) : (pushes ops).length = (ops.filterMap Op.pushed?).length := by
  simp [pushes]

theorem length_evict (r : Ring) (now : Int) : (r.evict now).entries.length ≤ r.bounds.size := by
  have hdropped := (List.dropWhile_suffix (l := r.entries.drop (r.entries.length - r.bounds.size))
    (Entry.expired r.bounds.lifetime now)).length_le
  rw [List.length_drop] at hdropped
  simp only [evict]
  omega

theorem length_step (r : Ring) (op : Op) :
    (r.step op).entries.length ≤ r.bounds.size ∧ (r.step op).bounds = r.bounds := by
  cases op with
  | push event now => exact ⟨length_evict _ now, rfl⟩
  | evict now => exact ⟨r.length_evict now, rfl⟩
  | since position now => exact ⟨r.length_evict now, rfl⟩

theorem length_run (bounds : HistoryBounds) (epoch : String) (ops : List Op) :
    ((start bounds epoch).run ops).entries.length ≤ bounds.size ∧
      ((start bounds epoch).run ops).bounds = bounds := by
  induction ops using List.reverseRecOn with
  | nil => exact ⟨Nat.zero_le _, rfl⟩
  | append_singleton ops op ih =>
    obtain ⟨hlength, hbounds⟩ := length_step ((start bounds epoch).run ops) op
    rw [run_concat]
    rw [ih.2] at hlength hbounds
    exact ⟨hlength, hbounds⟩

theorem follows_run (bounds : HistoryBounds) (epoch : String) (ops : List Op) :
    ((start bounds epoch).run ops).Follows ((pushes ops).map Entry.publication) := by
  obtain ⟨htop, hsuffix⟩ := run_suffix bounds epoch ops
  exact follows_pushes htop hsuffix

theorem mem_step {r : Ring} {op : Op} {e : Entry} (h : e ∈ (r.step op).entries) :
    e ∈ r.entries ∨ r.top < e.offset := by
  cases op with
  | push event now =>
    rcases List.mem_append.mp ((evict_suffix _ now).subset h) with hold | hnew
    · exact .inl hold
    · obtain rfl := List.mem_singleton.mp hnew
      exact .inr (Nat.lt_succ_self _)
  | evict now => exact .inl ((r.evict_suffix now).subset h)
  | since position now => exact .inl ((r.evict_suffix now).subset h)

theorem top_le_step (r : Ring) (op : Op) : r.top ≤ (r.step op).top := by
  cases op with
  | push event now => exact Nat.le_succ _
  | evict now => exact le_refl _
  | since position now => exact le_refl _

theorem mem_run {r : Ring} {more : List Op} {e : Entry} (h : e ∈ (r.run more).entries) :
    e ∈ r.entries ∨ r.top < e.offset := by
  induction more generalizing r with
  | nil => exact .inl h
  | cons op more ih =>
    rcases ih h with hstep | hlater
    · exact mem_step hstep
    · exact .inr ((r.top_le_step op).trans_lt hlater)

theorem offset_le_of_mem_pushes {ops : List Op} {e : Entry} (h : e ∈ pushes ops) :
    e.offset ≤ (pushes ops).length := by
  obtain ⟨i, hi, rfl⟩ := List.mem_iff_getElem.mp h
  rw [offset_pushes]
  omega

/-- The numbers that are computed to answer a position: none for one that the ring does not cover. -/
def computed (r : Ring) (p : Position) : List Nat :=
  if r.covers p then [r.top + 1, r.firstRetained, p.offset + 1] else []

variable {r : Ring} {stream : List Publication} {p : Position}

theorem Follows.retained_offsets (h : r.Follows stream) :
    r.entries.map (·.offset) = List.range' (r.top - r.entries.length + 1) r.entries.length := by
  have hnumbered := h.numbered_drop r.gone
  have hlength : stream.length - r.gone = r.entries.length := by
    rw [← List.length_drop, ← h.retained_eq, retained, List.length_map]
  rw [← h.retained_eq, hlength, retained, List.map_map] at hnumbered
  exact hnumbered

theorem Follows.computed_le (h : r.Follows stream) : ∀ n ∈ r.computed p, n ≤ r.top + 1 := by
  intro n hn
  unfold computed at hn
  split at hn
  · rename_i hp
    have hoffset := h.offset_le hp
    have hfirst := h.firstRetained_eq
    have hgone := h.gone_le
    have htop := h.top
    simp only [List.mem_cons, List.not_mem_nil, or_false] at hn
    omega
  · cases hn

theorem Follows.recovered_iff_numbers (h : r.Follows stream) (hp : r.covers p = true) :
    (r.after p).recovered = true ↔ (r.after p).publications.map (·.offset) =
      List.range' (p.offset + 1) (r.top - p.offset) := by
  rw [h.after_recovered hp, h.after_publications hp, h.numbered_drop, h.top]
  constructor
  · intro hle
    rw [max_eq_right hle]
  · intro heq
    have hlength := congrArg List.length heq
    rw [List.length_range', List.length_range'] at hlength
    have hoffset := h.offset_le hp
    have hgone := h.gone_le
    omega

theorem covers_iff (r : Ring) (p : Position) :
    r.covers p = true ↔ p.epoch = r.epoch ∧ p.offset ≤ r.top := by
  rw [covers, Bool.and_eq_true, decide_eq_true_eq, decide_eq_true_eq]

/-- After any operations at any times a ring holds a contiguous end of everything that was pushed, no
longer than its size, and an answer is all that was missed exactly when its numbers say so. -/
theorem keeps_a_suffix_under_any_clock (bounds : HistoryBounds) (epoch : String) (ops : List Op) :
    let r := (start bounds epoch).run ops
    let log := pushes ops
    (start bounds epoch).answers ops = List.range' 1 log.length ∧
      r.top = log.length ∧ r.epoch = epoch ∧
      r.entries <:+ log ∧
      r.entries.map (·.offset) = List.range' (r.top - r.entries.length + 1) r.entries.length ∧
      r.entries.length ≤ bounds.size ∧
      (∀ more, ∀ e ∈ log, e ∉ r.entries → e ∉ (r.run more).entries) ∧
      ∀ p now, let kept := (r.since p now).1
        let answer := (r.since p now).2
        kept = (start bounds epoch).run (ops ++ [.since p now]) ∧
        (p.epoch ≠ epoch ∨ r.top < p.offset → answer.publications = [] ∧ answer.recovered = false) ∧
        (p.epoch = epoch → p.offset ≤ r.top →
          answer.publications = (kept.entries.filter (p.offset < ·.offset)).map Entry.publication ∧
          (answer.recovered = true ↔ answer.publications.map (·.offset) =
            List.range' (p.offset + 1) (r.top - p.offset))) ∧
        ∀ n ∈ kept.computed p, n ≤ r.top + 1 := by
  intro r log
  obtain ⟨htop, hsuffix⟩ : r.top = log.length ∧ r.entries <:+ log := run_suffix bounds epoch ops
  have hepoch : r.epoch = epoch := run_epoch (start bounds epoch) ops
  refine ⟨?_, htop, hepoch, hsuffix, (follows_run bounds epoch ops).retained_offsets,
    (length_run bounds epoch ops).1, ?_, ?_⟩
  · rw [answers_eq, length_pushes]
    rfl
  · intro more e he hgone hback
    rcases mem_run hback with hkept | hlater
    · exact hgone hkept
    · rw [htop] at hlater
      exact absurd (offset_le_of_mem_pushes he) (Nat.not_le.mpr hlater)
  · intro p now kept answer
    have hfollows : kept.Follows (log.map Entry.publication) := (follows_run bounds epoch ops).evict now
    have hkept : (start bounds epoch).run (ops ++ [.since p now]) = kept := run_concat _ ops _
    refine ⟨hkept.symm, ?_, ?_, hfollows.computed_le⟩
    · intro hforeign
      have hp : kept.covers p = false := by
        rw [← Bool.not_eq_true, covers_iff]
        rintro ⟨he, ho⟩
        rcases hforeign with hne | hlt
        · exact hne (he.trans hepoch)
        · exact absurd ho (Nat.not_le.mpr hlt)
      change (kept.after p).publications = [] ∧ (kept.after p).recovered = false
      rw [after_uncovered hp]
      exact ⟨rfl, rfl⟩
    · intro he ho
      have hp : kept.covers p = true := (covers_iff kept p).mpr ⟨he.trans hepoch.symm, ho⟩
      refine ⟨?_, hfollows.recovered_iff_numbers hp⟩
      change (kept.after p).publications = _
      rw [after, if_pos hp]

end LiveComments.Ring
