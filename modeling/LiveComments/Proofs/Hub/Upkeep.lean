import LiveComments.Proofs.Hub.Delivery
import Mathlib.Data.List.TakeWhile

namespace LiveComments

namespace Ring

def Entry.age (now : Int) (e : Entry) : Int := max 0 (now - e.time)

theorem Entry.expired_eq_false {lifetime now : Int} {e : Entry} :
    e.expired lifetime now = false ↔ e.age now < lifetime := by
  rw [expired, age, decide_eq_false_iff_not, Int.not_le]

structure Within (bounds : HistoryBounds) (r : Ring) : Prop where
  bounds_eq : r.bounds = bounds
  length_le : r.entries.length ≤ bounds.size

variable {bounds : HistoryBounds} {r : Ring}

theorem within_start (bounds : HistoryBounds) (epoch : String) : (start bounds epoch).Within bounds :=
  ⟨rfl, Nat.zero_le _⟩

theorem within_evict (hr : r.bounds = bounds) (now : Int) : (r.evict now).Within bounds := by
  refine ⟨hr, ?_⟩
  have hdrop : (r.entries.drop (r.entries.length - r.bounds.size)).length ≤ r.bounds.size := by
    rw [List.length_drop]
    omega
  have hwhile := (List.dropWhile_suffix (l := r.entries.drop (r.entries.length - r.bounds.size))
    (Entry.expired r.bounds.lifetime now)).length_le
  rw [← hr]
  exact hwhile.trans hdrop

theorem within_push (hr : r.bounds = bounds) (e : Event) (now : Int) :
    (r.push e now).Within bounds :=
  within_evict (r := { r with top := r.top + 1, entries := r.entries ++ [⟨r.top + 1, e, now⟩] }) hr now

theorem Within.evict_entries (h : r.Within bounds) (now : Int) :
    (r.evict now).entries = r.entries.dropWhile (Entry.expired bounds.lifetime now) := by
  have hfew := h.length_le
  have hnone : r.entries.length - bounds.size = 0 := by omega
  simp only [evict, h.bounds_eq, hnone, List.drop_zero]

theorem Within.evict_eq_nil (h : r.Within bounds) (now : Int) :
    (r.evict now).entries = [] ↔ ¬∃ e ∈ r.entries, e.age now < bounds.lifetime := by
  rw [h.evict_entries, List.dropWhile_eq_nil_iff]
  simp only [← Entry.expired_eq_false, not_exists, not_and, Bool.not_eq_false]

theorem Within.young_of_evict (h : r.Within bounds) {now : Int} (hne : (r.evict now).entries ≠ []) :
    ∃ e ∈ (r.evict now).entries, e.age now < bounds.lifetime := by
  obtain ⟨e, es, he⟩ := List.exists_cons_of_ne_nil hne
  have hhead := List.head?_dropWhile_not (Entry.expired bounds.lifetime now) r.entries
  rw [← h.evict_entries, he] at hhead
  rw [he]
  exact ⟨e, List.mem_cons_self, Entry.expired_eq_false.mp hhead⟩

end Ring

namespace Hub

variable {h : Hub}

theorem step_bounds (h : Hub) (m : Message) : (h.step m).bounds = h.bounds := by
  have hleave (session channel : String) : (h.leave session channel).bounds = h.bounds := by
    unfold leave
    split
    · rfl
    · split <;> rfl
  cases m with
  | connect session user => rfl
  | disconnect session =>
    change (h.disconnect session).bounds = h.bounds
    unfold disconnect
    split <;> rfl
  | subscribe session channel recover now epoch =>
    rw [step_subscribe]
    split <;> rfl
  | unsubscribe session channel => exact hleave session channel.name
  | publish channel event now epoch => rfl
  | sweep now => rfl

theorem forall_rings_step {P : Ring → Prop} (hstart : ∀ epoch, P (.start h.bounds epoch))
    (hevict : ∀ r now, P r → P (r.evict now)) (hpush : ∀ r e now, P r → P (r.push e now))
    (hu : h.rings.Unique) (hall : ∀ n r, h.rings.get? n = some r → P r) (m : Message) :
    ∀ n r, (h.step m).rings.get? n = some r → P r := by
  have hring (n epoch : String) : P (h.ring n epoch) := by
    cases hg : h.rings.get? n with
    | none =>
      rw [ring_of_none hg]
      exact hstart epoch
    | some r =>
      rw [ring_of_some hg]
      exact hall n r hg
  intro n r hn
  cases m with
  | connect session user => exact hall n r hn
  | disconnect session => exact hall n r (disconnect_rings h session ▸ hn)
  | subscribe session channel recover now epoch =>
    rw [step_subscribe] at hn
    split at hn
    · rw [enter_ring] at hn
      split at hn
      · cases hn
        cases recover with
        | none => exact hring _ _
        | some p => exact hevict _ now (hring _ _)
      · exact hall n r hn
    · exact hall n r hn
  | unsubscribe session channel => exact hall n r (leave_rings h session channel.name ▸ hn)
  | publish channel event now epoch =>
    rw [step, publish_ring] at hn
    split at hn
    · cases hn
      exact hpush _ event now (hring _ _)
    · exact hall n r hn
  | sweep now =>
    rw [step, sweep_ring hu, Option.filter_eq_some_iff, Option.map_eq_some_iff] at hn
    obtain ⟨⟨r, hg, rfl⟩, -⟩ := hn
    exact hevict r now (hall n r hg)

theorem run_within (bounds : HistoryBounds) (ms : List Message) :
    ∀ n r, ((start bounds).run ms).rings.get? n = some r → r.Within bounds := by
  have hrun (h : Hub) (hb : h.bounds = bounds) (hu : h.rings.Unique)
      (hall : ∀ n r, h.rings.get? n = some r → r.Within bounds) :
      ∀ n r, (h.run ms).rings.get? n = some r → r.Within bounds := by
    induction ms generalizing h with
    | nil => exact hall
    | cons m ms ih =>
      apply ih (h.step m) ((step_bounds h m).trans hb) (step_rings_unique hu m)
      apply forall_rings_step
      · exact fun epoch => hb ▸ Ring.within_start h.bounds epoch
      · exact fun r now hr => Ring.within_evict hr.bounds_eq now
      · exact fun r e now hr => Ring.within_push hr.bounds_eq e now
      · exact hu
      · exact hall
  exact hrun (start bounds) rfl Table.unique_default (by simp [start])

theorem admitted_eq_false_iff {session : String} {channel : Channel} :
    h.admitted session channel = false ↔ h.sessions.get? session = none ∨
      ∃ user owner, h.sessions.get? session = some user ∧ channel = .personal owner ∧ owner ≠ user := by
  unfold admitted
  cases h.sessions.get? session with
  | none => simp
  | some user =>
    cases channel with
    | post id => simp [Channel.admits, Except.isOk, Except.toBool]
    | personal owner =>
      by_cases ho : owner = user
      · simp [Channel.admits, Except.isOk, Except.toBool, ho]
      · simp [Channel.admits, Except.isOk, Except.toBool, ho]

theorem refused_iff {session : String} {channel : Channel} {recover : Option Position} {now : Int}
    {epoch : String} : (∃ r, h.subscribe session channel recover now epoch = .error r) ↔
      h.admitted session channel = false := by
  rcases h.subscribe_eq session channel recover now epoch with ⟨ha, hs⟩ | ⟨ha, r, hs⟩
  · simp [ha, hs]
  · simp [ha, hs]

theorem step_refused {session : String} {channel : Channel} {recover : Option Position} {now : Int}
    {epoch : String} {r : Rejection} (hr : h.subscribe session channel recover now epoch = .error r) :
    h.step (.subscribe session channel recover now epoch) = h := by
  rw [step_subscribe, if_neg]
  rw [refused_iff.mp ⟨r, hr⟩]
  exact Bool.false_ne_true

theorem Orderly.leave_outsider (ho : h.Orderly) {session channel : String}
    (hs : session ∉ h.membersOf channel) : h.leave session channel = h := by
  unfold Hub.leave
  cases hg : h.members.get? channel with
  | none => rfl
  | some ss =>
    have hmem : h.membersOf channel = ss := by rw [membersOf, hg, Option.getD_some]
    have hall : ss.filter (· ≠ session) = ss := by
      rw [List.filter_eq_self]
      intro s hm
      rw [decide_eq_true_eq]
      rintro rfl
      exact hs (hmem ▸ hm)
    simp only [hall]
    cases hss : ss with
    | nil => exact absurd hss (ho.nonempty channel ss hg)
    | cons t ts =>
      have hsame : h.members.insert channel (t :: ts) = h.members :=
        Table.insert_of_get? (hss ▸ hg)
      simp only [hsame]

theorem disconnect_unknown {session : String} (hs : h.sessions.get? session = none) :
    h.disconnect session = h := by
  unfold disconnect
  rw [if_neg]
  rw [Table.contains, hs]
  exact Bool.false_ne_true

theorem Orderly.contains_iff (ho : h.Orderly) (n : String) :
    h.members.contains n = true ↔ h.membersOf n ≠ [] := by
  rw [Table.contains, membersOf]
  cases hg : h.members.get? n with
  | none => simp
  | some ss => simp [ho.nonempty n ss hg]

theorem Orderly.sweep_ring_of (ho : h.Orderly) (hu : h.rings.Unique) {bounds : HistoryBounds}
    {n : String} {r : Ring} (hg : h.rings.get? n = some r) (hr : r.Within bounds) (now : Int) :
    (h.sweep now).rings.get? n =
      if h.membersOf n ≠ [] ∨ ∃ e ∈ r.entries, e.age now < bounds.lifetime then some (r.evict now)
      else none := by
  have hkept : (!(r.evict now).entries.isEmpty || h.members.contains n) = true ↔
      h.membersOf n ≠ [] ∨ ∃ e ∈ r.entries, e.age now < bounds.lifetime := by
    have hnil := not_congr (hr.evict_eq_nil now)
    rw [not_not] at hnil
    rw [Bool.or_eq_true, Bool.not_eq_true', ← Bool.not_eq_true, List.isEmpty_iff, hnil,
      ho.contains_iff, or_comm]
  rw [sweep_ring hu, hg, Option.map_some, Option.filter_some]
  simp only [hkept]

theorem Orderly.ring_before_sweep (ho : h.Orderly) (hu : h.rings.Unique) {bounds : HistoryBounds}
    (hall : ∀ n r, h.rings.get? n = some r → r.Within bounds) {now : Int} {n : String} {r' : Ring}
    (hn : (h.sweep now).rings.get? n = some r') :
    ∃ r, h.rings.get? n = some r ∧ r' = r.evict now ∧
      (h.membersOf n ≠ [] ∨ ∃ e ∈ r'.entries, e.age now < bounds.lifetime) := by
  cases hg : h.rings.get? n with
  | none =>
    rw [sweep_ring hu, hg] at hn
    cases hn
  | some r =>
    have hr := hall n r hg
    rw [ho.sweep_ring_of hu hg hr now] at hn
    split at hn
    · rename_i hin
      cases hn
      refine ⟨r, rfl, rfl, ?_⟩
      -- the young entry is looked for in what is left of the ring
      by_cases hnil : (r.evict now).entries = []
      · exact .inl (hin.resolve_right ((hr.evict_eq_nil now).mp hnil))
      · exact .inr (hr.young_of_evict hnil)
    · cases hn

theorem registry_kept_up (bounds : HistoryBounds) (ms : List Message) :
    let h := (start bounds).run ms
    (∀ n ss, h.members.get? n = some ss → ss ≠ [] ∧ ∀ s ∈ ss, h.sessions.contains s = true) ∧
    (∀ session n, session ∈ h.membersOf n ↔ subscribed session n (start bounds) false ms = true) ∧
    (∀ n r, h.rings.get? n = some r → r.entries.length ≤ bounds.size) ∧
    (∀ session channel recover now epoch,
      ((∃ r, h.subscribe session channel recover now epoch = .error r) ↔
        h.sessions.get? session = none ∨ ∃ user owner, h.sessions.get? session = some user ∧
          channel = .personal owner ∧ owner ≠ user) ∧
      ∀ r, h.subscribe session channel recover now epoch = .error r →
        h.step (.subscribe session channel recover now epoch) = h) ∧
    (∀ session channel, session ∉ h.membersOf channel.name →
      h.step (.unsubscribe session channel) = h) ∧
    (∀ session, h.sessions.get? session = none → h.step (.disconnect session) = h) ∧
    ∀ now, let h' := h.step (.sweep now)
      h'.sessions = h.sessions ∧ h'.members = h.members ∧
      (∀ n r', h'.rings.get? n = some r' →
        h'.membersOf n ≠ [] ∨ ∃ e ∈ r'.entries, e.age now < bounds.lifetime) ∧
      (∀ n r, h.rings.get? n = some r →
        (h.membersOf n ≠ [] ∨ ∃ e ∈ r.entries, e.age now < bounds.lifetime) →
          ∃ r', h'.rings.get? n = some r' ∧ r'.epoch = r.epoch ∧ r'.top = r.top) ∧
      ∀ n r', h'.rings.get? n = some r' →
        ∃ r, h.rings.get? n = some r ∧ r'.epoch = r.epoch ∧ r'.top = r.top := by
  intro h
  have ho : h.Orderly := (orderly_start bounds).run ms
  have hu : h.rings.Unique := run_rings_unique Table.unique_default ms
  have hwithin := run_within bounds ms
  refine ⟨?_, ?_, ?_, ?_, ?_, ?_, ?_⟩
  · intro n ss hn
    refine ⟨ho.nonempty n ss hn, ?_⟩
    intro s hs
    apply ho.connected n s
    rw [membersOf, hn]
    exact hs
  · intro session n
    exact (subscribed_iff_mem bounds session n ms).symm
  · intro n r hn
    exact (hwithin n r hn).length_le
  · intro session channel recover now epoch
    exact ⟨refused_iff.trans admitted_eq_false_iff, fun r hr => step_refused hr⟩
  · intro session channel hs
    exact ho.leave_outsider hs
  · intro session hs
    exact disconnect_unknown hs
  · intro now h'
    refine ⟨rfl, rfl, ?_, ?_, ?_⟩
    · intro n r' hn
      obtain ⟨r, hg, rfl, hin⟩ := ho.ring_before_sweep hu hwithin hn
      exact hin
    · intro n r hg hin
      exact ⟨r.evict now, (ho.sweep_ring_of hu hg (hwithin n r hg) now).trans (if_pos hin), rfl, rfl⟩
    · intro n r' hn
      obtain ⟨r, hg, rfl, -⟩ := ho.ring_before_sweep hu hwithin hn
      exact ⟨r, hg, rfl, rfl⟩

end Hub

end LiveComments
