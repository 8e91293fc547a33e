import LiveComments.Proofs.Hub.Registry
import Mathlib.Data.List.Infix

namespace LiveComments.Hub

/-- Whether a session is subscribed to a channel after a message, going by what it was told. -/
def stays (h : Hub) (session n : String) (was : Bool) : Message → Bool
  | .connect s user => was || (s = session && n ∈ (h.connect s user).2)
  | .disconnect s => was && s ≠ session
  | .subscribe s channel _ _ _ => was || (s = session && channel.name = n && h.admitted s channel)
  | .unsubscribe s channel => was && !(s = session && channel.name = n)
  | .publish .. | .sweep _ => was

def subscribed (session n : String) : Hub → Bool → List Message → Bool
  | _, was, [] => was
  | h, was, m :: ms => subscribed session n (h.step m) (h.stays session n was m) ms

def frames (session n : String) (ds : List Delivery) : List Publication :=
  ds.filterMap fun d =>
    match d.notice with
    | .publication channel p => if d.session = session ∧ channel = n then some p else none
    | _ => none

def top (h : Hub) (n : String) : Nat := ((h.rings.get? n).map (·.top)).getD 0

theorem stays_iff {h : Hub} (ho : h.Orderly) {session n : String} {was : Bool}
    (hw : was = true ↔ session ∈ h.membersOf n) (m : Message) :
    h.stays session n was m = true ↔ session ∈ (h.step m).membersOf n := by
  cases m with
  | connect s user =>
    simp only [stays, step, mem_connect, Bool.or_eq_true, Bool.and_eq_true, decide_eq_true_eq, hw]
  | disconnect s =>
    simp only [stays, step, membersOf_disconnect ho, List.mem_filter, Bool.and_eq_true,
      decide_eq_true_eq, hw, ne_comm]
  | subscribe s channel recover now epoch =>
    rw [step_subscribe]
    by_cases ha : h.admitted s channel = true
    · rw [if_pos ha]
      change _ ↔ session ∈ (h.join s channel.name).membersOf n
      rw [mem_join, ← hw]
      simp [stays, ha]
    · simp [stays, ha, hw]
  | unsubscribe s channel =>
    rw [step, unsubscribe, mem_leave, ← hw]
    simp only [stays, Bool.and_eq_true, Bool.not_eq_true', Bool.and_eq_false_imp, decide_eq_true_eq,
      decide_eq_false_iff_not, not_and]
  | publish channel event now epoch => exact hw
  | sweep now => exact hw

theorem subscribed_iff {h : Hub} (ho : h.Orderly) {session n : String} {was : Bool}
    (hw : was = true ↔ session ∈ h.membersOf n) (ms : List Message) :
    subscribed session n h was ms = true ↔ session ∈ (h.run ms).membersOf n := by
  induction ms generalizing h was with
  | nil => exact hw
  | cons m ms ih => exact ih (ho.step m) (stays_iff ho hw m)

theorem frames_append (session n : String) (ds es : List Delivery) :
    frames session n (ds ++ es) = frames session n ds ++ frames session n es :=
  List.filterMap_append

theorem frames_publication {ss : List String} (hn : ss.Nodup) (session n channel : String)
    (p : Publication) :
    frames session n (ss.map (⟨·, .publication channel p⟩)) =
      if session ∈ ss ∧ channel = n then [p] else [] := by
  rw [frames, List.filterMap_map]
  change ss.filterMap (fun s => if s = session ∧ channel = n then some p else none) = _
  induction ss with
  | nil => rfl
  | cons s ss ih =>
    rw [List.nodup_cons] at hn
    rw [List.filterMap_cons, ih hn.2]
    by_cases hs : s = session
    · subst hs
      by_cases hc : channel = n <;> simp [hc, hn.1]
    · simp [hs, Ne.symm hs]

theorem frames_sent {h : Hub} (ho : h.Orderly) (session n : String) (m : Message) :
    frames session n (h.sent m) =
      if session ∈ h.membersOf n then onChannel n (h.published m) else [] := by
  cases m with
  | publish channel event now epoch =>
    have hr : (h.membersOf channel.name).filter h.sessions.contains = h.membersOf channel.name :=
      List.filter_eq_self.mpr (ho.connected channel.name)
    rw [sent_publish, hr, frames_publication (ho.nodup _)]
    by_cases hc : channel.name = n
    · subst hc
      simp [onChannel, published, publish]
    · simp [onChannel, published, hc]
  | _ => simp [sent, published, frames, onChannel]

theorem ring_of_some {h : Hub} {n : String} {r : Ring} (hg : h.rings.get? n = some r)
    (epoch : String) : h.ring n epoch = r := by
  rw [ring, hg, Option.getD_some]

theorem ring_of_none {h : Hub} {n : String} (hg : h.rings.get? n = none) (epoch : String) :
    h.ring n epoch = .start h.bounds epoch := by
  rw [ring, hg, Option.getD_none]

theorem ring_top (h : Hub) (n epoch : String) : (h.ring n epoch).top = h.top n := by
  unfold top
  cases hg : h.rings.get? n with
  | none => rw [ring_of_none hg]; rfl
  | some r => rw [ring_of_some hg]; rfl

theorem contains_of_mem {h : Hub} {session n : String} (hm : session ∈ h.membersOf n) :
    h.members.contains n = true := by
  unfold membersOf at hm
  cases hg : h.members.get? n with
  | none => simp [hg] at hm
  | some ss => exact Table.contains_iff.mpr ⟨ss, hg⟩

theorem step_keeps_ring {h : Hub} (hu : h.rings.Unique) {n : String}
    (hm : h.members.contains n = true) (m : Message) {r : Ring} (hg : h.rings.get? n = some r) :
    ∃ r', (h.step m).rings.get? n = some r' ∧ r'.epoch = r.epoch ∧
      r'.top = r.top + (onChannel n (h.published m)).length := by
  cases m with
  | connect session user => exact ⟨r, hg, rfl, rfl⟩
  | disconnect session => exact ⟨r, (disconnect_rings h session).symm ▸ hg, rfl, rfl⟩
  | subscribe session channel recover now epoch =>
    rw [step_subscribe]
    split
    · rw [enter_ring]
      split
      · rename_i hc
        rw [hc, ring_of_some hg]
        exact ⟨_, rfl, serve_epoch r recover now, serve_top r recover now⟩
      · exact ⟨r, hg, rfl, rfl⟩
    · exact ⟨r, hg, rfl, rfl⟩
  | unsubscribe session channel => exact ⟨r, (leave_rings h session channel.name).symm ▸ hg, rfl, rfl⟩
  | publish channel event now epoch =>
    rw [step, publish_ring]
    split
    · rename_i hc
      rw [hc, ring_of_some hg]
      exact ⟨_, rfl, rfl, by simp [onChannel, published, hc]⟩
    · rename_i hc
      exact ⟨r, hg, rfl, by simp [onChannel, published, hc]⟩
  | sweep now =>
    rw [step, sweep_ring hu, hg, Option.map_some, Option.filter_some, if_pos (by simp [hm])]
    exact ⟨_, rfl, rfl, rfl⟩

theorem top_congr {h h' : Hub} {n : String} (hg : h'.rings.get? n = h.rings.get? n) :
    h'.top n = h.top n := by
  rw [top, top, hg]

theorem top_of_some {h : Hub} {n : String} {r : Ring} (hg : h.rings.get? n = some r) :
    h.top n = r.top := by
  rw [top, hg, Option.map_some, Option.getD_some]

theorem step_top {h : Hub} (hu : h.rings.Unique) {n : String} (hm : h.members.contains n = true)
    (m : Message) : (h.step m).top n = h.top n + (onChannel n (h.published m)).length := by
  cases m with
  | connect session user => rfl
  | disconnect session => exact top_congr (by rw [step, disconnect_rings])
  | subscribe session channel recover now epoch =>
    rw [step_subscribe]
    split
    · have he := enter_ring h session channel recover now epoch n
      by_cases hc : channel.name = n
      · rw [if_pos hc] at he
        rw [top_of_some he, serve_top, ring_top, hc]
        rfl
      · rw [if_neg hc] at he
        exact top_congr he
    · rfl
  | unsubscribe session channel => exact top_congr (by rw [step, unsubscribe, leave_rings])
  | publish channel event now epoch =>
    have hp := publish_ring h channel event now epoch n
    by_cases hc : channel.name = n
    · rw [if_pos hc] at hp
      rw [step, top_of_some hp, Ring.push_top, ring_top, hc]
      simp [onChannel, published, hc]
    · rw [if_neg hc] at hp
      rw [step, top_congr hp]
      simp [onChannel, published, hc]
  | sweep now =>
    cases hg : h.rings.get? n with
    | some r =>
      obtain ⟨r', hg', -, ht⟩ := step_keeps_ring hu hm (.sweep now) hg
      rw [top_of_some hg', top_of_some hg, ht]
    | none =>
      apply top_congr
      rw [step, sweep_ring hu, hg]
      rfl

theorem published_numbered (h : Hub) (n : String) (m : Message) :
    (onChannel n (h.published m)).map (·.offset) =
      List.range' (h.top n + 1) (onChannel n (h.published m)).length := by
  cases m with
  | publish channel event now epoch =>
    by_cases hc : channel.name = n
    · simp [onChannel, published, publish, hc, ring_top]
    · simp [onChannel, published, hc]
  | _ => rfl

theorem run_numbered {h : Hub} (hu : h.rings.Unique) {n : String} {ms : List Message}
    (hm : ∀ xs ∈ ms.inits, (h.run xs).members.contains n = true) :
    (onChannel n (gather published h ms)).map (·.offset) =
      List.range' (h.top n + 1) (onChannel n (gather published h ms)).length := by
  induction ms generalizing h with
  | nil => rfl
  | cons m ms ih =>
    have hfirst : h.members.contains n = true := hm [] (by simp)
    have hrest := ih (step_rings_unique hu m) fun xs hxs => hm (m :: xs) (by simpa using hxs)
    rw [gather, onChannel_append, List.map_append, List.length_append, hrest, published_numbered,
      step_top hu hfirst, ← List.range'_append_1, Nat.add_right_comm]

theorem run_one_epoch {h : Hub} (hu : h.rings.Unique) {n : String} {ms : List Message}
    (hm : ∀ xs ∈ ms.inits, (h.run xs).members.contains n = true) :
    ∃ e, (∀ r, h.rings.get? n = some r → r.epoch = e) ∧
      ∀ x ∈ gather published h ms, x.channel = n → x.epoch = e := by
  -- From the end: a ring that is there later is the one that is there now.
  induction ms generalizing h with
  | nil =>
    cases hg : h.rings.get? n with
    | none => exact ⟨"", by simp, by simp [gather]⟩
    | some r => exact ⟨r.epoch, by simp, by simp [gather]⟩
  | cons m ms ih =>
    have hfirst : h.members.contains n = true := hm [] (by simp)
    obtain ⟨e, hring, hlog⟩ :=
      ih (step_rings_unique hu m) fun xs hxs => hm (m :: xs) (by simpa using hxs)
    refine ⟨e, ?_, ?_⟩
    · intro r hg
      obtain ⟨r', hg', he, -⟩ := step_keeps_ring hu hfirst m hg
      exact he ▸ hring r' hg'
    · intro x hx hc
      rcases List.mem_append.mp hx with hx | hx
      · obtain ⟨r', hg', he⟩ := published_epoch hx
        exact he ▸ hring r' (hc ▸ hg')
      · exact hlog x hx hc

theorem frames_run {h : Hub} (ho : h.Orderly) {session n : String} {ms : List Message}
    (hm : ∀ xs ∈ ms.inits, session ∈ (h.run xs).membersOf n) :
    frames session n (gather sent h ms) = onChannel n (gather published h ms) := by
  induction ms generalizing h with
  | nil => rfl
  | cons m ms ih =>
    have hfirst : session ∈ h.membersOf n := hm [] (by simp)
    rw [gather, gather, frames_append, onChannel_append, frames_sent ho, if_pos hfirst,
      ih (ho.step m) fun xs hxs => hm (m :: xs) (by simpa using hxs)]

/-- The session counts as subscribed at every moment of some messages. -/
def throughout (bounds : HistoryBounds) (session n : String) (before during : List Message) : Prop :=
  ∀ ms ∈ during.inits, subscribed session n (start bounds) false (before ++ ms) = true

theorem subscribed_iff_mem (bounds : HistoryBounds) (session n : String) (ms : List Message) :
    subscribed session n (start bounds) false ms = true ↔
      session ∈ ((start bounds).run ms).membersOf n :=
  subscribed_iff (orderly_start bounds) (by simp [start, membersOf]) ms

theorem throughout_iff_mem {bounds : HistoryBounds} {session n : String} {before during : List Message} :
    throughout bounds session n before during ↔
      ∀ ms ∈ during.inits, session ∈ (((start bounds).run before).run ms).membersOf n := by
  simp only [throughout, subscribed_iff_mem, run_append]

theorem delivery_exact (bounds : HistoryBounds) (before : List Message) (session n : String) :
    let h := (start bounds).run before
    (subscribed session n (start bounds) false before = false →
      ∀ m, frames session n (h.sent m) = []) ∧
    (∀ during, throughout bounds session n before during →
      let events := onChannel n (gather published h during)
      frames session n (gather sent h during) = events ∧
      events.map (·.data) = eventsOn n during ∧
      events.map (·.offset) = List.range' (h.top n + 1) events.length ∧
      (∃ e, ∀ x ∈ gather published h during, x.channel = n → x.epoch = e) ∧
      (∀ other, throughout bounds other n before during →
        frames other n (gather sent h during) = frames session n (gather sent h during)) ∧
      (∀ earlier channel recover now epoch h' a,
        before = earlier ++ [.subscribe session channel recover now epoch] → channel.name = n →
        ((start bounds).run earlier).subscribe session channel recover now epoch = .ok (h', a) →
        events.map (·.offset) = List.range' (a.offset + 1) events.length ∧
          ∀ x ∈ gather published h during, x.channel = n → x.epoch = a.epoch)) ∧
    (subscribed session n (start bounds) false before = true → ∀ now r,
      h.rings.get? n = some r → ∃ r', (h.sweep now).rings.get? n = some r' ∧
        r'.epoch = r.epoch ∧ r'.top = r.top) := by
  intro h
  have ho : h.Orderly := (orderly_start bounds).run before
  have hu : h.rings.Unique := run_rings_unique Table.unique_default before
  refine ⟨?_, ?_, ?_⟩
  · intro hout m
    have hmem : session ∉ h.membersOf n := by
      rw [← subscribed_iff_mem bounds, hout]
      simp
    rw [frames_sent ho, if_neg hmem]
  · intro during hin events
    have hin := throughout_iff_mem.mp hin
    have hcontains : ∀ xs ∈ during.inits, (h.run xs).members.contains n = true :=
      fun xs hxs => contains_of_mem (hin xs hxs)
    have hframes : frames session n (gather sent h during) = events := frames_run ho hin
    have hoffsets := run_numbered hu hcontains
    obtain ⟨e, hring, hepoch⟩ := run_one_epoch hu hcontains
    refine ⟨hframes, published_events h n during, hoffsets, ⟨e, hepoch⟩, ?_, ?_⟩
    · intro other hother
      rw [hframes]
      exact frames_run ho (throughout_iff_mem.mp hother)
    · intro earlier channel recover now epoch h' a hbefore hname hsub
      have hh : h = h' := by
        rw [← step_subscribed hsub]
        exact (congrArg (start bounds).run hbefore).trans (run_append _ _ _)
      obtain ⟨r, hget, he, ht⟩ := subscribe_position hsub
      rw [hname, ← hh] at hget
      rw [← ht, ← he, hring r hget, ← top_of_some hget]
      exact ⟨hoffsets, hepoch⟩
  · intro hin now r hget
    have hmem := (subscribed_iff_mem bounds session n before).mp hin
    exact step_keeps_ring hu (contains_of_mem hmem) (.sweep now) hget

def twoReaders : List Message :=
  [.connect "s" 1, .connect "t" 2, .subscribe "t" (.post "p") none 0 "e1",
    .publish (.post "p") ⟨"a", .null, 0⟩ 10 "e2", .subscribe "s" (.post "p") none 20 "e3"]

def sweptEvents : List Message :=
  [.publish (.post "p") ⟨"b", .null, 0⟩ 30 "e4", .sweep 5000,
    .publish (.post "p") ⟨"c", .null, 0⟩ 5010 "e5"]

theorem delivery_exact_over_a_sweep :
    throughout ⟨1, 1000⟩ "s" "p" twoReaders sweptEvents ∧
      throughout ⟨1, 1000⟩ "t" "p" twoReaders sweptEvents ∧
      (frames "s" "p" (gather sent ((start ⟨1, 1000⟩).run twoReaders) sweptEvents)).map (·.data) =
        [⟨"b", .null, 0⟩, ⟨"c", .null, 0⟩] ∧
      (frames "s" "p" (gather sent ((start ⟨1, 1000⟩).run twoReaders) sweptEvents)).map (·.offset) =
        [2, 3] := by
  have hs : throughout ⟨1, 1000⟩ "s" "p" twoReaders sweptEvents := by
    unfold throughout
    decide
  have ht : throughout ⟨1, 1000⟩ "t" "p" twoReaders sweptEvents := by
    unfold throughout
    decide
  obtain ⟨hframes, hdata, hoffsets, -⟩ :=
    (delivery_exact ⟨1, 1000⟩ twoReaders "s" "p").2.1 sweptEvents hs
  refine ⟨hs, ht, ?_, ?_⟩
  · rw [hframes, hdata]
    rfl
  · rw [hframes, hoffsets]
    rfl

end LiveComments.Hub
