import LiveComments.Proofs.Channel
import LiveComments.Proofs.Hub.Registry
import Mathlib.Data.List.Induction

namespace LiveComments.Hub

namespace Message

def channels : Message → List Channel
  | .connect _ user => Channel.initial user
  | .subscribe _ channel _ _ _ => [channel]
  | .unsubscribe _ channel => [channel]
  | .publish channel _ _ _ => [channel]
  | .disconnect _ | .sweep _ => []

def opened : Message → List String
  | .connect session _ => [session]
  | .disconnect _ | .subscribe .. | .unsubscribe .. | .publish .. | .sweep _ => []

end Message

structure Private (h : Hub) (opened : List String) : Prop where
  known : ∀ s, h.sessions.contains s = true → s ∈ opened
  own : ∀ s u, s ∈ h.membersOf (Channel.personal u).name → h.sessions.get? s = some u

theorem private_start (bounds : HistoryBounds) : (start bounds).Private [] where
  known := by simp [start, Table.contains]
  own := by simp [start, membersOf]

theorem Private.connect {h : Hub} {opened : List String} (ho : h.Orderly) (hp : h.Private opened)
    {session : String} (hnew : session ∉ opened) (user : Int) :
    (h.connect session user).1.Private (opened ++ [session]) where
  known := by
    intro s hs
    change Table.contains (h.sessions.insert session user) s = true at hs
    rw [Table.contains, Table.get?_insert] at hs
    rw [List.mem_append, List.mem_singleton]
    split at hs
    · rename_i he
      exact .inr he.symm
    · exact .inl (hp.known s hs)
  own := by
    intro s u hm
    change (h.sessions.insert session user).get? s = some u
    rw [Table.get?_insert]
    rcases mem_connect.mp hm with hm | ⟨rfl, hc⟩
    · -- A session whose id is new is not a member of anything yet.
      have hne : session ≠ s := fun he => hnew (he ▸ hp.known s (ho.connected _ s hm))
      rw [if_neg hne]
      exact hp.own s u hm
    · have hname : (Channel.personal u).name = (Channel.personal user).name := by
        simpa [Hub.connect, Channel.initial] using hc
      rw [if_pos rfl, Channel.personal_name_injective hname]

theorem Private.disconnect {h : Hub} {opened : List String} (ho : h.Orderly) (hp : h.Private opened)
    (session : String) : (h.disconnect session).Private opened := by
  have hm := membersOf_disconnect ho session
  unfold Hub.disconnect at hm ⊢
  split
  · rename_i hs
    rw [if_pos hs] at hm
    refine ⟨fun s hk => ?_, fun s u hs => ?_⟩
    · rw [Table.contains, Table.get?_erase] at hk
      split at hk
      · cases hk
      · exact hp.known s hk
    · rw [hm, List.mem_filter, decide_eq_true_eq] at hs
      rw [Table.get?_erase, if_neg (Ne.symm hs.2)]
      exact hp.own s u hs.1
  · exact hp

theorem user_of_admitted {h : Hub} {session : String} {channel : Channel} (hc : channel.Proper)
    (ha : h.admitted session channel = true) {u : Int} (hn : channel.name = (Channel.personal u).name) :
    h.sessions.get? session = some u := by
  obtain ⟨user, hu, hadmits⟩ := (Option.any_eq_true _ _).mp ha
  obtain rfl : channel = .personal u := Channel.name_injective hc trivial hn
  rw [hu, Channel.owner_of_admits hadmits]

theorem Private.step {h : Hub} {opened : List String} (ho : h.Orderly) (hp : h.Private opened)
    (m : Message) (hc : ∀ c ∈ m.channels, c.Proper) (hnew : ∀ s ∈ m.opened, s ∉ opened) :
    (h.step m).Private (opened ++ m.opened) := by
  cases m with
  | connect session user => exact hp.connect ho (hnew session (List.mem_singleton_self _)) user
  | disconnect session =>
    rw [Message.opened, List.append_nil]
    exact hp.disconnect ho session
  | subscribe session channel recover now epoch =>
    rw [step_subscribe, Message.opened, List.append_nil]
    split
    · rename_i ha
      refine ⟨hp.known, fun s u hm => ?_⟩
      rcases (mem_join _ _ _ _ _).mp hm with hm | ⟨rfl, hn⟩
      · exact hp.own s u hm
      · exact user_of_admitted (hc channel (List.mem_singleton_self _)) ha hn
    · exact hp
  | unsubscribe session channel =>
    rw [Message.opened, List.append_nil]
    have hs := leave_sessions h session channel.name
    refine ⟨fun s hk => hp.known s (hs ▸ hk), fun s u hm => ?_⟩
    change (h.leave session channel.name).sessions.get? s = some u
    rw [hs]
    exact hp.own s u (mem_leave.mp hm).1
  | publish channel event now epoch =>
    rw [Message.opened, List.append_nil]
    exact { hp with }
  | sweep now =>
    rw [Message.opened, List.append_nil]
    exact { hp with }

theorem Private.run {h : Hub} {opened : List String} (ho : h.Orderly) (hp : h.Private opened)
    {ms : List Message} (hms : ∀ m ∈ ms, m.opened = [] ∧ ∀ c ∈ m.channels, c.Proper) :
    (h.run ms).Private opened := by
  induction ms generalizing h with
  | nil => exact hp
  | cons m ms ih =>
    obtain ⟨hm, hc⟩ := hms m List.mem_cons_self
    have hs := hp.step ho m hc (by simp [hm])
    rw [hm, List.append_nil] at hs
    exact ih (ho.step m) hs fun m' hm' => hms m' (List.mem_cons_of_mem _ hm')

theorem Private.sent {h : Hub} {opened : List String} (hp : h.Private opened) {m : Message}
    {d : Delivery} (hd : d ∈ h.sent m) : ∃ n p, d.notice = .publication n p ∧
      ∀ u, n = (Channel.personal u).name → h.sessions.get? d.session = some u := by
  cases m with
  | publish channel event now epoch =>
    rw [sent_publish] at hd
    obtain ⟨s, hs, rfl⟩ := List.mem_map.mp hd
    refine ⟨_, _, rfl, fun u hn => ?_⟩
    exact hp.own s u (hn ▸ (List.mem_filter.mp hs).1)
  | _ => simp [Hub.sent] at hd

def keyed (h : Hub) (n : String) : Prop :=
  (h.members.get? n).isSome = true ∨ (h.rings.get? n).isSome = true

theorem keyed_mono {h h' : Hub} {n : String}
    (hm : (h'.members.get? n).isSome = true → (h.members.get? n).isSome = true)
    (hr : (h'.rings.get? n).isSome = true → (h.rings.get? n).isSome = true) (hn : h'.keyed n) :
    h.keyed n := hn.imp hm hr

theorem isSome_others {session : String} {members : Option (List String)}
    (h : (others session members).isSome = true) : members.isSome = true := by
  cases members with
  | none => exact h
  | some ss => rfl

theorem isSome_of_insert {α : Type} {t : Table String α} {k n : String} {v : α}
    (h : ((t.insert k v).get? n).isSome = true) : (t.get? n).isSome = true ∨ k = n := by
  rw [Table.get?_insert] at h
  split at h
  · exact .inr ‹_›
  · exact .inl h

theorem step_keyed {h : Hub} (ho : h.Orderly) (hu : h.rings.Unique) {m : Message} {n : String}
    (hn : (h.step m).keyed n) : h.keyed n ∨ ∃ c ∈ m.channels, c.name = n := by
  cases m with
  | connect session user =>
    rcases hn with hn | hn
    · rcases isSome_of_insert hn with hn | hn
      · exact .inl (.inl hn)
      · exact .inr ⟨_, List.mem_singleton_self _, hn⟩
    · exact .inl (.inr hn)
  | disconnect session =>
    refine .inl (keyed_mono ?_ ?_ hn)
    · rw [step, disconnect]
      split
      · rw [withoutMember_members ho.members_unique]
        exact isSome_others
      · exact id
    · rw [step, disconnect_rings]
      exact id
  | subscribe session channel recover now epoch =>
    rw [step_subscribe] at hn
    split at hn
    · rcases hn with hn | hn
      · rcases isSome_of_insert hn with hn | hn
        · exact .inl (.inl hn)
        · exact .inr ⟨_, List.mem_singleton_self _, hn⟩
      · rcases isSome_of_insert hn with hn | hn
        · exact .inl (.inr hn)
        · exact .inr ⟨_, List.mem_singleton_self _, hn⟩
    · exact .inl hn
  | unsubscribe session channel =>
    refine .inl (keyed_mono ?_ ?_ hn)
    · rw [step, unsubscribe, leave_members]
      split
      · exact isSome_others
      · exact id
    · rw [step, unsubscribe, leave_rings]
      exact id
  | publish channel event now epoch =>
    rcases hn with hn | hn
    · exact .inl (.inl hn)
    · rcases isSome_of_insert hn with hn | hn
      · exact .inl (.inr hn)
      · exact .inr ⟨_, List.mem_singleton_self _, hn⟩
  | sweep now =>
    rcases hn with hn | hn
    · exact .inl (.inl hn)
    · refine .inl (.inr ?_)
      change ((h.sweep now).rings.get? n).isSome = true at hn
      rw [sweep_ring hu] at hn
      cases hg : h.rings.get? n with
      | none => simp [hg] at hn
      | some r => rfl

theorem run_keyed (bounds : HistoryBounds) {ms : List Message} {n : String}
    (hn : ((start bounds).run ms).keyed n) : ∃ m ∈ ms, ∃ c ∈ m.channels, c.name = n := by
  induction ms using List.reverseRecOn with
  | nil => simp [run, start, keyed] at hn
  | append_singleton ms m ih =>
    rw [run_append] at hn
    rcases step_keyed ((orderly_start bounds).run ms) (run_rings_unique Table.unique_default ms) hn with
      hn | hc
    · obtain ⟨m', hm', hc⟩ := ih hn
      exact ⟨m', List.mem_append_left _ hm', hc⟩
    · exact ⟨m, List.mem_append_right _ (List.mem_singleton_self _), hc⟩

end LiveComments.Hub
