import LiveComments.Proofs.Hub.Run
import Mathlib.Data.List.Basic

namespace LiveComments.Hub

theorem membersOf_join (h : Hub) (session channel n : String) :
    (h.join session channel).membersOf n =
      if channel = n then
        if session ∈ h.membersOf n then h.membersOf n else h.membersOf n ++ [session]
      else h.membersOf n := by
  unfold join
  by_cases hc : channel = n
  · subst hc
    simp [membersOf]
  · simp [membersOf, hc]

def others (session : String) (members : Option (List String)) : Option (List String) :=
  (members.map fun ss => ss.filter (· ≠ session)).filter (· ≠ [])

theorem others_some (session : String) (ss : List String) :
    others session (some ss) =
      if ss.filter (· ≠ session) = [] then none else some (ss.filter (· ≠ session)) := by
  by_cases hnil : ss.filter (· ≠ session) = []
  · rw [if_pos hnil, others, Option.map_some, hnil]
    rfl
  · rw [if_neg hnil, others, Option.map_some, Option.filter_some, if_pos (decide_eq_true hnil)]

theorem others_getD (session : String) (members : Option (List String)) :
    (others session members).getD [] = (members.getD []).filter (· ≠ session) := by
  cases members with
  | none => rfl
  | some ss =>
    rw [others_some, Option.getD_some]
    split
    · rename_i hnil
      exact hnil.symm
    · rfl

theorem leave_members (h : Hub) (session channel n : String) :
    (h.leave session channel).members.get? n =
      if channel = n then others session (h.members.get? n) else h.members.get? n := by
  unfold leave
  by_cases hc : channel = n
  · subst hc
    rw [if_pos rfl]
    cases hg : h.members.get? channel with
    | none => exact hg
    | some ss =>
      rw [others_some]
      cases hf : ss.filter (· ≠ session) with
      | nil => simp only [hf, Table.get?_erase, if_true]
      | cons t ts =>
        rw [if_neg (List.cons_ne_nil t ts)]
        simp only [hf, Table.get?_insert, if_true]
  · rw [if_neg hc]
    split
    · rfl
    · split
      · rw [Table.get?_erase, if_neg hc]
      · rw [Table.get?_insert, if_neg hc]

theorem withoutMember_members {t : Table String (List String)} (hu : t.Unique)
    (session n : String) : (withoutMember session t).get? n = others session (t.get? n) := by
  unfold withoutMember
  rw [(hu.map _).get?_filter, Table.get?_map]
  rfl

theorem membersOf_leave (h : Hub) (session channel n : String) :
    (h.leave session channel).membersOf n =
      if channel = n then (h.membersOf n).filter (· ≠ session) else h.membersOf n := by
  unfold membersOf
  rw [leave_members]
  split
  · exact others_getD _ _
  · rfl

structure Orderly (h : Hub) : Prop where
  members_unique : h.members.Unique
  nonempty : ∀ n ss, h.members.get? n = some ss → ss ≠ []
  nodup : ∀ n, (h.membersOf n).Nodup
  connected : ∀ n s, s ∈ h.membersOf n → h.sessions.contains s = true

theorem orderly_start (bounds : HistoryBounds) : (start bounds).Orderly where
  members_unique := Table.unique_default
  nonempty := by simp [start]
  nodup := by simp [start, membersOf]
  connected := by simp [start, membersOf]

theorem mem_join (h : Hub) (session channel s n : String) :
    s ∈ (h.join session channel).membersOf n ↔
      s ∈ h.membersOf n ∨ (session = s ∧ channel = n) := by
  rw [membersOf_join]
  by_cases hc : channel = n
  · by_cases hm : session ∈ h.membersOf n
    · rw [if_pos hc, if_pos hm]
      exact ⟨.inl, fun hs => hs.elim id fun he => he.1 ▸ hm⟩
    · simp [hc, hm, @eq_comm _ s]
  · simp [hc]

theorem mem_leave {h : Hub} {session channel s n : String} :
    s ∈ (h.leave session channel).membersOf n ↔
      s ∈ h.membersOf n ∧ ¬(session = s ∧ channel = n) := by
  rw [membersOf_leave]
  by_cases hc : channel = n
  · simp [hc, @eq_comm _ s]
  · simp [hc]

theorem Orderly.join {h : Hub} (ho : h.Orderly) {session : String}
    (hs : h.sessions.contains session = true) (channel : String) : (h.join session channel).Orderly where
  members_unique := ho.members_unique.insert _ _
  nonempty := by
    intro n ss
    apply Table.forall_insert ho.nonempty
    split
    · rename_i hm
      exact List.ne_nil_of_mem hm
    · simp
  nodup := by
    intro n
    rw [membersOf_join]
    split
    · split
      · exact ho.nodup n
      · rename_i hm
        exact List.nodup_append.mpr ⟨ho.nodup n, List.nodup_singleton _, by
          intro a ha b hb hab
          rw [List.mem_singleton] at hb
          exact hm (hb ▸ hab ▸ ha)⟩
    · exact ho.nodup n
  connected := by
    intro n s hm
    rcases (mem_join _ _ _ _ _).mp hm with hm | ⟨rfl, -⟩
    · exact ho.connected n s hm
    · exact hs

theorem Orderly.leave {h : Hub} (ho : h.Orderly) (session channel : String) :
    (h.leave session channel).Orderly where
  members_unique := by
    unfold Hub.leave
    split
    · exact ho.members_unique
    · split
      · exact ho.members_unique.erase _
      · exact ho.members_unique.insert _ _
  nonempty := by
    intro n ss hn
    rw [leave_members] at hn
    split at hn
    · exact of_decide_eq_true (Option.filter_eq_some_iff.mp hn).2
    · exact ho.nonempty n ss hn
  nodup := by
    intro n
    rw [membersOf_leave]
    split
    · exact (ho.nodup n).filter _
    · exact ho.nodup n
  connected := by
    intro n s hm
    rw [leave_sessions]
    exact ho.connected n s (mem_leave.mp hm).1

theorem membersOf_disconnect {h : Hub} (ho : h.Orderly) (session n : String) :
    (h.disconnect session).membersOf n = (h.membersOf n).filter (· ≠ session) := by
  unfold disconnect
  split
  · unfold membersOf
    rw [withoutMember_members ho.members_unique, others_getD]
  · rename_i hs
    rw [eq_comm, List.filter_eq_self]
    intro s hm
    exact decide_eq_true fun he => hs (he ▸ ho.connected n s hm)

theorem mem_connect {h : Hub} {session : String} {user : Int} {s n : String} :
    s ∈ (h.connect session user).1.membersOf n ↔
      s ∈ h.membersOf n ∨ (session = s ∧ n ∈ (h.connect session user).2) := by
  have hj := mem_join { h with sessions := h.sessions.insert session user } session
    (Channel.personal user).name s n
  simp only [connect, Channel.initial, List.map_cons, List.map_nil, List.mem_singleton]
  rw [@eq_comm _ n]
  exact hj

theorem Orderly.connect {h : Hub} (ho : h.Orderly) (session : String) (user : Int) :
    (h.connect session user).1.Orderly := by
  have hc : ({ h with sessions := h.sessions.insert session user } : Hub).Orderly :=
    { ho with
      connected := by
        intro n s hm
        simp only [Table.contains, Table.get?_insert]
        split
        · rfl
        · exact ho.connected n s hm }
  exact hc.join (by simp [Table.contains]) _

theorem Orderly.disconnect {h : Hub} (ho : h.Orderly) (session : String) :
    (h.disconnect session).Orderly := by
  have hm := membersOf_disconnect ho session
  unfold Hub.disconnect at hm ⊢
  split
  · rename_i hs
    rw [if_pos hs] at hm
    refine ⟨(ho.members_unique.map _).filter _, ?_, ?_, ?_⟩
    · intro n ss hn
      rw [withoutMember_members ho.members_unique] at hn
      exact of_decide_eq_true (Option.filter_eq_some_iff.mp hn).2
    · intro n
      rw [hm]
      exact (ho.nodup n).filter _
    · intro n s hs
      rw [hm, List.mem_filter, decide_eq_true_eq] at hs
      simpa [Table.contains, Ne.symm hs.2] using ho.connected n s hs.1
  · exact ho

theorem connected_of_admitted {h : Hub} {session : String} {channel : Channel}
    (ha : h.admitted session channel = true) : h.sessions.contains session = true := by
  obtain ⟨user, hu, -⟩ := (Option.any_eq_true _ _).mp ha
  exact Table.contains_iff.mpr ⟨user, hu⟩

theorem Orderly.step {h : Hub} (ho : h.Orderly) (m : Message) : (h.step m).Orderly := by
  cases m with
  | connect session user => exact ho.connect session user
  | disconnect session => exact ho.disconnect session
  | subscribe session channel recover now epoch =>
    rw [step_subscribe]
    split
    · rename_i ha
      exact { ho.join (connected_of_admitted ha) channel.name with }
    · exact ho
  | unsubscribe session channel => exact ho.leave session channel.name
  | publish channel event now epoch => exact { ho with }
  | sweep now => exact { ho with }

theorem Orderly.run {h : Hub} (ho : h.Orderly) (ms : List Message) : (h.run ms).Orderly := by
  induction ms generalizing h with
  | nil => exact ho
  | cons m ms ih => exact ih (ho.step m)

def Message.session? : Message → Option String
  | .connect session _ | .disconnect session => some session
  | .subscribe session .. | .unsubscribe session _ => some session
  | .publish .. | .sweep _ => none

structure Kept (t : String) (h h' : Hub) : Prop where
  user : h'.sessions.get? t = h.sessions.get? t
  member : ∀ n, t ∈ h'.membersOf n ↔ t ∈ h.membersOf n

theorem kept_of_eq {h h' : Hub} (hs : h'.sessions = h.sessions) (hm : h'.members = h.members)
    (t : String) : Kept t h h' where
  user := by rw [hs]
  member := by
    intro n
    rw [membersOf, hm]
    rfl

theorem Orderly.of_eq {h h' : Hub} (ho : h.Orderly) (hs : h'.sessions = h.sessions)
    (hm : h'.members = h.members) : h'.Orderly := by
  obtain ⟨bounds, sessions, members, rings⟩ := h'
  subst hs hm
  exact { ho with }

theorem Kept.refl (t : String) (h : Hub) : Kept t h h := kept_of_eq rfl rfl t

theorem Kept.trans {t : String} {h h' h'' : Hub} (hk : Kept t h h') (hk' : Kept t h' h'') :
    Kept t h h'' where
  user := hk'.user.trans hk.user
  member := fun n => (hk'.member n).trans (hk.member n)

theorem Orderly.step_kept {h : Hub} (ho : h.Orderly) {m : Message} {t : String}
    (hm : m.session? ≠ some t) : Kept t h (h.step m) := by
  cases m with
  | connect session user =>
    have hne : session ≠ t := fun he => hm (congrArg some he)
    constructor
    · change (h.sessions.insert session user).get? t = _
      rw [Table.get?_insert, if_neg hne]
    · intro n
      exact mem_connect.trans (or_iff_left fun hc => hne hc.1)
  | disconnect session =>
    have hne : session ≠ t := fun he => hm (congrArg some he)
    constructor
    · change (h.disconnect session).sessions.get? t = _
      unfold Hub.disconnect
      split
      · rw [Table.get?_erase, if_neg hne]
      · rfl
    · intro n
      change t ∈ (h.disconnect session).membersOf n ↔ _
      rw [membersOf_disconnect ho, List.mem_filter, decide_eq_true_eq]
      exact and_iff_left (Ne.symm hne)
  | subscribe session channel recover now epoch =>
    have hne : session ≠ t := fun he => hm (congrArg some he)
    rw [step_subscribe]
    split
    · refine ⟨rfl, fun n => ?_⟩
      exact (mem_join h session channel.name t n).trans (or_iff_left fun hc => hne hc.1)
    · exact .refl t h
  | unsubscribe session channel =>
    have hne : session ≠ t := fun he => hm (congrArg some he)
    refine ⟨congrArg (Table.get? · t) (leave_sessions h session channel.name), fun n => ?_⟩
    exact mem_leave.trans (and_iff_left fun hc => hne hc.1)
  | publish channel event now epoch => exact ⟨rfl, fun n => Iff.rfl⟩
  | sweep now => exact ⟨rfl, fun n => Iff.rfl⟩

theorem Orderly.run_kept {h : Hub} (ho : h.Orderly) {ms : List Message} {t : String}
    (hms : ∀ m ∈ ms, m.session? ≠ some t) : Kept t h (h.run ms) := by
  induction ms generalizing h with
  | nil => exact .refl t h
  | cons m ms ih =>
    have hfirst := ho.step_kept (hms m List.mem_cons_self)
    exact hfirst.trans (ih (ho.step m) fun m' hm' => hms m' (List.mem_cons_of_mem _ hm'))

end LiveComments.Hub
