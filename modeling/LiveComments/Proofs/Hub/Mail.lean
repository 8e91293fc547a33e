import LiveComments.Proofs.Hub.Private

/-!
Letters that the hub has yet to read. They take sessions away, and add nothing: so what the hub will
know can be told from what it knows and from its mail.
-/

namespace LiveComments.Hub

namespace Letter

def session : Letter → String
  | unsubscribe session _ | disconnect session => session

def message : Letter → Message
  | unsubscribe session channel => .unsubscribe session channel
  | disconnect session => .disconnect session

def Removes (l : Letter) (session n : String) : Prop :=
  l = disconnect session ∨ ∃ channel, l = unsubscribe session channel ∧ channel.name = n

theorem Removes.session {l : Letter} {s n : String} (h : l.Removes s n) : l.session = s := by
  rcases h with rfl | ⟨channel, rfl, -⟩ <;> rfl

theorem message_session (l : Letter) : l.message.session? = some l.session := by
  cases l <;> rfl

theorem message_opened (l : Letter) : l.message.opened = [] := by
  cases l <;> rfl

end Letter

variable {h : Hub}

theorem step_message (h : Hub) (l : Letter) : h.step l.message = h.read l := by
  cases l <;> rfl

theorem run_messages (h : Hub) (mail : List Letter) :
    h.run (mail.map Letter.message) = h.readAll mail := by
  induction mail generalizing h with
  | nil => rfl
  | cons l mail ih =>
    rw [List.map_cons, run, List.foldl_cons, step_message]
    exact ih (h.read l)

theorem readAll_append (h : Hub) (mail mail' : List Letter) :
    h.readAll (mail ++ mail') = (h.readAll mail).readAll mail' :=
  List.foldl_append

theorem Orderly.read (ho : h.Orderly) (l : Letter) : (h.read l).Orderly := by
  rw [← step_message]
  exact ho.step l.message

theorem Orderly.readAll (ho : h.Orderly) (mail : List Letter) : (h.readAll mail).Orderly := by
  rw [← run_messages]
  exact ho.run _

theorem mem_read (ho : h.Orderly) {l : Letter} {s n : String} :
    s ∈ (h.read l).membersOf n ↔ s ∈ h.membersOf n ∧ ¬l.Removes s n := by
  cases l with
  | unsubscribe session channel =>
    have hleave : s ∈ (h.leave session channel.name).membersOf n ↔
        s ∈ h.membersOf n ∧ ¬(session = s ∧ channel.name = n) := mem_leave
    simpa [Letter.Removes, Hub.read, Hub.unsubscribe] using hleave
  | disconnect session =>
    change s ∈ (h.disconnect session).membersOf n ↔ _
    rw [membersOf_disconnect ho, List.mem_filter, decide_eq_true_eq]
    simp [Letter.Removes, @eq_comm _ s]

theorem mem_readAll (ho : h.Orderly) {mail : List Letter} {s n : String} :
    s ∈ (h.readAll mail).membersOf n ↔ s ∈ h.membersOf n ∧ ∀ l ∈ mail, ¬l.Removes s n := by
  induction mail generalizing h with
  | nil => exact (and_iff_left (List.forall_mem_nil _)).symm
  | cons l mail ih => rw [List.forall_mem_cons, ← and_assoc, ← mem_read ho, ← ih (ho.read l)]; rfl

theorem read_sessions (h : Hub) (l : Letter) (s : String) :
    (h.read l).sessions.get? s = if l = .disconnect s then none else h.sessions.get? s := by
  cases l with
  | unsubscribe session channel =>
    rw [if_neg nofun]
    exact congrArg (Table.get? · s) (leave_sessions h session channel.name)
  | disconnect session =>
    change (h.disconnect session).sessions.get? s = _
    simp only [Letter.disconnect.injEq]
    unfold Hub.disconnect
    split
    · exact Table.get?_erase _ _ _
    · rename_i hout
      split
      · rename_i hs
        rw [hs, Table.contains, Bool.not_eq_true, Option.isSome_eq_false_iff, Option.isNone_iff_eq_none]
          at hout
        exact hout
      · rfl

theorem readAll_sessions (h : Hub) (mail : List Letter) (s : String) :
    (h.readAll mail).sessions.get? s = if .disconnect s ∈ mail then none else h.sessions.get? s := by
  induction mail generalizing h with
  | nil => rfl
  | cons l mail ih =>
    change ((h.read l).readAll mail).sessions.get? s = _
    rw [ih, read_sessions]
    by_cases hm : Letter.disconnect s ∈ mail
    · rw [if_pos hm, if_pos (List.mem_cons_of_mem l hm)]
    · rw [if_neg hm]
      by_cases hl : l = .disconnect s
      · rw [if_pos hl, if_pos (hl ▸ List.mem_cons_self)]
      · rw [if_neg hl, if_neg]
        exact fun h => (List.mem_cons.mp h).elim (fun he => hl he.symm) hm

theorem readAll_sessions_some {mail : List Letter} {s : String} {user : Int} :
    (h.readAll mail).sessions.get? s = some user ↔
      .disconnect s ∉ mail ∧ h.sessions.get? s = some user := by
  rw [readAll_sessions]
  split <;> simp [*]

theorem readAll_sessions_none {mail : List Letter} {s : String} :
    (h.readAll mail).sessions.get? s = none ↔ .disconnect s ∈ mail ∨ h.sessions.get? s = none := by
  rw [readAll_sessions]
  split <;> simp [*]

theorem readAll_alike {h h' : Hub} (hs : h'.sessions = h.sessions) (hm : h'.members = h.members)
    (mail : List Letter) : (h'.readAll mail).sessions = (h.readAll mail).sessions ∧
      (h'.readAll mail).members = (h.readAll mail).members := by
  induction mail generalizing h h' with
  | nil => exact ⟨hs, hm⟩
  | cons l mail ih =>
    obtain ⟨bounds, sessions, members, rings⟩ := h
    obtain ⟨bounds', sessions', members', rings'⟩ := h'
    cases hs
    cases hm
    apply ih
    · cases l with
      | unsubscribe session channel => simp [Hub.read, Hub.unsubscribe]
      | disconnect session => unfold Hub.read Hub.disconnect; dsimp only; split <;> rfl
    · cases l with
      | unsubscribe session channel =>
        unfold Hub.read Hub.unsubscribe Hub.leave
        dsimp only
        split
        · rfl
        · split <;> rfl
      | disconnect session => unfold Hub.read Hub.disconnect; dsimp only; split <;> rfl

end LiveComments.Hub
