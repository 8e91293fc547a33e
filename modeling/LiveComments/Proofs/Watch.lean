import LiveComments.Proofs.Answer
import LiveComments.Proofs.Sending

/-!
Sessions under one clock. Every session is ticked from its start on, once in every interval, and a
tick ends it when its identity has expired or its client has been silent: so neither lasts long.
-/

namespace LiveComments

theorem Moment.seconds_le_iff (m : Moment) (e : Int) :
    m.stamp.seconds ≤ e ↔ m.wall < (e + 1) * 1000000 := by
  simp only [Moment.stamp, Stamp.ofMicros, Stamp.seconds]
  omega

/-! ### How a session ends -/

inductive Session.Ends (secret : String) (s : Session) (m : Moment) : Link.Act → Prop
  | last {f : Inbound} (kind : f.kind = .last) : Ends secret s m (.frame f)
  | unrenewed {f : Inbound} (fails : s.Unrenewed secret m f) : Ends secret s m (.frame f)
  | silent (long : Session.patience < m.steady - s.heard) : Ends secret s m .beat
  | expired (past : s.identity.expires < m.stamp.seconds) : Ends secret s m .beat

namespace Link

variable {secret : String} {b : Backend} {s : Session} {m : Moment}

theorem Taken.none_iff {f : Inbound} {p : Part} (h : Taken secret s m f p) :
    p.1.session = none ↔ s.Ends secret m (.frame f) := by
  have hnot (hk : f.kind ≠ .last) (hu : ¬s.Unrenewed secret m f) : ¬s.Ends secret m (.frame f) := by
    rintro (hlast | hfails)
    · exact hk hlast
    · exact hu hfails
  cases h with
  | answered kind goes renewed answer =>
    have hends := hnot (by rw [kind]; decide) renewed
    exact ⟨nofun, fun h => absurd h hends⟩
  | begun kind goes renewed number method =>
    have hends := hnot (by rw [kind]; decide) renewed
    exact ⟨nofun, fun h => absurd h hends⟩
  | dismissed fails => exact ⟨fun _ => .unrenewed fails, fun _ => rfl⟩
  | control kind goes silent =>
    have hcontrol : ¬s.Unrenewed secret m f := by
      rintro ⟨text, id, token, hl, -⟩
      rw [kind_of_text hl] at kind
      cases kind
    have hends := hnot (by rw [kind]; decide) hcontrol
    exact ⟨nofun, fun h => absurd h hends⟩
  | closed kind silent => exact ⟨fun _ => .last kind, fun _ => rfl⟩

theorem expired_iff (i : Identity) (now : Int) : Session.expired i now = true ↔ i.expires < now :=
  decide_eq_true_iff

theorem heartbeat_none_iff : (s.heartbeat b m).session = none ↔ s.Ends secret m .beat := by
  unfold Session.heartbeat
  by_cases hsilent : Session.patience < m.steady - s.heard
  · rw [if_pos hsilent]
    exact ⟨fun _ => .silent hsilent, fun _ => rfl⟩
  · rw [if_neg hsilent]
    by_cases hexpired : s.identity.expires < m.stamp.seconds
    · rw [if_pos ((expired_iff _ _).mpr hexpired)]
      exact ⟨fun _ => .expired hexpired, fun _ => rfl⟩
    · rw [if_neg (mt (expired_iff _ _).mp hexpired)]
      constructor
      · exact nofun
      · intro h
        cases h with
        | silent long => exact absurd long hsilent
        | expired past => exact absurd past hexpired

theorem heartbeat_some {s' : Session} (h : (s.heartbeat b m).session = some s') :
    s' = s ∧ m.steady ≤ s.heard + Session.patience ∧ m.stamp.seconds ≤ s.identity.expires := by
  unfold Session.heartbeat at h
  split at h
  · cases h
  · rename_i hsilent
    split at h
    · cases h
    · rename_i hexpired
      cases h
      have hnot : ¬s.identity.expires < m.stamp.seconds := mt (expired_iff _ _).mpr hexpired
      exact ⟨rfl, by omega, Int.not_lt.mp hnot⟩

theorem Taken.goes {f : Inbound} {p : Part} (h : Taken secret s m f p) {s' : Session}
    (hs : p.1.session = some s') : s.Goes secret m f s' := by
  cases h with
  | answered kind goes renewed answer =>
    cases hs
    exact goes
  | begun kind goes renewed number method =>
    cases hs
    exact goes
  | dismissed fails => cases hs
  | control kind goes silent =>
    cases hs
    exact goes
  | closed kind silent => cases hs

theorem act_none_iff (link : Link) (a : Act) : (act secret b link a m).1.session = none ↔
    link.flight = none ∧ link.session.Ends secret m a := by
  obtain ⟨s, flight⟩ := link
  cases flight with
  | none =>
    cases a with
    | frame f => exact (receive_taken secret b s f m).none_iff.trans (and_iff_right rfl).symm
    | proceed => exact ⟨nofun, fun h => nomatch h.2⟩
    | beat => exact heartbeat_none_iff.trans (and_iff_right rfl).symm
  | some flight =>
    refine ⟨?_, nofun⟩
    intro h
    cases a with
    | frame f => cases h
    | proceed =>
      cases (proceed_session b s flight m).symm.trans h
    | beat => cases h

end Link

/-! ### The clock -/

/-- What is known of a session: its latest tick, the latest sign of its client, and how long its
commands have been under way since that tick, in milliseconds. -/
structure Pulse where
  ticked : Int
  signed : Int
  spent : Nat

structure Watch where
  room : Admission
  now : Moment
  pulses : Table String Pulse := {}
  held : Table String (List Outbound) := {}

namespace Watch

inductive Input where
  | arrive (token : String)
  | frame (id : String) (f : Inbound)
  | proceed (id : String)
  | push (user : Int) (e : Event)
  | read
  | sweep
  | sources (s : Sources)
  | outage (o : Option (StoreCall × Fault))
  | tick (id : String)
  | pass (ms : Nat)

def flies (o : Admission) (id : String) : Bool :=
  (o.live.links.get? id).any fun link => link.flight.isSome

def waits (w : Watch) (id : String) : Bool :=
  (w.room.live.links.get? id).any fun link => link.flight.isNone

/-- A session is to be ticked once an interval has passed since its last tick, but a tick does not
interrupt a command: it may come late, and after frames that waited. -/
def due (w : Watch) (id : String) : Bool :=
  w.waits id && (w.pulses.get? id).any fun p => p.ticked + Session.beat ≤ w.now.steady

/-- Time does not pass the tick of a session, unless a command of it is under way. -/
def punctual (w : Watch) (ms : Nat) : Bool :=
  w.room.live.links.keys.all fun id =>
    flies w.room id || (w.pulses.get? id).all fun p => w.now.steady + ms ≤ p.ticked + Session.beat

def asked? (w : Watch) : Input → Option Admission.Input
  | .arrive token => some (.arrive token w.now)
  | .frame id f => some (.act id (.frame f) w.now)
  | .proceed id => some (.act id .proceed w.now)
  | .push user e => some (.push user e w.now)
  | .read => some .read
  | .sweep => some (.sweep w.now.steady)
  | .sources s => some (.sources s)
  | .outage o => some (.outage o)
  | .tick id => if w.due id then some (.act id .beat w.now) else none
  | .pass _ => none

def after (w : Watch) (i : Input) : Admission := (w.asked? i).elim w.room w.room.step

def later (w : Watch) : Input → Moment
  | .pass ms => if w.punctual ms then ⟨w.now.wall + 1000 * ms, w.now.steady + ms⟩ else w.now
  | _ => w.now

def touch (w : Watch) (id : String) (f : Pulse → Pulse) : Table String Pulse :=
  w.pulses.map fun j p => if id = j then f p else p

def pulse (w : Watch) : Input → Table String Pulse
  | .arrive _ => w.pulses.insert w.room.sessionIds.name ⟨w.now.steady, w.now.steady, 0⟩
  | .frame id f =>
    if w.waits id && f.isSign then w.touch id fun p => { p with signed := w.now.steady } else w.pulses
  | .tick id =>
    if w.due id then w.touch id fun p => { p with ticked := w.now.steady, spent := 0 } else w.pulses
  | .pass ms =>
    if w.punctual ms then
      w.pulses.map fun id p => if flies w.room id then { p with spent := p.spent + ms } else p
    else w.pulses
  | _ => w.pulses

/-! ### What is sent, and when -/

def leaving (w : Watch) (i : Input) : List (String × Outbound) := (w.asked? i).elim [] w.room.sends

def delayed (w : Watch) (i : Input) (y : String × Outbound) : Bool :=
  flies (w.after i) y.1 && !y.2.carried.isEmpty

def freed? (w : Watch) : Input → Option String
  | .proceed id => if flies w.room id && !flies (w.after (.proceed id)) id then some id else none
  | _ => none

def released (w : Watch) (i : Input) : List (String × Outbound) :=
  (w.freed? i).elim [] fun id => ((w.held.get? id).getD []).map (id, ·)

def sends (w : Watch) (i : Input) : List (String × Outbound) :=
  (w.leaving i).filter (·.2.carried.isEmpty) ++ (w.released i ++
    (w.leaving i).filter fun y => !y.2.carried.isEmpty && !w.delayed i y)

def hold (w : Watch) (i : Input) : Table String (List Outbound) :=
  ((w.leaving i).filter (w.delayed i)).foldl
    (fun held y => held.insert y.1 ((held.get? y.1).getD [] ++ [y.2]))
    ((w.freed? i).elim w.held w.held.erase)

def step (w : Watch) (i : Input) : Watch where
  room := w.after i
  now := w.later i
  pulses := w.pulse i
  held := w.hold i

def run (w : Watch) (is : List Input) : Watch := is.foldl step w

/-! ### What the ticks keep -/

structure Fresh (now : Moment) (p : Pulse) (s : Session) : Prop where
  past : p.ticked ≤ now.steady
  next : now.steady ≤ p.ticked + Session.beat + p.spent
  trusted : now.wall - 1000 * (now.steady - p.ticked) < (s.identity.expires + 1) * 1000000
  heard : p.ticked ≤ s.heard + Session.patience
  signed : p.signed = s.heard

def Watched (w : Watch) (id : String) (s : Session) : Prop :=
  ∃ p, w.pulses.get? id = some p ∧ Fresh w.now p s

structure Sound (w : Watch) : Prop where
  room : w.room.Settled
  watched : ∀ id link, w.room.live.links.get? id = some link → w.Watched id link.session

theorem fresh_now {m : Moment} {s : Session} (ht : m.stamp.seconds ≤ s.identity.expires)
    (hh : m.steady ≤ s.heard + Session.patience) : Fresh m ⟨m.steady, s.heard, 0⟩ s := by
  have hwall := (m.seconds_le_iff _).mp ht
  have hbeat : Session.beat = 5000 := rfl
  refine ⟨le_refl _, ?_, ?_, hh, rfl⟩
  · change m.steady ≤ m.steady + Session.beat + 0
    omega
  · change m.wall - 1000 * (m.steady - m.steady) < _
    omega

theorem Fresh.goes {secret : String} {now : Moment} {p : Pulse} {s s' : Session} {f : Inbound}
    (h : Fresh now p s) (hs : s.Goes secret now f s') :
    Fresh now (if f.isSign then { p with signed := now.steady } else p) s' := by
  obtain ⟨hpast, hnext, htrusted, hheard, hsigned⟩ := h
  have htrusted' : now.wall - 1000 * (now.steady - p.ticked) <
      (s'.identity.expires + 1) * 1000000 := by
    rcases hs.identity with hi | ⟨token, hv⟩
    · rw [hi]
      exact htrusted
    · -- A new identity is good now, hence it was at the last tick.
      have hwall := (now.seconds_le_iff _).mp (Token.verify_unexpired hv)
      omega
  have hheard' := hs.heard
  split at hheard'
  · rename_i hsign
    have hpatience : Session.patience = 10000 := rfl
    rw [if_pos hsign]
    refine ⟨hpast, hnext, htrusted', ?_, hheard'.symm⟩
    change p.ticked ≤ _
    omega
  · rename_i hsign
    rw [if_neg hsign]
    exact ⟨hpast, hnext, htrusted', hheard'.symm ▸ hheard, hsigned.trans hheard'.symm⟩

variable {w : Watch}

theorem Watched.kept {id : String} {s : Session} (h : w.Watched id s) (w' : Watch)
    (hn : w'.now = w.now) (hp : w'.pulses.get? id = w.pulses.get? id) : w'.Watched id s := by
  obtain ⟨p, hg, hf⟩ := h
  exact ⟨p, hp.trans hg, hn ▸ hf⟩

theorem waits_iff {id : String} : w.waits id = true ↔
    ∃ s, w.room.live.links.get? id = some ⟨s, none⟩ := by
  unfold waits
  rw [Option.any_eq_true]
  constructor
  · rintro ⟨⟨s, flight⟩, hg, hf⟩
    cases flight with
    | none => exact ⟨s, hg⟩
    | some flight => cases hf
  · rintro ⟨s, hg⟩
    exact ⟨_, hg, rfl⟩

theorem touch_get? (w : Watch) (id : String) (f : Pulse → Pulse) (j : String) :
    (w.touch id f).get? j = if id = j then (w.pulses.get? j).map f else w.pulses.get? j := by
  rw [touch, Table.get?_map]
  split
  · rfl
  · exact Option.map_id'

theorem step_due {id : String} (h : w.due id = true) :
    (w.step (.tick id)).room = w.room.step (.act id .beat w.now) := by
  simp [step, after, asked?, h]

theorem pulses_due {id : String} (h : w.due id = true) : (w.step (.tick id)).pulses =
    w.touch id fun p => { p with ticked := w.now.steady, spent := 0 } := if_pos h

theorem undue_room {id : String} (h : ¬w.due id = true) : (w.step (.tick id)).room = w.room := by
  simp [step, after, asked?, h]

theorem undue_pulses {id : String} (h : ¬w.due id = true) :
    (w.step (.tick id)).pulses = w.pulses := if_neg h

theorem Sound.arrive (hw : w.Sound) (token : String) : (w.step (.arrive token)).Sound := by
  have hroom : (w.step (.arrive token)).room = w.room.step (.arrive token w.now) := rfl
  refine ⟨hroom ▸ hw.room.step (.arrive token w.now), ?_⟩
  intro id link hg
  have hother (hne : w.room.sessionIds.name ≠ id) (hl : w.room.live.links.get? id = some link) :
      (w.step (.arrive token)).Watched id link.session := by
    apply (hw.watched id link hl).kept (w.step (.arrive token)) rfl
    exact (Table.get?_insert _ _ _ _).trans (if_neg hne)
  rw [hroom] at hg
  cases hv : Token.verify w.room.live.secret token w.now.stamp.seconds with
  | error f =>
    rw [Admission.step_refused hv] at hg
    exact hother (hw.room.sound.spent hg).name_ne hg
  | ok identity =>
    rw [Admission.arrive_links hv] at hg
    split at hg
    · rename_i hid
      cases hg
      subst hid
      refine ⟨⟨w.now.steady, w.now.steady, 0⟩, Table.get?_insert_self .., ?_⟩
      have hpatience : Session.patience = 10000 := rfl
      have hh : w.now.steady ≤ w.now.steady + Session.patience := by omega
      exact fresh_now (s := ⟨_, identity, _, w.now.steady⟩) (Token.verify_unexpired hv) hh
    · rename_i hne
      exact hother hne hg

theorem Sound.act (hw : w.Sound) (w' : Watch) {id : String} {a : Link.Act}
    (hroom : w'.room = w.room.step (.act id a w.now)) (hnow : w'.now = w.now)
    (hpulses : ∀ j, id ≠ j → w'.pulses.get? j = w.pulses.get? j)
    (hown : ∀ link s', w.room.live.links.get? id = some link →
      (w.room.live.part link a w.now).1.session = some s' →
        w.Watched id link.session → w'.Watched id s') : w'.Sound := by
  refine ⟨hroom ▸ hw.room.step _, ?_⟩
  intro j link hg
  rw [hroom] at hg
  change (w.room.live.step (.act id a w.now)).1.links.get? j = some link at hg
  rw [Live.act_links] at hg
  split at hg
  · rename_i hid
    subst hid
    obtain ⟨link', hl, hg⟩ := Option.bind_eq_some_iff.mp hg
    obtain ⟨s', hs, rfl⟩ := Option.map_eq_some_iff.mp hg
    exact hown link' s' hl hs (hw.watched id link' hl)
  · rename_i hne
    exact (hw.watched j link hg).kept w' hnow (hpulses j hne)

theorem Sound.frame (hw : w.Sound) (id : String) (f : Inbound) : (w.step (.frame id f)).Sound := by
  apply hw.act (w.step (.frame id f)) rfl rfl
  · intro j hne
    change (if w.waits id && f.isSign then w.touch id _ else w.pulses).get? j = _
    split
    · exact (w.touch_get? ..).trans (if_neg hne)
    · rfl
  · rintro ⟨s, flight⟩ s' hg hs ⟨p, hp, hfresh⟩
    cases flight with
    | none =>
      have hgoes := (Link.receive_taken _ _ s f w.now).goes hs
      have hwaits : w.waits id = true := waits_iff.mpr ⟨s, hg⟩
      refine ⟨_, ?_, hfresh.goes hgoes⟩
      change (if w.waits id && f.isSign then w.touch id _ else w.pulses).get? id = _
      rw [hwaits, Bool.true_and]
      split
      · rw [touch_get?, if_pos rfl, hp]
        rfl
      · exact hp
    | some flight =>
      cases hs
      have hbusy : w.waits id = false := by rw [waits, hg]; rfl
      refine ⟨p, ?_, hfresh⟩
      change (if w.waits id && f.isSign then w.touch id _ else w.pulses).get? id = _
      rw [hbusy]
      exact hp

theorem Sound.proceed (hw : w.Sound) (id : String) : (w.step (.proceed id)).Sound := by
  apply hw.act (w.step (.proceed id)) rfl rfl
  · exact fun j _ => rfl
  · rintro ⟨s, flight⟩ s' hg hs h
    have hkept : s = s' := by
      cases flight with
      | none =>
        cases hs
        rfl
      | some flight => exact Option.some.inj ((Link.proceed_session _ s flight w.now).symm.trans hs)
    rw [← hkept]
    exact h.kept (w.step (.proceed id)) rfl rfl

theorem Sound.tick (hw : w.Sound) (id : String) : (w.step (.tick id)).Sound := by
  by_cases hdue : w.due id = true
  · have hpulses := pulses_due hdue
    apply hw.act (w.step (.tick id)) (step_due hdue) rfl
    · intro j hne
      rw [hpulses, touch_get?, if_neg hne]
    · rintro ⟨s, flight⟩ s' hg hs ⟨p, hp, hfresh⟩
      obtain ⟨s₀, hg₀⟩ := waits_iff.mp (Bool.and_eq_true_iff.mp hdue).1
      rw [hg, Option.some.injEq, Link.mk.injEq] at hg₀
      obtain ⟨rfl, rfl⟩ := hg₀
      obtain ⟨rfl, hheard, htrusted⟩ := Link.heartbeat_some hs
      refine ⟨⟨w.now.steady, p.signed, 0⟩, ?_, ?_⟩
      · rw [hpulses, touch_get?, if_pos rfl, hp]
        rfl
      · rw [hfresh.signed]
        exact fresh_now htrusted hheard
  · refine ⟨(undue_room hdue).symm ▸ hw.room, ?_⟩
    intro j link hg
    rw [undue_room hdue] at hg
    exact (hw.watched j link hg).kept (w.step (.tick id)) rfl (by rw [undue_pulses hdue])

theorem Sound.pass (hw : w.Sound) (ms : Nat) : (w.step (.pass ms)).Sound := by
  refine ⟨hw.room, ?_⟩
  intro id link hg
  by_cases hpunctual : w.punctual ms = true
  · obtain ⟨p, hp, hpast, hnext, htrusted, hheard, hsigned⟩ := hw.watched id link hg
    have hnow : (w.step (.pass ms)).now = ⟨w.now.wall + 1000 * ms, w.now.steady + ms⟩ :=
      if_pos hpunctual
    have hpulses : (w.step (.pass ms)).pulses.get? id =
        some (if flies w.room id then { p with spent := p.spent + ms } else p) := by
      change (w.pulse (.pass ms)).get? id = _
      simp only [pulse, hpunctual, if_true]
      rw [Table.get?_map, hp]
      rfl
    have hms := List.all_eq_true.mp hpunctual id (List.mem_map_of_mem (Table.mem_of_get? hg))
    rw [hp, Bool.or_eq_true] at hms
    refine ⟨_, hpulses, ?_⟩
    rw [hnow]
    by_cases hflight : flies w.room id = true
    · -- The clock goes on during a command, and so does the time that is spent on it.
      rw [if_pos hflight]
      refine ⟨?_, ?_, ?_, hheard, hsigned⟩
      · change p.ticked ≤ w.now.steady + ms
        omega
      · change w.now.steady + ms ≤ p.ticked + Session.beat + (p.spent + ms : Nat)
        omega
      · change w.now.wall + 1000 * ms - 1000 * (w.now.steady + ms - p.ticked) < _
        omega
    · have hless := of_decide_eq_true (hms.resolve_left hflight)
      rw [if_neg hflight]
      refine ⟨?_, ?_, ?_, hheard, hsigned⟩
      · change p.ticked ≤ w.now.steady + ms
        omega
      · change w.now.steady + ms ≤ p.ticked + Session.beat + p.spent
        omega
      · change w.now.wall + 1000 * ms - 1000 * (w.now.steady + ms - p.ticked) < _
        omega
  · apply (hw.watched id link hg).kept (w.step (.pass ms))
    · exact if_neg hpunctual
    · exact congrArg (Table.get? · id) (if_neg hpunctual)

theorem Sound.step (hw : w.Sound) (i : Input) : (w.step i).Sound := by
  have haside {j : Admission.Input} (hj : w.asked? i = some j) (hn : w.later i = w.now)
      (hp : w.pulse i = w.pulses) (hl : (w.room.step j).live.links = w.room.live.links) :
      (w.step i).Sound := by
    have hroom : (w.step i).room = w.room.step j := by rw [Watch.step, after, hj, Option.elim_some]
    refine ⟨hroom ▸ hw.room.step j, ?_⟩
    intro id link hg
    rw [hroom, hl] at hg
    exact (hw.watched id link hg).kept (w.step i) hn (by rw [Watch.step, hp])
  cases i with
  | arrive token => exact hw.arrive token
  | frame id f => exact hw.frame id f
  | proceed id => exact hw.proceed id
  | push user e => exact haside rfl rfl rfl rfl
  | read => exact haside rfl rfl rfl w.room.read_links
  | sweep => exact haside rfl rfl rfl rfl
  | sources s => exact haside rfl rfl rfl rfl
  | outage o => exact haside rfl rfl rfl rfl
  | tick id => exact hw.tick id
  | pass ms => exact hw.pass ms

theorem Sound.run (hw : w.Sound) (is : List Input) : (w.run is).Sound := by
  induction is generalizing w with
  | nil => exact hw
  | cons i is ih => exact ih (hw.step i)

/-! ### Time goes on -/

def OnTime (w : Watch) (id : String) : Prop :=
  w.waits id = true → ∀ p, w.pulses.get? id = some p → w.now.steady < p.ticked + Session.beat

theorem tick_onTime (w : Watch) (id : String) : (w.step (.tick id)).OnTime id := by
  intro hwaits p hp
  have hbeat : Session.beat = 5000 := rfl
  change w.now.steady < _
  by_cases hdue : w.due id = true
  · rw [pulses_due hdue, touch_get?, if_pos rfl] at hp
    obtain ⟨q, -, rfl⟩ := Option.map_eq_some_iff.mp hp
    change w.now.steady < w.now.steady + Session.beat
    omega
  · rw [undue_pulses hdue] at hp
    rw [waits, undue_room hdue] at hwaits
    rw [due, waits, hwaits, Bool.true_and, hp] at hdue
    have hlate : ¬p.ticked + Session.beat ≤ w.now.steady := mt decide_eq_true hdue
    omega

theorem tick_other {id j : String} (hj : id ≠ j) (h : w.OnTime j) :
    (w.step (.tick id)).OnTime j := by
  have hpulses : (w.step (.tick id)).pulses.get? j = w.pulses.get? j := by
    by_cases hdue : w.due id = true
    · rw [pulses_due hdue, touch_get?, if_neg hj]
    · rw [undue_pulses hdue]
  have hwaits : (w.step (.tick id)).waits j = w.waits j := by
    by_cases hdue : w.due id = true
    · rw [waits, step_due hdue]
      change ((w.room.live.step (.act id .beat w.now)).1.links.get? j).any _ = _
      rw [Live.act_links, if_neg hj]
      rfl
    · rw [waits, undue_room hdue]
      rfl
  intro hw p hp
  exact h (hwaits ▸ hw) p (hpulses ▸ hp)

theorem tick_all (w : Watch) (ids : List String) : (w.run (ids.map .tick)).now = w.now ∧
    ∀ j, j ∈ ids ∨ w.OnTime j → (w.run (ids.map .tick)).OnTime j := by
  induction ids generalizing w with
  | nil => exact ⟨rfl, fun j h => h.resolve_left List.not_mem_nil⟩
  | cons id ids ih =>
    -- Those that were ticked before stay on time while the others are ticked.
    obtain ⟨hnow, htime⟩ := ih (w.step (.tick id))
    refine ⟨hnow, ?_⟩
    intro j hj
    apply htime
    by_cases hid : id = j
    · exact .inr (hid ▸ w.tick_onTime id)
    · rcases hj with hj | hj
      · exact .inl ((List.mem_cons.mp hj).resolve_left (Ne.symm hid))
      · exact .inr (tick_other hid hj)

theorem punctual_of_onTime (h : ∀ id, w.OnTime id) : w.punctual 1 = true := by
  apply List.all_eq_true.mpr
  intro id hid
  rw [Bool.or_eq_true, Option.all_eq_true]
  by_cases hflies : flies w.room id = true
  · exact .inl hflies
  · right
    intro p hp
    obtain ⟨e, he, rfl⟩ := List.mem_map.mp hid
    obtain ⟨⟨s, flight⟩, hg⟩ := Table.exists_get?_of_mem he
    have hwaits : w.waits e.1 = true := by
      rw [flies, hg] at hflies
      rw [waits, hg]
      cases flight with
      | none => rfl
      | some flight => exact absurd rfl hflies
    have hless := h e.1 hwaits p hp
    apply decide_eq_true
    omega

theorem time_goes_on (w : Watch) :
    ∃ is, (w.run is).now = ⟨w.now.wall + 1000, w.now.steady + 1⟩ := by
  obtain ⟨hnow, htime⟩ := w.tick_all w.room.live.links.keys
  have hpunctual : (w.run (w.room.live.links.keys.map .tick)).punctual 1 = true := by
    apply punctual_of_onTime
    intro id
    apply htime
    by_cases hid : id ∈ w.room.live.links.keys
    · exact .inl hid
    · right
      intro hwaits
      obtain ⟨s, hg⟩ := waits_iff.mp hwaits
      exact absurd (List.mem_map_of_mem (Table.mem_of_get? hg)) hid
  refine ⟨w.room.live.links.keys.map .tick ++ [.pass 1], ?_⟩
  have hrun : w.run (w.room.live.links.keys.map .tick ++ [.pass 1]) =
      (w.run (w.room.live.links.keys.map .tick)).step (.pass 1) :=
    List.foldl_concat ..
  rw [hrun]
  exact (if_pos hpunctual).trans (by rw [hnow]; rfl)

/-! ### What is done in time -/

/-- How long a session has been due for its tick. -/
def late (w : Watch) (id : String) : Nat :=
  ((w.pulses.get? id).map fun p => (w.now.steady - (p.ticked + Session.beat)).toNat).getD 0

def spent (w : Watch) (id : String) : Nat := ((w.pulses.get? id).map Pulse.spent).getD 0

def InTime (w : Watch) (id : String) (late : Nat) : Prop :=
  ∃ link p, w.room.live.links.get? id = some link ∧ w.pulses.get? id = some p ∧
    w.now.wall < (link.session.identity.expires + 6) * 1000000 + 1000 * late ∧
    w.now.steady ≤ p.signed + 15000 + late

theorem Sound.inTime (hw : w.Sound) {id : String} {link : Link}
    (hg : w.room.live.links.get? id = some link) : w.InTime id (w.late id) := by
  obtain ⟨p, hp, hpast, hnext, htrusted, hheard, hsigned⟩ := hw.watched id link hg
  have hbeat : Session.beat = 5000 := rfl
  have hpatience : Session.patience = 10000 := rfl
  have hlate : w.late id = (w.now.steady - (p.ticked + Session.beat)).toNat := by
    rw [late, hp, Option.map_some, Option.getD_some]
  refine ⟨link, p, hg, hp, ?_, ?_⟩
  · omega
  · omega

theorem Sound.late_le (hw : w.Sound) {id : String} {link : Link}
    (hg : w.room.live.links.get? id = some link) : w.late id ≤ w.spent id := by
  obtain ⟨p, hp, hfresh⟩ := hw.watched id link hg
  have hnext := hfresh.next
  rw [late, spent, hp, Option.map_some, Option.map_some, Option.getD_some, Option.getD_some]
  omega

theorem Sound.executed (hw : w.Sound) {id : String} {a : Link.Act}
    (h : w.room.step (.act id a w.now) ≠ w.room) : w.InTime id (w.late id) := by
  cases hg : w.room.live.links.get? id with
  | none => exact absurd (Admission.step_absent hg a w.now) h
  | some link => exact hw.inTime hg

theorem Sound.leaving (hw : w.Sound) {i : Input} {y : String × Outbound} (hy : y ∈ w.leaving i)
    (hp : y.2.carried ≠ []) : w.InTime y.1 (w.late y.1) := by
  unfold Watch.leaving at hy
  cases hj : w.asked? i with
  | none =>
    rw [hj] at hy
    cases hy
  | some j =>
    rw [hj, Option.elim_some] at hy
    rcases hw.room.sends_to hy with ⟨link, hg⟩ | ⟨⟨token, m, rfl⟩, hname⟩
    · exact hw.inTime hg
    · -- Who arrives is only told so.
      cases hv : Token.verify w.room.live.secret token m.stamp.seconds with
      | error f =>
        rw [Admission.sends, Admission.enters_refused hv] at hy
        cases hy
      | ok identity =>
        rw [hw.room.sends_arrive hv, List.mem_singleton] at hy
        rw [hy] at hp
        exact absurd rfl hp

theorem Sound.released (hw : w.Sound) {i : Input} {y : String × Outbound} (hy : y ∈ w.released i) :
    w.InTime y.1 (w.late y.1) := by
  unfold Watch.released at hy
  cases hid : w.freed? i with
  | none =>
    rw [hid] at hy
    cases hy
  | some id =>
    rw [hid, Option.elim_some] at hy
    obtain ⟨out, -, rfl⟩ := List.mem_map.mp hy
    unfold freed? at hid
    split at hid
    · split at hid
      · rename_i hfreed
        cases hid
        obtain ⟨link, hg, -⟩ := (Option.any_eq_true _ _).mp (Bool.and_eq_true_iff.mp hfreed).1
        exact hw.inTime hg
      · cases hid
    · cases hid

theorem Sound.sent (hw : w.Sound) {i : Input} {y : String × Outbound} (hy : y ∈ w.sends i)
    (hp : y.2.carried ≠ []) : w.InTime y.1 (w.late y.1) := by
  rcases List.mem_append.mp hy with hy | hy
  · exact hw.leaving (List.mem_filter.mp hy).1 hp
  · rcases List.mem_append.mp hy with hy | hy
    · exact hw.released hy
    · exact hw.leaving (List.mem_filter.mp hy).1 hp

/-- A run in which no time passes while a command of the session is under way. -/
def Brisk (id : String) (w : Watch) : List Input → Prop
  | [] => True
  | i :: is => (∀ ms, i = .pass ms → flies w.room id = false) ∧ Brisk id (w.step i) is

def Unspent (id : String) (w : Watch) : Prop := ∀ p, w.pulses.get? id = some p → p.spent = 0

theorem Unspent.step {id : String} (hw : Unspent id w) (i : Input)
    (hbrisk : ∀ ms, i = .pass ms → flies w.room id = false) : Unspent id (w.step i) := by
  intro p hp
  change (w.pulse i).get? id = some p at hp
  have htouch {j : String} {f : Pulse → Pulse} (hp : (w.touch j f).get? id = some p)
      (hf : ∀ p : Pulse, p.spent = 0 → (f p).spent = 0) : p.spent = 0 := by
    rw [touch_get?] at hp
    split at hp
    · obtain ⟨q, hq, rfl⟩ := Option.map_eq_some_iff.mp hp
      exact hf q (hw q hq)
    · exact hw p hp
  cases i with
  | arrive token =>
    rw [pulse, Table.get?_insert] at hp
    split at hp
    · cases hp
      rfl
    · exact hw p hp
  | frame j f =>
    rw [pulse] at hp
    split at hp
    · exact htouch hp fun _ h => h
    · exact hw p hp
  | tick j =>
    rw [pulse] at hp
    split at hp
    · exact htouch hp fun _ _ => rfl
    · exact hw p hp
  | pass ms =>
    rw [pulse] at hp
    split at hp
    · rw [Table.get?_map] at hp
      obtain ⟨q, hq, rfl⟩ := Option.map_eq_some_iff.mp hp
      rw [hbrisk ms rfl]
      exact hw q hq
    · exact hw p hp
  | _ => exact hw p hp

theorem Unspent.spent {id : String} (hw : Unspent id w) : w.spent id = 0 := by
  unfold Watch.spent
  cases hp : w.pulses.get? id with
  | none => rfl
  | some p => exact hw p hp

theorem Unspent.run {id : String} (hw : Unspent id w) {is : List Input} (hbrisk : Brisk id w is) :
    Unspent id (w.run is) := by
  induction is generalizing w with
  | nil => exact hw
  | cons i is ih => exact ih (hw.step i hbrisk.1) hbrisk.2

end Watch

namespace Admission

/-- Nothing is left of a session, nothing that it is asked is done, and nothing is sent to it. Nor does
the hub know of it when it is next asked for anything, or has heeded its letter, which it will. -/
structure Forgotten (o : Admission) (id : String) : Prop where
  absent : o.live.links.get? id = none
  vanished : o.live.ahead.sessions.get? id = none ∧ ∀ n, id ∉ o.live.ahead.membersOf n
  idle : ∀ a m, o.step (.act id a m) = o
  silent : ∀ i, ∀ y ∈ o.sends i, y.1 ≠ id
  unknown : .disconnect id ∉ o.live.mail →
    o.live.backend.hub.sessions.get? id = none ∧ ∀ n, id ∉ o.live.backend.hub.membersOf n
  heeded : ∀ k, o.live.mail.length ≤ k →
    (o.run (List.replicate k .read)).live.backend.hub.sessions.get? id = none ∧
      ∀ n, id ∉ (o.run (List.replicate k .read)).live.backend.hub.membersOf n

theorem reads_mail (o : Admission) (k : Nat) :
    (o.run (List.replicate k .read)).live.mail = o.live.mail.drop k := by
  induction k generalizing o with
  | zero => rfl
  | succ k ih =>
    rw [List.replicate_succ]
    change ((o.step .read).run (List.replicate k .read)).live.mail = _
    rw [ih]
    change (o.live.step .read).1.mail.drop k = _
    rw [Live.read_mail, List.drop_tail]

theorem Over.forgotten {o : Admission} {id : String} (h : o.Over id) (ho : o.Settled) :
    o.Forgotten id where
  absent := h.absent
  vanished := by
    have hnone := ho.sound.live.absent id h.absent
    refine ⟨hnone, fun n hm => ?_⟩
    obtain ⟨user, huser⟩ := Table.contains_iff.mp (ho.sound.live.ahead_orderly.connected n id hm)
    cases hnone.symm.trans huser
  idle := step_absent h.absent
  silent := h.sends ho
  unknown := ho.sound.live.unknown h.absent
  heeded := by
    intro k hk
    apply (ho.run _).sound.live.unknown (h.run _).absent
    rw [reads_mail, List.drop_of_length_le hk]
    exact List.not_mem_nil

theorem ends_iff {o : Admission} {id : String} {link : Link}
    (hg : o.live.links.get? id = some link) (a : Link.Act) (m : Moment) :
    (o.step (.act id a m)).live.links.get? id = none ↔
      link.flight = none ∧ link.session.Ends o.live.secret m a := by
  change (o.live.step (.act id a m)).1.links.get? id = none ↔ _
  rw [Live.act_links, if_pos rfl, hg, ← Link.act_none_iff]
  exact Option.map_eq_none_iff

end Admission

end LiveComments
