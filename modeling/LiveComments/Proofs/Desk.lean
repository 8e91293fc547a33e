import LiveComments.Proofs.Rounds
import LiveComments.Proofs.Sending

/-!
Frames that come while a session is at work wait for its turn. Whatever the other sessions do, the
journal of each goes in rounds, and no frame waits for ever.
-/

namespace LiveComments

open Journal

/-- Sessions with the frames that wait for each of them. -/
structure Desk where
  room : Admission
  inbox : Table String (List Inbound) := {}

namespace Desk

def waiting (d : Desk) (id : String) : List Inbound := (d.inbox.get? id).getD []

def act? (d : Desk) (id : String) : Option Link.Act :=
  match d.room.live.links.get? id with
  | some ⟨_, some _⟩ => some .proceed
  | some ⟨_, none⟩ => (d.waiting id).head?.map .frame
  | none => none

def asked? (d : Desk) : Admission.Input → Option Admission.Input
  | .act _ (.frame _) _ => none
  | .act id .proceed m => (d.act? id).map (.act id · m)
  | i => some i

def queue (d : Desk) : Admission.Input → Table String (List Inbound)
  | .act id (.frame f) _ =>
    if d.room.live.links.contains id then d.inbox.insert id (d.waiting id ++ [f]) else d.inbox
  | .act id .proceed _ =>
    match d.act? id with
    | some (.frame _) => d.inbox.insert id (d.waiting id).tail
    | _ => d.inbox
  | _ => d.inbox

def step (d : Desk) (i : Admission.Input) : Desk where
  room := (d.asked? i).elim d.room d.room.step
  inbox := d.queue i

def run (d : Desk) (is : List Admission.Input) : Desk := is.foldl step d

def sends (d : Desk) (i : Admission.Input) : List (String × Outbound) :=
  (d.asked? i).elim [] d.room.sends

/-! ### What is recorded of a session -/

def enters (d : Desk) (i : Admission.Input) : Option Live.Input := (d.asked? i).bind d.room.enters

def letters (d : Desk) (i : Admission.Input) : List Hub.Letter :=
  (d.enters i).elim [] d.room.live.letters

def posted (d : Desk) (i : Admission.Input) : List Hub.Letter :=
  (d.enters i).elim [] d.room.live.posts

def unread (d : Desk) (id : String) : List Hub.Letter :=
  d.room.live.mail.filter (·.session = id)

def turn (d : Desk) (id : String) (m : Moment) (after : CommentStore) : List Entry :=
  match d.room.live.links.get? id, d.act? id with
  | some link, some a => reading link a m ++ effects (link.asks d.room.live.backend a m)
      (storing link a d.room.live.backend.store after) (d.room.live.part link a m).1.posts
  | _, _ => []

def own (d : Desk) (id : String) (i : Admission.Input) : List Entry :=
  match i with
  | .act j (.frame f) _ => if j = id ∧ d.room.live.links.contains id then [.came f] else []
  | .act j .proceed m => if j = id then d.turn id m (d.step i).room.live.backend.store else []
  | .act j .beat _ => if j = id then (d.posted i).map .posted else []
  | _ => []

/-- Replies count whenever they are sent, the end of the session as an answer only in a turn. -/
def pick : Admission.Input → Outbound → Option Notice
  | .act _ .proceed _ => Outbound.answer?
  | _ => Outbound.reply?

def told (id : String) (ys : List (String × Outbound)) : List Outbound :=
  (ys.filter (·.1 = id)).map (·.2)

def entries (d : Desk) (id : String) (i : Admission.Input) : List Entry :=
  ((d.letters i).filter (·.session = id)).map .heeded ++
    (d.own id i ++ ((told id (d.sends i)).filterMap (pick i)).map .answered)

def journal (id : String) : Desk → List Admission.Input → List Entry
  | _, [] => []
  | d, i :: is => d.entries id i ++ journal id (d.step i) is

theorem journal_append (id : String) (d : Desk) (is js : List Admission.Input) :
    journal id d (is ++ js) = journal id d is ++ journal id (d.run is) js := by
  induction is generalizing d with
  | nil => rfl
  | cons i is ih =>
    rw [List.cons_append, journal, journal, ih, List.append_assoc]
    rfl

/-! ### What a session is told -/

theorem told_append (id : String) (xs ys : List (String × Outbound)) :
    told id (xs ++ ys) = told id xs ++ told id ys := by
  rw [told, List.filter_append, List.map_append]
  rfl

theorem told_own (id : String) (out : List Outbound) : told id (out.map (id, ·)) = out := by
  induction out with
  | nil => rfl
  | cons o out ih => simpa [told] using ih

theorem told_other {id j : String} (h : j ≠ id) (out : List Outbound) :
    told id (out.map (j, ·)) = [] := by
  simp [told, h]

theorem pick_publication (i : Admission.Input) (n : String) (p : Publication) :
    pick i (.notice (.publication n p)) = none := by
  unfold pick
  split <;> rfl

theorem heard_told {o : Admission} {ys : List (String × Outbound)} (h : o.Heard ys) (id : String)
    (i : Admission.Input) : (told id ys).filterMap (pick i) = [] := by
  rw [List.filterMap_eq_nil_iff]
  intro out hout
  obtain ⟨y, hy, rfl⟩ := List.mem_map.mp hout
  obtain ⟨-, n, p, hp⟩ := h y (List.mem_filter.mp hy).1
  rw [hp]
  exact pick_publication i n p

variable {d : Desk} {id : String}

theorem told_act (hd : d.room.Settled) (id : String) {j : String} {link : Link}
    (hg : d.room.live.links.get? j = some link) (a : Link.Act) (m : Moment) (i : Admission.Input) :
    (told id (d.room.sends (.act j a m))).filterMap (pick i) =
      if j = id then (d.room.live.part link a m).1.out.filterMap (pick i) else [] := by
  obtain ⟨ys, hys, hheard⟩ := hd.sends_act hg a m
  rw [hys, told_append, List.filterMap_append, heard_told hheard, List.append_nil]
  split
  · rename_i hj
    rw [hj, told_own]
  · rename_i hj
    rw [told_other hj]
    rfl

/-! ### The journal goes in rounds -/

inductive Kept (d : Desk) (id : String) (es : List Entry) : Prop
  | before (absent : d.room.live.links.get? id = none) (empty : d.waiting id = []) (blank : es = [])
      (silent : d.unread id = [])
  | live {link : Link} {p : Phase} (here : d.room.live.links.get? id = some link)
      (rounds : Rounds d.room.live.secret es p (d.unread id))
      (stage : Matches d.room.live.secret link.flight p)
      (order : cameIn es = (reads es).map (·.frame) ++ d.waiting id)
  | gone {p : Phase} (ended : d.room.Over id)
      (rounds : Rounds d.room.live.secret es p (d.unread id))

section

variable {i : Admission.Input}

theorem step_asked {j : Admission.Input} (h : d.asked? i = some j) :
    (d.step i).room = d.room.step j := by
  rw [step, h, Option.elim_some]

theorem step_unasked (h : d.asked? i = none) : (d.step i).room = d.room := by
  rw [step, h, Option.elim_none]

theorem sends_asked {j : Admission.Input} (h : d.asked? i = some j) :
    d.sends i = d.room.sends j := by
  rw [sends, h, Option.elim_some]

theorem sends_unasked (h : d.asked? i = none) : d.sends i = [] := by
  rw [sends, h, Option.elim_none]

theorem step_secret (d : Desk) (i : Admission.Input) :
    (d.step i).room.live.secret = d.room.live.secret := by
  cases h : d.asked? i with
  | none => rw [step_unasked h]
  | some j => rw [step_asked h, Admission.step_secret]

theorem settled_step (hd : d.room.Settled) (i : Admission.Input) : (d.step i).room.Settled := by
  cases h : d.asked? i with
  | none => rwa [step_unasked h]
  | some j =>
    rw [step_asked h]
    exact hd.step j

theorem step_live (d : Desk) (i : Admission.Input) : (d.step i).room.live =
    (d.enters i).elim d.room.live fun j => (d.room.live.step j).1 := by
  unfold enters
  cases h : d.asked? i with
  | none => rw [step_unasked h]; rfl
  | some j => rw [step_asked h, Admission.step_live, Option.bind_some]

theorem enters_act {j : String} {a : Link.Act} {m : Moment} (d : Desk) {k : Live.Input}
    (h : d.enters (.act j a m) = some k) : ∃ a', k = .act j a' m := by
  obtain ⟨i, hi, hk⟩ := Option.bind_eq_some_iff.mp h
  cases a with
  | frame f => cases hi
  | proceed =>
    obtain ⟨a', -, rfl⟩ := Option.map_eq_some_iff.mp hi
    cases hk
    exact ⟨a', rfl⟩
  | beat =>
    cases hi
    cases hk
    exact ⟨.beat, rfl⟩

theorem unread_step (d : Desk) (i : Admission.Input) (id : String) : ∃ rest,
    d.unread id = (d.letters i).filter (·.session = id) ++ rest ∧
      (d.step i).unread id = rest ++ (d.posted i).filter (·.session = id) ∧
      ((d.enters i).elim [] d.room.live.calls ≠ [] → rest = []) := by
  unfold unread letters posted
  rw [step_live]
  cases d.enters i with
  | none => exact ⟨_, rfl, (List.append_nil _).symm, fun h => absurd rfl h⟩
  | some j =>
    obtain ⟨rest, hmail, hmail'⟩ := d.room.live.step_mail j
    refine ⟨rest.filter (·.session = id), ?_, ?_, ?_⟩
    · rw [← List.filter_append]
      exact congrArg _ hmail
    · rw [← List.filter_append]
      exact congrArg _ hmail'
    · intro hcalls
      rw [d.room.live.letters_of_calls hcalls] at hmail
      rw [List.self_eq_append_right.mp hmail]
      rfl

theorem over_step (h : d.room.Over id) (i : Admission.Input) : (d.step i).room.Over id := by
  cases hi : d.asked? i with
  | none => rwa [step_unasked hi]
  | some j =>
    rw [step_asked hi]
    exact h.step j

end

theorem act?_absent (hg : d.room.live.links.get? id = none) : d.act? id = none := by
  rw [act?, hg]

theorem act?_busy {s : Session} {flight : Flight}
    (hg : d.room.live.links.get? id = some ⟨s, some flight⟩) : d.act? id = some .proceed := by
  rw [act?, hg]

theorem act?_idle {s : Session} (hg : d.room.live.links.get? id = some ⟨s, none⟩) :
    d.act? id = (d.waiting id).head?.map .frame := by
  rw [act?, hg]

theorem waiting_busy {s : Session} {flight : Flight}
    (hg : d.room.live.links.get? id = some ⟨s, some flight⟩) (m : Moment) :
    (d.step (.act id .proceed m)).waiting id = d.waiting id := by
  simp only [step, waiting, queue, act?_busy hg]

theorem waiting_idle {s : Session} (hg : d.room.live.links.get? id = some ⟨s, none⟩) {f : Inbound}
    {fs : List Inbound} (hf : d.waiting id = f :: fs) (m : Moment) :
    (d.step (.act id .proceed m)).waiting id = fs := by
  have hact : d.act? id = some (.frame f) := by rw [act?_idle hg, hf]; rfl
  rw [waiting, step, queue, hact]
  simp [hf]

theorem queue_other {j : String} (hj : j ≠ id) (a : Link.Act) (m : Moment) :
    (d.queue (.act j a m)).get? id = d.inbox.get? id := by
  have hinsert (fs : List Inbound) : (d.inbox.insert j fs).get? id = d.inbox.get? id := by
    rw [Table.get?_insert, if_neg hj]
  unfold queue
  cases a with
  | frame f =>
    dsimp only
    split
    · exact hinsert _
    · rfl
  | proceed =>
    dsimp only
    split
    · exact hinsert _
    · rfl
  | beat => rfl

section

variable {es : List Entry} {i : Admission.Input}

theorem Kept.aside (h : d.Kept id es)
    (hl : (d.step i).room.live.links.get? id = d.room.live.links.get? id)
    (hw : (d.step i).waiting id = d.waiting id) (hp : (d.posted i).filter (·.session = id) = [])
    (he : d.own id i = [] ∧ (told id (d.sends i)).filterMap (pick i) = []) :
    (d.step i).Kept id (es ++ d.entries id i) := by
  have hentries : d.entries id i = ((d.letters i).filter (·.session = id)).map .heeded := by
    rw [entries, he.1, he.2]
    exact List.append_nil _
  obtain ⟨rest, hbefore, hafter, -⟩ := d.unread_step i id
  rw [hp, List.append_nil] at hafter
  have hsecret := d.step_secret i
  have hheed {p : Phase} (rounds : Rounds d.room.live.secret es p (d.unread id)) :
      Rounds (d.step i).room.live.secret (es ++ d.entries id i) p ((d.step i).unread id) := by
    rw [hsecret, hentries, hafter]
    exact Rounds.heed _ (hbefore ▸ rounds)
  cases h with
  | before absent empty blank silent =>
    obtain ⟨hnone, hrest⟩ := List.append_eq_nil_iff.mp (hbefore.symm.trans silent)
    rw [hnone] at hentries
    exact .before (hl.trans absent) (hw.trans empty) (by rw [blank, hentries]; rfl)
      (hafter.trans hrest)
  | live here rounds stage order =>
    refine .live (hl.trans here) (hheed rounds) (hsecret ▸ stage) ?_
    rw [hw, hentries, cameIn_append, reads_append, (heeded_silent _).1, (heeded_silent _).2,
      List.append_nil, List.append_nil]
    exact order
  | gone ended rounds => exact .gone (over_step ended i) (hheed rounds)

theorem Kept.rounds (h : d.Kept id es) : ∃ p,
    Rounds d.room.live.secret es p (d.unread id) ∧
      ∀ link, d.room.live.links.get? id = some link →
        cameIn es = (reads es).map (·.frame) ++ d.waiting id ∧
          Matches d.room.live.secret link.flight p := by
  have habsent (hno : d.room.live.links.get? id = none) {P : Link → Prop} (link : Link)
      (hg : d.room.live.links.get? id = some link) : P link := by
    rw [hno] at hg
    cases hg
  cases h with
  | before absent empty blank silent =>
    exact ⟨.idle, by rw [blank, silent]; exact .start, habsent absent⟩
  | live here rounds stage order =>
    refine ⟨_, rounds, ?_⟩
    intro link hg
    rw [here, Option.some.injEq] at hg
    exact ⟨order, hg ▸ stage⟩
  | gone ended rounds => exact ⟨_, rounds, habsent ended.absent⟩

theorem Kept.of_live (h : d.Kept id es) {link : Link}
    (hg : d.room.live.links.get? id = some link) :
    ∃ p, Rounds d.room.live.secret es p (d.unread id) ∧
      Matches d.room.live.secret link.flight p ∧
      cameIn es = (reads es).map (·.frame) ++ d.waiting id := by
  obtain ⟨p, hrounds, hlive⟩ := h.rounds
  obtain ⟨horder, hstage⟩ := hlive link hg
  exact ⟨p, hrounds, hstage, horder⟩

theorem kept_went (hd : d.room.Settled) {link : Link} (hg : d.room.live.links.get? id = some link)
    {a : Link.Act} {m : Moment} (hi : d.asked? i = some (.act id a m)) {p : Phase}
    (hr : Rounds d.room.live.secret es p ((d.step i).unread id))
    (hs : ∀ s', (d.room.live.part link a m).1.session = some s' →
      Matches d.room.live.secret (d.room.live.part link a m).2 p ∧
        cameIn es = (reads es).map (·.frame) ++ (d.step i).waiting id) :
    (d.step i).Kept id es := by
  have hsecret := d.step_secret i
  have hlinks := d.room.live.act_links id a m id
  rw [if_pos rfl, hg, Option.bind_some] at hlinks
  change (d.room.step (.act id a m)).live.links.get? id = _ at hlinks
  rw [← step_asked hi] at hlinks
  cases hsession : (d.room.live.part link a m).1.session with
  | none =>
    rw [hsession] at hlinks
    refine .gone ⟨hlinks, ?_⟩ (hsecret ▸ hr)
    rw [step_asked hi]
    exact (hd.sound.spent hg).step _
  | some s' =>
    obtain ⟨hstage, horder⟩ := hs s' hsession
    rw [hsession] at hlinks
    exact .live hlinks (hsecret ▸ hr) (hsecret ▸ hstage) horder

theorem posted_act {j : String} {a : Link.Act} {m : Moment}
    (hi : d.asked? i = some (.act j a m)) : d.posted i = d.room.live.posts (.act j a m) := by
  rw [posted, enters, hi]
  rfl

theorem posted_session (hd : d.room.Settled) {j : String} {link : Link}
    (hg : d.room.live.links.get? j = some link) {a : Link.Act} {m : Moment} {l : Hub.Letter}
    (hl : l ∈ (d.room.live.part link a m).1.posts) : l.session = j :=
  (Link.act_posts d.room.live.secret hl).1.trans (hd.sound.live.sessions j link hg).1

theorem unread_own (hd : d.room.Settled) {link : Link} (hg : d.room.live.links.get? id = some link)
    {a : Link.Act} {m : Moment} (hi : d.asked? i = some (.act id a m)) : ∃ rest,
    d.unread id = (d.letters i).filter (·.session = id) ++ rest ∧
      (d.step i).unread id = rest ++ (d.room.live.part link a m).1.posts ∧
      (link.asks d.room.live.backend a m = [] ∨ rest = []) := by
  obtain ⟨rest, hbefore, hafter, hcalls⟩ := d.unread_step i id
  refine ⟨rest, hbefore, ?_, ?_⟩
  · rw [hafter, posted_act hi, Live.step_posts hg, List.filter_eq_self.mpr]
    intro l hl
    exact decide_eq_true (posted_session hd hg hl)
  · rw [enters, hi, Option.bind_some, Admission.enters, Option.elim_some, Live.calls, hg] at hcalls
    by_cases hnone : link.asks d.room.live.backend a m = []
    · exact .inl hnone
    · exact .inr (hcalls hnone)

theorem entries_arrive (hd : d.room.Settled) (id token : String) (m : Moment) :
    (told id (d.sends (.arrive token m))).filterMap (pick (.arrive token m)) = [] := by
  have hsends : d.sends (.arrive token m) = d.room.sends (.arrive token m) := rfl
  cases hv : Token.verify d.room.live.secret token m.stamp.seconds with
  | error f =>
    have hnone : d.room.sends (.arrive token m) = [] := by
      rw [Admission.sends, Admission.enters_refused hv]
      rfl
    rw [hsends, hnone]
    rfl
  | ok identity =>
    rw [hsends, hd.sends_arrive hv]
    by_cases hid : d.room.sessionIds.name = id
    · simp [told, hid, pick, Outbound.reply?, Notice.reply?]
    · simp [told, hid]

theorem posted_arrive (d : Desk) (token : String) (m : Moment) : d.posted (.arrive token m) = [] := by
  have henters : d.enters (.arrive token m) = d.room.enters (.arrive token m) := rfl
  rw [posted, henters]
  cases hv : Token.verify d.room.live.secret token m.stamp.seconds with
  | error f => rw [Admission.enters_refused hv]; rfl
  | ok identity => rw [Admission.enters_arrive hv]; rfl

theorem Kept.arrive (hd : d.room.Settled) (h : d.Kept id es) (token : String) (m : Moment) :
    (d.step (.arrive token m)).Kept id (es ++ d.entries id (.arrive token m)) := by
  have htold := entries_arrive hd id token m
  have hposted : (d.posted (.arrive token m)).filter (·.session = id) = [] := by
    rw [posted_arrive]
    rfl
  have hroom : (d.step (.arrive token m)).room = d.room.step (.arrive token m) :=
    step_asked rfl
  by_cases hl : (d.step (.arrive token m)).room.live.links.get? id = d.room.live.links.get? id
  · exact h.aside hl rfl hposted ⟨rfl, htold⟩
  · cases hv : Token.verify d.room.live.secret token m.stamp.seconds with
    | error f =>
      rw [hroom, Admission.step_refused hv] at hl
      exact absurd rfl hl
    | ok identity =>
      rw [hroom, Admission.arrive_links hv] at hl
      by_cases hid : d.room.sessionIds.name = id
      · rw [if_pos hid] at hl
        have hfresh : d.room.live.links.get? id = none := hid ▸ hd.sound.fresh 0
        -- The session begins, and no frame of it has come.
        cases h with
        | before absent empty blank silent =>
          have hhere := Admission.arrive_links hv id
          rw [if_pos hid, ← hroom] at hhere
          obtain ⟨rest, hbefore, hafter, -⟩ := d.unread_step (.arrive token m) id
          obtain ⟨hnone, hrest⟩ := List.append_eq_nil_iff.mp (hbefore.symm.trans silent)
          rw [hrest, hposted] at hafter
          have hentries : d.entries id (.arrive token m) = [] := by
            rw [entries, hnone, htold]
            rfl
          rw [hentries, blank]
          exact .live hhere (hafter.symm ▸ .start) .idle empty.symm
        | live here rounds stage order =>
          rw [hfresh] at here
          cases here
        | gone ended rounds => exact absurd hid ended.spent.name_ne
      · rw [if_neg hid] at hl
        exact absurd rfl hl

theorem Kept.come (h : d.Kept id es) (j : String) (f : Inbound) (m : Moment) :
    (d.step (.act j (.frame f) m)).Kept id (es ++ d.entries id (.act j (.frame f) m)) := by
  have hlinks (k : String) : (d.step (.act j (.frame f) m)).room.live.links.get? k =
      d.room.live.links.get? k := rfl
  have hentries : d.entries id (.act j (.frame f) m) =
      if j = id ∧ d.room.live.links.contains id then [.came f] else [] := List.append_nil _
  by_cases hj : j = id
  · subst hj
    cases hg : d.room.live.links.get? j with
    | none =>
      have hno : d.room.live.links.contains j = false := by rw [Table.contains, hg]; rfl
      refine h.aside (hlinks j) ?_ rfl ⟨?_, rfl⟩
      · simp [step, waiting, queue, hno]
      · simp [own, hno]
    | some link =>
      have hin : d.room.live.links.contains j = true := Table.contains_iff.mpr ⟨link, hg⟩
      obtain ⟨p, rounds, stage, order⟩ := h.of_live hg
      have hwaiting : (d.step (.act j (.frame f) m)).waiting j = d.waiting j ++ [f] := by
        simp [step, waiting, queue, hin]
      rw [hentries, if_pos ⟨rfl, hin⟩]
      refine .live ((hlinks j).trans hg) (rounds.came stage.lasts f) stage ?_
      rw [cameIn_append, reads_append, order, hwaiting, ← List.append_assoc]
      simp [cameIn, reads, Entry.came?, Entry.read?]
  · refine h.aside (hlinks id) ?_ rfl ⟨?_, rfl⟩
    · exact congrArg (Option.getD · []) (queue_other hj (.frame f) m)
    · exact if_neg fun hc => hj hc.1

theorem entries_turn (hd : d.room.Settled) {link : Link}
    (hg : d.room.live.links.get? id = some link) {a : Link.Act} {m : Moment} (ha : d.act? id = some a) :
    d.entries id (.act id .proceed m) =
      ((d.letters (.act id .proceed m)).filter (·.session = id)).map .heeded ++
        (reading link a m ++ effects (link.asks d.room.live.backend a m)
          (storing link a d.room.live.backend.store
            (d.step (.act id .proceed m)).room.live.backend.store)
          (d.room.live.part link a m).1.posts ++
        answering (d.room.live.part link a m).1.out) := by
  have hi : d.asked? (.act id .proceed m) = some (.act id a m) := by rw [asked?, ha, Option.map_some]
  have htold := told_act hd id hg a m (.act id .proceed m)
  rw [if_pos rfl] at htold
  rw [entries, sends_asked hi, htold, own, if_pos rfl, turn, hg, ha]
  rfl

theorem Kept.turned (hd : d.room.Settled) (h : d.Kept id es) {link : Link}
    (hg : d.room.live.links.get? id = some link) {a : Link.Act} (ha : d.act? id = some a)
    (ht : Turns link.flight a) (m : Moment)
    (hw : d.waiting id = (reads (reading link a m)).map (·.frame) ++
      (d.step (.act id .proceed m)).waiting id) :
    (d.step (.act id .proceed m)).Kept id (es ++ d.entries id (.act id .proceed m)) := by
  have hi : d.asked? (.act id .proceed m) = some (.act id a m) := by rw [asked?, ha, Option.map_some]
  have hasks := d.room.live.attended_asks link a m (link.asks d.room.live.backend a m)
  obtain ⟨p, rounds, stage, order⟩ := h.of_live hg
  obtain ⟨rest, hbefore, hafter, hrest⟩ := unread_own hd hg hi
  rw [hbefore] at rounds
  have hturned := (Rounds.heed _ rounds).turned stage ht
    (d.room.live.attended (link.asks d.room.live.backend a m)).backend m (hasks.symm ▸ hrest)
    d.room.live.backend.store (d.step (.act id .proceed m)).room.live.backend.store
  rw [hasks] at hturned
  obtain ⟨p', rounds', stage'⟩ := hturned
  rw [entries_turn hd hg ha, ← List.append_assoc]
  refine kept_went hd hg hi (hafter ▸ rounds') ?_
  intro s' hs
  refine ⟨stage' fun hnone => ?_, cameIn_turn order _ _ _ _ _ _ _ _ _ hw⟩
  cases hnone.symm.trans hs

theorem Kept.other (hd : d.room.Settled) (h : d.Kept id es) {j : String} (hj : j ≠ id)
    {a b : Link.Act} {m : Moment} (hi : d.asked? (.act j a m) = some (.act j b m))
    (hown : d.own id (.act j a m) = []) :
    (d.step (.act j a m)).Kept id (es ++ d.entries id (.act j a m)) := by
  refine h.aside ?_ (congrArg (Option.getD · []) (queue_other hj a m)) ?_ ⟨hown, ?_⟩
  · rw [step_asked hi]
    change (d.room.live.step (.act j b m)).1.links.get? id = _
    rw [Live.act_links, if_neg hj]
  · rw [posted_act hi, List.filter_eq_nil_iff]
    intro l hl
    cases hg : d.room.live.links.get? j with
    | none =>
      rw [Live.posts, hg] at hl
      cases hl
    | some link =>
      rw [Live.step_posts hg] at hl
      simpa [posted_session hd hg hl] using hj
  · rw [sends_asked hi]
    cases hg : d.room.live.links.get? j with
    | none =>
      rw [Admission.sends_absent hg]
      rfl
    | some link => rw [told_act hd id hg, if_neg hj]

theorem Kept.resting (h : d.Kept id es) {j : String} (hact : d.act? j = none) (m : Moment) :
    (d.step (.act j .proceed m)).Kept id (es ++ d.entries id (.act j .proceed m)) := by
  have hi : d.asked? (.act j .proceed m) = none := by rw [asked?, hact, Option.map_none]
  have hqueue : d.queue (.act j .proceed m) = d.inbox := by simp only [queue, hact]
  have hposted : d.posted (.act j .proceed m) = [] := by rw [posted, enters, hi]; rfl
  refine h.aside ?_ ?_ (by rw [hposted]; rfl) ⟨?_, by rw [sends_unasked hi]; rfl⟩
  · rw [step_unasked hi]
  · rw [waiting, step, hqueue]
    rfl
  · change (if j = id then d.turn id m _ else []) = []
    split
    · rename_i hj
      rw [turn, ← hj, hact]
      split
      · rename_i he
        cases he
      · rfl
    · rfl

theorem Kept.turn (hd : d.room.Settled) (h : d.Kept id es) (j : String) (m : Moment) :
    (d.step (.act j .proceed m)).Kept id (es ++ d.entries id (.act j .proceed m)) := by
  cases hact : d.act? j with
  | none => exact h.resting hact m
  | some a =>
    by_cases hj : j = id
    · subst hj
      cases hg : d.room.live.links.get? j with
      | none =>
        rw [act?_absent hg] at hact
        cases hact
      | some link =>
        obtain ⟨s, flight⟩ := link
        cases flight with
        | some flight =>
          rw [act?_busy hg, Option.some.injEq] at hact
          subst hact
          exact h.turned hd hg (act?_busy hg) (.goesOn flight) m (waiting_busy hg m).symm
        | none =>
          cases hf : d.waiting j with
          | nil =>
            rw [act?_idle hg, hf] at hact
            cases hact
          | cons f fs =>
            have hframe : d.act? j = some (.frame f) := by rw [act?_idle hg, hf]; rfl
            have hwaiting : d.waiting j =
                [f] ++ (d.step (.act j .proceed m)).waiting j := by rw [waiting_idle hg hf, hf]; rfl
            exact h.turned hd hg hframe (.reads f) m hwaiting
    · have hi : d.asked? (.act j .proceed m) = some (.act j a m) := by
        rw [asked?, hact, Option.map_some]
      exact h.other hd hj hi (if_neg hj)

theorem heartbeat_cases (b : Backend) (s : Session) (m : Moment) :
    (s.heartbeat b m).out.filterMap Outbound.reply? = [] ∧
      ((s.heartbeat b m).posts = [] ∨
        (s.heartbeat b m).session = none ∧ (s.heartbeat b m).posts = [.disconnect s.id]) := by
  unfold Session.heartbeat
  split
  · exact ⟨rfl, .inr ⟨rfl, rfl⟩⟩
  · split
    · exact ⟨rfl, .inr ⟨rfl, rfl⟩⟩
    · exact ⟨rfl, .inl rfl⟩

theorem Kept.beat (hd : d.room.Settled) (h : d.Kept id es) (j : String) (m : Moment) :
    (d.step (.act j .beat m)).Kept id (es ++ d.entries id (.act j .beat m)) := by
  have hi : d.asked? (.act j .beat m) = some (.act j .beat m) := rfl
  by_cases hj : j = id
  · subst hj
    cases hg : d.room.live.links.get? j with
    | none =>
      have hposted : d.posted (.act j .beat m) = [] := by rw [posted_act hi, Live.posts, hg]; rfl
      refine h.aside ?_ rfl (by rw [hposted]; rfl) ⟨?_, ?_⟩
      · rw [step_asked hi, Admission.step_absent hg]
      · simp [own, hposted]
      · rw [sends_asked hi, Admission.sends_absent hg]
        rfl
    | some link =>
      obtain ⟨p, rounds, stage, order⟩ := h.of_live hg
      obtain ⟨rest, hbefore, hafter, -⟩ := unread_own hd hg hi
      rw [hbefore] at rounds
      have hheed := Rounds.heed _ rounds
      have htold := told_act hd j hg .beat m (.act j .beat m)
      rw [if_pos rfl] at htold
      have hpart : (d.room.live.part link .beat m).2 = link.flight ∧
          (d.room.live.part link .beat m).1.out.filterMap Outbound.reply? = [] ∧
          ((d.room.live.part link .beat m).1.posts = [] ∨ link.flight = none ∧
            (d.room.live.part link .beat m).1.session = none ∧
            (d.room.live.part link .beat m).1.posts = [.disconnect link.session.id]) := by
        obtain ⟨s, flight⟩ := link
        cases flight with
        | none =>
          obtain ⟨hout, hend⟩ := heartbeat_cases (d.room.live.attended _).backend s m
          exact ⟨rfl, hout, hend.imp_right fun hend => ⟨rfl, hend⟩⟩
        | some flight => exact ⟨rfl, rfl, .inl rfl⟩
      obtain ⟨hflight, hout, hend⟩ := hpart
      have hentries : d.entries j (.act j .beat m) =
          ((d.letters (.act j .beat m)).filter (·.session = j)).map .heeded ++
            (d.room.live.part link .beat m).1.posts.map .posted := by
        rw [entries, sends_asked hi, htold, own, if_pos rfl, posted_act hi, Live.step_posts hg]
        simp only [pick, hout, List.map_nil, List.append_nil]
      rw [hentries, ← List.append_assoc]
      rcases hend with hstays | ⟨hidle, hgone, hposts⟩
      · rw [hstays] at hafter ⊢
        rw [List.append_nil] at hafter
        rw [List.map_nil, List.append_nil]
        refine kept_went hd hg hi (hafter ▸ hheed) fun s' hs => ⟨hflight ▸ stage, ?_⟩
        rw [cameIn_append, reads_append, (heeded_silent _).1, (heeded_silent _).2, List.append_nil,
          List.append_nil]
        exact order
      · rw [hposts] at hafter ⊢
        rw [hidle] at stage
        cases stage
        refine kept_went hd hg hi (hafter ▸ hheed.left link.session.id) fun s' hs => ?_
        cases hgone.symm.trans hs
  · exact h.other hd hj hi (if_neg hj)

theorem Kept.step (hd : d.room.Settled) (h : d.Kept id es) (i : Admission.Input) :
    (d.step i).Kept id (es ++ d.entries id i) := by
  cases i with
  | arrive token m => exact h.arrive hd token m
  | act j a m =>
    cases a with
    | frame f => exact h.come j f m
    | proceed => exact h.turn hd j m
    | beat => exact h.beat hd j m
  | push user e m =>
    exact h.aside rfl rfl rfl ⟨rfl, heard_told (hd.sends_push user e m) id (.push user e m)⟩
  | read =>
    have hsends : d.sends .read = [] := d.room.sends_read
    refine h.aside ?_ rfl rfl ⟨rfl, by rw [hsends]; rfl⟩
    rw [step_asked rfl, Admission.read_links]
  | sweep now => exact h.aside rfl rfl rfl ⟨rfl, rfl⟩
  | sources s => exact h.aside rfl rfl rfl ⟨rfl, rfl⟩
  | outage o => exact h.aside rfl rfl rfl ⟨rfl, rfl⟩

theorem Kept.run (hd : d.room.Settled) (h : d.Kept id es) (is : List Admission.Input) :
    (d.run is).Kept id (es ++ journal id d is) := by
  induction is generalizing d es with
  | nil => exact (List.append_nil es).symm ▸ h
  | cons i is ih =>
    rw [journal, ← List.append_assoc]
    exact ih (settled_step hd i) (h.step hd i)

end

/-! ### No frame waits for ever -/

def load (d : Desk) (id : String) : Nat :=
  match d.room.live.links.get? id with
  | none => 0
  | some link => 3 * (d.waiting id).length + Link.parts link.flight

theorem load_le (d : Desk) (id : String) : d.load id ≤ 3 * (d.waiting id).length + 2 := by
  unfold load
  split
  · omega
  · rename_i link hg
    have hparts := Link.parts_le link.flight
    omega

theorem load_resting (h : d.act? id = none) : d.load id = 0 := by
  unfold load
  unfold act? at h
  split at h
  · cases h
  · rename_i s hg
    have hnone : d.waiting id = [] := by simpa using h
    simp [hg, hnone, Link.parts]
  · rename_i hg
    rw [hg]

def Rests (d : Desk) (id : String) : Prop :=
  ∀ link, d.room.live.links.get? id = some link → link.flight = none ∧ d.waiting id = []

theorem rests_of_load (h : d.load id = 0) : d.Rests id := by
  intro link hg
  simp only [load, hg] at h
  have hparts : Link.parts link.flight = 0 := by omega
  have hlength : (d.waiting id).length = 0 := by omega
  exact ⟨Link.eq_none_of_parts hparts, List.eq_nil_of_length_eq_zero hlength⟩

theorem step_resting (h : d.act? id = none) (m : Moment) : d.step (.act id .proceed m) = d := by
  have hi : d.asked? (.act id .proceed m) = none := by rw [asked?, h, Option.map_none]
  simp only [step, queue, hi, h, Option.elim_none]

theorem load_acted {i : Admission.Input} {link : Link}
    (hg : d.room.live.links.get? id = some link) {a : Link.Act} {m : Moment}
    (hi : d.asked? i = some (.act id a m)) :
    (d.step i).load id ≤ 3 * ((d.step i).waiting id).length +
      Link.parts (d.room.live.part link a m).2 := by
  have hlinks := d.room.live.act_links id a m id
  rw [if_pos rfl, hg, Option.bind_some] at hlinks
  change (d.room.step (.act id a m)).live.links.get? id = _ at hlinks
  rw [← step_asked hi] at hlinks
  cases hs : (d.room.live.part link a m).1.session with
  | none =>
    rw [hs] at hlinks
    rw [load, hlinks]
    exact Nat.zero_le _
  | some s' =>
    rw [hs] at hlinks
    rw [load, hlinks]
    exact Nat.le_refl _

theorem load_turn {a : Link.Act} (hact : d.act? id = some a) (m : Moment) :
    (d.step (.act id .proceed m)).load id < d.load id := by
  have hi : d.asked? (.act id .proceed m) = some (.act id a m) := by
    rw [asked?, hact, Option.map_some]
  cases hg : d.room.live.links.get? id with
  | none =>
    rw [act?_absent hg] at hact
    cases hact
  | some link =>
    have hload := load_acted hg hi
    have hbefore : d.load id = 3 * (d.waiting id).length + Link.parts link.flight := by
      rw [load, hg]
    obtain ⟨s, flight⟩ := link
    cases flight with
    | some flight =>
      rw [act?_busy hg, Option.some.injEq] at hact
      subst hact
      rw [waiting_busy hg] at hload
      have hless := (Link.proceed_proceeded (d.room.live.attended
        (Link.asks d.room.live.backend ⟨s, some flight⟩ .proceed m)).backend s flight m).parts_lt
      have hpart : Link.parts (d.room.live.part ⟨s, some flight⟩ .proceed m).2 <
          Link.parts (some flight) := hless
      change _ = _ + Link.parts (some flight) at hbefore
      omega
    | none =>
      cases hf : d.waiting id with
      | nil =>
        rw [act?_idle hg, hf] at hact
        cases hact
      | cons f fs =>
        -- A frame counts for three turns: one to read it and two parts of the event it may begin.
        rw [waiting_idle hg hf] at hload
        have htwo := Link.parts_le (d.room.live.part ⟨s, none⟩ a m).2
        rw [hf, List.length_cons] at hbefore
        omega

theorem rests_of_turns {ms : List Moment} (h : d.load id ≤ ms.length) :
    (d.run (ms.map (.act id .proceed ·))).Rests id := by
  induction ms generalizing d with
  | nil => exact rests_of_load (Nat.le_zero.mp h)
  | cons m ms ih =>
    apply ih
    change (d.step (.act id .proceed m)).load id ≤ ms.length
    cases hact : d.act? id with
    | none =>
      rw [step_resting hact, load_resting hact]
      exact Nat.zero_le _
    | some a =>
      have hless := load_turn hact m
      rw [List.length_cons] at h
      omega

/-! ### After the end -/

theorem own_over (h : d.room.Over id) (i : Admission.Input) : d.own id i = [] := by
  have hno : d.room.live.links.contains id = false := by rw [Table.contains, h.absent]; rfl
  cases i with
  | act j a m =>
    cases a with
    | frame f => exact if_neg fun hc => Bool.false_ne_true (hno.symm.trans hc.2)
    | proceed =>
      rw [own, turn, h.absent]
      split <;> rfl
    | beat =>
      rw [own]
      split
      · rename_i hj
        subst hj
        rw [posted_act rfl, Live.posts, h.absent]
        rfl
      · rfl
  | _ => rfl

theorem entries_over (hd : d.room.Settled) (h : d.room.Over id) (i : Admission.Input) :
    d.entries id i = ((d.letters i).filter (·.session = id)).map .heeded := by
  have htold : told id (d.sends i) = [] := by
    cases hi : d.asked? i with
    | none => rw [sends_unasked hi]; rfl
    | some j =>
      rw [sends_asked hi, told, List.map_eq_nil_iff, List.filter_eq_nil_iff]
      intro y hy hid
      exact h.sends hd j y hy (of_decide_eq_true hid)
  rw [entries, own_over h, htold]
  exact List.append_nil _

theorem journal_over (hd : d.room.Settled) (h : d.room.Over id) (is : List Admission.Input) :
    ∃ ls : List Hub.Letter, journal id d is = ls.map .heeded := by
  induction is generalizing d with
  | nil => exact ⟨[], rfl⟩
  | cons i is ih =>
    obtain ⟨ls, hls⟩ := ih (settled_step hd i) (over_step h i)
    refine ⟨(d.letters i).filter (·.session = id) ++ ls, ?_⟩
    rw [journal, entries_over hd h, hls, List.map_append]

theorem settled_run (hd : d.room.Settled) (is : List Admission.Input) : (d.run is).room.Settled := by
  induction is generalizing d with
  | nil => exact hd
  | cons i is ih => exact ih (settled_step hd i)

theorem run_secret (d : Desk) (is : List Admission.Input) :
    (d.run is).room.live.secret = d.room.live.secret := by
  induction is generalizing d with
  | nil => rfl
  | cons i is ih => exact (ih (d.step i)).trans (step_secret d i)

/-! ### Nothing is done but what is recorded -/

theorem step_store (hd : d.room.Settled) (i : Admission.Input) :
    (d.step i).room.live.backend.store = d.room.live.backend.store ∨
      ∃ id m, i = .act id .proceed m ∧
        .stored d.room.live.backend.store (d.step i).room.live.backend.store ∈ d.entries id i := by
  rw [step_live]
  cases hk : d.enters i with
  | none => exact .inl rfl
  | some k =>
    rcases d.room.live.step_store k with hsame | ⟨id, s, flight, m, hkact, hg, hwaits⟩
    · exact .inl hsame
    · subst hkact
      have hact : d.act? id = some .proceed := act?_busy hg
      have hi : i = .act id .proceed m := by
        obtain ⟨j, hj, hjk⟩ := Option.bind_eq_some_iff.mp hk
        obtain rfl : j = .act id .proceed m := Admission.enters_of_act hjk
        cases i with
        | act j' a m' =>
          cases a with
          | frame f => cases hj
          | proceed =>
            obtain ⟨a, -, he⟩ := Option.map_eq_some_iff.mp hj
            cases he
            rfl
          | beat => cases hj
        | _ => cases hj
      subst hi
      right
      refine ⟨id, m, rfl, ?_⟩
      rw [entries_turn hd hg hact, step_live, hk]
      simp [effects, storing, hwaits]

theorem turn_marks (d : Desk) (id : String) (m : Moment) (after : CommentStore) :
    heeds (d.turn id m after) = [] ∧ asks (d.turn id m after) =
      (d.act? id).elim [] fun a => d.room.live.calls (.act id a m) := by
  have hcalls (a : Link.Act) : d.room.live.calls (.act id a m) =
      (d.room.live.links.get? id).elim [] (·.asks d.room.live.backend a m) := rfl
  simp only [hcalls]
  unfold turn
  cases d.room.live.links.get? id with
  | none => cases d.act? id <;> exact ⟨rfl, rfl⟩
  | some link =>
    cases d.act? id with
    | none => exact ⟨rfl, rfl⟩
    | some a =>
      simp only [asks_append, heeds_append, reading_marks, effects_marks, List.nil_append,
        Option.elim_some, and_self]

theorem own_marks (d : Desk) (id : String) (i : Admission.Input) :
    heeds (d.own id i) = [] ∧
      ∀ a m, i = .act id a m → asks (d.own id i) = (d.enters i).elim [] d.room.live.calls := by
  have hnone {j : String} {a : Link.Act} {m : Moment} (hj : j ≠ id) {P : Prop} (a' : Link.Act)
      (m' : Moment) (he : Admission.Input.act j a m = .act id a' m') : P := by
    cases he
    exact absurd rfl hj
  cases i with
  | act j a m =>
    by_cases hj : j = id
    · subst hj
      cases a with
      | frame f =>
        have hown : d.own j (.act j (.frame f) m) = [] ∨ d.own j (.act j (.frame f) m) = [.came f] := by
          rw [own]
          split
          · exact .inr rfl
          · exact .inl rfl
        rcases hown with h | h <;> rw [h] <;> exact ⟨rfl, fun _ _ _ => rfl⟩
      | proceed =>
        obtain ⟨hheeds, hasks⟩ := d.turn_marks j m (d.step (.act j .proceed m)).room.live.backend.store
        rw [own, if_pos rfl]
        refine ⟨hheeds, fun _ _ _ => hasks.trans ?_⟩
        rw [enters, asked?]
        cases d.act? j <;> rfl
      | beat =>
        have hasks : (d.enters (.act j .beat m)).elim [] d.room.live.calls = [] := by
          change (d.room.live.links.get? j).elim [] (·.asks d.room.live.backend .beat m) = []
          cases d.room.live.links.get? j with
          | none => rfl
          | some link =>
            obtain ⟨s, flight⟩ := link
            cases flight <;> rfl
        rw [own, if_pos rfl, hasks]
        simp [heeds, asks, Entry.heeded?, Entry.asked?]
    · refine ⟨?_, fun a' m' => hnone hj a' m'⟩
      cases a with
      | frame f => rw [own, if_neg fun hc => hj hc.1]; rfl
      | proceed => rw [own, if_neg hj]; rfl
      | beat => rw [own, if_neg hj]; rfl
  | _ => exact ⟨rfl, fun _ _ hi => by cases hi⟩

theorem step_hub (d : Desk) (i : Admission.Input) : ∃ calls,
    (d.step i).room.live.backend.hub =
      d.room.live.backend.hub.run ((d.letters i).map Hub.Letter.message ++ calls) ∧
    (∀ id, heeds (d.entries id i) = (d.letters i).filter (·.session = id)) ∧
    ∀ id a m, i = .act id a m → asks (d.entries id i) = calls := by
  have hanswered (ns : List Notice) :
      asks (ns.map .answered) = [] ∧ heeds (ns.map .answered) = [] := by
    simp [asks, heeds, Entry.asked?, Entry.heeded?]
  have hheeded (ls : List Hub.Letter) :
      asks (ls.map .heeded) = [] ∧ heeds (ls.map .heeded) = ls := by
    have hsome : ls.filterMap (Entry.heeded? ∘ Entry.heeded) = ls := List.filterMap_some
    refine ⟨by simp [asks, Entry.asked?], ?_⟩
    rw [heeds, List.filterMap_map, hsome]
  have hheeds (id : String) : heeds (d.entries id i) = (d.letters i).filter (·.session = id) := by
    rw [entries, heeds_append, heeds_append, (hheeded _).2, (d.own_marks id i).1, (hanswered _).2,
      List.append_nil, List.append_nil]
  have hasks {id : String} {a : Link.Act} {m : Moment} (hi : i = .act id a m) :
      asks (d.entries id i) = (d.enters i).elim [] d.room.live.calls := by
    rw [entries, asks_append, asks_append, (hheeded _).1, (d.own_marks id i).2 a m hi,
      (hanswered _).1, List.nil_append, List.append_nil]
  rw [step_live]
  cases hk : d.enters i with
  | none =>
    have hletters : d.letters i = [] := by rw [letters, hk]; rfl
    refine ⟨[], by rw [hletters]; rfl, hheeds, fun id a m hi => ?_⟩
    rw [hasks hi, hk]
    rfl
  | some k =>
    have hletters : d.letters i = d.room.live.letters k := by rw [letters, hk]; rfl
    refine ⟨_, by rw [hletters]; exact d.room.live.step_hub k, hheeds, fun id a m hi => ?_⟩
    rw [hasks hi, hk]
    cases k with
    | sweep now =>
      subst hi
      obtain ⟨a', ha'⟩ := d.enters_act hk
      cases ha'
    | _ => rfl

/-- Every command that is read is answered before the next frame is read, and under its own number,
and all that it does is done by then; only what it tells the hub by letter may be heeded later. The
frames that wait are read in the order in which they came. -/
theorem commands_answered_in_order (secret : String) (store : CommentStore) (sources : Sources)
    (bounds : HistoryBounds) (commentIds epochs sessionIds : Supply) (is : List Admission.Input)
    (id : String) :
    let start := Desk.mk (.start secret store sources bounds commentIds epochs sessionIds) {}
    let d := start.run is
    let es := journal id start is
    (∃ p, Rounds secret es p (d.unread id) ∧ Paired secret es p.pending ∧
      posts es = heeds es ++ d.unread id ∧
      ∀ link, d.room.live.links.get? id = some link →
        cameIn es = (reads es).map (·.frame) ++ d.waiting id ∧ p ≠ .ended ∧
          (link.flight = none → p = .idle)) ∧
    (∀ i, let b := d.room.live.backend
      let b' := (d.step i).room.live.backend
      (b'.store = b.store ∨
        ∃ j m, i = .act j .proceed m ∧ .stored b.store b'.store ∈ d.entries j i) ∧
      ∃ (letters : List Hub.Letter) (calls : List Hub.Message),
        b'.hub = b.hub.run (letters.map Hub.Letter.message ++ calls) ∧
        (∀ j, heeds (d.entries j i) = letters.filter (·.session = j)) ∧
        ∀ j a m, i = .act j a m → asks (d.entries j i) = calls) ∧
    (∀ ms : List Moment, 3 * (d.waiting id).length + 2 ≤ ms.length →
      (d.run (ms.map (.act id .proceed ·))).Rests id) ∧
    (es ≠ [] → d.room.live.links.get? id = none →
      ∀ js, ∃ ls : List Hub.Letter, journal id start (is ++ js) = es ++ ls.map .heeded) := by
  intro start d es
  have hstart : start.room.Settled := Admission.settled_start ..
  have hd : d.room.Settled := settled_run hstart is
  have hsecret : d.room.live.secret = secret := run_secret start is
  have hbefore : start.Kept id [] := .before rfl rfl rfl rfl
  have hkept : d.Kept id es := hbefore.run hstart is
  refine ⟨?_, ?_, ?_, ?_⟩
  · obtain ⟨p, hrounds, hlive⟩ := hkept.rounds
    rw [hsecret] at hrounds hlive
    refine ⟨p, hrounds, hrounds.paired, hrounds.mail, ?_⟩
    intro link hg
    obtain ⟨horder, hstage⟩ := hlive link hg
    refine ⟨horder, hstage.lasts, ?_⟩
    intro hidle
    rw [hidle] at hstage
    cases hstage
    rfl
  · intro i
    obtain ⟨calls, hhub, hheeds, hasks⟩ := d.step_hub i
    exact ⟨step_store hd i, d.letters i, calls, hhub, hheeds, hasks⟩
  · intro ms hms
    exact rests_of_turns ((d.load_le id).trans hms)
  · intro hes hgone js
    cases hkept with
    | before absent empty blank silent => exact absurd blank hes
    | live here rounds stage order =>
      rw [hgone] at here
      cases here
    | gone ended rounds =>
      obtain ⟨ls, hls⟩ := journal_over hd ended js
      exact ⟨ls, by rw [journal_append, hls]⟩

def visit : List Admission.Input :=
  let frame (text : String) : Admission.Input := .act "00000000" (.frame (.text text)) ⟨0, 0⟩
  let turn : Admission.Input := .act "00000000" .proceed ⟨0, 0⟩
  [frame "\x7b\"id\":5,\"method\":\"ping\",\"x\":1e999\x7d", turn,
    frame "\x7b\"id\":1,\"method\":\"subscribe\",\"channel\":\"P1\"\x7d", turn,
    frame "\x7b\"id\":2,\"method\":\"subscribe\",\"channel\":\"P2\"\x7d", turn,
    frame "\x7b\"id\":3,\"method\":\"unsubscribe\",\"channel\":\"P1\"\x7d", turn,
    frame ("\x7b\"id\":4,\"method\":\"publish\",\"channel\":\"P2\"," ++
      "\"data\":\x7b\"type\":\"create_comment\",\"payload\":\x7b\"body\":\"hi\"\x7d\x7d\x7d"),
    turn, turn]

theorem letter_heeded_after_the_next_command :
    let sources : Sources := { chain := [.ofUsers [⟨7, "Ada", "Lovelace", ""⟩]], patience := 0 }
    let token := Token.issued "test-secret" Token.plainHeader "\x7b\"user_id\":7,\"exp\":60\x7d"
    let start := Desk.mk (.start "test-secret" {} sources ⟨2, 60000⟩ ⟨24, 0⟩ ⟨8, 0⟩ ⟨8, 0⟩) {}
    let begun := start.step (.arrive token ⟨0, 0⟩)
    let d := begun.run visit
    (answers (journal "00000000" begun visit)).map (·.reply?) = [some (none, none),
        some (some .subscribe, some 1), some (some .subscribe, some 2),
        some (some .unsubscribe, some 3)] ∧
      d.room.live.backend.store.comments.entries.map (·.2.postId) = ["P2"] ∧
      d.room.live.backend.hub.membersOf "P1" = ["00000000"] ∧
      (d.step .read).room.live.backend.hub.membersOf "P1" = [] := by
  intro sources token start begun d
  have hgrants : Token.Grants "test-secret" token 7 60 :=
    Token.grants_issued _ Token.plainHeader_keyed (by decide +kernel)
  have hv : Token.verify start.room.live.secret token (⟨0, 0⟩ : Moment).stamp.seconds = .ok ⟨7, 60⟩ := by
    change Token.verify "test-secret" token _ = _
    rw [Token.verify_of_grants hgrants]
    rfl
  have hbegun : begun = ⟨{
      live := (start.room.live.step (.start start.room.sessionIds.name ⟨7, 60⟩ ⟨0, 0⟩)).1
      sessionIds := { start.room.sessionIds with next := start.room.sessionIds.next + 1 }
      tokens := start.room.tokens.insert start.room.sessionIds.name token }, {}⟩ :=
    congrArg (Desk.mk · {}) (Admission.step_arrive hv)
  simp only [d]
  rw [hbegun]
  decide +kernel

end Desk

end LiveComments
