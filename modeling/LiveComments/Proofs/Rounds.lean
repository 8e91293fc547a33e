import LiveComments.Proofs.Answer
import Mathlib.Data.List.Forall2

/-!
The journal of a session: the frames that come in and are read, what the hub and the store do for
them, and what is answered. It goes in rounds when a command is answered before the next frame is
read.
-/

namespace LiveComments

namespace Outbound

def reply? : Outbound → Option Notice
  | .notice n => if n.reply?.isSome then some n else none
  | _ => none

def answer? : Outbound → Option Notice
  | .notice (.disconnect reason) => some (.disconnect reason)
  | o => o.reply?

theorem answer?_of_reply {n : Notice} {x : Option Command.Method × Option Nat}
    (h : n.reply? = some x) : answer? (.notice n) = some n := by
  cases n with
  | connected => cases h
  | publication => cases h
  | disconnect => cases h
  | _ => rfl

theorem answer?_of_silent {out : List Outbound} (h : ∀ n, .notice n ∉ out) :
    out.filterMap answer? = [] := by
  rw [List.filterMap_eq_nil_iff]
  intro o ho
  cases o with
  | notice n => exact absurd ho (h n)
  | _ => rfl

end Outbound

namespace Journal

structure Read where
  frame : Inbound
  session : Session
  moment : Moment

inductive Entry where
  | came (f : Inbound)
  | read (r : Read)
  | asked (m : Hub.Message)
  | stored (before after : CommentStore)
  | posted (l : Hub.Letter)
  | heeded (l : Hub.Letter)
  | answered (n : Notice)

namespace Entry

def came? : Entry → Option Inbound
  | came f => some f
  | _ => none

def read? : Entry → Option Read
  | read r => some r
  | _ => none

def asked? : Entry → Option Hub.Message
  | asked m => some m
  | _ => none

def posted? : Entry → Option Hub.Letter
  | posted l => some l
  | _ => none

def heeded? : Entry → Option Hub.Letter
  | heeded l => some l
  | _ => none

def answered? : Entry → Option Notice
  | answered n => some n
  | _ => none

end Entry

def cameIn (es : List Entry) : List Inbound := es.filterMap Entry.came?

def reads (es : List Entry) : List Read := es.filterMap Entry.read?

def commands (es : List Entry) : List Read := (reads es).filter (·.frame.kind = .command)

def asks (es : List Entry) : List Hub.Message := es.filterMap Entry.asked?

def posts (es : List Entry) : List Hub.Letter := es.filterMap Entry.posted?

def heeds (es : List Entry) : List Hub.Letter := es.filterMap Entry.heeded?

def answers (es : List Entry) : List Notice := es.filterMap Entry.answered?

theorem cameIn_append (es es' : List Entry) : cameIn (es ++ es') = cameIn es ++ cameIn es' :=
  List.filterMap_append

theorem reads_append (es es' : List Entry) : reads (es ++ es') = reads es ++ reads es' :=
  List.filterMap_append

theorem asks_append (es es' : List Entry) : asks (es ++ es') = asks es ++ asks es' :=
  List.filterMap_append

theorem heeds_append (es es' : List Entry) : heeds (es ++ es') = heeds es ++ heeds es' :=
  List.filterMap_append

theorem commands_append (es es' : List Entry) :
    commands (es ++ es') = commands es ++ commands es' := by
  rw [commands, reads_append, List.filter_append]
  rfl

theorem answers_append (es es' : List Entry) : answers (es ++ es') = answers es ++ answers es' :=
  List.filterMap_append

theorem commands_read (r : Read) :
    commands [.read r] = if r.frame.kind = .command then [r] else [] := by
  by_cases h : r.frame.kind = .command <;> simp [commands, reads, Entry.read?, h]

def Read.Answered (secret : String) (r : Read) (n : Notice) : Prop :=
  (¬r.session.Unrenewed secret r.moment r.frame ∧ n.Answers r.frame) ∨
    (r.session.Unrenewed secret r.moment r.frame ∧ ∃ reason, n = .disconnect reason)

inductive Phase where
  | idle
  | busy (r : Read)
  | ended

def Phase.pending : Phase → List Read
  | busy r => [r]
  | idle | ended => []

/-- Rounds: all that is done for a command is done between its reading and its answer, and nothing
else is read before. Only letters are heeded later, in the order in which they were posted, and
before the hub is asked for anything again. -/
inductive Rounds (secret : String) : List Entry → Phase → List Hub.Letter → Prop
  | start : Rounds secret [] .idle []
  | came {es : List Entry} {p : Phase} {unread : List Hub.Letter} (h : Rounds secret es p unread)
      (lasts : p ≠ .ended) (f : Inbound) : Rounds secret (es ++ [.came f]) p unread
  | passed {es : List Entry} {unread : List Hub.Letter} {r : Read}
      (h : Rounds secret es .idle unread) (kind : r.frame.kind ≠ .command) :
      Rounds secret (es ++ [.read r]) .idle unread
  | read {es : List Entry} {unread : List Hub.Letter} {r : Read}
      (h : Rounds secret es .idle unread) (kind : r.frame.kind = .command) :
      Rounds secret (es ++ [.read r]) (.busy r) unread
  | asked {es : List Entry} {r : Read} (h : Rounds secret es (.busy r) []) (m : Hub.Message) :
      Rounds secret (es ++ [.asked m]) (.busy r) []
  | stored {es : List Entry} {unread : List Hub.Letter} {r : Read}
      (h : Rounds secret es (.busy r) unread) (before after : CommentStore) :
      Rounds secret (es ++ [.stored before after]) (.busy r) unread
  | posted {es : List Entry} {unread : List Hub.Letter} {r : Read}
      (h : Rounds secret es (.busy r) unread) (l : Hub.Letter) :
      Rounds secret (es ++ [.posted l]) (.busy r) (unread ++ [l])
  | heeded {es : List Entry} {p : Phase} {l : Hub.Letter} {unread : List Hub.Letter}
      (h : Rounds secret es p (l :: unread)) : Rounds secret (es ++ [.heeded l]) p unread
  | answered {es : List Entry} {unread : List Hub.Letter} {r : Read} {n : Notice}
      (h : Rounds secret es (.busy r) unread)
      (renewed : ¬r.session.Unrenewed secret r.moment r.frame) (answer : n.Answers r.frame) :
      Rounds secret (es ++ [.answered n]) .idle unread
  | dismissed {es : List Entry} {unread : List Hub.Letter} {r : Read}
      (h : Rounds secret es (.busy r) unread)
      (fails : r.session.Unrenewed secret r.moment r.frame) (reason : String) :
      Rounds secret (es ++ [.answered (.disconnect reason)]) .ended unread
  | left {es : List Entry} {unread : List Hub.Letter} (h : Rounds secret es .idle unread)
      (session : String) :
      Rounds secret (es ++ [.posted (.disconnect session)]) .ended (unread ++ [.disconnect session])

/-- The commands that were read have their answers in order, but for one that may be pending. -/
def Paired (secret : String) (es : List Entry) (pending : List Read) : Prop :=
  ∃ done, commands es = done ++ pending ∧ List.Forall₂ (Read.Answered secret) done (answers es)

variable {secret : String} {es : List Entry}

theorem Paired.aside {pending : List Read} (h : Paired secret es pending) {e : Entry}
    (hc : commands [e] = []) (ha : answers [e] = []) : Paired secret (es ++ [e]) pending := by
  obtain ⟨done, hdone, hpairs⟩ := h
  refine ⟨done, ?_, ?_⟩
  · rw [commands_append, hc, List.append_nil, hdone]
  · rw [answers_append, ha, List.append_nil]
    exact hpairs

theorem Paired.read (h : Paired secret es []) {r : Read} (hk : r.frame.kind = .command) :
    Paired secret (es ++ [.read r]) [r] := by
  obtain ⟨done, hdone, hpairs⟩ := h
  refine ⟨done, ?_, ?_⟩
  · rw [commands_append, commands_read, if_pos hk, hdone, List.append_nil]
  · rw [answers_append]
    exact (List.append_nil _).symm ▸ hpairs

theorem Paired.answered {r : Read} (h : Paired secret es [r]) {n : Notice}
    (hn : r.Answered secret n) : Paired secret (es ++ [.answered n]) [] := by
  obtain ⟨done, hdone, hpairs⟩ := h
  refine ⟨done ++ [r], ?_, ?_⟩
  · rw [commands_append, hdone, List.append_nil]
    exact List.append_nil _
  · rw [answers_append]
    exact List.rel_append hpairs (.cons hn .nil)

variable {p : Phase} {unread : List Hub.Letter}

theorem Rounds.paired (h : Rounds secret es p unread) : Paired secret es p.pending := by
  induction h with
  | start => exact ⟨[], rfl, .nil⟩
  | came h lasts f ih => exact ih.aside rfl rfl
  | passed h kind ih => exact ih.aside ((commands_read _).trans (if_neg kind)) rfl
  | read h kind ih => exact ih.read kind
  | asked h m ih => exact ih.aside rfl rfl
  | stored h before after ih => exact ih.aside rfl rfl
  | posted h l ih => exact ih.aside rfl rfl
  | heeded h ih => exact ih.aside rfl rfl
  | answered h renewed answer ih => exact ih.answered (.inl ⟨renewed, answer⟩)
  | dismissed h fails reason ih => exact ih.answered (.inr ⟨fails, reason, rfl⟩)
  | left h session ih => exact ih.aside rfl rfl

theorem Rounds.mail (h : Rounds secret es p unread) : posts es = heeds es ++ unread := by
  have hother {es : List Entry} {unread : List Hub.Letter} (ih : posts es = heeds es ++ unread)
      {e : Entry} (hp : e.posted? = none) (hh : e.heeded? = none) :
      posts (es ++ [e]) = heeds (es ++ [e]) ++ unread := by
    simp only [posts, heeds, List.filterMap_append, List.filterMap_cons, hp, hh, List.filterMap_nil,
      List.append_nil]
    exact ih
  have hposted {es : List Entry} {unread : List Hub.Letter} (ih : posts es = heeds es ++ unread)
      (l : Hub.Letter) : posts (es ++ [.posted l]) = heeds (es ++ [.posted l]) ++ (unread ++ [l]) := by
    rw [posts, List.filterMap_append, heeds, List.filterMap_append, ← List.append_assoc]
    exact congrArg (· ++ [l]) (ih.trans (by simp [heeds, Entry.heeded?]))
  induction h with
  | start => rfl
  | posted h l ih => exact hposted ih l
  | left h session ih => exact hposted ih (.disconnect session)
  | @heeded es p l unread h ih =>
    simp only [posts, heeds, List.filterMap_append, List.filterMap_cons, Entry.posted?, Entry.heeded?,
      List.filterMap_nil, List.append_nil, List.append_assoc, List.singleton_append]
    exact ih
  | came h lasts f ih => exact hother ih rfl rfl
  | passed h kind ih => exact hother ih rfl rfl
  | read h kind ih => exact hother ih rfl rfl
  | asked h m ih => exact hother ih rfl rfl
  | stored h before after ih => exact hother ih rfl rfl
  | answered h renewed answer ih => exact hother ih rfl rfl
  | dismissed h fails reason ih => exact hother ih rfl rfl

theorem Rounds.heed (ls : List Hub.Letter) (h : Rounds secret es p (ls ++ unread)) :
    Rounds secret (es ++ ls.map .heeded) p unread := by
  induction ls generalizing es with
  | nil => exact (List.append_nil es).symm ▸ h
  | cons l ls ih =>
    rw [List.map_cons, List.append_cons]
    exact ih h.heeded

/-! ### What a session does and its journal -/

inductive Matches (secret : String) : Option Flight → Phase → Prop
  | idle : Matches secret none .idle
  | busy {flight : Flight} {r : Read} (renewed : ¬r.session.Unrenewed secret r.moment r.frame)
      (number : r.frame.number? = flight.id)
      (method : r.frame.methodName? = some Command.Method.publish.name) :
      Matches secret (some flight) (.busy r)

theorem Matches.lasts {flight : Option Flight} (h : Matches secret flight p) : p ≠ .ended := by
  rintro rfl
  cases h

def reading (link : Link) (a : Link.Act) (m : Moment) : List Entry :=
  match link.flight, a with
  | none, .frame f => [.read ⟨f, link.session, m⟩]
  | _, _ => []

def storing (link : Link) (a : Link.Act) (before after : CommentStore) : List Entry :=
  match link.flight, a with
  | some flight, .proceed => if flight.stored then [] else [.stored before after]
  | _, _ => []

def effects (ms : List Hub.Message) (writes : List Entry) (ls : List Hub.Letter) : List Entry :=
  ms.map .asked ++ (writes ++ ls.map .posted)

def answering (out : List Outbound) : List Entry := (out.filterMap Outbound.answer?).map .answered

section

variable {r : Read}

theorem Rounds.askedAll (ms : List Hub.Message) (h : Rounds secret es (.busy r) []) :
    Rounds secret (es ++ ms.map .asked) (.busy r) [] := by
  induction ms generalizing es with
  | nil => exact (List.append_nil es).symm ▸ h
  | cons m ms ih =>
    rw [List.map_cons, List.append_cons]
    exact ih (h.asked m)

theorem Rounds.postedAll (ls : List Hub.Letter) (h : Rounds secret es (.busy r) unread) :
    Rounds secret (es ++ ls.map .posted) (.busy r) (unread ++ ls) := by
  induction ls generalizing es unread with
  | nil =>
    rw [List.map_nil, List.append_nil, List.append_nil]
    exact h
  | cons l ls ih =>
    rw [List.map_cons, List.append_cons, List.append_cons unread]
    exact ih (h.posted l)

theorem storing_cases (link : Link) (a : Link.Act) (before after : CommentStore) :
    storing link a before after = [] ∨ storing link a before after = [.stored before after] := by
  unfold storing
  split
  · split
    · exact .inl rfl
    · exact .inr rfl
  · exact .inl rfl

theorem Rounds.effects (h : Rounds secret es (.busy r) unread) {ms : List Hub.Message}
    (hms : ms = [] ∨ unread = []) (link : Link) (a : Link.Act) (before after : CommentStore)
    (ls : List Hub.Letter) :
    Rounds secret (es ++ Journal.effects ms (storing link a before after) ls) (.busy r)
      (unread ++ ls) := by
  have hasked : Rounds secret (es ++ ms.map .asked) (.busy r) unread := by
    rcases hms with rfl | rfl
    · exact (List.append_nil es).symm ▸ h
    · exact h.askedAll ms
  rw [Journal.effects, ← List.append_assoc, ← List.append_assoc]
  apply Rounds.postedAll
  rcases storing_cases link a before after with hw | hw
  · rw [hw, List.append_nil]
    exact hasked
  · rw [hw]
    exact hasked.stored before after

end

theorem Rounds.proceeded (h : Rounds secret es p unread) {s : Session} {flight : Flight}
    (hm : Matches secret (some flight) p) (b : Backend) (m : Moment)
    (hms : Link.asks b ⟨s, some flight⟩ .proceed m = [] ∨ unread = []) (before after : CommentStore) :
    let part := Link.proceed b s flight m
    ∃ p', Rounds secret (es ++ (Journal.effects (Link.asks b ⟨s, some flight⟩ .proceed m)
        (storing ⟨s, some flight⟩ .proceed before after) part.1.posts ++ answering part.1.out)) p'
        (unread ++ part.1.posts) ∧ Matches secret part.2 p' := by
  intro part
  have hp : Link.Proceeded s flight part := Link.proceed_proceeded b s flight m
  cases hm with
  | @busy _ r renewed number method =>
    have hworked := h.effects hms ⟨s, some flight⟩ .proceed before after part.1.posts
    rw [← List.append_assoc]
    generalize hpart : part = part' at hp hworked
    cases hp with
    | @answered b n answer =>
      have hn : answering (Session.tell b s n).out = [.answered n] := by
        rcases answer with ha | ha <;> simp [answering, Session.tell, Outbound.answer?_of_reply ha]
      rw [← number] at answer
      refine ⟨.idle, ?_, .idle⟩
      rw [hn]
      apply hworked.answered renewed
      rcases answer with ha | ha
      · refine ⟨some .publish, ha, ?_⟩
        rintro x ⟨⟩
        exact method
      · exact Notice.answers_refused ha
    | stored waiting number' stored =>
      refine ⟨.busy r, ?_, .busy renewed (number.trans number'.symm) method⟩
      exact (List.append_nil _).symm ▸ hworked

theorem asks_of_kind {f : Inbound} (hk : f.kind ≠ .command) (b : Backend) (s : Session) (m : Moment) :
    Link.asks b ⟨s, none⟩ (.frame f) m = [] := by
  unfold Inbound.kind at hk
  simp only [Link.asks, Session.asksFor?, Session.asks]
  cases hl : f.limited with
  | text text => simp [hl] at hk
  | _ => rfl

theorem Rounds.taken (h : Rounds secret es p unread) (hm : Matches secret none p) (b : Backend)
    (r : Read) (hms : Link.asks b ⟨r.session, none⟩ (.frame r.frame) r.moment = [] ∨ unread = [])
    (before after : CommentStore) :
    let part := Link.receive secret b r.session r.frame r.moment
    ∃ p', Rounds secret (es ++ ([.read r] ++ Journal.effects
        (Link.asks b ⟨r.session, none⟩ (.frame r.frame) r.moment)
        (storing ⟨r.session, none⟩ (.frame r.frame) before after) part.1.posts ++
          answering part.1.out)) p' (unread ++ part.1.posts) ∧
      (part.1.session ≠ none → Matches secret part.2 p') := by
  intro part
  have ht : Link.Taken secret r.session r.moment r.frame part :=
    Link.receive_taken secret b r.session r.frame r.moment
  cases hm
  have hcommand (hk : r.frame.kind = .command) := (h.read hk).effects hms ⟨r.session, none⟩
    (.frame r.frame) before after part.1.posts
  have hsilent (hk : r.frame.kind ≠ .command) :
      Link.asks b ⟨r.session, none⟩ (.frame r.frame) r.moment = [] := asks_of_kind hk b r.session r.moment
  have hnot {k : Inbound.Kind} (kind : r.frame.kind = k) (hk : k ≠ .command) :
      r.frame.kind ≠ .command := fun he => hk (kind.symm.trans he)
  rw [← List.append_assoc, ← List.append_assoc]
  generalize hpart : part = part' at ht hcommand
  cases ht with
  | @answered b s' n posts kind goes renewed answer =>
    have ⟨success, hreply, _⟩ := answer
    have hn : answering [.notice n] = [.answered n] := by
      simp [answering, Outbound.answer?_of_reply hreply]
    refine ⟨.idle, ?_, fun _ => .idle⟩
    rw [hn]
    exact (hcommand kind).answered renewed answer
  | begun kind goes renewed number method =>
    refine ⟨.busy r, ?_, fun _ => .busy renewed number method⟩
    exact (List.append_nil _).symm ▸ hcommand kind
  | @dismissed b reason fails =>
    have hkind : r.frame.kind = .command := by
      obtain ⟨text, id, token, hl, -⟩ := fails
      exact Link.kind_of_text hl
    refine ⟨.ended, ?_, fun hs => absurd rfl hs⟩
    exact (hcommand hkind).dismissed fails reason
  | @control b s' out kind goes silent =>
    have hk := hnot kind (by decide)
    refine ⟨.idle, ?_, fun _ => .idle⟩
    rw [hsilent hk, answering, Outbound.answer?_of_silent silent]
    change Rounds secret (es ++ [.read r] ++ [] ++ []) .idle (unread ++ [])
    rw [List.append_nil, List.append_nil, List.append_nil]
    exact h.passed hk
  | @closed b out kind silent =>
    have hk := hnot kind (by decide)
    refine ⟨.ended, ?_, fun hs => absurd rfl hs⟩
    rw [hsilent hk, answering, Session.finish, Outbound.answer?_of_silent silent]
    rw [List.map_nil, List.append_nil]
    exact (h.passed hk).left r.session.id

inductive Turns : Option Flight → Link.Act → Prop
  | reads (f : Inbound) : Turns none (.frame f)
  | goesOn (flight : Flight) : Turns (some flight) .proceed

theorem Rounds.turned (h : Rounds secret es p unread) {link : Link}
    (hm : Matches secret link.flight p) {a : Link.Act} (ht : Turns link.flight a) (b : Backend)
    (m : Moment) (hms : link.asks b a m = [] ∨ unread = []) (before after : CommentStore) :
    let part := link.act secret b a m
    ∃ p', Rounds secret (es ++ (reading link a m ++ Journal.effects (link.asks b a m)
        (storing link a before after) part.1.posts ++ answering part.1.out)) p'
        (unread ++ part.1.posts) ∧ (part.1.session ≠ none → Matches secret part.2 p') := by
  obtain ⟨s, flight⟩ := link
  cases ht with
  | reads f => exact h.taken hm b ⟨f, s, m⟩ hms before after
  | goesOn flight =>
    obtain ⟨p', hrounds, hstage⟩ := h.proceeded hm b m hms before after
    exact ⟨p', hrounds, fun _ => hstage⟩

/-! ### Frames in the journal -/

theorem heeded_silent (ls : List Hub.Letter) :
    cameIn (ls.map .heeded) = [] ∧ reads (ls.map .heeded) = [] := by
  simp [cameIn, reads, Entry.came?, Entry.read?]

theorem effects_silent (ms : List Hub.Message) (link : Link) (a : Link.Act)
    (before after : CommentStore) (ls : List Hub.Letter) :
    cameIn (effects ms (storing link a before after) ls) = [] ∧
      reads (effects ms (storing link a before after) ls) = [] := by
  rcases storing_cases link a before after with hw | hw <;>
    simp [cameIn, reads, effects, hw, Entry.came?, Entry.read?]

theorem effects_marks (ms : List Hub.Message) (link : Link) (a : Link.Act)
    (before after : CommentStore) (ls : List Hub.Letter) :
    asks (effects ms (storing link a before after) ls) = ms ∧
      heeds (effects ms (storing link a before after) ls) = [] := by
  have hasked : ms.filterMap (Entry.asked? ∘ Entry.asked) = ms := List.filterMap_some
  rcases storing_cases link a before after with hw | hw <;>
    simp [asks, heeds, effects, hw, hasked, Entry.asked?, Entry.heeded?]

theorem answering_silent (out : List Outbound) :
    cameIn (answering out) = [] ∧ reads (answering out) = [] := by
  simp [cameIn, reads, answering, Entry.came?, Entry.read?]

theorem reading_marks (link : Link) (a : Link.Act) (m : Moment) :
    asks (reading link a m) = [] ∧ heeds (reading link a m) = [] := by
  unfold reading
  split <;> exact ⟨rfl, rfl⟩

theorem cameIn_reading (link : Link) (a : Link.Act) (m : Moment) : cameIn (reading link a m) = [] := by
  unfold reading
  split <;> rfl

theorem cameIn_turn {fs fs' : List Inbound} (h : cameIn es = (reads es).map (·.frame) ++ fs)
    (ls ls' : List Hub.Letter) (link : Link) (a : Link.Act) (m : Moment) (ms : List Hub.Message)
    (before after : CommentStore) (out : List Outbound)
    (hr : fs = (reads (reading link a m)).map (·.frame) ++ fs') :
    let es' := es ++ ls.map .heeded ++ (reading link a m ++
      effects ms (storing link a before after) ls' ++ answering out)
    cameIn es' = (reads es').map (·.frame) ++ fs' := by
  intro es'
  obtain ⟨hc, hs⟩ := effects_silent ms link a before after ls'
  simp only [es', cameIn_append, reads_append, h, hr, heeded_silent, hc, hs, answering_silent,
    cameIn_reading, List.append_nil, List.nil_append, List.map_append, List.append_assoc]

end Journal

end LiveComments
