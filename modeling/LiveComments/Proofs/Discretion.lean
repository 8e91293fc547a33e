import LiveComments.Proofs.Mask

/-!
Everything that clients see of the service, over runs of sessions and requests in any order: two runs
that differ in nothing but the details of internal failures, and in failures of sources that the
search does not tell on, are the same for all of them.
-/

namespace LiveComments

namespace Live

def masked (l : Live) : Live := { l with backend := l.backend.masked }

def Input.masked : Input → Input
  | .sources s => .sources s.masked
  | .outage o => .outage (o.map maskedOutage)
  | i => i

theorem follow_masked (l : Live) (id : String) (p : Link.Part) :
    l.masked.follow id p.masked = ((l.follow id p).1.masked, (l.follow id p).2) := rfl

theorem attended_masked (l : Live) (ms : List Hub.Message) :
    l.masked.attended ms = (l.attended ms).masked := by
  unfold attended
  split <;> rfl

theorem step_act_masked (l : Live) (id : String) (a : Link.Act) (m : Moment) :
    l.masked.step (.act id a m) = ((l.step (.act id a m)).1.masked, (l.step (.act id a m)).2) := by
  cases hg : l.links.get? id with
  | none =>
    have hmasked : l.masked.links.get? id = none := hg
    rw [step_act_absent hmasked, step_act_absent hg]
  | some link =>
    have hmasked : l.masked.links.get? id = some link := hg
    have hasks : link.asks l.masked.backend a m = link.asks l.backend a m :=
      link.asks_masked l.backend a m
    have hact := link.act_masked l.secret (l.attended (link.asks l.backend a m)).backend a m
    rw [step_act hmasked, step_act hg, part, hasks, attended_masked]
    exact (congrArg _ hact).trans (follow_masked _ id _)

theorem step_masked (l : Live) (i : Input) :
    l.masked.step i.masked = ((l.step i).1.masked, (l.step i).2) := by
  cases i with
  | start id identity m =>
    let read := l.attended [.connect id identity.user]
    exact read.follow_masked id (Session.start read.backend id identity m, none)
  | act id a m => exact l.step_act_masked id a m
  | push user e m => rfl
  | read =>
    obtain ⟨backend, secret, links, mail⟩ := l
    cases mail <;> rfl
  | sweep now => rfl
  | sources s => rfl
  | outage o => rfl

end Live

structure Site where
  live : Live
  sessionIds : Supply

namespace Site

inductive Input where
  | request (r : Http.Request) (m : Moment)
  | act (id : String) (a : Link.Act) (m : Moment)
  | push (user : Int) (e : Event) (m : Moment)
  | read
  | sweep (now : Int)
  | message (text : String)
  | settle (now : Int)
  | sources (s : Sources)
  | storeOutage (o : Option (StoreCall × Fault))
  | publishOutage (f : Option Fault)

structure Seen where
  frames : List (String × Outbound)
  answer : Option Http.Answer

def ofLive (w : Site) (i : Live.Input) : Site × Seen :=
  ({ w with live := (w.live.step i).1 }, ⟨(w.live.step i).2, none⟩)

def answered (w : Site) (m : Moment) (answer : Http.Answer) : Site × Seen :=
  match answer with
  | .upgraded identity =>
    let next := w.live.step (.start w.sessionIds.name identity m)
    (⟨next.1, { w.sessionIds with next := w.sessionIds.next + 1 }⟩, ⟨next.2, some answer⟩)
  | .json .. => (w, ⟨[], some answer⟩)

def step (w : Site) : Input → Site × Seen
  | .request r m =>
    let (backend, answer) := Http.answer w.live.backend r (some w.live.secret) m
    answered { w with live := { w.live with backend } } m answer
  | .act id a m => w.ofLive (.act id a m)
  | .push user e m => w.ofLive (.push user e m)
  | .read => w.ofLive .read
  | .sweep now => w.ofLive (.sweep now)
  | .message text => w.ofLive (.sources (Feed.handle w.live.backend.sources text).1)
  | .settle now => w.ofLive (.sources (w.live.backend.sources.settle now))
  | .sources s => w.ofLive (.sources s)
  | .storeOutage o => w.ofLive (.outage o)
  | .publishOutage f =>
    ({ w with live := { w.live with backend := { w.live.backend with publishOutage := f } } }, ⟨[], none⟩)

def seen : Site → List Input → List Seen
  | _, [] => []
  | w, i :: is => (w.step i).2 :: seen (w.step i).1 is

def start (secret : String) (store : CommentStore) (sources : Sources) (bounds : HistoryBounds)
    (commentIds epochs sessionIds : Supply) : Site :=
  ⟨⟨{ Backend.start sources bounds commentIds epochs with store }, secret, {}, []⟩, sessionIds⟩

def masked (w : Site) : Site := { w with live := w.live.masked }

def Input.masked : Input → Input
  | .sources s => .sources s.masked
  | .storeOutage o => .storeOutage (o.map maskedOutage)
  | .publishOutage f => .publishOutage (f.map Fault.sanitized)
  | i => i

theorem ofLive_masked (w : Site) (i : Live.Input) :
    w.masked.ofLive i.masked = ((w.ofLive i).1.masked, (w.ofLive i).2) := by
  have hstep := w.live.step_masked i
  change (Site.mk (w.live.masked.step i.masked).1 w.sessionIds,
    Seen.mk (w.live.masked.step i.masked).2 none) = _
  rw [hstep]
  rfl

theorem answered_masked (w : Site) (m : Moment) (answer : Http.Answer) :
    w.masked.answered m answer = ((w.answered m answer).1.masked, (w.answered m answer).2) := by
  cases answer with
  | json status body => rfl
  | upgraded identity => rfl

theorem step_masked (w : Site) (i : Input) :
    w.masked.step i.masked = ((w.step i).1.masked, (w.step i).2) := by
  cases i with
  | request r m =>
    have hanswer := Http.answer_masked w.live.backend r (some w.live.secret) m
    change (match Http.answer w.live.backend.masked r (some w.live.secret) m with
      | (backend, answer) => answered ⟨{ w.live with backend }, w.sessionIds⟩ m answer) = _
    rw [hanswer]
    exact answered_masked ⟨{ w.live with backend := _ }, w.sessionIds⟩ m _
  | act id a m => exact w.ofLive_masked (.act id a m)
  | push user e m => exact w.ofLive_masked (.push user e m)
  | read => exact w.ofLive_masked .read
  | sweep now => exact w.ofLive_masked (.sweep now)
  | message text =>
    have hhandle := w.live.backend.sources.handle_masked text
    have hlive := w.ofLive_masked (.sources (Feed.handle w.live.backend.sources text).1)
    rw [Live.Input.masked, ← hhandle] at hlive
    exact hlive
  | settle now => exact w.ofLive_masked (.sources (w.live.backend.sources.settle now))
  | sources s => exact w.ofLive_masked (.sources s)
  | storeOutage o => exact w.ofLive_masked (.outage o)
  | publishOutage f => rfl

theorem seen_masked (w : Site) (is : List Input) : w.masked.seen (is.map Input.masked) = w.seen is := by
  induction is generalizing w with
  | nil => rfl
  | cons i is ih => rw [List.map_cons, seen, seen, step_masked, ih]

/-- The same input, up to the details of internal failures and to failures of sources that the search
does not tell on. -/
inductive Input.Like : Input → Input → Prop
  | same (i : Input) : Like i i
  | sources {s t : Sources} (h : s.Like t) : Like (.sources s) (.sources t)
  | storeOutage (call : StoreCall) {f g : Fault} (h : f.Like g) :
      Like (.storeOutage (some (call, f))) (.storeOutage (some (call, g)))
  | publishOutage {f g : Fault} (h : f.Like g) : Like (.publishOutage (some f)) (.publishOutage (some g))

theorem Input.Like.masked {i j : Input} (h : i.Like j) : i.masked = j.masked := by
  cases h with
  | same => rfl
  | sources h => exact congrArg Input.sources h.masked
  | storeOutage call h => exact congrArg (fun f => Input.storeOutage (some (call, f))) h.sanitized
  | publishOutage h => exact congrArg (fun f => Input.publishOutage (some f)) h.sanitized

theorem details_stay_inside (secret : String) (store : CommentStore) {sources sources' : Sources}
    (bounds : HistoryBounds) (commentIds epochs sessionIds : Supply) {is is' : List Input}
    (hsources : sources.Like sources') (hinputs : List.Forall₂ Input.Like is is') :
    (start secret store sources bounds commentIds epochs sessionIds).seen is =
      (start secret store sources' bounds commentIds epochs sessionIds).seen is' := by
  have hstart : (start secret store sources bounds commentIds epochs sessionIds).masked =
      (start secret store sources' bounds commentIds epochs sessionIds).masked := by
    simp only [start, masked, Live.masked, Backend.masked, Backend.start, hsources.masked]
  have his : is.map Input.masked = is'.map Input.masked := by
    apply map_eq_of_forall₂ _ hinputs
    intro i j hij
    exact hij.masked
  rw [← seen_masked, hstart, his, seen_masked]

def failing (f : Fault) : Sources :=
  { chain := [.ofUsers [], .peer ⟨"directory", [.error f], false, .refused⟩], patience := 0 }

def outage (detail : String) : List Input :=
  [.storeOutage (some (.get, .internal detail)),
    .request ⟨"GET", ⟨["comments", "65f0c0ffee0000000000abcd"], []⟩, []⟩ ⟨0, 0⟩]

theorem details_of_two_outages :
    let site (f : Fault) : Site := start "secret" {} (failing f) ⟨2, 60000⟩ ⟨24, 0⟩ ⟨8, 0⟩ ⟨8, 0⟩
    (failing .commentNotFound).Like (failing (.internal "timed out")) ∧
      List.Forall₂ Input.Like (outage "socket closed") (outage "disk full") ∧
      (site .commentNotFound).seen (outage "socket closed") =
        (site (.internal "timed out")).seen (outage "disk full") ∧
      (site .commentNotFound).seen (outage "socket closed") =
        [⟨[], none⟩, ⟨[], some (.ofFault (.internal "internal error"))⟩] := by
  intro site
  have hanswers : List.Forall₂ AnswersLike [.error .commentNotFound] [.error (.internal "timed out")] :=
    .cons (.hidden rfl rfl) .nil
  have hsources : (failing .commentNotFound).Like (failing (.internal "timed out")) :=
    ⟨.cons (.cache _) (.cons (.peer ⟨rfl, rfl, hanswers, .same _⟩) .nil), rfl⟩
  have hinputs : List.Forall₂ Input.Like (outage "socket closed") (outage "disk full") :=
    .cons (.storeOutage .get (.internal _ _)) (.cons (.same _) .nil)
  refine ⟨hsources, hinputs, ?_, by with_unfolding_all rfl⟩
  exact details_stay_inside "secret" {} ⟨2, 60000⟩ ⟨24, 0⟩ ⟨8, 0⟩ ⟨8, 0⟩ hsources hinputs

end Site

end LiveComments
