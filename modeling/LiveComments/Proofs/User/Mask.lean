import LiveComments.User.Feed
import Mathlib.Data.List.Forall2

namespace LiveComments

theorem map_eq_of_forall₂ {α β : Type} {R : α → α → Prop} {f : α → β} (hf : ∀ x y, R x y → f x = f y)
    {xs ys : List α} (h : List.Forall₂ R xs ys) : xs.map f = ys.map f := by
  induction h with
  | nil => rfl
  | cons head tail ih => rw [List.map_cons, List.map_cons, hf _ _ head, ih]

def Fault.isPublic : Fault → Bool
  | .userNotFound | .invalid _ | .invalidId _ => true
  | _ => false

theorem publicFault_eq_ite (f : Fault) :
    publicFault f = if f.isPublic then f else .internal "user resolution failed" := by
  cases f <;> rfl

theorem publicFault_publicFault (f : Fault) : publicFault (publicFault f) = publicFault f := by
  cases f <;> rfl

theorem publicFault_eq {f g : Fault} (hf : f.isPublic = false) (hg : g.isPublic = false) :
    publicFault f = publicFault g := by
  rw [publicFault_eq_ite f, publicFault_eq_ite g, hf, hg]
  rfl

theorem FallbackPolicy.decide_publicFault (p : FallbackPolicy) (f : Fault) :
    p.decide (publicFault f) = .stop ↔ p.decide f = .stop := by
  cases f with
  | commentNotFound =>
    constructor
    · intro h
      cases h
    · intro h
      cases h
  | _ => rfl

def maskedAnswer (a : Except Fault User) : Except Fault User := a.mapError publicFault

inductive AnswersLike : Except Fault User → Except Fault User → Prop
  | same (a : Except Fault User) : AnswersLike a a
  | hidden {f g : Fault} (left : f.isPublic = false) (right : g.isPublic = false) :
      AnswersLike (.error f) (.error g)

theorem AnswersLike.masked {a a' : Except Fault User} (h : AnswersLike a a') :
    maskedAnswer a = maskedAnswer a' := by
  cases h with
  | same => rfl
  | hidden left right => exact congrArg Except.error (publicFault_eq left right)

theorem Resolution.search_masked (p : FallbackPolicy) (answers : List (Except Fault User)) (n : Nat)
    {last last' : Fault} (hlast : publicFault last' = publicFault last) :
    search p (answers.map maskedAnswer) n last' = search p answers n last := by
  induction answers generalizing n last last' with
  | nil => simp only [List.map_nil, search, failed, hlast]
  | cons a rest ih =>
    cases a with
    | ok u => rfl
    | error f =>
      have hf := publicFault_publicFault f
      simp only [List.map_cons, maskedAnswer, Except.mapError, search, p.decide_publicFault, failed, hf]
      split
      · rfl
      · exact ih (n + 1) hf

def Saving.masked : Saving → Saving
  | refused => refused
  | taken delay fault => taken delay (fault.map publicFault)

inductive Saving.Like : Saving → Saving → Prop
  | same (s : Saving) : Like s s
  | failed {delay : Int} {f g : Fault} (left : f.isPublic = false) (right : g.isPublic = false) :
      Like (taken delay (some f)) (taken delay (some g))

theorem Saving.Like.masked {s t : Saving} (h : s.Like t) : s.masked = t.masked := by
  cases h with
  | same => rfl
  | failed left right => exact congrArg (fun f => taken _ (some f)) (publicFault_eq left right)

namespace Peer

def masked (p : Peer) : Peer :=
  { p with answers := p.answers.map maskedAnswer, saving := p.saving.masked }

structure Like (p q : Peer) : Prop where
  name : p.name = q.name
  repairable : p.repairable = q.repairable
  answers : List.Forall₂ AnswersLike p.answers q.answers
  saving : p.saving.Like q.saving

theorem Like.masked {p q : Peer} (h : p.Like q) : p.masked = q.masked := by
  have hanswers : p.answers.map maskedAnswer = q.answers.map maskedAnswer := by
    apply map_eq_of_forall₂ _ h.answers
    intro a b hab
    exact hab.masked
  unfold Peer.masked
  rw [h.name, h.repairable, hanswers, h.saving.masked]

theorem answer_masked (p : Peer) : p.masked.answer = maskedAnswer p.answer := by
  unfold answer Peer.masked
  cases p.answers with
  | nil => rfl
  | cons a rest => rfl

theorem advance_masked (p : Peer) : p.masked.advance = p.advance.masked := by
  obtain ⟨name, answers, repairable, saving⟩ := p
  match answers with
  | [] => rfl
  | [a] => rfl
  | a :: b :: rest => rfl

end Peer

namespace Source

def masked : Source → Source
  | cache users => cache users
  | peer p => peer p.masked

inductive Like : Source → Source → Prop
  | cache (users : Table Int User) : Like (.cache users) (.cache users)
  | peer {p q : Peer} (h : p.Like q) : Like (.peer p) (.peer q)

theorem Like.masked {x y : Source} (h : x.Like y) : x.masked = y.masked := by
  cases h with
  | cache users => rfl
  | peer h => exact congrArg Source.peer h.masked

theorem answer_masked (x : Source) (id : Int) : x.masked.answer id = maskedAnswer (x.answer id) := by
  cases x with
  | cache users =>
    simp only [masked, answer]
    cases users.get? id with
    | none => rfl
    | some u => rfl
  | peer p => exact p.answer_masked

theorem asked_masked (x : Source) : x.masked.asked = x.asked.masked := by
  cases x with
  | cache users => rfl
  | peer p => exact congrArg peer p.advance_masked

theorem repairable_masked (x : Source) : x.masked.repairable = x.repairable := by
  cases x <;> rfl

theorem save_masked (x : Source) (u : User) : (x.masked.save u).1 = (x.save u).1.masked := by
  cases x <;> rfl

end Source

namespace Sources

def masked (s : Sources) : Sources := { s with chain := s.chain.map Source.masked }

/-- The same sources in the same state, but for failures that are not told on. -/
structure Like (s t : Sources) : Prop where
  chain : List.Forall₂ Source.Like s.chain t.chain
  rest : t = { s with chain := t.chain }

theorem Like.masked {s t : Sources} (h : s.Like t) : s.masked = t.masked := by
  have hchain : s.chain.map Source.masked = t.chain.map Source.masked := by
    apply map_eq_of_forall₂ _ h.chain
    intro x y hxy
    exact hxy.masked
  rw [Sources.masked, hchain, h.rest]
  rfl

theorem askedCalls_masked (id : Int) (asked : List Source) :
    askedCalls id (asked.map Source.masked) = askedCalls id asked := by
  unfold askedCalls
  rw [List.filterMap_map]
  congr
  funext x
  cases x <;> rfl

theorem ask_masked (s : Sources) (id : Int) : s.masked.ask id = ((s.ask id).1.masked, (s.ask id).2) := by
  have hanswers : (s.chain.map Source.masked).map (·.answer id) =
      (s.chain.map (·.answer id)).map maskedAnswer := by
    rw [List.map_map, List.map_map]
    exact List.map_congr_left fun x _ => x.answer_masked id
  have hasked (xs : List Source) :
      (xs.map Source.masked).map Source.asked = (xs.map Source.asked).map Source.masked := by
    rw [List.map_map, List.map_map]
    exact List.map_congr_left fun x _ => x.asked_masked
  have hr : Resolution.of s.policy ((s.chain.map (·.answer id)).map maskedAnswer) =
      Resolution.of s.policy (s.chain.map (·.answer id)) := Resolution.search_masked _ _ 0 rfl
  simp only [ask, masked, hanswers, hr, ← List.map_take, ← List.map_drop, hasked, askedCalls_masked,
    List.map_append]

theorem repairCalls_masked (s : Sources) (u : User) (now : Int) (x : Source) :
    s.masked.repairCalls u now x.masked = (s.repairCalls u now x).masked := by
  cases x with
  | cache users => rfl
  | peer p =>
    obtain ⟨name, answers, repairable, saving⟩ := p
    cases saving with
    | refused => rfl
    | taken delay fault =>
      simp only [repairCalls, Source.masked, Peer.masked, Saving.masked, apply_ite masked]
      rfl

theorem set_masked (s : Sources) (u : User) (i : Nat) (x : Source) :
    s.masked.chain.set i (x.masked.save u).1 = (s.chain.set i (x.save u).1).map Source.masked := by
  rw [x.save_masked]
  exact List.map_set.symm

theorem repair_masked (s : Sources) (u : User) (now : Int) (i : Nat) :
    s.masked.repair u now i = (s.repair u now i).masked := by
  have hget : s.masked.chain[i]? = s.chain[i]?.map Source.masked := List.getElem?_map ..
  unfold repair
  rw [hget]
  cases s.chain[i]? with
  | none => rfl
  | some x =>
    simp only [Option.map_some, x.repairable_masked, repairCalls_masked, set_masked]
    split <;> rfl

theorem repairMissed_masked (s : Sources) (u : User) (n : Nat) (now : Int) :
    s.masked.repairMissed u n now = (s.repairMissed u n now).masked := by
  unfold repairMissed
  generalize List.range n = is
  induction is generalizing s with
  | nil => rfl
  | cons i is ih =>
    rw [List.foldl_cons, List.foldl_cons, repair_masked]
    exact ih (s.repair u now i)

theorem resolve_masked (s : Sources) (id now : Int) :
    s.masked.resolve id now = ((s.resolve id now).1.masked, (s.resolve id now).2) := by
  unfold resolve
  rw [ask_masked]
  simp only
  cases (s.ask id).2.answer with
  | error f => rfl
  | ok u =>
    simp only [repairMissed_masked]

theorem update_masked (s : Sources) (u : User) : (s.masked.update u).1 = (s.update u).1.masked := by
  have hrepairable : Source.repairable ∘ Source.masked = Source.repairable :=
    funext Source.repairable_masked
  have hfind : s.masked.chain.findIdx? Source.repairable = s.chain.findIdx? Source.repairable := by
    change (s.chain.map Source.masked).findIdx? Source.repairable = _
    rw [List.findIdx?_map, hrepairable]
  unfold update
  rw [hfind]
  split
  · rfl
  · cases s.chain.findIdx? Source.repairable with
    | none => rfl
    | some i =>
      have hget : s.masked.chain[i]? = s.chain[i]?.map Source.masked := List.getElem?_map ..
      simp only [hget]
      cases s.chain[i]? with
      | none => rfl
      | some x =>
        have hset : s.masked.chain.set i (x.masked.save u).1 =
            (s.chain.set i (x.save u).1).map Source.masked := set_masked s u i x
        rcases x with users | ⟨name, answers, repairable, _ | ⟨delay, fault⟩⟩
        all_goals
          simp only [Option.map_some, Source.masked, Peer.masked] at hset ⊢
          rw [hset]
          rfl

theorem handle_masked (s : Sources) (message : String) :
    (Feed.handle s.masked message).1 = (Feed.handle s message).1.masked := by
  unfold Feed.handle
  cases Feed.decode message with
  | error f => rfl
  | ok u => exact s.update_masked u

end Sources

end LiveComments
