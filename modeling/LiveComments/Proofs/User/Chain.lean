import LiveComments.Proofs.User.Mask
import LiveComments.Proofs.User.Source
import Mathlib.Data.List.Induction

/-!
A resolution as the errands it runs along the chain. It asks the sources in order up to the first one
that decides, and leaves a copy of the answer with every source before that one which takes copies.
-/

namespace LiveComments

inductive Errand where
  | ask (place : Nat)
  | save (place : Nat) (u : User)

namespace Errand

def asks (n : Nat) : List Errand := (List.range n).map ask

def saves (missed : List Source) (u : User) : List Errand :=
  ((List.range missed.length).filter fun place => missed[place]?.any Source.repairable).map (save · u)

end Errand

open Errand

theorem FallbackPolicy.decide_eq_stop (p : FallbackPolicy) (f : Fault) : p.decide f = .stop ↔
    p.stopOnInvalid = true ∧ ((∃ detail, f = .invalid detail) ∨ ∃ detail, f = .invalidId detail) := by
  cases f <;> simp [decide]

def FallbackPolicy.Passes (p : FallbackPolicy) (a : Except Fault User) : Prop :=
  ∃ f, a = .error f ∧ p.decide f ≠ .stop

inductive Ordered (p : FallbackPolicy) (id : Int) :
    List Source → List Errand → Except Fault User → Prop
  | answered {before after : List Source} {x : Source} {u : User}
      (hbefore : ∀ y ∈ before, p.Passes (y.answer id)) (hx : x.answer id = .ok u) :
      Ordered p id (before ++ x :: after) (asks (before.length + 1) ++ saves before u) (.ok u)
  | refused {before after : List Source} {x : Source} {f : Fault}
      (hbefore : ∀ y ∈ before, p.Passes (y.answer id)) (hx : x.answer id = .error f)
      (hend : p.decide f = .stop ∨ after = []) :
      Ordered p id (before ++ x :: after) (asks (before.length + 1)) (.error (publicFault f))
  | empty : Ordered p id [] [] (.error (.internal "user resolution failed"))

theorem decided_once {α : Type} {P : α → Prop} {before before' after after' : List α} {x x' : α}
    (hbefore : ∀ y ∈ before, P y) (hx : P x → after = []) (hbefore' : ∀ y ∈ before', P y)
    (hx' : P x' → after' = []) (h : before ++ x :: after = before' ++ x' :: after') :
    before = before' ∧ x = x' := by
  -- A shorter part before would put its decider among those that pass, with more behind it.
  have hnot {b b' a a' : List α} {y y' : α} (hy : P y → a = []) (hb' : ∀ z ∈ b', P z)
      (h : b ++ y :: a = b' ++ y' :: a') : ¬b.length < b'.length := by
    intro hlt
    have hget : b'[b.length]? = some y := by
      have hleft : (b' ++ y' :: a')[b.length]? = b'[b.length]? := List.getElem?_append_left hlt
      rw [← hleft, ← h]
      simp
    have hnil := hy (hb' y (List.mem_of_getElem? hget))
    have hlength := congrArg List.length h
    simp only [hnil, List.length_append, List.length_cons, List.length_nil] at hlength
    omega
  have hle := hnot hx hbefore' h
  have hge := hnot hx' hbefore h.symm
  obtain ⟨hsame, hrest⟩ := List.append_inj h (by omega)
  exact ⟨hsame, (List.cons.inj hrest).1⟩

def Errand.decided (before : List Source) : Except Fault User → List Errand × Except Fault User
  | .ok u => (asks (before.length + 1) ++ saves before u, .ok u)
  | .error f => (asks (before.length + 1), .error (publicFault f))

theorem Ordered.decided {p : FallbackPolicy} {id : Int} {chain : List Source} {errands : List Errand}
    {a : Except Fault User} (h : Ordered p id chain errands a) :
    (∃ before x after, chain = before ++ x :: after ∧ (∀ y ∈ before, p.Passes (y.answer id)) ∧
      (p.Passes (x.answer id) → after = []) ∧ (errands, a) = Errand.decided before (x.answer id)) ∨
    chain = [] ∧ (errands, a) = ([], .error (.internal "user resolution failed")) := by
  cases h with
  | @answered before after x u hbefore hx =>
    refine .inl ⟨before, x, after, rfl, hbefore, ?_, by rw [hx]; rfl⟩
    rintro ⟨f, hf, -⟩
    cases hx.symm.trans hf
  | @refused before after x f hbefore hx hend =>
    refine .inl ⟨before, x, after, rfl, hbefore, ?_, by rw [hx]; rfl⟩
    rintro ⟨g, hg, hgo⟩
    cases hx.symm.trans hg
    exact hend.resolve_left hgo
  | empty => exact .inr ⟨rfl, rfl⟩

theorem Ordered.unique {p : FallbackPolicy} {id : Int} {chain : List Source}
    {errands errands' : List Errand} {a a' : Except Fault User} (h : Ordered p id chain errands a)
    (h' : Ordered p id chain errands' a') : errands = errands' ∧ a = a' := by
  rw [← Prod.mk.injEq]
  rcases h.decided with ⟨before, x, after, rfl, hbefore, hx, hpair⟩ | ⟨rfl, hpair⟩
  · rcases h'.decided with ⟨before', x', after', hchain, hbefore', hx', hpair'⟩ | ⟨hnil, -⟩
    · obtain ⟨rfl, rfl⟩ := decided_once hbefore hx hbefore' hx' hchain
      rw [hpair, hpair']
    · simp at hnil
  · rcases h'.decided with ⟨before', x', after', hchain, -⟩ | ⟨-, hpair'⟩
    · simp at hchain
    · rw [hpair, hpair']

theorem Resolution.search_cases (p : FallbackPolicy) (answers : List (Except Fault User)) (n : Nat)
    (last : Fault) :
    let r := search p answers n last
    (∃ before u after, answers = before ++ .ok u :: after ∧ (∀ a ∈ before, p.Passes a) ∧
      r = ⟨.ok u, n + (before.length + 1)⟩) ∨
    (∃ before f after, answers = before ++ .error f :: after ∧ (∀ a ∈ before, p.Passes a) ∧
      (p.decide f = .stop ∨ after = []) ∧ r = failed f (n + (before.length + 1))) ∨
    answers = [] ∧ r = failed last n := by
  -- Over the answers that are left; a failure that ends nothing joins those before.
  induction answers generalizing n last with
  | nil => exact .inr (.inr ⟨rfl, rfl⟩)
  | cons a rest ih =>
    cases a with
    | ok u => exact .inl ⟨[], u, rest, rfl, by simp, rfl⟩
    | error f =>
      by_cases hstop : p.decide f = .stop
      · refine .inr (.inl ⟨[], f, rest, rfl, by simp, .inl hstop, ?_⟩)
        exact if_pos hstop
      · have hr : search p (.error f :: rest) n last = search p rest (n + 1) f := if_neg hstop
        have hpasses {before : List (Except Fault User)} (h : ∀ a ∈ before, p.Passes a) :
            ∀ a ∈ Except.error f :: before, p.Passes a :=
          List.forall_mem_cons.mpr ⟨⟨f, rfl, hstop⟩, h⟩
        have hcount (before : List (Except Fault User)) :
            n + 1 + (before.length + 1) = n + ((Except.error f :: before).length + 1) := by
          rw [List.length_cons]
          omega
        intro r
        rw [show r = search p rest (n + 1) f from hr]
        rcases ih (n + 1) f with ⟨before, u, after, rfl, hbefore, hi⟩ |
          ⟨before, g, after, rfl, hbefore, hend, hi⟩ | ⟨rfl, hi⟩
        · refine .inl ⟨.error f :: before, u, after, rfl, hpasses hbefore, ?_⟩
          rw [hi, hcount]
        · refine .inr (.inl ⟨.error f :: before, g, after, rfl, hpasses hbefore, hend, ?_⟩)
          rw [hi, hcount]
        · exact .inr (.inl ⟨[], f, [], rfl, by simp, .inr rfl, hi⟩)

namespace Source

theorem repairable_asked (x : Source) : x.asked.repairable = x.repairable := by
  cases x with
  | cache users => rfl
  | peer p =>
    simp only [asked, repairable, Peer.advance]
    split <;> rfl

theorem repairable_save (x : Source) (u : User) : (x.save u).1.repairable = x.repairable := by
  cases x <;> rfl

end Source

namespace Sources

def carryOut (id now : Int) (s : Sources) : Errand → Sources
  | .ask place =>
    match s.chain[place]? with
    | some x =>
      { s with chain := s.chain.set place x.asked, calls := s.calls ++ askedCalls id [x] }
    | none => s
  | .save place u =>
    match s.chain[place]? with
    | some x => { s.repairCalls u now x with chain := s.chain.set place (x.save u).1 }
    | none => s

theorem carryOut_asks (s : Sources) (id now : Int) {before rest : List Source}
    (hchain : s.chain = before ++ rest) :
    (asks before.length).foldl (carryOut id now) s =
      { s with
        chain := before.map Source.asked ++ rest
        calls := s.calls ++ askedCalls id before } := by
  induction before using List.reverseRecOn generalizing rest with
  | nil => simp [asks, askedCalls, ← hchain]
  | append_singleton before x ih =>
    have hsplit : s.chain = before ++ x :: rest := hchain.trans (List.append_cons ..).symm
    have hprefix := ih hsplit
    have hlength : (before ++ [x]).length = before.length + 1 := List.length_append
    have hasks : asks (before.length + 1) = asks before.length ++ [.ask before.length] := by
      simp [asks, List.range_succ]
    rw [hlength, hasks, List.foldl_append, hprefix]
    simp [carryOut, askedCalls]

def takes (s : Sources) (place : Nat) : Bool := s.chain[place]?.any Source.repairable

theorem repair_eq (s : Sources) (u : User) (id now : Int) (place : Nat) :
    s.repair u now place = if s.takes place then s.carryOut id now (.save place u) else s := by
  cases hx : s.chain[place]? with
  | none => simp only [repair, takes, hx, Option.any_none, Bool.false_eq_true, if_false]
  | some x => simp only [repair, takes, carryOut, hx, Option.any_some]

theorem takes_repair (s : Sources) (u : User) (now : Int) (place other : Nat) :
    (s.repair u now place).takes other = s.takes other := by
  unfold repair
  cases hx : s.chain[place]? with
  | none => rfl
  | some x =>
    simp only
    split
    · simp only [takes, List.getElem?_set]
      split
      · rename_i h
        subst h
        split
        · rw [hx, Option.any_some, Option.any_some, x.repairable_save]
        · rename_i hout
          rw [List.getElem?_eq_none (Nat.not_lt.mp hout)]
      · rfl
    · rfl

theorem foldl_repair (s : Sources) (u : User) (id now : Int) (places : List Nat) :
    places.foldl (fun s place => s.repair u now place) s =
      ((places.filter s.takes).map (.save · u)).foldl (carryOut id now) s := by
  induction places generalizing s with
  | nil => rfl
  | cons place places ih =>
    have htakes : (s.repair u now place).takes = s.takes := funext (s.takes_repair u now place)
    rw [List.foldl_cons, ih, htakes]
    cases h : s.takes place with
    | true => rw [List.filter_cons_of_pos h, s.repair_eq u id now, if_pos h, List.map_cons, List.foldl_cons]
    | false =>
      rw [List.filter_cons_of_neg (Bool.not_eq_true _ ▸ h), s.repair_eq u id now, h, if_neg Bool.false_ne_true]

theorem ask_eq (s : Sources) (id now : Int) {r : Resolution}
    (hr : Resolution.of s.policy (s.chain.map (·.answer id)) = r) {before rest : List Source}
    (hchain : s.chain = before ++ rest) (hasked : r.asked = before.length) :
    s.ask id = ((asks before.length).foldl (carryOut id now) s, r) := by
  have htake : s.chain.take r.asked = before := by rw [hasked, hchain, List.take_left]
  have hdrop : s.chain.drop r.asked = rest := by rw [hasked, hchain, List.drop_left]
  rw [s.carryOut_asks id now hchain]
  simp only [ask, hr, htake, hdrop]

theorem takes_asked (s : Sources) (id now : Int) {before after : List Source} {x : Source}
    (hchain : s.chain = before ++ x :: after) {place : Nat} (hplace : place < before.length) :
    ((asks (before.length + 1)).foldl (carryOut id now) s).takes place =
      before[place]?.any Source.repairable := by
  have hsplit : s.chain = before ++ [x] ++ after := hchain.trans (List.append_cons ..)
  have hasks := s.carryOut_asks id now hsplit
  have hlength : (before ++ [x]).length = before.length + 1 := List.length_append
  rw [hlength] at hasks
  have hget : ((before ++ [x]).map Source.asked ++ after)[place]? = before[place]?.map Source.asked := by
    rw [List.map_append, List.append_assoc, List.getElem?_append_left (by simpa using hplace),
      List.getElem?_map]
  rw [hasks]
  simp only [takes, hget, Option.any_map, Source.repairable_asked]

theorem repairMissed_asked (s : Sources) (u : User) (id now : Int) {before after : List Source} {x : Source}
    (hchain : s.chain = before ++ x :: after) :
    ((asks (before.length + 1)).foldl (carryOut id now) s).repairMissed u before.length now =
      (asks (before.length + 1) ++ saves before u).foldl (carryOut id now) s := by
  have htakes : (List.range before.length).filter
        ((asks (before.length + 1)).foldl (carryOut id now) s).takes =
      (List.range before.length).filter fun place => before[place]?.any Source.repairable :=
    List.filter_congr fun place hplace => s.takes_asked id now hchain (List.mem_range.mp hplace)
  rw [List.foldl_append, saves, ← htakes]
  exact foldl_repair _ u id now _

theorem resolve_of_found {s s' : Sources} {u : User} {id : Int} {n : Nat} (h : s.ask id = (s', ⟨.ok u, n + 1⟩))
    (now : Int) : s.resolve id now = (s'.repairMissed u n now, .ok u) := by
  simp [resolve, h, Resolution.missed]

theorem resolve_of_failed {s s' : Sources} {f : Fault} {id : Int} {n : Nat}
    (h : s.ask id = (s', Resolution.failed f n)) (now : Int) :
    s.resolve id now = (s', .error (publicFault f)) := by
  simp [resolve, h, Resolution.failed]

theorem ordered_resolve (s : Sources) (id now : Int) :
    ∃ errands, Ordered s.policy id s.chain errands (s.resolve id now).2 ∧
      (s.resolve id now).1 = errands.foldl (carryOut id now) s := by
  have hpasses {before : List Source} (h : ∀ a ∈ before.map (·.answer id), s.policy.Passes a) :
      ∀ y ∈ before, s.policy.Passes (y.answer id) := List.forall_mem_map.mp h
  have hask {a : Except Fault User} {before after : List Source} {x : Source}
      (hr : Resolution.of s.policy (s.chain.map (·.answer id)) = ⟨a, before.length + 1⟩)
      (hchain : s.chain = before ++ x :: after) :
      s.ask id = ((asks (before.length + 1)).foldl (carryOut id now) s, ⟨a, before.length + 1⟩) := by
    have hlength : (before ++ [x]).length = before.length + 1 := List.length_append
    rw [← hlength] at hr ⊢
    exact s.ask_eq id now hr (hchain.trans (List.append_cons ..)) rfl
  rcases Resolution.search_cases s.policy (s.chain.map (·.answer id)) 0
      (.internal "no user sources configured") with
    ⟨answers, u, rest, hanswers, hbefore, hr⟩ | ⟨answers, f, rest, hanswers, hbefore, hend, hr⟩ |
    ⟨hempty, hr⟩
  · obtain ⟨before, tail, hchain, rfl, htail⟩ := List.map_eq_append_iff.mp hanswers
    obtain ⟨x, after, rfl, hx, -⟩ := List.map_eq_cons_iff.mp htail
    rw [List.length_map, Nat.zero_add] at hr
    rw [resolve_of_found (hask hr hchain), repairMissed_asked s u id now hchain]
    refine ⟨_, ?_, rfl⟩
    rw [hchain]
    exact .answered (hpasses hbefore) hx
  · obtain ⟨before, tail, hchain, rfl, htail⟩ := List.map_eq_append_iff.mp hanswers
    obtain ⟨x, after, rfl, hx, rfl⟩ := List.map_eq_cons_iff.mp htail
    rw [List.length_map, Nat.zero_add] at hr
    rw [resolve_of_failed (hask hr hchain)]
    refine ⟨_, ?_, rfl⟩
    rw [hchain]
    exact .refused (hpasses hbefore) hx (hend.imp_right List.map_eq_nil_iff.mp)
  · have hchain : s.chain = [] := List.map_eq_nil_iff.mp hempty
    have hsplit : s.chain = [] ++ [] := hchain
    rw [resolve_of_failed (s.ask_eq id now hr hsplit rfl)]
    refine ⟨[], ?_, rfl⟩
    rw [hchain]
    exact .empty

theorem resolution_follows_the_chain (s : Sources) (id now : Int) :
    (∃ errands, Ordered s.policy id s.chain errands (s.resolve id now).2 ∧
      (s.resolve id now).1 = errands.foldl (carryOut id now) s ∧
      ∀ errands' answer, Ordered s.policy id s.chain errands' answer →
        errands' = errands ∧ answer = (s.resolve id now).2) ∧
    ∀ f : Fault,
      (s.policy.decide f = .stop ↔ s.policy.stopOnInvalid = true ∧
        ((∃ detail, f = .invalid detail) ∨ ∃ detail, f = .invalidId detail)) ∧
      publicFault f = if f.isPublic then f else .internal "user resolution failed" := by
  constructor
  · obtain ⟨errands, hordered, hstate⟩ := s.ordered_resolve id now
    exact ⟨errands, hordered, hstate, fun _ _ h => h.unique hordered⟩
  · intro f
    exact ⟨s.policy.decide_eq_stop f, publicFault_eq_ite f⟩

end Sources

end LiveComments
