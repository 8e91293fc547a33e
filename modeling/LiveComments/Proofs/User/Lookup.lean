import LiveComments.Proofs.User.Source

/-!
Look-ups of users that overlap with each other and with the feed. A look-up asks one source after
another; when one has answered, those that missed get a copy later, each in a step of its own.
-/

namespace LiveComments

theorem Resolution.le_asked (p : FallbackPolicy) (answers : List (Except Fault User)) (n : Nat)
    (last : Fault) : n ≤ (search p answers n last).asked := by
  induction answers generalizing n last with
  | nil => exact Nat.le_refl n
  | cons a rest ih =>
    cases a with
    | ok u => exact Nat.le_succ n
    | error f =>
      rw [search]
      split
      · exact Nat.le_succ n
      · exact Nat.le_trans (Nat.le_succ n) (ih (n + 1) f)

/-- A call that has asked some sources in vain, or one that was answered, with the places in the
chain that are still to get a copy. -/
inductive Lookup where
  | asking (id : Int) (missed : Nat) (last : Fault)
  | answered (id : Int) (answer : Except Fault User) (repairs : List Nat)

namespace Lookup

def call (id : Int) : Lookup := asking id 0 (.internal "no user sources configured")

def after (p : FallbackPolicy) (id : Int) (missed : Nat) : Except Fault User → Lookup
  | .ok u => answered id (.ok u) (List.range missed)
  | .error f =>
    if p.decide f = .stop then answered id (.error (publicFault f)) [] else asking id (missed + 1) f

def next (s : Sources) (id : Int) (missed : Nat) (last : Fault) : Sources × Lookup :=
  match s.chain[missed]? with
  | none => (s, answered id (.error (publicFault last)) [])
  | some source =>
    ({ s with
      chain := s.chain.set missed source.asked
      calls := s.calls ++ Sources.askedCalls id [source] }, after s.policy id missed (source.answer id))

theorem after_cases (p : FallbackPolicy) (id : Int) (n : Nat) (a : Except Fault User)
    (rest : List (Except Fault User)) (last : Fault) :
    let r := Resolution.search p (a :: rest) n last
    (r.asked = n + 1 ∧ after p id n a = answered id r.answer (List.range r.missed)) ∨
      ∃ f, after p id n a = asking id (n + 1) f ∧ r = Resolution.search p rest (n + 1) f := by
  intro r
  cases a with
  | ok u => exact .inl ⟨rfl, rfl⟩
  | error f =>
    by_cases hstop : p.decide f = .stop
    · have hr : r = .failed f (n + 1) := if_pos hstop
      rw [hr, after, if_pos hstop]
      exact .inl ⟨rfl, rfl⟩
    · have hr : r = Resolution.search p rest (n + 1) f := if_neg hstop
      exact .inr ⟨f, if_neg hstop, hr⟩

def owed? (place : Nat) : Lookup → Option User
  | answered _ (.ok u) repairs => if place ∈ repairs then some u else none
  | _ => none

def repaired (place : Nat) : Lookup → Lookup
  | answered id answer repairs => answered id answer (repairs.erase place)
  | l => l

theorem owed?_eq_some {l : Lookup} {place : Nat} {u : User} :
    l.owed? place = some u ↔ ∃ id repairs, l = answered id (.ok u) repairs ∧ place ∈ repairs := by
  unfold owed?
  constructor
  · intro h
    split at h
    · rename_i id v repairs
      split at h
      · cases h
        exact ⟨id, repairs, rfl, ‹_›⟩
      · cases h
    · cases h
  · rintro ⟨id, repairs, rfl, hplace⟩
    exact if_pos hplace

end Lookup

structure Lookups where
  sources : Sources
  calls : Table Nat Lookup := {}

namespace Lookups

inductive Step where
  | call (i : Nat) (id : Int)
  | ask (i : Nat)
  | repair (i place : Nat) (now : Int)
  | message (text : String)

def step (w : Lookups) : Step → Lookups
  | .call i id =>
    match w.calls.get? i with
    | some _ => w
    | none => { w with calls := w.calls.insert i (.call id) }
  | .ask i =>
    match w.calls.get? i with
    | some (.asking id missed last) =>
      let (s, l) := Lookup.next w.sources id missed last
      ⟨s, w.calls.insert i l⟩
    | _ => w
  | .repair i place now =>
    match w.calls.get? i with
    | some l =>
      match l.owed? place with
      | some u => ⟨w.sources.repair u now place, w.calls.insert i (l.repaired place)⟩
      | none => w
    | none => w
  | .message text => { w with sources := (Feed.handle w.sources text).1 }

def run (w : Lookups) (xs : List Step) : Lookups := xs.foldl step w

theorem run_append (w : Lookups) (xs ys : List Step) : w.run (xs ++ ys) = (w.run xs).run ys :=
  List.foldl_append

variable {w : Lookups}

section

variable {i n : Nat} {id : Int} {last : Fault}

theorem run_asks_answered {answer : Except Fault User} {repairs : List Nat}
    (h : w.calls.get? i = some (.answered id answer repairs)) (n : Nat) :
    w.run (List.replicate n (.ask i)) = w := by
  induction n with
  | zero => rfl
  | succ n ih =>
    have hstep : w.step (.ask i) = w := by simp only [step, h]
    rw [List.replicate_succ, run, List.foldl_cons, hstep]
    exact ih

theorem run_ask {asked rest : List Source} {x : Source}
    (hcall : w.calls.get? i = some (.asking id asked.length last))
    (hchain : w.sources.chain = asked ++ x :: rest) (n : Nat) :
    w.run (List.replicate (n + 1) (.ask i)) =
      run ⟨{ w.sources with
          chain := asked ++ x.asked :: rest
          calls := w.sources.calls ++ Sources.askedCalls id [x] },
        w.calls.insert i (Lookup.after w.sources.policy id asked.length (x.answer id))⟩
      (List.replicate n (.ask i)) := by
  have hsome : w.sources.chain[asked.length]? = some x := by simp [hchain]
  have hset : w.sources.chain.set asked.length x.asked = asked ++ x.asked :: rest := by simp [hchain]
  simp only [List.replicate_succ, run, List.foldl_cons, step, hcall, Lookup.next, hsome, hset]

theorem run_ask_last {asked : List Source}
    (hcall : w.calls.get? i = some (.asking id asked.length last)) (hchain : w.sources.chain = asked) :
    w.run (List.replicate 1 (.ask i)) =
      ⟨w.sources, w.calls.insert i (.answered id (.error (publicFault last)) [])⟩ := by
  have hnone : w.sources.chain[asked.length]? = none := by simp [hchain]
  change w.step (.ask i) = _
  simp only [step, hcall, Lookup.next, hnone]

theorem run_asks {asked rest : List Source} (hcall : w.calls.get? i = some (.asking id asked.length last))
    (hchain : w.sources.chain = asked ++ rest) :
    let r := Resolution.search w.sources.policy (rest.map (·.answer id)) asked.length last
    let heard := rest.take (r.asked - asked.length)
    let w' := w.run (List.replicate (rest.length + 1) (.ask i))
    w'.sources = { w.sources with
        chain := asked ++ (heard.map Source.asked ++ rest.drop (r.asked - asked.length))
        calls := w.sources.calls ++ Sources.askedCalls id heard } ∧
      w'.calls.get? i = some (.answered id r.answer (List.range r.missed)) := by
  -- Over the sources that are left; those that were asked in vain stand before them.
  induction rest generalizing w asked last with
  | nil =>
    rw [List.append_nil] at hchain
    simp only [List.length_nil, run_ask_last hcall hchain, List.take_nil, List.drop_nil, List.map_nil,
      List.append_nil, ← hchain]
    have hcalls : w.sources.calls = w.sources.calls ++ Sources.askedCalls id [] :=
      (List.append_nil _).symm
    rw [← hcalls]
    exact ⟨rfl, Table.get?_insert_self ..⟩
  | cons x rest ih =>
    have hask := run_ask hcall hchain (rest.length + 1)
    rw [List.map_cons, List.length_cons]
    intro r heard w'
    rcases Lookup.after_cases w.sources.policy id asked.length (x.answer id) (rest.map (·.answer id)) last
      with ⟨hasked, hafter⟩ | ⟨f, hafter, hr⟩
    · have hheard : r.asked - asked.length = 1 := by
        rw [hasked]
        exact Nat.add_sub_cancel_left ..
      rw [hafter] at hask
      have hend : w' = _ := hask.trans (run_asks_answered (Table.get?_insert_self ..) _)
      simp only [hend, heard, hheard]
      exact ⟨rfl, Table.get?_insert_self ..⟩
    · have hr' : r = Resolution.search w.sources.policy (rest.map (·.answer id)) (asked.length + 1) f := hr
      have hle : asked.length + 1 ≤ r.asked := by
        rw [hr']
        exact Resolution.le_asked ..
      have hsub : r.asked - asked.length = (r.asked - (asked.length + 1)) + 1 := by omega
      have hlength : (asked ++ [x.asked]).length = asked.length + 1 := List.length_append
      rw [hafter, ← hlength] at hask
      let s : Sources := { w.sources with
        chain := asked ++ x.asked :: rest
        calls := w.sources.calls ++ Sources.askedCalls id [x] }
      let w₁ : Lookups := ⟨s, w.calls.insert i (.asking id (asked ++ [x.asked]).length f)⟩
      have hrest := ih (w := w₁) (Table.get?_insert_self ..) (List.append_cons ..)
      rw [hlength, ← hr'] at hrest
      have hw' : w' = w₁.run (List.replicate (rest.length + 1) (.ask i)) := hask
      rw [hw', hrest.1]
      refine ⟨?_, hrest.2⟩
      simp only [heard, hsub, w₁, s, List.take_succ_cons, List.drop_succ_cons, List.map_cons,
        List.append_assoc, Sources.askedCalls, ← List.filterMap_append]
      rfl

theorem run_repairs {u : User} {places : List Nat} (now : Int)
    (hcall : w.calls.get? i = some (.answered id (.ok u) places)) :
    let w' := w.run (places.map (.repair i · now))
    w'.sources = places.foldl (fun s place => s.repair u now place) w.sources ∧
      w'.calls.get? i = some (.answered id (.ok u) []) := by
  induction places generalizing w with
  | nil => exact ⟨rfl, hcall⟩
  | cons place places ih =>
    have howed : (Lookup.answered id (.ok u) (place :: places)).owed? place = some u :=
      if_pos List.mem_cons_self
    have hstep : w.step (.repair i place now) =
        ⟨w.sources.repair u now place, w.calls.insert i (.answered id (.ok u) places)⟩ := by
      simp only [step, hcall, howed, Lookup.repaired, List.erase_cons_head]
    simp only [run, List.map_cons, List.foldl_cons, hstep]
    apply ih
    exact Table.get?_insert_self ..

def alone (s : Sources) (i : Nat) (id now : Int) : List Step :=
  .call i id :: List.replicate (s.chain.length + 1) (.ask i) ++
    (List.range (s.ask id).2.missed).map (.repair i · now)

theorem run_alone (s : Sources) (i : Nat) (id now : Int) :
    let w := run ⟨s, {}⟩ (alone s i id now)
    w.sources = (s.resolve id now).1 ∧
      w.calls.get? i = some (.answered id (s.resolve id now).2 []) := by
  intro w
  let called : Lookups := ⟨s, Table.insert {} i (.call id)⟩
  let heard := called.run (List.replicate (s.chain.length + 1) (.ask i))
  have hcalled : called.calls.get? i = some (.asking id ([] : List Source).length _) :=
    Table.get?_insert_self ..
  have hchain : called.sources.chain = [] ++ s.chain := rfl
  have hasks := run_asks hcalled hchain
  have hsources : heard.sources = (s.ask id).1 := hasks.1
  have hcall : heard.calls.get? i =
      some (.answered id (s.ask id).2.answer (List.range (s.ask id).2.missed)) := hasks.2
  have hw : w = heard.run ((List.range (s.ask id).2.missed).map (.repair i · now)) :=
    run_append called _ _
  rw [hw]
  unfold Sources.resolve
  simp only
  cases ha : (s.ask id).2.answer with
  | error f =>
    have hmissed : (s.ask id).2.missed = 0 := by rw [Resolution.missed, ha]
    rw [ha, hmissed] at hcall
    rw [hmissed]
    exact ⟨hsources, hcall⟩
  | ok u =>
    rw [ha] at hcall
    obtain ⟨hrepaired, hdone⟩ := run_repairs now hcall
    rw [hrepaired, hsources]
    exact ⟨rfl, hdone⟩

end

end Lookups

end LiveComments
