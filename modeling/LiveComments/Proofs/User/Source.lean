import LiveComments.Proofs.Table
import LiveComments.User.Feed

namespace LiveComments

namespace Source

def Keyed : Source → Prop
  | cache users => ∀ k u, users.get? k = some u → u.id = k
  | peer _ => True

theorem keyed_ofUsers (us : List User) : (ofUsers us).Keyed := by
  have hfold (es : List (Int × User)) (hes : ∀ e ∈ es, e.2.id = e.1) (t : Table Int User)
      (ht : (cache t).Keyed) : (cache (es.foldl (fun t e => t.insert e.1 e.2) t)).Keyed := by
    induction es generalizing t with
    | nil => exact ht
    | cons e es ih =>
      apply ih fun e' he' => hes e' (List.mem_cons_of_mem _ he')
      intro k u
      exact Table.forall_insert ht (hes e List.mem_cons_self)
  apply hfold
  · intro e he
    obtain ⟨u, -, rfl⟩ := List.mem_map.mp he
    rfl
  · intro k u hu
    cases hu

theorem Keyed.asked {x : Source} (hx : x.Keyed) : x.asked.Keyed := by
  cases x with
  | cache users => exact hx
  | peer p => exact trivial

theorem Keyed.save {x : Source} (hx : x.Keyed) (u : User) : (x.save u).1.Keyed := by
  cases x with
  | cache users =>
    intro k v
    exact Table.forall_insert hx rfl
  | peer p => exact trivial

theorem Keyed.answer {x : Source} (hx : x.Keyed) {id : Int} {u : User} (h : x.answer id = .ok u) :
    u.id = id ∨ ∃ p, x = .peer p ∧ p.answer = .ok u := by
  cases x with
  | cache users =>
    simp only [Source.answer] at h
    split at h
    · cases h
      exact .inl (hx id u ‹_›)
    · cases h
  | peer p => exact .inr ⟨p, rfl, h⟩

def cached? (id : Int) : Source → Option (Option User)
  | cache users => some (users.get? id)
  | peer _ => none

theorem cached?_asked (id : Int) (x : Source) : x.asked.cached? id = x.cached? id := by
  cases x <;> rfl

theorem cached?_save {id : Int} {u : User} (hne : u.id ≠ id) (x : Source) :
    (x.save u).1.cached? id = x.cached? id := by
  cases x with
  | cache users =>
    change some ((users.insert u.id u).get? id) = some (users.get? id)
    rw [Table.get?_insert, if_neg hne]
  | peer p => rfl

end Source

theorem Resolution.search_answered {p : FallbackPolicy} {answers : List (Except Fault User)}
    {asked : Nat} {last : Fault} {u : User} (h : (search p answers asked last).answer = .ok u) :
    .ok u ∈ answers := by
  induction answers generalizing asked last with
  | nil => cases h
  | cons a rest ih =>
    cases a with
    | ok v =>
      cases h
      exact List.mem_cons_self
    | error f =>
      rw [search] at h
      split at h
      · cases h
      · exact List.mem_cons_of_mem _ (ih h)

namespace Sources

def Keyed (s : Sources) : Prop := ∀ x ∈ s.chain, x.Keyed

variable {s : Sources}

theorem Keyed.set (hs : s.Keyed) {i : Nat} {x : Source} (hx : s.chain[i]? = some x) (u : User) :
    ∀ y ∈ s.chain.set i (x.save u).1, y.Keyed := by
  intro y hy
  rcases List.mem_or_eq_of_mem_set hy with hy | rfl
  · exact hs y hy
  · exact (hs x (List.mem_of_getElem? hx)).save u

theorem Keyed.ask (hs : s.Keyed) (id : Int) : (s.ask id).1.Keyed := by
  intro x hx
  rcases List.mem_append.mp hx with hx | hx
  · obtain ⟨y, hy, rfl⟩ := List.mem_map.mp hx
    exact (hs y (List.mem_of_mem_take hy)).asked
  · exact hs x (List.mem_of_mem_drop hx)

theorem Keyed.repair (hs : s.Keyed) (u : User) (now : Int) (i : Nat) : (s.repair u now i).Keyed := by
  unfold Sources.repair
  cases hx : s.chain[i]? with
  | none => exact hs
  | some x =>
    simp only
    split
    · exact hs.set hx u
    · exact hs

theorem Keyed.repairMissed (hs : s.Keyed) (u : User) (n : Nat) (now : Int) :
    (s.repairMissed u n now).Keyed := by
  unfold Sources.repairMissed
  generalize List.range n = is
  induction is generalizing s with
  | nil => exact hs
  | cons i is ih => exact ih (hs.repair u now i)

theorem Keyed.resolve (hs : s.Keyed) (id now : Int) : (s.resolve id now).1.Keyed := by
  unfold Sources.resolve
  simp only
  split
  · exact (hs.ask id).repairMissed _ _ now
  · exact hs.ask id

theorem Keyed.update (hs : s.Keyed) (u : User) : (s.update u).1.Keyed := by
  unfold Sources.update
  split
  · exact hs
  · split
    · exact hs
    · rename_i i hi
      cases hx : s.chain[i]? with
      | none => exact hs
      | some x => exact hs.set hx u

theorem Keyed.handle (hs : s.Keyed) (message : String) : (Feed.handle s message).1.Keyed := by
  unfold Feed.handle
  split
  · exact hs.update _
  · exact hs

theorem resolve_answer (s : Sources) (id now : Int) :
    (s.resolve id now).2 = (Resolution.of s.policy (s.chain.map (·.answer id))).answer := by
  unfold resolve ask
  simp only
  cases h : (Resolution.of s.policy (s.chain.map (·.answer id))).answer <;> rfl

theorem Keyed.resolved (hs : s.Keyed) {id now : Int} {u : User} (h : (s.resolve id now).2 = .ok u) :
    u.id = id ∨ ∃ p, .peer p ∈ s.chain ∧ p.answer = .ok u := by
  rw [resolve_answer] at h
  obtain ⟨x, hx, ha⟩ := List.mem_map.mp (Resolution.search_answered h)
  rcases (hs x hx).answer ha with hid | ⟨p, rfl, hp⟩
  · exact .inl hid
  · exact .inr ⟨p, hx, hp⟩

theorem cached_eq (s : Sources) (id : Int) : s.cached id = s.chain.filterMap (Source.cached? id) :=
  rfl

theorem cached_ask (s : Sources) (id k : Int) : (s.ask id).1.cached k = s.cached k := by
  have hasked : Source.cached? k ∘ Source.asked = Source.cached? k := funext (Source.cached?_asked k)
  rw [cached_eq, cached_eq]
  simp only [ask]
  rw [List.filterMap_append, List.filterMap_map, hasked, ← List.filterMap_append,
    List.take_append_drop]

theorem cached_repair (s : Sources) {u : User} {k : Int} (hne : u.id ≠ k) (now : Int) (i : Nat) :
    (s.repair u now i).cached k = s.cached k := by
  unfold repair
  cases hx : s.chain[i]? with
  | none => rfl
  | some x =>
    simp only
    split
    · obtain ⟨hi, rfl⟩ := List.getElem?_eq_some_iff.mp hx
      have hview (l : List Source) :
          l.filterMap (Source.cached? k) = (l.map (Source.cached? k)).filterMap id := by
        rw [List.filterMap_map]
        rfl
      rw [cached_eq, cached_eq, hview, hview, List.map_set, Source.cached?_save hne,
        ← List.getElem_map (Source.cached? k) (h := by simpa using hi), List.set_getElem_self]
    · rfl

theorem cached_repairMissed (s : Sources) {u : User} {k : Int} (hne : u.id ≠ k) (n : Nat) (now : Int) :
    (s.repairMissed u n now).cached k = s.cached k := by
  unfold repairMissed
  generalize List.range n = is
  induction is generalizing s with
  | nil => rfl
  | cons i is ih => exact (ih (s.repair u now i)).trans (s.cached_repair hne now i)

theorem cached_resolve {id now k : Int} (h : (s.resolve id now).1.cached k ≠ s.cached k) :
    ∃ u, (s.resolve id now).2 = .ok u ∧ u.id = k := by
  unfold resolve at h ⊢
  cases ha : (s.ask id).2.answer with
  | error f =>
    simp only [ha] at h
    exact absurd (s.cached_ask id k) h
  | ok u =>
    simp only [ha] at h ⊢
    refine ⟨u, rfl, ?_⟩
    by_contra hne
    exact h (((s.ask id).1.cached_repairMissed hne _ now).trans (s.cached_ask id k))

end Sources

end LiveComments
