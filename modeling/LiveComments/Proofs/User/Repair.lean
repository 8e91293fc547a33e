import LiveComments.Proofs.User.Lookup
import Mathlib.Data.List.Induction

namespace LiveComments

/-- It has asked the first source for this user in vain, and may still write to it. -/
def Lookup.Late (id : Int) : Lookup → Prop
  | asking j missed _ => j = id ∧ 0 < missed
  | answered j _ repairs => j = id ∧ 0 ∈ repairs

namespace Sources

def front? (s : Sources) : Option (Table Int User) :=
  match s.chain with
  | .cache users :: _ => some users
  | _ => none

variable {s : Sources} {users : Table Int User}

theorem front?_eq_some : s.front? = some users ↔ ∃ others, s.chain = .cache users :: others := by
  unfold front?
  constructor
  · intro h
    split at h
    · rename_i others hchain
      cases h
      exact ⟨others, hchain⟩
    · cases h
  · rintro ⟨others, hchain⟩
    rw [hchain]

theorem front?_repair (h : s.front? = some users) (u : User) (now : Int) (place : Nat) :
    (s.repair u now place).front? = some (if place = 0 then users.insert u.id u else users) := by
  obtain ⟨others, hchain⟩ := front?_eq_some.mp h
  unfold repair
  cases place with
  | zero =>
    have hfirst : s.chain[0]? = some (.cache users) := by rw [hchain]; rfl
    have hset : s.chain.set 0 (Source.save (.cache users) u).1 = .cache (users.insert u.id u) :: others := by
      rw [hchain]
      rfl
    simp only [hfirst]
    exact front?_eq_some.mpr ⟨others, hset⟩
  | succ n =>
    cases hx : s.chain[n + 1]? with
    | none => exact h
    | some x =>
      simp only
      split
      · refine front?_eq_some.mpr ⟨others.set n (x.save u).1, ?_⟩
        simp only [hchain]
        rfl
      · exact h

theorem front?_next (h : s.front? = some users) (id : Int) (missed : Nat) (last : Fault) :
    (Lookup.next s id missed last).1.front? = some users := by
  obtain ⟨others, hchain⟩ := front?_eq_some.mp h
  unfold Lookup.next
  cases hx : s.chain[missed]? with
  | none => exact h
  | some x =>
    cases missed with
    | zero =>
      obtain rfl : .cache users = x := by simpa [hchain] using hx
      exact front?_eq_some.mpr ⟨others, by simp only [hchain]; rfl⟩
    | succ n => exact front?_eq_some.mpr ⟨others.set n x.asked, by simp only [hchain]; rfl⟩

theorem handle_ok (h : s.front? = some users) {text : String} {u : User}
    (hu : Feed.decode text = .ok u) (hid : 0 < u.id) :
    (Feed.handle s text).2 = .ok () ∧
      (Feed.handle s text).1.front? = some (users.insert u.id u) := by
  obtain ⟨others, hchain⟩ := front?_eq_some.mp h
  have hfirst : s.chain.findIdx? Source.repairable = some 0 := by rw [hchain]; rfl
  have hget : s.chain[0]? = some (.cache users) := by rw [hchain]; rfl
  rw [Feed.handle, hu]
  simp only [update, if_neg (Int.not_le.mpr hid), hfirst, hget]
  exact ⟨rfl, front?_eq_some.mpr ⟨others, by simp only [hchain]; rfl⟩⟩

theorem handle_dropped (s : Sources) {text : String} (h : ∀ u, Feed.decode text = .ok u → u.id ≤ 0) :
    (∃ f, (Feed.handle s text).2 = .error f) ∧ (Feed.handle s text).1 = s := by
  unfold Feed.handle
  cases hu : Feed.decode text with
  | error f => exact ⟨⟨f, rfl⟩, rfl⟩
  | ok u =>
    have hupdate : s.update u = (s, .error _) := if_pos (h u hu)
    change (∃ f, (s.update u).2 = .error f) ∧ (s.update u).1 = s
    rw [hupdate]
    exact ⟨⟨_, rfl⟩, rfl⟩

end Sources

namespace Lookups

variable {w : Lookups} {users : Table Int User}

def written? (w : Lookups) : Step → Option User
  | .message text =>
    match Feed.decode text with
    | .ok u => if 0 < u.id then some u else none
    | .error _ => none
  | .repair i place _ => if place = 0 then (w.calls.get? i).bind (·.owed? 0) else none
  | .call .. | .ask _ => none

theorem written_cases {x : Step} {u : User} (h : w.written? x = some u) :
    (∃ text, x = .message text ∧ Feed.decode text = .ok u) ∨
      ∃ i now id repairs, x = .repair i 0 now ∧
        w.calls.get? i = some (.answered id (.ok u) repairs) ∧ 0 ∈ repairs := by
  cases x with
  | call i id => cases h
  | ask i => cases h
  | message text =>
    simp only [written?] at h
    split at h
    · rename_i v hv
      split at h
      · cases h
        exact .inl ⟨text, rfl, hv⟩
      · cases h
    · cases h
  | repair i place now =>
    simp only [written?] at h
    split at h
    · rename_i hplace
      obtain ⟨l, hl, howed⟩ := Option.bind_eq_some_iff.mp h
      obtain ⟨id, repairs, rfl, hmem⟩ := Lookup.owed?_eq_some.mp howed
      exact .inr ⟨i, now, id, repairs, hplace ▸ rfl, hl, hmem⟩
    · cases h

theorem front?_step (h : w.sources.front? = some users) (x : Step) :
    (w.step x).sources.front? =
      some ((w.written? x).elim users fun u => users.insert u.id u) := by
  cases x with
  | call i id =>
    simp only [step]
    split
    · exact h
    · exact h
  | ask i =>
    simp only [step]
    split
    · exact Sources.front?_next h _ _ _
    · exact h
  | repair i place now =>
    simp only [step, written?]
    cases hl : w.calls.get? i with
    | none =>
      simp only [Option.bind_none, ite_self]
      exact h
    | some l =>
      cases howed : l.owed? place with
      | none =>
        have hnone : (if place = 0 then l.owed? 0 else none) = none := by
          split
          · rename_i hplace
            exact hplace ▸ howed
          · rfl
        simp only [Option.bind_some, howed, hnone]
        exact h
      | some u =>
        simp only [Option.bind_some, howed, Sources.front?_repair h]
        by_cases hplace : place = 0
        · rw [if_pos hplace, if_pos hplace, ← hplace, howed]
          rfl
        · rw [if_neg hplace, if_neg hplace]
          rfl
  | message text =>
    simp only [step, written?]
    cases hu : Feed.decode text with
    | error f =>
      have hdropped : (Feed.handle w.sources text).1 = w.sources := by
        apply (w.sources.handle_dropped _).2
        intro v hv
        cases hu.symm.trans hv
      rw [hdropped]
      exact h
    | ok u =>
      simp only
      by_cases hid : 0 < u.id
      · rw [if_pos hid, (Sources.handle_ok h hu hid).2]
        rfl
      · have hdropped : (Feed.handle w.sources text).1 = w.sources := by
          apply (w.sources.handle_dropped _).2
          intro v hv
          cases hu.symm.trans hv
          exact Int.not_lt.mp hid
        rw [if_neg hid, hdropped]
        exact h

theorem front?_run (h : w.sources.front? = some users) (xs : List Step) :
    ∃ users', (w.run xs).sources.front? = some users' := by
  induction xs generalizing w users with
  | nil => exact ⟨users, h⟩
  | cons x xs ih => exact ih (front?_step h x)

def cached? (w : Lookups) (id : Int) : Option User := w.sources.front?.bind (·.get? id)

theorem cached?_step {users : Table Int User} (h : w.sources.front? = some users) (x : Step) (id : Int) :
    (w.step x).cached? id = ((w.written? x).filter (·.id = id)).or (w.cached? id) := by
  rw [cached?, cached?, front?_step h, h]
  cases w.written? x with
  | none => rfl
  | some u =>
    simp only [Option.elim_some, Option.bind_some, Table.get?_insert, Option.filter_some, decide_eq_true_eq]
    split <;> rfl

theorem cached?_run (h : w.sources.front? = some users) (xs : List Step) (id : Int) :
    (w.run xs).cached? id = w.cached? id ∨ ∃ before x after u, xs = before ++ x :: after ∧
      (w.run before).written? x = some u ∧ u.id = id ∧ (w.run xs).cached? id = some u := by
  -- From the end: the last step that writes is the one that counts.
  induction xs using List.reverseRecOn with
  | nil => exact .inl rfl
  | append_singleton xs x ih =>
    obtain ⟨users', hfront⟩ := front?_run h xs
    have hstep := cached?_step hfront x id
    have hrun : w.run (xs ++ [x]) = (w.run xs).step x := run_append w xs [x]
    rw [hrun, hstep]
    cases hw : ((w.run xs).written? x).filter (·.id = id) with
    | some u =>
      obtain ⟨hu, hid⟩ := Option.filter_eq_some_iff.mp hw
      exact .inr ⟨xs, x, [], u, rfl, hu, of_decide_eq_true hid, rfl⟩
    | none =>
      rcases ih with ih | ⟨before, y, after, u, rfl, hu, hid, hheld⟩
      · exact .inl ih
      · exact .inr ⟨before, y, after ++ [x], u, by simp, hu, hid, hheld⟩

theorem held_run (h : w.sources.front? = some users) {id : Int} (hheld : w.cached? id ≠ none)
    (xs : List Step) : (w.run xs).cached? id ≠ none := by
  rcases cached?_run h xs id with hsame | ⟨before, x, after, u, -, -, -, hu⟩
  · rw [hsame]
    exact hheld
  · rw [hu]
    exact Option.some_ne_none u

def Late (w : Lookups) (i : Nat) (id : Int) : Prop := ∃ l, w.calls.get? i = some l ∧ l.Late id

theorem late_of_next {s : Sources} (hfront : s.front? = some users) {k id : Int} {u : User} {n : Nat}
    {last : Fault} (hheld : users.get? k = some u) (h : (Lookup.next s id n last).2.Late k) :
    id = k ∧ 0 < n := by
  obtain ⟨others, hchain⟩ := Sources.front?_eq_some.mp hfront
  unfold Lookup.next at h
  cases hx : s.chain[n]? with
  | none =>
    simp only [hx] at h
    exact absurd h.2 List.not_mem_nil
  | some x =>
    simp only [hx, Lookup.after] at h
    split at h
    · exact ⟨h.1, List.mem_range.mp h.2⟩
    · rename_i f hf
      split at h
      · exact absurd h.2 List.not_mem_nil
      · refine ⟨h.1, Nat.pos_of_ne_zero ?_⟩
        rintro rfl
        obtain rfl : .cache users = x := by simpa [hchain] using hx
        rw [h.1, Source.answer, hheld] at hf
        cases hf

theorem Late.of_step {k : Int} {u : User} (hfront : w.sources.front? = some users)
    (hheld : users.get? k = some u) {x : Step} {i : Nat} (h : (w.step x).Late i k) : w.Late i k := by
  obtain ⟨l, hl, hlate⟩ := h
  -- Only the call that takes the step has to be looked at.
  have hinsert {j : Nat} {new : Lookup} (h : (w.calls.insert j new).get? i = some l)
      (hnew : new.Late k → w.Late j k) : w.Late i k := by
    rw [Table.get?_insert] at h
    split at h
    · rename_i hj
      cases h
      exact hj ▸ hnew hlate
    · exact ⟨l, h, hlate⟩
  cases x with
  | call j id =>
    simp only [step] at hl
    split at hl
    · exact ⟨l, hl, hlate⟩
    · exact hinsert hl fun hnew => absurd hnew.2 (Nat.lt_irrefl 0)
  | ask j =>
    simp only [step] at hl
    split at hl
    · rename_i id n last hcall
      exact hinsert hl fun hnew => ⟨_, hcall, late_of_next hfront hheld hnew⟩
    · exact ⟨l, hl, hlate⟩
  | repair j place now =>
    simp only [step] at hl
    cases hcall : w.calls.get? j with
    | none =>
      rw [hcall] at hl
      exact ⟨l, hl, hlate⟩
    | some l' =>
      simp only [hcall] at hl
      cases howed : l'.owed? place with
      | none =>
        rw [howed] at hl
        exact ⟨l, hl, hlate⟩
      | some v =>
        simp only [howed] at hl
        obtain ⟨id, repairs, rfl, -⟩ := Lookup.owed?_eq_some.mp howed
        exact hinsert hl fun hnew => ⟨_, hcall, hnew.1, List.mem_of_mem_erase hnew.2⟩
  | message text => exact ⟨l, hl, hlate⟩

theorem Late.of_run {k : Int} (hfront : w.sources.front? = some users) (hheld : w.cached? k ≠ none)
    {xs : List Step} {i : Nat} (h : (w.run xs).Late i k) : w.Late i k := by
  induction xs using List.reverseRecOn with
  | nil => exact h
  | append_singleton xs x ih =>
    obtain ⟨users', hfront'⟩ := front?_run hfront xs
    obtain ⟨u, hu⟩ := Option.ne_none_iff_exists'.mp (held_run hfront hheld xs)
    rw [cached?, hfront'] at hu
    rw [run_append] at h
    exact ih (h.of_step hfront' hu)

theorem message_stays_until_written_over (cached : Table Int User) (others : List Source)
    (policy : FallbackPolicy) (patience : Int) (past : List Step) (text : String) :
    let w := run ⟨{ chain := .cache cached :: others, policy, patience }, {}⟩ past
    let w' := w.step (.message text)
    (∀ u, Feed.decode text = .ok u → 0 < u.id →
      (Feed.handle w.sources text).2 = .ok () ∧ w'.cached? u.id = some u ∧
      ∀ later, (w'.run later).cached? u.id = some u ∨
        ∃ before x after v, later = before ++ x :: after ∧ v.id = u.id ∧
          (w'.run later).cached? u.id = some v ∧
          ((∃ text', x = .message text' ∧ Feed.decode text' = .ok v) ∨
            ∃ i now id repairs, x = .repair i 0 now ∧
              (w'.run before).calls.get? i = some (.answered id (.ok v) repairs) ∧
              (id = u.id → w.Late i u.id))) ∧
    ((∀ u, Feed.decode text = .ok u → u.id ≤ 0) →
      (∃ f, (Feed.handle w.sources text).2 = .error f) ∧ w' = w) := by
  intro w w'
  obtain ⟨users, hfront⟩ : ∃ users, w.sources.front? = some users := front?_run rfl past
  refine ⟨?_, ?_⟩
  · intro u hu hid
    obtain ⟨hok, hfront'⟩ := Sources.handle_ok hfront hu hid
    have hheld : w'.cached? u.id = some u := by
      change (Feed.handle w.sources text).1.front?.bind (·.get? u.id) = some u
      rw [hfront']
      exact Table.get?_insert_self ..
    refine ⟨hok, hheld, ?_⟩
    intro later
    rcases cached?_run (w := w') hfront' later u.id with hsame | ⟨before, x, after, v, hlater, hv, hvid, hend⟩
    · exact .inl (hsame.trans hheld)
    · refine .inr ⟨before, x, after, v, hlater, hvid, hend, ?_⟩
      rcases written_cases hv with hmessage | ⟨i, now, id, repairs, hrepair, hcall, hmem⟩
      · exact .inl hmessage
      · refine .inr ⟨i, now, id, repairs, hrepair, hcall, fun hid => ?_⟩
        have hlate : (w'.run before).Late i u.id := ⟨_, hcall, hid, hmem⟩
        exact hlate.of_run (w := w') hfront' (hheld ▸ Option.some_ne_none u)
  · intro h
    obtain ⟨hf, hsame⟩ := w.sources.handle_dropped h
    exact ⟨hf, congrArg (Lookups.mk · w.calls) hsame⟩

def behind : Lookups :=
  ⟨{ chain := [.ofUsers [], .peer ⟨"directory", [.ok ⟨7, "Ada", "Byron", ""⟩], false, .refused⟩]
     patience := 5000 }, {}⟩

def renamed : Step := .message "[7,\"Ada\",\"King\",\"\"]"

/-- The message is undone by a look-up that was on its way, and by a later one of another user that
the directory answers with the wrong profile. -/
theorem message_undone_by_a_repair :
    let w := behind.run [.call 0 7, .ask 0, .ask 0, renamed]
    let w' := behind.run [renamed, .call 0 8, .ask 0, .ask 0]
    (w.cached? 7, (w.step (.repair 0 0 0)).cached? 7) =
        (some ⟨7, "Ada", "King", ""⟩, some ⟨7, "Ada", "Byron", ""⟩) ∧
      (w'.cached? 7, (w'.step (.repair 0 0 0)).cached? 7) =
        (some ⟨7, "Ada", "King", ""⟩, some ⟨7, "Ada", "Byron", ""⟩) := by
  decide +kernel

end Lookups

end LiveComments
