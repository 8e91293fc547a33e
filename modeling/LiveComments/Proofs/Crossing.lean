import LiveComments.Proofs.Overlap

namespace LiveComments

namespace Lifecycle

theorem le_nextChange (last now : Stamp) : now.nanos ≤ (nextChange last now).nanos := by
  unfold nextChange
  split
  · exact le_refl _
  · change now.nanos ≤ last.nanos + 1 * 1000000
    omega

end Lifecycle

namespace Overlap

open Lifecycle

variable {o : Overlap}

theorem Sound.stored_edit (ho : o.Sound) {i : Nat} {r : Request} {c d : Comment} {body : String}
    {m : Moment} (hw : o.requests.get? i = some (.waiting r (.edit c body)))
    (hd : (o.step (.store i m)).requests.get? i = some (.answered r (.ok d))) :
    r = .update c.id c.user.id body ∧ ∃ old, o.comment? c.id = some old ∧
      (o.step (.store i m)).comment? c.id =
        some { old with body, updatedAt := nextChange c.updatedAt m.stamp.cutToMillis } := by
  have hr : r = .update c.id c.user.id body := by
    cases ho.requests i _ hw with
    | edit copied => rfl
  refine ⟨hr, ?_⟩
  rcases hs : o.backend.perform ((Pending.edit c body).store m) with ⟨f | x, b⟩
  · rw [step_store_waiting hw hs, Table.get?_insert, if_pos rfl] at hd
    cases hd
  rw [step_store_waiting hw hs]
  cases Mutation.store_ok hs with
  | update done =>
    obtain ⟨old, hold, rfl⟩ := CommentStore.update_ok done
    exact ⟨old, hold, Table.get?_insert_self ..⟩

theorem time_of_a_crossing_change (sources : Sources) (bounds : HistoryBounds)
    (commentIds epochs : Supply) (past : List Step) (i : Nat) (m : Moment) (r : Request)
    (c d : Comment) (body : String) :
    let o := (start sources bounds commentIds epochs).run past
    let o' := o.step (.store i m)
    let now := m.stamp.cutToMillis
    o.requests.get? i = some (.waiting r (.edit c body)) →
    o'.requests.get? i = some (.answered r (.ok d)) →
    r = .update c.id c.user.id body ∧
      ∃ old new, o.comment? c.id = some old ∧ o'.comment? c.id = some new ∧
        new = { old with body, updatedAt := nextChange c.updatedAt now } ∧
        c.updatedAt.nanos < new.updatedAt.nanos ∧
        (old.updatedAt.nanos ≤ c.updatedAt.nanos ∨ old.updatedAt.nanos < now.nanos →
          old.updatedAt.nanos < new.updatedAt.nanos) := by
  intro o o' now hw hd
  have ho : o.Sound := (sound_start sources bounds commentIds epochs).run past
  obtain ⟨hr, old, hold, hnew⟩ := ho.stored_edit hw hd
  have hloaded := nextChange_later c.updatedAt now
  have hclock := le_nextChange c.updatedAt now
  refine ⟨hr, old, _, hold, hnew, rfl, hloaded, ?_⟩
  rintro (h | h)
  · exact Int.lt_of_le_of_lt h hloaded
  · exact Int.lt_of_lt_of_le h hclock

def oneAuthor : Sources := { chain := [.ofUsers [⟨7, "Ada", "Lovelace", ""⟩]], patience := 0 }

def twoLoads : List Step :=
  [.load 0 (.create "p" 7 "a") ⟨0, 0⟩, .store 0 ⟨0, 0⟩,
    .load 1 (.update "000000000000000000000000" 7 "b") ⟨0, 0⟩,
    .load 2 (.update "000000000000000000000000" 7 "c") ⟨0, 0⟩]

def twoLoaded : Overlap := (start oneAuthor ⟨2, 60000⟩ ⟨24, 0⟩ ⟨8, 0⟩).run twoLoads

theorem time_of_the_second_change :
    let c : Comment := ⟨"000000000000000000000000", "p", ⟨7, "Ada", "Lovelace", ""⟩, "a", ⟨0⟩, ⟨0⟩⟩
    let o := twoLoaded.run [.store 1 ⟨21000000, 0⟩]
    let o' := o.step (.store 2 ⟨21000000, 0⟩)
    o.requests.get? 2 = some (.waiting (.update c.id 7 "c") (.edit c "c")) ∧
      ∃ old new, o.comment? c.id = some old ∧ o'.comment? c.id = some new ∧
        c.updatedAt.nanos < new.updatedAt.nanos := by
  intro c o o'
  let d : Comment := { c with body := "c", updatedAt := ⟨21000000000⟩ }
  have hw : o.requests.get? 2 = some (.waiting (.update c.id 7 "c") (.edit c "c")) := rfl
  have hd : o'.requests.get? 2 = some (.answered (.update c.id 7 "c") (.ok d)) := rfl
  let past : List Step := twoLoads ++ [.store 1 ⟨21000000, 0⟩]
  obtain ⟨-, old, new, hold, hnew, -, hlater, -⟩ := time_of_a_crossing_change oneAuthor ⟨2, 60000⟩
    ⟨24, 0⟩ ⟨8, 0⟩ past 2 ⟨21000000, 0⟩ (.update c.id 7 "c") c d "c" hw hd
  exact ⟨hw, old, new, hold, hnew, hlater⟩

def bodyAndTime (o : Overlap) : Option (String × Int) :=
  (o.comment? "000000000000000000000000").map fun c => (c.body, c.updatedAt.nanos)

/-- With the clock at one time the second change is stored with the time of the first, and when the
changes are stored in another order than the clock was read for them, the time goes back. -/
theorem crossing_changes_keep_or_lower_the_time :
    bodyAndTime (twoLoaded.run [.store 1 ⟨21000000, 0⟩]) = some ("b", 21000000000) ∧
      bodyAndTime (twoLoaded.run [.store 1 ⟨21000000, 0⟩, .store 2 ⟨21000000, 0⟩]) =
        some ("c", 21000000000) ∧
      bodyAndTime (twoLoaded.run [.store 2 ⟨22000000, 0⟩]) = some ("c", 22000000000) ∧
      bodyAndTime (twoLoaded.run [.store 2 ⟨22000000, 0⟩, .store 1 ⟨21000000, 0⟩]) =
        some ("b", 21000000000) := by
  decide +kernel

end Overlap

end LiveComments
