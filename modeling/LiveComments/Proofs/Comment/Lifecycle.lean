import LiveComments.Comment.Lifecycle

namespace LiveComments.Lifecycle

theorem nextChange_later (last now : Stamp) : last.nanos < (nextChange last now).nanos := by
  unfold nextChange
  split
  · assumption
  · change last.nanos < last.nanos + 1 * 1000000
    omega

theorem edited_ne (c : Comment) (body : String) (now : Stamp) : edited c body now ≠ c := by
  intro h
  have hlater := nextChange_later c.updatedAt now
  have hsame : nextChange c.updatedAt now = c.updatedAt := congrArg Comment.updatedAt h
  rw [hsame] at hlater
  exact absurd hlater (Int.lt_irrefl _)

end LiveComments.Lifecycle
