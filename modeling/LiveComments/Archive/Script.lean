import LiveComments.Archive.Query

namespace LiveComments.Archive

structure Script where
  documents : List Document := []
  count : Int := 0
  affected : Int := 1
  fail : Option String := none

def Script.reply (s : Script) (q : Query) : Reply :=
  if s.fail = some q.command then .refused else
  match q with
  | .findOne .. | .findPage .. => .documents s.documents
  | .count .. => .number s.count
  | .update .. | .replace .. | .delete .. => .number s.affected
  | .insert .. | .ping => .number 1

end LiveComments.Archive
