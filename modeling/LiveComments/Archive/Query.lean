import LiveComments.Archive.Value

/-!
What is asked of the database server and what it answers. An exchange is a dialogue: it asks, and
what it does next depends on the reply.
-/

namespace LiveComments.Archive

inductive Query where
  | ping
  | findOne (collection : String) (filter : Document)
  | findPage (collection : String) (filter sort : Document) (skip limit : Int)
  | count (collection : String) (filter : Document)
  | insert (collection : String) (document : Document)
  | update (collection : String) (filter fields : Document)
  | replace (collection : String) (filter document : Document)
  | delete (collection : String) (filter : Document)

inductive Reply where
  | refused
  | documents (ds : List Document)
  | number (n : Int)

namespace Query

def command : Query → String
  | ping => "ping"
  | findOne .. | findPage .. => "find"
  | count .. => "aggregate"
  | insert .. => "insert"
  | update .. | replace .. => "update"
  | delete .. => "delete"

def collection : Query → Value
  | ping => .int 1
  | findOne c .. | findPage c .. | count c .. | insert c .. | update c .. | replace c .. |
    delete c .. => .text c

def counting (filter : Document) : List Value :=
  [.document [("$match", .document filter)],
    .document [("$group", .document [("_id", .int 1),
      ("n", .document [("$sum", .int 1)])])]]

def arguments : Query → Document
  | ping => []
  | findOne _ filter => [("filter", .document filter), ("limit", .int 1)]
  | findPage _ filter sort skip limit =>
    [("filter", .document filter), ("sort", .document sort), ("skip", .int skip),
      ("limit", .int limit)]
  | count _ filter => [("pipeline", .list (counting filter))]
  | insert _ document => [("documents", .list [.document document])]
  | update _ filter fields =>
    [("q", .document filter), ("u", .document [("$set", .document fields)])]
  | replace _ filter document =>
    [("q", .document filter), ("u", .document document), ("upsert", .bool true)]
  | delete _ filter => [("q", .document filter), ("limit", .int 1)]

def wire (q : Query) (database : String) : Document :=
  let database := match q with
    | ping => "admin"
    | _ => database
  [("command", .text q.command), ("on", q.collection), ("db", .text database)] ++ q.arguments

end Query

inductive Exchange (α : Type) where
  | done (a : α)
  | ask (q : Query) (next : Reply → Exchange α)

namespace Exchange

def run {α : Type} (server : Query → Reply) : Exchange α → List Query × α
  | .done a => ([], a)
  | .ask q next =>
    let (qs, a) := run server (next (server q))
    (q :: qs, a)

def runOn {σ α : Type} (server : σ → Query → Reply × σ) (s : σ) : Exchange α → α × σ
  | .done a => (a, s)
  | .ask q next =>
    let (r, s) := server s q
    runOn server s (next r)

end Exchange

end LiveComments.Archive
