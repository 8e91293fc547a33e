import LiveComments.Proofs.Archive.Server
import LiveComments.Proofs.Archive.Stored
import LiveComments.Proofs.Comment.Paging
import LiveComments.Proofs.User.Source

/-!
The store in memory and the archive answer alike, call by call, whatever server keeps the documents of
the archive, as long as it does what it promises.
-/

namespace LiveComments.Archive

variable {σ : Type}

/-! ### Calls on either store -/

inductive Call where
  | get (id : String)
  | list (post : String) (number size : Int) (key : SortKey) (order : SortOrder)
  | create (c : Comment) (fresh : String)
  | update (c : Comment)
  | delete (id : String)
  | getUser (id : Int)
  | saveUser (u : User)

inductive Answer where
  | comment (c : Comment)
  | page (cs : List Comment) (summary : PageSummary)
  | user (u : User)
  | done

abbrev Outcome := Except Fault Answer

structure Memory where
  store : CommentStore := {}
  users : Source := .cache {}

def Memory.call (m : Memory) : Call → Outcome × Memory
  | .get id => ((m.store.get id).map .comment, m)
  | .list post number size key order =>
    ((m.store.listing post (.normalized number size key order)).map fun a => .page a.1 a.2, m)
  | .create c fresh =>
    let (store, c) := m.store.create c fresh
    (.ok (.comment c), { m with store })
  | .update c =>
    match m.store.update c with
    | .ok store => (.ok (.comment c), { m with store })
    | .error f => (.error f, m)
  | .delete id =>
    match m.store.delete id with
    | .ok store => (.ok .done, { m with store })
    | .error f => (.error f, m)
  | .getUser id => ((m.users.answer id).map .user, m)
  | .saveUser u =>
    let (users, saved) := m.users.save u
    (saved.map fun _ => .done, { m with users })

def told {α : Type} (f : α → Answer) (p : Except Fault α × σ) : Outcome × σ := (p.1.map f, p.2)

def call (server : σ → Query → Reply × σ) (s : σ) : Call → Outcome × σ
  | .get id => told .comment ((get id).runOn server s)
  | .list post number size key order =>
    told (fun a => .page a.1 a.2) ((list post (.normalized number size key order)).runOn server s)
  | .create c fresh => told .comment ((create c fresh).runOn server s)
  | .update c => told .comment ((update c).runOn server s)
  | .delete id => told (fun _ => .done) ((delete id).runOn server s)
  | .getUser id => told .user ((getUser id).runOn server s)
  | .saveUser u => told (fun _ => .done) ((saveUser u).runOn server s)

def answers {τ : Type} (call : τ → Call → Outcome × τ) : τ → List Call → List Outcome
  | _, [] => []
  | s, x :: xs => (call s x).1 :: answers call (call s x).2 xs

def after {τ : Type} (call : τ → Call → Outcome × τ) (s : τ) (xs : List Call) : τ :=
  xs.foldl (fun s x => (call s x).2) s

def worded : Fault → Fault
  | .invalidId id => .invalidId s!"{Text.quoted id} is not a valid comment id"
  | f => f

/-! ### What the calls are about -/

def Call.Plain : Call → Prop
  | .get id | .delete id => Text.SmallId id
  | .create c _ => c.Kept
  | .update c => Text.SmallId c.id ∧ c.updatedAt.Kept
  | .list .. | .getUser _ | .saveUser _ => True

def Call.fresh? : Call → Option String
  | .create _ fresh => some fresh
  | _ => none

/-- No two comments that are listed have one time in the order asked for. -/
def Call.Distinct (m : Memory) : Call → Prop
  | .list post _ _ key _ => (m.store.ofPost post).Pairwise fun a b =>
      CommentStore.sortTime key a ≠ CommentStore.sortTime key b
  | _ => True

/-! ### The two stores side by side -/

def writeUser (id : Int) (u : User) : Document := ofUser { u with id }

theorem picks_comment : Picks ofComment byId := fun id c hex => ofComment_fits_byId id hex c

theorem picks_user : Picks writeUser fun id => [("_id", .int id)] :=
  fun id u id' => ofUser_fits { u with id } id'

structure Mirrors (m : Memory) (docs : Collections) : Prop where
  sound : m.store.Sound
  kept : ∀ id c, m.store.comments.get? id = some c → c.Kept
  held : docs comments = written ofComment m.store.comments
  people : ∃ t, m.users = .cache t ∧ t.Unique ∧ (Source.cache t).Keyed ∧
    docs users = written writeUser t

theorem mirrors_start {docs : Collections} (h : ∀ c, docs c = 0) : Mirrors {} docs := by
  refine ⟨CommentStore.sound_default, ?_, h comments, {}, rfl, Table.unique_default, ?_, h users⟩
  · intro id c hc
    cases hc
  · intro id u hu
    cases hu

theorem Mirrors.stored {m : Memory} {docs : Collections} (h : Mirrors m docs) {store : CommentStore}
    (hsound : store.Sound) (hkept : ∀ id c, store.comments.get? id = some c → c.Kept) :
    Mirrors { m with store } (Function.update docs comments (written ofComment store.comments)) := by
  refine ⟨hsound, hkept, Function.update_self .., ?_⟩
  rw [Function.update_of_ne (by decide)]
  exact h.people

theorem Mirrors.put {m : Memory} {docs : Collections} (h : Mirrors m docs) {c : Comment} (hc : c.Kept)
    (writes : Nat) : Mirrors { m with store := ⟨m.store.comments.insert c.id c, writes⟩ }
      (Function.update docs comments
        (ofComment c.id c ::ₘ written ofComment (m.store.comments.erase c.id))) := by
  rw [← written_insert ofComment h.sound.unique]
  apply h.stored (h.sound.insert c writes)
  intro id d hd
  exact Table.forall_insert h.kept hc hd

theorem Mirrors.removed {m : Memory} {docs : Collections} (h : Mirrors m docs) (id : String)
    (writes : Nat) : Mirrors { m with store := ⟨m.store.comments.erase id, writes⟩ }
      (Function.update docs comments (written ofComment (m.store.comments.erase id))) := by
  apply h.stored (h.sound.erase id writes)
  intro id d hd
  exact Table.forall_erase h.kept hd

theorem Mirrors.saved {m : Memory} {docs : Collections} (h : Mirrors m docs) {t : Table Int User}
    (ht : t.Unique) (hkeyed : (Source.cache t).Keyed) : Mirrors { m with users := .cache t }
      (Function.update docs users (written writeUser t)) := by
  refine ⟨h.sound, h.kept, ?_, t, rfl, ht, hkeyed, Function.update_self ..⟩
  rw [Function.update_of_ne (by decide)]
  exact h.held

variable {server : σ → Query → Reply × σ} {docs : σ → Collections} {m : Memory} {s : σ}

def Alike (server : σ → Query → Reply × σ) (docs : σ → Collections) (m : Memory) (s : σ) (x : Call) :
    Prop :=
  (call server s x).1 = (m.call x).1.mapError worded ∧
    Mirrors (m.call x).2 (docs (call server s x).2)

theorem runOn_ask {α : Type} (q : Query) (next : Reply → Exchange α) :
    (Exchange.ask q next).runOn server s = (next (server s q).1).runOn server (server s q).2 := rfl

theorem withId_unnamed {α : Type} {id : String} (hid : Text.isObjectId id = false)
    (next : String → Exchange (Except Fault α)) :
    withId id next = .done (.error (worded (.invalidId id))) := by
  rw [withId, checkId, Text.objectId?, if_neg (by simp [hid])]
  rfl

theorem withId_named {α : Type} {id : String} (hsmall : Text.SmallId id)
    (hid : Text.isObjectId id = true) (next : String → Exchange (Except Fault α)) :
    withId id next = next id := by
  rw [withId, checkId, Text.objectId?_of_small hsmall, if_pos hid]

theorem alike_of_query {x : Call} {q : Query} {read : Reply → Outcome} {r : Reply} {docs' : Collections}
    {answer : Outcome} {m' : Memory} (hcall : call server s x = (read (server s q).1, (server s q).2))
    (hserved : (server s q).1 = r ∧ docs (server s q).2 = docs') (hmemory : m.call x = (answer, m'))
    (hanswer : read r = answer.mapError worded) (hafter : Mirrors m' docs') :
    Alike server docs m s x := by
  obtain ⟨hreply, hdocs⟩ := hserved
  rw [Alike, hcall, hmemory, hreply, hdocs]
  exact ⟨hanswer, hafter⟩

theorem Mirrors.alike_get (hserver : Ideal server docs) (h : Mirrors m (docs s)) {id : String}
    (hsmall : Text.SmallId id) : Alike server docs m s (.get id) := by
  cases hid : Text.isObjectId id with
  | false =>
    simp only [Alike, call, get, withId_unnamed hid, Memory.call, CommentStore.get_unnamed _ hid]
    exact ⟨rfl, h⟩
  | true =>
    let read (r : Reply) : Outcome := (single "get_comment" .commentNotFound comment? r).map .comment
    let q : Query := .findOne comments (byId id)
    have hcall : call server s (.get id) = (read (server s q).1, (server s q).2) := by
      rw [call, get, withId_named hsmall hid]
      rfl
    have hserved := Served.findOne_picked picks_comment h.sound.unique h.held (hserver s q (.findOne rfl))
    cases hget : m.store.comments.get? id with
    | none =>
      have hmemory : m.call (.get id) = (.error .commentNotFound, m) := by
        rw [Memory.call, CommentStore.get_absent hid hget]
        rfl
      rw [hget] at hserved
      exact alike_of_query hcall hserved hmemory rfl h
    | some c =>
      have hmemory : m.call (.get id) = (.ok (.comment c), m) := by
        rw [Memory.call, CommentStore.get_present hid hget]
        rfl
      have hanswer : read (.documents [ofComment id c]) = .ok (.comment c) := by
        simp only [read, single]
        rw [comment?_ofComment (h.kept id c hget), ← h.sound.keyed id c hget]
        rfl
      rw [hget] at hserved
      exact alike_of_query hcall hserved hmemory hanswer h

theorem Mirrors.alike_create (hserver : Ideal server docs) (h : Mirrors m (docs s)) {c : Comment}
    (hc : c.Kept) {fresh : String} (hfresh : m.store.comments.get? fresh = none) :
    Alike server docs m s (.create c fresh) := by
  let read (r : Reply) : Outcome :=
    ((acknowledged "create_comment" (comment? (ofComment fresh c)) r).bind
      fun stored => stored.elim (failure "create_comment") .ok).map .comment
  let q : Query := .insert comments (ofComment fresh c)
  have hnew : ∀ d ∈ docs s comments, d.sameId (ofComment fresh c) = false := by
    intro d hd
    rw [h.held] at hd
    obtain ⟨⟨id, old⟩, hentry, rfl⟩ := List.mem_map.mp (Multiset.mem_coe.mp hd)
    obtain ⟨v, hv⟩ := Table.exists_get?_of_mem hentry
    rw [ofComment_sameId]
    apply decide_eq_false
    rintro rfl
    rw [hfresh] at hv
    cases hv
  have hanswer : read (.number 1) = .ok (.comment { c with id := fresh }) := by
    simp only [read, acknowledged]
    rw [comment?_ofComment hc]
    rfl
  have hput := h.put (c := { c with id := fresh }) ⟨hc.created, hc.updated⟩ (m.store.writes + 1)
  dsimp only at hput
  rw [Table.erase_of_absent hfresh, ← h.held] at hput
  have hcall : call server s (.create c fresh) = (read (server s q).1, (server s q).2) := rfl
  have hserved := Served.insert_new hnew (hserver s q (.insert rfl))
  exact alike_of_query hcall hserved rfl hanswer hput

theorem Mirrors.alike_update (hserver : Ideal server docs) (h : Mirrors m (docs s)) {c : Comment}
    (hsmall : Text.SmallId c.id) (hc : c.updatedAt.Kept) : Alike server docs m s (.update c) := by
  cases hid : Text.isObjectId c.id with
  | false =>
    simp only [Alike, call, update, withId_unnamed hid, Memory.call, CommentStore.update,
      CommentStore.get_unnamed _ hid]
    exact ⟨rfl, h⟩
  | true =>
    let read (r : Reply) : Outcome := (affected "update_comment" c r).map .comment
    let q : Query := .update comments (byId c.id)
      [("body", .text c.body), ("updated_at", .time c.updatedAt.millis)]
    have hcall : call server s (.update c) = (read (server s q).1, (server s q).2) := by
      rw [call, update, withId_named hsmall hid]
      rfl
    have hkeys : ["_id", "body", "updated_at"].Nodup := by decide
    obtain ⟨hget, hserved⟩ | ⟨old, hget, hserved⟩ := Served.update_picked picks_comment
      h.sound.unique h.held (changed_present c.id) (hserver s q (.update rfl rfl hkeys))
    · have hmemory : m.call (.update c) = (.error .commentNotFound, m) := by
        rw [Memory.call, CommentStore.update, CommentStore.get_absent hid hget]
        rfl
      exact alike_of_query hcall hserved hmemory rfl h
    · let new : Comment := { old with body := c.body, updatedAt := c.updatedAt }
      have hmemory : m.call (.update c) =
          (.ok (.comment c), { m with store := ⟨m.store.comments.insert c.id new, m.store.writes + 1⟩ }) := by
        rw [Memory.call, CommentStore.update, CommentStore.get_present hid hget]
        rfl
      have hnew : new.Kept := ⟨(h.kept c.id old hget).created, hc⟩
      have hput := h.put hnew (m.store.writes + 1)
      rw [show new.id = c.id from h.sound.keyed c.id old hget] at hput
      rw [set_ofComment] at hserved
      exact alike_of_query hcall hserved hmemory rfl hput

theorem Mirrors.alike_delete (hserver : Ideal server docs) (h : Mirrors m (docs s)) {id : String}
    (hsmall : Text.SmallId id) : Alike server docs m s (.delete id) := by
  cases hid : Text.isObjectId id with
  | false =>
    simp only [Alike, call, delete, withId_unnamed hid, Memory.call, CommentStore.delete,
      CommentStore.get_unnamed _ hid]
    exact ⟨rfl, h⟩
  | true =>
    let read (r : Reply) : Outcome := (affected "delete_comment" () r).map fun _ => .done
    let q : Query := .delete comments (byId id)
    have hcall : call server s (.delete id) = (read (server s q).1, (server s q).2) := by
      rw [call, delete, withId_named hsmall hid]
      rfl
    obtain ⟨hget, hserved⟩ | ⟨old, hget, hserved⟩ := Served.delete_picked picks_comment
      h.sound.unique h.held (hserver s q (.delete rfl))
    · have hmemory : m.call (.delete id) = (.error .commentNotFound, m) := by
        rw [Memory.call, CommentStore.delete, CommentStore.get_absent hid hget]
        rfl
      exact alike_of_query hcall hserved hmemory rfl h
    · have hmemory : m.call (.delete id) =
          (.ok .done, { m with store := ⟨m.store.comments.erase id, m.store.writes + 1⟩ }) := by
        rw [Memory.call, CommentStore.delete, CommentStore.get_present hid hget]
        rfl
      exact alike_of_query hcall hserved hmemory rfl (h.removed id _)

theorem Mirrors.alike_getUser (hserver : Ideal server docs) (h : Mirrors m (docs s)) (id : Int) :
    Alike server docs m s (.getUser id) := by
  obtain ⟨t, hcache, ht, hkeyed, hpeople⟩ := h.people
  let read (r : Reply) : Outcome := (single "get_user_by_id" .userNotFound user? r).map .user
  let q : Query := .findOne users [("_id", .int id)]
  have hcall : call server s (.getUser id) = (read (server s q).1, (server s q).2) := rfl
  have hserved := Served.findOne_picked (k := id) picks_user ht hpeople (hserver s q (.findOne rfl))
  cases hget : t.get? id with
  | none =>
    have hmemory : m.call (.getUser id) = (.error .userNotFound, m) := by
      simp only [Memory.call, hcache, Source.answer, hget, Except.map]
    rw [hget] at hserved
    exact alike_of_query hcall hserved hmemory rfl h
  | some u =>
    have hmemory : m.call (.getUser id) = (.ok (.user u), m) := by
      simp only [Memory.call, hcache, Source.answer, hget, Except.map]
    obtain rfl : u.id = id := hkeyed id u hget
    have hanswer : read (.documents [writeUser u.id u]) = .ok (.user u) := by
      simp only [read, single, writeUser]
      rw [user?_ofUser]
      rfl
    rw [hget] at hserved
    exact alike_of_query hcall hserved hmemory hanswer h

theorem Mirrors.alike_saveUser (hserver : Ideal server docs) (h : Mirrors m (docs s)) (u : User) :
    Alike server docs m s (.saveUser u) := by
  obtain ⟨t, hcache, ht, hkeyed, hpeople⟩ := h.people
  let read (r : Reply) : Outcome := (acknowledged "save_user" () r).map fun _ => .done
  let q : Query := .replace users [("_id", .int u.id)] (ofUser u)
  have hcall : call server s (.saveUser u) = (read (server s q).1, (server s q).2) := rfl
  obtain ⟨hreply, hdocs⟩ := Served.replace_picked (k := u.id) picks_user ht hpeople
    (hserver s q (.replace rfl))
  have hmemory : m.call (.saveUser u) = (.ok .done, { m with users := .cache (t.insert u.id u) }) := by
    rw [Memory.call, hcache]
    rfl
  have hsaved := h.saved (ht.insert u.id u) (Source.Keyed.save (x := .cache t) hkeyed u)
  rw [written_insert writeUser ht] at hsaved
  rcases hreply with hreply | hreply
  · exact alike_of_query hcall ⟨hreply, hdocs⟩ hmemory rfl hsaved
  · exact alike_of_query hcall ⟨hreply, hdocs⟩ hmemory rfl hsaved

theorem Mirrors.held_eq {docs : Collections} (h : Mirrors m docs) :
    docs comments = (m.store.comments.values.map document : List Document) := by
  rw [h.held, written, Table.values, List.map_map]
  congr 1
  apply List.map_congr_left
  rintro ⟨id, c⟩ hentry
  have hid : c.id = id := h.sound.keyed id c (h.sound.unique.get?_eq_some.mpr hentry)
  subst hid
  rfl

theorem Mirrors.held_ofPost {docs : Collections} (h : Mirrors m docs) (post : String) :
    (docs comments).filter (·.fits (ofPost post) = true) =
      ((m.store.ofPost post).map document : List Document) := by
  rw [h.held_eq, Multiset.filter_coe, List.filter_map, CommentStore.ofPost]
  congr 3
  funext c
  rw [Function.comp_apply, document, ofComment_fits_ofPost]
  simp [eq_comm]

theorem Mirrors.runOn_list (hserver : Ideal server docs) (h : Mirrors m (docs s)) {post : String}
    {p : Page} (hnumber : 1 ≤ p.number) (hsize : 1 ≤ p.size)
    (hdistinct : (m.store.ofPost post).Pairwise fun a b =>
      CommentStore.sortTime p.key a ≠ CommentStore.sortTime p.key b) :
    ((list post p).runOn server s).1 = m.store.listing post p ∧
      docs ((list post p).runOn server s).2 = docs s := by
  let q : Query := .count comments (ofPost post)
  let q' : Query := .findPage comments (ofPost post) [(p.key.field, .int p.order.sign)] p.offset p.limit
  let s' := (server s q).2
  obtain ⟨hcount, hcounted⟩ : (server s q).1 = _ ∧ docs s' = docs s :=
    Served.count_eq (hserver s q (.count rfl))
  have hproper : q'.Proper := by
    refine .findPage rfl ?_ p.order.sign_cases (Page.offset_bounds hnumber hsize).1 ?_
    · cases p.key <;> rfl
    · change 0 < p.size
      omega
  obtain ⟨hpaged, all, hpage, hall, hsorted⟩ := Served.page_eq (hserver s' q' hproper)
  rw [hcounted, h.held_ofPost] at hall
  rw [h.held_ofPost, Multiset.coe_card, List.length_map] at hcount
  have hkept : ∀ c ∈ m.store.ofPost post, c.Kept := fun c hc => h.kept c.id c (h.sound.mem_ofPost hc)
  obtain rfl := eq_ordered (p := p) hkept hdistinct (Multiset.coe_eq_coe.mp hall) hsorted
  have hread : ∀ c ∈ (m.store.list post p).1, c.Kept := by
    intro c hc
    have hordered := List.mem_of_mem_drop (List.mem_of_mem_take hc)
    exact hkept c ((CommentStore.ordered_perm p _).mem_iff.mp hordered)
  rw [← List.map_drop, ← List.map_take] at hpage
  obtain ⟨summary, hsummary⟩ := PageSummary.exists_of? (m.store.ofPost post).length p.number hsize
  have hrun : (list post p).runOn server s = (.ok ((m.store.list post p).1, summary), (server s' q').2) := by
    rw [list, runOn_ask, hcount]
    dsimp only
    rw [if_neg (by omega), runOn_ask, hpage]
    dsimp only
    have hmap := mapM_document hread
    simp only [CommentStore.list] at hmap
    rw [hmap, hsummary]
    rfl
  rw [hrun, CommentStore.listing_of_summary hsummary]
  exact ⟨rfl, hpaged.trans hcounted⟩

theorem Mirrors.alike_list (hserver : Ideal server docs) (h : Mirrors m (docs s)) {post : String}
    {number size : Int} {key : SortKey} {order : SortOrder}
    (hdistinct : (Call.list post number size key order).Distinct m) :
    Alike server docs m s (.list post number size key order) := by
  obtain ⟨hrun, hdocs⟩ := h.runOn_list hserver (Page.one_le_number number size key order)
    (Page.one_le_size number size key order) hdistinct
  obtain ⟨summary, hsummary⟩ := PageSummary.exists_of? (m.store.ofPost post).length
    (Page.normalized number size key order).number (Page.one_le_size number size key order)
  simp only [Alike, call, told, Memory.call]
  rw [hrun, hdocs, CommentStore.listing_of_summary hsummary]
  exact ⟨rfl, h⟩

theorem Mirrors.alike (hserver : Ideal server docs) (h : Mirrors m (docs s)) {x : Call}
    (hplain : x.Plain) (hnew : ∀ id, x.fresh? = some id → m.store.comments.get? id = none)
    (hdistinct : x.Distinct m) : Alike server docs m s x := by
  cases x with
  | get id => exact h.alike_get hserver hplain
  | list post number size key order => exact h.alike_list hserver hdistinct
  | create c fresh => exact h.alike_create hserver hplain (hnew fresh rfl)
  | update c => exact h.alike_update hserver hplain.1 hplain.2
  | delete id => exact h.alike_delete hserver hplain
  | getUser id => exact h.alike_getUser hserver id
  | saveUser u => exact h.alike_saveUser hserver u

/-! ### One call after another -/

theorem Memory.call_absent {id : String} (h : m.store.comments.get? id = none) {x : Call}
    (hx : x.fresh? ≠ some id) : (m.call x).2.store.comments.get? id = none := by
  cases x with
  | get id' => exact h
  | list post number size key order => exact h
  | getUser id' => exact h
  | saveUser u => exact h
  | create c fresh =>
    have hne : fresh ≠ id := fun he => hx (congrArg some he)
    exact (Table.get?_insert _ _ _ _).trans ((if_neg hne).trans h)
  | update c =>
    rw [Memory.call]
    cases hupdate : m.store.update c with
    | error f => exact h
    | ok store =>
      obtain ⟨old, hold, rfl⟩ := CommentStore.update_ok hupdate
      have hne : c.id ≠ id := by
        rintro rfl
        rw [h] at hold
        cases hold
      exact (Table.get?_insert _ _ _ _).trans ((if_neg hne).trans h)
  | delete id' =>
    rw [Memory.call]
    cases hdelete : m.store.delete id' with
    | error f => exact h
    | ok store =>
      obtain ⟨old, -, rfl⟩ := CommentStore.delete_ok hdelete
      rw [Table.get?_erase, h, ite_self]

structure Allowed (m : Memory) (calls : List Call) : Prop where
  plain : ∀ x ∈ calls, x.Plain
  drawn : (calls.filterMap Call.fresh?).Nodup
  unused : ∀ id ∈ calls.filterMap Call.fresh?, m.store.comments.get? id = none
  distinct : ∀ past x later, calls = past ++ x :: later → x.Distinct (after Memory.call m past)

theorem Allowed.new {x : Call} {calls : List Call} (h : Allowed m (x :: calls)) {id : String}
    (hx : x.fresh? = some id) : m.store.comments.get? id = none ∧ id ∉ calls.filterMap Call.fresh? := by
  have hdrawn := h.drawn
  rw [List.filterMap_cons_some hx] at hdrawn
  refine ⟨h.unused id ?_, (List.nodup_cons.mp hdrawn).1⟩
  rw [List.filterMap_cons_some hx]
  exact List.mem_cons_self

theorem Allowed.tail {x : Call} {calls : List Call} (h : Allowed m (x :: calls)) :
    Allowed (m.call x).2 calls := by
  have hsub : (calls.filterMap Call.fresh?).Sublist ((x :: calls).filterMap Call.fresh?) :=
    (List.sublist_cons_self x calls).filterMap _
  constructor
  · intro y hy
    exact h.plain y (List.mem_cons_of_mem x hy)
  · exact h.drawn.sublist hsub
  · intro id hid
    exact Memory.call_absent (h.unused id (hsub.subset hid)) fun hx => (h.new hx).2 hid
  · rintro past y later rfl
    exact h.distinct (x :: past) y later rfl

theorem Allowed.before {past later : List Call} (h : Allowed m (past ++ later)) : Allowed m past := by
  have hsub : (past.filterMap Call.fresh?).Sublist ((past ++ later).filterMap Call.fresh?) :=
    (List.sublist_append_left past later).filterMap _
  constructor
  · intro x hx
    exact h.plain x (List.mem_append_left later hx)
  · exact h.drawn.sublist hsub
  · intro id hid
    exact h.unused id (hsub.subset hid)
  · rintro before x rest rfl
    exact h.distinct before x (rest ++ later) (List.append_assoc _ _ _)

theorem Mirrors.run (hserver : Ideal server docs) (h : Mirrors m (docs s)) {calls : List Call}
    (ha : Allowed m calls) :
    answers (call server) s calls = (answers Memory.call m calls).map (·.mapError worded) ∧
      Mirrors (after Memory.call m calls) (docs (after (call server) s calls)) := by
  induction calls generalizing m s with
  | nil => exact ⟨rfl, h⟩
  | cons x calls ih =>
    have hplain := ha.plain x List.mem_cons_self
    obtain ⟨hanswer, hnext⟩ := h.alike hserver hplain (fun id hx => (ha.new hx).1)
      (ha.distinct [] x calls rfl)
    obtain ⟨hanswers, hafter⟩ := ih hnext ha.tail
    refine ⟨?_, hafter⟩
    rw [answers, answers, List.map_cons, hanswer, hanswers]

/-- A stored comment takes the body and the time of the change from the comment that it is updated
with, while that comment is answered as it was given. -/
def UpdatesInPart {τ : Type} (call : τ → Call → Outcome × τ) (s : τ) (c old : Comment) : Prop :=
  (call s (.update c)).1 = .ok (.comment c) ∧ (call (call s (.update c)).2 (.get c.id)).1 =
    .ok (.comment { old with body := c.body, updatedAt := c.updatedAt })

theorem Memory.updatesInPart {c old : Comment} (h : m.store.get c.id = .ok old) :
    UpdatesInPart Memory.call m c old := by
  have hid : Text.isObjectId c.id = true := by
    by_contra hid
    rw [CommentStore.get_unnamed _ (by simpa using hid)] at h
    cases h
  let new : Comment := { old with body := c.body, updatedAt := c.updatedAt }
  have hupdate : m.store.update c = .ok ⟨m.store.comments.insert c.id new, m.store.writes + 1⟩ := by
    rw [CommentStore.update, h]
    rfl
  have hget : CommentStore.get ⟨m.store.comments.insert c.id new, m.store.writes + 1⟩ c.id = .ok new :=
    CommentStore.get_present hid (Table.get?_insert_self _ _ _)
  simp only [UpdatesInPart, Memory.call, hupdate, hget]
  exact ⟨trivial, rfl⟩

theorem Mirrors.updatesInPart (hserver : Ideal server docs) (h : Mirrors m (docs s)) {c old : Comment}
    (hplain : (Call.update c).Plain) (hm : UpdatesInPart Memory.call m c old) :
    UpdatesInPart (call server) s c old := by
  obtain ⟨hanswer, hnext⟩ := h.alike_update hserver hplain.1 hplain.2
  obtain ⟨hread, -⟩ := hnext.alike_get hserver hplain.1
  rw [UpdatesInPart, hanswer, hread, hm.1, hm.2]
  exact ⟨rfl, rfl⟩

theorem stores_answer_alike (server : σ → Query → Reply × σ) (docs : σ → Collections)
    (hserver : Ideal server docs) (s : σ) (hempty : ∀ c, docs s c = 0) (calls : List Call)
    (hplain : ∀ x ∈ calls, x.Plain) (hdrawn : (calls.filterMap Call.fresh?).Nodup)
    (hdistinct : ∀ past x later, calls = past ++ x :: later → x.Distinct (after Memory.call {} past)) :
    answers (call server) s calls = (answers Memory.call {} calls).map (·.mapError worded) ∧
      ∀ past c later old, calls = past ++ .update c :: later →
        (after Memory.call {} past).store.get c.id = .ok old →
          UpdatesInPart Memory.call (after Memory.call {} past) c old ∧
            UpdatesInPart (call server) (after (call server) s past) c old := by
  have ha : Allowed {} calls := ⟨hplain, hdrawn, fun _ _ => rfl, hdistinct⟩
  have hstart : Mirrors {} (docs s) := mirrors_start hempty
  refine ⟨(hstart.run hserver ha).1, ?_⟩
  rintro past c later old rfl hold
  have hmemory := Memory.updatesInPart hold
  have hafter := (hstart.run hserver ha.before).2
  refine ⟨hmemory, hafter.updatesInPart hserver (hplain _ ?_) hmemory⟩
  exact List.mem_append_right past List.mem_cons_self

def greeting (id : String) (ms : Int) : Comment :=
  ⟨id, "P", ⟨7, "Ada", "Lovelace", ""⟩, "hi", .ofMillis ms, .ofMillis ms⟩

def fourCalls : List Call :=
  [.create (greeting "" 5) "65f0c0ffee0000000000abcd", .create (greeting "" 8) "65f0c0ffee0000000000abce",
    .list "P" 1 1 .createdAt .descending, .update (greeting "65f0c0ffee0000000000abcd" 9)]

theorem stores_answer_four_calls_alike :
    let old := greeting "65f0c0ffee0000000000abcd" 5
    let new := greeting "65f0c0ffee0000000000abcd" 9
    answers (call Database.reply) {} fourCalls =
        (answers Memory.call {} fourCalls).map (·.mapError worded) ∧
      UpdatesInPart (call Database.reply) (after (call Database.reply) {} (fourCalls.take 3)) new old := by
  intro old new
  have hkept (id : String) : (greeting id 5).Kept ∧ (greeting id 8).Kept ∧ (greeting id 9).Kept :=
    ⟨⟨⟨rfl, rfl⟩, ⟨rfl, rfl⟩⟩, ⟨⟨rfl, rfl⟩, ⟨rfl, rfl⟩⟩, ⟨⟨rfl, rfl⟩, ⟨rfl, rfl⟩⟩⟩
  have hplain : ∀ x ∈ fourCalls, x.Plain := by
    intro x hx
    simp only [fourCalls, List.mem_cons, List.not_mem_nil, or_false] at hx
    rcases hx with rfl | rfl | rfl | rfl
    · exact (hkept _).1
    · exact (hkept _).2.1
    · exact trivial
    · have hsmall : Text.SmallId "65f0c0ffee0000000000abcd" := by decide +kernel
      exact ⟨hsmall, (hkept _).2.2.updated⟩
  have hdistinct : ∀ past x later, fourCalls = past ++ x :: later →
      x.Distinct (after Memory.call {} past) := by
    intro past x later h
    rcases past with _ | ⟨a, _ | ⟨b, _ | ⟨c, _ | ⟨d, past⟩⟩⟩⟩
    · cases h
      trivial
    · cases h
      trivial
    · cases h
      unfold Call.Distinct
      decide +kernel
    · cases h
      trivial
    · simp [fourCalls] at h
  have hold : (after Memory.call {} (fourCalls.take 3)).store.get new.id = .ok old :=
    CommentStore.get_present (by decide +kernel) (by decide +kernel)
  obtain ⟨hanswers, hupdates⟩ := stores_answer_alike Database.reply Database.holds Database.ideal {}
    (fun _ => rfl) fourCalls hplain (by decide) hdistinct
  exact ⟨hanswers, (hupdates (fourCalls.take 3) new [] old rfl hold).2⟩

end LiveComments.Archive
