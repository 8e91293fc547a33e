import LiveComments.Proofs.Overlap

namespace LiveComments

/-- A reading of the clocks at which the nanoseconds of the calendar fit 64 bits. -/
structure Reading where
  moment : Moment
  fits : Text.fitsInt64 moment.stamp.nanos = true

def Stamp.Whole (t : Stamp) : Prop := t.nanos % 1000000 = 0

theorem Reading.whole (t : Reading) : t.moment.stamp.cutToMillis.Whole := by
  rw [Stamp.cutToMillis, if_pos t.fits]
  exact Int.mul_emod_left _ _

namespace Supply

theorem hexValue?_digitChar {d : Nat} (hd : d < 16) :
    (Text.hexValue? (Nat.digitChar d)).isSome = true := by
  interval_cases d <;> rfl

theorem hexValue?_toDigits (n : Nat) :
    ∀ c ∈ Nat.toDigits 16 n, (Text.hexValue? c).isSome = true := by
  induction n using Nat.strongRecOn with
  | ind n ih =>
    intro c hc
    rw [Nat.toDigits_eq_if (by decide)] at hc
    split at hc
    · rename_i hn
      obtain rfl := List.mem_singleton.mp hc
      exact hexValue?_digitChar hn
    · rcases List.mem_append.mp hc with hc | hc
      · exact ih (n / 16) (by omega) c hc
      · obtain rfl := List.mem_singleton.mp hc
        exact hexValue?_digitChar (Nat.mod_lt n (by decide))

theorem isObjectId_name {s : Supply} (hwidth : s.width = 24) (hnext : s.next < 16 ^ 24) :
    Text.isObjectId s.name = true := by
  -- With more digits the name would grow past its width.
  have hlength : (Nat.toDigits 16 s.next).length ≤ 24 :=
    (Nat.length_toDigits_le_iff (by decide) (by decide)).mpr hnext
  have hzero : (Text.hexValue? '0').isSome = true := rfl
  rw [Text.isObjectId, name, String.toList_ofList, hwidth, Bool.and_eq_true, decide_eq_true_eq,
    List.all_eq_true]
  constructor
  · rw [List.length_append, List.length_replicate]
    omega
  · intro c hc
    rcases List.mem_append.mp hc with hc | hc
    · rw [List.eq_of_mem_replicate hc, hzero]
    · exact hexValue?_toDigits s.next c hc

end Supply

theorem CommentStore.Sound.mem_ofPost {s : CommentStore} (hs : s.Sound) {post : String} {c : Comment}
    (hc : c ∈ s.ofPost post) : s.comments.get? c.id = some c := by
  obtain ⟨hvalue, -⟩ := List.mem_filter.mp hc
  obtain ⟨⟨id, d⟩, hentry, rfl⟩ := List.mem_map.mp hvalue
  have hget := hs.unique.get?_eq_some.mpr hentry
  rw [hs.keyed id d hget, hget]

theorem CommentStore.Sound.mem_list {s : CommentStore} (hs : s.Sound) {post : String} {p : Page}
    {c : Comment} (hc : c ∈ (s.list post p).1) : s.comments.get? c.id = some c := by
  have hordered : c ∈ ordered p (s.ofPost post) := List.mem_of_mem_drop (List.mem_of_mem_take hc)
  unfold ordered at hordered
  apply hs.mem_ofPost
  split at hordered
  · exact List.mem_mergeSort.mp hordered
  · exact List.mem_mergeSort.mp (List.mem_reverse.mp hordered)

namespace Backend

open Lifecycle

theorem perform_getComment {b : Backend} (ho : b.storeOutage = none) (id : String) :
    b.perform (getComment id) = (b.store.get id, b) := by
  rw [getComment, bind_of_ok (perform_beforeCall ho .get), perform_bind, perform_get]
  simp only [perform_ofExcept]

theorem listComments_ok {b b' : Backend} {post : String} {p : Page} {cs : List Comment}
    {summary : PageSummary} (h : b.perform (listComments post p) = (.ok (cs, summary), b')) :
    cs = (b.store.list post p).1 := by
  obtain ⟨⟨⟩, -, h⟩ := ofExcept_bind_ok h
  obtain ⟨⟨⟩, b₁, hcall, h⟩ := bind_ok h
  obtain rfl := beforeCall_ok hcall
  obtain ⟨_, b₂, hget, h⟩ := bind_ok h
  cases hget
  rcases hl : b.store.list post p with ⟨ds, total⟩
  simp only [hl] at h
  split at h
  · cases h
    rfl
  · cases h

/-! ### One request -/

inductive Carried (b : Backend) (now : Stamp) : Request → Except Fault Comment → Backend → Prop
  | refused (r : Request) (f : Fault) (sources : Sources) :
      Carried b now r (.error f) { b with sources }
  | inserted (post body : String) (author : Int) (user : User) (sources : Sources) :
      Carried b now (.create post author body)
        (.ok { draft post body user now with id := b.commentIds.name })
        { b with
          sources
          store := (b.store.create (draft post body user now) b.commentIds.name).1
          commentIds := { b.commentIds with next := b.commentIds.next + 1 } }
  | replaced {c : Comment} (body : String) (found : b.store.get c.id = .ok c) :
      Carried b now (.update c.id c.user.id body) (.ok (edited c body now))
        { b with store := ⟨b.store.comments.insert c.id (edited c body now), b.store.writes + 1⟩ }
  | removed {c : Comment} (found : b.store.get c.id = .ok c) :
      Carried b now (.delete c.id c.user.id) (.ok c)
        { b with store := ⟨b.store.comments.erase c.id, b.store.writes + 1⟩ }

structure Working (b : Backend) : Prop extends b.Sound where
  answering : b.storeOutage = none

variable {b b' : Backend}

theorem working_start (sources : Sources) (bounds : HistoryBounds) (commentIds epochs : Supply) :
    (start sources bounds commentIds epochs).Working :=
  ⟨sound_start sources bounds commentIds epochs, rfl⟩

theorem Working.carried_create (hb : b.Working) {post body : String} {author : Int} {m : Moment}
    {answer : Except Fault Comment}
    (h : b.perform ((Request.create post author body).carryOut m) = (answer, b')) :
    Carried b m.stamp.cutToMillis (.create post author body) answer b' := by
  obtain ⟨sources, user, hl⟩ := Overlap.perform_load_create b post body author m
  rw [Request.carryOut_eq] at h
  cases user with
  | error f =>
    rw [bind_of_error hl] at h
    cases h
    exact .refused _ f sources
  | ok user =>
    rw [bind_of_ok hl] at h
    rcases hs : perform { b with sources } ((Pending.insert post body user).store m) with ⟨f | c, b₁⟩
    · obtain rfl := Overlap.store_failed (b := { b with sources }) hb.answering hs
      rw [hs] at h
      cases h
      exact .refused _ f sources
    · rw [hs] at h
      cases h
      cases Mutation.store_ok hs
      exact .inserted post body author user sources

theorem Working.carried_change (hb : b.Working) {r : Request} (hr : r.isChange = true) {m : Moment}
    {answer : Except Fault Comment} (h : b.perform (r.carryOut m) = (answer, b')) :
    Carried b m.stamp.cutToMillis r answer b' := by
  rw [Request.carryOut_eq] at h
  rcases Overlap.refused_or_owned b.store hr with ⟨f, hf⟩ | ⟨id, c, hreads, hid, hc, ha⟩
  · rw [bind_of_error (Overlap.perform_load_refused hb.answering m hf)] at h
    cases h
    exact .refused r f b.sources
  have hcid : c.id = id := hb.store.keyed id c hc
  have hget : b.store.get c.id = .ok c := by
    rw [hcid]
    exact CommentStore.get_present hid hc
  rw [bind_of_ok (Overlap.perform_load_owned hb.answering hreads hid hc ha m)] at h
  rcases hs : b.perform ((r.pending c).store m) with ⟨f | d, b₁⟩
  · have hb' := Overlap.store_failed hb.answering hs
    rw [hs, hb'] at h
    cases h
    exact .refused r f b.sources
  rw [hs] at h
  cases h
  cases r with
  | create post author body => cases hr
  | update id' actor body =>
    simp only [Request.reads] at hreads
    split at hreads
    · cases hreads
    cases hreads
    cases Mutation.store_ok hs with
    | update done =>
      -- Nothing came between the load and the store, so the store's own copy is what was loaded.
      obtain ⟨old, hold, rfl⟩ := CommentStore.update_ok done
      have hsame : old = c := by
        change b.store.comments.get? c.id = some old at hold
        rw [hcid, hc] at hold
        exact (Option.some.inj hold).symm
      subst hsame
      cases ha
      cases hcid
      exact .replaced body hget
  | delete id' actor =>
    cases hreads
    cases Mutation.store_ok hs with
    | delete done =>
      obtain ⟨old, -, rfl⟩ := CommentStore.delete_ok done
      cases ha
      cases hcid
      exact .removed hget

theorem Working.carried (hb : b.Working) {r : Request} {m : Moment} {answer : Except Fault Comment}
    (h : b.perform (r.carryOut m) = (answer, b')) :
    Carried b m.stamp.cutToMillis r answer b' := by
  cases r with
  | create post author body => exact hb.carried_create h
  | update id actor body => exact hb.carried_change rfl h
  | delete id actor => exact hb.carried_change rfl h

theorem Carried.stored {now : Stamp} {r : Request} {d : Comment} (h : Carried b now r (.ok d) b') :
    ∃ sources c request, Mutation.Stored { b with sources } c request d b' := by
  cases h with
  | inserted post body author user sources => exact ⟨sources, _, _, .create⟩
  | @replaced c body found =>
    have done : b.store.update (edited c body now) =
        .ok ⟨b.store.comments.insert c.id (edited c body now), b.store.writes + 1⟩ := by
      have hget : b.store.get (edited c body now).id = .ok c := found
      rw [CommentStore.update, hget]
      rfl
    exact ⟨b.sources, _, _, .update (b := { b with sources := b.sources }) done⟩
  | removed found =>
    have done : b.store.delete d.id = .ok ⟨b.store.comments.erase d.id, b.store.writes + 1⟩ := by
      rw [CommentStore.delete, found]
      rfl
    exact ⟨b.sources, _, _, .delete (b := { b with sources := b.sources }) done⟩

theorem Carried.refused_backend {now : Stamp} {r : Request} {f : Fault}
    (h : Carried b now r (.error f) b') : ∃ sources, b' = { b with sources } := by
  cases h with
  | refused r f sources => exact ⟨sources, rfl⟩

theorem Working.carry (hb : b.Working) {now : Stamp} {r : Request} {answer : Except Fault Comment}
    (h : Carried b now r answer b') : b'.Working := by
  cases answer with
  | error f =>
    obtain ⟨sources, rfl⟩ := h.refused_backend
    exact { hb with }
  | ok d =>
    obtain ⟨sources, c, request, hs⟩ := h.stored
    have hsound : Sound { b with sources } := { hb with }
    exact ⟨hsound.store_step hs, (Overlap.stored_outage hs).trans hb.answering⟩

/-! ### What stays of a comment, and what stays away -/

theorem copied_carried {c : Comment} (hc : Overlap.Copied b c) {now : Stamp} {r : Request}
    {answer : Except Fault Comment} (h : Carried b now r answer b') : Overlap.Copied b' c := by
  cases answer with
  | error f =>
    obtain ⟨sources, rfl⟩ := h.refused_backend
    exact ⟨hc.kept, hc.used⟩
  | ok d =>
    obtain ⟨sources, x, request, hs⟩ := h.stored
    have hcopied : Overlap.Copied { b with sources } c := ⟨hc.kept, hc.used⟩
    exact hcopied.stored hs

structure Gone (b : Backend) (id : String) : Prop where
  absent : b.store.comments.get? id = none
  used : ∀ k, b.commentIds.ahead k ≠ id

theorem Gone.stored {id : String} (hg : Gone b id) {x d : Comment} {request : Event.Request}
    (hs : Mutation.Stored b x request d b') : Gone b' id := by
  have hne {old : Comment} (hold : b.store.comments.get? x.id = some old) : x.id ≠ id := by
    rintro rfl
    rw [hg.absent] at hold
    cases hold
  cases hs with
  | create =>
    refine ⟨?_, fun k => ?_⟩
    · have hname : b.commentIds.name ≠ id := hg.used 0
      exact (Table.get?_insert _ _ _ _).trans ((if_neg hname).trans hg.absent)
    · change Supply.ahead { b.commentIds with next := b.commentIds.next + 1 } k ≠ id
      rw [← Supply.ahead_succ]
      exact hg.used (k + 1)
  | update done =>
    obtain ⟨old, hold, rfl⟩ := CommentStore.update_ok done
    exact ⟨(Table.get?_insert _ _ _ _).trans ((if_neg (hne hold)).trans hg.absent), hg.used⟩
  | delete done =>
    obtain ⟨old, hold, rfl⟩ := CommentStore.delete_ok done
    exact ⟨(Table.get?_erase _ _ _).trans ((if_neg (hne hold)).trans hg.absent), hg.used⟩

theorem Gone.carry {id : String} (hg : Gone b id) {now : Stamp} {r : Request}
    {answer : Except Fault Comment} (h : Carried b now r answer b') : Gone b' id := by
  cases answer with
  | error f =>
    obtain ⟨sources, rfl⟩ := h.refused_backend
    exact ⟨hg.absent, hg.used⟩
  | ok d =>
    obtain ⟨sources, x, request, hs⟩ := h.stored
    have hgone : Gone { b with sources } id := ⟨hg.absent, hg.used⟩
    exact hgone.stored hs

theorem gone_of_removed (hb : b.Working) {id : String} {actor : Int} {c : Comment} {now : Stamp}
    (h : Carried b now (.delete id actor) (.ok c) b') :
    Text.isObjectId id = true ∧ Gone b' id := by
  cases h with
  | removed found =>
    have hid : Text.isObjectId c.id = true := by
      cases ho : Text.isObjectId c.id with
      | true => rfl
      | false =>
        rw [CommentStore.get_unnamed b.store ho] at found
        cases found
    obtain ⟨-, hcopied⟩ := Overlap.copied_of_get hb.toSound (CommentStore.get_ok found)
    exact ⟨hid, (Table.get?_erase _ _ _).trans (if_pos rfl), hcopied.used⟩

/-! ### The times of a comment -/

theorem whole_nextChange {last now : Stamp} (hlast : last.Whole) (hnow : now.Whole) :
    (nextChange last now).Whole := by
  unfold nextChange
  split
  · exact hnow
  · simp only [Stamp.Whole, Stamp.addMillis] at hlast ⊢
    omega

def edits : Request → Except Fault Comment → List String
  | .update id _ _, .ok _ => [id]
  | _, _ => []

theorem edits_error (r : Request) (f : Fault) : edits r (.error f) = [] := by
  cases r <;> rfl

structure Dated (b : Backend) (changed : List String) : Prop where
  created : ∀ id c, b.store.comments.get? id = some c → c.createdAt.Whole
  updated : ∀ id c, b.store.comments.get? id = some c → c.updatedAt.Whole
  ordered : ∀ id c, b.store.comments.get? id = some c → c.createdAt.nanos ≤ c.updatedAt.nanos
  equal : ∀ id c, b.store.comments.get? id = some c → (c.updatedAt = c.createdAt ↔ id ∉ changed)
  fresh : ∀ k, b.commentIds.ahead k ∉ changed

theorem Dated.inserted {changed : List String} (hd : Dated b changed) {now : Stamp}
    (hnow : now.Whole) (post body : String) (user : User) (sources : Sources) :
    Dated { b with
      sources
      store := (b.store.create (draft post body user now) b.commentIds.name).1
      commentIds := { b.commentIds with next := b.commentIds.next + 1 } } changed := by
  have hname : b.commentIds.name ∉ changed := hd.fresh 0
  constructor
  · intro id c hc
    exact Table.forall_insert hd.created hnow hc
  · intro id c hc
    exact Table.forall_insert hd.updated hnow hc
  · intro id c hc
    exact Table.forall_insert hd.ordered (le_refl now.nanos) hc
  · intro id c hc
    have hnew : now = now ↔ b.commentIds.name ∉ changed := ⟨fun _ => hname, fun _ => rfl⟩
    exact Table.forall_insert (P := fun id c => c.updatedAt = c.createdAt ↔ id ∉ changed) hd.equal hnew hc
  · intro k
    change Supply.ahead { b.commentIds with next := b.commentIds.next + 1 } k ∉ changed
    rw [← Supply.ahead_succ]
    exact hd.fresh (k + 1)

theorem Dated.replaced {changed : List String} (hd : Dated b changed) (hb : b.Working) {now : Stamp}
    (hnow : now.Whole) {c : Comment} (body : String) (found : b.store.get c.id = .ok c) :
    Dated { b with
      store := ⟨b.store.comments.insert c.id (edited c body now), b.store.writes + 1⟩ }
      (changed ++ [c.id]) := by
  have hget := CommentStore.get_ok found
  have hlater : c.updatedAt.nanos < (edited c body now).updatedAt.nanos := nextChange_later _ _
  have hordered := hd.ordered c.id c hget
  have hcreated : (edited c body now).createdAt.Whole := hd.created c.id c hget
  have hupdated : (edited c body now).updatedAt.Whole :=
    whole_nextChange (hd.updated c.id c hget) hnow
  have hafter : (edited c body now).createdAt.nanos ≤ (edited c body now).updatedAt.nanos :=
    Int.le_trans hordered (Int.le_of_lt hlater)
  constructor
  · intro id d hc
    exact Table.forall_insert hd.created hcreated hc
  · intro id d hc
    exact Table.forall_insert hd.updated hupdated hc
  · intro id d hc
    exact Table.forall_insert hd.ordered hafter hc
  · intro id d hc
    change Table.get? (b.store.comments.insert c.id (edited c body now)) id = some d at hc
    rw [Table.get?_insert] at hc
    split at hc
    · rename_i hid
      cases hc
      subst hid
      have hne : (edited c body now).updatedAt ≠ c.createdAt := by
        intro he
        rw [he] at hlater
        omega
      have hchanged : c.id ∈ changed ++ [c.id] := List.mem_concat_self
      exact iff_of_false hne (not_not_intro hchanged)
    · rename_i hid
      rw [hd.equal id d hc, List.mem_append, List.mem_singleton, or_iff_left (Ne.symm hid)]
  · intro k hk
    rcases List.mem_append.mp hk with hk | hk
    · exact hd.fresh k hk
    · have hfresh := hb.fresh k
      rw [List.mem_singleton.mp hk, hget] at hfresh
      cases hfresh

theorem Dated.carry {changed : List String} (hd : Dated b changed) (hb : b.Working) {now : Stamp}
    (hnow : now.Whole) {r : Request} {answer : Except Fault Comment}
    (h : Carried b now r answer b') : Dated b' (changed ++ edits r answer) := by
  cases h with
  | refused r f sources =>
    rw [edits_error, List.append_nil]
    exact { hd with }
  | inserted post body author user sources =>
    rw [edits, List.append_nil]
    · exact hd.inserted hnow post body user sources
    · nofun
  | replaced body found => exact hd.replaced hb hnow body found
  | removed found =>
    rw [edits, List.append_nil]
    · exact
        { created := fun _ _ => Table.forall_erase hd.created
          updated := fun _ _ => Table.forall_erase hd.updated
          ordered := fun _ _ => Table.forall_erase hd.ordered
          equal := fun _ _ => Table.forall_erase hd.equal
          fresh := hd.fresh }
    · nofun

/-! ### One request after another -/

inductive Call where
  | request (r : Request) (t : Reading)
  | sources (s : Sources)

def call (b : Backend) : Call → Backend
  | .request r t => (b.perform (r.carryOut t.moment)).2
  | .sources s => { b with sources := s }

def calls (b : Backend) (xs : List Call) : Backend := xs.foldl call b

def changed (b : Backend) : Call → List String
  | .request r t => edits r (b.perform (r.carryOut t.moment)).1
  | .sources _ => []

def changes : Backend → List Call → List String
  | _, [] => []
  | b, x :: xs => b.changed x ++ changes (b.call x) xs

theorem calls_induction {P : Backend → Prop}
    (hsources : ∀ b sources, P b → P { b with sources })
    (hcarry : ∀ b now r answer b', b.Working → Carried b now r answer b' → P b → P b')
    (hb : b.Working) (h : P b) (xs : List Call) : (b.calls xs).Working ∧ P (b.calls xs) := by
  induction xs generalizing b with
  | nil => exact ⟨hb, h⟩
  | cons x xs ih =>
    cases x with
    | request r t =>
      rcases hr : b.perform (r.carryOut t.moment) with ⟨answer, b'⟩
      have hc := hb.carried hr
      have hstep : b.call (.request r t) = b' := congrArg Prod.snd hr
      rw [calls, List.foldl_cons, hstep]
      exact ih (hb.carry hc) (hcarry b _ r answer b' hb hc h)
    | sources s => exact ih { hb with } (hsources b s h)

theorem Dated.calls {log : List String} (hd : Dated b log) (hb : b.Working) (xs : List Call) :
    Dated (b.calls xs) (log ++ b.changes xs) := by
  induction xs generalizing b log with
  | nil =>
    rw [changes, List.append_nil]
    exact hd
  | cons x xs ih =>
    rw [changes, ← List.append_assoc]
    cases x with
    | request r t =>
      rcases hr : b.perform (r.carryOut t.moment) with ⟨answer, b'⟩
      have hc := hb.carried hr
      have hstep : b.call (.request r t) = b' := congrArg Prod.snd hr
      have hlog : b.changed (.request r t) = edits r answer := by rw [changed, hr]
      rw [Backend.calls, List.foldl_cons, hstep, hlog]
      exact ih (hd.carry hb t.whole hc) (hb.carry hc)
    | sources s =>
      rw [changed, List.append_nil]
      exact ih { hd with } { hb with }

theorem dated_start (sources : Sources) (bounds : HistoryBounds) (commentIds epochs : Supply) :
    Dated (start sources bounds commentIds epochs) [] := by
  constructor <;> simp [start]

theorem Working.calls_ids (hb : b.Working) (xs : List Call) :
    (b.calls xs).commentIds.width = b.commentIds.width ∧
      (b.calls xs).commentIds.next ≤ b.commentIds.next + xs.length := by
  induction xs generalizing b with
  | nil => exact ⟨rfl, le_refl _⟩
  | cons x xs ih =>
    have hstep : (b.call x).Working ∧ (b.call x).commentIds.width = b.commentIds.width ∧
        (b.call x).commentIds.next ≤ b.commentIds.next + 1 := by
      cases x with
      | sources s => exact ⟨{ hb with }, rfl, Nat.le_succ _⟩
      | request r t =>
        rcases hr : b.perform (r.carryOut t.moment) with ⟨answer, b'⟩
        have hc := hb.carried hr
        have hcall : b.call (.request r t) = b' := congrArg Prod.snd hr
        rw [hcall]
        refine ⟨hb.carry hc, ?_⟩
        cases hc <;> simp
    obtain ⟨hworking, hwidth, hnext⟩ := hstep
    obtain ⟨hwidth', hnext'⟩ := ih hworking
    rw [calls, List.foldl_cons, List.length_cons]
    refine ⟨hwidth'.trans hwidth, ?_⟩
    change ((b.call x).calls xs).commentIds.next ≤ _
    omega

theorem Working.getComment_inserted (hb : b.Working) {now : Stamp} {post body : String} {author : Int}
    {c : Comment} (h : Carried b now (.create post author body) (.ok c) b')
    (hid : Text.isObjectId b.commentIds.name = true) :
    b'.perform (getComment c.id) = (.ok c, b') ∧ c.body = body ∧ c.updatedAt = c.createdAt ∧
      ∀ later d, (b'.calls later).store.comments.get? c.id = some d →
        d = { c with body := d.body, updatedAt := d.updatedAt } := by
  have hb' := hb.carry h
  cases h with
  | inserted post body author user sources =>
    have hget := (Table.get?_insert b.store.comments b.commentIds.name b.commentIds.name
      { draft post body user now with id := b.commentIds.name }).trans (if_pos rfl)
    refine ⟨?_, rfl, rfl, fun later d hd => ?_⟩
    · rw [perform_getComment hb'.answering]
      exact congrArg (·, _) (CommentStore.get_present hid hget)
    · obtain ⟨-, hcopied⟩ := Overlap.copied_of_get hb'.toSound hget
      have hlater := (calls_induction (P := fun b => Overlap.Copied b _)
        (fun b sources hc => ⟨hc.kept, hc.used⟩)
        (fun b now r answer b' _ h hc => copied_carried hc h) hb' hcopied later).2
      exact hlater.kept d hd

theorem Working.gone_removed (hb : b.Working) {now : Stamp} {id : String} {actor : Int} {c : Comment}
    (h : Carried b now (.delete id actor) (.ok c) b') (later : List Call) :
    ((b'.calls later).perform (getComment id)).1 = .error .commentNotFound ∧
      ∀ post page cs summary, ((b'.calls later).perform (listComments post page)).1 = .ok (cs, summary) →
        ∀ d ∈ cs, d.id ≠ id := by
  obtain ⟨hid, hgone⟩ := gone_of_removed hb h
  obtain ⟨hworking, hlater⟩ := calls_induction (P := fun b => Gone b id)
    (fun b sources hg => ⟨hg.absent, hg.used⟩) (fun b now r answer b' _ h hg => hg.carry h)
    (hb.carry h) hgone later
  constructor
  · rw [perform_getComment hworking.answering, CommentStore.get_absent hid hlater.absent]
  · rintro post page cs summary hlist d hd rfl
    rw [listComments_ok (Prod.ext hlist rfl)] at hd
    have hstored := hworking.store.mem_list hd
    rw [hlater.absent] at hstored
    cases hstored

theorem history_of_a_comment (sources : Sources) (bounds : HistoryBounds) (commentIds epochs : Supply)
    (past : List Call) (r : Request) (t : Reading) (hwidth : commentIds.width = 24)
    (hroom : commentIds.next + past.length < 16 ^ 24) :
    let begun := start sources bounds commentIds epochs
    let b := begun.calls past
    let b' := (b.perform (r.carryOut t.moment)).2
    (∀ id c, b.store.comments.get? id = some c →
      c.createdAt.Whole ∧ c.updatedAt.Whole ∧ c.createdAt.nanos ≤ c.updatedAt.nanos ∧
        (c.updatedAt = c.createdAt ↔ id ∉ begun.changes past)) ∧
    match r, (b.perform (r.carryOut t.moment)).1 with
    | .create _ _ body, .ok c =>
      b'.perform (getComment c.id) = (.ok c, b') ∧ c.body = body ∧ c.updatedAt = c.createdAt ∧
        ∀ later d, (b'.calls later).store.comments.get? c.id = some d →
          d = { c with body := d.body, updatedAt := d.updatedAt }
    | .update id _ body, .ok d =>
      ∃ old, b.store.comments.get? id = some old ∧ old.updatedAt.nanos < d.updatedAt.nanos ∧
        d = { old with body, updatedAt := d.updatedAt } ∧ b'.store.comments.get? id = some d
    | .delete id _, .ok _ => ∀ later,
      ((b'.calls later).perform (getComment id)).1 = .error .commentNotFound ∧
        ∀ post page cs summary,
          ((b'.calls later).perform (listComments post page)).1 = .ok (cs, summary) →
            ∀ d ∈ cs, d.id ≠ id
    | _, .error _ => b'.store = b.store := by
  intro begun b b'
  have hbegun : begun.Working := working_start ..
  have hb : b.Working := (calls_induction (P := fun _ => True) (fun _ _ _ => trivial)
    (fun _ _ _ _ _ _ _ _ => trivial) hbegun trivial past).1
  have hdated : Dated b (begun.changes past) := (dated_start ..).calls hbegun past
  refine ⟨fun id c hc => ⟨hdated.created id c hc, hdated.updated id c hc, hdated.ordered id c hc,
    hdated.equal id c hc⟩, ?_⟩
  rcases hr : b.perform (r.carryOut t.moment) with ⟨answer, after⟩
  have hafter : b' = after := congrArg Prod.snd hr
  have hc := hb.carried hr
  rw [hafter]
  cases answer with
  | error f =>
    obtain ⟨s, rfl⟩ := hc.refused_backend
    cases r <;> rfl
  | ok d =>
    cases r with
    | create post author body =>
      obtain ⟨hsame, hnext⟩ := hbegun.calls_ids past
      have hid := Supply.isObjectId_name (hsame.trans hwidth) (Nat.lt_of_le_of_lt hnext hroom)
      exact hb.getComment_inserted hc hid
    | update id actor body =>
      cases hc with
      | @replaced c body found =>
        exact ⟨c, CommentStore.get_ok found, nextChange_later _ _, rfl,
          (Table.get?_insert _ _ _ _).trans (if_pos rfl)⟩
    | delete id actor => exact hb.gone_removed hc

def clockBack : List Call :=
  [.request (.create "p" 7 "a") ⟨⟨5000, 0⟩, rfl⟩,
    .request (.update "000000000000000000000000" 7 "b") ⟨⟨2000, 0⟩, rfl⟩]

theorem history_with_the_clock_back :
    let b := (start { chain := [.ofUsers [⟨7, "Ada", "Lovelace", ""⟩]], patience := 0 } ⟨2, 60000⟩
      ⟨24, 0⟩ ⟨8, 0⟩).calls clockBack
    let b' := (b.perform ((Request.delete "000000000000000000000000" 7).carryOut ⟨0, 0⟩)).2
    (0 + clockBack.length < 16 ^ 24) ∧
      (b.store.comments.get? "000000000000000000000000").map
        (fun c => (c.createdAt.nanos, c.updatedAt.nanos, c.body)) = some (5000000, 6000000, "b") ∧
      ∀ later, ((b'.calls later).perform (getComment "000000000000000000000000")).1 =
        .error .commentNotFound := by
  intro b b'
  have hdeleted : (b.perform ((Request.delete "000000000000000000000000" 7).carryOut ⟨0, 0⟩)).1.isOk =
      true := by decide +kernel
  have hhistory := history_of_a_comment { chain := [.ofUsers [⟨7, "Ada", "Lovelace", ""⟩]], patience := 0 }
    ⟨2, 60000⟩ ⟨24, 0⟩ ⟨8, 0⟩ clockBack (.delete "000000000000000000000000" 7) ⟨⟨0, 0⟩, rfl⟩ rfl
    (by decide)
  refine ⟨by decide, by decide +kernel, fun later => ?_⟩
  have hlast := hhistory.2
  split at hlast
  · rename_i hr _
    cases hr
  · rename_i hr _
    cases hr
  · rename_i hr _
    cases hr
    exact (hlast later).1
  · rename_i f hr
    rw [hr] at hdeleted
    cases hdeleted

end Backend

end LiveComments
