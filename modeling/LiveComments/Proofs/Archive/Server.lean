import LiveComments.Archive.Database
import LiveComments.Proofs.Table
import Mathlib.Data.List.Sort
import Mathlib.Data.Multiset.Filter
import Mathlib.Logic.Function.Basic

/-!
What a document server promises about the queries that are sent to it, and a server that keeps the
promise. A collection is known up to the order of its documents.
-/

namespace LiveComments.Archive

abbrev Collections := String → Multiset Document

def isFieldName (s : String) : Bool := s.toList.all fun c => c.isAlpha || c = '_'

def Value.plain : Value → Bool
  | .int _ | .text _ | .objectId _ | .time _ => true
  | _ => false

def Document.plain (d : Document) : Bool := d.all fun (name, v) => isFieldName name && v.plain

inductive Query.Proper : Query → Prop
  | ping : Proper .ping
  | findOne {c : String} {filter : Document} (hf : filter.plain = true) : Proper (.findOne c filter)
  | findPage {c name : String} {filter : Document} {sign skip limit : Int} (hf : filter.plain = true)
      (hname : isFieldName name = true) (hsign : sign = 1 ∨ sign = -1) (hskip : 0 ≤ skip)
      (hlimit : 0 < limit) : Proper (.findPage c filter [(name, .int sign)] skip limit)
  | count {c : String} {filter : Document} (hf : filter.plain = true) : Proper (.count c filter)
  | insert {c : String} {fields : Document} {id : Value} (hid : id.plain = true) :
      Proper (.insert c (("_id", id) :: fields))
  | update {c : String} {filter fields : Document} (hf : filter.plain = true)
      (hfields : fields.plain = true) (hkeys : ("_id" :: fields.keys).Nodup) :
      Proper (.update c filter fields)
  | replace {c : String} {fields : Document} {id : Value} (hid : id.plain = true) :
      Proper (.replace c [("_id", id)] (("_id", id) :: fields))
  | delete {c : String} {filter : Document} (hf : filter.plain = true) : Proper (.delete c filter)

/-- A query, its reply, and the collections before and after. Which of several documents is meant, in
what order those come that the sorting leaves alike, and where new fields go is up to the server. -/
inductive Served (docs : Collections) : Query → Reply → Collections → Prop
  | pong : Served docs .ping (.number 1) docs
  | found {c : String} {filter d : Document} (hd : d ∈ docs c) (hfits : d.fits filter = true) :
      Served docs (.findOne c filter) (.documents [d]) docs
  | missed {c : String} {filter : Document} (hnone : ∀ d ∈ docs c, d.fits filter = false) :
      Served docs (.findOne c filter) (.documents []) docs
  | page {c name : String} {filter : Document} {sign skip limit : Int} {all : List Document}
      (hall : (all : Multiset Document) = (docs c).filter (·.fits filter = true))
      (hsorted : ∀ time : Document → Int, (∀ d ∈ all, d.get? name = some (.time (time d))) →
        all.Pairwise fun a b => sign * time a ≤ sign * time b) :
      Served docs (.findPage c filter [(name, .int sign)] skip limit)
        (.documents ((all.drop skip.toNat).take limit.toNat)) docs
  | counted {c : String} {filter : Document} :
      Served docs (.count c filter) (.number ((docs c).countP (·.fits filter = true))) docs
  | inserted {c : String} {d : Document} (hnew : ∀ e ∈ docs c, e.sameId d = false) :
      Served docs (.insert c d) (.number 1) (Function.update docs c (d ::ₘ docs c))
  | duplicate {c : String} {d e : Document} (he : e ∈ docs c) (hsame : e.sameId d = true) :
      Served docs (.insert c d) .refused docs
  | updated {c : String} {filter fields d new : Document} {rest : Multiset Document}
      (hd : docs c = d ::ₘ rest) (hfits : d.fits filter = true)
      (hnew : (∀ f ∈ fields, (d.get? f.1).isSome = true) → new = fields.foldl Document.set d) :
      Served docs (.update c filter fields) (.number 1) (Function.update docs c (new ::ₘ rest))
  | unmatched {c : String} {filter fields : Document} (hnone : ∀ d ∈ docs c, d.fits filter = false) :
      Served docs (.update c filter fields) (.number 0) docs
  | replaced {c : String} {filter d old : Document} {rest : Multiset Document}
      (hold : docs c = old ::ₘ rest) (hfits : old.fits filter = true) :
      Served docs (.replace c filter d) (.number 1) (Function.update docs c (d ::ₘ rest))
  | upserted {c : String} {filter d : Document} (hnone : ∀ e ∈ docs c, e.fits filter = false) :
      Served docs (.replace c filter d) (.number 0) (Function.update docs c (d ::ₘ docs c))
  | deleted {c : String} {filter d : Document} {rest : Multiset Document}
      (hd : docs c = d ::ₘ rest) (hfits : d.fits filter = true) :
      Served docs (.delete c filter) (.number 1) (Function.update docs c rest)
  | undeleted {c : String} {filter : Document} (hnone : ∀ d ∈ docs c, d.fits filter = false) :
      Served docs (.delete c filter) (.number 0) docs

/-- A server that keeps the promise, with the collections that it holds in each of its states. -/
def Ideal {σ : Type} (server : σ → Query → Reply × σ) (docs : σ → Collections) : Prop :=
  ∀ s q, q.Proper → Served (docs s) q (server s q).1 (docs (server s q).2)

theorem Served.insert_new {docs docs' : Collections} {c : String} {d : Document} {r : Reply}
    (hnew : ∀ e ∈ docs c, e.sameId d = false) (hs : Served docs (.insert c d) r docs') :
    r = .number 1 ∧ docs' = Function.update docs c (d ::ₘ docs c) := by
  cases hs with
  | inserted => exact ⟨rfl, rfl⟩
  | duplicate he hsame =>
    rw [hnew _ he] at hsame
    cases hsame

theorem Served.count_eq {docs docs' : Collections} {c : String} {filter : Document} {r : Reply}
    (hs : Served docs (.count c filter) r docs') :
    r = .number ((docs c).filter (·.fits filter = true)).card ∧ docs' = docs := by
  cases hs with
  | counted => exact ⟨by rw [Multiset.countP_eq_card_filter], rfl⟩

theorem Served.page_eq {docs docs' : Collections} {c name : String} {filter : Document}
    {sign skip limit : Int} {r : Reply}
    (hs : Served docs (.findPage c filter [(name, .int sign)] skip limit) r docs') :
    docs' = docs ∧ ∃ all : List Document, r = .documents ((all.drop skip.toNat).take limit.toNat) ∧
      (all : Multiset Document) = (docs c).filter (·.fits filter = true) ∧
      ∀ time : Document → Int, (∀ d ∈ all, d.get? name = some (.time (time d))) →
        all.Pairwise fun a b => sign * time a ≤ sign * time b := by
  cases hs with
  | page hall hsorted => exact ⟨rfl, _, rfl, hall, hsorted⟩

namespace Database

def holds (db : Database) : Collections := fun c => db.documents c

theorem holds_store (db : Database) (c : String) (ds : List Document) :
    (db.store c ds).holds = Function.update db.holds c ds := by
  funext c'
  rw [Function.update_apply, holds, documents, store, Table.get?_insert]
  by_cases hc : c = c'
  · rw [if_pos hc, if_pos hc.symm]
    rfl
  · rw [if_neg hc, if_neg (Ne.symm hc)]
    rfl

theorem unfit {ds : List Document} {filter : Document} (h : ¬ds.any (·.fits filter) = true) :
    ∀ d ∈ ds, d.fits filter = false := by
  intro d hd
  by_contra hfits
  exact h (List.any_eq_true.mpr ⟨d, hd, by simpa using hfits⟩)

theorem exists_change (f : Document → Document) {filter : Document} {ds : List Document}
    (h : ds.any (·.fits filter) = true) : ∃ d, ∃ rest : Multiset Document,
      (ds : Multiset Document) = d ::ₘ rest ∧ d.fits filter = true ∧
        (change f filter ds : Multiset Document) = f d ::ₘ rest := by
  induction ds with
  | nil => cases h
  | cons e ds ih =>
    rw [change]
    cases he : Document.fits e filter with
    | true => exact ⟨e, ds, rfl, he, rfl⟩
    | false =>
      rw [List.any_cons, he, Bool.false_or] at h
      obtain ⟨d, rest, hds, hfits, hchange⟩ := ih h
      refine ⟨d, e ::ₘ rest, ?_, hfits, ?_⟩
      · rw [← Multiset.cons_coe, hds, Multiset.cons_swap]
      · rw [if_neg (by simp), ← Multiset.cons_coe, hchange, Multiset.cons_swap]

theorem exists_eraseP {p : Document → Bool} {ds : List Document} (h : ds.any p = true) :
    ∃ d, (ds : Multiset Document) = d ::ₘ ds.eraseP p ∧ p d = true := by
  obtain ⟨e, he, hp⟩ := List.any_eq_true.mp h
  obtain ⟨d, before, after, -, hd, hds, herase⟩ := List.exists_of_eraseP he hp
  refine ⟨d, ?_, hd⟩
  rw [herase, Multiset.cons_coe, Multiset.coe_eq_coe, hds]
  exact List.perm_middle

theorem coe_concat (ds : List Document) (d : Document) :
    ((ds ++ [d] : List Document) : Multiset Document) = d ::ₘ ds :=
  Multiset.coe_eq_coe.mpr (List.perm_append_singleton d ds)

theorem coe_found (db : Database) (c : String) (filter : Document) :
    (db.found c filter : Multiset Document) = (db.holds c).filter (·.fits filter = true) := by
  rw [holds, Multiset.filter_coe]
  simp only [Bool.decide_eq_true]
  rfl

theorem sorted_pairwise {name : String} {sign : Int} (hsign : sign = 1 ∨ sign = -1)
    {ds : List Document} {time : Document → Int} (htime : ∀ d ∈ ds, d.get? name = some (.time (time d))) :
    (Document.sorted [(name, .int sign)] ds).Pairwise fun a b => sign * time a ≤ sign * time b := by
  have hle (a : Document) (ha : a ∈ ds) (b : Document) (hb : b ∈ ds) :
      (if 0 < sign then Document.fieldLe name a b else Document.fieldLe name b a) =
        decide (sign * time a ≤ sign * time b) := by
    rw [Document.fieldLe, Document.fieldLe, htime a ha, htime b hb]
    rcases hsign with rfl | rfl
    · simp [Value.le]
    · simp [Value.le]
  have hmap : (Document.sorted [(name, .int sign)] ds).map (fun d => sign * time d) =
      (ds.map fun d => sign * time d).mergeSort fun x y => decide (x ≤ y) := List.map_mergeSort hle
  apply List.pairwise_map.mp
  rw [hmap]
  exact List.pairwise_mergeSort' (· ≤ ·) _

theorem served (db : Database) {q : Query} (hq : q.Proper) :
    Served db.holds q (db.reply q).1 (db.reply q).2.holds := by
  cases hq with
  | ping => exact .pong
  | @findOne c filter _ =>
    simp only [reply]
    cases hds : db.found c filter with
    | nil =>
      apply Served.missed
      intro d hd
      by_contra hfits
      have hfound : d ∈ db.found c filter := List.mem_filter.mpr ⟨hd, by simpa using hfits⟩
      rw [hds] at hfound
      cases hfound
    | cons d ds =>
      have hd : d ∈ db.found c filter := hds ▸ List.mem_cons_self
      exact .found (List.mem_filter.mp hd).1 (List.mem_filter.mp hd).2
  | @findPage c name filter sign skip limit _ _ hsign =>
    refine .page ?_ fun time htime => sorted_pairwise hsign fun d hd => htime d ?_
    · rw [← coe_found, Multiset.coe_eq_coe]
      exact List.mergeSort_perm _ _
    · exact List.mem_mergeSort.mpr hd
  | @count c filter _ =>
    have hcount : (db.found c filter).length = (db.holds c).countP (·.fits filter = true) := by
      rw [Multiset.countP_eq_card_filter, ← coe_found, Multiset.coe_card]
    simp only [reply, hcount]
    exact .counted
  | @insert c fields id _ =>
    let d : Document := ("_id", id) :: fields
    simp only [reply]
    split
    · rename_i h
      obtain ⟨e, he, hsame⟩ := List.any_eq_true.mp h
      exact .duplicate he hsame
    · rename_i h
      rw [holds_store, coe_concat]
      apply Served.inserted
      intro e he
      by_contra hsame
      exact h (List.any_eq_true.mpr ⟨e, he, by simpa using hsame⟩)
  | @update c filter fields _ _ _ =>
    simp only [reply]
    split
    · rename_i h
      obtain ⟨d, rest, hds, hfits, hchange⟩ := exists_change (fields.foldl Document.set) h
      rw [holds_store, hchange]
      exact .updated hds hfits fun _ => rfl
    · rename_i h
      exact .unmatched (unfit h)
  | @replace c fields id _ =>
    let d : Document := ("_id", id) :: fields
    simp only [reply]
    split
    · rename_i h
      obtain ⟨old, rest, hds, hfits, hchange⟩ := exists_change (fun _ => d) h
      rw [holds_store, hchange]
      exact .replaced hds hfits
    · rename_i h
      rw [holds_store, coe_concat]
      exact .upserted (unfit h)
  | @delete c filter _ =>
    simp only [reply]
    split
    · rename_i h
      obtain ⟨d, hds, hfits⟩ := exists_eraseP h
      rw [holds_store]
      exact .deleted hds hfits
    · rename_i h
      exact .undeleted (unfit h)

theorem ideal : Ideal reply holds := fun db _ hq => db.served hq

end Database

section Tables

variable {κ α : Type} [DecidableEq κ] {t : Table κ α} {k : κ} {v : α}

def written (write : κ → α → Document) (t : Table κ α) : Multiset Document :=
  (t.entries.map fun e => write e.1 e.2 : List Document)

theorem written_of_get? (write : κ → α → Document) (ht : t.Unique) (h : t.get? k = some v) :
    written write t = write k v ::ₘ written write (t.erase k) := by
  rw [written, written, Multiset.cons_coe, Multiset.coe_eq_coe]
  exact (ht.perm_of_get? h).map _

theorem written_insert (write : κ → α → Document) (ht : t.Unique) (k : κ) (v : α) :
    written write (t.insert k v) = write k v ::ₘ written write (t.erase k) := by
  rw [written, written, Multiset.cons_coe, Multiset.coe_eq_coe]
  exact (ht.insert_perm k v).map _

def Picks (write : κ → α → Document) (filter : κ → Document) : Prop :=
  ∀ k v j, (write k v).fits (filter j) = decide (j = k)

variable {write : κ → α → Document} {filter : κ → Document}

theorem Picks.of_fits (hw : Picks write filter) (ht : t.Unique) {d : Document}
    (hd : d ∈ written write t) (hfits : d.fits (filter k) = true) :
    ∃ v, t.get? k = some v ∧ d = write k v := by
  obtain ⟨⟨j, v⟩, hj, rfl⟩ := List.mem_map.mp (Multiset.mem_coe.mp hd)
  rw [hw] at hfits
  obtain rfl := of_decide_eq_true hfits
  exact ⟨v, ht.get?_eq_some.mpr hj, rfl⟩

theorem Picks.rest (hw : Picks write filter) (ht : t.Unique) {d : Document} {rest : Multiset Document}
    (h : written write t = d ::ₘ rest) (hfits : d.fits (filter k) = true) :
    ∃ v, t.get? k = some v ∧ d = write k v ∧ rest = written write (t.erase k) := by
  have hd : d ∈ written write t := by
    rw [h]
    exact Multiset.mem_cons_self d rest
  obtain ⟨v, hv, rfl⟩ := hw.of_fits ht hd hfits
  refine ⟨v, hv, rfl, ?_⟩
  rw [written_of_get? write ht hv, Multiset.cons_inj_right] at h
  exact h.symm

variable {docs docs' : Collections} {c : String} {r : Reply}

theorem Picks.absent (hw : Picks write filter) (ht : t.Unique)
    (hnone : ∀ d ∈ written write t, d.fits (filter k) = false) : t.get? k = none := by
  by_contra hk
  obtain ⟨v, hv⟩ := Option.ne_none_iff_exists'.mp hk
  have hd : write k v ∈ written write t := by
    rw [written_of_get? write ht hv]
    exact Multiset.mem_cons_self _ _
  have hfalse := hnone _ hd
  rw [hw, decide_eq_true rfl] at hfalse
  cases hfalse

theorem Served.findOne_picked (hw : Picks write filter) (ht : t.Unique) (hdocs : docs c = written write t)
    (hs : Served docs (.findOne c (filter k)) r docs') :
    r = .documents ((t.get? k).toList.map (write k)) ∧ docs' = docs := by
  cases hs with
  | found hd hfits =>
    rw [hdocs] at hd
    obtain ⟨v, hv, rfl⟩ := hw.of_fits ht hd hfits
    rw [hv]
    exact ⟨rfl, rfl⟩
  | missed hnone =>
    rw [hdocs] at hnone
    rw [hw.absent ht hnone]
    exact ⟨rfl, rfl⟩

theorem Served.update_picked (hw : Picks write filter) (ht : t.Unique) (hdocs : docs c = written write t)
    {fields : Document} (hfields : ∀ v, ∀ f ∈ fields, ((write k v).get? f.1).isSome = true)
    (hs : Served docs (.update c (filter k) fields) r docs') :
    (t.get? k = none ∧ r = .number 0 ∧ docs' = docs) ∨
      ∃ v, t.get? k = some v ∧ r = .number 1 ∧ docs' = Function.update docs c
        (fields.foldl Document.set (write k v) ::ₘ written write (t.erase k)) := by
  cases hs with
  | updated hd hfits hnew =>
    rw [hdocs] at hd
    obtain ⟨v, hv, rfl, rfl⟩ := hw.rest ht hd hfits
    rw [hnew (hfields v)]
    exact .inr ⟨v, hv, rfl, rfl⟩
  | unmatched hnone =>
    rw [hdocs] at hnone
    exact .inl ⟨hw.absent ht hnone, rfl, rfl⟩

theorem Served.replace_picked (hw : Picks write filter) (ht : t.Unique) (hdocs : docs c = written write t)
    {d : Document} (hs : Served docs (.replace c (filter k) d) r docs') :
    (r = .number 0 ∨ r = .number 1) ∧
      docs' = Function.update docs c (d ::ₘ written write (t.erase k)) := by
  cases hs with
  | replaced hold hfits =>
    rw [hdocs] at hold
    obtain ⟨v, hv, rfl, rfl⟩ := hw.rest ht hold hfits
    exact ⟨.inr rfl, rfl⟩
  | upserted hnone =>
    rw [hdocs] at hnone ⊢
    rw [Table.erase_of_absent (hw.absent ht hnone)]
    exact ⟨.inl rfl, rfl⟩

theorem Served.delete_picked (hw : Picks write filter) (ht : t.Unique) (hdocs : docs c = written write t)
    (hs : Served docs (.delete c (filter k)) r docs') :
    (t.get? k = none ∧ r = .number 0 ∧ docs' = docs) ∨
      ∃ v, t.get? k = some v ∧ r = .number 1 ∧
        docs' = Function.update docs c (written write (t.erase k)) := by
  cases hs with
  | deleted hd hfits =>
    rw [hdocs] at hd
    obtain ⟨v, hv, rfl, rfl⟩ := hw.rest ht hd hfits
    exact .inr ⟨v, hv, rfl, rfl⟩
  | undeleted hnone =>
    rw [hdocs] at hnone
    exact .inl ⟨hw.absent ht hnone, rfl, rfl⟩

end Tables

end LiveComments.Archive
