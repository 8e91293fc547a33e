import LiveComments.Proofs.Text
import LiveComments.Proofs.Url
import LiveComments.User.Directory
import Mathlib.Data.ENat.Lattice

namespace LiveComments.Directory

variable {client : Client} {script : Nat → Outcome} {address target : String}

theorem answer?_replied {a : Answer} (hlow : 200 ≤ a.status) (hhigh : a.status < 1000) :
    (Outcome.replied a).answer? = some { a with body := if a.status = 204 then [] else a.body } := by
  rw [Outcome.answer?, settled, if_pos (.inr ⟨hlow, hhigh⟩)]

def Outcome.Transient (o : Outcome) : Prop :=
  ∀ a, o.answer? = some a → a.status = 408 ∨ a.status = 429 ∨ (500 ≤ a.status ∧ a.status < 600)

def Outcome.trouble (client : Client) (address : String) (o : Outcome) : String :=
  match o.answer? with
  | none => client.sending address
  | some a => Http.statusText a.status

/-- What a final answer means. -/
inductive Means (client : Client) : Answer → Except Fault User → Prop
  | found {a : Answer} {u : User} (hstatus : 200 ≤ a.status ∧ a.status < 300)
      (hu : User.ofText? (Utf8.decode a.body) = some u) : Means client a (.ok u)
  | unreadable {a : Answer} (hstatus : 200 ≤ a.status ∧ a.status < 300)
      (hu : User.ofText? (Utf8.decode a.body) = none) :
      Means client a (.error (.internal
        s!"user directory returned an unreadable body: {client.reading}"))
  | absent {a : Answer} (hstatus : a.status = 404) : Means client a (.error .userNotFound)
  | rejected {a : Answer} (hstatus : a.status = 400 ∨ a.status = 422) :
      Means client a (.error (.invalid "user directory rejected the id"))
  | unexpected {a : Answer} (hsuccess : ¬(200 ≤ a.status ∧ a.status < 300))
      (hstatus : a.status ∉ [400, 404, 408, 422, 429])
      (hserver : ¬(500 ≤ a.status ∧ a.status < 600)) :
      Means client a (.error (.internal s!"user directory answered {Http.statusText a.status}"))

def Outcome.Final (client : Client) (o : Outcome) (r : Except Fault User) : Prop :=
  ∃ a, o.answer? = some a ∧ Means client a r

theorem transientStatus_iff (status : Nat) :
    transientStatus status = true ↔ status = 408 ∨ status = 429 ∨ (500 ≤ status ∧ status < 600) := by
  simp [transientStatus, or_assoc]

theorem Means.final {a : Answer} {r : Except Fault User} (h : Means client a r) :
    ¬(a.status = 408 ∨ a.status = 429 ∨ (500 ≤ a.status ∧ a.status < 600)) := by
  cases h with
  | found hstatus => omega
  | unreadable hstatus => omega
  | absent hstatus => omega
  | rejected hstatus => omega
  | unexpected hsuccess hstatus hserver =>
    simp only [List.mem_cons, List.not_mem_nil, or_false, not_or] at hstatus
    omega

theorem Outcome.Final.found {o : Outcome} {r : Except Fault User} {u : User} (h : o.Final client r)
    (hr : r = .ok u) : ∃ a, o.answer? = some a ∧ 200 ≤ a.status ∧ a.status < 300 ∧
      User.ofText? (Utf8.decode a.body) = some u := by
  obtain ⟨a, ho, hmeans⟩ := h
  subst hr
  cases hmeans with
  | found hstatus hu => exact ⟨a, ho, hstatus.1, hstatus.2, hu⟩

theorem judge_of_some {o : Outcome} {a : Answer} (h : o.answer? = some a) :
    (∃ r, Means client a r ∧ judge client address o = .final r) ∨
      (transientStatus a.status = true ∧
        judge client address o = .transient (o.trouble client address)) := by
  simp only [judge, Outcome.trouble, h]
  by_cases hsuccess : 200 ≤ a.status ∧ a.status < 300
  · rw [if_pos hsuccess]
    cases hu : User.ofText? (Utf8.decode a.body) with
    | some u => exact .inl ⟨.ok u, .found hsuccess hu, rfl⟩
    | none => exact .inl ⟨_, .unreadable hsuccess hu, rfl⟩
  rw [if_neg hsuccess]
  by_cases habsent : a.status = 404
  · exact .inl ⟨_, .absent habsent, if_pos habsent⟩
  rw [if_neg habsent]
  by_cases hrejected : a.status = 400 ∨ a.status = 422
  · exact .inl ⟨_, .rejected hrejected, if_pos hrejected⟩
  rw [if_neg hrejected]
  cases htransient : transientStatus a.status with
  | true => exact .inr ⟨rfl, rfl⟩
  | false =>
    have hnot : ¬(a.status = 408 ∨ a.status = 429 ∨ (500 ≤ a.status ∧ a.status < 600)) := by
      rw [← transientStatus_iff, htransient]
      exact Bool.false_ne_true
    refine .inl ⟨_, .unexpected hsuccess ?_ (by omega), rfl⟩
    simp only [List.mem_cons, List.not_mem_nil, or_false]
    omega

theorem judge_cases (client : Client) (address : String) (o : Outcome) :
    (o.Transient ∧ judge client address o = .transient (o.trouble client address)) ∨
      ∃ r, o.Final client r ∧ ¬o.Transient ∧ judge client address o = .final r := by
  cases h : o.answer? with
  | none =>
    refine .inl ⟨?_, by simp only [judge, Outcome.trouble, h]⟩
    intro a hsome
    cases h.symm.trans hsome
  | some a =>
    rcases judge_of_some h with ⟨r, hmeans, hjudge⟩ | ⟨htransient, hjudge⟩
    · refine .inr ⟨r, ⟨a, h, hmeans⟩, ?_, hjudge⟩
      intro ht
      exact hmeans.final (ht a h)
    · refine .inl ⟨?_, hjudge⟩
      intro a' hsome
      cases h.symm.trans hsome
      exact (transientStatus_iff _).mp htransient

/-! ### One attempt -/

inductive Ending where
  | met (address : String) (o : Outcome)
  | refused (detail : String)
  | strayed (address : String)

def Ending.Transient : Ending → Prop
  | .met _ o => o.Transient
  | _ => False

def Ending.trouble (client : Client) : Ending → String
  | .met address o => o.trouble client address
  | _ => ""

def Ending.Final (client : Client) (r : Except Fault User) : Ending → Prop
  | .met _ o => o.Final client r
  | .refused detail => r = .error (.internal detail)
  | .strayed address => r = .error (.internal (client.straying address))

inductive Asks (client : Client) (script : Nat → Outcome) :
    Nat → Nat → String → List String → Ending → Prop
  | here {hops made : Nat} {address : String} (h : (script made).hop? client address = none) :
      Asks client script hops made address [address] (.met address (script made))
  | refused {hops made : Nat} {address detail : String}
      (h : (script made).hop? client address = some (.refused detail)) :
      Asks client script hops made address [address] (.refused detail)
  | strayed {made : Nat} {address next : String}
      (h : (script made).hop? client address = some (.leads next)) :
      Asks client script 0 made address [address] (.strayed address)
  | further {hops made : Nat} {address next : String} {asked : List String} {e : Ending}
      (h : (script made).hop? client address = some (.leads next))
      (hrest : Asks client script hops (made + 1) next asked e) :
      Asks client script (hops + 1) made address (address :: asked) e

theorem fetch_asks (client : Client) (script : Nat → Outcome) (hops made : Nat) (address : String) :
    ∃ e, Asks client script hops made address (fetch client script hops made address).asked e ∧
      ((e.Transient ∧
          (fetch client script hops made address).verdict = .transient (e.trouble client)) ∨
        ∃ r, e.Final client r ∧ ¬e.Transient ∧
          (fetch client script hops made address).verdict = .final r) := by
  induction hops generalizing made address with
  | zero =>
    rw [fetch]
    cases h : (script made).hop? client address with
    | none => exact ⟨_, .here h, judge_cases client address (script made)⟩
    | some hop =>
      cases hop with
      | refused detail => exact ⟨_, .refused h, .inr ⟨_, rfl, id, rfl⟩⟩
      | leads next => exact ⟨_, .strayed h, .inr ⟨_, rfl, id, rfl⟩⟩
  | succ hops ih =>
    rw [fetch]
    cases h : (script made).hop? client address with
    | none => exact ⟨_, .here h, judge_cases client address (script made)⟩
    | some hop =>
      cases hop with
      | refused detail => exact ⟨_, .refused h, .inr ⟨_, rfl, id, rfl⟩⟩
      | leads next =>
        obtain ⟨e, hasks, hend⟩ := ih (made + 1) next
        exact ⟨e, .further h hasks, hend⟩

variable {hops made : Nat} {asked : List String} {e : Ending}

theorem Asks.head (h : Asks client script hops made address asked e) : asked.head? = some address := by
  cases h <;> rfl

theorem Asks.length_le (h : Asks client script hops made address asked e) :
    asked.length ≤ hops + 1 := by
  induction h with
  | here => exact Nat.le_add_left 1 _
  | refused => exact Nat.le_add_left 1 _
  | strayed => exact Nat.le_refl 1
  | further _ _ ih => exact Nat.succ_le_succ ih

theorem Asks.last (h : Asks client script hops made address asked e) :
    ∃ n, made + asked.length = n + 1 ∧ ∀ a o, e = .met a o → o = script n := by
  induction h with
  | @here hops made => exact ⟨made, rfl, fun a o h => by cases h; rfl⟩
  | @refused hops made => exact ⟨made, rfl, fun a o h => by cases h⟩
  | @strayed made => exact ⟨made, rfl, fun a o h => by cases h⟩
  | further h hrest ih =>
    obtain ⟨n, hn, hlast⟩ := ih
    refine ⟨n, ?_, hlast⟩
    rw [← hn, List.length_cons]
    omega

theorem Asks.of_none (h : Asks client script hops made address asked e)
    (hnone : (script made).hop? client address = none) :
    asked = [address] ∧ e = .met address (script made) := by
  cases h with
  | here => exact ⟨rfl, rfl⟩
  | refused h => cases hnone.symm.trans h
  | strayed h => cases hnone.symm.trans h
  | further h => cases hnone.symm.trans h

theorem Ending.Final.found {r : Except Fault User} {u : User} (h : e.Final client r) (hr : r = .ok u) :
    ∃ address o, e = .met address o ∧ o.Final client r := by
  subst hr
  cases e with
  | met address o => exact ⟨address, o, rfl, h⟩
  | refused detail => cases h
  | strayed address => cases h

/-! ### Attempts -/

structure Trial where
  asked : List String
  ending : Ending

inductive Trials (client : Client) (script : Nat → Outcome) (target : String) : Nat → List Trial → Prop
  | nil (made : Nat) : Trials client script target made []
  | cons {made : Nat} {t : Trial} {ts : List Trial}
      (h : Asks client script client.hops made target t.asked t.ending)
      (hrest : Trials client script target (made + t.asked.length) ts) :
      Trials client script target made (t :: ts)

/-- A look-up by so many attempts at most, after some: all but the last end in a trouble that may
pass, and the last does so only when no other is left. -/
structure Tried (client : Client) (script : Nat → Outcome) (target : String) (tried made left : Nat)
    (ts : List Trial) (t : Trial) (l : Lookup) : Prop where
  trials : Trials client script target made (ts ++ [t])
  requests : l.requests = (ts ++ [t]).flatMap (·.asked)
  passing : ∀ t' ∈ ts, t'.ending.Transient
  bound : ts.length < left
  final : ¬t.ending.Transient → t.ending.Final client l.result
  exhausted : t.ending.Transient → ts.length + 1 = left ∧ l.result =
    .error (.internal s!"user directory unavailable after {tried + left} attempts: {t.ending.trouble client}")

theorem tried_once {r : Except Fault User}
    (hasks : Asks client script client.hops made target (fetch client script client.hops made target).asked e)
    (hfinal : e.Final client r) (hnot : ¬e.Transient)
    (hverdict : (fetch client script client.hops made target).verdict = .final r) (tried left : Nat) :
    ∃ ts t, Tried client script target tried made (left + 1) ts t
      (attempt client script target tried made (left + 1)) := by
  refine ⟨[], ⟨_, e⟩, .cons hasks (.nil _), ?_, fun t' ht => absurd ht List.not_mem_nil, Nat.succ_pos _, ?_,
    fun ht => absurd ht hnot⟩
  all_goals rw [attempt]
  · simp [hverdict]
  · intro _
    simpa only [hverdict] using hfinal

theorem attempt_tried (client : Client) (script : Nat → Outcome) (target : String)
    (tried made left : Nat) : ∃ ts t, Tried client script target tried made (left + 1) ts t
      (attempt client script target tried made (left + 1)) := by
  -- Over the attempts that are left after this one.
  induction left generalizing tried made with
  | zero =>
    obtain ⟨e, hasks, ⟨ht, hverdict⟩ | ⟨r, hfinal, hnot, hverdict⟩⟩ :=
      fetch_asks client script client.hops made target
    · refine ⟨[], ⟨_, e⟩, .cons hasks (.nil _), ?_, fun t' ht => absurd ht List.not_mem_nil,
        Nat.zero_lt_one, fun hnot => absurd ht hnot, ?_⟩
      all_goals rw [attempt]
      · simp [hverdict]
      · intro _
        simp [hverdict, Directory.exhausted]
    · exact tried_once hasks hfinal hnot hverdict tried 0
  | succ left ih =>
    obtain ⟨e, hasks, ⟨ht, hverdict⟩ | ⟨r, hfinal, hnot, hverdict⟩⟩ :=
      fetch_asks client script client.hops made target
    · obtain ⟨ts, t, h⟩ := ih (tried + 1)
        (made + (fetch client script client.hops made target).asked.length)
      rw [attempt]
      simp only [hverdict, Nat.add_one_ne_zero, if_false]
      refine ⟨⟨_, e⟩ :: ts, t, .cons hasks h.trials, ?_, ?_, Nat.succ_lt_succ h.bound, h.final, ?_⟩
      · rw [h.requests]
        rfl
      · rintro t' (_ | ⟨_, ht'⟩)
        · exact ht
        · exact h.passing t' ht'
      · intro hlast
        obtain ⟨hlength, hresult⟩ := h.exhausted hlast
        refine ⟨congrArg (· + 1) hlength, ?_⟩
        rw [hresult, show tried + 1 + (left + 1) = tried + (left + 1 + 1) by omega]
    · exact tried_once hasks hfinal hnot hverdict tried (left + 1)

theorem Trials.mem {ts : List Trial} (h : Trials client script target made ts) {t : Trial} (ht : t ∈ ts) :
    t.asked.head? = some target ∧ t.asked.length ≤ client.hops + 1 := by
  induction h with
  | nil => cases ht
  | cons h _ ih =>
    rcases List.mem_cons.mp ht with rfl | ht
    · exact ⟨h.head, h.length_le⟩
    · exact ih ht

theorem Trials.last {ts : List Trial} {t : Trial} (h : Trials client script target made (ts ++ [t])) :
    ∃ n, made + ((ts ++ [t]).flatMap (·.asked)).length = n + 1 ∧
      ∀ a o, t.ending = .met a o → o = script n := by
  induction ts generalizing made with
  | nil =>
    cases h with
    | cons h _ => simpa using h.last
  | cons t' ts ih =>
    cases h with
    | cons _ hrest =>
      obtain ⟨n, hn, hlast⟩ := ih hrest
      refine ⟨n, ?_, hlast⟩
      rw [← hn, List.cons_append, List.flatMap_cons, List.length_append]
      omega

theorem Trials.direct {ts : List Trial} (h : Trials client script target made ts)
    (hnone : ∀ i < ts.length, (script (made + i)).hop? client target = none) :
    ts = (List.range ts.length).map fun i => ⟨[target], .met target (script (made + i))⟩ := by
  induction h with
  | nil => rfl
  | @cons made t ts h hrest ih =>
    obtain ⟨hasked, hending⟩ := h.of_none (hnone 0 (Nat.succ_pos _))
    have hshift (i : Nat) : made + t.asked.length + i = made + (i + 1) := by
      rw [hasked, List.length_singleton]
      omega
    simp only [hshift] at ih
    rw [List.length_cons, List.range_succ_eq_map, List.map_cons, List.map_map]
    refine List.cons_eq_cons.mpr ⟨?_, ih fun i hi => hnone (i + 1) (Nat.succ_lt_succ hi)⟩
    cases t
    simp only [Trial.mk.injEq]
    exact ⟨hasked, hending⟩

noncomputable def leading (script : Nat → Outcome) : ℕ∞ := ⨅ k, ⨅ _ : ¬(script k).Transient, (k : ℕ∞)

theorem le_leading {n : Nat} (h : ∀ i < n, (script i).Transient) : (n : ℕ∞) ≤ leading script := by
  apply le_iInf₂
  intro k hk
  exact_mod_cast Nat.not_lt.mp fun hlt => hk (h k hlt)

theorem leading_eq {n : Nat} (h : ∀ i < n, (script i).Transient) (hn : ¬(script n).Transient) :
    leading script = n :=
  le_antisymm (iInf₂_le n hn) (le_leading h)

theorem attempts_made {n most : Nat} (hn : n < most) (hbefore : ∀ i < n, (script i).Transient)
    (hlast : (script n).Transient → n + 1 = most) :
    ((n + 1 : Nat) : ℕ∞) = min (most : ℕ∞) (1 + leading script) := by
  by_cases htransient : (script n).Transient
  · have hle : ((n + 1 : Nat) : ℕ∞) ≤ leading script := by
      apply le_leading
      intro i hi
      rcases Nat.lt_succ_iff_lt_or_eq.mp hi with hi | rfl
      · exact hbefore i hi
      · exact htransient
    rw [← hlast htransient, min_eq_left (hle.trans le_add_self)]
  · have hle : n + 1 ≤ most := hn
    rw [leading_eq hbefore htransient, min_eq_right]
    · push_cast
      exact add_comm _ _
    · rw [add_comm]
      exact_mod_cast hle

/-! ### Addresses -/

theorem plain_id (id : Int) : Url.PlainPart (toString id).toList := by
  apply Url.plainPart_of_undotted
  intro c hc
  rcases Text.digits_or_minus hc with h | rfl
  · exact Url.PlainChar.of_isDigit h
  · decide

theorem plain_users : Url.PlainPart "users".toList := by
  apply Url.plainPart_of_undotted
  have hall : "users".toList.all (fun c => decide (Url.PlainChar c ∧ c ≠ '.' ∧ c ≠ '%')) = true := by
    decide
  simpa only [List.all_eq_true, decide_eq_true_eq] using hall

theorem place_of_plain {base : String} {parts : List (List Char)}
    (hbase : trimSlashes base = Url.slashed parts) (hparts : ∀ part ∈ parts, Url.PlainPart part) (id : Int) :
    place base id =
      .server (String.ofList (trimSlashes base ++ "/users/".toList ++ (toString id).toList)) := by
  have hslashed : trimSlashes base ++ "/users/".toList ++ (toString id).toList =
      Url.slashed (parts ++ ["users".toList, (toString id).toList]) := by
    rw [hbase]
    simp [Url.slashed]
  have hall : ∀ part ∈ parts ++ ["users".toList, (toString id).toList], Url.PlainPart part := by
    intro part hpart
    rcases List.mem_append.mp hpart with hpart | hpart
    · exact hparts part hpart
    · rcases List.mem_pair.mp hpart with rfl | rfl
      · exact plain_users
      · exact plain_id id
  have hkept : (Url.slashed (parts ++ ["users".toList, (toString id).toList])).filter
      (fun c => c ≠ '\t' ∧ c ≠ '\n' ∧ c ≠ '\r') =
      Url.slashed (parts ++ ["users".toList, (toString id).toList]) := by
    rw [List.filter_eq_self]
    refine Url.forall_slashed (by decide) fun part hpart c hc => decide_eq_true ?_
    have hplain := (hall part hpart).chars c hc
    exact ⟨hplain.ne (by decide), hplain.ne (by decide), hplain.ne (by decide)⟩
  have hne : parts ++ ["users".toList, (toString id).toList] ≠ [] := by simp
  have hauthority : (Url.slashed (parts ++ ["users".toList, (toString id).toList])).takeWhile
      (fun c => c ∉ ['/', '\\', '?', '#']) = [] := by
    obtain ⟨cs, hcs⟩ := Url.slashed_head hne
    rw [hcs]
    rfl
  unfold place
  simp only [hslashed, hkept, hauthority, Url.target_slashed hne hall]

structure Direct (client : Client) (script : Nat → Outcome) (target : String) (most n : Nat) (l : Lookup) :
    Prop where
  requests : l.requests = List.replicate (n + 1) target
  bound : ((n + 1 : Nat) : ℕ∞) = min (most : ℕ∞) (1 + leading script)
  passing : ∀ i < n, (script i).Transient
  final : ¬(script n).Transient → (script n).Final client l.result
  exhausted : (script n).Transient → n + 1 = most ∧ l.result = .error (.internal
    s!"user directory unavailable after {n + 1} attempts: {(script n).trouble client target}")

theorem Tried.direct {most : Nat} {ts : List Trial} {t : Trial} {l : Lookup}
    (h : Tried client script target 0 0 most ts t l)
    (hnone : ∀ i < most, (script i).hop? client target = none) :
    Direct client script target most ts.length l := by
  have hall := h.trials.direct fun i hi => by
    rw [List.length_append, List.length_singleton] at hi
    rw [Nat.zero_add]
    exact hnone i (Nat.lt_of_lt_of_le hi h.bound)
  simp only [Nat.zero_add] at hall
  rw [List.length_append, List.length_singleton, List.range_succ, List.map_append, List.map_singleton] at hall
  obtain ⟨hts, ht⟩ := List.append_inj' hall rfl
  have hlast : t = ⟨[target], .met target (script ts.length)⟩ := List.singleton_inj.mp ht
  have hending : t.ending = .met target (script ts.length) := by rw [hlast]
  have hbefore (i : Nat) (hi : i < ts.length) : (script i).Transient := by
    have hmem : (⟨[target], .met target (script i)⟩ : Trial) ∈ ts := by
      rw [hts]
      exact List.mem_map_of_mem (List.mem_range.mpr hi)
    exact h.passing _ hmem
  have hexhausted := h.exhausted
  have hfinal := h.final
  rw [hending] at hexhausted hfinal
  refine ⟨?_, attempts_made h.bound hbefore fun ht => (hexhausted ht).1, hbefore, hfinal, ?_⟩
  · rw [h.requests, List.eq_replicate_iff, hlast, hts]
    refine ⟨?_, ?_⟩
    · simp [List.flatMap_map]
    · intro a ha
      rw [List.flatMap_append, List.flatMap_map, List.mem_append] at ha
      rcases ha with ha | ha
      · obtain ⟨_, -, ha⟩ := List.mem_flatMap.mp ha
        exact List.mem_singleton.mp ha
      · simpa using ha
  · intro ht
    obtain ⟨hlength, hresult⟩ := hexhausted ht
    refine ⟨hlength, ?_⟩
    rw [hresult, hlength, Nat.zero_add]
    rfl

theorem hop?_answered {status : Nat} (hstatus : 200 ≤ status) (body : List UInt8) (client : Client)
    (address : String) : (Outcome.answered status body).hop? client address = none := by
  rw [Outcome.hop?, Outcome.answered, Outcome.answer?, settled]
  by_cases hhigh : status < 1000
  · rw [if_pos (.inr ⟨hstatus, hhigh⟩)]
    rfl
  · have hplain : ¬(status = 101 ∨ (200 ≤ status ∧ status < 1000)) := by omega
    have hinterim : ¬(100 ≤ status ∧ status < 200) := by omega
    rw [if_neg hplain, if_neg hinterim]
    rfl

theorem Tried.found {most : Nat} {ts : List Trial} {t : Trial} {l : Lookup}
    (h : Tried client script target 0 0 most ts t l) {u : User} (hu : l.result = .ok u) :
    ∃ n a, l.requests.length = n + 1 ∧ (script n).answer? = some a ∧ 200 ≤ a.status ∧ a.status < 300 ∧
      User.ofText? (Utf8.decode a.body) = some u := by
  have hnot : ¬t.ending.Transient := by
    intro ht
    cases hu.symm.trans (h.exhausted ht).2
  obtain ⟨address, o, hending, hfinal⟩ := (h.final hnot).found hu
  obtain ⟨a, ha, hstatus⟩ := hfinal.found hu
  obtain ⟨n, hn, hlast⟩ := h.trials.last
  rw [← h.requests, Nat.zero_add] at hn
  exact ⟨n, a, hn, by rw [← hlast address o hending, ha], hstatus⟩

theorem lookup_server (client : Client) (script : Nat → Outcome) {base : String} {id : Int} (retries : Nat)
    (htarget : place base id = .server target) :
    ∃ ts t, Tried client script target 0 0 (max retries 1) ts t (client.lookup base id retries script) := by
  have hmost : max retries 1 - 1 + 1 = max retries 1 := by omega
  obtain ⟨ts, t, h⟩ := attempt_tried client script target 0 0 (max retries 1 - 1)
  rw [hmost] at h
  rw [Client.lookup, htarget]
  exact ⟨ts, t, h⟩

theorem attempt_unanswered (client : Client) (target : String) (most : Nat) :
    (attempt client (fun _ => .unanswered) target 0 0 (most + 1)).result = .error (.internal
      s!"user directory unavailable after {most + 1} attempts: {client.sending target}") := by
  obtain ⟨ts, t, h⟩ := attempt_tried client (fun _ => .unanswered) target 0 0 most
  have hdirect := h.direct fun i _ => rfl
  obtain ⟨hlast, hresult⟩ := hdirect.exhausted fun a ha => by cases ha
  rw [hresult, hlast]
  rfl

end LiveComments.Directory
