import LiveComments.Proofs.Hub.Run
import Mathlib.Data.List.Induction

namespace LiveComments.Hub

/-- Every ring holds the end of the stream of its channel under its epoch, and every epoch that was
ever used was drawn. -/
structure Recorded (h : Hub) (log : List Record) (epochs : List String) : Prop where
  unique : h.rings.Unique
  follows : ∀ n r, h.rings.get? n = some r → r.Follows (stream log n r.epoch)
  current : ∀ n r, h.rings.get? n = some r → r.epoch ∈ epochs
  past : ∀ x ∈ log, x.epoch ∈ epochs

theorem recorded_start (bounds : HistoryBounds) : (start bounds).Recorded [] [] where
  unique := Table.unique_default
  follows := by simp [start]
  current := by simp [start]
  past := by simp

theorem serve_follows {r : Ring} {s : List Publication} (h : r.Follows s)
    (recover : Option Position) (now : Int) : (serve r recover now).1.Follows s := by
  cases recover with
  | none => exact h
  | some p => exact h.evict now

theorem ring_recorded {h : Hub} {log : List Record} {epochs : List String}
    (hr : h.Recorded log epochs) {n epoch : String} (hd : (epochs ++ h.fresh n epoch).Nodup) :
    (h.ring n epoch).Follows (stream log n (h.ring n epoch).epoch) ∧
      (h.ring n epoch).epoch ∈ epochs ++ h.fresh n epoch := by
  unfold ring fresh Table.contains at *
  cases hg : h.rings.get? n with
  | some r => simpa [hg] using ⟨hr.follows n r hg, hr.current n r hg⟩
  | none =>
    have hnew : epoch ∉ epochs := by
      rw [hg] at hd
      exact fun he => (List.nodup_append.mp hd).2.2 epoch he epoch (by simp) rfl
    have hs : stream log n epoch = [] := stream_eq_nil fun x hx he => hnew (he ▸ hr.past x hx)
    simpa [hs] using Ring.follows_start h.bounds epoch

theorem Recorded.mono {h h' : Hub} {log : List Record} {epochs : List String}
    (hr : h.Recorded log epochs) (hu : h'.rings.Unique) (more : List String)
    (hold : ∀ n r', h'.rings.get? n = some r' → ∃ r, h.rings.get? n = some r ∧
      r'.epoch = r.epoch ∧ ∀ s, r.Follows s → r'.Follows s) :
    h'.Recorded log (epochs ++ more) where
  unique := hu
  follows := by
    intro n r' hn
    obtain ⟨r, hg, he, hf⟩ := hold n r' hn
    exact he ▸ hf _ (hr.follows n r hg)
  current := by
    intro n r' hn
    obtain ⟨r, hg, he, -⟩ := hold n r' hn
    exact List.mem_append_left _ (he ▸ hr.current n r hg)
  past := fun x hx => List.mem_append_left _ (hr.past x hx)

theorem recorded_unchanged {h h' : Hub} {log : List Record} {epochs : List String}
    (hr : h.Recorded log epochs) (he : h'.rings = h.rings) :
    h'.Recorded (log ++ []) (epochs ++ []) := by
  rw [List.append_nil]
  apply hr.mono (he ▸ hr.unique)
  intro n r hn
  exact ⟨r, he ▸ hn, rfl, fun _ => id⟩

theorem enter_recorded {h : Hub} {log : List Record} {epochs : List String}
    (hr : h.Recorded log epochs) (session : String) (channel : Channel) (recover : Option Position)
    (now : Int) {epoch : String} (hd : (epochs ++ h.fresh channel.name epoch).Nodup) :
    (h.enter session channel recover now epoch).Recorded log
      (epochs ++ h.fresh channel.name epoch) := by
  obtain ⟨hf, hc⟩ := ring_recorded hr hd
  refine ⟨hr.unique.insert _ _, ?_, ?_, fun x hx => List.mem_append_left _ (hr.past x hx)⟩
  · intro n r hn
    rw [enter_ring] at hn
    split at hn
    · rename_i he
      cases hn
      rw [serve_epoch, ← he]
      exact serve_follows hf recover now
    · exact hr.follows n r hn
  · intro n r hn
    rw [enter_ring] at hn
    split at hn
    · cases hn
      rw [serve_epoch]
      exact hc
    · exact List.mem_append_left _ (hr.current n r hn)

theorem publish_recorded {h : Hub} {log : List Record} {epochs : List String}
    (hr : h.Recorded log epochs) (channel : Channel) (event : Event) (now : Int) {epoch : String}
    (hd : (epochs ++ h.fresh channel.name epoch).Nodup) :
    (h.publish channel event now epoch).1.Recorded
      (log ++ h.published (.publish channel event now epoch))
      (epochs ++ h.fresh channel.name epoch) := by
  obtain ⟨hf, hc⟩ := ring_recorded hr hd
  refine ⟨hr.unique.insert _ _, ?_, ?_, ?_⟩
  · intro n r hn
    rw [publish_ring] at hn
    split at hn
    · rename_i he
      cases hn
      subst he
      rw [stream_append, Ring.push_epoch]
      simpa [published, stream, publish] using hf.push event now
    · rename_i he
      have hs : stream (h.published (.publish channel event now epoch)) n r.epoch = [] := by
        simp [published, stream, he]
      rw [stream_append, hs, List.append_nil]
      exact hr.follows n r hn
  · intro n r hn
    rw [publish_ring] at hn
    split at hn
    · cases hn
      exact hc
    · exact List.mem_append_left _ (hr.current n r hn)
  · intro x hx
    rcases List.mem_append.mp hx with hx | hx
    · exact List.mem_append_left _ (hr.past x hx)
    · rw [published, List.mem_singleton] at hx
      exact hx ▸ hc

theorem step_recorded {h : Hub} {log : List Record} {epochs : List String}
    (hr : h.Recorded log epochs) (m : Message) (hd : (epochs ++ h.drawn m).Nodup) :
    (h.step m).Recorded (log ++ h.published m) (epochs ++ h.drawn m) := by
  cases m with
  | connect session user => exact recorded_unchanged hr rfl
  | disconnect session => exact recorded_unchanged hr (disconnect_rings h session)
  | subscribe session channel recover now epoch =>
    by_cases ha : h.admitted session channel = true
    · simp only [drawn, ha, if_true] at hd ⊢
      rw [step_subscribe, if_pos ha]
      simpa [published] using enter_recorded hr session channel recover now hd
    · simp only [drawn, ha, if_false, Bool.false_eq_true]
      rw [step_subscribe, if_neg ha]
      exact recorded_unchanged hr rfl
  | unsubscribe session channel => exact recorded_unchanged hr (leave_rings h session channel.name)
  | publish channel event now epoch => exact publish_recorded hr channel event now hd
  | sweep now =>
    unfold published
    rw [List.append_nil]
    apply hr.mono (step_rings_unique hr.unique (.sweep now))
    intro n r' hn
    unfold step at hn
    rw [sweep_ring hr.unique, Option.filter_eq_some_iff, Option.map_eq_some_iff] at hn
    obtain ⟨⟨r, hg, rfl⟩, -⟩ := hn
    exact ⟨r, hg, rfl, fun _ hf => hf.evict now⟩

theorem run_recorded (bounds : HistoryBounds) (ms : List Message)
    (hd : (gather drawn (start bounds) ms).Nodup) :
    ((start bounds).run ms).Recorded (gather published (start bounds) ms)
      (gather drawn (start bounds) ms) := by
  -- From the front, one message more: what it draws is new to everything before it.
  induction ms using List.reverseRecOn with
  | nil => exact recorded_start bounds
  | append_singleton ms m ih =>
    rw [gather_concat] at hd
    rw [run_append, gather_concat, gather_concat]
    exact step_recorded (ih hd.of_append_left) m hd

theorem stream_published (h : Hub) (m : Message) (n e : String) :
    stream (h.published m) n e = [] ∨ ∃ channel event now epoch,
      m = .publish channel event now epoch ∧ channel.name = n ∧ (h.ring n epoch).epoch = e ∧
        stream (h.published m) n e = [⟨(h.ring n epoch).top + 1, event⟩] := by
  cases m with
  | publish channel event now epoch =>
    by_cases hc : channel.name = n ∧ (h.ring channel.name epoch).epoch = e
    · obtain ⟨rfl, rfl⟩ := hc
      exact .inr ⟨channel, event, now, epoch, rfl, rfl, rfl, by simp [stream, published, publish]⟩
    · exact .inl (by simp [stream, published, hc])
  | _ => exact .inl rfl

theorem stream_numbered (bounds : HistoryBounds) (ms : List Message)
    (hd : (gather drawn (start bounds) ms).Nodup) (n e : String) :
    (stream (gather published (start bounds) ms) n e).map (·.offset) =
      List.range' 1 (stream (gather published (start bounds) ms) n e).length := by
  induction ms using List.reverseRecOn with
  | nil => rfl
  | append_singleton ms m ih =>
    rw [gather_concat] at hd
    have hpast := ih hd.of_append_left
    rw [gather_concat, stream_append]
    rcases stream_published ((start bounds).run ms) m n e with hs |
      ⟨channel, event, now, epoch, rfl, rfl, rfl, hs⟩
    · rw [hs, List.append_nil, hpast]
    · have hf := (ring_recorded (run_recorded bounds ms hd.of_append_left) hd).1
      rw [hs, List.map_append, hpast, List.length_append, List.length_singleton, List.range'_concat,
        hf.top]
      simp [Nat.add_comm]

theorem stream_ascending {bounds : HistoryBounds} {before during : List Message}
    (hd : (gather drawn (start bounds) (before ++ during)).Nodup) (n e : String) :
    ((stream (gather published ((start bounds).run before) during) n e).map (·.offset)).Pairwise
      (· < ·) := by
  have hall : ((stream (gather published (start bounds) (before ++ during)) n e).map
      (·.offset)).Pairwise (· < ·) := by
    rw [stream_numbered bounds _ hd]
    exact List.pairwise_lt_range'
  rw [gather_append, stream_append, List.map_append, List.pairwise_append] at hall
  exact hall.2.1

theorem ring_epoch {h : Hub} {n epoch e : String} (he : (h.ring n epoch).epoch = e)
    (hd : e ∉ h.fresh n epoch) : ∃ r, h.rings.get? n = some r ∧ r.epoch = e := by
  unfold ring at he
  unfold fresh Table.contains at hd
  cases hg : h.rings.get? n with
  | some r => exact ⟨r, rfl, by simpa [hg] using he⟩
  | none =>
    rw [hg] at he hd
    simp only [Option.getD_none, Ring.start_epoch] at he
    simp [he] at hd

theorem step_epoch {h : Hub} (hu : h.rings.Unique) {m : Message} {n : String} {r' : Ring}
    (hn : (h.step m).rings.get? n = some r') (hd : r'.epoch ∉ h.drawn m) :
    ∃ r, h.rings.get? n = some r ∧ r.epoch = r'.epoch := by
  cases m with
  | connect session user => exact ⟨r', hn, rfl⟩
  | disconnect session => exact ⟨r', disconnect_rings h session ▸ hn, rfl⟩
  | subscribe session channel recover now epoch =>
    rw [step_subscribe] at hn
    split at hn
    · rename_i ha
      rw [enter_ring] at hn
      split at hn
      · rename_i he
        cases hn
        rw [serve_epoch] at hd ⊢
        simp only [drawn, ha, if_true] at hd
        exact he ▸ ring_epoch rfl hd
      · exact ⟨r', hn, rfl⟩
    · exact ⟨r', hn, rfl⟩
  | unsubscribe session channel => exact ⟨r', leave_rings h session channel.name ▸ hn, rfl⟩
  | publish channel event now epoch =>
    unfold step at hn
    rw [publish_ring] at hn
    split at hn
    · rename_i he
      cases hn
      exact he ▸ ring_epoch rfl hd
    · exact ⟨r', hn, rfl⟩
  | sweep now =>
    unfold step at hn
    rw [sweep_ring hu, Option.filter_eq_some_iff, Option.map_eq_some_iff] at hn
    obtain ⟨⟨r, hg, rfl⟩, -⟩ := hn
    exact ⟨r, hg, rfl⟩

theorem run_epoch {h : Hub} (hu : h.rings.Unique) {ms : List Message} {n e : String}
    (hd : e ∉ gather drawn h ms) (hn : ∃ r, (h.run ms).rings.get? n = some r ∧ r.epoch = e) :
    ∀ x ∈ gather published h ms, x.channel = n → x.epoch = e := by
  induction ms using List.reverseRecOn with
  | nil => simp [gather]
  | append_singleton ms m ih =>
    obtain ⟨r', hr', he⟩ := hn
    rw [gather_concat, List.mem_append, not_or] at hd
    rw [run_append] at hr'
    obtain ⟨r, hr, he'⟩ := step_epoch (run_rings_unique hu ms) hr' (he ▸ hd.2)
    intro x hx hc
    rw [gather_concat, List.mem_append] at hx
    rcases hx with hx | hx
    · exact ih hd.1 ⟨r, hr, he'.trans he⟩ x hx hc
    · obtain ⟨r'', hr'', he''⟩ := published_epoch hx
      have hsame : r'' = r' := Option.some.inj ((hc ▸ hr'').symm.trans hr')
      rw [← he'', hsame, he]

def missed (log : List Record) (channel : String) (p : Position) : List Publication :=
  (stream log channel p.epoch).filter (p.offset < ·.offset)

theorem missed_eq_drop {r : Ring} {log : List Record} {n : String} {p : Position}
    (hf : r.Follows (stream log n r.epoch)) (he : r.epoch = p.epoch) :
    missed log n p = (stream log n r.epoch).drop p.offset := by
  rw [missed, ← he]
  exact hf.filter_eq_drop p.offset

theorem stream_all {log : List Record} {n e : String} (h : ∀ x ∈ log, x.channel = n → x.epoch = e) :
    stream log n e = onChannel n log := by
  unfold stream onChannel
  congr 1
  apply List.filter_congr
  intro x hx
  have := h x hx
  simpa using this

theorem Recorded.subscribe {h h' : Hub} {log : List Record} {epochs : List String}
    (hr : h.Recorded log epochs) {session : String} {channel : Channel} {p : Position} {now : Int}
    {epoch : String} {a : Subscription}
    (hd : (epochs ++ h.drawn (.subscribe session channel (some p) now epoch)).Nodup)
    (hsub : h.subscribe session channel (some p) now epoch = .ok (h', a)) :
    ∃ r, h'.rings.get? channel.name = some r ∧ r.Follows (stream log channel.name r.epoch) ∧
      a = ⟨r.epoch, r.top, r.after p⟩ := by
  rcases h.subscribe_eq session channel (some p) now epoch with ⟨ha, hs⟩ | ⟨-, x, hs⟩
  · rw [hs, Except.ok.injEq, Prod.mk.injEq] at hsub
    obtain ⟨rfl, rfl⟩ := hsub
    simp only [drawn, ha, if_true] at hd
    refine ⟨(h.ring channel.name epoch).evict now, ?_, (ring_recorded hr hd).1.evict now, rfl⟩
    rw [enter_ring, if_pos rfl]
    rfl
  · rw [hs] at hsub
    cases hsub

theorem Recorded.stream_run {h : Hub} {log : List Record} {epochs : List String}
    (hr : h.Recorded log epochs) {ms : List Message} {n : String} {r r' : Ring}
    (hd : (epochs ++ gather drawn h ms).Nodup) (hg : h.rings.get? n = some r)
    (hg' : (h.run ms).rings.get? n = some r') (he : r'.epoch = r.epoch) :
    ∃ before later, stream (log ++ gather published h ms) n r.epoch = before ++ later ∧
      before.length = r.top ∧ later.map (·.data) = eventsOn n ms := by
  refine ⟨_, _, stream_append _ _ _ _, (hr.follows n r hg).top.symm, ?_⟩
  have hnew : r.epoch ∉ gather drawn h ms :=
    fun hmem => (List.nodup_append.mp hd).2.2 _ (hr.current n r hg) _ hmem rfl
  rw [stream_all (run_epoch hr.unique hnew ⟨r', hg', he⟩)]
  exact published_events h n ms

theorem epoch_kept {bounds : HistoryBounds} {before after : List Message} {m : Message} {n : String}
    {r ring : Ring} (hd : (gather drawn (start bounds) (before ++ after ++ [m])).Nodup)
    (hring : ((start bounds).run before).rings.get? n = some r)
    (hget : ((start bounds).run (before ++ after ++ [m])).rings.get? n = some ring)
    (he : ring.epoch = r.epoch) :
    ∃ old later, stream (gather published (start bounds) (before ++ after)) n r.epoch = old ++ later ∧
      old.length = r.top ∧ later.map (·.data) = eventsOn n after := by
  rw [gather_concat] at hd
  have hpast := hd.of_append_left
  have hunique := (run_recorded bounds (before ++ after) hpast).unique
  rw [gather_append] at hpast
  have hfirst := run_recorded bounds before hpast.of_append_left
  have hcur : ring.epoch ∈ gather drawn (start bounds) (before ++ after) := by
    rw [gather_append, he]
    exact List.mem_append_left _ (hfirst.current _ _ hring)
  rw [run_append] at hget
  obtain ⟨r', hget', he'⟩ := step_epoch hunique hget
    (fun hmem => (List.nodup_append.mp hd).2.2 _ hcur _ hmem rfl)
  rw [run_append] at hget'
  rw [gather_append]
  exact hfirst.stream_run hpast hring hget' (he'.trans he)

theorem replay_exact (bounds : HistoryBounds) (before after : List Message) (session : String)
    (channel : Channel) (p : Position) (now : Int) (epoch : String) (r : Ring) (h : Hub)
    (a : Subscription)
    (hdrawn : (gather drawn (start bounds)
      (before ++ after ++ [.subscribe session channel (some p) now epoch])).Nodup)
    (hring : ((start bounds).run before).rings.get? channel.name = some r)
    (hepoch : r.epoch = p.epoch) (htop : p.offset ≤ r.top)
    (hsub : ((start bounds).run (before ++ after)).subscribe session channel (some p) now epoch =
      .ok (h, a)) :
    let all := missed (gather published (start bounds) (before ++ after)) channel.name p
    (a.recovery.recovered = true ↔ ∃ r, h.rings.get? channel.name = some r ∧ r.epoch = p.epoch ∧
      ∀ x ∈ all, x ∈ r.retained) ∧
    (a.recovery.recovered = true → a.recovery.publications = all ∧ p.offset ≤ a.offset ∧
      all.map (·.offset) = List.range' (p.offset + 1) (a.offset - p.offset) ∧
      eventsOn channel.name after <:+ all.map (·.data)) ∧
    (a.recovery.recovered = false → a.epoch = p.epoch →
      a.recovery.publications <:+ all ∧ a.recovery.publications ≠ all) ∧
    (a.epoch ≠ p.epoch → a.recovery.publications = []) := by
  intro all
  have hlast := step_subscribed hsub
  obtain ⟨ring, hget, hf, rfl⟩ :=
    (run_recorded bounds (before ++ after) (gather_concat _ _ _ _ ▸ hdrawn).of_append_left).subscribe
      (gather_concat _ _ _ _ ▸ hdrawn) hsub
  by_cases he : ring.epoch = p.epoch
  · have hall : all = (stream (gather published (start bounds) (before ++ after)) channel.name
        ring.epoch).drop p.offset := missed_eq_drop hf he
    obtain ⟨old, later, hsplit, hold, hlater⟩ := epoch_kept hdrawn hring
      (by rw [run_append, ← hget, ← hlast]; rfl) (he.trans hepoch.symm)
    rw [hepoch, ← he] at hsplit
    have hle : p.offset ≤ ring.top := by
      rw [hf.top, hsplit, List.length_append]
      omega
    have hp : ring.covers p = true := by simp [Ring.covers, he, hle]
    refine ⟨?_, ?_, ?_, fun hne => absurd he hne⟩
    · rw [hf.recovered_iff hp, ← hall]
      constructor
      · exact fun h => ⟨ring, hget, he, h⟩
      · rintro ⟨r', hr', -, h⟩
        rw [hget, Option.some.injEq] at hr'
        exact hr' ▸ h
    · intro hrecovered
      refine ⟨hall ▸ hf.publications_of_recovered hp hrecovered, hle, ?_, ?_⟩
      · rw [hall, hf.numbered_drop, hf.top]
      · rw [hall, hsplit, List.drop_append_of_le_length (hold ▸ htop), List.map_append, hlater]
        exact List.suffix_append _ _
    · intro hlost _
      rw [hall]
      exact hf.publications_of_lost hp hlost
  · have hlost : ring.after p = ⟨[], false⟩ := Ring.after_uncovered (by simp [Ring.covers, Ne.symm he])
    rw [hlost]
    refine ⟨?_, fun h => absurd h (by simp), fun _ h => absurd h he, fun _ => rfl⟩
    simp only [Bool.false_eq_true, false_iff, not_exists, not_and]
    intro r' hr' h
    rw [hget, Option.some.injEq] at hr'
    exact absurd (hr' ▸ h) he

def oneRead : List Message :=
  [.connect "s" 1, .subscribe "s" (.post "p") none 0 "e1",
    .publish (.post "p") ⟨"a", .null, 0⟩ 10 "e2", .disconnect "s"]

def awayEvents : List Message :=
  [.publish (.post "p") ⟨"b", .null, 0⟩ 20 "e3", .sweep 5000,
    .publish (.post "p") ⟨"c", .null, 0⟩ 5010 "e4", .connect "t" 1]

theorem replay_exact_after_absence :
    ∃ h a, ((start ⟨2, 60000⟩).run (oneRead ++ awayEvents)).subscribe "t" (.post "p")
        (some ⟨"e1", 1⟩) 5020 "e5" = .ok (h, a) ∧ a.recovery.recovered = true ∧
      a.recovery.publications.map (·.offset) = [2, 3] ∧
      [⟨"b", .null, 0⟩, ⟨"c", .null, 0⟩] <:+ a.recovery.publications.map (·.data) := by
  refine ⟨_, _, rfl, rfl, ?_⟩
  obtain ⟨-, hall, -⟩ := replay_exact ⟨2, 60000⟩ oneRead awayEvents "t" (.post "p") ⟨"e1", 1⟩ 5020
    "e5" ⟨"e1", 1, [⟨1, ⟨"a", .null, 0⟩, 10⟩], ⟨2, 60000⟩⟩ _ _ (by decide) rfl rfl (by decide) rfl
  obtain ⟨hpublications, -, hoffsets, hevents⟩ := hall rfl
  rw [hpublications, hoffsets]
  exact ⟨rfl, hevents⟩

end LiveComments.Hub
