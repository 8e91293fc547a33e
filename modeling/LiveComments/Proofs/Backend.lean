import LiveComments.Backend
import Mathlib.Tactic.IntervalCases

namespace LiveComments

namespace Supply

def value (cs : List Char) : Nat :=
  cs.foldl (fun n c => 16 * n + (Text.hexValue? c).getD 0) 0

theorem value_digitChar {d : Nat} (hd : d < 16) (n : Nat) :
    16 * n + (Text.hexValue? (Nat.digitChar d)).getD 0 = 16 * n + d := by
  interval_cases d <;> rfl

theorem value_toDigits (n : Nat) : value (Nat.toDigits 16 n) = n := by
  induction n using Nat.strongRecOn with
  | ind n ih =>
    rw [Nat.toDigits_eq_if (by decide)]
    split
    · rename_i hn
      simpa [value] using value_digitChar hn 0
    · have hlast := value_digitChar (Nat.mod_lt n (by decide)) (n / 16)
      have hfirst := ih (n / 16) (by omega)
      unfold value at hfirst ⊢
      rw [List.foldl_append, hfirst, List.foldl_cons, List.foldl_nil, hlast]
      omega

theorem value_zeros (k : Nat) (cs : List Char) : value (List.replicate k '0' ++ cs) = value cs := by
  induction k with
  | zero => rfl
  | succ k ih => exact ih

def ahead (s : Supply) (k : Nat) : String := name ⟨s.width, s.next + k⟩

theorem ahead_zero (s : Supply) : s.ahead 0 = s.name := rfl

theorem ahead_succ (s : Supply) (k : Nat) :
    s.ahead (k + 1) = ahead { s with next := s.next + 1 } k := by
  rw [ahead, ahead, Nat.add_comm k, ← Nat.add_assoc]

theorem ahead_injective (s : Supply) : Function.Injective s.ahead := by
  intro j k h
  have hv := congrArg (fun t => value t.toList) h
  simp only [ahead, name, String.toList_ofList, value_zeros, value_toDigits] at hv
  omega

end Supply

namespace Backend

variable {α β : Type}

@[simp] theorem perform_pure (b : Backend) (a : α) : b.perform (pure a) = (.ok a, b) := rfl

@[simp] theorem perform_get (b : Backend) : b.perform get = (.ok b, b) := rfl

@[simp] theorem perform_modify (b : Backend) (f : Backend → Backend) :
    b.perform (modify f) = (.ok ⟨⟩, f b) := rfl

@[simp] theorem perform_ofExcept (b : Backend) (x : Except Fault α) :
    b.perform (ofExcept x) = (x, b) := by
  cases x <;> rfl

theorem perform_bind (b : Backend) (x : Action α) (f : α → Action β) :
    b.perform (x >>= f) = match b.perform x with
      | (.ok a, b) => b.perform (f a)
      | (.error e, b) => (.error e, b) := by
  unfold perform
  simp only [ExceptT.run_bind, StateT.run_bind]
  rcases (x.run).run b with ⟨a | a, b⟩ <;> rfl

theorem bind_of_ok {b b₁ : Backend} {x : Action α} {a : α} (h : b.perform x = (.ok a, b₁))
    (f : α → Action β) : b.perform (x >>= f) = b₁.perform (f a) := by
  rw [perform_bind, h]

theorem bind_of_error {b b₁ : Backend} {x : Action α} {e : Fault}
    (h : b.perform x = (.error e, b₁)) (f : α → Action β) :
    b.perform (x >>= f) = (.error e, b₁) := by
  rw [perform_bind, h]

theorem bind_ok {b b' : Backend} {x : Action α} {f : α → Action β} {r : β}
    (h : b.perform (x >>= f) = (.ok r, b')) :
    ∃ a b₁, b.perform x = (.ok a, b₁) ∧ b₁.perform (f a) = (.ok r, b') := by
  rw [perform_bind] at h
  rcases hx : b.perform x with ⟨e | a, b₁⟩
  · simp [hx] at h
  · exact ⟨a, b₁, rfl, by simpa [hx] using h⟩

theorem bind_related {R S T : Backend → Backend → Prop} (ends : ∀ b b', R b b' → T b b')
    (goes : ∀ b b' b'', R b b' → S b' b'' → T b b'') {x : Action α} {f : α → Action β}
    (hx : ∀ b, R b (b.perform x).2) (hf : ∀ a b, S b (b.perform (f a)).2) (b : Backend) :
    T b (b.perform (x >>= f)).2 := by
  have hb := hx b
  rw [perform_bind]
  rcases hr : b.perform x with ⟨e | a, b₁⟩
  · rw [hr] at hb
    exact ends b b₁ hb
  · rw [hr] at hb
    exact goes b b₁ _ hb (hf a b₁)

theorem ofExcept_ok {b b' : Backend} {x : Except Fault α} {a : α}
    (h : b.perform (ofExcept x) = (.ok a, b')) : x = .ok a ∧ b = b' := by
  rw [perform_ofExcept, Prod.mk.injEq] at h
  exact h

theorem ofExcept_bind_ok {b b' : Backend} {x : Except Fault α} {f : α → Action β} {r : β}
    (h : b.perform (ofExcept x >>= f) = (.ok r, b')) :
    ∃ a, x = .ok a ∧ b.perform (f a) = (.ok r, b') := by
  obtain ⟨a, _, hx, hf⟩ := bind_ok h
  obtain ⟨ha, rfl⟩ := ofExcept_ok hx
  exact ⟨a, ha, hf⟩

structure Closed (P : {α : Type} → Action α → Prop) : Prop where
  pure : ∀ {α : Type} (a : α), P (Pure.pure a : Action α)
  throw : ∀ {α : Type} (f : Fault), P (MonadExcept.throw f : Action α)
  bind : ∀ {α β : Type} {x : Action α} {f : α → Action β}, P x → (∀ a, P (f a)) → P (x >>= f)
  read : ∀ {α : Type} {f : Backend → Action α}, (∀ b b', b.store = b'.store → f b = f b') →
    (∀ b, P (f b)) → P (get >>= f)
  beforeCall : ∀ call, P (Backend.beforeCall call)

namespace Closed

variable {P : {α : Type} → Action α → Prop}

theorem ofExcept (h : Closed P) (x : Except Fault α) : P (Backend.ofExcept x) := by
  cases x with
  | ok a => exact h.pure a
  | error f => exact h.throw f

theorem getComment (h : Closed P) (id : String) : P (Backend.getComment id) := by
  apply h.bind (h.beforeCall .get)
  intro _
  apply h.read
  · intro b b' hb
    rw [hb]
  · intro b
    exact h.ofExcept (b.store.get id)

theorem loadOwned (h : Closed P) (id : String) (actor : Int) : P (Backend.loadOwned id actor) :=
  h.bind (h.getComment id) fun c => h.ofExcept (Lifecycle.owned c actor)

theorem listComments (h : Closed P) (postId : String) (p : Page) : P (Backend.listComments postId p) := by
  apply h.bind (h.ofExcept _)
  intro _
  apply h.bind (h.beforeCall .list)
  intro _
  apply h.read
  · intro b b' hb
    rw [hb]
  · intro b
    rcases b.store.list postId p with ⟨cs, total⟩
    dsimp only
    split
    · exact h.pure _
    · exact h.throw _

end Closed

def Calm (b b' : Backend) : Prop :=
  ∃ sources outage, b' = { b with sources, storeOutage := outage }

theorem Calm.refl (b : Backend) : b.Calm b := ⟨b.sources, b.storeOutage, rfl⟩

theorem Calm.trans {a b c : Backend} (hab : a.Calm b) (hbc : b.Calm c) : a.Calm c := by
  obtain ⟨s, o, rfl⟩ := hab
  obtain ⟨s', o', rfl⟩ := hbc
  exact ⟨s', o', rfl⟩

theorem Calm.store {b b' : Backend} (h : b.Calm b') : b'.store = b.store := by
  obtain ⟨s, o, rfl⟩ := h
  rfl

theorem Calm.kept {b b' : Backend} (h : b.Calm b') : b'.hub = b.hub ∧ b'.epochs = b.epochs ∧
    b'.outbox = b.outbox ∧ b'.publishOutage = b.publishOutage := by
  obtain ⟨s, o, rfl⟩ := h
  exact ⟨rfl, rfl, rfl, rfl⟩

def Quiet (x : Action α) : Prop := ∀ b : Backend, b.Calm (b.perform x).2

theorem Quiet.calm {x : Action α} (hx : Quiet x) {b b' : Backend} {r : Except Fault α}
    (h : b.perform x = (r, b')) : b.Calm b' := by
  have := hx b
  rwa [h] at this

theorem quiet_beforeCall (call : StoreCall) : Quiet (beforeCall call) := by
  intro b
  unfold beforeCall
  rw [perform_bind, perform_get]
  rcases ho : b.storeOutage with _ | ⟨c, f⟩
  · simp only [ho]
    exact .refl b
  · simp only [ho]
    split
    · exact ⟨b.sources, none, rfl⟩
    · exact .refl b

theorem closed_quiet : Closed Quiet where
  pure := fun _ b => .refl b
  throw := fun _ b => .refl b
  bind := bind_related (R := Calm) (S := Calm) (T := Calm) (fun _ _ => id) fun _ _ _ => Calm.trans
  read := fun _ hf b => hf b b
  beforeCall := quiet_beforeCall

theorem beforeCall_ok {b b' : Backend} {call : StoreCall} {u : Unit}
    (h : b.perform (beforeCall call) = (.ok u, b')) : b = b' := by
  unfold beforeCall at h
  rw [perform_bind, perform_get] at h
  rcases ho : b.storeOutage with _ | ⟨c, f⟩
  · simp only [ho] at h
    exact (Prod.mk.inj h).2
  · simp only [ho] at h
    split at h
    · rw [perform_bind] at h
      cases h
    · exact (Prod.mk.inj h).2

theorem beforeCall_error {b b' : Backend} {call : StoreCall} {g : Unit → Action α} {f : Fault}
    (hg : b.perform (g ()) = (.error f, b') → b = b')
    (h : b.perform (beforeCall call >>= g) = (.error f, b')) : b.Calm b' := by
  rcases hc : b.perform (beforeCall call) with ⟨e | ⟨⟩, b₁⟩
  · have hcalm := (quiet_beforeCall call).calm hc
    rw [bind_of_error hc] at h
    cases h
    exact hcalm
  · obtain rfl := beforeCall_ok hc
    rw [bind_of_ok hc] at h
    obtain rfl := hg h
    exact .refl _

theorem perform_beforeCall {b : Backend} (ho : b.storeOutage = none) (call : StoreCall) :
    b.perform (beforeCall call) = (.ok (), b) := by
  unfold beforeCall
  rw [perform_bind, perform_get]
  simp only [ho]
  rfl

theorem getComment_ok {b b' : Backend} {id : String} {c : Comment}
    (h : b.perform (getComment id) = (.ok c, b')) : b.store.get id = .ok c := by
  obtain ⟨_, b₁, hcall, h⟩ := bind_ok h
  obtain rfl := beforeCall_ok hcall
  obtain ⟨_, b₂, hget, h⟩ := bind_ok h
  cases hget
  exact (ofExcept_ok h).1

theorem owned_ok {c d : Comment} {actor : Int} (h : Lifecycle.owned c actor = .ok d) :
    d = c ∧ c.user.id = actor := by
  unfold Lifecycle.owned at h
  split at h
  · rename_i ha
    exact ⟨(Except.ok.inj h).symm, ha⟩
  · cases h

theorem loadOwned_ok {b b' : Backend} {id : String} {actor : Int} {c : Comment}
    (h : b.perform (loadOwned id actor) = (.ok c, b')) :
    b.store.get id = .ok c ∧ c.user.id = actor := by
  obtain ⟨old, b₁, hget, h⟩ := bind_ok h
  obtain ⟨rfl, ha⟩ := owned_ok (ofExcept_ok h).1
  exact ⟨getComment_ok hget, ha⟩

theorem perform_loadOwned {b : Backend} (ho : b.storeOutage = none) (id : String) (actor : Int) :
    b.perform (loadOwned id actor) = (b.store.get id >>= (Lifecycle.owned · actor), b) := by
  unfold loadOwned getComment
  rw [perform_bind, bind_of_ok (perform_beforeCall ho .get), perform_bind, perform_get]
  simp only [perform_ofExcept]
  cases b.store.get id with
  | error f => rfl
  | ok c => rfl

theorem perform_resolveUser (b : Backend) (id : Int) (m : Moment) :
    b.perform (resolveUser id m) = ((b.sources.resolve id m.steady).2,
      { b with sources := (b.sources.resolve id m.steady).1 }) := by
  unfold resolveUser
  rw [perform_bind, perform_get]
  rcases hr : b.sources.resolve id m.steady with ⟨sources, answer⟩
  simp only [hr, perform_bind, perform_modify, perform_ofExcept]

theorem quiet_resolveUser (id : Int) (m : Moment) : Quiet (resolveUser id m) := by
  intro b
  rw [perform_resolveUser]
  exact ⟨(b.sources.resolve id m.steady).1, b.storeOutage, rfl⟩

end Backend

end LiveComments
