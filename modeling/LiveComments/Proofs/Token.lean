import LiveComments.Token.Gate

namespace LiveComments.Token

theorem ok_bind {α β : Type} (a : α) (f : α → Except Fault β) :
    ((Except.ok a : Except Fault α) >>= f) = f a :=
  rfl

theorem accept_ok {claims : Claims} {now : Int} {i : Identity} (h : accept claims now = .ok i) :
    (∃ second, claims.expiry.bind expirySecond? = some second) ∧ claims.hasAudience = false ∧
      claims.expiry.bind integer? = some i.expires ∧ claims.user.bind integer? = some i.user ∧
      now ≤ i.expires := by
  unfold accept at h
  dsimp only at h
  split at h
  · rename_i second hsecond
    rw [ok_bind] at h
    split at h
    · cases h
    split at h
    · cases h
    rename_i haudience
    split at h
    · rename_i expires hexpires
      rw [ok_bind] at h
      split at h
      · cases h
      rename_i hnow
      split at h
      · rename_i user huser
        cases h
        exact ⟨⟨second, hsecond⟩, Bool.not_eq_true _ ▸ haudience, hexpires, huser, Int.not_lt.mp hnow⟩
      · cases h
    · cases h
  · cases h

theorem verify_of_parts {secret token : String} {p : Parts} (hp : Parts.of? token = some p)
    (now : Int) : verify secret token now =
      match (symbols? p.header).bind algorithm? with
      | none => .error .tokenMalformed
      | some algorithm =>
        match algorithm.sign? (bytes secret) (bytes (String.ofList p.signed)) with
        | none => .error (.unsupportedSigning "only HMAC tokens are accepted")
        | some mac =>
          if p.signature = Text.Base64Url.encode mac then
            match (symbols? p.claims).bind Claims.of? with
            | none => .error .tokenMalformed
            | some c => accept c now
          else .error .tokenMalformed := by
  unfold verify
  simp only [hp, Option.elim_some, ok_bind]
  rcases (symbols? p.header).bind algorithm? with _ | algorithm
  · rfl
  simp only [Option.elim_some, ok_bind]
  rcases algorithm.sign? (bytes secret) (bytes (String.ofList p.signed)) with _ | mac
  · rfl
  by_cases hsignature : p.signature = Text.Base64Url.encode mac
  · simp only [hsignature, ne_eq, not_true_eq_false, if_false, if_true]
    rcases (symbols? p.claims).bind Claims.of? with _ | c <;> rfl
  · simp only [hsignature, ne_eq, not_false_eq_true, if_false, if_true]
    rfl

def Authentic (secret : String) (p : Parts) : Prop :=
  ∃ algorithm mac, (symbols? p.header).bind algorithm? = some algorithm ∧
    algorithm.sign? (bytes secret) (bytes (String.ofList p.signed)) = some mac ∧
    p.signature = Text.Base64Url.encode mac

theorem verify_ok {secret token : String} {now : Int} {i : Identity}
    (h : verify secret token now = .ok i) : ∃ p c, Parts.of? token = some p ∧ Authentic secret p ∧
      (symbols? p.claims).bind Claims.of? = some c ∧ accept c now = .ok i := by
  rcases hp : Parts.of? token with _ | p
  · rw [verify, hp] at h
    cases h
  rw [verify_of_parts hp] at h
  split at h
  · cases h
  rename_i algorithm halgorithm
  split at h
  · cases h
  rename_i mac hmac
  split at h
  · rename_i hsignature
    split at h
    · cases h
    · rename_i c hc
      exact ⟨p, c, rfl, ⟨algorithm, mac, halgorithm, hmac, hsignature⟩, hc, h⟩
  · cases h

theorem verify_unexpired {secret token : String} {now : Int} {i : Identity}
    (h : verify secret token now = .ok i) : now ≤ i.expires := by
  obtain ⟨p, c, -, -, -, haccept⟩ := verify_ok h
  obtain ⟨-, -, -, -, hnow⟩ := accept_ok haccept
  exact hnow

end LiveComments.Token
