import LiveComments.Proofs.Token.Acceptance

namespace LiveComments.Token

open Text (clampInt64 fitsInt64)

theorem identity_of_grants {secret token : String} {now user expiry : Int} {i : Identity}
    (h : verify secret token now = .ok i) (hgrants : Grants secret token user expiry) :
    i = ⟨clampInt64 user, clampInt64 expiry⟩ := by
  rw [verify_of_grants hgrants] at h
  split at h
  · cases h
  · exact (Except.ok.inj h).symm

theorem bind_integer?_eq_none {o : Option Json} :
    o.bind integer? = none ↔ ∀ n : Int, o.bind Json.number? ≠ some (n : ℚ) := by
  rw [Option.eq_none_iff_forall_ne_some]
  constructor
  · intro h n hn
    exact h (clampInt64 n) (bind_integer?_eq_some.mpr ⟨n, bind_whole?_eq_some.mpr hn, rfl⟩)
  · intro h k hk
    obtain ⟨n, hn, -⟩ := bind_integer?_eq_some.mp hk
    exact h n (bind_whole?_eq_some.mp hn)

theorem accept_without_user {c : Claims} {expiry now : Int}
    (huser : ∀ n : Int, c.user.bind Json.number? ≠ some (n : ℚ)) (hlasts : Lasts c expiry)
    (hnow : now ≤ clampInt64 expiry) : accept c now = .error (.claimMissing "user_id") := by
  rw [accept_of_lasts hlasts, if_neg (Int.not_lt.mpr hnow), bind_integer?_eq_none.mpr huser,
    Option.elim_none]

theorem expirySecond?_unless_within {c : Claims} {second : Nat}
    (hexpiry : ∀ n : Int, 0 ≤ n → n < 2 ^ 64 → c.expiry.bind Json.number? ≠ some (n : ℚ))
    (hsecond : c.expiry.bind expirySecond? = some second) : c.expiry.bind integer? = none := by
  rw [bind_integer?_eq_none]
  intro n hn
  rw [bind_expirySecond?_of_whole (bind_whole?_eq_some.mpr hn)] at hsecond
  split at hsecond
  · rename_i hwithin
    exact hexpiry n hwithin.1 hwithin.2 hn
  · cases hsecond

theorem accept_without_expiry {c : Claims} (haudience : ∀ j, c.audience = some j → ¬IsAudience j)
    (hexpiry : ∀ n : Int, 0 ≤ n → n < 2 ^ 64 → c.expiry.bind Json.number? ≠ some (n : ℚ)) (now : Int) :
    accept c now = .error (.claimMissing "exp") ∨
      ∃ second, c.expiry.bind expirySecond? = some second ∧ (second : Int) < now ∧
        accept c now = .error .tokenExpired := by
  have hnone := (no_audience_iff c).mp haudience
  rcases hsecond : c.expiry.bind expirySecond? with _ | second
  · left
    rw [accept, hsecond]
    rfl
  have hexpires := expirySecond?_unless_within hexpiry hsecond
  by_cases hnow : (second : Int) < now
  · right
    refine ⟨second, rfl, hnow, ?_⟩
    unfold accept
    simp only [hsecond, ok_bind, hnow, if_true]
    rfl
  · left
    unfold accept
    simp only [hsecond, ok_bind, hnow, hnone, hexpires]
    rfl

/-- Identities are as exact as 64 bits allow. A claim beyond them counts as the largest or the
smallest integer, so that users may only be taken for each other there. -/
theorem identity_is_the_nearest (secret : String) :
    (∀ token now i, verify secret token now = .ok i → ∃ user expiry, Grants secret token user expiry ∧
      i = ⟨clampInt64 user, clampInt64 expiry⟩ ∧
      (fitsInt64 user = true → i.user = user) ∧ (fitsInt64 expiry = true → i.expires = expiry)) ∧
    (∀ token other now later i j user user' expiry expiry', verify secret token now = .ok i →
      verify secret other later = .ok j → Grants secret token user expiry →
      Grants secret other user' expiry' → i.user = j.user →
      user = user' ∨ (Text.maxInt64 ≤ user ∧ Text.maxInt64 ≤ user') ∨
        (user ≤ Text.minInt64 ∧ user' ≤ Text.minInt64)) ∧
    ∀ token (p : Parts) c, p.Of token → Signed secret p → Claimed p c → ∀ now,
      ((∀ n : Int, c.user.bind Json.number? ≠ some (n : ℚ)) → ∀ expiry, Lasts c expiry →
        now ≤ clampInt64 expiry → verify secret token now = .error (.claimMissing "user_id")) ∧
      ((∀ n : Int, 0 ≤ n → n < 2 ^ 64 → c.expiry.bind Json.number? ≠ some (n : ℚ)) →
        (∀ j, c.audience = some j → ¬IsAudience j) →
        verify secret token now = .error (.claimMissing "exp") ∨
          ∃ second, c.expiry.bind expirySecond? = some second ∧ (second : Int) < now ∧
            verify secret token now = .error .tokenExpired) := by
  refine ⟨?_, ?_, ?_⟩
  · intro token now i h
    obtain ⟨user, expiry, hgrants, -, rfl⟩ := verify_eq_ok.mp h
    exact ⟨user, expiry, hgrants, rfl, Text.clampInt64_of_fits, Text.clampInt64_of_fits⟩
  · intro token other now later i j user user' expiry expiry' hi hj hgrants hgrants' hsame
    rw [identity_of_grants hi hgrants, identity_of_grants hj hgrants'] at hsame
    exact (Text.clampInt64_eq_iff user user').mp hsame
  · intro token p c hp hsigned hc now
    rw [verify_eq_accept hp hsigned hc]
    exact ⟨fun huser expiry => accept_without_user huser,
      fun hexpiry haudience => accept_without_expiry haudience hexpiry now⟩

def largestClaims : String := "\x7b\"user_id\":9223372036854775807,\"exp\":1700000060\x7d"

def beyondClaims : String := "\x7b\"user_id\":9223372036854775808,\"exp\":1700000060\x7d"

theorem users_beyond_the_range_confused :
    let largest := issued "test-secret" plainHeader largestClaims
    let beyond := issued "test-secret" plainHeader beyondClaims
    Grants "test-secret" largest 9223372036854775807 1700000060 ∧
      Grants "test-secret" beyond 9223372036854775808 1700000060 ∧
      verify "test-secret" largest 1700000000 = .ok ⟨9223372036854775807, 1700000060⟩ ∧
      verify "test-secret" beyond 1700000000 = .ok ⟨9223372036854775807, 1700000060⟩ := by
  intro largest beyond
  have hlargest : Grants "test-secret" largest 9223372036854775807 1700000060 :=
    grants_issued _ plainHeader_keyed (by decide +kernel)
  have hbeyond : Grants "test-secret" beyond 9223372036854775808 1700000060 :=
    grants_issued _ plainHeader_keyed (by decide +kernel)
  refine ⟨hlargest, hbeyond, ?_, ?_⟩
  · rw [verify_of_grants hlargest]
    rfl
  · rw [verify_of_grants hbeyond]
    rfl

end LiveComments.Token
