import LiveComments.Proofs.Text.Base64Url
import LiveComments.Proofs.Token
import LiveComments.Proofs.Token.Reading
import LiveComments.Session

namespace LiveComments.Token

open Json (Draft)
open Text (clampInt64)

def Signed (secret : String) (p : Parts) : Prop :=
  ∃ header name algorithm mac, symbols? p.header = some header ∧
    algorithm? header = some algorithm ∧ algorithmName? header = some name ∧ name ∈ keyedNames ∧
    Algorithm.ofName? name = some algorithm ∧
    algorithm.sign? (bytes secret) (bytes (String.ofList p.signed)) = some mac ∧
    Text.Base64Url.decode? p.signature = some mac

def Claimed (p : Parts) (c : Claims) : Prop :=
  ∃ payload ds, symbols? p.claims = some payload ∧ Claims.of? payload = some c ∧
    Draft.of? payload = some (.obj ds) ∧
    c = ⟨claim? "user_id" ds, claim? "exp" ds, claim? "aud" ds⟩

def IsAudience (j : Json) : Prop :=
  (∃ s, j = .str s) ∨ ∃ names : List String, j = .arr (names.map .str)

/-- The expiry is a whole second in a word, and no audience is named. -/
structure Lasts (c : Claims) (expiry : Int) : Prop where
  expiry_eq : c.expiry.bind Json.number? = some (expiry : ℚ)
  expiry_nonneg : 0 ≤ expiry
  expiry_lt : expiry < 2 ^ 64
  no_audience : ∀ j, c.audience = some j → ¬IsAudience j

structure Admits (c : Claims) (user expiry : Int) : Prop extends Lasts c expiry where
  user_eq : c.user.bind Json.number? = some (user : ℚ)

theorem signed_iff {secret : String} {p : Parts} : Signed secret p ↔ Authentic secret p := by
  unfold Signed Authentic
  simp only [← Text.Base64Url.decode?_eq_some]
  constructor
  · rintro ⟨header, name, algorithm, mac, hheader, halgorithm, -, -, -, hmac, hsignature⟩
    exact ⟨algorithm, mac, Option.bind_eq_some_iff.mpr ⟨header, hheader, halgorithm⟩, hmac, hsignature⟩
  · rintro ⟨algorithm, mac, halgorithm, hmac, hsignature⟩
    obtain ⟨header, hheader, halgorithm⟩ := Option.bind_eq_some_iff.mp halgorithm
    obtain ⟨name, hname, hofName⟩ := algorithm?_name halgorithm
    have hkeyed : name ∈ keyedNames :=
      (sign?_isSome hofName _ _).mp (Option.isSome_of_eq_some hmac)
    exact ⟨header, name, algorithm, mac, hheader, halgorithm, hname, hkeyed, hofName, hmac, hsignature⟩

theorem claimed_iff {p : Parts} {c : Claims} :
    Claimed p c ↔ (symbols? p.claims).bind Claims.of? = some c := by
  constructor
  · rintro ⟨payload, ds, hpayload, hc, -, -⟩
    exact Option.bind_eq_some_iff.mpr ⟨payload, hpayload, hc⟩
  · intro h
    obtain ⟨payload, hpayload, hc⟩ := Option.bind_eq_some_iff.mp h
    obtain ⟨ds, hds, heq⟩ := claims_eq hc
    exact ⟨payload, ds, hpayload, hc, hds, heq⟩

theorem isText_iff {j : Json} : j.string?.isSome = true ↔ ∃ s, j = .str s := by
  cases j <;> simp [Json.string?]

theorem all_texts_iff {items : List Json} :
    items.all (fun j => j.string?.isSome) = true ↔ ∃ names : List String, items = names.map .str := by
  induction items with
  | nil => exact ⟨fun _ => ⟨[], rfl⟩, fun _ => rfl⟩
  | cons j items ih =>
    rw [List.all_cons, Bool.and_eq_true, isText_iff, ih]
    constructor
    · rintro ⟨⟨s, rfl⟩, names, rfl⟩
      exact ⟨s :: names, rfl⟩
    · rintro ⟨names, h⟩
      cases names with
      | nil => cases h
      | cons s names =>
        cases h
        exact ⟨⟨s, rfl⟩, names, rfl⟩

theorem hasAudience_iff (c : Claims) :
    c.hasAudience = true ↔ ∃ j, c.audience = some j ∧ IsAudience j := by
  unfold Claims.hasAudience
  split
  · rename_i s h
    exact ⟨fun _ => ⟨_, h, .inl ⟨s, rfl⟩⟩, fun _ => rfl⟩
  · rename_i items h
    rw [all_texts_iff]
    constructor
    · rintro ⟨names, rfl⟩
      exact ⟨_, h, .inr ⟨names, rfl⟩⟩
    · rintro ⟨j, hj, ⟨s, rfl⟩ | ⟨names, rfl⟩⟩
      · cases hj.symm.trans h
      · cases hj.symm.trans h
        exact ⟨names, rfl⟩
  · rename_i htext htexts
    constructor
    · intro h
      cases h
    · rintro ⟨j, hj, ⟨s, rfl⟩ | ⟨names, rfl⟩⟩
      · exact absurd hj (htext s)
      · exact absurd hj (htexts _)

theorem no_audience_iff (c : Claims) :
    (∀ j, c.audience = some j → ¬IsAudience j) ↔ c.hasAudience = false := by
  rw [← Bool.not_eq_true, hasAudience_iff]
  exact ⟨fun h ⟨j, hj, haudience⟩ => h j hj haudience, fun h j hj haudience => h ⟨j, hj, haudience⟩⟩

theorem verify_eq_accept {secret token : String} {p : Parts} {c : Claims} (hp : p.Of token)
    (hsigned : Signed secret p) (hc : Claimed p c) (now : Int) :
    verify secret token now = accept c now := by
  obtain ⟨algorithm, mac, halgorithm, hmac, hsignature⟩ := signed_iff.mp hsigned
  rw [verify_of_parts (Parts.of?_eq_some.mpr hp)]
  simp only [halgorithm, hmac, claimed_iff.mp hc, hsignature, if_true]

theorem accept_of_reads {c : Claims} {second : Nat} {expires : Int}
    (hsecond : c.expiry.bind expirySecond? = some second) (haudience : c.hasAudience = false)
    (hexpires : c.expiry.bind integer? = some expires) (now : Int) : accept c now =
      if (second : Int) < now ∨ expires < now then .error .tokenExpired
      else (c.user.bind integer?).elim (.error (.claimMissing "user_id")) fun user =>
        .ok ⟨user, expires⟩ := by
  unfold accept
  simp only [hsecond, haudience, hexpires, ok_bind]
  by_cases hlibrary : (second : Int) < now
  · simp only [hlibrary, true_or, if_true]
    rfl
  · by_cases hown : expires < now
    · simp only [hlibrary, hown, or_true, if_true, if_false]
      rfl
    · simp only [hlibrary, hown, or_false, if_false]
      cases c.user.bind integer? <;> rfl

theorem bind_whole?_eq_some {o : Option Json} {n : Int} :
    o.bind Json.whole? = some n ↔ o.bind Json.number? = some (n : ℚ) := by
  cases o with
  | none => simp
  | some j => exact Json.whole?_eq_some

theorem bind_integer?_eq_some {o : Option Json} {k : Int} :
    o.bind integer? = some k ↔ ∃ n, o.bind Json.whole? = some n ∧ clampInt64 n = k := by
  cases o with
  | none => simp
  | some j =>
    rw [Option.bind_some, Option.bind_some, integer?_eq]
    exact Option.map_eq_some_iff

theorem bind_expirySecond?_of_whole {o : Option Json} {n : Int} (h : o.bind Json.whole? = some n) :
    o.bind expirySecond? = if 0 ≤ n ∧ n < 2 ^ 64 then some n.toNat else none := by
  obtain ⟨j, rfl, hwhole⟩ := Option.bind_eq_some_iff.mp h
  exact expirySecond?_of_whole hwhole

theorem accept_of_lasts {c : Claims} {expiry : Int} (h : Lasts c expiry) (now : Int) :
    accept c now = if clampInt64 expiry < now then .error .tokenExpired
      else (c.user.bind integer?).elim (.error (.claimMissing "user_id")) fun user =>
        .ok ⟨user, clampInt64 expiry⟩ := by
  have hexpiry := bind_whole?_eq_some.mpr h.expiry_eq
  have hsecond : c.expiry.bind expirySecond? = some expiry.toNat := by
    rw [bind_expirySecond?_of_whole hexpiry, if_pos ⟨h.expiry_nonneg, h.expiry_lt⟩]
  have hexpires : c.expiry.bind integer? = some (clampInt64 expiry) :=
    bind_integer?_eq_some.mpr ⟨expiry, hexpiry, rfl⟩
  have hnone := (no_audience_iff c).mp h.no_audience
  have hnonneg := h.expiry_nonneg
  have hle := Text.clampInt64_le hnonneg
  -- The second reading is never later than the first, so it decides.
  have hreadings : ((expiry.toNat : Int) < now ∨ clampInt64 expiry < now) ↔ clampInt64 expiry < now := by
    omega
  rw [accept_of_reads hsecond hnone hexpires]
  simp only [hreadings]

theorem accept_of_admits {c : Claims} {user expiry : Int} (h : Admits c user expiry) (now : Int) :
    accept c now = if clampInt64 expiry < now then .error .tokenExpired
      else .ok ⟨clampInt64 user, clampInt64 expiry⟩ := by
  have hsubject : c.user.bind integer? = some (clampInt64 user) :=
    bind_integer?_eq_some.mpr ⟨user, bind_whole?_eq_some.mpr h.user_eq, rfl⟩
  rw [accept_of_lasts h.toLasts, hsubject, Option.elim_some]

theorem admits_of_accept {c : Claims} {now : Int} {i : Identity} (h : accept c now = .ok i) :
    ∃ user expiry, Admits c user expiry := by
  obtain ⟨⟨second, hsecond⟩, haudience, hexpires, huser, -⟩ := accept_ok h
  obtain ⟨expiry, hexpiry, -⟩ := bind_integer?_eq_some.mp hexpires
  obtain ⟨user, huser, -⟩ := bind_integer?_eq_some.mp huser
  have hbounds : 0 ≤ expiry ∧ expiry < 2 ^ 64 := by
    rw [bind_expirySecond?_of_whole hexpiry] at hsecond
    split at hsecond
    · assumption
    · cases hsecond
  have hlasts : Lasts c expiry := ⟨bind_whole?_eq_some.mp hexpiry, hbounds.1, hbounds.2,
    (no_audience_iff c).mpr haudience⟩
  exact ⟨user, expiry, hlasts, bind_whole?_eq_some.mp huser⟩

/-- A token of the secret that names a user, for no special audience and until a second. -/
def Grants (secret token : String) (user expiry : Int) : Prop :=
  ∃ p c, p.Of token ∧ Signed secret p ∧ Claimed p c ∧ Admits c user expiry

theorem Grants.expiry_nonneg {secret token : String} {user expiry : Int}
    (h : Grants secret token user expiry) : 0 ≤ expiry := by
  obtain ⟨p, c, -, -, -, hadmits⟩ := h
  exact hadmits.expiry_nonneg

theorem verify_of_grants {secret token : String} {user expiry : Int}
    (h : Grants secret token user expiry) (now : Int) : verify secret token now =
      if clampInt64 expiry < now then .error .tokenExpired
      else .ok ⟨clampInt64 user, clampInt64 expiry⟩ := by
  obtain ⟨p, c, hp, hsigned, hc, hadmits⟩ := h
  rw [verify_eq_accept hp hsigned hc, accept_of_admits hadmits]

theorem grants_of_verify {secret token : String} {now : Int} {i : Identity}
    (h : verify secret token now = .ok i) : ∃ user expiry, Grants secret token user expiry := by
  obtain ⟨p, c, hp, hauthentic, hc, haccept⟩ := verify_ok h
  obtain ⟨user, expiry, hadmits⟩ := admits_of_accept haccept
  exact ⟨user, expiry, p, c, Parts.of?_eq_some.mp hp, signed_iff.mpr hauthentic,
    claimed_iff.mpr hc, hadmits⟩

theorem verify_eq_ok {secret token : String} {now : Int} {i : Identity} :
    verify secret token now = .ok i ↔ ∃ user expiry, Grants secret token user expiry ∧
      now ≤ clampInt64 expiry ∧ i = ⟨clampInt64 user, clampInt64 expiry⟩ := by
  constructor
  · intro h
    obtain ⟨user, expiry, hgrants⟩ := grants_of_verify h
    rw [verify_of_grants hgrants] at h
    split at h
    · cases h
    · rename_i hnow
      exact ⟨user, expiry, hgrants, Int.not_lt.mp hnow, (Except.ok.inj h).symm⟩
  · rintro ⟨user, expiry, hgrants, hnow, rfl⟩
    rw [verify_of_grants hgrants, if_neg (Int.not_lt.mpr hnow)]

theorem verify_later {secret token : String} {now later : Int} {i : Identity}
    (h : verify secret token now = .ok i) (hlater : i.expires < later) :
    verify secret token later = .error .tokenExpired := by
  obtain ⟨user, expiry, hgrants, -, rfl⟩ := verify_eq_ok.mp h
  rw [verify_of_grants hgrants, if_pos hlater]

theorem verify_earlier {secret token : String} {now earlier : Int} {i : Identity}
    (h : verify secret token now = .ok i) (hearlier : earlier ≤ now) :
    verify secret token earlier = .ok i := by
  obtain ⟨user, expiry, hgrants, hnow, rfl⟩ := verify_eq_ok.mp h
  exact verify_eq_ok.mpr ⟨user, expiry, hgrants, hearlier.trans hnow, rfl⟩

theorem unsigned_refused {secret token : String} {p : Parts} (hp : p.Of token)
    (h : ∀ header, symbols? p.header = some header →
      ∀ name ∈ keyedNames, algorithmName? header ≠ some name) (now : Int) (i : Identity) :
    verify secret token now ≠ .ok i := by
  intro hok
  obtain ⟨q, c, hq, hauthentic, -, -⟩ := verify_ok hok
  have hqp : q = p := Option.some.inj (hq.symm.trans (Parts.of?_eq_some.mpr hp))
  obtain ⟨header, name, -, -, hheader, -, hname, hkeyed, -⟩ := signed_iff.mpr hauthentic
  exact h header (hqp ▸ hheader) name hkeyed hname

def Claims.granted? (c : Claims) : Option (Int × Int) := do
  let user ← c.user.bind Json.whole?
  let expiry ← c.expiry.bind Json.whole?
  if 0 ≤ expiry ∧ expiry < 2 ^ 64 ∧ c.hasAudience = false then some (user, expiry) else none

theorem admits_of_granted? {c : Claims} {user expiry : Int} (h : c.granted? = some (user, expiry)) :
    Admits c user expiry := by
  obtain ⟨subject, hsubject, h⟩ := Option.bind_eq_some_iff.mp h
  obtain ⟨second, hsecond, h⟩ := Option.bind_eq_some_iff.mp h
  split at h
  · rename_i hwithin
    obtain ⟨hnonneg, hlt, haudience⟩ := hwithin
    cases h
    have hlasts : Lasts c expiry := ⟨bind_whole?_eq_some.mp hsecond, hnonneg, hlt,
      (no_audience_iff c).mpr haudience⟩
    exact ⟨hlasts, bind_whole?_eq_some.mp hsubject⟩
  · cases h

def issuedParts (secret header claims : String) : Parts :=
  let h := Text.Base64Url.encode (bytes header)
  let c := Text.Base64Url.encode (bytes claims)
  ⟨h, c, Text.Base64Url.encode
    (Crypto.hmac Crypto.Sha2.sha256 (bytes secret) (bytes (String.ofList (h ++ '.' :: c))))⟩

def issued (secret header claims : String) : String :=
  let p := issuedParts secret header claims
  String.ofList (p.header ++ '.' :: (p.claims ++ '.' :: p.signature))

theorem symbols?_encode (bs : List UInt8) :
    symbols? (Text.Base64Url.encode bs) = some (Utf8.decode bs) := by
  rw [symbols?, Text.Base64Url.decode?_encode]
  rfl

theorem grants_issued (secret : String) {header claims : String} {user expiry : Int}
    (hheader : algorithm? (Utf8.decode (bytes header)) = some .hs256)
    (hclaims : (Claims.of? (Utf8.decode (bytes claims))).bind Claims.granted? = some (user, expiry)) :
    Grants secret (issued secret header claims) user expiry := by
  obtain ⟨c, hc, hgranted⟩ := Option.bind_eq_some_iff.mp hclaims
  refine ⟨issuedParts secret header claims, c, ⟨String.toList_ofList, ?_, ?_⟩, signed_iff.mpr ?_,
    claimed_iff.mpr ?_, admits_of_granted? hgranted⟩
  · exact Text.Base64Url.point_notMem_encode _
  · exact Text.Base64Url.point_notMem_encode _
  · refine ⟨.hs256, _, ?_, rfl, rfl⟩
    rw [issuedParts, symbols?_encode, Option.bind_some, hheader]
  · rw [issuedParts, symbols?_encode, Option.bind_some, hc]

/-- What the gate lets in, by a clock that counts seconds in 64 bits. -/
theorem acceptance_is_exact (secret token : String) {now : Int} (hnow : now ≤ Text.maxInt64) :
    (∀ i, verify secret token now = .ok i ↔ ∃ user expiry, Grants secret token user expiry ∧
      now ≤ expiry ∧ i = ⟨clampInt64 user, clampInt64 expiry⟩) ∧
    (∀ i, verify secret token now = .ok i → Session.expired i now = false ∧
      (∀ earlier, earlier ≤ now → verify secret token earlier = .ok i) ∧
      ∀ later, i.expires < later → verify secret token later = .error .tokenExpired) ∧
    (∀ user expiry, Grants secret token user expiry → ∀ later, expiry < later →
      verify secret token later = .error .tokenExpired) ∧
    ∀ p : Parts, p.Of token → (∀ header, symbols? p.header = some header →
      ∀ name ∈ keyedNames, algorithmName? header ≠ some name) → ∀ t i, verify secret token t ≠ .ok i := by
  refine ⟨fun i => ?_, fun i h => ⟨?_, fun earlier => verify_earlier h, fun later => verify_later h⟩,
    ?_, fun p => unsigned_refused⟩
  · rw [verify_eq_ok]
    apply exists_congr
    intro user
    apply exists_congr
    intro expiry
    apply and_congr_right
    intro hgrants
    rw [Text.le_clampInt64 hnow hgrants.expiry_nonneg]
  · exact decide_eq_false (Int.not_lt.mpr (verify_unexpired h))
  · intro user expiry hgrants later hlater
    have hle := Text.clampInt64_le hgrants.expiry_nonneg
    rw [verify_of_grants hgrants, if_pos (by omega)]

def plainHeader : String := "\x7b\"alg\":\"HS256\",\"typ\":\"JWT\"\x7d"

theorem plainHeader_keyed : algorithm? (Utf8.decode (bytes plainHeader)) = some .hs256 := by
  decide +kernel

def hourClaims : String := "\x7b\"user_id\":7.0,\"exp\":1700003600\x7d"

theorem acceptance_is_exact_for_an_hour :
    let token := issued "test-secret" plainHeader hourClaims
    (1700003600 : Int) ≤ Text.maxInt64 ∧
      verify "test-secret" token 1700003600 = .ok ⟨7, 1700003600⟩ ∧
      verify "test-secret" token 1700000000 = .ok ⟨7, 1700003600⟩ ∧
      verify "test-secret" token 1700003601 = .error .tokenExpired := by
  intro token
  have hnow : (1700003600 : Int) ≤ Text.maxInt64 := by decide
  have hgrants : Grants "test-secret" token 7 1700003600 :=
    grants_issued _ plainHeader_keyed (by decide +kernel)
  obtain ⟨haccepted, hkept, hlater, -⟩ := acceptance_is_exact "test-secret" token hnow
  have hok := (haccepted ⟨7, 1700003600⟩).mpr ⟨7, 1700003600, hgrants, le_refl _, rfl⟩
  exact ⟨hnow, hok, (hkept _ hok).2.1 1700000000 (by decide), hlater 7 1700003600 hgrants _ (by decide)⟩

end LiveComments.Token
