import LiveComments.Proofs.Number.Value
import LiveComments.Proofs.Text
import LiveComments.Token.Gate
import Mathlib.Data.List.Induction
import Mathlib.Data.List.TakeWhile

namespace LiveComments

open Json (Draft Leaf)

namespace Json.Draft

def named? (name : String) (ds : List (Leaf String × Draft)) : Option Draft :=
  (ds.find? fun e => e.1.toOption = some name).map (·.2)

theorem named?_append_one (name : String) (ds : List (Leaf String × Draft)) (e : Leaf String × Draft) :
    named? name (ds ++ [e]) =
      (named? name ds).or (if e.1.toOption = some name then some e.2 else none) := by
  unfold named?
  rw [List.find?_append, Option.map_or]
  congr 1
  by_cases he : e.1.toOption = some name <;> simp [he]

theorem known?_append_one (names : List String) (ds : List (Leaf String × Draft))
    (e : Leaf String × Draft) : known? names (ds ++ [e]) = (known? names ds).bind fun done =>
      e.1.toOption.bind fun name =>
        if !names.contains name then some done
        else if done.any (·.1 = name) then none else some (done ++ [(name, e.2)]) := by
  unfold known?
  rw [List.foldlM_append]
  simp only [Option.bind_eq_bind]
  congr 1
  funext done
  simp only [List.foldlM_cons, List.foldlM_nil, Option.bind_eq_bind, Option.pure_def]
  rcases e.1.toOption with _ | name
  · rfl
  · simp only [Option.bind_some]
    split
    · rfl
    · split <;> rfl

theorem known?_named {names : List String} {name : String} (hname : name ∈ names)
    {ds : List (Leaf String × Draft)} {known : List (String × Draft)} (h : known? names ds = some known) :
    (known.find? (·.1 = name)).map (·.2) = named? name ds := by
  -- From the end, where the fold adds: what is known already is found first on both sides.
  induction ds using List.reverseRecOn generalizing known with
  | nil =>
    cases h
    rfl
  | append_singleton ds e ih =>
    rw [known?_append_one] at h
    obtain ⟨done, hdone, h⟩ := Option.bind_eq_some_iff.mp h
    obtain ⟨k, hk, h⟩ := Option.bind_eq_some_iff.mp h
    rw [named?_append_one, ← ih hdone, hk]
    split at h
    · rename_i hunknown
      have hne : k ≠ name := by
        rintro rfl
        simp [hname] at hunknown
      cases h
      simp [hne]
    · split at h
      · cases h
      · cases h
        rw [List.find?_append, Option.map_or]
        congr 1
        by_cases hkn : k = name <;> simp [hkn]

end Json.Draft

namespace Token

theorem ne_point_of_mem_reverse {cs : List Char} (h : '.' ∉ cs) : ∀ c ∈ cs.reverse, decide (c ≠ '.') = true := by
  intro c hc
  have hne : c ≠ '.' := fun heq => h (heq ▸ List.mem_reverse.mp hc)
  exact decide_eq_true hne

theorem splitLast_append {before after : List Char} (h : '.' ∉ after) :
    splitLast (before ++ '.' :: after) = some (before, after) := by
  have hreverse : (before ++ '.' :: after).reverse = after.reverse ++ '.' :: before.reverse := by
    simp
  have htail : (before ++ '.' :: after).reverse.takeWhile (· ≠ '.') = after.reverse := by
    rw [hreverse, List.takeWhile_append_of_pos (ne_point_of_mem_reverse h),
      List.takeWhile_cons_of_neg (by decide), List.append_nil]
  have hlength : (before ++ '.' :: after).length = before.length + (after.length + 1) := by simp
  unfold splitLast
  rw [htail, List.reverse_reverse, hlength, if_pos (by omega),
    show before.length + (after.length + 1) - after.length - 1 = before.length by omega,
    List.take_left]

theorem exists_last_point {cs : List Char} (h : '.' ∈ cs) :
    ∃ before after, cs = before ++ '.' :: after ∧ '.' ∉ after := by
  obtain ⟨after, before, hcs, hafter⟩ := List.eq_append_cons_of_mem (List.mem_reverse.mpr h)
  refine ⟨before.reverse, after.reverse, ?_, fun hmem => hafter (List.mem_reverse.mp hmem)⟩
  rw [← List.reverse_reverse cs, hcs]
  simp

theorem splitLast_of_notMem {cs : List Char} (h : '.' ∉ cs) : splitLast cs = none := by
  unfold splitLast
  rw [List.takeWhile_eq_self_iff.mpr (ne_point_of_mem_reverse h), List.reverse_reverse,
    if_neg (Nat.lt_irrefl _)]

theorem splitLast_eq_some {cs before after : List Char} :
    splitLast cs = some (before, after) ↔ cs = before ++ '.' :: after ∧ '.' ∉ after := by
  constructor
  · intro h
    by_cases hpoint : '.' ∈ cs
    · obtain ⟨before', after', rfl, hafter⟩ := exists_last_point hpoint
      rw [splitLast_append hafter] at h
      cases h
      exact ⟨rfl, hafter⟩
    · rw [splitLast_of_notMem hpoint] at h
      cases h
  · rintro ⟨rfl, hafter⟩
    exact splitLast_append hafter

def Parts.Of (p : Parts) (token : String) : Prop :=
  token.toList = p.header ++ '.' :: (p.claims ++ '.' :: p.signature) ∧ '.' ∉ p.claims ∧
    '.' ∉ p.signature

theorem Parts.of?_eq_some {token : String} {p : Parts} : Parts.of? token = some p ↔ p.Of token := by
  unfold Parts.of? Parts.Of
  simp only [Option.bind_eq_bind, Option.bind_eq_some_iff, Prod.exists, splitLast_eq_some]
  constructor
  · rintro ⟨message, signature, ⟨htoken, hsignature⟩, header, claims, ⟨rfl, hclaims⟩, h⟩
    obtain rfl := Option.some.inj h
    refine ⟨?_, hclaims, hsignature⟩
    rw [htoken, List.append_assoc, List.cons_append]
  · rintro ⟨htoken, hclaims, hsignature⟩
    refine ⟨p.header ++ '.' :: p.claims, p.signature, ⟨?_, hsignature⟩, p.header, p.claims,
      ⟨rfl, hclaims⟩, rfl⟩
    rw [htoken, List.append_assoc, List.cons_append]

theorem member?_of_mapM {α : Type} (f : α → Option Json) (name : String) :
    ∀ {needed : List (String × α)} {values : List (String × Json)},
      (needed.mapM fun e => do return (e.1, ← f e.2)) = some values →
      Json.member? name values = ((needed.find? (·.1 = name)).map (·.2)).bind f := by
  intro needed
  induction needed with
  | nil =>
    rintro values h
    cases h
    rfl
  | cons e needed ih =>
    intro values h
    rw [List.mapM_cons] at h
    simp only [Option.bind_eq_bind, Option.bind_eq_some_iff, Option.pure_def] at h
    obtain ⟨entry, ⟨v, hv, hentry⟩, rest, hrest, hvalues⟩ := h
    cases hentry
    cases hvalues
    have ih := ih hrest
    unfold Json.member? at ih ⊢
    by_cases he : e.1 = name
    · simp [he, hv]
    · simpa [he] using ih

def claim? (name : String) (ds : List (Leaf String × Draft)) : Option Json :=
  (Draft.named? name ds).bind fun d => d.settle Claims.depth

theorem claims_eq {cs : List Json.Symbol} {c : Claims} (h : Claims.of? cs = some c) :
    ∃ ds, Draft.of? cs = some (.obj ds) ∧
      c = ⟨claim? "user_id" ds, claim? "exp" ds, claim? "aud" ds⟩ := by
  unfold Claims.of? at h
  obtain ⟨d, hd, h⟩ := Option.bind_eq_some_iff.mp h
  cases d with
  | obj ds =>
    simp only [Option.bind_eq_bind, Option.bind_eq_some_iff] at h
    obtain ⟨needed, hneeded, values, hvalues, common, hcommon, h⟩ := h
    split at h
    · cases h
    · refine ⟨ds, hd, ?_⟩
      have hneededNamed {name : String} (hname : name ∈ ["user_id", "exp"]) :
          Json.member? name values = claim? name ds := by
        rw [member?_of_mapM (fun d : Draft => d.settle Claims.depth) name hvalues,
          Draft.known?_named hname hneeded]
        rfl
      have haudience : (common.find? (·.1 = "aud")).bind (fun e => e.2.settle Claims.depth) =
          claim? "aud" ds := by
        rw [claim?, ← Draft.known?_named (by decide) hcommon, Option.bind_map]
        rfl
      rw [← Option.some.inj h, hneededNamed (by decide), hneededNamed (by decide), haudience]
  | _ => cases h

theorem integer?_eq (j : Json) : integer? j = j.whole?.map Text.clampInt64 := by
  cases j <;> rfl

theorem expirySecond?_of_whole {j : Json} {n : Int} (h : j.whole? = some n) :
    expirySecond? j = if 0 ≤ n ∧ n < 2 ^ 64 then some n.toNat else none := by
  cases j with
  | int m =>
    have hm : m = n := Option.some.inj h
    rw [hm]
    simp only [expirySecond?, Text.fitsWord64_iff]
  | float x =>
    have hvalue : x.value = n := Binary64.integer?_eq_some.mp h
    have hrefused : ((x.negative && !x.isZero) || Nat.pow 2 64 * x.magnitude.2 ≤ x.magnitude.1) = true ↔
        ¬(0 ≤ n ∧ n < 2 ^ 64) := by
      rw [Bool.or_eq_true, Binary64.below_zero_iff hvalue, decide_eq_true_eq,
        Binary64.bound_le_iff hvalue]
      have hword : Nat.pow 2 64 = 18446744073709551616 := rfl
      omega
    simp only [expirySecond?, Binary64.roundAway_of_value hvalue, hrefused, ite_not]
  | _ => cases h

def headerMembers? : Draft → Option (List (String × Draft))
  | .obj ds => Draft.known? headerNames ds
  | .arr ds => if ds.length = headerNames.length then some (headerNames.zip ds) else none
  | _ => none

theorem algorithm?_eq (cs : List Json.Symbol) : algorithm? cs =
    ((Draft.of? cs).bind headerMembers?).bind fun members =>
      let member (name : String) := (members.find? (·.1 = name)).map (·.2)
      (((member "alg").bind choice?).bind Algorithm.ofName?).bind fun a =>
        if optionalText.all (fun n => (member n).all (nullOr isText)) &&
            (member "x5c").all (nullOr isTexts) && (member "jwk").all (nullOr isKey) then
          some a
        else none := by
  unfold algorithm?
  simp only [Option.bind_eq_bind, Option.bind_assoc]
  congr 1
  funext d
  cases d with
  | arr ds =>
    unfold headerMembers?
    dsimp only
    split <;> rfl
  | _ => rfl

def algorithmName? (cs : List Json.Symbol) : Option String :=
  match Draft.of? cs with
  | some (.obj ds) => (Draft.named? "alg" ds).bind choice?
  | some (.arr ds) => ds[1]?.bind choice?
  | _ => none

theorem headerMembers?_algorithm {cs : List Json.Symbol} {members : List (String × Draft)}
    (h : (Draft.of? cs).bind headerMembers? = some members) :
    algorithmName? cs = ((members.find? (·.1 = "alg")).map (·.2)).bind choice? := by
  obtain ⟨d, hd, hmembers⟩ := Option.bind_eq_some_iff.mp h
  unfold algorithmName?
  rw [hd]
  cases d with
  | obj ds => rw [Draft.known?_named (by decide) hmembers]
  | arr ds =>
    simp only [headerMembers?] at hmembers
    split at hmembers
    · rename_i hlength
      cases hmembers
      match ds, hlength with
      | _ :: d :: _, _ => rfl
    · cases hmembers
  | _ => cases hmembers

theorem algorithm?_name {cs : List Json.Symbol} {a : Algorithm} (h : algorithm? cs = some a) :
    ∃ name, algorithmName? cs = some name ∧ Algorithm.ofName? name = some a := by
  rw [algorithm?_eq] at h
  obtain ⟨members, hmembers, h⟩ := Option.bind_eq_some_iff.mp h
  dsimp only at h
  obtain ⟨b, hb, h⟩ := Option.bind_eq_some_iff.mp h
  obtain ⟨name, hname, hofName⟩ := Option.bind_eq_some_iff.mp hb
  refine ⟨name, (headerMembers?_algorithm hmembers).trans hname, ?_⟩
  split at h
  · exact hofName.trans h
  · cases h

def keyedNames : List String := ["HS256", "HS384", "HS512"]

theorem sign?_isSome {name : String} {a : Algorithm} (h : Algorithm.ofName? name = some a)
    (secret message : List UInt8) :
    (a.sign? secret message).isSome ↔ name ∈ keyedNames := by
  unfold Algorithm.ofName? at h
  split at h <;> cases h <;> simp [Algorithm.sign?, keyedNames]

end Token

end LiveComments
