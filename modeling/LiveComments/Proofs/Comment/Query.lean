import LiveComments.Proofs.Comment.Paging

namespace LiveComments.Page

def keyWords : List (String × SortKey) := [("created_at", .createdAt), ("updated_at", .updatedAt)]

def orderWords : List (String × SortOrder) := [("asc", .ascending), ("desc", .descending)]

def trimmed (s : Option String) : String := Text.trim (s.getD "")

inductive Asks {α : Type} (words : List (String × α)) (default : α) (s : Option String) : α → Prop
  | nothing (h : trimmed s = "") : Asks words default s default
  | listed {a : α} (h : (trimmed s, a) ∈ words) : Asks words default s a

structure Accepted (q : Query) (p : Page) : Prop where
  number_nonneg : 0 ≤ q.number.getD 0
  size_nonneg : 0 ≤ q.size.getD 0
  key : Asks keyWords .createdAt q.key p.key
  order : Asks orderWords .descending q.order p.order
  number : p.number = max (q.number.getD 0) 1
  size : p.size = if q.size.getD 0 = 0 then 10 else q.size.getD 0
  range : (p.number - 1) * p.size ≤ 2 ^ 63 - 1

/-- Why a query is refused: the first of five checks that it does not pass. -/
inductive Refused (q : Query) : Fault → Prop
  | number (h : q.number.getD 0 < 0) : Refused q (.invalid "page must not be negative")
  | size (hnumber : 0 ≤ q.number.getD 0) (h : q.size.getD 0 < 0) :
      Refused q (.invalid "page_size must not be negative")
  | key (hnumber : 0 ≤ q.number.getD 0) (hsize : 0 ≤ q.size.getD 0)
      (h : ∀ k, ¬Asks keyWords .createdAt q.key k) :
      Refused q (.invalid
        s!"sort_by must be created_at or updated_at, got {Text.quoted (trimmed q.key)}")
  | order {k : SortKey} (hnumber : 0 ≤ q.number.getD 0) (hsize : 0 ≤ q.size.getD 0)
      (hkey : Asks keyWords .createdAt q.key k) (h : ∀ o, ¬Asks orderWords .descending q.order o) :
      Refused q (.invalid s!"sort_order must be asc or desc, got {Text.quoted (trimmed q.order)}")
  | range {k : SortKey} {o : SortOrder} (hnumber : 0 ≤ q.number.getD 0) (hsize : 0 ≤ q.size.getD 0)
      (hkey : Asks keyWords .createdAt q.key k) (horder : Asks orderWords .descending q.order o)
      (h : 2 ^ 63 - 1 < (max (q.number.getD 0) 1 - 1) *
        if q.size.getD 0 = 0 then 10 else q.size.getD 0) :
      Refused q (.invalid "page is out of range for this page_size")

section Words

variable {α : Type} {read : String → Option α} {words : List (String × α)} {default : α}
  {message : String} {s : Option String}

theorem word_of_asks (hempty : read "" = none) (hread : ∀ w a, (w, a) ∈ words → read w = some a)
    {a : α} (h : Asks words default s a) : word read default message s = .ok a := by
  unfold word
  dsimp only
  rw [← trimmed]
  cases h with
  | nothing h => rw [if_pos h]
  | listed h =>
    have ha := hread _ _ h
    have hne : trimmed s ≠ "" := by
      intro hnil
      rw [hnil, hempty] at ha
      cases ha
    rw [if_neg hne, ha]

theorem word_of_not_asks (hread : ∀ w a, read w = some a → (w, a) ∈ words)
    (h : ∀ a, ¬Asks words default s a) : word read default message s =
      .error (.invalid s!"{message}, got {Text.quoted (trimmed s)}") := by
  have hne : trimmed s ≠ "" := fun hnil => h default (.nothing hnil)
  have hnone : read (trimmed s) = none := by
    apply Option.eq_none_iff_forall_ne_some.mpr
    intro a ha
    exact h a (.listed (hread _ _ ha))
  unfold word
  dsimp only
  rw [← trimmed, if_neg hne, hnone]

end Words

theorem mem_keyWords (w : String) (k : SortKey) : (w, k) ∈ keyWords ↔ SortKey.ofWord? w = some k := by
  constructor
  · intro h
    simp only [keyWords, List.mem_cons, Prod.mk.injEq, List.not_mem_nil, or_false] at h
    rcases h with ⟨rfl, rfl⟩ | ⟨rfl, rfl⟩ <;> rfl
  · intro h
    unfold SortKey.ofWord? at h
    split at h <;> cases h <;> decide

theorem mem_orderWords (w : String) (o : SortOrder) :
    (w, o) ∈ orderWords ↔ SortOrder.ofWord? w = some o := by
  constructor
  · intro h
    simp only [orderWords, List.mem_cons, Prod.mk.injEq, List.not_mem_nil, or_false] at h
    rcases h with ⟨rfl, rfl⟩ | ⟨rfl, rfl⟩ <;> rfl
  · intro h
    unfold SortOrder.ofWord? at h
    split at h <;> cases h <;> decide

variable {p : Page} {q : Query}

theorem product_nonneg (hnumber : 1 ≤ p.number) (hsize : 1 ≤ p.size) : 0 ≤ (p.number - 1) * p.size :=
  Int.mul_nonneg (by omega) (by omega)

theorem exactOffset?_of_le (hnumber : 1 ≤ p.number) (hsize : 1 ≤ p.size)
    (h : (p.number - 1) * p.size ≤ 2 ^ 63 - 1) :
    p.exactOffset? = some ((p.number - 1) * p.size) := by
  have hnonneg := product_nonneg hnumber hsize
  apply if_pos
  apply Text.fitsInt64_iff.mpr
  omega

theorem exactOffset?_of_lt (h : 2 ^ 63 - 1 < (p.number - 1) * p.size) : p.exactOffset? = none := by
  apply if_neg
  rw [Text.fitsInt64_iff]
  omega

theorem normalized_of_nonneg {number size : Int} (key : SortKey) (order : SortOrder) (h : 0 ≤ size) :
    normalized number size key order = ⟨max number 1, if size = 0 then 10 else size, key, order⟩ := by
  have hzero : size ≤ 0 ↔ size = 0 := by omega
  simp only [normalized, defaultSize, hzero]

theorem key_of_asks {k : SortKey} (h : Asks keyWords .createdAt q.key k) :
    word SortKey.ofWord? defaultKey "sort_by must be created_at or updated_at" q.key = .ok k :=
  word_of_asks rfl (fun w k => (mem_keyWords w k).mp) h

theorem order_of_asks {o : SortOrder} (h : Asks orderWords .descending q.order o) :
    word SortOrder.ofWord? defaultOrder "sort_order must be asc or desc" q.order = .ok o :=
  word_of_asks rfl (fun w o => (mem_orderWords w o).mp) h

theorem key_of_not_asks (h : ∀ k, ¬Asks keyWords .createdAt q.key k) :
    word SortKey.ofWord? defaultKey "sort_by must be created_at or updated_at" q.key =
      .error (.invalid
        s!"sort_by must be created_at or updated_at, got {Text.quoted (trimmed q.key)}") :=
  word_of_not_asks (fun w k => (mem_keyWords w k).mpr) h

theorem order_of_not_asks (h : ∀ o, ¬Asks orderWords .descending q.order o) :
    word SortOrder.ofWord? defaultOrder "sort_order must be asc or desc" q.order =
      .error (.invalid s!"sort_order must be asc or desc, got {Text.quoted (trimmed q.order)}") :=
  word_of_not_asks (fun w o => (mem_orderWords w o).mpr) h

theorem ofQuery_eq (hnumber : 0 ≤ q.number.getD 0) (hsize : 0 ≤ q.size.getD 0) : ofQuery q =
    (word SortKey.ofWord? defaultKey "sort_by must be created_at or updated_at" q.key).bind fun k =>
    (word SortOrder.ofWord? defaultOrder "sort_order must be asc or desc" q.order).bind fun o =>
      let page := normalized (q.number.getD 0) (q.size.getD 0) k o
      if page.exactOffset? = none then .error (.invalid "page is out of range for this page_size")
      else .ok page := by
  unfold ofQuery
  rw [if_neg (Int.not_lt.mpr hnumber), if_neg (Int.not_lt.mpr hsize)]
  rfl

theorem ofQuery_of_refused {f : Fault} (h : Refused q f) : ofQuery q = .error f := by
  cases h with
  | number h =>
    unfold ofQuery
    rw [if_pos h]
    rfl
  | size hnumber h =>
    unfold ofQuery
    rw [if_neg (Int.not_lt.mpr hnumber), if_pos h]
    rfl
  | key hnumber hsize h =>
    rw [ofQuery_eq hnumber hsize, key_of_not_asks h]
    rfl
  | order hnumber hsize hkey h =>
    rw [ofQuery_eq hnumber hsize, key_of_asks hkey, order_of_not_asks h]
    rfl
  | @range k o hnumber hsize hkey horder h =>
    have hnone : (normalized (q.number.getD 0) (q.size.getD 0) k o).exactOffset? = none := by
      rw [normalized_of_nonneg k o hsize]
      exact exactOffset?_of_lt h
    rw [ofQuery_eq hnumber hsize, key_of_asks hkey, order_of_asks horder]
    exact if_pos hnone

theorem Accepted.eq_normalized (h : Accepted q p) :
    normalized (q.number.getD 0) (q.size.getD 0) p.key p.order = p := by
  rw [normalized_of_nonneg p.key p.order h.size_nonneg, ← h.number, ← h.size]

theorem Accepted.exactOffset? (h : Accepted q p) :
    p.exactOffset? = some ((p.number - 1) * p.size) ∧ p.offset = (p.number - 1) * p.size := by
  have hnumber := one_le_number (q.number.getD 0) (q.size.getD 0) p.key p.order
  have hsize := one_le_size (q.number.getD 0) (q.size.getD 0) p.key p.order
  rw [h.eq_normalized] at hnumber hsize
  have hrange := h.range
  refine ⟨exactOffset?_of_le hnumber hsize hrange, ?_⟩
  rw [offset_eq hnumber hsize]
  omega

theorem ofQuery_of_accepted (h : Accepted q p) : ofQuery q = .ok p := by
  rw [ofQuery_eq h.number_nonneg h.size_nonneg, key_of_asks h.key, order_of_asks h.order]
  simp only [Except.bind, h.eq_normalized, h.exactOffset?, reduceCtorEq, if_false]

theorem accepted_or_refused (q : Query) : (∃ p, Accepted q p) ∨ ∃ f, Refused q f := by
  by_cases hnumber : q.number.getD 0 < 0
  · exact .inr ⟨_, .number hnumber⟩
  by_cases hsize : q.size.getD 0 < 0
  · exact .inr ⟨_, .size (Int.not_lt.mp hnumber) hsize⟩
  rw [Int.not_lt] at hnumber hsize
  by_cases hkey : ∃ k, Asks keyWords .createdAt q.key k
  case neg => exact .inr ⟨_, .key hnumber hsize (not_exists.mp hkey)⟩
  obtain ⟨k, hkey⟩ := hkey
  by_cases horder : ∃ o, Asks orderWords .descending q.order o
  case neg => exact .inr ⟨_, .order hnumber hsize hkey (not_exists.mp horder)⟩
  obtain ⟨o, horder⟩ := horder
  by_cases hrange : (max (q.number.getD 0) 1 - 1) *
      (if q.size.getD 0 = 0 then 10 else q.size.getD 0) ≤ 2 ^ 63 - 1
  · exact .inl ⟨⟨_, _, k, o⟩, hnumber, hsize, hkey, horder, rfl, rfl, hrange⟩
  · exact .inr ⟨_, .range hnumber hsize hkey horder (Int.not_le.mp hrange)⟩

theorem ofQuery_ok_iff : ofQuery q = .ok p ↔ Accepted q p := by
  constructor
  · intro h
    rcases accepted_or_refused q with ⟨p', hp'⟩ | ⟨f, hf⟩
    · rw [ofQuery_of_accepted hp'] at h
      exact Except.ok.inj h ▸ hp'
    · rw [ofQuery_of_refused hf] at h
      cases h
  · exact ofQuery_of_accepted

theorem ofQuery_error_iff {f : Fault} : ofQuery q = .error f ↔ Refused q f := by
  constructor
  · intro h
    rcases accepted_or_refused q with ⟨p, hp⟩ | ⟨f', hf'⟩
    · rw [ofQuery_of_accepted hp] at h
      cases h
    · rw [ofQuery_of_refused hf'] at h
      exact Except.error.inj h ▸ hf'
  · exact ofQuery_of_refused

/-- A query is accepted exactly for a page whose offset 64 bits can say, which is then exact, and any
other is refused for the first of its faults. A page made without a query has the exact offset as
long as 64 bits can say it, and the greatest number instead of any other. -/
theorem queries_address_representable_pages :
    (∀ q p, (ofQuery q = .ok p ↔ Accepted q p) ∧ (ofQuery q = .ok p →
      p.exactOffset? = some ((p.number - 1) * p.size) ∧ p.offset = (p.number - 1) * p.size)) ∧
    (∀ q f, ofQuery q = .error f ↔ Refused q f) ∧
    ∀ (number size : Int64) key order,
      let p := normalized number.toInt size.toInt key order
      let before := (max number.toInt 1 - 1) * if size.toInt ≤ 0 then 10 else size.toInt
      0 ≤ before ∧ (p.exactOffset? = none ↔ 2 ^ 63 - 1 < before) ∧
        (2 ^ 63 - 1 < before → p.offset = 2 ^ 63 - 1) ∧
        (before ≤ 2 ^ 63 - 1 → p.exactOffset? = some before ∧ p.offset = before) := by
  refine ⟨fun q p => ⟨ofQuery_ok_iff, fun h => (ofQuery_ok_iff.mp h).exactOffset?⟩,
    fun q f => ofQuery_error_iff, ?_⟩
  intro number size key order p before
  have hnumber : 1 ≤ p.number := one_le_number ..
  have hsize : 1 ≤ p.size := one_le_size ..
  have hbefore : 0 ≤ before := product_nonneg hnumber hsize
  have hoffset : p.offset = min before (2 ^ 63 - 1) := offset_eq hnumber hsize
  have hexact (h : before ≤ 2 ^ 63 - 1) : p.exactOffset? = some before :=
    exactOffset?_of_le hnumber hsize h
  refine ⟨hbefore, ?_, ?_, ?_⟩
  · constructor
    · intro hnone
      by_contra hle
      rw [hexact (Int.not_lt.mp hle)] at hnone
      cases hnone
    · exact exactOffset?_of_lt (p := p)
  · intro hlt
    rw [hoffset]
    omega
  · intro hle
    refine ⟨hexact hle, ?_⟩
    rw [hoffset]
    omega

end LiveComments.Page
