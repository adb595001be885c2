/-
  The form of a match rule's text, and that `tokenize_rule` finds it.

  An item is a key, `=` and a value written as for the shell, with blanks before the key and
  before `=`.  For a text without NUL, `tokenizeLoop` runs along the items until it has all of
  them, one has no key, or 16 are found.
-/
import DBus.Bus.MatchRule

namespace DBus

open List

/-! ## Items -/

def Blank (s : List UInt8) : Prop := ∀ c ∈ s, isRuleWhite c = true

/-- A key: not empty, without blanks and `=`. -/
structure IsKey (k : List UInt8) : Prop where
  nonempty : k ≠ []
  byte : ∀ c ∈ k, isKeyByte c = true

/-- How a value is written. -/
inductive Quoted : List UInt8 → List UInt8 → Prop
  | nil : Quoted [] []
  | plain {c : UInt8} {t v : List UInt8} : c ≠ 0 → c ≠ '\''.toUInt8 → c ≠ ','.toUInt8 →
      c ≠ '\\'.toUInt8 → Quoted t v → Quoted (c :: t) (c :: v)
  | quoted {s t v : List UInt8} : 0 ∉ s → '\''.toUInt8 ∉ s → Quoted t v →
      Quoted ('\''.toUInt8 :: (s ++ '\''.toUInt8 :: t)) (s ++ v)
  | mark {t v : List UInt8} : Quoted t v → Quoted ('\\'.toUInt8 :: '\''.toUInt8 :: t) ('\''.toUInt8 :: v)
  | backslash {c : UInt8} {t v : List UInt8} : c ≠ 0 → c ≠ '\''.toUInt8 → Quoted t v →
      Quoted ('\\'.toUInt8 :: c :: t) ('\\'.toUInt8 :: c :: v)

/-- How the value of the last item is written: a backslash may be the last byte. -/
def QuotedEnd (t v : List UInt8) : Prop :=
  Quoted t v ∨ ∃ t' v', Quoted t' v' ∧ t = t' ++ ['\\'.toUInt8] ∧ v = v' ++ ['\\'.toUInt8]

/-- An item, with its value written as `written` says. -/
def Item (written : List UInt8 → List UInt8 → Prop) (k v t : List UInt8) : Prop :=
  ∃ w w' q, Blank w ∧ IsKey k ∧ Blank w' ∧ written q v ∧ t = w ++ (k ++ (w' ++ '='.toUInt8 :: q))

/-- A text begins with items that end with commas. -/
inductive Scanned : List UInt8 → List (List UInt8 × List UInt8) → List UInt8 → Prop
  | nil (s : List UInt8) : Scanned s [] s
  | cons {k v t s rest : List UInt8} {items : List (List UInt8 × List UInt8)} :
      Item Quoted k v t → Scanned s items rest → Scanned (t ++ ','.toUInt8 :: s) ((k, v) :: items) rest

/-- The text of a rule: items separated by commas, behind the last of which a comma and
    blanks may stand. -/
def RuleText (text : List UInt8) (items : List (List UInt8 × List UInt8)) : Prop :=
  ∃ done rest, Scanned text done rest ∧
    ((Blank rest ∧ items = done) ∨ ∃ k v, Item QuotedEnd k v rest ∧ items = done ++ [(k, v)])

/-! ## Keys -/

section
variable {s k v rest w t : List UInt8}

theorem Blank.dropWhile (hw : Blank w) (s : List UInt8) :
    (w ++ s).dropWhile isRuleWhite = s.dropWhile isRuleWhite := dropWhile_append_of_pos hw

theorem exists_blank (s : List UInt8) : ∃ w, Blank w ∧ s = w ++ s.dropWhile isRuleWhite :=
  ⟨s.takeWhile isRuleWhite, fun _ hc => mem_takeWhile_imp hc, takeWhile_append_dropWhile.symm⟩

theorem scan_stops {p : UInt8 → Bool} (h : ∀ c ∈ s.head?, p c = false) :
    s.takeWhile p = [] ∧ s.dropWhile p = s := by
  cases s with
  | nil => exact ⟨rfl, rfl⟩
  | cons c s =>
    have hc := h c rfl
    rw [takeWhile_cons, dropWhile_cons, hc]
    exact ⟨rfl, rfl⟩

theorem IsKey.scan (hk : IsKey k) (hw : Blank w) (rest : List UInt8) :
    (k ++ (w ++ '='.toUInt8 :: rest)).takeWhile isKeyByte = k ∧
      (k ++ (w ++ '='.toUInt8 :: rest)).dropWhile isKeyByte = w ++ '='.toUInt8 :: rest := by
  have hst : ∀ c ∈ (w ++ '='.toUInt8 :: rest).head?, isKeyByte c = false := by
    intro c hc
    cases w with
    | nil =>
      cases hc
      decide
    | cons d w =>
      cases hc
      have := hw _ mem_cons_self
      simp [isKeyByte, this]
  obtain ⟨htk, hdr⟩ := scan_stops hst
  rw [takeWhile_append_of_pos hk.byte, dropWhile_append_of_pos hk.byte, htk, hdr, append_nil]
  exact ⟨rfl, rfl⟩

theorem not_white_of_key {c : UInt8} (h : isKeyByte c = true) : isRuleWhite c = false := by
  simp only [isKeyByte, Bool.and_eq_true, Bool.not_eq_true'] at h
  exact h.2

theorem IsKey.dropWhile (hk : IsKey k) (rest : List UInt8) :
    (k ++ rest).dropWhile isRuleWhite = k ++ rest := by
  refine (scan_stops fun c hc => not_white_of_key ?_).2
  cases k with
  | nil => exact absurd rfl hk.nonempty
  | cons d k =>
    cases hc
    exact hk.byte _ mem_cons_self

theorem findKey_of_key {w' : List UInt8} (hw : Blank w) (hk : IsKey k) (hw' : Blank w')
    (rest : List UInt8) : findKey (w ++ (k ++ (w' ++ '='.toUInt8 :: rest))) = .ok (k, rest) := by
  obtain ⟨htk, hdr⟩ := hk.scan hw' rest
  have heq : (w' ++ '='.toUInt8 :: rest).dropWhile isRuleWhite = '='.toUInt8 :: rest := by
    rw [hw'.dropWhile, dropWhile_cons, if_neg (by decide)]
  simp only [findKey, hw.dropWhile, hk.dropWhile, htk, hdr, heq, hk.nonempty]
  rfl

/-- Where a key is found it is one, and where none is found there are blanks, behind which
    the text ends or `=` stands. -/
theorem findKey_sound (hs : 0 ∉ s) (h : findKey s = .ok (k, rest)) :
    (IsKey k ∧ ∃ w w', Blank w ∧ Blank w' ∧ s = w ++ (k ++ (w' ++ '='.toUInt8 :: rest))) ∨
      (k = [] ∧ rest = s.dropWhile isRuleWhite ∧ (rest = [] ∨ rest.head? = some '='.toUInt8)) := by
  obtain ⟨w, hw, hws⟩ := exists_blank s
  have hnw : ∀ c ∈ (s.dropWhile isRuleWhite).head?, isRuleWhite c = false := by
    intro c hc
    have := head?_dropWhile_not isRuleWhite s
    rw [show (s.dropWhile isRuleWhite).head? = some c from hc] at this
    simpa using this
  have h0 : 0 ∉ s.dropWhile isRuleWhite := by
    intro h0
    rw [hws] at hs
    exact hs (mem_append_right _ h0)
  simp only [findKey] at h
  generalize s.dropWhile isRuleWhite = u at hws hnw h0 h ⊢
  split at h
  · rename_i hky
    cases h
    -- the first byte is none of a key, no blank and no NUL
    have hst : ∀ c ∈ u.head?, isKeyByte c = false := by
      intro c hc
      cases u with
      | nil => cases hc
      | cons d u =>
        cases hc
        rw [takeWhile_cons] at hky
        by_contra hd
        simp [if_pos (by simpa using hd)] at hky
    rw [(scan_stops hst).2, (scan_stops hnw).2]
    refine .inr ⟨rfl, rfl, ?_⟩
    cases u with
    | nil => exact .inl rfl
    | cons c u =>
      right
      have hc := hst c rfl
      have hw := hnw c rfl
      have hz : c ≠ 0 := by
        rintro rfl
        exact h0 mem_cons_self
      simp only [isKeyByte, hw, hz, Bool.not_false, Bool.and_true, ne_eq, not_false_eq_true,
        decide_true, Bool.true_and, decide_eq_false_iff_not, not_not] at hc
      simp [hc]
  · rename_i hky
    split at h
    · rename_i heq
      cases h
      obtain ⟨w', hw', hws'⟩ := exists_blank (u.dropWhile isKeyByte)
      have hrs : (u.dropWhile isKeyByte).dropWhile isRuleWhite =
          '='.toUInt8 :: ((u.dropWhile isKeyByte).dropWhile isRuleWhite).tail := by
        cases hr : (u.dropWhile isKeyByte).dropWhile isRuleWhite with
        | nil => rw [hr] at heq; cases heq
        | cons d r =>
          rw [hr] at heq
          cases heq
          rfl
      refine .inl ⟨⟨hky, fun c hc => mem_takeWhile_imp hc⟩, w, w', hw, hw', ?_⟩
      rw [← hrs, ← hws', takeWhile_append_dropWhile]
      exact hws
    · cases h

/-! ## Values -/

theorem findValueLoop_backslash (acc s : List UInt8) :
    findValueLoop .none acc ('\\'.toUInt8 :: s) = findValueLoop .backslash acc s := by
  rw [findValueLoop, if_neg (by decide)]
  simp only [if_neg (show ¬ '\\'.toUInt8 = '\''.toUInt8 by decide),
    if_neg (show ¬ '\\'.toUInt8 = ','.toUInt8 by decide), if_true]

theorem findValueLoop_quoted (h : Quoted t v) (acc s : List UInt8) :
    findValueLoop .none acc (t ++ s) = findValueLoop .none (acc ++ v) s := by
  induction h generalizing acc with
  | nil => rw [nil_append, append_nil]
  | plain h0 hq hc hb _ ih =>
    rw [cons_append, findValueLoop, if_neg h0]
    simp only [if_neg hq, if_neg hc, if_neg hb]
    simp [ih, append_assoc]
  | @quoted u t v h0 hq _ ih =>
    have hi : ∀ (u acc : List UInt8), 0 ∉ u → '\''.toUInt8 ∉ u →
        findValueLoop .quote acc (u ++ '\''.toUInt8 :: (t ++ s)) =
          findValueLoop .none (acc ++ u) (t ++ s) := by
      intro u
      induction u with
      | nil =>
        intro acc _ _
        rw [nil_append, findValueLoop, if_neg (by decide), append_nil]
        rfl
      | cons c u ihu =>
        intro acc h0 hq
        have hc0 : c ≠ 0 := fun he => h0 (by rw [he]; exact mem_cons_self)
        have hcq : c ≠ '\''.toUInt8 := fun he => hq (by rw [he]; exact mem_cons_self)
        rw [cons_append, findValueLoop, if_neg hc0]
        simp only [if_neg hcq]
        simp [ihu _ (fun h => h0 (mem_cons_of_mem _ h)) fun h => hq (mem_cons_of_mem _ h),
          append_assoc]
    rw [cons_append, findValueLoop, if_neg (by decide), append_assoc, cons_append]
    simp only [if_true]
    rw [hi u acc h0 hq, ih, append_assoc]
  | mark _ ih =>
    rw [cons_append, cons_append, findValueLoop_backslash, findValueLoop, if_neg (by decide)]
    simp only [ne_eq, not_true_eq_false, if_false]
    simp [ih, append_assoc]
  | backslash h0 hq _ ih =>
    rw [cons_append, cons_append, findValueLoop_backslash, findValueLoop, if_neg h0]
    simp only [ne_eq, hq, not_false_eq_true, if_true]
    simp [ih, append_assoc]

theorem findValue_comma (h : Quoted t v) (s : List UInt8) :
    findValue (t ++ ','.toUInt8 :: s) = .ok (v, s) := by
  have hst : findValueLoop .none v (','.toUInt8 :: s) = (.none, v, s) := by
    rw [findValueLoop, if_neg (by decide)]
    simp only [if_neg (show ¬ ','.toUInt8 = '\''.toUInt8 by decide), if_true]
  rw [findValue, findValueLoop_quoted h, nil_append, hst]

theorem findValue_end (h : QuotedEnd t v) : findValue t = .ok (v, []) := by
  rcases h with h | ⟨t', v', h, rfl, rfl⟩
  · rw [findValue, ← append_nil t, findValueLoop_quoted h, nil_append]
    rfl
  · rw [findValue, findValueLoop_quoted h, nil_append, findValueLoop_backslash]
    rfl

theorem findValueLoop_quote (s acc : List UInt8) (hs : 0 ∉ s) :
    (∃ u s', s = u ++ '\''.toUInt8 :: s' ∧ '\''.toUInt8 ∉ u ∧
      findValueLoop .quote acc s = findValueLoop .none (acc ++ u) s') ∨
    (findValueLoop .quote acc s).1 = .quote := by
  induction s generalizing acc with
  | nil => exact .inr rfl
  | cons c s ih =>
    have hc0 : c ≠ 0 := fun he => hs (by rw [he]; exact mem_cons_self)
    have hs' : 0 ∉ s := fun h => hs (mem_cons_of_mem _ h)
    rw [findValueLoop, if_neg hc0]
    by_cases hq : c = '\''.toUInt8
    · left
      refine ⟨[], s, by rw [hq]; rfl, not_mem_nil, ?_⟩
      simp only [if_pos hq, append_nil]
    · simp only [if_neg hq]
      rcases ih (acc ++ [c]) hs' with ⟨u, s', rfl, hu, hl⟩ | hl
      · left
        refine ⟨c :: u, s', rfl, ?_, ?_⟩
        · rw [mem_cons, not_or]
          exact ⟨fun he => hq he.symm, hu⟩
        · simp [hl, append_assoc]
      · exact .inr hl

/-- What the loop of `find_value` has read, unless it ends in a quoted part: `value` is `acc` and
    the value of the text `s` up to `rest`. -/
def ValueRead (s acc : List UInt8) (q : QuoteChar) (value rest : List UInt8) : Prop :=
  ∃ v, value = acc ++ v ∧
    (q = .none → (rest = [] ∧ Quoted s v) ∨ ∃ t, s = t ++ ','.toUInt8 :: rest ∧ Quoted t v) ∧
    (q = .backslash → rest = [] ∧ ∃ t, s = t ++ ['\\'.toUInt8] ∧ Quoted t v) ∨ q = .quote

theorem findValueLoop_sound (n : ℕ) (s acc value rest : List UInt8) (q : QuoteChar)
    (hn : s.length ≤ n) (hs : 0 ∉ s) (h : findValueLoop .none acc s = (q, value, rest)) :
    ValueRead s acc q value rest := by
  -- the induction is on the length, since a quoted part is read as a whole
  induction n generalizing s acc with
  | zero =>
    cases s with
    | nil =>
      cases h
      exact ⟨[], .inl ⟨(append_nil _).symm, fun _ => .inl ⟨rfl, .nil⟩, nofun⟩⟩
    | cons c s => simp at hn
  | succ n ih =>
    -- what has been read before the rest is put before what the induction gives
    have hp : ∀ (p w s' : List UInt8) (acc' : List UInt8), s = p ++ s' → acc' = acc ++ w →
        s'.length ≤ n → (∀ t v, Quoted t v → Quoted (p ++ t) (w ++ v)) →
        findValueLoop .none acc' s' = (q, value, rest) → ValueRead s acc q value rest := by
      rintro p w s' acc' rfl rfl hl hq hlp
      obtain ⟨v, ⟨hv, hnn, hb⟩ | hqt⟩ := ih s' (acc ++ w) hl
        (fun h0 => hs (mem_append_right _ h0)) hlp
      · refine ⟨w ++ v, .inl ⟨by rw [hv, append_assoc], fun he => ?_, fun he => ?_⟩⟩
        · rcases hnn he with ⟨hr, hqv⟩ | ⟨t, rfl, hqv⟩
          · exact .inl ⟨hr, hq _ _ hqv⟩
          · exact .inr ⟨p ++ t, by rw [append_assoc], hq _ _ hqv⟩
        · obtain ⟨hr, t, rfl, hqv⟩ := hb he
          exact ⟨hr, p ++ t, by rw [append_assoc], hq _ _ hqv⟩
      · exact ⟨[], .inr hqt⟩
    cases s with
    | nil =>
      cases h
      exact ⟨[], .inl ⟨(append_nil _).symm, fun _ => .inl ⟨rfl, .nil⟩, nofun⟩⟩
    | cons c s =>
      have hc0 : c ≠ 0 := fun he => hs (by rw [he]; exact mem_cons_self)
      have hs' : 0 ∉ s := fun h => hs (mem_cons_of_mem _ h)
      rw [length_cons] at hn
      rw [findValueLoop, if_neg hc0] at h
      by_cases hqt : c = '\''.toUInt8
      · rw [if_pos hqt] at h
        rcases findValueLoop_quote s acc hs' with ⟨u, s', rfl, hu, hlp⟩ | hlp
        · rw [hlp] at h
          refine hp ('\''.toUInt8 :: (u ++ ['\''.toUInt8])) u s' (acc ++ u) ?_ rfl ?_ ?_ h
          · rw [hqt]
            simp
          · rw [length_append, length_cons] at hn
            omega
          · intro t v hq
            have := Quoted.quoted (fun h0 => hs' (mem_append_left _ h0)) hu hq
            simpa using this
        · rw [h] at hlp
          exact ⟨[], .inr hlp⟩
      · rw [if_neg hqt] at h
        by_cases hcm : c = ','.toUInt8
        · rw [if_pos hcm] at h
          cases h
          exact ⟨[], .inl ⟨(append_nil _).symm, fun _ => .inr ⟨[], by rw [hcm]; rfl, .nil⟩, nofun⟩⟩
        · rw [if_neg hcm] at h
          by_cases hb : c = '\\'.toUInt8
          · rw [if_pos hb] at h
            subst hb
            cases s with
            | nil =>
              cases h
              exact ⟨[], .inl ⟨(append_nil _).symm, nofun, fun _ => ⟨rfl, [], rfl, .nil⟩⟩⟩
            | cons d s =>
              have hd0 : d ≠ 0 := fun he => hs' (by rw [he]; exact mem_cons_self)
              rw [length_cons] at hn
              rw [findValueLoop, if_neg hd0] at h
              by_cases hd : d = '\''.toUInt8
              · rw [if_neg (by simp [hd])] at h
                subst hd
                exact hp ['\\'.toUInt8, '\''.toUInt8] ['\''.toUInt8] s _ rfl rfl (by omega)
                  (fun _ _ hq => .mark hq) h
              · rw [if_pos hd] at h
                exact hp ['\\'.toUInt8, d] ['\\'.toUInt8, d] s _ rfl rfl (by omega)
                  (fun _ _ hq => .backslash hd0 hd hq) h
          · rw [if_neg hb] at h
            exact hp [c] [c] s _ rfl rfl (by omega) (fun _ _ hq => .plain hc0 hqt hcm hb hq) h

theorem findValue_sound (hs : 0 ∉ s) (h : findValue s = .ok (v, rest)) :
    (rest = [] ∧ QuotedEnd s v) ∨ ∃ t, s = t ++ ','.toUInt8 :: rest ∧ Quoted t v := by
  unfold findValue at h
  obtain ⟨q, value, rest', hl⟩ : ∃ q value rest', findValueLoop .none [] s = (q, value, rest') :=
    ⟨_, _, _, rfl⟩
  rw [hl] at h
  obtain ⟨v', ⟨hv, hnn, hb⟩ | hqt⟩ := findValueLoop_sound _ s [] value rest' q le_rfl hs hl
  · rw [nil_append] at hv
    subst hv
    cases q with
    | none =>
      cases h
      rcases hnn rfl with ⟨hr, hq⟩ | ht
      · exact .inl ⟨hr, .inl hq⟩
      · exact .inr ht
    | backslash =>
      cases h
      obtain ⟨hr, t, ht, hq⟩ := hb rfl
      exact .inl ⟨hr, .inr ⟨t, value, hq, ht, rfl⟩⟩
    | quote => cases h
  · subst hqt
    cases h

/-! ## The loop -/

theorem tokenizeLoop_scanned {items : List (List UInt8 × List UInt8)} (h : Scanned s items rest)
    (n : ℕ) : tokenizeLoop (items.length + n) s =
      (tokenizeLoop n rest).map fun tokens => items.map some ++ tokens := by
  induction h with
  | nil s =>
    rw [length_nil, Nat.zero_add]
    cases tokenizeLoop n s <;> rfl
  | @cons k v t s rest items hi _ ih =>
    obtain ⟨w, w', q, hw, hk, hw', hq, rfl⟩ := hi
    have hfn : findKey (w ++ (k ++ (w' ++ '='.toUInt8 :: q)) ++ ','.toUInt8 :: s) =
        .ok (k, q ++ ','.toUInt8 :: s) := by
      have := findKey_of_key hw hk hw' (q ++ ','.toUInt8 :: s)
      simpa using this
    have hne : w ++ (k ++ (w' ++ '='.toUInt8 :: q)) ++ ','.toUInt8 :: s ≠ [] := by simp
    rw [length_cons, show items.length + 1 + n = items.length + n + 1 by omega, tokenizeLoop,
      if_neg hne, hfn]
    simp only [Outcome.ok_bind, if_neg hk.nonempty, findValue_comma hq, ih]
    cases tokenizeLoop n rest <;> rfl

theorem tokenizeLoop_last (h : Item QuotedEnd k v s) (n : ℕ) :
    tokenizeLoop (n + 1) s = .ok [some (k, v)] := by
  obtain ⟨w, w', q, hw, hk, hw', hq, rfl⟩ := h
  have hnl : tokenizeLoop n [] = .ok [] := by cases n <;> rfl
  rw [tokenizeLoop, if_neg (by simp), findKey_of_key hw hk hw']
  simp only [Outcome.ok_bind, if_neg hk.nonempty, findValue_end hq, hnl]
  rfl

theorem tokenizeLoop_blank (h : Blank s) (n : ℕ) :
    ∃ tokens, tokenizeLoop n s = .ok tokens ∧ ∀ t ∈ tokens, t = none := by
  cases n with
  | zero => exact ⟨[], rfl, nofun⟩
  | succ n =>
    rw [tokenizeLoop]
    split
    · exact ⟨[], rfl, nofun⟩
    · have hdr : s.dropWhile isRuleWhite = [] := by
        have := h.dropWhile []
        rwa [append_nil] at this
      have hfn : findKey s = .ok ([], []) := by
        simp only [findKey, hdr]
        rfl
      have hnl : tokenizeLoop n [] = .ok [] := by cases n <;> rfl
      rw [hfn]
      simp only [Outcome.ok_bind, if_true, hnl]
      exact ⟨[none], rfl, by simp⟩

/-- What the loop has found: items, behind which the text is blank, an item has no key, the
    last item comes, or the slots are used up. -/
theorem scanned_of_tokenizeLoop (n : ℕ) (hs : 0 ∉ s)
    {tokens : List (Option (List UInt8 × List UInt8))} (h : tokenizeLoop n s = .ok tokens) :
    ∃ items rest tail, Scanned s items rest ∧ (Blank rest ∧ tokens = items.map some ++ tail ∧
        (∀ t ∈ tail.head?, t = none) ∨
      (rest.dropWhile isRuleWhite).head? = some '='.toUInt8 ∨
      (∃ k v, Item QuotedEnd k v rest ∧ tokens = (items ++ [(k, v)]).map some) ∨
      (items.length = n ∧ tokens = items.map some)) := by
  induction n generalizing s tokens with
  | zero =>
    cases h
    exact ⟨[], s, [], .nil s, .inr (.inr (.inr ⟨rfl, rfl⟩))⟩
  | succ n ih =>
    rw [tokenizeLoop] at h
    split at h
    · rename_i he
      cases h
      exact ⟨[], s, [], .nil s, .inl ⟨by rw [he]; exact nofun, rfl, nofun⟩⟩
    · rw [Outcome.bind_eq_ok] at h
      obtain ⟨⟨k, s'⟩, hky, h⟩ := h
      rcases findKey_sound hs hky with ⟨hk, w, w', hw, hw', rfl⟩ | ⟨rfl, rfl, hrs⟩
      · simp only [if_neg hk.nonempty] at h
        rw [Outcome.bind_eq_ok] at h
        obtain ⟨⟨v, s''⟩, hvl, h⟩ := h
        rw [Outcome.bind_eq_ok] at h
        obtain ⟨tokens', htk, h⟩ := h
        cases h
        have hs' : 0 ∉ s' := fun h0 => hs (by simp [h0])
        rcases findValue_sound hs' hvl with ⟨rfl, hq⟩ | ⟨t, rfl, hq⟩
        · have hnl : tokenizeLoop n [] = .ok [] := by cases n <;> rfl
          rw [hnl] at htk
          cases htk
          exact ⟨[], _, [], .nil _, .inr (.inr (.inl ⟨k, v, ⟨w, w', s', hw, hk, hw', hq, rfl⟩, rfl⟩))⟩
        · have hs'' : 0 ∉ s'' := fun h0 => hs' (by simp [h0])
          obtain ⟨items, rest, tail, hsc, hcs⟩ := ih hs'' htk
          have hcn : Scanned (w ++ (k ++ (w' ++ '='.toUInt8 :: (t ++ ','.toUInt8 :: s''))))
              ((k, v) :: items) rest := by
            have := Scanned.cons (⟨w, w', t, hw, hk, hw', hq, rfl⟩ : Item Quoted k v _) hsc
            simpa using this
          refine ⟨(k, v) :: items, rest, tail, hcn, ?_⟩
          rcases hcs with ⟨hb, rfl, ht⟩ | heq | ⟨k', v', hi, rfl⟩ | ⟨rfl, rfl⟩
          · exact .inl ⟨hb, rfl, ht⟩
          · exact .inr (.inl heq)
          · exact .inr (.inr (.inl ⟨k', v', hi, rfl⟩))
          · exact .inr (.inr (.inr ⟨rfl, rfl⟩))
      · simp only [if_true] at h
        rw [Outcome.bind_eq_ok] at h
        obtain ⟨tokens', htk, h⟩ := h
        cases h
        rcases hrs with hnl | heq
        · have hb : Blank s := dropWhile_eq_nil_iff.1 hnl
          exact ⟨[], s, none :: tokens', .nil s, .inl ⟨hb, rfl, by simp⟩⟩
        · exact ⟨[], s, [], .nil s, .inr (.inl heq)⟩

end

end DBus
