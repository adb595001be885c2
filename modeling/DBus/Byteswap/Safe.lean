/-
  Swapping a body that the validator accepted.

  The swapper follows the validator, over a memory that agrees with the body from the current
  position on (`Ahead`).  The only thing that can stop it is its own test of the length of an
  array (`Part.swappable`), which the validator's limit does not imply for elements of
  alignment one (`accepted_swaps_iff`).
-/
import DBus.Body.Decode
import DBus.Byteswap.Encode
import DBus.Reader.TypesOnly

namespace DBus

open Outcome Memory Align Endian Value Traced List

def Part.swappable : Part → Bool
  | .array t len =>
    match t.getAlignment with
    | .ok alignment => len / alignment < maximumArrayLength
    | .error _ => true
  | _ => true

/-- The memory `m'` agrees with the memory `m` from `p` on, and all of the body can
    still be read. -/
structure Ahead (m : ℕ → Option UInt8) (e p : ℕ) (m' : ℕ → Option UInt8) : Prop where
  readable : Readable m' 0 e
  agree : ∀ k, p ≤ k → k < e → m' k = m k

section
variable {o : ByteOrder} {m m' : ℕ → Option UInt8} {e p q a n w : ℕ} {f : FixedType} {len : ℕ}
  {r : TypeReader}
  {helper : TypeReader → Bool → ℕ → (ℕ → Option UInt8) → Res (ℕ × (ℕ → Option UInt8))}
  {s : DBusString} {sub : TypeReader}

section
variable (h : Ahead m e p m')
include h

theorem Ahead.mono (hq : p ≤ q) : Ahead m e q m' :=
  ⟨h.readable, fun k hk he => h.agree k (hq.trans hk) he⟩

theorem Ahead.holds {xs : List UInt8} (hq : p ≤ q) (hle : q + xs.length ≤ e) (hx : Holds m q xs) :
    Holds m' q xs := fun k hk => by
  rw [h.agree _ (by omega) (by omega), hx k hk]

theorem Ahead.store {xs ys : List UInt8} (hy : Holds m' a ys) (hl : xs.length = ys.length)
    (hp : p ≤ q) (hq : a + xs.length ≤ q) : Ahead m e q (store m' a xs) := by
  refine ⟨fun k hk he => ?_, fun k hk he => ?_⟩
  · rw [isSome_store hy hl]
    exact h.readable k hk he
  · rw [store_of_ge (hq.trans hk)]
    exact h.agree k (hp.trans hk) he

end

/-! ## Words and blocks -/

theorem swapBytes_ahead (h : Ahead m e p m') (hp : p ≤ a) (ha : a + w ≤ e) :
    ∃ m1, swapBytes m' a w = .ok m1 ∧ Ahead m e (a + w) m1 := by
  obtain ⟨bs, hl, hbs⟩ := h.readable.holds (Nat.zero_le a) ha
  refine ⟨store m' a bs.reverse, ?_, ?_⟩
  · simp [swapBytes, readN_eq_some.2 ⟨hl, hbs⟩]
  · exact h.store hbs (by simp) (by omega) (by simp [hl])

theorem swapElements_ahead (n : ℕ) (h : Ahead m e p m') (hp : p ≤ a) (ha : a + n * w ≤ e) :
    ∃ m1, swapElements w n a m' = .ok m1 ∧ Ahead m e (a + n * w) m1 := by
  induction n generalizing m' p a with
  | zero => exact ⟨m', rfl, h.mono (by omega)⟩
  | succ n ih =>
    rw [Nat.succ_mul] at ha ⊢
    obtain ⟨m1, hm1, h1⟩ := swapBytes_ahead (w := w) h hp (by omega)
    obtain ⟨m2, hm2, h2⟩ := ih h1 (le_refl _) (by omega)
    refine ⟨m2, ?_, h2.mono (by omega)⟩
    rw [swapElements, hm1, ok_bind, hm2]

theorem swapBlock_ahead (h : Ahead m e p m') (hp : p ≤ a) (hd : f.size ∣ a) (ha : a + len ≤ e) :
    ∃ m1, swapBlock a len f.size m' = .ok m1 ∧ Ahead m e (a + len) m1 := by
  have hle := Nat.div_mul_le_self len f.size
  obtain ⟨m1, hm1, h1⟩ := swapElements_ahead (w := f.size) (len / f.size) h hp (by omega)
  have har : alignUp a f.size = a := alignUp_of_dvd hd
  by_cases hf : f = .byte
  · subst hf
    exact ⟨m', rfl, h.mono (by omega)⟩
  · refine ⟨m1, ?_, h1.mono (by omega)⟩
    rw [swapBlock, if_pos (by cases f <;> first | exact absurd rfl hf | decide), swapArray,
      assert_bind har]
    cases f <;> first | exact absurd rfl hf | exact hm1

theorem swapLength_ahead (h : Ahead m e p m') (hn : n < 2 ^ 32)
    (hw : Holds m p (pad p 4 ++ toBytes o 4 n)) (he : alignUp p 4 + 4 ≤ e) :
    ∃ m1, swapLength o p m' = .ok (n, alignUp p 4 + 4, m1) ∧ Ahead m e (alignUp p 4 + 4) m1 := by
  have hlen := add_length_word (p := p) (n := n)
  have hw' := h.holds (le_refl p) (by rw [hlen]; exact he) hw
  refine ⟨_, swapLength_eq hn hw', h.store hw' ?_ ?_ (hlen _).le⟩
  · rw [length_append, length_append, length_toBytes, length_toBytes]
  · have := le_alignUp (n := p) (show 0 < 4 by decide)
    omega

/-! ## Values -/

/-- Where the swapper stands after a value that ends at `q`. -/
def SwappedTo (m : ℕ → Option UInt8) (e q : ℕ) (out : ℕ × (ℕ → Option UInt8)) : Prop :=
  out.1 = q ∧ Ahead m e q out.2

theorem swapBasic_ahead {b : BasicType} {v : Value} (hv : v.ty = .basic b)
    (hd : Denotes o m p q [v]) (hq : q ≤ e) (h : Ahead m e p m') :
    ∃ out, swapValue o helper n r p m' (.basic b) = .ok out ∧ SwappedTo m e q out := by
  obtain ⟨hwf, -, -, hh, rfl⟩ := denotes_singleton.1 hd
  have hh' := h.holds (le_refl p) hq hh
  have hkp : SwappedTo m e (p + (v.encode o p).length)
      (p + (v.encode o p).length, store m' p (v.encode o.other p)) := by
    refine ⟨rfl, h.store hh' (length_encode_order ..) (Nat.le_add_right ..) ?_⟩
    rw [length_encode_order (o := o.other) o]
  cases v with
  | fixed f k =>
    obtain rfl : BasicType.fixed f = b := Ty.basic.inj hv
    exact ⟨_, swapFixed_encode hh', hkp⟩
  | str s bs =>
    obtain rfl : BasicType.str s = b := Ty.basic.inj hv
    exact ⟨_, swapStr_encode hwf hh', hkp⟩
  | _ => cases hv

/-! ## The notes of fixed-size elements -/

theorem forall_notes_traceBoolean : ∀ i ∈ (traceBoolean o m p).notes, i.swappable = true :=
  forall_notes_bind (forall_notes_note rfl) fun _ _ => forall_notes_lift

theorem forall_notes_traceFixed (f : FixedType) :
    ∀ i ∈ (traceFixed o m e f p).notes, i.swappable = true := by
  unfold traceFixed
  split
  · exact forall_notes_lift
  · refine forall_notes_bind forall_notes_lift fun _ _ => ?_
    refine forall_notes_bind forall_notes_lift fun _ _ => ?_
    split
    · exact forall_notes_bind forall_notes_traceBoolean fun _ _ => forall_notes_lift
    · exact forall_notes_lift

theorem forall_notes_traceBooleans (arrayEnd : ℕ) :
    ∀ i ∈ (traceBooleans o m arrayEnd n p).notes, i.swappable = true := by
  induction n generalizing p with
  | zero => exact forall_notes_lift
  | succ n ih =>
    rw [traceBooleans]
    split
    · exact forall_notes_bind forall_notes_traceBoolean fun _ _ => ih
    · exact forall_notes_lift

theorem forall_notes_traceElements {t : TypeCode}
    {helper : TypeReader → Bool → ℕ → Traced Part Stop ℕ} (ht : r.getElementType = .ok t)
    (hf : t.fixed? = some f) :
    ∀ i ∈ (traceElements o m helper n r len a).notes, i.swappable = true := by
  refine forall_notes_bind forall_notes_lift fun sub _ => ?_
  refine forall_notes_bind forall_notes_lift fun t' ht' => ?_
  rw [out_lift, ht, Except.ok.injEq] at ht'
  subst ht'
  rw [hf]
  cases f with
  | boolean => exact forall_notes_traceBooleans _
  | _ => exact forall_notes_lift

/-! ## Containers -/

/-- The swapper, with one more step, follows the validator from any position. -/
def Swaps (o : ByteOrder) (m : ℕ → Option UInt8) (e n : ℕ) : Prop :=
  ∀ {s : DBusString} {r : TypeReader} {walk : Bool} {p q : ℕ} {m' : ℕ → Option UInt8},
    s.Terminated → s.str s.len = some 0 → TypesOnly s r → Ahead m e p m' →
    Followed (·.swappable = true) .assertion (traceHelper o m e n r walk p) q
      (byteswapBodyHelper o (n + 1) r walk p m') (SwappedTo m e q)

section
variable (ih : Swaps o m e n)
include ih

section
variable (hs : s.Terminated) (hend : s.str s.len = some 0)
include hs hend

theorem Swaps.loop (hsb : TypesOnly s sub) (arrayEnd k : ℕ) (h : Ahead m e p m') :
    Followed (·.swappable = true) .assertion
      (traceLoop (traceHelper o m e n sub false) arrayEnd k p) q
      (swapLoop (byteswapBodyHelper o (n + 1) sub false) arrayEnd (k + 1) p m')
      (SwappedTo m e q) := by
  induction k generalizing p m' with
  | zero => exact followed_lift nofun
  | succ k ihk =>
    rw [traceLoop, swapLoop]
    split
    · refine .bind (fun _ _ _ => ih hs hend hsb h) ?_
      rintro p1 ⟨_, m1⟩ - ⟨rfl, h1⟩
      exact ihk h1
    · exact followed_pure fun hq => ⟨_, rfl, hq, hq ▸ h⟩

theorem Swaps.array (hr : TypesOnly s r) (h : Ahead m e p m') :
    Followed (·.swappable = true) .assertion (traceArray o m e (traceHelper o m e n) n r p) q
      (swapArrayValue o (byteswapBodyHelper o (n + 1)) (n + 1) r p m') (SwappedTo m e q) := by
  refine .lift_bind fun ⟨t, len, a⟩ hst => ?_
  obtain ⟨ht, -, hlen, -, hw, hae, al, hal, ha, -⟩ := arrayStart_eq_ok.1 hst
  have hle : alignUp p 4 + 4 ≤ a := ha ▸ le_alignUp (t.getAlignment_pos hal)
  obtain ⟨m1, hm1, h1⟩ := swapLength_ahead h hlen hw (by omega)
  obtain ⟨sub, hrc⟩ := hr.recurse_of_getElementType ht
  have hsb := (hr.recurse_sat hs).of_ok hrc
  simp only [swapArrayValue, hm1, ok_bind, ht, hal, ← ha]
  have hi : (Part.array t len).swappable = true ↔ len / al < maximumArrayLength := by
    rw [Part.swappable, hal]
    exact decide_eq_true_iff
  refine .note_bind hi ?_
  cases hf : t.fixed? with
  | none =>
    simp only [hrc, ok_bind]
    split
    · rw [← bind_pure (swapLoop _ _ _ _ _)]
      refine .bind (R := SwappedTo m e) (fun p1 _ _ => ?_) ?_
      · refine .lift_bind fun sub' hsb' => .lift_bind fun t' ht' => ?_
        obtain rfl : sub = sub' := Except.ok.inj (hrc.symm.trans hsb')
        obtain rfl : t = t' := Except.ok.inj (ht.symm.trans ht')
        rw [hf]
        exact ih.loop hs hend hsb _ _ (h1.mono hle)
      · rintro p1 ⟨_, m2⟩ - ⟨rfl, h2⟩
        exact .lift_bind fun _ _ => followed_pure fun hq => ⟨_, rfl, hq, hq ▸ h2⟩
    · next hl0 =>
      refine followed_pure fun hq => ⟨(a, m1), ?_, hq, hq ▸ h1.mono hle⟩
      simp [swapLoop, if_neg (by omega)]
  | some f =>
    obtain rfl := TypeCode.eq_of_fixed hf
    obtain rfl : f.size = al := Except.ok.inj hal
    have hd : f.size ∣ a := ha ▸ dvd_alignUp
    obtain ⟨m2, hm2, h2⟩ := swapBlock_ahead h1 hle hd hae
    simp only [hm2, ok_bind, pure_eq_ok]
    split
    · refine followed_of_forall (forall_notes_bind (forall_notes_traceElements ht hf) fun _ _ =>
        forall_notes_bind forall_notes_lift fun _ _ => forall_notes_lift) fun ho => ?_
      simp only [out_bind, out_lift, bind_eq_ok, require_eq_ok, exists_const, out_pure,
        Except.ok.injEq] at ho
      obtain ⟨_, -, rfl, rfl⟩ := ho
      exact ⟨_, rfl, rfl, h2⟩
    · next hl0 =>
      refine followed_pure fun hq => ⟨_, rfl, ?_, ?_⟩
      · simp only; omega
      · exact (show a + len = q by omega) ▸ h2

end

theorem Swaps.variant (hm : Readable m 0 e) (h : Ahead m e p m') :
    Followed (·.swappable = true) .assertion (traceVariant m e (traceHelper o m e n) p) q
      (swapVariant (byteswapBodyHelper o (n + 1)) p m') (SwappedTo m e q) := by
  refine .lift_bind fun ⟨sig, a⟩ hst => ?_
  obtain ⟨cs, rfl, hv, hsg, t, al, hfr, -, hal, rfl, hle, -, -⟩ :=
    (variantStart_eq_ok (hm.mono (Nat.zero_le p))).1 hst
  have hle' := le_alignUp (n := p + (sigBytes cs).length) (t.getAlignment_pos hal)
  have hsg' := h.holds (le_refl p) hle hsg
  have hcs := toNat_length hv.length_le
  have hmx : cs.length ≤ stringMaxMaxLength := hv.length_le.trans (by decide)
  rw [length_sigBytes] at hle hle'
  -- the text of the signature is still the one that was validated
  have hw : window m' (p + 1) cs.length = window m (p + 1) cs.length :=
    window_congr fun k hk => h.agree _ (by omega) (by omega)
  have htx := (holds_window (n := cs.length) (by simp)).2 (holds_sigBytes.1 hsg).2
  have htr : DBusString.Terminated ⟨window m (p + 1) cs.length, cs.length⟩ := fun i hi => by
    have htext_i := htx i (by simpa using Nat.lt_succ_of_le hi)
    rw [Nat.zero_add] at htext_i
    exact (congrArg Option.isSome htext_i).trans rfl
  have hnl : window m (p + 1) cs.length cs.length = some 0 := by
    simpa using (holds_append.1 htx).2 0 (by simp)
  have hp : p + 1 + cs.length + 1 = p + (cs.length + 2) := by omega
  simp only [swapVariant, derefAt_eq_ok.2 (holds_sigBytes.1 hsg').1, ok_bind, hcs,
    initConstLen_eq_ok.2 ⟨hmx, rfl⟩, hw, hfr, hal, length_sigBytes, hp]
  refine .note_of rfl ?_
  rw [← bind_pure (byteswapBodyHelper _ _ _ _ _ _)]
  refine .bind (R := SwappedTo m e)
    (fun _ _ _ => ih htr hnl (typesOnly_init _ _) (h.mono (by omega))) ?_
  rintro p1 ⟨_, m1⟩ - ⟨rfl, h1⟩
  refine .lift_bind fun _ _ => .lift_bind fun _ _ => .lift_bind fun _ _ => .lift_bind fun _ _ => ?_
  exact followed_pure fun hq => ⟨_, rfl, hq, hq ▸ h1⟩

theorem Swaps.struct (hs : s.Terminated) (hend : s.str s.len = some 0) (hr : TypesOnly s r)
    {k : StructKind} (h : Ahead m e p m') :
    Followed (·.swappable = true) .assertion (traceStruct m e (traceHelper o m e n) r p) q
      (swapValue o (byteswapBodyHelper o (n + 1)) (n + 1) r p m' (.struct k))
      (SwappedTo m e q) := by
  refine .lift_bind fun ⟨sub, a⟩ hst => ?_
  obtain ⟨hrc, rfl, -, -⟩ := structStart_eq_ok.1 hst
  simp only [swapValue, hrc, ok_bind]
  exact ih hs hend ((hr.recurse_sat hs).of_ok hrc) (h.mono (le_alignUp (by decide)))

theorem Swaps.value (hm : Readable m 0 e) (he : e ≤ stringMaxMaxLength) (hs : s.Terminated)
    (hend : s.str s.len = some 0) (hr : TypesOnly s r) (h : Ahead m e p m') (hq : q ≤ e)
    (t : TypeCode) :
    Followed (·.swappable = true) .assertion (traceValue o m e (traceHelper o m e n) n r p t) q
      (swapValue o (byteswapBodyHelper o (n + 1)) (n + 1) r p m' t) (SwappedTo m e q) := by
  have hmp := hm.mono (Nat.zero_le p)
  match t with
  | .basic (.fixed f) =>
    refine followed_of_forall (forall_notes_traceFixed f) fun ho => ?_
    obtain ⟨v, hv, hd⟩ := denotes_fixed hmp ((out_traceFixed f p).symm.trans ho) hq
    exact swapBasic_ahead hv hd hq h
  | .basic (.str .string) | .basic (.str .objectPath) =>
    refine followed_lift fun ho => ?_
    obtain ⟨v, hv, hd⟩ := denotes_string (by decide) hmp he ho
    exact swapBasic_ahead hv hd hq h
  | .basic (.str .signature) =>
    refine followed_lift fun ho => ?_
    obtain ⟨v, hv, hd⟩ := denotes_signature hmp ho
    exact swapBasic_ahead hv hd hq h
  | .array => exact ih.array hs hend hr h
  | .variant => exact ih.variant hm h
  | .struct k => exact ih.struct hs hend hr h
  | .invalid | .unknown _ | .beginChar _ | .endChar _ => exact followed_lift nofun

end

theorem swaps (hm : Readable m 0 e) (he : e ≤ stringMaxMaxLength) (n : ℕ) : Swaps o m e n := by
  induction n with
  | zero => exact fun _ _ _ _ => followed_lift (by simp)
  | succ n ih =>
    intro s r walk p q m' hs hend hr h
    rw [traceHelper, byteswapBodyHelper]
    refine .lift_bind fun t ht => ?_
    rw [ht, ok_bind]
    split
    · exact followed_pure fun hq => ⟨_, rfl, hq, hq ▸ h⟩
    · refine .lift_bind fun _ _ => ?_
      refine .bind (R := SwappedTo m e) (fun p1 _ hrs => ?_) ?_
      · refine ih.value hm he hs hend hr h ?_ t
        rw [out_bind, bind_eq_ok] at hrs
        obtain ⟨_, hle, -⟩ := hrs
        exact require_eq_ok.1 hle
      · rintro p1 ⟨_, m1⟩ - ⟨rfl, h1⟩
        refine .lift_bind fun _ _ => ?_
        cases walk with
        | false => exact followed_pure fun hq => ⟨_, rfl, hq, hq ▸ h1⟩
        | true =>
          refine .lift_bind ?_
          rintro ⟨more, r'⟩ hnx
          simp only [if_true, hnx, ok_bind]
          exact ih hs hend ((hr.next_sat hs hend).of_ok hnx) h1

end

/-! ## Whole bodies -/

/-- The swapper of an accepted body stops at an array that fails its test, and nowhere else. -/
theorem BodyAccepted.swaps {o o' : ByteOrder} {sig body : List UInt8} (h : BodyAccepted o sig body)
    (ho : o ≠ o') :
    ((∀ part ∈ bodyParts o sig body, part.swappable = true) →
        ∃ out, byteswapBody o o' sig body = .ok out) ∧
      ((∃ part ∈ bodyParts o sig body, ¬ part.swappable = true) →
        byteswapBody o o' sig body = .error .assertion) := by
  have hm : Readable (DBusString.ofBytes body).str 0 body.length :=
    fun i _ hi => by rw [ofBytes_str_of_lt hi]; rfl
  have hst : Ahead (DBusString.ofBytes body).str body.length 0 (ofList body) := by
    refine ⟨fun i _ hi => by rw [ofList_of_lt hi]; rfl, fun i _ hi => ?_⟩
    rw [ofBytes_str_of_lt hi, ofList_of_lt hi]
  have hrn : Followed _ _ (bodyTrace o sig body) body.length _ _ :=
    DBus.swaps hm h.1 _ (terminated_ofBytes sig) (ofBytes_str_len sig) (typesOnly_init _ 0) hst
  obtain ⟨hg, hb⟩ := hrn ((out_traceHelper ..).trans (bodyAccepted_iff.1 h).2)
  rw [byteswapBody_of_ne ho]
  refine ⟨fun hP => ?_, fun hP => by rw [hb hP, error_bind]⟩
  obtain ⟨⟨_, m1⟩, hot, -, h1⟩ := hg hP
  obtain ⟨bs, hl, hbs⟩ := h1.readable.holds (le_refl 0) (n := body.length) (by omega)
  refine ⟨bs, ?_⟩
  rw [hot, ok_bind, readN_eq_some.2 ⟨hl, hbs⟩, valueOr_some]

/-- **When swapping an accepted body does not abort.**  The swapper runs to
    completion over an accepted body, and inside of it, exactly if there is nothing
    to swap or every array of the body passes the swapper's own test. -/
theorem accepted_swaps_iff {o o' : ByteOrder} {sig body : List UInt8}
    (h : BodyAccepted o sig body) :
    (∃ out, byteswapBody o o' sig body = .ok out) ↔
      o = o' ∨ ∀ part ∈ bodyParts o sig body, part.swappable = true := by
  by_cases ho : o = o'
  · subst ho
    exact ⟨fun _ => .inl rfl, fun _ => ⟨body, byteswapBody_self ..⟩⟩
  · obtain ⟨hg, hb⟩ := h.swaps ho
    constructor
    · rintro ⟨out, hot⟩
      refine .inr fun part hp => ?_
      by_contra hn
      simp [hb ⟨part, hp, hn⟩] at hot
    · rintro (heq | hP)
      · exact absurd heq ho
      · exact hg hP

theorem sampleBody_swaps_iff :
    (∃ out, byteswapBody .little .big (Ty.sigList bodyTypes) sampleBody = .ok out) ↔
      ByteOrder.little = .big ∨
        ∀ part ∈ bodyParts .little (Ty.sigList bodyTypes) sampleBody, part.swappable = true :=
  accepted_swaps_iff sampleBody_accepted

def longestArray : List Value :=
  [.array (.basic (.fixed .byte)) (.replicate maximumArrayLength (.fixed .byte 0))]

theorem wfList_replicate {v : Value} (hv : v.WF) : ∀ n, WFList (.replicate n v)
  | 0 => trivial
  | n + 1 => ⟨hv, wfList_replicate hv n⟩

theorem tyList_replicate (v : Value) : ∀ n, ∀ t ∈ tyList (.replicate n v), t = v.ty
  | 0, t, h => by cases h
  | n + 1, t, h => by
    rw [replicate_succ, tyList_cons] at h
    obtain rfl | h := mem_cons.1 h
    · rfl
    · exact tyList_replicate v n t h

theorem longestArray_aborts :
    Grammatical (tyList longestArray) ∧ (encodeList .little 0 longestArray).length ≤ 2 ^ 27 ∧
      BodyAccepted .little (Ty.sigList (tyList longestArray)) (encodeList .little 0 longestArray) ∧
      byteswapBody .little .big (Ty.sigList (tyList longestArray))
        (encodeList .little 0 longestArray) = .error .assertion := by
  have hty := tyList_replicate (.fixed .byte 0) maximumArrayLength
  have hlen : ∀ p, (encodeList .little p (.replicate maximumArrayLength (.fixed .byte 0))).length
      = maximumArrayLength := fun p => by
    rw [length_encodeList_fixed _ hty (Nat.one_dvd p), length_replicate]
    exact Nat.mul_one _
  have hg : Grammatical (tyList longestArray) := by constructor <;> decide
  have hf := Ty.formedList_mono _ hg.formed
  have hz : (Value.fixed .byte 0).WF := show 0 < 256 ^ 1 by decide
  have hwf : WFList longestArray := ⟨⟨hty, wfList_replicate hz _⟩, trivial⟩
  have hft : fitsList .little 0 longestArray :=
    ⟨⟨(hlen _).le, everyArrayList_fixed _ hty⟩, trivial⟩
  have hb : (encodeList .little 0 longestArray).length = 4 + maximumArrayLength := by
    have hend := add_length_encode_array (o := .little) (.basic (.fixed .byte))
      (List.replicate maximumArrayLength (.fixed .byte 0)) 0
    have hst : alignUp (alignUp 0 4 + 4) (Ty.basic (.fixed .byte)).alignment = 4 := by decide
    rw [hlen, hst, Nat.zero_add] at hend
    rw [longestArray, encodeList_cons, encodeList_nil, append_nil, hend]
  refine ⟨hg, ?_, bodyAccepted_encode hf hwf hft ?_, (byteswapBody_encode hf hwf hft).2 ?_⟩
  · rw [hb]
    decide
  · rw [hb]
    decide
  · rintro ⟨⟨hte, -⟩, -⟩
    rw [hlen] at hte
    exact absurd hte (by decide)

end DBus
