/-
  Which accepted signatures a types-only reader can iterate over.

  If the brackets of an accepted signature nest, no sequence of calls that a client may make
  fails or leaves the signature.  If they do not, the partial parse behind the first crossed
  bracket is a path that leads a reader right before it (`reach_context`), where it asserts.
-/
import DBus.Reader.Iterate

namespace DBus

open Outcome List TypeCode Ty TypeReader Context

/-- The calls a client may make on the reader `r`, and what they return; it
    recurses into the types `may` allows. -/
inductive TypesCall (may : TypeCode → Bool) (r : TypeReader) : Res TypeReader → Prop
  | recurse {t : TypeCode} (h : r.getCurrentType = .ok t) (ht : may t = true) :
    TypesCall may r r.recurse
  | next {t : TypeCode} (h : r.getCurrentType = .ok t) (ht : t ≠ .invalid) :
    TypesCall may r (Prod.snd <$> r.next)

/-- The readers a client can obtain from the reader `r₀`. -/
inductive TypesReach (may : TypeCode → Bool) (r₀ : TypeReader) : TypeReader → Prop
  | refl : TypesReach may r₀ r₀
  | step {r r' : TypeReader} (h : TypesReach may r₀ r) (hc : TypesCall may r (.ok r')) :
    TypesReach may r₀ r'

/-- No sequence of calls on a types-only reader of the signature `cs` fails an
    assertion or moves behind the end of the signature. -/
def Iterable (may : TypeCode → Bool) (cs : List UInt8) : Prop :=
  ∀ r, TypesReach may (.initTypesOnly (.ofBytes cs) 0) r →
    (∃ t, r.getCurrentType = .ok t) ∧ r.typePos ≤ cs.length ∧
      ∀ out, TypesCall may r out → ∃ r', out = .ok r'

/-- The containers whose contents a signature spells out: all but variants,
    into whose type code a types-only reader refuses to recurse. -/
def TypeCode.hasContents : TypeCode → Bool
  | .array | .struct _ => true
  | _ => false

/-! ## Nested brackets -/

variable {ts : List Ty} {may : TypeCode → Bool} {ks : List StructKind} {c : UInt8} {cs : List UInt8}

/-- One call keeps the invariant of an iteration, if it does not recurse into a variant. -/
theorem TypesLeft.call {r : TypeReader} {e : ℕ} {out : Res TypeReader} (h : TypesLeft r ts e)
    (hmay : ∀ t, r.getCurrentType = .ok t → may t = true → t.hasContents = true)
    (hc : TypesCall may r out) :
    ∃ r', out = .ok r' ∧ (∃ ts' e', TypesLeft r' ts' e') ∧ r'.typeStr = r.typeStr := by
  cases ts with
  | nil =>
    cases hc with
    | recurse hcr ht =>
      have := hmay _ hcr ht
      rw [h.getCurrentType_nil, Except.ok.injEq] at hcr
      subst hcr
      exact absurd this nofun
    | next hcr ht =>
      rw [h.getCurrentType_nil, Except.ok.injEq] at hcr
      exact absurd hcr.symm ht
  | cons t ts =>
    cases hc with
    | recurse hcr ht =>
      have hcn := hmay _ hcr ht
      rw [h.getCurrentType_cons, Except.ok.injEq] at hcr
      subst hcr
      cases t with
      | basic b | variant => exact absurd hcn nofun
      | array el =>
        obtain ⟨sub, hrc, hsb, hst, -⟩ := h.recurse_array
        exact ⟨sub, hrc, ⟨_, _, hsb⟩, hst⟩
      | struct k fs =>
        obtain ⟨sub, hrc, hsb, hst, -⟩ := h.recurse_struct
        exact ⟨sub, hrc, ⟨_, _, hsb⟩, hst⟩
    | next hcr ht =>
      obtain ⟨r', hnx, hl, hst, -⟩ := h.next
      exact ⟨r', by rw [hnx]; rfl, ⟨_, _, hl⟩, hst⟩

/-- Every reader that can be reached over the text of a list of types keeps the invariant. -/
theorem TypesLeft.reach {r0 r : TypeReader} {e : ℕ} (h0 : TypesLeft r0 ts e)
    (hmay : ∀ r t, r.typeStr = r0.typeStr → (∃ ts e, TypesLeft r ts e) →
      r.getCurrentType = .ok t → may t = true → t.hasContents = true) (h : TypesReach may r0 r) :
    (∃ ts e, TypesLeft r ts e) ∧ r.typeStr = r0.typeStr := by
  induction h with
  | refl => exact ⟨⟨ts, e, h0⟩, rfl⟩
  | step _ hc ih =>
    obtain ⟨⟨ts', e', hl⟩, hst⟩ := ih
    obtain ⟨r', hr', hlf, hst'⟩ := hl.call (fun t => hmay _ t hst ⟨_, _, hl⟩) hc
    cases hr'
    exact ⟨hlf, hst'.trans hst⟩

theorem iterable_sigList (hf : formedList true ts = true)
    (hmay : ∀ t, may t = true → t.hasContents = true ∨
      t = .variant ∧ toByte .variant ∉ sigList ts) : Iterable may (sigList ts) := by
  intro r hr
  -- a current type that is a variant is a byte of the signature
  have hcn : ∀ r t, r.typeStr = .ofBytes (sigList ts) → (∃ ts e, TypesLeft r ts e) →
      r.getCurrentType = .ok t → may t = true → t.hasContents = true := by
    rintro r t hst ⟨us, e, hl⟩ hcr ht
    refine (hmay t ht).resolve_right ?_
    rintro ⟨rfl, hm⟩
    cases us with
    | nil => rw [hl.getCurrentType_nil] at hcr; cases hcr
    | cons u us =>
      rw [hl.getCurrentType_cons, Except.ok.injEq] at hcr
      obtain ⟨-, x, rest, htx⟩ := hl.textAt
      have hu : u = .variant := by cases u <;> simp_all [code]
      rw [hu, sig, singleton_append, hst] at htx
      have hlt : r.typePos < (sigList ts).length := htx.tail.head_le
      have := htx.head
      rw [ofBytes_str_of_lt hlt, Option.some_inj] at this
      exact hm (this ▸ getElem_mem hlt)
  obtain ⟨⟨us, e, hl⟩, hst⟩ := (TypesLeft.init hf).reach hcn hr
  refine ⟨?_, ?_, fun out ho => ?_⟩
  · cases us with
    | nil => exact ⟨_, hl.getCurrentType_nil⟩
    | cons u us => exact ⟨_, hl.getCurrentType_cons⟩
  · have := hl.typePos_le
    rwa [hst] at this
  · obtain ⟨r', hr', -⟩ := hl.call (fun t => hcn r t hst ⟨_, _, hl⟩) ho
    exact ⟨r', hr'⟩

/-! ## Paths to a place in a signature -/

/-- A types-only reader of class `kl` that has not ended, at the position `p` of the string `s`. -/
structure ReaderAt (s : DBusString) (kl : ReaderClass) (p : ℕ) (r : TypeReader) : Prop where
  klass : r.klass = kl
  finished : r.finished = false
  typeStr : r.typeStr = s
  typePos : r.typePos = p

theorem readerAt_init (cs : List UInt8) :
    ReaderAt (.ofBytes cs) (.body true) 0 (.initTypesOnly (.ofBytes cs) 0) :=
  ⟨rfl, rfl, rfl, rfl⟩

section
variable {s : DBusString} {r0 r : TypeReader} {p : ℕ} {kl : ReaderClass}

section
variable (hk : r.klass ≠ .array false) (hf : r.finished = false)
include hk hf

theorem getCurrentType_exists (h : TextAt r.typeStr r.typePos (c :: cs))
    (hc : ∀ k, ofByte c ≠ .endChar k) : ∃ t, r.getCurrentType = .ok t := by
  have hfr := firstTypeInSignature_text h
  cases ht : ofByte c with
  | endChar k => exact absurd ht (hc k)
  | _ =>
    rw [ht] at hfr
    exact ⟨_, getCurrentType_eq hk hf hfr fun _ => ⟨(by simp), (by simp)⟩⟩

theorem getCurrentType_endChar {k : StructKind}
    (h : TextAt r.typeStr r.typePos (toByte (.endChar k) :: cs)) :
    r.getCurrentType = .error .assertion := by
  have hend : r.atEnd = .ok false := atEnd_eq hk hf
  rw [getCurrentType, hend, ok_bind, cond_false, firstTypeInSignature_text h, ofByte_endChar]
  rfl

end

theorem next_level {t : Ty} (hr : ReaderAt s kl p r) (hto : kl.typesOnly = true)
    (hka : ∀ b, kl ≠ .array b) (ht : t.formed true false = true)
    (h : TextAt s p (t.sig ++ c :: cs)) (hc : ∀ k, kl = .struct k true → ofByte c ≠ .endChar k) :
    r.next = (do
      let t' ← (r.moveTo (p + t.sig.length) false).getCurrentType
      return (t' != .invalid, r.moveTo (p + t.sig.length) false)) := by
  obtain ⟨rfl, hf, rfl, rfl⟩ := hr
  have hlen : t.sig.length ≤ r.typeStr.len + r.valueStr.len := by have := h.right.head_le; omega
  have hb := baseNext_types t ht hlen hto hf h
  rw [TypeReader.next, readerNext_level hka hf hb h, behind_of_ne]
  intro k b hk
  rw [hk] at hto
  cases hto
  exact hc k hk

theorem reach_over (hto : kl.typesOnly = true) (hka : ∀ b, kl ≠ .array b)
    (hc : ∀ k, ofByte c ≠ .endChar k) : ∀ (ts : List Ty) {r : TypeReader} {p : ℕ},
    TypesReach may r0 r → ReaderAt s kl p r → formedList true ts = true →
    TextAt s p (sigList ts ++ c :: cs) →
    ∃ r', TypesReach may r0 r' ∧ ReaderAt s kl (p + (sigList ts).length) r'
  | [], r, p, hrc, hr, _, _ => ⟨r, hrc, hr⟩
  | t :: ts, r, p, hrc, hr, hf, h => by
    simp only [formedList, Bool.and_eq_true] at hf
    rw [sigList_cons, append_assoc] at h
    -- what follows the type does not close a container
    obtain ⟨d, ds, hd, hdc⟩ : ∃ d ds, sigList ts ++ c :: cs = d :: ds ∧
        ∀ k, ofByte d ≠ .endChar k := by
      cases ts with
      | nil => exact ⟨c, cs, rfl, hc⟩
      | cons u us =>
        obtain ⟨d, ds, hu, hd⟩ := u.sig_eq_cons
        exact ⟨d, _, by rw [sigList_cons, hu]; rfl, hd⟩
    have hnx := next_level hr hto hka hf.1 (hd ▸ h) fun k _ => hdc k
    obtain ⟨hk, hfn, hst, hp⟩ := hr
    have hcr : r.getCurrentType = .ok t.code :=
      getCurrentType_sig (by rw [hk]; exact hka _) hfn (by rw [hst, hp]; exact h)
    obtain ⟨t', ht'⟩ := getCurrentType_exists (r := r.moveTo (p + t.sig.length) false)
      (by rw [moveTo_klass, hk]; exact hka _) rfl
      (by rw [moveTo_typeStr, hst]; exact hd ▸ h.right) hdc
    have hcl : TypesCall may r _ := .next hcr (by cases t <;> rintro ⟨⟩)
    rw [hnx, ht'] at hcl
    obtain ⟨r', hr', hat⟩ := reach_over hto hka hc ts (hrc.step hcl) ⟨hk, rfl, hst, rfl⟩ hf.2
      h.right
    refine ⟨r', hr', ?_⟩
    rwa [sigList_cons, length_append, ← Nat.add_assoc]

theorem reach_arrays (hmay : may .array = true) : ∀ (n : ℕ) {r : TypeReader} {kl : ReaderClass}
    {p : ℕ}, TypesReach may r0 r → ReaderAt s kl p r → kl.typesOnly = true →
    TextAt s p (.replicate n (toByte .array) ++ c :: cs) →
    ∃ r' kl', TypesReach may r0 r' ∧ ReaderAt s kl' (p + n) r' ∧ kl'.typesOnly = true
  | 0, r, kl, p, hrc, hr, hto, _ => ⟨r, kl, hrc, hr, hto⟩
  | n + 1, r, kl, p, hrc, hr, hto, h => by
    rw [replicate_succ, cons_append] at h
    obtain ⟨hk, hfn, hst, hp⟩ := hr
    have hfr : firstTypeInSignature r.typeStr r.typePos = .ok .array := by
      rw [hst, hp]; exact firstTypeInSignature_text h
    rw [← hk] at hto
    have hka : r.klass ≠ .array false := fun hk => by rw [hk] at hto; cases hto
    have hcr := getCurrentType_eq hka hfn hfr fun _ => ⟨(by simp), (by simp)⟩
    have hcl : TypesCall may r _ := .recurse hcr hmay
    have hre : r.recurse = .ok (r.arrayTypesOnlyRecurse (.array true)) := by
      simp only [recurse, hfr, ok_bind, hto, pure_eq_ok]
    rw [hre] at hcl
    have hat : ReaderAt s (.array true) (p + 1) (r.arrayTypesOnlyRecurse (.array true)) :=
      ⟨rfl, rfl, hst, congrArg (· + 1) hp⟩
    obtain ⟨r', kl', hr', hat', hto'⟩ := reach_arrays hmay n (hrc.step hcl) hat rfl h.tail
    refine ⟨r', kl', hr', ?_, hto'⟩
    rwa [show p + (n + 1) = p + 1 + n by omega]

/-- The class of a reader on the innermost level of a partial parse. -/
def Context.readerClass : Context → ReaderClass
  | [] => .body true
  | (k, _) :: _ => .struct k true

theorem Context.readerClass_typesOnly (ctx : Context) : ctx.readerClass.typesOnly = true := by
  cases ctx <;> rfl

theorem Context.readerClass_ne (ctx : Context) (b : Bool) : ctx.readerClass ≠ .array b := by
  cases ctx <;> nofun

theorem reach_level {l : Level} {ctx : Context} (hmay : may .array = true)
    (hrc : TypesReach may r0 r) (hr : ReaderAt s ctx.readerClass p r) (hl : l.OK ctx)
    (h : TextAt s p (l.text ++ c :: cs)) (hc : ∀ k, ofByte c ≠ .endChar k) :
    ∃ r' kl', TypesReach may r0 r' ∧ ReaderAt s kl' (p + l.text.length) r' ∧
      kl'.typesOnly = true := by
  rw [Level.text, append_assoc] at h
  obtain ⟨d, ds, hd, hdc⟩ : ∃ d ds, .replicate l.pend (toByte .array) ++ c :: cs = d :: ds ∧
        ∀ k, ofByte d ≠ .endChar k := by
    cases l.pend with
    | zero => exact ⟨c, cs, rfl, hc⟩
    | succ n => exact ⟨_, _, by rw [replicate_succ, cons_append], by simp⟩
  obtain ⟨r1, hr1, hat1⟩ := reach_over ctx.readerClass_typesOnly ctx.readerClass_ne hdc
    l.done hrc hr hl.formed (hd ▸ h)
  obtain ⟨r', kl', hr', hat, hto⟩ := reach_arrays hmay l.pend hr1 hat1 ctx.readerClass_typesOnly
    h.right
  refine ⟨r', kl', hr', ?_, hto⟩
  rwa [Level.text, length_append, length_replicate, ← Nat.add_assoc]

theorem reach_context (hmay : ∀ t, t.hasContents = true → may t = true)
    (hr0 : ReaderAt s (.body true) 0 r0) : ∀ (ctx : Context) {l : Level} {rest : List UInt8},
    OK l ctx → TextAt s 0 (ctx.text ++ rest) →
    ∃ r, TypesReach may r0 r ∧ ReaderAt s ctx.readerClass ctx.text.length r
  | [], l, rest, _, _ => ⟨r0, .refl, hr0⟩
  | (k, l') :: ctx, l, rest, hok, h => by
    rw [text, append_assoc, append_assoc, singleton_append] at h
    obtain ⟨r1, hr1, hat1⟩ := reach_context hmay hr0 ctx hok.2 h
    have hl := h.right
    rw [Nat.zero_add] at hl
    obtain ⟨r2, kl, hr2, hat2, hto⟩ := reach_level (hmay _ rfl) hr1 hat1 hok.2.level hl (by simp)
    obtain ⟨rfl, hfn, hst, hp⟩ := hat2
    have hb := hl.right
    rw [← hst, ← hp] at hb
    have hka : r2.klass ≠ .array false := fun hk => by rw [hk] at hto; cases hto
    have hfr := firstTypeInSignature_text hb
    rw [ofByte_beginChar] at hfr
    have hcr := getCurrentType_eq (t := .struct k) hka hfn hfr fun _ => ⟨(by simp), (by simp)⟩
    have hcl : TypesCall may r2 _ := .recurse hcr (hmay _ rfl)
    rw [recurse_begin hto hb] at hcl
    refine ⟨_, hr2.step hcl, rfl, rfl, hst, ?_⟩
    rw [moveTo_typePos, hp, text]
    simp only [length_append, length_singleton]
    omega

end

/-! ## Crossed brackets -/

theorem nestStep_eq_none (h : nestStep ks c = none) :
    ∃ k, ofByte c = .endChar k ∧ ∀ ks', ks ≠ k :: ks' := by
  unfold nestStep at h
  split at h
  · cases h
  · next k hk =>
    refine ⟨k, hk, ?_⟩
    rintro ks' rfl
    simp at h
  · cases h

theorem exists_crossing (h : nestRun ks cs = none) :
    ∃ pre c post ks', cs = pre ++ c :: post ∧ nestRun ks pre = some ks' ∧
      nestStep ks' c = none := by
  induction cs generalizing ks with
  | nil => cases h
  | cons c cs ih =>
    cases hs : nestStep ks c with
    | none => exact ⟨[], c, cs, ks, rfl, rfl, hs⟩
    | some ks1 =>
      rw [nestRun, hs, Option.bind_some] at h
      obtain ⟨pre, d, post, ks', rfl, hp, hd⟩ := ih h
      exact ⟨c :: pre, d, post, ks', rfl, by rw [nestRun, hs]; exact hp, hd⟩

/-- The partial parse behind a prefix of an accepted signature whose brackets nest. -/
theorem ValidSignature.parsed_before {pre post : List UInt8}
    (h : ValidSignature (pre ++ c :: post)) (hn : nestRun [] pre = some ks) :
    ∃ st d st' l ctx, Parsed st l ctx ∧ SigStep d st (.ofByte c) st' ∧ kinds ctx = ks ∧
      parsedText l ctx = pre ∧ (0 < l.pend → ∀ k, ofByte c ≠ .endChar k) := by
  obtain ⟨st', hr, -⟩ := h.run
  obtain ⟨st, hpr, hps⟩ := sigRun_append.1 hr
  obtain ⟨st1, hs, -⟩ := sigRun_cons.1 hps
  obtain ⟨l, ctx, hP, hk, ht, hp⟩ := Parsed.init.run hpr hn fun h => absurd h (Nat.lt_irrefl 0)
  exact ⟨st, _, st1, l, ctx, hP, hs, hk, ht, hp⟩

/-- The first crossed bracket of an accepted signature, with the partial parse before it. -/
theorem ValidSignature.crossing (h : ValidSignature cs) (hn : bracketsNest cs = false) :
    ∃ k k' l l' ctx post, OK l ((k', l') :: ctx) ∧ k' ≠ k ∧ l.pend = 0 ∧
      cs = parsedText l ((k', l') :: ctx) ++ toByte (.endChar k) :: post := by
  cases hr : nestRun [] cs with
  | some ks =>
    -- all brackets are closed, so the counters would not be zero
    obtain ⟨st, hrn, hf⟩ := h.run
    obtain ⟨⟨-, hs, hd⟩, -⟩ := sigFinish_eq_ok.1 hf
    obtain ⟨l, ctx, hP, hk, -⟩ := Parsed.init.run hrn hr fun h => absurd h (Nat.lt_irrefl 0)
    cases ks with
    | nil => simp [bracketsNest, hr] at hn
    | cons k ks =>
      have hcn := hP.depths k
      rw [hk, count_cons_self] at hcn
      cases k with
      | struct => exact absurd (hcn.symm.trans hs) (Nat.succ_ne_zero _)
      | dictEntry => exact absurd (hcn.symm.trans hd) (Nat.succ_ne_zero _)
  | none =>
    obtain ⟨pre, c, post, ks, rfl, hpr, hc⟩ := exists_crossing hr
    obtain ⟨st, d, st', l, ctx, hP, hs, rfl, rfl, hp⟩ := h.parsed_before hpr
    obtain ⟨k, hk, hks⟩ := nestStep_eq_none hc
    rw [hk] at hs
    have hdp : st.depth k ≠ 0 := by cases hs <;> assumption
    rw [hP.depths] at hdp
    obtain _ | ⟨⟨k', l'⟩, ctx⟩ := ctx
    · exact absurd rfl hdp
    refine ⟨k, k', l, l', ctx, post, hP.ok, ?_, ?_, by rw [eq_toByte hk]⟩
    · rintro rfl
      exact hks _ rfl
    · by_contra hne
      exact hp (Nat.pos_of_ne_zero hne) k hk

theorem textAt_parsed {l : Level} {ctx : Context} {post : List UInt8}
    (h : cs = parsedText l ctx ++ c :: post) :
    TextAt (.ofBytes cs) 0 (ctx.text ++ (l.text ++ c :: (post ++ [0]))) := by
  have he : cs ++ [0] = ctx.text ++ (l.text ++ c :: (post ++ [0])) := by rw [h, parsedText]; simp
  rw [← he]
  exact textAt_ofBytes cs

section
variable (hmay : ∀ t, t.hasContents = true → may t = true)
include hmay

theorem ValidSignature.not_iterable (h : ValidSignature cs) (hn : bracketsNest cs = false) :
    ¬ Iterable may cs := by
  intro hit
  obtain ⟨k, k', l, l', ctx, post, hok, hk, hz, hcs⟩ := h.crossing hn
  have htx := textAt_parsed hcs
  obtain ⟨r, hr, hat⟩ := reach_context hmay (readerAt_init cs) _ hok htx
  have hl := htx.right
  rw [Nat.zero_add, Level.text, hz, replicate_zero, append_nil] at hl
  rcases eq_nil_or_concat l.done with hd | ⟨ts, t, hd⟩
  · -- the reader has just entered the container
    obtain ⟨t, ht⟩ := (hit r hr).1
    obtain ⟨hkl, hfn, hst, hp⟩ := hat
    rw [hd, sigList_nil, nil_append, ← hst, ← hp] at hl
    rw [getCurrentType_endChar (by rw [hkl]; exact readerClass_ne _ _) hfn hl] at ht
    cases ht
  · -- the last type before the bracket is the one `next` cannot leave
    rw [hd, concat_eq_append, sigList_append, append_assoc, sigList_cons,
      sigList_nil, append_nil] at hl
    have hf := hok.level.formed
    rw [hd, concat_eq_append, formedList_append, Bool.and_eq_true] at hf
    have ht : t.formed true false = true := by simpa [formedList] using hf.2
    obtain ⟨c, ds, hsg, hc⟩ := t.sig_eq_cons
    obtain ⟨r1, hr1, hat1⟩ := reach_over (readerClass_typesOnly _) (readerClass_ne _)
      hc ts hr hat hf.1 (by rw [hsg] at hl; exact hl)
    have hnx := next_level hat1 (readerClass_typesOnly _) (readerClass_ne _) ht
      hl.right fun k1 h1 => by
        cases h1
        simpa using fun he => hk he.symm
    obtain ⟨hkl, hfn, hst, hp⟩ := hat1
    have hcr : r1.getCurrentType = .ok t.code :=
      getCurrentType_sig (by rw [hkl]; exact readerClass_ne _ _) hfn
        (by rw [hst, hp]; exact hl.right)
    rw [getCurrentType_endChar (k := k) (by rw [moveTo_klass, hkl]; exact readerClass_ne _ _) rfl
      (by rw [moveTo_typeStr, hst]; exact hl.right.right)] at hnx
    obtain ⟨r', hr'⟩ := (hit r1 hr1).2.2 _ (.next hcr (by cases t <;> rintro ⟨⟩))
    rw [hnx] at hr'
    cases hr'

/-- A variant in a signature leads a reader to an assertion if clients may recurse into it. -/
theorem ValidSignature.not_iterable_variant (hv : may .variant = true) (h : ValidSignature cs)
    (hn : bracketsNest cs = true) (hm : toByte .variant ∈ cs) : ¬ Iterable may cs := by
  intro hit
  obtain ⟨pre, post, hcs⟩ := append_of_mem hm
  have hrn : nestRun [] cs = some [] := by simpa [bracketsNest] using hn
  rw [hcs, nestRun_append] at hrn
  obtain ⟨ks, hpr, -⟩ := Option.bind_eq_some_iff.1 hrn
  obtain ⟨st, d, st', l, ctx, hP, -, -, rfl, -⟩ := (hcs ▸ h).parsed_before hpr
  have htx := textAt_parsed hcs
  obtain ⟨r, hr, hat⟩ := reach_context hmay (readerAt_init cs) _ hP.ok htx
  have hl := htx.right
  rw [Nat.zero_add] at hl
  obtain ⟨r1, kl, hr1, hat1, hto⟩ := reach_level (hmay _ rfl) hr hat hP.ok.level hl (by simp)
  obtain ⟨rfl, hfn, hst, hp⟩ := hat1
  have hb := hl.right
  rw [← hst, ← hp] at hb
  have hka : r1.klass ≠ .array false := fun hk => by rw [hk] at hto; cases hto
  have hfr : firstTypeInSignature r1.typeStr r1.typePos = .ok .variant :=
    firstTypeInSignature_text hb
  have hcr := getCurrentType_eq hka hfn hfr fun _ => ⟨(by simp), (by simp)⟩
  obtain ⟨r', hr'⟩ := (hit r1 hr1).2.2 _ (.recurse hcr hv)
  simp [recurse, hfr, hto] at hr'

end

/-- **Iteration over accepted signatures, exactly.**  A client that recurses into arrays, structs
    and dict entries can iterate over an accepted signature if and only if its brackets nest; one
    that recurses into any container can if and only if there is also no variant in it. -/
theorem accepted_iterable_iff (cs : List UInt8) (h : SignatureAccepted cs) :
    (Iterable hasContents cs ↔ bracketsNest cs = true) ∧
      (Iterable isContainer cs ↔
        bracketsNest cs = true ∧ toByte .variant ∉ cs) := by
  have hv := signatureAccepted_iff.1 h
  have hcn : ∀ t : TypeCode, t.hasContents = true → t.isContainer = true := fun t ht => by
    cases t <;> first | rfl | cases ht
  have hns : ∀ {may}, (∀ t, t.hasContents = true → may t = true) → Iterable may cs →
      bracketsNest cs = true := fun hmay hit => by
    by_contra hn
    exact hv.not_iterable hmay (Bool.eq_false_iff.2 hn) hit
  refine ⟨⟨hns fun _ => id, fun hn => ?_⟩, ⟨fun hit => ?_, ?_⟩⟩
  · obtain ⟨ts, rfl, hf, -⟩ := hv.exists_types hn
    exact iterable_sigList hf fun t ht => .inl ht
  · have hn := hns hcn hit
    exact ⟨hn, fun hm => hv.not_iterable_variant hcn rfl hn hm hit⟩
  · rintro ⟨hn, hm⟩
    obtain ⟨ts, rfl, hf, -⟩ := hv.exists_types hn
    refine iterable_sigList hf fun t ht => ?_
    cases t with
    | variant => exact .inr ⟨rfl, hm⟩
    | array | struct k => exact .inl rfl
    | _ => cases ht

theorem variantDict_iterable_iff :
    SignatureAccepted variantDictSignature ∧
      (Iterable hasContents variantDictSignature ↔
        bracketsNest variantDictSignature = true) ∧
      (Iterable isContainer variantDictSignature ↔
        bracketsNest variantDictSignature = true ∧
          toByte .variant ∉ variantDictSignature) :=
  ⟨by decide, accepted_iterable_iff _ (by decide)⟩

/-- The accepted signature whose brackets cross cannot be iterated over. -/
theorem crossedSignature_not_iterable :
    SignatureAccepted crossedSignature ∧ ¬ Iterable hasContents crossedSignature := by
  have h : SignatureAccepted crossedSignature := by decide
  exact ⟨h, (signatureAccepted_iff.1 h).not_iterable (fun _ => id) (by decide)⟩

end DBus
