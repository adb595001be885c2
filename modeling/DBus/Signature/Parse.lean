/-
  What an accepted signature is.

  The validator keeps only counters.  Behind every prefix it has accepted stands a partial
  parse (`Level`, `Context`), and an iteration keeps the relation between the two
  (`Parsed.step`) as long as a closing bracket closes the innermost open one, which is the
  one thing the validator does not look at.
-/
import DBus.Signature.Validate
import DBus.Signature.Scan

namespace DBus

open List Ty TypeCode

theorem Ty.keyFormed_append {structKey : Bool} {ts : List Ty} (us : List Ty)
    (h : keyFormed structKey ts = true) : keyFormed structKey (ts ++ us) = true := by
  match ts, h with
  | .basic _ :: _, _ => rfl
  | .struct .struct _ :: _, h => exact h

/-! ## Partial parses -/

/-- One level of a partial parse: the types completed on it, and the array
    codes that wait for their element type. -/
structure Level where
  done : List Ty
  pend : ℕ

/-- The open brackets of a partial parse, the innermost first, each with the
    level it was opened in. -/
abbrev Context := List (StructKind × Level)

def Level.text (l : Level) : List UInt8 :=
  sigList l.done ++ List.replicate l.pend (toByte .array)

/-- The text up to and including the innermost open bracket. -/
def Context.text : Context → List UInt8
  | [] => []
  | (k, l) :: ctx => Context.text ctx ++ (l.text ++ [toByte (.beginChar k)])

def Context.kinds (ctx : Context) : List StructKind := ctx.map Prod.fst

/-- The level after a type has been completed on it. -/
def Level.complete (l : Level) (t : Ty) : Level := ⟨l.done ++ [t.wrap l.pend], 0⟩

theorem Level.text_complete (l : Level) (t : Ty) : (l.complete t).text = l.text ++ t.sig := by
  simp [Level.complete, Level.text, sig_wrap]

/-- What the validator guarantees about a level inside the brackets `ctx`. -/
structure Level.OK (l : Level) (ctx : Context) : Prop where
  formed : formedList true l.done = true
  depth_le : ∀ k, ctx.kinds.count k + bracketDepthList k l.done ≤ maximumTypeRecursionDepth
  key : ∀ l' ctx', ctx = (.dictEntry, l') :: ctx' →
    0 < l'.pend ∧ (l.done = [] ∧ l.pend = 0 ∨ keyFormed true l.done = true)

/-- What the validator guarantees about a whole partial parse. -/
def Context.OK : Level → Context → Prop
  | l, [] => l.OK []
  | l, (k, l') :: ctx => l.OK ((k, l') :: ctx) ∧ Context.OK l' ctx

open Context

theorem Context.OK.level : ∀ {l : Level} {ctx : Context}, OK l ctx → l.OK ctx
  | _, [], h => h
  | _, _ :: _, h => h.1

theorem Context.OK.update : ∀ {l l' : Level} {ctx : Context}, OK l ctx → l'.OK ctx → OK l' ctx
  | _, _, [], _, h => h
  | _, _, _ :: _, h0, h => ⟨h, h0.2⟩

variable {ctx : Context} {l : Level} {st : SigState} {k : StructKind} {st' : SigState} {l' : Level}
  {ks : List StructKind} {cs : List UInt8}

theorem Level.OK.complete {t : Ty} (h : l.OK ctx) (hf : t.formed true (decide (0 < l.pend)) = true)
    (hd : ∀ k, ctx.kinds.count k + t.bracketDepth k ≤ maximumTypeRecursionDepth)
    (hk : l.done = [] → l.pend = 0 → (∃ l' ctx', ctx = (.dictEntry, l') :: ctx') →
      keyFormed true [t] = true) : (l.complete t).OK ctx where
  formed := by
    rw [Level.complete, formedList_append, h.formed]
    simp [formedList, formed_wrap, hf]
  depth_le k := by
    have h1 := h.depth_le k
    have h2 := hd k
    simp only [Level.complete, bracketDepthList_append, bracketDepthList, bracketDepth_wrap]
    omega
  key l' ctx' he := by
    obtain ⟨hp, hl⟩ := h.key l' ctx' he
    refine ⟨hp, .inr ?_⟩
    rcases hl with ⟨hd, hz⟩ | hl
    · have := hk hd hz ⟨l', ctx', he⟩
      simpa [Level.complete, hd, hz, wrap] using this
    · exact keyFormed_append _ hl

def SigState.depth (st : SigState) : StructKind → ℕ
  | .struct => st.structDepth
  | .dictEntry => st.dictEntryDepth

/-- The counters of the validator belong to a partial parse. -/
structure Parsed (st : SigState) (l : Level) (ctx : Context) : Prop where
  ok : OK l ctx
  depths : ∀ k, st.depth k = ctx.kinds.count k
  counts : st.elementCountStack = l.done.length :: ctx.map (·.2.done.length)
  arrays : st.arrayDepth = l.pend
  last_array : st.last = .array ↔ 0 < l.pend
  last_begin : ∀ k, st.last = .beginChar k ↔
    (∃ l' ctx', ctx = (k, l') :: ctx') ∧ l.done = [] ∧ l.pend = 0

theorem Parsed.init : Parsed .init ⟨[], 0⟩ [] where
  ok := ⟨rfl, fun k => by simp [kinds, bracketDepthList], nofun⟩
  depths k := by cases k <;> rfl
  counts := rfl
  arrays := rfl
  last_array := by simp [SigState.init]
  last_begin k := by simp [SigState.init]

/-! ## One iteration -/

theorem Parsed.of_complete {t : Ty} (hok : (l.complete t).OK ctx) (hct : OK l ctx)
    (hd : ∀ k, st.depth k = ctx.kinds.count k)
    (he : st.elementCountStack = (l.done.length + 1) :: ctx.map (·.2.done.length))
    (hc : st.last ≠ .array) (hb : ∀ k, st.last ≠ .beginChar k) (ha : st.arrayDepth = 0) :
    Parsed st (l.complete t) ctx where
  ok := hct.update hok
  depths := hd
  counts := by rw [he]; simp [Level.complete]
  arrays := ha
  last_array := by simp [hc, Level.complete]
  last_begin k := by simp [hb k, Level.complete]

section
variable (h : Parsed st l ctx)
include h

theorem Parsed.basic (b : BasicType) :
    Parsed ⟨.basic b, st.structDepth, 0, st.dictEntryDepth, st.counted⟩
      (l.complete (.basic b)) ctx := by
  have hl := h.ok.level
  refine .of_complete (hl.complete rfl (fun k => ?_) fun _ _ _ => rfl) h.ok h.depths ?_ nofun
    nofun rfl
  · exact le_trans (by simp [bracketDepth]) (hl.depth_le k)
  · simp only [SigState.counted, h.counts, headD_cons, tail_cons]

section
variable (hlast : st.last ≠ .beginChar .dictEntry)
include hlast

theorem Parsed.variant : Parsed ⟨.variant, st.structDepth, 0, st.dictEntryDepth, st.counted⟩
      (l.complete .variant) ctx := by
  have hl := h.ok.level
  refine .of_complete (hl.complete rfl (fun k => ?_) fun hd hp hc => ?_) h.ok h.depths ?_ nofun
    nofun rfl
  · exact le_trans (by simp [bracketDepth]) (hl.depth_le k)
  -- a variant is no key: the byte before it would have opened the dict entry
  · exact absurd ((h.last_begin .dictEntry).2 ⟨hc, hd, hp⟩) hlast
  · simp only [SigState.counted, h.counts, headD_cons, tail_cons]

theorem Parsed.array :
    Parsed ⟨.array, st.structDepth, st.arrayDepth + 1, st.dictEntryDepth, st.elementCountStack⟩
      { l with pend := l.pend + 1 } ctx := by
  have hl := h.ok.level
  refine ⟨h.ok.update ⟨hl.formed, hl.depth_le, fun l' ctx' he => ?_⟩, h.depths, h.counts,
    by rw [h.arrays], by simp, fun k => by simp⟩
  obtain ⟨hp, hk⟩ := hl.key l' ctx' he
  refine ⟨hp, .inr (hk.resolve_left fun hk => ?_)⟩
  exact hlast ((h.last_begin .dictEntry).2 ⟨⟨l', ctx', he⟩, hk⟩)

end

end

theorem Parsed.begin (h : Parsed st l ctx) (hk : k = .dictEntry → 0 < l.pend)
    (hle : st.depth k < maximumTypeRecursionDepth)
    (hd : ∀ k', st'.depth k' = st.depth k' + if k = k' then 1 else 0)
    (hc : st'.elementCountStack = 0 :: st.elementCountStack) (hl : st'.last = .beginChar k)
    (ha : st'.arrayDepth = 0) : Parsed st' ⟨[], 0⟩ ((k, l) :: ctx) := by
  have hcn : ∀ k', (kinds ((k, l) :: ctx)).count k' = st'.depth k' := fun k' => by
    rw [hd, h.depths]; simp [kinds, count_cons]
  refine ⟨⟨⟨rfl, fun k' => ?_, fun l' ctx' hx => ?_⟩, h.ok⟩, fun k' => (hcn k').symm, ?_, ha, ?_,
    fun k' => ?_⟩
  · have := h.ok.level.depth_le k'
    rw [← h.depths] at this
    rw [hcn, hd, bracketDepthList]
    split
    · subst_vars; omega
    · omega
  · cases hx
    exact ⟨hk rfl, .inl ⟨rfl, rfl⟩⟩
  · rw [hc, h.counts]; rfl
  · simp [hl]
  · rw [hl, beginChar.injEq]
    constructor
    · rintro rfl
      exact ⟨⟨l, ctx, rfl⟩, rfl, rfl⟩
    · rintro ⟨⟨l', ctx', hx⟩, -⟩
      exact (Prod.mk.inj (List.cons.inj hx).1).1

theorem Parsed.end (h : Parsed st l ((k, l') :: ctx))
    (hf : (struct k l.done).formed true (decide (0 < l'.pend)) = true)
    (hd : ∀ k', st'.depth k' = st.depth k' - if k = k' then 1 else 0)
    (hc : st'.elementCountStack = st.pop.2.counted) (hl : st'.last = .endChar k)
    (ha : st'.arrayDepth = 0) : Parsed st' (l'.complete (.struct k l.done)) ctx := by
  obtain ⟨hlv, hct⟩ := h.ok
  refine .of_complete (hct.level.complete hf (fun k' => ?_) fun _ hp _ => ?_) hct (fun k' => ?_)
    ?_ (by simp [hl]) (by simp [hl]) ha
  · have := hlv.depth_le k'
    simp only [kinds, map_cons, count_cons, beq_iff_eq] at this ⊢
    simp only [bracketDepth]
    omega
  · cases k with
    | struct => rfl
    | dictEntry => simp [formed, hp] at hf
  · rw [hd, h.depths]
    simp [kinds, count_cons]
  · simp only [hc, SigState.pop, SigState.counted, h.counts, tail_cons, map_cons, headD_cons]

def parsedText (l : Level) (ctx : Context) : List UInt8 := ctx.text ++ l.text

theorem parsedText_end (h : l.pend = 0) : parsedText (l'.complete (.struct k l.done)) ctx =
      parsedText l ((k, l') :: ctx) ++ [toByte (.endChar k)] := by
  rw [parsedText, parsedText, Level.text_complete]
  simp [text, sig, Level.text, h]

/-- An iteration extends the partial parse by the byte it reads, provided that
    a closing bracket closes the innermost open one. -/
theorem Parsed.step {c : UInt8} {d : TypeCode} (h : Parsed st l ctx)
    (hs : SigStep d st (.ofByte c) st') (hn : nestStep ctx.kinds c = some ks)
    (hp : ∀ k, ofByte c = .endChar k → l.pend = 0) :
    ∃ l' ctx', Parsed st' l' ctx' ∧ kinds ctx' = ks ∧
      parsedText l' ctx' = parsedText l ctx ++ [c] ∧ (0 < l'.pend → ∀ k, d ≠ .endChar k) := by
  have hlv := h.ok.level
  -- a closing bracket finds its own kind on top of the open ones
  have ho : ∀ k, ofByte c = .endChar k →
      ∃ l' ctx', ctx = (k, l') :: ctx' ∧ kinds ctx' = ks := fun k hk => by
    rw [nestStep, hk] at hn
    obtain _ | ⟨⟨k', l'⟩, ctx'⟩ := ctx
    · cases hn
    · obtain ⟨rfl, hks⟩ : k = k' ∧ kinds ctx' = ks := by simpa [kinds] using hn
      exact ⟨l', ctx', rfl, hks⟩
  unfold nestStep at hn
  generalize ht : ofByte c = t at hs hn hp ho
  obtain rfl := eq_toByte ht
  cases hs with
  | basic b =>
    cases hn
    refine ⟨_, _, h.basic b, rfl, ?_, by simp [Level.complete]⟩
    simp [parsedText, Level.text_complete, sig]
  | variant hl =>
    cases hn
    refine ⟨_, _, h.variant hl, rfl, ?_, by simp [Level.complete]⟩
    simp [parsedText, Level.text_complete, sig]
  | array _ hd hl =>
    cases hn
    refine ⟨_, _, h.array hl, rfl, ?_, fun _ => hd⟩
    simp [parsedText, Level.text, replicate_succ']
  | beginStruct hd =>
    cases hn
    refine ⟨_, _, h.begin (k := .struct) nofun hd (fun k => ?_) rfl rfl rfl, rfl, ?_, by simp⟩
    · cases k <;> rfl
    · simp [parsedText, text, Level.text]
  | beginDict hl hd =>
    cases hn
    refine ⟨_, _, h.begin (k := .dictEntry) (fun _ => h.last_array.1 hl) hd (fun k => ?_) rfl rfl
      rfl, rfl, ?_, by simp⟩
    · cases k <;> rfl
    · simp [parsedText, text, Level.text]
  | endStruct hd hl =>
    obtain ⟨l', ctx', rfl, rfl⟩ := ho _ rfl
    have hz := hp _ rfl
    have hne : l.done ≠ [] := fun he => hl ((h.last_begin .struct).2 ⟨⟨l', ctx', rfl⟩, he, hz⟩)
    refine ⟨_, _, h.end (by simp [formed, hlv.formed, hne]) (fun k => ?_) rfl rfl rfl, rfl, ?_,
      by simp [Level.complete]⟩
    · cases k <;> rfl
    · exact parsedText_end hz
  | endDict hd hl =>
    obtain ⟨l', ctx', rfl, rfl⟩ := ho _ rfl
    have hz := hp _ rfl
    rw [h.counts, headD_cons] at hl
    obtain ⟨hpn, hk⟩ := hlv.key l' ctx' rfl
    have hky := hk.resolve_left fun he => by simp [he.1] at hl
    refine ⟨_, _, h.end (by simp [formed, hlv.formed, hpn, hl, hky]) (fun k => ?_) rfl rfl
      rfl, rfl, ?_, by simp [Level.complete]⟩
    · cases k <;> rfl
    · exact parsedText_end hz

/-! ## Whole signatures -/

/-- A run over a text whose brackets nest keeps a partial parse of all it has read. -/
theorem Parsed.run {x : UInt8} (h : Parsed st l ctx) (hr : sigRun x cs st = .ok st')
    (hn : nestRun ctx.kinds cs = some ks)
    (hp : 0 < l.pend → ∀ k, ofByte (cs.headD x) ≠ .endChar k) :
    ∃ l' ctx', Parsed st' l' ctx' ∧ kinds ctx' = ks ∧ parsedText l' ctx' = parsedText l ctx ++ cs ∧
      (0 < l'.pend → ∀ k, ofByte x ≠ .endChar k) := by
  induction cs generalizing st l ctx with
  | nil =>
    cases hr; cases hn
    exact ⟨l, ctx, h, rfl, (append_nil _).symm, hp⟩
  | cons c cs ih =>
    obtain ⟨st1, hs, hr⟩ := sigRun_cons.1 hr
    obtain ⟨ks1, hn1, hn⟩ := Option.bind_eq_some_iff.1 hn
    have hz : ∀ k, ofByte c = .endChar k → l.pend = 0 := fun k hk => by
      by_contra hne
      exact hp (Nat.pos_of_ne_zero hne) k hk
    obtain ⟨l1, ctx1, h1, rfl, ht, hp1⟩ := h.step hs hn1 hz
    obtain ⟨l', ctx', h', hk, ht', hp'⟩ := ih h1 hr hn hp1
    exact ⟨l', ctx', h', hk, by rw [ht', ht, append_assoc]; rfl, hp'⟩

/-- **Soundness up to nesting.**  An accepted signature whose brackets nest is
    the text of a list of types, whose dict keys are basic types or structs,
    with at most 32 structs and 32 dict entries open at once. -/
theorem ValidSignature.exists_types (h : ValidSignature cs) (hn : bracketsNest cs = true) :
    ∃ ts, cs = sigList ts ∧ formedList true ts = true ∧
      ∀ k, bracketDepthList k ts ≤ maximumTypeRecursionDepth := by
  obtain ⟨st, hr, hf⟩ := h.run
  obtain ⟨⟨ha, -, -⟩, -, -⟩ := sigFinish_eq_ok.1 hf
  have hn' : nestRun [] cs = some [] := by simpa [bracketsNest] using hn
  obtain ⟨l, ctx, hP, hk, ht, -⟩ := Parsed.init.run hr hn' fun h => absurd h (Nat.lt_irrefl 0)
  obtain rfl : ctx = [] := map_eq_nil_iff.1 hk
  have hz : l.pend = 0 := by rw [← hP.arrays, ha]
  refine ⟨l.done, ?_, hP.ok.level.formed, fun k => ?_⟩
  · simpa [parsedText, text, Level.text, hz] using ht.symm
  · simpa [kinds] using hP.ok.level.depth_le k

end DBus
