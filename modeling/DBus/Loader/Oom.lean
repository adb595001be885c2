/-
  The loader without memory.

  An allocation that fails leaves the loader as it was behind the last message that was
  loaded, and calling again with memory does the rest.  The only exception is one that fails
  while the body is validated: it becomes a validity code, which the loader takes for a reason
  to be corrupted (`queueMessages_resumes_iff`).
-/
import DBus.Loader.Queue

namespace DBus

open Endian Alloc List DBusMessage

/-! ## One message -/

variable {native o : ByteOrder} {bs rest : List UInt8}

section
variable {l : DBusMessageLoader} {p : Peek}

theorem steady_ifMemory {α : Type} {x : Alloc Stop α} {y : Res α} (h : Follows .oom x y) :
    Steady (· = .ok none) (ifMemory x) := by
  refine h.steady.attempt_bind (fun r => ?_) (answers_lift rfl)
  cases r with
  | ok a => exact steady_lift _ _
  | error st =>
    dsimp only
    split
    · exact steady_lift _ _
    · exact steady_lift _ _

section
variable (l : DBusMessageLoader)

/-- The loader that takes a failure for a validity code. -/
def DBusMessageLoader.corruptOom : DBusMessageLoader :=
  l.corrupt .validityUnknownOomError (DBusValidity.Fails.ne_valid trivial)

def LoadFails (out : Res (Bool × DBusMessageLoader)) : Prop :=
  out = .ok (false, l) ∨ out = .ok (false, l.corruptOom)

section
variable (p : Peek) (str : DBusString) (message : DBusMessage) (header : DBusHeader)

theorem steady_queueMessage :
    Steady (· = .ok (false, l)) (queueMessage l p str message header) := by
  refine (steady_ifMemory (follows_allocate _)).bind_of (fun link => ?_) nofun ?_
  · split
    · exact steady_lift _ _
    · refine Steady.lift_bind fun _ => Steady.lift_bind fun _ => ?_
      refine (steady_ifMemory (follows_allocCopyLen ..)).bind_of (fun body => ?_) nofun ?_
      · cases body with
        | none => exact steady_lift _ _
        | some body => exact Steady.lift_bind fun _ => Steady.lift_bind fun _ => steady_lift _ _
      · rintro body hb
        cases hb
        exact answers_lift (by rw [DBusMessageLoader.removeLast_append])
  · rintro link hln
    cases hln
    exact answers_lift rfl

theorem steady_loadBody : Steady (LoadFails l) (loadBody l p str message header) := by
  refine Steady.lift_bind fun ⟨typeStr, typePos, header⟩ => ?_
  refine (steady_allocValidity (follows_allocBody_end ..)).bind_of (fun validity => ?_) nofun ?_
  · split
    · exact steady_lift _ _
    · exact (steady_queueMessage ..).mono fun _ => .inl
  · rintro validity hvl
    cases hvl
    exact answers_lift (.inr rfl)

end

end

theorem steady_loadMessage (native : ByteOrder) (behind : Behind) (l : DBusMessageLoader)
    (p : Peek) : Steady (LoadFails l) (loadMessage native behind l p) := by
  refine Steady.lift_bind fun _ => Steady.lift_bind fun _ => ?_
  refine (follows_allocHeaderLoad ..).steady.attempt_bind (fun r => ?_) (answers_lift (.inl rfl))
  cases r with
  | ok header => exact steady_loadBody ..
  | error st =>
    cases st with
    | invalid v hv =>
      dsimp only
      split
      · exact steady_lift _ _
      · exact steady_lift _ _
    | _ => exact steady_lift _ _

end

/-! ## The loop -/

/-- The loader `l'` is what `l` is behind some of its messages. -/
inductive Taken : DBusMessageLoader → DBusMessageLoader → Prop where
  | refl (l : DBusMessageLoader) : Taken l l
  | item {l l' : DBusMessageLoader} {msg : DBusMessage} {k : ℕ} :
      nextMessage l.maxMessageSize l.data = .item msg k → Taken (l.take msg k) l' → Taken l l'

section
variable {behind : List UInt8 → Behind} {l l' : DBusMessageLoader} {n k : ℕ} {p : Peek}
  {a : Allocator}

theorem queueLoop_fuel {n' : ℕ} (hl : l.corrupted = false) (hn : l.data.length < n)
    (hn' : l.data.length < n') :
    queueLoop native behind n l .plenty = queueLoop native behind n' l .plenty := by
  induction n generalizing l n' with
  | zero => exact absurd hn (Nat.not_lt_zero _)
  | succ n ih =>
    obtain ⟨n', rfl⟩ := Nat.exists_eq_succ_of_ne_zero (Nat.ne_zero_of_lt hn')
    rcases queueLoop_cases native behind l with ⟨-, hrn⟩ | ⟨-, -, v, hv, -, hrn⟩ | ⟨o, k, har, hrn⟩
    · rw [hrn, hrn]
    · rw [hrn, hrn]
    · rw [hrn, hrn]
      rcases queueOne_plenty native (behind l.data) har with ⟨-, h⟩ | ⟨-, h⟩ | ⟨-, v, hv, -, h⟩
      · rw [h, h]
      · have hlt := har.length_take (messageOf o (l.data.take k))
        rw [h, h]
        exact ih hl (by omega) (by omega)
      · rw [h, h]

theorem leaves_queueOne (native : ByteOrder) (behind : Behind)
    {next : DBusMessageLoader → Alloc Stop (Bool × DBusMessageLoader)}
    (hnx : ∀ l a, Leaves a (next l a).2) (l : DBusMessageLoader) (p : Peek) (a : Allocator) :
    Leaves a (queueOne native behind next l p a).2 := by
  refine leaves_bind (steady_ifMemory (follows_allocate _)).leaves (fun message a => ?_) a
  split
  · exact leaves_refl a
  · refine leaves_bind (steady_loadMessage ..).leaves (fun out a => ?_) a
    dsimp only
    split
    · exact hnx _ a
    · exact leaves_refl a

theorem leaves_queueLoop (native : ByteOrder) (behind : List UInt8 → Behind) (n : ℕ)
    (l : DBusMessageLoader) (a : Allocator) : Leaves a (queueLoop native behind n l a).2 := by
  induction n generalizing l a with
  | zero => exact leaves_refl a
  | succ n ih =>
    rcases queueLoop_cases native behind l with ⟨-, hrn⟩ | ⟨-, -, v, hv, -, hrn⟩ | ⟨o, k, har, hrn⟩
    · rw [hrn]
      exact leaves_refl a
    · rw [hrn]
      exact leaves_refl a
    · rw [hrn]
      exact leaves_queueOne native _ ih l _ a

/-- The loader `l'` is one that a failure may leave: it is `l` behind some messages, and a
    call with memory does the rest of what one call with memory would have done. -/
structure Resumes (native : ByteOrder) (behind : List UInt8 → Behind) (n : ℕ)
    (l l' : DBusMessageLoader) : Prop where
  clean : l'.corrupted = false
  taken : Taken l l'
  again : ∀ k, l'.data.length < k →
    queueLoop native behind k l' .plenty = queueLoop native behind n l .plenty

theorem Arrived.take_taken (h : Arrived l o k) (hv : MessageValid o (l.data.take k))
    (ht : Taken (l.take (messageOf o (l.data.take k)) k) l') : Taken l l' :=
  .item (by rw [h.nextMessage, if_pos hv]) ht

theorem steady_queueLoop (native : ByteOrder) (behind : List UInt8 → Behind)
    (hl : l.corrupted = false) (hn : l.data.length < n) :
    Steady (fun out => ∃ l', Resumes native behind n l l' ∧
      (out = .ok (false, l') ∨ out = .ok (true, l'.corruptOom))) (queueLoop native behind n l) := by
  induction n generalizing l with
  | zero => exact absurd hn (Nat.not_lt_zero _)
  | succ n ih =>
    have hsl : Resumes native behind (n + 1) l l :=
      ⟨hl, .refl l, fun k hk => queueLoop_fuel hl hk hn⟩
    rcases queueLoop_cases native behind l with ⟨-, hrn⟩ | ⟨-, -, v, hv, -, hrn⟩ | ⟨o, k, har, hrn⟩
    · rw [hrn]
      exact steady_lift _ _
    · rw [hrn]
      exact steady_lift _ _
    · have hp := hrn n
      rw [hrn]
      refine (steady_ifMemory (follows_allocate _)).bind_of (fun message => ?_) nofun ?_
      · split
        · exact steady_lift _ _
        · refine (steady_loadMessage ..).bind_returned (fun out a => ?_) (fun out hot => ?_) ?_ ?_
          · dsimp only
            split
            · exact leaves_queueLoop ..
            · exact leaves_refl a
          · -- the message was loaded as it would have been with memory
            obtain ⟨out', hld, hcs⟩ := loadMessage_plenty native (behind l.data) har.framed
              (take_append_drop k l.data).symm
            rw [hld, Prod.mk.injEq] at hot
            obtain ⟨rfl, -⟩ := hot
            rcases hcs with ⟨-, h⟩ | ⟨-, ⟨hv, h⟩ | ⟨-, v, hv, -, h⟩⟩
            · cases h
            · rw [length_take_of_le har.le] at h
              cases h
              have hlt := har.length_take (messageOf o (l.data.take k))
              have hrs : queueLoop native behind (n + 1) l .plenty =
                  queueLoop native behind n (l.take (messageOf o (l.data.take k)) k) .plenty := by
                rw [hp, queueOne_load]
                exact bind_of_ok hld _
              have hst := ih (l := l.take (messageOf o (l.data.take k)) k) hl (by omega)
              refine hst.mono ?_
              rintro out ⟨l', hr, ho⟩
              exact ⟨l', ⟨hr.clean, har.take_taken hv hr.taken,
                fun k' hk' => (hr.again k' hk').trans hrs.symm⟩, ho⟩
            · cases h
              exact steady_lift _ _
          · rintro e (h | h) <;> cases h
          · rintro out (h | h)
            · cases h
              exact answers_lift ⟨l, hsl, .inl (by rw [hl])⟩
            · cases h
              exact answers_lift ⟨l, hsl, .inr rfl⟩
      · rintro message h
        cases h
        exact answers_lift ⟨l, hsl, .inl rfl⟩

/-! ## Where the failure is -/

/-- An allocation of the validator of the body fails while a message is loaded. -/
def BodyFailsAt (native : ByteOrder) (behind : Behind) (l : DBusMessageLoader) (p : Peek)
    (a : Allocator) : Prop :=
  ∃ header a' s d header', allocHeaderLoad (newEmptyHeader native).header
      .dataIsUntrusted p.byteOrder p.fieldsArrayLen p.headerLen p.bodyLen
      (.allocated l.data behind) 0 l.data.length a = (.ok header, a') ∧
    header.getConstSignature = .ok (s, d, header') ∧
    (allocBodyWithReason s d p.byteOrder (.allocated l.data behind) p.headerLen p.bodyLen
      a').2.failed = true

/-- An allocation of the validator of the body fails while the messages of the buffer are queued. -/
inductive BodyFails (native : ByteOrder) (behind : List UInt8 → Behind) :
    DBusMessageLoader → Allocator → Prop where
  | here {l : DBusMessageLoader} {o : ByteOrder} {k : ℕ} {a a' : Allocator} :
      Arrived l o k → ifMemory (allocate .oom) a = (.ok (some ()), a') →
      BodyFailsAt native (behind l.data) l (peekOf o (l.data.take k)) a' →
      BodyFails native behind l a
  | later {l l' : DBusMessageLoader} {o : ByteOrder} {k : ℕ} {a a' a'' : Allocator} :
      Arrived l o k → ifMemory (allocate .oom) a = (.ok (some ()), a') →
      loadMessage native (behind l.data) l (peekOf o (l.data.take k)) a' = (.ok (true, l'), a'') →
      BodyFails native behind l' a'' → BodyFails native behind l a

theorem corrupt_ne_corruptOom {v : DBusValidity} (hv : v ≠ .valid)
    (hne : v ≠ .validityUnknownOomError) : l.corrupt v hv ≠ l.corruptOom := fun h =>
  hne (congrArg DBusMessageLoader.corruptionReason h)

theorem ne_corruptOom (hl : l.corrupted = false) : l ≠ l.corruptOom := fun h => by
  rw [h] at hl
  cases hl

section
variable (behind : Behind) (hf : Framed o bs) (hdata : l.data = bs ++ rest)
  (hl : l.corrupted = false)
include hf hdata hl

theorem loadBody_corruptOom_iff (hv : HeaderValid o bs) (ha : a.failed = false) :
    (∃ s d he', (loadedHeader o bs).getConstSignature = .ok (s, d, he') ∧
      (allocBodyWithReason s d (peekOf o bs).byteOrder (.allocated l.data behind)
        (peekOf o bs).headerLen (peekOf o bs).bodyLen a).2.failed = true) ↔
      (loadBody l (peekOf o bs) (.allocated l.data behind) (.newEmptyHeader native)
        (loadedHeader o bs) a).1 = .ok (false, l.corruptOom) := by
  obtain ⟨s, d, x, hg, hp, hrn, -⟩ := hf.validity behind hdata hv
  rcases hb : allocBodyWithReason s d (peekOf o bs).byteOrder (.allocated l.data behind) (peekOf o bs).headerLen (peekOf o bs).bodyLen a with ⟨out, a'⟩
  have ho := (steady_allocValidity (follows_allocBody_end s d (peekOf o bs).byteOrder
    (.allocated l.data behind) (peekOf o bs).headerLen (peekOf o bs).bodyLen)).outcome a ha
  rw [← allocBodyWithReason, hb, hp] at ho
  refine Iff.trans (b := a'.failed = true) ?_ ?_
  · constructor
    · rintro ⟨s', d', he', hg', hfl⟩
      rw [hg] at hg'
      cases hg'
      rwa [hb] at hfl
    · exact fun hfl => ⟨s, d, _, hg, by rwa [hb]⟩
  · rw [loadBody, Alloc.lift_bind hg]
    dsimp only
    rcases ho with ⟨hno, rfl⟩ | ⟨hfl, rfl⟩
    · refine iff_of_false (by rw [hno]; rintro ⟨⟩) ?_
      cases x with
      | ok u =>
        rw [bind_of_ok hb, dif_neg (not_not_intro rfl)]
        have hend := (steady_queueMessage l (peekOf o bs) (.allocated l.data behind)
          (.newEmptyHeader native) (loadedHeader o bs)).outcome a' hno
        rw [queueMessage_plenty hf hdata] at hend
        rcases hend with ⟨-, hend⟩ | ⟨-, hend⟩
        · rw [hend]
          rintro ⟨⟩
        · rw [hend]
          exact fun h => ne_corruptOom hl (Prod.mk.inj (Except.ok.inj h)).2
      | error st =>
        cases st with
        | assertion => rw [bind_of_error hb]; rintro ⟨⟩
        | invalid v hv =>
          rw [bind_of_ok hb, dif_pos hv]
          exact fun h => corrupt_ne_corruptOom hv hrn.1 (Prod.mk.inj (Except.ok.inj h)).2
        | _ => exact hrn.1.elim
    · rw [bind_of_ok hb]
      exact iff_of_true hfl rfl

theorem bodyFailsAt_iff (ha : a.failed = false) : BodyFailsAt native behind l (peekOf o bs) a ↔
      (loadMessage native behind l (peekOf o bs) a).1 = .ok (false, l.corruptOom) := by
  have h0 : (newEmptyHeader native).header.data.length = 0 := rfl
  have hsa := hf.headerLoad_sat native behind hdata
  have hfl := (follows_allocHeaderLoad (newEmptyHeader native).header
    .dataIsUntrusted (peekOf o bs).byteOrder (peekOf o bs).fieldsArrayLen (peekOf o bs).headerLen
    (peekOf o bs).bodyLen (.allocated l.data behind) 0 l.data.length).outcome a ha
  rw [BodyFailsAt, loadMessage, Alloc.lift_bind (assert_of h0),
    Alloc.lift_bind (assert_of (hf.le_buffer hdata))]
  rcases hld : allocHeaderLoad _ _ _ _ _ _ _ _ _ a with ⟨r, a'⟩
  rw [hld] at hfl
  rw [attempt_bind hld]
  rcases hfl with ⟨ha', rfl⟩ | ⟨-, rfl⟩
  · obtain ⟨header, hr, hv, rfl⟩ | ⟨st, hr, hst, -⟩ := hsa.cases
    · rw [hr, ← loadBody_corruptOom_iff behind hf hdata hl hv ha']
      constructor
      · rintro ⟨_, _, s, d, he', h, hb⟩
        cases h
        exact ⟨s, d, he', hb⟩
      · rintro ⟨s, d, he', hb⟩
        exact ⟨_, _, s, d, he', rfl, hb⟩
    · rw [hr]
      refine iff_of_false ?_ ?_
      · rintro ⟨header, a', s, d, he', h, -⟩
        cases h
      · cases st with
        | assertion => rintro ⟨⟩
        | invalid v hv =>
          dsimp only
          rw [if_neg hst]
          exact fun h => corrupt_ne_corruptOom hv hst (Prod.mk.inj (Except.ok.inj h)).2
        | _ => exact hst.elim
  · refine iff_of_false ?_ ?_
    · rintro ⟨header, a', s, d, he', h, -⟩
      cases h
    · exact fun h => ne_corruptOom hl (Prod.mk.inj (Except.ok.inj h)).2

end

theorem Arrived.unique {o' : ByteOrder} {k' : ℕ} (h : Arrived l o k) (h' : Arrived l o' k') :
    o = o' ∧ k = k' := by
  have heq := h.announced.symm.trans h'.announced
  rw [Option.some.injEq, Prod.mk.injEq] at heq
  exact heq

section
variable (h : BodyFails native behind l a)
include h

theorem BodyFails.arrived : ∃ o k, Arrived l o k := by
  cases h with
  | here har _ _ | later har _ _ _ => exact ⟨_, _, har⟩

theorem BodyFails.fails : a.failed = true ∨ true ∈ a.fails := by
  have first {a a' : Allocator} (hm : ifMemory (allocate .oom) a = (.ok (some ()), a')) :
      Leaves a a' := by
    have hl := (steady_ifMemory (follows_allocate Stop.oom)).leaves a
    rwa [hm] at hl
  induction h with
  | @here l o k a a' _ hm hat =>
    obtain ⟨header, a'', s, d, he', hld, -, hfl⟩ := hat
    have hh := (follows_allocHeaderLoad (newEmptyHeader native).header
      .dataIsUntrusted (peekOf o (l.data.take k)).byteOrder
      (peekOf o (l.data.take k)).fieldsArrayLen (peekOf o (l.data.take k)).headerLen
      (peekOf o (l.data.take k)).bodyLen (.allocated l.data (behind l.data)) 0
      l.data.length).leaves a'
    rw [hld] at hh
    have hb := (steady_allocValidity (follows_allocBody_end s d
      (peekOf o (l.data.take k)).byteOrder (.allocated l.data (behind l.data))
      (peekOf o (l.data.take k)).headerLen (peekOf o (l.data.take k)).bodyLen)).leaves a''
    exact ((first hm).trans (hh.trans hb)).failed hfl
  | @later l l' o k a a' a'' _ hm hld _ ih =>
    have hl := (steady_loadMessage native (behind l.data) l (peekOf o (l.data.take k))).leaves a'
    rw [hld] at hl
    have hal := (first hm).trans hl
    exact ih.elim hal.failed fun hmm => .inr (hal.suffix.subset hmm)

end

theorem bodyFails_arrived {a' : Allocator} {m : Res (Option Unit)} (har : Arrived l o k)
    (hm : ifMemory (allocate .oom) a = (m, a')) :
    BodyFails native behind l a ↔ m = .ok (some ()) ∧
      (BodyFailsAt native (behind l.data) l (peekOf o (l.data.take k)) a' ∨
        ∃ l' a'', loadMessage native (behind l.data) l (peekOf o (l.data.take k)) a' =
          (.ok (true, l'), a'') ∧ BodyFails native behind l' a'') := by
  constructor
  · intro h
    cases h with
    | here har' hm' hat =>
      obtain ⟨rfl, rfl⟩ := har.unique har'
      rw [hm, Prod.mk.injEq] at hm'
      obtain ⟨rfl, rfl⟩ := hm'
      exact ⟨rfl, .inl hat⟩
    | later har' hm' hld hrs =>
      obtain ⟨rfl, rfl⟩ := har.unique har'
      rw [hm, Prod.mk.injEq] at hm'
      obtain ⟨rfl, rfl⟩ := hm'
      exact ⟨rfl, .inr ⟨_, _, hld, hrs⟩⟩
  · rintro ⟨rfl, hat | ⟨l', a'', hld, hrs⟩⟩
    · exact .here har hm hat
    · exact .later har hm hld hrs

theorem reason_ne_oom (hl : l.corrupted = false) :
    l.corruptionReason ≠ .validityUnknownOomError := fun h => by
  have hc := l.consistent.2 (by rw [h]; decide)
  simp [hl] at hc

theorem bodyFails_load (har : Arrived l o k) (ha : a.failed = false)
    (ih : ∀ a', a'.failed = false → (BodyFails native behind (l.take (messageOf o (l.data.take k)) k) a' ↔
      ∃ l', (queueLoop native behind n (l.take (messageOf o (l.data.take k)) k) a').1 =
        .ok (true, l') ∧ l'.corruptionReason = .validityUnknownOomError)) :
    (BodyFailsAt native (behind l.data) l (peekOf o (l.data.take k)) a ∨
      ∃ l' a', loadMessage native (behind l.data) l (peekOf o (l.data.take k)) a =
        (.ok (true, l'), a') ∧ BodyFails native behind l' a') ↔
    ∃ l', ((loadMessage native (behind l.data) l (peekOf o (l.data.take k)) >>= fun (loaded, l) =>
        if loaded then queueLoop native behind n l else return (l.corrupted, l)) a).1 =
        .ok (true, l') ∧ l'.corruptionReason = .validityUnknownOomError := by
  have hdata := (take_append_drop k l.data).symm
  rcases hld : loadMessage native (behind l.data) l (peekOf o (l.data.take k)) a with ⟨out, a'⟩
  obtain ⟨out', hp, hot'⟩ := loadMessage_plenty native (behind l.data) har.framed hdata
  have ho := (steady_loadMessage native (behind l.data) l (peekOf o (l.data.take k))).outcome a ha
  rw [hld, hp] at ho
  rw [bodyFailsAt_iff (behind l.data) har.framed hdata har.clean ha, hld]
  rcases ho with ⟨ha', rfl⟩ | ⟨-, rfl | rfl⟩
  · rcases hot' with ⟨-, rfl⟩ | ⟨-, ⟨-, rfl⟩ | ⟨-, v, hv, hne, rfl⟩⟩
    · rw [bind_of_error hld]
      refine iff_of_false ?_ nofun
      rintro (h | ⟨l', a', h, -⟩) <;> cases h
    · rw [length_take_of_le har.le] at hld ⊢
      rw [bind_of_ok hld]
      refine Iff.trans ?_ (ih a' ha')
      constructor
      · rintro (h | ⟨l', a', h, hrs⟩)
        · cases h
        · cases h
          exact hrs
      · exact fun hrs => .inr ⟨_, _, rfl, hrs⟩
    · rw [bind_of_ok hld]
      refine iff_of_false ?_ ?_
      · rintro (h | ⟨l', a', h, -⟩)
        · exact corrupt_ne_corruptOom hv hne (Prod.mk.inj (Except.ok.inj h)).2
        · cases h
      · rintro ⟨l', h, hre⟩
        cases h
        exact hne hre
  · rw [bind_of_ok hld]
    refine iff_of_false ?_ ?_
    · rintro (h | ⟨l', a', h, -⟩)
      · exact ne_corruptOom har.clean (Prod.mk.inj (Except.ok.inj h)).2
      · cases h
    · rintro ⟨l', h, -⟩
      have hfl := (Prod.mk.inj (Except.ok.inj h)).1
      simp [har.clean] at hfl
  · rw [bind_of_ok hld]
    exact iff_of_true (.inl rfl) ⟨_, rfl, rfl⟩

/-- The loader is corrupted for want of memory exactly if memory was wanting for the
    validator of a body. -/
theorem bodyFails_iff (hl : l.corrupted = false) (ha : a.failed = false) (hn : l.data.length < n) :
    BodyFails native behind l a ↔ ∃ l', (queueLoop native behind n l a).1 = .ok (true, l') ∧
      l'.corruptionReason = .validityUnknownOomError := by
  induction n generalizing l a with
  | zero => exact absurd hn (Nat.not_lt_zero _)
  | succ n ih =>
    rcases queueLoop_cases native behind l with ⟨hw, hrn⟩ | ⟨-, hnn, v, hv, hne, hrn⟩ |
      ⟨o, k, har, hrn⟩
    · have hw := hw.resolve_left (by rw [hl]; rintro ⟨⟩)
      rw [hrn]
      refine iff_of_false (fun h => ?_) ?_
      · obtain ⟨o, k, har⟩ := h.arrived
        rw [har.nextMessage] at hw
        split at hw <;> cases hw
      · rintro ⟨l', h, hrs⟩
        cases h
        exact reason_ne_oom hl hrs
    · rw [hrn]
      refine iff_of_false (fun h => ?_) ?_
      · obtain ⟨o, k, har⟩ := h.arrived
        simp [har.announced] at hnn
      · rintro ⟨l', h, hrs⟩
        cases h
        exact hne hrs
    · rw [hrn, queueOne]
      have hfr := (steady_ifMemory (follows_allocate Stop.oom)).outcome a ha
      rw [ifMemory_plenty (follows_allocate Stop.oom) rfl] at hfr
      rcases hm : ifMemory (allocate Stop.oom) a with ⟨m, a'⟩
      rw [hm] at hfr
      rw [bodyFails_arrived har hm]
      rcases hfr with ⟨ha', rfl⟩ | ⟨-, rfl⟩
      · have hlt := har.length_take (messageOf o (l.data.take k))
        rw [and_iff_right rfl, bind_of_ok hm, if_neg (by simp)]
        exact bodyFails_load har ha' fun a'' ha'' => ih hl ha'' (by omega)
      · rw [bind_of_ok hm, if_pos rfl]
        refine iff_of_false (fun h => by cases h.1) ?_
        rintro ⟨l', h, -⟩
        cases h

end

/-! ## Trying again -/

/-- **Running out of memory** is answered by a loader with which a call that has memory does
    the rest, unless an allocation of the validator of the body fails. -/
theorem queueMessages_resumes_iff (native : ByteOrder) (behind : List UInt8 → Behind)
    (l : DBusMessageLoader) (fails : List Bool) :
    ((queueMessages native behind l ⟨fails, false⟩).2.failed = true →
      ∃ l', (queueMessages native behind l ⟨fails, false⟩).1 = .ok (false, l') ∧
        l'.corrupted = false ∧ Taken l l' ∧
        (queueMessages native behind l' .plenty).1 = (queueMessages native behind l .plenty).1) ↔
      ¬ BodyFails native behind l ⟨fails, false⟩ := by
  have hn : l.data.length < l.data.length + 1 := Nat.lt_succ_self _
  cases hl : l.corrupted with
  | true =>
    have hfa : ¬ BodyFails native behind l ⟨fails, false⟩ := fun h => by
      obtain ⟨o, k, har⟩ := h.arrived
      have hcl := har.clean
      simp [hl] at hcl
    refine iff_of_true (fun h => ?_) hfa
    rcases queueLoop_cases native behind l with ⟨-, hrn⟩ | ⟨-, -, v, hv, -, hrn⟩ | ⟨o, k, har, -⟩
    · rw [queueMessages, hrn] at h
      cases h
    · rw [queueMessages, hrn] at h
      cases h
    · simp [har.clean] at hl
  | false =>
    rw [bodyFails_iff hl rfl hn, queueMessages]
    rcases (steady_queueLoop native behind hl hn).outcome ⟨fails, false⟩ rfl with
      ⟨hno, heq⟩ | ⟨hfl, l', hr, ho | ho⟩
    · refine iff_of_true (fun h => by rw [hno] at h; cases h) fun h => ?_
      rw [heq, ← bodyFails_iff hl rfl hn] at h
      exact h.fails.elim (by rintro ⟨⟩) (by rintro ⟨⟩)
    · refine iff_of_true (fun _ => ⟨l', ho, hr.clean, hr.taken, ?_⟩) ?_
      · rw [queueMessages, hr.again _ (Nat.lt_succ_self _)]
      · rintro ⟨l'', h, -⟩
        simp [ho] at h
    · refine iff_of_false (fun h => ?_) (not_not_intro ⟨_, ho, rfl⟩)
      obtain ⟨l'', h, -⟩ := h hfl
      simp [ho] at h

def variantCall : List UInt8 :=
  [108, 1, 0, 1, 4, 0, 0, 0, 1, 0, 0, 0, 39, 0, 0, 0,
   1, 1, 111, 0, 2, 0, 0, 0, 47, 97, 0, 0, 0, 0, 0, 0,
   3, 1, 115, 0, 1, 0, 0, 0, 65, 0, 0, 0, 0, 0, 0, 0,
   8, 1, 103, 0, 1, 118, 0, 0, 1, 121, 0, 7]

/-- The eleventh allocation is one of the validator of the body. -/
theorem variantCall_corrupts :
    (queueMessages .little (fun _ _ => 0) (DBusMessageLoader.new.fill variantCall)
        ⟨.replicate 10 false ++ [true], false⟩).2.failed = true ∧
      ((queueMessages .little (fun _ _ => 0) (DBusMessageLoader.new.fill variantCall)
        ⟨.replicate 10 false ++ [true], false⟩).1.map fun out => (out.1, out.2.corrupted)) =
        .ok (true, true) ∧
      ((queueMessages .little (fun _ _ => 0) (DBusMessageLoader.new.fill variantCall)
        .plenty).1.map fun out => (out.2.messages.length, out.2.corrupted)) = .ok (1, false) := by
  refine ⟨?_, ?_, ?_⟩ <;> decide +kernel

end DBus
