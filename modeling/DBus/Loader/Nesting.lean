/-
  Messages on which the validators fail no assertion.

  The loader validates a message where it is in the buffer.  A message is judged if both
  validators accept it or reject it there.  It is, if in each signature that they meet the
  brackets nest (`Nests.judged`): in the signature of the body, and in those of variants.
-/
import DBus.Body.Calm
import DBus.Loader.Defs
import DBus.Loader.Frames

namespace DBus

open Outcome Memory Endian Framing List

section
variable (o : ByteOrder) (s : DBusString) (bs : List UInt8)

/-- The run of the validator over the header at the start of the buffer `s`.  It is told
    where the buffer ends, not where the message does. -/
def headerTrace : Traced Part Stop ℕ :=
  traceHelper o s.str s.len (headerSignature.length + s.len + 1) (itemTypes 0) true 0

/-- The run of the validator over the body of the message `bs` with which the buffer `s` starts. -/
def bufferedTrace : Traced Part Stop ℕ :=
  traceHelper o s.str bs.length ((bodySignature o bs).length + (bodyOf o bs).length + 1)
    (.initTypesOnly (.ofBytes (bodySignature o bs)) 0) true (headerLength o bs)

/-- No assertion of the validators fails on the message `bs` at the start of the buffer `s`.
    The body is looked at only behind a valid header. -/
structure Judged : Prop where
  header : Calm (headerTrace o s).out
  body : HeaderValid o bs → Calm (bufferedTrace o s bs).out

/-- The brackets nest in each signature that the validators meet in the message `bs` at
    the start of the buffer `s`. -/
@[mk_iff] structure Nests : Prop where
  /-- a `DBusString` can hold what is in the buffer -/
  fits : s.len ≤ stringMaxMaxLength
  header : ∀ part ∈ (headerTrace o s).notes, part.nests = true
  signature : HeaderValid o bs → bracketsNest (bodySignature o bs) = true
  body : HeaderValid o bs → ∀ part ∈ (bufferedTrace o s bs).notes, part.nests = true

instance : Decidable (Nests o s bs) :=
  decidable_of_iff _ (nests_iff o s bs).symm

end

section
variable (P : ByteOrder → DBusString → List UInt8 → Prop) (max : ℕ)

/-- If all of the message at the start of the buffer has arrived, it satisfies `P`. -/
def Front (behind : List UInt8 → Behind) (data : List UInt8) : Prop :=
  match announced max data with
  | none => True
  | some (o, n) => n ≤ data.length → P o (.allocated data (behind data)) (data.take n)

/-- In each of the reads that follow the stream `xs`, the message at which the loader stops
    satisfies `P`.  Once it is corrupted it looks at no more messages. -/
def Fronts : List UInt8 → List Read → Prop
  | _, [] => True
  | xs, r :: reads =>
    (((messageScanner max).cut xs).bad = false →
      Front P max r.behind ((messageScanner max).cut (xs ++ r.bytes)).rest) ∧
    Fronts (xs ++ r.bytes) reads

end

section
variable {P : ByteOrder → DBusString → List UInt8 → Prop} {max : ℕ}

section
variable [∀ o s bs, Decidable (P o s bs)]

instance (behind : List UInt8 → Behind) (data : List UInt8) : Decidable (Front P max behind data) := by
  unfold Front
  split <;> infer_instance

instance decidableFronts :
    (xs : List UInt8) → (reads : List Read) → Decidable (Fronts P max xs reads)
  | _, [] => inferInstanceAs (Decidable True)
  | xs, r :: reads =>
    have := decidableFronts (xs ++ r.bytes) reads
    inferInstanceAs (Decidable (_ ∧ _))

end

theorem front_of_wait {behind : List UInt8 → Behind} {data : List UInt8}
    (h : nextMessage max data = .wait) : Front P max behind data := by
  rw [Front]
  split
  · trivial
  · next o n ha =>
    intro hle
    have hlen : firstFieldOffset ≤ data.length :=
      ((announced_eq_some.1 ha).2.1 ▸ firstField_le_messageLength).trans hle
    rw [nextMessage_some hlen ha, if_neg (Nat.not_lt.2 hle)] at h
    split at h <;> cases h

theorem Fronts.mono {Q : ByteOrder → DBusString → List UInt8 → Prop} {xs : List UInt8}
    {reads : List Read} (h : Fronts P max xs reads)
    (hPQ : ∀ {o n data} (b : Behind), announced max data = some (o, n) → n ≤ data.length →
      P o (.allocated data b) (data.take n) → Q o (.allocated data b) (data.take n)) :
    Fronts Q max xs reads := by
  induction reads generalizing xs with
  | nil => trivial
  | cons r reads ih =>
    refine ⟨fun hb => ?_, ih h.2⟩
    have hf := h.1 hb
    rw [Front] at hf ⊢
    split
    · trivial
    · next o n ha =>
      rw [ha] at hf
      exact fun hle => hPQ _ ha hle (hf hle)

end

/-! ## Runs of the validators -/

variable {o : ByteOrder} {s : DBusString} {bs : List UInt8}

theorem out_headerTrace :
    (headerTrace o s).out = validateBody (.ofBytes headerSignature) 0 o s 0 s.len := by
  rw [headerTrace, out_traceHelper, validateBody_header]

theorem ValidSignature.typesLeft {cs : List UInt8} (hv : ValidSignature cs)
    (hn : bracketsNest cs = true) : ∃ ts d, TypesLeft (.initTypesOnly (.ofBytes cs) 0) ts d := by
  obtain ⟨ts, rfl, hf, -⟩ := hv.exists_types hn
  exact ⟨ts, _, .init hf⟩

section
variable (hs : InBuffer s bs) (hle : headerLength o bs ≤ bs.length)
include hs hle

/-- **Where brackets nest no assertion fails.** -/
theorem Nests.judged (h : Nests o s bs) : Judged o s bs where
  header := by
    obtain ⟨ts, d, hl⟩ := validSignature_header.typesLeft (by decide)
    exact traceHelper_calm (hs.readable.shrink (Nat.le_add_right ..)) h.fits _ true hl
      (Nat.zero_le _) h.header
  body hv := by
    obtain ⟨-, -, -, hsg, -⟩ := hv.getConstSignature hle
    obtain ⟨ts, d, hl⟩ := hsg.typesLeft (h.signature hv)
    exact traceHelper_calm hs.toBegins.readable (hs.le.trans h.fits) _ true hl hle (h.body hv)

/-- What is done with the end of the body fails no assertion. -/
theorem InBuffer.body_calm_iff {str : DBusString} {d : ℕ}
    (hsg : ValidSignature (bodySignature o bs))
    (ht : TextsAgree (.ofBytes (bodySignature o bs)) str d) :
    Calm (do
      let p ← validateBody str d o s (headerLength o bs) (bodyOf o bs).length
      require (¬ p < headerLength o bs + (bodyOf o bs).length) .invalidTooMuchData
      assert (p = headerLength o bs + (bodyOf o bs).length)) ↔ Calm (bufferedTrace o s bs).out := by
  have hst := hs.validateBody_stays hle hsg ht
  have hb := length_header_body hle
  rw [bufferedTrace, out_traceHelper, ← hst.1]
  cases hv : validateBody str d o s (headerLength o bs) (bodyOf o bs).length with
  | error st => exact avoids_error_iff.trans avoids_error_iff.symm
  | ok q =>
    refine iff_of_true ?_ (avoids_ok q)
    have hq := (hst.sat.of_ok hv).2
    refine calm_require.bind fun _ hlt => calm_assert ?_
    rw [require_eq_ok] at hlt
    omega

end

end DBus
