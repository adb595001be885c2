/-
  The encoding is canonical.

  The validator leaves the writer no choice: padding, boolean words, NULs and the
  padding before the elements of an empty array are what the writer would write.
  So reading an accepted body and writing what was read gives the body back, and
  a value has one accepted encoding only.
-/
import DBus.Body.Decode
import DBus.Byteswap.Encode
import DBus.Reader.ReadBack

namespace DBus

open Endian Value

/-- A body that is accepted for the types `ts`, in which every signature of a variant is grammatical
    and every array of fixed-size elements is made of whole elements. -/
structure WholeBody (o : ByteOrder) (ts : List Ty) (body : List UInt8) : Prop where
  accepted : BodyAccepted o (Ty.sigList ts) body
  variants : ∀ cs, .variant cs ∈ bodyParts o (Ty.sigList ts) body → IsGrammatical cs
  arrays : ∀ t len f, .array t len ∈ bodyParts o (Ty.sigList ts) body → t.fixed? = some f →
    f.size ∣ len

variable {o : ByteOrder} {ts : List Ty} {body : List UInt8}

theorem WholeBody.regular (h : WholeBody o ts body) :
    ∀ part ∈ bodyParts o (Ty.sigList ts) body, part.regular = true := by
  intro part hp
  cases part with
  | boolean p => rfl
  | array t len => exact Part.regular_array.2 fun f hf => h.arrays t len f hp hf
  | variant cs => exact (h.variants cs hp).scans.1

theorem WholeBody.readBody_eq (h : WholeBody o ts body) (hg : Grammatical ts) (multi : Bool) :
    ∃ vs, readBody multi o (Ty.sigList ts) body = .ok (vs, body.length) ∧ tyList vs = ts ∧
      WFList vs ∧ body = encodeList o 0 vs := by
  have hf := Ty.formedList_mono _ hg.formed
  obtain ⟨vs, rfl, hwf, -, hnr, rfl⟩ := h.accepted.exists_values hf h.regular
  have hrd := readBody_encode multi hf hwf h.accepted.1
  rw [hnr] at hrd
  exact ⟨vs, hrd, rfl, hwf, rfl⟩

/-- **Canonical encoding.**  Reading a body and writing what was read in the same byte order gives
    the signature and the body back, unless the body is within eight bytes of the longest string and
    the writer runs out of memory; and bodies from which the same values are read are the same. -/
theorem canonical_encoding (hg : Grammatical ts) (multi : Bool) :
    (∀ body, WholeBody o ts body → ∃ vs,
      readBody multi o (Ty.sigList ts) body = .ok (vs, body.length) ∧
        ∀ run, WritesBody o vs run → run = .ok ⟨Ty.sigList ts, body⟩ ∨
          run = .error .noMemory ∧ stringMaxMaxLength < body.length + 8) ∧
      ∀ body₁ body₂ vs n₁ n₂, WholeBody o ts body₁ → WholeBody o ts body₂ →
        readBody multi o (Ty.sigList ts) body₁ = .ok (vs, n₁) →
        readBody multi o (Ty.sigList ts) body₂ = .ok (vs, n₂) → body₁ = body₂ := by
  refine ⟨fun body h => ?_, fun body₁ body₂ vs n₁ n₂ h₁ h₂ hr₁ hr₂ => ?_⟩
  · obtain ⟨vs, hrd, rfl, hwf, rfl⟩ := h.readBody_eq hg multi
    refine ⟨vs, hrd, fun run hrn => ?_⟩
    have hst := writesBody_sat hrn hwf hg.length_le_max
    cases run with
    | error s => exact .inr ⟨congrArg _ hst.1, hst.2⟩
    | ok b =>
      obtain ⟨types, values⟩ := b
      obtain ⟨rfl, rfl, -⟩ := hst
      exact .inl rfl
  · obtain ⟨vs₁, hread₁, -, -, rfl⟩ := h₁.readBody_eq hg multi
    obtain ⟨vs₂, hread₂, -, -, rfl⟩ := h₂.readBody_eq hg multi
    rw [hr₁, Except.ok.injEq, Prod.mk.injEq] at hread₁
    rw [hr₂, Except.ok.injEq, Prod.mk.injEq] at hread₂
    rw [← hread₁.1, ← hread₂.1]

theorem sampleBody_whole : WholeBody .little bodyTypes sampleBody := by
  have hp : bodyParts .little (Ty.sigList bodyTypes) sampleBody =
      [.array (.basic (.fixed .int32)) 8, .variant [98], .boolean 16] := by decide +kernel
  refine ⟨sampleBody_accepted, fun cs hcs => ?_, fun t len f hm hf => ?_⟩
  · rw [hp] at hcs
    obtain rfl : cs = [98] := by simpa using hcs
    exact ⟨[.basic (.fixed .boolean)], rfl, by constructor <;> decide⟩
  · exact Part.regular_array.1 (sampleBody_regular _ hm) f hf

theorem sampleBody_rewritten :
    ∃ vs, readBody true .little (Ty.sigList bodyTypes) sampleBody = .ok (vs, sampleBody.length) ∧
      writeBody .little vs = .ok ⟨Ty.sigList bodyTypes, sampleBody⟩ := by
  obtain ⟨vs, hrd, hw⟩ :=
    (canonical_encoding bodyTypes_grammatical true).1 sampleBody sampleBody_whole
  refine ⟨vs, hrd, (hw _ (.write vs)).resolve_right fun h => absurd h.2 (by decide)⟩

/-- **Swapping a received body keeps what is read from it**, in blocks or one by one. -/
theorem swapped_readBack {o' : ByteOrder} {out : List UInt8} (hg : Grammatical ts)
    (h : WholeBody o ts body) (hsw : byteswapBody o o' (Ty.sigList ts) body = .ok out)
    (multi multi' : Bool) : BodyAccepted o' (Ty.sigList ts) out ∧
      readBody multi' o' (Ty.sigList ts) out = readBody multi o (Ty.sigList ts) body := by
  have hf := Ty.formedList_mono _ hg.formed
  obtain ⟨vs, rfl, hwf, hft, -, rfl⟩ := h.accepted.exists_values hf h.regular
  have hrd (multi : Bool) := readBody_encode multi hf hwf h.accepted.1
  obtain rfl | rfl : o = o' ∨ o' = o.other := by cases o <;> cases o' <;> decide
  · rw [byteswapBody_self, Except.ok.injEq] at hsw
    subst hsw
    exact ⟨h.accepted, (hrd multi').trans (hrd multi).symm⟩
  · -- what is swapped denotes the same values
    obtain ⟨-, rfl⟩ := (byteswapBody_encode hf hwf hft).of_ok hsw
    have hlen := length_encodeList_order (o := o) o.other vs 0
    have hac := bodyAccepted_encode hf hwf ((everyArrayList_order ..).1 hft) (hlen ▸ h.accepted.1)
    rw [readBody_encode multi' hf hwf hac.1, hrd, hlen]
    exact ⟨hac, rfl⟩

theorem sampleBody_swapped : ∃ out,
    byteswapBody .little .big (Ty.sigList bodyTypes) sampleBody = .ok out ∧
      readBody false .big (Ty.sigList bodyTypes) out =
        readBody true .little (Ty.sigList bodyTypes) sampleBody :=
  ⟨_, by rfl, (swapped_readBack bodyTypes_grammatical sampleBody_whole (by rfl) true false).2⟩

end DBus
