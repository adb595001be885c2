/-
  Writing value trees.

  The writer appends the encoding of a value to the values, and its type codes to the type
  string unless they are expected (`writeValue_sat`); it stops only if the values get too long
  for a string, where it may ask for up to eight bytes more than it needs (`NoRoom`).
-/
import DBus.Writer.Containers
import DBus.Body.Accept

namespace DBus

open Outcome Memory Align Endian Value List Ty TypeWriter

mutual
/-- **The writer writes the encoding of a value.** -/
theorem writeValue_sat : ∀ (v : Value) {w : TypeWriter} {b : Buffers}, v.WF → Ready w b v.ty.sig →
    Sat (writeValue v w b)
      (fun out => Wrote w b v.ty.sig (v.encode w.byteOrder b.values.length) out.1 out.2)
      (NoRoom (b.values.length + (v.encode w.byteOrder b.values.length).length + 8))
  | .fixed f n, w, b, _, h => by
    rw [writeValue]
    exact writeBasic_sat h (sat_noRoom
      (marshalWriteBasic_fixed_sat h.valuePos h.values_le f) (Nat.le_add_right ..))
  | .str s bs, w, b, hwf, h => by
    rw [writeValue]
    exact writeBasic_sat h (sat_noRoom
      (marshalWriteBasic_str_sat h.valuePos h.values_le hwf.1 hwf.2) (Nat.le_add_right ..))
  | .variant v, w, b, hwf, h => by
    have hrm : v.ty.sig.length + 9 ≤
        ((Value.variant v).encode w.byteOrder b.values.length).length + 8 := by
      rw [encode_variant, length_append, length_sigBytes]
      omega
    rw [writeValue]
    refine (sat_noRoom (recurse_variant_sat v.ty h) (by omega)).bind fun ⟨w1, sub, b1⟩ ho => ?_
    have hlen : b1.values.length =
        alignUp (b.values.length + (sigBytes v.ty.sig).length) v.ty.alignment := by
      rw [ho.parent.values.length, length_append, ← Nat.add_assoc, length_pad,
        add_padding v.ty.alignment_pos]
    have hend : b1.values.length + (v.encode sub.byteOrder b1.values.length).length =
        b.values.length + ((Value.variant v).encode w.byteOrder b.values.length).length := by
      rw [ho.byteOrder, hlen, encode_variant, length_append, ← Nat.add_assoc,
        add_length_encode, add_length_encode, alignUp_of_dvd dvd_alignUp]
    have hvl : Sat (writeValue v sub b1) _ _ := writeValue_sat v hwf.2 ho.ready
    rw [hend] at hvl
    refine hvl.bind fun ⟨sub', b2⟩ hw => ?_
    obtain ⟨w2, hun, hal⟩ := ho.close hw
    rw [ho.byteOrder, hlen, append_assoc, pad_encode, ← encode_variant] at hal
    simp only
    rw [hun]
    exact hal
  | .array e vs, w, b, hwf, h => by
    have hend := add_length_encode_array (o := w.byteOrder) e vs b.values.length
    have h1 := le_alignUp (n := b.values.length) (show 0 < 4 by decide)
    have h2 := le_alignUp (n := alignUp b.values.length 4 + 4) e.alignment_pos
    rw [writeValue]
    refine (sat_noRoom (recurse_array_sat h) (by omega)).bind fun ⟨w1, sub, b1⟩ ho => ?_
    have hlen : b1.values.length = alignUp (alignUp b.values.length 4 + 4) e.alignment := by
      rw [ho.parent.values.length, ← add_padding e.alignment_pos, ← add_padding (show 0 < 4 by decide)]
      simp only [length_append, length_pad, length_toBytes]
      omega
    have hel := writeElements_sat vs hwf.2 hwf.1 ho.containerType ho.ready
    rw [ho.byteOrder, hlen, ← hend] at hel
    refine hel.bind fun ⟨sub', b2⟩ hw => ?_
    obtain ⟨w2, b3, hun, hal⟩ := ho.close hw
    simp only
    rw [hun]
    exact hal
  | .struct k vs, w, b, hwf, h => by
    have hend := add_length_encode_struct (o := w.byteOrder) k vs b.values.length
    rw [writeValue]
    refine (sat_noRoom (recurse_struct_sat h) (by omega)).bind fun ⟨w1, sub, b1⟩ ⟨hw1, ho⟩ => ?_
    obtain rfl : w1 = w := hw1
    have hrd := ho.ready (ready_subInit_struct h) rfl
    have hsq : sub.containerType.isSequence = true := by rw [ho.containerType]; rfl
    have hlen : b1.values.length = alignUp b.values.length 8 := by
      rw [ho.values.length, length_pad, add_padding (by decide)]
    have hor : sub.byteOrder = w1.byteOrder := ho.byteOrder
    have hfl := writeFields_sat vs hwf hsq hrd.left
    rw [hor, hlen, ← hend] at hfl
    refine hfl.bind fun ⟨sub', b2⟩ hw => ?_
    obtain ⟨w2, b3, hun, hal⟩ := unrecurse_struct_ok (ho.trans hw) (hw.ready hrd hsq)
    simp only
    rw [hun]
    exact hal
theorem writeElements_sat : ∀ (vs : List Value) {w : TypeWriter} {b : Buffers} {e : Ty},
    WFList vs → (∀ t ∈ tyList vs, t = e) → w.containerType = .array → Ready w b e.sig →
    Sat (writeValues vs w b)
      (fun out => Wrote w b [] (encodeList w.byteOrder b.values.length vs) out.1 out.2)
      (NoRoom (b.values.length + (encodeList w.byteOrder b.values.length vs).length + 8))
  | [], w, b, e, _, _, _, h => by
    rw [writeValues]
    exact h.wrote_nil
  | v :: vs, w, b, e, hwf, ht, hc, h => by
    obtain rfl : v.ty = e := ht _ (mem_cons_self ..)
    rw [writeValues]
    rw [encodeList_cons, length_append, ← Nat.add_assoc b.values.length]
    refine (sat_noRoom (writeValue_sat v hwf.1 h) (by omega)).bind fun ⟨w1, b1⟩ hw => ?_
    have hrs := writeElements_sat vs hwf.2 (fun t hm => ht t (mem_cons_of_mem _ hm))
      (hw.containerType.trans hc) (hw.ready_element h hc)
    rw [hw.byteOrder, hw.values.length] at hrs
    exact hrs.mono (fun ⟨w2, b2⟩ hw2 => (hw.trans hw2).element h hc) fun _ he => he
/-- The fields of a struct, or the values of a body, are written one behind the other. -/
theorem writeFields_sat : ∀ (vs : List Value) {w : TypeWriter} {b : Buffers},
    WFList vs → w.containerType.isSequence = true → Ready w b (sigList (tyList vs)) →
    Sat (writeValues vs w b)
      (fun out => Wrote w b (sigList (tyList vs)) (encodeList w.byteOrder b.values.length vs)
        out.1 out.2)
      (NoRoom (b.values.length + (encodeList w.byteOrder b.values.length vs).length + 8))
  | [], w, b, _, _, h => by
    rw [writeValues]
    exact h.wrote_nil
  | v :: vs, w, b, hwf, hs, h => by
    rw [tyList_cons, sigList_cons] at h
    rw [writeValues, encodeList_cons, length_append, ← Nat.add_assoc b.values.length]
    refine (sat_noRoom (writeValue_sat v hwf.1 h.left) (by omega)).bind fun ⟨w1, b1⟩ hw => ?_
    have hrs := writeFields_sat vs hwf.2 (by rw [hw.containerType]; exact hs) (hw.ready h hs)
    rw [hw.byteOrder, hw.values.length] at hrs
    exact hrs.mono (fun ⟨w2, b2⟩ hw2 => hw.trans hw2) fun _ he => he
end

/-! ## Bodies -/

section
variable (o : ByteOrder)

def writeBody (vs : List Value) : Res Buffers := do
  let (_, b) ← writeValues vs (.init o .types 0 0) ⟨[], []⟩
  return b

/-- Append elements to the array whose type and length word are at the given positions. -/
def appendElements (typePos lenPos : ℕ) (e : Ty) (ys : List Value) (b : Buffers) : Res Buffers := do
  let w := initValuesOnly o .types typePos lenPos
  let (w, sub, b) ← w.appendArray (some (.ofBytes e.sig, 0)) b
  let (sub, b) ← writeValues ys sub b
  let (_, b) ← w.unrecurse sub b
  return b

/-- Write value trees and an array into an empty body, and append elements to the
    array afterwards. -/
def writeThenAppend (vs : List Value) (e : Ty) (xs ys : List Value) : Res Buffers := do
  let (w, b) ← writeValues vs (.init o .types 0 0) ⟨[], []⟩
  let (_, b) ← writeValue (.array e xs) w b
  appendElements o w.typePos (alignUp w.valuePos 4) e ys b

end

/-- The ways to write a body. -/
inductive WritesBody (o : ByteOrder) : List Value → Res Buffers → Prop
  | write (vs : List Value) : WritesBody o vs (writeBody o vs)
  | append (vs : List Value) (e : Ty) (xs ys : List Value) :
    WritesBody o (vs ++ [.array e (xs ++ ys)]) (writeThenAppend o vs e xs ys)

variable {o : ByteOrder} {vs : List Value}

theorem ready_init {cs : List UInt8} (h : cs.length ≤ stringMaxMaxLength) :
    Ready (.init o .types 0 0) ⟨[], []⟩ cs :=
  ⟨rfl, rfl, Nat.zero_le _, .insert rfl rfl rfl (by rw [length_nil, Nat.zero_add]; exact h) rfl⟩

theorem writeBody_sat (hwf : WFList vs) (hl : (sigList (tyList vs)).length ≤ stringMaxMaxLength) :
    Sat (writeBody o vs) (fun b => b.types = sigList (tyList vs) ∧
      b.values = encodeList o 0 vs ∧ b.values.length ≤ stringMaxMaxLength)
      (NoRoom ((encodeList o 0 vs).length + 8)) := by
  have hrd : Ready (.init o .types 0 0) ⟨[], []⟩ (sigList (tyList vs)) := ready_init hl
  have hrm := congrArg (· + 8) (Nat.zero_add (encodeList o 0 vs).length)
  refine (sat_noRoom (writeFields_sat vs hwf rfl hrd) hrm.le).bind fun ⟨w, b⟩ hw => ?_
  exact ⟨hw.types, hw.values⟩

theorem appendElements_sat {typePos : ℕ} {e : Ty} {xs ys : List Value} {b : Buffers}
    {zs : List UInt8} (htx : Holds (ofList b.types) typePos (Ty.array e).sig)
    (hv : b.values = zs ++ (Value.array e xs).content o zs.length) (h4 : 4 ∣ zs.length)
    (hle : b.values.length ≤ stringMaxMaxLength) (hwf : WFList ys) (ht : ∀ t ∈ tyList ys, t = e) :
    Sat (appendElements o typePos zs.length e ys b) (fun b' => b'.types = b.types ∧
      Appended zs ((Value.array e (xs ++ ys)).content o zs.length) b'.values)
      (NoRoom (zs.length + ((Value.array e (xs ++ ys)).content o zs.length).length + 8)) := by
  have hrd : TypesReady (.initValuesOnly o .types typePos zs.length) b (Ty.array e).sig :=
    .expect nofun rfl htx nofun
  rw [content] at hv
  generalize hel : encodeList o (alignUp (zs.length + 4) e.alignment) xs = elems at hv
  have hlen : b.values.length = alignUp (zs.length + 4) e.alignment + elems.length := by
    rw [hv, ← add_padding e.alignment_pos]
    simp only [length_append, length_toBytes, length_pad]
    omega
  obtain ⟨w, hap⟩ := appendArray_eq hrd rfl rfl hv rfl h4
    (by unfold stringMaxMaxLength at hle; omega)
  generalize hsb : ({ elementSub (.initValuesOnly o .types typePos zs.length) with
      valuePos := b.values.length
      lenPos := some zs.length
      startPos := alignUp (zs.length + 4) e.alignment } : TypeWriter) = sub at hap
  have hex : sub.typePosIsExpectation = true := by rw [← hsb]; rfl
  have hsr : Ready sub b e.sig := by
    subst hsb
    refine ⟨rfl, rfl, hle, .expect nofun rfl ?_ fun _ => rfl⟩
    rw [sig] at htx
    exact (holds_cons.1 htx).2
  have hcn : (Value.array e (xs ++ ys)).content o zs.length = toBytes o 4
      (elems ++ encodeList o b.values.length ys).length ++
      (pad (zs.length + 4) e.alignment ++ (elems ++ encodeList o b.values.length ys)) := by
    simp only [content, encodeList_append, hel, hlen]
  have hes : Sat (writeValues ys sub b) _ _ := writeElements_sat ys hwf ht (by rw [← hsb]; rfl) hsr
  have hrm : b.values.length + (encodeList sub.byteOrder b.values.length ys).length =
      zs.length + ((Value.array e (xs ++ ys)).content o zs.length).length := by
    have ho : sub.byteOrder = o := by rw [← hsb]; rfl
    rw [hcn, ho, hv]
    simp only [length_append, length_toBytes]
    omega
  rw [hrm] at hes
  rw [appendElements, hap, ok_bind]
  refine hes.bind fun ⟨sub', b'⟩ hw => ?_
  have hvl : b'.values = zs ++ (toBytes o 4 elems.length ++
      (pad (zs.length + 4) e.alignment ++ (elems ++ encodeList o b.values.length ys))) := by
    rw [hw.values.1, hv, ← hsb]
    simp only [append_assoc]
    rfl
  have hst : sub'.startPos = (zs ++ (toBytes o 4 elems.length ++
      pad (zs.length + 4) e.alignment)).length := by
    rw [hw.startPos, ← hsb, ← add_padding e.alignment_pos]
    simp only [length_append, length_toBytes, length_pad]
    omega
  have hun := unrecurse_array_eq (w := w) (b := b') (by rw [hw.containerType, ← hsb]; rfl)
    (hw.expectation.trans hex) (by rw [hw.lenPos, ← hsb]) (length_toBytes ..) hst hvl
    hw.valuePos
  have ho : sub'.byteOrder = o := by rw [hw.byteOrder, ← hsb]; rfl
  rw [ho, ← hcn] at hun
  simp only
  rw [hun]
  refine ⟨?_, rfl, ?_⟩
  · have hty := hw.types
    rw [hex, if_pos rfl] at hty
    exact hty
  · have hm := hw.values.2
    rw [hvl] at hm
    rw [hcn]
    simpa using hm

theorem WFList_append {ws : List Value} : WFList (vs ++ ws) ↔ WFList vs ∧ WFList ws := by
  induction vs with
  | nil => simp [WFList]
  | cons v vs ih => simp [WFList, ih, and_assoc]

theorem tyList_append (vs ws : List Value) : tyList (vs ++ ws) = tyList vs ++ tyList ws := by
  induction vs with
  | nil => rfl
  | cons v vs ih => simp [ih]

theorem writeThenAppend_sat {xs ys : List Value} {e : Ty}
    (hwf : WFList (vs ++ [.array e (xs ++ ys)]))
    (hl : (sigList (tyList (vs ++ [.array e (xs ++ ys)]))).length ≤ stringMaxMaxLength) :
    Sat (writeThenAppend o vs e xs ys)
      (fun b => b.types = sigList (tyList (vs ++ [.array e (xs ++ ys)])) ∧
        b.values = encodeList o 0 (vs ++ [.array e (xs ++ ys)]) ∧
        b.values.length ≤ stringMaxMaxLength)
      (NoRoom ((encodeList o 0 (vs ++ [.array e (xs ++ ys)])).length + 8)) := by
  have hsg : Ty.sigList (tyList (vs ++ [.array e (xs ++ ys)])) =
      Ty.sigList (tyList vs) ++ (Ty.array e).sig := by
    simp [tyList_append, ty]
  obtain ⟨hvs, ⟨hts, hel⟩, -⟩ := WFList_append.1 hwf
  obtain ⟨hxs, hys⟩ := WFList_append.1 hel
  rw [tyList_append] at hts
  rw [hsg] at hl ⊢
  have hrd : Ready (.init o .types 0 0) ⟨[], []⟩ (Ty.sigList (tyList vs) ++ (Ty.array e).sig) :=
    ready_init hl
  have hfn : (encodeList o 0 (vs ++ [.array e (xs ++ ys)])).length = (encodeList o 0 vs).length +
        ((Value.array e (xs ++ ys)).encode o (encodeList o 0 vs).length).length := by
    rw [encodeList_append, length_append, Nat.zero_add, encodeList_cons, encodeList_nil, append_nil]
  have hfl : Sat (writeValues vs (.init o .types 0 0) ⟨[], []⟩) _ _ :=
    writeFields_sat vs hvs rfl hrd.left
  refine (sat_noRoom hfl ?_).bind fun ⟨w, b⟩ hw => ?_
  · change 0 + (encodeList o 0 vs).length + 8 ≤ _
    omega
  have harr : (Value.array e xs).WF := ⟨fun t ht => hts t (mem_append_left _ ht), hxs⟩
  have hvl : b.values = encodeList o 0 vs := hw.values.1
  have ho : w.byteOrder = o := hw.byteOrder
  have har : Sat (writeValue (.array e xs) w b) _ _ :=
    writeValue_sat (.array e xs) harr (hw.ready hrd rfl)
  refine (sat_noRoom har ?_).bind fun ⟨w', b'⟩ hw' => ?_
  · rw [hfn, ho, hvl, add_length_encode_array, add_length_encode_array, encodeList_append,
      length_append]
    omega
  have hty : b.types = Ty.sigList (tyList vs) := hw.types
  have hty' : b'.types = b.types ++ (Ty.array e).sig := by
    have h := hw'.types
    rw [hw.expectation] at h
    exact h
  have hp : w.typePos = b.types.length := by
    rw [hty, hw.typePos_sequence rfl]
    exact Nat.zero_add _
  -- the position of the length word, behind the padding of the array
  have hlen : (b.values ++ pad b.values.length 4).length = alignUp b.values.length 4 := by
    rw [length_append, length_pad, add_padding (by decide)]
  have hvl' : b'.values = (b.values ++ pad b.values.length 4) ++
      (Value.array e xs).content o (b.values ++ pad b.values.length 4).length := by
    have h := hw'.values.1
    rw [ho] at h
    rw [h, hlen, append_assoc]
    rfl
  have htx : Holds (ofList b'.types) w.typePos (Ty.array e).sig := by
    rw [hty', hp]
    exact holds_ofList_right
  have hap := appendElements_sat htx hvl' (hlen ▸ dvd_alignUp) hw'.values.2 hys
    fun t ht => hts t (mem_append_right _ ht)
  have hrm : alignUp b.values.length 4 +
      ((Value.array e (xs ++ ys)).content o (alignUp b.values.length 4)).length =
      (encodeList o 0 (vs ++ [.array e (xs ++ ys)])).length := by
    rw [hfn, hvl, add_length_encode (Value.array e (xs ++ ys))]
    rfl
  rw [hlen, hrm, ← hw.valuePos] at hap
  refine hap.mono (fun b'' hb => ⟨?_, ?_, hb.2.2⟩) fun _ he => he
  · rw [hb.1, hty', hty]
  · rw [hb.2.1, encodeList_append, encodeList_cons, encodeList_nil, append_nil, Nat.zero_add,
      ← hvl, append_assoc, hw.valuePos]
    rfl

theorem writesBody_sat {run : Res Buffers} (hrn : WritesBody o vs run) (hwf : WFList vs)
    (hl : (sigList (tyList vs)).length ≤ stringMaxMaxLength) :
    Sat run (fun b => b.types = sigList (tyList vs) ∧ b.values = encodeList o 0 vs ∧
      b.values.length ≤ stringMaxMaxLength) (NoRoom ((encodeList o 0 vs).length + 8)) := by
  cases hrn with
  | write vs => exact writeBody_sat hwf hl
  | append vs e xs ys => exact writeThenAppend_sat hwf hl

theorem Grammatical.length_le_max {ts : List Ty} (h : Grammatical ts) :
    (sigList ts).length ≤ stringMaxMaxLength := h.length_le.trans (by decide)

/-- A run that satisfies its specification and does not run out of memory returns. -/
theorem exists_of_sat {α : Type} {x : Res α} {Q : α → Prop} {n : ℕ} (h : Sat x Q (NoRoom n))
    (hx : x ≠ .error .noMemory) : ∃ a, x = .ok a ∧ Q a := by
  rcases x with s | a
  · obtain rfl : s = .noMemory := h.1
    exact absurd rfl hx
  · exact ⟨a, rfl, h⟩

/-- **Written bodies are valid.**  Value trees of a grammatical signature, written into an empty
    body in either byte order without running out of memory, leave their signature and values that
    the body validator accepts to the last byte. -/
theorem written_accepted {o : ByteOrder} {vs : List Value} {run : Res Buffers}
    (hg : Grammatical (tyList vs)) (hwf : WFList vs) (hfits : fitsList o 0 vs)
    (hrun : WritesBody o vs run) (hm : run ≠ .error .noMemory) :
    ∃ b, run = .ok b ∧ b.types = sigList (tyList vs) ∧ BodyAccepted o b.types b.values := by
  obtain ⟨b, hb, hty, hvl, hmx⟩ :=
    exists_of_sat (writesBody_sat hrun hwf hg.length_le_max) hm
  refine ⟨b, hb, hty, ?_⟩
  rw [hty, hvl]
  exact bodyAccepted_encode (formedList_mono _ hg.formed) hwf hfits (hvl ▸ hmx)

/-- Values of the types `a\x7bsv\x7d(yas)`. -/
def sampleValues : List Value :=
  [.array (.struct .dictEntry [.basic (.str .string), .variant])
    [.struct .dictEntry [.str .string [107], .variant (.fixed .uint32 1)]],
    .struct .struct [.fixed .byte 7, .array (.basic (.str .string)) [.str .string [118, 119]]]]

theorem sampleValues_grammatical : Grammatical (tyList sampleValues) := by
  constructor <;> decide

theorem sampleValues_wf : WFList sampleValues := by
  simp only [sampleValues, WFList, WF, tyList, ty, StringType.Contents, mem_singleton,
    forall_eq, and_true, true_and]
  exact ⟨⟨⟨by decide +kernel, by decide⟩, ⟨rfl, signatureAccepted_iff.1 (by decide +kernel)⟩,
    by decide⟩, by decide, by decide +kernel, by decide⟩

theorem sampleValues_fits (o : ByteOrder) : fitsList o 0 sampleValues := by
  simp only [sampleValues, fitsList, everyArrayList, everyArray, and_true, true_and]
  cases o <;> decide +kernel

theorem sampleValues_accepted :
    writeBody .little sampleValues ≠ .error .noMemory ∧
      ∃ b, writeBody .little sampleValues = .ok b ∧ b.types = sigList (tyList sampleValues) ∧
        BodyAccepted .little b.types b.values :=
  have hm : writeBody .little sampleValues ≠ .error .noMemory := by decide +kernel
  ⟨hm, written_accepted sampleValues_grammatical sampleValues_wf (sampleValues_fits _)
    (.write sampleValues) hm⟩

end DBus
