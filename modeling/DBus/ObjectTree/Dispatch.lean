/-
  Dispatch by object path is exact.

  `Subtree.registered` reads a tree as a registry of handlers by path.  The children of every
  node are in order, so that a search finds the node of a path where there is one.
  Registering and unregistering are the steps of the registry (`treeRun_refines`).
-/
import DBus.ObjectTree.Tree
import Mathlib.Data.List.Infix

namespace DBus

open Outcome Search List Option Function Registry

/-! ## Order -/

section
variable {a b c : List UInt8}

def Before (a b : List UInt8) : Prop := a.map UInt8.toNat < b.map UInt8.toNat

theorem Before.trans (h : Before a b) (h' : Before b c) : Before a c := lt_trans h h'

theorem Before.ne (h : Before a b) : a ≠ b := by
  rintro rfl
  exact lt_irrefl _ h

theorem before_or_before (h : a ≠ b) : Before a b ∨ Before b a :=
  lt_or_gt_of_ne fun he => h (map_injective_iff.2 (fun _ _ => UInt8.toNat_inj.1) he)

theorem strcmp_eq (h : strcmp a b = .eq) : a = b := by
  unfold strcmp at h
  split_ifs at h
  assumption

theorem strcmp_lt (h : strcmp a b = .lt) : Before a b := by
  unfold strcmp at h
  split_ifs at h
  assumption

theorem strcmp_gt (h : strcmp a b = .gt) : Before b a := by
  unfold strcmp at h
  split_ifs at h
  rename_i hne hlt
  exact (before_or_before hne).resolve_left hlt

theorem strcmp_of_before (h : Before a b) : strcmp a b = .lt := by
  rw [strcmp, if_neg h.ne]
  exact if_pos h

end

namespace Subtree

variable {H : Type}

/-- The children of every node are in the order of their names. -/
inductive Ordered : Subtree H → Prop
  | node {name : List UInt8} {handler : Option H} {fallback : Bool} {subtrees : List (Subtree H)} :
      subtrees.Pairwise (fun c c' => Before c.name c'.name) → (∀ c ∈ subtrees, Ordered c) →
      Ordered (node name handler fallback subtrees)

def registered : Subtree H → Registry H
  | node _ handler fallback _, [] => handler.map (·, fallback)
  | node _ _ _ subtrees, name :: path =>
    (subtrees.find? (·.name = name)).bind fun child => child.registered path

section
variable {t s c : Subtree H} {cs : List (Subtree H)} {name : List UInt8} {i k : ℕ}
  {path : ObjectPath} {p here : List ℕ} {f : Subtree H → Subtree H}

theorem Ordered.pairwise (h : t.Ordered) : t.subtrees.Pairwise fun c c' => Before c.name c'.name := by
  cases h
  assumption

theorem Ordered.child (h : t.Ordered) (hc : c ∈ t.subtrees) : c.Ordered := by
  cases h with
  | node _ hal => exact hal c hc

theorem find?_child (h : cs.Pairwise fun c c' => Before c.name c'.name) (hc : cs[k]? = some c) :
    cs.find? (·.name = c.name) = some c := by
  obtain ⟨hk, rfl⟩ := List.getElem?_eq_some_iff.1 hc
  rw [find?_eq_some_iff_getElem]
  refine ⟨by simp, k, hk, rfl, fun j hj => ?_⟩
  have := pairwise_iff_getElem.1 h j k (by omega) hk hj
  simpa using this.ne

theorem registered_cons (t : Subtree H) (name : List UInt8) (path : ObjectPath) :
    t.registered (name :: path) =
      (t.subtrees.find? (·.name = name)).bind fun child => child.registered path := by
  cases t
  rfl

theorem registered_nil (t : Subtree H) :
    t.registered [] = t.handler.map (·, t.invokeAsFallback) := by
  cases t
  rfl

theorem registered_child (h : t.Ordered) (hc : t.subtrees[k]? = some c) :
    t.registered (c.name :: path) = c.registered path := by
  simp [registered_cons, find?_child h.pairwise hc]

theorem registered_new (name : List UInt8) (path : ObjectPath) :
    (new name : Subtree H).registered path = none := by
  cases path <;> rfl

theorem ordered_new (name : List UInt8) : (new name : Subtree H).Ordered := .node .nil nofun

section
variable (h : cs.Pairwise fun c c' => Before c.name c'.name) (name : List UInt8)
include h

theorem sifted : Sifted (fun child => strcmp name child.name) cs := by
  refine h.imp fun {c c'} hlt hgt => ?_
  refine strcmp_of_before ?_
  rcases hcm : strcmp name c.name with _ | _ | _
  · exact (strcmp_lt hcm).trans hlt
  · rwa [strcmp_eq hcm]
  · exact absurd hcm hgt

/-- A child is found, or its place. -/
theorem search_children :
    (∃ k c, search (fun child => strcmp name child.name) cs = .found k ∧ cs[k]? = some c ∧
      c.name = name) ∨
    ∃ i, search (fun child => strcmp name child.name) cs = .missing i ∧ i ≤ cs.length ∧
      (∀ c ∈ cs.take i, Before c.name name) ∧ ∀ c ∈ cs.drop i, Before name c.name := by
  have hcr := search_correct (sifted h name)
  cases hs : search (fun child => strcmp name child.name) cs with
  | found k =>
    rw [hs] at hcr
    obtain ⟨c, hc, heq⟩ := hcr
    exact .inl ⟨k, c, rfl, hc, (strcmp_eq heq).symm⟩
  | missing i =>
    rw [hs] at hcr
    obtain ⟨hi, htk, hdr⟩ := hcr
    exact .inr ⟨i, rfl, hi, fun c hc => strcmp_gt (htk c hc), fun c hc => strcmp_lt (hdr c hc)⟩

end

theorem find?_missing (htk : ∀ c ∈ cs.take i, Before c.name name)
    (hdr : ∀ c ∈ cs.drop i, Before name c.name) : cs.find? (·.name = name) = none := by
  rw [find?_eq_none]
  intro c hc
  rw [← take_append_drop i cs, mem_append] at hc
  rcases hc with hc | hc
  · simpa using (htk c hc).ne
  · simpa using (hdr c hc).ne.symm

/-! ## Changes of a node -/

section
variable (i : ℕ) (f : Subtree H → Subtree H)

theorem onChild_name : (onChild i f t).name = t.name := by
  cases t
  rfl

theorem onChild_subtrees : (onChild i f t).subtrees = t.subtrees.modify i f := by
  cases t
  rfl

end

section
variable (h : cs.Pairwise fun c c' => Before c.name c'.name) (hc : cs[k]? = some c)
  (hname : s.name = c.name)
include h hc hname

theorem pairwise_set : (cs.set k s).Pairwise fun c c' => Before c.name c'.name := by
  have hnm : (cs.set k s).map Subtree.name = cs.map Subtree.name := by
    rw [map_set, hname]
    refine ext_getElem? fun j => ?_
    rw [getElem?_set]
    split
    · rename_i hj
      subst hj
      obtain ⟨hk, rfl⟩ := List.getElem?_eq_some_iff.1 hc
      simp [hk]
    · rfl
  rw [← pairwise_map (R := Before)] at h ⊢
  rwa [hnm]

theorem find?_set (name : List UInt8) : (cs.set k s).find? (·.name = name) =
      if name = c.name then some s else cs.find? (·.name = name) := by
  obtain ⟨hk, rfl⟩ := List.getElem?_eq_some_iff.1 hc
  split
  · rename_i hn
    have := find?_child (pairwise_set h hc hname) (k := k) (c := s) (by simp [hk])
    rwa [hname, ← hn] at this
  · rename_i hn
    have hsp : cs = cs.take k ++ cs[k] :: cs.drop (k + 1) := by
      rw [← drop_eq_getElem_cons hk, take_append_drop]
    rw [set_eq_take_append_cons_drop, if_pos hk]
    conv_rhs => rw [hsp]
    rw [find?_append, find?_append, find?_cons_of_neg, find?_cons_of_neg]
    · simpa using Ne.symm hn
    · simpa [hname] using Ne.symm hn

end

/-- Only what is below the child changes. -/
theorem exchange_child (h : t.Ordered) (hc : t.subtrees[k]? = some c)
    (hname : (f c).name = c.name) (hf : (f c).Ordered) :
    (onChild k f t).Ordered ∧ (onChild k f t).registered [] = t.registered [] ∧
      (∀ q, (onChild k f t).registered (c.name :: q) = (f c).registered q) ∧
      ∀ name q, name ≠ c.name → (onChild k f t).registered (name :: q) = t.registered (name :: q) := by
  cases h with
  | @node own handler fallback cs hp hal =>
    have hc' : cs[k]? = some c := hc
    have hst : cs.modify k f = cs.set k (f c) := by simp [modify_eq_set_getElem?, hc']
    have hfn := find?_set hp hc' hname
    refine ⟨?_, rfl, fun q => ?_, fun name q hn => ?_⟩
    · rw [onChild, hst]
      refine .node (pairwise_set hp hc' hname) fun d hd => ?_
      rcases mem_or_eq_of_mem_set hd with hd | rfl
      · exact hal d hd
      · exact hf
    · rw [registered_cons, onChild_subtrees]
      simp only [subtrees]
      simp [hst, hfn]
    · rw [registered_cons, registered_cons, onChild_subtrees]
      simp only [subtrees]
      rw [hst, hfn, if_neg hn]

/-! ## Pointers -/

/-- The pointer `p` is that of the node for the path. -/
inductive Reaches (t : Subtree H) : ObjectPath → List ℕ → Prop
  | root : Reaches t [] []
  | child {path : ObjectPath} {parent : List ℕ} {s c : Subtree H} {i : ℕ} :
      Reaches t path parent → t.at? parent = some s → s.subtrees[i]? = some c →
      Reaches t (path ++ [c.name]) (i :: parent)

theorem at?_append (t : Subtree H) (k : ℕ) (p : List ℕ) :
    t.at? (p ++ [k]) = (t.subtrees[k]?).bind (·.at? p) := by
  induction p with
  | nil =>
    show (some t).bind (·.subtrees[k]?) = _
    rw [bind_some]
    cases t.subtrees[k]? <;> rfl
  | cons i p ih =>
    rw [cons_append, at?, ih]
    cases t.subtrees[k]? <;> rfl

theorem Reaches.under (hc : t.subtrees[k]? = some c) (h : c.Reaches path p) :
    t.Reaches (c.name :: path) (p ++ [k]) := by
  induction h with
  | root =>
    have hch : t.Reaches ([] ++ [c.name]) [k] := .child .root rfl hc
    exact hch
  | @child _ parent _ _ _ _ hs hd ih =>
    have hp := at?_append t k parent
    rw [hc, bind_some, hs] at hp
    have hch := Reaches.child ih hp hd
    exact hch

section
variable (ht : t.Ordered) (h : t.Reaches path p)
include ht h

theorem Reaches.at? :
    ∃ s, t.at? p = some s ∧ s.Ordered ∧ ∀ q, s.registered q = t.registered (path ++ q) := by
  induction h with
  | root => exact ⟨t, rfl, ht, fun _ => rfl⟩
  | @child path parent s c i _ hs hc ih =>
    obtain ⟨s', hs', ho, hrg⟩ := ih
    obtain rfl : s = s' := Option.some.inj (hs.symm.trans hs')
    refine ⟨c, ?_, ho.child (mem_of_getElem? hc), fun q => ?_⟩
    · rw [Subtree.at?, hs]
      exact hc
    · rw [append_assoc, singleton_append, ← hrg, registered_child ho hc]

theorem Reaches.modify (hs : t.at? p = some s) (hname : (f s).name = s.name) (hf : (f s).Ordered) :
    (t.modify p f).Ordered ∧ (t.modify p f).name = t.name ∧
      (∀ q, (t.modify p f).registered (path ++ q) = (f s).registered q) ∧
      ∀ q, ¬ path <+: q → (t.modify p f).registered q = t.registered q := by
  induction h generalizing s f with
  | root =>
    cases hs
    exact ⟨hf, hname, fun _ => rfl, fun q hq => absurd nil_prefix hq⟩
  | @child path parent s' c i hpr hs' hc ih =>
    obtain rfl : c = s := by
      rw [Subtree.at?, hs'] at hs
      exact Option.some.inj (hc.symm.trans hs)
    obtain ⟨s'', hs'', ho, hrg⟩ := hpr.at? ht
    obtain rfl : s' = s'' := Option.some.inj (hs'.symm.trans hs'')
    obtain ⟨hor, hnl, hsm, hot⟩ := exchange_child ho hc hname hf
    obtain ⟨hor', hnm', hb, hbs⟩ := ih hs' (onChild_name i f) hor
    refine ⟨hor', hnm', fun q => ?_, fun q hq => ?_⟩
    · rw [append_assoc, singleton_append]
      exact (hb _).trans (hsm q)
    · by_cases hp : path <+: q
      · obtain ⟨q, rfl⟩ := hp
        refine (hb q).trans ?_
        rw [← hrg]
        cases q with
        | nil => exact hnl
        | cons name q =>
          refine hot name q fun hn => hq ⟨q, ?_⟩
          rw [append_assoc, singleton_append, hn]
      · exact hbs q hp

end

/-! ## Searches -/

theorem fallback_nil (h : t.invokeAsFallback = false) : t.registered.fallback [] = none := by
  rw [fallback, registered_nil, h]
  cases t.handler <;> rfl

theorem fallback_child (ht : t.Ordered) (hc : t.subtrees[k]? = some c) (path : ObjectPath) :
    t.registered.fallback (c.name :: path) = c.registered.fallback path := by
  rw [fallback, fallback, registered_child ht hc]

theorem registered_missing (h : t.subtrees.find? (·.name = name) = none) (path : ObjectPath) :
    t.registered (name :: path) = none := by
  simp [registered_cons, h]

/-- Nothing between the node that is found and the path has a fallback. -/
structure Covers (t : Subtree H) (front path : ObjectPath) : Prop where
  proper : front <+: path ∧ front ≠ path
  between : ∀ mid, mid <+: path → front.length < mid.length → t.registered.fallback mid = none

/-- What a search without creation finds: the node for the path, nothing, or, if the deepest
    match is asked for, the deepest node above the path with the mark for fallbacks. -/
inductive Finds (t : Subtree H) (path : ObjectPath) (deepest : Bool) :
    Option (List ℕ × Bool) → List ℕ → Prop
  | exact {p here : List ℕ} : t.Reaches path p → Finds t path deepest (some (p ++ here, true)) here
  | none {here : List ℕ} : t.registered path = none →
      (deepest = true → ∀ front, front <+: path → t.registered.fallback front = none) →
      Finds t path deepest none here
  | above (front : ObjectPath) {p here : List ℕ} : deepest = true → t.registered path = none →
      t.Reaches front p → t.Covers front path → Finds t path deepest (some (p ++ here, false)) here

theorem covers_self (h : ∀ front, front <+: path → t.registered.fallback (name :: front) = none) :
    t.Covers [] (name :: path) := by
  refine ⟨⟨ nil_prefix, nofun⟩, fun mid hm hlen => ?_⟩
  rcases prefix_cons_iff.1 hm with rfl | ⟨front, rfl, hfr⟩
  · exact absurd hlen (Nat.lt_irrefl _)
  · exact h front hfr

/-- Looking up changes nothing and finds what is there. -/
theorem find_finds (deepest : Bool) (ht : t.Ordered) (here : List ℕ) (path : ObjectPath) :
    (findSubtreeRecurse false deepest here t path).1 = t ∧
      Finds t path deepest (findSubtreeRecurse false deepest here t path).2 here := by
  induction path generalizing t here with
  | nil =>
    rw [findSubtreeRecurse]
    exact ⟨rfl, .exact (p := []) .root⟩
  | cons name path ih =>
    obtain ⟨own, handler, fallback, cs⟩ := t
    rw [findSubtreeRecurse]
    rcases search_children ht.pairwise name with ⟨k, c, hsr, hc, rfl⟩ | ⟨i, hsr, -, htk, hdr⟩
    · have hc' : cs[k]? = some c := hc
      obtain ⟨htr, hfn⟩ := ih (ht.child (mem_of_getElem? hc)) (k :: here)
      have hse : cs.set k c = cs := by
        obtain ⟨hk, rfl⟩ := List.getElem?_eq_some_iff.1 hc'
        exact set_getElem_self hk
      rw [show search (fun child => strcmp c.name child.name) cs = .found k from hsr]
      simp only [hc', htr, hse]
      refine ⟨by split <;> rfl, ?_⟩
      generalize hr : (findSubtreeRecurse false deepest (k :: here) c path).2 = r at hfn
      generalize hh : k :: here = her' at hfn
      cases hfn with
      | @exact p _ hrc =>
        subst hh
        rw [if_neg (by simp), show p ++ k :: here = p ++ [k] ++ here by simp]
        exact .exact (hrc.under hc)
      | none hnn hfr =>
        have hrg := (registered_child ht hc).trans hnn
        by_cases hst : deepest = true ∧ fallback = true
        · rw [if_pos ⟨rfl, hst⟩]
          refine .above [] (p := []) hst.1 hrg .root (covers_self fun front hf => ?_)
          exact (fallback_child ht hc front).trans (hfr hst.1 front hf)
        · rw [if_neg fun h => hst h.2]
          refine .none hrg fun hdp front hf => ?_
          rcases prefix_cons_iff.1 hf with rfl | ⟨front, rfl, hf'⟩
          · exact fallback_nil (Bool.eq_false_iff.2 fun hfl => hst ⟨hdp, hfl⟩)
          · exact (fallback_child ht hc front).trans (hfr hdp front hf')
      | @above front p _ hdp hnn hrc hcv =>
        subst hh
        rw [if_neg (by simp), show p ++ k :: here = p ++ [k] ++ here by simp]
        refine .above _ hdp ((registered_child ht hc).trans hnn) (hrc.under hc) ⟨⟨?_, ?_⟩, ?_⟩
        · exact (prefix_cons_inj _).2 hcv.proper.1
        · intro he
          exact hcv.proper.2 (List.cons.inj he).2
        · intro mid hmd hlen
          rcases prefix_cons_iff.1 hmd with rfl | ⟨mid, rfl, hmd'⟩
          · exact absurd hlen (Nat.not_lt_zero _)
          · exact (fallback_child ht hc mid).trans
              (hcv.between mid hmd' (Nat.lt_of_succ_lt_succ hlen))
    · have hfi := find?_missing htk hdr
      have hm := registered_missing (t := node own handler fallback cs) hfi
      have hnn : ∀ front, (node own handler fallback cs).registered.fallback (name :: front) = none := by
        intro front
        simp [Registry.fallback, hm]
      rw [show search (fun child => strcmp name child.name) cs = .missing i from hsr]
      simp only [Bool.false_eq_true, if_false, true_and]
      by_cases hst : deepest = true ∧ fallback = true
      · rw [if_pos hst]
        exact .above [] (p := []) hst.1 (hm path) .root (covers_self fun front _ => hnn front)
      · rw [if_neg hst]
        refine .none (hm path) fun hdp front hf => ?_
        rcases prefix_cons_iff.1 hf with rfl | ⟨front, rfl, hf⟩
        · exact fallback_nil (Bool.eq_false_iff.2 fun hfl => hst ⟨hdp, hfl⟩)
        · exact hnn front

/-! ## Creation -/

theorem insertIdx_eq {l : List (Subtree H)} (h : i ≤ l.length) :
    l.insertIdx i c = l.take i ++ c :: l.drop i := by
  induction l generalizing i with
  | nil =>
    obtain rfl : i = 0 := Nat.le_zero.1 h
    rfl
  | cons x l ih =>
    cases i with
    | zero => rfl
    | succ i => simp [insertIdx_succ_cons, ih (Nat.le_of_succ_le_succ h)]

/-- A new child registers nothing. -/
theorem insert_child {own : List UInt8} {handler : Option H} {fallback : Bool}
    (ht : (node own handler fallback cs).Ordered) (hi : i ≤ cs.length)
    (htk : ∀ d ∈ cs.take i, Before d.name c.name) (hdr : ∀ d ∈ cs.drop i, Before c.name d.name)
    (hc : c.Ordered) (hnn : ∀ q, c.registered q = none) :
    (node own handler fallback (cs.insertIdx i c)).Ordered ∧
      ∀ q, (node own handler fallback (cs.insertIdx i c)).registered q =
        (node own handler fallback cs).registered q := by
  cases ht with
  | node hp hal =>
    rw [insertIdx_eq hi]
    refine ⟨.node ?_ ?_, fun q => ?_⟩
    · rw [← take_append_drop i cs, pairwise_append] at hp
      rw [pairwise_append, pairwise_cons]
      refine ⟨hp.1, ⟨hdr, hp.2.1⟩, fun d hd d' hd' => ?_⟩
      rcases mem_cons.1 hd' with rfl | hd'
      · exact htk d hd
      · exact hp.2.2 d hd d' hd'
    · intro d hd
      rcases mem_append.1 hd with hd | hd
      · exact hal d (mem_of_mem_take hd)
      · rcases mem_cons.1 hd with rfl | hd
        · exact hc
        · exact hal d (mem_of_mem_drop hd)
    · cases q with
      | nil => rfl
      | cons name q =>
        rw [registered_cons, registered_cons]
        simp only [subtrees]
        by_cases hname : c.name = name
        · subst hname
          have hb : (cs.take i).find? (·.name = c.name) = none := by
            rw [find?_eq_none]
            intro d hd
            simpa using (htk d hd).ne
          rw [find?_missing htk hdr, find?_append, hb, find?_cons_of_pos (by simp)]
          exact hnn q
        · conv_rhs => rw [← take_append_drop i cs]
          rw [find?_append, find?_append, find?_cons_of_neg (by simpa using hname)]

/-- Creating nodes registers nothing. -/
theorem find_creates (ht : t.Ordered) (here : List ℕ) (path : ObjectPath) :
    ∃ t' p, findSubtreeRecurse true false here t path = (t', some (p ++ here, true)) ∧
      t'.Ordered ∧ t'.name = t.name ∧ (∀ q, t'.registered q = t.registered q) ∧ t'.Reaches path p := by
  induction path generalizing t here with
  | nil =>
    rw [findSubtreeRecurse]
    exact ⟨t, [], rfl, ht, rfl, fun _ => rfl, .root⟩
  | cons name path ih =>
    obtain ⟨own, handler, fallback, cs⟩ := t
    rw [findSubtreeRecurse]
    rcases search_children ht.pairwise name with ⟨k, c, hsr, hc, rfl⟩ | ⟨i, hsr, hi, htk, hdr⟩
    · have hc' : cs[k]? = some c := hc
      obtain ⟨c', p, hfn, ho, hname, hrg, hrc⟩ := ih (ht.child (mem_of_getElem? hc)) (k :: here)
      have hst : node own handler fallback (cs.set k c') =
          onChild k (fun _ => c') (node own handler fallback cs) := by
        simp [onChild, modify_eq_set_getElem?, hc']
      obtain ⟨hor, hnl, hsm, hot⟩ := exchange_child (f := fun _ => c') ht hc hname ho
      rw [show search (fun child => strcmp c.name child.name) cs = .found k from hsr]
      simp only [hc', hfn]
      rw [if_neg (by simp), hst]
      refine ⟨_, p ++ [k], by rw [append_assoc]; rfl, hor, onChild_name _ _, fun q => ?_, ?_⟩
      · cases q with
        | nil => exact hnl
        | cons name q =>
          by_cases hn : name = c.name
          · rw [hn, hsm, registered_child ht hc, hrg]
          · exact hot name q hn
      · rw [← hname]
        refine hrc.under ?_
        rw [← hst]
        obtain ⟨hk, -⟩ := List.getElem?_eq_some_iff.1 hc'
        simp [subtrees, hk]
    · obtain ⟨c', p, hfn, ho, hname, hrg, hrc⟩ := ih (ordered_new name) (i :: here)
      have hcn : c'.name = name := hname
      subst hcn
      obtain ⟨hor, hsm⟩ := insert_child ht hi htk hdr ho fun q => (hrg q).trans (registered_new _ q)
      rw [show search (fun child => strcmp c'.name child.name) cs = .missing i from hsr]
      simp only [if_true, hfn]
      refine ⟨_, p ++ [i], by rw [append_assoc]; rfl, hor, rfl, hsm, ?_⟩
      refine hrc.under ?_
      rw [subtrees, getElem?_insertIdx_self]
      exact if_pos hi

/-- An empty child can go. -/
theorem drop_child (ht : t.Ordered) (hc : t.subtrees[i]? = some c)
    (hnn : ∀ q, c.registered q = none) : (dropChild i t).Ordered ∧
      (dropChild i t).name = t.name ∧ ∀ q, (dropChild i t).registered q = t.registered q := by
  cases ht with
  | @node own handler fallback cs hp hal =>
    refine ⟨?_, rfl, fun q => ?_⟩
    · rw [dropChild]
      exact .node (hp.sublist (eraseIdx_sublist _ _)) fun d hd => hal d (mem_of_mem_eraseIdx hd)
    · cases q with
      | nil => rfl
      | cons name q =>
        have hc' : cs[i]? = some c := hc
        obtain ⟨hi, rfl⟩ := List.getElem?_eq_some_iff.1 hc'
        have hsp : cs = cs.take i ++ cs[i] :: cs.drop (i + 1) := by
          rw [← drop_eq_getElem_cons hi, take_append_drop]
        rw [registered_cons, registered_cons]
        simp only [dropChild, subtrees, eraseIdx_eq_take_drop_succ]
        by_cases hname : cs[i].name = name
        · subst hname
          have hg : (cs.take i ++ cs.drop (i + 1)).find? (·.name = cs[i].name) = none := by
            rw [hsp, pairwise_append, pairwise_cons] at hp
            rw [find?_eq_none]
            intro d hd
            rcases mem_append.1 hd with hd | hd
            · simpa using (hp.2.2 d hd _ mem_cons_self).ne
            · simpa using (hp.2.1.1 d hd).ne.symm
          rw [hg, find?_child hp hc']
          exact (hnn q).symm
        · conv_rhs => rw [hsp]
          rw [find?_append, find?_append, find?_cons_of_neg (by simpa using hname)]

theorem Reaches.after (h : t.Reaches path p) (hs : t.at? p = some s) (hname : (f s).name = s.name) :
    (t.modify p f).Reaches path p ∧ (t.modify p f).at? p = some (f s) := by
  induction h generalizing s f with
  | root =>
    cases hs
    exact ⟨.root, rfl⟩
  | @child path parent s' c i _ hs' hc ih =>
    obtain rfl : c = s := by
      rw [Subtree.at?, hs'] at hs
      exact Option.some.inj (hc.symm.trans hs)
    obtain ⟨hrc, hat⟩ := ih hs' (onChild_name i f)
    have hch : (onChild i f s').subtrees[i]? = some (f c) := by
      simp [onChild_subtrees, getElem?_modify_eq, hc]
    rw [← hname]
    refine ⟨.child hrc hat hch, ?_⟩
    show ((t.modify parent (onChild i f)).at? parent).bind _ = _
    rw [hat]
    exact hch

end

end Subtree

/-! ## Steps -/

section
variable {H : Type} {t : Subtree H} {path : ObjectPath} {s : Subtree H} {f : Subtree H → Subtree H}
  {p : List ℕ}

open Subtree

section
variable (s : Subtree H)

theorem registered_install (handler : H) (fallback : Bool) (q : ObjectPath) :
    (s.install handler fallback).registered q =
      if q = [] then some (handler, fallback) else s.registered q := by
  cases s
  cases q <;> rfl

theorem registered_clear (q : ObjectPath) :
    s.clear.registered q = if q = [] then none else s.registered q := by
  cases s
  cases q <;> rfl

theorem name_install (handler : H) (fallback : Bool) :
    (s.install handler fallback).name = s.name := by
  cases s
  rfl

theorem name_clear : s.clear.name = s.name := by
  cases s
  rfl

end

theorem ordered_install (h : s.Ordered) (handler : H) (fallback : Bool) :
    (s.install handler fallback).Ordered := by
  cases h with
  | node hp hal => exact .node hp hal

theorem ordered_clear (h : s.Ordered) : s.clear.Ordered := by
  cases h with
  | node hp hal => exact .node hp hal

/-- A change at one node is one at its path. -/
theorem registered_modify (new : Option (H × Bool)) (ht : t.Ordered) (hrc : t.Reaches path p)
    (hs : t.at? p = some s) (hname : (f s).name = s.name) (hf : (f s).Ordered)
    (hnw : ∀ q, (f s).registered q = if q = [] then new else s.registered q) :
    (t.modify p f).Ordered ∧ (t.modify p f).registered = Function.update t.registered path new := by
  obtain ⟨s', hs', -, hrg⟩ := hrc.at? ht
  obtain rfl : s = s' := Option.some.inj (hs.symm.trans hs')
  obtain ⟨ho, -, hb, hbs⟩ := hrc.modify ht hs hname hf
  refine ⟨ho, funext fun q => ?_⟩
  rw [update_apply]
  by_cases hq : path <+: q
  · obtain ⟨q, rfl⟩ := hq
    rw [hb, hnw, hrg]
    simp
  · have hne : q ≠ path := by
      rintro rfl
      exact hq (prefix_refl _)
    rw [hbs q hq, if_neg hne]

theorem unchanged_modify (ht : t.Ordered) (hrc : t.Reaches path p) (hs : t.at? p = some s)
    (hname : (f s).name = s.name) (hf : (f s).Ordered)
    (hsm : ∀ q, (f s).registered q = s.registered q) :
    (t.modify p f).Ordered ∧ (t.modify p f).registered = t.registered := by
  obtain ⟨ho, hu⟩ := registered_modify (s.registered []) ht hrc hs hname hf fun q => by
      cases q <;> simp [hsm]
  obtain ⟨s', hs', -, hrg⟩ := hrc.at? ht
  obtain rfl : s = s' := Option.some.inj (hs.symm.trans hs')
  refine ⟨ho, hu.trans ?_⟩
  rw [hrg, append_nil, update_eq_self]

/-- Registering refines the step of the registry. -/
theorem register_refines (ht : t.Ordered) (fallback : Bool) (path : ObjectPath) (handler : H) :
    ∃ t' r, objectTreeRegister t fallback path handler = .ok (t', r) ∧ t'.Ordered ∧
      t'.registered = t.registered.step (.register fallback path handler) ∧
      r = if t.registered path = none then .ok () else .error (objectPathInUse path) := by
  obtain ⟨t1, p, hfn, ho, -, hsm, hrc⟩ := find_creates ht [] path
  obtain ⟨s, hs, hsr, hrg⟩ := hrc.at? ho
  have hhr : s.registered [] = t.registered path := by rw [hrg, append_nil, hsm]
  rw [registered_nil] at hhr
  rw [append_nil] at hfn
  unfold objectTreeRegister
  rw [hfn]
  simp only
  rw [hs, valueOr_some, ok_bind, step]
  by_cases hhn : s.handler.isSome
  · have hu : t.registered path ≠ none := by
      obtain ⟨h, hh⟩ := isSome_iff_exists.1 hhn
      rw [← hhr, hh]
      nofun
    rw [if_pos hhn, if_neg hu, if_neg hu]
    exact ⟨t1, _, rfl, ho, funext hsm, rfl⟩
  · have hfr : t.registered path = none := by
      rw [← hhr, not_isSome_iff_eq_none.1 hhn]
      rfl
    rw [if_neg hhn, if_pos hfr, if_pos hfr]
    obtain ⟨hor, hup⟩ := registered_modify _ ho hrc hs (name_install s handler fallback)
      (ordered_install hsr handler fallback) (registered_install s handler fallback)
    refine ⟨_, _, rfl, hor, ?_, rfl⟩
    rw [hup, funext hsm]

theorem registered_leaf (h : s.subtrees = []) (q : ObjectPath) : s.clear.registered q = none := by
  obtain ⟨name, handler, fallback, cs⟩ := s
  obtain rfl : cs = [] := h
  cases q <;> rfl

/-- So does unregistering. -/
theorem unregister_refines (ht : t.Ordered) (path : ObjectPath) :
    ∃ t' handler, objectTreeUnregister t path = .ok (t', handler) ∧ t'.Ordered ∧
      t'.registered = t.registered.step (.unregister path) ∧
      handler = (t.registered path).map Prod.fst := by
  have hun : t.registered path = none → t.registered = t.registered.step (.unregister path) := by
    intro hnn
    rw [step]
    nth_rewrite 1 [← update_eq_self path t.registered]
    rw [hnn]
  obtain ⟨hsm, hfn⟩ := find_finds false ht [] path
  unfold objectTreeUnregister
  generalize hr : findSubtreeRecurse false false [] t path = r at hsm hfn
  obtain ⟨t0, r⟩ := r
  obtain rfl : t0 = t := hsm
  generalize hh : ([] : List ℕ) = here at hfn
  cases hfn with
  | none hnn _ => exact ⟨t0, none, rfl, ht, hun hnn, by rw [hnn]; rfl⟩
  | above _ hdp => cases hdp
  | @exact p here hrc =>
    subst hh
    rw [append_nil]
    simp only
    obtain ⟨s, hs, hsr, hrg⟩ := hrc.at? ht
    have hh : s.registered [] = t0.registered path := by rw [hrg, append_nil]
    rw [registered_nil] at hh
    rw [hs, valueOr_some, ok_bind]
    cases hhn : s.handler with
    | none =>
      rw [hhn] at hh
      exact ⟨t0, none, rfl, ht, hun hh.symm, by rw [← hh]; rfl⟩
    | some handler =>
      obtain ⟨ho, hu⟩ := registered_modify _ ht hrc hs (name_clear s)
        (ordered_clear hsr) (registered_clear s)
      have hg : some handler = (t0.registered path).map Prod.fst := by
        rw [← hh, hhn]
        rfl
      cases hrc with
      | root => exact ⟨_, _, rfl, ho, hu, hg⟩
      | @child front parent s' c i hp hs' hc =>
        obtain rfl : c = s := by
          rw [Subtree.at?, hs'] at hs
          exact Option.some.inj (hc.symm.trans hs)
        simp only
        by_cases hl : c.subtrees = []
        · -- what is taken out of the parent had nothing
          rw [if_pos hl]
          obtain ⟨s'', hs'', hpo, -⟩ := hp.at? ht
          obtain rfl : s' = s'' := Option.some.inj (hs'.symm.trans hs'')
          obtain ⟨hrc1, hat1⟩ := hp.after hs' (f := onChild i clear) (onChild_name _ _)
          obtain ⟨hnd, -, -, -⟩ :=
            exchange_child (f := clear) hpo hc (name_clear c) (ordered_clear hsr)
          have hch : (onChild i clear s').subtrees[i]? = some c.clear := by
            simp [onChild_subtrees, getElem?_modify_eq, hc]
          obtain ⟨hdr, hdn, hds⟩ := drop_child hnd hch (registered_leaf hl)
          exact ⟨_, _, rfl, (unchanged_modify ho hrc1 hat1 hdn hdr hds).1,
            (unchanged_modify ho hrc1 hat1 hdn hdr hds).2.trans hu, hg⟩
        · rw [if_neg hl]
          exact ⟨_, _, rfl, ho, hu, hg⟩

theorem treeStep_refines (ht : t.Ordered) (event : TreeEvent H) :
    ∃ t', treeStep t event = .ok t' ∧ t'.Ordered ∧ t'.registered = t.registered.step event := by
  cases event with
  | register fallback path handler =>
    obtain ⟨t', r, hrn, ho, hst, -⟩ := register_refines ht fallback path handler
    refine ⟨t', ?_, ho, hst⟩
    simp [treeStep, hrn]
  | unregister path =>
    obtain ⟨t', handler, hrn, ho, hst, -⟩ := unregister_refines ht path
    refine ⟨t', ?_, ho, hst⟩
    simp [treeStep, hrn]

/-- **The tree refines the registry** over any run. -/
theorem treeRun_refines (ht : t.Ordered) (events : List (TreeEvent H)) :
    ∃ t', treeRun t events = .ok t' ∧ t'.Ordered ∧ t'.registered = t.registered.run events := by
  induction events generalizing t with
  | nil => exact ⟨t, rfl, ht, rfl⟩
  | cons event events ih =>
    obtain ⟨t1, hst, ho, hrg⟩ := treeStep_refines ht event
    obtain ⟨t', hrn, ho', hrg'⟩ := ih ho
    refine ⟨t', ?_, ho', ?_⟩
    · rw [treeRun, hst]
      exact hrn
    · rw [hrg', hrg]
      rfl

/-! ## Dispatch -/

section
variable (path : ObjectPath) (name : List UInt8)

theorem inits_snoc : (path ++ [name]).inits = path.inits ++ [path ++ [name]] := by
  simp [inits_append]

theorem dropLast_inits_snoc : (path ++ [name]).inits.dropLast = path.inits := by
  rw [inits_snoc, dropLast_append_of_ne_nil (by simp)]
  simp

end

theorem fallbacks_split (registry : Registry H) (path : ObjectPath) :
    path.inits.reverse.filterMap registry.fallback = (registry.fallback path).toList ++
      path.inits.dropLast.reverse.filterMap registry.fallback := by
  have hi : path.inits = path.inits.dropLast ++ [path] := by
    rcases eq_nil_or_concat path with rfl | ⟨front, name, rfl⟩
    · rfl
    · rw [concat_eq_append, dropLast_inits_snoc, inits_snoc]
  conv_lhs => rw [hi]
  rw [reverse_append, reverse_singleton, singleton_append]
  cases hf : registry.fallback path with
  | none => rw [filterMap_cons_none hf, toList_none, nil_append]
  | some h => rw [filterMap_cons_some hf, toList_some, singleton_append]

theorem coveringHandlers_eq (ht : t.Ordered) (hrc : t.Reaches path p) (exact : Bool) :
    coveringHandlers t exact p = .ok ((if exact then (t.registered path).map Prod.fst
      else t.registered.fallback path).toList ++
        path.inits.dropLast.reverse.filterMap t.registered.fallback) := by
  -- what the node at the pointer contributes
  have hh : ∀ (exact : Bool) {path p s}, t.Reaches path p → t.at? p = some s →
      (if exact = true ∨ s.invokeAsFallback = true then s.handler.toList else []) =
        (if exact = true then (t.registered path).map Prod.fst
          else t.registered.fallback path).toList := by
    intro exact path p s hrc hs
    obtain ⟨s', hs', -, hrg⟩ := hrc.at? ht
    obtain rfl : s = s' := Option.some.inj (hs.symm.trans hs')
    have hnd := hrg []
    rw [append_nil, registered_nil] at hnd
    rw [fallback, ← hnd]
    cases exact <;> cases s.invokeAsFallback <;> cases s.handler <;> rfl
  induction hrc generalizing exact with
  | root =>
    rw [coveringHandlers, Subtree.at?, valueOr_some, ok_bind, hh exact .root rfl]
    simp
  | @child path parent s c i hp hs hc ih =>
    have hat : t.at? (i :: parent) = some c := by
      rw [Subtree.at?, hs]
      exact hc
    rw [coveringHandlers, hat, valueOr_some, ok_bind, hh exact (.child hp hs hc) hat]
    simp only
    rw [ih false, ok_bind, dropLast_inits_snoc, fallbacks_split]
    rfl

theorem fallbacks_of_covers {front : ObjectPath} (h : t.Covers front path) :
    path.inits.dropLast.reverse.filterMap t.registered.fallback =
      front.inits.reverse.filterMap t.registered.fallback := by
  obtain ⟨back, rfl⟩ := h.proper.1
  have hb : back ≠ [] := by
    rintro rfl
    exact h.proper.2 (append_nil _).symm
  obtain ⟨back, name, rfl⟩ := (eq_nil_or_concat back).resolve_left hb
  rw [concat_eq_append, ← append_assoc, dropLast_inits_snoc, inits_append,
    reverse_append, filterMap_append]
  have hnn : (List.map (front ++ ·) back.inits.tail).reverse.filterMap t.registered.fallback = [] := by
    rw [filterMap_eq_nil_iff]
    intro mid hmd
    rw [mem_reverse, List.mem_map] at hmd
    obtain ⟨more, hm, rfl⟩ := hmd
    have hne : more ≠ [] := by
      rintro rfl
      cases back with
      | nil | cons _ _ => simp at hm
    refine h.between _ ?_ ?_
    · rw [prefix_append_right_inj, concat_eq_append]
      exact ((mem_inits _ _).1 (mem_of_mem_tail hm)).trans (prefix_append _ _)
    · rw [length_append]
      have := length_pos_iff.2 hne
      omega
  rw [hnn, nil_append]

/-- The handlers are those the registry names. -/
theorem handlersFor_eq (ht : t.Ordered) (path : ObjectPath) :
    handlersFor t path = .ok (t.registered.handlers path) := by
  obtain ⟨-, hfn⟩ := find_finds true ht [] path
  unfold handlersFor
  generalize (t.findSubtreeRecurse false true [] path).2 = r at hfn
  generalize hh : ([] : List ℕ) = here at hfn
  rw [handlers]
  cases hfn with
  | @exact p here hrc =>
    subst hh
    simp only
    rw [append_nil, coveringHandlers_eq ht hrc, if_pos rfl]
  | none hnn hfr =>
    have hem : path.inits.dropLast.reverse.filterMap t.registered.fallback = [] := by
      rw [filterMap_eq_nil_iff]
      intro front hm
      exact hfr rfl front ((mem_inits _ _).1 (mem_of_mem_dropLast (mem_reverse.1 hm)))
    rw [hnn, hem]
    rfl
  | @above front p here _ hnn hrc hcv =>
    subst hh
    simp only
    rw [append_nil, coveringHandlers_eq ht hrc, hnn, fallbacks_of_covers hcv, fallbacks_split]
    rfl

/-- The handlers are called in turn, up to the first that does not answer
    `DBUS_HANDLER_RESULT_NOT_YET_HANDLED`. -/
theorem invokeHandlers_eq (answer : H → HandlerResult) (handlers : List H) :
    invokeHandlers answer handlers = (handlers.takeWhile (answer · = .notYetHandled) ++
        (handlers.find? (answer · ≠ .notYetHandled)).toList,
      ((handlers.find? (answer · ≠ .notYetHandled)).map answer).getD .notYetHandled) := by
  induction handlers with
  | nil => rfl
  | cons handler handlers ih =>
    rw [invokeHandlers]
    by_cases han : answer handler = .notYetHandled
    · rw [if_neg (not_not.2 han), ih, takeWhile_cons, if_pos (by simpa using han),
        find?_cons_of_neg (by simpa using han)]
      rfl
    · rw [if_pos han, takeWhile_cons, if_neg (by simpa using han),
        find?_cons_of_pos (by simpa using han)]
      rfl

/-- After any sequence of calls, a message with a valid path is given to the handler that is
    registered for it and to the fallbacks above, the deepest first, up to the first that
    does not answer that it has not handled it; behind them stands the default handler. -/
theorem dispatch_exact (events : List (TreeEvent H)) (answer : H → HandlerResult)
    (isIntrospect : Bool) {data : List UInt8} (hdata : PathValid data) :
    ∃ t path handlers, treeRun objectTreeNew events = .ok t ∧
      (∀ name ∈ path, IsElement name) ∧ data = flattenPath path ∧
      handlers = (run (fun _ => none) events).handlers path ∧
      objectTreeDispatch t answer isIntrospect (some data) =
        .ok (handlers.takeWhile (answer · = .notYetHandled) ++
            (handlers.find? (answer · ≠ .notYetHandled)).toList,
          match handlers.find? (answer · ≠ .notYetHandled) with
          | some handler => answer handler
          | none => if isIntrospect then .handled else .notYetHandled) := by
  have hnw : (objectTreeNew : Subtree H).Ordered := .node .nil nofun
  have hem : (objectTreeNew : Subtree H).registered = fun _ => none := by
    funext path
    cases path <;> rfl
  obtain ⟨t, hrn, ho, hrg⟩ := treeRun_refines hnw events
  rw [hem] at hrg
  obtain ⟨path, hp, rfl⟩ := flatten_of_pathValid hdata
  refine ⟨t, path, _, hrn, hp, rfl, rfl, ?_⟩
  rw [objectTreeDispatch, decomposePath_flatten hp, ok_bind, handlersFor_eq ho path,
    hrg, ok_bind, invokeHandlers_eq]
  simp only
  cases hfr : List.find? (answer · ≠ .notYetHandled)
      ((run (fun _ => none) events).handlers path) with
  | none => rfl
  | some handler =>
    have han : answer handler ≠ .notYetHandled := by simpa using find?_some hfr
    simp [map_some, getD_some, if_neg han]

/-- A message for `/a/b`: the handler there does not want it, the fallback at `/` does, and the
    one at `/a` is not asked. -/
theorem dispatch_fallback : ∃ t,
    treeRun objectTreeNew [.register true [] 0, .register false [asciiBytes "a"] 1,
      .register false [asciiBytes "a", asciiBytes "b"] 2] = .ok t ∧
    objectTreeDispatch t (fun h => if h = 0 then .handled else .notYetHandled) false
      (some (asciiBytes "/a/b")) = .ok ([2, 0], .handled) := by
  obtain ⟨t, path, handlers, hrn, hp, hdt, hh, hds⟩ :=
    dispatch_exact [.register true [] 0, .register false [asciiBytes "a"] 1,
      .register false [asciiBytes "a", asciiBytes "b"] 2]
      (fun h => if h = 0 then .handled else .notYetHandled) false
      (show PathValid (asciiBytes "/a/b") by decide)
  obtain rfl : path = [asciiBytes "a", asciiBytes "b"] := by
    have := decomposePath_flatten hp
    rw [← hdt] at this
    exact (Except.ok.inj this).symm
  obtain rfl : handlers = [2, 0] := hh
  exact ⟨t, hrn, hds⟩

end

end DBus
